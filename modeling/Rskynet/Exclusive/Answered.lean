import Rskynet.Exclusive.Accounted

/-!
# When the requests to an exclusive service are answered

The thread of an exclusive service cleans up once more as long as its release of the mailbox fails,
and ends when it succeeds. From then on nobody reads the mailbox: a delivery finds the service idle
and interrupts a thread that has ended.

* `exclusive_answered_iff` — **PROVED**: at rest every request is answered or dispatched exactly if no
  step was late;
* `AtRest.nothing_left` — **PROVED**: a thread that sleeps has nothing left to do.
-/

namespace Rskynet.Exclusive

open Mq (Hold Call)
open Service List Interleave Multiset Bool

variable {ι : Type*}

/-! ### The end of the thread -/

def Point.last : Point → Bool
  | .clean .release => true
  | .clean .finished => true
  | .account => true
  | .ended => true
  | _ => false

def Config.over (c : Config ι) : Bool := c.point.last && c.hold.isNone

def Config.releasing (c : Config ι) : Bool :=
  match c.point, c.hold, c.box.state with
  | .clean .release, .releaseCas, .running => true
  | _, _, _ => false

def Config.asked (c : Config ι) : Bool := c.box.queue.any Message.isRequest

/-- The step releases a mailbox with a request in it for good, or pushes a request into a mailbox
that has been released for good. -/
def late (c : Config ι) : Action ι → Bool
  | .hold => c.releasing && c.asked
  | .call t =>
      match c.call t with
      | .queuePush m => m.isRequest && c.over
      | _ => false
  | _ => false

/-- A request is in a mailbox that nobody reads. -/
def Stranded (c : Config ι) : Prop := c.over = true ∧ c.asked = true

def Cleared (c : Config ι) : Prop := c.over = true → c.asked = false

theorem over_iff {c : Config ι} : c.over = true ↔ c.point.last = true ∧ c.hold = .none := by
  unfold Config.over
  rw [and_eq_true]
  refine and_congr_right fun _ => ?_
  cases c.hold <;> simp [Mq.Hold.isNone]

/-! ### One step -/

section Steps

variable {b b' : Box} {call call' : Delivery} {queued : Bool}

theorem callStep_queue (hs : callStep b call = some (b', call', queued)) :
    (∃ m, call = .queuePush m ∧ b'.queue = b.queue ++ [m]) ∨
      ((∀ m, call ≠ .queuePush m) ∧ b'.queue = b.queue) := by
  cases call with
  | queuePush m =>
    cases hs
    exact .inl ⟨m, rfl, rfl⟩
  | casIdle pushed =>
    refine .inr ⟨by simp, ?_⟩
    simp only [callStep] at hs
    split at hs <;> obtain ⟨rfl, -, -⟩ := hs <;> rfl
  | casRunning pushed =>
    refine .inr ⟨by simp, ?_⟩
    simp only [callStep, Mq.callStep] at hs
    split at hs <;> obtain ⟨rfl, -, -⟩ := hs <;> rfl
  | pushMark | pushInsert | idle => cases hs
  | _ =>
    cases hs
    exact .inr ⟨by simp, rfl⟩

variable {k k' : Core} {hold hold' : Held} {key : ℕ} {outcome : Outcome}
  {p p' : Point} {start : Option Delivery}

theorem Moved.last_iff (h : Moved k b hold key outcome p k' b' hold' p' start) :
    (p'.last = true ∧ hold' = .none) ↔ (p.last = true ∧ hold = .none) := by
  cases h with
  | clean r r' k' hold' h =>
    cases cleanStep_moved h with
    | init | uninit => exact ⟨fun hp => (nomatch hp.2), fun hp => (nomatch hp.1)⟩
    | again hhold =>
      subst hhold
      exact ⟨fun hp => (nomatch hp.1), fun hp => (nomatch hp.2)⟩
    | finish => exact Iff.rfl
    | _ => exact ⟨fun hp => (nomatch hp.1), fun hp => (nomatch hp.1)⟩
  | mark p p' h =>
    rcases h with ⟨rfl, rfl⟩ | ⟨rfl, rfl⟩ | ⟨rfl, rfl⟩ <;>
      exact ⟨fun hp => (nomatch hp.1), fun hp => (nomatch hp.1)⟩
  | gone | destroy | account => exact Iff.rfl
  | _ => exact ⟨fun hp => (nomatch hp.1), fun hp => (nomatch hp.1)⟩

theorem releasing_of_holdStep {c : Config ι} (hsync : Synced c.hold c.point)
    (hs : holdStep c.box c.hold = some (b', hold')) (hlast : c.point.last = true)
    (hnone : hold' = .none) : c.releasing = true ∧ b'.queue = c.box.queue := by
  have hstep := (holdStep_shared hs 0).1
  have hno : c.hold ≠ .none := by
    intro h
    rw [h] at hs
    cases hs
  cases hp : c.point with
  | clean r =>
    rw [hp] at hsync hlast
    cases r with
    | release =>
      have hreleasing : releasing c.hold = true := hsync
      cases hh : c.hold with
      | releaseCas =>
        rw [hh] at hstep
        simp only [Mq.holdStep] at hstep
        split at hstep
        · next hstate =>
          cases hstep
          exact ⟨by simp [Config.releasing, hp, hh, hstate], rfl⟩
        · cases hstep
          cases hnone
        · cases hstep
          cases hnone
      | releaseReset =>
        rw [hh] at hstep
        cases hstep
        cases hnone
      | none => exact absurd hh hno
      | holding | panicked =>
        rw [hh] at hstep
        cases hstep
      | _ =>
        rw [hh] at hreleasing
        cases hreleasing
    | finished => exact absurd hsync hno
    | _ => cases hlast
  | account | ended =>
    rw [hp] at hsync
    exact absurd hsync hno
  | _ =>
    rw [hp] at hlast
    cases hlast

end Steps

/-! ### Runs with a late step, and runs without one -/

section Runs

variable [DecidableEq ι] {me : ι} {c c' : Config ι} {a : Action ι}

theorem begin_over (t : ι) (call : Option Delivery) :
    (c.begin t call).over = c.over ∧ (c.begin t call).asked = c.asked := by
  cases call <;> exact ⟨rfl, rfl⟩

/-- What one step does to the end of the thread and to the queue: nothing; or it pushes a message;
or it is a mailbox operation; or the thread moves on. -/
theorem act_over (hs : act me a c = some c') :
    (c'.over = c.over ∧ c'.asked = c.asked ∧ late c a = false) ∨
    (∃ t m, a = .call t ∧ c.call t = .queuePush m ∧ c'.over = c.over ∧
      c'.box.queue = c.box.queue ++ [m]) ∨
    (∃ b hold, a = .hold ∧ holdStep c.box c.hold = some (b, hold) ∧
      c' = { c with box := b, hold := hold }) := by
  cases act_acted hs with
  | inner t k i call =>
    exact .inl ⟨(begin_over t call).1, (begin_over t call).2, rfl⟩
  | call t b p queued hquiet hc =>
    rcases callStep_queue hc with ⟨m, hm, hq⟩ | ⟨hm, hq⟩
    · exact .inr (.inl ⟨t, m, rfl, hm, rfl, hq⟩)
    · refine .inl ⟨rfl, by simp only [Config.asked, hq], ?_⟩
      simp only [late]
  | hold b p hfree hh => exact .inr (.inr ⟨b, p, rfl, hh, rfl⟩)
  | step key outcome k b hold p call hfree hm =>
    refine .inl ⟨(begin_over me call).1.trans ?_, (begin_over me call).2.trans ?_, rfl⟩
    · rw [Bool.eq_iff_iff, over_iff, over_iff]
      exact hm.last_iff
    · simp only [Config.asked, hm.queue]
  | _ => exact .inl ⟨rfl, rfl, rfl⟩

theorem stranded_of_late (hlate : late c a = true) (hs : act me a c = some c') : Stranded c' := by
  rcases act_over hs with ⟨-, -, hno⟩ | ⟨t, m, rfl, hm, hover, hq⟩ | ⟨b, hold, rfl, hstep, rfl⟩
  · rw [hno] at hlate
    cases hlate
  · simp only [late, hm, and_eq_true] at hlate
    refine ⟨hover.trans hlate.2, ?_⟩
    rw [Config.asked, hq]
    simp [hlate.1]
  · simp only [late, and_eq_true] at hlate
    obtain ⟨hrel, hasked⟩ := hlate
    unfold Config.releasing at hrel
    split at hrel
    · next hp hh hstate =>
      rw [hh] at hstep
      simp only [holdStep, Mq.holdStep, hstate] at hstep
      cases hstep
      exact ⟨over_iff.mpr ⟨by rw [hp]; rfl, rfl⟩, hasked⟩
    · cases hrel

theorem Stranded.act (h : Stranded c) (hs : act me a c = some c') : Stranded c' := by
  rcases act_over hs with ⟨hover, hasked, -⟩ | ⟨t, m, -, -, hover, hq⟩ | ⟨b, hold, -, hstep, -⟩
  · exact ⟨hover.trans h.1, hasked.trans h.2⟩
  · refine ⟨hover.trans h.1, ?_⟩
    have hasked := h.2
    unfold Config.asked at hasked ⊢
    rw [hq, any_append, hasked, Bool.true_or]
  · rw [(over_iff.mp h.1).2] at hstep
    cases hstep

theorem Cleared.act (h : Cleared c) (hsync : Synced c.hold c.point) (hlate : late c a = false)
    (hs : act me a c = some c') : Cleared c' := by
  intro hover'
  rcases act_over hs with ⟨hover, hasked, -⟩ | ⟨t, m, rfl, hm, hover, hq⟩ | ⟨b, hold, rfl, hstep, rfl⟩
  · rw [hasked]
    exact h (hover.symm.trans hover')
  · have hover := hover.symm.trans hover'
    have hasked := h hover
    simp only [late, hm, hover, Bool.and_true] at hlate
    unfold Config.asked at hasked ⊢
    rw [hq, any_append, hasked]
    simp [hlate]
  · obtain ⟨hlast, hnone⟩ := over_iff.mp hover'
    obtain ⟨hrel, hq⟩ := releasing_of_holdStep hsync hstep hlast hnone
    simp only [late, hrel, Bool.true_and] at hlate
    unfold Config.asked at hlate ⊢
    rwa [hq]

end Runs

/-! ### At rest -/

/-- Nothing runs any more: the thread has ended, or sleeps without a signal after its init has
returned, and no other thread delivers or is inside a call of `send_raw` or `retire`. -/
structure AtRest (c : Config ι) : Prop where
  still : c.point = .ended ∨
    (c.point = .idle ∧ c.signalled = false ∧ c.core.lifecycle ≠ .initializing)
  free : ∀ t, c.inner t = .none
  idle : ∀ t, c.call t = .idle
  quiet : ∀ t, c.interrupting t = false

section Rest

variable [Fintype ι] [DecidableEq ι] {me : ι} {c : Config ι}

theorem AtRest.hold (hrest : AtRest c) (hrun : Reachable me c) : c.hold = .none := by
  have hsync := (project_reachable hrun).2
  rcases hrest.still with hp | ⟨hp, -⟩
  · rw [hp] at hsync
    exact hsync
  · rw [hp] at hsync
    exact hsync

theorem AtRest.box (hrest : AtRest c) (hrun : Reachable me c) (hp : c.point = .idle) :
    c.box.state = .idle ∧ c.box.queue = [] := by
  have hbox := reachable_box hrun
  have hsignal : c.signalled = false := by
    rcases hrest.still with hend | ⟨-, hs, -⟩
    · rw [hp] at hend
      cases hend
    · exact hs
  have hqueued : c.box.state ≠ .queued := by
    intro hs
    rcases (reachable_control hrun).signal (by rw [hp]; rfl) hs with h | ⟨t, ht⟩
    · rw [hsignal] at h
      cases h
    · rw [hrest.quiet t] at ht
      cases ht
  have hholders : Mq.holders (project me c) = 0 := by
    refine Finset.sum_eq_zero fun t _ => ?_
    show (if (solo me c.hold t).holds = true then 1 else 0) = 0
    rw [hrest.hold hrun, show solo me Hold.none t = .none from by
      unfold solo
      rw [Function.update_apply]
      split <;> rfl]
    rfl
  have hidle : c.box.state = .idle := by
    have hb : Mq.Balanced c.box.state _ _ := hbox.balanced
    cases hs : c.box.state <;> simp_all [Mq.Balanced]
  have hnotifiers : Mq.notifiers (project me c) = 0 := by
    refine Finset.sum_eq_zero fun t _ => ?_
    show (if (c.call t).notifying = true then 1 else 0) = 0
    rw [hrest.idle t]
    rfl
  exact ⟨hidle, ((hbox.rest hidle).resolve_right (by omega)).1⟩

theorem AtRest.backlog (hrest : AtRest c) (hrun : Reachable me c) : c.core.backlog = 0 := by
  have hctl := reachable_control hrun
  have hpending : c.core.pending = none := by
    rcases hrest.still with hp | ⟨hp, hsignal, hinit⟩
    · exact hctl.stands.emptied (by rw [hp]; rfl)
    · refine hctl.stands.rested (by rw [hp]; rfl) ?_
      have halive : c.core.dead = false := by
        by_contra hdead
        rcases hctl.attended hp (by simpa using hdead) with h | h | ⟨t, ht⟩
        · rw [hsignal] at h
          cases h
        · exact h (hrest.box hrun hp).1
        · unfold Prompt at ht
          rw [hrest.free t, hrest.idle t, hrest.quiet t] at ht
          rcases ht with ht | ht | ht <;> cases ht
      have hregistered : c.core.registered = true := by
        by_contra hgone
        rcases hctl.retiring (by simpa using hgone) with h | ⟨t, ht⟩
        · rw [halive] at h
          cases h
        · rw [hrest.free t] at ht
          cases ht
      cases hlife : c.core.lifecycle with
      | initializing => exact absurd hlife hinit
      | running => rfl
      | failed =>
        rcases hctl.failed hlife with h | h
        · rw [hregistered] at h
          cases h
        · rw [hp] at h
          cases h
  rw [Core.backlog, hpending]
  rfl

theorem AtRest.balance (hrest : AtRest c) (hrun : Reachable me c) :
    requests (c.core.accepted : Multiset Message)
      = requests (c.box.queue : Multiset Message) + c.core.settled := by
  have hhands : ∀ t, hands c t = 0 := by
    intro t
    unfold hands
    rw [hrest.free t, hrest.idle t]
    rfl
  have hhand : c.point.hand c.hold = 0 := by
    rw [hrest.hold hrun]
    rcases hrest.still with hp | ⟨hp, -⟩ <;> rw [hp] <;> rfl
  have hbalance := (reachable_accounted hrun).balance
  rwa [Finset.sum_eq_zero fun t _ => hhands t, held, hhand, hrest.backlog hrun, zero_add, zero_add,
    add_zero] at hbalance

theorem AtRest.answered_iff (hrest : AtRest c) (hrun : Reachable me c) :
    (∀ r ∈ c.core.accepted, r.isRequest = true →
      c.core.dispatched.count r = 1 ∨ (r ∉ c.core.dispatched ∧ c.core.errors.count r = 1)) ↔
    c.asked = false := by
  have hledger := (reachable_accounted hrun).ledger
  have hbalance := hrest.balance hrun
  constructor
  · intro hall
    by_contra hasked
    obtain ⟨r, hr, hreq⟩ := any_eq_true.mp (eq_true_of_not_eq_false hasked)
    obtain ⟨hacc, hdisp, herr⟩ := hledger.unsettled hbalance (mem_coe.mpr hr) hreq
    rcases hall r hacc hreq with h | ⟨-, h⟩
    · rw [count_eq_zero.mpr hdisp] at h
      cases h
    · rw [herr] at h
      cases h
  · intro hasked r hr hreq
    refine hledger.settled_once ?_ hr hreq
    rw [hbalance, requests_zero]
    congr 1
    refine filter_eq_nil.mpr fun m hm => ?_
    have hno := any_eq_false.mp hasked m (mem_coe.mp hm)
    exact hno

/-- **No step of the thread meets a missing backlog.** -/
theorem not_panicked (hrun : Reachable me c) (m : Message) :
    c.point ≠ .run (.work (.panicked m)) ∧ ∀ budget, c.point ≠ .drain (.work budget (.panicked m)) := by
  have hstands := (reachable_control hrun).stands
  constructor
  · intro hp
    exact (hstands.prepared (by rw [hp]; rfl)).safe m (by rw [hp]; rfl)
  · intro budget hp
    exact (hstands.prepared (by rw [hp]; rfl)).safe m (by rw [hp]; rfl)

theorem AtRest.asked_iff (hrest : AtRest c) (as : List (Action ι))
    (hexec : exec (act me) as (Config.start ι) = some c) :
    c.asked = false ↔
      along (act me) (fun c a => late c a = false) as (Config.start ι) := by
  have hrun : Reachable me c := Interleave.Reachable.of_run hexec
  constructor
  · intro hasked
    by_contra hlate
    obtain ⟨-, hstranded⟩ : Stranded c :=
      exec_of_not_along
        (fun a s s' ha hs => stranded_of_late (eq_true_of_not_eq_false ha) hs)
        (fun a s s' h hs => h.act hs) as hlate hexec
    rw [hasked] at hstranded
    cases hstranded
  · intro htimely
    have hcleared : Reachable me c ∧ Cleared c := by
      refine exec_invariant (I := fun c => Reachable me c ∧ Cleared c) ?_ as
        ⟨Interleave.Reachable.refl, nofun⟩ htimely hexec
      rintro a s s' ⟨hr, h⟩ hlate hs
      exact ⟨hr.tail ⟨a, hs⟩, h.act (project_reachable hr).2 hlate hs⟩
    rcases hrest.still with hp | ⟨hp, -⟩
    · exact hcleared.2 (over_iff.mpr ⟨by rw [hp]; rfl, hrest.hold hrun⟩)
    · rw [Config.asked, (hrest.box hrun hp).2]
      rfl

/-- **Every request to an exclusive service is answered or dispatched exactly when no step is
late.** In every run no request has two errors and the thread does not panic; at rest, a request is
left over exactly if the mailbox was released for good with a request in it, or got one after that.
-/
theorem exclusive_answered_iff (me : ι) (as : List (Action ι)) (c : Config ι)
    (hexec : Interleave.exec (act me) as (Config.start ι) = some c) :
    (∀ r, c.core.errors.count r ≤ 1) ∧
    (∀ r ∈ c.core.dispatched, c.core.errors.count r = if r ∈ c.core.caught then 1 else 0) ∧
    (∀ m, c.point ≠ .run (.work (.panicked m)) ∧
      ∀ budget, c.point ≠ .drain (.work budget (.panicked m))) ∧ (AtRest c →
      ((∀ r ∈ c.core.accepted, r.isRequest = true →
          c.core.dispatched.count r = 1 ∨
            (r ∉ c.core.dispatched ∧ c.core.errors.count r = 1)) ↔
        Interleave.along (act me) (fun c a => late c a = false) as (Config.start ι)) ∧
      ((∀ r ∈ c.box.queue, r.isRequest = false) ↔
        Interleave.along (act me) (fun c a => late c a = false) as (Config.start ι))) := by
  have hrun : Reachable me c := Interleave.Reachable.of_run hexec
  have hacc := reachable_accounted hrun
  refine ⟨hacc.ledger.errors_le_one hacc.balance,
    fun r hr => hacc.ledger.errors_dispatched hacc.balance hr, not_panicked hrun, ?_⟩
  intro hrest
  have hasked := hrest.asked_iff as hexec
  refine ⟨(hrest.answered_iff hrun).trans hasked, Iff.trans ?_ hasked⟩
  rw [Config.asked, any_eq_false]
  exact forall₂_congr fun r _ => (not_eq_true _).symm ▸ Iff.rfl

end Rest

/-! ### Two runs -/

/-- Thread `0` is the service's, thread `1` sends, thread `2` kills.  The service is killed with the
message in its mailbox. -/
def earlyPush : List (Action (Fin 3)) := List.flatten [
  [.step 0 .done, .grab 1 5 7 0, .inner 1, .call 1, .call 1, .call 1, .call 1],
  [.retire 2 false, .inner 2, .inner 2, .inner 2, .call 2, .inner 2],
  List.replicate 10 (.step 0 .done), List.replicate 5 .hold, List.replicate 3 (.step 0 .done),
  [.hold], List.replicate 3 (.step 0 .done)]

/-- The same, but the message is pushed after the thread has ended. -/
def latePush : List (Action (Fin 3)) := List.flatten [
  [.step 0 .done, .grab 1 5 7 0],
  [.retire 2 false, .inner 2, .inner 2, .inner 2, .call 2, .call 2, .inner 2],
  List.replicate 10 (.step 0 .done), List.replicate 3 .hold, List.replicate 3 (.step 0 .done),
  [.hold], List.replicate 3 (.step 0 .done),
  [.inner 1, .call 1, .call 1, .call 1, .call 1, .interrupt 1]]

def Config.allDone (c : Config (Fin 3)) : Bool :=
  (match c.point with
    | .ended => true
    | _ => false) && decide (∀ t, c.free t = true)

theorem AtRest.of_allDone {c : Config (Fin 3)} (h : c.allDone = true) : AtRest c := by
  simp only [Config.allDone, and_eq_true, decide_eq_true_eq] at h
  obtain ⟨hend, hfree⟩ := h
  refine ⟨.inl ?_, ?_, ?_, ?_⟩
  · split at hend
    · assumption
    · cases hend
  all_goals
    intro t
    have hf := hfree t
    simp only [Config.free, and_eq_true, not_eq_true'] at hf
  · cases hi : c.inner t <;> simp_all [Inner.isNone]
  · cases hi : c.call t <;> simp_all [Mq.Call.isIdle]
  · exact hf.2

theorem earlyPush_end :
    (exec (act 0) earlyPush (Config.start (Fin 3))).map
      (fun c => (c.allDone, c.box.queue, c.core.accepted, c.core.dispatched))
      = some (true, [], [⟨0, 5, 7, 0⟩], []) := by
  decide +kernel

theorem answered_of_earlyPush :
    ∃ c : Config (Fin 3), Interleave.exec (act 0) earlyPush (Config.start (Fin 3)) = some c ∧
      AtRest c ∧ (⟨0, 5, 7, 0⟩ : Message) ∈ c.core.accepted ∧
      c.core.errors.count ⟨0, 5, 7, 0⟩ = 1 := by
  obtain ⟨c, hc, hend⟩ := Option.map_eq_some_iff.mp earlyPush_end
  simp only [Prod.mk.injEq] at hend
  obtain ⟨hdone, hqueue, hacc, hdisp⟩ := hend
  have hrest := AtRest.of_allDone hdone
  have hmem : (⟨0, 5, 7, 0⟩ : Message) ∈ c.core.accepted := by simp [hacc]
  obtain ⟨-, -, -, hiff⟩ := exclusive_answered_iff 0 earlyPush c hc
  obtain ⟨hanswered, hempty⟩ := hiff hrest
  have htimely := hempty.mp (by simp [hqueue])
  rcases hanswered.mpr htimely _ hmem (by decide) with h | ⟨-, h⟩
  · rw [hdisp] at h
    cases h
  · exact ⟨c, hc, hrest, hmem, h⟩

/-- **A late push strands its request.**  The thread has ended, the sender has returned, and the
accepted request is in the mailbox, neither dispatched nor answered. -/
theorem latePush_strands_request :
    ∃ c : Config (Fin 3), Interleave.exec (act 0) latePush (Config.start (Fin 3)) = some c ∧
      AtRest c ∧ (⟨0, 5, 7, 0⟩ : Message).isRequest = true ∧
      (⟨0, 5, 7, 0⟩ : Message) ∈ c.core.accepted ∧ (⟨0, 5, 7, 0⟩ : Message) ∈ c.box.queue ∧
      (⟨0, 5, 7, 0⟩ : Message) ∉ c.core.dispatched ∧ c.core.errors = [] := by
  have hend : (exec (act 0) latePush (Config.start (Fin 3))).map
      (fun c => (c.allDone, c.box.queue, c.core.accepted, c.core.dispatched ++ c.core.errors))
      = some (true, [⟨0, 5, 7, 0⟩], [⟨0, 5, 7, 0⟩], []) := by
    decide +kernel
  obtain ⟨c, hc, hend⟩ := Option.map_eq_some_iff.mp hend
  simp only [Prod.mk.injEq, append_eq_nil_iff] at hend
  obtain ⟨hdone, hqueue, hacc, hdisp, herr⟩ := hend
  exact ⟨c, hc, AtRest.of_allDone hdone, by decide, by simp [hacc], by simp [hqueue],
    by simp [hdisp], herr⟩

/-! ### Asleep -/

/-- **No kill and no wake-up is lost on a sleeping thread.** At rest, a service whose thread sleeps
is registered, alive and running, with nothing in its mailbox or its backlog. -/
theorem AtRest.nothing_left [Fintype ι] [DecidableEq ι] {me : ι} {c : Config ι} (hrest : AtRest c)
    (hrun : Reachable me c) (hp : c.point = .idle) :
    c.core.registered = true ∧ c.core.dead = false ∧ c.core.lifecycle = .running ∧
      c.box.state = .idle ∧ c.box.queue = [] ∧ c.box.ready = [] ∧ c.core.backlog = 0 := by
  have h := reachable_control hrun
  obtain ⟨hstate, hqueue⟩ := hrest.box hrun hp
  obtain ⟨hsignal, hinit⟩ : c.signalled = false ∧ c.core.lifecycle ≠ .initializing :=
    (hrest.still.resolve_left (by simp [hp])).2
  have hready : c.box.ready = [] := by
    refine ((reachable_box hrun).rest hstate).elim And.right fun hpos => ?_
    simp [Mq.notifiers, tally, project, shared, hrest.idle, Call.notifying] at hpos
  have hdead : c.core.dead = false := by
    by_contra hd
    have := h.attended hp (eq_true_of_not_eq_false hd)
    simp [hsignal, hstate, Prompt, hrest.free, hrest.idle, hrest.quiet, Inner.prompting,
      inNotify] at this
  have hreg : c.core.registered = true := by
    by_contra hr
    have := h.retiring (eq_false_of_not_eq_true hr)
    simp [hdead, hrest.free, Inner.marking] at this
  refine ⟨hreg, hdead, ?_, hstate, hqueue, hready, hrest.backlog hrun⟩
  cases hl : c.core.lifecycle with
  | initializing => exact absurd hl hinit
  | running => rfl
  | failed => simpa [hreg, hp, Point.exiting] using h.failed hl

/-- The thread sleeps after the init of its service. -/
theorem nothing_left_after_init :
    ∃ c : Config Unit, Reachable () c ∧ AtRest c ∧ c.point = .idle ∧ c.core.dead = false := by
  have hend : (exec (act ()) (List.flatten [List.replicate 3 (.step 0 .done), List.replicate 3 .hold,
      List.replicate 8 (.step 0 .done), List.replicate 5 .hold, List.replicate 3 (.step 0 .done)])
      (Config.start Unit)).map (fun c => (c.point, c.signalled, c.core.lifecycle, c.inner (),
        c.call (), c.interrupting ())) = some (.idle, false, .running, .none, .idle, false) := rfl
  obtain ⟨c, hc, hend⟩ := Option.map_eq_some_iff.mp hend
  simp only [Prod.mk.injEq] at hend
  obtain ⟨hp, hs, hl, hi, hcall, hint⟩ := hend
  have hrun : Reachable () c := Interleave.Reachable.of_run hc
  have hrest : AtRest c :=
    ⟨.inr ⟨hp, hs, by simp [hl]⟩, fun _ => hi, fun _ => hcall, fun _ => hint⟩
  exact ⟨c, hrun, hrest, hp, (hrest.nothing_left hrun hp).2.1⟩

end Rskynet.Exclusive
