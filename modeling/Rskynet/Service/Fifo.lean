import Rskynet.Service.Order

/-!
# First in, first out: shared services

The line of a shared service passes from one holder to the next. At most one thread has a message in its
hands, since only the holder takes one from the mailbox or the backlog and it has put it away before it
lets go.

* `InOrder.step` — **PROVED**: every step of every thread keeps the line in order, as long as the
  service is registered.
-/

namespace Rskynet.Service

open Rskynet.Task (TaskId)
open Function (update update_of_ne update_self)
open Interleave

variable {ι : Type*}
variable {b : Box}

/-! ### A shared service with its log -/

def Point.handled? : Point → Option Message
  | .run p => p.handled?
  | _ => none

def Point.dispatches : Point → Bool
  | .run p => p.dispatches
  | _ => false

def observe (a : Action ι) (c c' : Config ι) (log : Log) : Log :=
  match a with
  | .call t => log.push (c.box.call t)
  | .step t _ _ _ => log.handle (c'.point t).dispatches (c.point t).handled?
  | _ => log

def traced [DecidableEq ι] (a : Action ι) (s : Config ι × Log) : Option (Config ι × Log) :=
  (act a s.1).map fun c => (c, observe a s.1 c s.2)

def Quiet (c : Config ι) (t : ι) : Prop :=
  (c.point t).handled? = none ∧ popped? (c.box.hold t) = none

def LinedAt (c : Config ι) (t : ι) (log : Log) : Prop :=
  Lined c.core (c.point t).handled? (popped? (c.box.hold t)) c.box.box.queue log

def InOrder (c : Config ι) (log : Log) : Prop :=
  c.core.registered = true → ∀ t, (∀ t', t' ≠ t → Quiet c t') → LinedAt c t log

theorem holds_of_popped {hold : Held} (h : popped? hold ≠ none) : hold.holds = true := by
  cases hold <;> first | rfl | exact absurd rfl h

theorem holds_of_handled {hold : Held} {p : Point} (hsync : Synced hold p)
    (h : p.handled? ≠ none) : hold.holds = true := by
  cases p with
  | run r =>
    cases r with
    | work w => exact (show hold = .holding from hsync) ▸ rfl
    | _ => exact absurd rfl h
  | _ => exact absurd rfl h

theorem quiet_of_not_holds {c : Config ι} {t : ι} (hsync : Synced (c.box.hold t) (c.point t))
    (h : (c.box.hold t).holds = false) : Quiet c t := by
  constructor
  · by_contra hh
    exact absurd (h.symm.trans (holds_of_handled hsync hh)) (by simp)
  · by_contra hp
    exact absurd (h.symm.trans (holds_of_popped hp)) (by simp)

theorem doomed_of_draining {hold : Held} {p : Point} (hsync : Synced hold p)
    (h : draining hold = true) : p.doomed = true := by
  cases p with
  | clean | account => rfl
  | out =>
    obtain rfl : hold = .none := hsync
    cases h
  | yielding => rcases hsync with rfl | rfl | rfl <;> cases h
  | run r =>
    cases r with
    | enter => rcases hsync with rfl | rfl <;> cases h
    | take => cases hold <;> simp_all [Synced, draining, taking]
    | ran result =>
      cases result with
      | idle =>
        obtain rfl : hold = .none := hsync
        cases h
      | _ =>
        obtain rfl : hold = .holding := hsync
        cases h
    | _ =>
      obtain rfl : hold = .holding := hsync
      cases h

theorem holdStep_of_not_holds {b' : Box} {e e' : ℕ}
    {hold hold' : Held} (hs : Mq.holdStep b e hold = some (b', e', hold'))
    (h : hold.holds = false) : b'.queue = b.queue ∧ popped? hold' = none ∧ popped? hold = none := by
  cases hold with
  | markRunning | resetThreshold | yieldMark | yieldInsert =>
    cases hs
    exact ⟨rfl, rfl, rfl⟩
  | none | panicked => cases hs
  | _ => cases h

theorem innerStep_keeps {k k' : Core} {owns : Bool} {i i' : Inner}
    {call : Option Delivery} (hs : innerStep k owns i = some (k', i', call)) :
    k'.registered = k.registered ∧ k'.lifecycle = k.lifecycle ∧ k'.pending = k.pending := by
  cases innerStep_moved hs with
  | _ => exact ⟨rfl, rfl, rfl⟩

theorem handle_of_none (log : Log) (dispatches : Bool) {handled : Option Message} (h : handled = none) :
    log.handle dispatches handled = log := by
  rw [h]
  rfl

namespace InOrder

variable {c c' : Config ι} {log log' : Log} {t : ι}

theorem start [DecidableEq ι] (creator : ι) : InOrder (Config.start creator) Log.empty :=
  fun _ _ _ => Lined.start

theorem vacuous (h : c.core.registered = false) : InOrder c log := by
  intro hr
  exact absurd (h.symm.trans hr) (by simp)

theorem frame (h : InOrder c log) (hreg : c'.core.registered = true → c.core.registered = true)
    (hlife : c'.core.lifecycle = c.core.lifecycle) (hpending : c'.core.pending = c.core.pending)
    (hqueue : c'.box.box.queue = c.box.box.queue)
    (hhandled : ∀ t, (c'.point t).handled? = (c.point t).handled?)
    (hpopped : ∀ t, popped? (c'.box.hold t) = popped? (c.box.hold t)) : InOrder c' log := by
  intro hr t hothers
  have hlined : LinedAt c t log := by
    apply h (hreg hr) t
    intro t' hne
    exact ⟨(hhandled t').symm.trans (hothers t' hne).1, (hpopped t').symm.trans (hothers t' hne).2⟩
  unfold LinedAt
  rw [hqueue, hhandled, hpopped]
  exact Lined.same hlined hlife hpending

theorem holder [Fintype ι] (h : InOrder c log) (hctl : Control c) (hbox : Mq.Inv c.box)
    (ht : (c.box.hold t).holds = true) (hreg : c'.core.registered = true → c.core.registered = true)
    (hpoint : ∀ t', t' ≠ t → c'.point t' = c.point t')
    (hhold : ∀ t', t' ≠ t → c'.box.hold t' = c.box.hold t')
    (hlined : c.core.registered = true → LinedAt c t log → LinedAt c' t log') : InOrder c' log' := by
  have hothers : ∀ t', t' ≠ t → Quiet c t' := fun t' hne =>
    quiet_of_not_holds (hctl.synced t') ((hbox.sole_holder ht).2.2.2 t' hne)
  intro hr t' hquiet
  have hmine : LinedAt c' t log' := hlined (hreg hr) (h (hreg hr) t hothers)
  by_cases hne : t' = t
  · rw [hne]
    exact hmine
  · -- both threads have empty hands, so they see the same line
    obtain ⟨hhandled, hpopped⟩ := hquiet t (Ne.symm hne)
    unfold LinedAt at hmine ⊢
    rw [hhandled, hpopped] at hmine
    rw [hpoint t' hne, hhold t' hne, (hothers t' hne).1, (hothers t' hne).2]
    exact hmine

variable [DecidableEq ι]

theorem call (h : InOrder c log) {e : ℕ} {p : Delivery}
    (hs : Mq.callStep c.box.box c.box.entries (c.box.call t) = some (b, e, p)) :
    InOrder { c with
      box := { c.box with box := b, entries := e, call := update c.box.call t p } }
      (log.push (c.box.call t)) := by
  intro hr t' hothers
  exact callStep_lined hs (h hr t' hothers)

theorem operate [Fintype ι] (h : InOrder c log) (hctl : Control c) (hbox : Mq.Inv c.box) {e : ℕ}
    {p : Held}
    (hs : Mq.holdStep c.box.box c.box.entries (c.box.hold t) = some (b, e, p)) :
    InOrder { c with
      box := { c.box with box := b, entries := e, hold := update c.box.hold t p } } log := by
  by_cases ht : (c.box.hold t).holds = true
  · refine h.holder hctl hbox ht id (fun _ _ => rfl)
      (fun t' hne => update_of_ne hne _ _) ?_
    intro hreg hlined
    have hdrain : draining (c.box.hold t) = false := by
      by_contra hd
      have hclean : (c.point t).doomed = true := doomed_of_draining (hctl.synced t) (by simpa using hd)
      have hgone := hctl.gone (hctl.dead (.inr ⟨t, hclean⟩))
      exact absurd (hgone.symm.trans hreg) (by simp)
    unfold LinedAt
    simp only [update_self]
    exact holdStep_lined hs hdrain hlined
  · obtain ⟨hqueue, hpopped, hbefore⟩ := holdStep_of_not_holds hs (by simpa using ht)
    refine h.frame id rfl rfl hqueue (fun _ => rfl) ?_
    intro t'
    by_cases hne : t' = t
    · subst hne
      simp only [update_self]
      rw [hpopped, hbefore]
    · simp only [update_of_ne hne]

theorem stay {hold : Held} {p : Point} {call : Option Delivery}
    (h : InOrder c log) (hp : (c.point t).handled? = none) (hp' : p.handled? = none)
    (hhold : popped? hold = popped? (c.box.hold t)) :
    InOrder (after c t c.core hold p call) (log.handle p.dispatches (c.point t).handled?) := by
  rw [handle_of_none log _ hp]
  refine h.frame id rfl rfl ?_ ?_ ?_
  · rw [after, box_begin]
  · intro t'
    by_cases hne : t' = t
    · rw [hne, point_after_self, hp, hp']
    · rw [point_after_of_ne hne]
  · intro t'
    by_cases hne : t' = t
    · rw [hne, hold_after_self, hhold]
    · rw [hold_after_of_ne hne]

section Workers

variable [Fintype ι] {k : Core} {hold : Held} {key : ℕ} {outcome : Outcome} {p : Point}
  {call : Option Delivery}

/-- **A step of `run_service`** on a shared service. -/
theorem run (h : InOrder c log) (hctl : Control c) (hinit : Initialised c) (hbox : Mq.Inv c.box)
    {r r' : RunPoint} {yields : Bool} {task : Option TaskId} (hr : c.point t = .run r)
    (hs : runStep c.core (c.box.hold t) key outcome yields r = some (k, hold, r', task))
    (hsafe : ∀ m, r' ≠ .work (.panicked m)) :
    InOrder (after c t k hold (.run r') call) (log.handle r'.dispatches (c.point t).handled?) := by
  have hsync : Synced (c.box.hold t) (.run r) := by
    rw [← hr]
    exact hctl.synced t
  have hmoved := runStep_moved hs
  by_cases ht : (c.box.hold t).holds = true
  · refine h.holder hctl hbox ht ?_ (fun t' hne => point_after_of_ne hne)
      (fun t' hne => hold_after_of_ne hne) ?_
    · intro hreg
      exact (hmoved.effect hsync).flags.registered ▸ hreg
    · intro _ hlined
      unfold LinedAt at hlined ⊢
      rw [hr] at hlined ⊢
      rw [point_after_self, hold_after_self, after, box_begin]
      refine hmoved.lined hsync ?_ ?_ hsafe hlined
      · rintro rfl
        have hduty : OnDuty c .takePending := .inr ⟨by simp, t, by rw [hr]; rfl⟩
        have hintact := intact_of_working hctl (t := t) (by rw [hr]; rfl)
        exact (hinit hintact _ hduty).replay rfl
      · rintro rfl
        exact hctl.taking t hr
  · -- a worker without the service has only found its mailbox empty
    cases hmoved with
    | idle hnone => exact h.stay (by rw [hr]; rfl) rfl rfl
    | refuse hholding | enter hholding =>
      rw [hholding] at ht
      exact absurd rfl ht
    | took work htook =>
      rw [htook] at ht
      exact absurd rfl ht
    | _ =>
      rw [show c.box.hold t = .holding from hsync] at ht
      exact absurd rfl ht

theorem worker (h : InOrder c log) (hctl : Control c) (hinit : Initialised c) (hbox : Mq.Inv c.box)
    (hs : Moved c.core (c.box.hold t) key outcome (c.point t) k hold p call)
    (hsafe : ∀ m, p ≠ .run (.work (.panicked m))) :
    InOrder (after c t k hold p call) (log.handle p.dispatches (c.point t).handled?) := by
  have hdoomed : (c.point t).doomed = true → k.registered = c.core.registered →
      InOrder (after c t k hold p call) (log.handle p.dispatches (c.point t).handled?) := by
    intro hd hreg
    exact vacuous (hreg.trans (hctl.gone (hctl.dead (.inr ⟨t, hd⟩))))
  have heffect := hs.effect (hctl.synced t) (fun hd => hctl.dead (.inr ⟨t, hd⟩))
    fun hd => hctl.emptied (.inr ⟨t, hd⟩)
  generalize hp : c.point t = p₀ at hs
  cases hs with
  | run r r' k' hold' task yields hs =>
    rw [← hp]
    exact h.run hctl hinit hbox hp hs fun m heq => hsafe m (congrArg _ heq)
  | yield r hr hold' hs =>
    have hholding : c.box.hold t = .holding := by
      cases hh : c.box.hold t <;> simp_all [Mq.enter]
    have hmark : hold = .yieldMark := by
      rw [hholding] at hs
      exact (Option.some.inj hs).symm
    rw [← hp]
    refine h.stay ?_ rfl ?_
    · rcases hr with rfl | rfl <;> rw [hp] <;> rfl
    · rw [hmark, hholding]
      rfl
  | yielded | keep | idle | again =>
    rw [← hp]
    exact h.stay (by rw [hp]; rfl) rfl rfl
  | _ =>
    rw [← hp]
    exact hdoomed (by rw [hp]; rfl) heffect.registered

end Workers

/-- **Every step of every thread** keeps the messages in order. -/
theorem step [Fintype ι] {creator : ι} {a : Action ι} (h : InOrder c log) (hrun : Reachable creator c)
    (ha : act a c = some c') : InOrder c' (observe a c c' log) := by
  have hctl := reachable_control hrun
  have hbox : Mq.Inv c.box := Mq.reachable_inv (box_reachable hrun)
  have hsafe := not_panicked (hrun.tail ⟨a, ha⟩)
  cases act_acted ha with
  | retire => exact vacuous rfl
  | inner t k i call hidle hi =>
    obtain ⟨hreg, hlife, hpending⟩ := innerStep_keeps hi
    refine h.frame (fun hr => hreg ▸ hr) hlife hpending ?_ (fun _ => rfl) ?_
    · exact congrArg Mq.Mailbox.queue (box_begin c.box call)
    · intro t'
      exact congrArg popped? (congrFun (hold_begin c.box call) t')
  | call t b e p hc => exact h.call hc
  | pop t hout hidle hnone =>
    refine h.frame id rfl rfl rfl ?_ ?_
    · intro t'
      by_cases hne : t' = t
      · rw [hne, hout]
        simp only [update_self]
        rfl
      · simp only [update_of_ne hne]
    · intro t'
      by_cases hne : t' = t
      · rw [hne, hnone]
        simp only [update_self]
        rfl
      · simp only [update_of_ne hne]
  | hold t b e p hidle hh => exact h.operate hctl hbox hh
  | step t key outcome yields k hold p call hfree hmoved =>
    rw [observe, point_after_self]
    refine h.worker hctl (reachable_initialised hrun) hbox hmoved ?_
    intro m heq
    exact hsafe t m ((point_after_self).trans heq)
  | _ => exact h.frame id rfl rfl rfl (fun _ => rfl) fun _ => rfl

end InOrder

/-! ### Runs -/

section Runs

variable [Fintype ι] [DecidableEq ι] {creator : ι} {s : Config ι × Log}

theorem reachable_of_traced (as : List (Action ι))
    (hexec : exec traced as (Config.start creator, Log.empty) = some s) :
    Reachable creator s.1 ∧ InOrder s.1 s.2 := by
  have hstep : ∀ (a : Action ι) (s s' : Config ι × Log), (Reachable creator s.1 ∧ InOrder s.1 s.2) → True →
      traced a s = some s' → Reachable creator s'.1 ∧ InOrder s'.1 s'.2 := by
    rintro a s s' ⟨hrun, h⟩ - hs
    obtain ⟨c', ha, rfl⟩ := Option.map_eq_some_iff.mp hs
    exact ⟨hrun.tail ⟨a, ha⟩, h.step hrun ha⟩
  refine exec_invariant (P := fun _ _ => True)
    (I := fun s : Config ι × Log => Reachable creator s.1 ∧ InOrder s.1 s.2) hstep as ?_
    (along_of_forall (fun _ _ _ => trivial) _) hexec
  exact ⟨Interleave.Reachable.refl, InOrder.start creator⟩

/-- **A registered shared service** handles its messages first in, first out. -/
theorem fifo_of_traced (as : List (Action ι))
    (hexec : exec traced as (Config.start creator, Log.empty) = some s)
    (hreg : s.1.core.registered = true) : Fifo s.1.core s.1.box.box.queue s.2 := by
  obtain ⟨hrun, h⟩ := reachable_of_traced as hexec
  have hctl := reachable_control hrun
  have hbox : Mq.Inv s.1.box := Mq.reachable_inv (box_reachable hrun)
  have hquiet : ∃ t, ∀ t', t' ≠ t → Quiet s.1 t' := by
    by_cases hholder : ∃ t, (s.1.box.hold t).holds = true
    · obtain ⟨t, ht⟩ := hholder
      exact ⟨t, fun t' hne => quiet_of_not_holds (hctl.synced t') ((hbox.sole_holder ht).2.2.2 t' hne)⟩
    · rw [not_exists] at hholder
      exact ⟨creator, fun t' _ => quiet_of_not_holds (hctl.synced t') (by simpa using hholder t')⟩
  obtain ⟨t, ht⟩ := hquiet
  apply Lined.fifo (h hreg t ht)
  -- a worker in `run_work` is between two operations on the mailbox
  cases hp : s.1.point t with
  | run r =>
    cases r with
    | work w =>
      have hsync := hctl.synced t
      rw [hp] at hsync
      rw [show s.1.box.hold t = .holding from hsync]
      exact .inr rfl
    | _ => exact .inl rfl
  | _ => exact .inl rfl

end Runs

end Rskynet.Service
