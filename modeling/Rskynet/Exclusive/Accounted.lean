import Rskynet.Exclusive.Control

/-!
# Where the requests to an exclusive service are

A request that `send_raw` has accepted is in the hands of a sender, in the hands of the service's
thread, in the mailbox, in the backlog of the initialisation, dispatched, or answered by an error of
`cleanup`.

* `Accounted.step` — **PROVED**: no step loses or doubles a request.
-/

namespace Rskynet.Exclusive

open Rskynet.Task (TaskId)
open Service
open Function (update update_of_ne update_self)

variable {ι : Type*}

/-! ### Where the requests are -/

def Point.hand (hold : Held) : Point → Multiset Message
  | .run p => p.hand + inHold hold
  | .drain (.work _ w) => w.hand + inHold hold
  | .clean p => p.hand hold
  | _ => inHold hold

def Point.sane : Point → Prop
  | .run p => p.sane
  | .drain (.work _ w) => w.sane
  | _ => True

def hands (c : Config ι) (t : ι) : Multiset Message := inCall (c.call t) + (c.inner t).hand

/-- The messages in the mailbox, in the backlog and in the hands of the service's thread. -/
def held (c : Config ι) : Multiset Message :=
  c.point.hand c.hold + (c.box.queue : Multiset Message) + c.core.backlog

/-- Every accepted request is somewhere, once, and the ledger of the service is right. -/
structure Accounted [Fintype ι] (c : Config ι) : Prop where
  balance : requests (c.core.accepted : Multiset Message)
    = requests ((∑ t, hands c t) + held c) + c.core.settled
  sane : c.point.sane
  ledger : Ledger c.core

/-! ### One step of the mailbox -/

section Box

variable {b b' : Box} {hold hold' : Held}
  {call call' : Delivery} {queued : Bool}

theorem callStep_hand (hs : callStep b call = some (b', call', queued)) :
    inCall call' + (b'.queue : Multiset Message) = inCall call + (b.queue : Multiset Message) := by
  have hshared : Mq.callStep b 0 call = some (b', 0, call') ∨
      (b'.queue = b.queue ∧ inCall call = 0 ∧ inCall call' = 0) := by
    cases call with
    | casIdle pushed =>
      simp only [callStep] at hs
      split at hs
      · cases hs
        exact .inr ⟨rfl, rfl, rfl⟩
      · cases hs
        exact .inr ⟨rfl, rfl, inCall_notifyNext _ _⟩
    | casRunning pushed =>
      simp only [callStep, Mq.callStep] at hs ⊢
      split at hs <;> obtain ⟨rfl, rfl, -⟩ := hs <;> simp_all
    | pushMark | pushInsert | idle => cases hs
    | _ =>
      cases hs
      exact .inl rfl
  rcases hshared with hs | ⟨hq, hc, hc'⟩
  · exact Service.callStep_hand hs
  · rw [hq, hc, hc']

theorem holdStep_hand {p : Point} (hsync : Synced hold p)
    (hs : holdStep b hold = some (b', hold')) :
    p.hand hold' + (b'.queue : Multiset Message) = p.hand hold + (b.queue : Multiset Message) := by
  have hkeep := holdStep_inHold (holdStep_shared hs 0).1
  cases p with
  | run p =>
    show p.hand + inHold hold' + _ = p.hand + inHold hold + _
    rw [add_assoc, hkeep, add_assoc]
  | drain p =>
    cases p with
    | work budget w =>
      show w.hand + inHold hold' + _ = w.hand + inHold hold + _
      rw [add_assoc, hkeep, add_assoc]
    | _ => exact hkeep
  | clean p =>
    cases p with
    | pending | init =>
      obtain ⟨left, rfl⟩ := hsync
      cases hs
    | _ => exact hkeep
  | _ => exact hkeep

end Box

/-! ### One step of the thread -/

section Thread

variable {k k' : Core} {b b' : Box} {hold hold' : Held} {key : ℕ}
  {outcome : Outcome} {p p' : Point} {call : Option Delivery}

theorem Moved.toStart (h : Moved k b hold key outcome p k' b' hold' p' call) :
    Service.toStart call = 0 := by
  cases h with
  | run p p' k' hold' task | drain p p' k' hold' task => cases task <;> rfl
  | _ => rfl

theorem Moved.queue (h : Moved k b hold key outcome p k' b' hold' p' call) :
    b'.queue = b.queue := by
  cases h <;> rfl

theorem DrainMoved.balance {r r' : DrainPoint} {task : Option TaskId}
    (h : DrainMoved k hold key outcome r k' hold' r' task) (hsane : (Point.drain r).sane) :
    requests (k'.backlog + (Point.drain r').hand hold') + k'.settled
        = requests (k.backlog + (Point.drain r).hand hold) + k.settled ∧
      k'.accepted = k.accepted ∧ (Point.drain r').sane := by
  cases h with
  | take budget budget' hm =>
    obtain ⟨rfl, -⟩ := enter_take hm
    exact ⟨rfl, rfl, trivial⟩
  | took budget work hm =>
    refine ⟨?_, rfl, by cases work <;> trivial⟩
    rw [hm]
    show requests (k.backlog + ((workPoint work).hand + 0)) + k.settled
      = requests (k.backlog + inHold (.took work)) + k.settled
    rw [workPoint_hand, add_zero]
  | done budget =>
    refine ⟨?_, rfl, trivial⟩
    show requests (k.backlog + inHold hold) + k.settled
      = requests (k.backlog + (0 + inHold hold)) + k.settled
    rw [zero_add]
  | work budget w w' k' task hm =>
    obtain ⟨-, hacc, hsane'⟩ := workStep_balance hm hsane
    exact ⟨workStep_balance_add hm hsane _, hacc, hsane'⟩
  | _ => exact ⟨rfl, rfl, trivial⟩

theorem inHold_mark (h : hold = .none ∨ hold = .holding) : inHold hold = 0 := by
  rcases h with rfl | rfl <;> rfl

/-- **No step of the thread loses or doubles a request.** -/
theorem Moved.balance (h : Moved k b hold key outcome p k' b' hold' p' call)
    (hsync : Synced hold p) (hsane : p.sane) :
    requests (k'.backlog + p'.hand hold') + k'.settled
        = requests (k.backlog + p.hand hold) + k.settled ∧
      k'.accepted = k.accepted ∧ p'.sane := by
  cases h with
  | run p p' k' hold' task h => exact (runStep_moved h).balance hsane
  | drain p p' k' hold' task h => exact (drainStep_moved h).balance hsane
  | clean p p' k' hold' h =>
    obtain ⟨hbal, hacc⟩ := cleanStep_balance h
    exact ⟨hbal, hacc, trivial⟩
  | mark p p' h =>
    rcases h with ⟨rfl, rfl⟩ | ⟨rfl, rfl⟩ | ⟨rfl, rfl⟩
    · refine ⟨?_, rfl, trivial⟩
      rw [show hold = .none from hsync]
      rfl
    · refine ⟨?_, rfl, trivial⟩
      show requests (k.backlog + 0) + k.settled = requests (k.backlog + inHold hold) + k.settled
      rw [inHold_mark hsync]
    · refine ⟨?_, rfl, trivial⟩
      show requests (k.backlog + 0) + k.settled = requests (k.backlog + inHold hold) + k.settled
      rw [inHold_mark hsync]
  | dead | ran => exact ⟨by simp [Point.hand, RunPoint.hand], rfl, trivial⟩
  | _ => exact ⟨rfl, rfl, trivial⟩

theorem Moved.ledger (h : Moved k b hold key outcome p k' b' hold' p' call) (hl : Ledger k) :
    Ledger k' := by
  cases h with
  | run p p' k' hold' task h => exact (runStep_moved h).ledger hl
  | drain p p' k' hold' task h =>
    cases drainStep_moved h with
    | work budget w w' k' task hm => exact workStep_ledger hm hl
    | _ => exact hl
  | clean p p' k' hold' h => exact cleanStep_ledger h hl
  | destroy | account => exact ⟨hl.stamps, hl.fresh, hl.origin, hl.lost, hl.caught, hl.owned⟩
  | _ => exact hl

end Thread

/-! ### The account over whole runs -/

namespace Accounted

variable [Fintype ι] {c c' : Config ι} {t : ι}

theorem start : Accounted (Config.start ι) := by
  refine ⟨?_, trivial, Ledger.start⟩
  rw [Finset.sum_eq_zero fun t _ => (rfl : hands (Config.start ι) t = 0)]
  rfl

theorem change (h : Accounted c) (t : ι) (extra : Multiset Message)
    (hcall : ∀ t', t' ≠ t → c'.call t' = c.call t')
    (hinner : ∀ t', t' ≠ t → c'.inner t' = c.inner t')
    (hacc : (c'.core.accepted : Multiset Message) = (c.core.accepted : Multiset Message) + extra)
    (hlocal : requests (hands c' t + held c') + c'.core.settled
      = requests (hands c t + held c) + c.core.settled + requests extra)
    (hsane : c'.point.sane) (hledger : Ledger c'.core) : Accounted c' := by
  refine ⟨balance_change t h.balance ?_ hacc hlocal, hsane, hledger⟩
  intro t' hne
  unfold hands
  rw [hcall t' hne, hinner t' hne]

omit [Fintype ι] in
theorem inCall_of_isIdle (hidle : (c.call t).isIdle = true) : inCall (c.call t) = 0 := by
  cases hc : c.call t <;> simp_all [Mq.Call.isIdle, inCall]

omit [Fintype ι] in
theorem hand_of_free (hfree : c.free t = true) : (c.inner t).hand = 0 := by
  simp only [Config.free, Bool.and_eq_true] at hfree
  cases hi : c.inner t <;> simp_all [Inner.isNone, Inner.hand]

theorem accept [DecidableEq ι] (h : Accounted c) (source session : ℕ) (mtype : UInt8)
    (hinner : (c.inner t).hand = 0) :
    Accounted { c with
      core := { c.core with
        accepted := c.core.accepted ++ [c.core.stamped source session mtype] }
      inner := update c.inner t (.grabbed (c.core.stamped source session mtype)) } := by
  set m := c.core.stamped source session mtype
  refine h.change t {m} (fun _ _ => rfl) (fun t' hne => update_of_ne hne _ _)
    (coe_snoc _ _) ?_ h.sane (h.ledger.accept _ _ _)
  have hhand : hands { c with
      core := { c.core with accepted := c.core.accepted ++ [m] }
      inner := update c.inner t (.grabbed m) } t = hands c t + {m} := by
    unfold hands
    simp only [update_self, hinner, add_zero]
    rfl
  rw [hhand]
  simp only [requests_add]
  abel

variable [DecidableEq ι]

omit [Fintype ι] in
theorem inCall_begin (call : Option Delivery) (hidle : inCall (c.call t) = 0) :
    inCall ((c.begin t call).call t) = toStart call := by
  cases call with
  | none => exact hidle
  | some q =>
    show inCall (update c.call t q t) = inCall q
    rw [update_self]

theorem start_call (h : Accounted c) (call : Option Delivery)
    (hidle : (c.call t).isIdle = true) (hcall : c'.call = c.call)
    (hothers : ∀ t', t' ≠ t → c'.inner t' = c.inner t')
    (hhand : toStart call + (c'.inner t).hand = (c.inner t).hand)
    (hacc : c'.core.accepted = c.core.accepted)
    (hheld : requests (held c') + c'.core.settled = requests (held c) + c.core.settled)
    (hsane : c'.point.sane) (hledger : Ledger c'.core) : Accounted (c'.begin t call) := by
  have hzero := inCall_of_isIdle hidle
  have hcore : (c'.begin t call).core = c'.core := by cases call <;> rfl
  have hinner : (c'.begin t call).inner = c'.inner := by cases call <;> rfl
  have hpoint : (c'.begin t call).point = c'.point := by cases call <;> rfl
  have hheld' : held (c'.begin t call) = held c' := by cases call <;> rfl
  refine h.change t 0 ?_ ?_ ?_ ?_ ?_ ?_
  · intro t' hne
    rw [← hcall]
    cases call with
    | none => rfl
    | some q => exact update_of_ne hne _ _
  · intro t' hne
    rw [hinner, hothers t' hne]
  · rw [hcore, hacc, add_zero]
  · have hhands : hands (c'.begin t call) t = hands c t := by
      unfold hands
      rw [inCall_begin call (by rw [hcall, hzero]), hinner, hhand, hzero, zero_add]
    rw [hhands, hheld', hcore, requests_zero, add_zero, requests_add, requests_add, add_assoc, hheld,
      add_assoc]
  · rwa [hpoint]
  · rwa [hcore]

omit [DecidableEq ι] in
theorem box (h : Accounted c) {b : Box} {hold : Held}
    {call : ι → Delivery} {interrupting : ι → Bool}
    (hcall : ∀ t', t' ≠ t → call t' = c.call t')
    (hlocal : inCall (call t) + c.point.hand hold + (b.queue : Multiset Message)
      = inCall (c.call t) + c.point.hand c.hold + (c.box.queue : Multiset Message)) :
    Accounted { c with box := b, hold := hold, call := call, interrupting := interrupting } := by
  refine h.change t 0 hcall (fun _ _ => rfl) (by simp) ?_ h.sane h.ledger
  rw [requests_zero, add_zero]
  refine congrArg (fun x => requests x + c.core.settled) ?_
  show inCall (call t) + (c.inner t).hand + (c.point.hand hold + (b.queue : Multiset Message)
    + c.core.backlog) = hands c t + held c
  calc _ = inCall (call t) + c.point.hand hold + (b.queue : Multiset Message)
        + ((c.inner t).hand + c.core.backlog) := by abel
    _ = _ := by
        rw [hlocal, hands, held]
        abel

variable {me : ι}

theorem thread (h : Accounted c) (hsync : Synced c.hold c.point) {k : Core}
    {b : Box} {hold : Held} {key : ℕ} {outcome : Outcome}
    {p : Point} {call : Option Delivery} (signalled : Bool)
    (hidle : (c.call me).isIdle = true)
    (hs : Moved c.core c.box c.hold key outcome c.point k b hold p call) :
    Accounted (Config.begin
      { c with core := k, box := b, hold := hold, point := p, signalled := signalled } me call) := by
  obtain ⟨hbal, hacc, hsane⟩ := hs.balance hsync h.sane
  refine h.start_call call hidle rfl (fun _ _ => rfl) ?_ hacc ?_ hsane (hs.ledger h.ledger)
  · rw [hs.toStart, zero_add]
  · show requests (p.hand hold + (b.queue : Multiset Message) + k.backlog) + k.settled = _
    rw [hs.queue, held]
    simp only [requests_add] at hbal ⊢
    calc _ = requests (c.box.queue : Multiset Message)
          + (requests k.backlog + requests (p.hand hold) + k.settled) := by abel
      _ = _ := by
          rw [hbal]
          abel

/-- **Every step keeps the account.** -/
theorem step (h : Accounted c) (hsync : Synced c.hold c.point) (hs : Step me c c') :
    Accounted c' := by
  obtain ⟨a, ha⟩ := hs
  cases act_acted ha with
  | grab t source session mtype hfree => exact h.accept source session mtype (hand_of_free hfree)
  | retire t exits mine hfree =>
    have hl := h.ledger
    refine h.start_call none (t := t) (isIdle_of_free hfree) rfl
      (fun t' hne => update_of_ne hne _ _) ?_ rfl rfl h.sane
      ⟨hl.stamps, hl.fresh, hl.origin, hl.lost, hl.caught, hl.owned⟩
    show toStart none + (update c.inner t _ t).hand = _
    rw [update_self, hand_of_free hfree]
    rfl
  | inner t k i call hidle hi =>
    obtain ⟨hhand, hacc, hback, hsettled⟩ := innerStep_balance hi
    refine h.start_call call hidle rfl (fun t' hne => update_of_ne hne _ _) ?_ hacc ?_
      h.sane (innerStep_ledger hi h.ledger)
    · show toStart call + (update c.inner t i t).hand = _
      rw [update_self]
      exact hhand
    · show requests (c.point.hand c.hold + _ + k.backlog) + k.settled = _
      rw [hback, hsettled, held]
  | wake t task hfree =>
    exact h.start_call _ (isIdle_of_free hfree) rfl (fun _ _ => rfl) (zero_add _) rfl rfl h.sane
      h.ledger
  | spawn key hfree hkey =>
    refine h.start_call _ (isIdle_of_free hfree) rfl (fun _ _ => rfl) (zero_add _) rfl rfl h.sane ?_
    simpa [Core.install] using h.ledger.install none hkey
  | call t b p queued hquiet hc =>
    refine h.box (t := t) (fun t' hne => update_of_ne hne _ _) ?_
    rw [update_self, add_right_comm, callStep_hand hc, add_right_comm]
  | callFail t p hc =>
    refine h.box (t := t) (fun t' hne => update_of_ne hne _ _) ?_
    rw [update_self, callFail_hand hc]
  | interrupt t => exact ⟨h.balance, h.sane, h.ledger⟩
  | hold b p hfree hh =>
    refine h.box (t := me) (fun _ _ => rfl) ?_
    rw [add_assoc, holdStep_hand hsync hh, add_assoc]
  | step key outcome k b hold p call hfree hmoved =>
    exact h.thread hsync _ (isIdle_of_free hfree) hmoved

end Accounted

theorem reachable_accounted [Fintype ι] [DecidableEq ι] {me : ι} {c : Config ι}
    (hrun : Reachable me c) : Accounted c := by
  have hboth : Accounted c ∧ Reachable me c := by
    refine hrun.invariant (I := fun c => Accounted c ∧ Reachable me c) ?_ ?_
    · exact ⟨Accounted.start, Interleave.Reachable.refl⟩
    · rintro a b ⟨h, hr⟩ hs
      exact ⟨h.step (project_reachable hr).2 hs, hr.tail hs⟩
  exact hboth.1

end Rskynet.Exclusive
