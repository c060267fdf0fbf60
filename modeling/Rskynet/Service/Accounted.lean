import Rskynet.Service.Workers

/-!
# Where the requests to a shared service are

A request that `send_raw` has accepted is in the hands of a thread, in the mailbox, in the backlog
of the initialisation, dispatched, or answered by an error of `cleanup`.

* `Accounted.step` — **PROVED**: no step loses or doubles a request.
-/

namespace Rskynet.Service

open Rskynet.Task (TaskId)
open Function (update update_of_ne update_self)

variable {ι : Type*}

/-! ### Where the requests are -/

def Point.hand (hold : Held) : Point → Multiset Message
  | .run p => p.hand + inHold hold
  | .clean p => p.hand hold
  | _ => inHold hold

def hands (c : Config ι) (t : ι) : Multiset Message :=
  inCall (c.box.call t) + (c.inner t).hand + (c.point t).hand (c.box.hold t)

def waiting (c : Config ι) : Multiset Message :=
  (c.box.box.queue : Multiset Message) + c.core.backlog

def Point.sane : Point → Prop
  | .run p => p.sane
  | _ => True

/-- Every accepted request is somewhere, once, and the ledger of the service is right. -/
structure Accounted [Fintype ι] (c : Config ι) : Prop where
  balance : requests (c.core.accepted : Multiset Message)
    = requests ((∑ t, hands c t) + waiting c) + c.core.settled
  sane : ∀ t, (c.point t).sane
  ledger : Ledger c.core

/-! ### One step of the mailbox -/

section Box

variable {b b' : Box} {e e' : ℕ} {hold hold' : Held}

theorem holdStep_hand {p : Point} (hsync : Synced hold p)
    (hs : Mq.holdStep b e hold = some (b', e', hold')) :
    p.hand hold' + (b'.queue : Multiset Message) = p.hand hold + (b.queue : Multiset Message) := by
  have hkeep := holdStep_inHold hs
  cases p with
  | run p =>
    show p.hand + inHold hold' + _ = p.hand + inHold hold + _
    rw [add_assoc, hkeep, add_assoc]
  | clean p =>
    cases p with
    | pending | init =>
      obtain ⟨left, rfl⟩ := hsync
      cases hs
    | _ => exact hkeep
  | _ => exact hkeep

end Box

/-! ### One step of a worker -/

section Worker

variable {k k' : Core} {hold hold' : Held} {key : ℕ} {outcome : Outcome}
  {p p' : Point} {call : Option Delivery}

theorem Moved.toStart (h : Moved k hold key outcome p k' hold' p' call) :
    Service.toStart call = 0 := by
  cases h with
  | run p p' k' hold' task yields h => cases task <;> rfl
  | _ => rfl

/-- **No step of a worker loses or doubles a request.** -/
theorem Moved.balance (h : Moved k hold key outcome p k' hold' p' call) (hsane : p.sane) :
    requests (k'.backlog + p'.hand hold') + k'.settled
        = requests (k.backlog + p.hand hold) + k.settled ∧
      k'.accepted = k.accepted ∧ p'.sane := by
  cases h with
  | run p p' k' hold' task yields h => exact (runStep_moved h).balance hsane
  | clean p p' k' hold' h =>
    obtain ⟨hbal, hacc⟩ := cleanStep_balance h
    exact ⟨hbal, hacc, trivial⟩
  | yield p hp hold' h =>
    have hhold : hold = .holding ∧ hold' = .yieldMark := by cases hold <;> simp_all [Mq.enter]
    obtain ⟨rfl, rfl⟩ := hhold
    rcases hp with rfl | rfl <;> exact ⟨rfl, rfl, trivial⟩
  | yielded | keep | gone | destroy | account => exact ⟨rfl, rfl, trivial⟩
  | dead => exact ⟨by simp [Point.hand, RunPoint.hand, CleanPoint.hand], rfl, trivial⟩
  | idle | again => exact ⟨by simp [Point.hand, RunPoint.hand], rfl, trivial⟩

theorem Moved.ledger (h : Moved k hold key outcome p k' hold' p' call) (hl : Ledger k) :
    Ledger k' := by
  cases h with
  | run p p' k' hold' task yields h => exact (runStep_moved h).ledger hl
  | clean p p' k' hold' h => exact cleanStep_ledger h hl
  | destroy | account => exact ⟨hl.stamps, hl.fresh, hl.origin, hl.lost, hl.caught, hl.owned⟩
  | _ => exact hl

end Worker

/-! ### The account over whole runs -/

namespace Accounted

variable [Fintype ι] {c c' : Config ι} {t : ι}

theorem change (h : Accounted c) (t : ι) (extra : Multiset Message)
    (hothers : ∀ t', t' ≠ t → hands c' t' = hands c t')
    (hacc : (c'.core.accepted : Multiset Message) = (c.core.accepted : Multiset Message) + extra)
    (hlocal : requests (hands c' t + waiting c') + c'.core.settled
      = requests (hands c t + waiting c) + c.core.settled + requests extra)
    (hsane : ∀ t', (c'.point t').sane) (hledger : Ledger c'.core) : Accounted c' :=
  ⟨balance_change t h.balance hothers hacc hlocal, hsane, hledger⟩

theorem start [DecidableEq ι] (creator : ι) : Accounted (Config.start creator) := by
  refine ⟨?_, fun _ => trivial, Ledger.start⟩
  have hhands : ∀ t, hands (Config.start creator) t = 0 := by
    intro t
    have hcall : inCall ((Config.start creator).box.call t) = 0 := by
      show inCall (update (fun _ => Mq.Call.idle) creator .pushMark t) = 0
      by_cases hne : t = creator
      · rw [hne, update_self]
        rfl
      · rw [update_of_ne hne]
        rfl
    unfold hands
    rw [hcall]
    rfl
  rw [Finset.sum_eq_zero fun t _ => hhands t]
  rfl

omit [Fintype ι] in
theorem hands_congr {t' : ι} (hcall : c'.box.call t' = c.box.call t')
    (hhold : c'.box.hold t' = c.box.hold t') (hinner : c'.inner t' = c.inner t')
    (hpoint : c'.point t' = c.point t') : hands c' t' = hands c t' := by
  unfold hands
  rw [hcall, hhold, hinner, hpoint]

omit [Fintype ι] in
theorem inCall_of_isIdle (hidle : (c.box.call t).isIdle = true) : inCall (c.box.call t) = 0 := by
  cases hc : c.box.call t <;> simp_all [Mq.Call.isIdle, inCall]

variable [DecidableEq ι]

omit [Fintype ι] in
theorem inCall_begin {b : Mq.Config Message TaskId ι} (call : Option Delivery)
    (hidle : inCall (b.call t) = 0) : inCall ((begin b t call).call t) = toStart call := by
  cases call with
  | none => exact hidle
  | some q =>
    show inCall (update b.call t q t) = inCall q
    rw [update_self]

theorem accept (h : Accounted c) (source session : ℕ) (mtype : UInt8)
    (hinner : (c.inner t).hand = 0) :
    Accounted { c with
      core := { c.core with
        accepted := c.core.accepted ++ [c.core.stamped source session mtype] }
      inner := update c.inner t (.grabbed (c.core.stamped source session mtype)) } := by
  set m := c.core.stamped source session mtype
  refine h.change t {m} ?_ (coe_snoc _ _) ?_ h.sane (h.ledger.accept _ _ _)
  · intro t' hne
    exact hands_congr rfl rfl (update_of_ne hne _ _) rfl
  · have hhand : hands { c with
        core := { c.core with accepted := c.core.accepted ++ [m] }
        inner := update c.inner t (.grabbed m) } t = hands c t + {m} := by
      unfold hands
      simp only [update_self, hinner]
      show _ + {m} + _ = _
      abel
    rw [hhand]
    simp only [requests_add]
    abel

theorem start_call (h : Accounted c) {k : Core} {inner : ι → Inner}
    (call : Option Delivery) (hidle : (c.box.call t).isIdle = true)
    (hothers : ∀ t', t' ≠ t → inner t' = c.inner t')
    (hhand : toStart call + (inner t).hand = (c.inner t).hand)
    (hacc : k.accepted = c.core.accepted) (hback : k.backlog = c.core.backlog)
    (hsettled : k.settled = c.core.settled) (hledger : Ledger k) :
    Accounted { c with core := k, box := begin c.box t call, inner := inner } := by
  have hcall := inCall_of_isIdle hidle
  refine h.change t 0 ?_ (by rw [add_zero]; exact congrArg _ hacc) ?_ h.sane hledger
  · intro t' hne
    exact hands_congr (call_begin_of_ne _ _ hne) (congrFun (hold_begin _ _) t') (hothers t' hne) rfl
  · have hsame : hands { c with core := k, box := begin c.box t call, inner := inner } t
        = hands c t := by
      unfold hands
      simp only [hold_begin, inCall_begin call hcall, hhand, hcall, zero_add]
    rw [hsame, requests_zero, add_zero, waiting, box_begin, hback, hsettled]
    rfl

theorem box (h : Accounted c) {b : Mq.Config Message TaskId ι} {point : ι → Point}
    (hcall : ∀ t', t' ≠ t → b.call t' = c.box.call t')
    (hhold : ∀ t', t' ≠ t → b.hold t' = c.box.hold t')
    (hpoint : ∀ t', t' ≠ t → point t' = c.point t') (hsane : (point t).sane)
    (hlocal : inCall (b.call t) + (point t).hand (b.hold t) + (b.box.queue : Multiset Message)
      = inCall (c.box.call t) + (c.point t).hand (c.box.hold t)
        + (c.box.box.queue : Multiset Message)) :
    Accounted { c with box := b, point := point } := by
  refine h.change t 0 ?_ (by simp) ?_ ?_ h.ledger
  · intro t' hne
    exact hands_congr (hcall t' hne) (hhold t' hne) rfl (hpoint t' hne)
  · rw [requests_zero, add_zero]
    refine congrArg (fun x => requests x + c.core.settled) ?_
    show inCall (b.call t) + (c.inner t).hand + (point t).hand (b.hold t)
        + ((b.box.queue : Multiset Message) + c.core.backlog) = _
    calc _ = inCall (b.call t) + (point t).hand (b.hold t) + (b.box.queue : Multiset Message)
          + ((c.inner t).hand + c.core.backlog) := by abel
      _ = hands c t + waiting c := by
          rw [hlocal, hands, waiting]
          abel
  · intro t'
    by_cases hne : t' = t
    · subst hne
      exact hsane
    · show (point t').sane
      rw [hpoint t' hne]
      exact h.sane t'

theorem worker (h : Accounted c) {k : Core} {hold : Held} {key : ℕ}
    {outcome : Outcome} {p : Point} {call : Option Delivery}
    (hidle : (c.box.call t).isIdle = true)
    (hs : Moved c.core (c.box.hold t) key outcome (c.point t) k hold p call) :
    Accounted (after c t k hold p call) := by
  obtain ⟨hbal, hacc, hsane⟩ := hs.balance (h.sane t)
  have hcall := inCall_of_isIdle hidle
  refine h.change t 0 ?_ (by rw [add_zero]; exact congrArg _ hacc) ?_ ?_ (hs.ledger h.ledger)
  · intro t' hne
    exact hands_congr (call_begin_of_ne _ _ hne) (hold_after_of_ne hne) rfl
      (point_after_of_ne hne)
  · have hhand : hands (after c t k hold p call) t
        = (c.inner t).hand + p.hand hold := by
      unfold hands
      rw [hold_after_self, point_after_self]
      have hzero : inCall ((after c t k hold p call).box.call t) = 0 :=
        (inCall_begin (b := { c.box with hold := update c.box.hold t hold }) call
          hcall).trans hs.toStart
      rw [hzero, zero_add]
      rfl
    have hqueue : waiting (after c t k hold p call)
        = (c.box.box.queue : Multiset Message) + k.backlog := by
      unfold waiting after
      rw [box_begin]
    rw [hhand, hqueue, requests_zero, add_zero, hands, hcall, waiting]
    simp only [requests_add, zero_add] at hbal ⊢
    calc _ = requests (c.inner t).hand + requests (c.box.box.queue : Multiset Message)
          + (requests k.backlog + requests (p.hand hold) + k.settled) := by abel
      _ = _ := by
          rw [hbal]
          abel
  · intro t'
    by_cases hne : t' = t
    · rw [hne, point_after_self]
      exact hsane
    · rw [point_after_of_ne hne]
      exact h.sane t'

omit [Fintype ι] [DecidableEq ι] in
theorem hand_of_free (hfree : c.free t = true) : (c.inner t).hand = 0 := by
  simp only [Config.free, Bool.and_eq_true] at hfree
  cases hi : c.inner t <;> simp_all [Inner.isNone, Inner.hand]

/-- **Every step keeps the account.** -/
theorem step (h : Accounted c) (hctl : Control c) (hs : Step c c') : Accounted c' := by
  obtain ⟨a, ha⟩ := hs
  cases act_acted ha with
  | grab t source session mtype hfree => exact h.accept source session mtype (hand_of_free hfree)
  | retire t exits mine hfree =>
    have hl := h.ledger
    refine h.start_call none (t := t) (idle_of_free hfree)
      (fun t' hne => update_of_ne hne _ _) ?_ rfl rfl rfl
      ⟨hl.stamps, hl.fresh, hl.origin, hl.lost, hl.caught, hl.owned⟩
    rw [update_self, hand_of_free hfree]
    rfl
  | inner t k i call hidle hi =>
    obtain ⟨hhand, hacc, hback, hsettled⟩ := innerStep_balance hi
    refine h.start_call _ hidle (fun t' hne => update_of_ne hne _ _) ?_ hacc hback hsettled
      (innerStep_ledger hi h.ledger)
    rw [update_self]
    exact hhand
  | wake t task hfree =>
    exact h.start_call _ (idle_of_free hfree) (fun _ _ => rfl) (zero_add _) rfl rfl rfl h.ledger
  | spawn t key hfree hkey =>
    refine h.start_call _ (idle_of_free hfree) (fun _ _ => rfl) (zero_add _) rfl rfl rfl ?_
    simpa [Core.install] using h.ledger.install none hkey
  | call t b e p hc =>
    refine h.box (t := t) (fun t' hne => update_of_ne hne _ _) (fun _ _ => rfl)
      (fun _ _ => rfl) (h.sane t) ?_
    simp only [update_self]
    rw [add_right_comm, callStep_hand hc, add_right_comm]
  | callFail t p hc =>
    refine h.box (t := t) (fun t' hne => update_of_ne hne _ _) (fun _ _ => rfl)
      (fun _ _ => rfl) (h.sane t) ?_
    simp only [update_self]
    rw [callFail_hand hc]
  | pop t hout hidle hnone =>
    refine h.box (t := t) (fun _ _ => rfl) (fun t' hne => update_of_ne hne _ _)
      (fun t' hne => update_of_ne hne _ _) ?_ ?_
    · rw [update_self]
      trivial
    · simp only [update_self]
      rw [hout, hnone]
      rfl
  | hold t b e p hidle hh =>
    refine h.box (t := t) (fun _ _ => rfl) (fun t' hne => update_of_ne hne _ _)
      (fun _ _ => rfl) (h.sane t) ?_
    simp only [update_self]
    rw [add_assoc, holdStep_hand (hctl.synced t) hh, add_assoc]
  | step t key outcome yields k hold p call hfree hmoved => exact h.worker (idle_of_free hfree) hmoved

end Accounted

theorem reachable_accounted [Fintype ι] [DecidableEq ι] {creator : ι} {c : Config ι}
    (hrun : Reachable creator c) : Accounted c := by
  have hboth : Accounted c ∧ Reachable creator c := by
    refine hrun.invariant (I := fun c => Accounted c ∧ Reachable creator c) ?_ ?_
    · exact ⟨Accounted.start creator, Interleave.Reachable.refl⟩
    · rintro a b ⟨h, hr⟩ hs
      exact ⟨h.step (reachable_control hr) hs, hr.tail hs⟩
  exact hboth.1

end Rskynet.Service
