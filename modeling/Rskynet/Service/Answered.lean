import Rskynet.Service.Accounted
import Rskynet.Service.Backlog

/-!
# Every request to a shared service is answered or dispatched

When nothing runs any more, a request is neither in the hands of a thread nor in the mailbox nor in
the backlog, so it is dispatched or answered.

* `requests_answered` — **PROVED**: every request is answered or dispatched, no request is answered
  twice, and a killed service is destroyed once;
* `executed_by_one` — **PROVED**: one thread at a time works on a service, and none after its end.
-/

namespace Rskynet.Service

open Mq (Hold)
open Interleave Bool

variable {ι : Type*}

/-- Nothing runs any more: no thread works on the service, delivers to it or is inside a call of
`send_raw` or `retire`, no run queue has it, and its init has returned unless it is dead. -/
structure AtRest (c : Config ι) : Prop where
  out : ∀ t, c.point t = .out
  free : ∀ t, c.inner t = .none
  idle : ∀ t, c.box.call t = .idle
  entries : c.box.entries = 0
  ended : c.core.dead = true ∨ c.core.lifecycle ≠ .initializing

section Runs

variable [Fintype ι] [DecidableEq ι] {creator : ι} {c : Config ι}

theorem AtRest.box (hrest : AtRest c) (hrun : Reachable creator c) :
    c.box.box.state = .idle ∧ c.box.box.queue = [] := by
  have hbox := Mq.reachable_inv (box_reachable hrun)
  have hhold : ∀ t, c.box.hold t = .none := by
    intro t
    have hsync := (reachable_control hrun).synced t
    rw [hrest.out t] at hsync
    exact hsync
  have htokens : Mq.tokens c.box = 0 := by
    unfold Mq.tokens tally
    simp [hrest.entries, hrest.idle, hhold, Mq.Call.inserting, Hold.moving]
  have hholders : Mq.holders c.box = 0 := by
    unfold Mq.holders tally
    simp [hhold, Hold.holds]
  have hnotifiers : Mq.notifiers c.box = 0 := by
    unfold Mq.notifiers tally
    simp [hrest.idle, Mq.Call.notifying]
  have hidle : c.box.box.state = .idle := by
    have hb := hbox.balanced
    cases hs : c.box.box.state <;> simp_all [Mq.Balanced]
  exact ⟨hidle, ((hbox.rest hidle).resolve_right (by omega)).1⟩

/-- **A killed service at rest is destroyed.** -/
theorem AtRest.destroyed (hrest : AtRest c) (hrun : Reachable creator c)
    (hkilled : c.core.registered = false) : c.core.destroyed = true ∧ c.core.removed = 1 := by
  have hctl := reachable_control hrun
  have hdead : c.core.dead = true := by
    refine (hctl.retiring hkilled).resolve_right ?_
    rintro ⟨t, ht⟩
    rw [hrest.free t] at ht
    cases ht
  have hd : c.core.destroyed = true := by
    by_contra hno
    rcases hctl.attended hdead (by simpa using hno) with hs | ⟨t, ht⟩
    · exact hs (hrest.box hrun).1
    · unfold Prompt at ht
      rw [hrest.free t, hrest.idle t, hrest.out t] at ht
      rcases ht with ht | ht | ht <;> cases ht
  refine ⟨hd, ?_⟩
  have hremoved := hctl.removed
  have hzero : tally c.point Point.isAccount = 0 := by
    unfold tally
    simp [hrest.out, Point.isAccount]
  rw [hd, hzero] at hremoved
  simpa using hremoved

theorem AtRest.backlog (hrest : AtRest c) (hrun : Reachable creator c) : c.core.backlog = 0 := by
  have hctl := reachable_control hrun
  have hgone : c.core.registered = false → c.core.pending = none := fun hk =>
    hctl.emptied (.inl (hrest.destroyed hrun hk).1)
  by_cases hdead : c.core.dead = true
  · rw [Core.backlog, hgone (hctl.gone hdead)]
    rfl
  · cases hlife : c.core.lifecycle with
    | initializing => exact absurd hlife (hrest.ended.resolve_left hdead)
    | running =>
      by_contra hne
      refine hctl.backlog hlife ?_ (hrest.box hrun).1
      intro hnil
      exact hne (by rw [Core.backlog, hnil]; rfl)
    | failed =>
      rcases hctl.failed hlife with hk | ⟨t, ht⟩
      · rw [Core.backlog, hgone hk]
        rfl
      · rw [hrest.out t] at ht
        cases ht

theorem AtRest.settled (hrest : AtRest c) (hrun : Reachable creator c) :
    requests (c.core.accepted : Multiset Message) = requests 0 + c.core.settled := by
  have hhands : ∀ t, hands c t = 0 := by
    intro t
    have hsync := (reachable_control hrun).synced t
    rw [hrest.out t] at hsync
    unfold hands
    rw [hrest.free t, hrest.idle t, hrest.out t, (show c.box.hold t = .none from hsync)]
    rfl
  have hbalance := (reachable_accounted hrun).balance
  rwa [Finset.sum_eq_zero fun t _ => hhands t, waiting, (hrest.box hrun).2, hrest.backlog hrun,
    Multiset.coe_nil, add_zero, add_zero] at hbalance

/-- **Every request to a shared service is answered or dispatched.** In every reachable
configuration no request has two errors and no worker panics; once nothing runs any more, every
accepted request is dispatched once or answered by one error, and a killed service is destroyed
once. -/
theorem requests_answered (creator : ι) (c : Config ι) (hrun : Reachable creator c) :
    (∀ r, c.core.errors.count r ≤ 1) ∧
    (∀ r ∈ c.core.dispatched, c.core.errors.count r = if r ∈ c.core.caught then 1 else 0) ∧
    c.core.removed ≤ 1 ∧ (∀ t m, c.point t ≠ .run (.work (.panicked m))) ∧ (AtRest c →
      (∀ r ∈ c.core.accepted, r.isRequest = true →
        c.core.dispatched.count r = 1 ∨
          (r ∉ c.core.dispatched ∧ c.core.errors.count r = 1)) ∧
      (c.core.registered = false → c.core.destroyed = true ∧ c.core.removed = 1)) := by
  have hacc := reachable_accounted hrun
  refine ⟨hacc.ledger.errors_le_one hacc.balance,
    fun r hr => hacc.ledger.errors_dispatched hacc.balance hr, ?_, not_panicked hrun, ?_⟩
  · have hremoved := (reachable_control hrun).removed
    have htoNat : c.core.destroyed.toNat ≤ 1 := toNat_le _
    omega
  · intro hrest
    exact ⟨fun r hr hreq => hacc.ledger.settled_once (hrest.settled hrun) hr hreq,
      hrest.destroyed hrun⟩

end Runs

/-! ### A late push -/

/-- Thread `s` creates the service and sends to it, thread `w` works, thread `k` kills.  The second
message is accepted before the kill and pushed after the cleanup. -/
def latePush (s w k : Fin 3) : List (Action (Fin 3)) :=
  let work := fun n => List.replicate n (Action.step w 0 .done false)
  let hold := fun n => List.replicate n (Action.hold w)
  List.flatten [
  -- the init task is polled to its end
  [.call s, .call s, .pop w], hold 1, work 2, hold 3, work 8, hold 5, work 2,
  -- the first message is dispatched
  [.grab s 5 7 0, .inner s], List.replicate 6 (.call s), [.pop w], hold 1, work 3, hold 6, work 3,
  List.replicate 3 (.call w), work 1,
  -- the second is accepted, and the service is killed and cleaned up
  [.grab s 5 8 0, .retire k false, .inner k, .inner k, .inner k, .call k, .inner k], work 5,
  hold 3, work 3, hold 2, work 4, hold 2, work 3, hold 1, work 3,
  -- the second message is pushed and found by another cleanup
  [.inner s], List.replicate 6 (.call s), [.pop w], hold 1, work 5, hold 4, work 3, hold 1, work 2]

def Config.allOut (c : Config (Fin 3)) : Bool :=
  decide (∀ t, (c.point t).isOut = true ∧ c.free t = true)

theorem latePush_end :
    (exec act (latePush 0 1 2) (Config.start (0 : Fin 3))).map
      (fun c => (c.allOut && c.core.dead && !c.core.registered, c.box.entries, c.core.accepted,
        c.core.dispatched, c.core.caught))
      = some (true, 0, [⟨0, 5, 7, 0⟩, ⟨1, 5, 8, 0⟩], [⟨0, 5, 7, 0⟩], [⟨0, 5, 7, 0⟩]) := by
  decide +kernel

theorem answered_of_latePush :
    ∃ c : Config (Fin 3), Reachable 0 c ∧ AtRest c ∧
      (⟨1, 5, 8, 0⟩ : Message) ∈ c.core.accepted ∧
      (⟨1, 5, 8, 0⟩ : Message) ∉ c.core.dispatched ∧
      c.core.errors.count ⟨1, 5, 8, 0⟩ = 1 ∧ c.core.removed = 1 ∧
      (⟨0, 5, 7, 0⟩ : Message) ∈ c.core.dispatched ∧ c.core.errors.count ⟨0, 5, 7, 0⟩ = 1 := by
  obtain ⟨c, hc, hend⟩ := Option.map_eq_some_iff.mp latePush_end
  simp only [Prod.mk.injEq, and_eq_true, not_eq_true'] at hend
  obtain ⟨⟨⟨hout, hdead⟩, hreg⟩, hentries, hacc, hdisp, hcaught⟩ := hend
  have hrun : Reachable (0 : Fin 3) c :=
    Interleave.Reachable.of_run hc
  have hall : ∀ t, (c.point t).isOut = true ∧ c.free t = true := of_decide_eq_true hout
  have hrest : AtRest c := by
    refine ⟨fun t => out_of_isOut (hall t).1, ?_, ?_, hentries, .inl hdead⟩
    · intro t
      have hfree := (hall t).2
      simp only [Config.free, and_eq_true] at hfree
      cases hi : c.inner t <;> simp_all [Inner.isNone]
    · intro t
      have hfree := (hall t).2
      simp only [Config.free, and_eq_true] at hfree
      cases hi : c.box.call t <;> simp_all [Mq.Call.isIdle]
  have hmem : (⟨1, 5, 8, 0⟩ : Message) ∈ c.core.accepted := by simp [hacc]
  have hnot : (⟨1, 5, 8, 0⟩ : Message) ∉ c.core.dispatched := by simp [hdisp]
  have hfirst : (⟨0, 5, 7, 0⟩ : Message) ∈ c.core.dispatched := by simp [hdisp]
  obtain ⟨-, haborted, -, -, hanswered⟩ := requests_answered 0 c hrun
  obtain ⟨hsettled, hkilled⟩ := hanswered hrest
  rcases hsettled _ hmem (by decide) with hd | ⟨-, herror⟩
  · exact absurd (List.count_pos_iff.mp (by omega)) hnot
  · refine ⟨c, hrun, hrest, hmem, hnot, herror, (hkilled hreg).2, hfirst, ?_⟩
    rw [haborted _ hfirst, if_pos (by simp [hcaught])]

/-! ### The executor -/

/-- **One executor, and none after the end.** A thread inside `run_service`, up to the moment it gives
the mailbox up, is alone, with the mailbox held and in no run queue; a service that is being destroyed
is dead, unregistered and worked on by nobody. -/
theorem executed_by_one [Fintype ι] [DecidableEq ι] {creator : ι} {c : Config ι}
    (hrun : Reachable creator c) :
    (∀ t, working (c.box.hold t) (c.point t) = true →
      (c.box.box.state = .running ∨ c.box.box.state = .notified) ∧ Mq.tokens c.box = 0 ∧
        ∀ t', t' ≠ t → working (c.box.hold t') (c.point t') = false) ∧
    ((c.core.destroyed = true ∨ ∃ t, (c.point t).cleaning = true) →
      c.core.dead = true ∧ c.core.registered = false ∧
        ∀ t, working (c.box.hold t) (c.point t) = false) := by
  have h := reachable_control hrun
  have hbox := Mq.reachable_inv (box_reachable hrun)
  constructor
  · intro t hw
    have hholds := holds_of_working (h.synced t) hw
    obtain ⟨hstate, htokens, -⟩ := hbox.sole_holder hholds
    exact ⟨hstate, htokens, fun t' hne => h.not_working hbox hholds hne⟩
  · intro hend
    have hdead : c.core.dead = true := by
      refine h.dead (hend.imp id ?_)
      rintro ⟨t, ht⟩
      refine ⟨t, ?_⟩
      revert ht
      cases c.point t <;> simp [Point.cleaning, Point.doomed]
    exact ⟨hdead, h.gone hdead, h.still hend⟩

theorem idle_after_latePush :
    ∃ c : Config (Fin 3), Reachable 0 c ∧ c.core.destroyed = true ∧ c.core.registered = false ∧
      ∀ t, working (c.box.hold t) (c.point t) = false := by
  have hend : (exec act (latePush 0 1 2) (Config.start (0 : Fin 3))).map (·.core.destroyed)
      = some true := by
    decide +kernel
  obtain ⟨c, hc, hend⟩ := Option.map_eq_some_iff.mp hend
  have hrun : Reachable (0 : Fin 3) c :=
    Interleave.Reachable.of_run hc
  exact ⟨c, hrun, hend, ((executed_by_one hrun).2 (.inl hend)).2⟩

end Rskynet.Service
