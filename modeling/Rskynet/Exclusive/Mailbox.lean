import Rskynet.Exclusive.Steps

/-!
# The mailbox of an exclusive service

An exclusive service uses the mailbox without a run queue. It behaves all the same like a shared
service with a run queue: a byte `QUEUED` stands for one entry, which only the service's thread
pops. `mark_running` on a byte that is not `QUEUED` is then a service that notifies itself, or that
yields to itself, before it is popped.

* `project_reachable` — **PROVED**: whatever an exclusive service reaches, the shared one reaches.
-/

namespace Rskynet.Exclusive

open Mq (Hold Mailbox Call)
open Rskynet.Task (TaskId)
open Service Interleave

variable {ι : Type*} [DecidableEq ι] {me : ι}
variable {hold : Held}

/-- The holder table of a service that only thread `me` executes. -/
def solo (me : ι) (hold : Held) : ι → Held :=
  Function.update (fun _ => .none) me hold

theorem solo_self (hold : Held) : solo me hold me = hold :=
  Function.update_self _ _ _

theorem solo_of_ne {t : ι} (hne : t ≠ me) (hold : Held) :
    solo me hold t = .none :=
  Function.update_of_ne hne _ _

theorem update_solo (hold hold' : Held) :
    Function.update (solo me hold) me hold' = solo me hold' :=
  Function.update_idem _ _ _

/-- The run-queue entries that the state byte stands for. -/
def entriesOf (b : Box) : ℕ := if b.state = .queued then 1 else 0

def shared (me : ι) (b : Box) (call : ι → Delivery)
    (hold : Held) : Mq.Config Message TaskId ι where
  box := b
  entries := entriesOf b
  call := call
  hold := solo me hold

/-- The shared service that an exclusive one behaves like. -/
def project (me : ι) (c : Config ι) : Mq.Config Message TaskId ι :=
  shared me c.box c.call c.hold

/-! ### mark_running -/

section Mark

variable {b : Box} {call : ι → Delivery}

theorem pop_reachable (hidle : (call me).isIdle = true) (hqueued : b.state = .queued) :
    Interleave.Reachable Mq.Step (shared me b call .none)
      (shared me (markRunning b) call .holding) := by
  refine Interleave.Reachable.of_exec (fun a _ _ ha => ⟨a, ha⟩) [.pop me, .hold me] ?_
  simp [exec, Mq.act, shared, hidle, solo_self, update_solo, Mq.Hold.isNone, hqueued,
    Mq.holdStep, markRunning, entriesOf]

/-- **`mark_running` as a run of the shared service.**  The thread pops the entry of a `QUEUED`
service, notifies an `IDLE` one first, and yields one that it holds. -/
theorem mark_reachable [Fintype ι] (hinv : Mq.Inv (shared me b call hold)) (hcall : call me = .idle)
    (hhold : hold = .none ∨ hold = .holding) :
    Interleave.Reachable Mq.Step (shared me b call hold)
      (shared me (markRunning b) call .holding) := by
  have hidle : (call me).isIdle = true := by rw [hcall]; rfl
  have hsame : Function.update call me .idle = call := by rw [← hcall, Function.update_eq_self]
  rcases hhold with rfl | rfl
  · have hholders : Mq.holders (shared me b call .none) = 0 := by
      refine Finset.sum_eq_zero fun t _ => ?_
      by_cases hne : t = me
      · rw [hne]
        show (if (solo me .none me).holds = true then 1 else 0) = 0
        rw [solo_self]
        rfl
      · show (if (solo me .none t).holds = true then 1 else 0) = 0
        rw [solo_of_ne hne]
        rfl
    have hbalanced : Mq.Balanced b.state _ (Mq.holders (shared me b call .none)) := hinv.balanced
    rw [hholders] at hbalanced
    cases hstate : b.state with
    | queued => exact pop_reachable hidle hstate
    | idle =>
      refine Interleave.Reachable.trans ?_
        (pop_reachable (b := { b with state := .queued }) hidle rfl)
      refine Interleave.Reachable.of_exec (fun a _ _ ha => ⟨a, ha⟩)
        [.kill me, .call me, .call me, .call me, .call me] ?_
      simp [exec, Mq.act, Mq.Config.deliver, shared, entriesOf, hidle, Mq.callStep, hstate,
        Mq.notifyNext, hsame]
    | running | notified => simp [hstate, Mq.Balanced] at hbalanced
  · have hstate : b.state = .running ∨ b.state = .notified :=
      (hinv.sole_holder (t := me) (by simp [shared, solo_self, Hold.holds])).1
    have hqueued : b.state ≠ .queued := by rcases hstate with h | h <;> simp [h]
    refine Interleave.Reachable.trans ?_
      (pop_reachable (b := { b with state := .queued }) hidle rfl)
    refine Interleave.Reachable.of_exec (fun a _ _ ha => ⟨a, ha⟩)
      [.choose me .yield, .hold me, .hold me] ?_
    simp [exec, Mq.act, shared, hidle, solo_self, update_solo, Mq.enter, Mq.holdStep,
      hqueued, entriesOf]

end Mark

/-! ### Every step -/

section Steps

variable {b : Box}

variable {c c' : Config ι}

theorem project_begin (c : Config ι) (t : ι) (call : Option Delivery) :
    project me (c.begin t call) = Service.begin (project me c) t call := by
  cases call <;> rfl

theorem project_start : Mq.Reachable me [initTask] (project me (Config.start ι)) := by
  refine Interleave.Reachable.of_exec (fun a _ _ ha => ⟨a, ha⟩) [.call me, .call me] ?_
  simp [exec, Mq.act, Mq.Config.start, Mq.callStep, project, shared, Config.start, entriesOf,
    Mailbox.new, solo]

theorem callStep_reachable {t : ι} {p : Delivery} {queued : Bool}
    (hs : callStep c.box (c.call t) = some (b, p, queued)) :
    Interleave.Reachable Mq.Step (project me c)
      (shared me b (Function.update c.call t p) c.hold) := by
  have hsingle : ∀ {b : Box} {p : Delivery},
      b.state = c.box.state ∨ (c.box.state = .running ∧ b.state = .notified) →
      Mq.callStep c.box (entriesOf c.box) (c.call t) = some (b, entriesOf c.box, p) →
      Interleave.Reachable Mq.Step (project me c)
        (shared me b (Function.update c.call t p) c.hold) := by
    intro b p hstate hstep
    have hentries : entriesOf b = entriesOf c.box := by
      unfold entriesOf
      rcases hstate with h | ⟨h, h'⟩
      · rw [h]
      · rw [h, h']
        rfl
    refine Interleave.Reachable.refl.tail ⟨.call t, ?_⟩
    simp [Mq.act, project, shared, hstep, hentries]
  cases hcall : c.call t with
  | idle => rw [hcall] at hs; cases hs
  | lenAdd | queuePush | readyPush | notifyLoad =>
    rw [hcall] at hs
    cases hs
    exact hsingle (.inl rfl) (by rw [hcall]; rfl)
  | casIdle pushed =>
    rw [hcall] at hs
    simp only [callStep] at hs
    split at hs
    · next hidle =>
      cases hs
      refine Interleave.Reachable.of_exec (fun a _ _ ha => ⟨a, ha⟩) [.call t, .call t, .call t] ?_
      simp [exec, Mq.act, project, shared, hcall, Mq.callStep, hidle, entriesOf]
    · next hidle =>
      cases hs
      exact hsingle (.inl rfl) (by rw [hcall]; simp [Mq.callStep, hidle])
  | casRunning pushed =>
    rw [hcall] at hs
    simp only [callStep, Mq.callStep] at hs
    split at hs
    · next hrun =>
      cases hs
      exact hsingle (.inr ⟨hrun, rfl⟩) (by rw [hcall]; simp [Mq.callStep, hrun])
    · next hrun =>
      cases hs
      exact hsingle (.inl rfl) (by rw [hcall]; simp [Mq.callStep, hrun])
  | pushMark | pushInsert => rw [hcall] at hs; cases hs

theorem holdStep_reachable [Fintype ι] (hinv : Mq.Inv (project me c))
    (hidle : (c.call me).isIdle = true) (hs : holdStep c.box c.hold = some (b, hold)) :
    Interleave.Reachable Mq.Step (project me c) (shared me b c.call hold) := by
  obtain ⟨hstep, hmark⟩ := holdStep_shared hs (entriesOf c.box)
  have hstate : b.state = c.box.state ∨ (c.hold.holds = true ∧ b.state ≠ .queued) := by
    cases hh : c.hold <;> rw [hh] at hs hmark <;> simp only [holdStep, Mq.holdStep] at hs <;>
      first
        | exact absurd rfl hmark
        | (obtain ⟨rfl, -⟩ := hs; first | exact .inl rfl | exact .inr ⟨rfl, by simp⟩)
        | ((repeat' split at hs) <;> obtain ⟨rfl, -⟩ := hs <;>
            first | exact .inl rfl | exact .inr ⟨rfl, by simp⟩)
  have hentries : entriesOf b = entriesOf c.box := by
    unfold entriesOf
    rcases hstate with h | ⟨hh, hq⟩
    · rw [h]
    · have hheld : c.box.state = .running ∨ c.box.state = .notified :=
        (hinv.sole_holder (t := me) (by simp [project, shared, solo_self, hh])).1
      rw [if_neg hq, if_neg (by rcases hheld with h | h <;> simp [h])]
  refine Interleave.Reachable.refl.tail ⟨.hold me, ?_⟩
  simp [Mq.act, project, shared, hidle, solo_self, hstep, update_solo, hentries]

theorem pointStep_reachable [Fintype ι] {k k' : Core} {key : ℕ} {outcome : Outcome} {p p' : Point}
    {call : Option Delivery} (hinv : Mq.Inv (project me c)) (hcall : c.call me = .idle)
    (hsync : Synced c.hold p) (hs : Moved k c.box c.hold key outcome p k' b hold p' call) :
    Interleave.Reachable Mq.Step (project me c) (shared me b c.call hold) := by
  rcases hs.decides hsync with ⟨rfl, hhold⟩ | ⟨rfl, rfl, hhold⟩
  · have hchoose : Interleave.Reachable Mq.Step (project me c)
        { project me c with hold := Function.update (project me c).hold me hold } :=
      choose_reachable (by simp [project, shared, hcall, Call.isIdle])
        (by simpa [project, shared, solo_self] using hhold)
    simpa [project, shared, update_solo] using hchoose
  · exact mark_reachable hinv hcall hhold

theorem idle_of_isIdle {call : Delivery} (h : call.isIdle = true) : call = .idle := by
  cases call <;> first | rfl | cases h

/-- **One step of an exclusive service** is a run of the shared service behind it. -/
theorem project_step [Fintype ι] (hinv : Mq.Inv (project me c)) (hsync : Synced c.hold c.point)
    (hs : Step me c c') :
    Interleave.Reachable Mq.Step (project me c) (project me c') ∧ Synced c'.hold c'.point := by
  obtain ⟨a, ha⟩ := hs
  cases act_acted ha with
  | inner t k i call hidle hi =>
    refine ⟨?_, ?_⟩
    · rw [project_begin]
      exact begin_reachable hidle (innerStep_starts hi)
    · cases call <;> exact hsync
  | wake t task hfree | spawn key hfree =>
    refine ⟨?_, hsync⟩
    exact begin_reachable (isIdle_of_free hfree) (starts_readyPush _)
  | call t b p queued hquiet hc => exact ⟨callStep_reachable hc, hsync⟩
  | callFail t p hc =>
    exact ⟨Interleave.Reachable.refl.tail ⟨.callFail t, by simp [Mq.act, project, shared, hc]⟩,
      hsync⟩
  | hold b p hfree hh =>
    exact ⟨holdStep_reachable hinv (isIdle_of_free hfree) hh, synced_holdStep hsync hh⟩
  | step key outcome k b hold p call hfree hmoved =>
    have hidle := isIdle_of_free hfree
    refine ⟨?_, ?_⟩
    · rw [project_begin]
      refine (pointStep_reachable hinv (idle_of_isIdle hidle) hsync hmoved).trans
        (begin_reachable hidle ?_)
      intro q hq
      obtain ⟨task, rfl⟩ := hmoved.starts q hq
      trivial
    · have hsync' := hmoved.synced hsync
      cases call <;> exact hsync'
  | _ => exact ⟨Interleave.Reachable.refl, hsync⟩

/-- **Whatever an exclusive service reaches**, the shared service behind it reaches. -/
theorem project_reachable [Fintype ι] (hrun : Reachable me c) :
    Mq.Reachable me [initTask] (project me c) ∧ Synced c.hold c.point := by
  refine hrun.invariant
    (I := fun c => Mq.Reachable me [initTask] (project me c) ∧ Synced c.hold c.point) ?_ ?_
  · exact ⟨project_start, rfl⟩
  · rintro a b ⟨hr, hsync⟩ hs
    obtain ⟨hr', hsync'⟩ := project_step (Mq.reachable_inv hr) hsync hs
    exact ⟨hr.trans hr', hsync'⟩

theorem reachable_box [Fintype ι] (hrun : Reachable me c) : Mq.Inv (project me c) :=
  Mq.reachable_inv (project_reachable hrun).1

end Steps

end Rskynet.Exclusive
