import Rskynet.Scheduler.Wakeup

/-!
# Shutdown

A worker that sees `quit` leaves `worker_loop` through `flush_local`, which empties its handoff
slot and then its local queue into the injector; what is left is popped from the injector by the
main thread. A push that claimed the worker's idle bit before the worker woke up may offer its
service after the slot was looked at, and then nobody takes it out again.

* `shutdown_empties_workers_iff` — **PROVED**: after shutdown all local queues and slots are empty
  exactly when no offer of the run was late;
* `late_offer_strands_service` — **PROVED**: a run with a late offer.
-/

namespace Rskynet.Scheduler

open Function (update update_of_ne update_self)
open List Option Interleave

variable {n : ℕ} {σ ε : Type*}
variable {a : Action n σ ε}

def Pc.pastSlot : Pc n σ → Bool
  | .flushInjector _ => true
  | .flushLocal => true
  | .flushClear => true
  | .left => true
  | _ => false

def Pc.pastLocal : Pc n σ → Bool
  | .flushClear => true
  | .left => true
  | _ => false

theorem pastSlot_of_pastLocal {p : Pc n σ} (h : p.pastLocal = true) : p.pastSlot = true := by
  cases p <;> first | rfl | cases h

variable (me : Option (Fin n)) (k : After)

@[simp] theorem pastSlot_after : (k.pc : Pc n σ).pastSlot = false := by
  cases k <;> rfl

@[simp] theorem pastSlot_missed (f : PopFor) : (f.missed : Pc n σ).pastSlot = false := by
  cases f <;> rfl

@[simp] theorem pastSlot_found (f : PopFor) : (f.found : Pc n σ).pastSlot = false := by
  cases f <;> rfl

@[simp] theorem pastSlot_placing (s : σ) (next : Next n) (k : After) :
    (placing me s next k).pastSlot = false := by
  cases me <;> rfl

@[simp] theorem pastSlot_placed (next : Next n) (k : After) :
    (placed me next k : Pc n σ).pastSlot = false :=
  placed_cases (P := (·.pastSlot = false)) (fun _ => rfl) rfl (pastSlot_after k)

@[simp] theorem pastSlot_claimed (goal : Goal σ) (w : Fin n) (k : After) :
    (claimed goal w k).pastSlot = false := by
  cases goal <;> rfl

@[simp] theorem pastSlot_claimNext (goal : Goal σ) (word : ℕ)
    (bits : BitVec 64) (k : After) : (claimNext me goal word bits k).pastSlot = false :=
  claimNext_cases (P := (·.pastSlot = false)) (fun _ => rfl) rfl (fun _ _ => pastSlot_placing ..)
    fun _ => pastSlot_after k

/-! ### What one step can do -/

section Steps

variable {me : Option (Fin n)} {luck : Luck} {m m' : Sched n σ} {p p' : Pc n σ} {out : List σ}

theorem slot_taken (hs : step me luck m p = some (m', p', out)) {w : Fin n}
    (hw : m.slot w ≠ none) : m'.slot w ≠ none ∨ (me = some w ∧ p.pastSlot = false) := by
  have htake : ∀ v, me = some v → p.pastSlot = false → m'.slot = update m.slot v none →
      m'.slot w ≠ none ∨ (me = some w ∧ p.pastSlot = false) := by
    intro v hme hp he
    by_cases hv : w = v
    · exact .inr ⟨by rw [hv]; exact hme, hp⟩
    · left
      rw [he, update_of_ne hv]
      exact hw
  cases p with
  | offer v s k =>
    left
    simp only [step] at hs
    split at hs
    · next hnone =>
      cases hs
      have hv : w ≠ v := by
        rintro rfl
        exact hw hnone
      show update m.slot v (some s) w ≠ none
      rw [update_of_ne hv]
      exact hw
    · cases hs
      exact hw
  | popSlot | flushSlot =>
    obtain ⟨v, hme, hv⟩ := map_eq_some_iff.mp hs
    split at hv
    · cases hv
      exact htake v hme rfl rfl
    · cases hv
      exact .inl hw
  | _ =>
    left
    rw [(step_frame hs).slot rfl]
    exact hw

theorem step_pastSlot (hs : step me luck m p = some (m', p', out)) (hp : p.pastSlot = true) :
    p'.pastSlot = true := by
  cases p with
  | flushInjector | flushClear =>
    obtain ⟨v, -, hv⟩ := map_eq_some_iff.mp hs
    cases hv
    rfl
  | flushLocal =>
    obtain ⟨v, -, hv⟩ := map_eq_some_iff.mp hs
    split at hv <;> obtain ⟨-, rfl, -⟩ := hv <;> rfl
  | left => cases hs
  | _ => cases hp

theorem step_flush {w : Fin n} (hs : step (some w) luck m p = some (m', p', out)) :
    (p'.pastSlot = true → m'.slot w = none ∨ p.pastSlot = true) ∧
    (p'.pastLocal = true → m'.locals w = [] ∨ p.pastLocal = true) := by
  cases p with
  | flushSlot =>
    simp only [step, map_some, some.injEq] at hs
    split at hs
    · cases hs
      exact ⟨fun _ => .inl (update_self ..), fun h => absurd h (by simp [Pc.pastLocal])⟩
    · next hslot =>
      cases hs
      exact ⟨fun _ => .inl hslot, fun h => absurd h (by simp [Pc.pastLocal])⟩
  | flushLocal =>
    simp only [step, map_some, some.injEq] at hs
    split at hs
    · cases hs
      exact ⟨fun _ => .inr rfl, fun h => absurd h (by simp [Pc.pastLocal])⟩
    · next hlocal =>
      cases hs
      exact ⟨fun _ => .inr rfl, fun _ => .inl (getLast?_eq_none_iff.mp hlocal)⟩
  | flushInjector s =>
    cases hs
    exact ⟨fun _ => .inr rfl, fun h => absurd h (by simp [Pc.pastLocal])⟩
  | flushClear => exact ⟨fun _ => .inr rfl, fun _ => .inr rfl⟩
  | left | idle | panicked | exiting => cases hs
  | _ =>
    have hp' : p'.pastSlot = false := by
      simp only [step, map_some, some.injEq] at hs
      (repeat' split at hs) <;>
      first
        | (obtain ⟨-, rfl, -⟩ := hs
           first | rfl | simp)
        | cases hs
    have hnot : p'.pastLocal = true → False := by
      intro h
      rw [pastSlot_of_pastLocal h] at hp'
      exact Bool.noConfusion hp'
    exact ⟨fun h => absurd h (by simp [hp']), fun h => (hnot h).elim⟩

end Steps

/-! ### Whole runs -/

section Runs

variable [DecidableEq ε]

/-- The step offers a service into the slot of a worker that has emptied it for the last time. -/
def lateOffer (c : Config n σ ε) : Action n σ ε → Bool
  | .enter _ _ => false
  | .step t _ =>
    match c.pc t with
    | .offer w _ _ => (c.mem.slot w).isNone && (c.pc (.inl w)).pastSlot
    | _ => false

/-- A service lies in the slot of a worker that has emptied it for the last time. -/
def Stranded (c : Config n σ ε) : Prop :=
  ∃ w, (c.pc (.inl w)).pastSlot = true ∧ c.mem.slot w ≠ none

/-- What a worker has emptied for the last time is empty. -/
structure Flushed (c : Config n σ ε) : Prop where
  slot : ∀ w, (c.pc (.inl w)).pastSlot = true → c.mem.slot w = none
  locals : ∀ w, (c.pc (.inl w)).pastLocal = true → c.mem.locals w = []

theorem entry_pastSlot {me : Option (Fin n)} {op : Op σ} {p p' : Pc n σ}
    (h : op.entry me p = some p') : p.pastSlot = false ∧ p'.pastSlot = false := by
  revert h
  cases op <;> cases p <;> cases me <;> simp [Op.entry] <;> rintro rfl <;> exact ⟨rfl, rfl⟩

theorem Flushed.act {c c' : Config n σ ε} (h : Flushed c) (ha : lateOffer c a = false)
    (hs : Scheduler.act a c = some c') : Flushed c' := by
  cases a with
  | enter t op =>
    obtain ⟨p, hp, rfl⟩ := map_eq_some_iff.mp hs
    have hp' := (entry_pastSlot hp).2
    constructor
    · intro w hw
      by_cases ht : .inl w = t
      · simp [ht, hp'] at hw
      · simp only [update_of_ne ht] at hw
        exact h.slot w hw
    · intro w hw
      by_cases ht : .inl w = t
      · have := pastSlot_of_pastLocal hw
        simp [ht, hp'] at this
      · simp only [update_of_ne ht] at hw
        exact h.locals w hw
  | step t luck =>
    obtain ⟨⟨m, p, out⟩, hp, rfl⟩ := map_eq_some_iff.mp hs
    constructor
    · intro w hw
      change (update c.pc t p (.inl w)).pastSlot = true at hw
      -- a slot that was empty is filled by an offer only, and that would be a late one
      have hkeep : (c.pc (.inl w)).pastSlot = true → m.slot w = none := by
        intro hpast
        have hnone := h.slot w hpast
        rcases slot_filled hp hnone with hk | ⟨s, k, hoff⟩
        · exact hk
        · simp [lateOffer, hoff, hnone, hpast] at ha
      by_cases ht : .inl w = t
      · subst ht
        rw [update_self] at hw
        exact ((step_flush hp).1 hw).elim id hkeep
      · simp only [update_of_ne ht] at hw
        exact hkeep hw
    · intro w hw
      change (update c.pc t p (.inl w)).pastLocal = true at hw
      have hkeep : (c.pc (.inl w)).pastLocal = true → m.locals w = [] := by
        intro hpast
        rcases locals_kept hp (h.locals w hpast) with hk | ⟨hme, s, next, k, hplace⟩
        · exact hk
        · rw [← eq_inl_of_workerId hme, hplace] at hpast
          cases hpast
      by_cases ht : .inl w = t
      · subst ht
        rw [update_self] at hw
        exact ((step_flush hp).2 hw).elim id hkeep
      · simp only [update_of_ne ht] at hw
        exact hkeep hw

/-- **What is stranded stays stranded.**  Only the owner takes a service out of its slot, and the
owner is past that. -/
theorem Stranded.act {c c' : Config n σ ε} (h : Stranded c) (hs : Scheduler.act a c = some c') :
    Stranded c' := by
  obtain ⟨w, hpast, hslot⟩ := h
  cases a with
  | enter t op =>
    obtain ⟨p, hp, rfl⟩ := map_eq_some_iff.mp hs
    have hne : .inl w ≠ t := by
      rintro rfl
      rw [(entry_pastSlot hp).1] at hpast
      exact Bool.false_ne_true hpast
    exact ⟨w, by simpa only [update_of_ne hne] using hpast, hslot⟩
  | step t luck =>
    obtain ⟨⟨m, p, out⟩, hp, rfl⟩ := map_eq_some_iff.mp hs
    refine ⟨w, ?_, ?_⟩
    · show (update c.pc t p (.inl w)).pastSlot = true
      by_cases ht : .inl w = t
      · subst ht
        rw [update_self]
        exact step_pastSlot hp hpast
      · rw [update_of_ne ht]
        exact hpast
    · rcases slot_taken hp hslot with hk | ⟨hme, hnot⟩
      · exact hk
      · rw [eq_inl_of_workerId hme, hpast] at hnot
        cases hnot

theorem stranded_of_lateOffer {c c' : Config n σ ε} (ha : lateOffer c a = true)
    (hs : Scheduler.act a c = some c') : Stranded c' := by
  cases a with
  | enter t op => cases ha
  | step t luck =>
    obtain ⟨⟨m, p, out⟩, hp, rfl⟩ := map_eq_some_iff.mp hs
    simp only [lateOffer] at ha
    split at ha
    · next w s k hoff =>
      simp only [Bool.and_eq_true, isNone_iff_eq_none] at ha
      obtain ⟨hnone, hpast⟩ := ha
      have hne : .inl w ≠ t := by
        rintro rfl
        rw [hoff] at hpast
        cases hpast
      rw [hoff] at hp
      simp only [step, hnone, some.injEq, Prod.mk.injEq] at hp
      obtain ⟨rfl, rfl, rfl⟩ := hp
      refine ⟨w, ?_, ?_⟩
      · show (update c.pc t _ (.inl w)).pastSlot = true
        rw [update_of_ne hne]
        exact hpast
      · simp
    · cases ha

/-- Shutdown is complete: `quit` is set, every worker has left `worker_loop` and no push is in
progress. -/
structure ShutDown (c : Config n σ ε) : Prop where
  quit : c.mem.quit = true
  left : ∀ w, c.pc (.inl w) = .left
  quiet : ∀ t, (c.pc t).inPush = false

/-- **Shutdown leaves nothing with the workers exactly when no offer was late.**  At the end of a
run after which shutdown is complete, every local queue and every handoff slot is empty, so that
all queued services are in the injector, if and only if no step of the run offered a service into
the slot of a worker that had already emptied it in `flush_local`. -/
theorem shutdown_empties_workers_iff (as : List (Action n σ ε)) (c : Config n σ ε)
    (hrun : Interleave.exec act as (Config.start n σ ε) = some c) (hdown : ShutDown c) :
    (∀ w, c.mem.locals w = [] ∧ c.mem.slot w = none) ↔
      Interleave.along act (fun c a => lateOffer c a = false) as (Config.start n σ ε) := by
  constructor
  · intro hempty
    by_contra hlate
    obtain ⟨w, -, hslot⟩ : Stranded c :=
      exec_of_not_along
        (fun a s s' ha hs => stranded_of_lateOffer (Bool.eq_true_of_not_eq_false ha) hs)
        (fun a s s' h hs => h.act hs) as hlate hrun
    exact hslot (hempty w).2
  · intro htimely w
    have hstart : Flushed (Config.start n σ ε) := ⟨fun _ _ => rfl, fun _ _ => rfl⟩
    have h : Flushed c :=
      exec_invariant (fun a s s' h ha hs => h.act ha hs) as hstart htimely hrun
    exact ⟨h.locals w (by rw [hdown.left w]; rfl), h.slot w (by rw [hdown.left w]; rfl)⟩

/-- An outside thread pushes a service and sets `quit`; the only worker flushes and leaves. -/
def pushThenQuit (w x : Fin 1) : List (Action 1 ℕ (Fin 1)) :=
  List.flatten
    [.enter (.inr x) (.push 7) :: List.replicate 6 (.step (.inr x) .plain),
      .enter (.inr x) .setQuit :: List.replicate 3 (.step (.inr x) .plain),
      [.enter (.inl w) .loopTest, .step (.inl w) .plain],
      .enter (.inl w) .flush :: List.replicate 3 (.step (.inl w) .plain)]

theorem pushThenQuit_state :
    (exec act (pushThenQuit 0 0) (Config.start 1 ℕ (Fin 1))).map
      (fun c => (c.mem.injector, c.mem.quit, decide (∀ w, c.pc (.inl w) = .left),
        decide (∀ t, (c.pc t).inPush = false))) = some ([7], true, true, true) := by
  decide +kernel

theorem empty_of_pushThenQuit :
    ∃ c : Config 1 ℕ (Fin 1), ShutDown c ∧ c.mem.injector = [7] ∧
      ∀ w, c.mem.locals w = [] ∧ c.mem.slot w = none := by
  obtain ⟨c, hc, hstate⟩ := map_eq_some_iff.mp pushThenQuit_state
  simp only [Prod.mk.injEq, decide_eq_true_iff] at hstate
  obtain ⟨hinj, hquit, hleft, hquiet⟩ := hstate
  have hdown : ShutDown c := ⟨hquit, hleft, hquiet⟩
  exact ⟨c, hdown, hinj, (shutdown_empties_workers_iff (pushThenQuit 0 0) c hc hdown).mpr
    (by decide +kernel)⟩

/-- Worker `v` searches and worker `w` parks; `quit` is set and worker `v` leaves; an outside push
claims worker `w`, which wakes up, sees `quit`, flushes and leaves before the service is offered. -/
def lateHandoff (w v x y : Fin 2) : List (Action 2 ℕ (Fin 2)) :=
  List.flatten
    [[.enter (.inl v) .find, .step (.inl v) .plain],
      .enter (.inl w) .find :: List.replicate 6 (.step (.inl w) .plain),
      .enter (.inr y) .setQuit :: List.replicate 4 (.step (.inr y) .plain),
      List.replicate 4 (.step (.inl v) .plain),
      [.enter (.inl v) .loopTest, .step (.inl v) .plain],
      .enter (.inl v) .flush :: List.replicate 3 (.step (.inl v) .plain),
      .enter (.inr x) (.push 7) :: List.replicate 4 (.step (.inr x) .plain),
      List.replicate 2 (.step (.inl w) .plain),
      [.enter (.inl w) .loopTest, .step (.inl w) .plain],
      .enter (.inl w) .flush :: List.replicate 3 (.step (.inl w) .plain),
      List.replicate 2 (.step (.inr x) .plain)]

theorem lateHandoff_state :
    (exec act (lateHandoff 0 1 0 1) (Config.start 2 ℕ (Fin 2))).map
      (fun c => (c.mem.slot 0, c.mem.quit, decide (∀ w, c.pc (.inl w) = .left),
        decide (∀ t, (c.pc t).inPush = false))) = some (some 7, true, true, true) := by
  decide +kernel

theorem late_offer_strands_service :
    ∃ c : Config 2 ℕ (Fin 2), Reachable c ∧ ShutDown c ∧ c.mem.slot 0 = some 7 := by
  obtain ⟨c, hc, hstate⟩ := map_eq_some_iff.mp lateHandoff_state
  simp only [Prod.mk.injEq, decide_eq_true_iff] at hstate
  obtain ⟨hslot, hquit, hleft, hquiet⟩ := hstate
  exact ⟨c, Interleave.Reachable.of_run hc,
    ⟨hquit, hleft, hquiet⟩, hslot⟩

end Runs

end Rskynet.Scheduler
