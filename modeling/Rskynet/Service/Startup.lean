import Rskynet.Service.Ledger

/-!
# The initialisation of a service

Messages that arrive before `init` has returned wait in a backlog, which exists exactly as long as
the service has not begun to run: only the init task ends the initialisation, and it is polled to
its end once.
-/

namespace Rskynet.Service

open Rskynet.Task (TaskId TaskSet)

/-- The points that matter for the initialisation; all others count as the head of the loop. -/
def RunPoint.duty : RunPoint → RunPoint
  | .takePending => .takePending
  | .work w => .work w
  | _ => .loop

def RunPoint.leaving : RunPoint → Bool
  | .work (.initExit task) => task == initTask
  | .work (.polled task) => task == initTask
  | _ => false

/-- The state of the initialisation while the holder stands at a point. -/
structure Prepared (k : Core) (p : RunPoint) : Prop where
  generation : 1 ≤ k.tasks.nextGeneration
  live : k.tasks.live initTask → k.lifecycle = .initializing ∨ p.leaving = true
  polling : p = .work (.polling initTask) → k.lifecycle = .initializing
  backlog : k.pending = none → k.lifecycle = .running
  replay : p = .takePending → k.lifecycle = .running
  safe : ∀ m, p ≠ .work (.panicked m)

theorem Prepared.start : Prepared Core.start .loop :=
  ⟨le_rfl, fun _ => .inl rfl, nofun, nofun, nofun,
    nofun⟩

/-! ### The init task -/

theorem Within.live {s s' : TaskSet Message} {task : TaskId} (h : Within s' s)
    (hlive : s'.live task) : s.live task := by
  obtain ⟨slot', hget, hgen⟩ := hlive
  obtain ⟨slot, hslot, hsame, -⟩ := h.2.2 _ _ hget
  exact ⟨slot, hslot, hsame.symm.trans hgen⟩

theorem live_takeRequests {s : TaskSet Message} {task : TaskId}
    (hlive : s.takeRequests.2.live task) : s.live task := by
  obtain ⟨slot', hget, hgen⟩ := hlive
  change (s.slots.map _).get _ = some slot' at hget
  rw [Slab.get_map] at hget
  obtain ⟨slot, hslot, rfl⟩ := Option.map_eq_some_iff.mp hget
  exact ⟨slot, hslot, hgen⟩

theorem live_install {k : Core} {key : ℕ} {request : Option Message}
    (hgen : 1 ≤ k.tasks.nextGeneration) (hkey : k.tasks.slots.vacant key = true)
    (hlive : (k.install key request).tasks.live initTask) : k.tasks.live initTask := by
  rcases (TaskSet.live_insert hkey).mp hlive with h | h
  · exact h
  · have hnew : 1 = k.tasks.nextGeneration + 1 := congrArg TaskId.generation h
    omega

theorem not_live_remove (s : TaskSet Message) (task : TaskId) : ¬ (s.remove task).live task := by
  rintro ⟨slot', hget, hgen⟩
  unfold TaskSet.remove at hget
  split at hget
  · next hnone => exact absurd (hnone.symm.trans hget) (by simp)
  · next slot hslot =>
    split at hget
    · next hne =>
      rw [hslot] at hget
      exact hne (Option.some.inj hget ▸ hgen)
    · rw [Slab.get_remove_self] at hget
      cases hget

/-! ### Steps of the holder -/

section Steps

variable {k k' : Core} {hold hold' : Held} {key : ℕ} {outcome : Outcome}
  {yields : Bool} {task : Option TaskId}

theorem Prepared.retask {p : RunPoint} (h : Prepared k p) (hlife : k'.lifecycle = k.lifecycle)
    (hpending : k'.pending = k.pending) (hgen : 1 ≤ k'.tasks.nextGeneration)
    (hlive : k'.tasks.live initTask → k.tasks.live initTask) : Prepared k' p := by
  refine ⟨hgen, ?_, ?_, ?_, ?_, h.safe⟩
  · rw [hlife]
    exact fun hl => h.live (hlive hl)
  · rw [hlife]
    exact h.polling
  · rw [hlife, hpending]
    exact h.backlog
  · rw [hlife]
    exact h.replay

theorem Prepared.move {p : RunPoint} (p' : RunPoint) (h : Prepared k p) (hp : p.leaving = false)
    (hpolling : p' ≠ .work (.polling initTask)) (hreplay : p' ≠ .takePending)
    (hsafe : ∀ m, p' ≠ .work (.panicked m)) : Prepared k p' :=
  ⟨h.generation, fun hl => .inl ((h.live hl).resolve_right (by simp [hp])),
    fun heq => absurd heq hpolling, h.backlog, fun heq => absurd heq hreplay, hsafe⟩

theorem workStep_prepared {w w' : WorkPoint} (hs : workStep k key outcome w = some (k', w', task))
    (h : Prepared k (.work w)) : Prepared k' (.work w') := by
  -- an init task that is polled finds the service initializing, so with a backlog
  have hend : ∀ ok, w = .polling initTask → (k.finishInit ok).pending = none →
      (k.finishInit ok).lifecycle = .running := by
    intro ok hw hnone
    have hinit := h.polling (by rw [hw])
    exact absurd (hinit.symm.trans (h.backlog hnone)) (by simp)
  cases workStep_moved hs with
  | lost m hm hlife hnone => exact absurd (h.backlog hnone) hlife
  | postpone m queue hm hlife hsome =>
    refine ⟨h.generation, ?_, nofun, nofun,
      nofun, nofun⟩
    exact fun hl => .inl ((h.live hl).resolve_right (by simp [RunPoint.leaving]))
  | install m hkey =>
    refine (h.move (.work .done) rfl (by simp) (by simp) (by simp)).retask rfl rfl ?_ ?_
    · exact Nat.le_add_left 1 _
    · exact live_install h.generation hkey
  | poll t tasks htake =>
    have hw := within_take htake
    obtain ⟨slot, hslot, hgen, -⟩ := TaskSet.take_eq_some htake
    have hinit : k.tasks.live initTask → k.lifecycle = .initializing := fun hl =>
      (h.live hl).resolve_right (by simp [RunPoint.leaving])
    refine ⟨hw.1.symm ▸ h.generation, fun hl => .inl (hinit (hw.live hl)), ?_, h.backlog,
      nofun, nofun⟩
    intro heq
    have ht : t = initTask := by simpa using heq
    subst ht
    exact hinit ⟨slot, hslot, hgen⟩
  | suspend t =>
    have hw := within_restore k.tasks t
    refine (h.move (.work .done) rfl (by simp) (by simp) (by simp)).retask rfl rfl ?_ hw.live
    exact hw.1.symm ▸ h.generation
  | started =>
    exact ⟨h.generation, fun _ => .inr rfl, nofun, hend true rfl,
      nofun, nofun⟩
  | refused =>
    exact ⟨h.generation, fun _ => .inr rfl, nofun, hend false rfl,
      nofun, nofun⟩
  | exited t =>
    exact ⟨h.generation, h.live, nofun, h.backlog, nofun,
      nofun⟩
  | remove t =>
    have hw := within_remove k.tasks t
    refine ⟨hw.1.symm ▸ h.generation, ?_, nofun, h.backlog,
      nofun, nofun⟩
    intro hl
    by_cases ht : t = initTask
    · subst ht
      exact absurd hl (not_live_remove _ _)
    · exact .inl ((h.live (hw.live hl)).resolve_right (by simp [RunPoint.leaving, ht]))
  | _ => exact h.move _ rfl (by simp) (by simp) (by simp)

/-- **The initialisation over one step of `run_service`.** -/
theorem RunMoved.prepared {p p' : RunPoint}
    (hs : RunMoved k hold key outcome yields p k' hold' p' task) (h : Prepared k p.duty) :
    Prepared k' p'.duty := by
  cases hs with
  | replay hrun =>
    exact ⟨h.generation, h.live, nofun, h.backlog, fun _ => hrun,
      nofun⟩
  | pending m rest hm =>
    refine ⟨h.generation, ?_, nofun, nofun,
      nofun, nofun⟩
    exact fun hl => .inl ((h.live hl).resolve_right (by simp [RunPoint.duty, RunPoint.leaving]))
  | unpend hnil hm =>
    refine ⟨h.generation, ?_, nofun, fun _ => h.replay rfl,
      nofun, nofun⟩
    exact fun hl => .inl ((h.live hl).resolve_right (by simp [RunPoint.duty, RunPoint.leaving]))
  | took work hm =>
    cases work <;>
      exact h.move _ rfl (by simp [RunPoint.duty, workPoint]) (by simp [RunPoint.duty])
        (by simp [RunPoint.duty, workPoint])
  | done =>
    exact h.move _ rfl (by simp [RunPoint.duty]) (by simp [RunPoint.duty]) (by simp [RunPoint.duty])
  | work w w' k' task hm => exact workStep_prepared hm h
  | _ => exact h

end Steps

end Rskynet.Service
