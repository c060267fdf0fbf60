import Rskynet.Exclusive.Steps

/-!
# The ids in the ready queue

A waker belongs to a task, so what it pushes is an id that the task set has handed out.

* `known_step`, `known_run` — **PROVED**: every run with such wakes keeps this.
-/

namespace Rskynet.Exclusive

open Mq (Call)
open Rskynet.Task (TaskId TaskSet)
open Service List Interleave

variable {ι : Type*}
variable {call : Option Delivery}

/-- A wake is made with the waker of a task that exists or has existed. -/
def Issued (c : Config ι) : Action ι → Prop
  | .wake _ task => task.generation ≤ c.core.tasks.nextGeneration
  | _ => True

instance (c : Config ι) (a : Action ι) : Decidable (Issued c a) :=
  match a with
  | .wake _ task => inferInstanceAs (Decidable (task.generation ≤ c.core.tasks.nextGeneration))
  | .grab _ _ _ _ | .retire _ _ | .inner _ | .spawn _ | .call _ | .callFail _ | .interrupt _ | .hold
  | .step _ _ => isTrue trivial

/-- **Every entry is the id of a task that was made.** -/
structure Known (c : Config ι) : Prop where
  ready : ∀ task ∈ c.box.ready, task.generation ≤ c.core.tasks.nextGeneration
  call : ∀ t task, c.call t = .readyPush task → task.generation ≤ c.core.tasks.nextGeneration

/-! ### The task set only counts up -/

section Counter

variable {k k' : Core} {b b' : Box} {hold hold' : Held} {key : ℕ}
  {outcome : Outcome}

theorem nextGeneration_take {s s' : TaskSet Message} {task : TaskId} (h : s.take task = some s') :
    s'.nextGeneration = s.nextGeneration := (within_take h).1

theorem nextGeneration_restore (s : TaskSet Message) (task : TaskId) :
    (s.restore task).nextGeneration = s.nextGeneration := by
  unfold TaskSet.restore
  split
  · rfl
  · split <;> rfl

theorem workStep_generation {w w' : WorkPoint} {task : Option TaskId}
    (h : workStep k key outcome w = some (k', w', task)) :
    k.tasks.nextGeneration ≤ k'.tasks.nextGeneration
      ∧ ∀ id, task = some id → id.generation ≤ k'.tasks.nextGeneration := by
  cases workStep_moved h with
  | install m hkey =>
    refine ⟨Nat.le_succ _, ?_⟩
    intro id hid
    obtain rfl := Option.some.inj hid
    exact le_rfl
  | poll t tasks htake => exact ⟨(nextGeneration_take htake).ge, nofun⟩
  | suspend t => exact ⟨(nextGeneration_restore _ _).ge, nofun⟩
  | remove t => exact ⟨(within_remove _ _).1.ge, nofun⟩
  | _ => exact ⟨le_rfl, nofun⟩

theorem cleanStep_generation {p p' : CleanPoint} (h : cleanStep k hold p = some (k', hold', p')) :
    k'.tasks.nextGeneration = k.tasks.nextGeneration := by
  cases cleanStep_moved h with
  | _ => rfl

/-- **A step of the thread** hands out ids in order and pushes only what it handed out. -/
theorem Moved.generation {p p' : Point} (h : Moved k b hold key outcome p k' b' hold' p' call) :
    b'.ready = b.ready ∧ k.tasks.nextGeneration ≤ k'.tasks.nextGeneration
      ∧ ∀ id, call = some (.readyPush id) → id.generation ≤ k'.tasks.nextGeneration := by
  have htask : ∀ {task : Option TaskId}, (∀ id, task = some id → id.generation ≤ k'.tasks.nextGeneration) →
      ∀ id, task.map (Call.readyPush (μ := Message)) = some (.readyPush id) →
        id.generation ≤ k'.tasks.nextGeneration := by
    intro task hid id hmap
    obtain ⟨x, hx, heq⟩ := Option.map_eq_some_iff.mp hmap
    obtain rfl : x = id := Call.readyPush.inj heq
    exact hid x hx
  cases h with
  | run r r' k₁ hold₁ task hs =>
    cases runStep_moved hs with
    | work w w' _ _ hw => exact ⟨rfl, (workStep_generation hw).1, htask (workStep_generation hw).2⟩
    | _ => exact ⟨rfl, le_rfl, nofun⟩
  | drain r r' k₁ hold₁ task hs =>
    cases drainStep_moved hs with
    | work _ w w' _ _ hw => exact ⟨rfl, (workStep_generation hw).1, htask (workStep_generation hw).2⟩
    | _ => exact ⟨rfl, le_rfl, nofun⟩
  | clean r r' _ _ hs => exact ⟨rfl, (cleanStep_generation hs).ge, nofun⟩
  | _ => exact ⟨rfl, le_rfl, nofun⟩

theorem innerStep_generation {owns : Bool} {i i' : Inner}
    (h : innerStep k owns i = some (k', i', call)) :
    k'.tasks.nextGeneration = k.tasks.nextGeneration ∧ ∀ id, call ≠ some (.readyPush id) := by
  cases innerStep_moved h with
  | _ => exact ⟨rfl, nofun⟩

end Counter

/-! ### The mailbox -/

section Box

variable {b b' : Box} {hold hold' : Held}

theorem notifyNext_ne_readyPush (pushed : Bool) (s : Mq.BoxState) (task : TaskId) :
    (Mq.notifyNext pushed s : Delivery) ≠ .readyPush task := by
  cases s <;> nofun

theorem callStep_ready {p p' : Delivery} {queued : Bool}
    (h : callStep b p = some (b', p', queued)) :
    (∀ task ∈ b'.ready, task ∈ b.ready ∨ p = .readyPush task) ∧ ∀ task, p' ≠ .readyPush task := by
  cases p with
  | idle | pushMark | pushInsert => cases h
  | lenAdd | queuePush => cases h; exact ⟨fun _ ht => .inl ht, by rintro _ ⟨⟩⟩
  | readyPush r =>
    cases h
    refine ⟨?_, by rintro _ ⟨⟩⟩
    intro task ht
    rcases mem_append.mp ht with ht | ht
    · exact .inl ht
    · exact .inr (mem_singleton.mp ht ▸ rfl)
  | notifyLoad pushed =>
    cases h
    exact ⟨fun _ ht => .inl ht, notifyNext_ne_readyPush _ _⟩
  | casIdle pushed =>
    simp only [callStep] at h
    split at h <;> cases h
    · exact ⟨fun _ ht => .inl ht, by rintro _ ⟨⟩⟩
    · exact ⟨fun _ ht => .inl ht, notifyNext_ne_readyPush _ _⟩
  | casRunning pushed =>
    simp only [callStep, Mq.callStep] at h
    split at h <;> cases h
    · exact ⟨fun _ ht => .inl ht, by rintro _ ⟨⟩⟩
    · exact ⟨fun _ ht => .inl ht, notifyNext_ne_readyPush _ _⟩

theorem holdStep_ready (h : holdStep b hold = some (b', hold')) : ∀ task ∈ b'.ready, task ∈ b.ready := by
  obtain ⟨hs, -⟩ := holdStep_shared h 0
  cases hold with
  | takeReady | drainReady =>
    simp only [Mq.holdStep] at hs
    split at hs <;> rename_i hready <;> cases hs
    · exact fun _ ht => ht
    · intro task ht
      rw [hready]
      exact mem_cons_of_mem _ ht
  | takeStreak | takeBurst | takeQueue | loadThreshold | takeCas | drainQueue | releaseCas =>
    simp only [Mq.holdStep] at hs; split at hs <;> cases hs <;> exact fun _ ht => ht
  | _ => cases hs <;> exact fun _ ht => ht

end Box

/-! ### Runs -/

theorem known_start : Known (Config.start ι) := by
  refine ⟨?_, nofun⟩
  intro task ht
  obtain rfl := mem_singleton.mp ht
  exact le_rfl

section Runs

variable [DecidableEq ι] {me : ι} {c c' : Config ι}

theorem Known.start_call (h : Known c) {k : Core} {t : ι}
    (hk : c.core.tasks.nextGeneration ≤ k.tasks.nextGeneration) (hcore : c'.core = k)
    (hbox : c'.box.ready = c.box.ready) (hcall : c'.call = c.call)
    (hid : ∀ id, call = some (.readyPush id) → id.generation ≤ k.tasks.nextGeneration) :
    Known (c'.begin t call) := by
  subst hcore
  have hbase : Known c' := by
    refine ⟨?_, ?_⟩
    · rw [hbox]
      exact fun task ht => (h.ready task ht).trans hk
    · rw [hcall]
      exact fun s task hs => (h.call s task hs).trans hk
  cases call with
  | none => exact hbase
  | some p =>
    refine ⟨hbase.ready, ?_⟩
    intro s task hs
    by_cases hst : s = t
    · subst hst
      simp only [Config.begin, Function.update_self] at hs
      exact hid task (congrArg some hs)
    · simp only [Config.begin, Function.update_of_ne hst] at hs
      exact hbase.call s task hs

theorem Known.calls (h : Known c) {b : Box} {t : ι} {p : Delivery}
    {interrupting : ι → Bool} (hready : ∀ task ∈ b.ready, task.generation ≤ c.core.tasks.nextGeneration)
    (hp : ∀ task, p ≠ .readyPush task) :
    Known { c with box := b, call := Function.update c.call t p, interrupting := interrupting } := by
  refine ⟨hready, ?_⟩
  intro s task hst
  by_cases heq : s = t
  · subst heq
    simp only [Function.update_self] at hst
    exact absurd hst (hp task)
  · simp only [Function.update_of_ne heq] at hst
    exact h.call s task hst

theorem known_step {a : Action ι} (h : Known c) (hissued : Issued c a) (hs : act me a c = some c') : Known c' := by
  cases act_acted hs with
  | inner t k i call hidle hi =>
    obtain ⟨hgen, hnot⟩ := innerStep_generation hi
    exact h.start_call hgen.ge rfl rfl rfl fun id hid => absurd hid (hnot id)
  | wake t task =>
    refine h.start_call le_rfl rfl rfl rfl ?_
    intro id hid
    cases hid
    exact hissued
  | spawn key =>
    have hgen : c.core.tasks.nextGeneration ≤ (c.core.install key none).tasks.nextGeneration := Nat.le_succ _
    refine h.start_call hgen rfl rfl rfl ?_
    intro id hid
    cases hid
    exact le_rfl
  | call t b p queued hquiet hc =>
    obtain ⟨hready, hnot⟩ := callStep_ready hc
    refine h.calls ?_ hnot
    intro task ht
    rcases hready task ht with hold | hpush
    · exact h.ready task hold
    · exact h.call t task hpush
  | callFail t p hfail =>
    refine h.calls h.ready ?_
    intro task
    cases hcall : c.call t with
    | casIdle | casRunning =>
      rw [hcall] at hfail
      cases hfail
      exact notifyNext_ne_readyPush _ _ task
    | _ =>
      rw [hcall] at hfail
      cases hfail
  | hold b p hfree hh => exact ⟨fun task ht => h.ready task (holdStep_ready hh task ht), h.call⟩
  | step key outcome k b hold p call hfree hmoved =>
    obtain ⟨hready, hgen, hid⟩ := hmoved.generation
    exact h.start_call hgen rfl hready rfl hid
  | _ => exact ⟨h.ready, h.call⟩

theorem known_run (as : List (Action ι)) (hissued : along (act me) Issued as (Config.start ι))
    (h : exec (act me) as (Config.start ι) = some c) : Known c :=
  exec_invariant (fun _ _ _ hc ha hs => known_step hc ha hs) as known_start hissued h

end Runs

end Rskynet.Exclusive
