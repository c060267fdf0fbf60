import Rskynet.Service.Core

/-!
# The steps of a service

One inversion lemma per step function says what a step can be; every fact about a step is a case
analysis on it.
-/

namespace Rskynet.Service

open Rskynet.Task (TaskId)
open Option

variable {k k' : Core} {hold hold' : Held} {key : ℕ} {outcome : Outcome}
  {yields : Bool} {task : Option TaskId}

theorem enter_take (h : Mq.enter .take hold = some hold') :
    hold = .holding ∧ hold' = .takeStreak := by
  cases hold <;> simp_all [Mq.enter]

theorem enter_drain (h : Mq.enter .drain hold = some hold') :
    hold = .holding ∧ hold' = .drainReady := by
  cases hold <;> simp_all [Mq.enter]

theorem enter_release (h : Mq.enter .release hold = some hold') :
    (∃ left, hold = .drained left) ∧ hold' = .releaseCas := by
  cases hold <;> simp_all [Mq.enter]

def workPoint : Mq.Work Message TaskId → WorkPoint
  | .message m => .handle m
  | .ready task => .ready task

/-! ### run_work -/

inductive WorkMoved (k : Core) (key : ℕ) : WorkPoint → Core → WorkPoint → Option TaskId → Prop where
  | reply (m : Message) (hm : m.toSession = true) :
      WorkMoved k key (.handle m) k .done none
  | lost (m : Message) (hm : m.toSession = false)
      (hlife : k.lifecycle ≠ .running) (h : k.pending = none) :
      WorkMoved k key (.handle m) k (.panicked m) none
  | postpone (m : Message) (queue : List Message) (hm : m.toSession = false)
      (hlife : k.lifecycle ≠ .running) (h : k.pending = some queue) :
      WorkMoved k key (.handle m) { k with pending := some (queue ++ [m]) } .done none
  | dispatch (m : Message) (hm : m.toSession = false)
      (hlife : k.lifecycle = .running) : WorkMoved k key (.handle m) k (.dispatching m) none
  | install (m : Message) (hkey : k.tasks.slots.vacant key = true) :
      WorkMoved k key (.dispatching m)
        { k.install key (requestOf m) with dispatched := k.dispatched ++ (requestOf m).toList }
        .done (some ⟨key, k.tasks.nextGeneration + 1⟩)
  | stale (task : TaskId) : WorkMoved k key (.ready task) k .done none
  | poll (task : TaskId) (tasks) (h : k.tasks.take task = some tasks) :
      WorkMoved k key (.ready task) { k with tasks := tasks } (.polling task) none
  | suspend (task : TaskId) :
      WorkMoved k key (.polling task) { k with tasks := k.tasks.restore task } .done none
  | finish (task : TaskId) (h : task ≠ initTask) :
      WorkMoved k key (.polling task) k (.polled task) none
  | started : WorkMoved k key (.polling initTask) (k.finishInit true) (.polled initTask) none
  | refused : WorkMoved k key (.polling initTask) (k.finishInit false) (.initExit initTask) none
  | exited (task : TaskId) (h : k.registered = false) :
      WorkMoved k key (.initExit task) k (.polled task) none
  | remove (task : TaskId) :
      WorkMoved k key (.polled task) { k with tasks := k.tasks.remove task } .done none

theorem workStep_moved {p p' : WorkPoint} (hs : workStep k key outcome p = some (k', p', task)) :
    WorkMoved k key p k' p' task := by
  cases p with
  | handle m =>
    simp only [workStep] at hs
    split at hs
    · next hm =>
      cases hs
      exact .reply m hm
    · next hm =>
      rw [Bool.not_eq_true] at hm
      split at hs
      · next hlife =>
        split at hs
        · next hnone =>
          cases hs
          exact .lost m hm hlife hnone
        · next queue hsome =>
          cases hs
          exact .postpone m queue hm hlife hsome
      · next hlife =>
        cases hs
        exact .dispatch m hm (not_not.mp hlife)
  | dispatching m =>
    simp only [workStep] at hs
    split at hs <;> cases hs
    next hkey => exact .install m hkey
  | ready t =>
    simp only [workStep] at hs
    split at hs <;> cases hs
    · exact .stale t
    · next htake => exact .poll t _ htake
  | polling t =>
    cases outcome with
    | pending =>
      cases hs
      exact .suspend t
    | done =>
      simp only [workStep] at hs
      split at hs <;> cases hs
      · next ht =>
        subst ht
        exact .started
      · next ht => exact .finish t ht
    | failed =>
      simp only [workStep] at hs
      split at hs <;> cases hs
      next ht =>
        subst ht
        exact .refused
  | initExit t =>
    simp only [workStep] at hs
    split at hs <;> cases hs
    next hreg => exact .exited t (Bool.not_eq_true _ ▸ hreg)
  | polled t =>
    cases hs
    exact .remove t
  | done | panicked => cases hs

/-! ### run_service -/

inductive RunMoved (k : Core) (hold : Held) (key : ℕ) (outcome : Outcome)
    (yields : Bool) :
    RunPoint → Core → Held → RunPoint → Option TaskId → Prop where
  | refuse (h : hold = .holding) (hdead : k.dead = true) :
      RunMoved k hold key outcome yields .enter k hold (.ran .dead) none
  | enter (h : hold = .holding) (hdead : k.dead = false) :
      RunMoved k hold key outcome yields .enter k hold .loop none
  | replay (h : k.lifecycle = .running) :
      RunMoved k hold key outcome yields .loop k hold .takePending none
  | take (hlife : k.lifecycle ≠ .running) (h : hold = .holding) :
      RunMoved k hold key outcome yields .loop k .takeStreak .take none
  | pending (m : Message) (rest : List Message) (h : k.pending = some (m :: rest)) :
      RunMoved k hold key outcome yields .takePending { k with pending := some rest } hold
        (.work (.handle m)) none
  | unpend (hnil : k.pending.getD [] = []) (h : hold = .holding) :
      RunMoved k hold key outcome yields .takePending { k with pending := none } .takeStreak .take
        none
  | took (work : Mq.Work Message TaskId) (h : hold = .took work) :
      RunMoved k hold key outcome yields .take k .holding (.work (workPoint work)) none
  | idle (h : hold = .none) : RunMoved k hold key outcome yields .take k hold (.ran .idle) none
  | done : RunMoved k hold key outcome yields (.work .done) k hold .check none
  | work (w w' : WorkPoint) (k' task) (h : workStep k key outcome w = some (k', w', task)) :
      RunMoved k hold key outcome yields (.work w) k' hold (.work w') task
  | dead (hdead : k.dead = true) :
      RunMoved k hold key outcome yields .check k hold (.ran .dead) none
  | yield (h : yields = true) :
      RunMoved k hold key outcome yields .check k hold (.ran .yielded) none
  | again : RunMoved k hold key outcome yields .check k hold .loop none

theorem runStep_moved {p p' : RunPoint}
    (hs : runStep k hold key outcome yields p = some (k', hold', p', task)) :
    RunMoved k hold key outcome yields p k' hold' p' task := by
  cases p with
  | enter =>
    simp only [runStep] at hs
    split at hs
    · cases hs
      split
      · next hdead => exact .refuse rfl hdead
      · next hdead => exact .enter rfl (by simpa using hdead)
    · cases hs
  | loop =>
    simp only [runStep] at hs
    split at hs
    · next hrun =>
      cases hs
      exact .replay hrun
    · next hlife =>
      obtain ⟨h, hh, heq⟩ := map_eq_some_iff.mp hs
      obtain ⟨hhold, rfl⟩ := enter_take hh
      cases heq
      exact .take hlife hhold
  | takePending =>
    simp only [runStep] at hs
    split at hs
    · next m rest hpending =>
      cases hs
      exact .pending m rest hpending
    · next hpending =>
      obtain ⟨h, hh, heq⟩ := map_eq_some_iff.mp hs
      obtain ⟨hhold, rfl⟩ := enter_take hh
      cases heq
      refine .unpend ?_ hhold
      rcases hq : k.pending with _ | _ | ⟨m, rest⟩
      · rfl
      · rfl
      · exact absurd hq (hpending m rest)
  | take =>
    simp only [runStep] at hs
    split at hs
    · obtain ⟨h, hh, heq⟩ := map_eq_some_iff.mp hs
      cases hh
      cases heq
      exact .took (.message _) rfl
    · obtain ⟨h, hh, heq⟩ := map_eq_some_iff.mp hs
      cases hh
      cases heq
      exact .took (.ready _) rfl
    · cases hs
      exact .idle rfl
    · cases hs
  | work w =>
    cases w <;> simp only [runStep] at hs <;>
      first
        | (obtain ⟨rfl, rfl, rfl, rfl⟩ := hs; exact .done)
        | (obtain ⟨⟨k₁, w', t⟩, hw, heq⟩ := map_eq_some_iff.mp hs
           cases heq
           exact .work _ _ _ _ hw)
  | check =>
    simp only [runStep] at hs
    split at hs
    · next hdead =>
      cases hs
      exact .dead hdead
    · cases hs
      split
      · next hyields => exact .yield hyields
      · exact .again
  | ran r => cases hs

theorem RunMoved.decides {p p' : RunPoint}
    (h : RunMoved k hold key outcome yields p k' hold' p' task) :
    hold' = hold ∨ ∃ choice, Mq.enter choice hold = some hold' := by
  cases h with
  | take hlife h | unpend hnil h => exact .inr ⟨.take, by rw [h]; rfl⟩
  | took work h => exact .inr ⟨.finish, by rw [h]; rfl⟩
  | _ => exact .inl rfl

/-! ### cleanup -/

inductive CleanMoved (k : Core) (hold : Held) :
    CleanPoint → Core → Held → CleanPoint → Prop where
  | fail : CleanMoved k hold .fail k.catchTasks.failInflight hold .tasks
  | tasks : CleanMoved k hold .tasks { k with tasks := k.tasks.drain } hold .drop
  | drop (h : hold = .holding) : CleanMoved k hold .drop k .drainReady .box
  | box (left : List Message) (h : hold = .drained left) :
      CleanMoved k hold .box (k.answer left) hold .pending
  | pending :
      CleanMoved k hold .pending { k.answer (k.pending.getD []) with pending := none } hold .init
  | init (left : List Message) (h : hold = .drained left) (hlife : k.lifecycle ≠ .initializing) :
      CleanMoved k hold .init k .releaseCas .release
  | uninit (left : List Message) (h : hold = .drained left) :
      CleanMoved k hold .init (k.finishInit false) .releaseCas .release
  | again (h : hold = .holding) : CleanMoved k hold .release k hold .fail
  | finish (h : hold = .none) : CleanMoved k hold .release k hold .finished

theorem cleanStep_moved {p p' : CleanPoint} (hs : cleanStep k hold p = some (k', hold', p')) :
    CleanMoved k hold p k' hold' p' := by
  cases p with
  | fail =>
    cases hs
    exact .fail
  | tasks =>
    cases hs
    exact .tasks
  | drop =>
    obtain ⟨h, hh, heq⟩ := map_eq_some_iff.mp hs
    obtain ⟨hhold, rfl⟩ := enter_drain hh
    cases heq
    exact .drop hhold
  | box =>
    simp only [cleanStep] at hs
    split at hs <;> cases hs
    exact .box _ rfl
  | pending =>
    cases hs
    exact .pending
  | init =>
    obtain ⟨h, hh, heq⟩ := map_eq_some_iff.mp hs
    obtain ⟨⟨left, hhold⟩, rfl⟩ := enter_release hh
    cases heq
    split
    · exact .uninit left hhold
    · next hlife => exact .init left hhold hlife
  | release =>
    simp only [cleanStep] at hs
    split at hs <;> cases hs
    · exact .again rfl
    · exact .finish rfl
  | finished => cases hs

theorem CleanMoved.decides {p p' : CleanPoint} (h : CleanMoved k hold p k' hold' p') :
    hold' = hold ∨ ∃ choice, Mq.enter choice hold = some hold' := by
  cases h with
  | drop h => exact .inr ⟨.drain, by rw [h]; rfl⟩
  | init left h | uninit left h => exact .inr ⟨.release, by rw [h]; rfl⟩
  | _ => exact .inl rfl

/-! ### send_raw and retire -/

inductive InnerMoved (k : Core) (owns : Bool) :
    Inner → Core → Inner → Option Delivery → Prop where
  | deliver (m : Message) : InnerMoved k owns (.grabbed m) k .none (some (.lenAdd m))
  | die (mine : Bool) :
      InnerMoved k owns (.markDead mine) { k with dead := true } (.failInflight mine) none
  | abort (mine : Bool) (h : owns = true) :
      InnerMoved k owns (.failInflight mine) k.catchTasks.failInflight (.notify mine) none
  | spare (mine : Bool) (h : owns = false) :
      InnerMoved k owns (.failInflight mine) k (.notify mine) none
  | notify (mine : Bool) : InnerMoved k owns (.notify mine) k (.returned mine) (some (.notifyLoad false))
  | exit : InnerMoved k owns (.returned true) { k with initSelfExit := true } .none none
  | leave : InnerMoved k owns (.returned false) k .none none

theorem innerStep_moved {owns : Bool} {i i' : Inner} {call : Option Delivery}
    (hs : innerStep k owns i = some (k', i', call)) : InnerMoved k owns i k' i' call := by
  cases i with
  | none => cases hs
  | grabbed m =>
    cases hs
    exact .deliver m
  | markDead mine =>
    cases hs
    exact .die mine
  | failInflight mine =>
    cases hs
    cases owns with
    | true => exact .abort mine rfl
    | false => exact .spare mine rfl
  | notify mine =>
    cases hs
    exact .notify mine
  | returned mine =>
    cases hs
    cases mine with
    | true => exact .exit
    | false => exact .leave

end Rskynet.Service
