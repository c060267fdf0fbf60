import Rskynet.Exclusive.Model
import Rskynet.Service.Effects

/-!
# The steps of the thread of an exclusive service
-/

namespace Rskynet.Exclusive

open Rskynet.Task (TaskId)
open Service Option Bool

/-! ### The points of the thread -/

/-- The mailbox operation the thread of the service can be in at each of its points. -/
def Synced (hold : Held) : Point → Prop
  | .mark => hold = .none
  | .run (.ran .yielded) => False
  | .run p => Service.Synced hold (.run p)
  | .check => hold = .none
  | .idle => hold = .none
  | .leave => hold = .none ∨ hold = .holding
  | .drain (.take _) => taking hold = true
  | .drain .left => hold = .none ∨ hold = .holding
  | .drain _ => hold = .holding
  | .destroy => hold = .none ∨ hold = .holding
  | .clean p => Service.Synced hold (.clean p)
  | .account => hold = .none
  | .ended => hold = .none

theorem holdStep_shared {b b' : Box} {hold hold' : Held}
    (hs : holdStep b hold = some (b', hold')) (e : ℕ) :
    Mq.holdStep b e hold = some (b', e, hold') ∧ hold ≠ .markRunning := by
  refine ⟨?_, fun h => ?_⟩
  · cases hold <;> simp only [holdStep, Mq.holdStep] at hs ⊢ <;>
      first
        | (obtain ⟨rfl, rfl⟩ := hs; rfl)
        | ((repeat' split at hs) <;> obtain ⟨rfl, rfl⟩ := hs <;> simp_all)
  · rw [h] at hs
    cases hs

theorem synced_holdStep {b b' : Box} {hold hold' : Held}
    {p : Point} (hsync : Synced hold p) (hs : holdStep b hold = some (b', hold')) :
    Synced hold' p := by
  have hstep := (holdStep_shared hs 0).1
  have hno : hold ≠ .none ∧ hold ≠ .holding := by
    constructor <;> rintro rfl <;> cases hs
  cases p with
  | run r =>
    cases r with
    | ran result =>
      cases result with
      | yielded => exact hsync
      | dead => exact absurd hsync hno.2
      | idle => exact absurd hsync hno.1
    | enter => exact Service.synced_holdStep (p := .run .enter) hsync hstep
    | loop => exact Service.synced_holdStep (p := .run .loop) hsync hstep
    | takePending => exact Service.synced_holdStep (p := .run .takePending) hsync hstep
    | take => exact Service.synced_holdStep (p := .run .take) hsync hstep
    | work w => exact Service.synced_holdStep (p := .run (.work w)) hsync hstep
    | check => exact Service.synced_holdStep (p := .run .check) hsync hstep
  | clean r => exact Service.synced_holdStep (p := .clean r) hsync hstep
  | drain r =>
    cases r with
    | take budget => exact Service.synced_holdStep (p := .run .take) hsync hstep
    | left => exact absurd hsync (not_or.mpr hno)
    | enter | loop | work => exact absurd hsync hno.2
  | leave | destroy => exact absurd hsync (not_or.mpr hno)
  | mark | check | idle | account | ended => exact absurd hsync hno.1

/-! ### The steps of the thread -/

section Moved

variable {k k' : Core} {b b' : Box} {hold hold' : Held} {key : ℕ}
  {outcome : Outcome} {p p' : Point} {call : Option Delivery}

inductive DrainMoved (k : Core) (hold : Held) (key : ℕ) (outcome : Outcome) :
    DrainPoint → Core → Held → DrainPoint → Option TaskId → Prop where
  | enter (budget : ℕ) : DrainMoved k hold key outcome .enter k hold (.loop budget) none
  | stop (budget : ℕ) : DrainMoved k hold key outcome (.loop budget) k hold .left none
  | take (budget budget' : ℕ) (h : Mq.enter .take hold = some .takeStreak) :
      DrainMoved k hold key outcome (.loop budget) k .takeStreak (.take budget') none
  | took (budget : ℕ) (work : Mq.Work Message TaskId) (h : hold = .took work) :
      DrainMoved k hold key outcome (.take budget) k .holding (.work budget (workPoint work)) none
  | empty (budget : ℕ) (h : hold = .none) :
      DrainMoved k hold key outcome (.take budget) k hold .left none
  | done (budget : ℕ) : DrainMoved k hold key outcome (.work budget .done) k hold (.loop budget) none
  | work (budget : ℕ) (w w' : WorkPoint) (k' task)
      (h : workStep k key outcome w = some (k', w', task)) :
      DrainMoved k hold key outcome (.work budget w) k' hold (.work budget w') task

theorem drainStep_moved {r r' : DrainPoint} {task : Option TaskId}
    (hs : drainStep k b hold key outcome r = some (k', hold', r', task)) :
    DrainMoved k hold key outcome r k' hold' r' task := by
  cases r with
  | enter =>
    cases hs
    exact .enter _
  | loop budget =>
    simp only [drainStep] at hs
    split at hs
    · cases hs
      exact .stop _
    · split at hs
      · cases hs
        exact .stop _
      · obtain ⟨h, hh, heq⟩ := map_eq_some_iff.mp hs
        obtain ⟨-, rfl⟩ := enter_take hh
        cases heq
        exact .take _ _ hh
  | take budget =>
    simp only [drainStep] at hs
    split at hs
    · obtain ⟨h, hh, heq⟩ := map_eq_some_iff.mp hs
      cases hh
      cases heq
      exact .took budget (.message _) rfl
    · obtain ⟨h, hh, heq⟩ := map_eq_some_iff.mp hs
      cases hh
      cases heq
      exact .took budget (.ready _) rfl
    · cases hs
      exact .empty _ rfl
    · cases hs
  | work budget w =>
    cases w <;> simp only [drainStep] at hs <;>
      first
        | (obtain ⟨rfl, rfl, rfl, rfl⟩ := hs; exact .done _)
        | (obtain ⟨⟨k₁, w', t⟩, hw, heq⟩ := map_eq_some_iff.mp hs
           cases heq
           exact .work _ _ _ _ _ hw)
  | left => cases hs

/-- A step of the thread is a step of `run_service`, `drain_service` or `cleanup`, a
`mark_running`, or one of the few around them. -/
inductive Moved (k : Core) (b : Box) (hold : Held) (key : ℕ)
    (outcome : Outcome) : Point → Core → Box → Held → Point →
      Option Delivery → Prop where
  | run (p p' : RunPoint) (k' hold' task)
      (h : runStep k hold key outcome false p = some (k', hold', p', task)) :
      Moved k b hold key outcome (.run p) k' b hold' (.run p') (task.map .readyPush)
  | drain (p p' : DrainPoint) (k' hold' task)
      (h : drainStep k b hold key outcome p = some (k', hold', p', task)) :
      Moved k b hold key outcome (.drain p) k' b hold' (.drain p') (task.map .readyPush)
  | clean (p p' : CleanPoint) (k' hold') (h : cleanStep k hold p = some (k', hold', p')) :
      Moved k b hold key outcome (.clean p) k' b hold' (.clean p') none
  | mark (p p' : Point)
      (h : (p = .mark ∧ p' = .run .enter) ∨ (p = .leave ∧ p' = .drain .enter) ∨
        (p = .destroy ∧ p' = .clean .fail)) :
      Moved k b hold key outcome p k (markRunning b) .holding p' none
  | dead : Moved k b hold key outcome (.run (.ran .dead)) k b hold .leave none
  | ran (result : Ran) (h : result ≠ .dead) :
      Moved k b hold key outcome (.run (.ran result)) k b hold .check none
  | leave (h : k.dead = true) : Moved k b hold key outcome .check k b hold .leave none
  | rest (h : k.dead = false) : Moved k b hold key outcome .check k b hold .idle none
  | wake : Moved k b hold key outcome .idle k b hold .mark none
  | drained : Moved k b hold key outcome (.drain .left) k b hold .destroy none
  | gone (h : k.destroyed = true) :
      Moved k b hold key outcome (.clean .finished) k b hold .ended none
  | destroy (h : k.destroyed = false) :
      Moved k b hold key outcome (.clean .finished) { k with destroyed := true } b hold .account none
  | account :
      Moved k b hold key outcome .account { k with removed := k.removed + 1 } b hold .ended none

theorem pointStep_moved (hs : pointStep k b hold key outcome p = some (k', b', hold', p', call)) :
    Moved k b hold key outcome p k' b' hold' p' call := by
  cases p with
  | mark =>
    cases hs
    exact .mark _ _ (.inl ⟨rfl, rfl⟩)
  | run r =>
    cases r with
    | ran result =>
      cases result with
      | dead =>
        cases hs
        exact .dead
      | idle | yielded =>
        cases hs
        exact .ran _ (by simp)
    | enter | loop | takePending | take | work | check =>
      simp only [pointStep] at hs
      obtain ⟨⟨k₁, h₁, r₁, task⟩, hstep, heq⟩ := map_eq_some_iff.mp hs
      cases heq
      exact .run _ _ _ _ _ hstep
  | check =>
    cases hs
    split
    · next hdead => exact .leave hdead
    · next hdead => exact .rest (by simpa using hdead)
  | idle =>
    cases hs
    exact .wake
  | leave =>
    cases hs
    exact .mark _ _ (.inr (.inl ⟨rfl, rfl⟩))
  | drain r =>
    cases r with
    | left =>
      cases hs
      exact .drained
    | enter | loop | take | work =>
      simp only [pointStep] at hs
      obtain ⟨⟨k₁, h₁, r₁, task⟩, hstep, heq⟩ := map_eq_some_iff.mp hs
      cases heq
      exact .drain _ _ _ _ _ hstep
  | destroy =>
    cases hs
    exact .mark _ _ (.inr (.inr ⟨rfl, rfl⟩))
  | clean r =>
    cases r with
    | finished =>
      simp only [pointStep] at hs
      split at hs
      · next hd =>
        cases hs
        exact .gone hd
      · next hd =>
        cases hs
        exact .destroy (by simpa using hd)
    | fail | tasks | drop | box | pending | init | release =>
      simp only [pointStep] at hs
      obtain ⟨⟨k₁, h₁, r₁⟩, hstep, heq⟩ := map_eq_some_iff.mp hs
      cases heq
      exact .clean _ _ _ _ hstep
  | account =>
    cases hs
    exact .account
  | ended => cases hs

theorem runStep_not_yielded {r r' : RunPoint} {task : Option TaskId}
    (hs : runStep k hold key outcome false r = some (k', hold', r', task)) :
    r' ≠ .ran .yielded := by
  rintro rfl
  cases runStep_moved hs with
  | yield h => cases h

theorem synced_run {r : RunPoint} (hr : r ≠ .ran .yielded) :
    Synced hold (.run r) ↔ Service.Synced hold (.run r) := by
  cases r with
  | ran result => cases result <;> first | exact Iff.rfl | exact absurd rfl hr
  | _ => exact Iff.rfl

theorem Moved.synced (h : Moved k b hold key outcome p k' b' hold' p' call)
    (hsync : Synced hold p) : Synced hold' p' := by
  cases h with
  | run r r' k' hold' task h =>
    have hr : r ≠ .ran .yielded := by
      rintro rfl
      cases h
    exact (synced_run (runStep_not_yielded h)).mpr ((runStep_moved h).effect ((synced_run hr).mp hsync)).synced
  | drain r r' k' hold' task h =>
    cases drainStep_moved h with
    | enter | done | work => exact hsync
    | stop budget => exact .inr hsync
    | take | took => rfl
    | empty budget hm => exact .inl hm
  | clean r r' k' hold' h => exact (cleanStep_effect hsync h).synced
  | mark p p' h =>
    rcases h with ⟨rfl, rfl⟩ | ⟨rfl, rfl⟩ | ⟨rfl, rfl⟩
    · exact .inr rfl
    · rfl
    · rfl
  | dead => exact .inr hsync
  | ran result h =>
    cases result with
    | idle => exact hsync
    | dead => exact absurd rfl h
    | yielded => exact hsync.elim
  | leave h => exact .inl hsync
  | rest | wake | drained | gone | destroy | account => exact hsync

theorem Moved.decides (h : Moved k b hold key outcome p k' b' hold' p' call)
    (hsync : Synced hold p) :
    (b' = b ∧ (hold' = hold ∨ ∃ choice, Mq.enter choice hold = some hold')) ∨
      (b' = markRunning b ∧ hold' = .holding ∧ (hold = .none ∨ hold = .holding)) := by
  cases h with
  | run r r' k' hold' task h => exact .inl ⟨rfl, (runStep_moved h).decides⟩
  | drain r r' k' hold' task h =>
    refine .inl ⟨rfl, ?_⟩
    cases drainStep_moved h with
    | take budget budget' hm => exact .inr ⟨_, hm⟩
    | took budget work hm =>
      refine .inr ⟨.finish, ?_⟩
      rw [hm]
      rfl
    | _ => exact .inl rfl
  | clean r r' k' hold' h => exact .inl ⟨rfl, (cleanStep_moved h).decides⟩
  | mark p p' h =>
    refine .inr ⟨rfl, rfl, ?_⟩
    rcases h with ⟨rfl, rfl⟩ | ⟨rfl, rfl⟩ | ⟨rfl, rfl⟩
    · exact .inl hsync
    · exact hsync
    · exact hsync
  | _ => exact .inl ⟨rfl, .inl rfl⟩

theorem Moved.starts (h : Moved k b hold key outcome p k' b' hold' p' call) :
    ∀ q, call = some q → ∃ task, q = .readyPush task := by
  intro q hq
  cases h with
  | run | drain =>
    obtain ⟨t, -, rfl⟩ := map_eq_some_iff.mp hq
    exact ⟨t, rfl⟩
  | _ => cases hq

end Moved

/-! ### Actions -/

section Actions

variable {ι : Type*} [DecidableEq ι] {me : ι} {c c' : Config ι}

inductive Acted (me : ι) (c : Config ι) : Action ι → Config ι → Prop where
  | grab (t : ι) (source session : ℕ) (mtype : UInt8) (hfree : c.free t = true) :
      Acted me c (.grab t source session mtype)
        { c with
          core := { c.core with
            accepted := c.core.accepted ++ [c.core.stamped source session mtype] }
          inner := Function.update c.inner t (.grabbed (c.core.stamped source session mtype)) }
  | retire (t : ι) (exits mine : Bool) (hfree : c.free t = true) (hreg : c.core.registered = true) :
      Acted me c (.retire t exits)
        { c with
          core := c.core.unregister
          inner := Function.update c.inner t (.markDead mine) }
  | inner (t : ι) (k : Core) (i : Inner) (call : Option Delivery)
      (hidle : (c.call t).isIdle = true)
      (h : innerStep c.core (c.owns me t) (c.inner t) = some (k, i, call)) :
      Acted me c (.inner t)
        (Config.begin { c with core := k, inner := Function.update c.inner t i } t call)
  | wake (t : ι) (task : TaskId) (hfree : c.free t = true) :
      Acted me c (.wake t task) (c.begin t (some (.readyPush task)))
  | spawn (key : ℕ) (hfree : c.free me = true) (hkey : c.core.tasks.slots.vacant key = true) :
      Acted me c (.spawn key) (Config.begin { c with core := c.core.install key none } me
        (some (.readyPush ⟨key, c.core.tasks.nextGeneration + 1⟩)))
  | call (t : ι) (b : Box) (p : Delivery) (queued : Bool)
      (hquiet : c.interrupting t = false) (h : callStep c.box (c.call t) = some (b, p, queued)) :
      Acted me c (.call t)
        { c with
          box := b
          call := Function.update c.call t p
          interrupting := Function.update c.interrupting t queued }
  | callFail (t : ι) (p : Delivery) (h : Mq.callFail c.box (c.call t) = some p) :
      Acted me c (.callFail t) { c with call := Function.update c.call t p }
  | interrupt (t : ι) :
      Acted me c (.interrupt t)
        { c with signalled := true, interrupting := Function.update c.interrupting t false }
  | hold (b : Box) (p : Held) (hfree : c.free me = true)
      (h : holdStep c.box c.hold = some (b, p)) :
      Acted me c .hold { c with box := b, hold := p }
  | step (key : ℕ) (outcome : Outcome) (k : Core) (b : Box)
      (hold : Held) (p : Point) (call : Option Delivery)
      (hfree : c.free me = true)
      (h : Moved c.core c.box c.hold key outcome c.point k b hold p call) :
      Acted me c (.step key outcome)
        (Config.begin
          { c with
            core := k
            box := b
            hold := hold
            point := p
            signalled := c.signalled && !c.point.isIdle } me call)

omit [DecidableEq ι] in
theorem isIdle_of_free {t : ι} (hfree : c.free t = true) : (c.call t).isIdle = true := by
  simp only [Config.free, and_eq_true] at hfree
  exact hfree.1.2

theorem act_acted {a : Action ι} (ha : act me a c = some c') : Acted me c a c' := by
  cases a with
  | grab t source session mtype =>
    obtain ⟨hcond, hs⟩ := ite_none_right_eq_some.mp ha
    cases hs
    simp only [and_eq_true] at hcond
    exact .grab t source session mtype hcond.1.1
  | retire t exits =>
    obtain ⟨hcond, hs⟩ := ite_none_right_eq_some.mp ha
    obtain ⟨⟨k, i⟩, hr, rfl⟩ := map_eq_some_iff.mp hs
    obtain ⟨hreg, hr⟩ := ite_none_right_eq_some.mp hr
    cases hr
    simp only [and_eq_true] at hcond
    exact .retire t exits _ hcond.1 hreg
  | inner t =>
    obtain ⟨hcond, hs⟩ := ite_none_right_eq_some.mp ha
    obtain ⟨⟨k, i, call⟩, hi, rfl⟩ := map_eq_some_iff.mp hs
    simp only [and_eq_true] at hcond
    exact .inner t k i call hcond.1 hi
  | wake t task =>
    obtain ⟨hcond, hs⟩ := ite_none_right_eq_some.mp ha
    cases hs
    simp only [and_eq_true] at hcond
    exact .wake t task hcond.1
  | spawn key =>
    obtain ⟨hcond, hs⟩ := ite_none_right_eq_some.mp ha
    cases hs
    simp only [and_eq_true] at hcond
    exact .spawn key hcond.1.1 hcond.2
  | call t =>
    obtain ⟨hquiet, hs⟩ := ite_none_left_eq_some.mp ha
    obtain ⟨⟨b, p, queued⟩, hc, rfl⟩ := map_eq_some_iff.mp hs
    exact .call t b p queued (by simpa using hquiet) hc
  | callFail t =>
    obtain ⟨p, hc, rfl⟩ := map_eq_some_iff.mp ha
    exact .callFail t p hc
  | interrupt t =>
    obtain ⟨-, hs⟩ := ite_none_right_eq_some.mp ha
    cases hs
    exact .interrupt t
  | hold =>
    obtain ⟨hfree, hs⟩ := ite_none_right_eq_some.mp ha
    obtain ⟨⟨b, p⟩, hh, rfl⟩ := map_eq_some_iff.mp hs
    exact .hold b p hfree hh
  | step key outcome =>
    obtain ⟨hfree, hs⟩ := ite_none_right_eq_some.mp ha
    obtain ⟨⟨k, b, hold, p, call⟩, hp, rfl⟩ := map_eq_some_iff.mp hs
    exact .step key outcome k b hold p call hfree (pointStep_moved hp)

end Actions

end Rskynet.Exclusive
