import Rskynet.Mq.Ownership
import Rskynet.Service.Ledger

/-!
# A shared service

A service that workers execute from the run queue, together with every thread that sends to it,
kills it or works on it. The mailbox and the run-queue entries of the service are a configuration
of `Rskynet.Mq`; what each thread does around the mailbox operations follows `dispatch_step`,
`run_service`, `destroy` and `cleanup` on a worker, and `send_raw` and `retire` on any thread.
-/

namespace Rskynet.Service

open Mq (Hold)
open Rskynet.Task (TaskId)
open Option Bool

variable {ι : Type*}

/-! ### A worker -/

inductive Point where
  | out
  | run (point : RunPoint)
  -- the service goes back to the run queue
  | yielding
  | clean (point : CleanPoint)
  -- `destroyed` was not set before; the accounting comes next
  | account

/-- One step of a worker outside the mailbox operations.  A worker that leaves its loop hands back
the service it has popped, and one that was told to yield keeps the service if nothing else waits;
both are up to `yields`.  The last component is the delivery to start. -/
def pointStep (k : Core) (hold : Held) (key : ℕ) (outcome : Outcome) (yields : Bool) :
    Point → Option (Core × Held × Point × Option Delivery)
  | .out => none
  | .run .enter =>
      if yields then (Mq.enter .yield hold).map fun hold => (k, hold, .yielding, none)
      else (runStep k hold key outcome yields .enter).map fun (k, hold, p, _) =>
        (k, hold, .run p, none)
  | .run (.ran .dead) => some (k, hold, .clean .fail, none)
  | .run (.ran .idle) => some (k, hold, .out, if k.dead then some (.notifyLoad false) else none)
  | .run (.ran .yielded) =>
      if yields then (Mq.enter .yield hold).map fun hold => (k, hold, .yielding, none)
      else some (k, hold, .run .enter, none)
  | .run p =>
      (runStep k hold key outcome yields p).map fun (k, hold, p, task) =>
        (k, hold, .run p, task.map .readyPush)
  | .yielding =>
      match hold with
      | .none => some (k, hold, .out, none)
      | _ => none
  | .clean .finished =>
      if k.destroyed then some (k, hold, .out, none)
      else some ({ k with destroyed := true }, hold, .account, none)
  | .clean p => (cleanStep k hold p).map fun (k, hold, p) => (k, hold, .clean p, none)
  | .account => some ({ k with removed := k.removed + 1 }, hold, .out, none)

def Point.user : Point → Bool
  | .out => true
  | .run p => p.user
  | .clean p => p.user
  | _ => false

def Point.owns : Point → Bool
  | .run p => p.user
  | .clean p => p.user
  | _ => false

def Point.isOut : Point → Bool
  | .out => true
  | _ => false

/-! ### The interleaving -/

structure Config (ι : Type*) where
  core : Core
  box : Mq.Config Message TaskId ι
  point : ι → Point
  inner : ι → Inner

/-- A service that thread `creator` is about to put into the run queue for the first time. -/
def Config.start [DecidableEq ι] (creator : ι) : Config ι where
  core := Core.start
  box := Mq.Config.start creator [initTask]
  point := fun _ => .out
  inner := fun _ => .none

def Config.free (c : Config ι) (t : ι) : Bool := (c.inner t).isNone && (c.box.call t).isIdle

/-- The mailbox after thread `t` has started a delivery, if there is one to start. -/
def begin [DecidableEq ι] (b : Mq.Config Message TaskId ι) (t : ι) :
    Option Delivery → Mq.Config Message TaskId ι
  | none => b
  | some p => { b with call := Function.update b.call t p }

inductive Action (ι : Type*) where
  /-- `send_raw`: `handles.grab` -/
  | grab (thread : ι) (source session : ℕ) (mtype : UInt8)
  /-- `retire` or `request_exit`: `handles.retire` -/
  | retire (thread : ι) (exits : Bool)
  /-- the next step of `send_raw` or `retire` -/
  | inner (thread : ι)
  /-- a waker pushes a ready entry -/
  | wake (thread : ι) (task : TaskId)
  /-- code of the service spawns a task -/
  | spawn (thread : ι) (key : ℕ)
  /-- the next atomic operation of a delivery, or its spurious failure -/
  | call (thread : ι)
  | callFail (thread : ι)
  /-- a worker pops the service from the run queue -/
  | pop (thread : ι)
  /-- the next atomic operation of a worker on the mailbox -/
  | hold (thread : ι)
  /-- the next step of a worker outside the mailbox -/
  | step (thread : ι) (key : ℕ) (outcome : Outcome) (yields : Bool)

def act [DecidableEq ι] : Action ι → Config ι → Option (Config ι)
  | .grab t source session mtype, c =>
      if c.free t && (c.point t).user && c.core.registered then
        let m := c.core.stamped source session mtype
        some { c with
          core := { c.core with accepted := c.core.accepted ++ [m] }
          inner := Function.update c.inner t (.grabbed m) }
      else none
  | .retire t exits, c =>
      if c.free t && (c.point t).user then
        (retireStep c.core (c.point t).owns exits).map fun (k, i) =>
          { c with core := k, inner := Function.update c.inner t i }
      else none
  | .inner t, c =>
      if (c.box.call t).isIdle then
        (innerStep c.core (c.point t).owns (c.inner t)).map fun (k, i, call) =>
          { c with core := k, box := begin c.box t call, inner := Function.update c.inner t i }
      else none
  | .wake t task, c =>
      if c.free t && (c.point t).user then
        some { c with box := begin c.box t (some (.readyPush task)) }
      else none
  | .spawn t key, c =>
      if c.free t && (c.point t).owns && c.core.tasks.slots.vacant key then
        some { c with
          core := c.core.install key none
          box := begin c.box t (some (.readyPush ⟨key, c.core.tasks.nextGeneration + 1⟩)) }
      else none
  | .call t, c => (Mq.act (.call t) c.box).map fun b => { c with box := b }
  | .callFail t, c => (Mq.act (.callFail t) c.box).map fun b => { c with box := b }
  | .pop t, c =>
      if (c.inner t).isNone && (c.point t).isOut then
        (Mq.act (.pop t) c.box).map fun b =>
          { c with box := b, point := Function.update c.point t (.run .enter) }
      else none
  | .hold t, c =>
      if (c.inner t).isNone then (Mq.act (.hold t) c.box).map fun b => { c with box := b } else none
  | .step t key outcome yields, c =>
      if c.free t then
        (pointStep c.core (c.box.hold t) key outcome yields (c.point t)).map fun (k, hold, p, call) =>
          { c with
            core := k
            box := begin { c.box with hold := Function.update c.box.hold t hold } t call
            point := Function.update c.point t p }
      else none

def Step [DecidableEq ι] (c c' : Config ι) : Prop := ∃ a, act a c = some c'

def Reachable [DecidableEq ι] (creator : ι) (c : Config ι) : Prop :=
  Interleave.Reachable Step (Config.start creator) c

/-! ### The configuration after a step -/

section After

variable [DecidableEq ι] {c : Config ι} {t : ι} {k : Core} {hold : Held} {p : Point}
  {call : Option Delivery}

def after (c : Config ι) (t : ι) (k : Core) (hold : Held) (p : Point)
    (call : Option Delivery) : Config ι :=
  { c with
    core := k
    box := begin { c.box with hold := Function.update c.box.hold t hold } t call
    point := Function.update c.point t p }

theorem hold_begin (b : Mq.Config Message TaskId ι) (call : Option Delivery) :
    (begin b t call).hold = b.hold := by
  cases call <;> rfl

theorem box_begin (b : Mq.Config Message TaskId ι) (call : Option Delivery) :
    (begin b t call).box = b.box := by
  cases call <;> rfl

theorem call_begin_of_ne (b : Mq.Config Message TaskId ι) (call : Option Delivery)
    {t' : ι} (hne : t' ≠ t) : (begin b t call).call t' = b.call t' := by
  cases call with
  | none => rfl
  | some q => exact Function.update_of_ne hne _ _

theorem hold_after_self : (after c t k hold p call).box.hold t = hold := by
  unfold after
  rw [hold_begin]
  exact Function.update_self _ _ _

theorem hold_after_of_ne {t' : ι} (hne : t' ≠ t) :
    (after c t k hold p call).box.hold t' = c.box.hold t' := by
  unfold after
  rw [hold_begin]
  exact Function.update_of_ne hne _ _

theorem point_after_self : (after c t k hold p call).point t = p := Function.update_self _ _ _

theorem point_after_of_ne {t' : ι} (hne : t' ≠ t) :
    (after c t k hold p call).point t' = c.point t' := Function.update_of_ne hne _ _

theorem state_after : (after c t k hold p call).box.box.state = c.box.box.state := by
  unfold after
  rw [box_begin]

end After

/-! ### The mailbox of a service -/

section Box

variable {k k' : Core} {hold hold' : Held} {key : ℕ} {outcome : Outcome}
  {yields : Bool} {p p' : Point} {call : Option Delivery}

def Starts : Delivery → Prop
  | .lenAdd _ => True
  | .readyPush _ => True
  | .notifyLoad false => True
  | _ => False

/-- A worker's step is a step of `run_service`, a step of `cleanup`, or one of the few around them. -/
inductive Moved (k : Core) (hold : Held) (key : ℕ) (outcome : Outcome) :
    Point → Core → Held → Point → Option Delivery → Prop where
  | run (p p' : RunPoint) (k' hold' task) (yields : Bool)
      (h : runStep k hold key outcome yields p = some (k', hold', p', task)) :
      Moved k hold key outcome (.run p) k' hold' (.run p') (task.map .readyPush)
  | clean (p p' : CleanPoint) (k' hold') (h : cleanStep k hold p = some (k', hold', p')) :
      Moved k hold key outcome (.clean p) k' hold' (.clean p') none
  | yield (p : RunPoint) (hp : p = .enter ∨ p = .ran .yielded) (hold')
      (h : Mq.enter .yield hold = some hold') :
      Moved k hold key outcome (.run p) k hold' .yielding none
  | yielded (h : hold = .none) : Moved k hold key outcome .yielding k hold .out none
  | keep : Moved k hold key outcome (.run (.ran .yielded)) k hold (.run .enter) none
  | dead : Moved k hold key outcome (.run (.ran .dead)) k hold (.clean .fail) none
  | idle (h : k.dead = false) : Moved k hold key outcome (.run (.ran .idle)) k hold .out none
  | again (h : k.dead = true) :
      Moved k hold key outcome (.run (.ran .idle)) k hold .out (some (.notifyLoad false))
  | gone (h : k.destroyed = true) : Moved k hold key outcome (.clean .finished) k hold .out none
  | destroy (h : k.destroyed = false) :
      Moved k hold key outcome (.clean .finished) { k with destroyed := true } hold .account none
  | account :
      Moved k hold key outcome .account { k with removed := k.removed + 1 } hold .out none

theorem runStep_enter_task {p' : RunPoint} {task : Option TaskId}
    (h : runStep k hold key outcome yields .enter = some (k', hold', p', task)) : task = none := by
  cases runStep_moved h <;> rfl

theorem pointStep_moved (hs : pointStep k hold key outcome yields p = some (k', hold', p', call)) :
    Moved k hold key outcome p k' hold' p' call := by
  have hrun : ∀ r : RunPoint, (runStep k hold key outcome yields r).map
      (fun (k, hold, p, task) => (k, hold, Point.run p, task.map Mq.Call.readyPush))
        = some (k', hold', p', call) → Moved k hold key outcome (.run r) k' hold' p' call := by
    intro r hr
    obtain ⟨⟨k₁, h₁, r₁, task⟩, hstep, heq⟩ := map_eq_some_iff.mp hr
    cases heq
    exact .run r _ _ _ _ yields hstep
  have hclean : ∀ r : CleanPoint, (cleanStep k hold r).map
      (fun (k, hold, p) => (k, hold, Point.clean p, (none : Option Delivery)))
        = some (k', hold', p', call) → Moved k hold key outcome (.clean r) k' hold' p' call := by
    intro r hr
    obtain ⟨⟨k₁, h₁, r₁⟩, hstep, heq⟩ := map_eq_some_iff.mp hr
    cases heq
    exact .clean r _ _ _ hstep
  cases p with
  | out => cases hs
  | run r =>
    cases r with
    | enter =>
      simp only [pointStep] at hs
      split at hs
      · obtain ⟨h₁, hh, heq⟩ := map_eq_some_iff.mp hs
        cases heq
        exact .yield _ (.inl rfl) _ hh
      · obtain ⟨⟨k₁, h₁, r₁, task⟩, hstep, heq⟩ := map_eq_some_iff.mp hs
        obtain rfl := runStep_enter_task hstep
        cases heq
        exact .run _ _ _ _ none yields hstep
    | ran result =>
      cases result with
      | dead =>
        cases hs
        exact .dead
      | idle =>
        cases hs
        split
        · next hdead => exact .again hdead
        · next hdead => exact .idle (by simpa using hdead)
      | yielded =>
        simp only [pointStep] at hs
        split at hs
        · obtain ⟨h₁, hh, heq⟩ := map_eq_some_iff.mp hs
          cases heq
          exact .yield _ (.inr rfl) _ hh
        · cases hs
          exact .keep
    | loop | takePending | take | work | check => exact hrun _ hs
  | yielding =>
    simp only [pointStep] at hs
    split at hs
    · cases hs
      exact .yielded rfl
    · cases hs
  | clean r =>
    cases r with
    | finished =>
      simp only [pointStep] at hs
      split at hs
      · next hd =>
        cases hs
        exact .gone hd
      · next hd =>
        cases hs
        exact .destroy (by simpa using hd)
    | fail | tasks | drop | box | pending | init | release => exact hclean _ hs
  | account =>
    cases hs
    exact .account

theorem Moved.decides (h : Moved k hold key outcome p k' hold' p' call) :
    hold' = hold ∨ ∃ choice, Mq.enter choice hold = some hold' := by
  cases h with
  | run p p' k' hold' task yields h => exact (runStep_moved h).decides
  | clean p p' k' hold' h => exact (cleanStep_moved h).decides
  | yield p hp hold' h => exact .inr ⟨_, h⟩
  | _ => exact .inl rfl

theorem Moved.starts (h : Moved k hold key outcome p k' hold' p' call) :
    ∀ q, call = some q → Starts q := by
  intro q hq
  cases h with
  | run p p' k' hold' task yields h =>
    obtain ⟨t, -, rfl⟩ := map_eq_some_iff.mp hq
    trivial
  | again h =>
    obtain rfl := some.inj hq
    trivial
  | _ => cases hq

theorem starts_readyPush (r : TaskId) :
    ∀ q, (some (.readyPush r) : Option Delivery) = some q → Starts q := by
  intro q hq
  obtain rfl := some.inj hq
  trivial

end Box

/-! ### Actions -/

section Actions

variable [DecidableEq ι] {c c' : Config ι}

/-- What one action is: its tests taken apart, and the configuration after it. -/
inductive Acted (c : Config ι) : Action ι → Config ι → Prop where
  | grab (t : ι) (source session : ℕ) (mtype : UInt8) (hfree : c.free t = true) :
      Acted c (.grab t source session mtype)
        { c with
          core := { c.core with
            accepted := c.core.accepted ++ [c.core.stamped source session mtype] }
          inner := Function.update c.inner t (.grabbed (c.core.stamped source session mtype)) }
  | retire (t : ι) (exits mine : Bool) (hfree : c.free t = true) (hreg : c.core.registered = true) :
      Acted c (.retire t exits)
        { c with
          core := c.core.unregister
          inner := Function.update c.inner t (.markDead mine) }
  | inner (t : ι) (k : Core) (i : Inner) (call : Option Delivery)
      (hidle : (c.box.call t).isIdle = true)
      (h : innerStep c.core (c.point t).owns (c.inner t) = some (k, i, call)) :
      Acted c (.inner t)
        { c with core := k, box := begin c.box t call, inner := Function.update c.inner t i }
  | wake (t : ι) (task : TaskId) (hfree : c.free t = true) :
      Acted c (.wake t task) { c with box := begin c.box t (some (.readyPush task)) }
  | spawn (t : ι) (key : ℕ) (hfree : c.free t = true)
      (hkey : c.core.tasks.slots.vacant key = true) :
      Acted c (.spawn t key)
        { c with
          core := c.core.install key none
          box := begin c.box t (some (.readyPush ⟨key, c.core.tasks.nextGeneration + 1⟩)) }
  | call (t : ι) (b : Box) (e : ℕ) (p : Delivery)
      (h : Mq.callStep c.box.box c.box.entries (c.box.call t) = some (b, e, p)) :
      Acted c (.call t)
        { c with box := { c.box with box := b, entries := e, call := Function.update c.box.call t p } }
  | callFail (t : ι) (p : Delivery)
      (h : Mq.callFail c.box.box (c.box.call t) = some p) :
      Acted c (.callFail t) { c with box := { c.box with call := Function.update c.box.call t p } }
  | pop (t : ι) (hout : c.point t = .out) (hidle : (c.box.call t).isIdle = true)
      (hnone : c.box.hold t = .none) (hentries : 0 < c.box.entries) :
      Acted c (.pop t)
        { c with
          box := { c.box with
            entries := c.box.entries - 1
            hold := Function.update c.box.hold t .markRunning }
          point := Function.update c.point t (.run .enter) }
  | hold (t : ι) (b : Box) (e : ℕ) (p : Held)
      (hidle : (c.box.call t).isIdle = true)
      (h : Mq.holdStep c.box.box c.box.entries (c.box.hold t) = some (b, e, p)) :
      Acted c (.hold t)
        { c with box := { c.box with box := b, entries := e, hold := Function.update c.box.hold t p } }
  | step (t : ι) (key : ℕ) (outcome : Outcome) (yields : Bool) (k : Core)
      (hold : Held) (p : Point) (call : Option Delivery)
      (hfree : c.free t = true)
      (h : Moved c.core (c.box.hold t) key outcome (c.point t) k hold p call) :
      Acted c (.step t key outcome yields) (after c t k hold p call)

omit [DecidableEq ι] in
theorem idle_of_free {t : ι} (hfree : c.free t = true) : (c.box.call t).isIdle = true := by
  simp only [Config.free, and_eq_true] at hfree
  exact hfree.2

theorem out_of_isOut {p : Point} (h : p.isOut = true) : p = .out := by
  cases p <;> first | rfl | cases h

theorem act_acted {a : Action ι} (ha : act a c = some c') : Acted c a c' := by
  cases a with
  | grab t source session mtype =>
    obtain ⟨hcond, hs⟩ := ite_none_right_eq_some.mp ha
    cases hs
    simp only [and_eq_true] at hcond
    exact .grab t source session mtype hcond.1.1
  | retire t exits =>
    obtain ⟨hcond, hs⟩ := ite_none_right_eq_some.mp ha
    obtain ⟨⟨k, i⟩, hr, rfl⟩ := map_eq_some_iff.mp hs
    obtain ⟨hreg, hr⟩ := ite_none_right_eq_some.mp hr
    cases hr
    simp only [and_eq_true] at hcond
    exact .retire t exits _ hcond.1 hreg
  | inner t =>
    obtain ⟨hidle, hs⟩ := ite_none_right_eq_some.mp ha
    obtain ⟨⟨k, i, call⟩, hi, rfl⟩ := map_eq_some_iff.mp hs
    exact .inner t k i call hidle hi
  | wake t task =>
    obtain ⟨hcond, hs⟩ := ite_none_right_eq_some.mp ha
    cases hs
    simp only [and_eq_true] at hcond
    exact .wake t task hcond.1
  | spawn t key =>
    obtain ⟨hcond, hs⟩ := ite_none_right_eq_some.mp ha
    cases hs
    simp only [and_eq_true] at hcond
    exact .spawn t key hcond.1.1 hcond.2
  | call t =>
    obtain ⟨b, hb, rfl⟩ := map_eq_some_iff.mp ha
    obtain ⟨⟨b, e, p⟩, hc, rfl⟩ := map_eq_some_iff.mp hb
    exact .call t b e p hc
  | callFail t =>
    obtain ⟨b, hb, rfl⟩ := map_eq_some_iff.mp ha
    obtain ⟨p, hc, rfl⟩ := map_eq_some_iff.mp hb
    exact .callFail t p hc
  | pop t =>
    obtain ⟨hcond, hs⟩ := ite_none_right_eq_some.mp ha
    obtain ⟨b, hb, rfl⟩ := map_eq_some_iff.mp hs
    obtain ⟨hpop, hs⟩ := ite_none_right_eq_some.mp hb
    cases hs
    simp only [and_eq_true, decide_eq_true_eq] at hcond hpop
    refine .pop t ?_ hpop.1.1 ?_ hpop.2
    · exact out_of_isOut hcond.2
    · cases hh : c.box.hold t <;> simp_all [Hold.isNone]
  | hold t =>
    obtain ⟨-, hs⟩ := ite_none_right_eq_some.mp ha
    obtain ⟨b, hb, rfl⟩ := map_eq_some_iff.mp hs
    obtain ⟨hidle, hb⟩ := ite_none_right_eq_some.mp hb
    obtain ⟨⟨b, e, p⟩, hh, rfl⟩ := map_eq_some_iff.mp hb
    exact .hold t b e p hidle hh
  | step t key outcome yields =>
    obtain ⟨hfree, hs⟩ := ite_none_right_eq_some.mp ha
    obtain ⟨⟨k, hold, p, call⟩, hp, rfl⟩ := map_eq_some_iff.mp hs
    exact .step t key outcome yields k hold p call hfree (pointStep_moved hp)

end Actions

/-! ### The mailbox is a mailbox -/

section Projection

variable {call : Option Delivery}

variable [DecidableEq ι] {c c' : Config ι}

theorem begin_reachable {b : Mq.Config Message TaskId ι} {t : ι} (hidle : (b.call t).isIdle = true)
    (hstart : ∀ q, call = some q → Starts q) :
    Interleave.Reachable Mq.Step b (begin b t call) := by
  cases call with
  | none => exact Interleave.Reachable.refl
  | some q =>
    have hq := hstart q rfl
    refine Interleave.Reachable.refl.tail ?_
    cases q with
    | lenAdd m => exact ⟨.send t m, by simp [Mq.act, Mq.Config.deliver, hidle, begin]⟩
    | readyPush r => exact ⟨.wake t r, by simp [Mq.act, Mq.Config.deliver, hidle, begin]⟩
    | notifyLoad pushed =>
      cases pushed with
      | false => exact ⟨.kill t, by simp [Mq.act, Mq.Config.deliver, hidle, begin]⟩
      | true => exact hq.elim
    | _ => exact hq.elim

theorem choose_reachable {b : Mq.Config Message TaskId ι} {t : ι} {hold : Held}
    (hidle : (b.call t).isIdle = true)
    (hhold : hold = b.hold t ∨ ∃ choice, Mq.enter choice (b.hold t) = some hold) :
    Interleave.Reachable Mq.Step b { b with hold := Function.update b.hold t hold } := by
  rcases hhold with rfl | ⟨choice, hchoice⟩
  · rw [Function.update_eq_self]
    exact Interleave.Reachable.refl
  · exact Interleave.Reachable.refl.tail ⟨.choose t choice, by simp [Mq.act, hidle, hchoice]⟩

theorem innerStep_starts {k k' : Core} {owns : Bool} {i i' : Inner}
    (hs : innerStep k owns i = some (k', i', call)) :
    ∀ q, call = some q → Starts q := by
  intro q hq
  cases innerStep_moved hs with
  | deliver | notify =>
    obtain rfl := some.inj hq
    trivial
  | _ => cases hq

theorem box_step (hs : Step c c') : Interleave.Reachable Mq.Step c.box c'.box := by
  obtain ⟨a, ha⟩ := hs
  cases act_acted ha with
  | grab | retire => exact Interleave.Reachable.refl
  | inner t k i call hidle hi => exact begin_reachable hidle (innerStep_starts hi)
  | wake t task hfree | spawn t key hfree =>
    exact begin_reachable (idle_of_free hfree) (starts_readyPush _)
  | call t b e p hc => exact Interleave.Reachable.refl.tail ⟨.call t, by simp [Mq.act, hc]⟩
  | callFail t p hc => exact Interleave.Reachable.refl.tail ⟨.callFail t, by simp [Mq.act, hc]⟩
  | pop t hout hidle hnone hentries =>
    exact Interleave.Reachable.refl.tail
      ⟨.pop t, by simp [Mq.act, hidle, hnone, hentries, Hold.isNone]⟩
  | hold t b e p hidle hh =>
    exact Interleave.Reachable.refl.tail ⟨.hold t, by simp [Mq.act, hidle, hh]⟩
  | step t key outcome yields k hold p call hfree hmoved =>
    exact (choose_reachable (idle_of_free hfree) hmoved.decides).trans
      (begin_reachable (idle_of_free hfree) hmoved.starts)

/-- **The mailbox of a reachable service** is reachable in the model of the mailbox. -/
theorem box_reachable {creator : ι} (hrun : Reachable creator c) :
    Mq.Reachable creator [initTask] c.box := by
  refine hrun.invariant (I := fun c => Mq.Reachable creator [initTask] c.box) ?_ ?_
  · exact Interleave.Reachable.refl
  · exact fun _ _ h hs => h.trans (box_step hs)

end Projection

end Rskynet.Service
