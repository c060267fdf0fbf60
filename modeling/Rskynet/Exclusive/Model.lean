import Rskynet.Service.Startup

/-!
# An exclusive service

A service with a thread of its own. The thread runs `exclusive_loop`: it executes the service with
the same `run_service` as a worker, sleeps in `Exclusive::idle` while there is nothing to do, and
after a kill drains the mailbox, cleans up and ends. The service never enters a run queue; a
delivery that finds it idle interrupts the thread instead.

Parking is reduced to one bit, `signalled`: an interrupt sets it, the return from `idle` clears it.
`idle` may return at any time.
-/

namespace Rskynet.Exclusive

open Mq (Mailbox)
open Rskynet.Task (TaskId)
open Service

variable {ι : Type*}

/-! ### drain_service -/

def usizeMax : ℕ := 2 ^ 64 - 1

def drainBudget (len tasks : ℕ) : ℕ :=
  min (min (min (len * 2) usizeMax + min (tasks * 2) usizeMax) usizeMax + 16) usizeMax

inductive DrainPoint where
  | enter
  | loop (budget : ℕ)
  | take (budget : ℕ)
  | work (budget : ℕ) (point : WorkPoint)
  | left

/-- One step of `drain_service` outside the mailbox operations. -/
def drainStep (k : Core) (b : Box) (hold : Held) (key : ℕ)
    (outcome : Outcome) :
    DrainPoint → Option (Core × Held × DrainPoint × Option TaskId)
  | .enter => some (k, hold, .loop (drainBudget b.len k.tasks.slots.values.length), none)
  | .loop budget =>
      if budget = 0 then some (k, hold, .left, none)
      else if k.lifecycle ≠ .running then some (k, hold, .left, none)
      else (Mq.enter .take hold).map fun hold => (k, hold, .take (budget - 1), none)
  | .take budget =>
      match hold with
      | .took (.message m) =>
          (Mq.enter .finish hold).map fun hold => (k, hold, .work budget (.handle m), none)
      | .took (.ready task) =>
          (Mq.enter .finish hold).map fun hold => (k, hold, .work budget (.ready task), none)
      | .none => some (k, hold, .left, none)
      | _ => none
  | .work budget .done => some (k, hold, .loop budget, none)
  | .work budget point =>
      (workStep k key outcome point).map fun (k, point, task) =>
        (k, hold, .work budget point, task)
  | .left => none

def DrainPoint.user : DrainPoint → Bool
  | .work _ point => point.user
  | _ => false

/-! ### exclusive_loop -/

/-- Where the thread of the service stands. -/
inductive Point where
  -- `mark_running` at the head of the loop
  | mark
  | run (point : RunPoint)
  -- `run_service` returned `Idle`; `is_dead` comes next
  | check
  -- `Exclusive::idle` runs
  | idle
  -- out of the loop; `mark_running` comes next
  | leave
  | drain (point : DrainPoint)
  -- `mark_running` before `destroy`
  | destroy
  | clean (point : CleanPoint)
  -- `destroyed` was not set before; the accounting comes next
  | account
  | ended

def markRunning (b : Box) : Box :=
  { b with state := .running }

/-- One step of the thread outside the mailbox operations.  The last component is the delivery to
start. -/
def pointStep (k : Core) (b : Box) (hold : Held) (key : ℕ)
    (outcome : Outcome) :
    Point → Option (Core × Box × Held × Point ×
      Option Delivery)
  | .mark => some (k, markRunning b, .holding, .run .enter, none)
  | .run (.ran .dead) => some (k, b, hold, .leave, none)
  | .run (.ran _) => some (k, b, hold, .check, none)
  | .run p =>
      (runStep k hold key outcome false p).map fun (k, hold, p, task) =>
        (k, b, hold, .run p, task.map .readyPush)
  | .check => some (k, b, hold, if k.dead then .leave else .idle, none)
  | .idle => some (k, b, hold, .mark, none)
  | .leave => some (k, markRunning b, .holding, .drain .enter, none)
  | .drain .left => some (k, b, hold, .destroy, none)
  | .drain p =>
      (drainStep k b hold key outcome p).map fun (k, hold, p, task) =>
        (k, b, hold, .drain p, task.map .readyPush)
  | .destroy => some (k, markRunning b, .holding, .clean .fail, none)
  | .clean .finished =>
      if k.destroyed then some (k, b, hold, .ended, none)
      else some ({ k with destroyed := true }, b, hold, .account, none)
  | .clean p => (cleanStep k hold p).map fun (k, hold, p) => (k, b, hold, .clean p, none)
  | .account => some ({ k with removed := k.removed + 1 }, b, hold, .ended, none)
  | .ended => none

def Point.user : Point → Bool
  | .run p => p.user
  | .idle => true
  | .drain p => p.user
  | .clean p => p.user
  | _ => false

def Point.isIdle : Point → Bool
  | .idle => true
  | _ => false

/-! ### Deliveries -/

/-- One atomic step of a delivery.  The last component says that `notify` returned true, so that
the thread of the service is to be interrupted. -/
def callStep (b : Box) :
    Delivery → Option (Box × Delivery × Bool)
  | .casIdle pushed =>
      if b.state = .idle then some ({ b with state := .queued }, .idle, true)
      else some (b, Mq.notifyNext pushed b.state, false)
  -- a shared service would go to the run queue
  | .pushMark => none
  | .pushInsert => none
  | p => (Mq.callStep b 0 p).map fun (b, _, p) => (b, p, false)

/-- The operations of `take_work`, `drain` and `release`; `mark_running` is a step of the loop, and
there is no yielding. -/
def holdStep (b : Box) :
    Held → Option (Box × Held)
  | .markRunning => none
  | .yieldMark => none
  | .yieldInsert => none
  | p => (Mq.holdStep b 0 p).map fun (b, _, p) => (b, p)

/-! ### The interleaving -/

/-- An exclusive service.  `interrupting` says that a thread has still to call `interrupt`. -/
structure Config (ι : Type*) where
  core : Core
  box : Box
  point : Point
  hold : Held
  signalled : Bool
  call : ι → Delivery
  interrupting : ι → Bool
  inner : ι → Inner

def Config.start (ι : Type*) : Config ι where
  core := Core.start
  box := { Mailbox.new Message TaskId with ready := [initTask] }
  point := .mark
  hold := .none
  signalled := false
  call := fun _ => .idle
  interrupting := fun _ => false
  inner := fun _ => .none

namespace Config

def free (c : Config ι) (t : ι) : Bool :=
  (c.inner t).isNone && (c.call t).isIdle && !c.interrupting t

def owns [DecidableEq ι] (c : Config ι) (me t : ι) : Bool := decide (t = me) && c.point.user

def user [DecidableEq ι] (c : Config ι) (me t : ι) : Bool := decide (t ≠ me) || c.point.user

def begin [DecidableEq ι] (c : Config ι) (t : ι) : Option Delivery → Config ι
  | none => c
  | some p => { c with call := Function.update c.call t p }

end Config

inductive Action (ι : Type*) where
  /-- `send_raw`: `handles.grab` -/
  | grab (thread : ι) (source session : ℕ) (mtype : UInt8)
  /-- `retire` or `request_exit`: `handles.retire` -/
  | retire (thread : ι) (exits : Bool)
  /-- the next step of `send_raw` or `retire` -/
  | inner (thread : ι)
  /-- a waker pushes a ready entry -/
  | wake (thread : ι) (task : TaskId)
  /-- code of the service spawns a task -/
  | spawn (key : ℕ)
  /-- the next atomic operation of a delivery, or its spurious failure -/
  | call (thread : ι)
  | callFail (thread : ι)
  /-- `interrupt` -/
  | interrupt (thread : ι)
  /-- the next atomic operation of the service's thread on the mailbox -/
  | hold
  /-- the next step of the service's thread outside the mailbox -/
  | step (key : ℕ) (outcome : Outcome)

def act [DecidableEq ι] (me : ι) : Action ι → Config ι → Option (Config ι)
  | .grab t source session mtype, c =>
      if c.free t && c.user me t && c.core.registered then
        let m := c.core.stamped source session mtype
        some { c with
          core := { c.core with accepted := c.core.accepted ++ [m] }
          inner := Function.update c.inner t (.grabbed m) }
      else none
  | .retire t exits, c =>
      if c.free t && c.user me t then
        (retireStep c.core (c.owns me t) exits).map fun (k, i) =>
          { c with core := k, inner := Function.update c.inner t i }
      else none
  | .inner t, c =>
      if (c.call t).isIdle && !c.interrupting t then
        (innerStep c.core (c.owns me t) (c.inner t)).map fun (k, i, call) =>
          Config.begin { c with core := k, inner := Function.update c.inner t i } t call
      else none
  | .wake t task, c =>
      if c.free t && c.user me t then some (c.begin t (some (.readyPush task))) else none
  | .spawn key, c =>
      if c.free me && c.point.user && c.core.tasks.slots.vacant key then
        some (Config.begin { c with core := c.core.install key none } me
          (some (.readyPush ⟨key, c.core.tasks.nextGeneration + 1⟩)))
      else none
  | .call t, c =>
      if c.interrupting t then none
      else (callStep c.box (c.call t)).map fun (b, p, queued) =>
        { c with
          box := b
          call := Function.update c.call t p
          interrupting := Function.update c.interrupting t queued }
  | .callFail t, c =>
      (Mq.callFail c.box (c.call t)).map fun p => { c with call := Function.update c.call t p }
  | .interrupt t, c =>
      if c.interrupting t then
        some { c with signalled := true, interrupting := Function.update c.interrupting t false }
      else none
  | .hold, c =>
      if c.free me then
        (holdStep c.box c.hold).map fun (b, p) => { c with box := b, hold := p }
      else none
  | .step key outcome, c =>
      if c.free me then
        (pointStep c.core c.box c.hold key outcome c.point).map fun (k, b, hold, p, call) =>
          Config.begin
            { c with
              core := k
              box := b
              hold := hold
              point := p
              signalled := c.signalled && !c.point.isIdle } me call
      else none

def Step [DecidableEq ι] (me : ι) (c c' : Config ι) : Prop := ∃ a, act me a c = some c'

def Reachable [DecidableEq ι] (me : ι) (c : Config ι) : Prop :=
  Interleave.Reachable (Step me) (Config.start ι) c

end Rskynet.Exclusive
