import Rskynet.Mq.Mailbox
import Rskynet.Task.Model

/-!
# A service and the work on it

`ServiceContext` without its mailbox, and the code that only the holder of a service runs:
`run_work` with `handle_message` and `poll_task`, the loop of `run_service`, and `cleanup`. Each
is a step function on the service's fields and a program point, beside that of `Rskynet.Mq`.

Sessions, logging and statistics do not influence what happens to a request and are left out; a
kernel `ERROR` is recorded in a log under the request it answers.
-/

namespace Rskynet.Service

open Rskynet.Task (TaskId TaskSet)

/-! ### Messages -/

/-- A message.  `stamp` numbers the messages that `send_raw` has accepted. -/
structure Message where
  stamp : ℕ
  source : ℕ
  session : ℕ
  mtype : UInt8
  deriving DecidableEq

def response : UInt8 := 1
def error : UInt8 := 6

def Message.isReply (m : Message) : Bool := m.mtype == response || m.mtype == error

/-- A reply goes to the session that waits for it and to no task: the test in `handle_message`. -/
def Message.toSession (m : Message) : Bool := m.isReply && m.session != 0

def Message.needsReply (m : Message) : Bool := m.session != 0

/-- The sender waits for an answer: the test that `cleanup` makes. -/
def Message.isRequest (m : Message) : Bool := m.needsReply && m.source != 0 && !m.isReply

abbrev Box := Mq.Mailbox Message TaskId
abbrev Held := Mq.Hold Message TaskId
abbrev Delivery := Mq.Call Message TaskId

/-! ### The service -/

inductive Lifecycle where
  | initializing
  | running
  | failed
  deriving DecidableEq

/-- The fields of a service.  `registered` says that the handle table has it, `removed` how often it
was taken out of the accounting.  `accepted` logs what `send_raw` accepted, `dispatched` the
requests given to a task, `failed` and `aborted` the kernel errors for messages found in cleanup
and for requests of tasks.  Ghosts: the request each task was made for, and the requests whose
tasks were in the set when the service exited itself or was cleaned up. -/
structure Core where
  registered : Bool
  dead : Bool
  destroyed : Bool
  lifecycle : Lifecycle
  initSelfExit : Bool
  pending : Option (List Message)
  tasks : TaskSet Message
  removed : ℕ
  accepted : List Message
  dispatched : List Message
  failed : List Message
  aborted : List Message
  origin : ℕ → Option Message
  caught : List Message

/-- The id of the task that runs `Service::init`, the first one installed. -/
def initTask : TaskId := ⟨0, 1⟩

def Core.start : Core where
  registered := true
  dead := false
  destroyed := false
  lifecycle := .initializing
  initSelfExit := false
  pending := some []
  tasks := (TaskSet.new.insert 0 none).1
  removed := 0
  accepted := []
  dispatched := []
  failed := []
  aborted := []
  origin := fun _ => none
  caught := []

namespace Core

def errors (k : Core) : List Message := k.failed ++ k.aborted

/-- `install_task`, up to the push of the task's first entry. -/
def install (k : Core) (key : ℕ) (request : Option Message) : Core :=
  { k with
    tasks := (k.tasks.insert key request).1
    origin := Function.update k.origin (k.tasks.nextGeneration + 1) request }

def failInflight (k : Core) : Core :=
  { k with
    tasks := k.tasks.takeRequests.2
    aborted := k.aborted ++ k.tasks.takeRequests.1 }

/-- The ghost of an exit or a cleanup: the requests that the tasks in the set were made for. -/
def catchTasks (k : Core) : Core :=
  { k with
    caught := k.caught ++ k.tasks.slots.values.filterMap fun slot => k.origin slot.generation }

/-- The errors that `cleanup` sends for messages nobody handled. -/
def answer (k : Core) (messages : List Message) : Core :=
  { k with failed := k.failed ++ messages.filter Message.isRequest }

def finishInit (k : Core) (ok : Bool) : Core :=
  { k with lifecycle := if ok && !(k.dead && !k.initSelfExit) then .running else .failed }

/-- `handles.retire`: the service leaves the handle table. -/
def unregister (k : Core) : Core := { k with registered := false }

def stamped (k : Core) (source session : ℕ) (mtype : UInt8) : Message :=
  ⟨k.accepted.length, source, session, mtype⟩

end Core

/-! ### run_work -/

/-- Where the holder stands inside `run_work`. -/
inductive WorkPoint where
  | handle (message : Message)
  -- `Service::dispatch` runs
  | dispatching (message : Message)
  | ready (task : TaskId)
  -- a future runs
  | polling (task : TaskId)
  -- the init task has failed and calls `exit`
  | initExit (task : TaskId)
  | polled (task : TaskId)
  | done
  | panicked (message : Message)

/-- What a poll came to: `Pending`, `Ready`, or, for the init task, `Ready` after an error. -/
inductive Outcome where
  | pending
  | done
  | failed
  deriving DecidableEq

def requestOf (m : Message) : Option Message :=
  if m.session != 0 && m.source != 0 then some m else none

/-- One step of `run_work`; `key` is what the slab hands out.  The last component is the task whose
first entry is to be pushed. -/
def workStep (k : Core) (key : ℕ) (outcome : Outcome) :
    WorkPoint → Option (Core × WorkPoint × Option TaskId)
  | .handle m =>
      if m.toSession then some (k, .done, none)
      else if k.lifecycle ≠ .running then
        match k.pending with
        | none => some (k, .panicked m, none)
        | some queue => some ({ k with pending := some (queue ++ [m]) }, .done, none)
      else some (k, .dispatching m, none)
  | .dispatching m =>
      if k.tasks.slots.vacant key then
        some ({ k.install key (requestOf m) with
            dispatched := k.dispatched ++ (requestOf m).toList },
          .done, some ⟨key, k.tasks.nextGeneration + 1⟩)
      else none
  | .ready task =>
      match k.tasks.take task with
      | none => some (k, .done, none)
      | some tasks => some ({ k with tasks := tasks }, .polling task, none)
  | .polling task =>
      match outcome with
      | .pending => some ({ k with tasks := k.tasks.restore task }, .done, none)
      | .done =>
          if task = initTask then some (k.finishInit true, .polled task, none)
          else some (k, .polled task, none)
      | .failed =>
          if task = initTask then some (k.finishInit false, .initExit task, none) else none
  | .initExit task => if k.registered then none else some (k, .polled task, none)
  | .polled task => some ({ k with tasks := k.tasks.remove task }, .done, none)
  | .done => none
  | .panicked _ => none

def WorkPoint.user : WorkPoint → Bool
  | .dispatching _ => true
  | .polling _ => true
  | .initExit _ => true
  | _ => false

/-! ### run_service -/

inductive Ran where
  | dead
  | idle
  | yielded

inductive RunPoint where
  | enter
  | loop
  | takePending
  | take
  | work (point : WorkPoint)
  | check
  | ran (result : Ran)

/-- One step of `run_service` outside the mailbox operations.  `yields` says that the worker has
done enough and somebody waits. -/
def runStep (k : Core) (hold : Held) (key : ℕ) (outcome : Outcome) (yields : Bool) :
    RunPoint → Option (Core × Held × RunPoint × Option TaskId)
  | .enter =>
      match hold with
      | .holding => some (k, hold, if k.dead then .ran .dead else .loop, none)
      | _ => none
  | .loop =>
      if k.lifecycle = .running then some (k, hold, .takePending, none)
      else (Mq.enter .take hold).map fun hold => (k, hold, .take, none)
  | .takePending =>
      match k.pending with
      | some (m :: rest) => some ({ k with pending := some rest }, hold, .work (.handle m), none)
      | _ => (Mq.enter .take hold).map fun hold => ({ k with pending := none }, hold, .take, none)
  | .take =>
      match hold with
      | .took (.message m) =>
          (Mq.enter .finish hold).map fun hold => (k, hold, .work (.handle m), none)
      | .took (.ready task) =>
          (Mq.enter .finish hold).map fun hold => (k, hold, .work (.ready task), none)
      | .none => some (k, hold, .ran .idle, none)
      | _ => none
  | .work .done => some (k, hold, .check, none)
  | .work point =>
      (workStep k key outcome point).map fun (k, point, task) => (k, hold, .work point, task)
  | .check =>
      if k.dead then some (k, hold, .ran .dead, none)
      else some (k, hold, if yields then .ran .yielded else .loop, none)
  | .ran _ => none

def RunPoint.user : RunPoint → Bool
  | .work point => point.user
  | _ => false

/-! ### cleanup -/

inductive CleanPoint where
  | fail
  | tasks
  -- the futures are dropped
  | drop
  | box
  | pending
  | init
  | release
  | finished

/-- One step of `cleanup` outside the mailbox operations. -/
def cleanStep (k : Core) (hold : Held) :
    CleanPoint → Option (Core × Held × CleanPoint)
  | .fail => some (k.catchTasks.failInflight, hold, .tasks)
  | .tasks => some ({ k with tasks := k.tasks.drain }, hold, .drop)
  | .drop => (Mq.enter .drain hold).map fun hold => (k, hold, .box)
  | .box =>
      match hold with
      | .drained left => some (k.answer left, hold, .pending)
      | _ => none
  | .pending => some ({ k.answer (k.pending.getD []) with pending := none }, hold, .init)
  | .init =>
      (Mq.enter .release hold).map fun hold =>
        (if k.lifecycle = .initializing then k.finishInit false else k, hold, .release)
  | .release =>
      match hold with
      | .holding => some (k, hold, .fail)
      | .none => some (k, hold, .finished)
      | _ => none
  | .finished => none

def CleanPoint.user : CleanPoint → Bool
  | .drop => true
  | _ => false

/-! ### send_raw and retire -/

/-- Where a thread stands inside `send_raw` or `retire`.  `mine` says that the call is a
`request_exit` of the service's own init. -/
inductive Inner where
  | none
  -- `handles.grab` returned the context
  | grabbed (message : Message)
  -- `handles.retire` returned the context
  | markDead (mine : Bool)
  | failInflight (mine : Bool)
  | notify (mine : Bool)
  | returned (mine : Bool)

def Inner.isNone : Inner → Bool
  | .none => true
  | _ => false

/-- One step of `send_raw` or `retire`, up to the mailbox operation; `owns` says that the thread
is executing the service.  The last component is the delivery to start. -/
def innerStep (k : Core) (owns : Bool) :
    Inner → Option (Core × Inner × Option Delivery)
  | .none => Option.none
  | .grabbed m => some (k, .none, some (.lenAdd m))
  | .markDead mine => some ({ k with dead := true }, .failInflight mine, Option.none)
  | .failInflight mine =>
      some (if owns then k.catchTasks.failInflight else k, .notify mine, Option.none)
  | .notify mine => some (k, .returned mine, some (.notifyLoad false))
  | .returned mine =>
      some (if mine then { k with initSelfExit := true } else k, .none, Option.none)

/-- The first step of `retire`, or of `request_exit` when `exits` is set. -/
def retireStep (k : Core) (owns exits : Bool) : Option (Core × Inner) :=
  if k.registered then
    some (k.unregister, .markDead (exits && owns && decide (k.lifecycle = .initializing)))
  else none

end Rskynet.Service
