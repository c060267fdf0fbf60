import Rskynet.Lib.Slab
import Rskynet.Lib.Threads

/-!
# The tasks of a service

`TaskSet` keeps the futures of a service in a slab. A key of the slab is used again after its
task is gone, so a `TaskId` also carries a generation, and every operation compares it with the
generation of the slot. A waker first sets the task's signal from `false` to `true` and pushes
the id to the ready queue only if that succeeds; the executor clears the signal when it takes the
task out for a poll.

The executor is the one thread that holds the service. A slot has its future or it has not.
-/

namespace Rskynet.Task

variable {κ ι : Type*}

/-! ### The task set -/

structure TaskId where
  index : ℕ
  generation : ℕ
  deriving DecidableEq

/-- A slot; `future` says whether the future is in it, `request` is the request the task answers. -/
structure TaskSlot (κ : Type*) where
  future : Bool
  generation : ℕ
  request : Option κ
  deriving DecidableEq

/-- The tasks of a service.  `nextGeneration` counts without the wrap after `2 ^ 64` tasks. -/
structure TaskSet (κ : Type*) where
  slots : Slab (TaskSlot κ)
  nextGeneration : ℕ

namespace TaskSet

def new : TaskSet κ := ⟨Slab.empty, 0⟩

def insert (s : TaskSet κ) (key : ℕ) (request : Option κ) : TaskSet κ × TaskId :=
  let generation := s.nextGeneration + 1
  (⟨s.slots.put key ⟨true, generation, request⟩, generation⟩, ⟨key, generation⟩)

/-- `take`: the future leaves its slot, unless the task is gone or the future is out already. -/
def take (s : TaskSet κ) (task : TaskId) : Option (TaskSet κ) :=
  match s.slots.get task.index with
  | none => none
  | some slot =>
    if slot.generation ≠ task.generation then none
    else if slot.future then some { s with slots := s.slots.put task.index { slot with future := false } }
    else none

/-- `restore`: the future goes back to its slot; without the slot it is dropped. -/
def restore (s : TaskSet κ) (task : TaskId) : TaskSet κ :=
  match s.slots.get task.index with
  | none => s
  | some slot =>
    if slot.generation ≠ task.generation then s
    else { s with slots := s.slots.put task.index { slot with future := true } }

def remove (s : TaskSet κ) (task : TaskId) : TaskSet κ :=
  match s.slots.get task.index with
  | none => s
  | some slot =>
    if slot.generation ≠ task.generation then s
    else { s with slots := s.slots.remove task.index }

def takeRequests (s : TaskSet κ) : List κ × TaskSet κ :=
  (s.slots.values.filterMap TaskSlot.request,
    { s with slots := s.slots.map fun slot => { slot with request := none } })

def drain (s : TaskSet κ) : TaskSet κ := { s with slots := Slab.empty }

def live (s : TaskSet κ) (task : TaskId) : Prop :=
  ∃ slot, s.slots.get task.index = some slot ∧ slot.generation = task.generation

end TaskSet

/-! ### The executor and the wakers -/

inductive Exec where
  | rest
  -- `take_work` returned the ready entry; `TaskSet::take` comes next
  | popped (task : TaskId)
  -- the future is out, the signal is still set
  | clearing (task : TaskId)
  -- the signal is cleared, `poll` has not been called yet
  | taken (task : TaskId)
  | polling (task : TaskId)
  deriving DecidableEq

def Exec.task : Exec → Option TaskId
  | .rest => none
  | .popped task => some task
  | .clearing task => some task
  | .taken task => some task
  | .polling task => some task

def Exec.busy : Exec → Option TaskId
  | .clearing task => some task
  | .taken task => some task
  | .polling task => some task
  | _ => none

/-- Where a thread stands inside `wake_by_ref`, or inside the push of a new task's first entry. -/
inductive Wake where
  | idle
  | cas (task : TaskId)
  | push (task : TaskId)
  deriving DecidableEq

/-- The tasks of one service.  `queued` holds the signal of each generation.  Two ghosts: the ids
handed out, and the tasks that were woken since their last poll began. -/
structure Config (κ ι : Type*) where
  tasks : TaskSet κ
  queued : ℕ → Bool
  ready : List TaskId
  exec : Exec
  wake : ι → Wake
  issued : List TaskId
  owed : TaskId → Bool

def Config.start (κ ι : Type*) : Config κ ι where
  tasks := TaskSet.new
  queued := fun _ => false
  ready := []
  exec := .rest
  wake := fun _ => .idle
  issued := []
  owed := fun _ => false

inductive Action (κ ι : Type*) where
  /-- a thread calls `wake_by_ref` on a waker of a task -/
  | wake (thread : ι) (task : TaskId)
  /-- the executor, as thread `thread`, installs a new task at a key of the slab -/
  | spawn (thread : ι) (key : ℕ) (request : Option κ)
  /-- a wake performs its next atomic operation -/
  | call (thread : ι)
  /-- the executor takes an entry from the ready queue -/
  | pop
  /-- the executor performs its next operation, up to the start of a poll -/
  | exec
  /-- the poll returns `Ready` or `Pending` -/
  | finish (done : Bool)

def Exec.maySpawn : Exec → Bool
  | .rest => true
  | .polling _ => true
  | _ => false

def callStep [DecidableEq ι] (c : Config κ ι) (t : ι) : Option (Config κ ι) :=
  match c.wake t with
  | .idle => none
  | .cas task =>
      let c := { c with owed := Function.update c.owed task true }
      if c.queued task.generation then some { c with wake := Function.update c.wake t .idle }
      else some { c with
        queued := Function.update c.queued task.generation true
        wake := Function.update c.wake t (.push task) }
  | .push task => some { c with
      ready := c.ready ++ [task]
      wake := Function.update c.wake t .idle }

/-- The next operation of the executor on the task in its hands. -/
def execStep (c : Config κ ι) : Option (Config κ ι) :=
  match c.exec with
  | .popped task =>
      match c.tasks.take task with
      | none => some { c with exec := .rest }
      | some tasks => some { c with tasks := tasks, exec := .clearing task }
  | .clearing task => some { c with
      queued := Function.update c.queued task.generation false
      exec := .taken task }
  | .taken task => some { c with
      owed := Function.update c.owed task false
      exec := .polling task }
  | _ => none

def act [DecidableEq ι] : Action κ ι → Config κ ι → Option (Config κ ι)
  | .wake t task, c =>
      if c.wake t = .idle ∧ task ∈ c.issued then
        some { c with wake := Function.update c.wake t (.cas task) }
      else none
  | .spawn t key request, c =>
      if c.wake t = .idle ∧ c.exec.maySpawn ∧ c.tasks.slots.vacant key then
        let (tasks, task) := c.tasks.insert key request
        some { c with
          tasks := tasks
          queued := Function.update c.queued task.generation true
          wake := Function.update c.wake t (.push task)
          issued := task :: c.issued }
      else none
  | .call t, c => callStep c t
  | .pop, c =>
      match c.exec, c.ready with
      | .rest, task :: rest => some { c with ready := rest, exec := .popped task }
      | _, _ => none
  | .exec, c => execStep c
  | .finish done, c =>
      match c.exec with
      | .polling task => some { c with
          tasks := if done then c.tasks.remove task else c.tasks.restore task
          exec := .rest }
      | _ => none

def Step [DecidableEq ι] (c c' : Config κ ι) : Prop := ∃ a, act a c = some c'

def Reachable [DecidableEq ι] (c : Config κ ι) : Prop :=
  Interleave.Reachable Step (Config.start κ ι) c

end Rskynet.Task
