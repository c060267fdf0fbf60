import Rskynet.Lib.Threads

/-!
# The mailbox state machine, one atomic operation at a time

Every service owns a mailbox: a message queue, a ready queue of woken tasks and a state byte.
The byte says whether the service is unattended, sits in a run queue, or is held by a worker, and
whether work arrived while it was held. Senders move it by compare-and-swap, the holder by plain
stores.

A thread has two program counters. `Call` is where it stands inside a delivery (`push_message`,
`push_ready` or a bare `notify`, followed by `Scheduler::push` when `notify` returned true);
`Hold` is where it stands as the worker that popped the service. A worker that delivers to
its own service while it holds it has both, and its `Hold` counter waits.

The run queue is abstracted to the number of entries of this service it holds.
-/

namespace Rskynet.Mq

variable {μ ρ ι : Type*}

/-! ### Shared memory -/

inductive BoxState where
  | idle
  | queued
  | running
  | notified
  deriving DecidableEq

def initialThreshold : ℕ := 1024

/-- `READY_BURST`: how many rounds the ready queue may lead before a message goes first. -/
def readyBurst : ℕ := 64

/-- The mailbox of a service with messages `μ` and ready items `ρ`. -/
structure Mailbox (μ ρ : Type*) where
  queue : List μ
  ready : List ρ
  len : ℕ
  state : BoxState
  overload : ℕ
  overloadThreshold : ℕ
  readyStreak : ℕ

def Mailbox.new (μ ρ : Type*) : Mailbox μ ρ where
  queue := []
  ready := []
  len := 0
  state := .queued
  overload := 0
  overloadThreshold := initialThreshold
  readyStreak := 0

/-- The doubling loop of `check_overload`; the guard on zero is the one case in which the
loop of the source would not end, and thresholds are never zero. -/
def doubleAbove (length threshold : ℕ) : ℕ :=
  if length ≤ threshold ∨ threshold = 0 then threshold else doubleAbove length (threshold * 2)
termination_by length - threshold

/-! ### Deliveries -/

/-- Where a thread stands inside a delivery.  `pushed` records whether the delivery put
something into a queue before its `notify` (a kill does not). -/
inductive Call (μ ρ : Type*) where
  | idle
  | lenAdd (message : μ)
  | queuePush (message : μ)
  | readyPush (item : ρ)
  | notifyLoad (pushed : Bool)
  | casIdle (pushed : Bool)
  | casRunning (pushed : Bool)
  | pushMark
  | pushInsert

/-- The loop head of `notify`: what to try on the state just read. -/
def notifyNext (pushed : Bool) : BoxState → Call μ ρ
  | .idle => .casIdle pushed
  | .running => .casRunning pushed
  | _ => .idle

/-- One atomic step of a delivery, on the mailbox and the number of run-queue entries. -/
def callStep (b : Mailbox μ ρ) (entries : ℕ) :
    Call μ ρ → Option (Mailbox μ ρ × ℕ × Call μ ρ)
  | .idle => none
  | .lenAdd m => some ({ b with len := b.len + 1 }, entries, .queuePush m)
  | .queuePush m => some ({ b with queue := b.queue ++ [m] }, entries, .notifyLoad true)
  | .readyPush r => some ({ b with ready := b.ready ++ [r] }, entries, .notifyLoad true)
  | .notifyLoad pushed => some (b, entries, notifyNext pushed b.state)
  | .casIdle pushed =>
      if b.state = .idle then some ({ b with state := .queued }, entries, .pushMark)
      else some (b, entries, notifyNext pushed b.state)
  | .casRunning pushed =>
      if b.state = .running then some ({ b with state := .notified }, entries, .idle)
      else some (b, entries, notifyNext pushed b.state)
  -- `Scheduler::push`: `mark_queued`, then the insertion into a run queue
  | .pushMark => some ({ b with state := .queued }, entries, .pushInsert)
  | .pushInsert => some (b, entries + 1, .idle)

def callFail (b : Mailbox μ ρ) : Call μ ρ → Option (Call μ ρ)
  | .casIdle pushed => some (notifyNext pushed b.state)
  | .casRunning pushed => some (notifyNext pushed b.state)
  | _ => none

/-! ### The holder -/

inductive Work (μ ρ : Type*) where
  | message (message : μ)
  | ready (item : ρ)

/-- Where a thread stands as a worker on this service. -/
inductive Hold (μ ρ : Type*) where
  | none
  | panicked
  -- `pop` removed the entry; `mark_running` comes next
  | markRunning
  -- between two operations on the held service
  | holding
  -- take_work
  | takeStreak
  | takeBurst (streak : ℕ)
  | takeReady (streak : ℕ)
  | storeStreak (streak : ℕ) (item : ρ)
  | takeQueue
  | clearStreak (message : μ)
  | lenSub (message : μ)
  | loadThreshold (message : μ) (length : ℕ)
  | storeOverload (message : μ) (length threshold : ℕ)
  | storeThreshold (message : μ) (threshold : ℕ)
  | took (work : Work μ ρ)
  | takeCas
  | takeReset
  | resetThreshold
  -- yielding through Scheduler::push
  | yieldMark
  | yieldInsert
  -- the mailbox part of cleanup: drain, then release
  | drainReady
  | drainQueue (left : List μ)
  | drainLen (left : List μ) (message : μ)
  | drained (left : List μ)
  | releaseCas
  | releaseReset

/-- One atomic step of a worker inside an operation on the service. -/
def holdStep (b : Mailbox μ ρ) (entries : ℕ) : Hold μ ρ → Option (Mailbox μ ρ × ℕ × Hold μ ρ)
  | .none => Option.none
  | .panicked => Option.none
  | .holding => Option.none
  | .took _ => Option.none
  | .drained _ => Option.none
  | .markRunning => some ({ b with state := .running }, entries, .holding)
  | .takeStreak =>
      if readyBurst ≤ b.readyStreak then some (b, entries, .takeBurst b.readyStreak)
      else some (b, entries, .takeReady b.readyStreak)
  | .takeBurst streak =>
      match b.queue with
      | [] => some (b, entries, .takeReady streak)
      | m :: rest => some ({ b with queue := rest }, entries, .clearStreak m)
  | .takeReady streak =>
      match b.ready with
      | [] => some (b, entries, .takeQueue)
      | r :: rest => some ({ b with ready := rest }, entries, .storeStreak streak r)
  | .storeStreak streak r =>
      some ({ b with readyStreak := min (streak + 1) readyBurst }, entries, .took (.ready r))
  | .takeQueue =>
      match b.queue with
      | [] => some (b, entries, .takeCas)
      | m :: rest => some ({ b with queue := rest }, entries, .clearStreak m)
  | .clearStreak m => some ({ b with readyStreak := 0 }, entries, .lenSub m)
  -- check_overload
  | .lenSub m => some ({ b with len := b.len - 1 }, entries, .loadThreshold m (b.len - 1))
  | .loadThreshold m length =>
      if length ≤ b.overloadThreshold then some (b, entries, .took (.message m))
      else some (b, entries, .storeOverload m length (doubleAbove length b.overloadThreshold))
  | .storeOverload m length threshold =>
      some ({ b with overload := length }, entries, .storeThreshold m threshold)
  | .storeThreshold m threshold =>
      some ({ b with overloadThreshold := threshold }, entries, .took (.message m))
  | .takeCas =>
      match b.state with
      | .running => some ({ b with state := .idle }, entries, .resetThreshold)
      | .notified => some (b, entries, .takeReset)
      | _ => some (b, entries, .panicked)
  | .takeReset => some ({ b with state := .running }, entries, .takeStreak)
  -- the service is already released when the threshold is reset
  | .resetThreshold => some ({ b with overloadThreshold := initialThreshold }, entries, .none)
  | .yieldMark => some ({ b with state := .queued }, entries, .yieldInsert)
  | .yieldInsert => some (b, entries + 1, .none)
  | .drainReady =>
      match b.ready with
      | [] => some (b, entries, .drainQueue [])
      | _ :: rest => some ({ b with ready := rest }, entries, .drainReady)
  | .drainQueue left =>
      match b.queue with
      | [] => some (b, entries, .drained left)
      | m :: rest => some ({ b with queue := rest }, entries, .drainLen left m)
  | .drainLen left m => some ({ b with len := b.len - 1 }, entries, .drainQueue (left ++ [m]))
  | .releaseCas =>
      match b.state with
      | .running => some ({ b with state := .idle }, entries, .none)
      | .notified => some (b, entries, .releaseReset)
      | _ => some (b, entries, .panicked)
  | .releaseReset => some ({ b with state := .running }, entries, .holding)

/-! ### The interleaving -/

/-- A shared service seen from its mailbox. -/
structure Config (μ ρ ι : Type*) where
  box : Mailbox μ ρ
  entries : ℕ
  call : ι → Call μ ρ
  hold : ι → Hold μ ρ

/-- A fresh service: the mailbox starts `QUEUED` and thread `creator` is about to perform the
first `Scheduler::push`.  The items in `ready` are what was installed before. -/
def Config.start [DecidableEq ι] (creator : ι) (ready : List ρ) : Config μ ρ ι where
  box := { Mailbox.new μ ρ with ready := ready }
  entries := 0
  call := Function.update (fun _ => .idle) creator .pushMark
  hold := fun _ => .none

/-- What the holder decides to do next with the service. -/
inductive Choice where
  /-- enter `take_work` -/
  | take
  /-- go on after the work it took -/
  | finish
  /-- yield through `Scheduler::push` -/
  | yield
  /-- enter `drain` -/
  | drain
  /-- enter `release`, having answered what it drained -/
  | release

def enter : Choice → Hold μ ρ → Option (Hold μ ρ)
  | .take, .holding => some .takeStreak
  | .finish, .took _ => some .holding
  | .yield, .holding => some .yieldMark
  | .drain, .holding => some .drainReady
  | .release, .drained _ => some .releaseCas
  | _, _ => none

inductive Action (μ ρ ι : Type*) where
  /-- a sender enters `push_message` -/
  | send (thread : ι) (message : μ)
  /-- a waker enters `push_ready` -/
  | wake (thread : ι) (item : ρ)
  /-- a killer enters `notify` -/
  | kill (thread : ι)
  /-- a delivery performs its next atomic operation -/
  | call (thread : ι)
  /-- a delivery's weak compare-and-swap fails spuriously -/
  | callFail (thread : ι)
  /-- a worker pops an entry from the run queue -/
  | pop (thread : ι)
  /-- the holder decides what to do next -/
  | choose (thread : ι) (choice : Choice)
  /-- the holder performs its next atomic operation -/
  | hold (thread : ι)

def Call.isIdle : Call μ ρ → Bool
  | .idle => true
  | _ => false

def Hold.isNone : Hold μ ρ → Bool
  | .none => true
  | _ => false

def Config.deliver [DecidableEq ι] (c : Config μ ρ ι) (t : ι) (p : Call μ ρ) :
    Option (Config μ ρ ι) :=
  if (c.call t).isIdle then some { c with call := Function.update c.call t p } else none

/-- The step a choice stands for, if it is enabled.  A worker's counter moves only while the
thread is in no delivery. -/
def act [DecidableEq ι] : Action μ ρ ι → Config μ ρ ι → Option (Config μ ρ ι)
  | .send t m, c => c.deliver t (.lenAdd m)
  | .wake t r, c => c.deliver t (.readyPush r)
  | .kill t, c => c.deliver t (.notifyLoad false)
  | .call t, c =>
      (callStep c.box c.entries (c.call t)).map fun (b, e, p) =>
        { c with box := b, entries := e, call := Function.update c.call t p }
  | .callFail t, c =>
      (callFail c.box (c.call t)).map fun p => { c with call := Function.update c.call t p }
  | .pop t, c =>
      if (c.call t).isIdle && (c.hold t).isNone && decide (0 < c.entries) then
        some { c with entries := c.entries - 1, hold := Function.update c.hold t .markRunning }
      else none
  | .choose t k, c =>
      if (c.call t).isIdle then
        (enter k (c.hold t)).map fun p => { c with hold := Function.update c.hold t p }
      else none
  | .hold t, c =>
      if (c.call t).isIdle then
        (holdStep c.box c.entries (c.hold t)).map fun (b, e, p) =>
          { c with box := b, entries := e, hold := Function.update c.hold t p }
      else none

def Step [DecidableEq ι] (c c' : Config μ ρ ι) : Prop := ∃ a, act a c = some c'

def Reachable [DecidableEq ι] (creator : ι) (ready : List ρ) (c : Config μ ρ ι) : Prop :=
  Interleave.Reachable Step (Config.start creator ready) c

end Rskynet.Mq
