import Rskynet.Lib.Bitmap
import Rskynet.Lib.Threads

/-!
# The scheduler, one atomic operation at a time

The run queues of a node: one local queue and one handoff slot per worker, and an injector that
anybody may use. A counter announces how many services are queued, a bitmap names the workers
that went to sleep, and another counter says how many are awake and searching. A push decides
from these whom to wake; a worker that finds nothing registers itself and parks.

This file transcribes `Scheduler::push` with `place` and `claim_idle`, `pop` with `steal`,
`find_work_or_park`, `flush_local`, `set_quit` and the skeleton of `worker_loop`, each atomic
operation one step.

The two stores into the mailbox of the moved service (`mark_queued`, `mark_running`) belong to
the mailbox model; fences are no steps of their own under sequential consistency.
-/

namespace Rskynet.Scheduler

variable {n : ℕ} {σ ε : Type*}

/-! ### Shared memory -/

def injectInterval : ℕ := 64

def spinRounds : ℕ := 256

def stealAttempts : ℕ := 2

structure Sched (n : ℕ) (σ : Type*) where
  injector : List σ
  locals : Fin n → List σ
  slot : Fin n → Option σ
  pending : ℕ
  idle : ℕ → BitVec 64
  searching : ℕ
  stealable : ℕ → BitVec 64
  tick : Fin n → ℕ
  rng : Fin n → BitVec 64
  /-- the unpark token of each worker's thread -/
  token : Fin n → Bool
  quit : Bool

def Sched.new (n : ℕ) (σ : Type*) : Sched n σ where
  injector := []
  locals := fun _ => []
  slot := fun _ => none
  pending := 0
  idle := fun _ => 0
  searching := 0
  stealable := fun _ => 0
  tick := fun _ => 0
  rng := fun id => BitVec.ofNat 64 id * 0x9E3779B97F4A7C15#64 ||| 1#64
  token := fun _ => false
  quit := false

def maxSearchers (n : ℕ) : ℕ := max (n / 2) 1

def wordCount (n : ℕ) : ℕ := (n + 63) / 64

def nextRandom (x : BitVec 64) : BitVec 64 :=
  let x := x ^^^ (x <<< 13)
  let x := x ^^^ (x >>> 7)
  x ^^^ (x <<< 17)

/-! ### Program counters -/

/-- Where a push returns to: its caller, or the exit path of `worker_loop`. -/
inductive After where
  | loop
  | flush
  deriving DecidableEq

/-- Who called `pop`: anybody, a searching round of `find_work_or_park` (with the number of
rounds left, this one included), or its last scan before parking. -/
inductive PopFor where
  | plain
  | spin (rounds : ℕ)
  | final
  deriving DecidableEq

/-- What `claim_idle` was called for: to hand a service over, or only to wake somebody. -/
inductive Goal (σ : Type*) where
  | handoff (service : σ)
  | rouse
  deriving DecidableEq

/-- What follows `place`: waking the claimed worker, or the second look at the searchers. -/
inductive Next (n : ℕ) where
  | wake (worker : Fin n)
  | recheck
  deriving DecidableEq

/-- Where a thread stands, with its registers. -/
inductive Pc (n : ℕ) (σ : Type*) where
  | idle
  | panicked
  -- push, place and claim_idle
  | pushPending (service : σ) (after : After)
  | pushSearching (service : σ) (after : After)
  | pushInjector (service : σ) (after : After)
  | recheck (after : After)
  | claimLoad (goal : Goal σ) (word : ℕ) (after : After)
  | claimCas (goal : Goal σ) (word : ℕ) (bits : BitVec 64) (after : After)
  | offer (worker : Fin n) (service : σ) (after : After)
  | place (service : σ) (next : Next n) (after : After)
  | placeMark (next : Next n) (after : After)
  | placeInjector (service : σ) (next : Next n) (after : After)
  | wake (worker : Fin n) (after : After)
  -- pop_runnable, pop_injector and steal
  | popSlot (caller : PopFor)
  | popPending (caller : PopFor)
  | popTick (caller : PopFor)
  | popInjectorFirst (caller : PopFor)
  | popLocal (caller : PopFor)
  | popInjector (caller : PopFor)
  | stealStart (caller : PopFor)
  | stealCheck (caller : PopFor) (start offset attempts : ℕ)
  | stealTake (caller : PopFor) (start offset attempts : ℕ) (victim : Fin n)
  | stealFront (caller : PopFor) (start offset attempts : ℕ) (victim : Fin n)
  | stealMark (caller : PopFor) (service : σ) (victim : Fin n)
  | popDecrement (caller : PopFor) (service : σ)
  | popOutside
  -- find_work_or_park
  | findIncrement
  | spinQuit (rounds : ℕ)
  | findLeave
  | markIdle
  | findDecrement
  | finalQuit
  | parked
  | clearIdle
  -- worker_loop and flush_local
  | loopQuit
  | exiting
  | flushSlot
  | flushInjector (service : σ)
  | flushLocal
  | flushClear
  | left
  -- set_quit
  | quitStore
  | quitWake (worker : ℕ)
  deriving DecidableEq

def After.pc : After → Pc n σ
  | .loop => .idle
  | .flush => .flushSlot

def PopFor.missed : PopFor → Pc n σ
  | .plain => .idle
  | .spin rounds => .spinQuit rounds
  | .final => .finalQuit

def PopFor.found : PopFor → Pc n σ
  | .plain => .idle
  | .spin _ => .findLeave
  | .final => .clearIdle

def placing (me : Option (Fin n)) (s : σ) (next : Next n) (after : After) : Pc n σ :=
  match me with
  | some _ => .place s next after
  | none => .placeInjector s next after

/-- The return of `place`; `needs_wakeup_recheck` is false on a worker. -/
def placed (me : Option (Fin n)) (next : Next n) (after : After) : Pc n σ :=
  match next, me with
  | .wake w, _ => .wake w after
  | .recheck, none => .recheck after
  | .recheck, some _ => after.pc

def claimed (goal : Goal σ) (w : Fin n) (after : After) : Pc n σ :=
  match goal with
  | .handoff s => .offer w s after
  | .rouse => .wake w after

def unclaimed (me : Option (Fin n)) (goal : Goal σ) (after : After) : Pc n σ :=
  match goal with
  | .handoff s => placing me s .recheck after
  | .rouse => after.pc

/-- The loops of `claim_idle`, with `bits` just read from word `word`. -/
def claimNext (me : Option (Fin n)) (goal : Goal σ) (word : ℕ) (bits : BitVec 64) (after : After) :
    Pc n σ :=
  if bits ≠ 0 then .claimCas goal word bits after
  else if word + 1 < wordCount n then .claimLoad goal (word + 1) after
  else unclaimed me goal after

/-! ### One step of a thread -/

/-- The outcomes that containers and hardware leave open. -/
inductive Luck where
  | plain
  | granted
  | fail
  deriving DecidableEq

/-- One atomic step.  The last component is the service that `pop` returned, if it did. -/
def step (me : Option (Fin n)) (luck : Luck) (m : Sched n σ) :
    Pc n σ → Option (Sched n σ × Pc n σ × List σ)
  | .idle => none
  | .panicked => none
  | .exiting => none
  | .left => none
  | .pushPending s k => some ({ m with pending := m.pending + 1 }, .pushSearching s k, [])
  | .pushSearching s k =>
      if 0 < m.searching then some (m, .pushInjector s k, [])
      else some (m, .claimLoad (.handoff s) 0 k, [])
  | .pushInjector s k => some ({ m with injector := m.injector ++ [s] }, .recheck k, [])
  | .recheck k =>
      if m.searching = 0 then some (m, .claimLoad .rouse 0 k, []) else some (m, k.pc, [])
  | .claimLoad goal word k => some (m, claimNext me goal word (m.idle word) k, [])
  | .claimCas goal word bits k =>
      if m.idle word = bits ∧ luck ≠ .fail then
        let bit := Bitmap.lowest bits
        let m' := { m with idle := Function.update m.idle word (bits &&& ~~~(1#64 <<< bit)) }
        if h : word * 64 + bit < n then some (m', claimed goal ⟨word * 64 + bit, h⟩ k, [])
        else some (m', .panicked, [])
      else some (m, claimNext me goal word (m.idle word) k, [])
  | .offer w s k =>
      match m.slot w with
      | none => some ({ m with slot := Function.update m.slot w (some s) }, .wake w k, [])
      | some _ => some (m, placing me s (.wake w) k, [])
  | .place s next k =>
      match me, luck with
      | none, _ => none
      | some _, .fail => some (m, .placeInjector s next k, [])
      | some w, .granted =>
          some ({ m with locals := Function.update m.locals w (m.locals w ++ [s]) },
            .placeMark next k, [])
      | some w, .plain =>
          some ({ m with locals := Function.update m.locals w (m.locals w ++ [s]) },
            placed me next k, [])
  | .placeMark next k =>
      me.map fun (w : Fin n) => ({ m with stealable := Bitmap.insert m.stealable w }, placed me next k, [])
  | .placeInjector s next k =>
      some ({ m with injector := m.injector ++ [s] }, placed me next k, [])
  | .wake w k => some ({ m with token := Function.update m.token w true }, k.pc, [])
  | .popSlot f =>
      me.map fun (w : Fin n) =>
        match m.slot w with
        | some s => ({ m with slot := Function.update m.slot w none }, .popDecrement f s, [])
        | none => (m, .popPending f, [])
  | .popPending f =>
      if m.pending = 0 then some (m, f.missed, []) else some (m, .popTick f, [])
  | .popTick f =>
      me.map fun (w : Fin n) =>
        ({ m with tick := Function.update m.tick w (m.tick w + 1) },
          if m.tick w &&& (injectInterval - 1) = 0 then .popInjectorFirst f else .popLocal f, [])
  | .popInjectorFirst f =>
      match m.injector with
      | s :: rest => some ({ m with injector := rest }, .popDecrement f s, [])
      | [] => some (m, .popLocal f, [])
  | .popLocal f =>
      me.map fun (w : Fin n) =>
        match (m.locals w).getLast? with
        | some s => ({ m with locals := Function.update m.locals w (m.locals w).dropLast },
            .popDecrement f s, [])
        | none => (m, .popInjector f, [])
  | .popInjector f =>
      match m.injector with
      | s :: rest => some ({ m with injector := rest }, .popDecrement f s, [])
      | [] => some (m, .stealStart f, [])
  | .stealStart f =>
      me.map fun (w : Fin n) =>
        if n < 2 then (m, f.missed, [])
        else
          let x := nextRandom (m.rng w)
          ({ m with rng := Function.update m.rng w x }, .stealCheck f (x.toNat % n) 0 0, [])
  | .stealCheck f start offset attempts =>
      me.map fun (w : Fin n) =>
        if offset < n then
          let victim : Fin n := ⟨(start + offset) % n, Nat.mod_lt _ w.pos⟩
          if victim = w ∨ Bitmap.mem m.stealable victim = false then
            (m, .stealCheck f start (offset + 1) attempts, [])
          else (m, .stealTake f start offset attempts victim, [])
        else (m, f.missed, [])
  | .stealTake f start offset attempts victim =>
      some ({ m with stealable := Bitmap.erase m.stealable victim },
        if Bitmap.mem m.stealable victim then .stealFront f start offset attempts victim
        else .stealCheck f start (offset + 1) attempts, [])
  | .stealFront f start offset attempts victim =>
      match luck, m.locals victim with
      | .fail, _ =>
          some (m, if stealAttempts ≤ attempts + 1 then f.missed
            else .stealCheck f start (offset + 1) (attempts + 1), [])
      | _, [] =>
          some (m, if stealAttempts ≤ attempts + 1 then f.missed
            else .stealCheck f start (offset + 1) (attempts + 1), [])
      | _, s :: rest =>
          some ({ m with locals := Function.update m.locals victim rest }, .stealMark f s victim, [])
  | .stealMark f s victim =>
      some ({ m with stealable := Bitmap.insert m.stealable victim }, .popDecrement f s, [])
  | .popDecrement f s => some ({ m with pending := m.pending - 1 }, f.found, [s])
  | .popOutside =>
      match m.injector with
      | s :: rest => some ({ m with injector := rest }, .popDecrement .plain s, [])
      | [] => some (m, .idle, [])
  | .findIncrement =>
      me.map fun (_ : Fin n) =>
        ({ m with searching := m.searching + 1 },
          if m.searching < maxSearchers n then .popSlot (.spin spinRounds) else .markIdle, [])
  | .spinQuit rounds =>
      if m.quit then some (m, .findLeave, [])
      else some (m, if rounds - 1 = 0 then .markIdle else .popSlot (.spin (rounds - 1)), [])
  | .findLeave => some ({ m with searching := m.searching - 1 }, .idle, [])
  | .markIdle => me.map fun (w : Fin n) => ({ m with idle := Bitmap.insert m.idle w }, .findDecrement, [])
  | .findDecrement => some ({ m with searching := m.searching - 1 }, .popSlot .final, [])
  | .finalQuit => some (m, if m.quit then .clearIdle else .parked, [])
  | .parked =>
      match me with
      | none => none
      | some w =>
          if m.token w then some ({ m with token := Function.update m.token w false }, .clearIdle, [])
          else if luck = .fail then some (m, .clearIdle, []) else none
  | .clearIdle => me.map fun (w : Fin n) => ({ m with idle := Bitmap.erase m.idle w }, .idle, [])
  | .loopQuit => some (m, if m.quit then .exiting else .idle, [])
  | .flushSlot =>
      me.map fun (w : Fin n) =>
        match m.slot w with
        | some s => ({ m with slot := Function.update m.slot w none }, .flushInjector s, [])
        | none => (m, .flushLocal, [])
  | .flushInjector s =>
      me.map fun (_ : Fin n) => ({ m with injector := m.injector ++ [s] }, .flushLocal, [])
  | .flushLocal =>
      me.map fun (w : Fin n) =>
        match (m.locals w).getLast? with
        | some s => ({ m with locals := Function.update m.locals w (m.locals w).dropLast },
            .flushInjector s, [])
        | none => (m, .flushClear, [])
  | .flushClear => me.map fun (w : Fin n) => ({ m with stealable := Bitmap.erase m.stealable w }, .left, [])
  | .quitStore => some ({ m with quit := true }, .quitWake 0, [])
  | .quitWake i =>
      if h : i < n then
        some ({ m with token := Function.update m.token ⟨i, h⟩ true }, .quitWake (i + 1), [])
      else some (m, .idle, [])

/-! ### The interleaving -/

def workerId : Fin n ⊕ ε → Option (Fin n)
  | .inl w => some w
  | .inr _ => none

/-- The scheduler with its threads.  `handed` and `popped` record what was handed to `push` and
returned by `pop`. -/
structure Config (n : ℕ) (σ ε : Type*) where
  mem : Sched n σ
  pc : Fin n ⊕ ε → Pc n σ
  handed : List σ
  popped : List σ

def Config.start (n : ℕ) (σ ε : Type*) : Config n σ ε where
  mem := Sched.new n σ
  pc := fun _ => .idle
  handed := []
  popped := []

inductive Op (σ : Type*) where
  | push (service : σ)
  | pop
  | find
  | loopTest
  | flush
  | setQuit

/-- The first program point of an operation, where it may be entered: workers search and leave
their loop, and a worker that leaves may push the service it still holds before it flushes. -/
def Op.entry (me : Option (Fin n)) : Op σ → Pc n σ → Option (Pc n σ)
  | .push s, .idle => some (.pushPending s .loop)
  | .push s, .exiting => some (.pushPending s .flush)
  | .pop, .idle => some (if me.isSome then .popSlot .plain else .popOutside)
  | .find, .idle => if me.isSome then some .findIncrement else none
  | .loopTest, .idle => if me.isSome then some .loopQuit else none
  | .flush, .exiting => some .flushSlot
  | .setQuit, .idle => some .quitStore
  | _, _ => none

def Op.hands : Op σ → List σ
  | .push s => [s]
  | _ => []

inductive Action (n : ℕ) (σ ε : Type*) where
  | enter (thread : Fin n ⊕ ε) (op : Op σ)
  | step (thread : Fin n ⊕ ε) (luck : Luck)

def act [DecidableEq ε] : Action n σ ε → Config n σ ε → Option (Config n σ ε)
  | .enter t op, c =>
      (op.entry (workerId t) (c.pc t)).map fun p =>
        { c with pc := Function.update c.pc t p, handed := c.handed ++ op.hands }
  | .step t luck, c =>
      (Scheduler.step (workerId t) luck c.mem (c.pc t)).map fun (m, p, out) =>
        { c with mem := m, pc := Function.update c.pc t p, popped := c.popped ++ out }

def Step [DecidableEq ε] (c c' : Config n σ ε) : Prop := ∃ a, act a c = some c'

def Reachable [DecidableEq ε] (c : Config n σ ε) : Prop :=
  Interleave.Reachable Step (Config.start n σ ε) c

end Rskynet.Scheduler
