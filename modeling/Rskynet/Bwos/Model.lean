import Rskynet.Lib.TaggedWord
import Rskynet.Lib.Threads
import Mathlib.Algebra.Order.Group.Nat
import Mathlib.Data.Multiset.Basic

/-!
# The block-based work-stealing queue, one atomic operation at a time

The local run queue of a worker is a ring of blocks. Its owner pushes and pops at the back
of the block it stands on; thieves take from the front of the blocks the owner has left
behind. Owner and thieves meet only at block boundaries, through the four boundary
operations `grant`, `takeover`, `reclaim` and `reduce_generation`.

Every load, store, swap, compare-and-swap, fetch-and-add and slot access is one step; a program
counter carries the thread's registers between steps.

Block words are 64-bit: the generation in the high 56 bits, the slot in the low 8. A failed check
of `next_sequence` or `previous_sequence` is `panicked`; reading a slot that was never written,
undefined in the source, is `undefinedRead`.
-/

namespace Rskynet.Bwos

open Option

/-! ### Constants, words and shapes -/

def slotBits : ℕ := 8

/-- `PREV_GEN_0`: the generation an unused block pretends to come from. -/
def prevGen0 : ℕ := 2 ^ 56 - 1

/-- `MAX_GENERATION`: the largest generation a block word can hold. -/
def maxGeneration : ℕ := 2 ^ 56 - 1

def word (generation slot : ℕ) : ℕ := TaggedWord.pack 64 slotBits generation slot

def slotOf (w : ℕ) : ℕ := TaggedWord.index slotBits w

def generationIn (w : ℕ) : ℕ := TaggedWord.tag slotBits w

/-- `(generation.wrapping_sub(1) << SLOT_BITS) | block_size`, the word `is_writable` waits for. -/
def writableWord (generation size : ℕ) : ℕ := TaggedWord.packPred 64 slotBits generation size

/-- The parameters that pass the assertions of `LifoQueue::new`. -/
structure Shape where
  numBlocks : ℕ
  blockSize : ℕ
  two_le : 2 ≤ numBlocks
  powerOfTwo : numBlocks.isPowerOfTwo
  size_pos : 0 < blockSize
  size_lt : blockSize < 2 ^ slotBits

def Shape.mask (q : Shape) : ℕ := q.numBlocks - 1

/-- `block_shift`: the trailing zeros of the block count, for a power of two its logarithm. -/
def Shape.blockShift (q : Shape) : ℕ := q.numBlocks.log2

def Shape.indexOf (q : Shape) (sequence : ℕ) : ℕ := sequence &&& q.mask

def Shape.generationOf (q : Shape) (sequence : ℕ) : ℕ := sequence >>> q.blockShift

/-- `next_sequence`: `none` is the fail-fast on an exhausted `u64` or generation. -/
def Shape.nextSequence (q : Shape) (sequence : ℕ) : Option ℕ :=
  if sequence + 1 < 2 ^ 64 ∧ q.generationOf (sequence + 1) ≤ maxGeneration then
    some (sequence + 1)
  else none

/-- `previous_sequence`: `none` is the fail-fast on stepping back over zero. -/
def previousSequence (sequence : ℕ) : Option ℕ :=
  if sequence = 0 then none else some (sequence - 1)

/-! ### Shared memory -/

/-- One block of the ring.  `ring` holds `none` where a slot was never written. -/
structure Block (α : Type*) where
  head : ℕ
  tail : ℕ
  stealCount : ℕ
  stealTail : ℕ
  ring : ℕ → Option α

def Block.new {α : Type*} (size : ℕ) : Block α where
  head := word prevGen0 size
  tail := size
  stealCount := size
  stealTail := word prevGen0 size
  ring := fun _ => none

def Block.reclaimed {α : Type*} (b : Block α) (generation size : ℕ) : Block α :=
  { b with head := word generation 0, tail := 0, stealTail := word generation size, stealCount := 0 }

/-- The shared part of `LifoQueue`. -/
structure Mem (α : Type*) where
  lastBlock : ℕ
  startBlock : ℕ
  blocks : ℕ → Block α

def Mem.setBlock {α : Type*} (m : Mem α) (i : ℕ) (b : Block α) : Mem α :=
  { m with blocks := Function.update m.blocks i b }

/-- `LifoQueue::new`: every block unused, block `0` reclaimed for generation `0`. -/
def Mem.new {α : Type*} (q : Shape) : Mem α where
  lastBlock := 0
  startBlock := 0
  blocks := fun i => if i = 0 then (Block.new q.blockSize).reclaimed 0 q.blockSize
    else Block.new q.blockSize

/-! ### The owner -/

/-- Where the owner stands inside `push_back` or `pop_back`, with its registers.  A pc names
the atomic operation that its next step performs. -/
inductive OwnerPc (α : Type*) where
  | idle
  | panicked
  | undefinedRead
  -- push_back and put
  | pushLoadLast (value : α)
  | putLoadTail (value : α) (owner : ℕ) (granted : Bool)
  | putWrite (value : α) (owner : ℕ) (granted : Bool) (back : ℕ)
  | putStoreTail (value : α) (owner : ℕ) (granted : Bool) (back : ℕ)
  -- advance_put_index, with grant and reclaim
  | putLoadWritable (value : α) (owner next : ℕ)
  | putLoadStart (value : α) (owner next : ℕ)
  | putStoreStart (value : α) (owner next start : ℕ)
  | grantLoad (value : α) (owner next : ℕ)
  | grantSwap (value : α) (owner next blockEnd : ℕ)
  | grantStore (value : α) (owner next oldHead : ℕ)
  | reclaimLoadHead (value : α) (next : ℕ)
  | reclaimSpin (value : α) (next expected : ℕ)
  | reclaimHead (value : α) (next : ℕ)
  | reclaimTail (value : α) (next : ℕ)
  | reclaimStealTail (value : α) (next : ℕ)
  | reclaimCount (value : α) (next : ℕ)
  | putStoreLast (value : α) (next : ℕ)
  -- pop_back and get
  | popLoadLast
  | getLoadTail (owner : ℕ)
  | getLoadHead (owner back : ℕ)
  | getRead (owner back : ℕ)
  | getStoreTail (owner back : ℕ) (value : α)
  -- advance_get_index, with reduce_generation and takeover
  | popLoadStart (owner : ℕ)
  | reduceLoad (owner predecessor : ℕ)
  | reduceStore (owner predecessor stealTail : ℕ)
  | takeoverLoad (predecessor : ℕ)
  | takeoverSwap (predecessor head : ℕ)
  | takeoverStore (predecessor spos : ℕ)
  | popStoreLast (predecessor : ℕ)

inductive Event (α ι : Type*) where
  | pushCall (value : α)
  | pushed (value : α) (granted : Bool)
  | full (value : α)
  | popCall
  | popped (value : α)
  | popNone
  | stealCall (thief : ι)
  | stole (thief : ι) (value : α)
  | stealNone (thief : ι)

variable {α ι : Type*}

/-- One atomic step of the owner; `none` when it is between operations or has stopped. -/
def ownerStep (q : Shape) (m : Mem α) : OwnerPc α → Option (Mem α × OwnerPc α × List (Event α ι))
  | .idle => none
  | .panicked => none
  | .undefinedRead => none
  | .pushLoadLast v => some (m, .putLoadTail v m.lastBlock false, [])
  | .putLoadTail v owner granted =>
      let back := (m.blocks (q.indexOf owner)).tail
      if back < q.blockSize then some (m, .putWrite v owner granted back, [])
      else
        -- the block is full: `advance_put_index` computes the next sequence before any load
        match q.nextSequence owner with
        | none => some (m, .panicked, [])
        | some next =>
            if q.indexOf next = q.indexOf owner then some (m, .idle, [.full v])
            else some (m, .putLoadWritable v owner next, [])
  | .putWrite v owner granted back =>
      let b := m.blocks (q.indexOf owner)
      some (m.setBlock (q.indexOf owner) { b with ring := Function.update b.ring back (some v) },
        .putStoreTail v owner granted back, [])
  | .putStoreTail v owner granted back =>
      let b := m.blocks (q.indexOf owner)
      some (m.setBlock (q.indexOf owner) { b with tail := back + 1 }, .idle, [.pushed v granted])
  | .putLoadWritable v owner next =>
      if (m.blocks (q.indexOf next)).stealTail = writableWord (q.generationOf next) q.blockSize then
        some (m, .putLoadStart v owner next, [])
      else some (m, .idle, [.full v])
  | .putLoadStart v owner next =>
      if q.indexOf next = q.indexOf m.startBlock then
        match q.nextSequence m.startBlock with
        | none => some (m, .panicked, [])
        | some start => some (m, .putStoreStart v owner next start, [])
      else some (m, .grantLoad v owner next, [])
  | .putStoreStart v owner next start =>
      some ({ m with startBlock := start }, .grantLoad v owner next, [])
  | .grantLoad v owner next =>
      some (m, .grantSwap v owner next (m.blocks (q.indexOf owner)).stealTail, [])
  | .grantSwap v owner next blockEnd =>
      let b := m.blocks (q.indexOf owner)
      some (m.setBlock (q.indexOf owner) { b with head := blockEnd },
        .grantStore v owner next b.head, [])
  | .grantStore v owner next oldHead =>
      let b := m.blocks (q.indexOf owner)
      some (m.setBlock (q.indexOf owner) { b with stealTail := oldHead },
        .reclaimLoadHead v next, [])
  | .reclaimLoadHead v next =>
      some (m, .reclaimSpin v next (slotOf (m.blocks (q.indexOf next)).head), [])
  | .reclaimSpin v next expected =>
      if (m.blocks (q.indexOf next)).stealCount = expected then some (m, .reclaimHead v next, [])
      else some (m, .reclaimSpin v next expected, [])
  | .reclaimHead v next =>
      let b := m.blocks (q.indexOf next)
      some (m.setBlock (q.indexOf next) { b with head := word (q.generationOf next) 0 },
        .reclaimTail v next, [])
  | .reclaimTail v next =>
      let b := m.blocks (q.indexOf next)
      some (m.setBlock (q.indexOf next) { b with tail := 0 }, .reclaimStealTail v next, [])
  | .reclaimStealTail v next =>
      let b := m.blocks (q.indexOf next)
      some (m.setBlock (q.indexOf next)
        { b with stealTail := word (q.generationOf next) q.blockSize }, .reclaimCount v next, [])
  | .reclaimCount v next =>
      let b := m.blocks (q.indexOf next)
      some (m.setBlock (q.indexOf next) { b with stealCount := 0 }, .putStoreLast v next, [])
  | .putStoreLast v next => some ({ m with lastBlock := next }, .putLoadTail v next true, [])
  | .popLoadLast => some (m, .getLoadTail m.lastBlock, [])
  | .getLoadTail owner =>
      let back := (m.blocks (q.indexOf owner)).tail
      if back = 0 then some (m, .popLoadStart owner, [])
      else some (m, .getLoadHead owner back, [])
  | .getLoadHead owner back =>
      if slotOf (m.blocks (q.indexOf owner)).head = back then some (m, .popLoadStart owner, [])
      else some (m, .getRead owner back, [])
  | .getRead owner back =>
      match (m.blocks (q.indexOf owner)).ring (back - 1) with
      | none => some (m, .undefinedRead, [])
      | some v => some (m, .getStoreTail owner back v, [])
  | .getStoreTail owner back v =>
      let b := m.blocks (q.indexOf owner)
      some (m.setBlock (q.indexOf owner) { b with tail := back - 1 }, .idle, [.popped v])
  | .popLoadStart owner =>
      if m.startBlock = owner then some (m, .idle, [.popNone])
      else
        match previousSequence owner with
        | none => some (m, .panicked, [])
        | some predecessor => some (m, .reduceLoad owner predecessor, [])
  | .reduceLoad owner predecessor =>
      some (m, .reduceStore owner predecessor (m.blocks (q.indexOf owner)).stealTail, [])
  | .reduceStore owner predecessor stealTail =>
      let b := m.blocks (q.indexOf owner)
      -- `wrapping_sub(1 << SLOT_BITS)`
      some (m.setBlock (q.indexOf owner)
        { b with stealTail := (stealTail + (2 ^ 64 - 2 ^ slotBits)) % 2 ^ 64 },
        .takeoverLoad predecessor, [])
  | .takeoverLoad predecessor =>
      some (m, .takeoverSwap predecessor (m.blocks (q.indexOf predecessor)).head, [])
  | .takeoverSwap predecessor head =>
      let b := m.blocks (q.indexOf predecessor)
      some (m.setBlock (q.indexOf predecessor) { b with stealTail := head },
        .takeoverStore predecessor b.stealTail, [])
  | .takeoverStore predecessor spos =>
      let b := m.blocks (q.indexOf predecessor)
      some (m.setBlock (q.indexOf predecessor) { b with head := spos },
        .popStoreLast predecessor, [])
  | .popStoreLast predecessor =>
      some ({ m with lastBlock := predecessor }, .getLoadTail predecessor, [])

/-! ### Thieves -/

/-- Where a thief stands inside `steal_front`, with its registers. -/
inductive ThiefPc (α : Type*) where
  | idle
  | panicked
  | undefinedRead
  | loadStart
  | loadStealTail (thief : ℕ)
  | loadTail (thief spos : ℕ)
  | cas (thief spos : ℕ)
  | read (block slot : ℕ)
  | count (block : ℕ) (value : α)
  | loadLast (thief : ℕ)

/-- One atomic step of thief `t`; `none` when it is between operations or has stopped. -/
def thiefStep (q : Shape) (t : ι) (m : Mem α) :
    ThiefPc α → Option (Mem α × ThiefPc α × List (Event α ι))
  | .idle => none
  | .panicked => none
  | .undefinedRead => none
  | .loadStart => some (m, .loadStealTail m.startBlock, [])
  | .loadStealTail thief =>
      let spos := (m.blocks (q.indexOf thief)).stealTail
      if generationIn spos ≠ q.generationOf thief then some (m, .idle, [.stealNone t])
      else if slotOf spos = q.blockSize then
        -- `Steal::Done`: `advance_steal_index` computes the next sequence before its load
        match q.nextSequence thief with
        | none => some (m, .panicked, [])
        | some next => some (m, .loadLast next, [])
      else some (m, .loadTail thief spos, [])
  | .loadTail thief spos =>
      if slotOf spos = (m.blocks (q.indexOf thief)).tail then some (m, .idle, [.stealNone t])
      else some (m, .cas thief spos, [])
  | .cas thief spos =>
      let b := m.blocks (q.indexOf thief)
      if b.stealTail = spos then
        some (m.setBlock (q.indexOf thief) { b with stealTail := spos + 1 },
          .read (q.indexOf thief) (slotOf spos), [])
      else some (m, .loadStealTail thief, [])
  | .read block slot =>
      match (m.blocks block).ring slot with
      | none => some (m, .undefinedRead, [])
      | some v => some (m, .count block v, [])
  | .count block v =>
      let b := m.blocks block
      some (m.setBlock block { b with stealCount := b.stealCount + 1 }, .idle, [.stole t v])
  | .loadLast thief =>
      if thief < m.lastBlock then some (m, .loadStealTail thief, [])
      else some (m, .idle, [.stealNone t])

/-! ### The interleaving -/

/-- The queue with its owner, its thieves and the history of calls and returns. -/
structure Config (α ι : Type*) where
  mem : Mem α
  owner : OwnerPc α
  thieves : ι → ThiefPc α
  log : List (Event α ι)

def Config.start (α ι : Type*) (q : Shape) : Config α ι where
  mem := Mem.new q
  owner := .idle
  thieves := fun _ => .idle
  log := []

/-- One step of the whole queue: a thread between operations enters one, or a thread inside an
operation performs its next atomic action. -/
inductive Step [DecidableEq ι] (q : Shape) : Config α ι → Config α ι → Prop where
  | pushCall (c : Config α ι) (v : α) (h : c.owner = .idle) :
      Step q c { c with owner := .pushLoadLast v, log := c.log ++ [.pushCall v] }
  | popCall (c : Config α ι) (h : c.owner = .idle) :
      Step q c { c with owner := .popLoadLast, log := c.log ++ [.popCall] }
  | owner (c : Config α ι) (m : Mem α) (pc : OwnerPc α) (evs : List (Event α ι))
      (h : ownerStep q c.mem c.owner = some (m, pc, evs)) :
      Step q c { c with mem := m, owner := pc, log := c.log ++ evs }
  | stealCall (c : Config α ι) (t : ι) (h : c.thieves t = .idle) :
      Step q c { c with thieves := Function.update c.thieves t .loadStart,
                        log := c.log ++ [.stealCall t] }
  | thief (c : Config α ι) (t : ι) (m : Mem α) (pc : ThiefPc α) (evs : List (Event α ι))
      (h : thiefStep q t c.mem (c.thieves t) = some (m, pc, evs)) :
      Step q c { c with mem := m, thieves := Function.update c.thieves t pc,
                        log := c.log ++ evs }

inductive Action (α ι : Type*) where
  | push (value : α)
  | pop
  | owner
  | steal (thief : ι)
  | thief (thief : ι)

def act [DecidableEq ι] (q : Shape) : Action α ι → Config α ι → Option (Config α ι)
  | .push v, c =>
      match c.owner with
      | .idle => some { c with owner := .pushLoadLast v, log := c.log ++ [.pushCall v] }
      | _ => none
  | .pop, c =>
      match c.owner with
      | .idle => some { c with owner := .popLoadLast, log := c.log ++ [.popCall] }
      | _ => none
  | .owner, c =>
      (ownerStep q c.mem c.owner).map fun (m, pc, evs) =>
        { c with mem := m, owner := pc, log := c.log ++ evs }
  | .steal t, c =>
      match c.thieves t with
      | .idle => some { c with thieves := Function.update c.thieves t .loadStart,
                               log := c.log ++ [.stealCall t] }
      | _ => none
  | .thief t, c =>
      (thiefStep q t c.mem (c.thieves t)).map fun (m, pc, evs) =>
        { c with mem := m, thieves := Function.update c.thieves t pc, log := c.log ++ evs }

theorem act_step [DecidableEq ι] {q : Shape} (a : Action α ι) (c c' : Config α ι)
    (h : act q a c = some c') : Step q c c' := by
  cases a with
  | push v =>
    simp only [act] at h
    split at h
    · next hidle => exact some.inj h ▸ Step.pushCall c v hidle
    · cases h
  | pop =>
    simp only [act] at h
    split at h
    · next hidle => exact some.inj h ▸ Step.popCall c hidle
    · cases h
  | owner =>
    obtain ⟨⟨m, pc, evs⟩, hs, rfl⟩ := map_eq_some_iff.mp h
    exact Step.owner c m pc evs hs
  | steal t =>
    simp only [act] at h
    split at h
    · next hidle => exact some.inj h ▸ Step.stealCall c t hidle
    · cases h
  | thief t =>
    obtain ⟨⟨m, pc, evs⟩, hs, rfl⟩ := map_eq_some_iff.mp h
    exact Step.thief c t m pc evs hs

def Reachable [DecidableEq ι] (q : Shape) (c : Config α ι) : Prop :=
  Interleave.Reachable (Step q) (Config.start α ι q) c

end Rskynet.Bwos
