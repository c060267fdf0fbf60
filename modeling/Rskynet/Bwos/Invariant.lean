import Rskynet.Bwos.Contents

/-!
# The invariant of the queue

The invariant ties the layout of the ring to the owner's program counter and the balance of
values to both. It has two parameters that the code does not store: the sequence `L` of the
block the owner works on (the code's `last_block` lags behind it inside `advance_put_index`
and `advance_get_index`) and the boundary function `lo`.

* `Inv.firstLive_eq` — **PROVED**: the state shows the boundary;
* `Inv.total_live` — **PROVED**: the balance of values, in the state's own terms.
-/

namespace Rskynet.Bwos

variable {α ι : Type*} {q : Shape}

/-- The state of block `L` while the owner is at a program point. -/
def OwnerPc.kind : OwnerPc α → Kind
  | .grantStore .. => .passing
  | .reclaimLoadHead .. => .free
  | .reclaimSpin .. => .free
  | .reclaimHead .. => .drained
  | .reclaimTail .. => .resetHead
  | .reclaimStealTail .. => .resetTail
  | .reclaimCount .. => .resetSteal
  | .takeoverLoad .. => .granted
  | .takeoverSwap .. => .granted
  | .takeoverStore .. => .passing
  | _ => .owned

/-- What the owner's registers know about memory at each program point. -/
def Regs (q : Shape) (m : Mem α) (lo : ℕ → ℕ) (L : ℕ) : OwnerPc α → Prop
  | .idle => m.lastBlock = L
  | .panicked => m.lastBlock = L
  | .undefinedRead => False
  | .pushLoadLast _ => m.lastBlock = L
  | .putLoadTail _ owner _ => owner = L ∧ m.lastBlock = L
  | .putWrite _ owner _ back => owner = L ∧ m.lastBlock = L ∧
      back = (m.blocks (q.indexOf L)).tail ∧ back < q.blockSize
  | .putStoreTail v owner _ back => owner = L ∧ m.lastBlock = L ∧
      back = (m.blocks (q.indexOf L)).tail ∧ back < q.blockSize ∧
      (m.blocks (q.indexOf L)).ring back = some v
  | .putLoadWritable _ owner next => owner = L ∧ m.lastBlock = L ∧ next = L + 1 ∧
      q.generationOf next ≤ maxGeneration ∧ (m.blocks (q.indexOf L)).tail = q.blockSize
  | .putLoadStart _ owner next => owner = L ∧ m.lastBlock = L ∧ next = L + 1 ∧
      q.generationOf next ≤ maxGeneration ∧ (m.blocks (q.indexOf L)).tail = q.blockSize ∧
      (next = m.startBlock + q.numBlocks → lo (q.indexOf m.startBlock) = q.blockSize)
  | .putStoreStart _ owner next start => owner = L ∧ m.lastBlock = L ∧ next = L + 1 ∧
      q.generationOf next ≤ maxGeneration ∧ (m.blocks (q.indexOf L)).tail = q.blockSize ∧
      next = m.startBlock + q.numBlocks ∧ lo (q.indexOf m.startBlock) = q.blockSize ∧
      start = m.startBlock + 1
  | .grantLoad _ owner next => owner = L ∧ m.lastBlock = L ∧ next = L + 1 ∧
      q.generationOf next ≤ maxGeneration ∧ (m.blocks (q.indexOf L)).tail = q.blockSize ∧
      next < m.startBlock + q.numBlocks
  | .grantSwap _ owner next blockEnd => owner = L ∧ m.lastBlock = L ∧ next = L + 1 ∧
      q.generationOf next ≤ maxGeneration ∧ (m.blocks (q.indexOf L)).tail = q.blockSize ∧
      next < m.startBlock + q.numBlocks ∧ blockEnd = word (q.generationOf L) q.blockSize
  | .grantStore _ owner next oldHead => owner = L ∧ m.lastBlock = L ∧ next = L + 1 ∧
      q.generationOf next ≤ maxGeneration ∧ next < m.startBlock + q.numBlocks ∧
      oldHead = word (q.generationOf L) (lo (q.indexOf L))
  | .reclaimLoadHead _ next => next = L ∧ m.lastBlock + 1 = L
  | .reclaimSpin _ next expected => next = L ∧ m.lastBlock + 1 = L ∧ expected = lo (q.indexOf L)
  | .reclaimHead _ next => next = L ∧ m.lastBlock + 1 = L
  | .reclaimTail _ next => next = L ∧ m.lastBlock + 1 = L
  | .reclaimStealTail _ next => next = L ∧ m.lastBlock + 1 = L
  | .reclaimCount _ next => next = L ∧ m.lastBlock + 1 = L
  | .putStoreLast _ next => next = L ∧ m.lastBlock + 1 = L
  | .popLoadLast => m.lastBlock = L
  | .getLoadTail owner => owner = L ∧ m.lastBlock = L
  | .getLoadHead owner back => owner = L ∧ m.lastBlock = L ∧
      back = (m.blocks (q.indexOf L)).tail
  | .getRead owner back => owner = L ∧ m.lastBlock = L ∧
      back = (m.blocks (q.indexOf L)).tail ∧ lo (q.indexOf L) < back
  | .getStoreTail owner back v => owner = L ∧ m.lastBlock = L ∧
      back = (m.blocks (q.indexOf L)).tail ∧ lo (q.indexOf L) < back ∧
      (m.blocks (q.indexOf L)).ring (back - 1) = some v
  | .popLoadStart owner => owner = L ∧ m.lastBlock = L ∧
      (m.blocks (q.indexOf L)).tail = lo (q.indexOf L)
  | .reduceLoad owner predecessor => owner = L ∧ m.lastBlock = L ∧
      (m.blocks (q.indexOf L)).tail = lo (q.indexOf L) ∧ predecessor + 1 = L ∧
      m.startBlock ≤ predecessor
  | .reduceStore owner predecessor stealTail => owner = L ∧ m.lastBlock = L ∧
      (m.blocks (q.indexOf L)).tail = lo (q.indexOf L) ∧ predecessor + 1 = L ∧
      m.startBlock ≤ predecessor ∧ stealTail = word (q.generationOf L) q.blockSize
  | .takeoverLoad predecessor => predecessor = L ∧ m.lastBlock = L + 1
  | .takeoverSwap predecessor head => predecessor = L ∧ m.lastBlock = L + 1 ∧
      head = word (q.generationOf L) q.blockSize
  | .takeoverStore predecessor spos => predecessor = L ∧ m.lastBlock = L + 1 ∧
      spos = word (q.generationOf L) (lo (q.indexOf L))
  | .popStoreLast predecessor => predecessor = L ∧ m.lastBlock = L + 1

def ThiefPc.inFlightOn (i : ℕ) : ThiefPc α → Bool
  | .read block _ => block == i
  | .count block _ => block == i
  | _ => false

def inFlight [Fintype ι] (thieves : ι → ThiefPc α) (i : ℕ) : ℕ :=
  Interleave.tally thieves (ThiefPc.inFlightOn i)

structure Inv [Fintype ι] (q : Shape) (c : Config α ι) (L : ℕ) (lo : ℕ → ℕ) : Prop where
  layout : Layout q c.mem (inFlight c.thieves) L lo c.owner.kind
  regs : Regs q c.mem lo L c.owner
  accounts : Accounts q c lo

namespace Inv

variable [Fintype ι] {c : Config α ι} {L : ℕ} {lo : ℕ → ℕ}

/-! ### Shapes of owner steps -/

theorem stay {now pc : OwnerPc α} (h : Inv q { c with owner := now } L lo) {evs : List (Event α ι)}
    (hkind : pc.kind.Holds q (c.mem.blocks (q.indexOf L)) (q.generationOf L) (lo (q.indexOf L))
      (inFlight c.thieves (q.indexOf L)))
    (hregs : Regs q c.mem lo L pc) (hacc : accepted evs = 0) (hret : returned evs = 0) :
    ∃ L' lo', Inv q { c with owner := pc, log := c.log ++ evs } L' lo' := by
  refine ⟨L, lo, h.layout.weaken hkind, hregs,
    h.accounts.congr (fun _ _ _ => rfl) (fun _ => rfl) rfl ?_ ?_⟩
  · exact accepted_append_zero hacc
  · exact returned_append_zero hret

theorem rewrite {now pc : OwnerPc α} (h : Inv q { c with owner := now } L lo) {b : Block α}
    (hring : b.ring = (c.mem.blocks (q.indexOf L)).ring)
    (htail : b.tail = (c.mem.blocks (q.indexOf L)).tail)
    (hkind : pc.kind.Holds q b (q.generationOf L) (lo (q.indexOf L))
      (inFlight c.thieves (q.indexOf L)))
    (hregs : Regs q (c.mem.setBlock (q.indexOf L) b) lo L pc) :
    ∃ L' lo', Inv q { c with
      mem := c.mem.setBlock (q.indexOf L) b, owner := pc, log := c.log ++ [] } L' lo' := by
  rw [List.append_nil]
  exact ⟨L, lo, h.layout.rewriteCurrent pc.kind hkind, hregs,
    h.accounts.rewriteBlock hring htail⟩

/-! ### Reading the boundary off the state -/

/-- Outside a handover the smaller boundary index of a block is its first live slot. -/
theorem rest_boundary (h : Inv q c L lo) {i : ℕ} (hi : i < q.numBlocks)
    (hrest : i = q.indexOf L → c.owner.kind ≠ .passing ∧ c.owner.kind ≠ .resetHead) :
    min (slotOf (c.mem.blocks i).head) (slotOf (c.mem.blocks i).stealTail) = lo i := by
  obtain ⟨s, κ', -, hκ, hg, hg', hcur, hother⟩ := h.layout.kind_at hi
  by_cases hidx : i = q.indexOf L
  · obtain rfl := hcur hidx
    exact hκ.boundary hg hg' (hrest hidx).1 (hrest hidx).2
  · rcases hother hidx with rfl | rfl
    · exact hκ.boundary hg hg' (by simp) (by simp)
    · exact hκ.boundary hg hg' (by simp) (by simp)

/-- **The state shows the boundary.**  The first live slot computed from the block words and
the owner's registers is the boundary of the invariant. -/
theorem firstLive_eq (h : Inv q c L lo) {i : ℕ} (hi : i < q.numBlocks) :
    firstLive q c i = lo i := by
  have hsize := q.size_lt
  have hlo : lo (q.indexOf L) ≤ q.blockSize :=
    le_trans h.layout.current.lo_le_tail h.layout.current.tail_le
  have hword : slotOf (word (q.generationOf L) (lo (q.indexOf L))) = lo (q.indexOf L) :=
    slotOf_word h.layout.generation_le (by omega)
  have hr := h.regs
  have hc := h.layout.current
  unfold firstLive
  cases hpc : c.owner with
  | grantStore v owner next oldHead =>
    rw [hpc] at hr
    obtain ⟨rfl, -, -, -, -, rfl⟩ := hr
    dsimp only
    split
    · next hidx => exact hidx ▸ hword
    · next hidx => exact h.rest_boundary hi fun he => absurd he.symm hidx
  | takeoverStore predecessor spos =>
    rw [hpc] at hr
    obtain ⟨rfl, -, rfl⟩ := hr
    dsimp only
    split
    · next hidx => exact hidx ▸ hword
    · next hidx => exact h.rest_boundary hi fun he => absurd he.symm hidx
  | reclaimTail v next =>
    rw [hpc] at hr hc
    obtain ⟨rfl, -⟩ := hr
    dsimp only
    split
    · next hidx => exact hidx ▸ hc.2.2.2.1
    · next hidx => exact h.rest_boundary hi fun he => absurd he.symm hidx
  | _ => exact h.rest_boundary hi fun _ => by simp [hpc, OwnerPc.kind]

theorem total_live (h : Inv q c L lo) :
    accepted c.log = returned c.log + claimed c + live q c := by
  rw [h.accounts.total]
  congr 1
  refine Finset.sum_congr rfl ?_
  intro i hi
  rw [h.firstLive_eq (Finset.mem_range.mp hi)]

theorem returned_le (h : Inv q c L lo) : returned c.log ≤ accepted c.log := by
  rw [h.total_live, add_assoc]
  exact Multiset.le_add_right _ _

end Inv

end Rskynet.Bwos
