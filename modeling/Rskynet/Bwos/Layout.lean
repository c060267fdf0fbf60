import Rskynet.Bwos.Words

/-!
# The layout of the block ring

At every moment the window of `numBlocks` sequences that starts at `start_block` is laid out
in three parts around the sequence `L` of the block the owner works on: the blocks before `L`
are *granted* to thieves, block `L` is in a state that depends on the owner's program counter,
and the blocks after `L` are *free* for the generation they will be used in next.

The generation in a block word and the reuse rule of `is_writable` enter only here.

* `Layout.cas` — **PROVED**: a successful compare-and-swap takes the first live slot of a granted
  block.
-/

namespace Rskynet.Bwos

open Function (update update_eq_self update_of_ne update_self)

variable {i : ℕ}

variable {α : Type*} {q : Shape}
variable {b : Block α}

/-! ### Block states -/

/-- The states of a block: the owner's current block, a block handed to thieves, a block free
for reuse, a block whose boundary is in the owner's register during `grant` or `takeover`, and
the stages of `reclaim` after its wait. -/
inductive Kind where
  | owned
  | granted
  | passing
  | free
  | drained
  | resetHead
  | resetTail
  | resetSteal
  deriving DecidableEq

/-- Block `b` is in the given state for generation `g`, with live slots from `lo` on and `k`
thieves in flight. -/
def Kind.Holds (q : Shape) (b : Block α) (g lo k : ℕ) : Kind → Prop
  | .owned => b.head = word g lo ∧ b.stealTail = word g q.blockSize ∧ lo ≤ b.tail ∧
      b.tail ≤ q.blockSize ∧ b.stealCount + k = lo
  | .granted => b.head = word g q.blockSize ∧ b.stealTail = word g lo ∧ lo ≤ q.blockSize ∧
      b.tail = q.blockSize ∧ b.stealCount + k = lo
  | .passing => b.head = word g q.blockSize ∧ b.stealTail = word g q.blockSize ∧
      lo ≤ q.blockSize ∧ b.tail = q.blockSize ∧ b.stealCount + k = lo
  | .free => slotOf b.head = lo ∧ b.stealTail = writableWord g q.blockSize ∧
      lo ≤ q.blockSize ∧ b.tail = lo ∧ b.stealCount + k = lo
  | .drained => slotOf b.head = lo ∧ b.stealTail = writableWord g q.blockSize ∧
      lo ≤ q.blockSize ∧ b.tail = lo ∧ k = 0
  | .resetHead => b.head = word g 0 ∧ b.stealTail = writableWord g q.blockSize ∧
      lo ≤ q.blockSize ∧ b.tail = lo ∧ k = 0
  | .resetTail => b.head = word g 0 ∧ b.stealTail = writableWord g q.blockSize ∧
      lo = 0 ∧ b.tail = 0 ∧ k = 0
  | .resetSteal => b.head = word g 0 ∧ b.stealTail = word g q.blockSize ∧
      lo = 0 ∧ b.tail = 0 ∧ k = 0

theorem Kind.Holds.lo_le_tail {g lo k : ℕ} {κ : Kind} (h : κ.Holds q b g lo k) :
    lo ≤ b.tail := by
  cases κ <;> simp only [Kind.Holds] at h <;> omega

theorem Kind.Holds.tail_le {g lo k : ℕ} {κ : Kind} (h : κ.Holds q b g lo k) :
    b.tail ≤ q.blockSize := by
  cases κ <;> simp only [Kind.Holds] at h <;> omega

theorem Kind.Holds.slotOf_stealTail {g lo k : ℕ} {κ : Kind} (h : κ.Holds q b g lo k)
    (hκ : κ ≠ .granted) (hg : g ≤ maxGeneration + 1) (hg' : κ ≠ .free → g ≤ maxGeneration) :
    slotOf b.stealTail = q.blockSize := by
  cases κ with
  | granted => exact absurd rfl hκ
  | free | drained | resetHead | resetTail => rw [h.2.1]; exact slotOf_writableWord q.size_lt hg
  | owned | passing | resetSteal => rw [h.2.1]; exact slotOf_word (hg' (by simp)) q.size_lt

theorem Kind.Holds.boundary {g lo k : ℕ} {κ : Kind} (h : κ.Holds q b g lo k)
    (hg : g ≤ maxGeneration + 1) (hg' : κ ≠ .free → g ≤ maxGeneration) (hpass : κ ≠ .passing)
    (hreset : κ ≠ .resetHead) :
    min (slotOf b.head) (slotOf b.stealTail) = lo := by
  have hsize := q.size_lt
  have hle : lo ≤ q.blockSize := le_trans h.lo_le_tail h.tail_le
  by_cases hκ : κ = .granted
  · subst hκ
    have hgen := hg' (by simp)
    rw [h.1, h.2.1, slotOf_word hgen hsize, slotOf_word hgen (by omega), min_eq_right hle]
  · have hhead : slotOf b.head = lo := by
      cases κ with
      | granted => exact absurd rfl hκ
      | passing => exact absurd rfl hpass
      | resetHead => exact absurd rfl hreset
      | free | drained => exact h.1
      | owned => rw [h.1]; exact slotOf_word (hg' (by simp)) (by omega)
      | resetTail | resetSteal => rw [h.1, h.2.2.1]; exact slotOf_word (hg' (by simp)) (by decide)
    rw [hhead, h.slotOf_stealTail hκ hg hg', min_eq_left hle]

/-! ### The layout -/

/-- The window of the ring, laid out around the owner's sequence `L`, whose block is in state
`κ`.  `k i` thieves are in flight on block `i`, and `lo i` is its first live slot. -/
structure Layout (q : Shape) (m : Mem α) (k : ℕ → ℕ) (L : ℕ) (lo : ℕ → ℕ) (κ : Kind) : Prop where
  start_le : m.startBlock ≤ L
  lt_end : L < m.startBlock + q.numBlocks
  generation_le : q.generationOf L ≤ maxGeneration
  granted : ∀ s, m.startBlock ≤ s → s < L → Kind.granted.Holds q (m.blocks (q.indexOf s))
    (q.generationOf s) (lo (q.indexOf s)) (k (q.indexOf s))
  current : κ.Holds q (m.blocks (q.indexOf L)) (q.generationOf L) (lo (q.indexOf L))
    (k (q.indexOf L))
  free : ∀ s, L < s → s < m.startBlock + q.numBlocks → Kind.free.Holds q (m.blocks (q.indexOf s))
    (q.generationOf s) (lo (q.indexOf s)) (k (q.indexOf s))

namespace Layout

variable {m : Mem α} {k lo : ℕ → ℕ} {L : ℕ} {κ : Kind}

theorem setBlock_blocks (m : Mem α) (i : ℕ) (b : Block α) :
    (m.setBlock i b).blocks = update m.blocks i b := rfl

theorem generation_le_succ (h : Layout q m k L lo κ) {s : ℕ}
    (hs : s < m.startBlock + q.numBlocks) : q.generationOf s ≤ maxGeneration + 1 := by
  have h1 : q.generationOf s ≤ q.generationOf (L + q.numBlocks) :=
    q.generationOf_mono (by have := h.start_le; omega)
  rw [q.generationOf_add] at h1
  have := h.generation_le
  omega

theorem kind_at (h : Layout q m k L lo κ) (hi : i < q.numBlocks) :
    ∃ s κ', q.indexOf s = i ∧ κ'.Holds q (m.blocks i) (q.generationOf s) (lo i) (k i) ∧
      q.generationOf s ≤ maxGeneration + 1 ∧ (κ' ≠ .free → q.generationOf s ≤ maxGeneration) ∧
      (i = q.indexOf L → κ' = κ) ∧ (i ≠ q.indexOf L → κ' = .granted ∨ κ' = .free) := by
  obtain ⟨s, hs, hs', rfl⟩ := q.exists_indexOf m.startBlock hi
  have hL := h.start_le
  have hL' := h.lt_end
  rcases lt_trichotomy s L with hlt | rfl | hgt
  · refine ⟨s, .granted, rfl, h.granted s hs hlt, h.generation_le_succ hs', ?_, ?_, ?_⟩
    · intro _
      exact le_trans (q.generationOf_mono hlt.le) h.generation_le
    · intro hidx
      exact absurd (q.indexOf_inj hs hs' hL hL' hidx) (by omega)
    · intro _
      exact .inl rfl
  · exact ⟨s, κ, rfl, h.current, h.generation_le_succ hs', fun _ => h.generation_le,
      fun _ => rfl, fun hne => absurd rfl hne⟩
  · refine ⟨s, .free, rfl, h.free s hgt hs', h.generation_le_succ hs', ?_, ?_, ?_⟩
    · intro hne
      exact absurd rfl hne
    · intro hidx
      exact absurd (q.indexOf_inj hs hs' hL hL' hidx) (by omega)
    · intro _
      exact .inr rfl

theorem tail_le (h : Layout q m k L lo κ) (hi : i < q.numBlocks) :
    (m.blocks i).tail ≤ q.blockSize := by
  obtain ⟨s, κ', -, hκ, -⟩ := h.kind_at hi
  exact hκ.tail_le

/-! ### Moves of the owner -/

theorem setCurrent (h : Layout q m k L lo κ) (κ' : Kind) {l : ℕ}
    (hb : κ'.Holds q b (q.generationOf L) l (k (q.indexOf L))) :
    Layout q (m.setBlock (q.indexOf L) b) k L (update lo (q.indexOf L) l) κ' := by
  have hL := h.start_le
  have hL' := h.lt_end
  have hne : ∀ s, m.startBlock ≤ s → s < m.startBlock + q.numBlocks → s ≠ L →
      q.indexOf s ≠ q.indexOf L := by
    intro s hs hs' hsL hidx
    exact hsL (q.indexOf_inj hs hs' hL hL' hidx)
  refine ⟨hL, hL', h.generation_le, ?_, ?_, ?_⟩
  · intro s hs hsL
    have hsL' : m.startBlock ≤ s := hs
    have := hne s hs (by omega) (by omega)
    rw [setBlock_blocks, update_of_ne this, update_of_ne this]
    exact h.granted s hs hsL
  · rw [setBlock_blocks, update_self, update_self]
    exact hb
  · intro s hsL hs'
    have hs'' : s < m.startBlock + q.numBlocks := hs'
    have := hne s (by omega) hs' (by omega)
    rw [setBlock_blocks, update_of_ne this, update_of_ne this]
    exact h.free s hsL hs'

theorem rewriteCurrent (h : Layout q m k L lo κ) (κ' : Kind)
    (hb : κ'.Holds q b (q.generationOf L) (lo (q.indexOf L)) (k (q.indexOf L))) :
    Layout q (m.setBlock (q.indexOf L) b) k L lo κ' := by
  have hl := h.setCurrent κ' hb
  rwa [update_eq_self] at hl

theorem weaken (h : Layout q m k L lo κ) {κ' : Kind}
    (hb : κ'.Holds q (m.blocks (q.indexOf L)) (q.generationOf L) (lo (q.indexOf L))
      (k (q.indexOf L))) : Layout q m k L lo κ' :=
  ⟨h.start_le, h.lt_end, h.generation_le, h.granted, hb, h.free⟩

theorem forward (h : Layout q m k L lo .granted) (hlt : L + 1 < m.startBlock + q.numBlocks)
    (hgen : q.generationOf (L + 1) ≤ maxGeneration) : Layout q m k (L + 1) lo .free := by
  refine ⟨by have := h.start_le; omega, hlt, hgen, ?_, h.free (L + 1) (by omega) hlt, ?_⟩
  · intro s hs hsL
    rcases Nat.lt_succ_iff_lt_or_eq.mp hsL with hlt' | rfl
    · exact h.granted s hs hlt'
    · exact h.current
  · intro s hsL hs'
    exact h.free s (by omega) hs'

theorem back (h : Layout q m k (L + 1) lo .free) (hle : m.startBlock ≤ L) :
    Layout q m k L lo .granted := by
  refine ⟨hle, by have := h.lt_end; omega,
    le_trans (q.generationOf_mono (Nat.le_succ L)) h.generation_le, ?_,
    h.granted L hle (by omega), ?_⟩
  · intro s hs hsL
    exact h.granted s hs (by omega)
  · intro s hsL hs'
    rcases Nat.lt_or_eq_of_le (Nat.succ_le_of_lt hsL) with hlt | heq
    · exact h.free s hlt hs'
    · subst heq
      exact h.current

/-- The window moves on by one once its first block is exhausted: that block is free for the
sequence one round later. -/
theorem advanceStart (h : Layout q m k L lo κ) (hfull : L + 1 = m.startBlock + q.numBlocks)
    (hex : lo (q.indexOf m.startBlock) = q.blockSize) :
    Layout q { m with startBlock := m.startBlock + 1 } k L lo κ := by
  have htwo := q.two_le
  have hSL : m.startBlock < L := by omega
  refine ⟨hSL, by show L < m.startBlock + 1 + q.numBlocks; omega, h.generation_le, ?_, h.current, ?_⟩
  · intro s hs hsL
    exact h.granted s (by have : m.startBlock + 1 ≤ s := hs; omega) hsL
  · intro s hsL hs'
    have hs'' : s < m.startBlock + 1 + q.numBlocks := hs'
    have hs : s = m.startBlock + q.numBlocks := by omega
    obtain ⟨h1, h2, h3, h4, h5⟩ := h.granted m.startBlock le_rfl hSL
    have hg : q.generationOf m.startBlock ≤ maxGeneration :=
      le_trans (q.generationOf_mono hSL.le) h.generation_le
    subst hs
    rw [q.indexOf_add, q.generationOf_add]
    refine ⟨?_, ?_, h3, ?_, h5⟩
    · rw [h1, hex]
      exact slotOf_word hg q.size_lt
    · rw [h2, hex, writableWord_succ hg]
    · rw [h4, hex]

theorem setLast (h : Layout q m k L lo κ) (s : ℕ) :
    Layout q { m with lastBlock := s } k L lo κ :=
  ⟨h.start_le, h.lt_end, h.generation_le, h.granted, h.current, h.free⟩

/-! ### Moves of a thief -/

theorem modify (h : Layout q m k L lo κ) {l n : ℕ}
    (hmap : ∀ (κ' : Kind) (g : ℕ), g ≤ maxGeneration + 1 → (κ' ≠ .free → g ≤ maxGeneration) →
      κ'.Holds q (m.blocks i) g (lo i) (k i) → κ'.Holds q b g l n) :
    Layout q (m.setBlock i b) (update k i n) L (update lo i l) κ := by
  have key : ∀ (κ' : Kind) (s : ℕ), q.generationOf s ≤ maxGeneration + 1 →
      (κ' ≠ .free → q.generationOf s ≤ maxGeneration) →
      κ'.Holds q (m.blocks (q.indexOf s)) (q.generationOf s) (lo (q.indexOf s)) (k (q.indexOf s)) →
      κ'.Holds q ((m.setBlock i b).blocks (q.indexOf s)) (q.generationOf s)
        (update lo i l (q.indexOf s)) (update k i n (q.indexOf s)) := by
    intro κ' s hg hg' hs
    rw [setBlock_blocks]
    by_cases hi : q.indexOf s = i
    · subst hi
      simp only [update_self]
      exact hmap κ' _ hg hg' hs
    · simp only [update_of_ne hi]
      exact hs
  have hL := h.start_le
  have hL' := h.lt_end
  refine ⟨hL, hL', h.generation_le, ?_, ?_, ?_⟩
  · intro s hs hsL
    refine key _ _ (h.generation_le_succ (by omega)) ?_ (h.granted s hs hsL)
    intro _
    exact le_trans (q.generationOf_mono hsL.le) h.generation_le
  · exact key _ _ (h.generation_le_succ hL') (fun _ => h.generation_le) h.current
  · intro s hsL hs'
    exact key _ _ (h.generation_le_succ hs') (fun hne => absurd rfl hne) (h.free s hsL hs')

/-- **A successful compare-and-swap takes the first live slot of a granted block.**  Whatever
old value the thief brings, a slot below the block size is only ever shown by a granted block,
and there it is the boundary. -/
theorem cas (h : Layout q m k L lo κ) {spos : ℕ} (hi : i < q.numBlocks)
    (hst : (m.blocks i).stealTail = spos) (hslot : slotOf spos ≠ q.blockSize) :
    slotOf spos = lo i ∧ lo i < (m.blocks i).tail ∧ (i = q.indexOf L → κ = .granted) ∧
      Layout q (m.setBlock i { m.blocks i with stealTail := spos + 1 })
        (update k i (k i + 1)) L (update lo i (lo i + 1)) κ := by
  obtain ⟨s, κ', -, hκ, hg, hg', hcur, -⟩ := h.kind_at hi
  have hgr : κ' = .granted := by
    by_contra hne
    exact hslot (hst ▸ hκ.slotOf_stealTail hne hg hg')
  subst hgr
  have hmax := hg' (by simp)
  obtain ⟨h1, h2, h3, h4, h5⟩ := hκ
  have hsize := q.size_lt
  have hspos : slotOf spos = lo i := by
    rw [← hst, h2]
    exact slotOf_word hmax (by omega)
  have hlt : lo i < q.blockSize := by omega
  refine ⟨hspos, by omega, fun hidx => (hcur hidx).symm, h.modify ?_⟩
  intro κ'' g hgg hgg' hκ''
  have hgr' : κ'' = .granted := by
    by_contra hne
    exact hslot (hst ▸ hκ''.slotOf_stealTail hne hgg hgg')
  subst hgr'
  obtain ⟨e1, e2, e3, e4, e5⟩ := hκ''
  refine ⟨e1, ?_, by omega, e4, ?_⟩
  · rw [← hst, e2]
    exact word_succ (hgg' (by simp)) (by omega)
  · show (m.blocks i).stealCount + (k i + 1) = lo i + 1
    omega

theorem count (h : Layout q m k L lo κ) (hk : 0 < k i) :
    Layout q (m.setBlock i { m.blocks i with stealCount := (m.blocks i).stealCount + 1 })
      (update k i (k i - 1)) L lo κ := by
  have hm := h.modify (i := i) (l := lo i) (n := k i - 1)
    (b := { m.blocks i with stealCount := (m.blocks i).stealCount + 1 }) (by
      intro κ' g _ _ hκ
      cases κ' <;> simp only [Kind.Holds] at hκ ⊢ <;> grind)
  rwa [update_eq_self] at hm

end Layout

theorem Layout.new (q : Shape) :
    Layout q (Mem.new (α := α) q) (fun _ => 0) 0
      (fun i => if i = 0 then 0 else q.blockSize) .owned := by
  have hz : q.indexOf 0 = 0 := by rw [q.indexOf_eq, Nat.zero_mod]
  refine ⟨le_rfl, ?_, ?_, ?_, ?_, ?_⟩
  · have := q.numBlocks_pos
    omega
  · rw [q.generationOf_eq, Nat.zero_div]
    exact Nat.zero_le _
  · intro s _ hs
    omega
  · rw [hz, q.generationOf_eq, Nat.zero_div]
    exact ⟨rfl, rfl, Nat.zero_le _, Nat.zero_le _, rfl⟩
  · intro s hs hs'
    have hlt : s < q.numBlocks := by
      have : s < 0 + q.numBlocks := hs'
      omega
    have hidx : q.indexOf s = s := by rw [q.indexOf_eq, Nat.mod_eq_of_lt hlt]
    have hne : s ≠ 0 := by omega
    have hgen : q.generationOf s = 0 := by rw [q.generationOf_eq, Nat.div_eq_of_lt hlt]
    rw [hidx, hgen]
    simp only [Mem.new, hne, if_false]
    refine ⟨?_, ?_, le_rfl, rfl, rfl⟩
    · exact slotOf_word (by decide) q.size_lt
    · exact (writableWord_zero q.size_lt).symm

end Rskynet.Bwos
