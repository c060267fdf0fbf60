import Rskynet.Bwos.Model
import Mathlib.Data.Int.ModEq

/-!
# Sequences, block indices and block words as arithmetic

Block indices are computed with a mask, generations with a shift and block words with shifts and
ors. All three are reduced to arithmetic here, once.
-/

namespace Rskynet.Bwos

/-! ### Sequences -/

namespace Shape

variable (q : Shape)

theorem numBlocks_eq : q.numBlocks = 2 ^ q.blockShift := by
  obtain ⟨k, hk⟩ := q.powerOfTwo
  rw [blockShift, hk, Nat.log2_two_pow]

theorem numBlocks_pos : 0 < q.numBlocks := lt_of_lt_of_le (by norm_num) q.two_le

variable (s : ℕ)

theorem indexOf_eq : q.indexOf s = s % q.numBlocks := by
  rw [indexOf, mask, numBlocks_eq, Nat.and_two_pow_sub_one_eq_mod]

theorem generationOf_eq : q.generationOf s = s / q.numBlocks := by
  rw [generationOf, Nat.shiftRight_eq_div_pow, numBlocks_eq]

theorem indexOf_lt : q.indexOf s < q.numBlocks := by
  rw [indexOf_eq]
  exact Nat.mod_lt _ q.numBlocks_pos

theorem indexOf_add : q.indexOf (s + q.numBlocks) = q.indexOf s := by
  rw [indexOf_eq, indexOf_eq, Nat.add_mod_right]

theorem generationOf_add : q.generationOf (s + q.numBlocks) = q.generationOf s + 1 := by
  rw [generationOf_eq, generationOf_eq, Nat.add_div_right _ q.numBlocks_pos]

theorem generationOf_mono {s t : ℕ} (h : s ≤ t) : q.generationOf s ≤ q.generationOf t := by
  rw [generationOf_eq, generationOf_eq]
  exact Nat.div_le_div_right h

/-- Two sequences of one window of `numBlocks` that share a physical block are equal. -/
theorem indexOf_inj {S a b : ℕ} (ha : S ≤ a) (ha' : a < S + q.numBlocks) (hb : S ≤ b)
    (hb' : b < S + q.numBlocks) (h : q.indexOf a = q.indexOf b) : a = b := by
  rw [indexOf_eq, indexOf_eq] at h
  have key : ∀ x y : ℕ, S ≤ x → y < S + q.numBlocks → x ≤ y →
      x % q.numBlocks = y % q.numBlocks → x = y := by
    intro x y hx hy hxy hmod
    have hdvd : q.numBlocks ∣ y - x := (Nat.modEq_iff_dvd' hxy).mp hmod
    have hzero : y - x = 0 := Nat.eq_zero_of_dvd_of_lt hdvd (by omega)
    omega
  rcases Nat.le_total a b with hab | hab
  · exact key a b ha hb' hab h
  · exact (key b a hb ha' hab h.symm).symm

/-- Every physical block belongs to exactly one sequence of the window; this is the one. -/
theorem exists_indexOf (S : ℕ) {i : ℕ} (hi : i < q.numBlocks) :
    ∃ s, S ≤ s ∧ s < S + q.numBlocks ∧ q.indexOf s = i := by
  have hn := q.numBlocks_pos
  have hm : S % q.numBlocks < q.numBlocks := Nat.mod_lt _ hn
  refine ⟨S + (i + q.numBlocks - S % q.numBlocks) % q.numBlocks, by omega, ?_, ?_⟩
  · have := Nat.mod_lt (i + q.numBlocks - S % q.numBlocks) hn
    omega
  · have e : S % q.numBlocks + (i + q.numBlocks - S % q.numBlocks) = i + q.numBlocks := by omega
    rw [indexOf_eq, Nat.add_mod_mod, ← Nat.mod_add_mod, e, Nat.add_mod_right,
      Nat.mod_eq_of_lt hi]

theorem nextSequence_eq_some {s t : ℕ} (h : q.nextSequence s = some t) :
    t = s + 1 ∧ q.generationOf t ≤ maxGeneration := by
  unfold nextSequence at h
  split at h
  · next hc =>
    have ht : s + 1 = t := Option.some.inj h
    subst ht
    exact ⟨rfl, hc.2⟩
  · cases h

theorem indexOf_succ_ne : q.indexOf (s + 1) ≠ q.indexOf s := by
  intro h
  have := q.indexOf_inj (S := s) (a := s + 1) (b := s) (by omega)
    (by have := q.two_le; omega) le_rfl (by have := q.two_le; omega) h
  omega

end Shape

theorem previousSequence_eq_some {s t : ℕ} (h : previousSequence s = some t) : t + 1 = s := by
  unfold previousSequence at h
  split at h
  · cases h
  · next hs =>
    have ht : s - 1 = t := Option.some.inj h
    omega

/-! ### Block words -/

section Words

variable {g g' i i' : ℕ}

theorem slotOf_word (hg : g ≤ maxGeneration) (hi : i < 2 ^ slotBits) : slotOf (word g i) = i :=
  TaggedWord.index_pack (by decide) (by unfold maxGeneration at hg; unfold slotBits; omega) hi

theorem word_inj (hg : g ≤ maxGeneration) (hi : i < 2 ^ slotBits) (hg' : g' ≤ maxGeneration)
    (hi' : i' < 2 ^ slotBits) (h : word g i = word g' i') : g = g' ∧ i = i' :=
  TaggedWord.pack_inj (by decide) (by unfold maxGeneration at hg; unfold slotBits; omega) hi
    (by unfold maxGeneration at hg'; unfold slotBits; omega) hi' h

theorem word_succ (hg : g ≤ maxGeneration) (hi : i + 1 < 2 ^ slotBits) :
    word g i + 1 = word g (i + 1) :=
  TaggedWord.pack_succ (by decide) (by unfold maxGeneration at hg; unfold slotBits; omega) hi

theorem writableWord_succ (hg : g ≤ maxGeneration) : writableWord (g + 1) i = word g i :=
  TaggedWord.packPred_succ (by unfold maxGeneration at hg; omega)

theorem writableWord_zero (hi : i < 2 ^ slotBits) : writableWord 0 i = word prevGen0 i :=
  TaggedWord.packPred_zero (by decide) hi

/-- `reduce_generation` leaves the word that `is_writable` looks for. -/
theorem word_reduce (hg : g ≤ maxGeneration) (hi : i < 2 ^ slotBits) :
    (word g i + (2 ^ 64 - 2 ^ slotBits)) % 2 ^ 64 = writableWord g i :=
  TaggedWord.pack_wrapping_sub (by decide) (by unfold maxGeneration at hg; unfold slotBits; omega) hi

theorem slotOf_writableWord (hi : i < 2 ^ slotBits) (hg : g ≤ maxGeneration + 1) :
    slotOf (writableWord g i) = i := by
  cases g with
  | zero => rw [writableWord_zero hi]; exact slotOf_word le_rfl hi
  | succ g =>
    exact slotOf_word (by omega) hi

end Words

end Rskynet.Bwos
