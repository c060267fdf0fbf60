import Mathlib.Logic.Function.Basic
import Mathlib.Tactic.Common

/-!
# Bitmaps of 64-bit words

A set of natural numbers packed into 64-bit words: number `i` is bit `i % 64` of word `i / 64`.
Members are inserted and erased with masks (`fetch_or`, `fetch_and`), and one is picked by clearing
the lowest set bit of a word.
-/

namespace Bitmap

variable {b : ℕ → BitVec 64}

def mask (i : ℕ) : BitVec 64 := 1#64 <<< (i % 64)

def mem (b : ℕ → BitVec 64) (i : ℕ) : Bool := (b (i / 64)).getLsbD (i % 64)

def insert (b : ℕ → BitVec 64) (i : ℕ) : ℕ → BitVec 64 :=
  Function.update b (i / 64) (b (i / 64) ||| mask i)

def erase (b : ℕ → BitVec 64) (i : ℕ) : ℕ → BitVec 64 :=
  Function.update b (i / 64) (b (i / 64) &&& ~~~(mask i))

def lowest (x : BitVec 64) : ℕ := x.ctz.toNat

theorem getLsbD_mask (i j : ℕ) (hj : j < 64) : (mask i).getLsbD j = decide (j = i % 64) := by
  have hi : i % 64 < 64 := Nat.mod_lt _ (by decide)
  rw [mask, BitVec.getLsbD_shiftLeft, BitVec.getLsbD_one]
  by_cases h : j = i % 64
  · subst h; simp [hi]
  · by_cases hlt : j < i % 64
    · simp [hlt, h]
    · have hsub : j - i % 64 ≠ 0 := by omega
      simp [h, hsub]

theorem mem_insert (b : ℕ → BitVec 64) (i j : ℕ) : mem (insert b i) j = (mem b j || decide (j = i)) := by
  have hj : j % 64 < 64 := Nat.mod_lt _ (by decide)
  unfold mem insert
  by_cases hw : j / 64 = i / 64
  · have hiff : j % 64 = i % 64 ↔ j = i := by omega
    rw [hw, Function.update_self, BitVec.getLsbD_or, getLsbD_mask i _ hj]
    simp [hiff]
  · have hne : j ≠ i := fun h => hw (by rw [h])
    rw [Function.update_of_ne hw]
    simp [hne]

theorem mem_erase (b : ℕ → BitVec 64) (i j : ℕ) : mem (erase b i) j = (mem b j && decide (j ≠ i)) := by
  have hj : j % 64 < 64 := Nat.mod_lt _ (by decide)
  unfold mem erase
  by_cases hw : j / 64 = i / 64
  · have hiff : j % 64 = i % 64 ↔ j = i := by omega
    rw [hw, Function.update_self, BitVec.getLsbD_and, BitVec.getLsbD_not, getLsbD_mask i _ hj]
    simp [hiff, hj]
  · have hne : j ≠ i := fun h => hw (by rw [h])
    rw [Function.update_of_ne hw]
    simp [hne]

theorem lowest_lt {x : BitVec 64} (h : x ≠ 0) : lowest x < 64 := by
  have hlt := BitVec.ctz_lt_iff_ne_zero.mpr h
  simpa [lowest, BitVec.lt_def] using hlt

theorem mem_lowest {k : ℕ} (h : b k ≠ 0) : mem b (k * 64 + lowest (b k)) = true := by
  have hlt := lowest_lt h
  have hdiv : (k * 64 + lowest (b k)) / 64 = k := by omega
  have hmod : (k * 64 + lowest (b k)) % 64 = lowest (b k) := by omega
  rw [mem, hdiv, hmod]
  exact BitVec.getLsbD_true_ctz_of_ne_zero h

theorem erase_lowest {k : ℕ} (h : b k ≠ 0) :
    Function.update b k (b k &&& ~~~(1#64 <<< lowest (b k))) = erase b (k * 64 + lowest (b k)) := by
  have hlt := lowest_lt h
  have hdiv : (k * 64 + lowest (b k)) / 64 = k := by omega
  have hmod : (k * 64 + lowest (b k)) % 64 = lowest (b k) := by omega
  rw [erase, mask, hdiv, hmod]

theorem mem_of_word_zero {i : ℕ} (h : b (i / 64) = 0) : mem b i = false := by
  rw [mem, h]
  simp

end Bitmap
