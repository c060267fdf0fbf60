import Mathlib.Data.List.Basic
import Mathlib.Data.List.Infix

/-!
# Bursts

A list in which the entries with a property come in bursts of at most `n`.

* `length_le_of_bursts` — **PROVED**: how many entries without the property there must be.
-/

namespace Burst

open List

variable {α : Type*}

/-- Consecutive entries that all have the property are at most `n`. -/
def Bursts (p : α → Bool) (n : ℕ) (xs : List α) : Prop :=
  ∀ pre mid post, xs = pre ++ mid ++ post → (∀ x ∈ mid, p x = true) → mid.length ≤ n

/-- The entries with the property at the end are at most `n`. -/
def Tail (p : α → Bool) (n : ℕ) (xs : List α) : Prop :=
  ∀ pre mid, xs = pre ++ mid → (∀ x ∈ mid, p x = true) → mid.length ≤ n

variable {p : α → Bool} {n m : ℕ} {xs : List α} {x : α}

theorem bursts_nil : Bursts p n [] := by
  intro pre mid post h _
  have hmid : mid = [] := by
    have := congrArg length h
    simp only [length_nil, length_append] at this
    exact length_eq_zero_iff.mp (by omega)
  simp [hmid]

theorem tail_nil : Tail p n [] := by
  intro pre mid h _
  have hmid : mid = [] := (append_eq_nil_iff.mp h.symm).2
  simp [hmid]

theorem Tail.mono (h : Tail p n xs) (hle : n ≤ m) : Tail p m xs :=
  fun pre mid hxs hmid => Nat.le_trans (h pre mid hxs hmid) hle

theorem tail_snoc (h : Tail p n xs) : Tail p (n + 1) (xs ++ [x]) := by
  intro pre mid hxs hmid
  rcases eq_nil_or_concat mid with rfl | ⟨mid, last, rfl⟩
  · exact Nat.zero_le _
  · rw [concat_eq_append] at *
    have hshape : xs ++ [x] = (pre ++ mid) ++ [last] := by rw [hxs, append_assoc]
    obtain ⟨hinit, -⟩ := append_inj' hshape rfl
    have hle := h pre mid hinit fun y hy => hmid y (mem_append_left _ hy)
    rw [length_append, length_singleton]
    omega

theorem tail_snoc_of_not (hx : p x = false) : Tail p 0 (xs ++ [x]) := by
  intro pre mid hxs hmid
  rcases eq_nil_or_concat mid with rfl | ⟨mid, last, rfl⟩
  · exact Nat.le_refl _
  · rw [concat_eq_append] at *
    have hshape : xs ++ [x] = (pre ++ mid) ++ [last] := by rw [hxs, append_assoc]
    obtain ⟨-, hlast⟩ := append_inj' hshape rfl
    have hp := hmid last (mem_append_right _ mem_cons_self)
    rw [← singleton_inj.mp hlast, hx] at hp
    cases hp

theorem bursts_snoc (h : Bursts p n xs) (htail : Tail p n (xs ++ [x])) : Bursts p n (xs ++ [x]) := by
  intro pre mid post hxs hmid
  rcases eq_nil_or_concat post with rfl | ⟨post, last, rfl⟩
  · exact htail pre mid (by rw [hxs, append_nil]) hmid
  · rw [concat_eq_append] at hxs
    have hshape : xs ++ [x] = (pre ++ mid ++ post) ++ [last] := by
      rw [hxs, append_assoc (pre ++ mid)]
    obtain ⟨hinit, -⟩ := append_inj' hshape rfl
    exact h pre mid post hinit hmid

/-- **Blocks of `n + 1` entries have one without the property each.** -/
theorem length_le_of_bursts (k : ℕ) (h : Bursts p n xs) (hlen : k * (n + 1) ≤ xs.length) :
    k ≤ (xs.take (k * (n + 1))).countP fun x => !p x := by
  induction k with
  | zero => exact Nat.zero_le _
  | succ k ih =>
    have hsplit : (k + 1) * (n + 1) = k * (n + 1) + (n + 1) := Nat.succ_mul _ _
    rw [hsplit] at hlen ⊢
    rw [take_add, countP_append]
    have hprev := ih (by omega)
    -- the last block is too long to be one burst
    have hblock : 0 < ((xs.drop (k * (n + 1))).take (n + 1)).countP fun x => !p x := by
      by_contra hzero
      have hall : ∀ x ∈ (xs.drop (k * (n + 1))).take (n + 1), p x = true := by
        intro x hx
        have hnone := countP_eq_zero.mp (Nat.eq_zero_of_not_pos hzero) x hx
        simpa using hnone
      have hle := h (xs.take (k * (n + 1))) _ ((xs.drop (k * (n + 1))).drop (n + 1)) (by
        rw [append_assoc, take_append_drop, take_append_drop]) hall
      rw [length_take, length_drop] at hle
      omega
    omega

end Burst
