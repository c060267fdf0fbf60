import Mathlib.Algebra.GroupWithZero.Nat
import Mathlib.Data.List.AList

/-!
# Sums over tables

A table is an association list with distinct keys. A `total` adds up a weight of its entries: the
number of entries, the number of those with a property, the number of names they hold.

* `total_eq_erase` — **PROVED**: an entry's weight and the rest.
-/

namespace Tables

open List Option

variable {κ α : Type}
variable {t : AList fun _ : κ => α}

/-- The sum of a weight over the entries of a table. -/
def total (f : α → ℕ) (t : AList fun _ : κ => α) : ℕ := (t.entries.map fun e => f e.2).sum

theorem total_one (t : AList fun _ : κ => α) : total (fun _ => 1) t = t.entries.length := by
  unfold total
  induction t.entries with
  | nil => rfl
  | cons e l ih =>
    rw [map_cons, sum_cons, ih, length_cons, Nat.add_comm]

variable [DecidableEq κ]

variable (f : α → ℕ)

theorem sum_eq_kerase (k : κ) :
    ∀ l : List (Sigma fun _ : κ => α), (l.map fun e => f e.2).sum
      = ((l.dlookup k).elim 0 f) + ((l.kerase k).map fun e => f e.2).sum := by
  intro l
  induction l with
  | nil => rfl
  | cons e l ih =>
    obtain ⟨k', a⟩ := e
    by_cases hk : k = k'
    · subst hk
      have herase : kerase k (⟨k, a⟩ :: l) = l := kerase_cons_eq rfl
      rw [dlookup_cons_eq, herase]
      rfl
    · rw [dlookup_cons_ne l ⟨k', a⟩ hk, kerase_cons_ne hk, map_cons, map_cons,
        sum_cons, sum_cons, ih]
      omega

theorem total_eq_erase (k : κ) (t : AList fun _ : κ => α) :
    total f t = (t.lookup k).elim 0 f + total f (t.erase k) := sum_eq_kerase f k t.entries

theorem total_insert (k : κ) (a : α) (t : AList fun _ : κ => α) :
    total f (t.insert k a) = f a + total f (t.erase k) := rfl

theorem total_insert_of_none {f : α → ℕ} {k : κ} (h : t.lookup k = none) (a : α) :
    total f (t.insert k a) = f a + total f t := by
  rw [total_insert, total_eq_erase f k t, h, elim_none, Nat.zero_add]

theorem total_insert_of_some {f : α → ℕ} {k : κ} {b : α} (h : t.lookup k = some b) (a : α) :
    total f (t.insert k a) + f b = f a + total f t := by
  rw [total_insert, total_eq_erase f k t, h, elim_some]
  omega

theorem total_erase_of_some {f : α → ℕ} {k : κ} {b : α} (h : t.lookup k = some b) :
    total f (t.erase k) + f b = total f t := by
  rw [total_eq_erase f k t, h, elim_some]
  omega

/-! ### An index -/

section Index

variable {ι : Type} [DecidableEq ι] {part : α → ι} {index : AList fun _ : ι => κ}

/-- The index finds the entries of the table by a part of them. -/
def Inverse (part : α → ι) (index : AList fun _ : ι => κ) (t : AList fun _ : κ => α) : Prop :=
  ∀ i k, index.lookup i = some k ↔ ∃ a, t.lookup k = some a ∧ part a = i

theorem Inverse.change (h : Inverse part index t) {k : κ} {a a' : α} (ha : t.lookup k = some a)
    (hpart : part a' = part a) : Inverse part index (t.insert k a') := by
  intro i k'
  rw [h i k']
  by_cases hk : k' = k
  · subst hk
    simp [ha, hpart]
  · rw [AList.lookup_insert_ne hk]

theorem Inverse.insert (h : Inverse part index t) {k : κ} {a : α} (hk : t.lookup k = none)
    (hi : index.lookup (part a) = none) :
    Inverse part (index.insert (part a) k) (t.insert k a) := by
  intro i k'
  by_cases hkey : k' = k <;> by_cases hpart : i = part a
  · subst hkey hpart
    simp
  · subst hkey
    rw [AList.lookup_insert_ne hpart, h i, AList.lookup_insert, hk]
    simp [Ne.symm hpart]
  · subst hpart
    rw [AList.lookup_insert, AList.lookup_insert_ne hkey, ← h, hi]
    simp [Ne.symm hkey]
  · rw [AList.lookup_insert_ne hpart, AList.lookup_insert_ne hkey, h i]

theorem Inverse.erase (h : Inverse part index t) {k : κ} {a : α} (ha : t.lookup k = some a) :
    Inverse part (index.erase (part a)) (t.erase k) := by
  intro i k'
  have hself : index.lookup (part a) = some k := (h _ k).mpr ⟨a, ha, rfl⟩
  by_cases hkey : k' = k <;> by_cases hpart : i = part a
  · subst hkey hpart
    simp
  · subst hkey
    rw [AList.lookup_erase_ne hpart, h i, ha]
    simp [Ne.symm hpart]
  · subst hpart
    rw [AList.lookup_erase, AList.lookup_erase_ne hkey, ← h, hself]
    simp [Ne.symm hkey]
  · rw [AList.lookup_erase_ne hpart, AList.lookup_erase_ne hkey, h i]

end Index

/-! ### Partial functions -/

section Paired

open Function (update update_of_ne update_self)

variable {α β : Type} {f : α → Option β} {g : β → Option α} {a : α} {b : β}

/-- Where `f` leads, `g` leads back. -/
def Points (f : α → Option β) (g : β → Option α) : Prop := ∀ a b, f a = some b → g b = some a

/-- Two partial functions, each the inverse of the other. -/
def Paired (f : α → Option β) (g : β → Option α) : Prop := Points f g ∧ Points g f

variable [DecidableEq α] [DecidableEq β]

theorem Points.insert (h : Points f g) (hb : g b = none) :
    Points (update f a (some b)) (update g b (some a)) := by
  intro x y hxy
  by_cases hx : x = a
  · subst hx
    rw [update_self, Option.some.injEq] at hxy
    rw [← hxy, update_self]
  · rw [update_of_ne hx] at hxy
    have hback := h x y hxy
    have hy : y ≠ b := by
      rintro rfl
      cases hb.symm.trans hback
    rw [update_of_ne hy, hback]

theorem Points.erase (h : Points f g) (hab : g b = some a) :
    Points (update f a none) (update g b none) := by
  intro x y hxy
  have hx : x ≠ a := by
    rintro rfl
    rw [update_self] at hxy
    cases hxy
  rw [update_of_ne hx] at hxy
  have hback := h x y hxy
  have hy : y ≠ b := by
    rintro rfl
    exact hx (Option.some.inj (hback.symm.trans hab))
  rw [update_of_ne hy, hback]

end Paired

end Tables
