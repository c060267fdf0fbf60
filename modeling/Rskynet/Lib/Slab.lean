import Mathlib.Algebra.Order.Group.Multiset
import Mathlib.Data.List.ReduceOption
import Mathlib.Tactic.Abel

/-!
# Slabs

A slab keeps values in a growing vector of cells; the index of its cell is the key of a value. A
removed value leaves a vacant cell, whose key may be handed out again.
-/

structure Slab (α : Type*) where
  cells : List (Option α)

namespace Slab

open List Option

variable {k : ℕ}

variable {α β : Type*}
variable {s : Slab α}

def empty : Slab α := ⟨[]⟩

def get (s : Slab α) (k : ℕ) : Option α := s.cells[k]?.join

def vacant (s : Slab α) (k : ℕ) : Bool := decide (k ≤ s.cells.length) && (s.get k).isNone

def put (s : Slab α) (k : ℕ) (x : α) : Slab α :=
  if k < s.cells.length then ⟨s.cells.set k (some x)⟩ else ⟨s.cells ++ [some x]⟩

def remove (s : Slab α) (k : ℕ) : Slab α := ⟨s.cells.set k none⟩

def map (f : α → β) (s : Slab α) : Slab β := ⟨s.cells.map (Option.map f)⟩

def values (s : Slab α) : List α := s.cells.reduceOption

/-! ### Looking up -/

@[simp] theorem get_empty (k : ℕ) : (empty : Slab α).get k = none := by
  simp [get, empty]

theorem lt_of_get {x : α} (h : s.get k = some x) : k < s.cells.length := by
  by_contra hk
  rw [get, getElem?_eq_none (not_lt.mp hk)] at h
  cases h

theorem cell_of_get {x : α} (h : s.get k = some x) :
    s.cells[k]? = some (some x) := by
  exact join_eq_some_iff.mp h

theorem get_put_self (hk : k ≤ s.cells.length) (x : α) :
    (s.put k x).get k = some x := by
  unfold put
  split
  · next hlt => simp [get, hlt]
  · next hge =>
    have hlen : k = s.cells.length := by omega
    simp [get, hlen]

theorem get_put_of_ne {j : ℕ} (hk : k ≤ s.cells.length) (x : α) (hj : j ≠ k) :
    (s.put k x).get j = s.get j := by
  unfold put
  split
  · simp [get, getElem?_set_ne (Ne.symm hj)]
  · next hge =>
    have hlen : k = s.cells.length := by omega
    rcases lt_or_gt_of_ne hj with hlt | hgt
    · simp [get, getElem?_append_left (hlen ▸ hlt)]
    · simp only [get]
      rw [getElem?_eq_none (by simp; omega), getElem?_eq_none (by omega)]

theorem get_remove_self (s : Slab α) (k : ℕ) : (s.remove k).get k = none := by
  by_cases hk : k < s.cells.length
  · simp [get, remove, hk]
  · simp only [get, remove]
    rw [getElem?_eq_none (by simp; omega)]
    rfl

theorem get_remove_of_ne (s : Slab α) {j : ℕ} (hj : j ≠ k) : (s.remove k).get j = s.get j := by
  simp [get, remove, getElem?_set_ne (Ne.symm hj)]

@[simp] theorem get_map (f : α → β) (s : Slab α) (k : ℕ) :
    (s.map f).get k = (s.get k).map f := by
  simp only [get, map, getElem?_map]
  rcases s.cells[k]? with _ | _ | x <;> rfl

/-! ### Contents -/

theorem mem_values {x : α} : x ∈ s.values ↔ ∃ k, s.get k = some x := by
  rw [values, reduceOption_mem_iff, mem_iff_getElem?]
  refine exists_congr fun k => ?_
  rw [get, join_eq_some_iff]

theorem reduceOption_cons (o : Option α) (l : List (Option α)) :
    ((o :: l).reduceOption : Multiset α) = (o.toList : Multiset α) + (l.reduceOption : Multiset α) := by
  cases o <;> simp

theorem reduceOption_set {l : List (Option α)} {o : Option α} (h : l[k]? = some o) (o' : Option α) :
    ((l.set k o').reduceOption : Multiset α) + (o.toList : Multiset α)
      = (l.reduceOption : Multiset α) + (o'.toList : Multiset α) := by
  induction l generalizing k with
  | nil => exact absurd h (by simp)
  | cons a l ih =>
    cases k with
    | zero =>
      have ha : a = o := by simpa using h
      subst ha
      rw [set_cons_zero, reduceOption_cons, reduceOption_cons]
      abel
    | succ k =>
      have hrest := ih (k := k) (by simpa using h)
      rw [set_cons_succ, reduceOption_cons, reduceOption_cons, add_assoc, hrest, add_assoc]

theorem values_put_vacant (h : s.vacant k = true) (x : α) :
    ((s.put k x).values : Multiset α) = (s.values : Multiset α) + {x} := by
  simp only [vacant, Bool.and_eq_true, decide_eq_true_eq, isNone_iff_eq_none] at h
  unfold put
  split
  · next hlt =>
    have hcell : s.cells[k]? = some none := by
      have hget := h.2
      rw [get, getElem?_eq_getElem hlt, join_some] at hget
      rw [getElem?_eq_getElem hlt, hget]
    have hset := reduceOption_set hcell (some x)
    simpa [values] using hset
  · rw [values, reduceOption_append, ← Multiset.coe_add]
    rfl

theorem values_put {y : α} (h : s.get k = some y) (x : α) :
    ((s.put k x).values : Multiset α) + {y} = (s.values : Multiset α) + {x} := by
  unfold put
  rw [if_pos (lt_of_get h)]
  have hset := reduceOption_set (cell_of_get h) (some x)
  simpa [values] using hset

theorem values_remove {y : α} (h : s.get k = some y) :
    ((s.remove k).values : Multiset α) + {y} = (s.values : Multiset α) := by
  have hset := reduceOption_set (cell_of_get h) none
  simpa [values, remove] using hset

theorem values_map (f : α → β) (s : Slab α) : (s.map f).values = s.values.map f := by
  simp [values, map, reduceOption_map]

end Slab
