import Mathlib.Algebra.BigOperators.Group.Finset.Basic
import Mathlib.Algebra.BigOperators.Group.Finset.Piecewise
import Mathlib.Algebra.Order.BigOperators.Group.Finset
import Mathlib.Data.Fintype.BigOperators
import Mathlib.Logic.Relation
import Mathlib.Tactic.Abel

/-!
# Interleaved threads: run invariants and sums over a thread table

A concurrent program is a step relation on global states, one atomic action of one thread per
step. A state has a table `pc : ι → π` of program counters, of which a step rewrites one.
-/

namespace Interleave

open scoped BigOperators
open Function (update)
open Option

section Runs

variable {S : Type*} {step : S → S → Prop} {s₀ s : S}

/-- The states a step relation reaches from `s₀`. -/
def Reachable (step : S → S → Prop) (s₀ s : S) : Prop :=
  Relation.ReflTransGen step s₀ s

theorem Reachable.refl : Reachable step s₀ s₀ := Relation.ReflTransGen.refl

theorem Reachable.tail {t : S} (h : Reachable step s₀ s) (hst : step s t) :
    Reachable step s₀ t := Relation.ReflTransGen.tail h hst

theorem Reachable.trans {t : S} (h : Reachable step s₀ s) (h' : Reachable step s t) :
    Reachable step s₀ t := Relation.ReflTransGen.trans h h'

/-- **The run rule.**  What holds initially and survives every step holds along every run. -/
theorem Reachable.invariant {I : S → Prop} (hrun : Reachable step s₀ s) (h₀ : I s₀)
    (hstep : ∀ a b, I a → step a b → I b) : I s := by
  induction hrun with
  | refl => exact h₀
  | tail _ hab ih => exact hstep _ _ ih hab

/-- Runs a list of scheduling choices, as long as each is enabled. -/
def exec {A : Type*} (next : A → S → Option S) : List A → S → Option S
  | [], s => some s
  | a :: as, s => (next a s).bind (exec next as)

theorem exec_append {A : Type*} {next : A → S → Option S} (as bs : List A) (s : S) :
    exec next (as ++ bs) s = (exec next as s).bind (exec next bs) := by
  induction as generalizing s with
  | nil => rfl
  | cons a as ih =>
    simp only [List.cons_append, exec, bind_assoc]
    congr 1
    funext s'
    exact ih s'

theorem Reachable.of_exec {A : Type*} {next : A → S → Option S}
    (hnext : ∀ a s s', next a s = some s' → step s s') (as : List A) {t : S}
    (h : exec next as s = some t) : Reachable step s t := by
  induction as generalizing s with
  | nil =>
    have hst : s = t := some.inj h
    subst hst
    exact Reachable.refl
  | cons a as ih =>
    obtain ⟨s', hs', ht⟩ := bind_eq_some_iff.mp h
    exact Relation.ReflTransGen.head (hnext a s s' hs') (ih ht)

theorem Reachable.of_run {A : Type*} {next : A → S → Option S} {as : List A} {t : S}
    (h : exec next as s = some t) : Reachable (fun s s' => ∃ a, next a s = some s') s t :=
  .of_exec (fun a _ _ ha => ⟨a, ha⟩) as h

/-- Every choice of the list meets `P` in the state where it is taken. -/
def along {A : Type*} (next : A → S → Option S) (P : S → A → Prop) : List A → S → Prop
  | [], _ => True
  | a :: as, s => P s a ∧ ∀ s' ∈ next a s, along next P as s'

instance decidableAlong {A : Type*} (next : A → S → Option S) (P : S → A → Prop)
    [∀ s a, Decidable (P s a)] : (as : List A) → (s : S) → Decidable (along next P as s)
  | [], _ => isTrue trivial
  | a :: as, s =>
    have := decidableAlong next P as
    inferInstanceAs (Decidable (P s a ∧ ∀ s' ∈ next a s, along next P as s'))

section Along

variable {A : Type*} {next : A → S → Option S} {P : S → A → Prop} {t : S}

/-- **The run rule under a side condition.**  What every step that meets `P` keeps holds at the
end of a run all of whose steps meet `P`. -/
theorem exec_invariant {I : S → Prop} (hstep : ∀ a s s', I s → P s a → next a s = some s' → I s')
    (as : List A) (h₀ : I s) (hP : along next P as s) (h : exec next as s = some t) : I t := by
  induction as generalizing s with
  | nil => exact some.inj h ▸ h₀
  | cons a as ih =>
    obtain ⟨s', hs', ht⟩ := bind_eq_some_iff.mp h
    exact ih (hstep a s s' h₀ hP.1 hs') (hP.2 s' hs') ht

theorem along_of_forall {as : List A} (hP : ∀ a ∈ as, ∀ s, P s a) (s : S) : along next P as s := by
  induction as generalizing s with
  | nil => trivial
  | cons a as ih =>
    obtain ⟨ha, has⟩ := List.forall_mem_cons.mp hP
    exact ⟨ha s, fun s' _ => ih has s'⟩

/-- A run that meets `P` meets it in its first part, and in its second part from there. -/
theorem along_append {as bs : List A} (h : exec next as s = some t) (hP : along next P (as ++ bs) s) :
    along next P as s ∧ along next P bs t := by
  induction as generalizing s with
  | nil => exact ⟨trivial, some.inj h ▸ hP⟩
  | cons a as ih =>
    obtain ⟨s', hs', ht⟩ := bind_eq_some_iff.mp h
    obtain ⟨hrest, hlast⟩ := ih ht (hP.2 s' hs')
    refine ⟨⟨hP.1, fun u hu => ?_⟩, hlast⟩
    rw [mem_def, hs'] at hu
    exact some.inj hu ▸ hrest

/-- **The rule for a broken side condition.**  What a step that does not meet `P` establishes,
and every step keeps, holds at the end of a run with such a step. -/
theorem exec_of_not_along {J : S → Prop} (hbad : ∀ a s s', ¬ P s a → next a s = some s' → J s')
    (hkeep : ∀ a s s', J s → next a s = some s' → J s') (as : List A) (hP : ¬ along next P as s)
    (h : exec next as s = some t) : J t := by
  induction as generalizing s with
  | nil => exact absurd trivial hP
  | cons a as ih =>
    obtain ⟨s', hs', ht⟩ := bind_eq_some_iff.mp h
    by_cases hrest : along next P as s'
    · have hnow : ¬ P s a := by
        intro hPa
        refine hP ⟨hPa, fun u hu => ?_⟩
        rw [mem_def, hs'] at hu
        exact some.inj hu ▸ hrest
      have hrun : Reachable (fun x y => ∃ a, next a x = some y) s' t :=
        Reachable.of_run ht
      refine hrun.invariant (hbad a s s' hnow hs') ?_
      rintro x y hx ⟨b, hb⟩
      exact hkeep b x y hx hb
    · exact ih hrest ht

end Along

end Runs

section Sums

variable {ι π M : Type*} [Fintype ι] [AddCommMonoid M]
variable {f : ι → π} {P : π → Bool}

/-- **The exchange law.**  Moving thread `i` to `p` trades its old contribution for the new
one; every other thread's contribution is untouched. -/
theorem sum_update_add [DecidableEq ι] (f : ι → π) (i : ι) (p : π) (g : π → M) :
    (∑ j, g (update f i p j)) + g (f i) = (∑ j, g (f j)) + g p := by
  have hcomp : (fun j => g (update f i p j))
      = update (fun j => g (f j)) i (g p) := by
    funext j
    by_cases hj : j = i
    · subst hj; simp
    · simp [hj]
  rw [hcomp, Finset.sum_update_of_mem (Finset.mem_univ i)]
  have hsplit : ∑ j, g (f j) = g (f i) + ∑ j ∈ Finset.univ \ {i}, g (f j) := by
    rw [← Finset.sum_sdiff (Finset.subset_univ ({i} : Finset ι)), Finset.sum_singleton, add_comm]
  rw [hsplit]
  abel

theorem sum_change_add {g g' : ι → M} (i : ι) (h : ∀ j, j ≠ i → g' j = g j) :
    (∑ j, g' j) + g i = (∑ j, g j) + g' i := by
  classical
  have hg : g' = update g i (g' i) := by
    funext j
    by_cases hj : j = i
    · subst hj; simp
    · simp [hj, h j hj]
  rw [hg]
  simpa using sum_update_add g i (g' i) id

theorem sum_update_of_eq [DecidableEq ι] (f : ι → π) (i : ι) (p : π) (g : π → M) (h : g p = g (f i)) :
    ∑ j, g (update f i p j) = ∑ j, g (f j) := by
  refine Finset.sum_congr rfl fun j _ => ?_
  by_cases hj : j = i
  · subst hj; simpa using h
  · simp [hj]

/-- The number of threads whose program counter satisfies `P`. -/
def tally (f : ι → π) (P : π → Bool) : ℕ := ∑ j, if P (f j) then 1 else 0

theorem tally_update [DecidableEq ι] (f : ι → π) (i : ι) (p : π) (P : π → Bool) :
    tally (update f i p) P + (if P (f i) then 1 else 0)
      = tally f P + (if P p then 1 else 0) :=
  sum_update_add f i p fun x => if P x then 1 else 0

theorem tally_update_of_eq [DecidableEq ι] (f : ι → π) (i : ι) (p : π) (P : π → Bool) (h : P p = P (f i)) :
    tally (update f i p) P = tally f P :=
  sum_update_of_eq f i p (fun x => if P x then 1 else 0) (by rw [h])

theorem tally_eq_zero (h : tally f P = 0) (i : ι) :
    P (f i) = false := by
  have hi := (Finset.sum_eq_zero_iff.mp h) i (Finset.mem_univ i)
  by_contra hP
  simp [hP] at hi

theorem tally_pos {i : ι} (h : P (f i) = true) :
    0 < tally f P := by
  rcases Nat.eq_zero_or_pos (tally f P) with h0 | h0
  · rw [tally_eq_zero h0 i] at h
    exact absurd h Bool.false_ne_true
  · exact h0

theorem tally_eq_one_unique (h : tally f P = 1) {i j : ι} (hi : P (f i) = true)
    (hj : P (f j) = true) : i = j := by
  classical
  by_contra hne
  have hpair : ∑ k ∈ ({i, j} : Finset ι), (if P (f k) then 1 else 0) = 2 := by
    rw [Finset.sum_pair hne, hi, hj]
    rfl
  have hle : ∑ k ∈ ({i, j} : Finset ι), (if P (f k) then 1 else 0) ≤ tally f P :=
    Finset.sum_le_sum_of_subset (Finset.subset_univ _)
  omega

theorem tally_eq_one (h : tally f P = 1) :
    ∃! i, P (f i) = true := by
  obtain ⟨i, hi⟩ : ∃ i, P (f i) = true := by
    by_contra hnone
    have hzero : tally f P = 0 := by
      refine Finset.sum_eq_zero fun i _ => ?_
      rw [if_neg fun hi => hnone ⟨i, hi⟩]
    omega
  exact ⟨i, hi, fun j hj => tally_eq_one_unique h hj hi⟩

end Sums

end Interleave
