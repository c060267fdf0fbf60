import Mathlib.Logic.Function.Iterate

/-!
# Loops with a measure

A loop body either goes round again with a new state or leaves the loop with a result.

* `finish_rule` — **PROVED**: the invariant rule;
* `found_of_run_search` — **PROVED**: a search that gives a state has found it.
-/

namespace Loop

open Option

variable {σ β : Type}

/-- Runs `body` until it gives a result, at most `n` times. -/
def run (body : σ → σ ⊕ β) : ℕ → σ → Option β
  | 0, _ => none
  | n + 1, s => match body s with
    | .inl s' => run body n s'
    | .inr b => some b

section Measured

variable {body : σ → σ ⊕ β} {measure : σ → ℕ}

theorem run_isSome (h : ∀ s s', body s = .inl s' → measure s' < measure s) :
    ∀ (n : ℕ) (s : σ), measure s < n → (run body n s).isSome = true := by
  intro n
  induction n with
  | zero =>
    intro s hs
    exact absurd hs (Nat.not_lt_zero _)
  | succ n ih =>
    intro s hs
    cases hbody : body s with
    | inl s' =>
      have hless : measure s' < n := Nat.lt_of_lt_of_le (h s s' hbody) (Nat.le_of_lt_succ hs)
      simpa only [run, hbody] using ih s' hless
    | inr b => simp only [run, hbody, isSome_some]

/-- A loop that has a result after `n` turns has the same one after any greater number. -/
theorem run_of_le {b : β} : ∀ {n m : ℕ} {s : σ}, n ≤ m → run body n s = some b →
    run body m s = some b := by
  intro n
  induction n with
  | zero =>
    intro m s _ hrun
    cases hrun
  | succ n ih =>
    intro m s hle hrun
    obtain ⟨m, rfl⟩ : ∃ k, m = k + 1 := ⟨m - 1, by omega⟩
    cases hbody : body s with
    | inl s' =>
      simp only [run, hbody] at hrun ⊢
      exact ih (by omega) hrun
    | inr b' =>
      simp only [run, hbody] at hrun ⊢
      exact hrun

/-- **The loop of a body with a measure.** -/
def finish (body : σ → σ ⊕ β) (measure : σ → ℕ)
    (h : ∀ s s', body s = .inl s' → measure s' < measure s) (s : σ) : β :=
  (run body (measure s + 1) s).get (run_isSome h _ s (Nat.lt_succ_self _))

variable {h : ∀ s s', body s = .inl s' → measure s' < measure s}

theorem run_finish (n : ℕ) (s : σ) (hn : measure s < n) :
    run body n s = some (finish body measure h s) :=
  run_of_le (Nat.succ_le_of_lt hn) (some_get _).symm

theorem finish_eq (s : σ) : finish body measure h s = match body s with
    | .inl s' => finish body measure h s'
    | .inr b => b := by
  have hrun : run body (measure s + 1) s = some (finish body measure h s) :=
    run_finish _ s (Nat.lt_succ_self _)
  cases hbody : body s with
  | inl s' =>
    simp only [run, hbody] at hrun
    rw [run_finish (h := h) (measure s) s' (h s s' hbody)] at hrun
    exact (some.inj hrun).symm
  | inr b =>
    simp only [run, hbody] at hrun
    exact (some.inj hrun).symm

/-- **The invariant rule.**  What every turn keeps, the result has. -/
theorem finish_rule {I : σ → Prop} {Q : β → Prop} (hturn : ∀ s s', I s → body s = .inl s' → I s')
    (hleave : ∀ s b, I s → body s = .inr b → Q b) (s : σ) (hs : I s) :
    Q (finish body measure h s) := by
  -- the induction is on the measure, which every turn makes smaller
  have hall : ∀ (n : ℕ) (s : σ), measure s < n → I s → Q (finish body measure h s) := by
    intro n
    induction n with
    | zero =>
      intro s hn
      exact absurd hn (Nat.not_lt_zero _)
    | succ n ih =>
      intro s hn hs
      rw [finish_eq]
      cases hbody : body s with
      | inl s' =>
        exact ih s' (Nat.lt_of_lt_of_le (h s s' hbody) (Nat.le_of_lt_succ hn))
          (hturn s s' hs hbody)
      | inr b => exact hleave s b hs hbody
  exact hall _ s (Nat.lt_succ_self _) hs

end Measured

theorem found_of_run_search {next : σ → σ} {found : σ → Bool} :
    ∀ {n : ℕ} {s t : σ}, run (fun s => if found (next s) then .inr (next s) else .inl (next s)) n s
      = some t → found t = true := by
  intro n
  induction n with
  | zero =>
    intro s t hrun
    cases hrun
  | succ n ih =>
    intro s t hrun
    cases hfound : found (next s) with
    | true =>
      simp only [run, hfound, if_true] at hrun
      cases hrun
      exact hfound
    | false =>
      simp only [run, hfound, Bool.false_eq_true, if_false] at hrun
      exact ih hrun

end Loop
