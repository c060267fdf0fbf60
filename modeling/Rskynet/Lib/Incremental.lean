import Mathlib.Data.Nat.Init
import Mathlib.Order.Monotone.Basic
import Mathlib.Tactic.WLOG
import Rskynet.Lib.Loops

/-!
# Incremental parsers

A parser looks at the front of a buffer and finds an item, a fault, or that it has to wait for more
input. More input never changes what it has found already.

* `feed_eq_drain` — **PROVED**: how the input is cut into pieces does not matter;
* `next_of_drain` — **PROVED**: what is left in the buffer waits for more.
-/

namespace Incremental

open List

variable {β α ε : Type}
variable {xs : List α} {b : List β}

/-- A count that never falls is the same at two places exactly if it does not rise in between. -/
theorem count_eq_iff {f : ℕ → ℕ} (hf : Monotone f) (m n : ℕ) :
    f m = f n ↔ ∀ k, f k < f (k + 1) → (k < m ↔ k < n) := by
  wlog hmn : m ≤ n generalizing m n
  · rw [eq_comm, this n m (Nat.le_of_not_le hmn)]
    exact forall₂_congr fun _ _ => Iff.comm
  constructor
  · intro heq k hrise
    refine ⟨fun hk => hk.trans_le hmn, fun hk => ?_⟩
    by_contra hout
    have hleft := hf (Nat.not_lt.mp hout)
    have hright : f (k + 1) ≤ f n := hf hk
    omega
  · intro hflat
    induction n, hmn using Nat.le_induction with
    | base => rfl
    | succ n hmn ih =>
      have hstep : f n = f (n + 1) := by
        refine le_antisymm (hf (Nat.le_succ n)) (Nat.not_lt.mp fun hrise => ?_)
        have hlt := (hflat n hrise).mpr (Nat.lt_succ_self n)
        omega
      rw [← hstep]
      refine ih fun k hrise => ⟨fun hk => hk.trans_le hmn, fun hk => ?_⟩
      exact (hflat k hrise).mpr (hk.trans (Nat.lt_succ_self n))

/-- What a parser finds at the front of a buffer. -/
inductive Next (β α ε : Type) where
  | more
  | bad (e : ε)
  | item (a : α) (rest : List β)

/-- A parser: an item is taken off the front, and more input changes no finding. -/
structure Parser (β α ε : Type) where
  next : List β → Next β α ε
  shorter : ∀ b a rest, next b = .item a rest → rest.length < b.length
  item_append : ∀ b c a rest, next b = .item a rest → next (b ++ c) = .item a (rest ++ c)
  bad_append : ∀ b c e, next b = .bad e → next (b ++ c) = .bad e

namespace Parser

variable (P : Parser β α ε)

/-- The items taken out, and the fault or what is left. -/
abbrev Result (β α ε : Type) := List α × Except ε (List β)

/-- One turn of the loop over a buffer. -/
def turn (s : List α × List β) : (List α × List β) ⊕ Result β α ε :=
  match P.next s.2 with
  | .more => .inr (s.1, .ok s.2)
  | .bad e => .inr (s.1, .error e)
  | .item a rest => .inl (s.1 ++ [a], rest)

theorem turn_decreases (s s' : List α × List β) (h : P.turn s = .inl s') :
    s'.2.length < s.2.length := by
  unfold turn at h
  split at h
  · cases h
  · cases h
  · rename_i a rest hnext
    cases h
    exact P.shorter s.2 a rest hnext

/-- The loop over a buffer, with the items it has already. -/
def drainFrom : List α × List β → Result β α ε :=
  Loop.finish P.turn (fun s => s.2.length) P.turn_decreases

/-- **Takes items out of a buffer** until the parser has to wait or meets a fault. -/
def drain (b : List β) : Result β α ε := P.drainFrom ([], b)

variable {P}

theorem drainFrom_more (h : P.next b = .more) :
    P.drainFrom (xs, b) = (xs, .ok b) := by
  unfold drainFrom
  rw [Loop.finish_eq]
  simp only [turn, h]

theorem drainFrom_bad {e : ε} (h : P.next b = .bad e) :
    P.drainFrom (xs, b) = (xs, .error e) := by
  unfold drainFrom
  rw [Loop.finish_eq]
  simp only [turn, h]

theorem drainFrom_item {rest : List β} {a : α} (h : P.next b = .item a rest) :
    P.drainFrom (xs, b) = P.drainFrom (xs ++ [a], rest) := by
  unfold drainFrom
  rw [Loop.finish_eq]
  simp only [turn, h]

theorem drainFrom_eq (xs : List α) (b : List β) :
    P.drainFrom (xs, b) = (xs ++ (P.drain b).1, (P.drain b).2) := by
  -- by induction on the buffer's length, which every item makes smaller
  have hall : ∀ (n : ℕ) (xs ys : List α) (b : List β), b.length < n →
      P.drainFrom (xs ++ ys, b) = (xs ++ (P.drainFrom (ys, b)).1, (P.drainFrom (ys, b)).2) := by
    intro n
    induction n with
    | zero =>
      intro xs ys b hb
      exact absurd hb (Nat.not_lt_zero _)
    | succ n ih =>
      intro xs ys b hb
      cases hnext : P.next b with
      | more => rw [drainFrom_more hnext, drainFrom_more hnext]
      | bad e => rw [drainFrom_bad hnext, drainFrom_bad hnext]
      | item a rest =>
        have hshort := P.shorter b a rest hnext
        rw [drainFrom_item hnext, drainFrom_item hnext, append_assoc]
        exact ih xs (ys ++ [a]) rest (by omega)
  have h := hall (b.length + 1) xs [] b (Nat.lt_succ_self _)
  rw [append_nil] at h
  exact h

theorem drain_more (h : P.next b = .more) : P.drain b = ([], .ok b) :=
  drainFrom_more h

theorem drain_bad {e : ε} (h : P.next b = .bad e) : P.drain b = ([], .error e) :=
  drainFrom_bad h

theorem drain_item {rest : List β} {a : α} (h : P.next b = .item a rest) :
    P.drain b = (a :: (P.drain rest).1, (P.drain rest).2) := by
  unfold drain
  rw [drainFrom_item h, drainFrom_eq]
  rfl

/-- The buffer's induction principle: to wait, to fail, or to go on behind an item. -/
theorem buffer_induction {motive : List β → Prop}
    (hmore : ∀ b, P.next b = .more → motive b) (hbad : ∀ b e, P.next b = .bad e → motive b)
    (hitem : ∀ b a rest, P.next b = .item a rest → motive rest → motive b) (b : List β) :
    motive b := by
  have hall : ∀ (n : ℕ) (b : List β), b.length < n → motive b := by
    intro n
    induction n with
    | zero =>
      intro b hb
      exact absurd hb (Nat.not_lt_zero _)
    | succ n ih =>
      intro b hb
      cases hnext : P.next b with
      | more => exact hmore b hnext
      | bad e => exact hbad b e hnext
      | item a rest =>
        have hshort := P.shorter b a rest hnext
        exact hitem b a rest hnext (ih rest (by omega))
  exact hall _ b (Nat.lt_succ_self _)

/-- **Draining a longer buffer** goes on where draining the shorter one stopped. -/
theorem drain_append (b c : List β) :
    P.drain (b ++ c) = match P.drain b with
      | (xs, .ok rest) => (xs ++ (P.drain (rest ++ c)).1, (P.drain (rest ++ c)).2)
      | (xs, .error e) => (xs, .error e) := by
  induction b using buffer_induction (P := P) with
  | hmore b h => rw [drain_more h]; rfl
  | hbad b e h => rw [drain_bad h, drain_bad (P.bad_append b c e h)]
  | hitem b a rest h ih =>
    rw [drain_item h, drain_item (P.item_append b c a rest h), ih]
    cases hdrain : P.drain rest with
    | mk xs stop =>
      cases stop with
      | ok | error => rfl

theorem drain_prefix (b c : List β) : (P.drain b).1 <+: (P.drain (b ++ c)).1 := by
  rw [drain_append]
  cases P.drain b with
  | mk xs stop =>
    cases stop with
    | ok rest => exact prefix_append ..
    | error e => exact prefix_rfl

theorem isOk_of_append {c : List β} (h : (P.drain (b ++ c)).2.isOk) : (P.drain b).2.isOk := by
  rw [drain_append] at h
  cases hdrain : P.drain b with
  | mk xs stop =>
    cases stop with
    | ok rest => rfl
    | error e =>
      rw [hdrain] at h
      exact h

/-- Before the last bytes of an item have come, the parser waits for them. -/
theorem next_of_part {c : List β} {a : α} (h : P.next (b ++ c) = .item a []) (hc : c ≠ []) :
    P.next b = .more := by
  cases hnext : P.next b with
  | more => rfl
  | bad e =>
    rw [P.bad_append b c e hnext] at h
    cases h
  | item a' rest =>
    rw [P.item_append b c a' rest hnext] at h
    injection h with _ hnil
    exact absurd (append_eq_nil_iff.mp hnil).2 hc

theorem next_of_drain {rest : List β} (h : P.drain b = (xs, .ok rest)) :
    P.next rest = .more := by
  induction b using buffer_induction (P := P) generalizing xs with
  | hmore b hnext =>
    rw [drain_more hnext] at h
    cases h
    exact hnext
  | hbad b e hnext =>
    rw [drain_bad hnext] at h
    cases h
  | hitem b a rest' hnext ih =>
    rw [drain_item hnext] at h
    cases hdrain : P.drain rest' with
    | mk ys stop =>
      rw [hdrain] at h
      cases h
      exact ih hdrain

/-- Drains after every piece of input; a fault ends it. -/
def feed (P : Parser β α ε) : List β → List (List β) → Result β α ε
  | b, [] => ([], .ok b)
  | b, c :: cs => match P.drain (b ++ c) with
    | (xs, .ok rest) => (xs ++ (feed P rest cs).1, (feed P rest cs).2)
    | (xs, .error e) => (xs, .error e)

theorem feed_eq_drain (cs : List (List β)) :
    ∀ b, P.next b = .more → P.feed b cs = P.drain (b ++ cs.flatten) := by
  induction cs with
  | nil =>
    intro b hb
    rw [flatten_nil, append_nil, drain_more hb]
    rfl
  | cons c cs ih =>
    intro b _
    rw [flatten_cons, ← append_assoc, drain_append (b ++ c)]
    cases hdrain : P.drain (b ++ c) with
    | mk xs stop =>
      cases stop with
      | error e => simp only [feed, hdrain]
      | ok rest => simp only [feed, hdrain, ih rest (next_of_drain hdrain)]

end Parser

end Incremental
