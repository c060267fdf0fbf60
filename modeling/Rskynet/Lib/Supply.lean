import Mathlib.Data.List.Perm.Subperm
import Mathlib.Data.List.Basic
import Mathlib.Order.MinMax
import Mathlib.Order.Nat

/-!
# Units that serve requests

A supply has ready units of every kind, and room for new units: so much in all, and so much of each
kind. A request takes a ready unit of its kind, and room for a new one when none is ready. The
promise is that of the waiting requests no more can be served, one after another, than are on their
way already.

* `Supply.serves_of_extra` — **PROVED**: one more unit serves at most one request more.
-/

namespace Supplies

open List

variable {κ : Type*} [DecidableEq κ]

/-- Ready units of every kind, and room for new ones. -/
structure Supply (κ : Type*) where
  ready : κ → ℕ
  room : ℕ
  roomOf : κ → ℕ

def less (f : κ → ℕ) (k j : κ) : ℕ := f j - if j = k then 1 else 0

def more (f : κ → ℕ) (k j : κ) : ℕ := f j + if j = k then 1 else 0

namespace Supply

variable {s s' t : Supply κ} {k : κ} {l : List κ}

/-- A request of a kind finds a ready unit, or room for a new one. -/
def can (s : Supply κ) (k : κ) : Prop := 0 < s.ready k ∨ 0 < s.room ∧ 0 < s.roomOf k

def takeReady (s : Supply κ) (k : κ) : Supply κ := { s with ready := less s.ready k }

def takeRoom (s : Supply κ) (k : κ) : Supply κ :=
  { s with room := s.room - 1, roomOf := less s.roomOf k }

/-- A request takes a unit of its kind. -/
inductive Takes (s : Supply κ) (k : κ) : Supply κ → Prop where
  | ready (h : 0 < s.ready k) : Takes s k (s.takeReady k)
  | room (hnone : s.ready k = 0) (hroom : 0 < s.room) (hroomOf : 0 < s.roomOf k) :
      Takes s k (s.takeRoom k)

theorem Takes.can (h : s.Takes k s') : s.can k := by
  cases h with
  | ready h => exact .inl h
  | room _ hroom hroomOf => exact .inr ⟨hroom, hroomOf⟩

/-- Requests are served one after another. -/
def serves : Supply κ → List κ → Prop
  | _, [] => True
  | s, k :: ks => ∃ s', s.Takes k s' ∧ s'.serves ks

/-! ### Smaller supplies -/

/-- One supply has no more to give than another: where there is no room at all, the room of a kind
does not matter. -/
structure AtMost (s t : Supply κ) : Prop where
  ready : ∀ k, s.ready k ≤ t.ready k
  room : s.room ≤ t.room
  roomOf : ∀ k, min s.room (s.roomOf k) ≤ t.roomOf k

omit [DecidableEq κ] in
theorem AtMost.refl (s : Supply κ) : s.AtMost s :=
  ⟨fun _ => le_rfl, le_rfl, fun _ => min_le_right _ _⟩

omit [DecidableEq κ] in
theorem AtMost.trans {u : Supply κ} (h : s.AtMost t) (h' : t.AtMost u) : s.AtMost u := by
  refine ⟨fun k => (h.ready k).trans (h'.ready k), h.room.trans h'.room, fun k => ?_⟩
  exact (le_min ((min_le_left _ _).trans h.room) (h.roomOf k)).trans (h'.roomOf k)

theorem Takes.atMost (h : s.Takes k s') : s'.AtMost s := by
  cases h with
  | ready _ => exact ⟨fun _ => Nat.sub_le _ _, le_rfl, fun _ => min_le_right _ _⟩
  | room _ _ _ =>
    exact ⟨fun _ => le_rfl, Nat.sub_le _ _, fun _ => (min_le_right _ _).trans (Nat.sub_le _ _)⟩

theorem AtMost.takes (h : s.AtMost t) (htake : s.Takes k s') : ∃ t', t.Takes k t' ∧ s'.AtMost t' := by
  obtain ⟨hready, hroom, hroomOf⟩ := h
  have hreadyk := hready k
  have hroomk := hroomOf k
  by_cases ht : 0 < t.ready k
  · refine ⟨_, .ready ht, ?_⟩
    cases htake with
    | ready hs =>
      refine ⟨fun j => ?_, hroom, hroomOf⟩
      exact Nat.sub_le_sub_right (hready j) _
    | room hnone _ _ =>
      refine ⟨fun j => ?_, (Nat.sub_le _ _).trans hroom, fun j => ?_⟩
      · have hj := hready j
        dsimp only [takeRoom, takeReady, less]
        split_ifs with hjk
        · subst hjk
          omega
        · omega
      · have hj := hroomOf j
        dsimp only [takeRoom, takeReady, less]
        omega
  · cases htake with
    | ready hs => omega
    | room hnone hs hsk =>
      refine ⟨_, .room (by omega) (by omega) (by omega), hready, Nat.sub_le_sub_right hroom _, ?_⟩
      intro j
      have hj := hroomOf j
      dsimp only [takeRoom, less]
      split_ifs <;> omega

theorem AtMost.serves (h : s.AtMost t) (hl : s.serves l) : t.serves l := by
  induction l generalizing s t with
  | nil => trivial
  | cons k l ih =>
    obtain ⟨s', htake, hl⟩ := hl
    obtain ⟨t', htake', h'⟩ := h.takes htake
    exact ⟨t', htake', ih h' hl⟩

theorem serves_can (hl : s.serves l) (hk : k ∈ l) : s.can k := by
  induction l generalizing s with
  | nil => cases hk
  | cons j l ih =>
    obtain ⟨s', htake, hl⟩ := hl
    rcases mem_cons.mp hk with rfl | hk
    · exact htake.can
    · obtain ⟨hready, hroom, hroomOf⟩ := htake.atMost
      have hreadyk := hready k
      have hroomk := hroomOf k
      rcases ih hl hk with hcan | ⟨hcan, hcank⟩
      · exact .inl (by omega)
      · exact .inr ⟨by omega, by omega⟩

/-! ### One unit more -/

/-- One supply has at most one unit more than another: a ready one, or room for one. -/
inductive Extra (s t : Supply κ) : Prop where
  | ready (k : κ) (hready : ∀ j, s.ready j ≤ more t.ready k j) (hroom : s.room ≤ t.room)
      (hroomOf : ∀ j, min s.room (s.roomOf j) ≤ t.roomOf j)
  | room (k : κ) (hready : ∀ j, s.ready j ≤ t.ready j) (hroom : s.room ≤ t.room + 1)
      (hroomOf : ∀ j, min s.room (s.roomOf j) ≤ more t.roomOf k j)

theorem AtMost.extra (h : s.AtMost t) (k : κ) : s.Extra t :=
  .ready k (fun j => (h.ready j).trans (Nat.le_add_right _ _)) h.room h.roomOf

/-- A request that takes from the larger supply takes from the smaller one too, or takes what the
larger one has more. -/
theorem Extra.takes (h : s.Extra t) (htake : s.Takes k s') :
    (∃ t', t.Takes k t' ∧ s'.Extra t') ∨ s'.AtMost t := by
  cases h with
  | ready i hready hroom hroomOf =>
    have hreadyk := hready k
    have hroomk := hroomOf k
    dsimp only [more] at hreadyk
    by_cases ht : 0 < t.ready k
    · -- both supplies have a unit ready
      refine .inl ⟨_, .ready ht, ?_⟩
      cases htake with
      | ready hs =>
        refine .ready i (fun j => ?_) hroom hroomOf
        have hj := hready j
        dsimp only [takeReady, less, more] at hj ⊢
        split_ifs at hj ⊢ with hjk
        all_goals subst_vars
        all_goals omega
      | room hnone hs hsk =>
        refine .ready i (fun j => ?_) ((Nat.sub_le _ _).trans hroom) (fun j => ?_)
        · have hj := hready j
          dsimp only [takeReady, takeRoom, less, more] at hj ⊢
          split_ifs at hj ⊢ with hjk
          all_goals subst_vars
          all_goals omega
        · have hj := hroomOf j
          dsimp only [takeReady, takeRoom, less]
          omega
    · cases htake with
      | ready hs =>
        -- the unit is the one the larger supply has more
        have hik : k = i := by
          by_contra hne
          rw [if_neg hne] at hreadyk
          omega
        subst hik
        refine .inr ⟨fun j => ?_, hroom, hroomOf⟩
        have hj := hready j
        dsimp only [takeReady, less, more] at hj ⊢
        split_ifs at hj ⊢ with hjk
        · omega
        · omega
      | room hnone hs hsk =>
        refine .inl ⟨_, .room (by omega) (by omega) (by omega), ?_⟩
        refine .ready i hready (Nat.sub_le_sub_right hroom _) (fun j => ?_)
        have hj := hroomOf j
        dsimp only [takeRoom, less]
        split_ifs <;> omega
  | room i hready hroom hroomOf =>
    have hreadyk := hready k
    have hroomk := hroomOf k
    dsimp only [more] at hroomk
    by_cases ht : 0 < t.ready k
    · refine .inl ⟨_, .ready ht, ?_⟩
      cases htake with
      | ready hs => exact .room i (fun j => Nat.sub_le_sub_right (hready j) _) hroom hroomOf
      | room hnone hs hsk =>
        refine .room i (fun j => ?_) ((Nat.sub_le _ _).trans hroom) (fun j => ?_)
        · have hj := hready j
          dsimp only [takeReady, takeRoom, less]
          split_ifs with hjk
          · subst hjk
            omega
          · omega
        · have hj := hroomOf j
          dsimp only [takeReady, takeRoom, less, more] at hj ⊢
          omega
    · cases htake with
      | ready hs => omega
      | room hnone hs hsk =>
        by_cases htroom : 0 < t.room ∧ 0 < t.roomOf k
        · refine .inl ⟨_, .room (by omega) htroom.1 htroom.2, ?_⟩
          refine .room i hready (by dsimp only [takeRoom]; omega) (fun j => ?_)
          have hj := hroomOf j
          dsimp only [takeRoom, less, more] at hj ⊢
          split_ifs at hj ⊢ with hjk
          all_goals subst_vars
          all_goals omega
        · -- the smaller supply has no room, so the room taken is the one the larger has more
          refine .inr ⟨hready, by dsimp only [takeRoom]; omega, fun j => ?_⟩
          have hj := hroomOf j
          dsimp only [takeRoom, less, more] at hj ⊢
          by_cases hfull : t.room = 0
          · omega
          · have hik : k = i := by
              by_contra hne
              rw [if_neg hne] at hroomk
              omega
            subst hik
            split_ifs at hj ⊢ with hjk
            · omega
            · omega

theorem serves_of_extra (h : s.Extra t) (hl : s.serves l) :
    ∃ l', l'.Sublist l ∧ l.length ≤ l'.length + 1 ∧ t.serves l' := by
  induction l generalizing s t with
  | nil => exact ⟨[], .slnil, Nat.zero_le _, trivial⟩
  | cons k l ih =>
    obtain ⟨s', htake, hl⟩ := hl
    rcases h.takes htake with ⟨t', htake', hextra⟩ | hmost
    · obtain ⟨l', hsub, hlen, hl'⟩ := ih hextra hl
      exact ⟨k :: l', hsub.cons_cons k, Nat.succ_le_succ hlen, t', htake', hl'⟩
    · exact ⟨l, sublist_cons_self k l, le_rfl, hmost.serves hl⟩

end Supply

/-! ### The promise -/

/-- **Of the waiting requests no more can be served, one after another, than are on their way.** -/
def Covered (s : Supply κ) (waiting : List κ) (coming : ℕ) : Prop :=
  ∀ l, l.Subperm waiting → s.serves l → l.length ≤ coming

namespace Covered

variable {s s' : Supply κ} {k : κ} {waiting waiting' queue : List κ} {coming coming' : ℕ}

theorem of_atMost (hs : s'.AtMost s) (h : Covered s waiting coming) : Covered s' waiting coming :=
  fun l hl hserves => h l hl (hs.serves hserves)

theorem of_subperm (hw : waiting'.Subperm waiting) (h : Covered s waiting coming) :
    Covered s waiting' coming :=
  fun l hl hserves => h l (hl.trans hw) hserves

theorem of_le (hc : coming ≤ coming') (h : Covered s waiting coming) : Covered s waiting coming' :=
  fun l hl hserves => (h l hl hserves).trans hc

theorem of_extra (hs : s'.Extra s) (h : Covered s waiting coming) :
    Covered s' waiting (coming + 1) := by
  intro l hl hserves
  obtain ⟨l', hsub, hlen, hserves'⟩ := Supply.serves_of_extra hs hserves
  have := h l' (hsub.subperm.trans hl) hserves'
  omega

theorem of_takes (htake : s.Takes k s') (h : Covered s (k :: waiting) (coming + 1)) :
    Covered s' waiting coming := by
  intro l hl hserves
  have := h (k :: l) ((subperm_cons k).mpr hl) ⟨s', htake, hserves⟩
  exact Nat.le_of_succ_le_succ this

theorem of_cannot (hcan : ¬ s.can k) (h : Covered s waiting coming) :
    Covered s (k :: waiting) coming := by
  intro l hl hserves
  refine h l ?_ hserves
  have hk : k ∉ l := fun hk => hcan (Supply.serves_can hserves hk)
  have hfilter := hl.filter (· ≠ k)
  have hsame : l.filter (· ≠ k) = l :=
    filter_eq_self.mpr fun j hj => decide_eq_true (ne_of_mem_of_not_mem hj hk)
  rw [hsame, filter_cons_of_neg (by simp)] at hfilter
  exact hfilter.trans filter_sublist.subperm

theorem of_none (hcan : ∀ k ∈ queue, ¬ s.can k) (h : waiting.Subperm (queue ++ waiting')) :
    Covered s waiting waiting'.length := by
  intro l hl hserves
  have hqueue : ∀ k ∈ l, k ∉ queue := fun k hk hkq => hcan k hkq (Supply.serves_can hserves hk)
  have hfilter := (hl.trans h).filter (· ∉ queue)
  rw [filter_eq_self.mpr fun k hk => decide_eq_true (hqueue k hk), filter_append,
    filter_eq_nil_iff.mpr fun k hk => by simpa using hk, nil_append] at hfilter
  exact hfilter.length_le.trans (length_filter_le _ _)

theorem cannot (h : Covered s waiting 0) (hk : k ∈ waiting) : ¬ s.can k := by
  intro hcan
  have htake : ∃ s', s.Takes k s' := by
    by_cases hready : 0 < s.ready k
    · exact ⟨_, .ready hready⟩
    · obtain ⟨hroom, hroomOf⟩ := hcan.resolve_left hready
      exact ⟨_, .room (Nat.eq_zero_of_not_pos hready) hroom hroomOf⟩
  obtain ⟨s', htake⟩ := htake
  exact Nat.not_succ_le_zero 0 (h [k] (singleton_subperm_iff.mpr hk) ⟨s', htake, trivial⟩)

end Covered

end Supplies
