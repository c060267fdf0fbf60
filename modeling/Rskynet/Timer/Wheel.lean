import Mathlib.Algebra.BigOperators.Group.Finset.Basic
import Mathlib.Data.Fintype.Sigma
import Mathlib.Data.Fintype.Sum
import Mathlib.Tactic.DeriveFintype
import Rskynet.Lib.Odometer

/-!
# The hierarchical timer wheel

The wheel of the timer service: 256 near slots for the ticks that share all but the low eight bits with
the current one, and ten levels of 64 slots for the ones further off. An index from keys to places makes
cancelling constant time.

* `place_cases` — **PROVED**: the slot in terms of quotients;
* `place_succ` — **PROVED**: a step of the tick moves only the expiries in the slot that `shift` empties.

The ticks are `u64`s, here numbers below `2 ^ 64`. A `swap_remove` past the end of a slot panics;
`cancel` is `none` there.
-/

namespace Rskynet.Timer

open Odometer

/-! ### The data -/

structure TimerKey where
  handle : ℕ
  session : ℕ
  deriving DecidableEq

/-- A timer: at tick `expire` the answer to `session` is sent to `handle`. -/
structure TimerEvent where
  handle : ℕ
  session : ℕ
  expire : ℕ
  deriving DecidableEq

def TimerEvent.key (event : TimerEvent) : TimerKey := ⟨event.handle, event.session⟩

inductive Slot where
  | near (slot : Fin 256)
  | level (level : Fin 10) (slot : Fin 64)
  deriving DecidableEq, Fintype

structure Location where
  slot : Slot
  index : ℕ
  deriving DecidableEq

structure Wheel where
  time : ℕ
  slots : Slot → List TimerEvent
  locations : TimerKey → Option Location

/-- A wheel at tick `time` with nothing in it; `Wheel::new` is the one at tick `0`. -/
def Wheel.fresh (time : ℕ) : Wheel := ⟨time, fun _ => [], fun _ => none⟩

/-! ### The operations -/

/-- The level of an expiry outside the near wheel: the first whose upper bits agree with the current
tick's. -/
def selected (current expire : ℕ) : Fin 10 :=
  ((List.finRange 10).find? fun level =>
    decide (64 ≤ 8 + (level.val + 1) * 6)
      || decide (expire >>> (8 + (level.val + 1) * 6) = current >>> (8 + (level.val + 1) * 6))).getD 9

/-- The slot of an expiry at the tick `current`. -/
def place (current expire : ℕ) : Slot :=
  if expire ||| 255 = current ||| 255 then .near (Fin.ofNat 256 (expire &&& 255))
  else
    let level := selected current expire
    .level level (Fin.ofNat 64 ((expire >>> (8 + level.val * 6)) &&& 63))

/-- The event as `add` files it: one that is due already expires at the current tick. -/
def TimerEvent.filedAt (event : TimerEvent) (time : ℕ) : TimerEvent :=
  if event.expire ≤ time then { event with expire := time } else event

def Wheel.add (wheel : Wheel) (event : TimerEvent) : Wheel :=
  let event := event.filedAt wheel.time
  let slot := place wheel.time event.expire
  { wheel with
    slots := Function.update wheel.slots slot (wheel.slots slot ++ [event])
    locations := Function.update wheel.locations event.key (some ⟨slot, (wheel.slots slot).length⟩) }

/-- The last entry takes the place of entry `index`; `none` when there is no such entry. -/
def swapRemove (events : List TimerEvent) (index : ℕ) : Option (List TimerEvent) :=
  if index < events.length then
    some (events.getLast?.elim [] fun last => (events.set index last).dropLast)
  else none

/-- The index after an event was moved into `location`. -/
def relocate (locations : TimerKey → Option Location) (location : Location) :
    Option TimerEvent → TimerKey → Option Location
  | some event => Function.update locations event.key (some location)
  | none => locations

def Wheel.cancel (wheel : Wheel) (key : TimerKey) : Option Wheel :=
  match wheel.locations key with
  | none => some wheel
  | some location =>
    (swapRemove (wheel.slots location.slot) location.index).map fun events =>
      { wheel with
        slots := Function.update wheel.slots location.slot events
        locations := relocate (Function.update wheel.locations key none) location events[location.index]? }

def Wheel.forget (wheel : Wheel) (key : TimerKey) : Wheel :=
  { wheel with locations := Function.update wheel.locations key none }

def Wheel.take (wheel : Wheel) (slot : Slot) : Wheel :=
  { wheel with slots := Function.update wheel.slots slot [] }

/-- One round of the loop of `move_list`. -/
def Wheel.refile (wheel : Wheel) (event : TimerEvent) : Wheel := (wheel.forget event.key).add event

def Wheel.moveList (wheel : Wheel) (level : Fin 10) (slot : Fin 64) : Wheel :=
  (wheel.slots (.level level slot)).foldl Wheel.refile (wheel.take (.level level slot))

/-- The loop of `shift` over the levels. -/
def Wheel.shiftLoop : List (Fin 10) → ℕ → Wheel → Wheel
  | [], _, wheel => wheel
  | level :: levels, shifted, wheel =>
    if shifted &&& 63 ≠ 0 then wheel.moveList level (Fin.ofNat 64 (shifted &&& 63))
    else shiftLoop levels (shifted >>> 6) wheel

def Wheel.shift (wheel : Wheel) : Wheel :=
  let wheel := { wheel with time := (wheel.time + 1) % 2 ^ 64 }
  if wheel.time = 0 then wheel.moveList 9 0
  else if wheel.time &&& 255 ≠ 0 then wheel
  else wheel.shiftLoop (List.finRange 10) (wheel.time >>> 8)

def Wheel.execute (wheel : Wheel) : Wheel × List TimerEvent :=
  let slot := Slot.near (Fin.ofNat 256 (wheel.time &&& 255))
  ((wheel.slots slot).foldl (fun wheel event => wheel.forget event.key) (wheel.take slot), wheel.slots slot)

/-! ### Slots by quotients -/

def unit (l : ℕ) : ℕ := 2 ^ (8 + l * 6)

theorem unit_pos (l : ℕ) : 0 < unit l := Nat.two_pow_pos _

theorem unit_succ (l : ℕ) : unit (l + 1) = unit l * 64 := by
  have hexp : 8 + (l + 1) * 6 = (8 + l * 6) + 6 := by omega
  rw [unit, hexp, pow_add]
  rfl

theorem unit_chain : Chain unit := fun l => ⟨64, unit_succ l⟩

theorem shiftRight_eq_div_unit (x l : ℕ) : x >>> (8 + l * 6) = x / unit l := Nat.shiftRight_eq_div_pow _ _

theorem and_255 (x : ℕ) : x &&& 255 = x % 256 := Nat.and_two_pow_sub_one_eq_mod x 8

theorem and_63 (x : ℕ) : x &&& 63 = x % 64 := Nat.and_two_pow_sub_one_eq_mod x 6

/-- Setting the low eight bits compares the rest. -/
theorem or_255_eq_iff (x y : ℕ) : x ||| 255 = y ||| 255 ↔ x / unit 0 = y / unit 0 := by
  have hunit : ∀ z : ℕ, z / unit 0 = z >>> 8 := fun z => (Nat.shiftRight_eq_div_pow z 8).symm
  rw [hunit, hunit]
  constructor
  · intro h
    have hshift := congrArg (· >>> 8) h
    simpa [Nat.shiftRight_or_distrib] using hshift
  · intro h
    apply Nat.eq_of_testBit_eq
    intro i
    rw [Nat.testBit_or, Nat.testBit_or]
    by_cases hi : i < 8
    · have hlow : (255 : ℕ).testBit i = true := by
        simpa [hi] using Nat.testBit_two_pow_sub_one 8 i
      rw [hlow, Bool.or_true, Bool.or_true]
    · have hbit : ∀ z : ℕ, z.testBit i = (z >>> 8).testBit (i - 8) := by
        intro z
        rw [Nat.testBit_shiftRight]
        congr 1
        omega
      rw [hbit x, hbit y, h]

theorem place_near {t x : ℕ} (h : x / unit 0 = t / unit 0) : place t x = .near (Fin.ofNat 256 x) := by
  rw [place, if_pos ((or_255_eq_iff x t).mpr h), and_255]
  congr 1
  exact Fin.ext (Nat.mod_mod x 256)

theorem selected_eq {t x : ℕ} {l : Fin 10} (h : Differs unit t x l) : selected t x = l := by
  have hfind : (List.finRange 10).find? (fun level =>
      decide (64 ≤ 8 + (level.val + 1) * 6)
        || decide (x >>> (8 + (level.val + 1) * 6) = t >>> (8 + (level.val + 1) * 6))) = some l := by
    rw [List.find?_eq_some_iff_getElem]
    refine ⟨?_, l.val, by simp, by simp, ?_⟩
    · simp only [shiftRight_eq_div_unit, h.2, decide_true, Bool.or_true]
    · intro j hj
      have hlow : ¬ 64 ≤ 8 + (j + 1) * 6 := by omega
      have hdiff : ¬ x / unit (j + 1) = t / unit (j + 1) := fun hagree => h.1 (unit_chain.agrees hj hagree)
      simp [shiftRight_eq_div_unit, hlow, hdiff]
  rw [selected, hfind, Option.getD_some]

/-- **The slot of a later expiry.** -/
theorem place_level {t x : ℕ} {l : Fin 10} (h : Differs unit t x l) :
    place t x = .level l (Fin.ofNat 64 (x / unit l)) := by
  have hnear : ¬ x ||| 255 = t ||| 255 := by
    intro heq
    exact h.1 (unit_chain.agrees (Nat.zero_le _) ((or_255_eq_iff x t).mp heq))
  rw [place, if_neg hnear, selected_eq h]
  show Slot.level l (Fin.ofNat 64 ((x >>> (8 + l.val * 6)) &&& 63)) = _
  rw [shiftRight_eq_div_unit, and_63]
  congr 1
  exact Fin.ext (Nat.mod_mod _ 64)

theorem place_cases {t x : ℕ} (ht : t < 2 ^ 64) (hx : x < 2 ^ 64) :
    x / unit 0 = t / unit 0 ∨ ∃ l : Fin 10, Differs unit t x l := by
  by_cases h : x / unit 0 = t / unit 0
  · exact .inl h
  · have htop : x / unit 10 = t / unit 10 := by
      rw [Nat.div_eq_of_lt (lt_trans hx (by decide)), Nat.div_eq_of_lt (lt_trans ht (by decide))]
    obtain ⟨l, hl, hdiff⟩ := exists_differs 10 h htop
    exact .inr ⟨⟨l, hl⟩, hdiff⟩

theorem eq_of_place_near {t x : ℕ} (ht : t < 2 ^ 64) (hx : x < 2 ^ 64)
    (h : place t x = .near (Fin.ofNat 256 t)) : x = t := by
  rcases place_cases ht hx with hnear | ⟨l, hdiff⟩
  · rw [place_near hnear] at h
    have hmod : x % 256 = t % 256 := congrArg Fin.val (Slot.near.inj h)
    have hdiv : x / 256 = t / 256 := hnear
    omega
  · rw [place_level hdiff] at h
    cases h

/-! ### A step of the tick -/

/-- **A step within the block of the near wheel** moves nothing. -/
theorem place_succ_of_not_dvd {t x : ℕ} (ht : t < 2 ^ 64) (hx : x < 2 ^ 64) (hdvd : ¬ unit 0 ∣ t + 1) :
    place (t + 1) x = place t x := by
  have hnone : ∀ l, ¬ unit l ∣ t + 1 := fun l h => hdvd (Nat.dvd_trans (unit_chain.dvd (Nat.zero_le l)) h)
  rcases place_cases ht hx with hnear | ⟨l, hdiff⟩
  · have hnear' : x / unit 0 = (t + 1) / unit 0 := by
      rw [Nat.succ_div_of_not_dvd hdvd]
      exact hnear
    rw [place_near hnear, place_near hnear']
  · rw [place_level hdiff, place_level (differs_succ unit_chain (hnone l) hdiff)]

/-- **A step that turns over the wheels below level `k`.**  A later expiry keeps its slot unless it is in
the slot of level `k` that the new tick has reached. -/
theorem place_succ_of_dvd {t x : ℕ} {k : Fin 10} (ht : t < 2 ^ 64) (hx : x < 2 ^ 64) (hlate : t + 1 ≤ x)
    (hdvd : unit k ∣ t + 1) (hturn : (t + 1) / unit k % 64 ≠ 0)
    (hslot : place t x ≠ .level k (Fin.ofNat 64 ((t + 1) / unit k))) : place (t + 1) x = place t x := by
  have hkeep : ∀ l, k.val < l → ¬ unit l ∣ t + 1 := by
    intro l hl h
    have hnext : unit (k.val + 1) ∣ t + 1 := Nat.dvd_trans (unit_chain.dvd hl) h
    rw [unit_succ] at hnext
    obtain ⟨c, hc⟩ := hnext
    rw [hc, Nat.mul_assoc, Nat.mul_div_cancel_left _ (unit_pos _), Nat.mul_mod_right] at hturn
    exact hturn rfl
  rcases place_cases ht hx with hnear | ⟨l, hdiff⟩
  · exact absurd hnear
      (not_agrees_of_dvd (Nat.dvd_trans (unit_chain.dvd (Nat.zero_le k.val)) hdvd) hlate)
  rcases Nat.lt_trichotomy l.val k.val with hlt | heq | hgt
  · exact absurd hdiff.2 (not_agrees_of_dvd (Nat.dvd_trans (unit_chain.dvd hlt) hdvd) hlate)
  · -- on level `k` itself only the slot of the new tick's digit has to move
    obtain rfl : l = k := Fin.ext heq
    have habove : x / unit (l.val + 1) = (t + 1) / unit (l.val + 1) := by
      rw [Nat.succ_div_of_not_dvd (hkeep _ (Nat.lt_succ_self _))]
      exact hdiff.2
    have hhere : x / unit l ≠ (t + 1) / unit l := by
      intro h
      apply hslot
      rw [place_level hdiff, h]
    rw [place_level hdiff, place_level ⟨hhere, habove⟩]
  · rw [place_level hdiff, place_level (differs_succ unit_chain (hkeep l hgt) hdiff)]

end Rskynet.Timer
