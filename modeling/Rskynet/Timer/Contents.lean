import Rskynet.Timer.Index

/-!
# What is in a wheel

The events in the slots of a wheel, counted, and the two invariants that every operation keeps.

* `amount_add`, … — **PROVED**: what the operations do to the amounts;
* `ok_add`, … — **PROVED**: the operations keep the invariant.
-/

namespace Rskynet.Timer

open Odometer Finset Tables
open Function (update update_of_ne update_self)

variable {event : TimerEvent} {key : TimerKey}

/-! ### Filing and counting -/

@[simp] theorem filedAt_expire (event : TimerEvent) (time : ℕ) :
    (event.filedAt time).expire = max event.expire time := by
  rw [TimerEvent.filedAt]
  split
  · rename_i h
    exact (max_eq_right h).symm
  · exact (max_eq_left (by omega)).symm

theorem filedAt_of_le {time : ℕ} (h : time ≤ event.expire) : event.filedAt time = event := by
  rw [TimerEvent.filedAt]
  split
  · rename_i hle
    obtain rfl : event.expire = time := le_antisymm hle h
    rfl
  · rfl

def Wheel.amount (wheel : Wheel) (p : TimerEvent → Bool) : ℕ := ∑ slot, (wheel.slots slot).countP p

def Wheel.present (wheel : Wheel) (event : TimerEvent) : ℕ := wheel.amount fun e => decide (e = event)

variable {wheel wheel' : Wheel} {p : TimerEvent → Bool}

theorem amount_put (wheel : Wheel) (p : TimerEvent → Bool) (slot : Slot) (events : List TimerEvent)
    (locations : TimerKey → Option Location) (time : ℕ) :
    (Wheel.mk time (update wheel.slots slot events) locations).amount p
        + (wheel.slots slot).countP p
      = wheel.amount p + events.countP p :=
  Interleave.sum_update_add wheel.slots slot events (List.countP p)

theorem amount_take (wheel : Wheel) (p : TimerEvent → Bool) (slot : Slot) :
    (wheel.take slot).amount p + (wheel.slots slot).countP p = wheel.amount p := by
  have h := amount_put wheel p slot [] wheel.locations wheel.time
  rwa [List.countP_nil, Nat.add_zero] at h

theorem amount_pos (h : 0 < wheel.amount p) : ∃ slot, ∃ event ∈ wheel.slots slot, p event = true := by
  by_contra hnone
  push Not at hnone
  have hzero : wheel.amount p = 0 := by
    apply sum_eq_zero
    intro slot _
    rw [List.countP_eq_zero]
    exact hnone slot
  omega

theorem amount_fresh (time : ℕ) : (Wheel.fresh time).amount p = 0 :=
  sum_eq_zero fun _ _ => rfl

theorem countP_le_amount (wheel : Wheel) (p : TimerEvent → Bool) (slot : Slot) :
    (wheel.slots slot).countP p ≤ wheel.amount p :=
  single_le_sum (f := fun slot => (wheel.slots slot).countP p) (fun _ _ => Nat.zero_le _)
    (mem_univ slot)

theorem amount_forget (key : TimerKey) : (wheel.forget key).amount p = wheel.amount p := by
  rfl

theorem amount_add (wheel : Wheel) (p : TimerEvent → Bool) (event : TimerEvent) :
    (wheel.add event).amount p = wheel.amount p + if p (event.filedAt wheel.time) then 1 else 0 := by
  have h := amount_put wheel p (place wheel.time (event.filedAt wheel.time).expire)
    (wheel.slots (place wheel.time (event.filedAt wheel.time).expire) ++ [event.filedAt wheel.time])
    (wheel.add event).locations wheel.time
  rw [List.countP_append, List.countP_singleton] at h
  have hadd : (wheel.add event).amount p = (Wheel.mk wheel.time
      (update wheel.slots (place wheel.time (event.filedAt wheel.time).expire)
        (wheel.slots (place wheel.time (event.filedAt wheel.time).expire) ++ [event.filedAt wheel.time]))
      (wheel.add event).locations).amount p := rfl
  omega

/-! ### The index -/

def Wheel.found (wheel : Wheel) (key : TimerKey) : Option TimerEvent :=
  (wheel.locations key).bind fun location => (wheel.slots location.slot)[location.index]?

/-- The entries of the index for other keys than `keys` point at events with their key. -/
def Wheel.LocatedBut (wheel : Wheel) (keys : List TimerKey) : Prop :=
  ∀ key location, wheel.locations key = some location →
    key ∈ keys ∨ ∃ event, (wheel.slots location.slot)[location.index]? = some event ∧ event.key = key

/-- **The invariant of the wheel.** -/
structure Wheel.Ok (wheel : Wheel) : Prop where
  time_lt : wheel.time < 2 ^ 64
  placed : ∀ slot, ∀ event ∈ wheel.slots slot,
    wheel.time ≤ event.expire ∧ event.expire < 2 ^ 64 ∧ place wheel.time event.expire = slot
  located : wheel.LocatedBut []

theorem Wheel.Ok.locate (hok : wheel.Ok) {location : Location}
    (h : wheel.locations key = some location) :
    ∃ event, (wheel.slots location.slot)[location.index]? = some event ∧ event.key = key :=
  (hok.located key location h).resolve_left List.not_mem_nil

theorem ok_fresh {time : ℕ} (h : time < 2 ^ 64) : (Wheel.fresh time).Ok := by
  refine ⟨h, ?_, ?_⟩
  · intro slot event hmem
    exact absurd hmem List.not_mem_nil
  · intro key location hloc
    cases hloc

theorem locatedBut_iff (wheel : Wheel) (keys : List TimerKey) :
    wheel.LocatedBut keys ↔ Points (wheel.indexBut keys) wheel.keyAt := by
  constructor
  · intro h key location hlocation
    unfold Wheel.indexBut at hlocation
    split at hlocation
    · cases hlocation
    · rename_i hkey
      obtain ⟨event, hevent, rfl⟩ := (h key location hlocation).resolve_left hkey
      simp [Wheel.keyAt, hevent]
  · intro h key location hlocation
    by_cases hkey : key ∈ keys
    · exact .inl hkey
    · have hkeyAt := h key location (by rw [Wheel.indexBut, if_neg hkey, hlocation])
      simpa [Wheel.keyAt, hkey] using hkeyAt

theorem located_forget {keys : List TimerKey} (h : wheel.LocatedBut (key :: keys)) :
    (wheel.forget key).LocatedBut keys := by
  intro k location hloc
  have hne : k ≠ key := by
    rintro rfl
    simp only [Wheel.forget, update_self] at hloc
    cases hloc
  simp only [Wheel.forget, update_of_ne hne] at hloc
  rcases h k location hloc with hmem | hevent
  · exact .inl ((List.mem_cons.mp hmem).resolve_left hne)
  · exact .inr hevent

theorem located_add {keys : List TimerKey} (event : TimerEvent) (h : wheel.LocatedBut keys) :
    (wheel.add event).LocatedBut keys := by
  intro key location hloc
  by_cases hkey : key = (event.filedAt wheel.time).key
  · subst hkey
    simp only [Wheel.add, update_self, Option.some.injEq] at hloc
    subst hloc
    refine .inr ⟨event.filedAt wheel.time, ?_, rfl⟩
    simp [Wheel.add]
  · simp only [Wheel.add, update_of_ne hkey] at hloc
    refine (h key location hloc).imp_right ?_
    rintro ⟨e, hget, he⟩
    refine ⟨e, ?_, he⟩
    by_cases hslot : location.slot = place wheel.time (event.filedAt wheel.time).expire
    · obtain ⟨hlt, -⟩ := List.getElem?_eq_some_iff.mp hget
      simp only [Wheel.add, hslot, update_self]
      rw [hslot] at hlt hget
      rw [List.getElem?_append_left hlt]
      exact hget
    · simpa only [Wheel.add, update_of_ne hslot] using hget

theorem located_take (wheel : Wheel) (slot : Slot) (h : wheel.LocatedBut []) :
    (wheel.take slot).LocatedBut ((wheel.slots slot).map TimerEvent.key) :=
  (locatedBut_iff _ _).mpr (points_take ((locatedBut_iff _ _).mp h) slot)

/-! ### Adding -/

theorem place_filedAt (hok : wheel.Ok) (hexpire : event.expire < 2 ^ 64) :
    wheel.time ≤ (event.filedAt wheel.time).expire ∧ (event.filedAt wheel.time).expire < 2 ^ 64 := by
  rw [filedAt_expire]
  exact ⟨le_max_right _ _, max_lt hexpire hok.time_lt⟩

theorem ok_add (hok : wheel.Ok) (hexpire : event.expire < 2 ^ 64) :
    (wheel.add event).Ok := by
  refine ⟨hok.time_lt, ?_, located_add event hok.located⟩
  intro slot e hmem
  rcases mem_add_slots hmem with hold | ⟨rfl, rfl⟩
  · exact hok.placed slot e hold
  · exact ⟨(place_filedAt hok hexpire).1, (place_filedAt hok hexpire).2, rfl⟩

/-! ### Cancelling -/

/-- **What `cancel` does.**  With an entry in the index one event with the key goes, without one nothing
changes; in neither case is there a panic. -/
theorem cancel_cases (hok : wheel.Ok) (key : TimerKey) :
    (wheel.locations key = none ∧ wheel.found key = none ∧ wheel.cancel key = some wheel)
      ∨ ∃ location event rest, wheel.locations key = some location ∧ wheel.found key = some event
        ∧ event.key = key ∧ (wheel.slots location.slot).Perm (event :: rest)
        ∧ wheel.cancel key = some ⟨wheel.time, update wheel.slots location.slot rest,
            relocate (update wheel.locations key none) location rest[location.index]?⟩
        ∧ Wheel.LocatedBut ⟨wheel.time, update wheel.slots location.slot rest,
            relocate (update wheel.locations key none) location rest[location.index]?⟩ [] := by
  cases hloc : wheel.locations key with
  | none =>
    refine .inl ⟨rfl, ?_, ?_⟩
    · rw [Wheel.found, hloc, Option.bind_none]
    · rw [Wheel.cancel, hloc]
  | some location =>
    obtain ⟨event, hget, hkey⟩ := hok.locate hloc
    obtain ⟨rest, hrest, hperm, hmoved, hother⟩ := swapRemove_spec hget
    refine .inr ⟨location, event, rest, rfl, ?_, hkey, hperm, ?_, ?_⟩
    · rw [Wheel.found, hloc, Option.bind_some, hget]
    · rw [Wheel.cancel, hloc]
      simp only [hrest, Option.map_some]
    · have hpoints := (locatedBut_iff _ _).mp hok.located
      have hcases := swap_cases (List.getElem?_eq_some_iff.mp hget).1 hperm.length_eq hmoved
      have hkeyAt : wheel.keyAt location = some key := by simp [Wheel.keyAt, hget, hkey]
      rw [indexBut_nil] at hpoints
      rw [locatedBut_iff, indexBut_nil, keyAt_swap hperm.length_eq hother]
      exact points_swap hkeyAt hcases hpoints

theorem found_key (hok : wheel.Ok) (h : wheel.found key = some event) :
    event.key = key := by
  rcases cancel_cases hok key with ⟨-, hfound, -⟩ | ⟨_, e, _, -, hfound, hkey, -⟩
  · rw [hfound] at h
    cases h
  · rw [hfound] at h
    exact Option.some.inj h ▸ hkey

/-- **`cancel` keeps the invariant** and takes the found event out. -/
theorem cancel_spec (hok : wheel.Ok) (key : TimerKey) :
    ∃ wheel', wheel.cancel key = some wheel' ∧ wheel'.Ok ∧ wheel'.time = wheel.time
      ∧ ∀ p, wheel.amount p = wheel'.amount p + (wheel.found key).toList.countP p := by
  rcases cancel_cases hok key with ⟨-, hfound, hcancel⟩ | ⟨location, event, rest, -, hfound, -, hperm, hcancel, hloc⟩
  · refine ⟨wheel, hcancel, hok, rfl, ?_⟩
    intro p
    rw [hfound, Option.toList_none, List.countP_nil, Nat.add_zero]
  · refine ⟨_, hcancel, ⟨hok.time_lt, ?_, hloc⟩, rfl, ?_⟩
    · intro slot e hmem
      by_cases hslot : slot = location.slot
      · subst hslot
        simp only [update_self] at hmem
        exact hok.placed _ e (hperm.mem_iff.mpr (List.mem_cons_of_mem _ hmem))
      · simp only [update_of_ne hslot] at hmem
        exact hok.placed slot e hmem
    · intro p
      have hput := amount_put wheel p location.slot rest
        (relocate (update wheel.locations key none) location rest[location.index]?) wheel.time
      have hcount := hperm.countP_eq p
      rw [List.countP_cons] at hcount
      rw [hfound, Option.toList_some, List.countP_singleton]
      omega

/-! ### Moving a slot -/

/-- **The loop of `move_list`.** -/
theorem refile_spec (wheel : Wheel) (events : List TimerEvent) (hlate : ∀ event ∈ events, wheel.time ≤ event.expire)
    (hloc : wheel.LocatedBut (events.map TimerEvent.key)) :
    (events.foldl Wheel.refile wheel).time = wheel.time
      ∧ (events.foldl Wheel.refile wheel).LocatedBut []
      ∧ (∀ p, (events.foldl Wheel.refile wheel).amount p = wheel.amount p + events.countP p)
      ∧ ∀ slot, ∀ e ∈ (events.foldl Wheel.refile wheel).slots slot,
        e ∈ wheel.slots slot ∨ (e ∈ events ∧ slot = place wheel.time e.expire) := by
  induction events generalizing wheel with
  | nil => exact ⟨rfl, hloc, fun p => by rw [List.foldl_nil, List.countP_nil, Nat.add_zero],
      fun slot e h => .inl h⟩
  | cons event events ih =>
    have hfiled : event.filedAt wheel.time = event := filedAt_of_le (hlate event List.mem_cons_self)
    obtain ⟨htime, hlocated, hamount, hslots⟩ := ih (wheel.refile event)
      (fun e he => hlate e (List.mem_cons_of_mem _ he)) (located_add event (located_forget hloc))
    refine ⟨htime, hlocated, ?_, ?_⟩
    · intro p
      have hadd : (wheel.refile event).amount p = wheel.amount p + if p event then 1 else 0 := by
        rw [Wheel.refile, amount_add, amount_forget]
        exact congrArg (fun x => wheel.amount p + if p x then 1 else 0) hfiled
      rw [List.foldl_cons, hamount p, hadd, List.countP_cons]
      omega
    · intro slot e hmem
      rcases hslots slot e hmem with hold | ⟨hnew, hplace⟩
      · rcases mem_add_slots hold with hold' | ⟨he, hplace⟩
        · exact .inl hold'
        · have he' : e = event := he.trans hfiled
          refine .inr ⟨he' ▸ List.mem_cons_self, ?_⟩
          rw [hplace, he']
          exact congrArg (fun x => place wheel.time (TimerEvent.expire x)) hfiled
      · exact .inr ⟨List.mem_cons_of_mem _ hnew, hplace⟩


/-- The wheel at the next tick, before the slot of that tick is moved. -/
def Wheel.tick (wheel : Wheel) : Wheel := { wheel with time := wheel.time + 1 }

/-- **Moving the slot that the tick has reached.** -/
theorem moveList_spec {k : Fin 10} (hok : wheel.Ok) (hmax : wheel.time + 1 < 2 ^ 64)
    (hlate : ∀ slot, ∀ event ∈ wheel.slots slot, wheel.time + 1 ≤ event.expire)
    (hdvd : unit k ∣ wheel.time + 1) (hturn : (wheel.time + 1) / unit k % 64 ≠ 0) :
    (wheel.tick.moveList k (Fin.ofNat 64 ((wheel.time + 1) / unit k))).Ok
      ∧ (wheel.tick.moveList k (Fin.ofNat 64 ((wheel.time + 1) / unit k))).time = wheel.time + 1
      ∧ ∀ p, (wheel.tick.moveList k (Fin.ofNat 64 ((wheel.time + 1) / unit k))).amount p = wheel.amount p := by
  generalize hslot : Fin.ofNat 64 ((wheel.time + 1) / unit k) = slot at *
  have hloc : (wheel.tick.take (.level k slot)).LocatedBut ((wheel.slots (.level k slot)).map TimerEvent.key) :=
    located_take wheel.tick (.level k slot) hok.located
  obtain ⟨htime, hlocated, hamount, hslots⟩ := refile_spec (wheel.tick.take (.level k slot))
    (wheel.slots (.level k slot)) (hlate _) hloc
  refine ⟨⟨?_, ?_, hlocated⟩, htime, ?_⟩
  · exact htime ▸ hmax
  · intro s e hmem
    have htime' : (wheel.tick.moveList k slot).time = wheel.time + 1 := htime
    rw [htime']
    rcases hslots s e hmem with hold | ⟨hmoved, hplace⟩
    · -- an event of another slot has kept its place
      have hne : s ≠ .level k slot := by
        rintro rfl
        simp only [Wheel.take, update_self] at hold
        exact absurd hold List.not_mem_nil
      have hmem' : e ∈ wheel.slots s := by
        simpa only [Wheel.take, Wheel.tick, update_of_ne hne] using hold
      obtain ⟨-, hlt, hplace⟩ := hok.placed s e hmem'
      refine ⟨hlate s e hmem', hlt, ?_⟩
      rw [place_succ_of_dvd hok.time_lt hlt (hlate s e hmem') hdvd hturn, hplace]
      rw [hplace, hslot]
      exact hne
    · obtain ⟨-, hlt, -⟩ := hok.placed _ e hmoved
      exact ⟨hlate _ e hmoved, hlt, hplace.symm⟩
  · intro p
    have htake := amount_take wheel.tick p (.level k slot)
    have hmove : (wheel.tick.moveList k slot).amount p
        = (wheel.tick.take (.level k slot)).amount p + (wheel.slots (.level k slot)).countP p := hamount p
    have htick : wheel.tick.amount p = wheel.amount p := by
      rfl
    have hsame : wheel.tick.slots (.level k slot) = wheel.slots (.level k slot) := rfl
    rw [hsame] at htake
    omega

/-! ### The step of the tick -/

/-- **The loop of `shift`** moves the slot of the lowest digit of the tick that is not zero. -/
theorem shiftLoop_eq {time : ℕ} (hpos : 0 < time) (hlt : time < 2 ^ 64) (n : ℕ) (hn : n ≤ 10)
    (hdvd : unit (10 - n) ∣ time) :
    ∃ k : Fin 10, unit k ∣ time ∧ time / unit k % 64 ≠ 0
      ∧ ∀ w : Wheel, w.shiftLoop ((List.finRange 10).drop (10 - n)) (time / unit (10 - n))
        = w.moveList k (Fin.ofNat 64 (time / unit k)) := by
  induction n with
  | zero =>
    have hle : unit 10 ≤ time := Nat.le_of_dvd hpos hdvd
    have hbig : 2 ^ 64 ≤ unit 10 := by decide
    omega
  | succ n ih =>
    have hj : 10 - (n + 1) < (List.finRange 10).length := by
      rw [List.length_finRange]
      omega
    have hnext : 10 - (n + 1) + 1 = 10 - n := by omega
    by_cases hdigit : time / unit (10 - (n + 1)) % 64 = 0
    · -- this digit is zero: the next unit divides the tick as well
      have hdvd' : unit (10 - n) ∣ time := by
        obtain ⟨c, hc⟩ := hdvd
        rw [hc, Nat.mul_div_cancel_left _ (unit_pos _)] at hdigit
        obtain ⟨d, hd⟩ := Nat.dvd_of_mod_eq_zero hdigit
        rw [← hnext, unit_succ, hc, hd]
        exact ⟨d, by rw [Nat.mul_assoc]⟩
      obtain ⟨k, hk, hturn, hloop⟩ := ih (by omega) hdvd'
      refine ⟨k, hk, hturn, ?_⟩
      intro w
      have hshift : (time / unit (10 - (n + 1))) >>> 6 = time / unit (10 - n) := by
        rw [Nat.shiftRight_eq_div_pow, Nat.div_div_eq_div_mul, ← hnext, unit_succ]
      rw [List.drop_eq_getElem_cons hj, Wheel.shiftLoop, and_63, hdigit, if_neg (fun h => h rfl), hshift, hnext]
      exact hloop w
    · refine ⟨⟨10 - (n + 1), by omega⟩, hdvd, hdigit, ?_⟩
      intro w
      rw [List.drop_eq_getElem_cons hj, Wheel.shiftLoop, and_63, if_pos hdigit]
      congr 1
      · simp
      · exact Fin.ext (Nat.mod_mod _ 64)

/-- **`shift` keeps the invariant and every event**, when the events of the current tick are out. -/
theorem shift_spec (hok : wheel.Ok) (hmax : wheel.time + 1 < 2 ^ 64)
    (hlate : ∀ slot, ∀ event ∈ wheel.slots slot, wheel.time + 1 ≤ event.expire) :
    wheel.shift.Ok ∧ wheel.shift.time = wheel.time + 1 ∧ ∀ p, wheel.shift.amount p = wheel.amount p := by
  have htick : ({ wheel with time := (wheel.time + 1) % 2 ^ 64 } : Wheel) = wheel.tick := by
    rw [Wheel.tick, Nat.mod_eq_of_lt hmax]
  have hne : wheel.tick.time ≠ 0 := Nat.succ_ne_zero _
  rw [Wheel.shift, htick]
  simp only [if_neg hne, and_255]
  have htime : wheel.tick.time = wheel.time + 1 := rfl
  rw [htime]
  by_cases hdvd : (wheel.time + 1) % 256 = 0
  · rw [if_neg (fun h => h hdvd)]
    obtain ⟨k, hk, hturn, hloop⟩ := shiftLoop_eq (Nat.succ_pos wheel.time) hmax 10 le_rfl
      (Nat.dvd_of_mod_eq_zero hdvd)
    have hshift : (wheel.time + 1) >>> 8 = (wheel.time + 1) / unit (10 - 10) := Nat.shiftRight_eq_div_pow _ _
    rw [hshift]
    have hloop' := hloop wheel.tick
    rw [Nat.sub_self, List.drop_zero] at hloop'
    rw [hloop']
    exact moveList_spec hok hmax hlate hk hturn
  · rw [if_pos hdvd]
    have hnot : ¬ unit 0 ∣ wheel.time + 1 := fun h => hdvd (Nat.mod_eq_zero_of_dvd h)
    refine ⟨⟨hmax, ?_, hok.located⟩, rfl, ?_⟩
    · intro slot event hmem
      obtain ⟨-, hlt, hplace⟩ := hok.placed slot event hmem
      exact ⟨hlate slot event hmem, hlt, (place_succ_of_not_dvd hok.time_lt hlt hnot).trans hplace⟩
    · intro p
      rfl

/-! ### Taking the current tick out -/

theorem foldl_forget (wheel : Wheel) (events : List TimerEvent) :
    (events.foldl (fun wheel event => wheel.forget event.key) wheel).time = wheel.time
      ∧ (events.foldl (fun wheel event => wheel.forget event.key) wheel).slots = wheel.slots := by
  induction events generalizing wheel with
  | nil => exact ⟨rfl, rfl⟩
  | cons event events ih => exact ih (wheel.forget event.key)

variable (events : List TimerEvent)

theorem located_foldl_forget (h : wheel.LocatedBut (events.map TimerEvent.key)) :
    (events.foldl (fun wheel event => wheel.forget event.key) wheel).LocatedBut [] := by
  induction events generalizing wheel with
  | nil => exact h
  | cons event events ih => exact ih (located_forget h)

/-- **`execute` takes out exactly the events of the current tick.** -/
theorem execute_spec (hok : wheel.Ok) :
    wheel.execute.1.Ok ∧ wheel.execute.1.time = wheel.time
      ∧ (∀ event ∈ wheel.execute.2, event.expire = wheel.time)
      ∧ (∀ slot, ∀ event ∈ wheel.execute.1.slots slot, wheel.time + 1 ≤ event.expire)
      ∧ ∀ p, wheel.amount p = wheel.execute.1.amount p + wheel.execute.2.countP p := by
  have hslot : Fin.ofNat 256 (wheel.time &&& 255) = Fin.ofNat 256 wheel.time := by
    rw [and_255]
    exact Fin.ext (Nat.mod_mod _ 256)
  simp only [Wheel.execute, hslot]
  generalize hnow : Slot.near (Fin.ofNat 256 wheel.time) = now
  obtain ⟨htime, hslots⟩ := foldl_forget (wheel.take now) (wheel.slots now)
  have hrest : ∀ slot, ∀ event ∈ (wheel.take now).slots slot, slot ≠ now ∧ event ∈ wheel.slots slot := by
    intro slot event hmem
    have hne : slot ≠ now := by
      rintro rfl
      simp only [Wheel.take, update_self] at hmem
      exact absurd hmem List.not_mem_nil
    exact ⟨hne, by simpa only [Wheel.take, update_of_ne hne] using hmem⟩
  refine ⟨⟨?_, ?_, located_foldl_forget _ (located_take wheel now hok.located)⟩, htime, ?_, ?_, ?_⟩
  · rw [htime]
    exact hok.time_lt
  · rw [htime, hslots]
    intro slot event hmem
    exact hok.placed slot event (hrest slot event hmem).2
  · intro event hmem
    obtain ⟨-, hlt, hplace⟩ := hok.placed now event hmem
    exact eq_of_place_near hok.time_lt hlt (hplace.trans hnow.symm)
  · rw [hslots]
    intro slot event hmem
    obtain ⟨hne, hmem'⟩ := hrest slot event hmem
    obtain ⟨hle, -, hplace⟩ := hok.placed slot event hmem'
    -- an event of the current tick would be in the slot that was emptied
    have hnot : event.expire ≠ wheel.time := by
      intro h
      apply hne
      rw [← hplace, h, place_near rfl, hnow]
    omega
  · intro p
    have htake := amount_take wheel p now
    have hforget : ((wheel.slots now).foldl (fun wheel event => wheel.forget event.key) (wheel.take now)).amount p
        = (wheel.take now).amount p := by
      rw [Wheel.amount, Wheel.amount, hslots]
    omega

/-! ### One event a key -/

def hasKey (key : TimerKey) (event : TimerEvent) : Bool := decide (event.key = key)

/-- **The index is complete**: a key has an entry exactly when an event has it, and no two events share
one. -/
def Wheel.Keyed (wheel : Wheel) : Prop :=
  ∀ key, wheel.amount (hasKey key) = if (wheel.locations key).isSome then 1 else 0

theorem keyed_fresh (time : ℕ) : (Wheel.fresh time).Keyed := fun _ => amount_fresh time

theorem Wheel.Keyed.isSome (hkeyed : wheel.Keyed) {slot : Slot} (h : event ∈ wheel.slots slot) :
    (wheel.locations event.key).isSome = true := by
  have hpos : 0 < (wheel.slots slot).countP (hasKey event.key) :=
    List.countP_pos_iff.mpr ⟨event, h, decide_eq_true rfl⟩
  have hle := countP_le_amount wheel (hasKey event.key) slot
  have hamount := hkeyed event.key
  by_contra hnone
  rw [if_neg hnone] at hamount
  omega

theorem keyed_add (hkeyed : wheel.Keyed) (hfree : wheel.amount (hasKey event.key) = 0) :
    (wheel.add event).Keyed := by
  intro key
  rw [amount_add]
  simp only [hasKey, filedAt_key, Wheel.add]
  by_cases hkey : event.key = key
  · subst hkey
    simp [hfree]
  · simp only [hkey, decide_false, Bool.false_eq_true, if_false, Nat.add_zero,
      update_of_ne (Ne.symm hkey)]
    exact hkeyed key

theorem countP_hasKey (events : List TimerEvent) (key : TimerKey) :
    events.countP (hasKey key) = (events.map TimerEvent.key).count key := by
  rw [List.count_eq_countP, List.countP_map]
  rfl

theorem Wheel.Keyed.paired (hok : wheel.Ok) (hkeyed : wheel.Keyed) : wheel.PairedBut [] := by
  refine ⟨(locatedBut_iff _ _).mp hok.located, fun location key hkeyAt => ?_⟩
  · rw [indexBut_nil]
    have hone : ∀ k, wheel.amount (hasKey k) ≤ 1 := by
      intro k
      rw [hkeyed k]
      split <;> omega
    obtain ⟨event, hevent, rfl⟩ := List.mem_map.mp (List.mem_of_getElem? hkeyAt)
    obtain ⟨other, hother⟩ := Option.isSome_iff_exists.mp (hkeyed.isSome hevent)
    obtain ⟨e, he, hkey⟩ := hok.locate hother
    have hslot : other.slot = location.slot := by
      by_contra hne
      have hsum := Finset.add_le_sum (f := fun slot => (wheel.slots slot).countP (hasKey event.key))
        (fun _ _ => Nat.zero_le _) (mem_univ other.slot) (mem_univ location.slot) hne
      have hleft : 0 < (wheel.slots other.slot).countP (hasKey event.key) :=
        List.countP_pos_iff.mpr ⟨e, List.mem_of_getElem? he, decide_eq_true hkey⟩
      have hright : 0 < (wheel.slots location.slot).countP (hasKey event.key) :=
        List.countP_pos_iff.mpr ⟨event, hevent, decide_eq_true rfl⟩
      have hall := hone event.key
      unfold Wheel.amount at hall
      omega
    have hnodup : ((wheel.slots location.slot).map TimerEvent.key).Nodup := by
      rw [List.nodup_iff_count_le_one]
      intro k
      rw [← countP_hasKey]
      exact (countP_le_amount wheel _ _).trans (hone k)
    have hindex : other.index = location.index := by
      rw [hslot] at he
      obtain ⟨hlt, -⟩ := List.getElem?_eq_some_iff.mp he
      refine (List.getElem?_inj (by simpa using hlt) hnodup).mp (Eq.trans ?_ hkeyAt.symm)
      rw [List.getElem?_map, he, Option.map_some, hkey]
    obtain ⟨slot, index⟩ := other
    cases hslot
    cases hindex
    exact hother

theorem Wheel.PairedBut.keyed (h : wheel.PairedBut []) : wheel.Keyed := by
  intro key
  have hfound : ∀ slot, key ∈ (wheel.slots slot).map TimerEvent.key →
      ∃ i, wheel.locations key = some ⟨slot, i⟩ := by
    intro slot hmem
    obtain ⟨i, hi⟩ := (mem_keys_iff slot).mp hmem
    exact ⟨i, (h.iff key _).mpr hi⟩
  cases hlocation : wheel.locations key with
  | none =>
    refine sum_eq_zero fun slot _ => ?_
    rw [countP_hasKey, List.count_eq_zero]
    intro hmem
    obtain ⟨i, hi⟩ := hfound slot hmem
    cases hlocation.symm.trans hi
  | some location =>
    rw [Wheel.amount, sum_eq_single location.slot]
    · rw [countP_hasKey]
      exact List.count_eq_one_of_mem (h.nodup _) (List.mem_of_getElem? ((h.iff key location).mp hlocation))
    · intro slot _ hslot
      rw [countP_hasKey, List.count_eq_zero]
      intro hmem
      obtain ⟨i, hi⟩ := hfound slot hmem
      cases hlocation.symm.trans hi
      exact hslot rfl
    · exact fun hmem => absurd (mem_univ _) hmem

/-- **`cancel` of a keyed wheel** leaves no event with the key. -/
theorem keyed_cancel (hok : wheel.Ok) (hkeyed : wheel.Keyed) (h : wheel.cancel key = some wheel') :
    wheel'.Keyed ∧ wheel'.amount (hasKey key) = 0 := by
  obtain ⟨w, hw, hpaired, -⟩ := (hkeyed.paired hok).cancel key
  obtain rfl : w = wheel' := Option.some.inj (hw.symm.trans h)
  obtain ⟨w', hw', -, -, hamount⟩ := cancel_spec hok key
  obtain rfl : w' = w := Option.some.inj (hw'.symm.trans hw)
  refine ⟨hpaired.keyed, ?_⟩
  have hself := hamount (hasKey key)
  rw [hkeyed key] at hself
  rcases cancel_cases hok key with ⟨hnone, -⟩ | ⟨_, event, _, hsome, hfound, hkey, -⟩
  · rw [hnone] at hself
    simp at hself
    omega
  · rw [hsome, hfound, Option.toList_some, List.countP_singleton, hasKey, decide_eq_true hkey] at hself
    simp at hself
    omega

theorem keyed_shift (hok : wheel.Ok) (hkeyed : wheel.Keyed) : wheel.shift.Keyed :=
  (hkeyed.paired hok).shift.keyed

theorem keyed_execute (hok : wheel.Ok) (hkeyed : wheel.Keyed) : wheel.execute.1.Keyed :=
  (hkeyed.paired hok).execute.keyed

end Rskynet.Timer
