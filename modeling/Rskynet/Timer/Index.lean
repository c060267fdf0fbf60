import Mathlib.Data.List.Nodup
import Mathlib.Data.List.Perm.Basic
import Rskynet.Lib.Tables
import Rskynet.Lib.Threads
import Rskynet.Timer.Wheel

/-!
# The index of the wheel

Cancelling finds an event through an index from keys to places. An event comes to a place when it is added
or when its slot is moved, and leaves it when the slot is emptied, when it is cancelled, or when the last
event of a slot fills the hole that a cancelled one has left.

* `PairedBut.add`, … — **PROVED**: the operations keep index and slots paired, whatever the ticks;
* `index_inverse` — **PROVED**: the index and the slots are inverse to each other in every run.
-/

namespace Rskynet.Timer

open Tables Interleave List
open Function (update update_of_ne update_self update_idem update_comm)

variable {wheel wheel' : Wheel} {event : TimerEvent} {key : TimerKey} {keys : List TimerKey}

@[simp] theorem filedAt_key (event : TimerEvent) (time : ℕ) : (event.filedAt time).key = event.key := by
  rw [TimerEvent.filedAt]
  split <;> rfl

def Wheel.keyAt (wheel : Wheel) (location : Location) : Option TimerKey :=
  ((wheel.slots location.slot).map TimerEvent.key)[location.index]?

/-- The index without some keys. -/
def Wheel.indexBut (wheel : Wheel) (keys : List TimerKey) (key : TimerKey) : Option Location :=
  if key ∈ keys then none else wheel.locations key

/-- **The index and the slots are inverse to each other**; no slot has one of the keys left out. -/
def Wheel.PairedBut (wheel : Wheel) (keys : List TimerKey) : Prop :=
  Paired (wheel.indexBut keys) wheel.keyAt

theorem mem_keys_iff (slot : Slot) :
    key ∈ (wheel.slots slot).map TimerEvent.key ↔ ∃ i, wheel.keyAt ⟨slot, i⟩ = some key :=
  mem_iff_getElem?

theorem indexBut_nil (wheel : Wheel) : wheel.indexBut [] = wheel.locations := by
  funext key
  exact if_neg not_mem_nil

/-! ### What the operations do to the index and to the places -/

theorem indexBut_forget (wheel : Wheel) (key : TimerKey) (keys : List TimerKey) :
    (wheel.forget key).indexBut keys = wheel.indexBut (key :: keys) := by
  funext k
  by_cases hk : k = key
  · simp [Wheel.indexBut, Wheel.forget, hk]
  · simp [Wheel.indexBut, Wheel.forget, hk]

/-- The place that `add` gives to an event. -/
def Wheel.behind (wheel : Wheel) (event : TimerEvent) : Location :=
  let slot := place wheel.time (event.filedAt wheel.time).expire
  ⟨slot, (wheel.slots slot).length⟩

theorem indexBut_add (hkey : event.key ∉ keys) : (wheel.add event).indexBut keys
    = update (wheel.indexBut keys) event.key (some (wheel.behind event)) := by
  funext k
  by_cases hk : k = event.key
  · simp [Wheel.indexBut, Wheel.add, Wheel.behind, hk, hkey]
  · simp [Wheel.indexBut, Wheel.add, hk]

theorem keyAt_behind (wheel : Wheel) (event : TimerEvent) : wheel.keyAt (wheel.behind event) = none := by
  simp [Wheel.keyAt, Wheel.behind]

theorem keyAt_add (wheel : Wheel) (event : TimerEvent) :
    (wheel.add event).keyAt = update wheel.keyAt (wheel.behind event) (some event.key) := by
  funext location
  obtain ⟨s, i⟩ := location
  unfold Wheel.behind
  generalize hslot : place wheel.time (event.filedAt wheel.time).expire = slot
  by_cases hs : s = slot
  · subst hs
    by_cases hi : i = (wheel.slots s).length
    · simp [Wheel.keyAt, Wheel.add, hslot, hi]
    · rw [update_of_ne (by simp [hi])]
      simp only [Wheel.keyAt, Wheel.add, hslot, update_self, map_append]
      rcases Nat.lt_or_gt_of_ne hi with hlt | hgt
      · exact getElem?_append_left (by simpa using hlt)
      · rw [getElem?_eq_none (by simp; omega), getElem?_eq_none (by simp; omega)]
  · simp [Wheel.keyAt, Wheel.add, hslot, hs]

/-- **What `swap_remove` does**: the entry goes, the last one takes its place, the others stay. -/
theorem swapRemove_spec {events : List TimerEvent} {index : ℕ} (h : events[index]? = some event) :
    ∃ rest, swapRemove events index = some rest ∧ events.Perm (event :: rest)
      ∧ (index + 1 < events.length → rest[index]? = events[events.length - 1]?)
      ∧ ∀ j, j ≠ index → j + 1 < events.length → rest[j]? = events[j]? := by
  rcases List.eq_nil_or_concat events with rfl | ⟨front, last, hevents⟩
  · cases h
  rw [List.concat_eq_append] at hevents
  subst hevents
  obtain ⟨hlt, hget⟩ := List.getElem?_eq_some_iff.mp h
  by_cases hfront : index < front.length
  · refine ⟨front.set index last, ?_, ?_, ?_, ?_⟩
    · simp only [swapRemove, if_pos hlt, List.getLast?_append, List.getLast?_singleton, Option.some_or,
        Option.elim_some, List.set_append_left _ _ hfront, List.dropLast_concat]
    · have hset : (front.set index last).Perm (last :: front.eraseIdx index) :=
        List.set_perm_cons_eraseIdx hfront last
      have hback : (event :: front.eraseIdx index).Perm front := by
        rw [List.getElem_append_left hfront] at hget
        rw [← hget]
        exact List.getElem_cons_eraseIdx_perm hfront
      calc List.Perm (front ++ [last]) (last :: front) := List.perm_append_singleton last front
        List.Perm _ (last :: event :: front.eraseIdx index) := hback.symm.cons last
        List.Perm _ (event :: last :: front.eraseIdx index) := List.Perm.swap _ _ _
        List.Perm _ (event :: front.set index last) := hset.symm.cons event
    · intro _
      simp [hfront]
    · intro j hj hjlt
      rw [List.length_append, List.length_singleton] at hjlt
      rw [List.getElem?_set_ne (Ne.symm hj), List.getElem?_append_left (by omega)]
  · have hindex : index = front.length := by
      rw [List.length_append, List.length_singleton] at hlt
      omega
    subst hindex
    refine ⟨front, ?_, ?_, ?_, ?_⟩
    · simp [swapRemove]
    · have hlast : last = event := by simpa using hget
      subst hlast
      exact List.perm_append_singleton last front
    · intro hlt'
      rw [List.length_append, List.length_singleton] at hlt'
      omega
    · intro j hj hjlt
      rw [List.length_append, List.length_singleton] at hjlt
      rw [List.getElem?_append_left (by omega)]

theorem points_take (h : Points (wheel.indexBut []) wheel.keyAt) (slot : Slot) :
    Points ((wheel.take slot).indexBut ((wheel.slots slot).map TimerEvent.key))
      (wheel.take slot).keyAt := by
  intro key location hlocation
  unfold Wheel.indexBut at hlocation
  split at hlocation
  · cases hlocation
  · rename_i hkey
    have hkeyAt := h key location (by rw [indexBut_nil]; exact hlocation)
    have hslot : location.slot ≠ slot := by
      rintro rfl
      exact hkey ((mem_keys_iff _).mpr ⟨_, hkeyAt⟩)
    simpa [Wheel.keyAt, Wheel.take, hslot] using hkeyAt

section Swap

variable {slot : Slot} {i : ℕ} {rest : List TimerEvent}

theorem swap_cases (hi : i < (wheel.slots slot).length)
    (hlength : (wheel.slots slot).length = rest.length + 1)
    (hmoved : i + 1 < (wheel.slots slot).length →
      rest[i]? = (wheel.slots slot)[(wheel.slots slot).length - 1]?) :
    (rest[i]? = none ∧ rest.length = i)
      ∨ ∃ m, rest[i]? = some m ∧ Location.mk slot rest.length ≠ ⟨slot, i⟩
        ∧ wheel.keyAt ⟨slot, rest.length⟩ = some m.key := by
  cases hm : rest[i]? with
  | none =>
    have hle := List.getElem?_eq_none_iff.mp hm
    exact .inl ⟨rfl, by omega⟩
  | some m =>
    have hlt : i < rest.length := (List.getElem?_eq_some_iff.mp hm).1
    have hfilled := hmoved (by omega)
    rw [hm, hlength, Nat.add_sub_cancel] at hfilled
    refine .inr ⟨m, rfl, by simp; omega, ?_⟩
    simp [Wheel.keyAt, ← hfilled]

/-- The places after `cancel`: the key at the hole is the one of the last event, and the last place is
gone. -/
theorem keyAt_swap {locations : TimerKey → Option Location}
    (hlength : (wheel.slots slot).length = rest.length + 1)
    (hother : ∀ j, j ≠ i → j + 1 < (wheel.slots slot).length → rest[j]? = (wheel.slots slot)[j]?) :
    Wheel.keyAt ⟨wheel.time, update wheel.slots slot rest, locations⟩
      = update (update wheel.keyAt ⟨slot, rest.length⟩ none) ⟨slot, i⟩
        (rest[i]?.map TimerEvent.key) := by
  funext location
  obtain ⟨s, j⟩ := location
  by_cases hs : s = slot
  · subst hs
    by_cases hji : j = i
    · simp [Wheel.keyAt, hji]
    · rw [update_of_ne (by simp [hji])]
      by_cases hlast : j = rest.length
      · simp [Wheel.keyAt, hlast]
      · rw [update_of_ne (by simp [hlast])]
        simp only [Wheel.keyAt, update_self, getElem?_map]
        rcases Nat.lt_or_gt_of_ne hlast with hlt | hgt
        · rw [hother j hji (by omega)]
        · rw [getElem?_eq_none (by omega), getElem?_eq_none (by omega)]
  · simp [Wheel.keyAt, hs]

variable (hkeyAt : wheel.keyAt ⟨slot, i⟩ = some key)
  (hcases : (rest[i]? = none ∧ rest.length = i)
    ∨ ∃ m, rest[i]? = some m ∧ Location.mk slot rest.length ≠ ⟨slot, i⟩
      ∧ wheel.keyAt ⟨slot, rest.length⟩ = some m.key)
include hkeyAt hcases

theorem points_swap (h : Points wheel.locations wheel.keyAt) :
    Points (relocate (update wheel.locations key none) ⟨slot, i⟩ rest[i]?)
      (update (update wheel.keyAt ⟨slot, rest.length⟩ none) ⟨slot, i⟩
        (rest[i]?.map TimerEvent.key)) := by
  have herased := h.erase hkeyAt
  rcases hcases with ⟨hm, hlast⟩ | ⟨m, hm, hplace, hlast⟩
  · rw [hm, hlast, Option.map_none, update_idem]
    exact herased
  · rw [hm]
    have hfilled := (herased.erase ((update_of_ne hplace _ _).trans hlast)).insert (a := m.key)
      ((update_of_ne (Ne.symm hplace) _ _).trans (update_self ..))
    rw [update_idem, update_comm hplace, update_idem, update_comm (Ne.symm hplace)] at hfilled
    exact hfilled

theorem points_swap_back (h : Points wheel.keyAt wheel.locations) :
    Points (update (update wheel.keyAt ⟨slot, rest.length⟩ none) ⟨slot, i⟩
        (rest[i]?.map TimerEvent.key))
      (relocate (update wheel.locations key none) ⟨slot, i⟩ rest[i]?) := by
  have herased := h.erase (h _ _ hkeyAt)
  rcases hcases with ⟨hm, hlast⟩ | ⟨m, hm, hplace, hlast⟩
  · rw [hm, hlast, Option.map_none, update_idem]
    exact herased
  · rw [hm]
    have hlast' := herased _ _ ((update_of_ne hplace _ _).trans hlast)
    have hfilled := (herased.erase hlast').insert (a := ⟨slot, i⟩) (update_self ..)
    rw [update_idem, update_comm hplace, update_idem, update_comm (Ne.symm hplace)] at hfilled
    exact hfilled

end Swap

/-! ### The operations -/

namespace Wheel.PairedBut

theorem iff (h : wheel.PairedBut []) (key : TimerKey) (location : Location) :
    wheel.locations key = some location ↔ wheel.keyAt location = some key := by
  rw [← indexBut_nil]
  exact ⟨h.1 key location, h.2 location key⟩

theorem fresh (time : ℕ) : (Wheel.fresh time).PairedBut [] := by
  constructor
  · intro key location h
    simp [Wheel.indexBut, Wheel.fresh] at h
  · intro location key h
    simp [Wheel.keyAt, Wheel.fresh] at h

theorem forget (h : wheel.PairedBut (key :: keys)) : (wheel.forget key).PairedBut keys := by
  unfold Wheel.PairedBut
  rw [indexBut_forget]
  exact h

theorem add (h : wheel.PairedBut keys) (hkey : event.key ∉ keys)
    (hfree : wheel.locations event.key = none) : (wheel.add event).PairedBut keys := by
  unfold Wheel.PairedBut
  rw [indexBut_add hkey, keyAt_add]
  refine ⟨h.1.insert (keyAt_behind wheel event), h.2.insert ?_⟩
  rw [Wheel.indexBut, if_neg hkey, hfree]

theorem take (h : wheel.PairedBut []) (slot : Slot) :
    (wheel.take slot).PairedBut ((wheel.slots slot).map TimerEvent.key) := by
  refine ⟨points_take h.1 slot, fun location key hkeyAt => ?_⟩
  have hslot : location.slot ≠ slot := by
    rintro rfl
    simp [Wheel.keyAt, Wheel.take] at hkeyAt
  have hlocation : wheel.locations key = some location :=
    (h.iff key location).mpr (by simpa [Wheel.keyAt, Wheel.take, hslot] using hkeyAt)
  rw [Wheel.indexBut, if_neg]
  · exact hlocation
  · intro hmem
    obtain ⟨i, hi⟩ := (mem_keys_iff slot).mp hmem
    cases hlocation.symm.trans ((h.iff key _).mpr hi)
    exact hslot rfl

theorem nodup (h : wheel.PairedBut []) (slot : Slot) :
    ((wheel.slots slot).map TimerEvent.key).Nodup := by
  rw [nodup_iff_getElem?_ne_getElem?]
  intro i j hij hj heq
  obtain ⟨key, hkey⟩ : ∃ key, ((wheel.slots slot).map TimerEvent.key)[j]? = some key :=
    ⟨_, getElem?_eq_getElem hj⟩
  have hi := (h.iff key ⟨slot, i⟩).mpr (heq.trans hkey)
  rw [(h.iff key ⟨slot, j⟩).mpr hkey] at hi
  cases hi
  exact absurd hij (Nat.lt_irrefl i)

theorem refile (events : List TimerEvent) (h : wheel.PairedBut (events.map TimerEvent.key))
    (hnodup : (events.map TimerEvent.key).Nodup) : (events.foldl Wheel.refile wheel).PairedBut [] := by
  induction events generalizing wheel with
  | nil => exact h
  | cons event events ih =>
    obtain ⟨hnew, hnodup⟩ := nodup_cons.mp hnodup
    exact ih (h.forget.add hnew (update_self ..)) hnodup

theorem moveList (h : wheel.PairedBut []) (level : Fin 10) (slot : Fin 64) :
    (wheel.moveList level slot).PairedBut [] := refile _ (h.take _) (h.nodup _)

theorem shiftLoop (h : wheel.PairedBut []) (levels : List (Fin 10)) (shifted : ℕ) :
    (wheel.shiftLoop levels shifted).PairedBut [] := by
  induction levels generalizing shifted with
  | nil => exact h
  | cons level levels ih =>
    rw [Wheel.shiftLoop]
    split
    · exact h.moveList level _
    · exact ih _

theorem shift (h : wheel.PairedBut []) : wheel.shift.PairedBut [] := by
  have hturned : Wheel.PairedBut { wheel with time := (wheel.time + 1) % 2 ^ 64 } [] := h
  rw [Wheel.shift]
  split
  · exact hturned.moveList 9 0
  · split
    · exact hturned
    · exact hturned.shiftLoop _ _

theorem execute (h : wheel.PairedBut []) : wheel.execute.1.PairedBut [] := by
  have hloop : ∀ (events : List TimerEvent) (wheel : Wheel),
      wheel.PairedBut (events.map TimerEvent.key) →
      (events.foldl (fun wheel event => wheel.forget event.key) wheel).PairedBut [] := by
    intro events
    induction events with
    | nil => exact fun _ h => h
    | cons event events ih => exact fun wheel h => ih _ h.forget
  exact hloop _ _ (h.take _)

end Wheel.PairedBut

/-! ### Cancelling -/

/-- **`cancel` takes one event out** of a slot and moves none to another slot. -/
theorem Wheel.PairedBut.cancel (h : wheel.PairedBut []) (key : TimerKey) :
    ∃ wheel', wheel.cancel key = some wheel' ∧ wheel'.PairedBut [] ∧ wheel'.time = wheel.time
      ∧ match wheel.locations key with
        | none => wheel' = wheel
        | some location => ∃ event, event.key = key
          ∧ (wheel.slots location.slot).Perm (event :: wheel'.slots location.slot)
          ∧ ∀ slot, slot ≠ location.slot → wheel'.slots slot = wheel.slots slot := by
  cases hlocation : wheel.locations key with
  | none => exact ⟨wheel, by rw [Wheel.cancel, hlocation], h, rfl, rfl⟩
  | some location =>
    have hkeyAt : wheel.keyAt location = some key := (h.iff key _).mp hlocation
    obtain ⟨event, hevent, rfl⟩ : ∃ event, (wheel.slots location.slot)[location.index]? = some event
        ∧ event.key = key := by
      simpa [Wheel.keyAt] using hkeyAt
    obtain ⟨rest, hrest, hperm, hmoved, hother⟩ := swapRemove_spec hevent
    have hcases := swap_cases (List.getElem?_eq_some_iff.mp hevent).1 hperm.length_eq hmoved
    refine ⟨⟨wheel.time, update wheel.slots location.slot rest,
      relocate (update wheel.locations event.key none) location rest[location.index]?⟩,
      ?_, ?_, rfl, event, rfl, ?_, ?_⟩
    · rw [Wheel.cancel, hlocation]
      simp only [hrest, Option.map_some]
    · unfold Wheel.PairedBut at h ⊢
      rw [indexBut_nil, keyAt_swap hperm.length_eq hother]
      rw [indexBut_nil] at h
      exact ⟨points_swap hkeyAt hcases h.1, points_swap_back hkeyAt hcases h.2⟩
    · simpa using hperm
    · intro slot hslot
      exact update_of_ne hslot _ _

/-! ### Runs -/

theorem mem_add_slots {e : TimerEvent} {slot : Slot} (h : e ∈ (wheel.add event).slots slot) :
    e ∈ wheel.slots slot
      ∨ (e = event.filedAt wheel.time ∧ slot = place wheel.time (event.filedAt wheel.time).expire) := by
  by_cases hslot : slot = place wheel.time (event.filedAt wheel.time).expire
  · subst hslot
    simp only [Wheel.add, update_self, mem_append, mem_singleton] at h
    exact h.imp_right fun he => ⟨he, rfl⟩
  · exact .inl (by simpa only [Wheel.add, update_of_ne hslot] using h)

inductive Move where
  | add (event : TimerEvent)
  | cancel (key : TimerKey)
  | shift
  | execute

def Wheel.move : Move → Wheel → Option Wheel
  | .add event, wheel => some (wheel.add event)
  | .cancel key, wheel => wheel.cancel key
  | .shift, wheel => some wheel.shift
  | .execute, wheel => some wheel.execute.1

/-- No key is added while an event with it is in a slot. -/
def Move.Unshared (wheel : Wheel) : Move → Prop
  | .add event => ∀ slot, ∀ e ∈ wheel.slots slot, e.key ≠ event.key
  | _ => True

theorem Wheel.PairedBut.move {m : Move} (h : wheel.PairedBut []) (hnew : m.Unshared wheel) :
    ∃ wheel', wheel.move m = some wheel' ∧ wheel'.PairedBut [] := by
  cases m with
  | add event =>
    refine ⟨_, rfl, h.add not_mem_nil ?_⟩
    rw [Option.eq_none_iff_forall_ne_some]
    intro location hlocation
    obtain ⟨e, he, hkey⟩ : ∃ e, (wheel.slots location.slot)[location.index]? = some e
        ∧ e.key = event.key := by
      simpa [Wheel.keyAt] using (h.iff event.key location).mp hlocation
    exact hnew _ e (mem_of_getElem? he) hkey
  | cancel key =>
    obtain ⟨wheel', hcancel, hpaired, -⟩ := h.cancel key
    exact ⟨wheel', hcancel, hpaired⟩
  | shift => exact ⟨_, rfl, h.shift⟩
  | execute => exact ⟨_, rfl, h.execute⟩

theorem Wheel.PairedBut.moves (moves : List Move) (h : wheel.PairedBut [])
    (hnew : along Wheel.move Move.Unshared moves wheel) :
    ∃ wheel', exec Wheel.move moves wheel = some wheel' ∧ wheel'.PairedBut [] := by
  induction moves generalizing wheel with
  | nil => exact ⟨wheel, rfl, h⟩
  | cons m moves ih =>
    obtain ⟨wheel₁, hmove, hpaired⟩ := h.move hnew.1
    obtain ⟨wheel', hrest, hpaired'⟩ := ih hpaired (hnew.2 wheel₁ hmove)
    exact ⟨wheel', Option.bind_eq_some_iff.mpr ⟨wheel₁, hmove, hrest⟩, hpaired'⟩

/-- **The index and the slots are inverse to each other** in every run that adds no key while it is there: no
operation panics, the entry of a key is the place of the event with that key and every event has its place
in the index; and a `cancel` takes out the event with the key, or nothing when there is none, and leaves
every other event in its slot as it is. -/
theorem index_inverse (tick : ℕ) (moves : List Move)
    (hnew : along Wheel.move Move.Unshared moves (Wheel.fresh tick)) :
    ∃ wheel, exec Wheel.move moves (Wheel.fresh tick) = some wheel
      ∧ (∀ key location, wheel.locations key = some location
        ↔ ∃ event, (wheel.slots location.slot)[location.index]? = some event ∧ event.key = key)
      ∧ ∀ key, ∃ wheel', wheel.cancel key = some wheel' ∧ wheel'.time = wheel.time
        ∧ match wheel.locations key with
          | none => wheel' = wheel
          | some location => ∃ event, event.key = key
            ∧ (wheel.slots location.slot).Perm (event :: wheel'.slots location.slot)
            ∧ ∀ slot, slot ≠ location.slot → wheel'.slots slot = wheel.slots slot := by
  obtain ⟨wheel, hrun, hpaired⟩ := Wheel.PairedBut.moves moves (.fresh tick) hnew
  refine ⟨wheel, hrun, ?_, ?_⟩
  · intro key location
    rw [hpaired.iff]
    simp [Wheel.keyAt]
  · intro key
    obtain ⟨wheel', hcancel, -, htime, hcases⟩ := hpaired.cancel key
    exact ⟨wheel', hcancel, htime, hcases⟩

/-- Two events in one slot; the first is cancelled and the second fills the hole. -/
theorem index_inverse_swap : ∃ wheel,
    exec Wheel.move [.add ⟨1, 1, 9⟩, .add ⟨1, 2, 9⟩, .cancel ⟨1, 1⟩] (Wheel.fresh 0) = some wheel
      ∧ wheel.locations ⟨1, 2⟩ = some ⟨.near 9, 0⟩ := by
  have hnew : along Wheel.move Move.Unshared [.add ⟨1, 1, 9⟩, .add ⟨1, 2, 9⟩, .cancel ⟨1, 1⟩]
      (Wheel.fresh 0) := by
    refine ⟨?_, fun wheel₁ h₁ => ⟨?_, fun wheel₂ h₂ => ⟨trivial, fun _ _ => trivial⟩⟩⟩
    · intro slot e he
      cases he
    · intro slot e he
      cases h₁
      rcases mem_add_slots he with he | ⟨rfl, -⟩
      · cases he
      · decide
  obtain ⟨wheel, hrun, hinverse, -⟩ := index_inverse 0 _ hnew
  refine ⟨wheel, hrun, (hinverse _ _).mpr ?_⟩
  cases hrun
  exact ⟨⟨1, 2, 9⟩, by decide +kernel, rfl⟩

end Rskynet.Timer
