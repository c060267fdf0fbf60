import Rskynet.Service.Balance
import Rskynet.Task.Wakeups

/-!
# The ledger of a service

A dispatched request whose task is in the set when the service exits itself or is cleaned up is
answered by one error, and no other dispatched request is.
-/

namespace Rskynet.Service

open Rskynet.Task (TaskId TaskSet TaskSlot)
open List Option

/-! ### The requests of tasks -/

def taskRequests (s : TaskSet Message) : Multiset Message :=
  Multiset.filterMap TaskSlot.request (s.slots.values : Multiset (TaskSlot Message))

variable (s : TaskSet Message)

theorem takeRequests_fst :
    (s.takeRequests.1 : Multiset Message) = taskRequests s :=
  (Multiset.filterMap_coe _ _).symm

theorem taskRequests_takeRequests : taskRequests s.takeRequests.2 = 0 := by
  unfold taskRequests TaskSet.takeRequests
  rw [Slab.values_map, ← Multiset.map_coe, Multiset.filterMap_map]
  refine Multiset.eq_zero_of_forall_notMem fun r hr => ?_
  obtain ⟨slot, -, hslot⟩ := (Multiset.mem_filterMap _ _).mp hr
  cases hslot

theorem taskRequests_singleton (slot : TaskSlot Message) :
    Multiset.filterMap TaskSlot.request {slot} = (slot.request.toList : Multiset Message) := by
  rw [← Multiset.cons_zero, Multiset.filterMap_cons, Multiset.filterMap_zero, add_zero]
  cases slot.request <;> rfl

theorem taskRequests_insert {s : TaskSet Message} {key : ℕ} {request : Option Message}
    (hkey : s.slots.vacant key = true) :
    taskRequests (s.insert key request).1 = taskRequests s + (request.toList : Multiset Message) := by
  show Multiset.filterMap TaskSlot.request
    ((s.slots.put key ⟨true, s.nextGeneration + 1, request⟩).values : Multiset (TaskSlot Message))
      = _
  rw [Slab.values_put_vacant hkey, Multiset.filterMap_add, taskRequests_singleton]
  rfl

/-- The slots of `s'` are slots of `s`, except perhaps for the presence of a future. -/
def Within (s' s : TaskSet Message) : Prop :=
  s'.nextGeneration = s.nextGeneration ∧ taskRequests s' ≤ taskRequests s ∧
    ∀ key slot', s'.slots.get key = some slot' → ∃ slot, s.slots.get key = some slot ∧
      slot'.generation = slot.generation ∧ slot'.request = slot.request

theorem within_refl : Within s s :=
  ⟨rfl, le_rfl, fun _ slot h => ⟨slot, h, rfl, rfl⟩⟩

theorem within_put {s : TaskSet Message} {key : ℕ} {slot : TaskSlot Message} {b : Bool}
    (hslot : s.slots.get key = some slot) :
    Within { s with slots := s.slots.put key { slot with future := b } } s := by
  have hkey := (Slab.lt_of_get hslot).le
  refine ⟨rfl, ?_, ?_⟩
  · have hvalues := congrArg (Multiset.filterMap TaskSlot.request)
      (Slab.values_put hslot { slot with future := b })
    rw [Multiset.filterMap_add, Multiset.filterMap_add, taskRequests_singleton,
      taskRequests_singleton] at hvalues
    exact (add_right_cancel hvalues).le
  · intro k slot' hslot'
    by_cases hk : k = key
    · subst hk
      rw [Slab.get_put_self hkey] at hslot'
      rw [← some.inj hslot']
      exact ⟨slot, hslot, rfl, rfl⟩
    · rw [Slab.get_put_of_ne hkey _ hk] at hslot'
      exact ⟨slot', hslot', rfl, rfl⟩

theorem within_take {s s' : TaskSet Message} {task : TaskId} (h : s.take task = some s') :
    Within s' s := by
  obtain ⟨slot, hslot, -, -, rfl⟩ := TaskSet.take_eq_some h
  exact within_put hslot

theorem within_restore (task : TaskId) : Within (s.restore task) s := by
  unfold TaskSet.restore
  split
  · exact within_refl s
  · next slot hslot =>
    split
    · exact within_refl s
    · exact within_put hslot

theorem within_remove (task : TaskId) : Within (s.remove task) s := by
  unfold TaskSet.remove
  split
  · exact within_refl s
  · next slot hslot =>
    split
    · exact within_refl s
    · refine ⟨rfl, ?_, ?_⟩
      · refine Multiset.filterMap_le_filterMap _ ?_
        rw [← Slab.values_remove hslot]
        exact Multiset.le_add_right _ _
      · intro k slot' hslot'
        by_cases hk : k = task.index
        · rw [hk, Slab.get_remove_self] at hslot'
          cases hslot'
        · rw [Slab.get_remove_of_ne _ hk] at hslot'
          exact ⟨slot', hslot', rfl, rfl⟩

theorem within_drain : Within s.drain s := by
  refine ⟨rfl, ?_, ?_⟩
  · exact Multiset.zero_le _
  · intro key slot' hslot'
    cases hslot'

/-! ### The ledger -/

/-- The tasks of a service, their requests and the errors sent for them. -/
structure Ledger (k : Core) : Prop where
  stamps : k.accepted.map Message.stamp = List.range k.accepted.length
  fresh : ∀ key slot, k.tasks.slots.get key = some slot →
    slot.generation ≤ k.tasks.nextGeneration
  origin : ∀ key slot r, k.tasks.slots.get key = some slot → slot.request = some r →
    k.origin slot.generation = some r
  lost : ∀ key slot r, k.tasks.slots.get key = some slot → k.origin slot.generation = some r →
    slot.request = some r ∨ r ∈ k.aborted
  caught : ∀ r, r ∈ k.caught ↔ r ∈ k.aborted
  owned : taskRequests k.tasks + (k.aborted : Multiset Message) ≤ (k.dispatched : Multiset Message)

namespace Ledger

variable {k : Core}

theorem start : Ledger Core.start := by
  have hslot : ∀ key slot, Core.start.tasks.slots.get key = some slot →
      slot = ⟨true, 1, none⟩ := by
    intro key slot hget
    by_cases hk : key = 0
    · subst hk
      exact (some.inj hget).symm
    · change ((Slab.empty : Slab (TaskSlot Message)).put 0 _).get key = _ at hget
      rw [Slab.get_put_of_ne (Nat.zero_le _) _ hk, Slab.get_empty] at hget
      cases hget
  refine ⟨rfl, ?_, ?_, ?_, fun r => Iff.rfl, le_rfl⟩
  · intro key slot hget
    rw [hslot key slot hget]
    exact le_rfl
  · intro key slot r hget hreq
    rw [hslot key slot hget] at hreq
    cases hreq
  · intro key slot r _ horigin
    cases horigin

theorem retask (h : Ledger k) {tasks : TaskSet Message} (hw : Within tasks k.tasks) :
    Ledger { k with tasks := tasks } := by
  obtain ⟨hnext, hreq, hsub⟩ := hw
  refine ⟨h.stamps, ?_, ?_, ?_, h.caught, ?_⟩
  · intro key slot' hget
    obtain ⟨slot, hslot, hgen, -⟩ := hsub key slot' hget
    rw [hgen, hnext]
    exact h.fresh key slot hslot
  · intro key slot' r hget hr
    obtain ⟨slot, hslot, hgen, hrequest⟩ := hsub key slot' hget
    rw [hgen]
    exact h.origin key slot r hslot (hrequest ▸ hr)
  · intro key slot' r hget hr
    obtain ⟨slot, hslot, hgen, hrequest⟩ := hsub key slot' hget
    rw [hrequest]
    exact h.lost key slot r hslot (hgen ▸ hr)
  · exact le_trans (add_le_add_left hreq _) h.owned

theorem install (h : Ledger k) {key : ℕ} (request : Option Message)
    (hkey : k.tasks.slots.vacant key = true) :
    Ledger { k.install key request with dispatched := k.dispatched ++ request.toList } := by
  have hle := TaskSet.le_of_vacant hkey
  have hcases : ∀ j slot, (k.install key request).tasks.slots.get j = some slot →
      slot = ⟨true, k.tasks.nextGeneration + 1, request⟩ ∨
        (k.tasks.slots.get j = some slot ∧ slot.generation ≠ k.tasks.nextGeneration + 1) := by
    intro j slot hget
    by_cases hj : j = key
    · subst hj
      left
      rw [show (k.install j request).tasks.slots.get j
        = some ⟨true, k.tasks.nextGeneration + 1, request⟩ from Slab.get_put_self hle _] at hget
      exact (some.inj hget).symm
    · right
      rw [show (k.install key request).tasks.slots.get j = k.tasks.slots.get j from
        Slab.get_put_of_ne hle _ hj] at hget
      have := h.fresh j slot hget
      exact ⟨hget, by omega⟩
  refine ⟨h.stamps, ?_, ?_, ?_, h.caught, ?_⟩
  · intro j slot hget
    rcases hcases j slot hget with rfl | ⟨hold, -⟩
    · exact le_rfl
    · exact Nat.le_succ_of_le (h.fresh j slot hold)
  · intro j slot r hget hr
    show Function.update k.origin (k.tasks.nextGeneration + 1) request slot.generation = some r
    rcases hcases j slot hget with rfl | ⟨hold, hne⟩
    · rw [Function.update_self]
      exact hr
    · rw [Function.update_of_ne hne]
      exact h.origin j slot r hold hr
  · intro j slot r hget hr
    change Function.update k.origin (k.tasks.nextGeneration + 1) request slot.generation = some r at hr
    rcases hcases j slot hget with rfl | ⟨hold, hne⟩
    · rw [Function.update_self] at hr
      exact .inl hr
    · rw [Function.update_of_ne hne] at hr
      exact h.lost j slot r hold hr
  · show taskRequests (k.tasks.insert key request).1 + (k.aborted : Multiset Message)
      ≤ ((k.dispatched ++ request.toList : List Message) : Multiset Message)
    rw [taskRequests_insert hkey, ← Multiset.coe_add, add_right_comm]
    exact add_le_add_left h.owned _

/-- **The errors for the tasks in the set** go to the requests that have had none. -/
theorem failInflight (h : Ledger k) : Ledger k.catchTasks.failInflight := by
  have hslots : ∀ key slot', k.catchTasks.failInflight.tasks.slots.get key = some slot' →
      ∃ slot, k.tasks.slots.get key = some slot ∧ slot' = { slot with request := none } := by
    intro key slot' hget
    change (k.tasks.slots.map _).get key = some slot' at hget
    rw [Slab.get_map] at hget
    obtain ⟨slot, hslot, heq⟩ := map_eq_some_iff.mp hget
    exact ⟨slot, hslot, heq.symm⟩
  have htaken : ∀ key slot r, k.tasks.slots.get key = some slot → slot.request = some r →
      r ∈ k.tasks.takeRequests.1 := by
    intro key slot r hslot hr
    exact mem_filterMap.mpr ⟨slot, Slab.mem_values.mpr ⟨key, hslot⟩, hr⟩
  refine ⟨h.stamps, ?_, ?_, ?_, ?_, ?_⟩
  · intro key slot' hget
    obtain ⟨slot, hslot, rfl⟩ := hslots key slot' hget
    exact h.fresh key slot hslot
  · intro key slot' r hget hr
    obtain ⟨slot, -, rfl⟩ := hslots key slot' hget
    cases hr
  · intro key slot' r hget hr
    obtain ⟨slot, hslot, rfl⟩ := hslots key slot' hget
    right
    rcases h.lost key slot r hslot hr with hreq | hab
    · exact mem_append_right _ (htaken key slot r hslot hreq)
    · exact mem_append_left _ hab
  · intro r
    show r ∈ k.caught ++ _ ↔ r ∈ k.aborted ++ k.tasks.takeRequests.1
    rw [mem_append, mem_append, h.caught r, mem_filterMap]
    constructor
    · rintro (hab | ⟨slot, hmem, hr⟩)
      · exact .inl hab
      · obtain ⟨key, hslot⟩ := Slab.mem_values.mp hmem
        exact (h.lost key slot r hslot hr).symm.imp id (htaken key slot r hslot)
    · rintro (hab | htake)
      · exact .inl hab
      · obtain ⟨slot, hmem, hr⟩ := mem_filterMap.mp htake
        obtain ⟨key, hslot⟩ := Slab.mem_values.mp hmem
        exact .inr ⟨slot, hmem, h.origin key slot r hslot hr⟩
  · show taskRequests k.tasks.takeRequests.2
      + ((k.aborted ++ k.tasks.takeRequests.1 : List Message) : Multiset Message) ≤ _
    rw [taskRequests_takeRequests, ← Multiset.coe_add, takeRequests_fst, zero_add, add_comm]
    exact h.owned

theorem accept (h : Ledger k) (source session : ℕ) (mtype : UInt8) :
    Ledger { k with accepted := k.accepted ++ [k.stamped source session mtype] } := by
  refine ⟨?_, h.fresh, h.origin, h.lost, h.caught, h.owned⟩
  rw [map_append, h.stamps, length_append]
  exact range_succ.symm

theorem nodup (h : Ledger k) : k.accepted.Nodup := by
  refine List.Nodup.of_map Message.stamp ?_
  rw [h.stamps]
  exact nodup_range

end Ledger

section Steps

variable {k k' : Core} {hold hold' : Held} {key : ℕ} {outcome : Outcome}
  {yields : Bool} {task : Option TaskId}

theorem workStep_ledger {p p' : WorkPoint} (hs : workStep k key outcome p = some (k', p', task))
    (h : Ledger k) : Ledger k' := by
  cases workStep_moved hs with
  | postpone | started | refused => exact ⟨h.stamps, h.fresh, h.origin, h.lost, h.caught, h.owned⟩
  | install m hkey => exact h.install _ hkey
  | poll t tasks htake => exact h.retask (within_take htake)
  | suspend t => exact h.retask (within_restore _ _)
  | remove t => exact h.retask (within_remove _ _)
  | _ => exact h

theorem RunMoved.ledger {p p' : RunPoint}
    (hs : RunMoved k hold key outcome yields p k' hold' p' task) (h : Ledger k) : Ledger k' := by
  cases hs with
  | pending | unpend => exact ⟨h.stamps, h.fresh, h.origin, h.lost, h.caught, h.owned⟩
  | work w w' k' task hm => exact workStep_ledger hm h
  | _ => exact h

theorem cleanStep_ledger {p p' : CleanPoint} (hs : cleanStep k hold p = some (k', hold', p'))
    (h : Ledger k) : Ledger k' := by
  cases cleanStep_moved hs with
  | fail => exact h.failInflight
  | tasks => exact h.retask (within_drain _)
  | box | pending | uninit => exact ⟨h.stamps, h.fresh, h.origin, h.lost, h.caught, h.owned⟩
  | _ => exact h

theorem innerStep_ledger {owns : Bool} {i i' : Inner} {call : Option Delivery}
    (hs : innerStep k owns i = some (k', i', call)) (h : Ledger k) : Ledger k' := by
  cases innerStep_moved hs with
  | die | exit => exact ⟨h.stamps, h.fresh, h.origin, h.lost, h.caught, h.owned⟩
  | abort => exact h.failInflight
  | _ => exact h

end Steps

/-! ### How often a request is answered -/

namespace Ledger

variable {k : Core} {rest : Multiset Message} {r : Message}

theorem count_errors (k : Core) (r : Message) :
    k.errors.count r = k.failed.count r + k.aborted.count r :=
  count_append

theorem count_settled (hl : Ledger k)
    (h : requests (k.accepted : Multiset Message) = requests rest + k.settled) (r : Message) :
    (requests rest).count r + k.dispatched.count r + k.failed.count r ≤ 1 := by
  have hcount : (requests rest + k.settled).count r ≤ 1 := by
    rw [← h]
    refine le_trans (Multiset.count_le_of_le r (Multiset.filter_le _ _)) ?_
    rw [Multiset.coe_count]
    exact nodup_iff_count_le_one.mp hl.nodup r
  rw [Multiset.count_add, Core.settled, Multiset.count_add, Multiset.coe_count,
    Multiset.coe_count] at hcount
  omega

theorem count_aborted (hl : Ledger k) (r : Message) :
    k.aborted.count r ≤ k.dispatched.count r := by
  have hcount := Multiset.count_le_of_le r (le_trans (Multiset.le_add_left _ _) hl.owned)
  rwa [Multiset.coe_count, Multiset.coe_count] at hcount

theorem errors_le_one (hl : Ledger k)
    (h : requests (k.accepted : Multiset Message) = requests rest + k.settled) (r : Message) :
    k.errors.count r ≤ 1 := by
  have hsettled := hl.count_settled h r
  have haborted := hl.count_aborted r
  rw [count_errors]
  omega

theorem errors_dispatched (hl : Ledger k)
    (h : requests (k.accepted : Multiset Message) = requests rest + k.settled)
    (hr : r ∈ k.dispatched) : k.errors.count r = if r ∈ k.caught then 1 else 0 := by
  have hsettled := hl.count_settled h r
  have haborted := hl.count_aborted r
  have hone : 0 < k.dispatched.count r := count_pos_iff.mpr hr
  rw [count_errors, show k.failed.count r = 0 by omega, zero_add]
  split
  · next hc =>
    have hpos := count_pos_iff.mpr ((hl.caught r).mp hc)
    omega
  · next hc => exact count_eq_zero.mpr fun hab => hc ((hl.caught r).mpr hab)

/-- When no request is on its way, each is dispatched once or answered once. -/
theorem settled_once (hl : Ledger k)
    (h : requests (k.accepted : Multiset Message) = requests 0 + k.settled)
    (hr : r ∈ k.accepted) (hreq : r.isRequest = true) :
    k.dispatched.count r = 1 ∨ (r ∉ k.dispatched ∧ k.errors.count r = 1) := by
  have hcount := congrArg (Multiset.count r) h
  rw [count_requests hreq, requests_zero, zero_add, Core.settled, Multiset.count_add,
    Multiset.coe_count, Multiset.coe_count, Multiset.coe_count,
    count_eq_one_of_mem hl.nodup hr] at hcount
  by_cases hd : r ∈ k.dispatched
  · have hpos := count_pos_iff.mpr hd
    left
    omega
  · have hzero := count_eq_zero.mpr hd
    have haborted := hl.count_aborted r
    refine .inr ⟨hd, ?_⟩
    rw [count_errors]
    omega

theorem unsettled (hl : Ledger k)
    (h : requests (k.accepted : Multiset Message) = requests rest + k.settled)
    (hr : r ∈ rest) (hreq : r.isRequest = true) :
    r ∈ k.accepted ∧ r ∉ k.dispatched ∧ k.errors.count r = 0 := by
  have hrest : 0 < (requests rest).count r := by
    rw [count_requests hreq]
    exact Multiset.count_pos.mpr hr
  have hsettled := hl.count_settled h r
  have haborted := hl.count_aborted r
  refine ⟨?_, count_eq_zero.mp (by omega), ?_⟩
  · have hmem : r ∈ requests (k.accepted : Multiset Message) := by
      rw [h]
      exact Multiset.mem_add.mpr (.inl (Multiset.count_pos.mp hrest))
    exact Multiset.mem_coe.mp (Multiset.mem_filter.mp hmem).1
  · rw [count_errors]
    omega

end Ledger

end Rskynet.Service
