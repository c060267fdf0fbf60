import Rskynet.Task.Model

/-!
# Task wake-ups are neither lost nor duplicated

An entry for a task is *outstanding* from the moment its signal is set until the executor clears
the signal: it is being pushed, it is in the ready queue, or the executor has it in its hands and
has not cleared the signal yet. For a live task the number of outstanding entries is one or zero,
as the signal says.

* `wakeups_exact` — **PROVED**: at most one outstanding entry, no wake-up lost, no stale id acts.
-/

namespace Rskynet.Task

open Function (update update_of_ne update_self)
open List Option Interleave Bool

variable {k : ℕ}

variable {κ ι : Type*}
variable {slot : TaskSlot κ} {t : ι}

/-! ### The operations on slots -/

namespace TaskSet

variable {s s' : TaskSet κ} {task id : TaskId}

theorem take_eq_some (h : s.take task = some s') :
    ∃ slot, s.slots.get task.index = some slot ∧ slot.generation = task.generation ∧
      slot.future = true ∧
      s' = { s with slots := s.slots.put task.index { slot with future := false } } := by
  unfold take at h
  split at h
  · cases h
  · next slot hslot =>
    split at h
    · cases h
    · next hgen =>
      split at h
      · next hfut => exact ⟨slot, hslot, not_not.mp hgen, hfut, (some.inj h).symm⟩
      · cases h

theorem take_eq_none (h : s.take task = none) (hslot : s.slots.get task.index = some slot)
    (hgen : slot.generation = task.generation) :
    slot.future = false := by
  unfold take at h
  rw [hslot] at h
  by_contra hfut
  simp [hgen, hfut] at h

theorem take_stale (hslot : s.slots.get task.index = some slot)
    (hgen : slot.generation ≠ task.generation) : s.take task = none := by
  simp [take, hslot, hgen]

theorem restore_stale (hslot : s.slots.get task.index = some slot)
    (hgen : slot.generation ≠ task.generation) : s.restore task = s := by
  simp [restore, hslot, hgen]

theorem remove_stale (hslot : s.slots.get task.index = some slot)
    (hgen : slot.generation ≠ task.generation) : s.remove task = s := by
  simp [remove, hslot, hgen]

theorem get_remove_of_ne (hk : k ≠ task.index) :
    (s.remove task).slots.get k = s.slots.get k := by
  unfold remove
  split
  · rfl
  · split
    · rfl
    · exact Slab.get_remove_of_ne _ hk

theorem get_restore_of_ne (hk : k ≠ task.index) :
    (s.restore task).slots.get k = s.slots.get k := by
  unfold restore
  split
  · rfl
  · next slot hslot =>
    split
    · rfl
    · exact Slab.get_put_of_ne (Slab.lt_of_get hslot).le _ hk

theorem restore_of_live (hslot : s.slots.get task.index = some slot)
    (hgen : slot.generation = task.generation) :
    s.restore task = { s with slots := s.slots.put task.index { slot with future := true } } := by
  simp [restore, hslot, hgen]

theorem remove_of_live (hslot : s.slots.get task.index = some slot)
    (hgen : slot.generation = task.generation) :
    s.remove task = { s with slots := s.slots.remove task.index } := by
  simp [remove, hslot, hgen]

theorem le_of_vacant {key : ℕ} (h : s.slots.vacant key = true) : key ≤ s.slots.cells.length := by
  simp only [Slab.vacant, and_eq_true, decide_eq_true_eq] at h
  exact h.1

theorem get_of_vacant {key : ℕ} (h : s.slots.vacant key = true) : s.slots.get key = none := by
  simp only [Slab.vacant, and_eq_true, isNone_iff_eq_none] at h
  exact h.2

theorem live_put {b : Bool} (hslot : s.slots.get k = some slot) :
    live { s with slots := s.slots.put k { slot with future := b } } id ↔ s.live id := by
  have hk : k ≤ s.slots.cells.length := (Slab.lt_of_get hslot).le
  unfold live
  by_cases hid : id.index = k
  · rw [hid, Slab.get_put_self hk, hslot]
    simp
  · rw [Slab.get_put_of_ne hk _ hid]

theorem live_remove :
    live { s with slots := s.slots.remove k } id ↔ s.live id ∧ id.index ≠ k := by
  unfold live
  by_cases hid : id.index = k
  · rw [hid, Slab.get_remove_self]
    simp
  · rw [Slab.get_remove_of_ne _ hid]
    simp [hid]

theorem live_insert {key : ℕ} {request : Option κ} (hkey : s.slots.vacant key = true) :
    (s.insert key request).1.live id ↔ s.live id ∨ id = (s.insert key request).2 := by
  have hk := le_of_vacant hkey
  unfold live insert
  by_cases hid : id.index = key
  · simp only [hid, Slab.get_put_self hk, get_of_vacant hkey]
    constructor
    · rintro ⟨slot, hslot, hgen⟩
      rw [some.injEq] at hslot
      subst hslot
      right
      cases id
      simp only [TaskId.mk.injEq]
      exact ⟨hid, hgen.symm⟩
    · rintro (⟨slot, hslot, -⟩ | rfl)
      · cases hslot
      · exact ⟨_, rfl, rfl⟩
  · rw [Slab.get_put_of_ne hk _ hid]
    constructor
    · exact .inl
    · rintro (h | rfl)
      · exact h
      · exact absurd rfl hid

end TaskSet

/-! ### Outstanding entries -/

section Counting

variable {task : TaskId}

variable [Fintype ι]

def Exec.entry : Exec → Option TaskId
  | .popped task => some task
  | .clearing task => some task
  | _ => none

/-- The entries of a task that are queued, being queued or about to be consumed. -/
def outstanding (c : Config κ ι) (id : TaskId) : ℕ :=
  c.ready.count id + Interleave.tally c.wake (fun p => p == .push id)
    + if c.exec.entry = some id then 1 else 0

/-- The signal of a task counts its outstanding entries; exactly so while the task lives, and then
a wake-up that no poll has answered yet has an entry or is about to be answered. -/
structure Tallied (c : Config κ ι) (id : TaskId) : Prop where
  atMost : outstanding c id ≤ (c.queued id.generation).toNat
  exact : c.tasks.live id → outstanding c id = (c.queued id.generation).toNat
  answered : c.tasks.live id → c.owed id = true →
    c.queued id.generation = true ∨ c.exec = .taken id

structure Inv (c : Config κ ι) : Prop where
  bound : ∀ id ∈ c.issued, id.generation ≤ c.tasks.nextGeneration
  unique : ∀ id ∈ c.issued, ∀ id' ∈ c.issued, id.generation = id'.generation → id = id'
  issued : ∀ id, c.tasks.live id → id ∈ c.issued
  busy : ∀ k slot, c.tasks.slots.get k = some slot →
    (slot.future = false ↔ c.exec.busy = some ⟨k, slot.generation⟩)
  held : ∀ id, c.exec.busy = some id → c.tasks.live id
  known : ∀ id, 0 < outstanding c id → id ∈ c.issued
  casKnown : ∀ t id, c.wake t = .cas id → id ∈ c.issued
  tallied : ∀ id ∈ c.issued, Tallied c id

theorem outstanding_congr {c c' : Config κ ι} (hready : c'.ready = c.ready)
    (hwake : c'.wake = c.wake) (hentry : c'.exec.entry = c.exec.entry) (id : TaskId) :
    outstanding c' id = outstanding c id := by
  unfold outstanding
  rw [hready, hwake, hentry]

theorem outstanding_pos {c : Config κ ι} {id : TaskId} (h : 0 < outstanding c id) :
    id ∈ c.ready ∨ (∃ t, c.wake t = .push id) ∨ c.exec = .popped id ∨ c.exec = .clearing id := by
  by_contra hnone
  push Not at hnone
  obtain ⟨hready, hwake, hpopped, hclearing⟩ := hnone
  have hcount : c.ready.count id = 0 := count_eq_zero.mpr hready
  have htally : tally c.wake (fun p => p == .push id) = 0 :=
    Finset.sum_eq_zero fun t _ => by simp [hwake t]
  have hentry : c.exec.entry ≠ some id := by
    cases hexec : c.exec <;> simp [Exec.entry] <;> rintro rfl
    · exact hpopped hexec
    · exact hclearing hexec
  simp [outstanding, hcount, htally, hentry] at h

theorem Tallied.congr {c c' : Config κ ι} {id : TaskId} (h : Tallied c id)
    (hout : outstanding c' id = outstanding c id)
    (hq : c'.queued id.generation = c.queued id.generation)
    (hlive : c'.tasks.live id → c.tasks.live id) (howed : c'.owed id = c.owed id)
    (htaken : c.exec = .taken id → c'.exec = .taken id) : Tallied c' id := by
  refine ⟨?_, ?_, ?_⟩
  · rw [hout, hq]
    exact h.atMost
  · intro hl
    rw [hout, hq]
    exact h.exact (hlive hl)
  · intro hl ho
    rw [howed] at ho
    rw [hq]
    exact (h.answered (hlive hl) ho).imp (fun hset => hset) htaken

namespace Inv

variable {c : Config κ ι}

theorem generation_ne (h : Inv c) {id : TaskId} (hid : id ∈ c.issued) (htask : task ∈ c.issued)
    (hne : id ≠ task) : id.generation ≠ task.generation :=
  fun hgen => hne (h.unique id hid task htask hgen)

theorem still {c' : Config κ ι} (h : Inv c) (htasks : c'.tasks = c.tasks)
    (hissued : c'.issued = c.issued) (hbusy : c'.exec.busy = c.exec.busy)
    (hout : ∀ id, outstanding c' id ≤ outstanding c id)
    (hcas : ∀ t id, c'.wake t = .cas id → id ∈ c.issued)
    (htallied : ∀ id ∈ c.issued, Tallied c' id) : Inv c' := by
  refine ⟨?_, ?_, ?_, ?_, ?_, ?_, ?_, ?_⟩ <;> simp only [htasks, hissued, hbusy]
  · exact h.bound
  · exact h.unique
  · exact h.issued
  · exact h.busy
  · exact h.held
  · exact fun id hid => h.known id (hid.trans_le (hout id))
  · exact hcas
  · exact htallied

variable [DecidableEq ι]

theorem outstanding_wake {p : Wake} (hp : ∀ id, p ≠ .push id) (hp' : ∀ id, c.wake t ≠ .push id)
    (id : TaskId) :
    outstanding { c with wake := update c.wake t p } id = outstanding c id := by
  unfold outstanding
  rw [tally_update_of_eq c.wake t p]
  rw [beq_eq_false_iff_ne.mpr (hp id), beq_eq_false_iff_ne.mpr (hp' id)]

theorem outstanding_push (hp' : ∀ id, c.wake t ≠ .push id) (id : TaskId) :
    outstanding { c with wake := update c.wake t (.push task) } id
      = outstanding c id + if id = task then 1 else 0 := by
  have hupd := tally_update c.wake t (.push task) (fun p => p == .push id)
  have hold : (c.wake t == .push id) = false := beq_eq_false_iff_ne.mpr (hp' id)
  unfold outstanding
  by_cases hid : id = task
  · subst hid
    simp [hold] at hupd ⊢
    omega
  · have hnew : ((.push task : Wake) == .push id) = false := by
      rw [beq_eq_false_iff_ne]
      intro heq
      exact hid (Wake.push.inj heq).symm
    simp [hold, hnew, hid] at hupd ⊢
    omega

theorem wake (h : Inv c) (ht : c.wake t = .idle) (hk : task ∈ c.issued) :
    Inv { c with wake := update c.wake t (.cas task) } := by
  have hout := outstanding_wake (c := c) (t := t) (p := .cas task) (by simp) (by simp [ht])
  refine h.still rfl rfl rfl (fun id => (hout id).le) ?_ ?_
  · intro t' id hid
    by_cases heq : t' = t
    · subst heq
      simp only [update_self, Wake.cas.injEq] at hid
      exact hid ▸ hk
    · simp only [update_of_ne heq] at hid
      exact h.casKnown t' id hid
  · exact fun id hid => (h.tallied id hid).congr (hout id) rfl (fun hl => hl) rfl (fun he => he)

theorem casKnown_update (h : Inv c) {p : Wake} (hp : ∀ id, p ≠ .cas id) (t' : ι) (id : TaskId)
    (hid : update c.wake t p t' = .cas id) : id ∈ c.issued := by
  by_cases heq : t' = t
  · subst heq
    rw [update_self] at hid
    exact absurd hid (hp id)
  · rw [update_of_ne heq] at hid
    exact h.casKnown t' id hid

theorem casFail (h : Inv c) (ht : c.wake t = .cas task) (hset : c.queued task.generation = true) :
    Inv { c with owed := update c.owed task true
                 wake := update c.wake t .idle } := by
  have hout : ∀ id, outstanding { c with owed := update c.owed task true
                                         wake := update c.wake t .idle } id
      = outstanding c id := outstanding_wake (c := c) (by simp) (by simp [ht])
  refine h.still rfl rfl rfl (fun id => (hout id).le) (h.casKnown_update (by simp)) ?_
  intro id hid
  by_cases hne : id = task
  · subst hne
    have htal := h.tallied id hid
    exact ⟨by rw [hout id]; exact htal.atMost, fun hl => by rw [hout id]; exact htal.exact hl,
      fun _ _ => .inl hset⟩
  · exact (h.tallied id hid).congr (hout id) rfl (fun hl => hl)
      (update_of_ne hne ..) (fun he => he)

theorem casSet (h : Inv c) (ht : c.wake t = .cas task) (hclear : c.queued task.generation = false) :
    Inv { c with owed := update c.owed task true
                 queued := update c.queued task.generation true
                 wake := update c.wake t (.push task) } := by
  have hk : task ∈ c.issued := h.casKnown t task ht
  have hout : ∀ id, outstanding { c with owed := update c.owed task true
                                         queued := update c.queued task.generation true
                                         wake := update c.wake t (.push task) } id
      = outstanding c id + if id = task then 1 else 0 :=
    outstanding_push (c := c) (by simp [ht])
  refine ⟨h.bound, h.unique, h.issued, h.busy, h.held, ?_, ?_, ?_⟩
  · intro id hid
    rw [hout id] at hid
    by_cases hne : id = task
    · exact hne ▸ hk
    · rw [if_neg hne] at hid
      exact h.known id hid
  · exact h.casKnown_update (by simp)
  · intro id hid
    by_cases hne : id = task
    · subst hne
      have hzero : outstanding c id = 0 := by
        have := (h.tallied id hid).atMost
        rw [hclear] at this
        exact Nat.le_zero.mp this
      refine ⟨?_, fun _ => ?_, fun _ _ => .inl (update_self ..)⟩
      · rw [hout id, hzero, if_pos rfl]
        simp
      · rw [hout id, hzero, if_pos rfl]
        simp
    · have hgen := h.generation_ne hid hk hne
      refine (h.tallied id hid).congr ?_ (update_of_ne hgen ..) (fun hl => hl)
        (update_of_ne hne ..) (fun he => he)
      rw [hout id, if_neg hne, Nat.add_zero]

theorem push (h : Inv c) (ht : c.wake t = .push task) :
    Inv { c with ready := c.ready ++ [task]
                 wake := update c.wake t .idle } := by
  have hout : ∀ id, outstanding { c with ready := c.ready ++ [task]
                                         wake := update c.wake t .idle } id
      = outstanding c id := by
    intro id
    have hupd := tally_update c.wake t .idle (fun p => p == .push id)
    unfold outstanding
    by_cases hid : id = task
    · subst hid
      simp [ht, count_append] at hupd ⊢
      omega
    · have hne : ((.push task : Wake) == .push id) = false := by
        rw [beq_eq_false_iff_ne]
        intro heq
        exact hid (Wake.push.inj heq).symm
      have hcount : count id [task] = 0 := count_eq_zero.mpr (by simp [hid])
      simp [ht, hne, count_append, hcount] at hupd ⊢
      omega
  exact h.still rfl rfl rfl (fun id => (hout id).le) (h.casKnown_update (by simp))
    fun id hid => (h.tallied id hid).congr (hout id) rfl (fun hl => hl) rfl (fun he => he)

/-- **A new task** starts with its signal set and its first entry on the way. -/
theorem spawn (h : Inv c) {key : ℕ} {request : Option κ} (ht : c.wake t = .idle)
    (hkey : c.tasks.slots.vacant key = true) :
    Inv { c with
      tasks := (c.tasks.insert key request).1
      queued := update c.queued (c.tasks.nextGeneration + 1) true
      wake := update c.wake t (.push (c.tasks.insert key request).2)
      issued := (c.tasks.insert key request).2 :: c.issued } := by
  set task := (c.tasks.insert key request).2 with htask
  have hgen : task.generation = c.tasks.nextGeneration + 1 := rfl
  have hfresh : ∀ id ∈ c.issued, id.generation ≠ c.tasks.nextGeneration + 1 := by
    intro id hid
    have := h.bound id hid
    omega
  have hnew : task ∉ c.issued := fun hmem => hfresh task hmem hgen
  have hout : ∀ id, outstanding { c with
      tasks := (c.tasks.insert key request).1
      queued := update c.queued (c.tasks.nextGeneration + 1) true
      wake := update c.wake t (.push task)
      issued := task :: c.issued } id = outstanding c id + if id = task then 1 else 0 :=
    outstanding_push (c := c) (by simp [ht])
  have hzero : outstanding c task = 0 := by
    by_contra hpos
    exact hnew (h.known task (Nat.pos_of_ne_zero hpos))
  refine ⟨?_, ?_, ?_, ?_, ?_, ?_, ?_, ?_⟩
  · exact forall_mem_cons.mpr ⟨hgen.le, fun id hid => Nat.le_succ_of_le (h.bound id hid)⟩
  · intro id hid id' hid' heq
    rcases mem_cons.mp hid with rfl | hid <;> rcases mem_cons.mp hid' with rfl | hid'
    · rfl
    · exact absurd (heq.symm.trans hgen) (hfresh id' hid')
    · exact absurd (heq.trans hgen) (hfresh id hid)
    · exact h.unique id hid id' hid' heq
  · intro id hlive
    rcases (TaskSet.live_insert hkey).mp hlive with hl | rfl
    · exact mem_cons_of_mem _ (h.issued id hl)
    · exact mem_cons_self ..
  · intro k slot hslot
    have hk := TaskSet.le_of_vacant hkey
    by_cases hkk : k = key
    · subst hkk
      rw [show (c.tasks.insert k request).1.slots.get k
        = some ⟨true, c.tasks.nextGeneration + 1, request⟩ from Slab.get_put_self hk _] at hslot
      rw [← some.inj hslot]
      refine ⟨fun hf => absurd hf (by simp), fun hbusy => ?_⟩
      exact absurd (h.issued _ (h.held _ hbusy)) hnew
    · rw [show (c.tasks.insert key request).1.slots.get k = c.tasks.slots.get k from
        Slab.get_put_of_ne hk _ hkk] at hslot
      exact h.busy k slot hslot
  · exact fun id hbusy => (TaskSet.live_insert hkey).mpr (.inl (h.held id hbusy))
  · intro id hid
    rw [hout id] at hid
    by_cases hne : id = task
    · exact hne ▸ mem_cons_self ..
    · rw [if_neg hne] at hid
      exact mem_cons_of_mem _ (h.known id hid)
  · exact fun t' id hid => mem_cons_of_mem _ (h.casKnown_update (by simp) t' id hid)
  · intro id hid
    rcases mem_cons.mp hid with rfl | hid
    · refine ⟨?_, fun _ => ?_, fun _ _ => .inl (update_self ..)⟩
      · rw [hout, hzero, if_pos rfl]
        simp [hgen]
      · rw [hout, hzero, if_pos rfl]
        simp [hgen]
    · have hne : id ≠ task := fun heq => hnew (heq ▸ hid)
      refine (h.tallied id hid).congr ?_ (update_of_ne (hfresh id hid) ..) ?_ rfl
        (fun he => he)
      · rw [hout id, if_neg hne, Nat.add_zero]
      · exact fun hl => ((TaskSet.live_insert hkey).mp hl).resolve_right hne

omit [DecidableEq ι]

theorem pop (h : Inv c) {rest : List TaskId} (hexec : c.exec = .rest)
    (hready : c.ready = task :: rest) : Inv { c with ready := rest, exec := .popped task } := by
  have hout : ∀ id, outstanding { c with ready := rest, exec := .popped task } id
      = outstanding c id := by
    intro id
    simp only [outstanding, hexec, hready, Exec.entry, count_cons, some.injEq,
      beq_iff_eq, reduceCtorEq, if_false]
    omega
  refine h.still rfl rfl (by rw [hexec]; rfl) (fun id => (hout id).le) h.casKnown ?_
  exact fun id hid => (h.tallied id hid).congr (hout id) rfl (fun hl => hl) rfl
    (fun he => by rw [hexec] at he; cases he)

theorem future_of_not_busy (h : Inv c) (hbusy : c.exec.busy = none)
    (hslot : c.tasks.slots.get k = some slot) : slot.future = true := by
  by_contra hfut
  have := (h.busy k slot hslot).mp (by simpa using hfut)
  rw [hbusy] at this
  exact absurd this (by simp)

theorem takeNone (h : Inv c) (hexec : c.exec = .popped task) (htake : c.tasks.take task = none) :
    Inv { c with exec := .rest } := by
  have hgone : ¬ c.tasks.live task := by
    rintro ⟨slot, hslot, hgen⟩
    have hfut := h.future_of_not_busy (by rw [hexec]; rfl) hslot
    rw [TaskSet.take_eq_none htake hslot hgen] at hfut
    exact false_ne_true hfut
  have hout : ∀ id, outstanding { c with exec := .rest } id + (if id = task then 1 else 0)
      = outstanding c id := by
    intro id
    simp only [outstanding, hexec, Exec.entry, some.injEq, eq_comm]
    split <;> simp
  have hle : ∀ id, outstanding { c with exec := .rest } id ≤ outstanding c id :=
    fun id => (Nat.le_add_right _ _).trans (hout id).le
  refine h.still rfl rfl (by rw [hexec]; rfl) hle h.casKnown fun id hid => ?_
  have htal := h.tallied id hid
  by_cases hne : id = task
  · subst hne
    exact ⟨(hle id).trans htal.atMost, fun hl => absurd hl hgone, fun hl => absurd hl hgone⟩
  · have hid' := hout id
    rw [if_neg hne, Nat.add_zero] at hid'
    exact htal.congr hid' rfl (fun hl => hl) rfl
      (fun he => by rw [hexec] at he; cases he)

theorem takeSome (h : Inv c) {tasks : TaskSet κ} (hexec : c.exec = .popped task)
    (htake : c.tasks.take task = some tasks) :
    Inv { c with tasks := tasks, exec := .clearing task } := by
  obtain ⟨slot, hslot, hgen, -, rfl⟩ := TaskSet.take_eq_some htake
  have hk : task.index ≤ c.tasks.slots.cells.length := (Slab.lt_of_get hslot).le
  have hlive : c.tasks.live task := ⟨slot, hslot, hgen⟩
  have hout : ∀ id, outstanding { c with
      tasks := { c.tasks with slots := c.tasks.slots.put task.index { slot with future := false } }
      exec := .clearing task } id = outstanding c id :=
    outstanding_congr rfl rfl (by rw [hexec]; rfl)
  refine ⟨h.bound, h.unique, ?_, ?_, ?_, ?_, h.casKnown, ?_⟩
  · exact fun id hl => h.issued id ((TaskSet.live_put hslot).mp hl)
  · intro k slot' hslot'
    show slot'.future = false ↔ some task = some ⟨k, slot'.generation⟩
    by_cases hkk : k = task.index
    · subst hkk
      rw [Slab.get_put_self hk] at hslot'
      rw [← some.inj hslot', some.injEq]
      exact ⟨fun _ => by rw [hgen], fun _ => rfl⟩
    · rw [Slab.get_put_of_ne hk _ hkk] at hslot'
      rw [h.future_of_not_busy (by rw [hexec]; rfl) hslot']
      refine ⟨fun hf => absurd hf (by simp), fun heq => ?_⟩
      exact absurd (congrArg TaskId.index (some.inj heq)).symm hkk
  · intro id hid
    cases hid
    exact (TaskSet.live_put hslot).mpr hlive
  · intro id hid
    rw [hout id] at hid
    exact h.known id hid
  · exact fun id hid => (h.tallied id hid).congr (hout id) rfl (TaskSet.live_put hslot).mp rfl
      (fun he => by rw [hexec] at he; cases he)

theorem clear (h : Inv c) (hexec : c.exec = .clearing task) :
    Inv { c with queued := update c.queued task.generation false
                 exec := .taken task } := by
  have hlive : c.tasks.live task := h.held task (by rw [hexec]; rfl)
  have hk : task ∈ c.issued := h.issued task hlive
  have hout : ∀ id, outstanding { c with queued := update c.queued task.generation false
                                         exec := .taken task } id + (if id = task then 1 else 0)
      = outstanding c id := by
    intro id
    simp only [outstanding, hexec, Exec.entry, some.injEq, eq_comm]
    split <;> simp
  refine h.still rfl rfl (by rw [hexec]; rfl) (fun id => (Nat.le_add_right _ _).trans (hout id).le)
    h.casKnown fun id hid => ?_
  have htal := h.tallied id hid
  have hid' := hout id
  by_cases hne : id = task
  · subst hne
    rw [if_pos rfl] at hid'
    have hle : (c.queued id.generation).toNat ≤ 1 := toNat_le _
    have hmost := htal.atMost
    have hzero : outstanding { c with queued := update c.queued id.generation false
                                      exec := .taken id } id = 0 := by omega
    refine ⟨by rw [hzero]; exact Nat.zero_le _, fun _ => ?_, fun _ _ => .inr rfl⟩
    rw [hzero]
    simp
  · rw [if_neg hne, Nat.add_zero] at hid'
    exact htal.congr hid' (update_of_ne (h.generation_ne hid hk hne) ..) (fun hl => hl) rfl
      (fun he => by rw [hexec] at he; cases he)

theorem begin (h : Inv c) (hexec : c.exec = .taken task) :
    Inv { c with owed := update c.owed task false, exec := .polling task } := by
  have hout : ∀ id, outstanding { c with owed := update c.owed task false
                                         exec := .polling task } id = outstanding c id :=
    outstanding_congr rfl rfl (by rw [hexec]; rfl)
  refine h.still rfl rfl (by rw [hexec]; rfl) (fun id => (hout id).le) h.casKnown fun id hid => ?_
  have htal := h.tallied id hid
  by_cases hne : id = task
  · subst hne
    refine ⟨by rw [hout id]; exact htal.atMost, fun hl => by rw [hout id]; exact htal.exact hl, ?_⟩
    intro _ howed
    exact absurd howed (by simp)
  · refine htal.congr (hout id) rfl (fun hl => hl) (update_of_ne hne ..) (fun he => ?_)
    rw [hexec] at he
    exact absurd (Exec.taken.inj he).symm hne

theorem finish (h : Inv c) {tasks : TaskSet κ} (hexec : c.exec = .polling task)
    (hnext : tasks.nextGeneration = c.tasks.nextGeneration)
    (hlive : ∀ id, tasks.live id → c.tasks.live id)
    (hself : ∀ slot, tasks.slots.get task.index = some slot → slot.future = true)
    (hrest : ∀ k, k ≠ task.index → tasks.slots.get k = c.tasks.slots.get k) :
    Inv { c with tasks := tasks, exec := .rest } := by
  have hout : ∀ id, outstanding { c with tasks := tasks, exec := .rest } id = outstanding c id :=
    outstanding_congr rfl rfl (by rw [hexec]; rfl)
  refine ⟨?_, h.unique, fun id hl => h.issued id (hlive id hl), ?_, ?_, ?_, h.casKnown, ?_⟩
  · intro id hid
    rw [hnext]
    exact h.bound id hid
  · intro k slot hslot
    have hfut : slot.future = true := by
      by_cases hk : k = task.index
      · subst hk
        exact hself slot hslot
      · by_contra hfut
        have hbusy := (h.busy k slot (hrest k hk ▸ hslot)).mp (by simpa using hfut)
        rw [hexec] at hbusy
        exact hk (congrArg TaskId.index (some.inj hbusy)).symm
    rw [hfut]
    exact ⟨fun hf => absurd hf (by simp), fun hb => absurd hb (by simp [Exec.busy])⟩
  · exact fun id hid => absurd hid (by simp [Exec.busy])
  · intro id hid
    rw [hout id] at hid
    exact h.known id hid
  · exact fun id hid => (h.tallied id hid).congr (hout id) rfl (hlive id) rfl
      (fun he => by rw [hexec] at he; cases he)

theorem finish_remove (h : Inv c) (hexec : c.exec = .polling task) :
    Inv { c with tasks := c.tasks.remove task, exec := .rest } := by
  obtain ⟨slot, hslot, hgen⟩ := h.held task (by rw [hexec]; rfl)
  rw [TaskSet.remove_of_live hslot hgen]
  refine h.finish hexec rfl (fun id hl => (TaskSet.live_remove.mp hl).1) ?_ ?_
  · intro slot' hslot'
    rw [Slab.get_remove_self] at hslot'
    cases hslot'
  · exact fun k hk => Slab.get_remove_of_ne _ hk

theorem finish_restore (h : Inv c) (hexec : c.exec = .polling task) :
    Inv { c with tasks := c.tasks.restore task, exec := .rest } := by
  obtain ⟨slot, hslot, hgen⟩ := h.held task (by rw [hexec]; rfl)
  have hk : task.index ≤ c.tasks.slots.cells.length := (Slab.lt_of_get hslot).le
  rw [TaskSet.restore_of_live hslot hgen]
  refine h.finish hexec rfl (fun id hl => (TaskSet.live_put hslot).mp hl) ?_ ?_
  · intro slot' hslot'
    rw [Slab.get_put_self hk] at hslot'
    rw [← some.inj hslot']
  · exact fun k hne => Slab.get_put_of_ne hk _ hne

theorem start : Inv (Config.start κ ι) := by
  refine ⟨?_, ?_, ?_, ?_, ?_, ?_, ?_, ?_⟩
  · exact fun id hid => absurd hid (by simp [Config.start])
  · exact fun id hid => absurd hid (by simp [Config.start])
  · rintro id ⟨slot, hslot, -⟩
    cases hslot
  · exact fun k slot hslot => absurd hslot (by simp [Config.start, TaskSet.new])
  · exact fun id hid => absurd hid (by simp [Config.start, Exec.busy])
  · intro id hid
    simp [outstanding, Config.start, Exec.entry, tally] at hid
  · exact fun t id hid => absurd hid (by simp [Config.start])
  · exact fun id hid => absurd hid (by simp [Config.start])

/-- **Every step keeps the invariant.** -/
theorem step [DecidableEq ι] (h : Inv c) {c' : Config κ ι} (hs : Step c c') : Inv c' := by
  obtain ⟨a, ha⟩ := hs
  cases a with
  | wake t task =>
    simp only [act] at ha
    split at ha
    · next hcond => exact some.inj ha ▸ h.wake hcond.1 hcond.2
    · cases ha
  | spawn t key request =>
    simp only [act] at ha
    split at ha
    · next hcond => exact some.inj ha ▸ h.spawn hcond.1 hcond.2.2
    · cases ha
  | call t =>
    simp only [act, callStep] at ha
    split at ha
    · cases ha
    · next task ht =>
      split at ha
      · next hset => exact some.inj ha ▸ h.casFail ht hset
      · next hclear => exact some.inj ha ▸ h.casSet ht (by simpa using hclear)
    · next task ht => exact some.inj ha ▸ h.push ht
  | pop =>
    simp only [act] at ha
    split at ha
    · next hexec hready => exact some.inj ha ▸ h.pop hexec hready
    · cases ha
  | exec =>
    simp only [act, execStep] at ha
    split at ha
    · next task hexec =>
      split at ha
      · next htake => exact some.inj ha ▸ h.takeNone hexec htake
      · next tasks htake => exact some.inj ha ▸ h.takeSome hexec htake
    · next task hexec => exact some.inj ha ▸ h.clear hexec
    · next task hexec => exact some.inj ha ▸ h.begin hexec
    · cases ha
  | finish done =>
    simp only [act] at ha
    split at ha
    · next task hexec =>
      cases done with
      | true => exact some.inj ha ▸ h.finish_remove hexec
      | false => exact some.inj ha ▸ h.finish_restore hexec
    · cases ha

end Inv

theorem reachable_inv [DecidableEq ι] {c : Config κ ι} (hrun : Reachable c) : Inv c :=
  hrun.invariant Inv.start fun _ _ h hs => h.step hs

end Counting

/-! ### Runs -/

section Runs

variable [DecidableEq ι] {c c' : Config κ ι}

theorem slot_step (hs : Step c c') (hslot : c.tasks.slots.get k = some slot) :
    c'.tasks.slots.get k = some slot ∨ c.exec.task = some ⟨k, slot.generation⟩ := by
  have hself : ∀ task : TaskId, c.exec.task = some task → k = task.index →
      slot.generation = task.generation → c.exec.task = some ⟨k, slot.generation⟩ := by
    intro task htask hk hgen
    rw [htask, hk, hgen]
  obtain ⟨a, ha⟩ := hs
  cases a with
  | wake | pop =>
    simp only [act] at ha
    split at ha
    · exact .inl (some.inj ha ▸ hslot)
    · cases ha
  | spawn t key request =>
    simp only [act] at ha
    split at ha
    · next hcond =>
      left
      have hne : k ≠ key := by
        rintro rfl
        rw [TaskSet.get_of_vacant hcond.2.2] at hslot
        cases hslot
      rw [← some.inj ha]
      exact (Slab.get_put_of_ne (TaskSet.le_of_vacant hcond.2.2) _ hne).trans hslot
    · cases ha
  | call t =>
    left
    simp only [act, callStep] at ha
    split at ha
    · cases ha
    · split at ha <;> exact some.inj ha ▸ hslot
    · exact some.inj ha ▸ hslot
  | exec =>
    simp only [act, execStep] at ha
    split at ha
    · next task hexec =>
      split at ha
      · exact .inl (some.inj ha ▸ hslot)
      · next tasks htake =>
        obtain ⟨slot', hslot', hgen, -, rfl⟩ := TaskSet.take_eq_some htake
        rw [← some.inj ha]
        by_cases hk : k = task.index
        · rw [hk, hslot', some.injEq] at hslot
          exact .inr (hself task (by rw [hexec]; rfl) hk (hslot ▸ hgen))
        · exact .inl ((Slab.get_put_of_ne (Slab.lt_of_get hslot').le _ hk).trans hslot)
    · exact .inl (some.inj ha ▸ hslot)
    · exact .inl (some.inj ha ▸ hslot)
    · cases ha
  | finish done =>
    simp only [act] at ha
    split at ha
    · next task hexec =>
      rw [← some.inj ha]
      by_cases hk : k = task.index
      · subst hk
        by_cases hgen : slot.generation = task.generation
        · exact .inr (hself task (by rw [hexec]; rfl) rfl hgen)
        · left
          cases done with
          | true => exact (congrArg (fun s => s.slots.get task.index)
              (TaskSet.remove_stale hslot hgen)).trans hslot
          | false => exact (congrArg (fun s => s.slots.get task.index)
              (TaskSet.restore_stale hslot hgen)).trans hslot
      · left
        cases done with
        | true => exact (TaskSet.get_remove_of_ne hk).trans hslot
        | false => exact (TaskSet.get_restore_of_ne hk).trans hslot
    · cases ha

theorem owed_step (hs : Step c c') {id : TaskId} (howed : c.owed id = true) :
    c'.owed id = true ∨ (c.exec = .taken id ∧ c'.exec = .polling id) := by
  obtain ⟨a, ha⟩ := hs
  cases a with
  | wake | spawn | pop | finish =>
    simp only [act] at ha
    split at ha
    · exact .inl (some.inj ha ▸ howed)
    · cases ha
  | call t =>
    left
    simp only [act, callStep] at ha
    split at ha
    · cases ha
    · next task ht =>
      have hset : update c.owed task true id = true := by
        by_cases hid : id = task
        · rw [hid, update_self]
        · rw [update_of_ne hid]
          exact howed
      split at ha <;> exact some.inj ha ▸ hset
    · exact some.inj ha ▸ howed
  | exec =>
    simp only [act, execStep] at ha
    split at ha
    · split at ha <;> exact .inl (some.inj ha ▸ howed)
    · exact .inl (some.inj ha ▸ howed)
    · next task hexec =>
      rw [← some.inj ha]
      by_cases hid : id = task
      · exact .inr ⟨by rw [hexec, hid], by rw [hid]⟩
      · left
        show update c.owed task false id = true
        rw [update_of_ne hid]
        exact howed
    · cases ha

/-- **Neither lost nor duplicated.** In every reachable configuration each live task has at most one
outstanding ready entry; a task that was woken has one until a poll of it starts; and an id of
another generation takes, restores and removes nothing. -/
theorem wakeups_exact [Fintype ι] (c : Config κ ι) (hrun : Reachable c) :
    (∀ id, c.tasks.live id → outstanding c id ≤ 1) ∧
    (∀ t id c', c.wake t = .cas id → act (.call t) c = some c' → c'.owed id = true) ∧
    (∀ id c', Step c c' → c.owed id = true →
      c'.owed id = true ∨ (c.exec = .taken id ∧ c'.exec = .polling id)) ∧
    (∀ id, c.tasks.live id → c.owed id = true →
      id ∈ c.ready ∨ (∃ t, c.wake t = .push id) ∨
        c.exec = .popped id ∨ c.exec = .clearing id ∨ c.exec = .taken id) ∧
    (∀ id slot, c.tasks.slots.get id.index = some slot → slot.generation ≠ id.generation →
      c.tasks.take id = none ∧ c.tasks.restore id = c.tasks ∧ c.tasks.remove id = c.tasks) ∧
    (∀ c' k slot, Step c c' → c.tasks.slots.get k = some slot →
      c'.tasks.slots.get k = some slot ∨ c.exec.task = some ⟨k, slot.generation⟩) := by
  have h := reachable_inv hrun
  refine ⟨?_, ?_, ?_, ?_, ?_, ?_⟩
  · intro id hlive
    rw [(h.tallied id (h.issued id hlive)).exact hlive]
    exact toNat_le _
  · intro t id c' ht hc'
    simp only [act, callStep, ht] at hc'
    split at hc' <;> exact some.inj hc' ▸ update_self ..
  · exact fun id c' hs howed => owed_step hs howed
  · intro id hlive howed
    have htal := h.tallied id (h.issued id hlive)
    rcases htal.answered hlive howed with hset | htaken
    · have hone := htal.exact hlive
      rw [hset] at hone
      exact (outstanding_pos (by rw [hone]; decide)).imp_right
        (Or.imp_right (Or.imp_right .inl))
    · exact .inr (.inr (.inr (.inr htaken)))
  · intro id slot hslot hgen
    exact ⟨TaskSet.take_stale hslot hgen, TaskSet.restore_stale hslot hgen,
      TaskSet.remove_stale hslot hgen⟩
  · exact fun c' k slot hs hslot => slot_step hs hslot

/-- A task is spawned, polled and done; another one takes its slot and is woken. -/
def reuseThenWake (t u : Fin 2) : List (Action ℕ (Fin 2)) :=
  [.spawn t 0 none, .call t, .pop, .exec, .exec, .exec, .finish true,
    .spawn t 0 (some 5), .call t, .wake u ⟨0, 2⟩, .call u]

theorem reuseThenWake_state :
    (exec act (reuseThenWake 0 1) (Config.start ℕ (Fin 2))).map
      (fun c => (c.tasks.slots.get 0, c.owed ⟨0, 2⟩)) = some (some ⟨true, 2, some 5⟩, true) := by
  decide

theorem exact_of_reuseThenWake :
    ∃ c : Config ℕ (Fin 2), Reachable c ∧ c.tasks.live ⟨0, 2⟩ ∧ c.owed ⟨0, 2⟩ = true ∧
      outstanding c ⟨0, 2⟩ ≤ 1 ∧ c.tasks.take ⟨0, 1⟩ = none := by
  obtain ⟨c, hc, hstate⟩ := map_eq_some_iff.mp reuseThenWake_state
  obtain ⟨hslot, howed⟩ := Prod.mk.inj hstate
  have hrun : Reachable c :=
    Interleave.Reachable.of_run hc
  have hlive : c.tasks.live ⟨0, 2⟩ := ⟨_, hslot, rfl⟩
  obtain ⟨hone, -, -, -, hstale, -⟩ := wakeups_exact c hrun
  exact ⟨c, hrun, hlive, howed, hone _ hlive, (hstale ⟨0, 1⟩ _ hslot (by decide)).1⟩

end Runs

end Rskynet.Task
