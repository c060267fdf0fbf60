import Mathlib.Data.List.AList
import Mathlib.Data.Finset.Card
import Mathlib.Order.Interval.Finset.Nat
import Mathlib.Data.UInt

/-!
# The session table

`SessionTable` of a service: a task that waits for an answer allocates a session and polls it, the
answer completes it. Sessions are `u64` numbers, `0` is reserved, and the counter skips what is
still in use when it wraps around.

Wakers are compared by a parameter `willWake`, as `Waker::will_wake` is given by the executor.
-/

namespace Rskynet.Session

open List

/-- What the table knows about a session.  `ρ` is `Result<Payload>`, `ω` is `Waker`. -/
inductive Slot (ρ ω : Type*) where
  | waiting (waker : Option ω)
  | done (result : ρ)

structure Table (ρ ω : Type*) where
  next : UInt64
  slots : AList fun _ : UInt64 => Slot ρ ω
  active : UInt64

variable {ρ ω : Type*}

namespace Table

def new : Table ρ ω where
  next := 0
  slots := ∅
  active := 0

def bump (n : UInt64) : UInt64 := if n + 1 = 0 then 1 else n + 1

def allocLoop : ℕ → Table ρ ω → Option (Table ρ ω × UInt64)
  | 0, _ => none
  | rounds + 1, t =>
      let session := bump t.next
      match t.slots.lookup session with
      | some _ => allocLoop rounds { t with next := session }
      | none =>
          some ({ next := session
                  slots := t.slots.insert session (.waiting none)
                  active := t.active + 1 }, session)

/-- `alloc`.  After `2 ^ 64` rounds every number has come up, so that a loop that has not found one
by then does not end. -/
def alloc (t : Table ρ ω) : Option (Table ρ ω × UInt64) := allocLoop (2 ^ 64) t

/-- `complete`.  Returns the answer and the waker that is woken. -/
def complete (t : Table ρ ω) (session : UInt64) (result : ρ) : Table ρ ω × Bool × Option ω :=
  match t.slots.lookup session with
  | none => (t, false, none)
  | some (.done _) => (t, false, none)
  | some (.waiting waker) =>
      ({ t with slots := t.slots.insert session (.done result) }, true, waker)

/-- What `poll` returns: `Pending`, the result of a completion, or `Err(Canceled)` because the
session is not in the table. -/
inductive Polled (ρ : Type*) where
  | pending
  | ready (result : ρ)
  | canceled

def poll (willWake : ω → ω → Bool) (t : Table ρ ω) (session : UInt64) (waker : ω) :
    Table ρ ω × Polled ρ :=
  match t.slots.lookup session with
  | some (.waiting old) =>
      if old.any (fun old => willWake old waker) then (t, .pending)
      else ({ t with slots := t.slots.insert session (.waiting (some waker)) }, .pending)
  | some (.done result) =>
      ({ t with slots := t.slots.erase session, active := t.active - 1 }, .ready result)
  | none => (t, .canceled)

def abandon (t : Table ρ ω) (session : UInt64) : Table ρ ω :=
  match t.slots.lookup session with
  | some _ => { t with slots := t.slots.erase session, active := t.active - 1 }
  | none => t

def clear (t : Table ρ ω) : Table ρ ω := { t with slots := ∅, active := 0 }

def pending (t : Table ρ ω) : UInt64 := t.active

/-! ### The numbers in use -/

/-- No number in use is `0`, and `active` counts them. -/
structure Counted (t : Table ρ ω) : Prop where
  nonzero : (0 : UInt64) ∉ t.slots.keys
  active : t.active = UInt64.ofNat t.slots.keys.length

theorem Counted.new : Counted (new : Table ρ ω) :=
  ⟨by simp [Table.new], rfl⟩

theorem bump_ne_zero (n : UInt64) : bump n ≠ 0 := by
  unfold bump
  split
  · decide
  · assumption

theorem bump_toNat (n : UInt64) :
    (bump n).toNat = if n.toNat + 1 = 2 ^ 64 then 1 else n.toNat + 1 := by
  have hlt := n.toNat_lt
  have hadd : (n + 1).toNat = (n.toNat + 1) % 2 ^ 64 := by simp [UInt64.toNat_add]
  unfold bump
  split
  · next h =>
    rw [h, UInt64.toNat_zero] at hadd
    rw [if_pos (by omega)]
    rfl
  · next h =>
    have hne : (n + 1).toNat ≠ 0 := fun h0 => h (UInt64.toNat_inj.mp h0)
    rw [if_neg (by omega), hadd]
    omega

theorem Counted.subset {t : Table ρ ω} (h : Counted t) :
    (t.slots.keys.map UInt64.toNat).toFinset ⊆ Finset.Ico 1 (2 ^ 64) := by
  intro n hn
  obtain ⟨k, hk, rfl⟩ := mem_map.mp (mem_toFinset.mp hn)
  have hlt := k.toNat_lt
  have hne : k.toNat ≠ 0 := by
    intro h0
    rw [show k = 0 from UInt64.toNat_inj.mp h0] at hk
    exact h.nonzero hk
  rw [Finset.mem_Ico]
  omega

theorem card_keys (t : Table ρ ω) :
    (t.slots.keys.map UInt64.toNat).toFinset.card = t.slots.keys.length := by
  rw [toFinset_card_of_nodup, length_map]
  exact t.slots.keys_nodup.map fun _ _ h => UInt64.toNat_inj.mp h

theorem Counted.length_lt {t : Table ρ ω} (h : Counted t) : t.slots.keys.length < 2 ^ 64 := by
  have hcard := Finset.card_le_card h.subset
  rw [card_keys, Nat.card_Ico] at hcard
  omega

theorem Counted.active_toNat {t : Table ρ ω} (h : Counted t) :
    t.active.toNat = t.slots.keys.length := by
  rw [h.active, UInt64.toNat_ofNat_of_lt' h.length_lt]

/-! ### alloc -/

theorem allocLoop_spec {rounds : ℕ} {t t' : Table ρ ω} {s : UInt64}
    (h : allocLoop rounds t = some (t', s)) :
    s ≠ 0 ∧ t.slots.lookup s = none ∧ t'.slots = t.slots.insert s (.waiting none) ∧
      t'.active = t.active + 1 := by
  induction rounds generalizing t with
  | zero => cases h
  | succ rounds ih =>
    simp only [allocLoop] at h
    split at h
    · have hrest := ih h
      exact hrest
    · next hfree =>
      cases h
      exact ⟨bump_ne_zero _, hfree, rfl, rfl⟩

theorem mem_keys_of_allocLoop_none {rounds : ℕ} {t : Table ρ ω} (h : allocLoop rounds t = none)
    {i : ℕ} (hi : i < rounds) : bump^[i + 1] t.next ∈ t.slots.keys := by
  induction rounds generalizing t i with
  | zero => exact absurd hi (Nat.not_lt_zero i)
  | succ rounds ih =>
    simp only [allocLoop] at h
    split at h
    · next slot hslot =>
      cases i with
      | zero => exact AList.mem_keys.mpr (AList.lookup_isSome.mp (by simp [hslot]))
      | succ i => exact ih h (Nat.lt_of_succ_lt_succ hi)
    · cases h

theorem iterate_bump_toNat {n : UInt64} {i : ℕ} (h : n.toNat + i < 2 ^ 64) :
    (bump^[i] n).toNat = n.toNat + i := by
  induction i with
  | zero => rfl
  | succ i ih =>
    rw [Function.iterate_succ_apply', bump_toNat, ih (by omega), if_neg (by omega)]
    omega

/-- The counter comes to every number but `0`. -/
theorem exists_iterate_bump (n m : UInt64) (hm : m ≠ 0) : ∃ i < 2 ^ 64, bump^[i + 1] n = m := by
  have hn := n.toNat_lt
  have hm' := m.toNat_lt
  have hpos : m.toNat ≠ 0 := fun h => hm (UInt64.toNat_inj.mp h)
  by_cases hlt : n.toNat < m.toNat
  · refine ⟨m.toNat - n.toNat - 1, by omega, UInt64.toNat_inj.mp ?_⟩
    rw [iterate_bump_toNat (by omega)]
    omega
  · -- up to the greatest number, over to `1`, and on to `m`
    have htop : (bump^[2 ^ 64 - 1 - n.toNat] n).toNat = 2 ^ 64 - 1 := by
      rw [iterate_bump_toNat (by omega)]
      omega
    have hone : (bump (bump^[2 ^ 64 - 1 - n.toNat] n)).toNat = 1 := by
      rw [bump_toNat, htop]
      rfl
    refine ⟨m.toNat - 1 + (2 ^ 64 - 1 - n.toNat), by omega, UInt64.toNat_inj.mp ?_⟩
    rw [show m.toNat - 1 + (2 ^ 64 - 1 - n.toNat) + 1
      = (m.toNat - 1) + ((2 ^ 64 - 1 - n.toNat) + 1) by omega, Function.iterate_add_apply,
      Function.iterate_succ_apply', iterate_bump_toNat (by omega), hone]
    omega

/-- **`alloc` returns as long as a number is left.** -/
theorem alloc_isSome {t : Table ρ ω} (h : t.slots.keys.length < 2 ^ 64 - 1) :
    t.alloc.isSome = true := by
  by_contra hnone
  have hloop : allocLoop (2 ^ 64) t = none := by simpa [alloc] using hnone
  have hall : Finset.Ico 1 (2 ^ 64) ⊆ (t.slots.keys.map UInt64.toNat).toFinset := by
    intro n hn
    rw [Finset.mem_Ico] at hn
    have hval : (UInt64.ofNat n).toNat = n := UInt64.toNat_ofNat_of_lt' hn.2
    obtain ⟨i, hi, heq⟩ := exists_iterate_bump t.next (UInt64.ofNat n) (by
      intro h0
      rw [h0] at hval
      simp at hval
      omega)
    refine mem_toFinset.mpr (mem_map.mpr ⟨UInt64.ofNat n, ?_, hval⟩)
    rw [← heq]
    exact mem_keys_of_allocLoop_none hloop hi
  have hcard := Finset.card_le_card hall
  rw [card_keys, Nat.card_Ico] at hcard
  omega

/-! ### The count is kept -/

section Counted

variable {t t' : Table ρ ω} {s : UInt64}

theorem Counted.alloc (h : Counted t) (hs : t.alloc = some (t', s)) : Counted t' := by
  obtain ⟨hne, hfree, hslots, hactive⟩ := allocLoop_spec hs
  have hnot : s ∉ t.slots.keys := fun hmem =>
    AList.lookup_eq_none.mp hfree (AList.mem_keys.mp hmem)
  refine ⟨?_, ?_⟩
  · rw [hslots, AList.keys_insert, mem_cons, not_or]
    exact ⟨hne.symm, fun hmem => h.nonzero (mem_of_mem_erase hmem)⟩
  · rw [hactive, h.active, hslots, AList.keys_insert, length_cons,
      erase_of_not_mem hnot, UInt64.ofNat_add]
    rfl

theorem Counted.overwrite (h : Counted t) {slot old : Slot ρ ω}
    (hold : t.slots.lookup s = some old) :
    Counted { t with slots := t.slots.insert s slot } := by
  have hmem : s ∈ t.slots.keys :=
    AList.mem_keys.mpr (AList.lookup_isSome.mp (by simp [hold]))
  refine ⟨?_, ?_⟩
  · rw [AList.keys_insert, mem_cons, not_or]
    refine ⟨?_, fun hm => h.nonzero (mem_of_mem_erase hm)⟩
    rintro rfl
    exact h.nonzero hmem
  · rw [AList.keys_insert, length_cons, length_erase_of_mem hmem]
    have hpos := length_pos_of_mem hmem
    rw [show t.slots.keys.length - 1 + 1 = t.slots.keys.length by omega]
    exact h.active

theorem Counted.erase (h : Counted t) {old : Slot ρ ω} (hold : t.slots.lookup s = some old) :
    Counted { t with slots := t.slots.erase s, active := t.active - 1 } := by
  have hmem : s ∈ t.slots.keys :=
    AList.mem_keys.mpr (AList.lookup_isSome.mp (by simp [hold]))
  have hkeys : (t.slots.erase s).keys = t.slots.keys.erase s := AList.keys_erase _ _
  refine ⟨fun hm => h.nonzero (mem_of_mem_erase (hkeys ▸ hm)), ?_⟩
  have hpos := length_pos_of_mem hmem
  have hlen : t.slots.keys.length = t.slots.keys.length - 1 + 1 := by omega
  rw [hkeys, length_erase_of_mem hmem]
  rw [h.active, hlen, UInt64.ofNat_add, Nat.add_sub_cancel]
  exact add_sub_cancel_right _ _

theorem Counted.complete (h : Counted t) (s : UInt64) (r : ρ) : Counted (t.complete s r).1 := by
  unfold Table.complete
  split
  · exact h
  · exact h
  · next hold => exact h.overwrite hold

theorem Counted.poll (h : Counted t) (willWake : ω → ω → Bool) (s : UInt64) (w : ω) :
    Counted (t.poll willWake s w).1 := by
  unfold Table.poll
  split
  · next hold =>
    split
    · exact h
    · exact h.overwrite hold
  · next hold => exact h.erase hold
  · exact h

theorem Counted.abandon (h : Counted t) (s : UInt64) : Counted (t.abandon s) := by
  unfold Table.abandon
  split
  · next hold => exact h.erase hold
  · exact h

theorem Counted.clear (t : Table ρ ω) : Counted t.clear := ⟨by simp [Table.clear], rfl⟩

end Counted

end Table

end Rskynet.Session
