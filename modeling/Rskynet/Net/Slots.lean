import Mathlib.Order.Basic
import Rskynet.Net.Sockets

/-!
# The slot table of the sockets

The numbers given out run from one to `last` and start over, and a socket sits in the slot of its
number. `insert` tries as many numbers as there are slots. Where the numbers start over they leave
out zero, so the slots of the numbers tried are all the slots only if none is tried past `last` or the
size of the table divides `last`.

* `Sound` — what every run of the table keeps;
* `slot_table` — **PROVED**: slots, numbers, `get` and `remove` in every run, and when `insert` fails;
* `free_slot_missed` — **PROVED**: a table of two slots that refuses a socket with a slot free.
-/

namespace Rskynet.Net.Sockets

open List

/-- The greatest number of a socket. -/
def last : ℕ := 2 ^ 32 - 1

/-- A call that changes the table. -/
inductive Call where
  | insert (owner : Handle) (kind : Kind) (state : State)
  | remove (id : SocketId)

def call (t : Sockets) : Call → Sockets
  | .insert owner kind state => (t.insert owner kind state).2
  | .remove id => (t.remove id).2

def Full (t : Sockets) : Prop := ∀ i < t.slots.length, ∃ socket, t.slots[i]? = some (some socket)

/-- The scan of `insert` covers the table: the numbers it tries do not start over, or the size of
the table divides `last`, or it ends at a free slot before. -/
def Covers (t : Sockets) : Prop :=
  t.next + t.slots.length ≤ last + 1 ∨ t.slots.length ∣ last ∨
    ∃ n : ℕ, t.next ≤ n ∧ n ≤ last ∧ t.slots[t.slot n]? = some none

variable {t : Sockets} {id : SocketId} {socket : Socket} {capacity : ℕ}
  {owner : Handle} {kind : Kind} {state : State}

/-! ### The numbers tried -/

theorem after_eq {n : ℕ} (hle : n ≤ last) : after n = n % last + 1 := by
  unfold last at hle ⊢
  unfold after
  by_cases h : n = 2 ^ 32 - 1
  · subst h
    rfl
  · have hlt : n + 1 < 2 ^ 32 := by omega
    rw [Nat.mod_eq_of_lt hlt, if_neg (Nat.succ_ne_zero n), Nat.mod_eq_of_lt (by omega)]

theorem after_iterate {n : ℕ} (hpos : 1 ≤ n) (hle : n ≤ last) (k : ℕ) :
    after^[k] n = (n - 1 + k) % last + 1 := by
  induction k with
  | zero =>
    rw [Nat.add_zero, Nat.mod_eq_of_lt (by omega)]
    exact (Nat.sub_add_cancel hpos).symm
  | succ k ih =>
    have hlt : (n - 1 + k) % last < last := Nat.mod_lt _ (by decide)
    rw [Function.iterate_succ_apply', ih, after_eq hlt, Nat.succ_eq_add_one, Nat.mod_add_mod,
      Nat.add_assoc]

theorem after_iterate_bounds {n : ℕ} (h : 1 ≤ n ∧ n ≤ last) (k : ℕ) :
    1 ≤ after^[k] n ∧ after^[k] n ≤ last := by
  rw [after_iterate h.1 h.2]
  exact ⟨Nat.succ_pos _, Nat.mod_lt _ (by decide)⟩

/-- Before the numbers start over, and for a size that divides `last` also after, they fall into
the slots one after the other. -/
theorem after_iterate_mod {n k : ℕ} (hpos : 1 ≤ n) (hle : n ≤ last)
    (h : n + k ≤ last ∨ capacity ∣ last) : after^[k] n % capacity = (n + k) % capacity := by
  have hsum : n + k = n - 1 + k + 1 := by omega
  rw [after_iterate hpos hle, hsum]
  cases h with
  | inl h => rw [Nat.mod_eq_of_lt (show n - 1 + k < last by omega)]
  | inr h => rw [Nat.add_mod, Nat.mod_mod_of_dvd _ h, ← Nat.add_mod]

theorem insertLoop_fails_iff : ∀ {n : ℕ} {t : Sockets},
    ((insertLoop owner kind state n t).1 = none ↔
      ∀ k < n, ∃ socket, t.slots[t.slot (after^[k] t.next)]? = some (some socket)) := by
  intro n
  induction n with
  | zero =>
    intro t
    exact ⟨fun _ k hk => absurd hk (Nat.not_lt_zero k), fun _ => rfl⟩
  | succ n ih =>
    intro t
    rw [Nat.forall_lt_succ_left', insertLoop]
    split
    · rename_i _ found hfound
      have hfirst := Option.join_eq_some_iff.mp hfound
      exact ih.trans ⟨fun h => ⟨⟨found, hfirst⟩, h⟩, fun h => h.2⟩
    · rename_i hfree
      refine ⟨by rintro ⟨⟩, fun h => ?_⟩
      obtain ⟨found, hfound⟩ := h.1
      cases hfree.symm.trans (Option.join_eq_some_iff.mpr hfound)

/-! ### What every run keeps -/

structure Sound (capacity : ℕ) (t : Sockets) : Prop where
  length : t.slots.length = capacity
  next : 1 ≤ t.next ∧ t.next ≤ last
  placed : ∀ i socket, t.slots[i]? = some (some socket) → i = socket.id % capacity ∧ socket.id ≠ 0

theorem sound_new (capacity floor : ℕ) : Sound capacity (new capacity floor) where
  length := length_replicate
  next := ⟨Nat.le_refl 1, show 1 ≤ last by decide⟩
  placed i socket h := by cases (mem_replicate.mp (mem_of_getElem? h)).2

theorem Sound.slot_lt (h : Sound capacity t) (hcap : 0 < capacity) (i : ℕ) :
    t.slot i < t.slots.length := by
  unfold slot
  rw [h.length]
  exact Nat.mod_lt i hcap

/-- Another content for the slot of a number. -/
theorem Sound.put (h : Sound capacity t) {next : ℕ} (hnext : 1 ≤ next ∧ next ≤ last)
    {content : Option Socket} (hc : ∀ socket, content = some socket → socket.id = id ∧ id ≠ 0) :
    Sound capacity (({ t with next := next } : Sockets).put id content) where
  length := (length_set ..).trans h.length
  next := hnext
  placed i socket hi := by
    rw [Sockets.put, getElem?_set] at hi
    split at hi
    · rename_i heq
      split at hi
      · obtain ⟨hid, hne⟩ := hc socket (Option.some.inj hi)
        rw [hid, ← heq]
        exact ⟨congrArg (id % ·) h.length, hne⟩
      · cases hi
    · exact h.placed i socket hi

theorem Sound.call (h : Sound capacity t) (c : Call) : Sound capacity (t.call c) := by
  cases c with
  | insert owner kind state =>
    show Sound capacity (t.insert owner kind state).2
    cases hins : t.insert owner kind state with
    | mk found t' =>
      cases found with
      | none =>
        obtain ⟨hslots, hnext⟩ := insertLoop_eq_none hins
        refine ⟨hslots ▸ h.length, hnext ▸ after_iterate_bounds h.next _, ?_⟩
        rw [hslots]
        exact h.placed
      | some id =>
        obtain ⟨-, k, -, hid, rfl⟩ := insert_eq_some hins
        have hbounds := hid ▸ after_iterate_bounds h.next k
        refine h.put (after_iterate_bounds hbounds 1) fun socket hc => ?_
        cases hc
        exact ⟨rfl, Nat.pos_iff_ne_zero.mp hbounds.1⟩
  | remove id =>
    show Sound capacity (t.remove id).2
    unfold remove
    split
    · exact h
    · refine h.put h.next fun _ hc => ?_
      cases hc

theorem Sound.calls (h : Sound capacity t) (cs : List Call) :
    Sound capacity (cs.foldl Sockets.call t) := by
  induction cs generalizing t with
  | nil => exact h
  | cons c cs ih => exact ih (h.call c)

/-- **After `remove`** all sockets but the one with that number are left. -/
theorem Sound.remove (h : Sound capacity t) (i : ℕ) :
    (t.remove id).2.slots[i]? = some (some socket) ↔
      t.slots[i]? = some (some socket) ∧ socket.id ≠ id := by
  have hslot : ∀ {i}, t.slots[i]? = some (some socket) → socket.id = id → t.slot id = i := by
    intro i hi hid
    rw [slot, h.length, ← hid]
    exact (h.placed i socket hi).1.symm
  unfold Sockets.remove
  split
  · rename_i hget
    refine ⟨fun hi => ⟨hi, fun hid => ?_⟩, And.left⟩
    cases hget.symm.trans (get_of_slot ((hslot hi hid).symm ▸ hi) hid)
  · rename_i found hget
    obtain ⟨hfound, hid⟩ := get_eq_some hget
    show (t.slots.set (t.slot id) none)[i]? = _ ↔ _
    by_cases hi : t.slot id = i
    · subst hi
      rw [getElem?_set_self (Sockets.slot_lt hget), hfound]
      exact ⟨by rintro ⟨⟩, fun hs => absurd (by cases hs.1; exact hid) hs.2⟩
    · rw [getElem?_set_ne hi]
      exact ⟨fun hs => ⟨hs, fun hid => hi (hslot hs hid)⟩, And.left⟩

/-! ### When `insert` fails -/

/-- **A scan that does not start over**, or over a table whose size divides `last`, finds a free
slot if there is one. -/
theorem insert_fails_iff (h : Sound capacity t) (hcap : 0 < capacity) (hcovers : t.Covers) :
    (t.insert owner kind state).1 = none ↔ t.Full := by
  obtain ⟨hpos, hle⟩ := h.next
  unfold Covers at hcovers
  rw [Sockets.insert, insertLoop_fails_iff, h.length] at *
  by_cases hall : t.next + capacity ≤ last + 1 ∨ capacity ∣ last
  · refine ⟨fun htried i hi => ?_, fun hfull k _ => hfull _ (h.slot_lt hcap _)⟩
    rw [h.length] at hi
    -- the number that falls into slot `i`
    have hmod : (t.next + (i + (capacity - t.next % capacity)) % capacity) % capacity = i := by
      have hdiv := Nat.div_add_mod t.next capacity
      have hlt := Nat.mod_lt t.next hcap
      have hsum : t.next + (i + (capacity - t.next % capacity)) =
          i + capacity * (t.next / capacity + 1) := by
        rw [Nat.mul_add_one]
        omega
      rw [Nat.add_mod_mod, hsum, Nat.add_mul_mod_self_left, Nat.mod_eq_of_lt hi]
    have hk := Nat.mod_lt (i + (capacity - t.next % capacity)) hcap
    have hslot := htried _ hk
    unfold slot at hslot
    rwa [h.length, after_iterate_mod hpos hle (hall.imp_left (by omega)), hmod] at hslot
  · obtain ⟨n, hn, hnlast, hfree⟩ := (or_assoc.mpr hcovers).resolve_left hall
    have hk : after^[n - t.next] t.next = n := by
      have hsum : t.next - 1 + (n - t.next) + 1 = n := by omega
      rw [after_iterate hpos hle, Nat.mod_eq_of_lt (by omega), hsum]
    have hoccupied : ¬ ∃ socket, t.slots[t.slot n]? = some (some socket) := by
      rintro ⟨socket, hs⟩
      cases hfree.symm.trans hs
    exact ⟨fun htried => absurd (hk ▸ htried (n - t.next) (by omega)) hoccupied,
      fun hfull => absurd (hfull _ (h.slot_lt hcap n)) hoccupied⟩

/-- **The slot table in every run.**  Sockets sit in the slots of their numbers, which are distinct
and not zero; `get` and `remove` concern the socket with exactly that number; and `insert` fails
exactly when the table is full, if its scan covers the table. -/
theorem slot_table (capacity floor : ℕ) (hcap : 0 < capacity) (cs : List Call) :
    let t := cs.foldl call (new capacity floor)
    (∀ (i : ℕ) (socket : Socket), t.slots[i]? = some (some socket) →
      i = socket.id % capacity ∧ socket.id ≠ 0) ∧
    (∀ (i j : ℕ) (a b : Socket), t.slots[i]? = some (some a) → t.slots[j]? = some (some b) →
      a.id = b.id → i = j) ∧
    (∀ id socket, t.get id = some socket ↔
      socket.id = id ∧ ∃ i : ℕ, t.slots[i]? = some (some socket)) ∧
    (∀ id, (t.remove id).1 = t.get id ∧ ∀ (i : ℕ) (socket : Socket),
      (t.remove id).2.slots[i]? = some (some socket) ↔ t.slots[i]? = some (some socket) ∧ socket.id ≠ id) ∧
    (t.Covers → ∀ owner kind state, (t.insert owner kind state).1 = none ↔ t.Full) := by
  have h := (sound_new capacity floor).calls cs
  generalize cs.foldl call (new capacity floor) = t at h
  refine ⟨h.placed, ?_, fun id socket => ⟨fun hget => ?_, ?_⟩, fun id => ⟨?_, fun i _ => h.remove i⟩,
    fun hcovers owner kind state => insert_fails_iff h hcap hcovers⟩
  · intro i j a b ha hb hid
    rw [(h.placed i a ha).1, (h.placed j b hb).1, hid]
  · exact ⟨(get_eq_some hget).2, _, (get_eq_some hget).1⟩
  · rintro ⟨rfl, i, hi⟩
    refine get_of_slot ?_ rfl
    rw [slot, h.length, ← (h.placed i socket hi).1]
    exact hi
  · unfold Sockets.remove
    split <;> rename_i hget <;> exact hget.symm

theorem slot_table_of_two :
    let t := [Call.insert 0 .udp .connected, .insert 0 .udp .connected, .remove 1,
      .insert 0 .udp .connected].foldl call (new 2 64)
    0 < 2 ∧ t.Covers ∧ (t.insert 0 .udp .connected).1 = none ∧ t.Full :=
  ⟨by decide, .inl (by decide), rfl,
    ((slot_table 2 64 (by decide) _).2.2.2.2 (.inl (by decide)) 0 .udp .connected).mp rfl⟩

/-! ### A missed slot -/

/-- One socket stays, and others come and go in the other slot of two. -/
def wearing (n : ℕ) : List Call :=
  .insert 0 .udp .connected :: (range n).flatMap fun k =>
    [.insert 0 .udp .connected, .remove (2 * (k + 1))]

theorem wearing_state (n : ℕ) (hn : 2 * n + 2 < last) :
    (wearing (n + 1)).foldl call (new 2 64) =
      ⟨[none, some (.new 1 0 .udp .connected 64)], 2 * n + 3, 64⟩ := by
  induction n with
  | zero => rfl
  | succ n ih =>
    have hodd : after (2 * n + 3) = 2 * n + 4 := by
      rw [after_eq (by omega), Nat.mod_eq_of_lt (by omega)]
    have heven : after (2 * n + 4) = 2 * n + 5 := by
      rw [after_eq (by omega), Nat.mod_eq_of_lt (by omega)]
    have hlast : wearing (n + 1 + 1) =
        wearing (n + 1) ++ [.insert 0 .udp .connected, .remove (2 * n + 4)] := by
      simp [wearing, range_succ, Nat.mul_add]
    rw [hlast, foldl_append, ih (by omega)]
    have hone : (2 * n + 3) % 2 = 1 := by omega
    have hzero : (2 * n + 4) % 2 = 0 := by omega
    simp [call, insert, insertLoop, slot, put, remove, get, hodd, heven, hone, hzero, Socket.new]
    rw [Option.filter_some, if_pos (decide_eq_true rfl)]
    rfl

theorem free_slot_missed :
    let t := (wearing (2 ^ 31 - 1)).foldl call (new 2 64)
    (t.insert 0 .udp .connected).1 = none ∧ t.slots[0]? = some none := by
  intro t
  obtain ⟨n, hn⟩ : ∃ n, n + 1 = 2 ^ 31 - 1 := ⟨2 ^ 31 - 2, by decide⟩
  have ht : t = ⟨[none, some (.new 1 0 .udp .connected 64)], last, 64⟩ := by
    have hlast : 2 * n + 3 = last := by unfold last; omega
    rw [← hlast, ← wearing_state n (by omega), hn]
  rw [ht]
  decide

end Rskynet.Net.Sockets
