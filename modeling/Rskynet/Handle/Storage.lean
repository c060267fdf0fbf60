import Mathlib.Data.List.Basic
import Mathlib.Data.Nat.Bitwise
import Mathlib.Logic.Function.Basic

/-!
# The handle table

`HandleStorage`: services by handle, in an array whose length is a power of two and in which the
service with handle `h` has its place at `h & (len - 1)`, and local names of services. Handles are
`u64` numbers that only ever increase.
-/

namespace Rskynet.Handle

open List Option

structure Context (γ : Type*) where
  handle : ℕ
  data : γ

structure Slots (γ : Type*) where
  size : ℕ
  get : ℕ → Option (Context γ)

/-- The table.  `next` is the handle that is tried next. -/
structure Storage (γ : Type*) where
  slots : Slots γ
  names : List (String × ℕ)
  next : ℕ

/-- Why an operation does not return: the handles or the array are used up; two services fall into
one slot of a new array; the search for a slot has not ended within the given rounds. -/
inductive Panic where
  | handles
  | capacity
  | occupied
  | unfinished
  deriving DecidableEq

variable {γ : Type*}
variable {c : Context γ}

namespace Slots

def empty (size : ℕ) : Slots γ := ⟨size, fun _ => none⟩

def hash (s : Slots γ) (handle : ℕ) : ℕ := handle &&& (s.size - 1)

def store (s : Slots γ) (i : ℕ) (x : Option (Context γ)) : Slots γ :=
  { s with get := Function.update s.get i x }

def contexts (s : Slots γ) : List (Context γ) := (List.range s.size).filterMap s.get

def find (s : Slots γ) (handle : ℕ) : Option (Context γ) :=
  (s.get (s.hash handle)).filter fun c => c.handle == handle

/-- Moves one context into a new array, with the assertion that its slot is free. -/
def place (s : Slots γ) (c : Context γ) : Except Panic (Slots γ) :=
  match s.get (s.hash c.handle) with
  | none => .ok (s.store (s.hash c.handle) (some c))
  | some _ => .error .occupied

def grow (s : Slots γ) : Except Panic (Slots γ) :=
  if s.size * 2 ≤ 2 ^ 32 - 1 then s.contexts.foldlM place (empty (s.size * 2))
  else .error .capacity

def checkedSucc (handle : ℕ) : Except Panic ℕ :=
  if handle + 1 < 2 ^ 64 then .ok (handle + 1) else .error .handles

/-- The inner loop of `register_with`: the first of the next handles whose slot is free. -/
def probe (s : Slots γ) : ℕ → ℕ → Except Panic (Option ℕ)
  | 0, _ => .ok none
  | rounds + 1, handle =>
      match s.get (s.hash handle) with
      | none => (checkedSucc handle).map fun _ => some handle
      | some _ => (checkedSucc handle).bind (probe s rounds)

end Slots

namespace Storage

def new : Storage γ := ⟨Slots.empty 4, [], 1⟩

def insert (t : Storage γ) (c : Context γ) : Storage γ :=
  { t with slots := t.slots.store (t.slots.hash c.handle) (some c), next := c.handle + 1 }

/-- The outer loop of `register_with`, with a bound on its rounds.  `make` builds the context of a
handle. -/
def registerWith (make : ℕ → γ) : ℕ → Storage γ → Except Panic (Storage γ × Context γ)
  | 0, _ => .error .unfinished
  | rounds + 1, t =>
      match t.slots.probe t.slots.size t.next with
      | .error p => .error p
      | .ok (some handle) => .ok (t.insert ⟨handle, make handle⟩, ⟨handle, make handle⟩)
      | .ok none =>
          match t.slots.grow with
          | .error p => .error p
          | .ok slots => registerWith make rounds { t with slots := slots }

def grab (t : Storage γ) (handle : ℕ) : Option (Context γ) := t.slots.find handle

def retire (t : Storage γ) (handle : ℕ) : Storage γ × Option (Context γ) :=
  match t.slots.find handle with
  | none => (t, none)
  | some c =>
      ({ t with
        slots := t.slots.store (t.slots.hash handle) none
        names :=
          if t.names.any fun entry => entry.2 == handle then
            t.names.filter fun entry => entry.2 != handle
          else t.names }, some c)

def findName (t : Storage γ) (name : String) : Option ℕ := t.names.lookup name

def registerName (t : Storage γ) (handle : ℕ) (name : String) : Storage γ × Bool :=
  if (t.slots.find handle).isSome then
    if (t.names.lookup name).isSome then (t, false)
    else ({ t with names := (name, handle) :: t.names }, true)
  else (t, false)

end Storage

/-! ### The array -/

namespace Slots

/-- The length is a power of two, and every context is in the slot of its handle. -/
structure Valid (s : Slots γ) : Prop where
  power : ∃ k, s.size = 2 ^ k
  home : ∀ i c, s.get i = some c → s.hash c.handle = i

variable {s s' : Slots γ}

theorem hash_eq_mod (h : ∃ k, s.size = 2 ^ k) (handle : ℕ) : s.hash handle = handle % s.size := by
  obtain ⟨k, hk⟩ := h
  rw [hash, hk, Nat.and_two_pow_sub_one_eq_mod]

theorem size_pos (h : ∃ k, s.size = 2 ^ k) : 0 < s.size := by
  obtain ⟨k, hk⟩ := h
  rw [hk]
  exact Nat.two_pow_pos k

theorem get_store_self (i : ℕ) (x : Option (Context γ)) : (s.store i x).get i = x :=
  Function.update_self _ _ _

theorem get_store_of_ne {i j : ℕ} (h : j ≠ i) (x : Option (Context γ)) :
    (s.store i x).get j = s.get j :=
  Function.update_of_ne h _ _

theorem Valid.empty (k : ℕ) : Valid (empty (2 ^ k) : Slots γ) :=
  ⟨⟨k, rfl⟩, nofun⟩

theorem Valid.find_eq_some (h : Valid s) {handle : ℕ} :
    s.find handle = some c ↔ c.handle = handle ∧ ∃ i, s.get i = some c := by
  unfold find
  rw [filter_eq_some_iff]
  constructor
  · rintro ⟨hget, heq⟩
    exact ⟨eq_of_beq heq, _, hget⟩
  · rintro ⟨rfl, i, hget⟩
    rw [h.home i c hget]
    exact ⟨hget, beq_self_eq_true _⟩

theorem Valid.unique (h : Valid s) {i j : ℕ} {d : Context γ} (hc : s.get i = some c)
    (hd : s.get j = some d) (hmod : c.handle % s.size = d.handle % s.size) : c = d := by
  have hi := h.home i c hc
  have hj := h.home j d hd
  rw [hash_eq_mod h.power] at hi hj
  have hij : i = j := by omega
  subst hij
  rw [hc] at hd
  exact some.inj hd

theorem Valid.store_some (h : Valid s) (c : Context γ) :
    Valid (s.store (s.hash c.handle) (some c)) := by
  refine ⟨h.power, fun i d hd => ?_⟩
  by_cases hi : i = s.hash c.handle
  · subst hi
    rw [get_store_self] at hd
    rw [← some.inj hd]
    rfl
  · rw [get_store_of_ne hi] at hd
    exact h.home i d hd

theorem Valid.store_none (h : Valid s) (i : ℕ) : Valid (s.store i none) := by
  refine ⟨h.power, fun j d hd => ?_⟩
  by_cases hj : j = i
  · subst hj
    rw [get_store_self] at hd
    cases hd
  · rw [get_store_of_ne hj] at hd
    exact h.home j d hd

theorem find_store (i : ℕ) (x : Option (Context γ)) (handle : ℕ) :
    (s.store i x).find handle
      = if s.hash handle = i then x.filter (fun c => c.handle == handle) else s.find handle := by
  show ((s.store i x).get (s.hash handle)).filter _ = _
  split
  · next h => rw [h, get_store_self]
  · next h =>
    rw [get_store_of_ne h]
    rfl

theorem find_store_some (c : Context γ) (hfree : s.get (s.hash c.handle) = none) (handle : ℕ) :
    (s.store (s.hash c.handle) (some c)).find handle
      = if handle = c.handle then some c else s.find handle := by
  rw [find_store]
  by_cases hsame : handle = c.handle
  · rw [if_pos hsame, hsame, if_pos rfl, filter_some, if_pos (beq_self_eq_true _)]
  · split
    · next hslot =>
      have hne : (c.handle == handle) = false := beq_false_of_ne (Ne.symm hsame)
      rw [find, hslot, hfree, filter_some, hne]
      rfl
    · rfl

theorem find_store_none (hc : s.find c.handle = some c) (handle : ℕ) :
    (s.store (s.hash c.handle) none).find handle
      = if handle = c.handle then none else s.find handle := by
  rw [find_store]
  by_cases hsame : handle = c.handle
  · rw [if_pos hsame, hsame, if_pos rfl]
    rfl
  · split
    · next hslot =>
      have hget : s.get (s.hash c.handle) = some c := (filter_eq_some_iff.mp hc).1
      have hne : (c.handle == handle) = false := beq_false_of_ne (Ne.symm hsame)
      rw [find, hslot, hget, filter_some, hne]
      rfl
    · rfl

/-! ### Growth -/

theorem foldlM_place (h : ∃ k, s.size = 2 ^ k) (cs : List (Context γ))
    (hdistinct : cs.Pairwise fun c d => c.handle % s.size ≠ d.handle % s.size)
    (hfree : ∀ c ∈ cs, s.get (c.handle % s.size) = none) :
    ∃ s', cs.foldlM place s = .ok s' ∧ s'.size = s.size ∧
      ∀ i c, s'.get i = some c ↔ s.get i = some c ∨ (c ∈ cs ∧ c.handle % s.size = i) := by
  induction cs generalizing s with
  | nil => exact ⟨s, rfl, rfl, fun i c => by simp⟩
  | cons d cs ih =>
    obtain ⟨hd, hrest⟩ := pairwise_cons.mp hdistinct
    have hhash : s.hash d.handle = d.handle % s.size := hash_eq_mod h _
    have hdfree : s.get (s.hash d.handle) = none := by
      rw [hhash]
      exact hfree d mem_cons_self
    have hplace : place s d = .ok (s.store (s.hash d.handle) (some d)) := by
      rw [place, hdfree]
    obtain ⟨s', hs', hsize, hget⟩ := ih (s := s.store (s.hash d.handle) (some d)) h hrest (by
      intro c hc
      rw [get_store_of_ne]
      · exact hfree c (mem_cons_of_mem _ hc)
      · rw [hhash]
        exact (hd c hc).symm)
    refine ⟨s', ?_, hsize, fun i c => ?_⟩
    · rw [foldlM_cons, hplace]
      exact hs'
    · rw [hget]
      by_cases hi : i = s.hash d.handle
      · subst hi
        rw [get_store_self, hdfree, hhash]
        constructor
        · rintro (heq | ⟨hc, hmod⟩)
          · obtain rfl := some.inj heq
            exact .inr ⟨mem_cons_self, rfl⟩
          · exact absurd hmod.symm (hd c hc)
        · rintro (hno | ⟨hc, hmod⟩)
          · cases hno
          · rcases mem_cons.mp hc with rfl | hc
            · exact .inl rfl
            · exact absurd hmod.symm (hd c hc)
      · rw [get_store_of_ne hi, mem_cons]
        constructor
        · rintro (hold | ⟨hc, hmod⟩)
          · exact .inl hold
          · exact .inr ⟨.inr hc, hmod⟩
        · rintro (hold | ⟨rfl | hc, hmod⟩)
          · exact .inl hold
          · exact absurd (hmod.symm.trans hhash.symm) hi
          · exact .inr ⟨hc, hmod⟩

theorem Valid.lt_size (h : Valid s) {i : ℕ} (hc : s.get i = some c) :
    i < s.size := by
  have hi := h.home i c hc
  rw [hash_eq_mod h.power] at hi
  exact hi ▸ Nat.mod_lt _ (size_pos h.power)

theorem Valid.mem_contexts (h : Valid s) :
    c ∈ s.contexts ↔ ∃ i, s.get i = some c := by
  unfold contexts
  rw [mem_filterMap]
  constructor
  · rintro ⟨i, -, hc⟩
    exact ⟨i, hc⟩
  · rintro ⟨i, hc⟩
    exact ⟨i, mem_range.mpr (h.lt_size hc), hc⟩

theorem Valid.pairwise_contexts (h : Valid s) :
    s.contexts.Pairwise fun c d => c.handle % (s.size * 2) ≠ d.handle % (s.size * 2) := by
  refine List.Pairwise.filterMap s.get ?_ nodup_range
  intro i j hij c hc d hd hmod
  have hi := h.home i c hc
  have hj := h.home j d hd
  rw [hash_eq_mod h.power] at hi hj
  have hdvd : c.handle % s.size = d.handle % s.size := by
    rw [← Nat.mod_mul_right_mod c.handle s.size 2, hmod, Nat.mod_mul_right_mod]
  exact hij (by omega)

/-- **Growth keeps every context and gives each a slot of its own.** -/
theorem Valid.grow (h : Valid s) :
    (s.grow = .error .capacity ∧ 2 ^ 32 ≤ s.size * 2) ∨
    ∃ s', s.grow = .ok s' ∧ Valid s' ∧ s'.size = s.size * 2 ∧
      ∀ i c, s'.get i = some c ↔ (∃ j, s.get j = some c) ∧ c.handle % (s.size * 2) = i := by
  unfold Slots.grow
  split
  · right
    have hpower : ∃ k, (Slots.empty (s.size * 2) : Slots γ).size = 2 ^ k := by
      obtain ⟨k, hk⟩ := h.power
      exact ⟨k + 1, by rw [Slots.empty, hk, pow_succ]⟩
    obtain ⟨s', hs', hsize, hget⟩ := foldlM_place (s := Slots.empty (s.size * 2)) hpower s.contexts
      h.pairwise_contexts (fun _ _ => rfl)
    have hget' : ∀ i c, s'.get i = some c ↔
        (∃ j, s.get j = some c) ∧ c.handle % (s.size * 2) = i := by
      intro i c
      rw [hget, h.mem_contexts]
      exact or_iff_right nofun
    refine ⟨s', hs', ⟨by rwa [hsize], fun i c hc => ?_⟩, hsize, hget'⟩
    rw [hash_eq_mod (by rwa [hsize]), hsize]
    exact ((hget' i c).mp hc).2
  · exact .inl ⟨rfl, by omega⟩

theorem Valid.find_grow (h : Valid s) (hs : s.grow = .ok s') (handle : ℕ) :
    s'.find handle = s.find handle := by
  rcases h.grow with ⟨herr, -⟩ | ⟨s'', hok, hvalid, -, hget⟩
  · rw [herr] at hs
    cases hs
  · obtain rfl : s'' = s' := Except.ok.inj (hok.symm.trans hs)
    refine ext fun c => ?_
    rw [hvalid.find_eq_some, h.find_eq_some]
    refine and_congr_right fun _ => ?_
    constructor
    · rintro ⟨i, hc⟩
      exact ((hget i c).mp hc).1
    · intro hc
      exact ⟨_, (hget _ c).mpr ⟨hc, rfl⟩⟩

/-! ### The search for a slot -/

theorem probe_cases (s : Slots γ) (rounds handle : ℕ) :
    (s.probe rounds handle = .error .handles ∧ 2 ^ 64 ≤ handle + rounds) ∨
    (∃ h, s.probe rounds handle = .ok (some h) ∧ handle ≤ h ∧ h + 1 < 2 ^ 64 ∧
      s.get (s.hash h) = none) ∨ (s.probe rounds handle = .ok none ∧
      ∀ i < rounds, (s.get (s.hash (handle + i))).isSome = true) := by
  induction rounds generalizing handle with
  | zero => exact .inr (.inr ⟨rfl, fun i hi => absurd hi (Nat.not_lt_zero i)⟩)
  | succ rounds ih =>
    simp only [probe, checkedSucc]
    split
    · next hfree =>
      split
      · next hlt => exact .inr (.inl ⟨handle, rfl, le_rfl, hlt, hfree⟩)
      · exact .inl ⟨rfl, by omega⟩
    · next c hc =>
      split
      · rcases ih (handle + 1) with herr | ⟨h, hok, hle, hlt, hfree⟩ | ⟨hok, hfull⟩
        · exact .inl ⟨herr.1, by omega⟩
        · exact .inr (.inl ⟨h, hok, by omega, hlt, hfree⟩)
        · refine .inr (.inr ⟨hok, fun i hi => ?_⟩)
          cases i with
          | zero => simp [hc]
          | succ i =>
            rw [show handle + (i + 1) = handle + 1 + i by omega]
            exact hfull i (by omega)
      · exact .inl ⟨rfl, by omega⟩

theorem full_of_probe (h : ∃ k, s.size = 2 ^ k) {handle : ℕ}
    (hfull : ∀ i < s.size, (s.get (s.hash (handle + i))).isSome = true) {r : ℕ} (hr : r < s.size) :
    ∃ c, s.get r = some c := by
  have hpos := size_pos h
  -- the first handle from `handle` on that falls into slot `r`
  have hmod : (handle + (s.size - handle % s.size + r) % s.size) % s.size = r := by
    rw [Nat.add_mod, Nat.mod_mod, ← Nat.add_mod]
    have hle : handle % s.size ≤ s.size := (Nat.mod_lt _ hpos).le
    have hdiv := Nat.div_add_mod handle s.size
    have hsum : handle + (s.size - handle % s.size + r) = r + s.size * (handle / s.size + 1) := by
      rw [Nat.mul_add, Nat.mul_one]
      omega
    rw [hsum, Nat.add_mul_mod_self_left, Nat.mod_eq_of_lt hr]
  have hsome := hfull _ (Nat.mod_lt (s.size - handle % s.size + r) hpos)
  rw [hash_eq_mod h, hmod] at hsome
  exact isSome_iff_exists.mp hsome

/-- After a growth that found every slot taken, half of the slots are free, so that the search ends. -/
theorem probe_grown (h : Valid s) (hs : s.grow = .ok s') (handle : ℕ) :
    s'.probe s'.size handle ≠ .ok none := by
  intro hnone
  rcases h.grow with ⟨herr, -⟩ | ⟨s'', hok, hvalid, hsize, hget⟩
  · rw [herr] at hs
    cases hs
  obtain rfl : s'' = s' := Except.ok.inj (hok.symm.trans hs)
  have hpos := size_pos h.power
  rcases probe_cases s'' s''.size handle with ⟨herr, -⟩ | ⟨_, hfound, -⟩ | ⟨-, hfull⟩
  · rw [herr] at hnone
    cases hnone
  · rw [hfound] at hnone
    cases hnone
  · -- slots `0` and `size` of the new array can only be filled from slot `0` of the old one
    obtain ⟨c, hc⟩ := full_of_probe hvalid.power hfull (show 0 < s''.size by omega)
    obtain ⟨d, hd⟩ := full_of_probe hvalid.power hfull (show s.size < s''.size by omega)
    obtain ⟨⟨i, hi⟩, hcmod⟩ := (hget 0 c).mp hc
    obtain ⟨⟨j, hj⟩, hdmod⟩ := (hget s.size d).mp hd
    have hsame : c.handle % s.size = d.handle % s.size := by
      rw [← Nat.mod_mul_right_mod c.handle s.size 2, hcmod,
        ← Nat.mod_mul_right_mod d.handle s.size 2, hdmod, Nat.zero_mod, Nat.mod_self]
    obtain rfl := h.unique hi hj hsame
    omega

end Slots

/-! ### Registration -/

namespace Storage

/-- **What `register_with` comes to.**  With two rounds or more, it hands out a handle from `next`
on, or the handles are used up, or the array is full and cannot grow. -/
theorem registerWith_spec (make : ℕ → γ) {t : Storage γ} (h : t.slots.Valid) (rounds : ℕ) :
    (registerWith make (rounds + 2) t = .error .handles ∧ 2 ^ 64 ≤ t.next + t.slots.size * 2) ∨
    (registerWith make (rounds + 2) t = .error .capacity ∧ 2 ^ 32 ≤ t.slots.size * 2 ∧
      ∀ i < t.slots.size, ∃ c, t.slots.get i = some c) ∨
    ∃ t' c, registerWith make (rounds + 2) t = .ok (t', c) ∧ t.next ≤ c.handle ∧
      c.handle + 1 < 2 ^ 64 ∧ c.data = make c.handle ∧ t'.next = c.handle + 1 ∧
      t'.names = t.names ∧ t'.slots.Valid ∧
      ∀ i, t'.grab i = if i = c.handle then some c else t.grab i := by
  rcases t.slots.probe_cases t.slots.size t.next with ⟨herr, hmax⟩ | ⟨n, hok, hle, hlt, hfree⟩ |
    ⟨hok, hfull⟩
  · refine .inl ⟨?_, by omega⟩
    simp only [registerWith, herr]
  · refine .inr (.inr ⟨t.insert ⟨n, make n⟩, ⟨n, make n⟩, ?_, hle, hlt, rfl, ?_⟩)
    · simp only [registerWith, hok]
    · exact ⟨rfl, rfl, h.store_some ⟨n, make n⟩, Slots.find_store_some ⟨n, make n⟩ hfree⟩
  · rcases h.grow with ⟨hcap, hmax⟩ | ⟨s', hgrow, hvalid, hsize, -⟩
    · refine .inr (.inl ⟨?_, hmax, fun i hi => Slots.full_of_probe h.power hfull hi⟩)
      simp only [registerWith, hok, hcap]
    · have hfind := h.find_grow hgrow
      rcases s'.probe_cases s'.size t.next with ⟨herr, hmax⟩ | ⟨n, hok', hle, hlt, hfree⟩ |
        ⟨hnone, -⟩
      · refine .inl ⟨?_, hsize ▸ hmax⟩
        simp only [registerWith, hok, hgrow, herr]
      · refine .inr (.inr ⟨insert { t with slots := s' } ⟨n, make n⟩, ⟨n, make n⟩, ?_, hle,
          hlt, rfl, ?_⟩)
        · simp only [registerWith, hok, hgrow, hok']
        · refine ⟨rfl, rfl, hvalid.store_some ⟨n, make n⟩, fun i => ?_⟩
          have hi := Slots.find_store_some ⟨n, make n⟩ hfree i
          rw [hfind i] at hi
          exact hi
      · exact absurd hnone (Slots.probe_grown h hgrow _)

end Storage

end Rskynet.Handle
