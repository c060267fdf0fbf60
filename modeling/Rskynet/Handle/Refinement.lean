import Rskynet.Handle.Storage
import Rskynet.Lib.History

/-!
# The handle table is a map

Over every history of operations that do not run into one of the two limits, the table is a map from
handles to contexts, with a map from names to handles beside it.

* `handle_table_refines_map` — **PROVED**: what the table answers in terms of the history.
-/

namespace Rskynet.Handle

open History List Option

variable {γ : Type*}

namespace Storage

/-- Handles in the table are below `next`, names are different and belong to handles in the table. -/
structure Valid (t : Storage γ) : Prop where
  slots : t.slots.Valid
  next : 1 ≤ t.next
  bound : ∀ i c, t.grab i = some c → 1 ≤ i ∧ i < t.next
  named : ∀ e ∈ t.names, (t.grab e.2).isSome = true
  nodup : (t.names.map Prod.fst).Nodup

variable {t t' : Storage γ}

theorem Valid.new : Valid (new : Storage γ) where
  slots := Slots.Valid.empty 2
  next := le_rfl
  bound := nofun
  named := fun _ h => absurd h not_mem_nil
  nodup := nodup_nil

theorem Valid.handle_of_grab (h : Valid t) {i : ℕ} {c : Context γ} (hc : t.grab i = some c) :
    c.handle = i :=
  (h.slots.find_eq_some.mp hc).1

/-! ### Registration -/

theorem Valid.registerWith (h : Valid t) {make : ℕ → γ} {rounds : ℕ} {c : Context γ}
    (hs : registerWith make (rounds + 2) t = .ok (t', c)) :
    Valid t' ∧ t.next ≤ c.handle ∧ c.data = make c.handle ∧ t'.next = c.handle + 1 ∧
      t'.names = t.names ∧ ∀ i, t'.grab i = if i = c.handle then some c else t.grab i := by
  rcases registerWith_spec make h.slots rounds with ⟨herr, -⟩ | ⟨herr, -⟩ | ⟨t₁, c₁, hok, hle, -,
    hdata, hnext, hnames, hvalid, hgrab⟩
  · rw [herr] at hs
    cases hs
  · rw [herr] at hs
    cases hs
  · obtain ⟨rfl, rfl⟩ := Prod.mk.inj (Except.ok.inj (hok.symm.trans hs))
    refine ⟨⟨hvalid, by omega, fun i d hd => ?_, fun e he => ?_, by rw [hnames]; exact h.nodup⟩,
      hle, hdata, hnext, hnames, hgrab⟩
    · have hone := h.next
      rw [hgrab] at hd
      split at hd
      · next hi => omega
      · have hb := h.bound i d hd
        omega
    · rw [hgrab]
      split
      · rfl
      · exact h.named e (hnames ▸ he)

/-! ### Retirement -/

theorem retire_snd (t : Storage γ) (handle : ℕ) : (t.retire handle).2 = t.grab handle := by
  unfold retire grab
  split
  · next h => exact h.symm
  · next h => exact h.symm

theorem Valid.grab_retire (h : Valid t) (handle i : ℕ) :
    (t.retire handle).1.grab i = if i = handle then none else t.grab i := by
  unfold retire
  split
  · next hnone =>
    split
    · next hi =>
      rw [hi]
      exact hnone
    · rfl
  · next c hc =>
    obtain rfl := h.handle_of_grab hc
    exact Slots.find_store_none hc i

theorem lookup_filter_names {names : List (String × ℕ)} (hnodup : (names.map Prod.fst).Nodup)
    (handle : ℕ) (name : String) :
    (names.filter fun e => e.2 != handle).lookup name
      = (names.lookup name).filter fun owner => owner != handle := by
  induction names with
  | nil => rfl
  | cons e names ih =>
    obtain ⟨n, owner⟩ := e
    rw [map_cons, nodup_cons] at hnodup
    have hih := ih hnodup.2
    by_cases hkeep : owner = handle
    · rw [filter_cons_of_neg (by simp [hkeep]), hih, lookup_cons]
      split
      · next hname =>
        -- the name occurs once, so the rest of the list does not have it
        have hnone : names.lookup name = none := by
          rw [lookup_eq_none_iff]
          intro p hp
          refine bne_iff_ne.mpr fun heq => hnodup.1 ?_
          exact mem_map.mpr ⟨p, hp, heq.symm.trans (eq_of_beq hname)⟩
        rw [hnone, filter_some]
        simp [hkeep]
      · rfl
    · rw [filter_cons_of_pos (by simp [hkeep]), lookup_cons, lookup_cons]
      split
      · rw [filter_some, if_pos (bne_iff_ne.mpr hkeep)]
      · exact hih

theorem names_retire (t : Storage γ) (handle : ℕ) :
    (t.retire handle).1.names = t.names ∧ t.grab handle = none ∨
      (t.retire handle).1.names = t.names.filter fun e => e.2 != handle := by
  unfold retire grab
  split
  · next h => exact .inl ⟨rfl, h⟩
  · right
    split
    · rfl
    · next hany =>
      refine (filter_eq_self.mpr fun e he => ?_).symm
      have hno := any_eq_false.mp (Bool.eq_false_of_not_eq_true hany) e he
      simpa [bne] using hno

theorem Valid.findName_retire (h : Valid t) (handle : ℕ) (name : String) :
    (t.retire handle).1.findName name
      = (t.findName name).filter fun owner => owner != handle := by
  unfold findName
  rcases names_retire t handle with ⟨hsame, hnone⟩ | hfilter
  · rw [hsame, ← lookup_filter_names h.nodup]
    congr 1
    refine (filter_eq_self.mpr fun e he => ?_).symm
    refine bne_iff_ne.mpr fun heq => ?_
    have hsome := h.named e he
    rw [heq, hnone] at hsome
    cases hsome
  · rw [hfilter]
    exact lookup_filter_names h.nodup handle name

theorem next_retire (t : Storage γ) (handle : ℕ) : (t.retire handle).1.next = t.next := by
  unfold retire
  split <;> rfl

theorem Valid.retire (h : Valid t) (handle : ℕ) : Valid (t.retire handle).1 := by
  refine ⟨?_, ?_, fun i c hc => ?_, fun e he => ?_, ?_⟩
  · unfold Storage.retire
    split
    · exact h.slots
    · exact h.slots.store_none _
  · rw [next_retire]
    exact h.next
  · rw [h.grab_retire] at hc
    split at hc
    · cases hc
    · rw [next_retire]
      exact h.bound i c hc
  · rw [h.grab_retire]
    rcases names_retire t handle with ⟨hsame, hnone⟩ | hfilter
    · rw [hsame] at he
      have hsome := h.named e he
      split
      · next heq =>
        rw [heq, hnone] at hsome
        cases hsome
      · exact hsome
    · rw [hfilter, mem_filter] at he
      rw [if_neg (by simpa using he.2)]
      exact h.named e he.1
  · rcases names_retire t handle with ⟨hsame, -⟩ | hfilter
    · rw [hsame]
      exact h.nodup
    · rw [hfilter]
      exact h.nodup.sublist (filter_sublist.map _)

/-! ### Names -/

theorem registerName_snd (t : Storage γ) (handle : ℕ) (name : String) :
    (t.registerName handle name).2
      = ((t.grab handle).isSome && (t.findName name).isNone) := by
  unfold registerName grab findName
  cases t.slots.find handle <;> cases t.names.lookup name <;> rfl

theorem registerName_refused {handle : ℕ} {name : String}
    (h : (t.registerName handle name).2 = false) : (t.registerName handle name).1 = t := by
  unfold registerName at h ⊢
  split
  · next hfind =>
    split
    · rfl
    · next hname =>
      rw [if_pos hfind, if_neg hname] at h
      cases h
  · rfl

theorem grab_registerName (t : Storage γ) (handle : ℕ) (name : String) (i : ℕ) :
    (t.registerName handle name).1.grab i = t.grab i := by
  unfold registerName
  split
  · split <;> rfl
  · rfl

theorem registerName_accepted {handle : ℕ} {name : String}
    (h : (t.registerName handle name).2 = true) :
    (t.registerName handle name).1 = { t with names := (name, handle) :: t.names } ∧
      (t.grab handle).isSome = true ∧ t.findName name = none := by
  have hboth := (registerName_snd t handle name).symm.trans h
  rw [Bool.and_eq_true, isNone_iff_eq_none] at hboth
  refine ⟨?_, hboth⟩
  have hfind : (t.slots.find handle).isSome = true := hboth.1
  have hname : t.names.lookup name = none := hboth.2
  rw [registerName, if_pos hfind, if_neg (by simp [hname])]

theorem Valid.registerName (h : Valid t) (handle : ℕ) (name : String) :
    Valid (t.registerName handle name).1 := by
  cases hb : (t.registerName handle name).2 with
  | false =>
    rw [registerName_refused hb]
    exact h
  | true =>
    obtain ⟨heq, hsome, hnone⟩ := registerName_accepted hb
    rw [heq]
    refine ⟨h.slots, h.next, h.bound, fun e he => ?_, ?_⟩
    · rcases mem_cons.mp he with rfl | he
      · exact hsome
      · exact h.named e he
    · rw [map_cons, nodup_cons]
      refine ⟨fun hmem => ?_, h.nodup⟩
      obtain ⟨e, he, hfst⟩ := mem_map.mp hmem
      have hne := lookup_eq_none_iff.mp hnone e he
      rw [hfst] at hne
      simp at hne

theorem Valid.grab_of_findName (h : Valid t) {name : String} {handle : ℕ}
    (hname : t.findName name = some handle) : (t.grab handle).isSome = true := by
  obtain ⟨l₁, l₂, hl, -⟩ := lookup_eq_some_iff.mp hname
  exact h.named (name, handle) (by rw [hl]; simp)

end Storage

/-! ### Histories -/

inductive Event (γ : Type*) where
  | register (context : Context γ)
  | retire (handle : ℕ) (retired : Option (Context γ))
  | name (handle : ℕ) (name : String) (accepted : Bool)

inductive Run : List (Event γ) → Storage γ → Prop where
  | new : Run [] Storage.new
  | register {es t t' c} (h : Run es t) (make : ℕ → γ) (rounds : ℕ)
      (hs : Storage.registerWith make (rounds + 2) t = .ok (t', c)) :
      Run (.register c :: es) t'
  | retire {es t} (h : Run es t) (handle : ℕ) :
      Run (.retire handle (t.retire handle).2 :: es) (t.retire handle).1
  | name {es t} (h : Run es t) (handle : ℕ) (name : String) :
      Run (.name handle name (t.registerName handle name).2 :: es) (t.registerName handle name).1

def handed (es : List (Event γ)) : List ℕ :=
  es.filterMap fun
    | .register c => some c.handle
    | _ => none

def Event.retires (handle : ℕ) : Event γ → Prop
  | .retire handle' _ => handle' = handle
  | _ => False

/-- The context was registered, and its handle not retired since. -/
def Live (c : Context γ) : List (Event γ) → Prop :=
  Since (fun e => e = .register c) (Event.retires c.handle)

/-- The name was registered for the handle, and the handle not retired since. -/
def Named (name : String) (handle : ℕ) : List (Event γ) → Prop :=
  Since (fun e => e = .name handle name true) (Event.retires handle)

section Runs

variable {es : List (Event γ)} {t : Storage γ}

theorem Run.valid (h : Run es t) : t.Valid := by
  induction h with
  | new => exact Storage.Valid.new
  | register h make rounds hs ih => exact (ih.registerWith hs).1
  | retire h handle ih => exact ih.retire handle
  | name h handle name ih => exact ih.registerName handle name

/-- Handles are handed out in increasing order, from `1` to below `next`. -/
theorem Run.handed_pairwise (h : Run es t) :
    (handed es).Pairwise (fun a b => b < a) ∧ ∀ i ∈ handed es, 1 ≤ i ∧ i < t.next := by
  induction h with
  | new => exact ⟨List.Pairwise.nil, fun i hi => absurd hi not_mem_nil⟩
  | @register es t t' c h make rounds hs ih =>
    obtain ⟨-, hle, -, hnext, -⟩ := h.valid.registerWith hs
    have hone := h.valid.next
    refine ⟨pairwise_cons.mpr ⟨fun i hi => ?_, ih.1⟩, fun i hi => ?_⟩
    · have hi := (ih.2 i hi).2
      omega
    · rcases mem_cons.mp hi with rfl | hi
      · omega
      · have hi := ih.2 i hi
        omega
  | @retire es t h handle ih =>
    rw [Storage.next_retire]
    exact ih
  | @name es t h handle name ih =>
    have hnext : (t.registerName handle name).1.next = t.next := by
      unfold Storage.registerName
      split
      · split <;> rfl
      · rfl
    rw [hnext]
    exact ih

/-- **`grab` finds what was registered and not retired.** -/
theorem Run.grab_iff (h : Run es t) (c : Context γ) :
    t.grab c.handle = some c ↔ Live c es := by
  induction h with
  | new => exact iff_of_false nofun not_since_nil
  | @register es t t' d h make rounds hs ih =>
    obtain ⟨-, hle, -, -, -, hgrab⟩ := h.valid.registerWith hs
    unfold Live at ih ⊢
    rw [since_cons, hgrab, ← ih]
    constructor
    · intro hc
      split at hc
      · rw [some.inj hc]
        exact .inl rfl
      · exact .inr ⟨fun hno => hno, hc⟩
    · rintro (heq | ⟨-, hc⟩)
      · injection heq with heq
        rw [heq, if_pos rfl]
      · have hb := h.valid.bound _ _ hc
        rw [if_neg (by omega), hc]
  | @retire es t h handle ih =>
    unfold Live at ih ⊢
    rw [since_cons, h.valid.grab_retire, ← ih]
    constructor
    · intro hc
      split at hc
      · cases hc
      · next hne => exact .inr ⟨fun heq => hne heq.symm, hc⟩
    · rintro (heq | ⟨hne, hc⟩)
      · cases heq
      · rw [if_neg fun heq => hne heq.symm, hc]
  | @name es t h handle name ih =>
    unfold Live at ih ⊢
    rw [since_cons, Storage.grab_registerName, ih]
    constructor
    · exact fun hl => .inr ⟨fun hno => hno, hl⟩
    · rintro (heq | ⟨-, hl⟩)
      · cases heq
      · exact hl

/-- **`find_name` finds what was registered and not retired.** -/
theorem Run.findName_iff (h : Run es t) (name : String) (handle : ℕ) :
    t.findName name = some handle ↔ Named name handle es := by
  induction h with
  | new => exact iff_of_false (by simp [Storage.findName, Storage.new]) not_since_nil
  | @register es t t' d h make rounds hs ih =>
    obtain ⟨-, -, -, -, hnames, -⟩ := h.valid.registerWith hs
    unfold Named at ih ⊢
    rw [since_cons, ← ih, Storage.findName, hnames]
    constructor
    · exact fun hl => .inr ⟨fun hno => hno, hl⟩
    · rintro (heq | ⟨-, hl⟩)
      · cases heq
      · exact hl
  | @retire es t h handle' ih =>
    unfold Named at ih ⊢
    rw [since_cons, ← ih, h.valid.findName_retire, filter_eq_some_iff]
    constructor
    · rintro ⟨hl, hne⟩
      exact .inr ⟨fun heq => (bne_iff_ne.mp hne) heq.symm, hl⟩
    · rintro (heq | ⟨hne, hl⟩)
      · cases heq
      · exact ⟨hl, bne_iff_ne.mpr fun heq => hne heq.symm⟩
  | @name es t h handle' name' ih =>
    unfold Named at ih ⊢
    rw [since_cons, ← ih]
    cases hb : (t.registerName handle' name').2 with
    | false =>
      rw [Storage.registerName_refused hb]
      constructor
      · exact fun hl => .inr ⟨fun hno => hno, hl⟩
      · rintro (heq | ⟨-, hl⟩)
        · injection heq with _ _ heq
          cases heq
        · exact hl
    | true =>
      obtain ⟨heq, -, hnone⟩ := Storage.registerName_accepted hb
      rw [heq]
      show lookup name ((name', handle') :: t.names) = some handle ↔ _
      rw [lookup_cons]
      constructor
      · intro hl
        split at hl
        · next hname =>
          rw [eq_of_beq hname, some.inj hl]
          exact .inl rfl
        · exact .inr ⟨fun hno => hno, hl⟩
      · rintro (heq | ⟨-, hl⟩)
        · injection heq with hh hn
          rw [hh, hn, beq_self_eq_true]
        · have hne : (name == name') = false := by
            refine beq_false_of_ne fun hname => ?_
            rw [hname, hnone] at hl
            cases hl
          rw [hne]
          exact hl

/-- **The handle table is a map from handles to contexts, with a map of names.** After every
history: no two live handles share a slot, handles are handed out in increasing order and never
again, and `grab`, `retire` and the names are those of the map. -/
theorem handle_table_refines_map (es : List (Event γ)) (t : Storage γ) (h : Run es t) :
    (∀ i c, t.slots.get i = some c → i = c.handle &&& (t.slots.size - 1)) ∧
    (∀ i j c d, t.slots.get i = some c → t.slots.get j = some d → c.handle ≠ d.handle →
      t.slots.hash c.handle ≠ t.slots.hash d.handle) ∧
    (∀ make rounds, (Storage.registerWith make (rounds + 2) t = .error .handles ∧
        2 ^ 64 ≤ t.next + t.slots.size * 2) ∨
      (Storage.registerWith make (rounds + 2) t = .error .capacity ∧ 2 ^ 32 ≤ t.slots.size * 2 ∧
        ∀ i < t.slots.size, ∃ c, t.slots.get i = some c) ∨
      ∃ t' c, Storage.registerWith make (rounds + 2) t = .ok (t', c) ∧ c.data = make c.handle ∧
        c.handle ≠ 0 ∧ (∀ i ∈ handed es, i < c.handle) ∧ t'.grab c.handle = some c) ∧
    ((handed es).Pairwise (fun newer older => older < newer) ∧ 0 ∉ handed es) ∧
    (∀ c, t.grab c.handle = some c ↔ Live c es) ∧ (∀ i c, t.grab i = some c → c.handle = i) ∧
    (∀ i, (t.retire i).2 = t.grab i) ∧ (∀ name i, t.findName name = some i ↔ Named name i es) ∧
    (∀ name i, t.findName name = some i → (t.grab i).isSome = true) ∧
    (∀ name i, (t.registerName i name).2 = true ↔
      (t.grab i).isSome = true ∧ t.findName name = none) ∧
    (∀ name i, (t.registerName i name).2 = false → (t.registerName i name).1 = t) ∧
    (∀ name i, (t.retire i).1.findName name ≠ some i) := by
  have hvalid := h.valid
  obtain ⟨hpair, hbound⟩ := h.handed_pairwise
  refine ⟨fun i c hc => (hvalid.slots.home i c hc).symm, ?_, ?_,
    ⟨hpair, fun h0 => absurd (hbound 0 h0).1 (by simp)⟩, h.grab_iff,
    fun i c => hvalid.handle_of_grab, Storage.retire_snd t, h.findName_iff,
    fun name i => hvalid.grab_of_findName, ?_, fun name i => Storage.registerName_refused, ?_⟩
  · intro i j c d hc hd hne hhash
    rw [hvalid.slots.home i c hc, hvalid.slots.home j d hd] at hhash
    rw [hhash, hd] at hc
    exact hne (congrArg Context.handle (some.inj hc).symm)
  · intro make rounds
    rcases Storage.registerWith_spec make hvalid.slots rounds with herr | herr | ⟨t', c, hok, hspec⟩
    · exact .inl herr
    · exact .inr (.inl herr)
    · obtain ⟨-, hle, hdata, -, -, hgrab⟩ := hvalid.registerWith hok
      have hone := hvalid.next
      refine .inr (.inr ⟨t', c, hok, hdata, by omega, fun i hi => ?_, ?_⟩)
      · have hi := (hbound i hi).2
        omega
      · rw [hgrab, if_pos rfl]
  · intro name i
    rw [Storage.registerName_snd, Bool.and_eq_true, isNone_iff_eq_none]
  · intro name i hname
    rw [hvalid.findName_retire, filter_eq_some_iff] at hname
    simpa using hname.2

end Runs

theorem nameless_of_registerThenRetire :
    ∃ t : Storage Unit,
      Run (.name 3 "logger" true :: [5, 4, 3, 2, 1].map fun i => .register ⟨i, ()⟩) t ∧
      t.slots.size = 8 ∧ t.findName "logger" = some 3 ∧
      (t.retire 3).1.findName "logger" ≠ some 3 := by
  have hone := Run.new.register (fun _ => ()) 0 rfl
  have htwo := hone.register (fun _ => ()) 0 rfl
  have hthree := htwo.register (fun _ => ()) 0 rfl
  have hfour := hthree.register (fun _ => ()) 0 rfl
  have hgrown := hfour.register (fun _ => ()) 0 rfl
  have hrun := hgrown.name 3 "logger"
  have hgone := (handle_table_refines_map _ _ hrun).2.2.2.2.2.2.2.2.2.2.2
  exact ⟨_, hrun, rfl, rfl, hgone "logger" 3⟩

end Rskynet.Handle
