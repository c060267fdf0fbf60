import Mathlib.Logic.Function.Basic
import Mathlib.Logic.Relation

/-!
# Programs over cells with one live guard each

A cell may have one live guard at a time; taking a second one is a fault. A handler is a program
over the contents of the cells and the set of those with a live guard, so that where a guard starts
and ends is part of the program.
-/

namespace Cells

open Function (update update_eq_self update_idem)

variable {b : Bool}

variable {ι σ α β : Type}
variable {a : α} {d : σ}

/-- Why a handler does not return: a second guard of a cell, or a loop that is still going after
the rounds it was given. -/
inductive Fault (ι : Type) where
  | lease (cell : ι)
  | unfinished
  deriving DecidableEq

structure World (ι σ : Type) where
  held : ι → Bool
  data : σ

abbrev Prog (ι σ : Type) := StateT (World ι σ) (Except (Fault ι))

def effect (f : σ → α × σ) : Prog ι σ α := fun w =>
  .ok ((f w.data).1, { w with data := (f w.data).2 })

def change (f : σ → σ) : Prog ι σ Unit := effect fun d => ((), f d)

def look (f : σ → α) : Prog ι σ α := effect fun d => (f d, d)

def stop (e : Fault ι) : Prog ι σ α := fun _ => .error e

def onlyIf (b : Bool) (m : Prog ι σ Unit) : Prog ι σ Unit := if b then m else pure ()

/-- Takes a guard of `c`; a second one is a fault. -/
def acquire [DecidableEq ι] (c : ι) : Prog ι σ Unit := fun w =>
  if w.held c then .error (.lease c) else .ok ((), { w with held := Function.update w.held c true })

def release [DecidableEq ι] (c : ι) : Prog ι σ Unit := fun w =>
  .ok ((), { w with held := Function.update w.held c false })

def guarded [DecidableEq ι] (c : ι) (m : Prog ι σ α) : Prog ι σ α := do
  acquire c
  let a ← m
  release c
  return a

/-- A block under a guard of `c` that only computes. -/
def within [DecidableEq ι] (c : ι) (f : σ → α × σ) : Prog ι σ α := guarded c (effect f)

/-! ### Running -/

variable {m : Prog ι σ α} {f : α → Prog ι σ β} {w' : World ι σ}

section Run

variable {w : World ι σ}

theorem bind_apply (m : Prog ι σ α) (f : α → Prog ι σ β) :
    (m >>= f) w = match m w with
      | .ok (a, w') => f a w'
      | .error e => .error e := by
  show (StateT.bind m f) w = _
  unfold StateT.bind
  cases m w <;> rfl

theorem bind_of_ok (h : m w = .ok (a, w')) : (m >>= f) w = f a w' := by
  rw [bind_apply, h]

theorem bind_of_error {e : Fault ι} (h : m w = .error e) : (m >>= f) w = .error e := by
  rw [bind_apply, h]

theorem bind_eq_ok {b : β} (h : (m >>= f) w = .ok (b, w')) :
    ∃ a w₁, m w = .ok (a, w₁) ∧ f a w₁ = .ok (b, w') := by
  rw [bind_apply] at h
  split at h
  · exact ⟨_, _, by assumption, h⟩
  · cases h

theorem bind_look (f : σ → α) (g : α → Prog ι σ β) : (look f >>= g) w = g (f w.data) w :=
  bind_of_ok rfl

theorem onlyIf_of_true {m : Prog ι σ Unit} (h : b = true) : onlyIf b m w = m w := by
  rw [h]
  rfl

theorem onlyIf_of_false {m : Prog ι σ Unit} (h : b = false) :
    onlyIf b m w = .ok ((), w) := by
  rw [h]
  rfl

variable [DecidableEq ι] {c : ι}

theorem acquire_free (h : w.held c = false) :
    acquire c w = .ok ((), { w with held := update w.held c true }) := by
  simp [acquire, h]

theorem acquire_held (h : w.held c = true) : acquire c w = .error (.lease c) := by
  simp [acquire, h]

theorem guarded_held (m : Prog ι σ α) (h : w.held c = true) :
    guarded c m w = .error (.lease c) :=
  bind_of_error (acquire_held h)

theorem guarded_free (h : w.held c = false)
    (hm : m { w with held := update w.held c true } = .ok (a, ⟨update w.held c true, d⟩)) :
    guarded c m w = .ok (a, { w with data := d }) := by
  have hback : update (update w.held c true) c false = w.held := by
    rw [update_idem, ← h, update_eq_self]
  unfold guarded
  rw [bind_of_ok (acquire_free h), bind_of_ok hm]
  show Except.ok (a, World.mk (update (update w.held c true) c false) d) = _
  rw [hback]

theorem guarded_free_error {e : Fault ι} (h : w.held c = false)
    (hm : m { w with held := update w.held c true } = .error e) :
    guarded c m w = .error e := by
  unfold guarded
  rw [bind_of_ok (acquire_free h), bind_of_error hm]

theorem guarded_eq_ok (h : guarded c m w = .ok (a, w')) :
    ∃ w₁, m { w with held := update w.held c true } = .ok (a, w₁) ∧ w'.data = w₁.data := by
  obtain ⟨_, w₁, hacq, h⟩ := bind_eq_ok h
  obtain ⟨b, w₂, hm, h⟩ := bind_eq_ok h
  obtain ⟨_, w₃, hrel, h⟩ := bind_eq_ok h
  unfold acquire at hacq
  split at hacq
  · cases hacq
  · cases hacq
    cases hrel
    cases h
    exact ⟨w₂, hm, rfl⟩

theorem within_eq_ok {f : σ → α × σ} (h : within c f w = .ok (a, w')) :
    a = (f w.data).1 ∧ w'.data = (f w.data).2 := by
  obtain ⟨w₁, hm, hdata⟩ := guarded_eq_ok h
  cases hm
  exact ⟨rfl, hdata⟩

theorem within_free (f : σ → α × σ) (h : w.held c = false) :
    within c f w = .ok ((f w.data).1, { w with data := (f w.data).2 }) :=
  guarded_free h rfl

theorem within_held (f : σ → α × σ) (h : w.held c = true) :
    within c f w = .error (.lease c) :=
  guarded_held _ h

end Run

/-! ### Observations -/

/-- Whenever `m` returns, the observation of the contents has changed by `g`. -/
def Acts {τ : Type} (obs : σ → τ) (g : τ → τ) (m : Prog ι σ α) : Prop :=
  ∀ w a w', m w = .ok (a, w') → obs w'.data = g (obs w.data)

/-- Whenever `m` returns, the observation is what it was. -/
def Still {τ : Type} (obs : σ → τ) (m : Prog ι σ α) : Prop :=
  ∀ w a w', m w = .ok (a, w') → obs w'.data = obs w.data

/-- Whenever `m` returns, the observation has gone through steps of `R`. -/
def Moves {τ : Type} (obs : σ → τ) (R : τ → τ → Prop) (m : Prog ι σ α) : Prop :=
  ∀ w a w', m w = .ok (a, w') → Relation.ReflTransGen R (obs w.data) (obs w'.data)

section Observations

variable {τ : Type} {obs : σ → τ} {g g' : τ → τ} {R : τ → τ → Prop}

theorem acts_effect {f : σ → α × σ} (h : ∀ d, obs (f d).2 = g (obs d)) :
    Acts obs g (effect f : Prog ι σ α) := by
  intro w a w' hm
  cases hm
  exact h w.data

theorem acts_change {f : σ → σ} (h : ∀ d, obs (f d) = g (obs d)) :
    Acts obs g (change f : Prog ι σ Unit) := acts_effect h

theorem Acts.bind (hm : Acts obs g m) (hf : ∀ a, Acts obs g' (f a)) :
    Acts obs (fun v => g' (g v)) (m >>= f) := by
  intro w b w' h
  obtain ⟨a, w₁, ha, hb⟩ := bind_eq_ok h
  rw [hf a w₁ b w' hb, hm w a w₁ ha]

theorem still_pure (a : α) : Still obs (pure a : Prog ι σ α) := by
  intro w a' w' h
  cases h
  rfl

theorem still_effect {f : σ → α × σ} (h : ∀ d, obs (f d).2 = obs d) :
    Still obs (effect f : Prog ι σ α) := by
  intro w a w' hm
  cases hm
  exact h w.data

theorem still_change {f : σ → σ} (h : ∀ d, obs (f d) = obs d) :
    Still obs (change f : Prog ι σ Unit) := still_effect h

theorem still_look (f : σ → α) : Still obs (look f : Prog ι σ α) := still_effect fun _ => rfl

theorem Still.bind (hm : Still obs m) (hf : ∀ a, Still obs (f a)) : Still obs (m >>= f) := by
  intro w b w' h
  obtain ⟨a, w₁, ha, hb⟩ := bind_eq_ok h
  rw [hf a w₁ b w' hb, hm w a w₁ ha]

theorem still_onlyIf {m : Prog ι σ Unit} (hm : Still obs m) :
    Still obs (onlyIf b m) := by
  unfold onlyIf
  split
  · exact hm
  · exact still_pure ()

theorem Still.acts (hm : Still obs m) (hf : ∀ a, Acts obs g (f a)) : Acts obs g (m >>= f) := by
  intro w b w' h
  obtain ⟨a, w₁, ha, hb⟩ := bind_eq_ok h
  rw [hf a w₁ b w' hb, hm w a w₁ ha]

theorem Acts.still (hm : Acts obs g m) (hf : ∀ a, Still obs (f a)) : Acts obs g (m >>= f) := by
  intro w b w' h
  obtain ⟨a, w₁, ha, hb⟩ := bind_eq_ok h
  rw [hf a w₁ b w' hb, hm w a w₁ ha]

theorem Acts.sees {f : σ → σ} (hm : Acts (fun d => d) f m) (h : ∀ d, obs (f d) = g (obs d)) :
    Acts obs g m := by
  intro w a w' hrun
  rw [show w'.data = f w.data from hm w a w' hrun, h]

theorem Acts.hides {f : σ → σ} (hm : Acts (fun d => d) f m) (h : ∀ d, obs (f d) = obs d) :
    Still obs m := Acts.sees (g := fun v => v) hm h

theorem Still.acts_id (hm : Still obs m) : Acts obs (fun v => v) m := hm

theorem Still.moves (hm : Still obs m) : Moves obs R m := by
  intro w a w' h
  rw [hm w a w' h]

theorem Acts.moves (hm : Acts obs g m) (h : ∀ v, Relation.ReflTransGen R v (g v)) :
    Moves obs R m := by
  intro w a w' hrun
  rw [hm w a w' hrun]
  exact h _

/-- Steps of the data are steps of what is observed of it. -/
theorem Moves.lift {S : σ → σ → Prop} (hm : Moves (fun d => d) S m)
    (h : ∀ d d', S d d' → R (obs d) (obs d')) : Moves obs R m :=
  fun w a w' hrun => (hm w a w' hrun).lift obs h

theorem Moves.still {S : σ → σ → Prop} (hm : Moves (fun d => d) S m)
    (h : ∀ d d', S d d' → obs d' = obs d) : Still obs m := by
  have hpath : ∀ d d', Relation.ReflTransGen S d d' → obs d' = obs d := by
    intro d d' hsteps
    induction hsteps with
    | refl => rfl
    | tail _ hstep ih => rw [h _ _ hstep, ih]
  exact fun w a w' hrun => hpath _ _ (hm w a w' hrun)

theorem moves_pure (a : α) : Moves obs R (pure a : Prog ι σ α) := (still_pure a).moves

theorem Moves.bind (hm : Moves obs R m) (hf : ∀ a, Moves obs R (f a)) : Moves obs R (m >>= f) := by
  intro w b w' h
  obtain ⟨a, w₁, ha, hb⟩ := bind_eq_ok h
  exact (hm w a w₁ ha).trans (hf a w₁ b w' hb)

theorem moves_onlyIf {m : Prog ι σ Unit} (hm : b = true → Moves obs R m) :
    Moves obs R (onlyIf b m) := by
  unfold onlyIf
  split
  · exact hm (by assumption)
  · exact moves_pure ()

variable [DecidableEq ι] {c : ι}

theorem still_acquire : Still obs (acquire c : Prog ι σ Unit) := by
  intro w a w' hm
  unfold acquire at hm
  split at hm
  · cases hm
  · cases hm
    rfl

theorem still_release : Still obs (release c : Prog ι σ Unit) := by
  intro w a w' hm
  cases hm
  rfl

theorem Still.guarded (hm : Still obs m) : Still obs (guarded c m) := by
  intro w a w' h
  obtain ⟨w₁, hrun, hdata⟩ := guarded_eq_ok h
  have hview := hm _ a w₁ hrun
  rw [hdata]
  exact hview

theorem Moves.guarded (hm : Moves obs R m) : Moves obs R (guarded c m) := by
  intro w a w' h
  obtain ⟨w₁, hrun, hdata⟩ := guarded_eq_ok h
  have hpath := hm _ a w₁ hrun
  rw [hdata]
  exact hpath

theorem still_within {f : σ → α × σ} (h : ∀ d, obs (f d).2 = obs d) :
    Still obs (within c f : Prog ι σ α) := (still_effect h).guarded

theorem acts_within {f : σ → α × σ} (h : ∀ d, obs (f d).2 = g (obs d)) :
    Acts obs g (within c f : Prog ι σ α) := by
  intro w a w' hm
  obtain ⟨-, hdata⟩ := within_eq_ok hm
  rw [hdata]
  exact h w.data

theorem moves_within {f : σ → α × σ} (h : ∀ d, Relation.ReflTransGen R (obs d) (obs (f d).2)) :
    Moves obs R (within c f : Prog ι σ α) := by
  intro w a w' hm
  obtain ⟨-, hdata⟩ := within_eq_ok hm
  rw [hdata]
  exact h w.data

end Observations

/-! ### Freedom from faults -/

/-- From guards `h` and contents `d` the program takes no second guard: it returns with the guards
it found, or its loop needs more rounds. -/
def CalmAt (h : ι → Bool) (d : σ) (m : Prog ι σ α) : Prop :=
  m ⟨h, d⟩ = .error .unfinished ∨ ∃ a d', m ⟨h, d⟩ = .ok (a, ⟨h, d'⟩)

/-- From guards `h` the program takes no second guard, whatever the contents. -/
def Calm (h : ι → Bool) (m : Prog ι σ α) : Prop := ∀ d, CalmAt h d m

section Calm

variable {h : ι → Bool}

theorem calmAt_of_ok {d' : σ} (hm : m ⟨h, d⟩ = .ok (a, ⟨h, d'⟩)) :
    CalmAt h d m := .inr ⟨a, d', hm⟩

theorem CalmAt.after {d' : σ} (hm : m ⟨h, d⟩ = .ok (a, ⟨h, d'⟩)) (hf : CalmAt h d' (f a)) :
    CalmAt h d (m >>= f) := by
  unfold CalmAt
  rw [bind_of_ok hm]
  exact hf

theorem CalmAt.bind (hm : CalmAt h d m) (hf : ∀ a, Calm h (f a)) : CalmAt h d (m >>= f) := by
  rcases hm with hmore | ⟨a, d', ha⟩
  · exact .inl (bind_of_error hmore)
  · exact .after ha (hf a d')

theorem calm_pure (a : α) : Calm h (pure a : Prog ι σ α) := fun _ => calmAt_of_ok rfl

theorem Calm.bind (hm : Calm h m) (hf : ∀ a, Calm h (f a)) :
    Calm h (m >>= f) := fun d => (hm d).bind hf

theorem calm_effect (f : σ → α × σ) : Calm h (effect f : Prog ι σ α) := fun _ => calmAt_of_ok rfl

theorem calm_change (f : σ → σ) : Calm h (change f : Prog ι σ Unit) := calm_effect _

theorem calm_look (f : σ → α) : Calm h (look f : Prog ι σ α) := calm_effect _

theorem calm_unfinished : Calm h (stop .unfinished : Prog ι σ α) := fun _ => .inl rfl

theorem calm_onlyIf {m : Prog ι σ Unit} (hm : Calm h m) : Calm h (onlyIf b m) := by
  unfold onlyIf
  split
  · exact hm
  · exact calm_pure ()

variable [DecidableEq ι] {c : ι}

theorem CalmAt.guarded (hc : h c = false) (hm : CalmAt (update h c true) d m) :
    CalmAt h d (guarded c m) := by
  rcases hm with hmore | ⟨a, d', ha⟩
  · exact .inl (guarded_free_error (w := ⟨h, d⟩) hc hmore)
  · exact calmAt_of_ok (guarded_free (w := ⟨h, d⟩) hc ha)

theorem Calm.guarded (hc : h c = false) (hm : Calm (update h c true) m) :
    Calm h (guarded c m) := fun d => (hm d).guarded hc

theorem calm_within {f : σ → α × σ} (hc : h c = false) : Calm h (within c f : Prog ι σ α) :=
  Calm.guarded hc (calm_effect f)

end Calm

/-- From guards `h` and contents `d` the program returns, with the guards it found. -/
def SettlesAt (h : ι → Bool) (d : σ) (m : Prog ι σ α) : Prop := ∃ a d', m ⟨h, d⟩ = .ok (a, ⟨h, d'⟩)

/-- From guards `h` the program returns with them, whatever the contents. -/
def Settles (h : ι → Bool) (m : Prog ι σ α) : Prop := ∀ d, SettlesAt h d m

section Settles

variable {h : ι → Bool}

theorem SettlesAt.after {d' : σ} (hm : m ⟨h, d⟩ = .ok (a, ⟨h, d'⟩)) (hf : SettlesAt h d' (f a)) :
    SettlesAt h d (m >>= f) := by
  unfold SettlesAt
  rw [bind_of_ok hm]
  exact hf

theorem SettlesAt.bind (hm : SettlesAt h d m) (hf : ∀ a, Settles h (f a)) :
    SettlesAt h d (m >>= f) := by
  obtain ⟨a, d', ha⟩ := hm
  exact .after ha (hf a d')

theorem settles_pure (a : α) : Settles h (pure a : Prog ι σ α) := fun d => ⟨a, d, rfl⟩

theorem Settles.bind (hm : Settles h m) (hf : ∀ a, Settles h (f a)) :
    Settles h (m >>= f) := fun d => (hm d).bind hf

theorem settles_effect (f : σ → α × σ) : Settles h (effect f : Prog ι σ α) :=
  fun d => ⟨(f d).1, (f d).2, rfl⟩

theorem settles_change (f : σ → σ) : Settles h (change f : Prog ι σ Unit) := settles_effect _

theorem settles_look (f : σ → α) : Settles h (look f : Prog ι σ α) := settles_effect _

theorem settles_onlyIf {m : Prog ι σ Unit} (hm : Settles h m) :
    Settles h (onlyIf b m) := by
  unfold onlyIf
  split
  · exact hm
  · exact settles_pure ()

variable [DecidableEq ι] {c : ι}

theorem SettlesAt.guarded (hc : h c = false) (hm : SettlesAt (update h c true) d m) :
    SettlesAt h d (guarded c m) := by
  obtain ⟨a, d', ha⟩ := hm
  exact ⟨a, d', guarded_free (w := ⟨h, d⟩) hc ha⟩

theorem Settles.guarded (hc : h c = false) (hm : Settles (update h c true) m) :
    Settles h (guarded c m) :=
  fun d => (hm d).guarded hc

theorem settles_within {f : σ → α × σ} (hc : h c = false) :
    Settles h (within c f : Prog ι σ α) :=
  Settles.guarded hc (settles_effect f)

end Settles

end Cells
