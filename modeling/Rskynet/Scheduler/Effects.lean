import Rskynet.Scheduler.Model

/-!
# What a scheduler step touches

What one atomic step can do to each part of the memory.

* `step_frame` — **PROVED**: a step leaves the components alone that its point does not write;
* `step_sane` — **PROVED**: `claim_idle` claims workers only, and its index is in bounds.
-/

namespace Rskynet.Scheduler

open Option

variable {n : ℕ} {σ : Type*}
variable {me : Option (Fin n)}

/-! ### Frames -/

/-- The components of the memory that the arguments distinguish. -/
inductive Component where
  | injector
  | locals
  | slot
  | idle
  | searching
  | token
  | quit
  deriving DecidableEq

/-- The program points whose operation may write a component. -/
def Pc.writes : Component → Pc n σ → Bool
  | .injector, .pushInjector .. => true
  | .injector, .placeInjector .. => true
  | .injector, .flushInjector .. => true
  | .injector, .popInjectorFirst .. => true
  | .injector, .popInjector .. => true
  | .injector, .popOutside => true
  | .locals, .place .. => true
  | .locals, .popLocal .. => true
  | .locals, .stealFront .. => true
  | .locals, .flushLocal => true
  | .slot, .offer .. => true
  | .slot, .popSlot .. => true
  | .slot, .flushSlot => true
  | .idle, .claimCas .. => true
  | .idle, .markIdle => true
  | .idle, .clearIdle => true
  | .searching, .findIncrement => true
  | .searching, .findLeave => true
  | .searching, .findDecrement => true
  | .token, .wake .. => true
  | .token, .quitWake .. => true
  | .token, .parked => true
  | .quit, .quitStore => true
  | _, _ => false

/-- The components a program point does not write are the same before and after. -/
structure Frame (m m' : Sched n σ) (p : Pc n σ) : Prop where
  injector : p.writes .injector = false → m'.injector = m.injector
  locals : p.writes .locals = false → m'.locals = m.locals
  slot : p.writes .slot = false → m'.slot = m.slot
  idle : p.writes .idle = false → m'.idle = m.idle
  searching : p.writes .searching = false → m'.searching = m.searching
  token : p.writes .token = false → m'.token = m.token
  quit : p.writes .quit = false → m'.quit = m.quit

theorem step_frame {luck : Luck} {m m' : Sched n σ} {p p' : Pc n σ} {out : List σ}
    (hs : step me luck m p = some (m', p', out)) : Frame m m' p := by
  cases p <;> simp only [step, map_eq_some_iff, reduceCtorEq] at hs <;>
    (repeat' split at hs) <;>
    first
      | (obtain ⟨rfl, -, -⟩ := hs; constructor <;> intro h <;> first | rfl | cases h)
      | (obtain ⟨w, -, hw⟩ := hs
         (repeat' split at hw) <;> obtain ⟨rfl, -, -⟩ := hw <;> constructor <;> intro h <;>
           first | rfl | cases h)
      | cases hs

/-! ### The idle bitmap -/

/-- Only workers are registered as idle. -/
def IdleBounded (m : Sched n σ) : Prop := ∀ i, Bitmap.mem m.idle i = true → i < n

/-- `claim_idle` compares with a word it has seen nonzero, and nobody has panicked. -/
def Pc.sane : Pc n σ → Prop
  | .claimCas _ _ bits _ => bits ≠ 0
  | .panicked => False
  | _ => True

def Next.targets (w : Fin n) : Next n → Bool
  | .wake v => v == w
  | .recheck => false

def Pc.targets (w : Fin n) : Pc n σ → Bool
  | .offer v _ _ => v == w
  | .place _ next _ => next.targets w
  | .placeMark next _ => next.targets w
  | .placeInjector _ next _ => next.targets w
  | .wake v _ => v == w
  | _ => false

/-- A property of the points that `place` returns to. -/
theorem placed_cases {P : Pc n σ → Prop} {next : Next n} {k : After} (hwake : ∀ w, P (.wake w k))
    (hrecheck : P (.recheck k)) (hafter : P k.pc) : P (placed me next k) := by
  cases next with
  | wake w => exact hwake w
  | recheck =>
    cases me with
    | none => exact hrecheck
    | some w => exact hafter

/-- A property of the points at which `claim_idle` goes on, or is left without a worker. -/
theorem claimNext_cases {P : Pc n σ → Prop} {goal : Goal σ} {word : ℕ} {bits : BitVec 64} {k : After}
    (hcas : bits ≠ 0 → P (.claimCas goal word bits k)) (hload : P (.claimLoad goal (word + 1) k))
    (hplacing : ∀ s, goal = .handoff s → P (placing me s .recheck k))
    (hafter : goal = .rouse → P k.pc) : P (claimNext me goal word bits k) := by
  unfold claimNext
  split
  · next h => exact hcas h
  · split
    · exact hload
    · cases goal with
      | handoff s => exact hplacing s rfl
      | rouse => exact hafter rfl

theorem after_sane (k : After) : (k.pc : Pc n σ).sane := by cases k <;> trivial

theorem missed_sane (f : PopFor) : (f.missed : Pc n σ).sane := by cases f <;> trivial

theorem found_sane (f : PopFor) : (f.found : Pc n σ).sane := by cases f <;> trivial

theorem placing_sane (me : Option (Fin n)) (s : σ) (next : Next n) (k : After) :
    (placing me s next k).sane := by cases me <;> trivial

theorem placed_sane (me : Option (Fin n)) (next : Next n) (k : After) :
    (placed me next k : Pc n σ).sane :=
  placed_cases (P := Pc.sane) (fun _ => trivial) trivial (after_sane k)

theorem claimNext_sane (me : Option (Fin n)) (goal : Goal σ) (word : ℕ) (bits : BitVec 64)
    (k : After) : (claimNext me goal word bits k).sane :=
  claimNext_cases (P := Pc.sane) id trivial (fun _ _ => placing_sane ..) fun _ => after_sane k

/-- A successful claim erases one member of the bitmap, a worker, which is the thread's target
from now on. -/
theorem step_claim {luck : Luck} {m m' : Sched n σ} {p' : Pc n σ} {out : List σ} {goal : Goal σ}
    {word : ℕ} {bits : BitVec 64} {k : After}
    (hs : step me luck m (.claimCas goal word bits k) = some (m', p', out)) (hb : IdleBounded m)
    (hne : bits ≠ 0) :
    (m' = m ∧ p' = claimNext me goal word (m.idle word) k) ∨
      ∃ w : Fin n, m'.idle = Bitmap.erase m.idle w ∧ p' = claimed goal w k := by
  simp only [step] at hs
  split at hs
  · next heq =>
    obtain ⟨rfl, -⟩ := heq
    have hlt := hb _ (Bitmap.mem_lowest hne)
    rw [dif_pos hlt] at hs
    cases hs
    exact .inr ⟨⟨_, hlt⟩, Bitmap.erase_lowest hne, rfl⟩
  · cases hs
    exact .inl ⟨rfl, rfl⟩

/-- **Sanity of `claim_idle`.**  Registered bits belong to workers, compared words are nonzero,
and no thread runs into an index out of bounds. -/
theorem step_sane {luck : Luck} {m m' : Sched n σ} {p p' : Pc n σ} {out : List σ}
    (hs : step me luck m p = some (m', p', out)) (hb : IdleBounded m) (hp : p.sane) :
    IdleBounded m' ∧ p'.sane := by
  have hsame : m'.idle = m.idle → IdleBounded m' := by
    intro he i hi
    rw [he] at hi
    exact hb i hi
  have herase : ∀ w, m'.idle = Bitmap.erase m.idle w → IdleBounded m' := by
    intro w he i hi
    rw [he, Bitmap.mem_erase, Bool.and_eq_true] at hi
    exact hb i hi.1
  cases p with
  | claimCas goal word bits k =>
    rcases step_claim hs hb hp with ⟨rfl, rfl⟩ | ⟨w, he, rfl⟩
    · exact ⟨hb, claimNext_sane ..⟩
    · exact ⟨herase _ he, by cases goal <;> trivial⟩
  | claimLoad goal word k =>
    cases hs
    exact ⟨hb, claimNext_sane ..⟩
  | markIdle =>
    obtain ⟨w, -, hw⟩ := map_eq_some_iff.mp hs
    cases hw
    refine ⟨?_, trivial⟩
    intro i hi
    rw [Bitmap.mem_insert, Bool.or_eq_true, decide_eq_true_eq] at hi
    rcases hi with hi | hi
    · exact hb i hi
    · rw [hi]
      exact w.isLt
  | clearIdle =>
    obtain ⟨w, -, hw⟩ := map_eq_some_iff.mp hs
    cases hw
    exact ⟨herase w rfl, trivial⟩
  | idle | panicked | exiting | left => cases hs
  | _ =>
    refine ⟨hsame ((step_frame hs).idle rfl), ?_⟩
    clear hsame herase
    simp only [step, map_eq_some_iff] at hs
    (repeat' split at hs) <;>
    first
      | (obtain ⟨-, rfl, -⟩ := hs
         first
           | trivial
           | exact after_sane _
           | exact missed_sane _
           | exact found_sane _
           | exact placing_sane ..
           | exact placed_sane ..)
      | (obtain ⟨w, -, hw⟩ := hs
         (repeat' split at hw) <;> obtain ⟨-, rfl, -⟩ := hw <;>
         first
           | trivial
           | exact placed_sane ..
           | exact missed_sane _)
      | cases hs

end Rskynet.Scheduler
