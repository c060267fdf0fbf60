import Rskynet.Scheduler.Accounting

/-!
# The way to `park`

A worker that is about to park passes five points: it registers in the idle bitmap, leaves the
searchers, empties its handoff slot, finds its local queue empty, and finds the injector empty.
`Pc.stage` counts how many of them it has passed, `Pc.searches` says whether the counter
`searching` includes it, and `Pc.covers` marks the pushes that have queued a service and still
look for a worker to wake.

* `step_stage` — **PROVED**: a worker comes closer to `park` only by finding something empty;
* `step_covers`, `step_injector` — **PROVED**: what enters the injector has somebody who sees to it.
-/

namespace Rskynet.Scheduler

open scoped BigOperators
open Function (update update_of_ne update_self)
open Option

variable {n : ℕ} {σ ε : Type*}
variable {w : Fin n}

/-! ### Program points on the way to `park` -/

/-- How far a worker is on its last scan before parking: registered (1), slot seen empty (2),
local queue seen empty (3), injector seen empty (4). -/
def Pc.stage : Pc n σ → ℕ
  | .findDecrement => 1
  | .popSlot .final => 1
  | .popPending .final => 2
  | .popTick .final => 2
  | .popInjectorFirst .final => 2
  | .popLocal .final => 2
  | .popInjector .final => 3
  | .stealStart .final => 4
  | .stealCheck .final _ _ _ => 4
  | .stealTake .final _ _ _ _ => 4
  | .stealFront .final _ _ _ _ => 4
  | .finalQuit => 4
  | .parked => 4
  | _ => 0

def PopFor.isSpin : PopFor → Bool
  | .spin _ => true
  | _ => false

def Pc.searches : Pc n σ → Bool
  | .popSlot f => f.isSpin
  | .popPending f => f.isSpin
  | .popTick f => f.isSpin
  | .popInjectorFirst f => f.isSpin
  | .popLocal f => f.isSpin
  | .popInjector f => f.isSpin
  | .stealStart f => f.isSpin
  | .stealCheck f _ _ _ => f.isSpin
  | .stealTake f _ _ _ _ => f.isSpin
  | .stealFront f _ _ _ _ => f.isSpin
  | .stealMark f _ _ => f.isSpin
  | .popDecrement f _ => f.isSpin
  | .spinQuit _ => true
  | .findLeave => true
  | .markIdle => true
  | .findDecrement => true
  | _ => false

/-- The push has put its service into the injector and has not yet found that word `0` of the
idle bitmap is zero, or that somebody searches. -/
def Pc.covers : Pc n σ → Bool
  | .recheck _ => true
  | .claimLoad .rouse 0 _ => true
  | .claimCas .rouse 0 _ _ => true
  | _ => false

theorem stage_le_four (p : Pc n σ) : p.stage ≤ 4 := by
  unfold Pc.stage
  split <;> omega

theorem searches_of_stage_four {p : Pc n σ} (h : p.stage = 4) : p.searches = false := by
  revert h
  unfold Pc.stage
  split <;> intro h <;> first | rfl | omega

theorem entry_quiet {me : Option (Fin n)} {op : Op σ} {p p' : Pc n σ}
    (h : op.entry me p = some p') :
    ((∀ w, p.targets w = false) ∧ p.covers = false) ∧ p'.stage = 0 ∧ p'.searches = p.searches := by
  revert h
  cases op <;> cases p <;> cases me <;> simp [Op.entry] <;> rintro rfl <;>
    exact ⟨⟨fun _ => rfl, rfl⟩, rfl, rfl⟩

/-! ### What one step can do -/

section Steps

variable {me : Option (Fin n)} {luck : Luck} {m m' : Sched n σ} {p p' : Pc n σ} {out : List σ}

theorem token_kept (hs : step me luck m p = some (m', p', out)) (hw : m.token w = true) :
    m'.token w = true ∨ (me = some w ∧ p' = .clearIdle) := by
  have hset : ∀ v, m'.token = update m.token v true → m'.token w = true := by
    intro v he
    rw [he]
    by_cases hv : w = v
    · rw [hv, update_self]
    · rw [update_of_ne hv]
      exact hw
  cases p with
  | wake v k =>
    cases hs
    exact .inl (hset v rfl)
  | quitWake i =>
    simp only [step] at hs
    split at hs
    · cases hs
      exact .inl (hset _ rfl)
    · cases hs
      exact .inl hw
  | parked =>
    simp only [step] at hs
    split at hs
    · cases hs
    · next v =>
      split at hs
      · cases hs
        by_cases hv : w = v
        · exact .inr ⟨by rw [hv], rfl⟩
        · left
          show update m.token v false w = true
          rw [update_of_ne hv]
          exact hw
      · split at hs
        · cases hs
          exact .inl hw
        · cases hs
  | _ =>
    left
    rw [(step_frame hs).token rfl]
    exact hw

theorem placed_targets (me : Option (Fin n)) (next : Next n) (k : After) (h : next.targets w = true) :
    (placed me next k : Pc n σ).targets w = true := by
  cases next with
  | wake v => exact h
  | recheck => cases h

theorem targets_kept (hs : step me luck m p = some (m', p', out)) (hw : p.targets w = true) :
    p'.targets w = true ∨ m'.token w = true := by
  cases p with
  | offer v s k =>
    simp only [step] at hs
    split at hs
    · cases hs
      exact .inl hw
    · cases hs
      left
      cases me <;> exact hw
  | place s next k =>
    simp only [step] at hs
    split at hs
    · cases hs
    · cases hs
      exact .inl hw
    · cases hs
      exact .inl hw
    · cases hs
      exact .inl (placed_targets _ next k hw)
  | placeMark next k =>
    obtain ⟨v, -, hv⟩ := map_eq_some_iff.mp hs
    cases hv
    exact .inl (placed_targets _ next k hw)
  | placeInjector s next k =>
    cases hs
    exact .inl (placed_targets _ next k hw)
  | wake v k =>
    cases hs
    right
    have hv : v = w := by simpa [Pc.targets] using hw
    show update m.token v true w = true
    rw [hv, update_self]
  | _ => cases hw

theorem idle_kept (hs : step me luck m p = some (m', p', out)) (hb : IdleBounded m) (hp : p.sane)
    (hw : Bitmap.mem m.idle w = true) :
    Bitmap.mem m'.idle w = true ∨ p'.targets w = true ∨ (me = some w ∧ p' = .idle) := by
  cases p with
  | claimCas goal word bits k =>
    rcases step_claim hs hb hp with ⟨rfl, -⟩ | ⟨v, he, rfl⟩
    · exact .inl hw
    · by_cases hv : w = v
      · subst hv
        right; left
        cases goal <;> simp [claimed, Pc.targets]
      · left
        rw [he, Bitmap.mem_erase, hw]
        simpa using fun h => hv (Fin.ext h)
  | markIdle =>
    obtain ⟨v, -, hv⟩ := map_eq_some_iff.mp hs
    cases hv
    left
    rw [Bitmap.mem_insert, hw]
    rfl
  | clearIdle =>
    obtain ⟨v, hme, hv⟩ := map_eq_some_iff.mp hs
    cases hv
    by_cases hvw : w = v
    · exact .inr (.inr ⟨by rw [hme, hvw], rfl⟩)
    · left
      rw [Bitmap.mem_erase, hw]
      simpa using fun h => hvw (Fin.ext h)
  | _ =>
    left
    rw [(step_frame hs).idle rfl]
    exact hw

theorem slot_filled (hs : step me luck m p = some (m', p', out)) (hw : m.slot w = none) :
    m'.slot w = none ∨ ∃ s k, p = .offer w s k := by
  have htake : ∀ v, m'.slot = update m.slot v none → m'.slot w = none := by
    intro v he
    rw [he]
    by_cases hv : w = v
    · rw [hv, update_self]
    · rw [update_of_ne hv]
      exact hw
  cases p with
  | offer v s k =>
    by_cases hv : w = v
    · exact .inr ⟨s, k, by rw [hv]⟩
    · left
      simp only [step] at hs
      split at hs
      · cases hs
        show update m.slot v (some s) w = none
        rw [update_of_ne hv]
        exact hw
      · cases hs
        exact hw
  | popSlot | flushSlot =>
    obtain ⟨v, -, hv⟩ := map_eq_some_iff.mp hs
    split at hv
    · cases hv
      exact .inl (htake v rfl)
    · cases hv
      exact .inl hw
  | _ =>
    left
    rw [(step_frame hs).slot rfl]
    exact hw

theorem slot_kept (hs : step me luck m p = some (m', p', out)) (hw : m.slot w = none) :
    m'.slot w = none ∨ p'.targets w = true := by
  rcases slot_filled hs hw with hk | ⟨s, k, rfl⟩
  · exact .inl hk
  · simp only [step, hw] at hs
    cases hs
    exact .inr (beq_self_eq_true w)

theorem locals_kept (hs : step me luck m p = some (m', p', out)) (hw : m.locals w = []) :
    m'.locals w = [] ∨ (me = some w ∧ ∃ s next k, p = .place s next k) := by
  have hshrink : ∀ v l, m'.locals = update m.locals v l →
      (m.locals v = [] → l = []) → m'.locals w = [] := by
    intro v l he hl
    rw [he]
    by_cases hv : w = v
    · subst hv
      rw [update_self]
      exact hl hw
    · rw [update_of_ne hv]
      exact hw
  cases p with
  | place s next k =>
    have hput : ∀ v, me = some v → m'.locals = update m.locals v (m.locals v ++ [s]) →
        m'.locals w = [] ∨ (me = some w ∧ ∃ s' next' k', Pc.place s next k = .place s' next' k') := by
      intro v hme he
      by_cases hv : w = v
      · exact .inr ⟨by rw [hme, hv], s, next, k, rfl⟩
      · left
        rw [he, update_of_ne hv]
        exact hw
    simp only [step] at hs
    split at hs
    · cases hs
    · cases hs
      exact .inl hw
    · cases hs
      exact hput _ rfl rfl
    · cases hs
      exact hput _ rfl rfl
  | popLocal | flushLocal =>
    obtain ⟨v, -, hv⟩ := map_eq_some_iff.mp hs
    split at hv
    · cases hv
      exact .inl (hshrink v _ rfl (by intro h; rw [h]; rfl))
    · cases hv
      exact .inl hw
  | stealFront f start offset attempts victim =>
    simp only [step] at hs
    split at hs
    · cases hs
      exact .inl hw
    · cases hs
      exact .inl hw
    · next hl =>
      cases hs
      exact .inl (hshrink victim _ rfl (by intro h; rw [h] at hl; cases hl))
  | _ =>
    left
    rw [(step_frame hs).locals rfl]
    exact hw

theorem stage_after (k : After) : (k.pc : Pc n σ).stage = 0 := by cases k <;> rfl

theorem stage_found (f : PopFor) : (f.found : Pc n σ).stage = 0 := by cases f <;> rfl

theorem stage_placing (me : Option (Fin n)) (s : σ) (next : Next n) (k : After) :
    (placing me s next k).stage = 0 := by cases me <;> rfl

theorem stage_placed (me : Option (Fin n)) (next : Next n) (k : After) :
    (placed me next k : Pc n σ).stage = 0 :=
  placed_cases (P := (·.stage = 0)) (fun _ => rfl) rfl (stage_after k)

theorem stage_claimNext (me : Option (Fin n)) (goal : Goal σ) (word : ℕ) (bits : BitVec 64)
    (k : After) : (claimNext me goal word bits k).stage = 0 :=
  claimNext_cases (P := (·.stage = 0)) (fun _ => rfl) rfl (fun _ _ => stage_placing ..)
    fun _ => stage_after k

/-- The reasons for a worker to come closer to `park`. -/
inductive Advance (w : Fin n) (m m' : Sched n σ) (p p' : Pc n σ) : Prop where
  | registered (hidle : Bitmap.mem m'.idle w = true) (hp' : p'.stage = 1)
  | slotEmpty (hslot : m.slot w = none) (hm : m' = m) (hp : p.stage = 1) (hp' : p'.stage = 2)
  | localEmpty (hlocal : m.locals w = []) (hm : m' = m) (hp : p.stage = 2) (hp' : p'.stage = 3)
  | injectorEmpty (hinj : m.injector = []) (hm : m' = m) (hp : p.stage = 3) (hp' : p'.stage = 4)
  | nothingPending (hpending : m.pending = 0) (hm : m' = m) (hp : p.stage = 2) (hp' : p'.stage = 4)

/-- **One step towards `park`.**  A worker's stage rises only for one of these reasons. -/
theorem step_stage (hs : step (some w) luck m p = some (m', p', out)) :
    p'.stage ≤ p.stage ∨ Advance w m m' p p' := by
  cases p with
  | markIdle =>
    cases hs
    refine .inr (.registered ?_ rfl)
    rw [Bitmap.mem_insert]
    simp
  | popSlot f =>
    simp only [step, map_some, some.injEq] at hs
    split at hs
    · cases hs
      exact .inl (Nat.zero_le _)
    · next hslot =>
      cases hs
      cases f with
      | final => exact .inr (.slotEmpty hslot rfl rfl rfl)
      | plain | spin => exact .inl le_rfl
  | popPending f =>
    simp only [step] at hs
    split at hs
    · next hpd =>
      cases hs
      cases f with
      | final => exact .inr (.nothingPending hpd rfl rfl rfl)
      | plain | spin => exact .inl le_rfl
    · cases hs
      left
      cases f <;> exact le_rfl
  | popTick f | stealTake f =>
    cases hs
    left
    split <;> cases f <;> exact le_rfl
  | popInjectorFirst f =>
    simp only [step] at hs
    split at hs
    · cases hs
      exact .inl (Nat.zero_le _)
    · cases hs
      left
      cases f <;> exact le_rfl
  | popLocal f =>
    simp only [step, map_some, some.injEq] at hs
    split at hs
    · cases hs
      exact .inl (Nat.zero_le _)
    · next hl =>
      cases hs
      cases f with
      | final => exact .inr (.localEmpty (List.getLast?_eq_none_iff.mp hl) rfl rfl rfl)
      | plain | spin => exact .inl le_rfl
  | popInjector f =>
    simp only [step] at hs
    split at hs
    · cases hs
      exact .inl (Nat.zero_le _)
    · next hinj =>
      cases hs
      cases f with
      | final => exact .inr (.injectorEmpty hinj rfl rfl rfl)
      | plain | spin => exact .inl le_rfl
  | stealStart f =>
    simp only [step, map_some, some.injEq] at hs
    left
    split at hs <;> obtain ⟨-, rfl, -⟩ := hs <;> cases f <;> exact le_rfl
  | stealCheck f start offset attempts =>
    simp only [step, map_some, some.injEq] at hs
    left
    (repeat' split at hs) <;> obtain ⟨-, rfl, -⟩ := hs <;> cases f <;> exact le_rfl
  | stealFront f start offset attempts victim =>
    simp only [step] at hs
    left
    split at hs <;> obtain ⟨-, rfl, -⟩ := hs
    · split <;> cases f <;> exact le_rfl
    · split <;> cases f <;> exact le_rfl
    · exact Nat.zero_le _
  | findDecrement =>
    cases hs
    exact .inl le_rfl
  | finalQuit =>
    cases hs
    left
    split
    · exact Nat.zero_le _
    · exact le_rfl
  | claimLoad goal word k =>
    cases hs
    exact .inl (stage_claimNext ..).le
  | claimCas goal word bits k =>
    simp only [step] at hs
    left
    split at hs
    · split at hs <;> obtain ⟨-, rfl, -⟩ := hs
      · cases goal <;> exact le_rfl
      · exact le_rfl
    · cases hs
      exact (stage_claimNext ..).le
  | idle | panicked | exiting | left => cases hs
  | _ =>
    left
    simp only [step, map_some] at hs
    (repeat' split at hs) <;>
    first
      | (obtain ⟨-, rfl, -⟩ := hs
         first
           | exact Nat.zero_le _
           | exact (stage_after _).le
           | exact (stage_found _).le
           | exact (stage_placing ..).le
           | exact (stage_placed ..).le)
      | cases hs

theorem searches_after (k : After) : (k.pc : Pc n σ).searches = false := by cases k <;> rfl

theorem searches_missed (f : PopFor) : (f.missed : Pc n σ).searches = f.isSpin := by
  cases f <;> rfl

theorem searches_found (f : PopFor) : (f.found : Pc n σ).searches = f.isSpin := by cases f <;> rfl

theorem searches_placing (me : Option (Fin n)) (s : σ) (next : Next n) (k : After) :
    (placing me s next k).searches = false := by cases me <;> rfl

theorem searches_placed (me : Option (Fin n)) (next : Next n) (k : After) :
    (placed me next k : Pc n σ).searches = false :=
  placed_cases (P := (·.searches = false)) (fun _ => rfl) rfl (searches_after k)

theorem searches_claimNext (me : Option (Fin n)) (goal : Goal σ) (word : ℕ) (bits : BitVec 64)
    (k : After) : (claimNext me goal word bits k).searches = false :=
  claimNext_cases (P := (·.searches = false)) (fun _ => rfl) rfl (fun _ _ => searches_placing ..)
    fun _ => searches_after k

theorem searches_claimed (goal : Goal σ) (w : Fin n) (k : After) :
    (claimed goal w k).searches = false := by cases goal <;> rfl

theorem step_searching (hs : step me luck m p = some (m', p', out)) :
    (m'.searching = m.searching ∧ p'.searches = p.searches) ∨
    (me.isSome ∧ m'.searching = m.searching + 1 ∧ p.searches = false ∧ p'.searches = true) ∨
    (m'.searching = m.searching - 1 ∧ p.searches = true ∧ p'.searches = false) := by
  cases p with
  | findIncrement =>
    obtain ⟨w, hme, hw⟩ := map_eq_some_iff.mp hs
    cases hw
    refine .inr (.inl ⟨by rw [hme]; rfl, rfl, rfl, ?_⟩)
    split <;> rfl
  | findLeave | findDecrement =>
    cases hs
    exact .inr (.inr ⟨rfl, rfl, rfl⟩)
  | idle | panicked | exiting | left => cases hs
  | _ =>
    refine .inl ⟨(step_frame hs).searching rfl, ?_⟩
    simp only [step, map_eq_some_iff] at hs
    (repeat' split at hs) <;>
    first
      | (obtain ⟨-, rfl, -⟩ := hs
         first
           | rfl
           | exact searches_after _
           | exact searches_missed _
           | exact searches_found _
           | exact searches_placing ..
           | exact searches_placed ..
           | exact searches_claimNext ..
           | exact searches_claimed ..)
      | (obtain ⟨w, -, hw⟩ := hs
         (repeat' split at hw) <;> obtain ⟨-, rfl, -⟩ := hw <;>
         first
           | rfl
           | exact searches_missed _
           | exact searches_placed ..)
      | cases hs

theorem covers_claimNext (me : Option (Fin n)) (bits : BitVec 64) (k : After) :
    (claimNext me (.rouse : Goal σ) 0 bits k).covers = true ∨ bits = 0 := by
  by_cases h : bits = 0
  · exact .inr h
  · left
    unfold claimNext
    rw [if_pos h]
    rfl

/-- **A push that looks for somebody to wake** goes on looking, finds a worker, or sees that
somebody searches or that word `0` of the idle bitmap is zero. -/
theorem step_covers (hs : step me luck m p = some (m', p', out)) (hb : IdleBounded m) (hp : p.sane)
    (hc : p.covers = true) :
    p'.covers = true ∨ (∃ w, p'.targets w = true) ∨ 0 < m.searching ∨ m.idle 0 = 0 := by
  cases p with
  | recheck k =>
    simp only [step] at hs
    split at hs
    · cases hs
      exact .inl rfl
    · next hne => exact .inr (.inr (.inl (Nat.pos_of_ne_zero hne)))
  | claimLoad goal word k =>
    cases goal with
    | handoff s => cases hc
    | rouse =>
      cases word with
      | succ i => cases hc
      | zero =>
        cases hs
        exact (covers_claimNext me _ k).imp id fun h => .inr (.inr h)
  | claimCas goal word bits k =>
    cases goal with
    | handoff s => cases hc
    | rouse =>
      cases word with
      | succ i => cases hc
      | zero =>
        rcases step_claim hs hb hp with ⟨-, rfl⟩ | ⟨w, -, rfl⟩
        · exact (covers_claimNext me _ k).imp id fun h => .inr (.inr h)
        · exact .inr (.inl ⟨w, beq_self_eq_true w⟩)
  | _ => cases hc

/-- **What enters the injector** comes with a push that will look for somebody to wake, with a
claimed worker, or from a worker that is awake. -/
theorem step_injector (hs : step me luck m p = some (m', p', out)) (hi : m.injector = []) :
    m'.injector = [] ∨ p'.covers = true ∨ (∃ w, p'.targets w = true) ∨
      ∃ w, me = some w ∧ p'.stage = 0 := by
  cases p with
  | pushInjector s k =>
    cases hs
    exact .inr (.inl rfl)
  | placeInjector s next k =>
    cases hs
    cases next with
    | wake w => exact .inr (.inr (.inl ⟨w, beq_self_eq_true w⟩))
    | recheck =>
      cases me with
      | none => exact .inr (.inl rfl)
      | some w => exact .inr (.inr (.inr ⟨w, rfl, stage_after k⟩))
  | flushInjector s =>
    obtain ⟨w, hme, hw⟩ := map_eq_some_iff.mp hs
    cases hw
    exact .inr (.inr (.inr ⟨w, hme, rfl⟩))
  | popInjectorFirst | popInjector | popOutside =>
    simp only [step, hi] at hs
    cases hs
    exact .inl hi
  | _ =>
    left
    rw [(step_frame hs).injector rfl]
    exact hi

end Steps

end Rskynet.Scheduler
