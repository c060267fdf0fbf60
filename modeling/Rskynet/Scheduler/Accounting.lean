import Rskynet.Scheduler.Effects

/-!
# Every queued service is in exactly one place, and the counter knows how many there are

A service handed to `push` travels over five routes: a handoff slot, a local queue, the
injector directly or by overflow, a steal, and the flush of a leaving worker. Whatever the
route, one step moves one service between a container and the hands of one thread.

* `run_queue_accounting` — **PROVED**: exactly once, and `pending` counts.
-/

namespace Rskynet.Scheduler

open scoped BigOperators
open Function (update update_of_ne update_self)
open List Option Interleave Multiset

variable {n : ℕ} {σ ε : Type*}
variable {t : Fin n ⊕ ε}

/-! ### Containers and hands -/

def Sched.contents (m : Sched n σ) : Multiset σ :=
  (m.injector : Multiset σ) + ∑ w, (m.locals w : Multiset σ) + ∑ w, ((m.slot w).toList : Multiset σ)

def Goal.service : Goal σ → Multiset σ
  | .handoff s => {s}
  | .rouse => 0

/-- The services in a thread's hands.  The first component is counted by `pending`: being moved
by a push that has announced it or by a flush, or removed by a pop that has not decremented yet.
The second is the service of a push that has not announced it. -/
def Pc.hands : Pc n σ → Multiset σ × Multiset σ
  | .pushPending s _ => (0, {s})
  | .pushSearching s _ => ({s}, 0)
  | .pushInjector s _ => ({s}, 0)
  | .claimLoad goal _ _ => (goal.service, 0)
  | .claimCas goal _ _ _ => (goal.service, 0)
  | .offer _ s _ => ({s}, 0)
  | .place s _ _ => ({s}, 0)
  | .placeInjector s _ _ => ({s}, 0)
  | .stealMark _ s _ => ({s}, 0)
  | .popDecrement _ s => ({s}, 0)
  | .flushInjector s => ({s}, 0)
  | _ => (0, 0)

theorem contents_congr {m m' : Sched n σ} (hi : m'.injector = m.injector)
    (hl : m'.locals = m.locals) (hs : m'.slot = m.slot) : m'.contents = m.contents := by
  unfold Sched.contents
  rw [hi, hl, hs]

theorem contents_setLocal (m : Sched n σ) (w : Fin n) (l : List σ) :
    Sched.contents { m with locals := update m.locals w l } + (m.locals w : Multiset σ)
      = m.contents + (l : Multiset σ) := by
  have h := sum_update_add m.locals w l (fun x : List σ => (x : Multiset σ))
  show (m.injector : Multiset σ) + ∑ w', (update m.locals w l w' : Multiset σ)
    + ∑ w', ((m.slot w').toList : Multiset σ) + (m.locals w : Multiset σ) = _
  unfold Sched.contents
  calc _ = (m.injector : Multiset σ) + (∑ w', (update m.locals w l w' : Multiset σ)
        + (m.locals w : Multiset σ)) + ∑ w', ((m.slot w').toList : Multiset σ) := by abel
    _ = _ := by rw [h]; abel

theorem contents_setSlot (m : Sched n σ) (w : Fin n) (o : Option σ) :
    Sched.contents { m with slot := update m.slot w o } + ((m.slot w).toList : Multiset σ)
      = m.contents + (o.toList : Multiset σ) := by
  have h := sum_update_add m.slot w o (fun x : Option σ => (x.toList : Multiset σ))
  show (m.injector : Multiset σ) + ∑ w', (m.locals w' : Multiset σ)
    + ∑ w', ((update m.slot w o w').toList : Multiset σ) + ((m.slot w).toList : Multiset σ) = _
  unfold Sched.contents
  calc _ = (m.injector : Multiset σ) + ∑ w', (m.locals w' : Multiset σ)
        + (∑ w', ((update m.slot w o w').toList : Multiset σ)
          + ((m.slot w).toList : Multiset σ)) := by abel
    _ = _ := by rw [h]; abel

theorem contents_pushInjector (m : Sched n σ) (s : σ) :
    Sched.contents { m with injector := m.injector ++ [s] } = m.contents + {s} := by
  show ((m.injector ++ [s] : List σ) : Multiset σ) + _ + _ = _
  unfold Sched.contents
  rw [← coe_add, coe_singleton]
  abel

theorem contents_popInjector {m : Sched n σ} {s : σ} {rest : List σ} (h : m.injector = s :: rest) :
    Sched.contents { m with injector := rest } + {s} = m.contents := by
  show (rest : Multiset σ) + _ + _ + _ = _
  unfold Sched.contents
  rw [h, ← cons_coe, ← singleton_add]
  abel

theorem contents_pushLocal (m : Sched n σ) (w : Fin n) (s : σ) :
    Sched.contents { m with locals := update m.locals w (m.locals w ++ [s]) }
      = m.contents + {s} := by
  have h := contents_setLocal m w (m.locals w ++ [s])
  rw [← coe_add, coe_singleton, ← add_assoc, add_right_comm] at h
  exact add_right_cancel h

theorem contents_popLocal {m : Sched n σ} {w : Fin n} {s : σ} (h : (m.locals w).getLast? = some s) :
    Sched.contents { m with locals := update m.locals w (m.locals w).dropLast } + {s}
      = m.contents := by
  have hset := contents_setLocal m w (m.locals w).dropLast
  have hsplit : (m.locals w : Multiset σ) = ((m.locals w).dropLast : Multiset σ) + {s} := by
    conv_lhs => rw [← dropLast_append_getLast? s (mem_def.mpr h)]
    rw [← coe_add, coe_singleton]
  rw [hsplit, ← add_assoc, add_right_comm] at hset
  exact add_right_cancel hset

theorem contents_stealLocal {m : Sched n σ} {w : Fin n} {s : σ} {rest : List σ}
    (h : m.locals w = s :: rest) :
    Sched.contents { m with locals := update m.locals w rest } + {s} = m.contents := by
  have hset := contents_setLocal m w rest
  rw [h, ← cons_coe, ← singleton_add, ← add_assoc] at hset
  exact add_right_cancel hset

theorem contents_offer {m : Sched n σ} {w : Fin n} (s : σ) (h : m.slot w = none) :
    Sched.contents { m with slot := update m.slot w (some s) } = m.contents + {s} := by
  have hset := contents_setSlot m w (some s)
  rw [h] at hset
  simpa using hset

theorem contents_takeSlot {m : Sched n σ} {w : Fin n} {s : σ} (h : m.slot w = some s) :
    Sched.contents { m with slot := update m.slot w none } + {s} = m.contents := by
  have hset := contents_setSlot m w none
  rw [h] at hset
  simpa using hset

/-! ### What one step can do -/

/-- The three ways a step acts on the books: it moves services between containers and the
thread's hands, a push announces its service, or a pop returns one. -/
inductive Moves (m m' : Sched n σ) (p p' : Pc n σ) (out : List σ) : Prop where
  | move (hcontents : m'.contents + p'.hands.1 = m.contents + p.hands.1)
      (huncounted : p'.hands.2 = p.hands.2) (hpending : m'.pending = m.pending) (hout : out = [])
  | announce (s : σ) (hcontents : m'.contents = m.contents) (hp : p.hands = (0, {s}))
      (hp' : p'.hands = ({s}, 0)) (hpending : m'.pending = m.pending + 1) (hout : out = [])
  | finish (s : σ) (hcontents : m'.contents = m.contents) (hp : p.hands = ({s}, 0))
      (hp' : p'.hands = (0, 0)) (hpending : m'.pending = m.pending - 1) (hout : out = [s])

namespace Moves

variable {m m' : Sched n σ} {p p' : Pc n σ} {s : σ}

theorem quiet (hi : m'.injector = m.injector) (hl : m'.locals = m.locals) (hs : m'.slot = m.slot)
    (hpending : m'.pending = m.pending) (hh : p'.hands = p.hands) : Moves m m' p p' [] :=
  .move (by rw [contents_congr hi hl hs, hh]) (by rw [hh]) hpending rfl

theorem put (hcontents : m'.contents = m.contents + {s}) (hp : p.hands = ({s}, 0))
    (hp' : p'.hands = (0, 0)) (hpending : m'.pending = m.pending) : Moves m m' p p' [] :=
  .move (by rw [hcontents, hp, hp', add_zero]) (by rw [hp, hp']) hpending rfl

theorem take (hcontents : m'.contents + {s} = m.contents) (hp : p.hands = (0, 0))
    (hp' : p'.hands = ({s}, 0)) (hpending : m'.pending = m.pending) : Moves m m' p p' [] :=
  .move (by rw [hp, hp', add_zero, hcontents]) (by rw [hp, hp']) hpending rfl

end Moves

variable (me : Option (Fin n)) (k : After)

theorem hands_after : (k.pc : Pc n σ).hands = (0, 0) := by cases k <;> rfl

theorem hands_missed (f : PopFor) : (f.missed : Pc n σ).hands = (0, 0) := by cases f <;> rfl

theorem hands_found (f : PopFor) : (f.found : Pc n σ).hands = (0, 0) := by cases f <;> rfl

theorem hands_placing (s : σ) (next : Next n) (k : After) :
    (placing me s next k).hands = ({s}, 0) := by cases me <;> rfl

theorem hands_placed (next : Next n) (k : After) :
    (placed me next k : Pc n σ).hands = (0, 0) :=
  placed_cases (P := (·.hands = (0, 0))) (fun _ => rfl) rfl (hands_after k)

theorem hands_claimNext (goal : Goal σ) (word : ℕ) (bits : BitVec 64)
    (k : After) : (claimNext me goal word bits k).hands = (goal.service, 0) := by
  refine claimNext_cases (P := (·.hands = (goal.service, 0))) (fun _ => rfl) rfl ?_ ?_
  · rintro s rfl
    exact hands_placing me s _ k
  · rintro rfl
    exact hands_after k

theorem hands_claimed (goal : Goal σ) (w : Fin n) (k : After) :
    (claimed goal w k).hands = (goal.service, 0) := by cases goal <;> rfl

/-- **What one step can do to the books.** -/
theorem step_moves {me : Option (Fin n)} {luck : Luck} {m m' : Sched n σ} {p p' : Pc n σ}
    {out : List σ} (hs : step me luck m p = some (m', p', out)) (hb : IdleBounded m)
    (hsane : p.sane) : Moves m m' p p' out := by
  cases p with
  | idle | panicked | exiting | left => cases hs
  | pushPending s k =>
    cases hs
    exact .announce s (contents_congr rfl rfl rfl) rfl rfl rfl rfl
  | pushSearching | quitWake =>
    simp only [step] at hs
    split at hs <;> obtain ⟨rfl, rfl, rfl⟩ := hs <;> exact .quiet rfl rfl rfl rfl rfl
  | pushInjector s k =>
    cases hs
    exact .put (contents_pushInjector m s) rfl rfl rfl
  | recheck k =>
    simp only [step] at hs
    split at hs <;> obtain ⟨rfl, rfl, rfl⟩ := hs
    · exact .quiet rfl rfl rfl rfl rfl
    · exact .quiet rfl rfl rfl rfl (hands_after k)
  | claimLoad goal word k =>
    cases hs
    exact .quiet rfl rfl rfl rfl (hands_claimNext me goal word _ k)
  | claimCas goal word bits k =>
    simp only [step] at hs
    split at hs
    · next heq =>
      split at hs
      · cases hs
        exact .quiet rfl rfl rfl rfl (hands_claimed goal _ k)
      · next hge =>
        -- the claimed bit is set, and set bits belong to workers
        obtain ⟨rfl, -⟩ := heq
        exact absurd (hb _ (Bitmap.mem_lowest hsane)) hge
    · cases hs
      exact .quiet rfl rfl rfl rfl (hands_claimNext me goal word _ k)
  | offer w s k =>
    simp only [step] at hs
    split at hs
    · next hslot =>
      cases hs
      exact .put (contents_offer s hslot) rfl rfl rfl
    · cases hs
      exact .quiet rfl rfl rfl rfl (hands_placing me s _ k)
  | place s next k =>
    simp only [step] at hs
    split at hs
    · cases hs
    · cases hs
      exact .quiet rfl rfl rfl rfl rfl
    · cases hs
      exact .put (contents_pushLocal m _ s) rfl rfl rfl
    · cases hs
      exact .put (contents_pushLocal m _ s) rfl (hands_placed _ next k) rfl
  | placeMark next k =>
    obtain ⟨w, -, hw⟩ := map_eq_some_iff.mp hs
    cases hw
    exact .quiet rfl rfl rfl rfl (hands_placed _ next k)
  | placeInjector s next k =>
    cases hs
    exact .put (contents_pushInjector m s) rfl (hands_placed _ next k) rfl
  | wake w k =>
    cases hs
    exact .quiet rfl rfl rfl rfl (hands_after k)
  | popSlot | flushSlot =>
    obtain ⟨w, -, hw⟩ := map_eq_some_iff.mp hs
    split at hw
    · next s hslot =>
      cases hw
      exact .take (contents_takeSlot hslot) rfl rfl rfl
    · cases hw
      exact .quiet rfl rfl rfl rfl rfl
  | popPending f =>
    simp only [step] at hs
    split at hs <;> obtain ⟨rfl, rfl, rfl⟩ := hs
    · exact .quiet rfl rfl rfl rfl (hands_missed f)
    · exact .quiet rfl rfl rfl rfl rfl
  | popTick | findIncrement =>
    obtain ⟨w, -, hw⟩ := map_eq_some_iff.mp hs
    cases hw
    exact .quiet rfl rfl rfl rfl (by split <;> rfl)
  | popInjectorFirst | popInjector | popOutside =>
    simp only [step] at hs
    split at hs
    · next s rest hinj =>
      cases hs
      exact .take (contents_popInjector hinj) rfl rfl rfl
    · cases hs
      exact .quiet rfl rfl rfl rfl rfl
  | popLocal | flushLocal =>
    obtain ⟨w, -, hw⟩ := map_eq_some_iff.mp hs
    split at hw
    · next s hlast =>
      cases hw
      exact .take (contents_popLocal hlast) rfl rfl rfl
    · cases hw
      exact .quiet rfl rfl rfl rfl rfl
  | stealStart f =>
    obtain ⟨w, -, hw⟩ := map_eq_some_iff.mp hs
    split at hw <;> obtain ⟨rfl, rfl, rfl⟩ := hw
    · exact .quiet rfl rfl rfl rfl (hands_missed f)
    · exact .quiet rfl rfl rfl rfl rfl
  | stealCheck f start offset attempts =>
    obtain ⟨w, -, hw⟩ := map_eq_some_iff.mp hs
    split at hw
    · dsimp only at hw
      split at hw <;> obtain ⟨rfl, rfl, rfl⟩ := hw <;> exact .quiet rfl rfl rfl rfl rfl
    · cases hw
      exact .quiet rfl rfl rfl rfl (hands_missed f)
  | stealTake | finalQuit | loopQuit =>
    cases hs
    exact .quiet rfl rfl rfl rfl (by split <;> rfl)
  | stealFront f start offset attempts victim =>
    simp only [step] at hs
    split at hs
    · cases hs
      exact .quiet rfl rfl rfl rfl (by split; exacts [hands_missed f, rfl])
    · cases hs
      exact .quiet rfl rfl rfl rfl (by split; exacts [hands_missed f, rfl])
    · next s rest hl =>
      cases hs
      exact .take (contents_stealLocal hl) rfl rfl rfl
  | stealMark | findLeave | findDecrement | quitStore =>
    cases hs
    exact .quiet rfl rfl rfl rfl rfl
  | popDecrement f s =>
    cases hs
    exact .finish s (contents_congr rfl rfl rfl) rfl (hands_found f) rfl rfl
  | spinQuit rounds =>
    simp only [step] at hs
    split at hs <;> obtain ⟨rfl, rfl, rfl⟩ := hs
    · exact .quiet rfl rfl rfl rfl rfl
    · exact .quiet rfl rfl rfl rfl (by split <;> rfl)
  | markIdle | clearIdle | flushClear =>
    obtain ⟨w, -, hw⟩ := map_eq_some_iff.mp hs
    cases hw
    exact .quiet rfl rfl rfl rfl rfl
  | parked =>
    simp only [step] at hs
    split at hs
    · cases hs
    · split at hs
      · cases hs
        exact .quiet rfl rfl rfl rfl rfl
      · split at hs
        · cases hs
          exact .quiet rfl rfl rfl rfl rfl
        · cases hs
  | flushInjector s =>
    obtain ⟨w, -, hw⟩ := map_eq_some_iff.mp hs
    cases hw
    exact .put (contents_pushInjector m s) rfl rfl rfl

/-! ### Every run -/

section Runs

variable [Fintype ε] [DecidableEq ε]

def Config.counted (c : Config n σ ε) : Multiset σ := ∑ t, (c.pc t).hands.1

def Config.uncounted (c : Config n σ ε) : Multiset σ := ∑ t, (c.pc t).hands.2

structure Books (c : Config n σ ε) : Prop where
  bounded : IdleBounded c.mem
  sane : ∀ t, (c.pc t).sane
  total : (c.handed : Multiset σ)
    = (c.popped : Multiset σ) + c.mem.contents + c.counted + c.uncounted
  pending : c.mem.pending = Multiset.card (c.mem.contents + c.counted)

namespace Books

variable {c : Config n σ ε}

theorem setPc_sane (h : Books c) {p : Pc n σ} (hp : p.sane) (t' : Fin n ⊕ ε) :
    (update c.pc t p t').sane := by
  by_cases ht : t' = t
  · subst ht
    rw [update_self]
    exact hp
  · rw [update_of_ne ht]
    exact h.sane t'

theorem enter (h : Books c) {op : Op σ} {p : Pc n σ} (hs : op.entry (workerId t) (c.pc t) = some p) :
    Books { c with pc := update c.pc t p, handed := c.handed ++ op.hands } := by
  have hentry : p.sane ∧ (c.pc t).hands = (0, 0) ∧ p.hands = (0, (op.hands : Multiset σ)) := by
    revert hs
    cases op <;> cases c.pc t <;> cases workerId t <;>
      simp [Op.entry, Op.hands] <;> rintro rfl <;> exact ⟨trivial, rfl, rfl⟩
  obtain ⟨hp, h0, h1⟩ := hentry
  have hcount := sum_update_add c.pc t p (fun x => x.hands.1)
  have hunc := sum_update_add c.pc t p (fun x => x.hands.2)
  simp only [h0, h1, add_zero] at hcount hunc
  refine ⟨h.bounded, h.setPc_sane hp, ?_, ?_⟩
  · show ((c.handed ++ op.hands : List σ) : Multiset σ)
      = (c.popped : Multiset σ) + c.mem.contents + (∑ t', (update c.pc t p t').hands.1)
        + ∑ t', (update c.pc t p t').hands.2
    have ht := h.total
    rw [← coe_add, hcount, hunc, ht]
    unfold Config.counted Config.uncounted
    abel
  · show c.mem.pending = card (c.mem.contents + ∑ t', (update c.pc t p t').hands.1)
    rw [hcount]
    exact h.pending

omit [DecidableEq ε] in
theorem pending_pos (h : Books c) {s : σ} (ht : (c.pc t).hands.1 = {s}) :
    0 < c.mem.pending := by
  have hle : ({s} : Multiset σ) ≤ c.counted := by
    rw [← ht]
    exact Finset.single_le_sum (f := fun t => (c.pc t).hands.1) (fun _ _ => zero_le _)
      (Finset.mem_univ t)
  rw [h.pending, card_add]
  have := card_le_card hle
  rw [card_singleton] at this
  omega

omit [Fintype ε] [DecidableEq ε] in
theorem exchange {a a' b b' x x' : Multiset σ} (h : a' + x' = a + x) (h' : b' + x = b + x') :
    a' + b' = a + b := by
  have hsum : a' + b' + (x + x') = a + b + (x + x') := by
    calc a' + b' + (x + x') = (a' + x') + (b' + x) := by abel
      _ = (a + x) + (b + x') := by rw [h, h']
      _ = a + b + (x + x') := by abel
  exact add_right_cancel hsum

/-- **Every atomic step keeps the books.** -/
theorem step (h : Books c) {luck : Luck} {m : Sched n σ} {p : Pc n σ} {out : List σ}
    (hs : Scheduler.step (workerId t) luck c.mem (c.pc t) = some (m, p, out)) :
    Books { c with mem := m, pc := update c.pc t p, popped := c.popped ++ out } := by
  obtain ⟨hb, hp⟩ := step_sane hs h.bounded (h.sane t)
  have hcount := sum_update_add c.pc t p (fun x => x.hands.1)
  have hunc := sum_update_add c.pc t p (fun x => x.hands.2)
  have ht := h.total
  have hpend := h.pending
  have hpos := fun s => h.pending_pos (t := t) (s := s)
  unfold Config.counted at ht hpend
  unfold Config.uncounted at ht
  have hgoal : (c.handed : Multiset σ) = ((c.popped ++ out : List σ) : Multiset σ) + m.contents
      + (∑ t', (update c.pc t p t').hands.1)
      + (∑ t', (update c.pc t p t').hands.2) ∧
      m.pending = card (m.contents + ∑ t', (update c.pc t p t').hands.1) := by
    rw [← coe_add]
    cases step_moves hs h.bounded (h.sane t) with
    | move hcontents hu hpd hout =>
      have hsum := exchange hcontents hcount
      rw [hu] at hunc
      rw [hpd, hsum, add_right_cancel hunc, hout]
      refine ⟨?_, hpend⟩
      rw [ht, coe_nil, add_zero, add_assoc (c.popped : Multiset σ), ← hsum, ← add_assoc]
    | announce s hcontents hp hp' hpd hout =>
      simp only [hp, hp', add_zero] at hcount hunc
      rw [hcount, hcontents, hpd, hout, hpend, ht, ← hunc]
      refine ⟨?_, ?_⟩
      · rw [coe_nil]
        abel
      · rw [← add_assoc, card_add _ {s}, card_singleton]
    | finish s hcontents hp hp' hpd hout =>
      have hpos' := hpos s (by rw [hp])
      simp only [hp, hp', add_zero] at hcount hunc
      rw [hunc, hcontents, hpd, hout, ht, ← hcount]
      rw [← hcount, ← add_assoc, card_add _ {s}, card_singleton] at hpend
      refine ⟨?_, by omega⟩
      rw [coe_singleton]
      abel
  exact ⟨hb, h.setPc_sane hp, hgoal.1, hgoal.2⟩

omit [DecidableEq ε] in
theorem start : Books (Config.start n σ ε) := by
  refine ⟨?_, fun _ => trivial, ?_, ?_⟩
  · intro i hi
    exact absurd hi (by simp [Config.start, Sched.new, Bitmap.mem])
  · simp [Config.start, Sched.new, Sched.contents, Config.counted, Config.uncounted, Pc.hands]
  · simp [Config.start, Sched.new, Sched.contents, Config.counted, Pc.hands]

end Books

theorem reachable_books {c : Config n σ ε} (hrun : Reachable c) : Books c := by
  refine hrun.invariant (I := Books) Books.start ?_
  rintro a b h ⟨act | act, ha⟩
  · obtain ⟨p, hp, rfl⟩ := map_eq_some_iff.mp ha
    exact h.enter hp
  · obtain ⟨⟨m, p, out⟩, hp, rfl⟩ := map_eq_some_iff.mp ha
    exact h.step hp

omit [DecidableEq ε] in
theorem Books.empty_of_pending_zero {c : Config n σ ε} (h : Books c) (hz : c.mem.pending = 0) :
    c.mem.injector = [] ∧ (∀ w, c.mem.locals w = []) ∧ (∀ w, c.mem.slot w = none) ∧
      ∀ t, (c.pc t).hands.1 = 0 := by
  have hcard := h.pending
  rw [hz] at hcard
  have hzero := card_eq_zero.mp hcard.symm
  have hzero' : c.mem.contents = 0 ∧ c.counted = 0 := add_eq_zero.mp hzero
  unfold Sched.contents at hzero'
  obtain ⟨⟨⟨hi, hl⟩, hsl⟩, hc⟩ : (((c.mem.injector : Multiset σ) = 0 ∧
      ∑ w, (c.mem.locals w : Multiset σ) = 0) ∧
      ∑ w, ((c.mem.slot w).toList : Multiset σ) = 0) ∧ c.counted = 0 := by
    simpa only [add_eq_zero] using hzero'
  refine ⟨?_, ?_, ?_, ?_⟩
  · simpa using hi
  · intro w
    simpa using Finset.sum_eq_zero_iff.mp hl w (Finset.mem_univ w)
  · intro w
    simpa using Finset.sum_eq_zero_iff.mp hsl w (Finset.mem_univ w)
  · intro t
    exact Finset.sum_eq_zero_iff.mp hc t (Finset.mem_univ t)

omit [DecidableEq ε] in
theorem Books.popped_le {c : Config n σ ε} (h : Books c) :
    (c.popped : Multiset σ) ≤ (c.handed : Multiset σ) := by
  rw [h.total, add_assoc, add_assoc]
  exact le_add_right _ _

theorem popped_step_le {c c' : Config n σ ε} (hrun : Reachable c) (hs : Step c c') :
    (c'.popped : Multiset σ) ≤ (c.handed : Multiset σ) := by
  have hle := (reachable_books (hrun.tail hs)).popped_le
  obtain ⟨act | act, ha⟩ := hs
  · obtain ⟨p, -, rfl⟩ := map_eq_some_iff.mp ha
    exact (reachable_books hrun).popped_le
  · obtain ⟨⟨m, p, out⟩, -, rfl⟩ := map_eq_some_iff.mp ha
    exact hle

/-- **Exactly once, and counted.** In every reachable configuration the services handed to `push`
are those that `pop` has returned, those in a container and those in the hands of a thread;
`pending` counts the announced ones that were not returned, and never underflows. -/
theorem run_queue_accounting (c : Config n σ ε) (hrun : Reachable c) :
    (c.handed : Multiset σ)
      = (c.popped : Multiset σ) + c.mem.contents + c.counted + c.uncounted ∧
    (∀ c', Step c c' → (c'.popped : Multiset σ) ≤ (c.handed : Multiset σ)) ∧
    c.mem.pending = Multiset.card c.mem.contents + Multiset.card c.counted ∧
    (∀ t f s, c.pc t = .popDecrement f s → 0 < c.mem.pending) ∧
    (c.mem.pending = 0 → c.mem.injector = [] ∧ (∀ w, c.mem.locals w = []) ∧
      (∀ w, c.mem.slot w = none) ∧
      (c.handed : Multiset σ) = (c.popped : Multiset σ) + c.uncounted) := by
  have h := reachable_books hrun
  refine ⟨h.total, fun c' hs => popped_step_le hrun hs, ?_, ?_, ?_⟩
  · rw [h.pending, card_add]
  · intro t f s hpc
    exact h.pending_pos (t := t) (s := s) (by rw [hpc]; rfl)
  · intro hz
    obtain ⟨hi, hl, hs, hc⟩ := h.empty_of_pending_zero hz
    refine ⟨hi, hl, hs, ?_⟩
    have hcontents : c.mem.contents = 0 := by simp [Sched.contents, hi, hl, hs]
    have hcounted : c.counted = 0 := Finset.sum_eq_zero fun t _ => hc t
    rw [h.total, hcontents, hcounted, add_zero, add_zero]

/-- An outside thread pushes a service through the injector, and the only worker pops it. -/
def pushThenPop (w x : Fin 1) : List (Action 1 ℕ (Fin 1)) :=
  .enter (.inr x) (.push 7) :: List.replicate 6 (.step (.inr x) .plain)
    ++ .enter (.inl w) .pop :: List.replicate 5 (.step (.inl w) .plain)

theorem pushThenPop_books :
    (exec act (pushThenPop 0 0) (Config.start 1 ℕ (Fin 1))).map
      (fun c => (c.handed, c.popped, c.mem.pending)) = some ([7], [7], 0) := by
  decide

theorem accounting_of_pushThenPop :
    ∃ c : Config 1 ℕ (Fin 1), Reachable c ∧ c.popped = [7] ∧ c.mem.pending = 0 ∧
      (c.handed : Multiset ℕ) = (c.popped : Multiset ℕ) + c.uncounted := by
  obtain ⟨c, hc, hbooks⟩ := map_eq_some_iff.mp pushThenPop_books
  have hrun : Reachable c :=
    Interleave.Reachable.of_run hc
  have hpop : c.popped = [7] := congrArg (fun x => x.2.1) hbooks
  have hpend : c.mem.pending = 0 := congrArg (fun x => x.2.2) hbooks
  obtain ⟨-, -, -, -, hzero⟩ := run_queue_accounting c hrun
  exact ⟨c, hrun, hpop, hpend, (hzero hpend).2.2.2⟩

end Runs

end Rskynet.Scheduler
