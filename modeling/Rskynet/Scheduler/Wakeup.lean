import Rskynet.Scheduler.Parking

/-!
# No wake-up is lost

A worker at stage four that nobody is going to wake is *blind*: nothing that enters the injector
from now on is its business. The handshake is one statement about the injector: while something
is in it, some worker is not blind or some push has still to look for a worker to wake. It
survives every step, because a worker turns blind only on an empty injector, a push that finds no
registered worker has seen that worker `0` is not blind, and a searcher is not blind.

* `no_lost_wakeup` — **PROVED**: no queued service is left to parked workers;
* `searching_exact` — **PROVED**: the counter of searching workers is exact.
-/

namespace Rskynet.Scheduler

open Function (update update_of_ne update_self)
open Option Interleave Bool

variable {n : ℕ} {σ ε : Type*}
variable {w : Fin n}

/-! ### The handshake -/

section Runs

variable [Fintype ε] [DecidableEq ε]

def Alert (c : Config n σ ε) (w : Fin n) : Prop :=
  c.mem.token w = true ∨ ∃ t, (c.pc t).targets w = true

/-- Worker `w` has seen the injector empty on its last scan, and nobody is going to wake it. -/
def Blind (c : Config n σ ε) (w : Fin n) : Prop := (c.pc (.inl w)).stage = 4 ∧ ¬ Alert c w

structure Handshake (c : Config n σ ε) : Prop where
  searching : c.mem.searching = Interleave.tally c.pc Pc.searches
  outside : ∀ e, (c.pc (.inr e)).searches = false
  registered : ∀ w, 1 ≤ (c.pc (.inl w)).stage → Bitmap.mem c.mem.idle w = true ∨ Alert c w
  slot : ∀ w, 2 ≤ (c.pc (.inl w)).stage → c.mem.slot w = none ∨ Alert c w
  locals : ∀ w, 3 ≤ (c.pc (.inl w)).stage → c.mem.locals w = []
  injector : c.mem.injector = [] ∨ (∃ w, ¬ Blind c w) ∨ ∃ t, (c.pc t).covers = true

omit [Fintype ε] [DecidableEq ε] in
theorem eq_inl_of_workerId {t : Fin n ⊕ ε} (h : workerId t = some w) : t = .inl w := by
  cases t with
  | inl v => exact congrArg Sum.inl (some.inj h)
  | inr e => cases h

namespace Handshake

variable {c : Config n σ ε} {t : Fin n ⊕ ε} {luck : Luck} {m : Sched n σ} {p : Pc n σ} {out : List σ}

def moved (c : Config n σ ε) (t : Fin n ⊕ ε) (m : Sched n σ) (p : Pc n σ) (out : List σ) :
    Config n σ ε :=
  { c with mem := m, pc := Function.update c.pc t p, popped := c.popped ++ out }

omit [Fintype ε] in
theorem moved_pc_self : (moved c t m p out).pc t = p := update_self ..

omit [Fintype ε] in
theorem moved_pc_of_ne {t' : Fin n ⊕ ε} (h : t' ≠ t) : (moved c t m p out).pc t' = c.pc t' :=
  update_of_ne h ..

omit [Fintype ε] in
theorem alert_of_targets (h : p.targets w = true) : Alert (moved c t m p out) w :=
  .inr ⟨t, by rw [moved_pc_self]; exact h⟩

omit [Fintype ε] in
theorem stage_moved (c : Config n σ ε) (t : Fin n ⊕ ε) (m : Sched n σ) (p : Pc n σ) (out : List σ)
    (w : Fin n) :
    (t = .inl w ∧ ((moved c t m p out).pc (.inl w)).stage = p.stage) ∨
    (t ≠ .inl w ∧ ((moved c t m p out).pc (.inl w)).stage = (c.pc (.inl w)).stage) := by
  by_cases ht : t = .inl w
  · left
    subst ht
    exact ⟨rfl, by rw [moved_pc_self]⟩
  · exact .inr ⟨ht, by rw [moved_pc_of_ne (Ne.symm ht)]⟩

omit [DecidableEq ε] in
theorem not_blind_of_searching (h : Handshake c) (hpos : 0 < c.mem.searching) :
    ∃ w, ¬ Blind c w := by
  by_contra hall
  push Not at hall
  have hzero : tally c.pc Pc.searches = 0 := by
    refine Finset.sum_eq_zero fun t _ => ?_
    cases t with
    | inl w => rw [searches_of_stage_four (hall w).1]; rfl
    | inr e => rw [h.outside e]; rfl
  have := h.searching
  omega

omit [DecidableEq ε] in
theorem not_blind_of_word_zero (h : Handshake c) (hz : c.mem.idle (w / 64) = 0) :
    ¬ Blind c w := by
  rintro ⟨hst, hno⟩
  rcases h.registered w (by omega) with hidle | halert
  · rw [Bitmap.mem_of_word_zero hz] at hidle
    exact false_ne_true hidle
  · exact hno halert

section Step

variable (hs : Scheduler.step (workerId t) luck c.mem (c.pc t) = some (m, p, out))

include hs

omit [Fintype ε] in
theorem alert_kept (h : Alert c w) : Alert (moved c t m p out) w ∨ (t = .inl w ∧ p.stage = 0) := by
  rcases h with htok | ⟨t', ht'⟩
  · rcases token_kept hs htok with hk | ⟨hme, rfl⟩
    · exact .inl (.inl hk)
    · exact .inr ⟨eq_inl_of_workerId hme, rfl⟩
  · left
    by_cases heq : t' = t
    · subst heq
      rcases targets_kept hs ht' with hk | hk
      · exact .inr ⟨t', by rw [moved_pc_self]; exact hk⟩
      · exact .inl hk
    · exact .inr ⟨t', by rw [moved_pc_of_ne heq]; exact ht'⟩

omit [Fintype ε] in
theorem alert_stays (h : Alert c w) (hmine : t = .inl w → p.stage ≠ 0) :
    Alert (moved c t m p out) w :=
  (alert_kept hs h).resolve_right fun hgone => hmine hgone.1 hgone.2

theorem searching_moved (h : Handshake c) :
    m.searching = tally (update c.pc t p) Pc.searches := by
  have hupd := tally_update c.pc t p Pc.searches
  have hsearch := h.searching
  rcases step_searching hs with ⟨h1, h2⟩ | ⟨-, h1, h2, h3⟩ | ⟨h1, h2, h3⟩
  · rw [h1, tally_update_of_eq c.pc t p _ h2]
    exact hsearch
  · rw [h2, h3] at hupd
    simp at hupd
    omega
  · have hpos := tally_pos (f := c.pc) (P := Pc.searches) (i := t) h2
    rw [h2, h3] at hupd
    simp at hupd
    omega

omit [Fintype ε] in
theorem outside_moved (hout : ∀ e, (c.pc (.inr e)).searches = false) (e : ε) :
    ((moved c t m p out).pc (.inr e)).searches = false := by
  by_cases ht : t = .inr e
  · subst ht
    rw [moved_pc_self]
    rcases step_searching hs with ⟨-, h2⟩ | ⟨hme, -⟩ | ⟨-, h2, -⟩
    · rw [h2]
      exact hout e
    · cases hme
    · rw [hout e] at h2
      cases h2
  · rw [moved_pc_of_ne (Ne.symm ht)]
    exact hout e

theorem registered_moved (h : Handshake c) (hb : Books c) (w : Fin n)
    (hw : 1 ≤ ((moved c t m p out).pc (.inl w)).stage) :
    Bitmap.mem m.idle w = true ∨ Alert (moved c t m p out) w := by
  -- what was registered before is registered or claimed now, unless the worker withdrew
  have hkeep : 1 ≤ (c.pc (.inl w)).stage → (t = .inl w → p.stage ≠ 0) →
      Bitmap.mem m.idle w = true ∨ Alert (moved c t m p out) w := by
    intro hst hmine
    rcases h.registered w hst with hidle | halert
    · rcases idle_kept hs hb.bounded (hb.sane t) hidle with hk | hk | ⟨hme, rfl⟩
      · exact .inl hk
      · exact .inr (alert_of_targets hk)
      · exact absurd rfl (hmine (eq_inl_of_workerId hme))
    · exact .inr (alert_stays hs halert hmine)
  rcases stage_moved c t m p out w with ⟨rfl, hst⟩ | ⟨hne, hst⟩
  · rw [hst] at hw
    rcases step_stage hs with hle | hadv
    · exact hkeep (le_trans hw hle) (fun _ => by omega)
    · cases hadv with
      | registered hidle _ => exact .inl hidle
      | slotEmpty | localEmpty | injectorEmpty | nothingPending =>
        exact hkeep (by omega) (fun _ => by omega)
  · rw [hst] at hw
    exact hkeep hw (fun ht => absurd ht hne)

theorem slot_moved (h : Handshake c) (w : Fin n)
    (hw : 2 ≤ ((moved c t m p out).pc (.inl w)).stage) :
    m.slot w = none ∨ Alert (moved c t m p out) w := by
  have hkeep : 2 ≤ (c.pc (.inl w)).stage → (t = .inl w → p.stage ≠ 0) →
      m.slot w = none ∨ Alert (moved c t m p out) w := by
    intro hst hmine
    rcases h.slot w hst with hslot | halert
    · exact (slot_kept hs hslot).imp id alert_of_targets
    · exact .inr (alert_stays hs halert hmine)
  rcases stage_moved c t m p out w with ⟨rfl, hst⟩ | ⟨hne, hst⟩
  · rw [hst] at hw
    rcases step_stage hs with hle | hadv
    · exact hkeep (le_trans hw hle) (fun _ => by omega)
    · cases hadv with
      | registered _ hp' => omega
      | slotEmpty hslot hm _ _ => exact .inl (by rw [hm]; exact hslot)
      | localEmpty | injectorEmpty | nothingPending => exact hkeep (by omega) (fun _ => by omega)
  · rw [hst] at hw
    exact hkeep hw (fun ht => absurd ht hne)

theorem locals_moved (h : Handshake c) (hb : Books c) (w : Fin n)
    (hw : 3 ≤ ((moved c t m p out).pc (.inl w)).stage) : m.locals w = [] := by
  have hkeep : 3 ≤ (c.pc (.inl w)).stage → m.locals w = [] := by
    intro hst
    rcases locals_kept hs (h.locals w hst) with hk | ⟨hme, s, next, k, hplace⟩
    · exact hk
    · rw [← eq_inl_of_workerId hme, hplace] at hst
      cases hst
  rcases stage_moved c t m p out w with ⟨rfl, hst⟩ | ⟨-, hst⟩
  · rw [hst] at hw
    rcases step_stage hs with hle | hadv
    · exact hkeep (le_trans hw hle)
    · cases hadv with
      | registered | slotEmpty => omega
      | localEmpty hlocal hm _ _ => rw [hm]; exact hlocal
      | injectorEmpty _ _ hp _ => exact hkeep (by omega)
      | nothingPending hz hm _ _ => rw [hm]; exact (hb.empty_of_pending_zero hz).2.1 w
  · rw [hst] at hw
    exact hkeep hw

/-- **A worker turns blind only on an empty injector.** -/
theorem not_blind_moved (hb : Books c) (hw : ¬ Blind c w) :
    m.injector = [] ∨ ¬ Blind (moved c t m p out) w := by
  by_cases halert : Alert c w
  · right
    rintro ⟨hst, hno⟩
    rcases alert_kept hs halert with hk | ⟨rfl, hz⟩
    · exact hno hk
    · rw [moved_pc_self] at hst
      omega
  · have hst4 : (c.pc (.inl w)).stage ≠ 4 := fun h4 => hw ⟨h4, halert⟩
    have hle4 := stage_le_four (c.pc (.inl w))
    rcases stage_moved c t m p out w with ⟨rfl, hst⟩ | ⟨-, hst⟩
    · rcases step_stage hs with hle | hadv
      · exact .inr fun hbl => by have := hbl.1; omega
      · cases hadv with
        | registered | slotEmpty | localEmpty => exact .inr fun hbl => by have := hbl.1; omega
        | injectorEmpty hinj hm _ _ => exact .inl (by rw [hm]; exact hinj)
        | nothingPending hz hm _ _ =>
          exact .inl (by rw [hm]; exact (hb.empty_of_pending_zero hz).1)
    · exact .inr fun hbl => hst4 (hst ▸ hbl.1)

theorem injector_moved [NeZero n] (h : Handshake c) (hb : Books c) :
    m.injector = [] ∨ (∃ w, ¬ Blind (moved c t m p out) w) ∨
      ∃ t', ((moved c t m p out).pc t').covers = true := by
  have hkeep : (∃ w, ¬ Blind c w) → m.injector = [] ∨ (∃ w, ¬ Blind (moved c t m p out) w) ∨
      ∃ t', ((moved c t m p out).pc t').covers = true := by
    rintro ⟨w, hw⟩
    exact (not_blind_moved hs hb hw).imp id fun hk => .inl ⟨w, hk⟩
  have htarget : ∀ w, p.targets w = true → ¬ Blind (moved c t m p out) w :=
    fun w hw hbl => hbl.2 (alert_of_targets hw)
  rcases h.injector with hinj | hw | ⟨t', ht'⟩
  · rcases step_injector hs hinj with hk | hcov | ⟨w, hw⟩ | ⟨w, hme, hz⟩
    · exact .inl hk
    · exact .inr (.inr ⟨t, by rw [moved_pc_self]; exact hcov⟩)
    · exact .inr (.inl ⟨w, htarget w hw⟩)
    · refine .inr (.inl ⟨w, fun hbl => ?_⟩)
      have hst := hbl.1
      rw [← eq_inl_of_workerId hme, moved_pc_self] at hst
      omega
  · exact hkeep hw
  · by_cases heq : t' = t
    · subst heq
      rcases step_covers hs hb.bounded (hb.sane t') ht' with hcov | ⟨w, hw⟩ | hpos | hz
      · exact .inr (.inr ⟨t', by rw [moved_pc_self]; exact hcov⟩)
      · exact .inr (.inl ⟨w, htarget w hw⟩)
      · exact hkeep (h.not_blind_of_searching hpos)
      · exact hkeep ⟨0, h.not_blind_of_word_zero (by simpa using hz)⟩
    · exact .inr (.inr ⟨t', by rw [moved_pc_of_ne heq]; exact ht'⟩)

/-- **Every atomic step keeps the handshake.** -/
theorem step [NeZero n] (h : Handshake c) (hb : Books c) :
    Handshake (moved c t m p out) where
  searching := h.searching_moved hs
  outside := outside_moved hs h.outside
  registered := h.registered_moved hs hb
  slot := h.slot_moved hs
  locals := h.locals_moved hs hb
  injector := h.injector_moved hs hb

end Step

/-- Entering an operation does not touch the handshake: the thread was at rest and is now at
stage zero. -/
theorem enter (h : Handshake c) {op : Op σ} {handed : List σ}
    (hs : op.entry (workerId t) (c.pc t) = some p) :
    Handshake { c with pc := update c.pc t p, handed := handed } := by
  obtain ⟨⟨hrest, hcov⟩, hst, hse⟩ := entry_quiet hs
  have hpc : ∀ t', t' ≠ t → update c.pc t p t' = c.pc t' :=
    fun t' ht' => update_of_ne ht' ..
  have halert : ∀ w, Alert c w →
      Alert { c with pc := update c.pc t p, handed := handed } w := by
    rintro w (htok | ⟨t', ht'⟩)
    · exact .inl htok
    · refine .inr ⟨t', ?_⟩
      have hne : t' ≠ t := by
        rintro rfl
        rw [hrest w] at ht'
        exact false_ne_true ht'
      show (update c.pc t p t').targets w = true
      rw [hpc t' hne]
      exact ht'
  have hstage : ∀ w, (update c.pc t p (.inl w)).stage ≤ (c.pc (.inl w)).stage := by
    intro w
    by_cases ht : .inl w = t
    · rw [ht, update_self, hst]
      exact Nat.zero_le _
    · rw [hpc _ ht]
  refine ⟨?_, ?_, ?_, ?_, ?_, ?_⟩
  · rw [tally_update_of_eq c.pc t p _ hse]
    exact h.searching
  · intro e
    show (update c.pc t p (.inr e)).searches = false
    by_cases ht : .inr e = t
    · rw [ht, update_self, hse, ← ht]
      exact h.outside e
    · rw [hpc _ ht]
      exact h.outside e
  · exact fun w hw => (h.registered w (le_trans hw (hstage w))).imp id (halert w)
  · exact fun w hw => (h.slot w (le_trans hw (hstage w))).imp id (halert w)
  · exact fun w hw => h.locals w (le_trans hw (hstage w))
  · refine h.injector.imp id (Or.imp ?_ ?_)
    · rintro ⟨w, hw⟩
      refine ⟨w, fun hbl => hw ⟨?_, fun ha => hbl.2 (halert w ha)⟩⟩
      have h4 := hbl.1
      have hle := hstage w
      have hle4 := stage_le_four (c.pc (.inl w))
      change (update c.pc t p (.inl w)).stage = 4 at h4
      omega
    · rintro ⟨t', ht'⟩
      refine ⟨t', ?_⟩
      have hne : t' ≠ t := by
        rintro rfl
        rw [hcov] at ht'
        exact false_ne_true ht'
      show (update c.pc t p t').covers = true
      rw [hpc t' hne]
      exact ht'

omit [DecidableEq ε] in
theorem start : Handshake (Config.start n σ ε) where
  searching := (Finset.sum_eq_zero fun _ _ => rfl).symm
  outside _ := rfl
  registered _ h := absurd h (by simp [Config.start, Pc.stage])
  slot _ _ := .inl rfl
  locals _ _ := rfl
  injector := .inl rfl

end Handshake

theorem reachable_handshake [NeZero n] {c : Config n σ ε} (hrun : Reachable c) :
    Handshake c := by
  have hboth : Books c ∧ Handshake c := by
    refine hrun.invariant (I := fun c => Books c ∧ Handshake c) ⟨Books.start, Handshake.start⟩ ?_
    rintro a b ⟨hb, h⟩ ⟨act | act, ha⟩
    · obtain ⟨p, hp, rfl⟩ := map_eq_some_iff.mp ha
      exact ⟨hb.enter hp, h.enter hp⟩
    · obtain ⟨⟨m, p, out⟩, hp, rfl⟩ := map_eq_some_iff.mp ha
      exact ⟨hb.step hp, h.step hp hb⟩
  exact hboth.2

/-! ### Parked workers -/

def Pc.inPush : Pc n σ → Bool
  | .pushPending _ _ => true
  | .pushSearching _ _ => true
  | .pushInjector _ _ => true
  | .recheck _ => true
  | .claimLoad _ _ _ => true
  | .claimCas _ _ _ _ => true
  | .offer _ _ _ => true
  | .place _ _ _ => true
  | .placeMark _ _ => true
  | .placeInjector _ _ _ => true
  | .wake _ _ => true
  | _ => false

theorem inPush_of_targets {p : Pc n σ} (h : p.targets w = true) : p.inPush = true := by
  cases p <;> first | rfl | cases h

theorem inPush_of_covers {p : Pc n σ} (h : p.covers = true) : p.inPush = true := by
  cases p <;> first | rfl | cases h

def Asleep (c : Config n σ ε) (w : Fin n) : Prop :=
  c.pc (.inl w) = .parked ∧ c.mem.token w = false

omit [Fintype ε] [DecidableEq ε] in
theorem Asleep.blind {c : Config n σ ε} (h : Asleep c w) (hno : ∀ t, (c.pc t).targets w = false) :
    Blind c w := by
  refine ⟨by rw [h.1]; rfl, ?_⟩
  rintro (htok | ⟨t, ht⟩)
  · rw [h.2] at htok
    exact false_ne_true htok
  · rw [hno t] at ht
    exact false_ne_true ht

/-- **No lost wake-up.** With any threads pushing, popping and searching in any interleaving, no
service is in the injector while no push is in progress and every worker is asleep, nor with a
worker that is asleep and that no push targets. -/
theorem no_lost_wakeup (workers : ℕ) (c : Config (max workers 1) σ ε) (hrun : Reachable c) :
    ¬ (c.mem.injector ≠ [] ∧ (∀ t, (c.pc t).inPush = false) ∧ ∀ w, Asleep c w) ∧
    ∀ w, ¬ ((c.mem.locals w ≠ [] ∨ c.mem.slot w ≠ none) ∧
      (∀ t, (c.pc t).targets w = false) ∧ Asleep c w) := by
  have : NeZero (max workers 1) := ⟨by omega⟩
  have h := reachable_handshake hrun
  constructor
  · rintro ⟨hinj, hpush, hasleep⟩
    have hquiet : ∀ w t, (c.pc t).targets w = false := by
      intro w t
      by_contra ht
      have := inPush_of_targets (eq_true_of_not_eq_false ht)
      rw [hpush t] at this
      exact false_ne_true this
    rcases h.injector with hempty | ⟨w, hw⟩ | ⟨t, ht⟩
    · exact hinj hempty
    · exact hw ((hasleep w).blind (hquiet w))
    · have := inPush_of_covers ht
      rw [hpush t] at this
      exact false_ne_true this
  · rintro w ⟨hwork, hquiet, hasleep⟩
    obtain ⟨hst, hno⟩ := hasleep.blind hquiet
    rcases hwork with hl | hs
    · exact hl (h.locals w (by omega))
    · exact (h.slot w (by omega)).elim hs hno

/-- Worker `v` starts to search, worker `w` parks, and an outside thread pushes a service. -/
def parkThenPush (w v : Fin 2) (x : Fin 1) : List (Action 2 ℕ (Fin 1)) :=
  [.enter (.inl v) .find, .step (.inl v) .plain, .enter (.inl w) .find]
    ++ List.replicate 6 (.step (.inl w) .plain)
    ++ .enter (.inr x) (.push 7) :: List.replicate 4 (.step (.inr x) .plain)

theorem parkThenPush_state :
    (exec act (parkThenPush 0 1 0) (Config.start 2 ℕ (Fin 1))).map
      (fun c => (c.mem.injector, c.pc (.inl 0), c.mem.token 0)) = some ([7], .parked, false) := rfl

theorem parkThenPush_quiet :
    (exec act (parkThenPush 0 1 0) (Config.start 2 ℕ (Fin 1))).map
      (fun c => decide (∀ t, (c.pc t).inPush = false)) = some true := by decide

theorem awake_of_parkThenPush :
    ∃ c : Config 2 ℕ (Fin 1), Reachable c ∧ c.mem.injector = [7] ∧ Asleep c 0 ∧
      (∀ t, (c.pc t).inPush = false) ∧ ∃ w, ¬ Asleep c w := by
  obtain ⟨c, hc, hstate⟩ := map_eq_some_iff.mp parkThenPush_state
  have hrun : Reachable c :=
    Interleave.Reachable.of_run hc
  have hquiet := parkThenPush_quiet
  rw [hc, map_some, some.injEq, decide_eq_true_iff] at hquiet
  have hinj : c.mem.injector = [7] := congrArg (fun x => x.1) hstate
  have hpark : c.pc (.inl 0) = .parked := congrArg (fun x => x.2.1) hstate
  have htok : c.mem.token 0 = false := congrArg (fun x => x.2.2) hstate
  refine ⟨c, hrun, hinj, ⟨hpark, htok⟩, hquiet, ?_⟩
  by_contra hall
  push Not at hall
  exact (no_lost_wakeup 2 c hrun).1 ⟨by rw [hinj]; simp, hquiet, hall⟩

/-- **The search counter is exact**: it counts the workers that search, so that no decrement of
it wraps. -/
theorem searching_exact (workers : ℕ) (c : Config (max workers 1) σ ε) (hrun : Reachable c) :
    c.mem.searching = (Finset.univ.filter fun w => (c.pc (.inl w)).searches = true).card ∧
      ∀ t, (c.pc t).searches = true → 0 < c.mem.searching := by
  have : NeZero (max workers 1) := ⟨by omega⟩
  have h := reachable_handshake hrun
  refine ⟨?_, fun t ht => h.searching ▸ tally_pos ht⟩
  rw [h.searching, tally, Fintype.sum_sum_type, Finset.card_filter, add_eq_left]
  exact Finset.sum_eq_zero fun e _ => if_neg (by simp [h.outside e])

theorem searching_after_parkThenPush :
    ∃ c : Config 2 ℕ (Fin 1), Reachable c ∧ c.pc (.inl 0) = .parked ∧ 0 < c.mem.searching := by
  have hend : (exec act (parkThenPush 0 1 0) (Config.start 2 ℕ (Fin 1))).map
      (fun c => (c.pc (.inl 0), (c.pc (.inl 1)).searches)) = some (.parked, true) := rfl
  obtain ⟨c, hc, hend⟩ := map_eq_some_iff.mp hend
  rw [Prod.mk.injEq] at hend
  have hrun : Reachable c := Interleave.Reachable.of_run hc
  exact ⟨c, hrun, hend.1, (searching_exact 2 c hrun).2 _ hend.2⟩

end Runs

end Rskynet.Scheduler
