import Mathlib.Data.List.Basic
import Mathlib.Tactic.IntervalCases

/-!
# The monitor of a worker that does not come back

A worker says in five words of shared memory when it begins and when it finishes a poll; a thread
looks at them from time to time and reports a poll that has gone on since its last look. What the
words hold depends only on how many operations the worker has done, so that a look is known by the
numbers at which it read.

* `alarms_exact` — **PROVED**: a report is of a poll that has gone on since the look before, and two
  looks at a poll that goes on report it.
-/

namespace Rskynet

/-! ### The worker -/

/-- The progress of one worker; each word has 64 bits. -/
structure Monitor where
  version : ℕ := 0
  checked : ℕ := 0
  routeSource : ℕ := 0
  routeDestination : ℕ := 0
  routeSeq : ℕ := 0

namespace Monitor

def bump (n : ℕ) : ℕ := (n + 1) % 2 ^ 64

def begin (source destination : ℕ) : List (Monitor → Monitor) :=
  [fun m => { m with version := bump m.version },
   fun m => { m with routeSeq := bump m.routeSeq },
   fun m => { m with routeSource := source },
   fun m => { m with routeDestination := destination },
   fun m => { m with routeSeq := bump m.routeSeq }]

def finish : List (Monitor → Monitor) :=
  [fun m => { m with routeSeq := bump m.routeSeq },
   fun m => { m with routeSource := 0 },
   fun m => { m with routeDestination := 0 },
   fun m => { m with routeSeq := bump m.routeSeq },
   fun m => { m with version := bump m.version }]

def operation (source destination i : ℕ) : Monitor → Monitor :=
  (begin source destination ++ finish)[i]?.getD id

/-! ### The looks -/

/-- Where `check` is, with what it has read: at the first load of the version, in the loop of
`read_route`, at the second load of the version, at the load of `checked`, or at its store. -/
inductive Checker where
  | idle
  | routing (before : ℕ)
  | source (before seq : ℕ)
  | destination (before seq source : ℕ)
  | confirm (before seq source destination : ℕ)
  | recheck (before source destination : ℕ)
  | compare (after source destination : ℕ)
  | store (after : ℕ)

/-- A look that has returned: how many operations the worker had done at its first and at its second
load of the version and when it returned, and what it returned. -/
structure Check where
  began : ℕ
  looked : ℕ
  returned : ℕ
  report : Option (ℕ × ℕ × ℕ)

/-- The words, the operations the worker has done, the look that is on, the numbers at its loads of
the version, and the looks that have returned, newest first. -/
structure System where
  monitor : Monitor := {}
  done : ℕ := 0
  checker : Checker := .idle
  began : ℕ := 0
  looked : ℕ := 0
  log : List Check := []

inductive Thread where
  | worker
  | checker

def System.work (calls : ℕ → ℕ × ℕ) (s : System) : System :=
  let call := calls (s.done / 10)
  { s with monitor := operation call.1 call.2 (s.done % 10) s.monitor, done := s.done + 1 }

def System.return (s : System) (report : Option (ℕ × ℕ × ℕ)) : System :=
  { s with checker := .idle, log := ⟨s.began, s.looked, s.done, report⟩ :: s.log }

/-- **One operation of `check`.** -/
def System.check (s : System) : System :=
  match s.checker with
  | .idle => { s with checker := .routing s.monitor.version, began := s.done }
  | .routing before =>
    if s.monitor.routeSeq % 2 ≠ 0 then s
    else { s with checker := .source before s.monitor.routeSeq }
  | .source before seq => { s with checker := .destination before seq s.monitor.routeSource }
  | .destination before seq source =>
    { s with checker := .confirm before seq source s.monitor.routeDestination }
  | .confirm before seq source destination =>
    if seq = s.monitor.routeSeq then { s with checker := .recheck before source destination }
    else { s with checker := .routing before }
  | .recheck before source destination =>
    { s with
      looked := s.done
      checker := if before ≠ s.monitor.version then .store s.monitor.version
        else .compare s.monitor.version source destination }
  | .compare after source destination =>
    if after ≠ s.monitor.checked then { s with checker := .store after }
    else s.return (if destination ≠ 0 then some (source, destination, after) else none)
  | .store after => System.return { s with monitor := { s.monitor with checked := after } } none

def step (calls : ℕ → ℕ × ℕ) (s : System) : Thread → System
  | .worker => s.work calls
  | .checker => s.check

/-! ### The words after so many operations -/

def versions (n : ℕ) : ℕ := 2 * (n / 10) + min 1 (n % 10)

def routeSeqs (n : ℕ) : ℕ := 4 * (n / 10) + [0, 0, 1, 1, 1, 2, 3, 3, 3, 4].getD (n % 10) 0

def versionAt (n : ℕ) : ℕ := versions n % 2 ^ 64

def routeSeqAt (n : ℕ) : ℕ := routeSeqs n % 2 ^ 64

def sourceAt (calls : ℕ → ℕ × ℕ) (n : ℕ) : ℕ :=
  if 3 ≤ n % 10 ∧ n % 10 ≤ 6 then (calls (n / 10)).1 else 0

def destinationAt (calls : ℕ → ℕ × ℕ) (n : ℕ) : ℕ :=
  if 4 ≤ n % 10 ∧ n % 10 ≤ 7 then (calls (n / 10)).2 else 0

/-- **The words after `n` operations of the worker.** -/
def wordsAt (calls : ℕ → ℕ × ℕ) (checked n : ℕ) : Monitor where
  version := versionAt n
  checked
  routeSource := sourceAt calls n
  routeDestination := destinationAt calls n
  routeSeq := routeSeqAt n

variable {calls : ℕ → ℕ × ℕ} {s : System} {n q began looked source destination : ℕ}

theorem bump_mod (n : ℕ) : bump (n % 2 ^ 64) = (n + 1) % 2 ^ 64 := Nat.mod_add_mod n (2 ^ 64) 1

theorem exists_pair (n : ℕ) : ∃ k r, r < 10 ∧ n = 10 * k + r :=
  ⟨n / 10, n % 10, Nat.mod_lt _ (by decide), (Nat.div_add_mod n 10).symm⟩

theorem pair_div {k r : ℕ} (hr : r < 10) : (10 * k + r) / 10 = k := by omega

theorem pair_mod {k r : ℕ} (hr : r < 10) : (10 * k + r) % 10 = r := by omega

theorem operation_wordsAt (calls : ℕ → ℕ × ℕ) (checked n : ℕ) :
    operation (calls (n / 10)).1 (calls (n / 10)).2 (n % 10) (wordsAt calls checked n)
      = wordsAt calls checked (n + 1) := by
  obtain ⟨k, r, hr, rfl⟩ := exists_pair n
  have hdiv : (10 * k + 10) / 10 = k + 1 := by omega
  have hmod : (10 * k + 10) % 10 = 0 := by omega
  interval_cases r <;>
    simp [operation, begin, finish, wordsAt, versionAt, routeSeqAt, sourceAt, destinationAt,
      versions, routeSeqs, pair_div, hdiv, hmod, bump_mod, Nat.mul_add, Nat.add_assoc,
      -Nat.reducePow]

/-! ### What a look has read -/

/-- The loads of `read_route` that a look accepted: two loads of an even sequence number, equal, and
between them the loads of the route. -/
def Snapshot (calls : ℕ → ℕ × ℕ) (began looked source destination : ℕ) : Prop :=
  ∃ a b c e, began ≤ a ∧ a ≤ b ∧ b ≤ c ∧ c ≤ e ∧ e ≤ looked ∧ routeSeqAt a % 2 = 0
    ∧ routeSeqAt a = routeSeqAt e ∧ source = sourceAt calls b
    ∧ destination = destinationAt calls c

/-- **A look after a look at `q`**: it saw the version move since `q` and returned nothing, or it saw
the version of `q` twice and returned the route it read in between. -/
def Verdict (calls : ℕ → ℕ × ℕ) (q : ℕ) (c : Check) : Prop :=
  q ≤ c.began ∧ c.began ≤ c.looked ∧ c.looked ≤ c.returned
    ∧ (c.report = none
        ∧ (versionAt c.began ≠ versionAt c.looked ∨ versionAt c.looked ≠ versionAt q)
      ∨ versionAt c.began = versionAt c.looked ∧ versionAt c.looked = versionAt q
        ∧ ∃ source destination, Snapshot calls c.began c.looked source destination
          ∧ c.report
            = if destination ≠ 0 then some (source, destination, versionAt c.looked) else none)

/-- The number at which the newest look loaded the version last; `0` before the first look. -/
def baseline : List Check → ℕ
  | [] => 0
  | c :: _ => c.looked

def Verdicts (calls : ℕ → ℕ × ℕ) : List Check → Prop
  | [] => True
  | c :: log => Verdict calls (baseline log) c ∧ Verdicts calls log

/-- What the look that is on has read so far. -/
def Located (calls : ℕ → ℕ × ℕ) (q began looked done : ℕ) : Checker → Prop
  | .idle => q ≤ done
  | .routing before => q ≤ began ∧ began ≤ done ∧ before = versionAt began
  | .source before seq => q ≤ began ∧ before = versionAt began
    ∧ ∃ a, began ≤ a ∧ a ≤ done ∧ seq % 2 = 0 ∧ seq = routeSeqAt a
  | .destination before seq source => q ≤ began ∧ before = versionAt began
    ∧ ∃ a b, began ≤ a ∧ a ≤ b ∧ b ≤ done ∧ seq % 2 = 0 ∧ seq = routeSeqAt a
      ∧ source = sourceAt calls b
  | .confirm before seq source destination => q ≤ began ∧ before = versionAt began
    ∧ ∃ a b c, began ≤ a ∧ a ≤ b ∧ b ≤ c ∧ c ≤ done ∧ seq % 2 = 0 ∧ seq = routeSeqAt a
      ∧ source = sourceAt calls b ∧ destination = destinationAt calls c
  | .recheck before source destination => q ≤ began ∧ before = versionAt began
    ∧ Snapshot calls began done source destination
  | .compare after source destination => q ≤ began ∧ looked ≤ done ∧ after = versionAt looked
    ∧ versionAt began = versionAt looked ∧ Snapshot calls began looked source destination
  | .store after => q ≤ began ∧ began ≤ looked ∧ looked ≤ done ∧ after = versionAt looked
    ∧ (versionAt began ≠ versionAt looked ∨ versionAt looked ≠ versionAt q)

theorem Snapshot.le (h : Snapshot calls began looked source destination) : began ≤ looked := by
  obtain ⟨a, b, c, e, hrest⟩ := h
  omega

theorem Located.succ {checker : Checker} (h : Located calls q began looked n checker) :
    Located calls q began looked (n + 1) checker := by
  cases checker with
  | idle => exact Nat.le_succ_of_le h
  | routing before => exact ⟨h.1, Nat.le_succ_of_le h.2.1, h.2.2⟩
  | source before seq =>
    obtain ⟨hq, hbefore, a, ha, hdone, hrest⟩ := h
    exact ⟨hq, hbefore, a, ha, Nat.le_succ_of_le hdone, hrest⟩
  | destination before seq source =>
    obtain ⟨hq, hbefore, a, b, ha, hb, hdone, hrest⟩ := h
    exact ⟨hq, hbefore, a, b, ha, hb, Nat.le_succ_of_le hdone, hrest⟩
  | confirm before seq source destination =>
    obtain ⟨hq, hbefore, a, b, c, ha, hb, hc, hdone, hrest⟩ := h
    exact ⟨hq, hbefore, a, b, c, ha, hb, hc, Nat.le_succ_of_le hdone, hrest⟩
  | recheck before source destination =>
    obtain ⟨hq, hbefore, a, b, c, e, ha, hb, hc, he, hdone, hrest⟩ := h
    exact ⟨hq, hbefore, a, b, c, e, ha, hb, hc, he, Nat.le_succ_of_le hdone, hrest⟩
  | compare after source destination => exact ⟨h.1, Nat.le_succ_of_le h.2.1, h.2.2⟩
  | store after => exact ⟨h.1, h.2.1, Nat.le_succ_of_le h.2.2.1, h.2.2.2⟩

/-! ### Every run -/

structure Sound (calls : ℕ → ℕ × ℕ) (s : System) : Prop where
  words : s.monitor = wordsAt calls (versionAt (baseline s.log)) s.done
  located : Located calls (baseline s.log) s.began s.looked s.done s.checker
  verdicts : Verdicts calls s.log

theorem Sound.work (h : Sound calls s) : Sound calls (s.work calls) := by
  refine ⟨?_, h.located.succ, h.verdicts⟩
  show _ = wordsAt calls (versionAt (baseline s.log)) (s.done + 1)
  rw [← operation_wordsAt, ← h.words]
  rfl

/-- **One operation of `check`.** -/
theorem Sound.check (h : Sound calls s) : Sound calls s.check := by
  obtain ⟨hwords, hlocated, hverdicts⟩ := h
  unfold System.check
  cases hchecker : s.checker with
  | idle =>
    rw [hchecker] at hlocated
    exact ⟨hwords, ⟨hlocated, Nat.le_refl _, congrArg Monitor.version hwords⟩, hverdicts⟩
  | routing before =>
    have hstay := hlocated
    rw [hchecker] at hlocated
    obtain ⟨hq, hdone, hbefore⟩ := hlocated
    dsimp only
    split
    · exact ⟨hwords, hstay, hverdicts⟩
    · rename_i heven
      exact ⟨hwords, ⟨hq, hbefore, s.done, hdone, Nat.le_refl _, not_not.mp heven,
        congrArg Monitor.routeSeq hwords⟩, hverdicts⟩
  | source before seq =>
    rw [hchecker] at hlocated
    obtain ⟨hq, hbefore, a, ha, hdone, heven, hseq⟩ := hlocated
    exact ⟨hwords, ⟨hq, hbefore, a, s.done, ha, hdone, Nat.le_refl _, heven, hseq,
      congrArg Monitor.routeSource hwords⟩, hverdicts⟩
  | destination before seq source =>
    rw [hchecker] at hlocated
    obtain ⟨hq, hbefore, a, b, ha, hb, hdone, heven, hseq, hsource⟩ := hlocated
    exact ⟨hwords, ⟨hq, hbefore, a, b, s.done, ha, hb, hdone, Nat.le_refl _, heven, hseq, hsource,
      congrArg Monitor.routeDestination hwords⟩, hverdicts⟩
  | confirm before seq source destination =>
    rw [hchecker] at hlocated
    obtain ⟨hq, hbefore, a, b, c, ha, hb, hc, hdone, heven, hseq, hroute⟩ := hlocated
    dsimp only
    split
    · rename_i hsame
      exact ⟨hwords, ⟨hq, hbefore, a, b, c, s.done, ha, hb, hc, hdone, Nat.le_refl _, hseq ▸ heven,
        hseq.symm.trans (hsame.trans (congrArg Monitor.routeSeq hwords)), hroute⟩, hverdicts⟩
    · exact ⟨hwords, ⟨hq, (ha.trans hb).trans (hc.trans hdone), hbefore⟩, hverdicts⟩
  | recheck before source destination =>
    rw [hchecker] at hlocated
    obtain ⟨hq, hbefore, hsnapshot⟩ := hlocated
    have hversion : s.monitor.version = versionAt s.done := congrArg Monitor.version hwords
    refine ⟨hwords, ?_, hverdicts⟩
    dsimp only
    split
    · rename_i hmoved
      rw [hbefore, hversion] at hmoved
      exact ⟨hq, hsnapshot.le, Nat.le_refl _, hversion, .inl hmoved⟩
    · rename_i hsame
      rw [hbefore, hversion, not_not] at hsame
      exact ⟨hq, Nat.le_refl _, hversion, hsame, hsnapshot⟩
  | compare after source destination =>
    rw [hchecker] at hlocated
    obtain ⟨hq, hdone, hafter, hsame, hsnapshot⟩ := hlocated
    have hchecked : s.monitor.checked = versionAt (baseline s.log) := congrArg Monitor.checked hwords
    dsimp only
    rw [hchecked, hafter]
    split
    · rename_i hmoved
      exact ⟨hwords, ⟨hq, hsnapshot.le, hdone, rfl, .inr hmoved⟩, hverdicts⟩
    · rename_i hstill
      have hbase := not_not.mp hstill
      refine ⟨?_, hdone, ⟨hq, hsnapshot.le, hdone, .inr ⟨hsame, hbase, source, destination,
        hsnapshot, rfl⟩⟩, hverdicts⟩
      rw [← hbase] at hwords
      exact hwords
  | store after =>
    rw [hchecker] at hlocated
    obtain ⟨hq, hbegan, hdone, hafter, hmoved⟩ := hlocated
    refine ⟨?_, hdone, ⟨hq, hbegan, hdone, .inl ⟨rfl, hmoved⟩⟩, hverdicts⟩
    rw [hafter]
    exact congrArg (fun m : Monitor => { m with checked := versionAt s.looked }) hwords

theorem sound_run (calls : ℕ → ℕ × ℕ) (run : List Thread) :
    Sound calls (run.foldl (step calls) {}) := by
  have hsteps : ∀ s, Sound calls s → Sound calls (run.foldl (step calls) s) := by
    induction run with
    | nil => exact fun s hs => hs
    | cons thread run ih =>
      intro s hs
      apply ih
      cases thread with
      | worker => exact hs.work
      | checker => exact hs.check
  exact hsteps {} ⟨rfl, Nat.le_refl 0, trivial⟩

/-! ### Reports -/

theorem eq_of_mod_eq {x y : ℕ} (h : x % 2 ^ 64 = y % 2 ^ 64) (hx : x < y + 2 ^ 64)
    (hy : y < x + 2 ^ 64) : x = y := by
  omega

theorem versionAt_eq {a b : ℕ} (hle : a ≤ b) (hlt : b < a + 2 ^ 64) (h : versionAt a = versionAt b) :
    versions a = versions b := by
  apply eq_of_mod_eq h
  · unfold versions
    omega
  · unfold versions
    omega

theorem routeSeqs_pair {k r : ℕ} (hr : r < 10) :
    routeSeqs (10 * k + r) = 4 * k + [0, 0, 1, 1, 1, 2, 3, 3, 3, 4].getD r 0 := by
  unfold routeSeqs
  rw [pair_div hr, pair_mod hr]

theorem routeSeqs_bounds (n : ℕ) : 4 * (n / 10) ≤ routeSeqs n ∧ routeSeqs n ≤ 4 * (n / 10) + 4 := by
  obtain ⟨k, r, hr, rfl⟩ := exists_pair n
  rw [routeSeqs_pair hr, pair_div hr]
  interval_cases r <;> exact ⟨Nat.le_add_right _ _, Nat.add_le_add_left (by decide) _⟩

theorem quiet_of_even (h : routeSeqs n % 2 = 0) :
    n % 10 = 5 ∧ routeSeqs n = 4 * (n / 10) + 2
      ∨ (n + 1) % 10 ≤ 2 ∧ routeSeqs n = 4 * ((n + 1) / 10) := by
  obtain ⟨k, r, hr, rfl⟩ := exists_pair n
  have hvalue := routeSeqs_pair (k := k) hr
  interval_cases r <;> simp only [List.getD_cons_zero, List.getD_cons_succ] at hvalue <;> omega

/-- **A route that is read is no mixture**: it is the route of the poll at which the worker stood
through all four loads. -/
theorem Snapshot.route (h : Snapshot calls began looked source destination)
    (hlt : looked < began + 2 ^ 64) (hdestination : destination ≠ 0) :
    ∃ k, began ≤ 10 * k + 5 ∧ 10 * k + 5 ≤ looked ∧ calls k = (source, destination) := by
  obtain ⟨a, b, c, e, ha, hb, hc, he, hlooked, heven, hsame, hsource, hdest⟩ := h
  have hseq : routeSeqs a = routeSeqs e := by
    have hfirst := routeSeqs_bounds a
    have hsecond := routeSeqs_bounds e
    apply eq_of_mod_eq hsame <;> omega
  have heven : routeSeqs a % 2 = 0 := by
    unfold routeSeqAt at heven
    omega
  have hwindow : 4 ≤ c % 10 ∧ c % 10 ≤ 7 := by
    by_contra hout
    rw [hdest, destinationAt, if_neg hout] at hdestination
    exact hdestination rfl
  -- nothing is written between the loads, and there is a destination only in the middle of a poll
  have hstands : a % 10 = 5 ∧ a = e := by
    rcases quiet_of_even heven with hfirst | hfirst
    · rcases quiet_of_even (hseq ▸ heven) with hsecond | hsecond <;> omega
    · rcases quiet_of_even (hseq ▸ heven) with hsecond | hsecond <;> omega
  refine ⟨a / 10, ?_, ?_, ?_⟩
  · omega
  · omega
  · rw [hsource, hdest, show b = a by omega, show c = a by omega]
    unfold sourceAt destinationAt
    rw [if_pos (by omega), if_pos (by omega)]

theorem Snapshot.standing {k : ℕ}
    (h : Snapshot calls (10 * k + 5) (10 * k + 5) source destination) :
    calls k = (source, destination) := by
  obtain ⟨a, b, c, e, ha, hb, hc, he, hlooked, -, -, hsource, hdest⟩ := h
  have hb' : b = 10 * k + 5 := by omega
  have hc' : c = 10 * k + 5 := by omega
  rw [hsource, hdest, hb', hc']
  unfold sourceAt destinationAt
  rw [if_pos (by omega), if_pos (by omega), show (10 * k + 5) / 10 = k by omega]

theorem Verdicts.of_append {newer older : List Check} {c : Check}
    (h : Verdicts calls (newer ++ c :: older)) : Verdict calls (baseline older) c ∧ Verdicts calls older := by
  induction newer with
  | nil => exact h
  | cons _ newer ih => exact ih h.2

theorem Verdict.sound {c : Check} {version : ℕ} (h : Verdict calls q c)
    (hreport : c.report = some (source, destination, version)) (hlt : c.looked < q + 2 ^ 64) :
    ∃ k, 10 * k < q ∧ c.looked < 10 * k + 10 ∧ calls k = (source, destination) := by
  obtain ⟨hq, hbegan, -, ⟨hnone, -⟩ | ⟨hsame, hbase, s', d', hsnapshot, hgot⟩⟩ := h
  · rw [hnone] at hreport
    cases hreport
  · rw [hgot] at hreport
    split at hreport
    · rename_i hdestination
      cases hreport
      obtain ⟨k, hfirst, hlast, hcall⟩ := hsnapshot.route (by omega) hdestination
      have hlooked := versionAt_eq hbegan (by omega) hsame
      have hqlooked := versionAt_eq (hq.trans hbegan) hlt hbase.symm
      unfold versions at hlooked hqlooked
      refine ⟨k, ?_, ?_, hcall⟩
      · omega
      · omega
    · cases hreport

theorem Verdict.complete {c : Check} {k : ℕ} (h : Verdict calls q c) (hq : 10 * k + 5 ≤ q)
    (hreturned : c.returned ≤ 10 * k + 5) (hdestination : (calls k).2 ≠ 0) :
    c.report = some ((calls k).1, (calls k).2, (2 * k + 1) % 2 ^ 64) := by
  obtain ⟨hbase, hbegan, hlooked, hreport⟩ := h
  have hq' : q = 10 * k + 5 := by omega
  have hbegan' : c.began = 10 * k + 5 := by omega
  have hlooked' : c.looked = 10 * k + 5 := by omega
  rw [hq', hbegan', hlooked'] at hreport
  rcases hreport with ⟨-, hmoved | hmoved⟩ | ⟨-, -, source, destination, hsnapshot, hgot⟩
  · exact absurd rfl hmoved
  · exact absurd rfl hmoved
  · rw [hsnapshot.standing] at hdestination ⊢
    have hversion : versionAt (10 * k + 5) = (2 * k + 1) % 2 ^ 64 := by
      unfold versionAt versions
      rw [pair_div (by decide), pair_mod (by decide)]
      rfl
    rw [hgot, if_pos hdestination, hversion]

/-- **The alarms are exact.**  A report has the arguments of a `begin` that the worker has started
before the last look at the version of the check before, and whose `finish` has not ended at the last
look of this one, if fewer than `2 ^ 64` operations of the worker lie between the two.  A poll with a
destination that has begun before two consecutive checks, and does not start to finish before they
return, is reported by the second. -/
theorem alarms_exact (calls : ℕ → ℕ × ℕ) (run : List Thread) (newer older : List Check) (c : Check)
    (hlog : (run.foldl (step calls) {}).log = newer ++ c :: older) :
    (∀ source destination version, c.report = some (source, destination, version) →
      c.looked < baseline older + 2 ^ 64 →
      ∃ k, 10 * k < baseline older ∧ c.looked < 10 * k + 10 ∧ calls k = (source, destination))
    ∧ ∀ p rest k, older = p :: rest → 10 * k + 5 ≤ p.began → c.returned ≤ 10 * k + 5 →
      (calls k).2 ≠ 0 → c.report = some ((calls k).1, (calls k).2, (2 * k + 1) % 2 ^ 64) := by
  have hverdicts := (sound_run calls run).verdicts
  rw [hlog] at hverdicts
  obtain ⟨hverdict, holder⟩ := hverdicts.of_append
  constructor
  · intro source destination version hreport hlt
    exact hverdict.sound hreport hlt
  · intro p rest k hprevious hbegun hreturned hdestination
    subst hprevious
    exact hverdict.complete (hbegun.trans holder.1.2.1) hreturned hdestination

def stuck : List Thread := List.replicate 5 .worker ++ List.replicate 15 .checker

theorem stuck_reported : ∃ c p : Check, (stuck.foldl (step fun _ => (18, 52)) {}).log = [c, p]
    ∧ c.report = some (18, 52, 1) ∧ ∃ k, 10 * k < p.looked ∧ c.looked < 10 * k + 10 := by
  have hexact := alarms_exact (fun _ => (18, 52)) stuck [] _ _ rfl
  have hreport := hexact.2 _ [] 0 rfl (by decide) (by decide) (by decide)
  obtain ⟨k, hbegun, hlooked, -⟩ := hexact.1 _ _ _ hreport (by decide)
  exact ⟨_, _, rfl, hreport, k, hbegun, hlooked⟩

theorem work_many (hs : s.monitor = wordsAt calls q s.done) (n : ℕ) :
    (List.replicate n .worker).foldl (step calls) s
      = { s with monitor := wordsAt calls q (s.done + n), done := s.done + n } := by
  induction n generalizing s with
  | zero =>
    rw [Nat.add_zero, ← hs]
    rfl
  | succ n ih =>
    have hnext : (s.work calls).monitor = wordsAt calls q (s.work calls).done :=
      (congrArg _ hs).trans (operation_wordsAt calls q s.done)
    rw [List.replicate_succ, List.foldl_cons]
    refine (ih hnext).trans ?_
    rw [show (s.work calls).done + n = s.done + (n + 1) from Nat.add_right_comm s.done 1 n]
    rfl

def wrapped : List Thread := List.replicate 5 .worker ++ List.replicate 8 .checker
  ++ List.replicate (10 * 2 ^ 63) .worker ++ List.replicate 7 .checker

/-- **The bound is needed.**  The version is back after `2 ^ 63` polls: the second look reports a
poll that began after the first. -/
theorem new_poll_reported : ∃ c p : Check, (wrapped.foldl (step fun _ => (18, 52)) {}).log = [c, p]
    ∧ c.report = some (18, 52, 1) ∧ ∀ k, 10 * k < p.looked → 10 * k + 10 ≤ c.looked := by
  rw [wrapped, List.foldl_append, List.foldl_append, work_many (q := 1) rfl]
  refine ⟨_, _, rfl, by decide +kernel, ?_⟩
  show ∀ k, 10 * k < 5 → 10 * k + 10 ≤ 5 + 10 * 2 ^ 63
  omega

/-- **A poll without a destination is never reported**, however often the monitor looks. -/
theorem no_alarm_without_destination :
    (stuck.foldl (step fun _ => (18, 0)) {}).log.map (fun c => (c.began, c.returned, c.report))
      = [(5, 5, none), (5, 5, none)] := by
  decide +kernel

end Monitor

end Rskynet
