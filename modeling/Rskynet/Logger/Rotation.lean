import Rskynet.Lib.Threads

/-!
# Log files that rotate daily

The logger writes its lines to a file whose name has the time of its creation, and opens a new one when the
local date is not the date it keeps with the open file. A request to reopen opens the same file again.

* `lines_by_date` — **PROVED**: as long as no file is reopened on another date than that of its name, every
  line is in a file of its date.
-/

namespace Rskynet.Logger

open Interleave

/-! ### Files -/

structure Timestamp where
  date : ℕ
  second : ℕ
  deriving DecidableEq

/-- The name that `log_path` makes of the configured path, a creation time and a number. -/
structure LogPath where
  base : String
  timestamp : Timestamp
  sequence : ℕ
  deriving DecidableEq

structure LogFile where
  path : LogPath
  date : ℕ
  len : ℕ
  deriving DecidableEq

/-- One reading of the clocks, and what the file system does then: the first number without a file, whether
a file can be opened and how long it is, whether a line can be written, and the text of an error. -/
structure Moment where
  now : Timestamp
  elapsed : ℕ := 0
  free : ℕ := 1
  opens : Bool := true
  len : ℕ := 0
  writes : Bool := true
  error : String := ""

def openFile (path : LogPath) (m : Moment) : Option LogFile :=
  if m.opens then some ⟨path, m.now.date, m.len⟩ else none

structure RotationConfig where
  rotateDaily : Bool := true
  maxFileSize : ℕ := 100 * 1024 * 1024

def saturatingAdd (a b : ℕ) : ℕ := min (a + b) (2 ^ 64 - 1)

def shouldRotate (file : LogFile) (now nextLineLen : ℕ) (config : RotationConfig) : Bool :=
  (config.rotateDaily && file.date != now)
    || (config.maxFileSize != 0 && file.len != 0
      && decide (config.maxFileSize < saturatingAdd file.len nextLineLen))

/-! ### The service -/

structure Written where
  path : LogPath
  line : String
  date : ℕ

structure State where
  path : String
  file : Option LogFile
  rotation : RotationConfig
  maxQueue : ℕ
  dropped : ℕ
  written : List Written

namespace State

def openNew (s : State) (base : String) (m : Moment) : Option State :=
  (openFile ⟨base, m.now, m.free⟩ m).map fun file => { s with file := some file }

def reopen (s : State) (base : String) (m : Moment) : Option State :=
  match s.file with
  | none => s.openNew base m
  | some file => (openFile file.path m).map fun file => { s with file := some file }

def rotateIfNeeded (s : State) (m : Moment) (nextLineLen : ℕ) : Option State :=
  if s.file.any (shouldRotate · m.now.date nextLineLen s.rotation) then s.openNew s.path m else some s

def writeUnrotated (s : State) (m : Moment) (line : String) : State :=
  match s.file with
  | none => s
  | some file =>
    if m.writes then
      { s with
        file := some { file with len := saturatingAdd file.len (line.utf8ByteSize + 1) }
        written := s.written ++ [⟨file.path, line, m.now.date⟩] }
    else s

/-- The line of a text: milliseconds of the node, the handle of the sender, and the text. -/
def line (m : Moment) (source : ℕ) (text : String) : String :=
  "[" ++ (toString (m.elapsed / 1000)).leftpad 6 ++ "."
    ++ (toString (m.elapsed % 1000)).leftpad 3 '0' ++ "] [:"
    ++ (String.ofList (Nat.toDigits 16 source)).leftpad 8 '0' ++ "] " ++ text

/-- `write`; the logger itself has the handle `self`. -/
def write (s : State) (self source : ℕ) (text : String) (m : Moment) : State :=
  let next := line m source text
  match s.rotateIfNeeded m (next.utf8ByteSize + 1) with
  | some s => s.writeUnrotated m next
  | none => (s.writeUnrotated m (line m self ("日志文件滚动失败：" ++ m.error))).writeUnrotated m next

end State

/-- A message to the logger: a text with the number of messages behind it, and the moments of the notice
about dropped texts and of the text itself; or a request to reopen, with the moment of its failure. -/
inductive Request where
  | text (queued source : ℕ) (text : String) (notice now : Moment)
  | system (now failed : Moment)
  | other

def dispatch (self : ℕ) : Request → State → Option State
  | .text queued source text notice now, s =>
    if s.maxQueue ≠ 0 ∧ s.maxQueue ≤ queued then
      some { s with dropped := saturatingAdd s.dropped 1 }
    else
      let told := if s.dropped ≠ 0 then
        { s with dropped := 0 }.write self self s!"日志队列积压，已丢弃 {s.dropped} 条较旧日志" notice
      else s
      some (told.write self source text now)
  | .system now failed, s =>
    if s.path = "" then some s
    else match s.reopen s.path now with
      | some s => some s
      | none => some (s.write self self ("重开日志文件失败：" ++ now.error) failed)
  | .other, s => some s

/-- `init`, with a configured path or without one. -/
def init (path : String) (rotation : RotationConfig) (maxQueue : ℕ) (m : Moment) : Option State :=
  let s : State := ⟨"", none, rotation, maxQueue, 0, []⟩
  if path = "" then some s else (s.openNew path m).map fun s => { s with path := path }

/-! ### Lines and dates -/

/-- Every file operation of the request succeeds. -/
def Request.Succeeds : Request → Prop
  | .text _ _ _ notice now => notice.opens = true ∧ now.opens = true
  | .system now _ => now.opens = true
  | .other => True

/-- **A file is reopened only on the date of its name.** -/
def Timely (s : State) : Request → Prop
  | .system now _ => ∀ file ∈ s.file, file.path.timestamp.date = now.now.date
  | _ => True

/-- The open file is kept with the date of its name, and every line is in a file of its date. -/
structure Dated (s : State) : Prop where
  daily : s.rotation.rotateDaily = true
  file : ∀ file ∈ s.file, file.date = file.path.timestamp.date
  written : ∀ w ∈ s.written, w.path.timestamp.date = w.date

variable {s s' : State} {m : Moment}

theorem Dated.openNew {base : String} (h : Dated s) (hopen : s.openNew base m = some s') :
    Dated s' ∧ ∀ file ∈ s'.file, file.date = m.now.date := by
  unfold State.openNew openFile at hopen
  split at hopen
  · cases hopen
    refine ⟨⟨h.daily, ?_, h.written⟩, ?_⟩
    · rintro file ⟨⟩
      rfl
    · rintro file ⟨⟩
      rfl
  · cases hopen

theorem Dated.rotateIfNeeded (h : Dated s) (hopens : m.opens = true) (len : ℕ) :
    ∃ s', s.rotateIfNeeded m len = some s' ∧ Dated s' ∧ ∀ file ∈ s'.file, file.date = m.now.date := by
  unfold State.rotateIfNeeded
  split
  · have hopen : s.openNew s.path m
        = some { s with file := some ⟨⟨s.path, m.now, m.free⟩, m.now.date, m.len⟩ } := by
      rw [State.openNew, openFile, if_pos hopens]
      rfl
    exact ⟨_, hopen, h.openNew hopen⟩
  · rename_i hstays
    refine ⟨s, rfl, h, fun file hfile => ?_⟩
    rw [show s.file = some file from hfile] at hstays
    simp only [Option.any_some, shouldRotate, h.daily, Bool.true_and, Bool.or_eq_true, not_or] at hstays
    simpa using hstays.1

theorem Dated.writeUnrotated {line : String} (h : Dated s)
    (htoday : ∀ file ∈ s.file, file.date = m.now.date) : Dated (s.writeUnrotated m line) := by
  unfold State.writeUnrotated
  split
  · exact h
  · rename_i file hfile
    split
    · refine ⟨h.daily, ?_, ?_⟩
      · rintro _ ⟨⟩
        exact h.file file hfile
      · refine List.forall_mem_append.mpr ⟨h.written, List.forall_mem_singleton.mpr ?_⟩
        exact (h.file file hfile).symm.trans (htoday file hfile)
    · exact h

theorem Dated.write {self source : ℕ} {text : String} (h : Dated s) (hopens : m.opens = true) :
    Dated (s.write self source text m) := by
  unfold State.write
  dsimp only
  obtain ⟨s', hrotated, hdated, htoday⟩ :=
    h.rotateIfNeeded hopens ((State.line m source text).utf8ByteSize + 1)
  rw [hrotated]
  exact hdated.writeUnrotated htoday

theorem Dated.dispatch {self : ℕ} {r : Request} (h : Dated s) (hr : r.Succeeds) (htimely : Timely s r)
    (hstep : dispatch self r s = some s') : Dated s' := by
  unfold Logger.dispatch at hstep
  cases r with
  | other =>
    cases hstep
    exact h
  | text queued source text notice now =>
    dsimp only at hstep
    split at hstep
    · cases hstep
      exact ⟨h.daily, h.file, h.written⟩
    · cases hstep
      refine Dated.write ?_ hr.2
      split
      · exact Dated.write ⟨h.daily, h.file, h.written⟩ hr.1
      · exact h
  | system now failed =>
    dsimp only at hstep
    split at hstep
    · cases hstep
      exact h
    · split at hstep
      · rename_i hreopened
        cases hstep
        unfold State.reopen at hreopened
        split at hreopened
        · exact (h.openNew hreopened).1
        · rename_i file hfile
          rw [openFile, if_pos (show now.opens = true from hr)] at hreopened
          cases hreopened
          refine ⟨h.daily, ?_, h.written⟩
          rintro _ ⟨⟩
          exact (htimely file hfile).symm
      · rename_i hfailed
        unfold State.reopen State.openNew at hfailed
        split at hfailed <;> simp [openFile, show now.opens = true from hr] at hfailed

/-- **Daily rotation.**  In every run of a logger that rotates daily, all of whose file operations succeed
and which reopens a file only on the date of its name, every line that is written on a date is in a file
whose name has a creation time of that date. -/
theorem lines_by_date (self : ℕ) (path : String) (rotation : RotationConfig)
    (hdaily : rotation.rotateDaily = true) (maxQueue : ℕ) (m : Moment) (requests : List Request)
    (s₀ s : State) (hinit : init path rotation maxQueue m = some s₀)
    (hsucceeds : ∀ r ∈ requests, r.Succeeds) (htimely : along (dispatch self) Timely requests s₀)
    (hrun : exec (dispatch self) requests s₀ = some s) :
    ∀ w ∈ s.written, w.path.timestamp.date = w.date := by
  have hstart : Dated s₀ := by
    have hempty : Dated ⟨"", none, rotation, maxQueue, 0, []⟩ := ⟨hdaily, nofun, nofun⟩
    unfold init at hinit
    dsimp only at hinit
    split at hinit
    · cases hinit
      exact hempty
    · obtain ⟨s₁, hopen, rfl⟩ := Option.map_eq_some_iff.mp hinit
      have hdated := (hempty.openNew hopen).1
      exact ⟨hdated.daily, hdated.file, hdated.written⟩
  suffices hend : Dated s from hend.written
  clear hinit
  induction requests generalizing s₀ with
  | nil =>
    cases hrun
    exact hstart
  | cons r requests ih =>
    obtain ⟨s₁, hstep, hrest⟩ := Option.bind_eq_some_iff.mp hrun
    exact ih s₁ (fun r hr => hsucceeds r (List.mem_cons_of_mem _ hr)) (htimely.2 s₁ hstep) hrest
      (hstart.dispatch (hsucceeds r List.mem_cons_self) htimely.1 hstep)

def day (date : ℕ) : Moment := { now := ⟨date, 0⟩ }

def said (date : ℕ) : Request := .text 0 1 "x" (day date) (day date)

def hangup (date : ℕ) : Request := .system (day date) (day date)

def State.dates (s : State) : List (ℕ × ℕ) := s.written.map fun w => (w.date, w.path.timestamp.date)

theorem lines_of_two_days : ∃ s₀ s, init "run.log" {} 0 (day 1) = some s₀
    ∧ exec (dispatch 9) [hangup 1, said 1, said 2] s₀ = some s
    ∧ s.dates = [(1, 1), (2, 2)] ∧ ∀ w ∈ s.written, w.path.timestamp.date = w.date := by
  have hend : (exec (dispatch 9) [hangup 1, said 1, said 2]
      ⟨"run.log", some ⟨⟨"run.log", ⟨1, 0⟩, 1⟩, 1, 0⟩, {}, 0, 0, []⟩).map State.dates
      = some [(1, 1), (2, 2)] := by
    decide +kernel
  obtain ⟨s, hrun, hdates⟩ := Option.map_eq_some_iff.mp hend
  refine ⟨_, s, rfl, hrun, hdates, lines_by_date 9 "run.log" {} rfl 0 (day 1) _ _ s rfl ?_ ?_ hrun⟩
  · intro r hr
    simp only [List.mem_cons, List.not_mem_nil, or_false] at hr
    rcases hr with rfl | rfl | rfl
    · exact rfl
    · exact ⟨rfl, rfl⟩
    · exact ⟨rfl, rfl⟩
  · refine ⟨?_, fun _ _ => ⟨trivial, fun _ _ => ⟨trivial, fun _ _ => trivial⟩⟩⟩
    rintro file ⟨⟩
    rfl

/-- **A reopen after midnight** opens the file of the day before, and the lines of the new day go there. -/
theorem reopen_keeps_old_file :
    ((init "run.log" {} 0 (day 1)).bind (exec (dispatch 9) [said 1, hangup 2, said 2])).map State.dates
      = some [(1, 1), (2, 1)] := by
  decide +kernel

end Rskynet.Logger
