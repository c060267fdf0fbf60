import Rskynet.Service.Backlog

/-!
# The order of the messages of a service

A message passes through the mailbox, and if it comes before the end of the initialisation through the
backlog as well, before `Service::dispatch` is called with it.

* `callStep_lined`, `holdStep_lined`, `RunMoved.lined` — **PROVED**: an operation on the mailbox and a step
  of `run_service` keep the messages in line.
-/

namespace Rskynet.Service

open Rskynet.Task (TaskId)
open List Option

variable {m : Message}

/-! ### What becomes of messages -/

def Message.toDispatch (m : Message) : Bool := !m.toSession

/-- What has happened to the messages of a service so far. -/
structure Log where
  pushed : List Message
  given : List Message
  delivered : List Message

def Log.empty : Log := ⟨[], [], []⟩

def Log.push (log : Log) : Delivery → Log
  | .queuePush m => { log with pushed := log.pushed ++ [m] }
  | _ => log

/-- The message that a step has handled went to a session, or to `Service::dispatch` if the step leads
there. -/
def Log.handle (log : Log) (dispatches : Bool) : Option Message → Log
  | none => log
  | some m =>
      if m.toSession then { log with delivered := log.delivered ++ [m] }
      else if dispatches then { log with given := log.given ++ [m] }
      else log

def RunPoint.handled? : RunPoint → Option Message
  | .work (.handle m) => some m
  | _ => none

def RunPoint.dispatches : RunPoint → Bool
  | .work (.dispatching _) => true
  | _ => false

def popped? : Held → Option Message
  | .clearStreak m => some m
  | .lenSub m => some m
  | .loadThreshold m _ => some m
  | .storeOverload m _ _ => some m
  | .storeThreshold m _ => some m
  | .took (.message m) => some m
  | _ => none

/-! ### The line -/

/-- The messages that wait, in the order in which they are handled.  Before the end of the initialisation
a message in the hands of the holder goes behind the backlog, and afterwards it came from its front. -/
def line (k : Core) (handled popped : Option Message) (queue : List Message) : List Message :=
  (if k.lifecycle = .running then handled.toList ++ k.pending.getD []
    else k.pending.getD [] ++ handled.toList) ++ (popped.toList ++ queue)

/-- The line continues what has become of the messages so far. -/
structure Lined (k : Core) (handled popped : Option Message) (queue : List Message) (log : Log) :
    Prop where
  given : log.given ++ (line k handled popped queue).filter Message.toDispatch
    = log.pushed.filter Message.toDispatch
  delivered : log.delivered ++ (line k handled popped queue).filter Message.toSession
    = log.pushed.filter Message.toSession
  pending : ∀ m ∈ k.pending.getD [], m.toSession = false

variable {k k' : Core} {handled popped : Option Message} {queue : List Message} {log : Log}

theorem line_none (k : Core) (popped : Option Message) (queue : List Message) :
    line k none popped queue = k.pending.getD [] ++ (popped.toList ++ queue) := by
  unfold line
  split
  · rfl
  · rw [toList_none, append_nil]

theorem filter_toSession_pending (h : ∀ m ∈ k.pending.getD [], m.toSession = false) :
    (k.pending.getD []).filter Message.toSession = [] := by
  rw [filter_eq_nil_iff]
  intro m hm
  rw [h m hm]
  exact Bool.false_ne_true

namespace Lined

theorem start : Lined Core.start none none [] Log.empty := by
  refine ⟨rfl, rfl, ?_⟩
  intro m hm
  cases hm

theorem congr (h : Lined k handled popped queue log) {handled' popped' : Option Message}
    {queue' : List Message} (hline : line k' handled' popped' queue' = line k handled popped queue)
    (hpending : ∀ m ∈ k'.pending.getD [], m ∈ k.pending.getD []) :
    Lined k' handled' popped' queue' log := by
  refine ⟨?_, ?_, fun m hm => h.pending m (hpending m hm)⟩
  · rw [hline]
    exact h.given
  · rw [hline]
    exact h.delivered

theorem same (h : Lined k handled popped queue log) (hlife : k'.lifecycle = k.lifecycle)
    (hpending : k'.pending = k.pending) : Lined k' handled popped queue log := by
  apply h.congr
  · rw [line, line, hlife, hpending]
  · rw [hpending]
    exact fun _ hm => hm

theorem relabel (h : Lined k none popped queue log) (hpending : k'.pending.getD [] = k.pending.getD []) :
    Lined k' none popped queue log := by
  apply h.congr
  · rw [line_none, line_none, hpending]
  · rw [hpending]
    exact fun _ hm => hm

/-- **A push** goes to the end of the line. -/
theorem push (h : Lined k handled popped queue log) (m : Message) :
    Lined k handled popped (queue ++ [m]) { log with pushed := log.pushed ++ [m] } := by
  have hline : line k handled popped (queue ++ [m]) = line k handled popped queue ++ [m] := by
    simp only [line, append_assoc]
  refine ⟨?_, ?_, h.pending⟩
  · rw [hline, filter_append, filter_append, ← append_assoc, h.given]
  · rw [hline, filter_append, filter_append, ← append_assoc, h.delivered]

theorem deliver (h : Lined k (some m) none queue log) (hm : m.toSession = true) :
    Lined k none none queue { log with delivered := log.delivered ++ [m] } := by
  have hskip : (line k (some m) none queue).filter Message.toDispatch
      = (line k none none queue).filter Message.toDispatch := by
    have hno : ¬ m.toDispatch = true := by simp [Message.toDispatch, hm]
    rw [line_none, line]
    split
    · rw [toList_some, singleton_append, cons_append, filter_cons_of_neg hno]
    · simp only [toList_some, filter_append, filter_cons_of_neg hno, filter_nil,
        append_nil]
  have hfront : (line k (some m) none queue).filter Message.toSession
      = m :: (line k none none queue).filter Message.toSession := by
    rw [line_none, line]
    split
    · rw [toList_some, singleton_append, cons_append, filter_cons_of_pos hm]
    · simp only [toList_some, filter_append, filter_cons_of_pos hm, filter_nil,
        filter_toSession_pending h.pending, nil_append, singleton_append]
  refine ⟨?_, ?_, h.pending⟩
  · rw [← hskip]
    exact h.given
  · have hdelivered := h.delivered
    rw [hfront] at hdelivered
    rw [← hdelivered, append_assoc, singleton_append]

theorem give (h : Lined k (some m) none queue log) (hm : m.toSession = false)
    (hrun : k.lifecycle = .running) :
    Lined k none none queue { log with given := log.given ++ [m] } := by
  have hfront : line k (some m) none queue = m :: line k none none queue := by
    rw [line, line, if_pos hrun, if_pos hrun]
    rfl
  refine ⟨?_, ?_, h.pending⟩
  · have hgiven := h.given
    rw [hfront, filter_cons_of_pos (by simp [Message.toDispatch, hm])] at hgiven
    rw [← hgiven, append_assoc, singleton_append]
  · have hdelivered := h.delivered
    rw [hfront, filter_cons_of_neg (by simp [hm])] at hdelivered
    exact hdelivered

theorem postpone {backlog : List Message} (h : Lined k (some m) none queue log)
    (hm : m.toSession = false) (hrun : k.lifecycle ≠ .running) (hpending : k.pending = some backlog) :
    Lined { k with pending := some (backlog ++ [m]) } none none queue log := by
  have hline : line { k with pending := some (backlog ++ [m]) } none none queue
      = line k (some m) none queue := by
    rw [line_none, line, if_neg hrun, hpending]
    rfl
  refine ⟨?_, ?_, ?_⟩
  · rw [hline]
    exact h.given
  · rw [hline]
    exact h.delivered
  · refine forall_mem_append.mpr ⟨fun m' hold => ?_, forall_mem_singleton.mpr hm⟩
    exact h.pending m' (by rw [hpending]; exact hold)

/-- **`handle_message`** takes its message off the front of the line, or to the end of the backlog. -/
theorem handle {key : ℕ} {outcome : Outcome} {w : WorkPoint} {task : Option TaskId}
    (h : Lined k (some m) none queue log)
    (hs : workStep k key outcome (.handle m) = some (k', w, task)) (hsafe : ∀ m', w ≠ .panicked m') :
    Lined k' (RunPoint.work w).handled? none queue
      (log.handle (RunPoint.work w).dispatches (some m)) := by
  cases workStep_moved hs with
  | reply _ hm =>
    rw [Log.handle, if_pos hm]
    exact h.deliver hm
  | lost => exact absurd rfl (hsafe m)
  | postpone _ backlog hm hrun hpending =>
    rw [Log.handle, if_neg (by rw [hm]; exact Bool.false_ne_true)]
    exact h.postpone hm hrun hpending
  | dispatch _ hm hrun =>
    rw [Log.handle, if_neg (by rw [hm]; exact Bool.false_ne_true)]
    exact h.give hm hrun

end Lined

/-! ### What the line says -/

/-- The messages of a service are first in, first out: they are dispatched in the order in which they entered the
mailbox, and every reply that has left the mailbox, but for at most one in the hands of the holder, has
been handed to its session, in the same order. -/
structure Fifo (k : Core) (queue : List Message) (log : Log) : Prop where
  given : log.given <+: log.pushed.filter Message.toDispatch
  delivered : ∃ inHand : List Message, inHand.length ≤ 1 ∧
    log.delivered ++ inHand ++ queue.filter Message.toSession = log.pushed.filter Message.toSession
  pending : ∀ m ∈ k.pending.getD [], m.toSession = false

theorem Lined.fifo (h : Lined k handled popped queue log) (hone : handled = none ∨ popped = none) :
    Fifo k queue log := by
  refine ⟨⟨_, h.given⟩, ⟨(handled.toList ++ popped.toList).filter Message.toSession, ?_, ?_⟩, h.pending⟩
  · refine (length_filter_le _ _).trans ?_
    rcases hone with rfl | rfl
    · cases popped <;> simp
    · cases handled <;> simp
  · rw [← h.delivered, append_assoc, line]
    congr 1
    have hnil := filter_toSession_pending h.pending
    split
    · simp only [filter_append, hnil, nil_append, append_assoc]
    · simp only [filter_append, hnil, nil_append, append_assoc]

/-! ### The holder -/

section Holder

variable {b b' : Box} {e e' : ℕ} {hold hold' : Held} {key : ℕ}
  {outcome : Outcome} {yields : Bool} {task : Option TaskId}

theorem callStep_lined {p p' : Delivery} (hs : Mq.callStep b e p = some (b', e', p'))
    (h : Lined k handled popped b.queue log) : Lined k handled popped b'.queue (log.push p) := by
  cases p with
  | queuePush m =>
    cases hs
    exact h.push m
  | idle => cases hs
  | casIdle | casRunning =>
    simp only [Mq.callStep] at hs
    split at hs
    · cases hs
      exact h
    · cases hs
      exact h
  | _ =>
    cases hs
    exact h

/-- An operation of `take_work` leaves the messages in line: it pops at most the first one of the queue,
into empty hands. -/
theorem holdStep_popped (hs : Mq.holdStep b e hold = some (b', e', hold')) (hdrain : draining hold = false) :
    (popped? hold').toList ++ b'.queue = (popped? hold).toList ++ b.queue := by
  cases hold with
  | drainReady | drainQueue | drainLen => cases hdrain
  | _ =>
    simp only [Mq.holdStep] at hs
    first
      | (obtain ⟨rfl, -, rfl⟩ := hs; rfl)
      | ((repeat' split at hs) <;> obtain ⟨rfl, -, rfl⟩ := hs <;> first | rfl | simp_all [popped?])

theorem holdStep_lined (hs : Mq.holdStep b e hold = some (b', e', hold')) (hdrain : draining hold = false)
    (h : Lined k handled (popped? hold) b.queue log) : Lined k handled (popped? hold') b'.queue log := by
  apply h.congr
  · rw [line, line, holdStep_popped hs hdrain]
  · exact fun _ hm => hm

theorem workStep_pending {w w' : WorkPoint} (hs : workStep k key outcome w = some (k', w', task))
    (hw : (RunPoint.work w).handled? = none) :
    k'.pending = k.pending ∧ (RunPoint.work w').handled? = none := by
  cases workStep_moved hs with
  | reply | lost | postpone | dispatch => cases hw
  | _ => exact ⟨rfl, rfl⟩

/-- **A step of `run_service`** keeps the relation to the log.  The backlog is replayed from the front, and
the mailbox of a running service is only looked into when the backlog is gone. -/
theorem RunMoved.lined {p p' : RunPoint} (h : RunMoved k hold key outcome yields p k' hold' p' task)
    (hsync : Synced hold (.run p)) (hreplay : p = .takePending → k.lifecycle = .running)
    (htaking : p = .take → hold.holds = true → k.lifecycle = .running → k.pending = none)
    (hsafe : ∀ m, p' ≠ .work (.panicked m)) (hl : Lined k p.handled? (popped? hold) queue log) :
    Lined k' p'.handled? (popped? hold') queue (log.handle p'.dispatches p.handled?) := by
  cases h with
  | pending m rest hpending =>
    obtain rfl : hold = .holding := hsync
    apply hl.congr
    · rw [line, line, if_pos (hreplay rfl), if_pos (hreplay rfl), hpending]
      rfl
    · rw [hpending]
      exact fun _ hm => mem_cons_of_mem _ hm
  | unpend hnil hholding =>
    obtain rfl : hold = .holding := hholding
    exact hl.relabel hnil.symm
  | took work htook =>
    subst htook
    cases work with
    | ready id => exact hl
    | message m =>
      apply hl.congr ?_ fun _ hm => hm
      -- a message from the mailbox meets an empty backlog once the service runs
      by_cases hrun : k.lifecycle = .running
      · rw [line, line, if_pos hrun, if_pos hrun, htaking rfl rfl hrun]
        rfl
      · rw [line, line, if_neg hrun, if_neg hrun, append_assoc, append_assoc]
        rfl
  | work w w' k' task hw =>
    obtain rfl : hold = .holding := hsync
    have hsafe' : ∀ m, w' ≠ .panicked m := fun m heq => hsafe m (congrArg _ heq)
    rcases hhand : (RunPoint.work w).handled? with _ | m
    · obtain ⟨hpending, hnone⟩ := workStep_pending hw hhand
      rw [hhand] at hl
      rw [hnone]
      exact hl.relabel (by rw [hpending])
    · obtain rfl : w = .handle m := by
        cases w <;> first | exact congrArg _ (some.inj hhand) | cases hhand
      exact hl.handle hw hsafe'
  | take hlife hholding =>
    subst hholding
    exact hl
  | _ => exact hl

end Holder

end Rskynet.Service
