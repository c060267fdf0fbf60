import Rskynet.Http.Unmoved

/-!
# The desk of a reader
-/

namespace Rskynet.Http

open Cells Relation Interleave List Option

variable {U : Ureq}
variable {other : ℕ}

/-! ### The desk of a reader -/

/-- A `Next` command of the reader of `id` that waits for a resume: who asked, the answer it is
owed, and whether the exchange goes with it. -/
def Task.reader (id : ℕ) : Task U → Option (Pending × Option (Answer U) × Bool)
  | .resuming i _ pending answer cleanup =>
    if i = id then some (pending, answer, cleanup.isSome) else none
  | _ => none

/-- What concerns the reader of one exchange: the exchange, what the reader has heard, oldest first,
and its commands that wait for a resume. -/
structure Desk (U : Ureq) where
  exchange : Option (Exchange U)
  heard : List (Answer U)
  readers : List (Pending × Option (Answer U) × Bool)

def View.desk (v : View U) (id : ℕ) : Desk U where
  exchange := v.exchanges id
  heard := answersTo id v.replies.reverse
  readers := v.tasks.filterMap (Task.reader id)

namespace Desk

def owed (d : Desk U) : List (Answer U) := d.readers.filterMap fun x => x.2.1

def outstanding (d : Desk U) : ℕ :=
  d.owed.length + (d.exchange.map fun e => e.received.waiting).getD 0

/-- The suspended commands have callers, and take the exchange with them only at the end of its
body. -/
def Tended (d : Desk U) : Prop :=
  ∀ x ∈ d.readers, x.1.session ≠ 0 ∧ (x.2.2 = true → x.2.1.any Answer.isEnd = true)

end Desk

/-! ### Frames -/

section Frames

variable {id : ℕ}

variable (v : View U) (asked : Asked) (e : Exchange U) (pending : Pending)
  (answer : Option (Answer U))

theorem desk_reply (r : Reply U) :
    (v.reply r).desk id = { v.desk id with heard := (v.desk id).heard ++ answersTo id [r] } := by
  unfold View.reply
  split
  · rename_i hsession
    have hnone : answersTo id [r] = [] := by simp [answersTo, hsession]
    rw [hnone, append_nil]
  · unfold View.desk
    rw [reverse_cons, answersTo_append]

theorem desk_reply_other {r : Reply U} (h : r.asked.reader ≠ some id) :
    (v.reply r).desk id = v.desk id := by
  have hnone : answersTo id [r] = [] := by
    apply answersTo_of_other
    intro x hx
    rw [mem_singleton.mp hx]
    exact h
  rw [desk_reply, hnone, append_nil]

theorem desk_replyTo_other (waiting : Option Pending)
    (answer : Answer U) (h : asked.reader ≠ some id) :
    (v.replyTo asked waiting answer).desk id = v.desk id := by
  cases waiting with
  | none => rfl
  | some pending => exact desk_reply_other v h

theorem desk_replyWith_other (h : asked.reader ≠ some id) :
    (v.replyWith asked pending answer).desk id = v.desk id := by
  cases answer with
  | none => rfl
  | some answer => exact desk_reply_other v h

theorem desk_replyWith_self {pending : Pending}
    (h : asked.reader = some id) (hsession : pending.session ≠ 0) :
    (v.replyWith asked pending answer).desk id
      = { v.desk id with heard := (v.desk id).heard ++ answer.toList } := by
  cases answer with
  | none =>
    rw [toList_none, append_nil]
    rfl
  | some answer =>
    show (v.reply ⟨asked, pending, answer⟩).desk id = _
    rw [desk_reply, answersTo_self h hsession]
    rfl

theorem desk_replyAll (replies : List (Reply U)) :
    (replies.foldl View.reply v).desk id
      = { v.desk id with heard := (v.desk id).heard ++ answersTo id replies } := by
  induction replies generalizing v with
  | nil =>
    rw [show answersTo id ([] : List (Reply U)) = [] from rfl, append_nil]
    rfl
  | cons r replies ih =>
    rw [foldl_cons, ih, desk_reply]
    rw [append_assoc, ← answersTo_append]
    rfl

theorem desk_set_self (e : Option (Exchange U)) :
    (v.set id e).desk id = { v.desk id with exchange := e } := by
  unfold View.desk View.set
  dsimp only
  rw [Function.update_self]

theorem desk_set_other (e : Option (Exchange U)) (h : other ≠ id) :
    (v.set other e).desk id = v.desk id := by
  unfold View.desk View.set
  dsimp only
  rw [Function.update_of_ne (Ne.symm h)]

theorem desk_suspend (task : Task U) :
    (v.suspend task).desk id
      = { v.desk id with readers := (v.desk id).readers ++ (task.reader id).toList } := by
  unfold View.desk View.suspend
  rw [filterMap_append]
  congr 2

theorem reader_of_not_resuming {task : Task U} (h : task.isResuming = false) :
    task.reader id = none := by
  cases task with
  | resuming => cases h
  | connecting | sendingHead | writing | finishing | pausing => rfl

theorem desk_canceled_other (h : other ≠ id) :
    (v.canceled other e).desk id = v.desk id := by
  have hsome : (some other : Option ℕ) ≠ some id := fun heq => h (some.inj heq)
  unfold View.canceled
  rw [desk_replyTo_other _ (.write other) _ _ nofun, desk_replyTo_other _ (.next other _) _ _ hsome,
    desk_replyTo_other _ (.response other) _ _ hsome, desk_set_other _ _ h]

theorem desk_canceled_idle {e : Exchange U} (hresponse : e.responseWaiter = none)
    (hbody : e.bodyWaiter = none) :
    (v.canceled id e).desk id = { v.desk id with exchange := none } := by
  unfold View.canceled
  rw [desk_replyTo_other _ (.write id) _ _ nofun, hresponse, hbody]
  exact desk_set_self v none

theorem desk_cancel_other (h : other ≠ id) :
    (v.cancel other).desk id = v.desk id := by
  unfold View.cancel
  split
  · rfl
  · exact desk_canceled_other v _ h

theorem desk_nextTaken_other (via : Option (TransportId × Origin)) (pending : Pending)
    (answer : Option (Answer U)) (cleanup : Option (TransportId × Origin × Bool)) (h : other ≠ id) :
    (v.nextTaken other via pending answer cleanup).desk id = v.desk id := by
  have hreply : (v.replyWith (.next other via) pending answer).desk id = v.desk id :=
    desk_replyWith_other v _ pending answer fun heq => h (some.inj heq)
  unfold View.nextTaken
  split
  · rw [desk_set_other _ _ h, hreply]
  · exact hreply

theorem desk_nextTaken_self (via : Option (TransportId × Origin)) {pending : Pending}
    (answer : Option (Answer U)) (cleanup : Option (TransportId × Origin × Bool))
    (hsession : pending.session ≠ 0) :
    (v.nextTaken id via pending answer cleanup).desk id
      = { v.desk id with
          exchange := if cleanup.isSome then none else (v.desk id).exchange
          heard := (v.desk id).heard ++ answer.toList } := by
  have hreply : (v.replyWith (.next id via) pending answer).desk id
      = { v.desk id with heard := (v.desk id).heard ++ answer.toList } :=
    desk_replyWith_self v _ answer rfl hsession
  unfold View.nextTaken
  cases hcleanup : cleanup.isSome with
  | true =>
    rw [if_pos rfl, if_pos rfl, desk_set_self, hreply]
  | false =>
    rw [if_neg nofun, if_neg nofun, hreply]

theorem eraseIdx_split {α : Type} {l : List α} {i : ℕ} {x : α} (h : l[i]? = some x) :
    ∃ before after, l = before ++ x :: after ∧ l.eraseIdx i = before ++ after := by
  obtain ⟨hi, hx⟩ := List.getElem?_eq_some_iff.mp h
  refine ⟨l.take i, l.drop (i + 1), ?_, ?_⟩
  · rw [← hx, List.cons_getElem_drop_succ, List.take_append_drop]
  · rw [List.eraseIdx_eq_take_drop_succ]

theorem readers_eraseIdx (id : ℕ) {tasks : List (Task U)} {i : ℕ} {task : Task U}
    (h : tasks[i]? = some task) :
    ∃ before after, tasks.filterMap (Task.reader id)
        = before ++ (task.reader id).toList ++ after
      ∧ (tasks.eraseIdx i).filterMap (Task.reader id) = before ++ after := by
  obtain ⟨before, after, hsplit, herase⟩ := eraseIdx_split h
  refine ⟨before.filterMap (Task.reader id), after.filterMap (Task.reader id), ?_, ?_⟩
  · rw [hsplit, filterMap_append, append_assoc]
    congr 1
    cases hr : task.reader id <;> simp [hr]
  · rw [herase, filterMap_append]

theorem desk_insert_self :
    (v.insert id e).desk id = { v.desk id with exchange := some e } := by
  unfold View.desk View.insert
  dsimp only
  rw [Function.update_self]

theorem desk_insert_other (h : other ≠ id) :
    (v.insert other e).desk id = v.desk id := by
  unfold View.desk View.insert
  dsimp only
  rw [Function.update_of_ne (Ne.symm h)]

theorem desk_waitResponse_other (h : other ≠ id) :
    (v.waitResponse other pending).desk id = v.desk id := by
  have hsome : (some other : Option ℕ) ≠ some id := fun heq => h (some.inj heq)
  unfold View.waitResponse
  split
  · exact desk_reply_other v hsome
  · rw [desk_replyWith_other _ (.response other) _ _ hsome, desk_set_other _ _ h]

theorem desk_nextBody_other (h : other ≠ id) :
    (v.nextBody other pending).desk id = v.desk id := by
  unfold View.nextBody
  split
  · exact desk_reply_other v fun heq => h (some.inj heq)
  · dsimp only
    split
    · rw [desk_suspend, desk_set_other _ _ h, Task.reader, if_neg h]
      simp
    · rw [desk_nextTaken_other _ _ _ _ _ h, desk_set_other _ _ h]

theorem desk_begun (id : ℕ) {c : Client U} {action : Action U} (h : action.reads c = false) :
    (begun c action).desk id = c.view.desk id := by
  cases action with
  | wake i completion =>
    unfold View.desk begun
    dsimp only
    congr 1
    cases htask : c.tasks[i]? with
    | none => rw [eraseIdx_of_length_le (getElem?_eq_none_iff.mp htask)]; rfl
    | some task =>
      obtain ⟨before, after, hall, herase⟩ := readers_eraseIdx id htask
      rw [herase, show c.view.tasks = c.tasks from rfl, hall,
        reader_of_not_resuming (by simpa [Action.reads, htask] using h)]
      simp
  | command | data | closed | giveUp => rfl

theorem reader_expire {e e' : Exchange U} {session : ℕ} {body : Bool} {asked : Asked}
    {pending : Pending} (h : e.expire id session body = (e', some (asked, pending))) :
    asked.reader = some id := by
  unfold Exchange.expire at h
  split at h
  · split at h
    · cases hw : e.bodyWaiter with
      | none => rw [hw] at h; cases h
      | some p => rw [hw] at h; cases h; rfl
    · cases h
  · split at h
    · cases hw : e.responseWaiter with
      | none => rw [hw] at h; cases h
      | some p => rw [hw] at h; cases h; rfl
    · cases h

theorem Change.readers {k : Causes U} {v v' : View U} (h : Change k v v') :
    (v'.desk id).readers = (v.desk id).readers := by
  have hsame : ∀ v v' : View U, v'.tasks = v.tasks →
      (v'.desk id).readers = (v.desk id).readers := by
    intro v v' htasks
    unfold View.desk
    rw [htasks]
  cases h with
  | answered r hr => exact hsame _ _ (tasks_reply v r)
  | suspended task ht =>
    rw [desk_suspend, reader_of_not_resuming ht]
    simp
  | inserted | touched | lost => rfl
  | canceled id e he hd => exact hsame _ _ (tasks_canceled v id e)
  | driven id rounds e e₁ d pause he hfed hd hk => exact hsame _ _ (tasks_replyAll _ _)
  | expired id e e' asked pending session body error he hx hd => exact hsame _ _ (tasks_reply _ _)

theorem heard_reply (r : Reply U) : (v.desk id).heard <+: ((v.reply r).desk id).heard := by
  rw [desk_reply]
  exact prefix_append _ _

theorem heard_replyTo (waiting : Option Pending) (answer : Answer U) :
    (v.desk id).heard <+: ((v.replyTo asked waiting answer).desk id).heard := by
  cases waiting with
  | none => exact prefix_refl _
  | some pending => exact heard_reply v _

theorem Change.heard {k : Causes U} {v v' : View U} (h : Change k v v') :
    (v.desk id).heard <+: (v'.desk id).heard := by
  cases h with
  | answered r hr => exact heard_reply v r
  | suspended | inserted | touched | lost => exact prefix_refl _
  | canceled other e he hd =>
    have hset : (v.desk id).heard <+: ((v.set other none).desk id).heard := prefix_refl _
    apply hset.trans
    apply (heard_replyTo _ _ e.responseWaiter (.failed .canceled)).trans
    apply (heard_replyTo _ _ e.bodyWaiter (.failed .canceled)).trans
    exact heard_replyTo _ _ _ _
  | driven other rounds e e₁ d pause he hfed hd hk =>
    rw [desk_replyAll]
    exact prefix_append _ _
  | expired other e e' asked pending session body error he hx hd =>
    have hset : (v.desk id).heard <+: ((v.set other (some e')).desk id).heard := prefix_refl _
    exact hset.trans (heard_reply _ _)

theorem Change.heard_of_starts {c : Client U} {turn : Turn U} {v v' : View U}
    (h : Change (causes c turn) v v') (hstarts : turn.action.starts c = true) :
    (v'.desk id).heard = (v.desk id).heard := by
  obtain ⟨action, rounds⟩ := turn
  have hcancels : ∀ other, ¬ Cancels c other action := by
    intro other hcancel
    cases action with
    | command pending command =>
      cases command with
      | start | resumeStart => exact hcancel
      | write | finish | response | next | cancel | cancelStart | confirmStart | continueTimeout
      | waitTimeout | idleTimeout => cases hstarts
    | wake i completion =>
      cases completion with
      | connected result => exact hcancel
      | finished result =>
        obtain ⟨task, htask, hfails⟩ := hcancel
        cases task with
        | connecting => exact hfails
        | sendingHead | writing | finishing | resuming | pausing =>
          simp [Action.starts, htask, Task.isConnecting] at hstarts
    | data | closed | giveUp => cases hstarts
  cases h with
  | answered r hr =>
    rw [desk_reply_other v]
    intro heq
    cases hasked : r.asked <;> simp [hasked, Asked.isSide, Asked.reader] at hr heq
  | suspended | inserted | touched | lost => rfl
  | canceled other e he hd | expired other e e' asked pending session body error he hx hd =>
    exact absurd hd (hcancels other)
  | driven other rounds e e₁ d pause he hfed hd hk =>
    obtain ⟨e₂, pause', hfedBy, -⟩ := hk
    cases action with
    | command pending command =>
      cases command with
      | start | resumeStart => cases hfedBy
      | write | finish | response | next | cancel | cancelStart | confirmStart | continueTimeout
      | waitTimeout | idleTimeout => cases hstarts
    | wake i completion => cases hfedBy
    | data | closed | giveUp => cases hstarts

end Frames

end Rskynet.Http
