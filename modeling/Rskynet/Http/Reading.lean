import Rskynet.Http.Received

/-!
# What a reader has been told of a response

A reader asks for the head of a response and then, one at a time, for the chunks of its body. What
it has been told, what it is owed and what is still queued are together what has been received.

* `tally_drive` — **PROVED**: the loop over received bytes and the answers that follow it keep the
  tally, or tell the end of the body;
* `tally_takeResponse`, … — **PROVED**: so do the reader's commands.
-/

namespace Rskynet.Http

open Cells Relation Interleave List

variable {U : Ureq}

/-! ### What a reader sees -/

structure Received (U : Ureq) where
  response : Option U.Response
  responseTaken : Bool
  responseWaiter : Option Pending
  chunks : List Bytes
  bodyWaiter : Option Pending
  bodyEnded : Bool
  decoded : List Bytes

def Exchange.received (e : Exchange U) : Received U where
  response := e.response
  responseTaken := e.responseTaken
  responseWaiter := e.responseWaiter
  chunks := e.chunks
  bodyWaiter := e.bodyWaiter
  bodyEnded := e.bodyEnded
  decoded := e.decoded

def piece (chunk : Bytes) : Answer U := .chunk (some chunk)

def story (head : U.Response) (body : List Bytes) : List (Answer U) :=
  .response head :: (body.map piece ++ [.chunk none])

def Asked.reader : Asked → Option ℕ
  | .response id => some id
  | .next id _ => some id
  | _ => none

def answersTo (id : ℕ) (replies : List (Reply U)) : List (Answer U) :=
  (replies.filter fun r => r.asked.reader = some id ∧ r.pending.session ≠ 0).map (·.answer)

theorem answersTo_append (id : ℕ) (replies replies' : List (Reply U)) :
    answersTo id (replies ++ replies') = answersTo id replies ++ answersTo id replies' := by
  unfold answersTo
  rw [filter_append, map_append]

theorem answersTo_of_other {id : ℕ} {replies : List (Reply U)}
    (h : ∀ r ∈ replies, r.asked.reader ≠ some id) : answersTo id replies = [] := by
  unfold answersTo
  rw [map_eq_nil_iff, filter_eq_nil_iff]
  intro r hr
  simp [h r hr]

theorem answersTo_self {id : ℕ} {r : Reply U} (hreader : r.asked.reader = some id)
    (hsession : r.pending.session ≠ 0) : answersTo id [r] = [r.answer] := by
  simp [answersTo, hreader, hsession]

def NoneEnds (answers : List (Answer U)) : Prop := ∀ a ∈ answers, a.isEnd = false

namespace Received

def waiting (r : Received U) : ℕ := r.responseWaiter.toList.length + r.bodyWaiter.toList.length

/-- **What has been told is the beginning of the story**: nothing, or the head and the chunks that
are not queued any more. -/
inductive Accounts (r : Received U) (told : List (Answer U)) : Prop where
  | silent (htaken : r.responseTaken = false) (htold : told = []) (hbody : r.decoded = r.chunks)
  | begun (htaken : r.responseTaken = true) (head : U.Response) (read : List Bytes)
      (htold : told = .response head :: read.map piece) (hbody : r.decoded = read ++ r.chunks)

theorem Accounts.congr {r r' : Received U} {told : List (Answer U)} (h : r.Accounts told)
    (htaken : r'.responseTaken = r.responseTaken) (hchunks : r'.chunks = r.chunks)
    (hdecoded : r'.decoded = r.decoded) : r'.Accounts told := by
  cases h with
  | silent ht htold hbody =>
    exact .silent (htaken.trans ht) htold (by rw [hdecoded, hchunks, hbody])
  | begun ht head read htold hbody =>
    exact .begun (htaken.trans ht) head read htold (by rw [hdecoded, hchunks, hbody])

/-- The parked commands of a reader that asks one thing at a time, and what it is owed. -/
structure Waits (r : Received U) (owed : List (Answer U)) : Prop where
  response : ∀ p ∈ r.responseWaiter,
    p.session ≠ 0 ∧ r.responseTaken = false ∧ r.bodyWaiter = none ∧ owed = []
  body : ∀ p ∈ r.bodyWaiter, p.session ≠ 0 ∧ r.responseTaken = true ∧ owed = []
  single : owed.length ≤ 1
  noEnd : NoneEnds owed

/-- **The tally** of a reader that has sent `n` commands. -/
structure Tally (r : Received U) (told owed : List (Answer U)) (n : ℕ) : Prop where
  accounts : r.Accounts (told ++ owed)
  waits : r.Waits owed
  count : n = told.length + owed.length + r.waiting

structure Ended (r : Received U) (told owed : List (Answer U)) (n : ℕ) : Prop where
  ended : r.bodyEnded = true
  taken : r.responseTaken = true
  all : ∃ head, told = story head r.decoded
  none_owed : owed = []
  count : n = told.length + r.waiting

end Received

/-! ### One turn of the loop -/

/-- What one turn of the loop does for the reader: nothing, a parsed head, a head that a parked
command takes, or another piece of the body. -/
inductive Turned (id : ℕ) (r : Received U) : Received U → List (Reply U) → Prop where
  | same (replies : List (Reply U)) (h : ∀ x ∈ replies, x.asked.reader = none) :
      Turned id r r replies
  | parsed (head : U.Response) (ended : Bool) (h : r.responseWaiter = none) :
      Turned id r { r with response := some head, bodyEnded := ended } []
  | taken (head : U.Response) (ended : Bool) (pending : Pending)
      (h : r.responseWaiter = some pending) :
      Turned id r
        { r with
          response := none, responseTaken := true, responseWaiter := none, bodyEnded := ended }
        [⟨.response id, pending, .response head⟩]
  | decoded (more : List Bytes) (ended : Bool) :
      Turned id r
        { r with chunks := r.chunks ++ more, decoded := r.decoded ++ more, bodyEnded := ended } []

theorem turned_same {id : ℕ} (r : Received U) : Turned id r r [] := .same [] (by simp)

theorem Onward.received {e e' : Exchange U} (h : Onward e e') :
    ∃ ended, e'.received = { e.received with bodyEnded := ended } := by
  cases h <;> exact ⟨_, rfl⟩

/-- **One turn of the loop**, as the reader sees it. -/
theorem Turns.turned {id : ℕ} {e : Exchange U} {round : Round U} (h : Turns id e round) :
    Turned id e.received round.exchange.received round.replies := by
  cases h with
  | idle | waits | fails => exact turned_same _
  | rejected =>
    apply Turned.same
    intro x hx
    obtain ⟨waiting, -, rfl⟩ := mem_map.mp hx
    rfl
  | parsed _ _ head e' _ hwaiter h =>
    obtain ⟨ended, hended⟩ := h.received
    show Turned id e.received e'.received []
    rw [hended]
    exact .parsed head ended hwaiter
  | taken _ _ head pending e' _ hwaiter h =>
    obtain ⟨ended, hended⟩ := h.received
    show Turned id e.received e'.received _
    rw [hended]
    exact .taken head ended pending hwaiter
  | decoded _ _ more e' _ _ h hround =>
    obtain ⟨ended, hended⟩ := h.received
    have hturned : Turned id e.received e'.received [] := by
      rw [hended]
      exact .decoded more ended
    rcases hround with rfl | rfl
    · exact hturned
    · exact hturned

/-! ### The tally along the loop -/

namespace Received

theorem Tally.of_responseWaiter {r : Received U} {told owed : List (Answer U)} {n : ℕ}
    (h : r.Tally told owed n) {pending : Pending} (hw : r.responseWaiter = some pending) :
    pending.session ≠ 0 ∧ told = [] ∧ owed = [] ∧ r.decoded = r.chunks ∧ r.bodyWaiter = none
      ∧ n = 1 := by
  obtain ⟨hsession, htaken, hbody, howed⟩ := h.waits.response pending hw
  have hcount := h.count
  cases h.accounts with
  | silent _ htold hdecoded =>
    have hnil : told = [] := (append_eq_nil_iff.mp htold).1
    rw [hnil, howed, waiting, hw, hbody] at hcount
    exact ⟨hsession, hnil, howed, hdecoded, hbody, hcount⟩
  | begun htaken' => rw [htaken] at htaken'; cases htaken'

theorem Tally.turned {id : ℕ} {r r' : Received U} {replies : List (Reply U)}
    {told owed : List (Answer U)} {n : ℕ} (h : r.Tally told owed n)
    (ht : Turned id r r' replies) : r'.Tally (told ++ answersTo id replies) owed n := by
  cases ht with
  | same _ hother =>
    have hnone : answersTo id replies = [] := by
      apply answersTo_of_other
      intro x hx
      rw [hother x hx]
      nofun
    rw [hnone, append_nil]
    exact h
  | parsed head ended hw =>
    rw [show answersTo id ([] : List (Reply U)) = [] from rfl, append_nil]
    exact ⟨h.accounts.congr rfl rfl rfl,
      ⟨h.waits.response, h.waits.body, h.waits.single, h.waits.noEnd⟩, h.count⟩
  | taken head ended pending hw =>
    obtain ⟨hsession, rfl, rfl, hbody, hwaiter, rfl⟩ := h.of_responseWaiter hw
    rw [answersTo_self rfl hsession]
    refine ⟨.begun rfl head [] rfl hbody, ⟨?_, ?_, by simp, nofun⟩, ?_⟩
    · nofun
    · intro p hp
      rw [show r.bodyWaiter = some p from hp] at hwaiter
      cases hwaiter
    · simp [waiting, hwaiter]
  | decoded more ended =>
    have haccounts : ({ r with
          chunks := r.chunks ++ more, decoded := r.decoded ++ more, bodyEnded := ended } :
        Received U).Accounts (told ++ owed) := by
      cases h.accounts with
      | silent htaken htold hbody => exact .silent htaken htold (by rw [hbody])
      | begun htaken head read htold hbody =>
        exact .begun htaken head read htold (by rw [hbody, append_assoc])
    rw [show answersTo id ([] : List (Reply U)) = [] from rfl, append_nil]
    exact ⟨haccounts, ⟨h.waits.response, h.waits.body, h.waits.single, h.waits.noEnd⟩, h.count⟩

end Received

theorem tally_driveLoop {config : HttpClientConfig} {id rounds : ℕ} {e : Exchange U} {d : Driven U}
    {told owed : List (Answer U)} {n : ℕ} (h : e.received.Tally told owed n)
    (hd : driveLoop config id rounds e = some d) :
    d.exchange.received.Tally (told ++ answersTo id d.replies) owed n := by
  refine driveLoop_rule (P := fun e replies =>
    e.received.Tally (told ++ answersTo id replies) owed n) ?_ ?_ hd
  · intro e replies round ht htally
    rw [answersTo_append, ← append_assoc]
    exact htally.turned ht.turned
  · show e.received.Tally (told ++ []) owed n
    rw [append_nil]
    exact h

/-! ### The answers that follow the loop -/

namespace Received

theorem Tally.tell {r : Received U} {told : List (Answer U)} {n : ℕ} (h : r.Tally told [] n)
    (htaken : r.responseTaken = true) {chunk : Bytes} {rest : List Bytes}
    (hchunks : r.chunks = chunk :: rest) :
    ({ r with chunks := rest } : Received U).Accounts (told ++ [piece chunk]) := by
  cases h.accounts with
  | silent hfalse => rw [htaken] at hfalse; cases hfalse
  | begun _ head read htold hbody =>
    rw [append_nil] at htold
    refine .begun htaken head (read ++ [chunk]) ?_ ?_
    · rw [htold, map_append]
      rfl
    · rw [hbody, hchunks, append_assoc]
      rfl

theorem Tally.tellEnd {r : Received U} {told : List (Answer U)} {n : ℕ} (h : r.Tally told [] n)
    (htaken : r.responseTaken = true) (hchunks : r.chunks = []) :
    ∃ head, told.head? = some (.response head)
      ∧ told ++ [.chunk none] = story head r.decoded := by
  cases h.accounts with
  | silent hfalse => rw [htaken] at hfalse; cases hfalse
  | begun _ head read htold hbody =>
    rw [append_nil] at htold
    rw [hchunks, append_nil] at hbody
    refine ⟨head, by rw [htold]; rfl, ?_⟩
    rw [htold, hbody]
    rfl

theorem Tally.of_bodyWaiter {r : Received U} {told owed : List (Answer U)} {n : ℕ}
    (h : r.Tally told owed n) {pending : Pending} (hw : r.bodyWaiter = some pending) :
    pending.session ≠ 0 ∧ r.responseTaken = true ∧ owed = [] ∧ r.responseWaiter = none
      ∧ n = told.length + 1 := by
  obtain ⟨hsession, htaken, howed⟩ := h.waits.body pending hw
  have hnone : r.responseWaiter = none := by
    cases hcase : r.responseWaiter with
    | none => rfl
    | some p =>
      obtain ⟨-, hfalse, -, -⟩ := h.waits.response p hcase
      rw [htaken] at hfalse
      cases hfalse
  have hcount := h.count
  rw [howed, waiting, hnone, hw] at hcount
  exact ⟨hsession, htaken, howed, hnone, hcount⟩

end Received

theorem bodyAnswer_cases {e : Exchange U} (herror : e.error = none) :
    (∃ chunk rest, e.chunks = chunk :: rest ∧ bodyAnswer e = (some (piece chunk), rest))
    ∨ (e.chunks = [] ∧ e.bodyEnded = true ∧ bodyAnswer e = (some (.chunk none), []))
    ∨ (e.chunks = [] ∧ e.bodyEnded = false ∧ bodyAnswer e = (none, [])) := by
  unfold bodyAnswer
  cases hchunks : e.chunks with
  | cons chunk rest => exact .inl ⟨chunk, rest, rfl, rfl⟩
  | nil =>
    rw [herror]
    cases hended : e.bodyEnded with
    | true => exact .inr (.inl ⟨rfl, rfl, rfl⟩)
    | false => exact .inr (.inr ⟨rfl, rfl, rfl⟩)

theorem Answered.tally {id : ℕ} {e e' : Exchange U} {replies : List (Reply U)}
    {told owed : List (Answer U)} {n : ℕ} (ha : Answered id e e' replies) (herror : e.error = none)
    (h : e.received.Tally told owed n) :
    e'.received.Tally (told ++ answersTo id replies) owed n
      ∨ e'.received.Ended (told ++ answersTo id replies) owed n := by
  cases ha with
  | silent =>
    rw [show answersTo id ([] : List (Reply U)) = [] from rfl, append_nil]
    exact .inl h
  | told pending answer rest hw hanswer =>
    obtain ⟨hsession, htaken, rfl, hresponse, rfl⟩ := h.of_bodyWaiter hw
    have hnone : e.responseWaiter = none := hresponse
    rw [answersTo_self rfl hsession]
    obtain ⟨chunk, rest, hchunks, hsome⟩ | ⟨hchunks, hended, hsome⟩ | ⟨-, -, hsome⟩ :=
      bodyAnswer_cases herror
    · cases hanswer.symm.trans hsome
      refine .inl ⟨?_, ⟨?_, nofun, by simp, nofun⟩, ?_⟩
      · rw [append_nil]
        exact (h.tell htaken hchunks).congr rfl rfl rfl
      · intro p hp
        cases hresponse.symm.trans hp
      · simp [Received.waiting, Exchange.received, hnone]
    · cases hanswer.symm.trans hsome
      obtain ⟨head, -, hstory⟩ := h.tellEnd htaken hchunks
      refine .inr ⟨hended, htaken, ⟨head, hstory⟩, rfl, ?_⟩
      simp [Received.waiting, Exchange.received, hnone]
    · cases hanswer.symm.trans hsome

theorem Closes.error {id : ℕ} {d d' : Driven U} (h : Closes id d d') :
    d'.exchange.error = d.exchange.error := by
  obtain ⟨_, _, _, _, hshape⟩ := h.shape
  rw [hshape]

/-- What follows the loop changes nothing for the reader of an exchange without an error, apart from
the answer to a parked `Next`. -/
theorem Closes.answered {id : ℕ} {d d' : Driven U} (h : Closes id d d')
    (herror : d.exchange.error = none) :
    ∃ e' next, Answered id d.exchange e' next ∧ d'.exchange.received = e'.received
      ∧ d'.replies = d.replies ++ next := by
  have hsame := h.error
  cases h with
  | quiet e' next paused hanswered => exact ⟨e', next, hanswered, rfl, rfl⟩
  | failed e' next paused reason waiting hanswered hreason =>
    cases (hreason.symm.trans hsame).trans herror

/-- **The loop and what follows it**, for a reader whose exchange has no error afterwards. -/
theorem tally_drive {config : HttpClientConfig} {id rounds : ℕ} {e : Exchange U} {d : Driven U}
    {pause : Option TransportId} {told owed : List (Answer U)} {n : ℕ}
    (h : e.received.Tally told owed n) (hd : driveExchange config rounds id e = some (d, pause))
    (herror : d.exchange.error = none) :
    d.exchange.received.Tally (told ++ answersTo id d.replies) owed n
      ∨ d.exchange.received.Ended (told ++ answersTo id d.replies) owed n := by
  obtain ⟨d', hd', hcloses⟩ := driveExchange_closes hd
  have hnone : d'.exchange.error = none := hcloses.error.symm.trans herror
  obtain ⟨e', next, hanswered, hreceived, hreplies⟩ := hcloses.answered hnone
  rw [hreceived, hreplies, answersTo_append, ← append_assoc]
  exact hanswered.tally hnone (tally_driveLoop h hd')

/-! ### The commands of the reader -/

namespace Received

theorem waiting_eq_zero {r : Received U} (h : r.waiting = 0) :
    r.responseWaiter = none ∧ r.bodyWaiter = none := by
  unfold waiting at h
  constructor
  · cases hw : r.responseWaiter with
    | none => rfl
    | some p => simp [hw] at h
  · cases hw : r.bodyWaiter with
    | none => rfl
    | some p => simp [hw] at h

theorem tally_of_idle {r : Received U} {told owed : List (Answer U)}
    (haccounts : r.Accounts (told ++ owed)) (hidle : r.waiting = 0) (hsingle : owed.length ≤ 1)
    (hnoEnd : NoneEnds owed) : r.Tally told owed (told.length + owed.length) := by
  obtain ⟨hresponse, hbody⟩ := waiting_eq_zero hidle
  refine ⟨haccounts, ⟨?_, ?_, hsingle, hnoEnd⟩, by rw [hidle, Nat.add_zero]⟩
  · intro p hp
    cases hresponse.symm.trans hp
  · intro p hp
    cases hbody.symm.trans hp

end Received

/-- **A `Response` command** of a reader that waits for nothing and has not got the head. -/
theorem tally_takeResponse {e : Exchange U} {told : List (Answer U)} {n : ℕ} {pending : Pending}
    (h : e.received.Tally told [] n) (herror : e.error = none) (hidle : e.received.waiting = 0)
    (htaken : e.responseTaken = false) (hsession : pending.session ≠ 0) :
    (e.takeResponse pending).1.received.Tally
      (told ++ (e.takeResponse pending).2.toList) [] (n + 1) := by
  obtain ⟨hresponse, hbody⟩ := Received.waiting_eq_zero hidle
  have hcount := h.count
  cases h.accounts with
  | begun htaken' => rw [show e.received.responseTaken = false from htaken] at htaken'; cases htaken'
  | silent _ htold hdecoded =>
    rw [append_nil] at htold
    rw [htold, hidle] at hcount
    subst htold hcount
    unfold Exchange.takeResponse
    rw [htaken, herror]
    cases hhead : e.response with
    | some head =>
      refine Received.tally_of_idle (.begun rfl head [] rfl hdecoded) ?_ (by simp) nofun
      exact hidle
    | none =>
      have hwaiter : e.responseWaiter = none := hresponse
      rw [hwaiter]
      refine ⟨.silent rfl rfl hdecoded, ⟨?_, ?_, by simp, nofun⟩, ?_⟩
      · intro p hp
        cases hp
        exact ⟨hsession, rfl, hbody, rfl⟩
      · intro p hp
        cases hbody.symm.trans hp
      · have hnone : e.bodyWaiter = none := hbody
        simp [Received.waiting, Exchange.received, hnone]

/-- What a `Next` command takes, of a reader that waits for nothing and has got the head: a chunk,
the end, or nothing yet. -/
inductive NextTaken (r : Received U) (told : List (Answer U)) (r' : Received U) :
    Option (Answer U) → Prop where
  | chunk (chunk : Bytes) (rest : List Bytes) (hr : r' = { r with chunks := rest })
      (haccounts : r'.Accounts (told ++ [piece chunk])) : NextTaken r told r' (some (piece chunk))
  | ended (hended : r.bodyEnded = true) (hr : r' = r) (head : U.Response)
      (hhead : told.head? = some (.response head))
      (hstory : told ++ [.chunk none] = story head r.decoded) :
      NextTaken r told r' (some (.chunk none))
  | parked (hopen : r.bodyEnded = false) (htally : r'.Tally told [] (told.length + 1)) :
      NextTaken r told r' none

/-- **A `Next` command** of such a reader. -/
theorem nextTaken_takeNext {e : Exchange U} {told : List (Answer U)} {n : ℕ} {pending : Pending}
    (h : e.received.Tally told [] n) (herror : e.error = none) (hidle : e.received.waiting = 0)
    (htaken : e.responseTaken = true) (hsession : pending.session ≠ 0) :
    NextTaken e.received told (e.takeNext pending).1.received (e.takeNext pending).2 := by
  obtain ⟨hresponse, hbody⟩ := Received.waiting_eq_zero hidle
  unfold Exchange.takeNext
  obtain ⟨chunk, rest, hchunks, hanswer⟩ | ⟨hchunks, hended, hanswer⟩ | ⟨hchunks, hended, hanswer⟩ :=
    bodyAnswer_cases herror
  · rw [hanswer]
    exact .chunk chunk rest rfl (h.tell htaken hchunks)
  · rw [hanswer]
    obtain ⟨head, hhead, hstory⟩ := h.tellEnd htaken hchunks
    have hsame : ({ e with chunks := [] } : Exchange U).received = e.received := by rw [← hchunks]
    exact .ended hended hsame head hhead hstory
  · have hwaiter : e.bodyWaiter = none := hbody
    rw [hanswer, hwaiter]
    refine .parked hended ⟨h.accounts.congr rfl rfl rfl, ⟨?_, ?_, by simp, nofun⟩, ?_⟩
    · intro p hp
      cases hresponse.symm.trans hp
    · intro p hp
      cases hp
      exact ⟨hsession, htaken, rfl⟩
    · have hnone : e.responseWaiter = none := hresponse
      simp [Received.waiting, Exchange.received, hnone]

theorem next_reading (config : HttpClientConfig) (e : Exchange U) (pending : Pending) :
    (e.next config pending).exchange.received = (e.takeNext pending).1.received
      ∧ (e.next config pending).answer = (e.takeNext pending).2
      ∧ (e.next config pending).exchange.error = e.error
      ∧ ((e.next config pending).cleanup.isSome = true →
        (e.next config pending).answer.any Answer.isEnd = true) := by
  obtain ⟨_, _, htake⟩ := takeNext_shape e pending
  obtain ⟨hanswer, _, hnext⟩ := next_shape config e pending
  rw [hanswer, htake] at *
  split at hnext
  · rename_i hend
    rw [hnext.1]
    exact ⟨rfl, rfl, rfl, fun _ => hend⟩
  · rw [hnext.1, hnext.2]
    exact ⟨rfl, rfl, rfl, nofun⟩

end Rskynet.Http
