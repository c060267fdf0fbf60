import Rskynet.Http.Changes

/-!
# What an operation leaves of an exchange

Each operation on one exchange is said once as the few shapes that it can leave; every property of
the exchanges is then a case analysis on the shapes.

* `Turns` — **PROVED** in `turns_driveRound`: one turn of the loop over the received bytes;
* `Answered` / `Closes` — **PROVED** in `driveExchange_closes`: what follows the loop;
* `driveLoop_rule` — **PROVED**: what every turn keeps, the loop keeps.
-/

namespace Rskynet.Http

variable {config : HttpClientConfig}

variable {U : Ureq} {e e' : Exchange U}

/-! ### The request side -/

def Exchange.givesUp (e : Exchange U) : Bool :=
  match e.proto with
  | some (.await100 call) => !(U.proceed100 call).isOk
  | _ => false

/-- **The request side of an exchange** keeps the protocol state, moves it on before the head of the
response, or fails while it waits for `100 Continue`. -/
inductive Requested (e : Exchange U) : Exchange U → Prop where
  | idle (waiter : Option (Pending × Bytes)) (finished : Bool) (written : ℕ)
      (hwaiter : waiter = e.writeWaiter ∨ e.proto.any Proto.isAwait100 = true) :
      Requested e
        { e with writeWaiter := waiter, requestFinished := finished, requestWritten := written }
  | moves (proto proto' : Proto U) (waiter : Option (Pending × Bytes)) (finished : Bool)
      (written : ℕ) (hproto : e.proto = some proto) (hbefore : proto.pastHead = false)
      (hbefore' : proto'.pastHead = false)
      (hwaiter : waiter = none ∨ waiter = e.writeWaiter ∧ proto.isAwait100 = false) :
      Requested e
        { e with
          proto := some proto'
          writeWaiter := waiter, requestFinished := finished, requestWritten := written }
  | fails (call : U.Await100) (reason : String) (hproto : e.proto = some (.await100 call))
      (hgives : e.givesUp = true) :
      Requested e { e with proto := none, error := some reason, writeWaiter := none }

theorem Requested.refl (e : Exchange U) : Requested e e :=
  .idle e.writeWaiter e.requestFinished e.requestWritten (.inl rfl)

theorem requested_write (e : Exchange U) (chunk : Bytes) : Requested e (e.write chunk).1 := by
  unfold Exchange.write
  split
  · exact .refl e
  · split
    · rename_i call hproto
      split
      · split
        · exact .moves _ _ e.writeWaiter e.requestFinished _ hproto rfl rfl (.inr ⟨rfl, rfl⟩)
        · exact .moves _ _ e.writeWaiter e.requestFinished e.requestWritten hproto rfl rfl (.inr ⟨rfl, rfl⟩)
      · exact .moves _ _ e.writeWaiter e.requestFinished e.requestWritten hproto rfl rfl (.inr ⟨rfl, rfl⟩)
    · exact .refl e

theorem requested_finish (e : Exchange U) : Requested e e.finish.1 := by
  unfold Exchange.finish
  split
  · exact .refl e
  · split
    · exact .refl e
    · split
      · exact .refl e
      · rename_i call hproto
        split
        · split
          · exact .moves _ _ e.writeWaiter true e.requestWritten hproto rfl rfl (.inr ⟨rfl, rfl⟩)
          · exact .moves _ _ e.writeWaiter e.requestFinished e.requestWritten hproto rfl rfl (.inr ⟨rfl, rfl⟩)
        · exact .moves _ _ e.writeWaiter e.requestFinished e.requestWritten hproto rfl rfl (.inr ⟨rfl, rfl⟩)
      · exact .refl e
      · exact .idle e.writeWaiter true e.requestWritten (.inl rfl)

theorem requested_deferWrite (e : Exchange U) (pending : Pending) (chunk : Bytes) :
    Requested e (e.deferWrite pending chunk).1 := by
  unfold Exchange.deferWrite
  split
  · rename_i hawait
    split
    · exact .refl e
    · exact .idle _ e.requestFinished e.requestWritten (.inr hawait)
  · exact .refl e

theorem stopWaiting100_cases (e : Exchange U) :
    Requested e e.stopWaiting100.1
      ∨ (e.proto.any Proto.isAwait100 = false ∧ e.stopWaiting100.1 = { e with proto := none }) := by
  unfold Exchange.stopWaiting100
  split
  · rename_i call hproto
    left
    split
    · exact .moves _ _ none e.requestFinished e.requestWritten hproto rfl rfl (.inl rfl)
    · exact .moves _ _ none e.requestFinished e.requestWritten hproto rfl rfl (.inl rfl)
    · rename_i hproceed
      refine .fails call _ hproto ?_
      simp [Exchange.givesUp, hproto, hproceed, Except.isOk, Except.toBool]
  · rename_i hother
    refine .inr ⟨?_, rfl⟩
    cases hproto : e.proto with
    | none => rfl
    | some proto =>
      cases proto with
      | await100 call => exact absurd hproto (hother call)
      | sendBody | recvResponse | recvBody | done => rfl

theorem Touch.requested (h : Touch e e') : Requested e e' := by
  cases h with
  | write chunk => exact requested_write e chunk
  | finish => exact requested_finish e
  | defer pending chunk => exact requested_deferWrite e pending chunk
  | stopWaiting hawait =>
    rcases stopWaiting100_cases e with hmoved | ⟨hother, hlost⟩
    · exact hmoved
    · cases hproto : e.proto with
      | none =>
        rw [hlost, ← hproto]
        exact .refl e
      | some proto =>
        rw [hproto] at hawait hother
        cases hawait.symm.trans hother

theorem Exchange.error_write (e : Exchange U) (chunk : Bytes) :
    (e.write chunk).1.error = e.error := by
  unfold Exchange.write
  (repeat' split) <;> rfl

theorem Exchange.error_finish (e : Exchange U) : e.finish.1.error = e.error := by
  unfold Exchange.finish
  (repeat' split) <;> rfl

theorem Exchange.error_deferWrite (e : Exchange U) (pending : Pending) (chunk : Bytes) :
    (e.deferWrite pending chunk).1.error = e.error := by
  unfold Exchange.deferWrite
  (repeat' split) <;> rfl

/-! ### One turn of the loop -/

/-- After the head, and after a piece of the body, the body goes on, or the protocol is done and
says whether the connection can be used again. -/
inductive Onward (e : Exchange U) : Exchange U → Prop where
  | body (call : U.RecvBody) : Onward e { e with proto := some (.recvBody call) }
  | finished (reusable : Bool) :
      Onward e { e with reusable := some reusable, proto := some .done, bodyEnded := true }

def Exchange.refuses (e : Exchange U) : Bool :=
  match e.proto with
  | some (.await100 call) => match U.tryRead100 call e.input with
    | .error _ => true
    | .ok (_, call) => !U.canKeepAwait100 call && !(U.proceed100 call).isOk
  | _ => false

/-- **One turn of the loop over the received bytes**: nothing to do; before the head, the protocol
waits on, refuses the request body or fails; the head is parsed, and a parked `Response` command
takes it; or a piece of the body is decoded. -/
inductive Turns (id : ℕ) (e : Exchange U) : Round U → Prop where
  | idle : Turns id e (.stop e none)
  | waits (proto proto' : Proto U) (input : Bytes) (waiter job : Option (Pending × Bytes))
      (hproto : e.proto = some proto) (hbefore : proto.pastHead = false)
      (hbefore' : proto'.pastHead = false) (hjob : job = none ∨ proto.isAwait100 = true)
      (hwaiter : waiter = none
        ∨ waiter = e.writeWaiter ∧ proto'.isAwait100 = proto.isAwait100) :
      Turns id e (.stop { e with input, proto := some proto', writeWaiter := waiter } job)
  | rejected (call : U.Await100) (call' : U.RecvResponse) (input : Bytes)
      (hproto : e.proto = some (.await100 call)) :
      Turns id e (.again
        { e with
          input, proto := some (.recvResponse call'), requestFinished := true, writeWaiter := none }
        (e.writeWaiter.toList.map fun waiting =>
          ⟨.write id, waiting.1, .failed .requestBodyRejected⟩))
  | fails (proto : Proto U) (input : Bytes) (reason : String) (hproto : e.proto = some proto)
      (hgoing : proto ≠ .done) (hrefused : proto.isAwait100 = true → e.refuses = true) :
      Turns id e (.stop { e with input, proto := none, error := some reason } none)
  | parsed (call : U.RecvResponse) (input : Bytes) (head : U.Response) (e' : Exchange U)
      (hproto : e.proto = some (.recvResponse call)) (hwaiter : e.responseWaiter = none)
      (h : Onward { e with input, response := some head } e') : Turns id e (.again e' [])
  | taken (call : U.RecvResponse) (input : Bytes) (head : U.Response) (pending : Pending)
      (e' : Exchange U) (hproto : e.proto = some (.recvResponse call))
      (hwaiter : e.responseWaiter = some pending)
      (h : Onward
        { e with input, response := none, responseTaken := true, responseWaiter := none } e') :
      Turns id e (.again e' [⟨.response id, pending, .response head⟩])
  | decoded (call : U.RecvBody) (input : Bytes) (more : List Bytes) (e' : Exchange U)
      (round : Round U) (hproto : e.proto = some (.recvBody call))
      (h : Onward { e with input, chunks := e.chunks ++ more, decoded := e.decoded ++ more } e')
      (hround : round = .stop e' none ∨ round = .again e' []) : Turns id e round

theorem onward_headParsed (e : Exchange U) (call : U.RecvResponse) (head : U.Response) :
    Onward { e with response := some head } (headParsed e call head) := by
  unfold headParsed
  split
  · exact .body _
  · exact .finished _
  · exact .finished _

theorem onward_bodyDecoded (e : Exchange U) (call : U.RecvBody) (output : Bytes) :
    ∃ more, Onward { e with chunks := e.chunks ++ more, decoded := e.decoded ++ more }
      (bodyDecoded e call output) := by
  have hgoes : ∀ (e' : Exchange U) (mustClose : Bool),
      Onward e' (if U.bodyRead call ∧ U.closeDelimited call = false then
        { e' with reusable := some !mustClose, proto := some .done, bodyEnded := true }
      else { e' with proto := some (.recvBody call) }) := by
    intro e' mustClose
    split
    · exact .finished _
    · exact .body call
  unfold bodyDecoded
  by_cases hnone : output = []
  · refine ⟨[], ?_⟩
    rw [if_pos hnone, List.append_nil, List.append_nil]
    exact hgoes e _
  · refine ⟨[output], ?_⟩
    rw [if_neg hnone]
    exact hgoes _ _

theorem turns_awaitRound (id : ℕ) {call : U.Await100} (hproto : e.proto = some (.await100 call)) :
    Turns id e (awaitRound id e call) := by
  unfold awaitRound
  split
  · rename_i hread
    exact .fails _ e.input _ hproto nofun fun _ => by simp [Exchange.refuses, hproto, hread]
  · rename_i hread
    split
    · exact .waits _ _ _ e.writeWaiter none hproto rfl rfl (.inl rfl) (.inr ⟨rfl, rfl⟩)
    · rename_i hkeep
      split
      · exact .waits _ _ _ none _ hproto rfl rfl (.inr rfl) (.inl rfl)
      · exact .rejected call _ _ hproto
      · rename_i hproceed
        refine .fails _ _ _ hproto nofun fun _ => ?_
        simp [Exchange.refuses, hproto, hread, hkeep, hproceed, Except.isOk, Except.toBool]

theorem turns_responseRound (config : HttpClientConfig) (id : ℕ) {call : U.RecvResponse}
    (hproto : e.proto = some (.recvResponse call)) :
    Turns id e (responseRound config id e call) := by
  unfold responseRound
  split
  · rename_i used head call' _
    have honward := onward_headParsed { e with input := e.input.drop used } call' head
    generalize headParsed _ call' head = e' at honward
    unfold answerResponse
    cases hwaiter : e.responseWaiter with
    | none =>
      have hnone : e'.responseWaiter = none := by cases honward <;> exact hwaiter
      rw [hnone]
      exact .parsed call _ head e' hproto hwaiter honward
    | some pending =>
      have hsome : e'.responseWaiter = some pending := by cases honward <;> exact hwaiter
      have hhead : e'.response = some head := by cases honward <;> rfl
      rw [hsome, hhead]
      refine .taken call (e.input.drop used) head pending _ hproto hwaiter ?_
      cases honward with
      | body call => exact .body call
      | finished reusable => exact .finished reusable
  · split
    · exact .fails _ e.input _ hproto nofun nofun
    · exact .waits _ _ e.input e.writeWaiter none hproto rfl rfl (.inl rfl) (.inr ⟨rfl, rfl⟩)
  · exact .fails _ e.input _ hproto nofun nofun

theorem turns_bodyRound (config : HttpClientConfig) (id : ℕ) {call : U.RecvBody}
    (hproto : e.proto = some (.recvBody call)) : Turns id e (bodyRound config e call) := by
  unfold bodyRound
  split
  · exact .idle
  · split
    · exact .fails _ e.input _ hproto nofun nofun
    · rename_i used output call' _
      obtain ⟨more, honward⟩ :=
        onward_bodyDecoded { e with input := e.input.drop used } call' output
      split
      · exact .decoded call _ more _ _ hproto honward (.inl rfl)
      · exact .decoded call _ more _ _ hproto honward (.inr rfl)

theorem turns_driveRound (config : HttpClientConfig) (id : ℕ) (e : Exchange U) :
    Turns id e (driveRound config id e) := by
  unfold driveRound
  split
  · exact .idle
  · exact turns_awaitRound id ‹_›
  · exact turns_responseRound config id ‹_›
  · exact turns_bodyRound config id ‹_›
  · exact .idle
  · exact .idle

/-! ### The loop -/

def Round.exchange : Round U → Exchange U
  | .stop e _ => e
  | .again e _ => e

def Round.replies : Round U → List (Reply U)
  | .stop _ _ => []
  | .again _ replies => replies

/-- **What every turn of the loop keeps of the exchange and the answers**, the loop keeps; by
induction on the turns, for the answers so far. -/
theorem driveLoop_rule {P : Exchange U → List (Reply U) → Prop} {id : ℕ}
    (hround : ∀ e replies round, Turns id e round → P e replies → P round.exchange (replies ++ round.replies))
    {rounds : ℕ} {d : Driven U} (h : P e []) (hd : driveLoop config id rounds e = some d) :
    P d.exchange d.replies := by
  suffices hgen : ∀ replies, P e replies → P d.exchange (replies ++ d.replies) from hgen [] h
  clear h
  induction rounds generalizing e d with
  | zero => cases hd
  | succ rounds ih =>
    intro replies h
    have hnext := hround e replies _ (turns_driveRound config id e) h
    unfold driveLoop at hd
    split at hd
    · rename_i hstop
      rw [hstop] at hnext
      cases hd
      exact hnext
    · rename_i more hagain
      rw [hagain] at hnext
      obtain ⟨d', hd', rfl⟩ := Option.map_eq_some_iff.mp hd
      have hrest := ih hd' _ hnext
      rw [List.append_assoc] at hrest
      exact hrest

theorem driveLoop_keeps {P : Exchange U → Prop} {id : ℕ}
    (hround : ∀ e round, Turns id e round → P e → P round.exchange) {rounds : ℕ} {d : Driven U}
    (h : P e) (hd : driveLoop config id rounds e = some d) : P d.exchange :=
  driveLoop_rule (P := fun e _ => P e) (fun e _ round ht he => hround e round ht he) h hd

/-! ### What follows the loop -/

inductive Answered (id : ℕ) (e : Exchange U) : Exchange U → List (Reply U) → Prop where
  | silent (h : e.bodyWaiter = none ∨ (bodyAnswer e).1 = none) : Answered id e e []
  | told (waiting : Pending) (answer : Answer U) (rest : List Bytes)
      (hwaiter : e.bodyWaiter = some waiting) (hanswer : bodyAnswer e = (some answer, rest)) :
      Answered id e { e with bodyWaiter := none, chunks := rest }
        [⟨.next id e.via, waiting, answer⟩]

theorem answered_answerNext (id : ℕ) (e : Exchange U) :
    Answered id e (answerNext id e).1 (answerNext id e).2 := by
  unfold answerNext
  split
  · exact .told _ _ _ ‹_› ‹_›
  · rename_i hother
    refine .silent ?_
    cases hwaiter : e.bodyWaiter with
    | none => exact .inl rfl
    | some waiting =>
      cases hanswer : bodyAnswer e with
      | mk answer rest =>
        cases answer with
        | none => exact .inr rfl
        | some answer => exact (hother waiting answer rest hwaiter hanswer).elim

/-- **What follows the loop**: the parked `Next` command is answered, the transport may be paused,
and a parked `Response` command hears of an error. -/
inductive Closes (id : ℕ) (d : Driven U) : Driven U → Prop where
  | quiet (e' : Exchange U) (next : List (Reply U)) (paused : Bool)
      (h : Answered id d.exchange e' next)
      (hquiet : e'.error = none ∨ e'.responseWaiter = none) :
      Closes id d ⟨{ e' with paused }, d.replies ++ next, d.job⟩
  | failed (e' : Exchange U) (next : List (Reply U)) (paused : Bool) (reason : String)
      (waiting : Pending) (h : Answered id d.exchange e' next) (herror : e'.error = some reason)
      (hwaiter : e'.responseWaiter = some waiting) :
      Closes id d
        ⟨{ e' with paused, responseWaiter := none },
          d.replies ++ next ++ [⟨.response id, waiting, .failed (.protocol reason)⟩], d.job⟩

theorem settleWaiters_closes (config : HttpClientConfig) (id : ℕ) (d : Driven U) :
    Closes id d (settleWaiters config id d).1 := by
  have hnext := answered_answerNext id d.exchange
  have hpause : ∀ e : Exchange U, ∃ paused, (pauseInput config e).1 = { e with paused } := by
    intro e
    unfold pauseInput
    split
    · exact ⟨true, rfl⟩
    · exact ⟨e.paused, rfl⟩
  unfold settleWaiters
  generalize answerNext id d.exchange = next at hnext ⊢
  obtain ⟨paused, hpaused⟩ := hpause next.1
  dsimp only
  rw [hpaused]
  unfold failResponse
  split
  · exact .failed next.1 next.2 paused _ _ hnext ‹_› ‹_›
  · rename_i hother
    rw [List.append_nil]
    refine .quiet next.1 next.2 paused hnext ?_
    cases herror : next.1.error with
    | none => exact .inl rfl
    | some reason =>
      exact .inr (Option.eq_none_iff_forall_ne_some.mpr fun waiting => hother reason waiting herror)

theorem driveExchange_closes {rounds id : ℕ} {d : Driven U} {pause : Option TransportId}
    (h : driveExchange config rounds id e = some (d, pause)) :
    ∃ d', driveLoop config id rounds e = some d' ∧ Closes id d' d := by
  obtain ⟨d', hd', hsettle⟩ := Option.map_eq_some_iff.mp h
  have hcloses := settleWaiters_closes config id d'
  rw [hsettle] at hcloses
  exact ⟨d', hd', hcloses⟩

theorem Closes.shape {id : ℕ} {d d' : Driven U} (h : Closes id d d') :
    ∃ waiter chunks paused parked, d'.exchange = { d.exchange with
      bodyWaiter := waiter, chunks := chunks, paused := paused, responseWaiter := parked } := by
  cases h with
  | quiet e' next paused h | failed e' next paused reason waiting h =>
    cases h <;> exact ⟨_, _, _, _, rfl⟩

/-! ### The reader's side -/

theorem takeResponse_shape (e : Exchange U) (pending : Pending) :
    ∃ response taken waiter, (e.takeResponse pending).1
      = { e with response := response, responseTaken := taken, responseWaiter := waiter } := by
  unfold Exchange.takeResponse
  split
  · exact ⟨_, _, _, rfl⟩
  · split
    · exact ⟨_, _, _, rfl⟩
    · split
      · exact ⟨_, _, _, rfl⟩
      · split <;> exact ⟨_, _, _, rfl⟩

theorem expire_shape (e : Exchange U) (id session : ℕ) (body : Bool) :
    ∃ waiter parked, (e.expire id session body).1
        = { e with bodyWaiter := waiter, responseWaiter := parked }
      ∧ (waiter = none ∨ waiter = e.bodyWaiter) ∧ (parked = none ∨ parked = e.responseWaiter) := by
  unfold Exchange.expire
  split
  · split
    · exact ⟨_, e.responseWaiter, rfl, .inl rfl, .inr rfl⟩
    · exact ⟨_, _, rfl, .inr rfl, .inr rfl⟩
  · split
    · exact ⟨e.bodyWaiter, _, rfl, .inr rfl, .inl rfl⟩
    · exact ⟨_, _, rfl, .inr rfl, .inr rfl⟩

theorem takeNext_shape (e : Exchange U) (pending : Pending) :
    ∃ chunks waiter, (e.takeNext pending).1 = { e with chunks := chunks, bodyWaiter := waiter } := by
  unfold Exchange.takeNext
  split
  · exact ⟨_, e.bodyWaiter, rfl⟩
  · split
    · exact ⟨_, _, rfl⟩
    · exact ⟨e.chunks, _, rfl⟩

theorem next_shape (config : HttpClientConfig) (e : Exchange U) (pending : Pending) :
    (e.next config pending).answer = (e.takeNext pending).2
    ∧ ∃ paused, if (e.takeNext pending).2.any Answer.isEnd then
        (e.next config pending).exchange
            = { (e.takeNext pending).1 with paused := paused, reusable := none }
          ∧ (e.next config pending).cleanup
            = e.reusable.map fun reusable => (e.transport, e.origin, reusable)
      else (e.next config pending).exchange = { (e.takeNext pending).1 with paused := paused }
        ∧ (e.next config pending).cleanup = none := by
  obtain ⟨chunks, waiter, htake⟩ := takeNext_shape e pending
  have hresume : ∀ (resume : Bool) (e : Exchange U), ∃ paused,
      (if resume then { e with paused := false } else e) = { e with paused := paused } := by
    intro resume e
    cases resume with
    | true => exact ⟨false, rfl⟩
    | false => exact ⟨e.paused, rfl⟩
  unfold Exchange.next
  dsimp only
  obtain ⟨paused, hpaused⟩ := hresume ((e.takeNext pending).1.paused
    && decide ((e.takeNext pending).1.buffered ≤ config.inputLowWater)) (e.takeNext pending).1
  rw [hpaused]
  split
  · refine ⟨rfl, paused, rfl, ?_⟩
    rw [htake]
  · exact ⟨rfl, paused, rfl, rfl⟩

end Rskynet.Http
