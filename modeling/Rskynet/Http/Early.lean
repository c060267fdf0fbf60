import Rskynet.Http.Leases
import Rskynet.Http.Unmoved

/-!
# Responses that come before the request is finished

A server may answer while the client still sends the body of its request. The bytes are kept, and
the loop over them goes on when the next bytes come.

* `early_response_kept_iff` — **PROVED**: bytes and the finish of the request may come in either order
  exactly as long as the bytes do not decide the response.
-/

namespace Rskynet.Http

open Cells Relation Interleave Option Bool

variable {U : Ureq} {e e' : Exchange U}
variable {d : Driven U}
variable {id rounds : ℕ} {config : HttpClientConfig} {pause : Option TransportId}
  {bytes : Bytes}

/-! ### Before the head -/

/-- **Before the head of the response** nothing has come of it. -/
def Exchange.Unread (e : Exchange U) : Prop :=
  e.proto.any (fun proto => !proto.pastHead) = true →
    e.response = none ∧ e.responseTaken = false ∧ e.error = none

theorem unread_of_past (h : e.proto.any (fun proto => !proto.pastHead) = false) : e.Unread := by
  intro hbefore
  rw [h] at hbefore
  cases hbefore

theorem Exchange.Unread.moves (h : e.Unread) {proto : Proto U} (hproto : e.proto = some proto)
    (hbefore : proto.pastHead = false) (hresponse : e'.response = e.response)
    (htaken : e'.responseTaken = e.responseTaken) (herror : e'.error = e.error) : e'.Unread := by
  intro _
  have hthis := h (by rw [hproto, any_some, hbefore]; rfl)
  rw [hresponse, htaken, herror]
  exact hthis

theorem Exchange.Unread.stays (h : e.Unread) (hproto : e'.proto = e.proto)
    (hresponse : e'.response = e.response) (htaken : e'.responseTaken = e.responseTaken)
    (herror : e'.error = e.error) : e'.Unread := by
  unfold Exchange.Unread
  rw [hproto, hresponse, htaken, herror]
  exact h

theorem Requested.unread (hr : Requested e e') (h : e.Unread) : e'.Unread := by
  cases hr with
  | idle => exact h.stays rfl rfl rfl rfl
  | moves _ _ _ _ _ hproto hbefore => exact h.moves hproto hbefore rfl rfl rfl
  | fails => exact unread_of_past rfl

theorem Fed.unread (hf : Fed e e') (h : e.Unread) : e'.Unread := by
  cases hf with
  | same => exact h
  | data bytes => exact h.stays rfl rfl rfl rfl
  | close hclose => exact unread_of_past rfl

theorem Onward.past (h : Onward e e') : e'.proto.any (fun proto => !proto.pastHead) = false := by
  cases h <;> rfl

/-- **One turn of the loop.** -/
theorem Turns.unread {round : Round U} (ht : Turns id e round) (h : e.Unread) :
    round.exchange.Unread := by
  cases ht with
  | idle => exact h
  | waits _ _ _ _ _ hproto hbefore => exact h.moves hproto hbefore rfl rfl rfl
  | rejected _ _ _ hproto => exact h.moves hproto rfl rfl rfl rfl
  | fails => exact unread_of_past rfl
  | parsed _ _ _ _ _ _ ho | taken _ _ _ _ _ _ _ ho => exact unread_of_past ho.past
  | decoded _ _ _ _ _ _ ho hround =>
    rcases hround with rfl | rfl
    · exact unread_of_past ho.past
    · exact unread_of_past ho.past

theorem unread_driveExchange (h : e.Unread)
    (hd : driveExchange config rounds id e = some (d, pause)) : d.exchange.Unread := by
  obtain ⟨d', hd', hcloses⟩ := driveExchange_closes hd
  have hloop := driveLoop_keeps (fun _ _ ht he => ht.unread he) h hd'
  obtain ⟨_, _, _, _, hshape⟩ := hcloses.shape
  rw [hshape]
  exact hloop.stays rfl rfl rfl rfl

/-! ### Every exchange -/

theorem unread_takeResponse (h : e.Unread) (pending : Pending) :
    (e.takeResponse pending).1.Unread := by
  unfold Exchange.takeResponse
  split
  · exact h
  · split
    · exact h
    · split
      · rename_i htaken _ head hresponse
        intro hbefore
        obtain ⟨hnone, -⟩ := h hbefore
        rw [hresponse] at hnone
        cases hnone
      · split
        · exact h
        · exact h.stays rfl rfl rfl rfl

theorem unread_next (config : HttpClientConfig) (h : e.Unread) (pending : Pending) :
    (e.next config pending).exchange.Unread := by
  obtain ⟨_, _, htake⟩ := takeNext_shape e pending
  obtain ⟨-, _, hnext⟩ := next_shape config e pending
  rw [htake] at hnext
  split at hnext
  · rw [hnext.1]
    exact h.stays rfl rfl rfl rfl
  · rw [hnext.1]
    exact h.stays rfl rfl rfl rfl

/-- **Every exchange of every run has nothing of its response before the head.** -/
theorem unread_exec {run : List (Turn U)} {s : Service U}
    (h : exec act run (initial config) = some s) : s.world.data.view.Every Exchange.Unread := by
  have hrun : Reachable (fun s s' => ∃ turn, act turn s = some s') (initial config) s :=
    Reachable.of_run h
  apply hrun.invariant
  · intro id e he
    cases he
  · rintro a b ha ⟨turn, hact⟩
    refine every_act hact ?_ ?_ ?_ ?_ ?_ ?_ ?_ ha
    · intro transport origin proto spec _ _
      exact ⟨rfl, rfl, rfl⟩
    · intro _ e e' ht _ he
      exact ht.requested.unread he
    · intro id e _ _ _
      exact unread_of_past rfl
    · intro config rounds id e e₁ d pause hfed hd _ he
      exact unread_driveExchange (hfed.unread he) hd
    · intro e pending he
      exact unread_takeResponse he pending
    · intro e id session body he
      obtain ⟨_, _, hshape, -⟩ := expire_shape e id session body
      rw [hshape]
      exact he.stays rfl rfl rfl rfl
    · intro config e pending he
      exact unread_next config he pending

/-! ### Two orders -/

/-- What the application can see of a response: the head, or that it has been handed over, whether a
`Response` command still waits for it, the chunks and the end of the body, and an error. -/
structure Seen (U : Ureq) where
  response : Option U.Response
  taken : Bool
  waiting : Option Pending
  chunks : List Bytes
  ended : Bool
  error : Option String

def Exchange.seen (e : Exchange U) : Seen U :=
  ⟨e.response, e.responseTaken, e.responseWaiter, e.chunks, e.bodyEnded, e.error⟩

/-- **The bytes so far decide the response** of an exchange once its request is finished: a head can
be parsed, or the parser refuses them, or they are too many for a head. -/
def Exchange.decided (config : HttpClientConfig) (e : Exchange U) (bytes : Bytes) : Bool :=
  match e.finish.1.proto with
  | some (.recvResponse call) => match U.tryResponse call (e.input ++ bytes) with
    | .ok (_, none, _) => config.maxHeaderSize < (e.input ++ bytes).length
    | _ => true
  | _ => false

theorem finish_shape (e : Exchange U) :
    ∃ proto finished, e.finish.1 = { e with proto := proto, requestFinished := finished } := by
  unfold Exchange.finish
  split
  · exact ⟨e.proto, e.requestFinished, rfl⟩
  · split
    · exact ⟨e.proto, e.requestFinished, rfl⟩
    · split
      · exact ⟨e.proto, e.requestFinished, rfl⟩
      · split
        · split
          · exact ⟨_, _, rfl⟩
          · exact ⟨_, e.requestFinished, rfl⟩
        · exact ⟨_, e.requestFinished, rfl⟩
      · exact ⟨e.proto, e.requestFinished, rfl⟩
      · exact ⟨e.proto, _, rfl⟩

theorem finish_sending {call : U.SendBody} (hproto : e.proto = some (.sendBody call)) :
    (∃ call, e.finish.1.proto = some (.sendBody call))
      ∨ ∃ call, e.finish.1.proto = some (.recvResponse call) := by
  unfold Exchange.finish
  split
  · exact .inl ⟨call, hproto⟩
  · split
    · exact .inl ⟨call, hproto⟩
    · rw [hproto]
      dsimp only
      split
      · split
        · exact .inr ⟨_, rfl⟩
        · exact .inl ⟨_, rfl⟩
      · exact .inl ⟨_, rfl⟩

theorem seen_finish (e : Exchange U) : e.finish.1.seen = e.seen := by
  obtain ⟨proto, finished, hshape⟩ := finish_shape e
  rw [hshape]
  rfl

theorem seen_settle (config : HttpClientConfig) (id : ℕ) (e : Exchange U)
    (proto : Option (Proto U)) (finished : Bool) (job : Option (Pending × Bytes)) :
    (settleWaiters config id
      ⟨{ e with proto := proto, requestFinished := finished }, [], job⟩).1.exchange.seen
      = (settleWaiters config id ⟨e, [], none⟩).1.exchange.seen := by
  have hnext : (answerNext id { e with proto := proto, requestFinished := finished }).1
      = { (answerNext id e).1 with proto := proto, requestFinished := finished } := by
    have hanswer : bodyAnswer { e with proto := proto, requestFinished := finished }
        = bodyAnswer e := rfl
    unfold answerNext
    rw [hanswer]
    split
    · rename_i waiting answer rest hwaiter hbody
      rw [hwaiter, hbody]
    · rfl
  have hpause : ∀ e : Exchange U,
      (pauseInput config { e with proto := proto, requestFinished := finished }).1
        = { (pauseInput config e).1 with proto := proto, requestFinished := finished } := by
    intro e
    unfold pauseInput Exchange.buffered
    split
    · rfl
    · rfl
  have hfail : ∀ e : Exchange U,
      (failResponse id { e with proto := proto, requestFinished := finished }).1.seen
        = (failResponse id e).1.seen := by
    intro e
    unfold failResponse
    split
    · rename_i reason waiting herror hwaiter
      rw [herror, hwaiter]
      rfl
    · rfl
  show (failResponse id (pauseInput config (answerNext id
    { e with proto := proto, requestFinished := finished }).1).1).1.seen = _
  rw [hnext, hpause, hfail]
  rfl

theorem driveExchange_stop {job : Option (Pending × Bytes)}
    (hround : driveRound config id e = .stop e' job)
    (hd : driveExchange config rounds id e = some (d, pause)) :
    d = (settleWaiters config id ⟨e', [], job⟩).1 := by
  obtain ⟨d', hd', hsettle⟩ := map_eq_some_iff.mp hd
  cases rounds with
  | zero => cases hd'
  | succ rounds =>
    unfold driveLoop at hd'
    rw [hround] at hd'
    cases hd'
    rw [hsettle]

def Exchange.headed (e : Exchange U) : Prop := e.response.isSome = true ∨ e.responseTaken = true

theorem Onward.headed (h : Onward e e') (he : e.headed) : e'.headed := by
  cases h <;> exact he

theorem Turns.headed {round : Round U} (ht : Turns id e round) (h : e.headed) :
    round.exchange.headed := by
  cases ht with
  | idle | waits | rejected | fails => exact h
  | parsed _ _ _ _ _ _ ho => exact ho.headed (.inl rfl)
  | taken _ _ _ _ _ _ _ ho => exact ho.headed (.inr rfl)
  | decoded _ _ _ _ _ _ ho hround =>
    rcases hround with rfl | rfl
    · exact ho.headed h
    · exact ho.headed h

theorem Turns.heads {replies : List (Reply U)} {call : U.RecvResponse}
    (ht : Turns id e (.again e' replies)) (hproto : e.proto = some (.recvResponse call)) :
    e'.headed := by
  cases ht with
  | rejected _ _ _ hother | decoded _ _ _ _ _ hother => cases hproto.symm.trans hother
  | parsed _ _ _ _ _ _ ho => exact ho.headed (.inl rfl)
  | taken _ _ _ _ _ _ _ ho => exact ho.headed (.inr rfl)

theorem seen_bytesFirst {call : U.SendBody} (hproto : e.proto = some (.sendBody call))
    (hd : driveExchange config rounds id { e with input := e.input ++ bytes } = some (d, pause)) :
    d.exchange.finish.1.seen
      = (settleWaiters config id ⟨{ e with input := e.input ++ bytes }, [], none⟩).1.exchange.seen := by
  have hround : driveRound config id { e with input := e.input ++ bytes }
      = .stop { e with input := e.input ++ bytes } none := by
    unfold driveRound
    rw [hproto]
  rw [seen_finish, driveExchange_stop hround hd]

/-- **Bytes that do not decide the response** may come before or after the finish. -/
theorem seen_of_undecided {call : U.SendBody} (hproto : e.proto = some (.sendBody call))
    (h : e.decided config bytes = false)
    (hd : driveExchange config rounds id { e.finish.1 with input := e.finish.1.input ++ bytes } = some (d, pause)) :
    d.exchange.seen
      = (settleWaiters config id ⟨{ e with input := e.input ++ bytes }, [], none⟩).1.exchange.seen := by
  have hkinds := finish_sending hproto
  unfold Exchange.decided at h
  obtain ⟨proto, finished, hshape⟩ := finish_shape e
  rw [hshape] at h hd hkinds
  have hstops : ∃ proto', driveRound config id
      { e with proto := proto, requestFinished := finished, input := e.input ++ bytes }
      = .stop { e with proto := proto', requestFinished := finished, input := e.input ++ bytes }
        none := by
    rcases hkinds with ⟨call', rfl⟩ | ⟨call', rfl⟩
    · exact ⟨some (.sendBody call'), rfl⟩
    · dsimp only at h
      unfold driveRound responseRound
      dsimp only
      split
      · rename_i heq
        rw [heq] at h
        cases h
      · rename_i used call'' heq
        rw [heq] at h
        rw [if_neg (of_decide_eq_false h)]
        exact ⟨_, rfl⟩
      · rename_i reason heq
        rw [heq] at h
        cases h
  obtain ⟨proto', hround⟩ := hstops
  rw [driveExchange_stop hround hd]
  exact seen_settle config id { e with input := e.input ++ bytes } proto' finished none

/-- **Bytes that decide the response** are heard of when they come after the finish. -/
theorem headed_of_decided (h : e.decided config bytes = true)
    (hd : driveExchange config rounds id { e.finish.1 with input := e.finish.1.input ++ bytes } = some (d, pause)) :
    d.exchange.headed ∨ d.exchange.error.isSome = true := by
  unfold Exchange.decided at h
  obtain ⟨proto, finished, hshape⟩ := finish_shape e
  rw [hshape] at h hd
  dsimp only at h hd
  obtain ⟨d', hd', hcloses⟩ := driveExchange_closes hd
  obtain ⟨_, _, _, _, hclosed⟩ := hcloses.shape
  rw [hclosed]
  split at h
  · rename_i call
    cases rounds with
    | zero => cases hd'
    | succ rounds =>
      have hturn := turns_responseRound (e := { e with
        proto := some (.recvResponse call), requestFinished := finished, input := e.input ++ bytes })
        config id rfl
      unfold driveLoop driveRound at hd'
      unfold responseRound at hturn hd'
      dsimp only at hturn hd'
      cases hparse : U.tryResponse call (e.input ++ bytes) with
      | error reason =>
        rw [hparse] at hd'
        cases hd'
        exact .inr rfl
      | ok parsed =>
        obtain ⟨used, head, call'⟩ := parsed
        rw [hparse] at h hd' hturn
        cases head with
        | none =>
          dsimp only at h hd'
          rw [if_pos (of_decide_eq_true h)] at hd'
          cases hd'
          exact .inr rfl
        | some head =>
          -- the turn has parsed the head, and the rest of the loop keeps it
          obtain ⟨d'', hd'', rfl⟩ := map_eq_some_iff.mp hd'
          have hheaded : d''.exchange.headed :=
            driveLoop_keeps (fun _ _ ht he => ht.headed he) (hturn.heads rfl) hd''
          exact .inl hheaded
  · cases h

/-! ### The handlers -/

theorem Turns.job {round : Round U} (ht : Turns id e round)
    (h : e.proto.any Proto.isAwait100 = false) :
    (∃ e', round = .stop e' none)
      ∨ ∃ e' replies, round = .again e' replies ∧ e'.proto.any Proto.isAwait100 = false := by
  have honward : ∀ {e e' : Exchange U}, Onward e e' → e'.proto.any Proto.isAwait100 = false := by
    intro e e' ho
    cases ho <;> rfl
  cases ht with
  | idle | fails => exact .inl ⟨_, rfl⟩
  | waits proto _ _ _ _ hproto _ _ hjob =>
    rcases hjob with rfl | hawait
    · exact .inl ⟨_, rfl⟩
    · rw [hproto, any_some, hawait] at h
      cases h
  | rejected _ _ _ hproto =>
    rw [hproto] at h
    cases h
  | parsed _ _ _ _ _ _ ho | taken _ _ _ _ _ _ _ ho => exact .inr ⟨_, _, rfl, honward ho⟩
  | decoded _ _ _ _ _ _ ho hround =>
    rcases hround with rfl | rfl
    · exact .inl ⟨_, rfl⟩
    · exact .inr ⟨_, _, rfl, honward ho⟩

theorem driveExchange_job (h : e.proto.any Proto.isAwait100 = false)
    (hd : driveExchange config rounds id e = some (d, pause)) : d.job = none := by
  obtain ⟨d', hd', hsettle⟩ := map_eq_some_iff.mp hd
  have hjob : d'.job = none := by
    clear hsettle hd
    induction rounds generalizing e d' with
    | zero => cases hd'
    | succ rounds ih =>
      unfold driveLoop at hd'
      rcases (turns_driveRound config id e).job h with ⟨e', hround⟩ | ⟨e', replies, hround, hnext⟩
      · rw [hround] at hd'
        cases hd'
        rfl
      · rw [hround] at hd'
        obtain ⟨d'', hd'', rfl⟩ := map_eq_some_iff.mp hd'
        have hrest : d''.job = none := ih hnext d'' hd''
        exact hrest
  cases hsettle
  exact hjob

def Client.cells (c : Client U) : State U × HttpClientConfig := (c.state, c.config)

theorem still_cells_reply (asked : Asked) (pending : Pending) (answer : Answer U) :
    Still Client.cells (reply asked pending answer) := by
  apply still_change
  intro c
  unfold Client.reply
  split
  · rfl
  · rfl

theorem still_cells_replyAll (replies : List (Reply U)) :
    Still Client.cells (replyAll replies) := by
  apply still_change
  intro c
  induction replies generalizing c with
  | nil => rfl
  | cons r replies ih =>
    rw [List.foldl_cons, ih]
    unfold Client.reply
    split
    · rfl
    · rfl

theorem still_cells_pauseTransport (id : ℕ) (pause : Option TransportId) :
    Still Client.cells (pauseTransport id pause : Handler U Unit) := by
  cases pause with
  | none => exact still_pure ()
  | some transport =>
    have hsuspend : Still Client.cells (suspend (.pausing id) : Handler U Unit) :=
      still_change fun _ => rfl
    exact hsuspend

theorem still_cells_sendWait (transport : TransportId) (data : Bytes) (task : Task U) :
    Still Client.cells (sendWait transport data task) := by
  have hwrite : Still Client.cells (change fun c : Client U =>
      { c with written := (transport, data) :: c.written } : Handler U Unit) :=
    still_change fun _ => rfl
  exact hwrite.bind fun _ => still_change fun _ => rfl

theorem onData_exchange {transport : TransportId} {w w' : World Cell (Client U)} {a : Unit}
    (hactive : w.data.state.active transport = some id) (he : w.data.state.exchanges id = some e)
    (hproto : e.proto.any Proto.isAwait100 = false)
    (h : onData rounds transport bytes w = .ok (a, w')) :
    ∃ d pause, driveExchange w.data.config rounds id { e with input := e.input ++ bytes }
      = some (d, pause) ∧ w'.data.state.exchanges id = some d.exchange := by
  obtain ⟨_, w₁, hid, h⟩ := bind_eq_ok h
  obtain ⟨rfl, hsame⟩ := within_eq_ok hid
  simp only [Client.onState, hactive] at h
  obtain ⟨_, w₂, hfeed, h⟩ := bind_eq_ok h
  obtain ⟨-, hfed⟩ := within_eq_ok hfeed
  have hstate : w₂.data.state
      = w.data.state.setExchange id (some { e with input := e.input ++ bytes }) := by
    rw [hfed, hsame]
    simp only [Client.onState, Client.setState, he]
  have hconfig : w₂.data.config = w.data.config := by
    rw [hfed, hsame]
    rfl
  have he₂ : w₂.data.state.exchanges id = some { e with input := e.input ++ bytes } := by
    rw [hstate]
    exact Function.update_self _ _ _
  obtain ⟨driven, w₃, hguard, h⟩ := bind_eq_ok h
  obtain ⟨w₄, hblock, hdata⟩ := guarded_eq_ok hguard
  obtain ⟨found, w₅, hlook, hblock⟩ := bind_eq_ok hblock
  cases hlook
  simp only [he₂] at hblock
  obtain ⟨config, w₆, hread, hblock⟩ := bind_eq_ok hblock
  obtain ⟨rfl, hsame₆⟩ := within_eq_ok hread
  rw [hconfig] at hblock
  cases hdrive : driveExchange w.data.config rounds id { e with input := e.input ++ bytes } with
  | none =>
    simp only [hdrive] at hblock
    cases hblock
  | some out =>
    obtain ⟨d, pause⟩ := out
    simp only [hdrive] at hblock
    cases hblock
    refine ⟨d, pause, rfl, ?_⟩
    have hjob : d.job = none :=
      driveExchange_job (e := { e with input := e.input ++ bytes }) hproto hdrive
    simp only [hjob] at h
    have hrest := (still_cells_replyAll d.replies).bind fun _ => still_cells_pauseTransport id pause
    have hcells := hrest w₃ a w' h
    rw [show w'.data.state = w₃.data.state from congrArg Prod.fst hcells, hdata]
    exact Function.update_self _ _ _

theorem finishRequest_exchange {pending : Pending} {w w' : World Cell (Client U)} {a : Unit}
    (he : w.data.state.exchanges id = some e) (h : finishRequest id pending w = .ok (a, w')) :
    w'.data.state = w.data.state.setExchange id (some e.finish.1)
      ∧ w'.data.config = w.data.config := by
  obtain ⟨encoded, w₁, hfinish, h⟩ := bind_eq_ok h
  obtain ⟨rfl, hdata⟩ := within_eq_ok hfinish
  simp only [Client.onState, he] at h hdata
  have hstill : w'.data.cells = w₁.data.cells := by
    cases hencoded : e.finish.2 with
    | ok out =>
      simp only [hencoded] at h
      exact still_cells_sendWait _ _ _ w₁ a w' h
    | error answer =>
      simp only [hencoded] at h
      exact still_cells_reply _ _ _ w₁ a w' h
  rw [hdata] at hstill
  exact ⟨congrArg Prod.fst hstill, congrArg Prod.snd hstill⟩

/-! ### Both orders -/

theorem free_exec {run : List (Turn U)} {s : Service U} (h : exec act run (initial config) = some s) :
    s.world.held = free := by
  have hrun : Reachable (fun s s' => ∃ turn, act turn s = some s') (initial config) s :=
    Reachable.of_run h
  apply hrun.invariant
  · rfl
  · rintro a b ha ⟨turn, hact⟩
    exact (act_panics_iff ha hact).2

/-- A step without a hazard runs its handler to its first await. -/
theorem act_runs {turn : Turn U} {s s' : Service U} (hfree : s.world.held = free)
    (hhazard : hazard s.world.data turn.action = false) (h : act turn s = some s') :
    s'.world.held = free ∧ ∃ m, handler turn.rounds s.world.data turn.action = some m
      ∧ m s.world = .ok ((), s'.world) := by
  obtain ⟨hcalm, hfree'⟩ := act_panics_iff hfree h
  exact ⟨hfree', act_calm h (hcalm.mpr hhazard)⟩

/-- **Early responses.**  In every state that a run reaches, for every exchange that is sending the
body of its request: bytes and the finish of the request leave the same of the response in either
order exactly if the bytes so far do not decide the response. -/
theorem early_response_kept_iff (config : HttpClientConfig) (run : List (Turn U)) (s s₁ s₂ : Service U)
    (hrun : exec act run (initial config) = some s) (id : ℕ) (transport : TransportId)
    (e : Exchange U) (call : U.SendBody) (hactive : s.world.data.state.active transport = some id)
    (he : s.world.data.state.exchanges id = some e) (hproto : e.proto = some (.sendBody call))
    (bytes : Bytes) (pending : Pending) (rounds rounds' : ℕ)
    (h₁ : exec act [⟨.data transport bytes, rounds⟩, ⟨.command pending (.finish id), rounds'⟩] s
      = some s₁)
    (h₂ : exec act [⟨.command pending (.finish id), rounds'⟩, ⟨.data transport bytes, rounds⟩] s
      = some s₂) :
    (s₁.world.data.state.exchanges id).map Exchange.seen
        = (s₂.world.data.state.exchanges id).map Exchange.seen
      ↔ e.decided s.world.data.config bytes = false := by
  have hfree := free_exec hrun
  have hwaits : e.proto.any Proto.isAwait100 = false := by
    rw [hproto]
    rfl
  -- the bytes first
  obtain ⟨t₁, hdata₁, h₁⟩ := bind_eq_some_iff.mp h₁
  obtain ⟨_, hfinish₁, h₁⟩ := bind_eq_some_iff.mp h₁
  cases h₁
  obtain ⟨hfree₁, m₁, hm₁, hok₁⟩ := act_runs hfree rfl hdata₁
  cases hm₁
  obtain ⟨d₁, pause₁, hd₁, he₁⟩ := onData_exchange hactive he hwaits hok₁
  obtain ⟨-, m₁', hm₁', hok₁'⟩ := act_runs hfree₁ rfl hfinish₁
  cases hm₁'
  have hend₁ : s₁.world.data.state.exchanges id = some d₁.exchange.finish.1 := by
    rw [(finishRequest_exchange he₁ hok₁').1]
    exact Function.update_self _ _ _
  -- the finish first
  obtain ⟨t₂, hfinish₂, h₂⟩ := bind_eq_some_iff.mp h₂
  obtain ⟨_, hdata₂, h₂⟩ := bind_eq_some_iff.mp h₂
  cases h₂
  obtain ⟨hfree₂, m₂, hm₂, hok₂⟩ := act_runs hfree rfl hfinish₂
  cases hm₂
  obtain ⟨hstate₂, hconfig₂⟩ := finishRequest_exchange he hok₂
  obtain ⟨-, m₂', hm₂', hok₂'⟩ := act_runs hfree₂ rfl hdata₂
  cases hm₂'
  have hactive₂ : t₂.world.data.state.active transport = some id := by
    rw [hstate₂]
    exact hactive
  have he₂ : t₂.world.data.state.exchanges id = some e.finish.1 := by
    rw [hstate₂]
    exact Function.update_self _ _ _
  have hwaits₂ : e.finish.1.proto.any Proto.isAwait100 = false := by
    rcases finish_sending hproto with ⟨call', hproto'⟩ | ⟨call', hproto'⟩
    · rw [hproto']
      rfl
    · rw [hproto']
      rfl
  obtain ⟨d₂, pause₂, hd₂, hend₂⟩ := onData_exchange hactive₂ he₂ hwaits₂ hok₂'
  rw [hconfig₂] at hd₂
  rw [hend₁, hend₂, map_some, map_some, some_inj, seen_bytesFirst hproto hd₁]
  -- compare
  cases hdecided : e.decided s.world.data.config bytes with
  | false =>
    rw [seen_of_undecided hproto hdecided hd₂]
    exact ⟨fun _ => rfl, fun _ => rfl⟩
  | true =>
    refine ⟨fun heq => ?_, nofun⟩
    obtain ⟨hresponse, htaken, herror⟩ := unread_exec hrun id e he (by rw [hproto]; rfl)
    obtain ⟨_, _, _, _, hshape⟩ := (settleWaiters_closes s.world.data.config id
      ⟨{ e with input := e.input ++ bytes }, [], none⟩).shape
    rw [hshape] at heq
    have hseen := congrArg Seen.response heq
    have hseen' := congrArg Seen.taken heq
    have hseen'' := congrArg Seen.error heq
    rcases headed_of_decided hdecided hd₂ with (hhead | hhead) | herr
    · rw [show d₂.exchange.response = none from hseen.symm.trans hresponse] at hhead
      cases hhead
    · rw [show d₂.exchange.responseTaken = false from hseen'.symm.trans htaken] at hhead
      cases hhead
    · rw [show d₂.exchange.error = none from hseen''.symm.trans herror] at herr
      cases herr

/-! ### A response that comes first -/

/-- The server has said `100 Continue`, and the body of exchange 1 is being sent. -/
def sendingBody : List (Turn sample) := opened .expects ++ [⟨.data (.plain 1) [1], 9⟩]

def finishes : Turn sample := ⟨.command (caller 2) (.finish 1), 9⟩

def brings (bytes : Bytes) : Turn sample := ⟨.data (.plain 1) bytes, 9⟩

def Proto.sends : Proto U → Bool
  | .sendBody _ => true
  | _ => false

theorem sendingBody_runs :
    (exec act sendingBody (initial {})).any (fun s =>
      s.world.data.state.active (.plain 1) = some 1
      && (s.world.data.state.exchanges 1).any (fun e => e.proto.any Proto.sends
        && !e.decided s.world.data.config [9])
      && (exec act [brings [9], finishes] s).isSome && (exec act [finishes, brings [9]] s).isSome)
      = true := by
  decide +kernel

/-- Half a head decides nothing: it may come before the finish or after it. -/
theorem early_response_of_half : ∃ s s₁ s₂ : Service sample,
    exec act sendingBody (initial {}) = some s
    ∧ exec act [brings [9], finishes] s = some s₁ ∧ exec act [finishes, brings [9]] s = some s₂
    ∧ (s₁.world.data.state.exchanges 1).map Exchange.seen
      = (s₂.world.data.state.exchanges 1).map Exchange.seen := by
  obtain ⟨s, hs, hend⟩ := (any_eq_true _ _).mp sendingBody_runs
  rw [and_eq_true, and_eq_true, and_eq_true] at hend
  obtain ⟨⟨⟨hactive, hexchange⟩, h₁⟩, h₂⟩ := hend
  obtain ⟨e, he, hsends⟩ := (any_eq_true _ _).mp hexchange
  obtain ⟨hproto, hdecided⟩ := and_eq_true_iff.mp hsends
  obtain ⟨proto, hproto, hsends⟩ := (any_eq_true _ _).mp hproto
  obtain ⟨s₁, h₁⟩ := isSome_iff_exists.mp h₁
  obtain ⟨s₂, h₂⟩ := isSome_iff_exists.mp h₂
  cases proto with
  | sendBody call =>
    refine ⟨s, s₁, s₂, hs, h₁, h₂, ?_⟩
    refine (early_response_kept_iff {} sendingBody s s₁ s₂ hs 1 (.plain 1) e call
      (of_decide_eq_true hactive) he hproto [9] (caller 2) 9 9 h₁ h₂).mpr ?_
    rw [not_eq_true'] at hdecided
    exact hdecided
  | await100 | recvResponse | recvBody | done => cases hsends

/-- **A response that comes before the finish stays unread**; the same bytes after the finish are the
whole response. -/
theorem response_stays_unread :
    (exec act (sendingBody ++ [brings [7, 0], finishes]) (initial {})).map (fun s =>
      (s.world.data.state.exchanges 1).map fun e => (e.response.isSome, e.bodyEnded))
      = some (some (false, false))
    ∧ (exec act (sendingBody ++ [finishes, brings [7, 0]]) (initial {})).map (fun s =>
      (s.world.data.state.exchanges 1).map fun e => (e.response.isSome, e.bodyEnded))
      = some (some (true, true)) := by
  constructor
  · decide +kernel
  · decide +kernel

end Rskynet.Http
