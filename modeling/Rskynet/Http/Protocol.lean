import Rskynet.Http.Rules

/-!
# The protocol state of an exchange

Several handlers take the protocol state out of an exchange and put another one back. An exchange
is intact when it has a protocol state or an error.

* `intact_act` — **PROVED**: every step keeps the exchanges intact, except that a timer for
  `100 Continue` that comes late loses a protocol state;
* `protocol_state_kept` — **PROVED**: so does every run in which no such timer is late.
-/

namespace Rskynet.Http

open Cells Relation Interleave

variable {U : Ureq}
variable {e : Exchange U}

def Exchange.Intact (e : Exchange U) : Prop := e.proto.isSome = true ∨ e.error.isSome = true

/-! ### One exchange -/

theorem Requested.intact {e' : Exchange U} (h : Requested e e') (he : e.Intact) : e'.Intact := by
  cases h with
  | idle => exact he
  | moves => exact .inl rfl
  | fails => exact .inr rfl

theorem Fed.intact {e' : Exchange U} (h : Fed e e') (he : e.Intact) : e'.Intact := by
  cases h with
  | same | data => exact he
  | close => exact .inl rfl

theorem Turns.intact {id : ℕ} {round : Round U} (h : Turns id e round) (he : e.Intact) :
    round.exchange.Intact := by
  have honward : ∀ {e e' : Exchange U}, Onward e e' → e'.Intact := by
    intro e e' h
    cases h <;> exact .inl rfl
  cases h with
  | idle => exact he
  | waits | rejected => exact .inl rfl
  | fails => exact .inr rfl
  | parsed _ _ _ _ _ _ h | taken _ _ _ _ _ _ _ h => exact honward h
  | decoded _ _ _ _ _ _ h hround =>
    rcases hround with rfl | rfl
    · exact honward h
    · exact honward h

theorem intact_driveExchange {config : HttpClientConfig} {rounds id : ℕ} {d : Driven U}
    {pause : Option TransportId} (h : e.Intact)
    (hd : driveExchange config rounds id e = some (d, pause)) : d.exchange.Intact := by
  obtain ⟨d', hd', hcloses⟩ := driveExchange_closes hd
  have hloop := driveLoop_keeps (fun _ _ ht he => ht.intact he) h hd'
  obtain ⟨_, _, _, _, hshape⟩ := hcloses.shape
  rw [hshape]
  exact hloop

theorem intact_next (config : HttpClientConfig) (h : e.Intact) (pending : Pending) :
    (e.next config pending).exchange.Intact := by
  obtain ⟨_, _, htake⟩ := takeNext_shape e pending
  obtain ⟨-, _, hnext⟩ := next_shape config e pending
  rw [htake] at hnext
  split at hnext
  · rw [hnext.1]
    exact h
  · rw [hnext.1]
    exact h

/-! ### Runs -/

/-- A timer for `100 Continue` is not late: it finds no exchange, no protocol state, or an exchange
that waits for `100 Continue`. -/
def OnTime (s : Service U) (turn : Turn U) : Prop :=
  ∀ id ∈ turn.action.continueTarget, ∀ e ∈ s.world.data.state.exchanges id,
    e.proto.all Proto.isAwait100 = true

instance (s : Service U) (turn : Turn U) : Decidable (OnTime s turn) :=
  inferInstanceAs (Decidable (∀ id ∈ _, ∀ e ∈ _, _))

theorem OnTime.not_late {s : Service U} {turn : Turn U} (h : OnTime s turn) (id : ℕ) :
    ¬ Late s.world.data id turn.action := by
  rintro ⟨htarget, e, he, hother⟩
  rw [h id htarget e he] at hother
  cases hother

/-- **One step** without a late timer keeps the exchanges intact. -/
theorem intact_act {turn : Turn U} {s s' : Service U}
    (hs : s.world.data.view.Every Exchange.Intact) (htime : OnTime s turn)
    (h : act turn s = some s') : s'.world.data.view.Every Exchange.Intact := by
  refine every_act h ?_ ?_ ?_ ?_ ?_ ?_ ?_ hs
  · intro transport origin proto spec _
    exact .inl rfl
  · intro _ e e' ht _ he
    exact ht.requested.intact he
  · intro id e hlate _ _
    exact absurd hlate (htime.not_late id)
  · intro config rounds id e e₁ d pause hfed hd _ he
    exact intact_driveExchange (hfed.intact he) hd
  · intro e pending he
    obtain ⟨_, _, _, hshape⟩ := takeResponse_shape e pending
    rw [hshape]
    exact he
  · intro e id session body he
    obtain ⟨_, _, hshape, -⟩ := expire_shape e id session body
    rw [hshape]
    exact he
  · intro config e pending he
    exact intact_next config he pending

theorem exchange_of_late {pending : Pending} {id rounds : ℕ} {s s' : Service U}
    (he : s.world.data.state.exchanges id = some e) (hlate : e.proto.any Proto.isAwait100 = false)
    (h : act ⟨.command pending (.continueTimeout id), rounds⟩ s = some s')
    (hcalm : s'.panicked = none) :
    s'.world.data.state.exchanges id = some { e with proto := none } := by
  have hstop : e.stopWaiting100 = ({ e with proto := none }, none, none, false) := by
    unfold Exchange.stopWaiting100
    split
    · rename_i call hproto
      rw [hproto] at hlate
      cases hlate
    · rfl
  obtain ⟨m, hm, hrun⟩ := act_calm h hcalm
  cases hm
  obtain ⟨result, w₁, htaken, hrun⟩ := bind_eq_ok hrun
  obtain ⟨rfl, hdata⟩ := within_eq_ok htaken
  simp only [Client.onState, he, hstop] at hrun hdata
  cases hrun
  rw [hdata]
  exact Function.update_self _ _ _

/-- **The protocol state is kept.**  In every run in which no timer for `100 Continue` finds its
exchange in another protocol state, every exchange has a protocol state or an error.  A timer that
does find it in another state leaves the exchange as it was exactly when it had none to lose. -/
theorem protocol_state_kept (config : HttpClientConfig) (run : List (Turn U)) (s : Service U)
    (htime : along act OnTime run (initial config))
    (hrun : exec act run (initial config) = some s) :
    (∀ id e, s.world.data.state.exchanges id = some e →
      e.proto.isSome = true ∨ e.error.isSome = true)
    ∧ ∀ pending id rounds e s', s.world.data.state.exchanges id = some e →
      e.proto.any Proto.isAwait100 = false →
      act ⟨.command pending (.continueTimeout id), rounds⟩ s = some s' → s'.panicked = none →
      (s'.world.data.state.exchanges id = some e ↔ e.proto = none) := by
  constructor
  · have hinit : (initial (U := U) config).world.data.view.Every Exchange.Intact := by
      intro id e he
      cases he
    exact exec_invariant (I := fun s : Service U => s.world.data.view.Every Exchange.Intact)
      (fun turn s s' hs ht h => intact_act hs ht h) run hinit htime hrun
  · intro pending id rounds e s' he hlate h hcalm
    rw [exchange_of_late he hlate h hcalm]
    constructor
    · intro hsame
      rw [← Option.some.inj hsame]
    · intro hnone
      rw [← hnone]

/-! ### A late timer -/

/-- What the sample protocol is asked for: a plain request, one that expects `100 Continue`, or one
whose head cannot be written. -/
inductive SampleRequest where
  | plain
  | expects
  | broken
  deriving DecidableEq

/-- A protocol for concrete runs: a response head is one byte after any number of nines, a body
ends with a zero byte, and a head of zero has no body. -/
def sample : Ureq where
  Parts := SampleRequest
  SendRequest := SampleRequest
  Await100 := Unit
  SendBody := Unit
  RecvResponse := ℕ
  RecvBody := Bool
  Response := ℕ
  new := fun _ _ parts => .ok parts
  headWritten := fun request => request ≠ .broken
  writeHead := fun _ _ => .error "broken head"
  proceedHead := fun request => .ok (some
    (if request = .expects then .await100 () else .recvResponse 0))
  writeBody := fun _ chunk _ => (.ok (chunk.length, chunk), ())
  bodyWritten := fun _ => true
  proceedBody := fun _ => 0
  tryRead100 := fun _ input => .ok (input.length, ())
  canKeepAwait100 := fun _ => false
  proceed100 := fun _ => .ok (.sendBody ())
  tryResponse := fun call input =>
    let nines := (input.takeWhile (· = 9)).length
    match input[nines]? with
    | none => .ok (0, none, call)
    | some head => .ok (nines + 1, some head.toNat, head.toNat)
  proceedResponse := fun head => if head = 0 then .cleanup false else .recvBody false
  readBody := fun ended input _ =>
    let body := input.takeWhile (· ≠ 0)
    if body.length < input.length then .ok (body.length + 1, body, true)
    else .ok (body.length, body, ended)
  bodyRead := fun ended => ended
  closeDelimited := fun _ => false
  proceedRead := fun _ => .cleanup false
  serverName := fun _ => .ok ()

def sampleRequest (parts : SampleRequest) : Request sample where
  uri := ⟨some .http, some ['h'], none⟩
  headers := ⟨none, none⟩
  parts
  spec := .chunked

def caller (session : ℕ) : Pending := ⟨1, session⟩

/-- Exchange 1 is started on connection 1: the connect completes and the head is sent. -/
def opened (parts : SampleRequest) : List (Turn sample) :=
  [⟨.command (caller 1) (.start 1 (sampleRequest parts)), 9⟩,
   ⟨.wake 0 (.connected (.ok (.plain 1))), 9⟩,
   ⟨.wake 0 (.finished (.ok ())), 9⟩]

def timerFirst : List (Turn sample) :=
  opened .expects ++ [⟨.command (caller 0) (.continueTimeout 1), 9⟩]

def timerLate : List (Turn sample) :=
  opened .expects ++ [⟨.data (.plain 1) [1], 9⟩, ⟨.command (caller 0) (.continueTimeout 1), 9⟩]

theorem timerFirst_end :
    (exec act timerFirst (initial {})).map (fun s =>
      ((s.world.data.state.exchanges 1).map fun e => e.proto.isSome)) = some (some true) := by
  decide +kernel

/-- A run with a timer that is on time meets the condition, and its exchange is intact. -/
theorem intact_of_timerFirst : ∃ s, exec act timerFirst (initial {}) = some s
    ∧ ∀ e, s.world.data.state.exchanges 1 = some e →
      e.proto.isSome = true ∨ e.error.isSome = true := by
  obtain ⟨s, hs, -⟩ := Option.map_eq_some_iff.mp timerFirst_end
  exact ⟨s, hs, (protocol_state_kept {} timerFirst s (by decide +kernel) hs).1 1⟩

/-- **A late timer loses the protocol state.**  The server has said `100 Continue` and the exchange
is about to send its body; then the timer comes, and the exchange has neither a protocol state nor
an error: no write, finish or received byte can do anything for it any more. -/
theorem late_timer_loses_protocol :
    (exec act timerLate (initial {})).map (fun s =>
      ((s.world.data.state.exchanges 1).map fun e => (e.proto.isSome, e.error), s.panicked))
    = some (some (false, none), none) := by
  decide +kernel

end Rskynet.Http
