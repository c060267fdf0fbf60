import Mathlib.Algebra.GroupWithZero.Nat
import Rskynet.Lib.Loops

/-!
# The WebSocket client

A client hands the bytes it gets to the handshake until the head of the `101` response is complete.
Each further event is pushed into the socket, which is then read until it has to wait. Nothing
reads what has come behind the head in the event that completed it.

* `delivered_iff` — **PROVED**: the messages of a stream have been delivered exactly if an event
  came after the one that completed the head, or there are none;
* `frame_behind_head_unread` — **PROVED**: a frame that comes with the end of the head is not read.
-/

namespace Rskynet.Http.WebSocket

open List

/-! ### The client -/

/-- What a handshake makes of the bytes so far. -/
inductive Head (R E : Type) where
  | interrupted
  | failure (e : E)
  | done (response : R) (rest : List UInt8)

def Head.isDone {R E : Type} : Head R E → Bool
  | .done _ _ => true
  | _ => false

/-- **The interface of the protocol crate**, by what it makes of all the bytes so far: the handshake
keeps what follows the head, and reading yields the messages that are `decoded` from there without
further input.  `stop` ends the reading behind them: by the close of the connection, or an error. -/
structure Tungstenite (R M E : Type) where
  head : List UInt8 → Head R E
  extensions : R → Bool
  decoded : List UInt8 → List M
  stop : List UInt8 → Option (Option E)
  length : M → ℕ
  head_nil : head [] = .interrupted
  failure_append : ∀ b c e, head b = .failure e → head (b ++ c) = .failure e
  done_append : ∀ b c r rest, head b = .done r rest → head (b ++ c) = .done r (rest ++ c)
  decoded_append : ∀ b c, decoded b <+: decoded (b ++ c)
  stop_append : ∀ b c, stop b ≠ none → decoded (b ++ c) = decoded b

structure Config where
  inputHighWater : ℕ
  inputLowWater : ℕ

inductive Error (E : Type) where
  | webSocket (e : E)
  | protocol (text : String)

/-- `SocketState`; `input` and `taken` are the bytes and the messages that the socket has had. -/
structure Shared (M E : Type) where
  input : List UInt8
  taken : ℕ := 0
  messages : List M := []
  queuedBytes : ℕ := 0
  ended : Bool := false
  error : Option (Error E) := none
  paused : Bool := false

structure Pending (R E : Type) where
  handshake : Option (List UInt8)
  result : Option (Except (Error E) R)

/-- The client, seen from one transport.  `closing` says that the rest of an `on_data` is to remove
the socket from the table of the connected ones. -/
structure Client (R M E : Type) where
  pending : Option (Pending R E)
  shared : Option (Shared M E) := none
  connected : Bool := false
  closing : Bool := false
  received : List M := []

variable {R M E : Type} (T : Tungstenite R M E) (config : Config)

/-- One turn of the loop of `SharedSocket::on_data`. -/
def readTurn (s : Shared M E) : Shared M E ⊕ Shared M E :=
  match (T.decoded s.input)[s.taken]? with
  | some m => .inl { s with
      taken := s.taken + 1
      messages := s.messages ++ [m]
      queuedBytes := min (s.queuedBytes + T.length m) (2 ^ 64 - 1) }
  | none => .inr (match T.stop s.input with
    | none => s
    | some e => { s with ended := true, error := e.map .webSocket <|> s.error })

theorem readTurn_decreases (s s' : Shared M E) (h : readTurn T s = .inl s') :
    (T.decoded s'.input).length - s'.taken < (T.decoded s.input).length - s.taken := by
  unfold readTurn at h
  split at h
  · rename_i m hm
    cases h
    obtain ⟨hlt, -⟩ := List.getElem?_eq_some_iff.mp hm
    dsimp only
    omega
  · cases h

def readAll : Shared M E → Shared M E :=
  Loop.finish (readTurn T) (fun s => (T.decoded s.input).length - s.taken) (readTurn_decreases T)

/-- **`SharedSocket::on_data`** up to its awaits. -/
def Shared.onData (s : Shared M E) (data : List UInt8) : Shared M E :=
  if s.ended then s else
    let s := readAll T { s with input := s.input ++ data }
    { s with paused := s.paused || decide (config.inputHighWater ≤ s.queuedBytes) }

/-- `SharedSocket::recv`; no answer is `Pending`. -/
def Shared.recv (s : Shared M E) : Shared M E × Option (Except (Error E) (Option M)) :=
  match s.messages with
  | m :: rest =>
    let queued := s.queuedBytes - T.length m
    ({ s with
        messages := rest
        queuedBytes := queued
        paused := s.paused && !decide (queued ≤ config.inputLowWater) }, some (.ok (some m)))
  | [] => match s.error with
    | some e => ({ s with error := none }, some (.error e))
    | none => (s, if s.ended then some (.ok none) else none)

/-- The message of an answer, if it is one. -/
def gotten : Option (Except (Error E) (Option M)) → List M
  | some (.ok (some m)) => [m]
  | _ => []

/-- **`WebSocketClient::on_data`**, with `finish_handshake`. -/
def Client.onData (c : Client R M E) (data : List UInt8) : Except String (Client R M E) :=
  match if c.connected then c.shared else none with
  | some s =>
    let s' := s.onData T config data
    .ok { c with shared := some s', closing := c.closing || (!s.ended && s'.ended) }
  | none => match c.pending with
    | none => .error "WebSocket 客户端连接不存在"
    | some p => match p.handshake with
      | none => .error "WebSocket 握手状态丢失"
      | some input => .ok (match T.head (input ++ data) with
        | .interrupted => { c with pending := some { p with handshake := some (input ++ data) } }
        | .failure e => { c with pending := some ⟨none, some (.error (.webSocket e))⟩ }
        | .done response rest =>
          if T.extensions response then { c with pending := some ⟨none,
            some (.error (.protocol "服务端返回了未支持的 WebSocket 扩展"))⟩ }
          else { c with
            pending := some ⟨none, some (.ok response)⟩
            shared := some { input := rest }
            connected := true })

/-- What happens: a `Data` event, a poll of `connect`, a poll of `recv`, the rest of an `on_data`
whose socket has ended. -/
inductive Action where
  | data (bytes : List UInt8)
  | connect
  | recv
  | cleanup

def Client.act (c : Client R M E) : Action → Client R M E
  | .data bytes => (c.onData T config bytes).toOption.getD c
  | .connect => if c.pending.any (·.result.isSome) then { c with pending := none } else c
  | .recv => match if c.pending.isNone then c.shared else none with
    | none => c
    | some s => { c with
      shared := some (s.recv T config).1
      received := c.received ++ gotten (s.recv T config).2 }
  | .cleanup => if c.closing then { c with connected := false } else c

/-- The client of a `connect` that has sent its request. -/
def started : Client R M E := { pending := some ⟨some [], none⟩ }

def run (actions : List Action) : Client R M E := actions.foldl (Client.act T config) started

def Action.data? : Action → Option (List UInt8)
  | .data bytes => some bytes
  | _ => none

/-- What `recv` has returned and what it can return without another event. -/
def Client.available (c : Client R M E) : List M :=
  c.received ++ (c.shared.map Shared.messages).getD []

/-! ### Reading -/

variable {T} {c : Client R M E} {s : Shared M E} {rest : List UInt8}

/-- The socket `s` has been read until it has to wait or stops. -/
def Drained (T : Tungstenite R M E) (s s' : Shared M E) : Prop :=
  s'.input = s.input ∧ s'.taken = (T.decoded s.input).length
  ∧ s'.messages = s.messages ++ (T.decoded s.input).drop s.taken
  ∧ s'.ended = (s.ended || (T.stop s.input).isSome)

theorem drained_readAll (h : s.taken ≤ (T.decoded s.input).length) : Drained T s (readAll T s) := by
  -- what has been queued and what is still to be read are the same messages after every turn
  refine Loop.finish_rule (I := fun s' => s'.input = s.input
    ∧ s'.taken ≤ (T.decoded s.input).length ∧ s'.messages ++ (T.decoded s.input).drop s'.taken
      = s.messages ++ (T.decoded s.input).drop s.taken ∧ s'.ended = s.ended)
    (Q := Drained T s) ?_ ?_ s ⟨rfl, h, rfl, rfl⟩
  · rintro s₁ s₂ ⟨hinput, -, hsame, hended⟩ hturn
    unfold readTurn at hturn
    split at hturn
    · rename_i m hm
      cases hturn
      rw [hinput] at hm
      obtain ⟨hlt, hget⟩ := List.getElem?_eq_some_iff.mp hm
      refine ⟨hinput, hlt, ?_, hended⟩
      rw [← hsame, drop_eq_getElem_cons hlt, hget, append_assoc]
      rfl
    · cases hturn
  · rintro s₁ s₂ ⟨hinput, hle, hsame, hended⟩ hturn
    unfold readTurn at hturn
    split at hturn
    · cases hturn
    · rename_i hnone
      rw [hinput] at hnone hturn
      have htaken : s₁.taken = (T.decoded s.input).length :=
        Nat.le_antisymm hle (getElem?_eq_none_iff.mp hnone)
      rw [htaken, drop_length, append_nil] at hsame
      unfold Drained
      cases hstop : T.stop s.input with
      | none =>
        rw [hstop] at hturn
        cases hturn
        exact ⟨hinput, htaken, hsame, by rw [hended]; simp⟩
      | some e =>
        rw [hstop] at hturn
        cases hturn
        exact ⟨rfl, htaken, hsame, (Bool.or_true _).symm⟩

theorem drained_onData (hended : s.ended = false) (d : List UInt8)
    (h : s.taken ≤ (T.decoded (s.input ++ d)).length) :
    Drained T { s with input := s.input ++ d } (s.onData T config d) := by
  have hdrained := drained_readAll (T := T) (s := { s with input := s.input ++ d }) h
  unfold Shared.onData
  rw [hended] at hdrained ⊢
  exact hdrained

/-- **A socket whose handshake is over**, with `rest` behind the head so far. -/
structure Live (T : Tungstenite R M E) (rest : List UInt8) (c : Client R M E) (s : Shared M E) :
    Prop where
  shared : c.shared = some s
  got : c.available = (T.decoded s.input).take s.taken
  going : s.ended = false → s.input = rest ∧ c.connected = true ∧ c.closing = false
  halted : s.ended = true → s.input <+: rest ∧ T.stop s.input ≠ none
    ∧ s.taken = (T.decoded s.input).length
  gone : ∀ p ∈ c.pending, p.handshake = none

/-- Where the client stands after the `Data` events `events`. -/
def Tracks (T : Tungstenite R M E) (events : List (List UInt8)) (c : Client R M E) : Prop :=
  match T.head events.flatten with
  | .interrupted => c = { pending := some ⟨some events.flatten, none⟩ }
  | .failure _ => True
  | .done response rest => T.extensions response = false → ∃ s, Live T rest c s
    ∧ s.taken = if (T.head events.dropLast.flatten).isDone then (T.decoded s.input).length else 0

theorem act_connected (hs : c.shared = some s) (hconnected : c.connected = true) (d : List UInt8) :
    c.act T config (.data d) = { c with
      shared := some (s.onData T config d)
      closing := c.closing || (!s.ended && (s.onData T config d).ended) } := by
  simp only [Client.act, Client.onData, hconnected, hs, if_true]
  rfl

theorem act_gone (h : ∀ p ∈ c.pending, p.handshake = none) (hconnected : c.connected = false)
    (d : List UInt8) : c.act T config (.data d) = c := by
  cases hpending : c.pending with
  | none =>
    simp only [Client.act, Client.onData, hconnected, hpending]
    rfl
  | some p =>
    simp only [Client.act, Client.onData, hconnected, hpending, h p hpending]
    rfl

theorem Live.data (h : Live T rest c s) (htaken : s.taken ≤ (T.decoded s.input).length)
    (d : List UInt8) : ∃ s', Live T (rest ++ d) (c.act T config (.data d)) s'
      ∧ s'.taken = (T.decoded s'.input).length := by
  have hreceived : c.received ++ s.messages = (T.decoded s.input).take s.taken := by
    rw [← h.got, Client.available, h.shared]
    rfl
  cases hended : s.ended with
  | true =>
    -- the events behind the end are dropped, before the removal from the table and after it
    obtain ⟨hinput, hstop, hall⟩ := h.halted hended
    have hlater : s.input <+: rest ++ d := hinput.trans (prefix_append rest d)
    have hsame : s.onData T config d = s := if_pos hended
    refine ⟨s, ?_, hall⟩
    cases hconnected : c.connected with
    | true =>
      rw [act_connected config h.shared hconnected, hsame]
      exact ⟨rfl, hreceived, fun hno => absurd hended (by simp [hno]),
        fun _ => ⟨hlater, hstop, hall⟩, h.gone⟩
    | false =>
      rw [act_gone config h.gone hconnected]
      exact ⟨h.shared, h.got, fun hno => absurd hended (by simp [hno]),
        fun _ => ⟨hlater, hstop, hall⟩, h.gone⟩
  | false =>
    obtain ⟨rfl, hconnected, hclosing⟩ := h.going hended
    have hmore := T.decoded_append s.input d
    obtain ⟨hinput, hall, hmessages, hends⟩ := drained_onData config hended d
      (Nat.le_trans htaken hmore.length_le)
    rw [act_connected config h.shared hconnected, hclosing, hended]
    generalize s.onData T config d = s' at hinput hall hmessages hends
    refine ⟨s', ⟨rfl, ?_, ?_, ?_, h.gone⟩, hinput ▸ hall⟩
    · show c.received ++ s'.messages = take s'.taken (T.decoded s'.input)
      obtain ⟨later, hlater⟩ := hmore
      rw [hinput, hall, hmessages, take_length, ← append_assoc, hreceived, ← hlater,
        drop_append_of_le_length htaken, ← append_assoc, take_append_drop]
    · exact fun hgoing => ⟨hinput, hconnected, by simp [hgoing]⟩
    · intro hhalted
      rw [hhalted, hended, Bool.false_or] at hends
      rw [hinput]
      exact ⟨prefix_rfl, Option.isSome_iff_ne_none.mp hends.symm, hall⟩

theorem tracks_data {events : List (List UInt8)} (h : Tracks T events c) (d : List UInt8) :
    Tracks T (events ++ [d]) (c.act T config (.data d)) := by
  unfold Tracks at h ⊢
  rw [dropLast_concat, flatten_append, flatten_singleton]
  cases hhead : T.head events.flatten with
  | interrupted =>
    rw [hhead] at h
    subst h
    cases hnext : T.head (events.flatten ++ d) with
    | interrupted => simp [Client.act, Client.onData, Except.toOption, hnext]
    | failure e => trivial
    | done response rest =>
      intro hplain
      refine ⟨{ input := rest }, ?_, rfl⟩
      simp only [Client.act, Client.onData, hnext, hplain]
      exact ⟨rfl, rfl, fun _ => ⟨rfl, rfl, rfl⟩, nofun, by rintro p ⟨⟩; rfl⟩
  | failure e =>
    rw [T.failure_append _ d e hhead]
    trivial
  | done response rest =>
    rw [T.done_append _ d response rest hhead]
    rw [hhead] at h
    intro hplain
    obtain ⟨s, hlive, htaken⟩ := h hplain
    refine hlive.data config ?_ d
    rw [htaken]
    split <;> omega

theorem recv_spec (s : Shared M E) : (s.recv T config).1.input = s.input
    ∧ (s.recv T config).1.taken = s.taken ∧ (s.recv T config).1.ended = s.ended
    ∧ gotten (s.recv T config).2 ++ (s.recv T config).1.messages = s.messages := by
  unfold Shared.recv
  split
  · rename_i hm
    exact ⟨rfl, rfl, rfl, hm.symm⟩
  · rename_i hm
    split
    · exact ⟨rfl, rfl, rfl, rfl⟩
    · refine ⟨rfl, rfl, rfl, ?_⟩
      dsimp only
      split <;> rfl

/-- The actions other than events leave a socket and its bytes alone. -/
theorem Live.quiet (h : Live T rest c s) {action : Action} (hquiet : action.data? = none) :
    ∃ s', Live T rest (c.act T config action) s' ∧ s'.taken = s.taken ∧ s'.input = s.input := by
  cases action with
  | data bytes => cases hquiet
  | connect =>
    refine ⟨s, ?_, rfl, rfl⟩
    dsimp only [Client.act]
    split
    · exact ⟨h.shared, h.got, h.going, h.halted, nofun⟩
    · exact h
  | recv =>
    dsimp only [Client.act]
    split
    · exact ⟨s, h, rfl, rfl⟩
    · rename_i s₁ hs₁
      split at hs₁
      · cases h.shared.symm.trans hs₁
        have hgot := h.got
        rw [Client.available, h.shared] at hgot
        obtain ⟨hinput, htaken, hended, hmessages⟩ := recv_spec (T := T) config s
        generalize (s.recv T config).1 = s' at hinput htaken hended hmessages
        refine ⟨s', ⟨rfl, ?_, ?_, ?_, h.gone⟩, htaken, hinput⟩
        · show c.received ++ gotten _ ++ s'.messages = _
          rw [append_assoc, hmessages, htaken, hinput]
          exact hgot
        · rw [hended, hinput]
          exact h.going
        · rw [hended, hinput, htaken]
          exact h.halted
      · cases hs₁
  | cleanup =>
    refine ⟨s, ?_, rfl, rfl⟩
    dsimp only [Client.act]
    split
    · rename_i hclosing
      refine ⟨h.shared, h.got, fun hgoing => ?_, h.halted, h.gone⟩
      rw [(h.going hgoing).2.2] at hclosing
      cases hclosing
    · exact h

theorem tracks_act {events : List (List UInt8)} (h : Tracks T events c) (action : Action) :
    Tracks T (events ++ action.data?.toList) (c.act T config action) := by
  cases hdata : action.data? with
  | some d =>
    cases action with
    | data bytes =>
      cases hdata
      exact tracks_data config h d
    | connect | recv | cleanup => cases hdata
  | none =>
    rw [Option.toList_none, append_nil]
    unfold Tracks at h ⊢
    split at h
    · subst h
      cases action with
      | data bytes => cases hdata
      | connect | recv | cleanup => rfl
    · trivial
    · intro hplain
      obtain ⟨s, hlive, htaken⟩ := h hplain
      obtain ⟨s', hlive', htaken', hinput'⟩ := hlive.quiet config hdata
      exact ⟨s', hlive', by rw [htaken', hinput', htaken]⟩

theorem tracks_run (T : Tungstenite R M E) (config : Config) (actions : List Action) :
    Tracks T (actions.filterMap Action.data?) (run T config actions) := by
  have hall : ∀ (events : List (List UInt8)) (c : Client R M E), Tracks T events c →
      Tracks T (events ++ actions.filterMap Action.data?)
        (actions.foldl (Client.act T config) c) := by
    induction actions with
    | nil =>
      intro events c h
      rwa [filterMap_nil, append_nil]
    | cons action rest ih =>
      intro events c h
      have hrest := ih _ _ (tracks_act config h action)
      rw [append_assoc] at hrest
      cases hdata : action.data? with
      | none => rwa [hdata, Option.toList_none, nil_append, ← filterMap_cons_none hdata] at hrest
      | some d =>
        rwa [hdata, Option.toList_some, singleton_append, ← filterMap_cons_some hdata] at hrest
  refine hall [] started ?_
  show match T.head [] with | .interrupted => _ | .failure _ => _ | .done _ _ => _
  rw [T.head_nil]
  rfl

/-- **Delivery depends on what comes behind the head.**  In every run in which the bytes of the
events are a response without extensions and `rest` behind it, the messages of `rest` have been
delivered exactly if the head was complete before the last event, or `rest` has none. -/
theorem delivered_iff (T : Tungstenite R M E) (config : Config) (actions : List Action)
    {response : R} {rest : List UInt8}
    (hhead : T.head (actions.filterMap Action.data?).flatten = .done response rest)
    (hplain : T.extensions response = false) :
    (run T config actions).available = T.decoded rest
      ↔ (T.head (actions.filterMap Action.data?).dropLast.flatten).isDone = true
        ∨ T.decoded rest = [] := by
  have htracks := tracks_run T config actions
  unfold Tracks at htracks
  rw [hhead] at htracks
  obtain ⟨s, hlive, htaken⟩ := htracks hplain
  rw [hlive.got, htaken]
  cases (T.head (actions.filterMap Action.data?).dropLast.flatten).isDone with
  | false =>
    rw [if_neg Bool.false_ne_true, take_zero, or_iff_right Bool.false_ne_true, eq_comm]
  | true =>
    have hrest : T.decoded s.input = T.decoded rest := by
      cases hended : s.ended with
      | false => rw [(hlive.going hended).1]
      | true =>
        obtain ⟨⟨later, rfl⟩, hstop, -⟩ := hlive.halted hended
        exact (T.stop_append s.input later hstop).symm
    simp [hrest]

/-- A protocol for concrete runs: a head is a zero byte, and every byte behind it is a message. -/
def sample : Tungstenite Unit UInt8 Unit where
  head
    | [] => .interrupted
    | b :: rest => if b = 0 then .done () rest else .failure ()
  extensions _ := false
  decoded b := b
  stop _ := none
  length _ := 1
  head_nil := rfl
  failure_append b c e h := by
    cases b with
    | nil => cases h
    | cons x b =>
      dsimp only at h ⊢
      split at h
      · cases h
      · rename_i hx
        simp [hx]
  done_append b c r rest h := by
    cases b with
    | nil => cases h
    | cons x b =>
      dsimp only at h ⊢
      split at h
      · rename_i hx
        cases h
        simp [hx]
      · cases h
  decoded_append b c := prefix_append b c
  stop_append b c h := absurd rfl h

/-- An event of its own for the frame: it is delivered. -/
theorem delivered_of_two_events :
    (run sample ⟨9, 4⟩ [.data [0], .connect, .data [5]]).available = [5] :=
  (delivered_iff sample ⟨9, 4⟩ [.data [0], .connect, .data [5]]
    (show sample.head [0, 5] = .done () [5] from rfl) rfl).mpr (.inl rfl)

/-- **A frame behind the head is not read** when it comes with the last byte of the head: `recv`
waits for it, although it is delivered if the same bytes come in two events. -/
theorem frame_behind_head_unread :
    (run sample ⟨9, 4⟩ [.data [0, 5], .connect, .recv]).available = []
    ∧ (run sample ⟨9, 4⟩ [.data [0], .data [5], .connect, .recv]).available = [5] := by
  decide +kernel

end Rskynet.Http.WebSocket
