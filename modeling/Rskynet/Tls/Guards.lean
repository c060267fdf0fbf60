import Rskynet.Tls.Blocks

/-!
# Guards of the TLS service

A cell of the service has one live guard at a time; a second borrow stops the service. Every handler
is followed through its helpers with the set of live guards.

* `follows_settles` — **PROVED**: most handlers never take a second guard, and their loops all end;
* `shutdown_ends`, `socketClosed_ends` — **PROVED**: the two handlers that borrow the state under
  the guard of an `if let` stop exactly when they remove a listener;
* `connectReady_ends`, … — **PROVED**: the handlers that allocate an id hang exactly when all are in
  use.
-/

namespace Rskynet.Tls

open Cells

variable {R : Rustls}

def free : Cell → Bool := fun _ => false

/-! ### Effects -/

section Effects

variable {h : Cell → Bool}

theorem settles_reply (pending : Pending) (answer : Answer) :
    Settles h (reply pending answer : Handler R Unit) := settles_change _

theorem settles_emit (owner : Handle) (event : TlsEvent) :
    Settles h (emit owner event : Handler R Unit) := settles_change _

theorem settles_askNet (command : NetCommand) :
    Settles h (askNet command : Handler R (Except String Unit)) := settles_effect _

theorem settles_shutdownSocket (socket : SocketId) :
    Settles h (shutdownSocket socket : Handler R Unit) :=
  (settles_askNet _).bind fun _ => settles_pure ()

theorem settles_suspend (task : Task R) : Settles h (suspend task) := settles_change _

theorem settles_callNet (command : NetCommand) (task : Task R) :
    Settles h (callNet command task) :=
  (settles_askNet command).bind fun _ => settles_suspend task

end Effects

/-! ### Helpers -/

theorem settles_withState {α : Type} (f : State R → α × State R) : Settles free (withState f) :=
  settles_within rfl

theorem settles_updateState (f : State R → State R) : Settles free (updateState f) :=
  settles_withState _

theorem settles_readState {α : Type} (f : State R → α) : Settles free (readState f) :=
  settles_within rfl

theorem settles_capacityError (handshake : Bool) :
    Settles free (capacityError handshake : Handler R (Option String)) := by
  apply Settles.guarded rfl
  apply Settles.guarded rfl
  exact settles_look _

variable (id : TlsId) (options : ClientOptions R) (socket : SocketId) (source : Handle)
  (pending : Pending) (reason : String) (error : Option String) (data : Bytes) (tls : R.Conn)

theorem sequential_settles : Sequential (R := R) fun m => Settles free m where
  pure := settles_pure
  bind := Settles.bind
  emit := settles_emit
  askNet := settles_askNet
  readState := settles_readState

theorem settles_armTimeout : Settles free (armTimeout id : Handler R Unit) := by
  apply Settles.bind
  · apply Settles.guarded rfl
    apply Settles.bind
    · exact settles_within rfl
    · intro default
      exact settles_look _
  · intro timeout
    exact settles_suspend _

/-! ### Commands -/

theorem settles_connectSocket (pending : Pending) (connected : Except String SocketId) :
    Settles free (connectSocket options tls pending connected) := by
  unfold connectSocket
  split
  · exact settles_reply _ _
  · apply (settles_capacityError true).bind
    intro full
    split
    · exact (settles_shutdownSocket _).bind fun _ => settles_reply _ _
    · exact settles_callNet _ _

theorem settles_listenSocket (options : ServerOptions R) (pending : Pending)
    (listening : Except String SocketId) :
    Settles free (listenSocket options pending listening) := by
  unfold listenSocket
  split
  · exact settles_reply _ _
  · exact settles_callNet _ _

theorem settles_startListener :
    Settles free (startListener id pending : Handler R Unit) := by
  apply Settles.bind
  · apply Settles.guarded rfl
    apply (settles_look _).bind
    intro found
    split
    · exact (settles_reply _ _).bind fun _ => settles_pure _
    · split
      · exact settles_pure _
      · exact (settles_reply _ _).bind fun _ => settles_pure _
  · intro socket
    split
    · exact settles_pure ()
    · exact settles_callNet _ _

theorem settles_announceIfReady :
    Settles free (announceIfReady id : Handler R Unit) := by
  apply (settles_withState _).bind
  intro ready
  split
  · exact settles_pure ()
  · exact (sequential_settles.replyTo settles_reply _ _).bind fun _ => settles_emit _ _

theorem settles_shutdownIfClosed :
    Settles free (shutdownIfClosed id : Handler R Unit) := by
  apply (settles_readState _).bind
  intro closed
  apply settles_onlyIf
  apply Settles.guarded rfl
  apply (settles_look _).bind
  intro socket
  split
  · exact settles_pure ()
  · exact settles_shutdownSocket _

theorem quiet_settles : Quiet (R := R) fun m => Settles free m where
  toSequential := sequential_settles
  fail := sequential_settles.fail settles_reply fun _ => settles_withState _
  takeCiphertext _ := settles_within rfl
  encryptPlaintext _ _ _ := settles_within rfl
  processTls _ _ := settles_withState _
  announceIfReady := settles_announceIfReady
  shutdownIfClosed := settles_shutdownIfClosed

theorem settles_closeConnection :
    Settles free (closeConnection id pending : Handler R Unit) := by
  apply Settles.bind
  · apply Settles.guarded rfl
    apply (settles_look _).bind
    intro found
    split
    · exact (settles_reply _ _).bind fun _ => settles_pure _
    · split
      · exact (settles_reply _ _).bind fun _ => settles_pure _
      · split
        · exact (settles_reply _ _).bind fun _ => settles_pure _
        · exact (settles_change _).bind fun _ => settles_pure _
  · intro socket
    split
    · exact settles_pure ()
    · exact quiet_settles.flushOrFail id (settles_suspend _)

theorem follows_settles : Follows (R := R) fun m => Settles free m where
  toQuiet := quiet_settles
  reply := settles_reply
  suspend _ := settles_suspend _
  capacityError := settles_capacityError
  removeListener _ := settles_withState _
  removeConnection _ := settles_withState _
  startListener := settles_startListener
  closeConnection := settles_closeConnection

/-! ### How a handler ends -/

/-- From no live guards the handler stops at the lease assertion of the state, or is caught in a
loop that never ends, or returns with every guard dropped. -/
def Ends {α : Type} (panics hangs : Bool) (d : Server R) (m : Handler R α) : Prop :=
  if panics then m ⟨free, d⟩ = .error (.lease .state)
  else if hangs then m ⟨free, d⟩ = .error .unfinished
  else SettlesAt free d m

section Ends

variable {α β : Type} {d d' : Server R} {panics hangs : Bool}

theorem ends_of_settles {m : Handler R α} (hm : Settles free m) : Ends false false d m := hm d

theorem Ends.after {m : Handler R α} {f : α → Handler R β} {a : α}
    (hm : m ⟨free, d⟩ = .ok (a, ⟨free, d'⟩)) (hf : Ends panics hangs d' (f a)) :
    Ends panics hangs d (m >>= f) := by
  have hbind : (m >>= f) ⟨free, d⟩ = f a ⟨free, d'⟩ := bind_of_ok hm
  cases panics with
  | true => exact hbind.trans hf
  | false =>
    cases hangs with
    | true => exact hbind.trans hf
    | false => exact SettlesAt.after hm hf

theorem Ends.bind {m : Handler R α} {f : α → Handler R β} (hm : Ends panics hangs d m)
    (hf : ∀ a, Settles free (f a)) : Ends panics hangs d (m >>= f) := by
  cases panics with
  | true => exact bind_of_error hm
  | false =>
    cases hangs with
    | true => exact bind_of_error hm
    | false => exact SettlesAt.bind hm hf

end Ends

/-! ### The guard of an `if let` -/

def stateHeld : Cell → Bool := Function.update free .state true

theorem acquire_state (d : Server R) :
    (acquire .state : Handler R Unit) ⟨free, d⟩ = .ok ((), ⟨stateHeld, d⟩) := acquire_free rfl

theorem release_state (d : Server R) :
    (release .state : Handler R Unit) ⟨stateHeld, d⟩ = .ok ((), ⟨free, d⟩) := by
  show Except.ok ((), World.mk (Function.update (Function.update free .state true) .state false) d)
    = _
  rw [Function.update_idem, show (false : Bool) = free .state from rfl, Function.update_eq_self]

theorem removeListener_held (d : Server R) :
    (removeListener id : Handler R _) ⟨stateHeld, d⟩ = .error (.lease .state) := within_held _ rfl

theorem shutdown_ends (d : Server R) :
    Ends ((d.state.listeners.lookup id).any fun l => l.owner = source) false d
      (shutdown id source) := by
  have hstart : (shutdown id source : Handler R Answer) ⟨free, d⟩ = _ :=
    bind_of_ok (acquire_state d)
  cases hfound : d.state.listeners.lookup id with
  | none =>
    have hrest : (shutdown id source : Handler R Answer) ⟨free, d⟩
        = shutdownConnection id source ⟨free, d⟩ := by
      rw [hstart, bind_look, hfound]
      exact bind_of_ok (release_state d)
    show SettlesAt free d _
    unfold SettlesAt
    rw [hrest]
    exact follows_settles.shutdownConnection id source d
  | some l =>
    rw [bind_look, hfound] at hstart
    dsimp only at hstart
    by_cases howner : l.owner = source
    · rw [if_pos howner] at hstart
      simp only [Ends, Option.any_some, howner, decide_true, if_true]
      exact hstart.trans (bind_of_error (removeListener_held id d))
    · rw [if_neg howner] at hstart
      simp only [Ends, Option.any_some, howner, decide_false, Bool.false_eq_true, if_false]
      exact ⟨_, d, hstart.trans (bind_of_ok (release_state d))⟩

theorem socketClosed_ends (d : Server R) :
    Ends (d.state.listenerSockets.lookup socket).isSome false d (socketClosed socket error) := by
  have hstart : (socketClosed socket error : Handler R Unit) ⟨free, d⟩ = _ :=
    bind_of_ok (acquire_state d)
  cases hfound : d.state.listenerSockets.lookup socket with
  | none =>
    have hrest : (socketClosed socket error : Handler R Unit) ⟨free, d⟩
        = connectionClosed socket error ⟨free, d⟩ := by
      rw [hstart, bind_look, hfound]
      exact bind_of_ok (release_state d)
    show SettlesAt free d _
    unfold SettlesAt
    rw [hrest]
    exact follows_settles.connectionClosed socket error d
  | some listener =>
    rw [bind_look, hfound] at hstart
    exact hstart.trans (bind_of_error (removeListener_held listener d))

/-! ### Allocation -/

theorem allocating_ends {insert : TlsId → Handler R Unit}
    (hinsert : ∀ id, Settles stateHeld (insert id)) (d : Server R) :
    Ends false d.state.allocate.isNone d (allocating insert) := by
  cases hfound : d.state.allocate with
  | none =>
    apply guarded_free_error rfl
    rw [bind_look, hfound]
    rfl
  | some id =>
    apply SettlesAt.guarded rfl
    unfold SettlesAt
    rw [bind_look, hfound]
    exact ((hinsert id).bind fun _ => settles_pure id) d

theorem connectReady_ends (pending : Pending)
    (socket : SocketId) (addresses : Option Addresses) (d : Server R) :
    Ends false d.state.allocate.isNone d (connectReady options tls pending socket addresses) := by
  apply Ends.after (within_free _ rfl)
  apply Ends.after (within_free _ rfl)
  apply (allocating_ends (fun _ => settles_change _) d).bind
  intro id
  exact follows_settles.flushOrFail id (settles_armTimeout id)

theorem listenReady_ends (options : ServerOptions R) (pending : Pending) (socket : SocketId)
    (addresses : Option Addresses) (d : Server R) :
    Ends false d.state.allocate.isNone d (listenReady options pending socket addresses) := by
  apply (allocating_ends (fun _ => settles_change _) d).bind
  intro id
  exact settles_reply pending _

theorem insertAccepted_ends (peer : SocketAddr) (listen : TlsId)
    (l : Listener R) (tls : R.Conn) (d : Server R) :
    Ends false d.state.allocate.isNone d (insertAccepted socket peer listen l tls) := by
  apply Ends.after (within_free _ rfl)
  apply allocating_ends
  intro id
  exact Settles.bind (settles_within rfl) fun _ => settles_change _

def acceptStarved (d : Server R) (listenSocket : SocketId) : Bool :=
  match d.listenerOf listenSocket with
  | none => false
  | some (_, l) =>
    (d.atCapacity true).isNone && (R.server l.config).isOk && d.state.allocate.isNone

theorem capacityError_run (handshake : Bool) (d : Server R) :
    (capacityError handshake : Handler R _) ⟨free, d⟩
      = .ok (d.atCapacity handshake, ⟨free, d⟩) :=
  guarded_free rfl (guarded_free rfl rfl)

theorem acceptedBy_found {listenSocket : SocketId} {d : Server R}
    {found : TlsId × Listener R} (h : d.listenerOf listenSocket = some found) :
    acceptedBy socket listenSocket ⟨free, d⟩ = .ok (some found, ⟨free, d⟩) := by
  apply guarded_free rfl
  rw [bind_look, h]
  rfl

theorem acceptedBy_none {listenSocket : SocketId} {d : Server R}
    (h : d.listenerOf listenSocket = none) :
    ∃ d', acceptedBy socket listenSocket ⟨free, d⟩ = .ok (none, ⟨free, d'⟩) := by
  obtain ⟨_, d', hd'⟩ := settles_shutdownSocket (h := stateHeld) socket d
  refine ⟨d', guarded_free rfl ?_⟩
  rw [bind_look, h]
  exact bind_of_ok hd'

/-- `accept` hangs exactly when it comes to an allocation without an id. -/
theorem accept_ends (listenSocket : SocketId) (peer : SocketAddr) (d : Server R) :
    Ends false (acceptStarved d listenSocket) d (accept socket listenSocket peer) := by
  unfold acceptStarved
  cases hfound : d.listenerOf listenSocket with
  | none =>
    obtain ⟨d', hd'⟩ := acceptedBy_none socket hfound
    exact Ends.after hd' (ends_of_settles (settles_pure ()))
  | some found =>
    obtain ⟨listen, l⟩ := found
    apply Ends.after (acceptedBy_found socket hfound)
    apply Ends.after (capacityError_run true d)
    cases hfull : d.atCapacity true with
    | some reason => exact ends_of_settles (settles_shutdownSocket socket)
    | none =>
      cases hserver : R.server l.config with
      | error e =>
        dsimp only
        rw [hserver]
        exact ends_of_settles (settles_shutdownSocket socket)
      | ok tls =>
        dsimp only
        rw [hserver]
        exact (insertAccepted_ends socket peer listen l tls d).bind fun _ => settles_callNet _ _

end Rskynet.Tls
