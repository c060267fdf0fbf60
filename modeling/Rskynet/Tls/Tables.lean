import Rskynet.Lib.Tables
import Rskynet.Tls.Leases

/-!
# What the TLS service does to its tables

* `act_tables` — **PROVED**: one step of the service adds at most one entry, and changes the rest.
-/

namespace Rskynet.Tls

open Cells Relation Prod

variable {R : Rustls}
variable {w w' : World Cell (Server R)} {d : Server R}
variable {id : TlsId} {socket : SocketId}

/-- A `Close` is parked only at a connection that is closing. -/
def Orderly (c : TlsConnection R) : Prop := c.closing = false → c.closePending = none

/-- One change of the tables that adds nothing. -/
inductive Change : State R → State R → Prop
  /-- A connection goes on; whose it is, where it is and whether it is announced stay. -/
  | changed {s : State R} {id : TlsId} {c c' : TlsConnection R} (h : s.connections.lookup id = some c)
      (hsocket : c'.socket = c.socket) (hannounced : c'.announced = c.announced)
      (horderly : Orderly c → Orderly c') : Change s (s.setConnection id c')
  | announced {s : State R} {id : TlsId} {c : TlsConnection R} (h : s.connections.lookup id = some c)
      (hannounced : c.announced = false) :
      Change s { s.setConnection id { c with announced := true, connectPending := none } with
        handshakes := s.handshakes - 1 }
  | started {s : State R} {id : TlsId} {l : Listener R} (h : s.listeners.lookup id = some l) :
      Change s { s with listeners := s.listeners.insert id { l with started := true } }
  | listenerDropped {s : State R} {id : TlsId} {l : Listener R} (h : s.listeners.lookup id = some l) :
      Change s { s with
        listeners := s.listeners.erase id
        listenerSockets := s.listenerSockets.erase l.socket }
  | connectionDropped {s : State R} {id : TlsId} {c : TlsConnection R}
      (h : s.connections.lookup id = some c) :
      Change s { s with
        connections := s.connections.erase id
        connectionSockets := s.connectionSockets.erase c.socket
        handshakes := if c.announced then s.handshakes else s.handshakes - 1 }

def Server.incoming (d : Server R) : List SocketId := d.tasks.filterMap Task.socket?

/-- The contents of the two cells, and the sockets that are to come. -/
def Server.cells (d : Server R) : TlsConfig × State R × List SocketId :=
  (d.config, d.state, d.incoming)

theorem cells_eq {config : TlsConfig} {s : State R} {l : List SocketId}
    (h : d.cells = (config, s, l)) : d.config = config ∧ d.state = s ∧ d.incoming = l := by
  cases h
  exact ⟨rfl, rfl, rfl⟩

/-- A change of the tables under a configuration that stays. -/
def Step (v v' : TlsConfig × State R × List SocketId) : Prop :=
  v'.1 = v.1 ∧ v'.2.2 = v.2.2 ∧ Change v.2.1 v'.2.1

abbrev Tidy {α : Type} (m : Handler R α) : Prop := Moves Server.cells Step m

abbrev Apart {α : Type} (m : Handler R α) : Prop := Still Server.cells m

/-! ### Effects -/

theorem apart_readState {α : Type} (f : State R → α) : Apart (readState f) :=
  still_within fun _ => rfl

theorem apart_readConfig {α : Type} (f : TlsConfig → α) : Apart (readConfig f : Handler R α) :=
  still_within fun _ => rfl

theorem apart_reply (pending : Pending) (answer : Answer) :
    Apart (reply pending answer : Handler R Unit) := by
  apply still_change
  intro d
  split <;> rfl

theorem apart_replyTo (waiting : Option Pending) (answer : Answer) :
    Apart (replyTo waiting answer : Handler R Unit) := by
  cases waiting with
  | none => exact still_pure ()
  | some pending => exact apart_reply pending answer

theorem apart_emit (owner : Handle) (event : TlsEvent) :
    Apart (emit owner event : Handler R Unit) := still_change fun _ => rfl

theorem apart_askNet (command : NetCommand) :
    Apart (askNet command : Handler R (Except String Unit)) := by
  apply still_effect
  intro d
  split <;> rfl

theorem apart_shutdownSocket (socket : SocketId) :
    Apart (shutdownSocket socket : Handler R Unit) :=
  (apart_askNet _).bind fun _ => still_pure ()

theorem apart_suspend {task : Task R} (h : task.socket? = none) : Apart (suspend task) := by
  apply still_change
  intro d
  show (d.config, d.state, (d.tasks ++ [task]).filterMap Task.socket?) = d.cells
  rw [List.filterMap_append, List.filterMap_cons_none h, List.filterMap_nil, List.append_nil]
  rfl

theorem apart_callNet (command : NetCommand) {task : Task R} (h : task.socket? = none) :
    Apart (callNet command task) :=
  (apart_askNet command).bind fun _ => apart_suspend h

theorem apart_sendSelf (command : Command R) : Apart (sendSelf command) :=
  still_change fun _ => rfl

theorem apart_capacityError (handshake : Bool) :
    Apart (capacityError handshake : Handler R (Option String)) :=
  ((still_look _).guarded).guarded

/-- The handler leaves the tables alone, and tasks come to wait for these sockets at most. -/
def Expects {α : Type} (more : List SocketId) (m : Handler R α) : Prop :=
  ∀ w a w', m w = .ok (a, w') → ∃ l, l.Sublist (w.data.cells.2.2 ++ more)
    ∧ w'.data.cells = (w.data.cells.1, w.data.cells.2.1, l)

section Expects

variable {α β : Type} {more : List SocketId} {m : Handler R α} {f : α → Handler R β}

theorem expects_of_apart (hm : Apart m) : Expects more m :=
  fun w a w' h => ⟨_, List.sublist_append_left .., hm w a w' h⟩

theorem expects_after (hm : Apart m) (hf : ∀ a, Expects more (f a)) : Expects more (m >>= f) := by
  intro w b w' h
  obtain ⟨a, w₁, ha, hb⟩ := bind_eq_ok h
  rw [← hm w a w₁ ha]
  exact hf a w₁ b w' hb

theorem expects_callNet (command : NetCommand) {task : Task R} (h : task.socket? = some socket) :
    Expects [socket] (callNet command task) := by
  refine expects_after (apart_askNet command) fun _ w a w' hrun => ?_
  cases hrun
  refine ⟨_, .refl _, ?_⟩
  show (_, _, (w.data.tasks ++ [task]).filterMap Task.socket?) = _
  rw [List.filterMap_append, List.filterMap_cons_some h]
  rfl

end Expects

/-! ### Blocks over the state -/

theorem tidy_removeListener (id : TlsId) : Tidy (removeListener id : Handler R _) := by
  apply moves_within
  intro d
  show ReflTransGen Step d.cells (d.config, (d.state.dropListener id).2, d.incoming)
  unfold State.dropListener
  cases h : d.state.listeners.lookup id with
  | none => exact .refl
  | some l => exact .single ⟨rfl, rfl, .listenerDropped h⟩

theorem tidy_removeConnection (id : TlsId) : Tidy (removeConnection id : Handler R _) := by
  apply moves_within
  intro d
  show ReflTransGen Step d.cells (d.config, (d.state.dropConnection id).2, d.incoming)
  unfold State.dropConnection
  cases h : d.state.connections.lookup id with
  | none => exact .refl
  | some c => exact .single ⟨rfl, rfl, .connectionDropped h⟩

/-- **Traffic on one connection**: its session goes on, the peer's close notice arrives, or it is
paused. -/
inductive Traffic : Server R → Server R → Prop
  | on {d : Server R} {id : TlsId} {c : TlsConnection R} (h : d.state.connections.lookup id = some c)
      (connection : R.Conn) (peerCloseNotify paused : Bool) (produced : List (SocketId × Bytes)) :
      Traffic d { d.setState (d.state.setConnection id { c with connection, peerCloseNotify, paused }) with
        produced }

abbrev Carries {α : Type} (m : Handler R α) : Prop := Moves (fun d => d) Traffic m

theorem Carries.tidy {α : Type} {m : Handler R α} (hm : Carries m) : Tidy m := by
  apply hm.lift
  rintro d _ ⟨h⟩
  exact ⟨rfl, rfl, .changed h rfl rfl fun hc => hc⟩

theorem carries_setPaused (id : TlsId) (paused : Bool) :
    Carries (setPaused id paused : Handler R Unit) := by
  apply moves_within
  intro d
  cases h : d.state.connections.lookup id with
  | none =>
    simp only [Server.onState, Server.setState, h]
    exact .refl
  | some c =>
    simp only [Server.onState, h]
    exact .single (.on h c.connection c.peerCloseNotify paused d.produced)

theorem tidy_setStarted (id : TlsId) : Tidy (setStarted id : Handler R Unit) := by
  apply moves_within
  intro d
  cases h : d.state.listeners.lookup id with
  | none =>
    simp only [Server.onState, Server.setState, h]
    exact .refl
  | some l =>
    simp only [Server.onState, Server.setState, h]
    exact .single ⟨rfl, rfl, .started h⟩

theorem carries_takeCiphertext (id : TlsId) : Carries (takeCiphertext id : Handler R _) := by
  apply moves_within
  intro d
  cases h : d.state.connections.lookup id with
  | none =>
    exact .refl
  | some c =>
    dsimp only
    split <;> exact .single (.on h _ c.peerCloseNotify c.paused _)

theorem carries_encryptPlaintext (id : TlsId) (source : Handle) (data : Bytes) :
    Carries (encryptPlaintext id source data : Handler R _) := by
  apply moves_within
  intro d
  cases h : d.state.connections.lookup id with
  | none =>
    exact .refl
  | some c =>
    dsimp only
    split
    · exact .refl
    · split
      · exact .refl
      · split <;> exact .single (.on h _ c.peerCloseNotify c.paused _)

theorem carries_processTls (id : TlsId) (data : Bytes) :
    Carries (processTls id data : Handler R _) := by
  apply moves_within
  intro d
  cases h : d.state.connections.lookup id with
  | none =>
    simp only [Server.onState, Server.setState, h]
    exact .refl
  | some c =>
    simp only [Server.onState, h]
    exact .single (.on h _ _ c.paused d.produced)

/-! ### Helpers and handlers -/

theorem apart_armTimeout (id : TlsId) : Apart (armTimeout id : Handler R Unit) := by
  apply Still.bind
  · apply Still.guarded
    exact (apart_readConfig _).bind fun _ => still_look _
  · intro timeout
    exact apart_suspend rfl

theorem expects_connectSocket (options : ClientOptions R) (tls : R.Conn) (pending : Pending)
    (connected : Except String SocketId) :
    Expects connected.toOption.toList (connectSocket options tls pending connected) := by
  unfold connectSocket
  split
  · exact expects_of_apart (apart_reply _ _)
  · apply expects_after (apart_capacityError true)
    intro full
    split
    · exact expects_of_apart ((apart_shutdownSocket _).bind fun _ => apart_reply _ _)
    · exact expects_callNet _ rfl

theorem expects_listenSocket (options : ServerOptions R) (pending : Pending)
    (listening : Except String SocketId) :
    Expects listening.toOption.toList (listenSocket options pending listening) := by
  unfold listenSocket
  split
  · exact expects_of_apart (apart_reply _ _)
  · exact expects_callNet _ rfl

theorem apart_startListener (id : TlsId) (pending : Pending) :
    Apart (startListener id pending : Handler R Unit) := by
  apply Still.bind
  · apply Still.guarded
    apply (still_look _).bind
    intro found
    split
    · exact (apart_reply _ _).bind fun _ => still_pure _
    · split
      · exact still_pure _
      · exact (apart_reply _ _).bind fun _ => still_pure _
  · intro socket
    split
    · exact still_pure ()
    · exact apart_callNet _ rfl

theorem sequential_tidy : Sequential (R := R) fun m => Tidy m where
  pure := moves_pure
  bind := Moves.bind
  emit _ _ := (apart_emit _ _).moves
  askNet _ := (apart_askNet _).moves
  readState _ := (apart_readState _).moves

theorem tidy_announceIfReady (id : TlsId) : Tidy (announceIfReady id : Handler R Unit) := by
  apply Moves.bind
  · apply moves_within
    intro d
    cases h : d.state.connections.lookup id with
    | none =>
      simp only [Server.onState, Server.setState, h]
      exact .refl
    | some c =>
      simp only [Server.onState, Server.setState, h]
      split
      · exact .refl
      · rename_i hready
        have hannounced : c.announced = false := by
          cases hc : c.announced with
          | false => rfl
          | true => simp only [hc, Bool.true_or, not_true] at hready
        exact .single ⟨rfl, rfl, .announced h hannounced⟩
  · intro ready
    split
    · exact moves_pure ()
    · exact ((apart_replyTo _ _).bind fun _ => apart_emit _ _).moves

theorem apart_shutdownIfClosed (id : TlsId) :
    Apart (shutdownIfClosed id : Handler R Unit) := by
  apply (apart_readState _).bind
  intro closed
  apply still_onlyIf
  apply Still.guarded
  apply (still_look _).bind
  intro socket
  split
  · exact still_pure ()
  · exact apart_shutdownSocket _

theorem quiet_tidy : Quiet (R := R) fun m => Tidy m where
  toSequential := sequential_tidy
  fail := sequential_tidy.fail (fun _ _ => (apart_reply _ _).moves) tidy_removeConnection
  takeCiphertext id := (carries_takeCiphertext id).tidy
  encryptPlaintext id source data := (carries_encryptPlaintext id source data).tidy
  processTls id data := (carries_processTls id data).tidy
  announceIfReady := tidy_announceIfReady
  shutdownIfClosed id := (apart_shutdownIfClosed id).moves

theorem tidy_closeConnection (id : TlsId) (pending : Pending) :
    Tidy (closeConnection id pending : Handler R Unit) := by
  apply Moves.bind
  · apply Moves.guarded
    intro w a w' hrun
    rw [bind_look] at hrun
    cases h : w.data.state.connections.lookup id with
    | none =>
      rw [h] at hrun
      exact ((apart_reply _ _).bind fun _ => still_pure _).moves w a w' hrun
    | some c =>
      rw [h] at hrun
      dsimp only at hrun
      split at hrun
      · exact ((apart_reply _ _).bind fun _ => still_pure _).moves w a w' hrun
      · split at hrun
        · exact ((apart_reply _ _).bind fun _ => still_pure _).moves w a w' hrun
        · cases hrun
          exact .single ⟨rfl, rfl, .changed h rfl rfl fun _ hopen => by cases hopen⟩
  · intro socket
    split
    · exact moves_pure ()
    · exact quiet_tidy.flushOrFail id (apart_suspend rfl).moves

theorem follows_tidy : Follows (R := R) fun m => Tidy m where
  toQuiet := quiet_tidy
  reply _ _ := (apart_reply _ _).moves
  suspend h := (apart_suspend h).moves
  capacityError _ := (apart_capacityError _).moves
  removeListener := tidy_removeListener
  removeConnection := tidy_removeConnection
  startListener id pending := (apart_startListener id pending).moves
  closeConnection := tidy_closeConnection

theorem tidy_shutdown (id : TlsId) (source : Handle) :
    Tidy (shutdown id source : Handler R Answer) := by
  apply still_acquire.moves.bind
  intro _
  apply (still_look _).moves.bind
  intro listener
  split
  · split
    · apply (tidy_removeListener id).bind
      intro _
      apply Still.moves
      apply (apart_shutdownSocket _).bind
      intro _
      exact still_release.bind fun _ => still_pure _
    · exact (still_release.bind fun _ => still_pure _).moves
  · exact still_release.moves.bind fun _ => follows_tidy.shutdownConnection id source

theorem tidy_socketClosed (socket : SocketId) (error : Option String) :
    Tidy (socketClosed socket error : Handler R Unit) := by
  apply still_acquire.moves.bind
  intro _
  apply (still_look _).moves.bind
  intro listener
  split
  · exact (tidy_removeListener _).bind fun _ => still_release.moves
  · exact still_release.moves.bind fun _ => follows_tidy.connectionClosed socket error

theorem tidy_onCommand (pending : Pending) (command : Command R) :
    Tidy (onCommand pending command) := by
  cases command with
  | connect options => exact follows_tidy.connect options pending
  | listen options => exact follows_tidy.listen options pending
  | start id => exact follows_tidy.start id pending
  | pause id => exact follows_tidy.pause id pending
  | send id data high =>
    exact (quiet_tidy.sendPlaintext id pending.source data high).bind fun _ =>
      (apart_reply _ _).moves
  | sendWait id data high => exact follows_tidy.sendPlaintextWait id pending data high
  | close id => exact follows_tidy.close id pending
  | shutdown id =>
    exact (tidy_shutdown id pending.source).bind fun _ => (apart_reply _ _).moves
  | info id => exact ((apart_readState _).bind fun _ => apart_reply _ _).moves
  | handshakeTimeout id | closeFailed id =>
    exact (apart_readState _).moves.bind fun _ => moves_onlyIf fun _ => quiet_tidy.fail id _

def Task.opens : Task R → Bool
  | .connecting .. | .listening .. => true
  | _ => false

theorem tidy_complete {task : Task R} {completion : Completion} {rest : Handler R Unit}
    (h : complete task completion = some rest) (hno : task.allocates = false)
    (hopens : task.opens = false) : Tidy rest := by
  cases task <;> cases completion <;> cases h <;> (try cases hno) <;> try cases hopens
  case startingConnection.finished id pending result =>
    exact (moves_onlyIf fun _ => (carries_setPaused id false).tidy).bind fun _ => (apart_reply _ _).moves
  case startingListener.finished id pending result =>
    exact (moves_onlyIf fun _ => tidy_setStarted id).bind fun _ => (apart_reply _ _).moves
  case pausing.finished id pending result =>
    exact (moves_onlyIf fun _ => (carries_setPaused id true).tidy).bind fun _ => (apart_reply _ _).moves
  case sending.finished id pending result =>
    exact (quiet_tidy.plaintextSent id result).bind fun _ => (apart_reply _ _).moves
  case closingListener.finished pending result => exact (apart_reply _ _).moves
  case accepting.finished id result =>
    cases result with
    | error e => exact quiet_tidy.fail id _
    | ok _ => exact (apart_armTimeout id).moves
  case spawnedClose.polled id socket => exact (apart_callNet _ rfl).moves
  case closingConnection.finished id result =>
    cases result with
    | error e => exact (apart_sendSelf _).moves
    | ok _ => exact moves_pure ()
  case sleeping.polled id timeoutMs => exact (apart_sendSelf _).moves

/-! ### Insertions -/

/-- **The steps that add an entry**: the end of `connect`, the end of `listen`, and `accept`, which
has looked at the limits in the same step. -/
inductive Insertion (d : Server R) : Action R → State R → Prop
  | connected {i : ℕ} {options : ClientOptions R} {tls : R.Conn} {pending : Pending}
      {socket : SocketId} {addresses : Option Addresses} {id : TlsId} {c : TlsConnection R}
      (htask : d.tasks[i]? = some (.connectInfo options tls pending socket))
      (hid : d.state.allocate = some id) (hsocket : c.socket = socket)
      (hannounced : c.announced = false) (horderly : Orderly c) :
      Insertion d (.wake i (.informed addresses)) (d.state.insertConnection id c)
  | listening {i : ℕ} {options : ServerOptions R} {pending : Pending} {socket : SocketId}
      {addresses : Option Addresses} {id : TlsId} {l : Listener R}
      (htask : d.tasks[i]? = some (.listenInfo options pending socket))
      (hid : d.state.allocate = some id) (hsocket : l.socket = socket) :
      Insertion d (.wake i (.informed addresses)) (d.state.insertListener id l)
  | accepted {socket listenSocket : SocketId} {peer : SocketAddr} {id : TlsId}
      {c : TlsConnection R} (hroom : d.atCapacity true = none) (hid : d.state.allocate = some id)
      (hsocket : c.socket = socket) (hannounced : c.announced = false) (horderly : Orderly c) :
      Insertion d (.socket (.accept socket listenSocket peer)) (d.state.insertConnection id c)

theorem allocating_eq_ok {insert : TlsId → Handler R Unit} (h : allocating insert w = .ok (id, w')) :
    w.data.state.allocate = some id ∧ ∃ w₀ w₁, insert id w₀ = .ok ((), w₁) ∧ w₀.data = w.data
      ∧ w'.data = w₁.data := by
  obtain ⟨w₂, h, hdata⟩ := guarded_eq_ok h
  rw [bind_look] at h
  cases hfound : w.data.state.allocate with
  | none =>
    rw [hfound] at h
    cases h
  | some found =>
    rw [hfound] at h
    obtain ⟨_, w₁, hinsert, h⟩ := bind_eq_ok h
    cases h
    exact ⟨rfl, _, _, hinsert, rfl, hdata⟩

theorem insertConnection_eq_ok {c : TlsConnection R} (h : insertConnection id c w = .ok ((), w')) :
    w'.data = w.data.setState (w.data.state.insertConnection id c) := by
  cases h
  rfl

theorem allocating_connection {c : TlsId → TlsConnection R}
    (h : allocating (fun id => insertConnection id (c id)) w = .ok (id, w')) :
    w.data.state.allocate = some id
      ∧ w'.data.cells = (w.data.config, w.data.state.insertConnection id (c id), w.data.incoming) := by
  obtain ⟨hid, w₀, w₁, hinsert, hfrom, hto⟩ := allocating_eq_ok h
  cases hinsert
  rw [hto, ← hfrom]
  exact ⟨hfrom ▸ hid, rfl⟩

theorem allocating_listener {l : Listener R}
    (h : allocating (fun id => insertListener id l) w = .ok (id, w')) :
    w.data.state.allocate = some id
      ∧ w'.data.cells = (w.data.config, w.data.state.insertListener id l, w.data.incoming) := by
  obtain ⟨hid, w₀, w₁, hinsert, hfrom, hto⟩ := allocating_eq_ok h
  cases hinsert
  rw [hto, ← hfrom]
  exact ⟨hfrom ▸ hid, rfl⟩

def Action.reported : Action R → List SocketId
  | .wake _ (.opened result) => result.toOption.toList
  | .socket (.accept socket _ _) => [socket]
  | _ => []

/-- The sockets that tasks still wait for after the one that wakes has left. -/
def Server.remaining (d : Server R) : Action R → List SocketId
  | .wake i _ => (d.tasks.eraseIdx i).filterMap Task.socket?
  | _ => d.incoming

theorem remaining_sublist (d : Server R) (a : Action R) : (d.remaining a).Sublist d.incoming := by
  cases a with
  | wake => exact (List.eraseIdx_sublist ..).filterMap _
  | command | socket | net => exact .refl _

def Grows (d : Server R) (a : Action R) (d' : Server R) : Prop :=
  ∃ s l, (s = d.state ∧ l.Sublist (d.incoming ++ a.reported) ∨ Insertion d a s ∧ l = d.remaining a)
    ∧ ReflTransGen Step (d.config, s, l) d'.cells

variable {a : Action R}

theorem Tidy.grows {α : Type} {m : Handler R α} (hm : Tidy m) {b : α}
    (hw : w.data.cells = (d.config, d.state, d.remaining a)) (h : m w = .ok (b, w')) :
    Grows d a w'.data := by
  have hkept := (remaining_sublist d a).trans (List.sublist_append_left _ a.reported)
  refine ⟨d.state, _, .inl ⟨rfl, hkept⟩, ?_⟩
  have hpath := hm w b w' h
  rw [hw] at hpath
  exact hpath

theorem Expects.grows {m : Handler R Unit} (hm : Expects a.reported m)
    (hw : w.data.cells = (d.config, d.state, d.remaining a)) (h : m w = .ok ((), w')) :
    Grows d a w'.data := by
  obtain ⟨l, hl, hcells⟩ := hm w () w' h
  rw [hw] at hl hcells
  refine ⟨d.state, l, .inl ⟨rfl, hl.trans ((remaining_sublist d a).append_right _)⟩, ?_⟩
  rw [hcells]

theorem grows_connectReady {i : ℕ} {options : ClientOptions R} {tls : R.Conn} {pending : Pending}
    {addresses : Option Addresses}
    (htask : d.tasks[i]? = some (.connectInfo options tls pending socket))
    (hw : w.data.cells = (d.config, d.state, d.remaining (.wake i (.informed addresses))))
    (h : connectReady options tls pending socket addresses w = .ok ((), w')) :
    Grows d (.wake i (.informed addresses)) w'.data := by
  obtain ⟨bufferLimit, w₁, h₁, h⟩ := bind_eq_ok h
  obtain ⟨default, w₂, h₂, h⟩ := bind_eq_ok h
  obtain ⟨id, w₃, h₃, h⟩ := bind_eq_ok h
  have hcells : w₂.data.cells = _ :=
    (apart_readConfig _ w₁ default w₂ h₂).trans ((apart_readConfig _ w bufferLimit w₁ h₁).trans hw)
  obtain ⟨hid, hinserted⟩ := allocating_connection h₃
  obtain ⟨hconfig, hstate, hincoming⟩ := cells_eq hcells
  rw [hconfig, hstate, hincoming] at hinserted
  have hafter := quiet_tidy.flushOrFail id (apart_armTimeout id).moves w₃ () w' h
  rw [hinserted] at hafter
  refine ⟨_, _, .inr ⟨.connected htask (hstate ▸ hid) ?_ ?_ ?_, rfl⟩, hafter⟩
  · rfl
  · rfl
  · exact fun _ => rfl

theorem grows_listenReady {i : ℕ} {options : ServerOptions R} {pending : Pending}
    {addresses : Option Addresses} (htask : d.tasks[i]? = some (.listenInfo options pending socket))
    (hw : w.data.cells = (d.config, d.state, d.remaining (.wake i (.informed addresses))))
    (h : listenReady options pending socket addresses w = .ok ((), w')) :
    Grows d (.wake i (.informed addresses)) w'.data := by
  obtain ⟨id, w₁, h₁, h⟩ := bind_eq_ok h
  obtain ⟨hid, hinserted⟩ := allocating_listener h₁
  obtain ⟨hconfig, hstate, hincoming⟩ := cells_eq hw
  rw [hconfig, hstate, hincoming] at hinserted
  have hafter := (apart_reply pending (.id id)).moves (R := Step) w₁ () w' h
  rw [hinserted] at hafter
  exact ⟨_, _, .inr ⟨.listening htask (hstate ▸ hid) rfl, rfl⟩, hafter⟩

theorem apart_acceptedBy (socket listenSocket : SocketId) :
    Apart (acceptedBy socket listenSocket : Handler R _) := by
  apply Still.guarded
  apply (still_look _).bind
  intro found
  split
  · exact (apart_shutdownSocket _).bind fun _ => still_pure _
  · exact still_pure _

theorem capacityError_eq_ok {handshake : Bool} {full : Option String}
    (h : capacityError handshake w = .ok (full, w')) : full = w.data.atCapacity handshake := by
  obtain ⟨w₁, h, -⟩ := guarded_eq_ok h
  obtain ⟨w₂, h, -⟩ := guarded_eq_ok h
  cases h
  rfl

theorem atCapacity_cells {d' : Server R} (h : d'.cells = d.cells) (handshake : Bool) :
    d'.atCapacity handshake = d.atCapacity handshake := by
  obtain ⟨hconfig, hstate, -⟩ := cells_eq h
  unfold Server.atCapacity
  rw [hconfig, hstate]

theorem insertAccepted_data {peer : SocketAddr} {listen : TlsId} {l : Listener R} {tls : R.Conn}
    (h : insertAccepted socket peer listen l tls w = .ok (id, w')) :
    w.data.state.allocate = some id ∧ ∃ c : TlsConnection R, c.socket = socket
      ∧ c.announced = false ∧ c.connectPending = none ∧ c.closePending = none
      ∧ w'.data = w.data.setState (w.data.state.insertConnection id c) := by
  obtain ⟨bufferLimit, w₁, h₁, h⟩ := bind_eq_ok h
  have hsame : w₁.data = w.data := (within_eq_ok h₁).2
  obtain ⟨hid, w₀, w₂, hinsert, hfrom, hto⟩ := allocating_eq_ok h
  obtain ⟨timeout, w₃, h₃, hinsert⟩ := bind_eq_ok hinsert
  have hsame₃ : w₃.data = w.data := ((within_eq_ok h₃).2.trans hfrom).trans hsame
  have hinserted := insertConnection_eq_ok hinsert
  rw [hsame₃] at hinserted
  refine ⟨hsame ▸ hid, _, ?_, ?_, ?_, ?_, hto.trans hinserted⟩
  · rfl
  · rfl
  · rfl
  · rfl

theorem grows_accept {listenSocket : SocketId} {peer : SocketAddr} (hw : w.data.cells = d.cells)
    (h : accept socket listenSocket peer w = .ok ((), w')) :
    Grows d (.socket (.accept socket listenSocket peer)) w'.data := by
  obtain ⟨found, w₁, h₁, h⟩ := bind_eq_ok h
  have hcells₁ : w₁.data.cells = d.cells := (apart_acceptedBy _ _ w found w₁ h₁).trans hw
  split at h
  · exact Tidy.grows (moves_pure ()) hcells₁ h
  · rename_i listen l
    obtain ⟨full, w₂, h₂, h⟩ := bind_eq_ok h
    have hcells₂ : w₂.data.cells = d.cells :=
      (apart_capacityError true w₁ full w₂ h₂).trans hcells₁
    have hfull : full = d.atCapacity true :=
      (capacityError_eq_ok h₂).trans (atCapacity_cells hcells₁ true)
    cases full with
    | some reason => exact Tidy.grows (apart_shutdownSocket _).moves hcells₂ h
    | none =>
      cases hserver : R.server l.config with
      | error e =>
        simp only [hserver] at h
        exact Tidy.grows (apart_shutdownSocket _).moves hcells₂ h
      | ok tls =>
        simp only [hserver] at h
        obtain ⟨id, w₃, h₃, h⟩ := bind_eq_ok h
        obtain ⟨hid, c, hsocket, hannounced, -, hclose, hinserted⟩ := insertAccepted_data h₃
        obtain ⟨hconfig, hstate, hincoming⟩ := cells_eq hcells₂
        have hcells₃ : w₃.data.cells = (d.config, d.state.insertConnection id c, d.incoming) := by
          rw [hinserted]
          show (w₂.data.config, w₂.data.state.insertConnection id c, w₂.data.incoming) = _
          rw [hconfig, hstate, hincoming]
        refine ⟨_, _, .inr ⟨.accepted hfull.symm (hstate ▸ hid) hsocket hannounced fun _ => hclose,
          rfl⟩, ?_⟩
        show ReflTransGen Step (d.config, _, d.incoming) _
        rw [← hcells₃]
        exact (apart_callNet _ rfl).moves w₃ () w' h

/-! ### One step -/

theorem grows_handle {a : Action R} {m : Handler R Unit} (hm : handle d a = some m)
    (hw : w.data = d) (h : m w = .ok ((), w')) : Grows d a w'.data := by
  have hcells : w.data.cells = d.cells := congrArg Server.cells hw
  cases a with
  | command pending command =>
    cases hm
    exact Tidy.grows (tidy_onCommand pending command) hcells h
  | net down =>
    cases hm
    exact Tidy.grows (m := change _) (still_change fun _ => by rfl).moves hcells h
  | socket event =>
    cases hm
    cases event with
    | accept id listen peer => exact grows_accept hcells h
    | data id data => exact Tidy.grows (quiet_tidy.receiveTls id data) hcells h
    | close id => exact Tidy.grows (tidy_socketClosed id none) hcells h
    | error id reason => exact Tidy.grows (tidy_socketClosed id (some reason)) hcells h
    | warning id kilobytes => exact Tidy.grows (quiet_tidy.warn id kilobytes) hcells h
    | udp => exact Tidy.grows (m := pure ()) (moves_pure ()) hcells h
  | wake i completion =>
    obtain ⟨task, htask, hm⟩ := Option.bind_eq_some_iff.mp hm
    obtain ⟨rest, hrest, rfl⟩ := Option.map_eq_some_iff.mp hm
    obtain ⟨_, w₁, h₁, h⟩ := bind_eq_ok h
    have hcells₁ : w₁.data.cells = (d.config, d.state, d.remaining (.wake i completion)) := by
      cases h₁
      rw [← hw]
      rfl
    cases hallocates : task.allocates with
    | false =>
      cases hopens : task.opens with
      | false => exact Tidy.grows (tidy_complete hrest hallocates hopens) hcells₁ h
      | true =>
        cases task <;> cases hopens <;> cases completion <;> cases hrest
        · exact Expects.grows (expects_connectSocket _ _ _ _) hcells₁ h
        · exact Expects.grows (expects_listenSocket _ _ _) hcells₁ h
    | true =>
      cases task <;> cases hallocates <;> cases completion <;> cases hrest
      case connectInfo.refl.informed.refl options tls pending socket addresses =>
        exact grows_connectReady htask hcells₁ h
      case listenInfo.refl.informed.refl options pending socket addresses =>
        exact grows_listenReady htask hcells₁ h

/-- **What a step does to the tables.**  It adds at most one entry and changes the rest, and the
configuration stays. -/
theorem act_tables {s s' : Service R} {a : Action R} (h : act a s = some s') :
    Grows s.world.data a s'.world.data := by
  unfold act at h
  split at h
  · cases h
  · obtain ⟨m, hm, h⟩ := Option.bind_eq_some_iff.mp h
    split at h
    · rename_i world hrun
      cases h
      exact grows_handle hm rfl hrun
    · cases h
      exact ⟨_, _, .inl ⟨rfl, List.sublist_append_left ..⟩, .refl⟩
    · cases h

end Rskynet.Tls
