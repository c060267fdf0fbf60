import Rskynet.Tls.Guards

/-!
# Lease assertions of the TLS service

* `handlers_complete_iff` — **PROVED**: in every reachable state, whatever comes next is handled to
  its end, with every guard dropped, unless it removes a listener under a guard or finds no free id.
-/

namespace Rskynet.Tls

open Cells Interleave Option

variable {R : Rustls}

/-- **The step removes a listener under a live guard**: a `Shutdown` by the owner of a listener, or
the end of a listener's socket. -/
def panics (d : Server R) : Action R → Bool
  | .command pending (.shutdown id) =>
    (d.state.listeners.lookup id).any fun l => l.owner = pending.source
  | .socket (.close socket) => (d.state.listenerSockets.lookup socket).isSome
  | .socket (.error socket _) => (d.state.listenerSockets.lookup socket).isSome
  | _ => false

def Task.allocates : Task R → Bool
  | .connectInfo .. => true
  | .listenInfo .. => true
  | _ => false

def hangs (d : Server R) : Action R → Bool
  | .socket (.accept _ listenSocket _) => acceptStarved d listenSocket
  | .wake i (.informed _) => (d.tasks[i]?).any Task.allocates && d.state.allocate.isNone
  | _ => false

/-! ### One step -/

theorem onCommand_ends (pending : Pending) (command : Command R) (d : Server R) :
    Ends (panics d (.command pending command)) false d (onCommand pending command) := by
  cases command with
  | connect options => exact ends_of_settles (follows_settles.connect options pending)
  | listen options => exact ends_of_settles (follows_settles.listen options pending)
  | start id => exact ends_of_settles (follows_settles.start id pending)
  | pause id => exact ends_of_settles (follows_settles.pause id pending)
  | send id data high =>
    apply ends_of_settles
    exact (quiet_settles.sendPlaintext id pending.source data high).bind fun _ => settles_reply _ _
  | sendWait id data high =>
    exact ends_of_settles (follows_settles.sendPlaintextWait id pending data high)
  | close id => exact ends_of_settles (follows_settles.close id pending)
  | shutdown id => exact (shutdown_ends id pending.source d).bind fun _ => settles_reply _ _
  | info id =>
    exact ends_of_settles ((settles_readState _).bind fun _ => settles_reply _ _)
  | handshakeTimeout id => exact ends_of_settles (quiet_settles.handshakeTimeout id)
  | closeFailed id reason => exact ends_of_settles (quiet_settles.closeFailed id reason)

theorem onSocket_ends (event : SocketEvent) (d : Server R) :
    Ends (panics d (.socket event)) (hangs d (.socket event)) d (onSocket event) := by
  cases event with
  | accept id listen peer => exact accept_ends id listen peer d
  | data id data => exact ends_of_settles (quiet_settles.receiveTls id data)
  | close id => exact socketClosed_ends id none d
  | error id reason => exact socketClosed_ends id (some reason) d
  | warning id kilobytes => exact ends_of_settles (quiet_settles.warn id kilobytes)
  | udp => exact ends_of_settles (settles_pure ())

theorem settles_complete {task : Task R} {completion : Completion} {rest : Handler R Unit}
    (h : complete task completion = some rest) (hno : task.allocates = false) :
    Settles free rest := by
  cases task <;> cases completion <;> cases h <;> try cases hno
  case connecting.opened options tls pending result =>
    exact settles_connectSocket options tls pending result
  case listening.opened options pending result => exact settles_listenSocket options pending result
  case startingConnection.finished id pending result =>
    exact (settles_onlyIf (settles_updateState _)).bind fun _ => settles_reply _ _
  case startingListener.finished id pending result =>
    exact (settles_onlyIf (settles_updateState _)).bind fun _ => settles_reply _ _
  case pausing.finished id pending result =>
    exact (settles_onlyIf (settles_updateState _)).bind fun _ => settles_reply _ _
  case sending.finished id pending result =>
    exact (quiet_settles.plaintextSent id result).bind fun _ => settles_reply _ _
  case closingListener.finished pending result => exact settles_reply _ _
  case accepting.finished id result =>
    cases result with
    | error e => exact quiet_settles.fail id _
    | ok _ => exact settles_armTimeout id
  case spawnedClose.polled id socket => exact settles_callNet _ _
  case closingConnection.finished id result =>
    cases result with
    | error e => exact settles_change _
    | ok _ => exact settles_pure ()
  case sleeping.polled id timeoutMs => exact settles_change _

theorem complete_ends {task : Task R} {completion : Completion} {rest : Handler R Unit}
    (h : complete task completion = some rest) (d : Server R) :
    Ends false (task.allocates && d.state.allocate.isNone) d rest := by
  cases hallocates : task.allocates with
  | false => exact ends_of_settles (settles_complete h hallocates)
  | true =>
    cases task <;> cases hallocates <;> cases completion <;> cases h
    case connectInfo.refl.informed.refl options tls pending socket addresses =>
      exact connectReady_ends options tls pending socket addresses d
    case listenInfo.refl.informed.refl options pending socket addresses =>
      exact listenReady_ends options pending socket addresses d

/-- **Every message and every completion ends as `panics` and `hangs` say.** -/
theorem handle_ends {d : Server R} {a : Action R} {m : Handler R Unit}
    (h : handle d a = some m) : Ends (panics d a) (hangs d a) d m := by
  cases a with
  | command pending command =>
    cases h
    exact onCommand_ends pending command d
  | socket event =>
    cases h
    exact onSocket_ends event d
  | net down =>
    cases h
    exact ends_of_settles (settles_change _)
  | wake i completion =>
    obtain ⟨task, htask, h⟩ := bind_eq_some_iff.mp h
    obtain ⟨rest, hrest, rfl⟩ := map_eq_some_iff.mp h
    have hhangs : hangs d (.wake i completion) = (task.allocates && d.state.allocate.isNone) := by
      cases completion with
      | informed addresses => simp only [hangs, htask, any_some]
      | opened | finished | polled => cases task <;> first | rfl | cases hrest
    rw [hhangs]
    exact Ends.after rfl (complete_ends hrest _)

/-! ### Runs -/

theorem act_fate {s : Service R} {a : Action R} (hfree : s.world.held = free)
    (hcalm : s.panicked = none) (ha : (handle s.world.data a).isSome) :
    if panics s.world.data a then act a s = some { s with panicked := some .state }
    else if hangs s.world.data a then act a s = none
    else ∃ d, act a s = some { s with world := ⟨free, d⟩ } := by
  obtain ⟨m, hm⟩ := isSome_iff_exists.mp ha
  have hends := handle_ends hm
  have hworld : s.world = ⟨free, s.world.data⟩ := by
    rw [← hfree]
  unfold Ends SettlesAt at hends
  rw [← hworld] at hends
  unfold act
  rw [hm, hcalm, isSome_none, if_neg Bool.false_ne_true, bind_some]
  split
  · rename_i hpanics
    rw [if_pos hpanics] at hends
    rw [hends]
  · rename_i hpanics
    rw [if_neg hpanics] at hends
    split
    · rename_i hhangs
      rw [if_pos hhangs] at hends
      rw [hends]
    · rename_i hhangs
      rw [if_neg hhangs] at hends
      obtain ⟨_, d, hd⟩ := hends
      refine ⟨d, ?_⟩
      rw [hd]

theorem held_of_act {s s' : Service R} {a : Action R} (h : act a s = some s')
    (hfree : s.world.held = free) : s'.world.held = free := by
  have hcalm : s.panicked = none := by
    cases hp : s.panicked with
    | none => rfl
    | some cell =>
      unfold act at h
      rw [hp] at h
      cases h
  have ha : (handle s.world.data a).isSome := by
    cases hm : handle s.world.data a with
    | some m => rfl
    | none =>
      unfold act at h
      rw [hcalm, hm] at h
      cases h
  have hfate := act_fate hfree hcalm ha
  split at hfate
  · rw [hfate] at h
    cases h
    exact hfree
  · split at hfate
    · rw [hfate] at h
      cases h
    · obtain ⟨d, hd⟩ := hfate
      rw [hd] at h
      cases h
      rfl

theorem held_of_exec {config : TlsConfig} {run : List (Action R)} {s : Service R}
    (h : exec act run (initial config) = some s) : s.world.held = free := by
  have hrun : Reachable (fun s s' => ∃ a, act a s = some s') (initial config) s :=
    Reachable.of_run h
  apply hrun.invariant (I := fun s => s.world.held = free)
  · rfl
  · rintro s s' hs ⟨a, hact⟩
    exact held_of_act hact hs

/-- **Handlers complete exactly without a listener removed under a guard.**  In every state that the
service can reach, whatever it can receive next is handled to its end without a second borrow of a
cell if and only if it is neither of the two removals, nor an allocation with every id in use. -/
theorem handlers_complete_iff (config : TlsConfig) (run : List (Action R)) (s : Service R)
    (hrun : exec act run (initial config) = some s) (hcalm : s.panicked = none) (a : Action R)
    (ha : (handle s.world.data a).isSome) :
    (∃ s', act a s = some s' ∧ s'.panicked = none)
      ↔ panics s.world.data a = false ∧ hangs s.world.data a = false := by
  have hfree : s.world.held = free := held_of_exec hrun
  have hfate := act_fate hfree hcalm ha
  cases hpanics : panics s.world.data a with
  | true =>
    rw [hpanics, if_pos rfl] at hfate
    constructor
    · rintro ⟨s', hs', hnone⟩
      rw [hfate] at hs'
      cases hs'
      cases hnone
    · rintro ⟨hno, -⟩
      cases hno
  | false =>
    rw [hpanics, if_neg Bool.false_ne_true] at hfate
    cases hhangs : hangs s.world.data a with
    | true =>
      rw [hhangs, if_pos rfl] at hfate
      constructor
      · rintro ⟨s', hs', -⟩
        rw [hfate] at hs'
        cases hs'
      · rintro ⟨-, hno⟩
        cases hno
    | false =>
      rw [hhangs, if_neg Bool.false_ne_true] at hfate
      obtain ⟨d, hd⟩ := hfate
      exact ⟨fun _ => ⟨rfl, rfl⟩, fun _ => ⟨_, hd, hcalm⟩⟩

/-! ### Runs that stop -/

/-- A connection of the sample library: the number of its next record, the records and the plaintext
that wait to be taken, and whether the handshake is still going on. -/
structure SampleConn where
  seq : UInt8
  out : Bytes
  plain : Bytes
  handshaking : Bool

/-- A library that numbers its records and does not encrypt them.  Its handshake ends with the first
bytes it receives. -/
def sample : Rustls where
  ClientConfig := Unit
  ServerConfig := Unit
  ServerName := Unit
  Conn := SampleConn
  client := fun _ _ => .ok ⟨0, [], [], true⟩
  server := fun _ => .ok ⟨0, [], [], true⟩
  setBufferLimit := fun c _ => c
  isHandshaking := fun c => c.handshaking
  protocolVersion := fun _ => some .tls13
  cipherSuite := fun _ => none
  alpn := fun _ => none
  write := fun c data => (.ok data.length, { c with seq := c.seq + 1, out := c.out ++ c.seq :: data })
  wantsWrite := fun c => !c.out.isEmpty
  writeTls := fun c => (.ok c.out, { c with out := [] })
  readTls := fun c data => ((.ok data.length, data.length), { c with plain := c.plain ++ data })
  processNewPackets := fun c => (.ok false, { c with handshaking := false })
  read := fun c => if c.plain.isEmpty then (.wouldBlock, c) else (.data c.plain, { c with plain := [] })
  sendCloseNotify := fun c => { c with out := c.out ++ [255] }
  backlog := fun c => c.out.length
  backlog_writeTls := by
    intro c bytes hwants _
    apply List.length_pos_iff.mpr
    rintro hnil
    rw [hnil] at hwants
    cases hwants
  unread := fun c => c.plain.length
  unread_read := by
    intro c bytes hread hne
    cases hplain : c.plain with
    | nil =>
      rw [hplain] at hread
      cases hread
    | cons b rest => exact Nat.succ_pos _

def owner (session : ℕ) : Pending := ⟨7, session⟩

def listening : List (Action sample) :=
  [.command (owner 1) (.listen ⟨"127.0.0.1:443", ()⟩),
   .wake 0 (.opened (.ok 5)),
   .wake 0 (.informed none)]

def incoming : Action sample := .socket (.accept 6 5 "127.0.0.1:50000")

theorem listening_end : (exec act listening (initial {})).map (fun s => (s.panicked,
    (handle s.world.data incoming).isSome, panics s.world.data incoming, hangs s.world.data incoming))
      = some (none, true, false, false) := by
  decide +kernel

/-- A listener accepts a connection: nothing is removed, and there are ids left. -/
theorem complete_of_accept : ∃ s, exec act listening (initial {}) = some s
    ∧ panics s.world.data incoming = false ∧ hangs s.world.data incoming = false
    ∧ ∃ s', act incoming s = some s' ∧ s'.panicked = none := by
  obtain ⟨s, hs, hend⟩ := map_eq_some_iff.mp listening_end
  obtain ⟨hcalm, hend⟩ := Prod.mk.inj hend
  obtain ⟨hoffered, hend⟩ := Prod.mk.inj hend
  obtain ⟨hpanics, hhangs⟩ := Prod.mk.inj hend
  exact ⟨s, hs, hpanics, hhangs,
    (handlers_complete_iff {} listening s hs hcalm incoming hoffered).mpr ⟨hpanics, hhangs⟩⟩

/-- **Three messages stop the service at the lease assertion of its state**, under the default
configuration: the owner of a listener shuts it down, or the listener's socket ends. -/
theorem second_borrow_of_state :
    (exec act (listening ++ [.command (owner 2) (.shutdown 1)]) (initial {})).map
        (fun s => s.panicked) = some (some .state)
    ∧ (exec act (listening ++ [.socket (.close 5)]) (initial {})).map
        (fun s => s.panicked) = some (some .state)
    ∧ (exec act (listening ++ [.socket (.error 5 "accept")]) (initial {})).map
        (fun s => s.panicked) = some (some .state) := by
  decide +kernel

end Rskynet.Tls
