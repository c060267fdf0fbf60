import Rskynet.Lib.Loops
import Rskynet.Net.Sockets

/-!
# The network service: sockets and readiness

The service owns all sockets and handles commands, readiness events and the completions of its own
tasks one after another. What the operating system answers to the calls of a step is given with the
step, as one list for every kind of call; once a list has run out, a read or a write would block and
any other call succeeds.
-/

namespace Rskynet.Net

open List

structure NetConfig where
  maxSocket : ℕ := 65536
  minReadBuffer : ℕ := 64
  warnSize : ℕ := 1024 * 1024
  writeHighWater : ℕ := 1024 * 1024
  writeLowWater : ℕ := 512 * 1024

/-- What a node's network layer is set up with: the configuration, and which texts are literal
addresses. -/
structure Setup where
  config : NetConfig
  parse : String → Option SocketAddr

/-! ### The operating system -/

inductive Accepted where
  | peer (addr : SocketAddr)
  | interrupted
  | failed (reason : String)

/-- A read; no data is the end of the stream. -/
inductive Received where
  | data (bytes : List UInt8)
  | interrupted
  | failed (reason : String)

inductive Packet where
  | packet (sender : SocketAddr) (data : List UInt8)
  | interrupted
  | failed (reason : String)

inductive Written where
  | count (n : ℕ)
  | interrupted
  | failed (reason : String)

/-- The answers to the calls of a step; for calls that only succeed or fail, `none` is success. -/
structure Os where
  registers : List (Option String) := []
  binds : List (Option String) := []
  connects : List (Option String) := []
  faults : List (Option String) := []
  settings : List (Option String) := []
  accepts : List Accepted := []
  reads : List Received := []
  packets : List Packet := []
  writes : List Written := []

namespace Os

def register (os : Os) : Option String × Os :=
  (os.registers.headD none, { os with registers := os.registers.tail })

def bind (os : Os) : Option String × Os :=
  (os.binds.headD none, { os with binds := os.binds.tail })

def dial (os : Os) : Option String × Os :=
  (os.connects.headD none, { os with connects := os.connects.tail })

def takeError (os : Os) : Option String × Os :=
  (os.faults.headD none, { os with faults := os.faults.tail })

def setNodelay (os : Os) : Option String × Os :=
  (os.settings.headD none, { os with settings := os.settings.tail })

end Os

/-! ### The service -/

inductive SocketEvent where
  | accept (id listen : SocketId) (peer : SocketAddr)
  | data (id : SocketId) (bytes : List UInt8)
  | udp (id : SocketId) (sender : SocketAddr) (bytes : List UInt8)
  | close (id : SocketId)
  | error (id : SocketId) (reason : String)
  | warning (id : SocketId) (kilobytes : ℕ)
  deriving DecidableEq

structure SocketInfo where
  id : SocketId
  owner : Handle
  kind : Kind
  state : State
  paused : Bool
  udpPeer : Option SocketAddr
  writePending : ℕ
  reading : Bool
  writing : Bool
  deriving DecidableEq

def Socket.info (socket : Socket) : SocketInfo where
  id := socket.id
  owner := socket.owner
  kind := socket.kind
  state := socket.state
  paused := socket.paused
  udpPeer := socket.udpPeer
  writePending := socket.wb.size
  reading := !socket.paused && (socket.state = .listen || socket.state = .connected)
  writing := !socket.wb.isEmpty

inductive Answer where
  | id (id : SocketId)
  | info (info : SocketInfo)
  | infos (infos : List SocketInfo)
  | done
  | failed (reason : String)
  deriving DecidableEq

inductive Deferred where
  | listen
  | connect (deadlineMs : Option ℕ)
  | udp
  | udpForPeer
  | udpConnect (id : SocketId)
  deriving DecidableEq

/-- A suspended task: an address that is being resolved, or the timer of a connect. -/
inductive Task where
  | resolving (waiting : Pending) (deferred : Deferred)
  | timer (id : SocketId)
  deriving DecidableEq

/-- The service: its table, the answers of the operating system that are left, the clock, its
suspended tasks; and what it has answered, told the owners of sockets and written, oldest first. -/
structure Server where
  sockets : Sockets
  os : Os
  now : ℕ
  tasks : List Task
  replies : List (Pending × Answer)
  events : List (Handle × SocketEvent)
  written : List (SocketId × List UInt8)

def display (id : SocketId) : String := s!"#{id}"

def missing (id : SocketId) : Answer := .failed (display id ++ " 不存在，可能已经关了")

namespace Server

def reply (net : Server) (waiting : Pending) (answer : Answer) : Server :=
  if waiting.isSilent then net else { net with replies := net.replies ++ [(waiting, answer)] }

def replyIf (net : Server) (waiting : Pending) (answer : Option Answer) : Server :=
  match answer with
  | none => net
  | some answer => net.reply waiting answer

def replyTo (net : Server) (waiting : Option Pending) (answer : Answer) : Server :=
  match waiting with
  | none => net
  | some waiting => net.reply waiting answer

def replyAll (net : Server) (waiters : List Pending) (answer : Answer) : Server :=
  waiters.foldl (fun net waiting => net.reply waiting answer) net

def tell (net : Server) (owner : Handle) (event : SocketEvent) : Server :=
  { net with events := net.events ++ [(owner, event)] }

def tellIf (net : Server) (owner : Handle) (event : Option SocketEvent) : Server :=
  match event with
  | none => net
  | some event => net.tell owner event

def spawn (net : Server) (task : Task) : Server := { net with tasks := net.tasks ++ [task] }

def modify (net : Server) (id : SocketId) (f : Socket → Socket) : Server :=
  { net with sockets := net.sockets.modify id f }

def call (net : Server) (f : Os → Option String × Os) : Option String × Server :=
  ((f net.os).1, { net with os := (f net.os).2 })

/-- `Socket::apply`: the registration changes when the interest does. -/
def apply (net : Server) (id : SocketId) : Option String × Server :=
  match net.sockets.get id with
  | none => (none, net)
  | some socket =>
    if socket.desired = socket.interest then (none, net)
    else match net.call Os.register with
      | (some e, net) => (some e, net)
      | (none, net) => (none, net.modify id fun s => { s with interest := s.desired })

end Server

variable (setup : Setup)

/-! ### Closing and writing -/

/-- How the owner of a socket is told that it is closed. -/
inductive Farewell where
  | silent
  | closed
  | failed (reason : String)

namespace Farewell

def answer : Farewell → Answer
  | silent => .done
  | closed => .done
  | failed reason => .failed reason

def sendReason (id : SocketId) : Farewell → String
  | failed reason => reason
  | _ => display id ++ " 已关闭，发送未完成"

def event (id : SocketId) : Farewell → Option SocketEvent
  | silent => none
  | closed => some (.close id)
  | failed reason => some (.error id reason)

end Farewell

/-- What is left to do for a socket that is out of the table: everybody who waits is answered. -/
def dispose (socket : Socket) (farewell : Farewell) (net : Server) : Server :=
  let net := if socket.interest.isSome then (net.call Os.register).2 else net
  let net := net.replyTo socket.pending farewell.answer
  let net := net.replyAll socket.sendWaiters (.failed (farewell.sendReason socket.id))
  net.tellIf socket.owner (farewell.event socket.id)

def close (id : SocketId) (farewell : Farewell) (net : Server) : Server :=
  match net.sockets.remove id with
  | (none, _) => net
  | (some socket, sockets) => dispose socket farewell { net with sockets := sockets }

def releaseSendWaiters (id : SocketId) (net : Server) : Server :=
  match net.sockets.get id with
  | none => net
  | some socket =>
    if socket.wb.size > setup.config.writeLowWater ∨ socket.sendWaiters.isEmpty then net
    else (net.modify id fun s => { s with sendWaiters := [] }).replyAll socket.sendWaiters .done

def writeOnce (kind : Kind) (dest : Option SocketAddr) (net : Server) : Option Written × Server :=
  if kind = .udp ∧ dest = none then (some (.failed "invalid input parameter"), net)
  else (net.os.writes.head?, { net with os := { net.os with writes := net.os.writes.tail } })

/-- One turn of the loop of `NetService::flush`; it ends with whether everything has been written. -/
def flushTurn (id : SocketId) (net : Server) : Server ⊕ Server × Bool :=
  match net.sockets.get id with
  | none => .inr (net, false)
  | some socket =>
    let net := net.modify id fun s => { s with wb := s.wb.raise }
    match socket.wb.raise.high with
    | [] => .inr (net, true)
    | chunk :: _ =>
      if socket.kind = .listener then .inr (net, false)
      else match writeOnce socket.kind chunk.dest net with
        | (none, net) => .inr ((net.apply id).2, false)
        | (some (.failed reason), net) => .inr (close id (.failed ("写出错：" ++ reason)) net, false)
        | (some .interrupted, net) => .inl (releaseSendWaiters setup id net)
        | (some (.count n), net) =>
          let n := min n chunk.rest.length
          if n = 0 then .inr (close id (.failed "对端不再接收数据") net, false)
          else
            let net := net.modify id fun s => { s with wb := s.wb.consume n }
            let net := { net with written := net.written ++ [(id, chunk.rest.take n)] }
            .inl (releaseSendWaiters setup id net)

variable (id : SocketId) (net net' : Server)

theorem os_replyAll (waiters : List Pending) (answer : Answer) :
    (net.replyAll waiters answer).os = net.os := by
  unfold Server.replyAll
  induction waiters generalizing net with
  | nil => rfl
  | cons waiting waiters ih =>
    rw [foldl_cons, ih, Server.reply]
    split <;> rfl

theorem os_releaseSendWaiters :
    (releaseSendWaiters setup id net).os = net.os := by
  unfold releaseSendWaiters
  split
  · rfl
  · split
    · rfl
    · rw [os_replyAll]
      rfl

theorem writes_writeOnce {kind : Kind} {dest : Option SocketAddr} {net net' : Server} {w : Written}
    (h : writeOnce kind dest net = (some w, net')) (hw : ∀ reason, w ≠ .failed reason) :
    net'.os.writes.length < net.os.writes.length := by
  unfold writeOnce at h
  split at h
  · cases h
    exact absurd rfl (hw _)
  · injection h with hhead hnet
    subst hnet
    cases hwrites : net.os.writes with
    | nil =>
      rw [hwrites] at hhead
      cases hhead
    | cons w ws => simp only [tail_cons, length_cons, Nat.lt_succ_self]

theorem flushTurn_decreases
    (h : flushTurn setup id net = .inl net') : net'.os.writes.length < net.os.writes.length := by
  unfold flushTurn at h
  split at h
  · cases h
  · simp only at h
    split at h
    · cases h
    · split at h
      · cases h
      · split at h
        · cases h
        · cases h
        · rename_i hwrite
          cases h
          rw [os_releaseSendWaiters]
          have hless := writes_writeOnce hwrite nofun
          exact hless
        · rename_i hwrite
          split at h
          · cases h
          · cases h
            rw [os_releaseSendWaiters]
            have hless := writes_writeOnce hwrite nofun
            exact hless

/-- The loop of `NetService::flush`. -/
def flushLoop (id : SocketId) : Server → Server × Bool :=
  Loop.finish (flushTurn setup id) (fun net => net.os.writes.length) (flushTurn_decreases setup id)

/-- The end of `NetService::flush`: a socket that was to be closed when everything is written is
closed now. -/
def flushed (id : SocketId) (net : Server) : Server :=
  match net.sockets.get id with
  | none => net
  | some socket =>
    if socket.state = .halfCloseWrite ∨ socket.state = .halfCloseRead then
      (close id .closed (net.modify id fun s => { s with pending := none })).replyTo socket.pending
        .done
    else (net.apply id).2

def flush (id : SocketId) (net : Server) : Server :=
  match flushLoop setup id net with
  | (net, false) => net
  | (net, true) => flushed id net

/-! ### Connecting -/

/-- How an attempt to connect to one of some addresses goes: no address can be dialled, the table is
full, the new socket cannot be registered, or it waits for the connection. -/
inductive Attempt where
  | undialed (net : Server) (reason : Option String)
  | full (net : Server)
  | refused (net : Server) (id : SocketId) (reason : String)
  | started (net : Server) (id : SocketId)

def Socket.connectingFor (waiting : Pending) (addrs : List SocketAddr) (deadlineMs : Option ℕ)
    (socket : Socket) : Socket :=
  { socket with
    pending := some waiting, connectFallbacks := addrs, connectDeadlineMs := deadlineMs }

/-- The loop of `NetService::do_connect_candidates` up to the address that can be dialled. -/
def attempt (waiting : Pending) (deadlineMs : Option ℕ) :
    List SocketAddr → Option String → Server → Attempt
  | [], lastError, net => .undialed net lastError
  | addr :: addrs, _, net =>
    match net.call Os.dial with
    | (some e, net) =>
      attempt waiting deadlineMs addrs (some ("连 " ++ addr ++ " 失败：" ++ e)) net
    | (none, net) =>
      match net.sockets.insert waiting.source .stream .connecting with
      | (none, sockets) => .full { net with sockets := sockets }
      | (some id, sockets) =>
        let net := ({ net with sockets := sockets } : Server).modify id
          (Socket.connectingFor waiting addrs deadlineMs)
        match net.apply id with
        | (some e, net) => .refused net id e
        | (none, net) => .started net id

/-- `NetService::do_connect_candidates`; no answer means that the caller waits for the socket. -/
def doConnectCandidates (addrs : List SocketAddr) (waiting : Pending) (deadlineMs : Option ℕ)
    (net : Server) : Option Answer × Server :=
  if deadlineMs.any (net.now ≥ ·) then (some (.failed "TCP 连接超时"), net)
  else match attempt waiting deadlineMs addrs none net with
    | .undialed net reason => (some (.failed (reason.getD "解析结果是空的，无法建立连接")), net)
    | .full net => (some (.failed "槽位已满，连不了新的连接"), net)
    | .refused net id reason =>
      (some (.failed ("注册进 poll 失败：" ++ reason)), close id .silent net)
    | .started net id => (none, if deadlineMs.isSome then net.spawn (.timer id) else net)

def connectError (socket : Socket) (net : Server) : Option String × Server :=
  if socket.kind = .stream then net.call Os.takeError else (none, net)

def Socket.connectOver (socket : Socket) : Socket :=
  { socket with pending := none, connectFallbacks := [] }

/-- The first half of `NetService::finish_connect`: nothing, or the addresses that are left, the
deadline and the reason of the failure. -/
def connectOutcome (socket : Socket) (net : Server) :
    Option (List SocketAddr × Option ℕ × String) × Server :=
  match connectError socket net with
  | (some e, net) =>
    (some (socket.connectFallbacks, socket.connectDeadlineMs, "连接失败：" ++ e),
      net.modify socket.id Socket.connectOver)
  | (none, net) =>
    match (net.modify socket.id fun s => { s.connectOver with state := .connected }).apply
        socket.id with
    | (none, net) => (none, net)
    | (some e, net) => (some ([], none, "连接成功，但更新 poll 注册失败：" ++ e), net)

def finishConnect (id : SocketId) (net : Server) : Server :=
  match net.sockets.get id with
  | none => net
  | some socket =>
    match connectOutcome socket net with
    | (none, net) => net.replyTo socket.pending (.id id)
    | (some (fallbacks, deadlineMs, reason), net) =>
      let net := close id .silent net
      match socket.pending with
      | none => net
      | some waiting =>
        if fallbacks.isEmpty then net.reply waiting (.failed reason)
        else
          let (answer, net) := doConnectCandidates fallbacks waiting deadlineMs net
          net.replyIf waiting answer

def connectTimeoutElapsed (id : SocketId) (net : Server) : Server :=
  match net.sockets.get id with
  | none => net
  | some socket =>
    if socket.state ≠ .connecting then net
    else
      (close id .silent (net.modify id fun s => { s with pending := none })).replyTo socket.pending
        (.failed "TCP 连接超时")

/-! ### Readiness -/

def onWritable (id : SocketId) (net : Server) : Server :=
  if (net.sockets.get id).any (·.state = .connecting) then finishConnect id net
  else flush setup id net

def peerClosed (id : SocketId) (net : Server) : Server :=
  match net.sockets.get id with
  | none => net
  | some socket =>
    if socket.wb.isEmpty then close id .closed net
    else ((net.modify id fun s => { s with state := .halfCloseRead }).apply id).2

def acceptTurn (listen : SocketId) (net : Server) : Server ⊕ Server :=
  match net.sockets.get listen with
  | none => .inr net
  | some socket =>
    if socket.paused ∨ socket.kind ≠ .listener then .inr net
    else
      let os := { net.os with accepts := net.os.accepts.tail }
      match net.os.accepts with
      | [] => .inr net
      | .interrupted :: _ => .inl { net with os := os }
      | .failed _ :: _ => .inr { net with os := os }
      | .peer addr :: _ =>
        match net.sockets.insert socket.owner .stream .preAccept with
        | (none, sockets) => .inl { net with os := os, sockets := sockets }
        | (some id, sockets) =>
          .inl (({ net with os := os, sockets := sockets } : Server).tell socket.owner
            (.accept id listen addr))

theorem acceptTurn_decreases (listen : SocketId) (net net' : Server)
    (h : acceptTurn listen net = .inl net') : net'.os.accepts.length < net.os.accepts.length := by
  unfold acceptTurn at h
  split at h
  · cases h
  · split at h
    · cases h
    · split at h
      · cases h
      · rename_i hos
        cases h
        simp only [hos, tail_cons, length_cons, Nat.lt_succ_self]
      · cases h
      · rename_i hos
        split at h
        · cases h
          simp only [hos, tail_cons, length_cons, Nat.lt_succ_self]
        · cases h
          simp only [Server.tell, hos, tail_cons, length_cons, Nat.lt_succ_self]

def onAcceptable (listen : SocketId) : Server → Server :=
  Loop.finish (acceptTurn listen) (fun net => net.os.accepts.length) (acceptTurn_decreases listen)

def readTurn (id : SocketId) (net : Server) : Server ⊕ Server :=
  match net.sockets.get id with
  | none => .inr net
  | some socket =>
    if socket.paused ∨ socket.kind ≠ .stream then .inr net
    else
      let os := { net.os with reads := net.os.reads.tail }
      match net.os.reads with
      | [] => .inr net
      | .interrupted :: _ => .inl { net with os := os }
      | .failed reason :: _ => .inr (close id (.failed ("读出错：" ++ reason)) { net with os := os })
      | .data bytes :: _ =>
        let bytes := bytes.take socket.read.size
        if bytes.isEmpty then .inr (peerClosed id { net with os := os })
        else
          .inl ((({ net with os := os } : Server).modify id fun s => { s with
            read := s.read.observe bytes.length }).tell socket.owner (.data id bytes))

theorem readTurn_decreases (h : readTurn id net = .inl net') :
    net'.os.reads.length < net.os.reads.length := by
  unfold readTurn at h
  split at h
  · cases h
  · split at h
    · cases h
    · simp only at h
      split at h
      · cases h
      · rename_i hos
        cases h
        simp only [hos, tail_cons, length_cons, Nat.lt_succ_self]
      · cases h
      · rename_i hos
        split at h
        · cases h
        · cases h
          simp only [Server.tell, Server.modify, hos, tail_cons, length_cons, Nat.lt_succ_self]

def onReadable (id : SocketId) : Server → Server :=
  Loop.finish (readTurn id) (fun net => net.os.reads.length) (readTurn_decreases id)

def maxUdpPackage : ℕ := 65535

def udpTurn (id : SocketId) (net : Server) : Server ⊕ Server :=
  match net.sockets.get id with
  | none => .inr net
  | some socket =>
    if socket.paused ∨ socket.kind ≠ .udp then .inr net
    else
      let os := { net.os with packets := net.os.packets.tail }
      match net.os.packets with
      | [] => .inr net
      | .interrupted :: _ => .inl { net with os := os }
      | .failed _ :: _ => .inr { net with os := os }
      | .packet sender bytes :: _ =>
        .inl (({ net with os := os } : Server).tell socket.owner
          (.udp id sender (bytes.take maxUdpPackage)))

theorem udpTurn_decreases (h : udpTurn id net = .inl net') :
    net'.os.packets.length < net.os.packets.length := by
  unfold udpTurn at h
  split at h
  · cases h
  · split at h
    · cases h
    · split at h
      · cases h
      · rename_i hos
        cases h
        simp only [hos, tail_cons, length_cons, Nat.lt_succ_self]
      · cases h
      · rename_i hos
        cases h
        simp only [Server.tell, hos, tail_cons, length_cons, Nat.lt_succ_self]

def onUdp (id : SocketId) : Server → Server :=
  Loop.finish (udpTurn id) (fun net => net.os.packets.length) (udpTurn_decreases id)

def onRole (kind : Kind) (id : SocketId) (net : Server) : Server :=
  match kind with
  | .listener => onAcceptable id net
  | .stream => onReadable id net
  | .udp => onUdp id net

structure Readiness where
  token : ℕ
  writable : Bool
  readable : Bool
  error : Bool

def onEvent (event : Readiness) (net : Server) : Server :=
  match net.sockets.byToken event.token with
  | none => net
  | some socket =>
    let net := if event.writable then onWritable setup socket.id net else net
    let net := if event.readable then onRole socket.kind socket.id net else net
    if event.error ∧ (net.sockets.get socket.id).isSome then
      let (reason, net) := net.call Os.takeError
      close socket.id (.failed (reason.getD "连接出错")) net
    else net

end Rskynet.Net
