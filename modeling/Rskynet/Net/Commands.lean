import Rskynet.Net.Service

/-!
# The network service: commands
-/

namespace Rskynet.Net

variable (setup : Setup)

/-! ### Commands -/

inductive Command where
  | listen (addr : String)
  | connect (addr : String)
  | connectWithTimeout (addr : String) (timeoutMs : ℕ)
  | start (id : SocketId)
  | pause (id : SocketId)
  | send (id : SocketId) (data : List UInt8) (high : Bool)
  | sendWait (id : SocketId) (data : List UInt8) (high : Bool)
  | close (id : SocketId)
  | shutdown (id : SocketId)
  | noDelay (id : SocketId) (on : Bool)
  | udp (bind : Option String)
  | udpForPeer (addr : String)
  | udpConnect (id : SocketId) (addr : String)
  | udpSend (id : SocketId) (dest : Option SocketAddr) (data : List UInt8)
  | udpSendWait (id : SocketId) (dest : Option SocketAddr) (data : List UInt8)
  | info (id : SocketId)
  | netstat
  | connectTimeoutElapsed (id : SocketId)

def doListen (addr : SocketAddr) (owner : Handle) (net : Server) : Answer × Server :=
  match net.call Os.bind with
  | (some e, net) => (.failed ("绑定 " ++ addr ++ " 失败：" ++ e), net)
  | (none, net) =>
    match net.sockets.insert owner .listener .preListen with
    | (some id, sockets) => (.id id, { net with sockets := sockets })
    | (none, sockets) => (.failed "槽位已满，开不了新的监听口", { net with sockets := sockets })

def doUdpWithPeer (addr : SocketAddr) (peer : Option SocketAddr) (owner : Handle) (net : Server) :
    Answer × Server :=
  match net.call Os.bind with
  | (some e, net) => (.failed ("绑定 UDP " ++ addr ++ " 失败：" ++ e), net)
  | (none, net) =>
    match net.sockets.insert owner .udp .connected with
    | (none, sockets) => (.failed "槽位已满，开不了新的 UDP 端口", { net with sockets := sockets })
    | (some id, sockets) =>
      let net := ({ net with sockets := sockets } : Server).modify id fun s => { s with udpPeer := peer }
      match net.apply id with
      | (none, net) => (.id id, net)
      | (some e, net) =>
        (.failed ("注册进 poll 失败：" ++ e), { net with sockets := (net.sockets.remove id).2 })

def doUdp (addr : SocketAddr) (owner : Handle) (net : Server) : Answer × Server :=
  doUdpWithPeer addr none owner net

/-- The wildcard of the peer's family; only IPv6 addresses are displayed in brackets. -/
def udpWildcardFor (peer : SocketAddr) : SocketAddr :=
  if peer.toList.head? = some '[' then "[::]:0" else "0.0.0.0:0"

/-- `NetService::do_udp_for_peer`: a probe finds out whether the peer can be reached. -/
def doUdpForPeer (peer : SocketAddr) (owner : Handle) (net : Server) : Answer × Server :=
  let wildcard := udpWildcardFor peer
  match net.call Os.bind with
  | (some e, net) => (.failed ("绑定 UDP " ++ wildcard ++ " 失败：" ++ e), net)
  | (none, net) =>
    match net.call Os.bind with
    | (some e, net) => (.failed ("UDP 对端 " ++ peer ++ " 不可达：" ++ e), net)
    | (none, net) => doUdpWithPeer wildcard (some peer) owner net

/-- `NetService::do_udp_for_peer_candidates`: the first address that does not fail. -/
def doUdpForPeerCandidates (owner : Handle) : List SocketAddr → Option String → Server → Answer × Server
  | [], lastError, net => (.failed (lastError.getD "解析结果是空的，无法建立 UDP 端点"), net)
  | addr :: addrs, _, net =>
    match doUdpForPeer addr owner net with
    | (.failed reason, net) => doUdpForPeerCandidates owner addrs (some reason) net
    | (answer, net) => (answer, net)

def doUdpConnect (id : SocketId) (addr : SocketAddr) (net : Server) : Answer × Server :=
  match net.sockets.get id with
  | none => (missing id, net)
  | some socket =>
    if socket.kind ≠ .udp then (.failed (display id ++ " 不是 UDP 端口"), net)
    else (.done, net.modify id fun s => { s with udpPeer := some addr })

def doStart (id : SocketId) (owner : Handle) (net : Server) : Answer × Server :=
  match net.sockets.get id with
  | none => (missing id, net)
  | some socket =>
    let net := net.modify id fun s => { s with
      owner := owner
      paused := false
      state := match s.state with
        | .preListen => .listen
        | .preAccept => .connected
        | keep => keep }
    match net.apply id with
    | (some e, net) =>
      let reason := display id ++ " 注册进 poll 失败：" ++ e
      (.failed reason, close id (.failed reason) net)
    | (none, net) => (.done, if socket.paused then onRole socket.kind id net else net)

def doPause (id : SocketId) (net : Server) : Answer × Server :=
  match net.sockets.get id with
  | none => (missing id, net)
  | some _ =>
    match (net.modify id fun s => { s with paused := true }).apply id with
    | (none, net) => (.done, net)
    | (some e, net) => (.failed (display id ++ " 摘不掉读事件：" ++ e), net)

def doSend (id : SocketId) (chunk : Chunk) (high : Bool) (net : Server) : Answer × Server :=
  match net.sockets.get id with
  | none => (missing id, net)
  | some socket =>
    if chunk.rest.isEmpty then (.done, net)
    else if !socket.state.writable then
      (.failed (display id ++ " 现在写不了（" ++ socket.state.name ++ "）"), net)
    else
      let (wb, warning) := socket.wb.push chunk high setup.config.warnSize
      let net := net.modify id fun s => { s with wb := wb }
      let net := net.tellIf socket.owner (warning.map (.warning id))
      (.done, flush setup id net)

/-- `NetService::do_send_wait`; no answer means that the caller waits for the queue to fall. -/
def doSendWait (id : SocketId) (chunk : Chunk) (high : Bool) (waiting : Pending) (net : Server) :
    Option Answer × Server :=
  match doSend setup id chunk high net with
  | (.done, net) =>
    match net.sockets.get id with
    | none => (some (.failed (display id ++ " 在发送期间关闭")), net)
    | some socket =>
      if socket.wb.size < setup.config.writeHighWater then (some .done, net)
      else (none, net.modify id fun s => { s with sendWaiters := s.sendWaiters ++ [waiting] })
  | (answer, net) => (some answer, net)

/-- Where a UDP packet goes, or why it cannot be sent. -/
def udpTarget (id : SocketId) (dest : Option SocketAddr) (data : List UInt8) (net : Server) :
    Except Answer SocketAddr :=
  if data.length > maxUdpPackage then
    .error (.failed s!"UDP 包 {data.length} 字节，超过上限 {maxUdpPackage}")
  else match net.sockets.get id with
    | none => .error (missing id)
    | some socket =>
      match dest.or socket.udpPeer with
      | some dest => .ok dest
      | none => .error (.failed (display id ++ " 没有默认对端，得指定地址"))

def doUdpSend (id : SocketId) (dest : Option SocketAddr) (data : List UInt8) (net : Server) :
    Answer × Server :=
  match udpTarget id dest data net with
  | .error answer => (answer, net)
  | .ok dest => doSend setup id (.udp data dest) true net

def doUdpSendWait (id : SocketId) (dest : Option SocketAddr) (data : List UInt8) (waiting : Pending)
    (net : Server) : Option Answer × Server :=
  match udpTarget id dest data net with
  | .error answer => (some answer, net)
  | .ok dest => doSendWait setup id (.udp data dest) true waiting net

/-- `NetService::do_close`; no answer means that the caller waits for the queue to run empty. -/
def doClose (id : SocketId) (waiting : Pending) (net : Server) : Option Answer × Server :=
  let net := flush setup id net
  match net.sockets.get id with
  | none => (some .done, net)
  | some socket =>
    if socket.wb.isEmpty then (some .done, close id .closed net)
    else
      (none, ((net.modify id fun s => { s with
        state := .halfCloseWrite, pending := some waiting }).apply id).2)

def doNodelay (id : SocketId) (net : Server) : Answer × Server :=
  match net.sockets.get id with
  | none => (missing id, net)
  | some socket =>
    if socket.kind ≠ .stream then (.failed (display id ++ " 不是 TCP 连接"), net)
    else match net.call Os.setNodelay with
      | (none, net) => (.done, net)
      | (some e, net) => (.failed (display id ++ " 设 TCP_NODELAY 失败：" ++ e), net)

def doInfo (id : SocketId) (net : Server) : Answer :=
  match net.sockets.get id with
  | some socket => .info socket.info
  | none => missing id

def doNetstat (net : Server) : Answer :=
  .infos ((net.sockets.slots.filterMap fun slot => slot.map Socket.info).mergeSort
    fun a b => a.id ≤ b.id)

def now (r : Answer × Server) : Option Answer × Server := (some r.1, r.2)

/-- A command whose address is either literal or has to be resolved first. -/
def whenParsed (addr : String) (waiting : Pending) (deferred : Deferred)
    (f : SocketAddr → Server → Option Answer × Server) (net : Server) : Option Answer × Server :=
  match setup.parse addr with
  | some addr => f addr net
  | none => (none, net.spawn (.resolving waiting deferred))

/-- The answer to a command, if it is there at once, and what the command does. -/
def answerTo (command : Command) (waiting : Pending) (net : Server) : Option Answer × Server :=
  match command with
  | .listen addr =>
    whenParsed setup addr waiting .listen (fun addr net => now (doListen addr waiting.source net)) net
  | .connect addr =>
    whenParsed setup addr waiting (.connect none)
      (fun addr net => doConnectCandidates [addr] waiting none net) net
  | .connectWithTimeout addr timeoutMs =>
    let deadlineMs := some (min (net.now + timeoutMs) (2 ^ 64 - 1))
    whenParsed setup addr waiting (.connect deadlineMs)
      (fun addr net => doConnectCandidates [addr] waiting deadlineMs net) net
  | .udp bind =>
    whenParsed setup (bind.getD "0.0.0.0:0") waiting .udp
      (fun addr net => now (doUdp addr waiting.source net)) net
  | .udpForPeer addr =>
    whenParsed setup addr waiting .udpForPeer
      (fun addr net => now (doUdpForPeer addr waiting.source net)) net
  | .udpConnect id addr =>
    whenParsed setup addr waiting (.udpConnect id) (fun addr net => now (doUdpConnect id addr net)) net
  | .start id => now (doStart id waiting.source net)
  | .pause id => now (doPause id net)
  | .send id data high => now (doSend setup id (.tcp data) high net)
  | .sendWait id data high => doSendWait setup id (.tcp data) high waiting net
  | .udpSend id dest data => now (doUdpSend setup id dest data net)
  | .udpSendWait id dest data => doUdpSendWait setup id dest data waiting net
  | .close id => doClose setup id waiting net
  | .shutdown id => (some .done, close id .closed net)
  | .noDelay id _ => now (doNodelay id net)
  | .info id => (some (doInfo id net), net)
  | .netstat => (some (doNetstat net), net)
  | .connectTimeoutElapsed id => (none, connectTimeoutElapsed id net)

def perform (command : Command) (waiting : Pending) (net : Server) : Server :=
  (answerTo setup command waiting net).2.replyIf waiting (answerTo setup command waiting net).1

def afterResolve (deferred : Deferred) (addrs : List SocketAddr) (waiting : Pending) (net : Server) :
    Option Answer × Server :=
  match addrs with
  | [] => (some (.failed "解析结果是空的"), net)
  | addr :: _ =>
    match deferred with
    | .listen => now (doListen addr waiting.source net)
    | .connect deadlineMs => doConnectCandidates addrs waiting deadlineMs net
    | .udp => now (doUdp addr waiting.source net)
    | .udpForPeer => now (doUdpForPeerCandidates waiting.source addrs none net)
    | .udpConnect id => now (doUdpConnect id addr net)

def resolved (waiting : Pending) (deferred : Deferred)
    (result : Except String (List SocketAddr)) (net : Server) : Server :=
  match result with
  | .error reason => net.reply waiting (.failed reason)
  | .ok addrs =>
    (afterResolve deferred addrs waiting net).2.replyIf waiting
      (afterResolve deferred addrs waiting net).1

/-! ### Steps -/

/-- A command, a readiness event, an address that has been resolved, or a timer that has run out; a
timer's message may come at any time after. -/
inductive Input where
  | command (command : Command) (waiting : Pending)
  | event (event : Readiness)
  | resolved (waiting : Pending) (deferred : Deferred) (result : Except String (List SocketAddr))
  | elapsed (id : SocketId)

structure Action where
  input : Input
  os : Os
  now : ℕ

def resume (task : Task) (after : Server → Server) (net : Server) : Option Server :=
  if task ∈ net.tasks then some (after { net with tasks := net.tasks.erase task }) else none

/-- **One step of the service.** -/
def act (action : Action) (net : Server) : Option Server :=
  let net := { net with os := action.os, now := action.now }
  match action.input with
  | .command command waiting => some (perform setup command waiting net)
  | .event event => some (onEvent setup event net)
  | .resolved waiting deferred result =>
    resume (.resolving waiting deferred) (resolved waiting deferred result) net
  | .elapsed id => resume (.timer id) (connectTimeoutElapsed id) net

def initial : Server where
  sockets := .new setup.config.maxSocket setup.config.minReadBuffer
  os := {}
  now := 0
  tasks := []
  replies := []
  events := []
  written := []

end Rskynet.Net
