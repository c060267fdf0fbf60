import Mathlib.Data.List.AList
import Rskynet.Lib.Cells
import Rskynet.Lib.Threads
import Rskynet.Tls.Rustls

/-!
# The TLS service

The service keeps its tables in one cell and its configuration in another, and handles commands,
socket events and the completions of its own awaits one after another. Every handler is a program
over the two cells, with guards that start and end where the source's guards do: a guard in the
scrutinee of an `if let` is live in the branch that is taken and dropped before the `else`.

A handler that awaits ends its step with a suspended task; the task's completion is a step of its
own and may come at any later time. A spawned task starts as a suspended one.
-/

namespace Rskynet.Tls

open Cells

inductive Cell where
  | state
  | config
  deriving DecidableEq

abbrev Handle := ℕ

abbrev SocketId := ℕ

abbrev TlsId := ℕ

abbrev SocketAddr := String

/-- A caller that waits for an answer; a session of zero means that nobody waits. -/
structure Pending where
  source : Handle
  session : ℕ
  deriving DecidableEq

structure TlsConfig where
  handshakeTimeoutMs : ℕ := 10000
  bufferLimit : ℕ := 256 * 1024
  maxConnections : ℕ := 65536
  maxHandshakes : ℕ := 4096

def TlsConfig.validate (config : TlsConfig) : Except String Unit :=
  if config.handshakeTimeoutMs = 0 then .error "[tls] handshake_timeout_ms 必须大于 0"
  else if config.bufferLimit = 0 then .error "[tls] buffer_limit 必须大于 0"
  else if config.maxConnections = 0 then .error "[tls] max_connections 必须大于 0"
  else if config.maxHandshakes = 0 ∨ config.maxConnections < config.maxHandshakes then
    .error "[tls] max_handshakes 必须大于 0 且不超过 max_connections"
  else .ok ()

structure ClientOptions (R : Rustls) where
  address : String
  serverName : R.ServerName
  config : R.ClientConfig
  connectTimeoutMs : Option ℕ
  handshakeTimeoutMs : Option ℕ

structure ServerOptions (R : Rustls) where
  address : String
  config : R.ServerConfig

inductive Command (R : Rustls) where
  | connect (options : ClientOptions R)
  | listen (options : ServerOptions R)
  | start (id : TlsId)
  | pause (id : TlsId)
  | send (id : TlsId) (data : Bytes) (high : Bool)
  | sendWait (id : TlsId) (data : Bytes) (high : Bool)
  | close (id : TlsId)
  | shutdown (id : TlsId)
  | info (id : TlsId)
  | handshakeTimeout (id : TlsId)
  | closeFailed (id : TlsId) (reason : String)

structure TlsInfo where
  id : TlsId
  owner : Handle
  kind : String
  state : String
  paused : Bool
  localAddr : Option SocketAddr
  peer : Option SocketAddr
  version : Option String
  cipherSuite : Option String
  alpn : Option Bytes
  deriving DecidableEq

inductive Answer where
  | id (id : TlsId)
  | info (info : TlsInfo)
  | done
  | failed (reason : String)
  deriving DecidableEq

inductive TlsEvent where
  | connected (id : TlsId) (listen : Option TlsId) (peer : SocketAddr) (version : Option String)
      (cipherSuite : Option String) (alpn : Option Bytes)
  | data (id : TlsId) (data : Bytes)
  | close (id : TlsId)
  | error (id : TlsId) (reason : String)
  | warning (id : TlsId) (kilobytes : ℕ)
  deriving DecidableEq

inductive NetCommand where
  | connect (address : String) (timeoutMs : Option ℕ)
  | listen (address : String)
  | info (socket : SocketId)
  | start (socket : SocketId)
  | pause (socket : SocketId)
  | send (socket : SocketId) (data : Bytes) (high : Bool)
  | sendWait (socket : SocketId) (data : Bytes) (high : Bool)
  | close (socket : SocketId)
  | shutdown (socket : SocketId)
  deriving DecidableEq

inductive SocketEvent where
  | accept (id listen : SocketId) (peer : SocketAddr)
  | data (id : SocketId) (data : Bytes)
  | close (id : SocketId)
  | error (id : SocketId) (reason : String)
  | warning (id : SocketId) (kilobytes : ℕ)
  | udp

structure Listener (R : Rustls) where
  socket : SocketId
  owner : Handle
  localAddr : Option SocketAddr
  config : R.ServerConfig
  started : Bool

structure TlsConnection (R : Rustls) where
  id : TlsId
  socket : SocketId
  owner : Handle
  connection : R.Conn
  listen : Option TlsId
  localAddr : Option SocketAddr
  peer : SocketAddr
  announced : Bool
  closing : Bool
  peerCloseNotify : Bool
  connectPending : Option Pending
  closePending : Option Pending
  paused : Bool
  handshakeTimeoutMs : ℕ

variable {R : Rustls}

def TlsConnection.info (c : TlsConnection R) : TlsInfo where
  id := c.id
  owner := c.owner
  kind := if c.listen.isSome then "server" else "client"
  state :=
    if c.closing then "closing"
    else if R.isHandshaking c.connection then "handshaking"
    else "connected"
  paused := c.paused
  localAddr := c.localAddr
  peer := some c.peer
  version := versionName (R.protocolVersion c.connection)
  cipherSuite := R.cipherSuite c.connection
  alpn := R.alpn c.connection

structure State (R : Rustls) where
  nextId : ℕ
  listeners : AList fun _ : TlsId => Listener R
  listenerSockets : AList fun _ : SocketId => TlsId
  connections : AList fun _ : TlsId => TlsConnection R
  connectionSockets : AList fun _ : SocketId => TlsId
  handshakes : ℕ

/-- A suspended handler: what it awaits and what it does afterwards. -/
inductive Task (R : Rustls) where
  /-- `connect`, until the TCP connection is there. -/
  | connecting (options : ClientOptions R) (tls : R.Conn) (pending : Pending)
  /-- `connect`, until the addresses of the socket are known. -/
  | connectInfo (options : ClientOptions R) (tls : R.Conn) (pending : Pending) (socket : SocketId)
  | listening (options : ServerOptions R) (pending : Pending)
  | listenInfo (options : ServerOptions R) (pending : Pending) (socket : SocketId)
  | startingConnection (id : TlsId) (pending : Pending)
  | startingListener (id : TlsId) (pending : Pending)
  | pausing (id : TlsId) (pending : Pending)
  /-- `send_plaintext_wait`, until the write queue has room. -/
  | sending (id : TlsId) (pending : Pending)
  /-- `close` of a listener. -/
  | closingListener (pending : Pending)
  /-- `accept`, until the accepted socket has started. -/
  | accepting (id : TlsId)
  /-- The task `close` spawns, before and after its first turn. -/
  | spawnedClose (id : TlsId) (socket : SocketId)
  | closingConnection (id : TlsId)
  /-- The task `arm_timeout` spawns. -/
  | sleeping (id : TlsId) (timeoutMs : ℕ)

/-- What the service has and what it has done: its two cells, why the network service cannot be
reached if it cannot, its suspended tasks, and, oldest first, its answers, its events, what it has
asked of the network service and the messages it sent to itself.  `produced` records the ciphertext
that the library handed out, with the socket of its connection; nothing reads it. -/
structure Server (R : Rustls) where
  state : State R
  config : TlsConfig
  netDown : Option String
  tasks : List (Task R)
  replies : List (Pending × Answer)
  events : List (Handle × TlsEvent)
  asked : List NetCommand
  sent : List (Command R)
  produced : List (SocketId × Bytes)

/-! ### The tables -/

namespace State

def empty : State R where
  nextId := 0
  listeners := ∅
  listenerSockets := ∅
  connections := ∅
  connectionSockets := ∅
  handshakes := 0

def len (s : State R) : ℕ := s.listeners.entries.length + s.connections.entries.length

/-- The id after `id`; the counter wraps and skips zero. -/
def bump (id : ℕ) : ℕ := max ((id + 1) % 2 ^ 32) 1

def unused (s : State R) (id : TlsId) : Bool :=
  (s.listeners.lookup id).isNone && (s.connections.lookup id).isNone

/-- **`allocate`.**  The loop goes round until it meets an unused id.  It meets every id within
`2 ^ 32` turns, so one that has met none by then never ends. -/
def allocate (s : State R) : Option TlsId :=
  Loop.run (fun id => if s.unused (bump id) then .inr (bump id) else .inl (bump id)) (2 ^ 32)
    s.nextId

def setConnection (s : State R) (id : TlsId) (c : TlsConnection R) : State R :=
  { s with connections := s.connections.insert id c }

def insertListener (s : State R) (id : TlsId) (l : Listener R) : State R :=
  { s with
    nextId := id
    listenerSockets := s.listenerSockets.insert l.socket id
    listeners := s.listeners.insert id l }

def insertConnection (s : State R) (id : TlsId) (c : TlsConnection R) : State R :=
  { s with
    nextId := id
    connectionSockets := s.connectionSockets.insert c.socket id
    connections := s.connections.insert id c
    handshakes := s.handshakes + 1 }

def dropListener (s : State R) (id : TlsId) : Option (Listener R) × State R :=
  match s.listeners.lookup id with
  | none => (none, s)
  | some l => (some l, { s with
      listeners := s.listeners.erase id
      listenerSockets := s.listenerSockets.erase l.socket })

def dropConnection (s : State R) (id : TlsId) : Option (TlsConnection R) × State R :=
  match s.connections.lookup id with
  | none => (none, s)
  | some c => (some c, { s with
      connections := s.connections.erase id
      connectionSockets := s.connectionSockets.erase c.socket
      handshakes := if c.announced then s.handshakes else s.handshakes - 1 })

end State

/-! ### Effects -/

namespace Server

def setState (d : Server R) (s : State R) : Server R := { d with state := s }

def onState {α : Type} (f : State R → α × State R) (d : Server R) : α × Server R :=
  ((f d.state).1, d.setState (f d.state).2)

/-- The limit that leaves no room for a connection or a listener. -/
def atCapacity (d : Server R) (handshake : Bool) : Option String :=
  if d.config.maxConnections ≤ d.state.len then some "TLS 连接数已达到上限"
  else if handshake && decide (d.config.maxHandshakes ≤ d.state.handshakes) then
    some "并发 TLS 握手数已达到上限"
  else none

def listenerOf (d : Server R) (listenSocket : SocketId) : Option (TlsId × Listener R) :=
  (d.state.listenerSockets.lookup listenSocket).bind fun listen =>
    (d.state.listeners.lookup listen).map fun l => (listen, l)

/-- A connection gets a new library state, with the ciphertext that was taken out of it. -/
def takeOut (d : Server R) (id : TlsId) (c : TlsConnection R) (output : Rustls.Output R) :
    Server R :=
  { d.setState (d.state.setConnection id { c with connection := output.conn }) with
    produced := d.produced ++ [(c.socket, output.bytes)] }

end Server

abbrev Handler (R : Rustls) := Prog Cell (Server R)

def withState {α : Type} (f : State R → α × State R) : Handler R α :=
  within .state (Server.onState f)

def updateState (f : State R → State R) : Handler R Unit := withState fun s => ((), f s)

def readState {α : Type} (f : State R → α) : Handler R α := within .state fun d => (f d.state, d)

def readConfig {α : Type} (f : TlsConfig → α) : Handler R α :=
  within .config fun d => (f d.config, d)

def reply (pending : Pending) (answer : Answer) : Handler R Unit :=
  change fun d =>
    if pending.session = 0 then d else { d with replies := d.replies ++ [(pending, answer)] }

def replyTo (waiting : Option Pending) (answer : Answer) : Handler R Unit :=
  match waiting with
  | none => pure ()
  | some pending => reply pending answer

def emit (owner : Handle) (event : TlsEvent) : Handler R Unit :=
  change fun d => { d with events := d.events ++ [(owner, event)] }

def askNet (command : NetCommand) : Handler R (Except String Unit) :=
  effect fun d => match d.netDown with
    | some reason => (.error reason, d)
    | none => (.ok (), { d with asked := d.asked ++ [command] })

/-- `let _ = net::shutdown(ctx, socket)`. -/
def shutdownSocket (socket : SocketId) : Handler R Unit := do
  let _ ← askNet (.shutdown socket)

def suspend (task : Task R) : Handler R Unit :=
  change fun d => { d with tasks := d.tasks ++ [task] }

def callNet (command : NetCommand) (task : Task R) : Handler R Unit := do
  let _ ← askNet command
  suspend task

def sendSelf (command : Command R) : Handler R Unit :=
  change fun d => { d with sent := d.sent ++ [command] }

def display (id : TlsId) : String := s!"tls#{id}"

def missing (id : TlsId) : Answer := .failed s!"{display id} 不存在或已经关闭"

def denied (id : TlsId) : Answer := .failed s!"调用方不是 {display id} 的 owner"

def doneOr (result : Except String Unit) (failed : String → String) : Answer :=
  match result with
  | .ok () => .done
  | .error e => .failed (failed e)

/-! ### Shared helpers -/

/-- **`capacity_error`.**  Holds the state and the configuration. -/
def capacityError (handshake : Bool) : Handler R (Option String) :=
  guarded .state <| guarded .config <| look fun d => d.atCapacity handshake

def removeListener (id : TlsId) : Handler R (Option (Listener R)) :=
  withState fun s => s.dropListener id

def removeConnection (id : TlsId) : Handler R (Option (TlsConnection R)) :=
  withState fun s => s.dropConnection id

/-- `allocate` and an insertion under one guard of the state.  A loop that never ends is no step. -/
def allocating (insert : TlsId → Handler R Unit) : Handler R TlsId :=
  guarded .state do
    let found ← look fun d => d.state.allocate
    match found with
    | none => stop .unfinished
    | some id =>
      insert id
      pure id

def insertConnection (id : TlsId) (c : TlsConnection R) : Handler R Unit :=
  change fun d => d.setState (d.state.insertConnection id c)

def insertListener (id : TlsId) (l : Listener R) : Handler R Unit :=
  change fun d => d.setState (d.state.insertListener id l)

def failNotice (id : TlsId) (c : TlsConnection R) (reason : String) : Handler R Unit :=
  match c.connectPending with
  | some pending => reply pending (.failed reason)
  | none => onlyIf c.announced (emit c.owner (.error id reason))

/-- **`fail`.**  The connection leaves the table, its socket is shut down, and whoever knows of it
is told. -/
def fail (id : TlsId) (reason : String) : Handler R Unit := do
  let removed ← removeConnection id
  match removed with
  | none => pure ()
  | some c =>
    shutdownSocket c.socket
    failNotice id c reason
    replyTo c.closePending (.failed "TLS 关闭失败")

/-- Hands ciphertext to the network service, if there is any. -/
def sendCiphertext (socket : SocketId) (encrypted : Bytes) (high : Bool) :
    Handler R (Except String Unit) :=
  if encrypted = [] then pure (.ok ())
  else do
    let sent ← askNet (.send socket encrypted high)
    return sent.mapError fun e => s!"发送 TLS 密文失败：{e}"

def takeCiphertext (id : TlsId) : Handler R (Except String (SocketId × Bytes)) :=
  within .state fun d => match d.state.connections.lookup id with
    | none => (.error s!"{display id} 已不存在", d)
    | some c => match Rustls.drain ⟨c.connection, []⟩ with
      | (.error e, output) => (.error e, d.takeOut id c output)
      | (.ok (), output) => (.ok (c.socket, output.bytes), d.takeOut id c output)

def flushTls (id : TlsId) (high : Bool) : Handler R (Except String Unit) := do
  let taken ← takeCiphertext id
  match taken with
  | .error reason => pure (.error reason)
  | .ok (socket, encrypted) => sendCiphertext socket encrypted high

/-- `if let Err(reason) = flush_tls { fail; return }`, and what follows otherwise. -/
def flushOrFail (id : TlsId) (rest : Handler R Unit) : Handler R Unit := do
  let flushed ← flushTls id true
  match flushed with
  | .error reason => fail id reason
  | .ok () => rest

/-- **`arm_timeout`.**  The configuration is borrowed under the guard of the state, also when the
connection has a limit of its own. -/
def armTimeout (id : TlsId) : Handler R Unit := do
  let timeout ← guarded .state do
    let default ← readConfig fun config => config.handshakeTimeoutMs
    look fun d => (d.state.connections.lookup id).elim default fun c => c.handshakeTimeoutMs
  suspend (.sleeping id timeout)

/-! ### Connections and listeners -/

/-- **`connect`**, up to its first await. -/
def connect (options : ClientOptions R) (pending : Pending) : Handler R Unit := do
  let full ← capacityError true
  match full with
  | some reason => reply pending (.failed reason)
  | none => match R.client options.config options.serverName with
    | .error e => reply pending (.failed s!"创建 TLS 客户端失败：{e}")
    | .ok tls =>
      callNet (.connect options.address options.connectTimeoutMs) (.connecting options tls pending)

def connectSocket (options : ClientOptions R) (tls : R.Conn) (pending : Pending)
    (connected : Except String SocketId) : Handler R Unit :=
  match connected with
  | .error e => reply pending (.failed s!"TCP 连接失败：{e}")
  | .ok socket => do
    let full ← capacityError true
    match full with
    | some reason =>
      shutdownSocket socket
      reply pending (.failed reason)
    | none => callNet (.info socket) (.connectInfo options tls pending socket)

/-- The addresses of a socket, when the network service knows it. -/
structure Addresses where
  localAddr : Option SocketAddr
  peer : Option SocketAddr

def connectReady (options : ClientOptions R) (tls : R.Conn) (pending : Pending)
    (socket : SocketId) (addresses : Option Addresses) : Handler R Unit := do
  let bufferLimit ← readConfig fun config => config.bufferLimit
  let default ← readConfig fun config => config.handshakeTimeoutMs
  let id ← allocating fun id => insertConnection id
    { id, socket, owner := pending.source
      connection := R.setBufferLimit tls bufferLimit
      listen := none
      localAddr := addresses.bind fun a => a.localAddr
      peer := (addresses.bind fun a => a.peer).getD "0.0.0.0:0"
      announced := false, closing := false, peerCloseNotify := false
      connectPending := some pending, closePending := none, paused := false
      handshakeTimeoutMs := options.handshakeTimeoutMs.getD default }
  flushOrFail id (armTimeout id)

/-- **`listen`**, up to its first await. -/
def listen (options : ServerOptions R) (pending : Pending) : Handler R Unit := do
  let full ← capacityError false
  match full with
  | some reason => reply pending (.failed reason)
  | none => callNet (.listen options.address) (.listening options pending)

def listenSocket (options : ServerOptions R) (pending : Pending)
    (listening : Except String SocketId) : Handler R Unit :=
  match listening with
  | .error e => reply pending (.failed s!"TCP 监听失败：{e}")
  | .ok socket => callNet (.info socket) (.listenInfo options pending socket)

def listenReady (options : ServerOptions R) (pending : Pending) (socket : SocketId)
    (addresses : Option Addresses) : Handler R Unit := do
  let id ← allocating fun id => insertListener id
    { socket, owner := pending.source, localAddr := addresses.bind fun a => a.localAddr
      config := options.config, started := false }
  reply pending (.id id)

def startListener (id : TlsId) (pending : Pending) : Handler R Unit := do
  let socket ← guarded .state do
    let found ← look fun d => d.state.listeners.lookup id
    match found with
    | none =>
      reply pending (missing id)
      pure none
    | some l =>
      if l.owner = pending.source then pure (some l.socket)
      else
        reply pending (denied id)
        pure none
  match socket with
  | none => pure ()
  | some socket => callNet (.start socket) (.startingListener id pending)

/-- **`start`**, up to its await. -/
def start (id : TlsId) (pending : Pending) : Handler R Unit := do
  let connection ← readState fun s => (s.connections.lookup id).map fun c =>
    (c.socket, decide (c.owner = pending.source))
  match connection with
  | some (socket, true) => callNet (.start socket) (.startingConnection id pending)
  | some (_, false) => reply pending (denied id)
  | none => startListener id pending

def setPaused (id : TlsId) (paused : Bool) : Handler R Unit :=
  updateState fun s => match s.connections.lookup id with
    | none => s
    | some c => s.setConnection id { c with paused }

def setStarted (id : TlsId) : Handler R Unit :=
  updateState fun s => match s.listeners.lookup id with
    | none => s
    | some l => { s with listeners := s.listeners.insert id { l with started := true } }

def connectionStarted (id : TlsId) (pending : Pending) (result : Except String Unit) :
    Handler R Unit := do
  onlyIf result.isOk (setPaused id false)
  reply pending (doneOr result fun e => e)

def listenerStarted (id : TlsId) (pending : Pending) (result : Except String Unit) :
    Handler R Unit := do
  onlyIf result.isOk (setStarted id)
  reply pending (doneOr result fun e => s!"启动 TLS 监听口失败：{e}")

/-- **`pause`**, up to its await. -/
def pause (id : TlsId) (pending : Pending) : Handler R Unit := do
  let found ← readState fun s => s.connections.lookup id
  match found with
  | none => reply pending (missing id)
  | some c =>
    if c.owner = pending.source then callNet (.pause c.socket) (.pausing id pending)
    else reply pending (denied id)

def paused (id : TlsId) (pending : Pending) (result : Except String Unit) : Handler R Unit := do
  onlyIf result.isOk (setPaused id true)
  reply pending (doneOr result fun e => e)

/-- `close` of a connection: the close-notify goes out, and a spawned task closes the socket. -/
def closeConnection (id : TlsId) (pending : Pending) : Handler R Unit := do
  let socket ← guarded .state do
    let found ← look fun d => d.state.connections.lookup id
    match found with
    | none =>
      reply pending (missing id)
      pure none
    | some c =>
      if c.owner ≠ pending.source then
        reply pending (denied id)
        pure none
      else if c.closing then
        reply pending (.failed s!"{display id} 已在关闭")
        pure none
      else
        change fun d => d.setState (d.state.setConnection id
          { c with
            closing := true, closePending := some pending
            connection := R.sendCloseNotify c.connection })
        pure (some c.socket)
  match socket with
  | none => pure ()
  | some socket => flushOrFail id (suspend (.spawnedClose id socket))

/-- **`close`**, up to its await. -/
def close (id : TlsId) (pending : Pending) : Handler R Unit := do
  let listener ← readState fun s => (s.listeners.lookup id).map fun l =>
    (l.socket, decide (l.owner = pending.source))
  match listener with
  | some (_, false) => reply pending (denied id)
  | some (socket, true) =>
    let _ ← removeListener id
    callNet (.close socket) (.closingListener pending)
  | none => closeConnection id pending

def shutdownConnection (id : TlsId) (source : Handle) : Handler R Answer := do
  let allowed ← readState fun s => (s.connections.lookup id).map fun c => decide (c.owner = source)
  match allowed with
  | none => pure (missing id)
  | some false => pure (denied id)
  | some true =>
    let removed ← removeConnection id
    match removed with
    | none => pure .done
    | some c =>
      shutdownSocket c.socket
      onlyIf c.announced (emit c.owner (.close id))
      pure .done

/-- **`shutdown`.**  The guard in the `if let` is live while the listener is removed. -/
def shutdown (id : TlsId) (source : Handle) : Handler R Answer := do
  acquire .state
  let listener ← look fun d => d.state.listeners.lookup id
  match listener with
  | some l =>
    if l.owner = source then
      let _ ← removeListener id
      shutdownSocket l.socket
      release .state
      pure .done
    else
      release .state
      pure (denied id)
  | none =>
    release .state
    shutdownConnection id source

def info (id : TlsId) (source : Handle) : Handler R Answer :=
  readState fun s => match s.listeners.lookup id with
    | some l =>
      if l.owner = source then
        .info
          { id, owner := l.owner, kind := "listener"
            state := if l.started then "listen" else "prelisten"
            paused := false, localAddr := l.localAddr, peer := none
            version := none, cipherSuite := none, alpn := none }
      else denied id
    | none => match s.connections.lookup id with
      | some c => if c.owner = source then .info c.info else denied id
      | none => missing id

/-! ### Plaintext -/

/-- **`encrypt_plaintext`.**  What the loop has taken out of the library is lost when it fails. -/
def encryptPlaintext (id : TlsId) (source : Handle) (data : Bytes) :
    Handler R (Except String (SocketId × Bytes)) :=
  within .state fun d => match d.state.connections.lookup id with
    | none => (.error s!"{display id} 不存在或已经关闭", d)
    | some c =>
      if c.owner ≠ source then (.error s!"调用方不是 {display id} 的 owner", d)
      else if !c.announced || c.closing then (.error s!"{display id} 当前不能发送明文", d)
      else match Rustls.encrypt c.connection data with
        | (.error e, output) => (.error e, d.takeOut id c output)
        | (.ok (), output) => (.ok (c.socket, output.bytes), d.takeOut id c output)

def plaintextSent (id : TlsId) (sent : Except String Unit) : Handler R Answer :=
  match sent with
  | .ok () => pure .done
  | .error e => do
    fail id s!"发送 TLS 密文失败：{e}"
    return .failed s!"发送 TLS 密文失败：{e}"

def sendPlaintext (id : TlsId) (source : Handle) (data : Bytes) (high : Bool) :
    Handler R Answer := do
  let encoded ← encryptPlaintext id source data
  match encoded with
  | .error reason => pure (.failed reason)
  | .ok (socket, encrypted) =>
    if encrypted = [] then pure .done
    else
      let sent ← askNet (.send socket encrypted high)
      plaintextSent id sent

/-- **`send_plaintext_wait`**, up to its await. -/
def sendPlaintextWait (id : TlsId) (pending : Pending) (data : Bytes) (high : Bool) :
    Handler R Unit := do
  let encoded ← encryptPlaintext id pending.source data
  match encoded with
  | .error reason => reply pending (.failed reason)
  | .ok (socket, encrypted) =>
    if encrypted = [] then reply pending .done
    else callNet (.sendWait socket encrypted high) (.sending id pending)

/-! ### Socket events -/

/-- The first block of `accept`: the listener of an accepted socket.  A socket without one is shut
down under the guard. -/
def acceptedBy (socket listenSocket : SocketId) : Handler R (Option (TlsId × Listener R)) :=
  guarded .state do
    let found ← look fun d => d.listenerOf listenSocket
    match found with
    | none =>
      shutdownSocket socket
      pure none
    | some found => pure (some found)

/-- The insertion of an accepted connection.  The configuration is borrowed under the guard of the
state. -/
def insertAccepted (socket : SocketId) (peer : SocketAddr) (listen : TlsId) (l : Listener R)
    (tls : R.Conn) : Handler R TlsId := do
  let bufferLimit ← readConfig fun config => config.bufferLimit
  allocating fun id => do
    let timeout ← readConfig fun config => config.handshakeTimeoutMs
    insertConnection id
      { id, socket, owner := l.owner
        connection := R.setBufferLimit tls bufferLimit
        listen := some listen, localAddr := l.localAddr, peer
        announced := false, closing := false, peerCloseNotify := false
        connectPending := none, closePending := none, paused := false
        handshakeTimeoutMs := timeout }

/-- **`accept`**, up to its await. -/
def accept (socket listenSocket : SocketId) (peer : SocketAddr) : Handler R Unit := do
  let found ← acceptedBy socket listenSocket
  match found with
  | none => pure ()
  | some (listen, l) =>
    let full ← capacityError true
    match full with
    | some _ => shutdownSocket socket
    | none => match R.server l.config with
      | .error _ => shutdownSocket socket
      | .ok tls =>
        let id ← insertAccepted socket peer listen l tls
        callNet (.start socket) (.accepting id)

def accepted (id : TlsId) (result : Except String Unit) : Handler R Unit :=
  match result with
  | .error e => fail id s!"启动入站 TCP 连接失败：{e}"
  | .ok () => armTimeout id

def announceIfReady (id : TlsId) : Handler R Unit := do
  let ready ← withState fun s => match s.connections.lookup id with
    | none => (none, s)
    | some c =>
      if c.announced || R.isHandshaking c.connection then (none, s)
      else (some c, { s.setConnection id { c with announced := true, connectPending := none } with
        handshakes := s.handshakes - 1 })
  match ready with
  | none => pure ()
  | some c =>
    replyTo c.connectPending (.id id)
    emit c.owner (.connected id c.listen c.peer (versionName (R.protocolVersion c.connection))
      (R.cipherSuite c.connection) (R.alpn c.connection))

def deliver (id : TlsId) (plaintext : Bytes) : Handler R Unit :=
  if plaintext = [] then pure ()
  else do
    let target ← readState fun s => (s.connections.lookup id).bind fun c =>
      if c.announced then some c.owner else none
    match target with
    | none => pure ()
    | some owner => emit owner (.data id plaintext)

/-- The socket of a connection whose peer has closed is shut down, under a guard of the state. -/
def shutdownIfClosed (id : TlsId) : Handler R Unit := do
  let closed ← readState fun s => (s.connections.lookup id).any fun c => c.peerCloseNotify
  onlyIf closed <| guarded .state do
    let socket ← look fun d => (d.state.connections.lookup id).map fun c => c.socket
    match socket with
    | none => pure ()
    | some socket => shutdownSocket socket

def processTls (id : TlsId) (data : Bytes) :
    Handler R (Option (Except String Bytes)) :=
  withState fun s => match s.connections.lookup id with
    | none => (none, s)
    | some c => match Rustls.decrypt c.connection c.peerCloseNotify data with
      | (result, d) =>
        (some (result.map fun () => d.input.plaintext),
          s.setConnection id { c with connection := d.input.conn, peerCloseNotify := d.peerClosed })

def receiveTls (socket : SocketId) (data : Bytes) : Handler R Unit := do
  let id ← readState fun s => s.connectionSockets.lookup socket
  match id with
  | none => pure ()
  | some id =>
    let processed ← processTls id data
    match processed with
    | none => pure ()
    | some (.error reason) =>
      let _ ← flushTls id true
      fail id reason
    | some (.ok plaintext) => flushOrFail id do
      announceIfReady id
      deliver id plaintext
      shutdownIfClosed id

/-- The last words about a connection whose socket is gone. -/
def closedNotice (id : TlsId) (c : TlsConnection R) (error : Option String) : Handler R Unit :=
  match c.connectPending with
  | some pending => reply pending (.failed (error.getD "TLS 握手期间 TCP 连接关闭"))
  | none => onlyIf c.announced <| emit c.owner <| match error with
    | some reason => .error id reason
    | none =>
      if c.peerCloseNotify || c.closing then .close id
      else .error id "TCP 在没有 TLS close_notify 的情况下关闭"

def connectionClosed (socket : SocketId) (error : Option String) : Handler R Unit := do
  let id ← readState fun s => s.connectionSockets.lookup socket
  match id with
  | none => pure ()
  | some id =>
    let removed ← removeConnection id
    match removed with
    | none => pure ()
    | some c =>
      replyTo c.closePending (error.elim .done .failed)
      closedNotice id c error

/-- **`socket_closed`.**  The guard in the `if let` is live while the listener is removed. -/
def socketClosed (socket : SocketId) (error : Option String) : Handler R Unit := do
  acquire .state
  let listener ← look fun d => d.state.listenerSockets.lookup socket
  match listener with
  | some listener =>
    let _ ← removeListener listener
    release .state
  | none =>
    release .state
    connectionClosed socket error

def warn (socket : SocketId) (kilobytes : ℕ) : Handler R Unit := do
  let target ← readState fun s => (s.connectionSockets.lookup socket).bind fun id =>
    (s.connections.lookup id).bind fun c => if c.announced then some (id, c.owner) else none
  match target with
  | none => pure ()
  | some (id, owner) => emit owner (.warning id kilobytes)

/-! ### Timers -/

def handshakeTimeout (id : TlsId) : Handler R Unit := do
  let timedOut ← readState fun s => (s.connections.lookup id).any fun c => !c.announced
  onlyIf timedOut (fail id "TLS 握手超时")

/-- `close_failed`.  The guard ends with the condition of the `if`. -/
def closeFailed (id : TlsId) (reason : String) : Handler R Unit := do
  let known ← readState fun s => (s.connections.lookup id).isSome
  onlyIf known (fail id s!"关闭底层连接失败：{reason}")

/-! ### Messages and completions -/

def onCommand (pending : Pending) : Command R → Handler R Unit
  | .connect options => connect options pending
  | .listen options => listen options pending
  | .start id => start id pending
  | .pause id => pause id pending
  | .send id data high => do
    let answer ← sendPlaintext id pending.source data high
    reply pending answer
  | .sendWait id data high => sendPlaintextWait id pending data high
  | .close id => close id pending
  | .shutdown id => do
    let answer ← shutdown id pending.source
    reply pending answer
  | .info id => do
    let answer ← info id pending.source
    reply pending answer
  | .handshakeTimeout id => handshakeTimeout id
  | .closeFailed id reason => closeFailed id reason

def onSocket : SocketEvent → Handler R Unit
  | .accept id listen peer => accept id listen peer
  | .data id data => receiveTls id data
  | .close id => socketClosed id none
  | .error id reason => socketClosed id (some reason)
  | .warning id kilobytes => warn id kilobytes
  | .udp => pure ()

inductive Completion where
  | opened (result : Except String SocketId)
  | informed (addresses : Option Addresses)
  | finished (result : Except String Unit)
  /-- The task gets a turn: a spawned one its first, a sleeping one after its time. -/
  | polled

/-- The rest of a suspended handler; nothing when the completion is of another kind. -/
def complete : Task R → Completion → Option (Handler R Unit)
  | .connecting options tls pending, .opened result => some (connectSocket options tls pending result)
  | .connectInfo options tls pending socket, .informed addresses =>
    some (connectReady options tls pending socket addresses)
  | .listening options pending, .opened result => some (listenSocket options pending result)
  | .listenInfo options pending socket, .informed addresses =>
    some (listenReady options pending socket addresses)
  | .startingConnection id pending, .finished result => some (connectionStarted id pending result)
  | .startingListener id pending, .finished result => some (listenerStarted id pending result)
  | .pausing id pending, .finished result => some (paused id pending result)
  | .sending id pending, .finished result => some do
    let answer ← plaintextSent id result
    reply pending answer
  | .closingListener pending, .finished result => some (reply pending (doneOr result fun e => e))
  | .accepting id, .finished result => some (accepted id result)
  | .spawnedClose id socket, .polled => some (callNet (.close socket) (.closingConnection id))
  | .closingConnection id, .finished result => some (match result with
    | .ok () => pure ()
    | .error reason => sendSelf (.closeFailed id reason))
  | .sleeping id _, .polled => some (sendSelf (.handshakeTimeout id))
  | _, _ => none

/-- What can happen to the service: a command, a socket event, the completion of the suspended task
at a position, or a change in whether the network service can be reached. -/
inductive Action (R : Rustls) where
  | command (pending : Pending) (command : Command R)
  | socket (event : SocketEvent)
  | wake (task : ℕ) (completion : Completion)
  | net (down : Option String)

/-- The handler of an action.  A task that wakes leaves the list of suspended tasks first. -/
def handle (d : Server R) : Action R → Option (Handler R Unit)
  | .command pending command => some (onCommand pending command)
  | .socket event => some (onSocket event)
  | .wake i completion => (d.tasks[i]?).bind fun task =>
    (complete task completion).map fun rest => do
      change fun d => { d with tasks := d.tasks.eraseIdx i }
      rest
  | .net down => some (change fun d => { d with netDown := down })

/-- The service between two steps: at rest, or stopped by the lease assertion of a cell. -/
structure Service (R : Rustls) where
  world : World Cell (Server R)
  panicked : Option Cell

/-- **One step of the service.**  A lease assertion stops it for good; a loop that never ends is no
step. -/
def act (a : Action R) (s : Service R) : Option (Service R) :=
  if s.panicked.isSome then none
  else (handle s.world.data a).bind fun m =>
    match m s.world with
    | .ok (_, world) => some { s with world }
    | .error (.lease cell) => some { s with panicked := some cell }
    | .error .unfinished => none

def initial (config : TlsConfig) : Service R where
  world :=
    { held := fun _ => false
      data :=
        { state := .empty
          config
          netDown := none
          tasks := []
          replies := []
          events := []
          asked := []
          sent := []
          produced := [] } }
  panicked := none

end Rskynet.Tls
