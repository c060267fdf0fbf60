import Mathlib.Data.List.AList
import Rskynet.Cluster.Wire
import Rskynet.Lib.Formats

/-!
# The cluster service of a node

The service keeps one connection to every other node it knows. It dials its seeds, accepts what
others dial, and on both kinds of connection the first envelope is a hello that names the node at
the other end. When both nodes have dialled each other, the connection the smaller node dialled
stays.

A handler that awaits leaves a suspended task behind; the task's completion is an input of its own.
What a handler asks of others — the network service, timers, callers, registered handlers — is
appended to the list `out`.
-/

namespace Rskynet.Cluster

abbrev Handle := ℕ

abbrev SocketId := ℕ

structure NodeId where
  get : ℕ
  nonzero : get ≠ 0
  deriving DecidableEq

def NodeId.new (value : ℕ) : Option NodeId :=
  if h : value ≠ 0 then some ⟨value, h⟩ else none

theorem NodeId.new_get (id : NodeId) : NodeId.new id.get = some id := by
  rw [NodeId.new, dif_pos id.nonzero]

theorem NodeId.ext_get {a b : NodeId} (h : a.get = b.get) : a = b := by
  cases a
  cases b
  cases h
  rfl

/-! ### Envelopes -/

inductive Kind where
  | hello
  | send
  | request
  | response
  | error
  deriving DecidableEq

def Kind.number : Kind → ℤ
  | .hello => 0
  | .send => 1
  | .request => 2
  | .response => 3
  | .error => 4

def Kind.tryFrom (n : ℤ) : Option Kind :=
  [Kind.hello, .send, .request, .response, .error].find? fun kind => kind.number = n

inductive ServiceKey where
  | handle (v : ℕ)
  | name (v : String)
  deriving DecidableEq

def ServiceKey.display : ServiceKey → String
  | .handle v =>
    let digits := Nat.toDigits 16 v
    ":" ++ String.ofList (List.replicate (8 - digits.length) '0' ++ digits)
  | .name v => "." ++ v

/-- The Protobuf message between two nodes; a target without a value is `some none`. -/
structure Envelope where
  version : ℕ := 0
  kind : ℤ := 0
  sourceNode : ℕ := 0
  requestId : ℕ := 0
  typeId : ℕ := 0
  target : Option (Option ServiceKey) := none
  payload : Bytes := []
  error : String := ""
  advertise : String := ""
  deriving DecidableEq

def protocolVersion : ℕ := 2

structure ClusterAddr where
  node : NodeId
  service : ServiceKey

/-- The validated configuration: seeds are other nodes, each named once.  The registered handlers
are known by the type of their answers. -/
structure Config where
  nodeId : NodeId
  advertise : Option String
  seeds : List (NodeId × String)
  seeds_nodup : (seeds.map Prod.fst).Nodup
  seeds_other : ∀ seed ∈ seeds, seed.1 ≠ nodeId
  maxFrameLen : ℕ
  codec : Codec Envelope
  handlers : ServiceKey → ℕ → Option ℕ

/-! ### Tables -/

structure Pending where
  source : Handle
  session : ℕ
  node : NodeId
  responseType : ℕ
  deriving DecidableEq

/-- One connection: the node its hello named, the node it was dialled for, and the bytes that are
not a whole frame yet. -/
structure Peer where
  node : Option NodeId
  expected : Option NodeId
  buffer : Bytes
  deriving DecidableEq

def Peer.claim (peer : Peer) (node : NodeId) : Option Peer :=
  if peer.node.isSome then none else some { peer with node := some node }

def Peer.reconnectNode (peer : Peer) : Option NodeId := peer.expected.or peer.node

structure Call where
  requestId : ℕ
  wantsReply : Bool
  responseType : ℕ
  deriving DecidableEq

/-- A suspended task: a dial, the start of an accepted connection, or a registered handler with the
rest of the envelopes of its `Data` event. -/
inductive Task where
  | dialing (expected : NodeId) (address : String)
  | starting (socket : SocketId)
  | invoking (socket : SocketId) (call : Call) (rest : List Envelope)
  deriving DecidableEq

inductive Answer where
  | done
  | payload (bytes : Bytes)
  | failed (reason : String)
  deriving DecidableEq

/-- What the service asks of others.  A retry sends `Connect` after a pause, a watch sends `Timeout`
when the request's time is over. -/
inductive Effect where
  | dial (address : String)
  | start (socket : SocketId)
  | send (socket : SocketId) (bytes : Bytes)
  | shutdown (socket : SocketId)
  | retry (node : NodeId) (address : String)
  | watch (id : ℕ)
  | answer (source : Handle) (session : ℕ) (answer : Answer)
  | invoke (source : NodeId) (requestId : Option ℕ) (target : String) (typeId : ℕ)
      (payload : Bytes)
  deriving DecidableEq

structure Server where
  nextRequest : ℕ
  nodes : AList fun _ : NodeId => SocketId
  peers : AList fun _ : SocketId => Peer
  pending : AList fun _ : ℕ => Pending
  tasks : List Task
  out : List Effect

namespace Server

def emit (s : Server) (effect : Effect) : Server := { s with out := s.out ++ [effect] }

def suspend (s : Server) (task : Task) : Server := { s with tasks := s.tasks ++ [task] }

def setPeer (s : Server) (socket : SocketId) (peer : Peer) : Server :=
  { s with peers := s.peers.insert socket peer }

def setNode (s : Server) (node : NodeId) (socket : SocketId) : Server :=
  { s with nodes := s.nodes.insert node socket }

def dropPeer (s : Server) (socket : SocketId) : Server :=
  { s with peers := s.peers.erase socket }

def dropNode (s : Server) (node : NodeId) : Server :=
  { s with nodes := s.nodes.erase node }

def dropPending (s : Server) (id : ℕ) : Server :=
  { s with pending := s.pending.erase id }

end Server

variable (config : Config)

/-! ### Sending -/

def hello : Envelope where
  version := protocolVersion
  kind := Kind.hello.number
  sourceNode := config.nodeId.get
  advertise := config.advertise.getD ""

/-- `ClusterService::transmit`: nothing is sent when the frame is too long. -/
def transmit (socket : SocketId) (envelope : Envelope) (s : Server) : Except String Server :=
  (frame config.codec envelope config.maxFrameLen).map fun bytes => s.emit (.send socket bytes)

def tryTransmit (socket : SocketId) (envelope : Envelope) (s : Server) : Server :=
  match transmit config socket envelope s with
  | .ok s' => s'
  | .error _ => s

/-- `ClusterService::outbound`, with the text of its error. -/
def outbound (addr : ClusterAddr) (typeId requestId : ℕ) (kind : Kind) (payload : Bytes)
    (s : Server) : Except String Server :=
  match s.nodes.lookup addr.node with
  | none => .error s!"节点 {addr.node.get} 尚未连接"
  | some socket =>
    let envelope : Envelope :=
      { version := protocolVersion, kind := kind.number, sourceNode := config.nodeId.get,
        requestId := requestId, typeId := typeId, target := some (some addr.service),
        payload := payload }
    match transmit config socket envelope s with
    | .ok s' => .ok s'
    | .error e => .error ("协议错误：" ++ e)

/-! ### Commands -/

def connect (expected : NodeId) (address : String) (s : Server) : Server :=
  if (s.nodes.lookup expected).isSome then s
  else (s.emit (.dial address)).suspend (.dialing expected address)

def connected (expected : NodeId) (address : String) (result : Option SocketId) (s : Server) :
    Server :=
  match result with
  | none => s.emit (.retry expected address)
  | some socket =>
    let s := s.setPeer socket { node := none, expected := some expected, buffer := [] }
    match transmit config socket (hello config) s with
    | .ok s' => s'
    | .error _ => s.emit (.shutdown socket)

def timeout (id : ℕ) (s : Server) : Server :=
  match s.pending.lookup id with
  | none => s
  | some p => (s.dropPending id).emit (.answer p.source p.session (.failed "跨节点请求超时"))

def sendCommand (source : Handle) (session : ℕ) (addr : ClusterAddr) (typeId : ℕ)
    (payload : Bytes) (s : Server) : Server :=
  match outbound config addr typeId 0 .send payload s with
  | .ok s' => s'.emit (.answer source session .done)
  | .error e => s.emit (.answer source session (.failed e))

/-- `Command::Request`: the number of a request is never zero. -/
def requestCommand (source : Handle) (session : ℕ) (addr : ClusterAddr) (typeId responseType : ℕ)
    (payload : Bytes) (s : Server) : Server :=
  let id := max ((s.nextRequest + 1) % 2 ^ 64) 1
  let s := { s with
    nextRequest := id
    pending := s.pending.insert id
      { source := source, session := session, node := addr.node, responseType := responseType } }
  match outbound config addr typeId id .request payload s with
  | .ok s' => s'.emit (.watch id)
  | .error e => (s.dropPending id).emit (.answer source session (.failed e))

/-! ### Connections -/

def accept (socket : SocketId) (s : Server) : Server :=
  ((s.setPeer socket { node := none, expected := none, buffer := [] }).emit (.start socket)).suspend
    (.starting socket)

def started (socket : SocketId) (ok : Bool) (s : Server) : Server :=
  if ok then tryTransmit config socket (hello config) s else s

/-- The node that dialled a connection, as this end sees it. -/
def initiator (node : NodeId) (expected : Option NodeId) : NodeId :=
  if expected.isSome then config.nodeId else node

/-- The end of `ClusterService::accept_hello`: the connection becomes the node's connection, and one
that was that before is shut down. -/
def install (socket : SocketId) (node : NodeId) (s : Server) : Server :=
  match s.nodes.lookup node with
  | none => s.setNode node socket
  | some old =>
    if old = socket then s.setNode node socket
    else ((s.setNode node socket).dropPeer old).emit (.shutdown old)

/-- `ClusterService::accept_hello`: of two connections the one the smaller node dialled stays. -/
def acceptHello (socket : SocketId) (node : NodeId) (s : Server) : Server :=
  if node = config.nodeId then s.emit (.shutdown socket)
  else match s.peers.lookup socket with
    | none => s
    | some peer =>
      if peer.expected.any (· ≠ node) then s.emit (.shutdown socket)
      else match peer.claim node with
        | none => s.emit (.shutdown socket)
        | some claimed =>
          let s := s.setPeer socket claimed
          match s.nodes.lookup node with
          | none => install socket node s
          | some old =>
            let oldInitiator := match s.peers.lookup old with
              | some oldPeer => initiator config node oldPeer.expected
              | none => node
            if oldInitiator.get ≤ (initiator config node peer.expected).get then
              s.emit (.shutdown socket)
            else install socket node s

def complete (source : NodeId) (envelope : Envelope) (failed : Bool) (s : Server) : Server :=
  match s.pending.lookup envelope.requestId with
  | none => s
  | some p =>
    let answer :=
      if p.node ≠ source then .failed "应答节点与请求目标不一致"
      else if failed then .failed envelope.error
      else if p.responseType ≠ envelope.typeId then
        .failed s!"应答类型不符：期待 {p.responseType}，收到 {envelope.typeId}"
      else .payload envelope.payload
    (s.dropPending envelope.requestId).emit (.answer p.source p.session answer)

/-- The end of `ClusterService::invoke`: the answer to a request goes back on its connection. -/
def respond (socket : SocketId) (call : Call) (result : Except String Bytes) (s : Server) :
    Server :=
  if call.wantsReply then
    let response : Envelope := match result with
      | .ok payload => { kind := Kind.response.number, payload := payload }
      | .error e => { kind := Kind.error.number, error := e }
    tryTransmit config socket
      { response with
        version := protocolVersion, sourceNode := config.nodeId.get,
        requestId := call.requestId, typeId := call.responseType } s
  else s

/-- `ClusterService::invoke`: calls the registered handler, or answers at once when there is none. -/
def invoke (socket : SocketId) (source : NodeId) (envelope : Envelope) (wantsReply : Bool)
    (s : Server) : Server × Option Call :=
  let target := envelope.target.join
  let text := (target.map ServiceKey.display).getD "<missing>"
  match target.bind fun key => config.handlers key envelope.typeId with
  | some responseType =>
    (s.emit (.invoke source (if wantsReply then some envelope.requestId else none) text
      envelope.typeId envelope.payload),
      some { requestId := envelope.requestId, wantsReply := wantsReply, responseType := responseType })
  | none =>
    (respond config socket { requestId := envelope.requestId, wantsReply := wantsReply, responseType := 0 }
      (.error s!"未注册的 cluster handler：target={text}, type_id={envelope.typeId}") s, none)

/-- `ClusterService::on_envelope`, with the handler it waits for. -/
def onEnvelope (socket : SocketId) (envelope : Envelope) (s : Server) : Server × Option Call :=
  if envelope.version ≠ protocolVersion then (s.emit (.shutdown socket), none)
  else match NodeId.new envelope.sourceNode with
    | none => (s.emit (.shutdown socket), none)
    | some source => match Kind.tryFrom envelope.kind with
      | none => (s.emit (.shutdown socket), none)
      | some .hello => (acceptHello config socket source s, none)
      | some kind =>
        if (s.peers.lookup socket).bind Peer.node ≠ some source then
          (s.emit (.shutdown socket), none)
        else match kind with
          | .send => invoke config socket source envelope false s
          | .request => invoke config socket source envelope true s
          | .response => (complete source envelope false s, none)
          | .error => (complete source envelope true s, none)
          | .hello => (s, none)

/-- The loop over the envelopes of one `Data` event, up to the first handler it waits for. -/
def onEnvelopes (socket : SocketId) : List Envelope → Server → Server
  | [], s => s
  | envelope :: rest, s =>
    match onEnvelope config socket envelope s with
    | (s', none) => onEnvelopes socket rest s'
    | (s', some call) => s'.suspend (.invoking socket call rest)

/-- `SocketEvent::Data`: the bytes go behind the connection's buffer, and the whole frames come out;
a connection that is not known is ignored. -/
def data (socket : SocketId) (bytes : Bytes) (s : Server) : Server :=
  match s.peers.lookup socket with
  | none => s
  | some peer =>
    match drain config.codec config.maxFrameLen (peer.buffer ++ bytes) with
    | (.ok envelopes, rest) =>
      onEnvelopes config socket envelopes (s.setPeer socket { peer with buffer := rest })
    | (.error _, rest) => (s.setPeer socket { peer with buffer := rest }).emit (.shutdown socket)

/-- The node whose requests fail with a connection, and which is dialled again: not when another
connection has taken its place. -/
def lostNode (socket : SocketId) (peer : Peer) (s : Server) : Option NodeId :=
  peer.reconnectNode.filter fun node => (s.nodes.lookup node).all (· = socket)

def failPending (node : NodeId) (s : Server) : Server :=
  let lost := s.pending.entries.filter fun entry => entry.2.node = node
  lost.foldl (fun s entry => (s.dropPending entry.1).emit
    (.answer entry.2.source entry.2.session (.failed s!"节点 {node.get} 连接已断开"))) s

def redial (node : NodeId) (s : Server) : Server :=
  match config.seeds.find? fun seed => seed.1 = node with
  | none => s
  | some seed => s.emit (.retry node seed.2)

/-- `ClusterService::disconnected`, for `SocketEvent::Close` and `SocketEvent::Error`. -/
def disconnected (socket : SocketId) (s : Server) : Server :=
  match s.peers.lookup socket with
  | none => s
  | some peer =>
    let s := s.dropPeer socket
    match lostNode socket peer s with
    | none => s
    | some node =>
      let s := if s.nodes.lookup node = some socket then s.dropNode node else s
      redial config node (failPending node s)

def Server.empty : Server := ⟨0, ∅, ∅, ∅, [], []⟩

/-! ### Inputs -/

/-- A command, an event of the network service, or the completion of a suspended task. -/
inductive Input where
  | connect (node : NodeId) (address : String)
  | timeout (id : ℕ)
  | send (source : Handle) (session : ℕ) (addr : ClusterAddr) (typeId : ℕ) (payload : Bytes)
  | request (source : Handle) (session : ℕ) (addr : ClusterAddr) (typeId responseType : ℕ)
      (payload : Bytes)
  | accept (socket : SocketId)
  | data (socket : SocketId) (bytes : Bytes)
  | closed (socket : SocketId)
  | connected (expected : NodeId) (address : String) (result : Option SocketId)
  | started (socket : SocketId) (ok : Bool)
  | handled (socket : SocketId) (call : Call) (rest : List Envelope)
      (result : Except String Bytes)

def resume (task : Task) (after : Server → Server) (s : Server) : Option Server :=
  if task ∈ s.tasks then some (after { s with tasks := s.tasks.erase task }) else none

/-- **One input of the service**: what it asks for stands in `out`. -/
def handle (input : Input) (s : Server) : Option Server :=
  let s := { s with out := [] }
  match input with
  | .connect node address => some (connect node address s)
  | .timeout id => some (timeout id s)
  | .send source session addr typeId payload =>
    some (sendCommand config source session addr typeId payload s)
  | .request source session addr typeId responseType payload =>
    some (requestCommand config source session addr typeId responseType payload s)
  | .accept socket => some (accept socket s)
  | .data socket bytes => some (data config socket bytes s)
  | .closed socket => some (disconnected config socket s)
  | .connected expected address result =>
    resume (.dialing expected address) (connected config expected address result) s
  | .started socket ok => resume (.starting socket) (started config socket ok) s
  | .handled socket call rest result =>
    resume (.invoking socket call rest)
      (fun s => onEnvelopes config socket rest (respond config socket call result s)) s

/-! ### A codec -/

def textFormat : Format String :=
  Format.nat.list.via (fun text => text.toList.map Char.toNat)
    (fun codes => String.ofList (codes.map Char.ofNat)) fun text => by
      rw [List.map_map]
      have hid : Char.ofNat ∘ Char.toNat = id := funext Char.ofNat_toNat
      rw [hid, List.map_id, String.ofList_toList]

def intFormat : Format ℤ :=
  (Format.nat.pair .nat).via (fun n => (n.toNat, (-n).toNat)) (fun r => (r.1 : ℤ) - (r.2 : ℤ))
    fun n => by omega

def targetFormat : Format (Option (Option ServiceKey)) :=
  (Format.nat.pair (.pair .nat textFormat)).via
    (fun
      | none => (0, 0, "")
      | some none => (1, 0, "")
      | some (some (.handle v)) => (2, v, "")
      | some (some (.name v)) => (3, 0, v))
    (fun
      | (0, _, _) => none
      | (1, _, _) => some none
      | (2, v, _) => some (some (.handle v))
      | (_, _, v) => some (some (.name v)))
    fun target => by
      match target with
      | none => rfl
      | some none => rfl
      | some (some (.handle _)) => rfl
      | some (some (.name _)) => rfl

def envelopeFormat : Format Envelope :=
  (Format.nat.pair (intFormat.pair (Format.nat.pair (Format.nat.pair (Format.nat.pair
    (targetFormat.pair ((Format.nat.via UInt8.toNat UInt8.ofNat fun _ => UInt8.ofNat_toNat).list.pair
      (textFormat.pair textFormat)))))))).via
    (fun e => (e.version, e.kind, e.sourceNode, e.requestId, e.typeId, e.target, e.payload, e.error,
      e.advertise))
    (fun (version, kind, sourceNode, requestId, typeId, target, payload, error, advertise) =>
      { version, kind, sourceNode, requestId, typeId, target, payload, error, advertise })
    fun _ => rfl

/-- **An encoding of envelopes**, in place of Protobuf's. -/
def plainCodec : Codec Envelope where
  encode := envelopeFormat.put
  decode bytes := (envelopeFormat.get bytes).map Prod.fst
  decode_encode e := by
    have h := envelopeFormat.get_put e []
    rw [List.append_nil] at h
    rw [h]
    rfl

end Rskynet.Cluster
