import Rskynet.Http.Exchange
import Rskynet.Lib.Cells
import Rskynet.Lib.Threads

/-!
# The HTTP client service

The service keeps its tables in one cell and its configuration in another, and handles commands,
transport events and the completions of its own awaits one after another. Every handler is a
program over the two cells, with guards that start and end where the source's guards do: a guard
in a block ends with the block, a guard in the scrutinee of a `match` ends after its arms, and a
named guard ends with its function unless it is dropped before.

A handler that awaits ends its step with a suspended task; the task's completion is a step of its
own and may come at any later time.
-/

namespace Rskynet.Http

open Cells

variable {U : Ureq}

inductive Cell where
  | state
  | config
  deriving DecidableEq

structure Start (U : Ureq) where
  token : ℕ
  pending : Pending
  request : Request U

/-- The tables of the service.  `idle` lists the pooled connections in the order in which they
were pooled, `connecting` has one entry for every connect in flight. -/
structure State (U : Ureq) where
  nextId : ℕ
  exchanges : ℕ → Option (Exchange U)
  active : TransportId → Option ℕ
  origins : List (TransportId × Origin)
  idle : List (Origin × TransportId)
  pendingStarts : List (Start U)
  startTokens : ℕ → Option ℕ
  connecting : List Origin
  idleGeneration : TransportId → Option ℕ
  nextIdleGeneration : ℕ

inductive Command (U : Ureq) where
  | start (token : ℕ) (request : Request U)
  | write (id : ℕ) (chunk : Bytes)
  | finish (id : ℕ)
  | response (id : ℕ)
  | next (id : ℕ)
  | cancel (id : ℕ)
  | cancelStart (token : ℕ)
  | confirmStart (token : ℕ)
  | continueTimeout (id : ℕ)
  | waitTimeout (id session : ℕ) (body : Bool)
  | idleTimeout (transport : TransportId) (generation : ℕ)
  | resumeStart (start : Start U)

/-- A suspended handler: what it awaits and what it does afterwards. -/
inductive Task (U : Ureq) where
  /-- `start_exchange` in `acquire`, until a connect completes. -/
  | connecting (start : Start U) (origin : Origin) (call : U.SendRequest)
  /-- `start_exchange`, until the transport has taken the request head. -/
  | sendingHead (id token : ℕ) (pending : Pending)
  /-- `write_request`, with the pause that `drive_input` makes after it. -/
  | writing (id : ℕ) (pending : Pending) (pause : Option TransportId)
  /-- `finish_request`. -/
  | finishing (id : ℕ) (pending : Pending)
  /-- `next_body`, until the transport has resumed. -/
  | resuming (id : ℕ) (via : Option (TransportId × Origin)) (pending : Pending)
      (answer : Option (Answer U)) (cleanup : Option (TransportId × Origin × Bool))
  /-- `drive_input`, until the transport has paused. -/
  | pausing (id : ℕ)

/-- What the service has and what it has done: its two cells, the callers that still hold their
start tokens, and, newest first, its answers, the connections it shut down, the bytes it handed to
connections, the messages it sent to itself and the timers it armed. -/
structure Client (U : Ureq) where
  state : State U
  config : HttpClientConfig
  alive : ℕ → Bool
  tasks : List (Task U)
  replies : List (Reply U)
  shutdowns : List TransportId
  written : List (TransportId × Bytes)
  sent : List (Command U)
  timers : List (Command U)

/-! ### The tables -/

namespace State

def empty : State U where
  nextId := 0
  exchanges := fun _ => none
  active := fun _ => none
  origins := []
  idle := []
  pendingStarts := []
  startTokens := fun _ => none
  connecting := []
  idleGeneration := fun _ => none
  nextIdleGeneration := 0

def setExchange (s : State U) (id : ℕ) (e : Option (Exchange U)) : State U :=
  { s with exchanges := Function.update s.exchanges id e }

def setActive (s : State U) (transport : TransportId) (id : Option ℕ) : State U :=
  { s with active := Function.update s.active transport id }

def forget (s : State U) (transport : TransportId) : State U :=
  { s with
    origins := s.origins.filter (·.1 ≠ transport)
    active := Function.update s.active transport none
    idleGeneration := Function.update s.idleGeneration transport none
    idle := s.idle.filter (·.2 ≠ transport) }

def hasIdle (s : State U) (origin : Origin) : Bool := s.idle.any (·.1 = origin)

def total (s : State U) : ℕ := s.origins.length + s.connecting.length

def same (s : State U) (origin : Origin) : ℕ :=
  s.origins.countP (·.2 = origin) + s.connecting.count origin

/-- The capacity test of `should_queue` and `wake_queued`. -/
def hasRoom (s : State U) (config : HttpClientConfig) (origin : Origin) : Bool :=
  s.total < config.maxConnections && s.same origin < config.maxConnectionsPerOrigin

def eligible (s : State U) (config : HttpClientConfig) (start : Start U) : Bool :=
  match Origin.fromUri start.request.uri with
  | .error _ => false
  | .ok origin => s.hasIdle origin || s.hasRoom config origin

/-- The search of `wake_queued` looks at the configuration: the first queued start with a valid
origin has no idle connection, so its capacity is computed. -/
def asksConfig (s : State U) : Bool :=
  match s.pendingStarts.find? fun start => (Origin.fromUri start.request.uri).isOk with
  | none => false
  | some start => match Origin.fromUri start.request.uri with
    | .error _ => false
    | .ok origin => !s.hasIdle origin

def popEligible (s : State U) (config : HttpClientConfig) : Option (Start U) × State U :=
  match s.pendingStarts.findIdx? (s.eligible config) with
  | none => (none, s)
  | some i => (s.pendingStarts[i]?, { s with pendingStarts := s.pendingStarts.eraseIdx i })

def idleFull (s : State U) (config : HttpClientConfig) (origin : Origin) : Bool :=
  config.maxIdleConnections ≤ s.idle.length
    || config.maxIdleConnectionsPerOrigin ≤ s.idle.countP (·.1 = origin)

def pool (s : State U) (transport : TransportId) (origin : Origin) : State U :=
  let generation := max ((s.nextIdleGeneration + 1) % 2 ^ 64) 1
  { s with
    idle := s.idle ++ [(origin, transport)]
    nextIdleGeneration := generation
    idleGeneration := Function.update s.idleGeneration transport (some generation) }

def popIdle (s : State U) (origin : Origin) : Option TransportId × State U :=
  match s.idle.find? (·.1 = origin) with
  | none => (none, s)
  | some (_, transport) =>
    (some transport,
      { s with
        idle := s.idle.eraseP (·.1 = origin)
        idleGeneration := Function.update s.idleGeneration transport none })

/-- The id of the next exchange; the counter wraps and skips zero. -/
def freshId (s : State U) : ℕ := max ((s.nextId + 1) % 2 ^ 64) 1

def insertExchange (s : State U) (token : ℕ) (transport : TransportId) (origin : Origin)
    (proto : Proto U) (spec : BodySpec) : ℕ × State U :=
  (s.freshId, { s with
    nextId := s.freshId
    active := Function.update s.active transport (some s.freshId)
    startTokens := Function.update s.startTokens token (some s.freshId)
    exchanges := Function.update s.exchanges s.freshId
      (some (Exchange.fresh transport origin proto spec)) })

def drop (s : State U) (id : ℕ) : State U :=
  { s with
    exchanges := Function.update s.exchanges id none
    startTokens := fun token => (s.startTokens token).filter (· ≠ id) }

end State

/-! ### Effects -/

namespace Client

def reply (c : Client U) (r : Reply U) : Client U :=
  if r.pending.session = 0 then c else { c with replies := r :: c.replies }

def setState (c : Client U) (s : State U) : Client U := { c with state := s }

def onState {α : Type} (f : State U → α × State U) (c : Client U) : α × Client U :=
  ((f c.state).1, c.setState (f c.state).2)

end Client

abbrev Handler (U : Ureq) := Prog Cell (Client U)

def withState {α : Type} (f : State U → α × State U) : Handler U α :=
  within .state (Client.onState f)

def updateState (f : State U → State U) : Handler U Unit := withState fun s => ((), f s)

def readConfig {α : Type} (f : HttpClientConfig → α) : Handler U α :=
  within .config fun c => (f c.config, c)

def reply (asked : Asked) (pending : Pending) (answer : Answer U) : Handler U Unit :=
  change fun c => c.reply ⟨asked, pending, answer⟩

def replyTo (asked : Asked) (waiting : Option Pending) (answer : Answer U) : Handler U Unit :=
  match waiting with
  | none => pure ()
  | some pending => reply asked pending answer

def replyWith (asked : Asked) (pending : Pending) (answer : Option (Answer U)) : Handler U Unit :=
  match answer with
  | none => pure ()
  | some answer => reply asked pending answer

def replyAll (replies : List (Reply U)) : Handler U Unit :=
  change fun c => replies.foldl Client.reply c

def shutdown (transport : TransportId) : Handler U Unit :=
  change fun c => { c with shutdowns := transport :: c.shutdowns }

def sendSelf (command : Command U) : Handler U Unit :=
  change fun c => { c with sent := command :: c.sent }

def arm (command : Command U) : Handler U Unit :=
  change fun c => { c with timers := command :: c.timers }

def isAlive (token : ℕ) : Handler U Bool := look fun c => c.alive token

def suspend (task : Task U) : Handler U Unit :=
  change fun c => { c with tasks := c.tasks ++ [task] }

def sendWait (transport : TransportId) (data : Bytes) (task : Task U) : Handler U Unit := do
  change fun c => { c with written := (transport, data) :: c.written }
  suspend task

/-! ### Shared helpers -/

/-- **`wake_queued`.**  Dead starts leave the queue, and the first start that can go on is sent to
the service itself.  The search holds the state, and borrows the configuration when it has to
compute a capacity. -/
def wakeQueued : Handler U Unit := do
  let job ← guarded .state do
    change fun c => c.setState
      { c.state with pendingStarts := c.state.pendingStarts.filter fun start => c.alive start.token }
    let asks ← look fun c => c.state.asksConfig
    onlyIf asks (readConfig fun _ => ())
    effect fun c => Client.onState (fun s => s.popEligible c.config) c
  match job with
  | none => pure ()
  | some start => sendSelf (.resumeStart start)

def forgetTransport (transport : TransportId) : Handler U Unit :=
  updateState fun s => s.forget transport

/-- **`cancel`.**  The exchange leaves the table and its connection is shut down; its parked
commands are answered.  The reason is stored in the exchange that is being dropped, so nothing
reads it. -/
def cancel (id : ℕ) : Handler U Unit := do
  let taken ← withState fun s => match s.exchanges id with
    | none => (none, s)
    | some e => (some e, s.drop id)
  match taken with
  | none => pure ()
  | some e =>
    shutdown e.transport
    forgetTransport e.transport
    replyTo (.response id) e.responseWaiter (.failed .canceled)
    replyTo (.next id e.via) e.bodyWaiter (.failed .canceled)
    replyTo (.write id) (e.writeWaiter.map Prod.fst) (.failed .canceled)
    wakeQueued

def shouldQueue (origin : Origin) : Handler U Bool :=
  guarded .state do
    let idle ← look fun c => c.state.hasIdle origin
    if idle then pure false
    else within .config fun c => (!c.state.hasRoom c.config origin, c)

/-- **`recycle`.**  A connection that can be used again joins the pool.  When an idle limit is
reached only the guard of the state is dropped: the guard of the configuration is live until the
function ends. -/
def recycle (transport : TransportId) (origin : Origin) (reusable : Bool) : Handler U Unit := do
  updateState fun s => s.setActive transport none
  if reusable then
    acquire .state
    acquire .config
    let full ← look fun c => c.state.idleFull c.config origin
    if full then
      release .state
      shutdown transport
      forgetTransport transport
      wakeQueued
      release .config
    else
      change fun c => c.setState (c.state.pool transport origin)
      let generation ← look fun c => c.state.nextIdleGeneration
      release .config
      release .state
      arm (.idleTimeout transport generation)
      wakeQueued
  else
    shutdown transport
    forgetTransport transport
    wakeQueued

/-! ### Starting an exchange -/

/-- `start_exchange` with a connection.  The guard of the configuration that the head's limit is
read through is live in both arms of the `match`. -/
def startConnected (start : Start U) (origin : Origin) (call : U.SendRequest)
    (transport : TransportId) : Handler U Unit := do
  let alive ← isAlive start.token
  if alive then
    acquire .config
    let head ← look fun c => serializeRequest call c.config.maxHeaderSize
    match head with
    | .error e =>
      shutdown transport
      forgetTransport transport
      reply (.start start.token) start.pending (.failed e)
      wakeQueued
      release .config
    | .ok (data, proto) =>
      release .config
      let id ← withState fun s => s.insertExchange start.token transport origin proto start.request.spec
      sendWait transport data (.sendingHead id start.token start.pending)
  else
    shutdown transport
    forgetTransport transport
    wakeQueued

def failStart (start : Start U) (e : HttpError) : Handler U Unit := do
  reply (.start start.token) start.pending (.failed e)
  wakeQueued

/-- `acquire` up to its await: an idle connection, or a connect in flight. -/
def acquireTransport (start : Start U) (origin : Origin) (call : U.SendRequest) :
    Handler U Unit := do
  let idle ← withState fun s => s.popIdle origin
  match idle with
  | some transport => startConnected start origin call transport
  | none =>
    updateState fun s => { s with connecting := origin :: s.connecting }
    readConfig fun _ => ()
    let refused : Option String := match origin.scheme with
      | .http => none
      | .https => match U.serverName origin.host with
        | .ok () => none
        | .error reason => some reason
    match refused with
    | none => suspend (.connecting start origin call)
    | some reason =>
      updateState fun s => { s with connecting := s.connecting.erase origin }
      failStart start (.tls reason)

/-- **`start_exchange`**, up to its first await. -/
def startExchange (start : Start U) : Handler U Unit := do
  let alive ← isAlive start.token
  if alive then
    match Origin.fromUri start.request.uri with
    | .error e => failStart start e
    | .ok origin =>
      let queued ← shouldQueue origin
      if queued then
        updateState fun s => { s with pendingStarts := s.pendingStarts ++ [start] }
      else match applyBodyHeaders start.request.headers start.request.spec with
        | .error e => failStart start e
        | .ok headers => match U.new start.request.uri headers start.request.parts with
          | .error e => failStart start (.protocol e)
          | .ok call => acquireTransport start origin call
  else wakeQueued

def startWithConnect (start : Start U) (origin : Origin) (call : U.SendRequest)
    (connected : Except HttpError TransportId) : Handler U Unit := do
  updateState fun s => { s with connecting := s.connecting.erase origin }
  match connected with
  | .error e => failStart start e
  | .ok transport =>
    updateState fun s =>
      { s with origins := (transport, origin) :: s.origins.filter (·.1 ≠ transport) }
    startConnected start origin call transport

def startSent (id token : ℕ) (pending : Pending) (sent : Except HttpError Unit) :
    Handler U Unit :=
  match sent with
  | .error e => do
    cancel id
    reply (.start token) pending (.failed e)
  | .ok () => do
    let alive ← isAlive token
    if alive then
      let awaits ← withState fun s =>
        (((s.exchanges id).bind (·.proto)).any Proto.isAwait100, s)
      onlyIf awaits do
        readConfig fun _ => ()
        arm (.continueTimeout id)
      reply (.start token) pending (.id id)
    else cancel id

def cancelStart (token : ℕ) : Handler U Unit := do
  let id ← withState fun s =>
    (s.startTokens token,
      { s with
        pendingStarts := s.pendingStarts.filter (·.token ≠ token)
        startTokens := Function.update s.startTokens token none })
  match id with
  | some id => cancel id
  | none => wakeQueued

/-! ### The request body -/

/-- `write_request` up to its await: an answer, or bytes for the transport. -/
def writeRequest (id : ℕ) (chunk : Bytes) :
    Handler U (Except (Answer U) (TransportId × Bytes)) :=
  if chunk = [] then pure (.error .done)
  else do
    let limit ← readConfig fun config => config.maxChunkSize
    if limit < chunk.length then
      pure (.error (.failed (.backpressureLimit chunk.length limit)))
    else withState fun s => match s.exchanges id with
      | none => (.error (.failed .bodyClosed), s)
      | some e => ((e.write chunk).2, s.setExchange id (some (e.write chunk).1))

def pauseTransport (id : ℕ) (pause : Option TransportId) : Handler U Unit :=
  match pause with
  | none => pure ()
  | some _ => suspend (.pausing id)

/-- `write_request` with the answer its caller sends, and the pause that may follow it. -/
def writeAndReply (id : ℕ) (pending : Pending) (chunk : Bytes)
    (pause : Option TransportId) : Handler U Unit := do
  let encoded ← writeRequest id chunk
  match encoded with
  | .ok (transport, data) => sendWait transport data (.writing id pending pause)
  | .error answer =>
    reply (.write id) pending answer
    pauseTransport id pause

/-- The state block of `defer_continue_write`: a write that comes while the exchange waits for
`100 Continue` is parked, or refused when one is parked already. -/
def Exchange.deferWrite (e : Exchange U) (pending : Pending) (chunk : Bytes) :
    Exchange U × Bool × Option HttpError :=
  if e.proto.any Proto.isAwait100 then
    if e.writeWaiter.isSome then
      (e, false, some (.invalidState "已有请求体写入在等待 100 Continue"))
    else ({ e with writeWaiter := some (pending, chunk) }, false, none)
  else (e, true, none)

/-- `defer_continue_write`; the result says whether the write goes on. -/
def deferContinueWrite (id : ℕ) (pending : Pending) (chunk : Bytes) : Handler U Bool :=
  if chunk = [] then pure true
  else do
    let (goes, refused) ← withState fun s => match s.exchanges id with
      | none => ((true, none), s)
      | some e =>
        ((e.deferWrite pending chunk).2, s.setExchange id (some (e.deferWrite pending chunk).1))
    replyWith (.write id) pending (refused.map .failed)
    return goes

def writeCommand (id : ℕ) (pending : Pending) (chunk : Bytes) : Handler U Unit := do
  let goes ← deferContinueWrite id pending chunk
  onlyIf goes (writeAndReply id pending chunk none)

def finishRequest (id : ℕ) (pending : Pending) : Handler U Unit := do
  let encoded ← withState fun s => match s.exchanges id with
    | none => (.error (.failed .bodyClosed), s)
    | some e => (e.finish.2, s.setExchange id (some e.finish.1))
  match encoded with
  | .ok (transport, data) => sendWait transport data (.finishing id pending)
  | .error answer => reply (.finish id) pending answer

/-! ### Received bytes -/

/-- **`drive_input`**, up to its first await.  The loop runs under the guard of the state and
borrows the configuration in between. -/
def driveInput (rounds id : ℕ) : Handler U Unit := do
  let driven ← guarded .state do
    let found ← look fun c => c.state.exchanges id
    match found with
    | none => pure none
    | some e =>
      let config ← readConfig fun config => config
      match driveExchange config rounds id e with
      | none => stop .unfinished
      | some (d, pause) =>
        change fun c => c.setState (c.state.setExchange id (some d.exchange))
        pure (some (d, pause))
  match driven with
  | none => pure ()
  | some (d, pause) =>
    replyAll d.replies
    match d.job with
    | some (waiting, chunk) => writeAndReply id waiting chunk pause
    | none => pauseTransport id pause

def onData (rounds : ℕ) (transport : TransportId) (data : Bytes) : Handler U Unit := do
  let id ← withState fun s => (s.active transport, s)
  match id with
  | none =>
    shutdown transport
    forgetTransport transport
  | some id =>
    updateState fun s => match s.exchanges id with
      | none => s
      | some e => s.setExchange id (some { e with input := e.input ++ data })
    driveInput rounds id

def endsWithClose (e : Exchange U) : Bool :=
  match e.proto with
  | some (.recvBody call) => U.closeDelimited call
  | _ => false

def onClosed (rounds : ℕ) (transport : TransportId) (error : Option String) :
    Handler U Unit := do
  let id ← withState fun s => (s.active transport, s.setActive transport none)
  forgetTransport transport
  match id with
  | none => wakeQueued
  | some id =>
    let delimited ← withState fun s => ((s.exchanges id).any endsWithClose, s)
    if delimited ∧ error = none then
      updateState fun s => match s.exchanges id with
        | none => s
        | some e => s.setExchange id
          (some { e with bodyEnded := true, proto := some .done, reusable := some false })
      driveInput rounds id
    else cancel id

/-! ### The response -/

/-- The state block of `wait_response`: the answer, or a parked command. -/
def Exchange.takeResponse (e : Exchange U) (pending : Pending) : Exchange U × Option (Answer U) :=
  if e.responseTaken then (e, some (.failed (.invalidState "响应已取得")))
  else match e.error with
    | some reason => (e, some (.failed (.transport reason)))
    | none => match e.response with
      | some head => ({ e with response := none, responseTaken := true }, some (.response head))
      | none =>
        if e.responseWaiter.isSome then
          (e, some (.failed (.invalidState "已有 response 调用在等待")))
        else ({ e with responseWaiter := some pending }, none)

def waitResponse (id : ℕ) (pending : Pending) : Handler U Unit := do
  let answer ← withState fun s => match s.exchanges id with
    | none => (some (.failed .bodyClosed), s)
    | some e => ((e.takeResponse pending).2, s.setExchange id (some (e.takeResponse pending).1))
  match answer with
  | some answer => reply (.response id) pending answer
  | none =>
    readConfig fun _ => ()
    arm (.waitTimeout id pending.session false)

structure Taken (U : Ureq) where
  exchange : Exchange U
  answer : Option (Answer U)
  resume : Bool
  cleanup : Option (TransportId × Origin × Bool)

/-- The answer of `next_body`; a reader that gets none is parked. -/
def Exchange.takeNext (e : Exchange U) (pending : Pending) : Exchange U × Option (Answer U) :=
  match bodyAnswer e with
  | (some answer, rest) => ({ e with chunks := rest }, some answer)
  | (none, _) =>
    if e.bodyWaiter.isSome then
      (e, some (.failed (.invalidState "已有 next_chunk 调用在等待")))
    else ({ e with bodyWaiter := some pending }, none)

def Answer.isEnd : Answer U → Bool
  | .chunk none => true
  | _ => false

/-- The state block of `next_body`: the answer, whether the transport resumes, and the connection
that is to be recycled at the end of the body. -/
def Exchange.next (config : HttpClientConfig) (e : Exchange U) (pending : Pending) : Taken U :=
  let (e, answer) := e.takeNext pending
  let resume : Bool := e.paused && decide (e.buffered ≤ config.inputLowWater)
  let e := if resume then { e with paused := false } else e
  if answer.any Answer.isEnd then
    { exchange := { e with reusable := none }, answer, resume
      cleanup := e.reusable.map fun reusable => (e.transport, e.origin, reusable) }
  else { exchange := e, answer, resume, cleanup := none }

/-- The end of `next_body`: the answer, then the connection is recycled or a timer is armed. -/
def nextTaken (id : ℕ) (via : Option (TransportId × Origin)) (pending : Pending)
    (answer : Option (Answer U)) (cleanup : Option (TransportId × Origin × Bool)) :
    Handler U Unit := do
  replyWith (.next id via) pending answer
  match cleanup with
  | some (transport, origin, reusable) =>
    recycle transport origin reusable
    updateState fun s => s.setExchange id none
  | none =>
    readConfig fun _ => ()
    arm (.waitTimeout id pending.session true)

/-- **`next_body`**, up to its await of the transport's `resume`. -/
def nextBody (id : ℕ) (pending : Pending) : Handler U Unit := do
  let taken ← guarded .state do
    let found ← look fun c => c.state.exchanges id
    match found with
    | none => pure none
    | some e =>
      onlyIf e.paused (readConfig fun _ => ())
      effect fun c =>
        let taken := e.next c.config pending
        (some taken, c.setState (c.state.setExchange id (some taken.exchange)))
  match taken with
  | none => reply (.next id none) pending (.failed .bodyClosed)
  | some taken =>
    if taken.resume then
      suspend (.resuming id taken.exchange.via pending taken.answer taken.cleanup)
    else nextTaken id taken.exchange.via pending taken.answer taken.cleanup

/-! ### Timers -/

/-- The state block of `continue_timeout`.  The protocol state is taken out of the exchange before
the handler knows that it is `Await100`. -/
def Exchange.stopWaiting100 (e : Exchange U) :
    Exchange U × Option (Pending × Bytes) × Option Pending × Bool :=
  match e.proto with
  | some (.await100 call) =>
    match U.proceed100 call with
    | .ok (.sendBody v) =>
      ({ e with proto := some (.sendBody v), writeWaiter := none }, e.writeWaiter, none, false)
    | .ok (.recvResponse v) =>
      ({ e with proto := some (.recvResponse v), writeWaiter := none }, none,
        e.writeWaiter.map Prod.fst, true)
    | .error reason =>
      ({ e with proto := none, error := some reason, writeWaiter := none }, none,
        e.writeWaiter.map Prod.fst, false)
  | _ => ({ e with proto := none }, none, none, false)

def continueTimeout (rounds id : ℕ) : Handler U Unit := do
  let (job, rejected, transition) ← withState fun s => match s.exchanges id with
    | none => ((none, none, false), s)
    | some e => (e.stopWaiting100.2, s.setExchange id (some e.stopWaiting100.1))
  replyTo (.write id) rejected (.failed .requestBodyRejected)
  match job with
  | some (waiting, chunk) => writeAndReply id waiting chunk none
  | none => onlyIf transition (driveInput rounds id)

/-- The state block of `wait_timeout`: the parked command that the timer was armed for. -/
def Exchange.expire (e : Exchange U) (id session : ℕ) (body : Bool) :
    Exchange U × Option (Asked × Pending) :=
  if body then
    if e.bodyWaiter.any (·.session = session) then
      ({ e with bodyWaiter := none }, e.bodyWaiter.map fun p => (.next id e.via, p))
    else (e, none)
  else if e.responseWaiter.any (·.session = session) then
    ({ e with responseWaiter := none }, e.responseWaiter.map fun p => (.response id, p))
  else (e, none)

def waitTimeout (id session : ℕ) (body : Bool) : Handler U Unit := do
  let waiting ← withState fun s => match s.exchanges id with
    | none => (none, s)
    | some e =>
      ((e.expire id session body).2, s.setExchange id (some (e.expire id session body).1))
  match waiting with
  | none => pure ()
  | some (asked, pending) =>
    reply asked pending (.failed (.timeout (if body then "body idle" else "response head")))
    cancel id

def idleTimeout (transport : TransportId) (generation : ℕ) : Handler U Unit := do
  let current ← withState fun s => (s.idleGeneration transport, s)
  onlyIf (current = some generation) do
    let removed ← withState fun s =>
      (s.idle.any (·.2 = transport), { s with idle := s.idle.filter (·.2 ≠ transport) })
    onlyIf removed do
      updateState fun s =>
        { s with idleGeneration := Function.update s.idleGeneration transport none }
      shutdown transport
      forgetTransport transport
      wakeQueued

/-! ### Messages and completions -/

def onCommand (rounds : ℕ) (pending : Pending) : Command U → Handler U Unit
  | .start token request => startExchange ⟨token, pending, request⟩
  | .write id chunk => writeCommand id pending chunk
  | .finish id => finishRequest id pending
  | .response id => waitResponse id pending
  | .next id => nextBody id pending
  | .cancel id => do
    cancel id
    reply (.cancel id) pending .done
  | .cancelStart token => cancelStart token
  | .confirmStart token =>
    updateState fun s => { s with startTokens := Function.update s.startTokens token none }
  | .continueTimeout id => continueTimeout rounds id
  | .waitTimeout id session body => waitTimeout id session body
  | .idleTimeout transport generation => idleTimeout transport generation
  | .resumeStart start => startExchange start

inductive Completion where
  | connected (result : Except HttpError TransportId)
  | finished (result : Except HttpError Unit)

def sentAnswer (result : Except HttpError Unit) : Answer U :=
  match result with
  | .ok () => .done
  | .error e => .failed e

/-- The rest of a suspended handler; nothing when the completion is of another kind. -/
def complete : Task U → Completion → Option (Handler U Unit)
  | .connecting start origin call, .connected result =>
    some (startWithConnect start origin call result)
  | .sendingHead id token pending, .finished result => some (startSent id token pending result)
  | .writing id pending pause, .finished result => some do
    reply (.write id) pending (sentAnswer result)
    pauseTransport id pause
  | .finishing id pending, .finished result =>
    some (reply (.finish id) pending (sentAnswer result))
  | .resuming id via pending answer cleanup, .finished result => some do
    onlyIf (!result.isOk) (cancel id)
    nextTaken id via pending answer cleanup
  | .pausing id, .finished result => some (onlyIf (!result.isOk) (cancel id))
  | _, _ => none

/-- What can happen to the service: a command, bytes or the end of a connection, the completion of
the suspended task at a position, or a caller giving up its start. -/
inductive Action (U : Ureq) where
  | command (pending : Pending) (command : Command U)
  | data (transport : TransportId) (bytes : Bytes)
  | closed (transport : TransportId) (error : Option String)
  | wake (task : ℕ) (completion : Completion)
  | giveUp (token : ℕ)

/-- The handler of an action.  A task that wakes leaves the list of suspended tasks first. -/
def handler (rounds : ℕ) (c : Client U) : Action U → Option (Handler U Unit)
  | .command pending command => some (onCommand rounds pending command)
  | .data transport bytes => some (onData rounds transport bytes)
  | .closed transport error => some (onClosed rounds transport error)
  | .wake i completion => (c.tasks[i]?).bind fun task =>
    (complete task completion).map fun rest => do
      change fun c => { c with tasks := c.tasks.eraseIdx i }
      rest
  | .giveUp token =>
    some (change fun c => { c with alive := Function.update c.alive token false })

/-- The service between two steps: at rest, or stopped by the lease assertion of a cell. -/
structure Service (U : Ureq) where
  world : World Cell (Client U)
  panicked : Option Cell

/-- An action, with the turns its loop over received bytes may take. -/
structure Turn (U : Ureq) where
  action : Action U
  rounds : ℕ

/-- **One step of the service.**  A lease assertion stops it for good; a loop that needs more turns
than it is given is no step. -/
def act (turn : Turn U) (s : Service U) : Option (Service U) :=
  if s.panicked.isSome then none
  else (handler turn.rounds s.world.data turn.action).bind fun m =>
    match m s.world with
    | .ok (_, world) => some { s with world }
    | .error (.lease cell) => some { s with panicked := some cell }
    | .error .unfinished => none

def initial (config : HttpClientConfig) : Service U where
  world :=
    { held := fun _ => false
      data :=
        { state := .empty
          config
          alive := fun _ => true
          tasks := []
          replies := []
          shutdowns := []
          written := []
          sent := []
          timers := [] } }
  panicked := none

end Rskynet.Http
