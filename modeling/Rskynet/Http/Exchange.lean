import Mathlib.Algebra.GroupWithZero.Nat

/-!
# One exchange of the HTTP client

The HTTP client service keeps one `Exchange` for every request it has on a connection. This file
is the part of the client that works on one exchange: the request's origin and framing headers,
the serialisation of its head, the write and finish operations on its body, and the loop that
feeds received bytes to the protocol state machine, an external crate with the interface `Ureq`.
-/

namespace Rskynet.Http

abbrev Bytes := List UInt8

inductive HttpError where
  | config (reason : String)
  | invalidUri (reason : String)
  | unsupportedScheme (scheme : String)
  | protocol (reason : String)
  | transport (reason : String)
  | tls (reason : String)
  | timeout (phase : String)
  | bodyLengthMismatch (expected actual : ℕ)
  | bodyClosed
  | requestBodyRejected
  | backpressureLimit (actual limit : ℕ)
  | canceled
  | serviceUnavailable (reason : String)
  | invalidState (reason : String)
  deriving DecidableEq

inductive TransportId where
  | plain (socket : ℕ)
  | tls (connection : ℕ)
  deriving DecidableEq

/-! ### Configuration -/

structure HttpClientConfig where
  connectTimeoutMs : ℕ := 10000
  responseHeadTimeoutMs : ℕ := 30000
  bodyIdleTimeoutMs : ℕ := 30000
  continueTimeoutMs : ℕ := 1000
  poolIdleTimeoutMs : ℕ := 60000
  maxConnections : ℕ := 256
  maxConnectionsPerOrigin : ℕ := 16
  maxIdleConnections : ℕ := 64
  maxIdleConnectionsPerOrigin : ℕ := 8
  inputHighWater : ℕ := 256 * 1024
  inputLowWater : ℕ := 128 * 1024
  maxChunkSize : ℕ := 64 * 1024
  maxHeaderSize : ℕ := 64 * 1024

def validateCommon (low high chunk header : ℕ) : Except HttpError Unit :=
  if low = 0 ∨ high ≤ low ∨ chunk = 0 ∨ header = 0 then
    .error (.config "必须满足 0 < input_low_water < input_high_water，且块/头上限非零")
  else .ok ()

def HttpClientConfig.validate (c : HttpClientConfig) : Except HttpError Unit :=
  match validateCommon c.inputLowWater c.inputHighWater c.maxChunkSize c.maxHeaderSize with
  | .error e => .error e
  | .ok () =>
    if c.connectTimeoutMs = 0 ∨ c.responseHeadTimeoutMs = 0 ∨ c.bodyIdleTimeoutMs = 0
        ∨ c.continueTimeoutMs = 0 ∨ c.poolIdleTimeoutMs = 0 then
      .error (.config "客户端超时必须大于 0")
    else if c.maxConnections = 0 ∨ c.maxConnectionsPerOrigin = 0
        ∨ c.maxConnections < c.maxConnectionsPerOrigin then
      .error (.config "客户端连接上限无效")
    else if c.maxConnections < c.maxIdleConnections
        ∨ c.maxConnectionsPerOrigin < c.maxIdleConnectionsPerOrigin then
      .error (.config "客户端空闲连接上限无效")
    else .ok ()

/-! ### Requests -/

inductive Scheme where
  | http
  | https
  deriving DecidableEq

inductive UriScheme where
  | http
  | https
  | other (name : String)

structure Uri where
  scheme : Option UriScheme
  host : Option (List Char)
  port : Option ℕ

structure Origin where
  scheme : Scheme
  host : List Char
  port : ℕ
  deriving DecidableEq

/-- The origin of a URI, with the `tls` feature compiled in. -/
def Origin.fromUri (uri : Uri) : Except HttpError Origin :=
  let scheme : Except HttpError Scheme := match uri.scheme with
    | some .http => .ok .http
    | some .https => .ok .https
    | some (.other name) => .error (.unsupportedScheme name)
    | none => .error (.invalidUri "缺少 scheme")
  match scheme with
  | .error e => .error e
  | .ok scheme => match uri.host with
    | none => .error (.invalidUri "缺少 host")
    | some host =>
      .ok { scheme, host := host.map Char.toLower,
            port := uri.port.getD (if scheme = .https then 443 else 80) }

inductive BodySpec where
  | empty
  | fixed (size : ℕ)
  | chunked
  deriving DecidableEq

structure Headers where
  contentLength : Option (List Char)
  transferEncoding : Option (List Char)

/-- Decimal digits, with an optional plus sign, below `2 ^ 64`. -/
def parseU64 (text : List Char) : Option ℕ :=
  let digits := match text with
    | '+' :: rest => rest
    | _ => text
  if digits ≠ [] ∧ digits.all Char.isDigit then
    let n := digits.foldl (fun n c => 10 * n + (c.toNat - '0'.toNat)) 0
    if n < 2 ^ 64 then some n else none
  else none

def applyBodyHeaders (headers : Headers) (spec : BodySpec) : Except HttpError Headers :=
  if headers.contentLength.isSome ∧ headers.transferEncoding.isSome then
    .error (.protocol "Content-Length 与 Transfer-Encoding 不能并存")
  else match spec with
    | .empty =>
      if headers.contentLength.any (· ≠ ['0']) ∨ headers.transferEncoding.isSome then
        .error (.protocol "Empty body 与 framing header 不一致")
      else .ok headers
    | .fixed size => match headers.contentLength with
      | some value =>
        if parseU64 value ≠ some size then
          .error (.protocol "Content-Length 与 BodySpec 不一致")
        else .ok headers
      | none => .ok { headers with contentLength := some (Nat.toDigits 10 size) }
    | .chunked =>
      if headers.contentLength.isSome then
        .error (.protocol "Chunked body 不能带 Content-Length")
      else match headers.transferEncoding with
        | some value =>
          if value.map Char.toLower ≠ "chunked".toList then
            .error (.protocol "Transfer-Encoding 与 Chunked BodySpec 不一致")
          else .ok headers
        | none => .ok { headers with transferEncoding := some "chunked".toList }

/-! ### The protocol state machine -/

inductive SendRequestResult (A B R : Type) where
  | await100 (call : A)
  | sendBody (call : B)
  | recvResponse (call : R)

inductive Await100Result (B R : Type) where
  | sendBody (call : B)
  | recvResponse (call : R)

/-- What follows a response head; a redirect and a cleanup say whether the connection must
close. -/
inductive RecvResponseResult (D : Type) where
  | recvBody (call : D)
  | redirect (mustClose : Bool)
  | cleanup (mustClose : Bool)

inductive RecvBodyResult where
  | redirect (mustClose : Bool)
  | cleanup (mustClose : Bool)

/-- **The interface of the protocol crate.**  Each state of a call is a type of its own.  An
operation that changes a call returns the changed call; `proceed` of a call that is ready always
yields the next state. -/
structure Ureq where
  Parts : Type
  SendRequest : Type
  Await100 : Type
  SendBody : Type
  RecvResponse : Type
  RecvBody : Type
  Response : Type
  new : Uri → Headers → Parts → Except String SendRequest
  headWritten : SendRequest → Bool
  writeHead : SendRequest → ℕ → Except String (Bytes × SendRequest)
  proceedHead :
    SendRequest → Except String (Option (SendRequestResult Await100 SendBody RecvResponse))
  writeBody : SendBody → Bytes → ℕ → Except String (ℕ × Bytes) × SendBody
  bodyWritten : SendBody → Bool
  proceedBody : SendBody → RecvResponse
  tryRead100 : Await100 → Bytes → Except String (ℕ × Await100)
  canKeepAwait100 : Await100 → Bool
  proceed100 : Await100 → Except String (Await100Result SendBody RecvResponse)
  tryResponse : RecvResponse → Bytes → Except String (ℕ × Option Response × RecvResponse)
  proceedResponse : RecvResponse → RecvResponseResult RecvBody
  readBody : RecvBody → Bytes → ℕ → Except String (ℕ × Bytes × RecvBody)
  bodyRead : RecvBody → Bool
  closeDelimited : RecvBody → Bool
  proceedRead : RecvBody → RecvBodyResult
  serverName : List Char → Except String Unit

variable {U : Ureq}

structure Request (U : Ureq) where
  uri : Uri
  headers : Headers
  parts : U.Parts
  spec : BodySpec

inductive Proto (U : Ureq) where
  | sendBody (call : U.SendBody)
  | await100 (call : U.Await100)
  | recvResponse (call : U.RecvResponse)
  | recvBody (call : U.RecvBody)
  | done

def Proto.isAwait100 : Proto U → Bool
  | .await100 _ => true
  | _ => false

def Proto.pastHead : Proto U → Bool
  | .recvBody _ => true
  | .done => true
  | _ => false

/-- Writes the head in pieces until it is complete.  Every piece has at least one byte, so a head
that is still incomplete after `limit + 1` pieces has been refused as over the limit. -/
def serializeLoop (limit : ℕ) :
    ℕ → U.SendRequest → Bytes → Except HttpError (Bytes × U.SendRequest)
  | 0, _, all => .error (.backpressureLimit all.length limit)
  | fuel + 1, call, all =>
    if U.headWritten call then .ok (all, call)
    else match U.writeHead call (max (limit - all.length) 1) with
      | .error e => .error (.protocol e)
      | .ok (piece, call) =>
        if piece = [] then .error (.protocol "序列化请求头没有进展")
        else if limit < (all ++ piece).length then
          .error (.backpressureLimit (all ++ piece).length limit)
        else serializeLoop limit fuel call (all ++ piece)

def serializeRequest (call : U.SendRequest) (limit : ℕ) :
    Except HttpError (Bytes × Proto U) :=
  match serializeLoop limit (limit + 2) call [] with
  | .error e => .error e
  | .ok (all, call) => match U.proceedHead call with
    | .error e => .error (.protocol e)
    | .ok none => .error (.protocol "请求头状态无法推进")
    | .ok (some (.await100 v)) => .ok (all, .await100 v)
    | .ok (some (.sendBody v)) => .ok (all, .sendBody v)
    | .ok (some (.recvResponse v)) => .ok (all, .recvResponse v)

/-! ### The exchange -/

structure Pending where
  source : ℕ
  session : ℕ
  deriving DecidableEq

inductive Answer (U : Ureq) where
  | id (exchange : ℕ)
  | done
  | response (head : U.Response)
  | chunk (data : Option Bytes)
  | failed (error : HttpError)

/-- The command an answer belongs to.  An answer to `Next` also says which connection the exchange
had when the answer was taken from it. -/
inductive Asked where
  | start (token : ℕ)
  | write (id : ℕ)
  | finish (id : ℕ)
  | response (id : ℕ)
  | next (id : ℕ) (via : Option (TransportId × Origin))
  | cancel (id : ℕ)

structure Reply (U : Ureq) where
  asked : Asked
  pending : Pending
  answer : Answer U

structure Exchange (U : Ureq) where
  transport : TransportId
  origin : Origin
  proto : Option (Proto U)
  input : Bytes
  response : Option U.Response
  responseTaken : Bool
  responseWaiter : Option Pending
  /-- The one body write that waits for `100 Continue`. -/
  writeWaiter : Option (Pending × Bytes)
  chunks : List Bytes
  bodyWaiter : Option Pending
  bodyEnded : Bool
  error : Option String
  paused : Bool
  requestFinished : Bool
  requestExpected : Option ℕ
  requestWritten : ℕ
  reusable : Option Bool
  /-- Every chunk decoded so far, oldest first.  The source does not keep it; no handler reads
  it. -/
  decoded : List Bytes

namespace Exchange

def fresh (transport : TransportId) (origin : Origin) (proto : Proto U) (spec : BodySpec) :
    Exchange U where
  transport
  origin
  proto := some proto
  input := []
  response := none
  responseTaken := false
  responseWaiter := none
  writeWaiter := none
  chunks := []
  bodyWaiter := none
  bodyEnded := false
  error := none
  paused := false
  requestFinished := spec = .empty
  requestExpected := match spec with
    | .fixed size => some size
    | .empty => some 0
    | .chunked => none
  requestWritten := 0
  reusable := none
  decoded := []

/-- The bytes an exchange holds for its reader: unparsed input and unread chunks. -/
def buffered (e : Exchange U) : ℕ := e.input.length + (e.chunks.map List.length).sum

def via (e : Exchange U) : Option (TransportId × Origin) := some (e.transport, e.origin)

/-! ### The request body -/

/-- The state block of `write_request`: what the exchange becomes, and the encoded bytes or the
answer. -/
def write (chunk : Bytes) (e : Exchange U) :
    Exchange U × Except (Answer U) (TransportId × Bytes) :=
  if e.requestFinished then (e, .error (.failed .bodyClosed))
  else match e.proto with
    | some (.sendBody call) =>
      match U.writeBody call chunk (max (chunk.length + 32) 64) with
      | (.ok (used, output), call) =>
        if used = chunk.length then
          ({ e with
              proto := some (.sendBody call)
              requestWritten := min (e.requestWritten + used) (2 ^ 64 - 1) },
            .ok (e.transport, output))
        else
          ({ e with proto := some (.sendBody call) },
            .error (.failed (.protocol "请求体没有完整编码")))
      | (.error reason, call) =>
        ({ e with proto := some (.sendBody call) }, .error (.failed (.protocol reason)))
    | _ =>
      (e, .error (.failed (if e.response.isSome then .requestBodyRejected
        else .invalidState "请求体尚不可写")))

def finish (e : Exchange U) : Exchange U × Except (Answer U) (TransportId × Bytes) :=
  if e.requestFinished then (e, .error .done)
  else if e.requestExpected.any (e.requestWritten ≠ ·) then
    (e, .error (.failed (.bodyLengthMismatch (e.requestExpected.getD 0) e.requestWritten)))
  else match e.proto with
    | none => (e, .error (.failed (.invalidState "请求状态丢失")))
    | some (.sendBody call) =>
      match U.writeBody call [] 64 with
      | (.ok (_, output), call) =>
        if U.bodyWritten call then
          ({ e with
              proto := some (.recvResponse (U.proceedBody call))
              requestFinished := true },
            .ok (e.transport, output))
        else
          ({ e with proto := some (.sendBody call) },
            .error (.failed (.protocol "请求体尚未完成")))
      | (.error reason, call) =>
        ({ e with proto := some (.sendBody call) }, .error (.failed (.protocol reason)))
    | some (.await100 _) => (e, .error (.failed (.invalidState "仍在等待 100 Continue")))
    | some _ => ({ e with requestFinished := true }, .error .done)

end Exchange

/-! ### The loop over the received bytes -/

/-- One turn of the loop: it breaks, possibly with the body write that may go on now, or it
continues. -/
inductive Round (U : Ureq) where
  | stop (exchange : Exchange U) (job : Option (Pending × Bytes))
  | again (exchange : Exchange U) (replies : List (Reply U))

def awaitRound (id : ℕ) (e : Exchange U) (call : U.Await100) : Round U :=
  match U.tryRead100 call e.input with
  | .error reason => .stop { e with proto := none, error := some reason } none
  | .ok (used, call) =>
    let e := { e with input := e.input.drop used }
    if U.canKeepAwait100 call then .stop { e with proto := some (.await100 call) } none
    else match U.proceed100 call with
      | .ok (.sendBody v) =>
        .stop { e with proto := some (.sendBody v), writeWaiter := none } e.writeWaiter
      | .ok (.recvResponse v) =>
        .again
          { e with proto := some (.recvResponse v), requestFinished := true, writeWaiter := none }
          (e.writeWaiter.toList.map fun waiting =>
            ⟨.write id, waiting.1, .failed .requestBodyRejected⟩)
      | .error reason => .stop { e with proto := none, error := some reason } none

def headParsed (e : Exchange U) (call : U.RecvResponse) (head : U.Response) : Exchange U :=
  let e := { e with response := some head }
  match U.proceedResponse call with
  | .recvBody v => { e with proto := some (.recvBody v) }
  | .redirect mustClose =>
    { e with reusable := some !mustClose, proto := some .done, bodyEnded := true }
  | .cleanup mustClose =>
    { e with reusable := some !mustClose, proto := some .done, bodyEnded := true }

def answerResponse (id : ℕ) (e : Exchange U) : Exchange U × List (Reply U) :=
  match e.responseWaiter, e.response with
  | some waiting, some head =>
    ({ e with responseWaiter := none, responseTaken := true, response := none },
      [⟨.response id, waiting, .response head⟩])
  | _, _ => (e, [])

def responseRound (config : HttpClientConfig) (id : ℕ) (e : Exchange U) (call : U.RecvResponse) :
    Round U :=
  match U.tryResponse call e.input with
  | .ok (used, some head, call) =>
    let (e, replies) :=
      answerResponse id (headParsed { e with input := e.input.drop used } call head)
    .again e replies
  | .ok (_, none, call) =>
    if config.maxHeaderSize < e.input.length then
      .stop { e with proto := none, error := some "响应头超过上限" } none
    else .stop { e with proto := some (.recvResponse call) } none
  | .error reason => .stop { e with proto := none, error := some reason } none

/-- The exchange after `call` has decoded `output` from its input. -/
def bodyDecoded (e : Exchange U) (call : U.RecvBody) (output : Bytes) : Exchange U :=
  let e := if output = [] then e
    else { e with chunks := e.chunks ++ [output], decoded := e.decoded ++ [output] }
  if U.bodyRead call ∧ U.closeDelimited call = false then
    let mustClose := match U.proceedRead call with
      | .cleanup mustClose => mustClose
      | .redirect mustClose => mustClose
    { e with reusable := some !mustClose, proto := some .done, bodyEnded := true }
  else { e with proto := some (.recvBody call) }

def bodyRound (config : HttpClientConfig) (e : Exchange U) (call : U.RecvBody) : Round U :=
  if e.input = [] then .stop e none
  else match U.readBody call e.input config.maxChunkSize with
    | .error reason => .stop { e with proto := none, error := some reason } none
    | .ok (used, output, call) =>
      let e := bodyDecoded { e with input := e.input.drop used } call output
      if used = 0 ∧ output = [] then .stop e none else .again e []

/-- **One turn of the loop of `drive_input`**, by protocol state. -/
def driveRound (config : HttpClientConfig) (id : ℕ) (e : Exchange U) : Round U :=
  match e.proto with
  | none => .stop e none
  | some (.await100 call) => awaitRound id e call
  | some (.recvResponse call) => responseRound config id e call
  | some (.recvBody call) => bodyRound config e call
  | some (.sendBody _) => .stop e none
  | some .done => .stop e none

/-- What the loop leaves: the exchange, the answers it has collected, and a body write that may go
on. -/
structure Driven (U : Ureq) where
  exchange : Exchange U
  replies : List (Reply U)
  job : Option (Pending × Bytes)

def driveLoop (config : HttpClientConfig) (id : ℕ) : ℕ → Exchange U → Option (Driven U)
  | 0, _ => none
  | rounds + 1, e => match driveRound config id e with
    | .stop e job => some ⟨e, [], job⟩
    | .again e replies =>
      (driveLoop config id rounds e).map fun d => { d with replies := replies ++ d.replies }

/-- The answer for a reader of the body, if there is one yet, and what is left of the chunks. -/
def bodyAnswer (e : Exchange U) : Option (Answer U) × List Bytes :=
  match e.chunks with
  | chunk :: rest => (some (.chunk (some chunk)), rest)
  | [] => match e.error with
    | some reason => (some (.failed (.transport reason)), [])
    | none => if e.bodyEnded then (some (.chunk none), []) else (none, [])

def answerNext (id : ℕ) (e : Exchange U) : Exchange U × List (Reply U) :=
  match e.bodyWaiter, bodyAnswer e with
  | some waiting, (some answer, rest) =>
    ({ e with bodyWaiter := none, chunks := rest }, [⟨.next id e.via, waiting, answer⟩])
  | _, _ => (e, [])

def pauseInput (config : HttpClientConfig) (e : Exchange U) : Exchange U × Option TransportId :=
  if e.bodyEnded = false ∧ config.inputHighWater ≤ e.buffered ∧ e.paused = false then
    ({ e with paused := true }, some e.transport)
  else (e, none)

def failResponse (id : ℕ) (e : Exchange U) : Exchange U × List (Reply U) :=
  match e.error, e.responseWaiter with
  | some reason, some waiting =>
    ({ e with responseWaiter := none }, [⟨.response id, waiting, .failed (.protocol reason)⟩])
  | _, _ => (e, [])

/-- What follows the loop inside the state block: the parked commands are answered and the
transport is paused. -/
def settleWaiters (config : HttpClientConfig) (id : ℕ) (d : Driven U) :
    Driven U × Option TransportId :=
  let next := answerNext id d.exchange
  let paused := pauseInput config next.1
  let failed := failResponse id paused.1
  (⟨failed.1, d.replies ++ next.2 ++ failed.2, d.job⟩, paused.2)

/-- **The state block of `drive_input`.** -/
def driveExchange (config : HttpClientConfig) (rounds id : ℕ) (e : Exchange U) :
    Option (Driven U × Option TransportId) :=
  (driveLoop config id rounds e).map (settleWaiters config id)

end Rskynet.Http
