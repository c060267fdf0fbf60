import Mathlib.Data.List.Basic
import Rskynet.Lib.Loops

/-!
# The TLS library and the loops around it

The record layer, the handshake and the certificates are a library outside the repository: a
parameter, with the two facts that make the service's loops over it end.
-/

namespace Rskynet.Tls

open List

abbrev Bytes := List UInt8

inductive Version where
  | tls12
  | tls13
  | other
  deriving DecidableEq

def versionName : Option Version → Option String
  | some .tls12 => some "TLSv1.2"
  | some .tls13 => some "TLSv1.3"
  | some .other => some "unknown"
  | none => none

inductive ReadOutcome where
  | data (bytes : Bytes)
  | wouldBlock
  | failed (reason : String)
  deriving DecidableEq

/-- **The TLS library.**  An operation that changes a connection returns the new one next to its
result. -/
structure Rustls where
  ClientConfig : Type
  ServerConfig : Type
  ServerName : Type
  Conn : Type
  client : ClientConfig → ServerName → Except String Conn
  server : ServerConfig → Except String Conn
  setBufferLimit : Conn → ℕ → Conn
  isHandshaking : Conn → Bool
  protocolVersion : Conn → Option Version
  cipherSuite : Conn → Option String
  alpn : Conn → Option Bytes
  /-- `writer().write`: how many bytes of plaintext were accepted. -/
  write : Conn → Bytes → Except String ℕ × Conn
  wantsWrite : Conn → Bool
  /-- `write_tls`: the ciphertext it hands out. -/
  writeTls : Conn → Except String Bytes × Conn
  /-- `read_tls`: its result, and how far it moved the cursor. -/
  readTls : Conn → Bytes → (Except String ℕ × ℕ) × Conn
  /-- `process_new_packets`: whether the peer has closed. -/
  processNewPackets : Conn → Except String Bool × Conn
  /-- `reader().read`. -/
  read : Conn → ReadOutcome × Conn
  sendCloseNotify : Conn → Conn
  /-- The ciphertext that is waiting to be taken out. -/
  backlog : Conn → ℕ
  backlog_writeTls : ∀ c bytes, wantsWrite c = true → (writeTls c).1 = .ok bytes →
    backlog (writeTls c).2 < backlog c
  /-- The plaintext that is waiting to be read. -/
  unread : Conn → ℕ
  unread_read : ∀ c bytes, (read c).1 = .data bytes → bytes ≠ [] → unread (read c).2 < unread c

variable {R : Rustls}

namespace Rustls

/-! ### Taking ciphertext out -/

structure Output (R : Rustls) where
  conn : R.Conn
  bytes : Bytes

/-- One turn of `while wants_write { write_tls }`. -/
def drainTurn (o : Output R) : Output R ⊕ (Except String Unit × Output R) :=
  if R.wantsWrite o.conn then
    match (R.writeTls o.conn).1 with
    | .ok bytes => .inl ⟨(R.writeTls o.conn).2, o.bytes ++ bytes⟩
    | .error e => .inr (.error s!"生成 TLS 密文失败：{e}", ⟨(R.writeTls o.conn).2, o.bytes⟩)
  else .inr (.ok (), o)

theorem drainTurn_decreases (o o' : Output R) (h : drainTurn o = .inl o') :
    R.backlog o'.conn < R.backlog o.conn := by
  unfold drainTurn at h
  split at h
  · rename_i hwants
    split at h
    · rename_i bytes hbytes
      cases h
      exact R.backlog_writeTls o.conn bytes hwants hbytes
    · cases h
  · cases h

/-- **The drain loop**, continuing what has been taken out already. -/
def drain : Output R → Except String Unit × Output R :=
  Loop.finish drainTurn (fun o => R.backlog o.conn) drainTurn_decreases

/-! ### Encrypting -/

structure Encrypting (R : Rustls) where
  rest : Bytes
  output : Output R

/-- One turn of the loop of `encrypt_plaintext`: a piece is accepted and its ciphertext is taken
out. -/
def encryptTurn (s : Encrypting R) : Encrypting R ⊕ (Except String Unit × Output R) :=
  match s.rest with
  | [] => .inr (.ok (), s.output)
  | rest => match R.write s.output.conn rest with
    | (.error e, conn) => .inr (.error s!"TLS 写入失败：{e}", ⟨conn, s.output.bytes⟩)
    | (.ok 0, conn) =>
      .inr (.error "TLS buffer_limit 太小，无法编码明文", ⟨conn, s.output.bytes⟩)
    | (.ok (n + 1), conn) => match drain ⟨conn, s.output.bytes⟩ with
      | (.error e, output) => .inr (.error e, output)
      | (.ok (), output) => .inl ⟨rest.drop (n + 1), output⟩

theorem encryptTurn_decreases (s s' : Encrypting R) (h : encryptTurn s = .inl s') :
    s'.rest.length < s.rest.length := by
  unfold encryptTurn at h
  split at h
  · cases h
  · rename_i rest hne
    have hpos : 0 < s.rest.length := length_pos_iff.mpr fun hnil => hne hnil
    split at h
    · cases h
    · cases h
    · split at h
      · cases h
      · cases h
        rw [length_drop]
        omega

/-- **The loop of `encrypt_plaintext`.** -/
def encrypt (conn : R.Conn) (data : Bytes) : Except String Unit × Output R :=
  Loop.finish encryptTurn (fun s => s.rest.length) encryptTurn_decreases ⟨data, ⟨conn, []⟩⟩

/-! ### Decrypting -/

structure Input (R : Rustls) where
  conn : R.Conn
  plaintext : Bytes

def readTurn (i : Input R) : Input R ⊕ (Except String Unit × Input R) :=
  match (R.read i.conn).1 with
  | .data [] => .inr (.ok (), ⟨(R.read i.conn).2, i.plaintext⟩)
  | .data bytes => .inl ⟨(R.read i.conn).2, i.plaintext ++ bytes⟩
  | .wouldBlock => .inr (.ok (), ⟨(R.read i.conn).2, i.plaintext⟩)
  | .failed e => .inr (.error s!"读取 TLS 明文失败：{e}", ⟨(R.read i.conn).2, i.plaintext⟩)

theorem readTurn_decreases (i i' : Input R) (h : readTurn i = .inl i') :
    R.unread i'.conn < R.unread i.conn := by
  unfold readTurn at h
  split at h
  · cases h
  · rename_i bytes hne hread
    cases h
    exact R.unread_read i.conn bytes hread hne
  · cases h
  · cases h

def readAll : Input R → Except String Unit × Input R :=
  Loop.finish readTurn (fun i => R.unread i.conn) readTurn_decreases

/-- The ciphertext that is left, the plaintext read so far and whether the peer has closed. -/
structure Decrypting (R : Rustls) where
  rest : Bytes
  input : Input R
  peerClosed : Bool

def decryptTurn (s : Decrypting R) : Decrypting R ⊕ (Except String Unit × Decrypting R) :=
  match s.rest with
  | [] => .inr (.ok (), s)
  | rest => match R.readTls s.input.conn rest with
    | ((.error e, _), conn) =>
      .inr (.error s!"接收 TLS 密文失败：{e}", { s with input := { s.input with conn } })
    | ((.ok 0, _), conn) =>
      .inr (.error "接收 TLS 密文时没有取得进展", { s with input := { s.input with conn } })
    | ((.ok (_ + 1), moved), conn) => match R.processNewPackets conn with
      | (.error e, conn) =>
        .inr (.error s!"TLS 协议错误：{e}", { s with input := { s.input with conn } })
      | (.ok closed, conn) =>
        let s : Decrypting R := { s with peerClosed := s.peerClosed || closed }
        match readAll { s.input with conn } with
        | (.error e, input) => .inr (.error e, { s with input })
        | (.ok (), input) => match moved with
          | 0 => .inr (.error "接收 TLS 密文时没有取得进展", { s with input })
          | moved + 1 => .inl { s with rest := rest.drop (moved + 1), input }

theorem decryptTurn_decreases (s s' : Decrypting R) (h : decryptTurn s = .inl s') :
    s'.rest.length < s.rest.length := by
  unfold decryptTurn at h
  split at h
  · cases h
  · rename_i rest hne
    have hpos : 0 < s.rest.length := length_pos_iff.mpr fun hnil => hne hnil
    split at h
    · cases h
    · cases h
    · split at h
      · cases h
      · dsimp only at h
        split at h
        · cases h
        · split at h
          · cases h
          · cases h
            rw [length_drop]
            omega

/-- **The loop of `receive_tls`.** -/
def decrypt (conn : R.Conn) (peerClosed : Bool) (data : Bytes) :
    Except String Unit × Decrypting R :=
  Loop.finish decryptTurn (fun s => s.rest.length) decryptTurn_decreases
    ⟨data, ⟨conn, []⟩, peerClosed⟩

end Rustls

end Rskynet.Tls
