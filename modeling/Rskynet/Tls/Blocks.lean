import Rskynet.Tls.Service

/-!
# What the handlers of the TLS service are made of

A property of handlers that is kept from one block to the next holds for a handler as soon as it
holds for its blocks.

* `Sequential.fail`, `Quiet.receiveTls`, `Follows.close`, … — **PROVED**: the handlers, from their
  blocks.
-/

namespace Rskynet.Tls

open Cells

variable {R : Rustls}

/-- The socket a task is about to add an entry for. -/
def Task.socket? : Task R → Option SocketId
  | .connectInfo _ _ _ socket | .listenInfo _ _ socket => some socket
  | _ => none

/-- A property of handlers that is kept from one block to the next. -/
structure Sequential (P : ∀ {α : Type}, Handler R α → Prop) : Prop where
  pure : ∀ {α : Type} (a : α), P (Pure.pure a : Handler R α)
  bind : ∀ {α β : Type} {m : Handler R α} {f : α → Handler R β}, P m → (∀ a, P (f a)) → P (m >>= f)
  emit : ∀ owner event, P (emit owner event : Handler R Unit)
  askNet : ∀ command, P (askNet command : Handler R (Except String Unit))
  readState : ∀ {α : Type} (f : State R → α), P (readState f)

/-- **A property of the handlers that take no command**, by the blocks they are made of. -/
structure Quiet (P : ∀ {α : Type}, Handler R α → Prop) : Prop extends Sequential P where
  fail : ∀ id reason, P (fail id reason : Handler R Unit)
  takeCiphertext : ∀ id, P (takeCiphertext id : Handler R (Except String (SocketId × Bytes)))
  encryptPlaintext : ∀ id source data, P (encryptPlaintext id source data : Handler R _)
  processTls : ∀ id data, P (processTls id data : Handler R _)
  announceIfReady : ∀ id, P (announceIfReady id : Handler R Unit)
  shutdownIfClosed : ∀ id, P (shutdownIfClosed id : Handler R Unit)

/-- **A property of every handler**, by the blocks they are made of. -/
structure Follows (P : ∀ {α : Type}, Handler R α → Prop) : Prop extends Quiet P where
  reply : ∀ pending answer, P (reply pending answer : Handler R Unit)
  suspend : ∀ {task : Task R}, task.socket? = none → P (suspend task)
  capacityError : ∀ handshake, P (capacityError handshake : Handler R (Option String))
  removeListener : ∀ id, P (removeListener id : Handler R (Option (Listener R)))
  removeConnection : ∀ id, P (removeConnection id : Handler R (Option (TlsConnection R)))
  startListener : ∀ id pending, P (startListener id pending : Handler R Unit)
  closeConnection : ∀ id pending, P (closeConnection id pending : Handler R Unit)

variable {P : ∀ {α : Type}, Handler R α → Prop}

namespace Sequential

variable (h : Sequential P)
include h

theorem onlyIf {b : Bool} {m : Handler R Unit} (hm : P m) : P (onlyIf b m) := by
  unfold Cells.onlyIf
  split
  · exact hm
  · exact h.pure ()

theorem shutdownSocket (socket : SocketId) : P (shutdownSocket socket : Handler R Unit) :=
  h.bind (h.askNet _) fun _ => h.pure ()

theorem replyTo (hreply : ∀ pending answer, P (reply pending answer : Handler R Unit))
    (waiting : Option Pending) (answer : Answer) : P (replyTo waiting answer : Handler R Unit) := by
  cases waiting with
  | none => exact h.pure ()
  | some pending => exact hreply pending answer

theorem failNotice (hreply : ∀ pending answer, P (reply pending answer : Handler R Unit))
    (id : TlsId) (c : TlsConnection R) (reason : String) :
    P (failNotice id c reason) := by
  unfold Tls.failNotice
  split
  · exact hreply _ _
  · exact h.onlyIf (h.emit _ _)

theorem fail (hreply : ∀ pending answer, P (reply pending answer : Handler R Unit))
    (hremove : ∀ id, P (removeConnection id : Handler R (Option (TlsConnection R))))
    (id : TlsId) (reason : String) : P (fail id reason : Handler R Unit) := by
  apply h.bind (hremove id)
  intro removed
  split
  · exact h.pure ()
  · apply h.bind (h.shutdownSocket _)
    intro _
    apply h.bind (h.failNotice hreply id _ reason)
    intro _
    exact h.replyTo hreply _ _

end Sequential

namespace Quiet

variable (h : Quiet P)
include h

theorem sendCiphertext (socket : SocketId) (encrypted : Bytes) (high : Bool) :
    P (sendCiphertext socket encrypted high : Handler R _) := by
  unfold Tls.sendCiphertext
  split
  · exact h.pure _
  · exact h.bind (h.askNet _) fun _ => h.pure _

theorem flushTls (id : TlsId) (high : Bool) : P (flushTls id high : Handler R _) := by
  apply h.bind (h.takeCiphertext id)
  intro taken
  split
  · exact h.pure _
  · exact h.sendCiphertext _ _ high

theorem flushOrFail (id : TlsId) {rest : Handler R Unit} (hrest : P rest) :
    P (flushOrFail id rest) := by
  apply h.bind (h.flushTls id true)
  intro flushed
  split
  · exact h.fail id _
  · exact hrest

theorem plaintextSent (id : TlsId) (sent : Except String Unit) :
    P (plaintextSent id sent : Handler R Answer) := by
  unfold Tls.plaintextSent
  split
  · exact h.pure _
  · exact h.bind (h.fail id _) fun _ => h.pure _

theorem sendPlaintext (id : TlsId) (source : Handle) (data : Bytes) (high : Bool) :
    P (sendPlaintext id source data high : Handler R Answer) := by
  apply h.bind (h.encryptPlaintext id source data)
  intro encoded
  split
  · exact h.pure _
  · split
    · exact h.pure _
    · exact h.bind (h.askNet _) fun sent => h.plaintextSent id sent

theorem handshakeTimeout (id : TlsId) : P (handshakeTimeout id : Handler R Unit) :=
  h.bind (h.readState _) fun _ => h.onlyIf (h.fail id _)

theorem closeFailed (id : TlsId) (reason : String) : P (closeFailed id reason : Handler R Unit) :=
  h.bind (h.readState _) fun _ => h.onlyIf (h.fail id _)

theorem deliver (id : TlsId) (plaintext : Bytes) :
    P (deliver id plaintext : Handler R Unit) := by
  unfold Tls.deliver
  split
  · exact h.pure ()
  · apply h.bind (h.readState _)
    intro target
    split
    · exact h.pure ()
    · exact h.emit _ _

theorem receiveTls (socket : SocketId) (data : Bytes) :
    P (receiveTls socket data : Handler R Unit) := by
  apply h.bind (h.readState _)
  intro id
  split
  · exact h.pure ()
  · rename_i id
    apply h.bind (h.processTls id data)
    intro processed
    split
    · exact h.pure ()
    · exact h.bind (h.flushTls id true) fun _ => h.fail id _
    · apply h.flushOrFail
      apply h.bind (h.announceIfReady id)
      intro _
      apply h.bind (h.deliver id _)
      intro _
      exact h.shutdownIfClosed id

theorem warn (socket : SocketId) (kilobytes : ℕ) : P (warn socket kilobytes : Handler R Unit) := by
  apply h.bind (h.readState _)
  intro target
  split
  · exact h.pure ()
  · exact h.emit _ _

end Quiet

namespace Follows

variable (h : Follows P)
include h

theorem callNet (command : NetCommand) {task : Task R} (ht : task.socket? = none) :
    P (callNet command task) :=
  h.bind (h.askNet command) fun _ => h.suspend ht

theorem connect (options : ClientOptions R) (pending : Pending) : P (connect options pending) := by
  apply h.bind (h.capacityError true)
  intro full
  split
  · exact h.reply _ _
  · split
    · exact h.reply _ _
    · exact h.callNet _ rfl

theorem listen (options : ServerOptions R) (pending : Pending) : P (listen options pending) := by
  apply h.bind (h.capacityError false)
  intro full
  split
  · exact h.reply _ _
  · exact h.callNet _ rfl

theorem start (id : TlsId) (pending : Pending) : P (start id pending : Handler R Unit) := by
  apply h.bind (h.readState _)
  intro connection
  split
  · exact h.callNet _ rfl
  · exact h.reply _ _
  · exact h.startListener id pending

theorem pause (id : TlsId) (pending : Pending) : P (pause id pending : Handler R Unit) := by
  apply h.bind (h.readState _)
  intro found
  split
  · exact h.reply _ _
  · split
    · exact h.callNet _ rfl
    · exact h.reply _ _

theorem close (id : TlsId) (pending : Pending) : P (close id pending : Handler R Unit) := by
  apply h.bind (h.readState _)
  intro listener
  split
  · exact h.reply _ _
  · exact h.bind (h.removeListener id) fun _ => h.callNet _ rfl
  · exact h.closeConnection id pending

theorem shutdownConnection (id : TlsId) (source : Handle) :
    P (shutdownConnection id source : Handler R Answer) := by
  apply h.bind (h.readState _)
  intro allowed
  split
  · exact h.pure _
  · exact h.pure _
  · apply h.bind (h.removeConnection id)
    intro removed
    split
    · exact h.pure _
    · apply h.bind (h.shutdownSocket _)
      intro _
      exact h.bind (h.onlyIf (h.emit _ _)) fun _ => h.pure _

theorem sendPlaintextWait (id : TlsId) (pending : Pending) (data : Bytes) (high : Bool) :
    P (sendPlaintextWait id pending data high : Handler R Unit) := by
  apply h.bind (h.encryptPlaintext id pending.source data)
  intro encoded
  split
  · exact h.reply _ _
  · split
    · exact h.reply _ _
    · exact h.callNet _ rfl

theorem closedNotice (id : TlsId) (c : TlsConnection R) (error : Option String) :
    P (closedNotice id c error) := by
  unfold Tls.closedNotice
  split
  · exact h.reply _ _
  · exact h.onlyIf (h.emit _ _)

theorem connectionClosed (socket : SocketId) (error : Option String) :
    P (connectionClosed socket error : Handler R Unit) := by
  apply h.bind (h.readState _)
  intro id
  split
  · exact h.pure ()
  · apply h.bind (h.removeConnection _)
    intro removed
    split
    · exact h.pure ()
    · exact h.bind (h.replyTo h.reply _ _) fun _ => h.closedNotice _ _ error

end Follows

end Rskynet.Tls
