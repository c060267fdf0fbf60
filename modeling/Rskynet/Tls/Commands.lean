import Rskynet.Tls.Capacity

/-!
# Commands in the TLS service

A command is known by its caller and session. At any time the service has answered it, or holds it
in a suspended handler, or has it parked at a connection in the table.

* `books_connect`, `closeConnection_weight`, … — **PROVED**: a handler answers, holds or parks its
  own command once;
* `shutdown_weight` — **PROVED**: `shutdown` takes the commands parked at a connection away with it.
-/

namespace Rskynet.Tls

open Cells Interleave Relation Tables List

variable {R : Rustls} {p : Pending}
variable {d : Server R} {w w' : World Cell (Server R)}
variable {id : TlsId}

/-! ### Where a command can be -/

def ind (p q : Pending) : ℕ := if q = p then 1 else 0

def slot (p : Pending) (waiting : Option Pending) : ℕ := waiting.elim 0 (ind p)

def Task.pending : Task R → Option Pending
  | .connecting _ _ pending => some pending
  | .connectInfo _ _ pending _ => some pending
  | .listening _ pending => some pending
  | .listenInfo _ pending _ => some pending
  | .startingConnection _ pending => some pending
  | .startingListener _ pending => some pending
  | .pausing _ pending => some pending
  | .sending _ pending => some pending
  | .closingListener pending => some pending
  | _ => none

def parked (p : Pending) (c : TlsConnection R) : ℕ := slot p c.connectPending + slot p c.closePending

def answered (p : Pending) (d : Server R) : ℕ := (d.replies.map fun r => ind p r.1).sum

def suspended (p : Pending) (d : Server R) : ℕ := (d.tasks.map fun task => slot p task.pending).sum

/-- How often the command waits: in a suspended handler, or at a connection in the table. -/
def waiting (p : Pending) (d : Server R) : ℕ :=
  suspended p d + total (parked p) d.state.connections

def weight (p : Pending) (d : Server R) : ℕ := answered p d + waiting p d

/-- The sum stays. -/
abbrev Level {α : Type} (p : Pending) (m : Handler R α) : Prop := Still (weight p) m

/-- The sum grows by `k`. -/
abbrev Books {α : Type} (p : Pending) (k : ℕ) (m : Handler R α) : Prop :=
  Acts (weight p) (fun n => n + k) m

/-! ### Effects -/

theorem weight_replies (d : Server R) (q : Pending) (answer : Answer) :
    weight p { d with replies := d.replies ++ [(q, answer)] } = weight p d + ind p q := by
  unfold weight answered waiting suspended
  rw [map_append, sum_append]
  show _ + (ind p q + 0) + _ = _
  dsimp only
  omega

theorem weight_tasks (d : Server R) (task : Task R) :
    weight p { d with tasks := d.tasks ++ [task] } = weight p d + slot p task.pending := by
  unfold weight answered waiting suspended
  rw [map_append, sum_append]
  show _ + (_ + (slot p task.pending + 0) + _) = _
  dsimp only
  omega

section Effects

variable (hp : p.session ≠ 0)
include hp

theorem books_reply (q : Pending) (answer : Answer) :
    Books p (ind p q) (reply q answer : Handler R Unit) := by
  apply acts_change
  intro d
  split
  · -- nobody waits for this answer, so it is not the command that is looked at
    rename_i hsilent
    have hne : q ≠ p := by
      rintro rfl
      exact hp hsilent
    rw [ind, if_neg hne, Nat.add_zero]
  · exact weight_replies d q answer

theorem books_replyTo (parkedAt : Option Pending) (answer : Answer) :
    Books p (slot p parkedAt) (replyTo parkedAt answer : Handler R Unit) := by
  cases parkedAt with
  | none => exact (still_pure ()).acts_id
  | some q => exact books_reply hp q answer

end Effects

theorem books_suspend (task : Task R) : Books p (slot p task.pending) (suspend task) :=
  acts_change fun d => weight_tasks d task

theorem level_emit (owner : Handle) (event : TlsEvent) :
    Level p (emit owner event : Handler R Unit) := still_change fun _ => rfl

theorem level_askNet (command : NetCommand) :
    Level p (askNet command : Handler R (Except String Unit)) := by
  apply still_effect
  intro d
  split <;> rfl

theorem level_shutdownSocket (socket : SocketId) :
    Level p (shutdownSocket socket : Handler R Unit) :=
  (level_askNet _).bind fun _ => still_pure ()

theorem books_callNet (command : NetCommand) (task : Task R) :
    Books p (slot p task.pending) (callNet command task) :=
  (level_askNet command).acts fun _ => books_suspend task

theorem level_suspend {task : Task R} (h : task.pending = none) : Level p (suspend task) := by
  apply still_change
  intro d
  rw [weight_tasks, h]
  rfl

theorem level_sendSelf (command : Command R) : Level p (sendSelf command) :=
  still_change fun _ => rfl

theorem level_readState {α : Type} (f : State R → α) : Level p (readState f) :=
  still_within fun _ => rfl

theorem level_readConfig {α : Type} (f : TlsConfig → α) : Level p (readConfig f : Handler R α) :=
  still_within fun _ => rfl

theorem level_capacityError (handshake : Bool) :
    Level p (capacityError handshake : Handler R (Option String)) :=
  ((still_look _).guarded).guarded

/-! ### Blocks over the state -/

theorem weight_setState (d : Server R) (s : State R) :
    weight p (d.setState s) + total (parked p) d.state.connections
      = weight p d + total (parked p) s.connections := by
  unfold weight waiting
  show answered p d + (suspended p d + total _ s.connections) + _ = _
  omega

theorem weight_change {c : TlsConnection R} (h : d.state.connections.lookup id = some c)
    (c' : TlsConnection R) :
    weight p (d.setState (d.state.setConnection id c')) + parked p c
      = weight p d + parked p c' := by
  have hsum := total_insert_of_some (f := parked p) h c'
  have hweight := weight_setState (p := p) d (d.state.setConnection id c')
  have htotal : total (parked p) (d.state.setConnection id c').connections
      = total (parked p) (d.state.connections.insert id c') := rfl
  omega

theorem weight_setConnection {c c' : TlsConnection R} (h : d.state.connections.lookup id = some c)
    (hparked : parked p c' = parked p c) :
    weight p (d.setState (d.state.setConnection id c')) = weight p d := by
  have hweight := weight_change (p := p) h c'
  omega

theorem weight_insertConnection (hid : d.state.allocate = some id) (c : TlsConnection R) :
    weight p (d.setState (d.state.insertConnection id c)) = weight p d + parked p c := by
  have hsum := total_insert_of_none (f := parked p) (lookup_of_allocate hid).2 c
  have hweight := weight_setState (p := p) d (d.state.insertConnection id c)
  have htotal : total (parked p) (d.state.insertConnection id c).connections
      = total (parked p) (d.state.connections.insert id c) := rfl
  omega

theorem Carries.level {α : Type} {m : Handler R α} (hm : Carries m) : Level p m := by
  apply hm.still
  rintro d _ ⟨h⟩
  exact weight_setConnection h rfl

theorem level_setStarted (id : TlsId) : Level p (setStarted id : Handler R Unit) := by
  apply still_within
  intro d
  cases h : d.state.listeners.lookup id with
  | none =>
    simp only [Server.onState, Server.setState, h]
  | some l =>
    simp only [Server.onState, Server.setState, h]
    rfl

theorem level_removeListener (id : TlsId) : Level p (removeListener id : Handler R _) := by
  apply still_within
  intro d
  show weight p (d.setState (d.state.dropListener id).2) = weight p d
  unfold State.dropListener
  cases d.state.listeners.lookup id with
  | none | some => rfl

theorem removeConnection_weight {removed : Option (TlsConnection R)}
    (h : removeConnection id w = .ok (removed, w')) :
    removed = w.data.state.connections.lookup id
      ∧ weight p w'.data + removed.elim 0 (parked p) = weight p w.data := by
  obtain ⟨hremoved, hdata⟩ := within_eq_ok h
  have hdropped : removed = (w.data.state.dropConnection id).1 := hremoved
  have hafter : w'.data = w.data.setState (w.data.state.dropConnection id).2 := hdata
  have hweight := weight_setState (p := p) w.data (w.data.state.dropConnection id).2
  rw [hafter]
  unfold State.dropConnection at hdropped hweight ⊢
  cases hfound : w.data.state.connections.lookup id with
  | none =>
    simp only [hfound] at hdropped hweight ⊢
    rw [hdropped]
    exact ⟨rfl, Nat.add_right_cancel hweight⟩
  | some c =>
    have hsum := total_erase_of_some (f := parked p) hfound
    simp only [hfound] at hdropped hweight ⊢
    rw [hdropped]
    refine ⟨rfl, ?_⟩
    show _ + parked p c = _
    omega

/-! ### Handlers that keep the sum -/

section Handlers

variable (hp : p.session ≠ 0)
include hp

theorem books_failNotice (id : TlsId) (c : TlsConnection R) (reason : String) :
    Books p (slot p c.connectPending) (failNotice id c reason) := by
  unfold failNotice
  split
  · rename_i pending hpending
    rw [hpending]
    exact books_reply hp pending _
  · rename_i hpending
    rw [hpending]
    exact (still_onlyIf (level_emit _ _)).acts_id

theorem level_fail (id : TlsId) (reason : String) : Level p (fail id reason : Handler R Unit) := by
  intro w a w' h
  obtain ⟨removed, w₁, h₁, h⟩ := bind_eq_ok h
  obtain ⟨-, hweight⟩ := removeConnection_weight (p := p) h₁
  cases removed with
  | none =>
    cases h
    exact hweight
  | some c =>
    have hrest : Books p (slot p c.connectPending + slot p c.closePending) (do
        shutdownSocket c.socket
        failNotice id c reason
        replyTo c.closePending (.failed "TLS 关闭失败") : Handler R Unit) := by
      apply (level_shutdownSocket c.socket).acts
      intro _ w a w' h
      have hboth := ((books_failNotice hp id c reason).bind fun _ =>
        books_replyTo hp c.closePending _) w a w' h
      exact hboth.trans (Nat.add_assoc _ _ _)
    have hafter := hrest w₁ a w' h
    have hparked : (some c).elim 0 (parked p) = slot p c.connectPending + slot p c.closePending := rfl
    dsimp only at hafter
    omega

omit hp in
theorem level_armTimeout (id : TlsId) : Level p (armTimeout id : Handler R Unit) := by
  apply Still.bind
  · apply Still.guarded
    exact (level_readConfig _).bind fun _ => still_look _
  · intro timeout
    exact level_suspend rfl

theorem level_announceIfReady (id : TlsId) : Level p (announceIfReady id : Handler R Unit) := by
  intro w a w' h
  obtain ⟨ready, w₁, h₁, h⟩ := bind_eq_ok h
  obtain ⟨hready, hdata⟩ := within_eq_ok h₁
  cases hfound : w.data.state.connections.lookup id with
  | none =>
    simp only [Server.onState, hfound] at hready hdata
    subst hready
    cases h
    rw [hdata]
    rfl
  | some c =>
    simp only [Server.onState, hfound] at hready hdata
    split at hready
    · rename_i hnot
      rw [if_pos hnot] at hdata
      subst hready
      cases h
      rw [hdata]
      rfl
    · rename_i hnow
      rw [if_neg hnow] at hdata
      subst hready
      have hweight : weight p w₁.data + parked p c = weight p w.data
          + parked p { c with announced := true, connectPending := none } := by
        rw [hdata]
        exact weight_change hfound _
      have hrest : weight p w'.data = weight p w₁.data + slot p c.connectPending :=
        ((books_replyTo hp c.connectPending (.id id)).still fun _ => level_emit _ _) w₁ a w' h
      have hparked : parked p c = slot p c.connectPending + slot p c.closePending := rfl
      have hless : parked p { c with announced := true, connectPending := none }
          = slot p c.closePending := Nat.zero_add _
      omega

omit hp in
theorem level_shutdownIfClosed (id : TlsId) :
    Level p (shutdownIfClosed id : Handler R Unit) := by
  apply (level_readState _).bind
  intro closed
  apply still_onlyIf
  apply Still.guarded
  apply (still_look _).bind
  intro socket
  split
  · exact still_pure ()
  · exact level_shutdownSocket _

theorem quiet_level : Quiet (R := R) fun m => Level p m where
  pure := still_pure
  bind := Still.bind
  emit := level_emit
  askNet := level_askNet
  readState := level_readState
  fail := level_fail hp
  takeCiphertext id := (carries_takeCiphertext id).level
  encryptPlaintext id source data := (carries_encryptPlaintext id source data).level
  processTls id data := (carries_processTls id data).level
  announceIfReady := level_announceIfReady hp
  shutdownIfClosed := level_shutdownIfClosed

variable (socket : SocketId)

theorem books_closedNotice (id : TlsId) (c : TlsConnection R) (error : Option String) :
    Books p (slot p c.connectPending) (closedNotice id c error) := by
  unfold closedNotice
  split
  · rename_i pending hpending
    rw [hpending]
    exact books_reply hp pending _
  · rename_i hpending
    rw [hpending]
    exact (still_onlyIf (level_emit _ _)).acts_id

theorem level_connectionClosed (error : Option String) :
    Level p (connectionClosed socket error : Handler R Unit) := by
  apply (level_readState _).bind
  intro id
  split
  · exact still_pure ()
  · intro w a w' h
    obtain ⟨removed, w₁, h₁, h⟩ := bind_eq_ok h
    obtain ⟨-, hweight⟩ := removeConnection_weight (p := p) h₁
    cases removed with
    | none =>
      cases h
      exact hweight
    | some c =>
      obtain ⟨_, w₂, h₂, h⟩ := bind_eq_ok h
      have hclose := books_replyTo hp _ _ w₁ () w₂ h₂
      have hconnect := books_closedNotice hp _ c error w₂ a w' h
      have hparked : (some c).elim 0 (parked p) = slot p c.connectPending + slot p c.closePending :=
        rfl
      dsimp only at hclose hconnect
      omega

theorem level_socketClosed (error : Option String) :
    Level p (socketClosed socket error : Handler R Unit) := by
  apply still_acquire.bind
  intro _
  apply (still_look _).bind
  intro listener
  split
  · exact (level_removeListener _).bind fun _ => still_release
  · exact still_release.bind fun _ => level_connectionClosed hp socket error

/-! ### Handlers that take a command -/

/-- A command that is refused is answered, and nothing follows. -/
theorem refused_weight {w₁ w₂ : World Cell (Server R)} {q : Pending} {answer : Answer}
    {socket : Option SocketId} {next : Handler R Unit} {a : Unit}
    (hnext : socket = none → next = pure ())
    (h₁ : (do reply q answer; pure none : Handler R (Option SocketId)) w = .ok (socket, w₂))
    (hdata : w₁.data = w₂.data) (h : next w₁ = .ok (a, w')) :
    weight p w'.data = weight p w.data + ind p q := by
  obtain ⟨_, w₃, hreply, hnone⟩ := bind_eq_ok h₁
  cases hnone
  rw [hnext rfl] at h
  cases h
  rw [hdata]
  exact books_reply hp q answer w () w₂ hreply

theorem books_connect (options : ClientOptions R) (q : Pending) :
    Books p (ind p q) (connect options q) := by
  apply (level_capacityError true).acts
  intro full
  split
  · exact books_reply hp q _
  · split
    · exact books_reply hp q _
    · exact books_callNet _ _

theorem books_connectSocket (options : ClientOptions R) (tls : R.Conn) (q : Pending)
    (connected : Except String SocketId) :
    Books p (ind p q) (connectSocket options tls q connected) := by
  unfold connectSocket
  split
  · exact books_reply hp q _
  · apply (level_capacityError true).acts
    intro full
    split
    · exact (level_shutdownSocket _).acts fun _ => books_reply hp q _
    · exact books_callNet _ _

theorem books_listen (options : ServerOptions R) (q : Pending) :
    Books p (ind p q) (listen options q) := by
  apply (level_capacityError false).acts
  intro full
  split
  · exact books_reply hp q _
  · exact books_callNet _ _

theorem books_listenSocket (options : ServerOptions R) (q : Pending)
    (listening : Except String SocketId) :
    Books p (ind p q) (listenSocket options q listening) := by
  unfold listenSocket
  split
  · exact books_reply hp q _
  · exact books_callNet _ _

theorem books_startListener (id : TlsId) (q : Pending) :
    Books p (ind p q) (startListener id q : Handler R Unit) := by
  intro w a w' h
  obtain ⟨socket, w₁, h₁, h⟩ := bind_eq_ok h
  obtain ⟨w₂, h₁, hdata⟩ := guarded_eq_ok h₁
  rw [bind_look] at h₁
  cases hfound : w.data.state.listeners.lookup id with
  | none =>
    simp only [hfound] at h₁
    exact (refused_weight hp (fun hs => by rw [hs]) h₁ hdata h :)
  | some l =>
    simp only [hfound] at h₁
    split at h₁
    · cases h₁
      have hbooked := books_callNet (p := p) _ (.startingListener id q) w₁ a w' h
      rw [hdata] at hbooked
      exact hbooked
    · exact (refused_weight hp (fun hs => by rw [hs]) h₁ hdata h :)

theorem books_start (id : TlsId) (q : Pending) :
    Books p (ind p q) (start id q : Handler R Unit) := by
  apply (level_readState _).acts
  intro connection
  split
  · exact books_callNet _ _
  · exact books_reply hp q _
  · exact books_startListener hp id q

theorem books_pause (id : TlsId) (q : Pending) :
    Books p (ind p q) (pause id q : Handler R Unit) := by
  apply (level_readState _).acts
  intro found
  split
  · exact books_reply hp q _
  · split
    · exact books_callNet _ _
    · exact books_reply hp q _

theorem books_sendPlaintextWait (id : TlsId) (q : Pending) (data : Bytes) (high : Bool) :
    Books p (ind p q) (sendPlaintextWait id q data high : Handler R Unit) := by
  apply (carries_encryptPlaintext id q.source data).level.acts
  intro encoded
  split
  · exact books_reply hp q _
  · split
    · exact books_reply hp q _
    · exact books_callNet _ _

theorem closeConnection_weight {q : Pending}
    (horderly : ∀ c, w.data.state.connections.lookup id = some c → Orderly c)
    (h : closeConnection id q w = .ok ((), w')) :
    weight p w'.data = weight p w.data + ind p q := by
  obtain ⟨socket, w₁, h₁, h⟩ := bind_eq_ok h
  obtain ⟨w₂, h₁, hdata⟩ := guarded_eq_ok h₁
  rw [bind_look] at h₁
  cases hfound : w.data.state.connections.lookup id with
  | none =>
    simp only [hfound] at h₁
    exact (refused_weight hp (fun hs => by rw [hs]) h₁ hdata h :)
  | some c =>
    simp only [hfound] at h₁
    split at h₁
    · exact (refused_weight hp (fun hs => by rw [hs]) h₁ hdata h :)
    · split at h₁
      · exact (refused_weight hp (fun hs => by rw [hs]) h₁ hdata h :)
      · rename_i hopen
        cases h₁
        have hnone : c.closePending = none :=
          horderly c hfound (Bool.eq_false_iff.mpr hopen)
        have hspawn : Level p (suspend (.spawnedClose id c.socket) : Handler R Unit) :=
          level_suspend rfl
        rw [(quiet_level hp).flushOrFail id hspawn w₁ () w' h, hdata]
        have hbefore : parked p c = slot p c.connectPending := by
          unfold parked
          rw [hnone]
          exact Nat.add_zero _
        have hparks : ∀ c', parked p c' = slot p c.connectPending + ind p q →
            weight p (w.data.setState (w.data.state.setConnection id c'))
              = weight p w.data + ind p q := by
          intro c' hafter
          have hweight := weight_change (p := p) hfound c'
          omega
        exact hparks _ rfl

theorem close_weight {q : Pending}
    (horderly : ∀ c, w.data.state.connections.lookup id = some c → Orderly c)
    (h : close id q w = .ok ((), w')) : weight p w'.data = weight p w.data + ind p q := by
  obtain ⟨listener, w₁, h₁, h⟩ := bind_eq_ok h
  have hsame : w₁.data = w.data := (within_eq_ok h₁).2
  rw [← hsame]
  split at h
  · exact books_reply hp q _ w₁ () w' h
  · exact ((level_removeListener id).acts fun _ => books_callNet _ (.closingListener q)) w₁ () w' h
  · exact closeConnection_weight hp (hsame ▸ horderly) h

/-! ### `shutdown` -/

omit hp in
theorem shutdownConnection_weight {source : Handle} {answer : Answer}
    (h : shutdownConnection id source w = .ok (answer, w')) :
    weight p w'.data + (w.data.state.connections.lookup id).elim 0 (fun c =>
      if c.owner = source then parked p c else 0) = weight p w.data := by
  obtain ⟨allowed, w₁, h₁, h⟩ := bind_eq_ok h
  obtain ⟨hallowed, hsame⟩ := within_eq_ok h₁
  dsimp only at hallowed hsame
  cases hfound : w.data.state.connections.lookup id with
  | none =>
    rw [hfound] at hallowed
    subst hallowed
    cases h
    rw [hsame]
    rfl
  | some c =>
    rw [hfound] at hallowed
    subst hallowed
    show _ + (if c.owner = source then parked p c else 0) = _
    by_cases howner : c.owner = source
    · simp only [Option.map_some, howner, decide_true] at h
      obtain ⟨removed, w₂, h₂, h⟩ := bind_eq_ok h
      obtain ⟨hremoved, hweight⟩ := removeConnection_weight (p := p) h₂
      rw [hsame, hfound] at hremoved
      subst hremoved
      have hrest : Level p (do
          shutdownSocket c.socket
          onlyIf c.announced (emit c.owner (.close id))
          pure .done : Handler R Answer) := by
        apply (level_shutdownSocket c.socket).bind
        intro _
        exact (still_onlyIf (level_emit _ _)).bind fun _ => still_pure _
      rw [if_pos howner, hrest w₂ answer w' h, ← hsame]
      exact hweight
    · simp only [Option.map_some, howner, decide_false] at h
      cases h
      rw [if_neg howner, hsame]
      rfl

omit hp in
theorem shutdown_weight {source : Handle} {answer : Answer}
    (h : shutdown id source w = .ok (answer, w')) :
    weight p w'.data + (if (w.data.state.listeners.lookup id).isSome then 0
      else (w.data.state.connections.lookup id).elim 0 fun c =>
        if c.owner = source then parked p c else 0) = weight p w.data := by
  obtain ⟨_, w₁, h₁, h⟩ := bind_eq_ok h
  have hacquire : Still (fun d => d) (acquire .state : Handler R Unit) := still_acquire
  have hrelease : Still (fun d => d) (release .state : Handler R Unit) := still_release
  have hsame : w₁.data = w.data := hacquire w () w₁ h₁
  rw [bind_look, hsame] at h
  cases hfound : w.data.state.listeners.lookup id with
  | none =>
    rw [hfound] at h
    obtain ⟨_, w₂, h₂, h⟩ := bind_eq_ok h
    have hsame₂ : w₂.data = w.data := (hrelease w₁ () w₂ h₂).trans hsame
    have hweight := shutdownConnection_weight (p := p) h
    rw [hsame₂] at hweight
    exact hweight
  | some l =>
    rw [hfound] at h
    have hlevel : Level p (if l.owner = source then (do
          let _ ← removeListener id
          shutdownSocket l.socket
          release .state
          pure .done : Handler R Answer)
        else do
          release .state
          pure (denied id)) := by
      split
      · apply (level_removeListener id).bind
        intro _
        apply (level_shutdownSocket _).bind
        intro _
        exact still_release.bind fun _ => still_pure _
      · exact still_release.bind fun _ => still_pure _
    have hweight := hlevel w₁ answer w' h
    rw [hsame] at hweight
    exact hweight

end Handlers

end Rskynet.Tls
