import Rskynet.Tls.Capacity

/-!
# The socket indices of the TLS service

Every connection and every listener is entered twice, under its id and under its socket. The two
entries are made and removed in separate calls, and a socket is entered only after its handler has
come back from an await.

* `tables_agree` — **PROVED**: indices, ids and the counter of handshakes agree in every run in which
  no socket comes under a number that the service still has.
-/

namespace Rskynet.Tls

open Interleave Tables Option List

variable {R : Rustls}
variable {s s' : State R} {l l' : List SocketId}

def Foreign (s : State R) (socket : SocketId) : Prop :=
  s.connectionSockets.lookup socket = none ∧ s.listenerSockets.lookup socket = none

/-- **A new socket is new to the service**: its number is in neither index, and no suspended connect
or listen is about to enter it. -/
def Unused (d : Server R) (a : Action R) : Prop :=
  ∀ socket ∈ a.reported, Foreign d.state socket ∧ socket ∉ d.incoming

/-- The indices are inverse to the tables, and the sockets on their way are new. -/
structure Indexed (s : State R) (l : List SocketId) : Prop where
  connections : Inverse (·.socket) s.connectionSockets s.connections
  listeners : Inverse (·.socket) s.listenerSockets s.listeners
  apart : ∀ id, s.listeners.lookup id = none ∨ s.connections.lookup id = none
  foreign : ∀ socket ∈ l, Foreign s socket
  nodup : l.Nodup

/-! ### Changes -/

theorem lookup_insert_none {α : Type} {t : AList fun _ : TlsId => α} {k id : TlsId} {a : α}
    (hne : id ≠ k) (h : t.lookup id = none) : (t.insert k a).lookup id = none := by
  rwa [AList.lookup_insert_ne hne]

theorem lookup_change_none {α : Type} {t : AList fun _ : TlsId => α} {k id : TlsId} {a b : α}
    (hb : t.lookup k = some b) (h : t.lookup id = none) : (t.insert k a).lookup id = none := by
  refine lookup_insert_none ?_ h
  rintro rfl
  rw [hb] at h
  cases h

theorem lookup_erase_none {κ α : Type} [DecidableEq κ] {t : AList fun _ : κ => α} {k id : κ}
    (h : t.lookup id = none) : (t.erase k).lookup id = none := by
  by_cases hid : id = k
  · rw [hid, AList.lookup_erase]
  · rwa [AList.lookup_erase_ne hid]

theorem Change.indexed (h : Change s s') (hs : Indexed s l) : Indexed s' l := by
  cases h with
  | changed hfound hsocket =>
    exact { hs with
      connections := hs.connections.change hfound hsocket
      apart := fun id => (hs.apart id).imp_right (lookup_change_none hfound) }
  | announced hfound =>
    exact { hs with
      connections := hs.connections.change hfound rfl
      apart := fun id => (hs.apart id).imp_right (lookup_change_none hfound) }
  | started hfound =>
    exact { hs with
      listeners := hs.listeners.change hfound rfl
      apart := fun id => (hs.apart id).imp_left (lookup_change_none hfound) }
  | listenerDropped hfound =>
    exact { hs with
      listeners := hs.listeners.erase hfound
      apart := fun id => (hs.apart id).imp_left lookup_erase_none
      foreign := fun socket hmem => (hs.foreign socket hmem).imp_right lookup_erase_none }
  | connectionDropped hfound =>
    exact { hs with
      connections := hs.connections.erase hfound
      apart := fun id => (hs.apart id).imp_right lookup_erase_none
      foreign := fun socket hmem => (hs.foreign socket hmem).imp_left lookup_erase_none }

theorem Indexed.mono (hs : Indexed s l) (h : l'.Sublist l) : Indexed s l' :=
  { hs with
    foreign := fun socket hmem => hs.foreign socket (h.mem hmem)
    nodup := hs.nodup.sublist h }

/-! ### Insertions -/

section Insertions

variable {id : TlsId} (hs : Indexed s l) (hid : s.allocate = some id)

include hs hid

theorem Indexed.insertConnection {c : TlsConnection R} (hsocket : Foreign s c.socket)
    (hmem : c.socket ∉ l) : Indexed (s.insertConnection id c) l := by
  obtain ⟨hlistener, hconnection⟩ := lookup_of_allocate hid
  refine { hs with
    connections := hs.connections.insert hconnection hsocket.1, apart := ?_, foreign := ?_ }
  · intro other
    by_cases hother : other = id
    · exact .inl (hother ▸ hlistener)
    · exact (hs.apart other).imp_right (lookup_insert_none hother)
  · intro socket hsocket'
    have hne : socket ≠ c.socket := ne_of_mem_of_not_mem hsocket' hmem
    exact (hs.foreign socket hsocket').imp_left (AList.lookup_insert_ne hne).trans

theorem Indexed.insertListener {listener : Listener R} (hsocket : Foreign s listener.socket)
    (hmem : listener.socket ∉ l) : Indexed (s.insertListener id listener) l := by
  obtain ⟨hlistener, hconnection⟩ := lookup_of_allocate hid
  refine { hs with
    listeners := hs.listeners.insert hlistener hsocket.2, apart := ?_, foreign := ?_ }
  · intro other
    by_cases hother : other = id
    · exact .inr (hother ▸ hconnection)
    · exact (hs.apart other).imp_left (lookup_insert_none hother)
  · intro socket hsocket'
    have hne : socket ≠ listener.socket := ne_of_mem_of_not_mem hsocket' hmem
    exact (hs.foreign socket hsocket').imp_right (AList.lookup_insert_ne hne).trans

end Insertions

/-- The socket of a task that wakes is new, and no other task waits for it. -/
theorem Indexed.awaited {d : Server R} (hd : Indexed d.state d.incoming) {i : ℕ} {task : Task R}
    {socket : SocketId} (htask : d.tasks[i]? = some task) (hsocket : task.socket? = some socket) :
    Foreign d.state socket ∧ socket ∉ (d.tasks.eraseIdx i).filterMap Task.socket? := by
  obtain ⟨hi, rfl⟩ := List.getElem?_eq_some_iff.mp htask
  have hperm : (socket :: (d.tasks.eraseIdx i).filterMap Task.socket?).Perm d.incoming := by
    have h := (List.getElem_cons_eraseIdx_perm hi).filterMap Task.socket?
    rwa [List.filterMap_cons_some hsocket] at h
  have hnodup := hperm.nodup_iff.mpr hd.nodup
  exact ⟨hd.foreign socket (hperm.mem_iff.mp List.mem_cons_self), (List.nodup_cons.mp hnodup).1⟩

theorem Insertion.indexed {d : Server R} {a : Action R} (h : Insertion d a s) (ha : Unused d a)
    (hd : Indexed d.state d.incoming) : Indexed s (d.remaining a) := by
  have hrest : Indexed d.state (d.remaining a) := hd.mono (remaining_sublist d a)
  cases h with
  | connected htask hid hsocket =>
    obtain ⟨hforeign, hmem⟩ := hd.awaited htask rfl
    exact hrest.insertConnection hid (hsocket ▸ hforeign) (hsocket ▸ hmem)
  | listening htask hid hsocket =>
    obtain ⟨hforeign, hmem⟩ := hd.awaited htask rfl
    exact hrest.insertListener hid (hsocket ▸ hforeign) (hsocket ▸ hmem)
  | accepted hroom hid hsocket =>
    obtain ⟨hforeign, hmem⟩ := ha _ mem_cons_self
    exact hrest.insertConnection hid (hsocket ▸ hforeign) (hsocket ▸ hmem)

theorem Indexed.reported {d : Server R} {a : Action R} (hd : Indexed d.state d.incoming)
    (ha : Unused d a) : Indexed d.state (d.incoming ++ a.reported) := by
  refine { hd with foreign := ?_, nodup := ?_ }
  · intro socket hmem
    exact (mem_append.mp hmem).elim (hd.foreign socket) fun h => (ha socket h).1
  · have hreported : a.reported.Nodup := by
      unfold Action.reported
      split
      · rename_i result
        cases result
        exacts [nodup_nil, nodup_singleton _]
      · exact nodup_singleton _
      · exact nodup_nil
    exact hd.nodup.append hreported fun socket hmem h => (ha socket h).2 hmem

/-! ### Runs -/

theorem indexed_act {s s' : Service R} {a : Action R} (h : act a s = some s')
    (ha : Unused s.world.data a)
    (hs : Indexed s.world.data.state s.world.data.incoming ∧ Counted s.world.data.state) :
    Indexed s'.world.data.state s'.world.data.incoming ∧ Counted s'.world.data.state := by
  obtain ⟨s₁, l, hfirst, hpath⟩ := act_tables h
  have hstart : Indexed s₁ l ∧ Counted s₁ := by
    rcases hfirst with ⟨rfl, hl⟩ | ⟨hinsertion, rfl⟩
    · exact ⟨(hs.1.reported ha).mono hl, hs.2⟩
    · exact ⟨hinsertion.indexed ha hs.1, hinsertion.counted hs.2⟩
  obtain ⟨hend, -, hincoming⟩ := steps_keep (P := fun s => Indexed s l ∧ Counted s)
    (fun _ _ hv hchange => ⟨hchange.indexed hv.1, hchange.counted hv.2⟩) hpath hstart
  have hincoming' : s'.world.data.incoming = l := hincoming
  exact ⟨hincoming' ▸ hend.1, hend.2⟩

theorem Counted.pos (hs : Counted s) {id : TlsId} {c : TlsConnection R}
    (h : s.connections.lookup id = some c) (hannounced : c.announced = false) :
    0 < s.handshakes := by
  have hsum := total_eq_erase (fun c : TlsConnection R => if c.announced then 0 else 1) id
    s.connections
  rw [h, elim_some, hannounced, if_neg Bool.false_ne_true] at hsum
  unfold Counted State.handshaking at hs
  omega

/-- **The tables agree.**  In every run of the service in which new sockets have numbers that the
service does not have, a socket leads to a connection, or a listener, exactly if that one has
the socket; no id is both a listener's and a connection's; the counter of handshakes is the number
of connections that are not announced, and is positive whenever it has to be lowered. -/
theorem tables_agree (config : TlsConfig) (run : List (Action R)) (s : Service R)
    (hrun : exec act run (initial config) = some s)
    (hunused : along act (fun s a => Unused s.world.data a) run (initial config)) :
    (∀ socket id, s.world.data.state.connectionSockets.lookup socket = some id
      ↔ ∃ c, s.world.data.state.connections.lookup id = some c ∧ c.socket = socket)
    ∧ (∀ socket id, s.world.data.state.listenerSockets.lookup socket = some id
      ↔ ∃ l, s.world.data.state.listeners.lookup id = some l ∧ l.socket = socket)
    ∧ (∀ i ∈ s.world.data.state.listeners, ∀ j ∈ s.world.data.state.connections, i ≠ j)
    ∧ s.world.data.state.handshakes = s.world.data.state.handshaking
    ∧ ∀ id c, s.world.data.state.connections.lookup id = some c → c.announced = false →
      0 < s.world.data.state.handshakes := by
  have hstart : Indexed (initial config : Service R).world.data.state [] := by
    refine ⟨?_, ?_, fun _ => .inl rfl, fun _ => (nomatch ·), nodup_nil⟩
    all_goals exact fun _ _ => ⟨(nomatch ·), fun ⟨_, h, _⟩ => nomatch h⟩
  obtain ⟨hindexed, hcounted⟩ := exec_invariant
    (I := fun s : Service R => Indexed s.world.data.state s.world.data.incoming
      ∧ Counted s.world.data.state)
    (fun a s s' hs ha hact => indexed_act hact ha hs) run ⟨hstart, rfl⟩ hunused hrun
  refine ⟨hindexed.connections, hindexed.listeners, ?_, hcounted, fun _ _ => hcounted.pos⟩
  rintro i hlistener _ hconnection rfl
  rcases hindexed.apart i with h | h
  · exact AList.lookup_eq_none.mp h hlistener
  · exact AList.lookup_eq_none.mp h hconnection

theorem oneConnect_unused :
    (exec act oneConnect (initial narrow)).map (fun s =>
      (s.world.data.state.connectionSockets.lookup 5, s.world.data.state.handshakes))
      = some (some 1, 1)
    ∧ along act (fun s a => Unused s.world.data a) oneConnect (initial narrow) := by
  unfold Unused Foreign
  decide +kernel

theorem tables_of_oneConnect : ∃ s, exec act oneConnect (initial narrow) = some s
    ∧ (∃ c, s.world.data.state.connections.lookup 1 = some c ∧ c.socket = 5)
    ∧ s.world.data.state.handshaking = 1 := by
  obtain ⟨hend, hunused⟩ := oneConnect_unused
  obtain ⟨s, hs, hfound⟩ := map_eq_some_iff.mp hend
  obtain ⟨hconnections, -, -, hcount, -⟩ := tables_agree narrow oneConnect s hs hunused
  cases Prod.mk.inj hfound with
  | intro hsocket hhandshakes =>
    exact ⟨s, hs, (hconnections 5 1).mp hsocket, hcount ▸ hhandshakes⟩

/-! ### A socket that closes too early -/

def Action.ended : Action R → List SocketId
  | .socket (.close id) => [id]
  | .socket (.error id _) => [id]
  | _ => []

/-- **The network service never reports a new socket under the number of one still open**: one that
was reported, with no close or error reported since. -/
def renewed : List SocketId → List (Action R) → Bool
  | _, [] => true
  | opened, a :: run => a.reported.all (· ∉ opened) &&
      renewed ((opened ++ a.reported).filter (· ∉ a.ended)) run

/-- Socket 5 closes before its connect has heard of its addresses, and its number is used again. -/
def closedTooEarly : List (Action sample) :=
  [connecting 1, .wake 0 (.opened (.ok 5)), .socket (.close 5), .wake 0 (.informed none),
   connecting 2, .wake 1 (.opened (.ok 5)), .wake 1 (.informed none)]

/-- **Two connections on one socket.**  The close of a socket that is not entered yet is dropped, the
connect ignores that its addresses are unknown and enters the closed socket, and the next socket of
that number takes its place in the index. -/
theorem two_connections_on_a_socket :
    renewed [] closedTooEarly = true ∧
    (exec act closedTooEarly (initial {})).map (fun s =>
      (s.world.data.state.connectionSockets.lookup 5,
        (s.world.data.state.connections.lookup 1).map (·.socket),
        (s.world.data.state.connections.lookup 2).map (·.socket)))
      = some (some 2, some 5, some 5) := by
  decide +kernel

end Rskynet.Tls
