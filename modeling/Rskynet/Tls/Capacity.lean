import Rskynet.Tls.Tables

/-!
# Limits of the TLS service

* `limits_kept` — **PROVED**: a run that adds no entry at a limit stays within both limits.
-/

namespace Rskynet.Tls

open Cells Interleave Relation Tables Option

variable {R : Rustls}
variable {s : State R}

def State.handshaking (s : State R) : ℕ :=
  total (fun c => if c.announced then 0 else 1) s.connections

def Counted (s : State R) : Prop := s.handshakes = s.handshaking

structure Within (config : TlsConfig) (s : State R) : Prop where
  connections : s.len ≤ config.maxConnections
  handshakes : s.handshaking ≤ config.maxHandshakes

theorem len_eq (s : State R) :
    s.len = total (fun _ => 1) s.listeners + total (fun _ => 1) s.connections := by
  rw [total_one, total_one]
  rfl

/-! ### Changes -/

/-- **A change takes nobody in**, and the counter of handshakes falls with their number. -/
theorem Change.sizes {s' : State R} (h : Change s s') :
    s'.len ≤ s.len ∧ s'.handshaking ≤ s.handshaking
      ∧ s'.handshakes = s.handshakes - (s.handshaking - s'.handshaking) := by
  rw [len_eq, len_eq]
  cases h with
  | @changed id c c' hfound hsocket hannounced horderly =>
    have hlen := total_insert_of_some (f := fun _ => 1) hfound c'
    have hsum := total_insert_of_some (f := fun c => if c.announced then 0 else 1) hfound c'
    simp only [hannounced] at hsum
    simp only [State.setConnection, State.handshaking]
    omega
  | @announced id c hfound hannounced =>
    have hlen := total_insert_of_some (f := fun _ => 1) hfound
      { c with announced := true, connectPending := none }
    have hsum := total_insert_of_some (f := fun c => if c.announced then 0 else 1) hfound
      { c with announced := true, connectPending := none }
    simp only [hannounced, if_true, Bool.false_eq_true, if_false] at hsum
    simp only [State.setConnection, State.handshaking]
    omega
  | @started id l hfound =>
    have hlen := total_insert_of_some (f := fun _ => 1) hfound { l with started := true }
    simp only [State.handshaking]
    omega
  | @listenerDropped id l hfound =>
    have hlen := total_erase_of_some (f := fun _ => 1) hfound
    simp only [State.handshaking]
    omega
  | @connectionDropped id c hfound =>
    have hlen := total_erase_of_some (f := fun _ => 1) hfound
    have hsum := total_erase_of_some (f := fun c => if c.announced then 0 else 1) hfound
    simp only [State.handshaking]
    split at hsum <;> rename_i hannounced
    · rw [if_pos hannounced]
      omega
    · rw [if_neg hannounced]
      omega

theorem Change.counted {s' : State R} (h : Change s s') (hs : Counted s) : Counted s' := by
  obtain ⟨-, hle, hcount⟩ := h.sizes
  unfold Counted at hs ⊢
  omega

/-! ### Insertions -/

theorem lookup_of_allocate {id : TlsId} (h : s.allocate = some id) :
    s.listeners.lookup id = none ∧ s.connections.lookup id = none := by
  have hunused : s.unused id = true := Loop.found_of_run_search h
  unfold State.unused at hunused
  rw [Bool.and_eq_true, isNone_iff_eq_none, isNone_iff_eq_none] at hunused
  exact hunused

theorem insertConnection_sizes {id : TlsId} {c : TlsConnection R} (hid : s.allocate = some id)
    (hannounced : c.announced = false) :
    (s.insertConnection id c).len = s.len + 1
      ∧ (s.insertConnection id c).handshaking = s.handshaking + 1 := by
  have hnone := (lookup_of_allocate hid).2
  constructor
  · have hsum := total_insert_of_none (f := fun _ => 1) hnone c
    rw [len_eq, len_eq]
    show total _ s.listeners + total _ (s.connections.insert id c) = _
    omega
  · have hsum := total_insert_of_none (f := fun c => if c.announced then 0 else 1) hnone c
    simp only [hannounced, Bool.false_eq_true, if_false] at hsum
    show total _ (s.connections.insert id c) = total _ s.connections + 1
    omega

theorem insertListener_len {id : TlsId} {l : Listener R} (hid : s.allocate = some id) :
    (s.insertListener id l).len = s.len + 1 := by
  have hsum := total_insert_of_none (f := fun _ => 1) (lookup_of_allocate hid).1 l
  rw [len_eq, len_eq]
  show total _ (s.listeners.insert id l) + total _ s.connections = _
  omega

theorem Insertion.counted {d : Server R} {a : Action R} (h : Insertion d a s) (hd : Counted d.state) :
    Counted s := by
  unfold Counted at hd ⊢
  cases h with
  | connected htask hid hsocket hannounced | accepted hroom hid hsocket hannounced =>
    rw [(insertConnection_sizes hid hannounced).2, ← hd]
    rfl
  | listening htask hid hsocket => exact hd

theorem room_of_atCapacity {d : Server R} (hd : Counted d.state) {handshake : Bool}
    (h : d.atCapacity handshake = none) :
    d.state.len < d.config.maxConnections
      ∧ (handshake = true → d.state.handshaking < d.config.maxHandshakes) := by
  unfold Server.atCapacity at h
  split at h
  · cases h
  · rename_i hlen
    split at h
    · cases h
    · rename_i hhandshakes
      refine ⟨Nat.lt_of_not_le hlen, fun hyes => ?_⟩
      rw [hyes, Bool.true_and, decide_eq_true_eq, hd] at hhandshakes
      exact Nat.lt_of_not_le hhandshakes

/-- **The entry comes too late**: the step adds a connection or a listener, and a limit is reached. -/
def late (d : Server R) : Action R → Bool
  | .wake i (.informed _) => match d.tasks[i]? with
    | some (.connectInfo ..) => (d.atCapacity true).isSome
    | some (.listenInfo ..) => (d.atCapacity false).isSome
    | _ => false
  | _ => false

theorem Insertion.within {d : Server R} {a : Action R} (h : Insertion d a s)
    (hlate : late d a = false) (hcounted : Counted d.state) (hwithin : Within d.config d.state) :
    Within d.config s := by
  cases h with
  | connected htask hid hsocket hannounced horderly =>
    simp only [late, htask, isSome_eq_false_iff, isNone_iff_eq_none] at hlate
    obtain ⟨hlen, hhandshakes⟩ := room_of_atCapacity hcounted hlate
    obtain ⟨hlen', hhandshakes'⟩ := insertConnection_sizes hid hannounced
    exact ⟨hlen' ▸ hlen, hhandshakes' ▸ hhandshakes rfl⟩
  | listening htask hid hsocket =>
    simp only [late, htask, isSome_eq_false_iff, isNone_iff_eq_none] at hlate
    obtain ⟨hlen, -⟩ := room_of_atCapacity hcounted hlate
    exact ⟨insertListener_len hid ▸ hlen, hwithin.handshakes⟩
  | accepted hroom hid hsocket hannounced horderly =>
    obtain ⟨hlen, hhandshakes⟩ := room_of_atCapacity hcounted hroom
    obtain ⟨hlen', hhandshakes'⟩ := insertConnection_sizes hid hannounced
    exact ⟨hlen' ▸ hlen, hhandshakes' ▸ hhandshakes rfl⟩

/-! ### Runs -/

/-- What holds between two steps of a run without a late entry. -/
structure Sized (config : TlsConfig) (d : Server R) : Prop where
  fixed : d.config = config
  counted : Counted d.state
  within : Within config d.state

theorem steps_keep {P : State R → Prop} (hchange : ∀ s s', P s → Change s s' → P s')
    {v v' : TlsConfig × State R × List SocketId} (h : ReflTransGen Step v v') (hv : P v.2.1) :
    P v'.2.1 ∧ v'.1 = v.1 ∧ v'.2.2 = v.2.2 := by
  induction h with
  | refl => exact ⟨hv, rfl, rfl⟩
  | tail _ hstep ih =>
    obtain ⟨hconfig, hincoming, hchange'⟩ := hstep
    exact ⟨hchange _ _ ih.1 hchange', hconfig.trans ih.2.1, hincoming.trans ih.2.2⟩

theorem sized_act {config : TlsConfig} {s s' : Service R} {a : Action R}
    (h : act a s = some s') (hlate : late s.world.data a = false)
    (hs : Sized config s.world.data) : Sized config s'.world.data := by
  obtain ⟨s₁, l, hfirst, hpath⟩ := act_tables h
  have hstart : Counted s₁ ∧ Within config s₁ := by
    have hwithin : Within s.world.data.config s.world.data.state := hs.fixed ▸ hs.within
    rcases hfirst with ⟨rfl, -⟩ | ⟨hinsertion, -⟩
    · exact ⟨hs.counted, hs.within⟩
    · exact ⟨hinsertion.counted hs.counted,
        hs.fixed ▸ hinsertion.within hlate hs.counted hwithin⟩
  obtain ⟨⟨hcounted, hwithin⟩, hfixed, -⟩ := steps_keep (P := fun s => Counted s ∧ Within config s)
    (fun _ _ hv hchange => ⟨hchange.counted hv.1, hchange.sizes.1.trans hv.2.connections,
      hchange.sizes.2.1.trans hv.2.handshakes⟩) hpath hstart
  exact ⟨hfixed.trans hs.fixed, hcounted, hwithin⟩

/-- **The limits are kept without a late entry.**  In every run, from every configuration, none of
whose steps adds an entry at a limit, the listeners and connections stay within `max_connections`
and the handshakes within `max_handshakes`. -/
theorem limits_kept (config : TlsConfig) (run : List (Action R)) (s : Service R)
    (hrun : exec act run (initial config) = some s)
    (hnone : along act (fun s a => late s.world.data a = false) run (initial config)) :
    Within config s.world.data.state := by
  have hstart : Sized config (initial config : Service R).world.data :=
    ⟨rfl, rfl, ⟨Nat.zero_le _, Nat.zero_le _⟩⟩
  have hend := exec_invariant (I := fun s : Service R => Sized config s.world.data)
    (fun a s s' hs hlate hact => sized_act hact hlate hs) run hstart hnone hrun
  exact hend.within

/-! ### Runs over the limits -/

def narrow : TlsConfig := { maxConnections := 1, maxHandshakes := 1 }

def connecting (session : ℕ) : Action sample :=
  .command (owner session) (.connect ⟨"127.0.0.1:443", (), (), none, none⟩)

def oneConnect : List (Action sample) :=
  [connecting 1, .wake 0 (.opened (.ok 5)), .wake 0 (.informed none)]

def twoConnects : List (Action sample) :=
  [connecting 1, connecting 2, .wake 0 (.opened (.ok 5)), .wake 0 (.opened (.ok 6)),
   .wake 0 (.informed none), .wake 0 (.informed none)]

def twoListens : List (Action sample) :=
  [.command (owner 1) (.listen ⟨"127.0.0.1:443", ()⟩),
   .command (owner 2) (.listen ⟨"127.0.0.1:444", ()⟩),
   .wake 0 (.opened (.ok 5)), .wake 0 (.opened (.ok 6)),
   .wake 0 (.informed none), .wake 0 (.informed none)]

theorem oneConnect_end :
    (exec act oneConnect (initial narrow)).map (fun s => s.world.data.state.len) = some 1
      ∧ along act (fun s a => late s.world.data a = false) oneConnect (initial narrow) := by
  decide +kernel

theorem limits_of_oneConnect : ∃ s, exec act oneConnect (initial narrow) = some s
    ∧ s.world.data.state.len = 1 ∧ Within narrow s.world.data.state := by
  obtain ⟨hend, hnone⟩ := oneConnect_end
  obtain ⟨s, hs, hlen⟩ := map_eq_some_iff.mp hend
  exact ⟨s, hs, hlen, limits_kept narrow oneConnect s hs hnone⟩

/-- **Both limits can be exceeded**, under a configuration that validation accepts: two connects or
two listens that wait for the network service at the same time have both passed the check. -/
theorem limits_exceeded :
    narrow.validate.isOk = true
    ∧ (exec act twoConnects (initial narrow)).map
        (fun s => (s.world.data.state.len, s.world.data.state.handshaking)) = some (2, 2)
    ∧ (exec act twoListens (initial narrow)).map (fun s => s.world.data.state.len) = some 2 := by
  decide +kernel

end Rskynet.Tls
