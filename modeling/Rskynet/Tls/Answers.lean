import Rskynet.Tls.Commands

/-!
# Answers of the TLS service

* `commands_answered` — **PROVED**: no command is answered more often than it was sent; and without
  a `Shutdown` that strands one every command that is not held has been answered exactly once.
-/

namespace Rskynet.Tls

open Cells Interleave Relation Tables List Option

variable {R : Rustls} {p : Pending}
variable {d : Server R} {a : Action R}

/-! ### One step -/

/-- The command that an action brings; the two messages the service sends to itself have no
answer. -/
def arrives (p : Pending) : Action R → ℕ
  | .command _ (.handshakeTimeout _) => 0
  | .command _ (.closeFailed _ _) => 0
  | .command q _ => ind p q
  | _ => 0

/-- The commands that a step loses: those parked at a connection that is shut down, and the one in
hand at the lease assertion. -/
def lost (p : Pending) (d : Server R) : Action R → ℕ
  | .command q (.shutdown id) => match d.state.listeners.lookup id with
    | some l => if l.owner = q.source then ind p q else 0
    | none => (d.state.connections.lookup id).elim 0 fun c =>
      if c.owner = q.source then parked p c else 0
  | _ => 0

def AllOrderly (s : State R) : Prop := ∀ id c, s.connections.lookup id = some c → Orderly c

theorem onCommand_weight (hp : p.session ≠ 0) {q : Pending} {command : Command R}
    {w w' : World Cell (Server R)} (horderly : AllOrderly w.data.state)
    (hcalm : panics w.data (.command q command) = false)
    (h : onCommand q command w = .ok ((), w')) :
    weight p w'.data + lost p w.data (.command q command)
      = weight p w.data + arrives p (.command q command) := by
  cases command with
  | connect options => exact books_connect hp options q w () w' h
  | listen options => exact books_listen hp options q w () w' h
  | start id => exact books_start hp id q w () w' h
  | pause id => exact books_pause hp id q w () w' h
  | send id data high =>
    exact (((quiet_level hp).sendPlaintext id q.source data high).acts fun _ => books_reply hp q _)
      w () w' h
  | sendWait id data high => exact books_sendPlaintextWait hp id q data high w () w' h
  | close id => exact close_weight hp (horderly id) h
  | info id => exact ((level_readState _).acts fun _ => books_reply hp q _) w () w' h
  | handshakeTimeout id | closeFailed id =>
    exact ((level_readState _).bind fun _ => still_onlyIf (level_fail hp id _)) w () w' h
  | shutdown id =>
    obtain ⟨answer, w₁, h₁, h⟩ := bind_eq_ok h
    have hshut := shutdown_weight (p := p) h₁
    have hreply := books_reply hp q answer w₁ () w' h
    show weight p w'.data + lost p w.data (.command q (.shutdown id)) = weight p w.data + ind p q
    unfold lost
    simp only [panics] at hcalm
    cases hfound : w.data.state.listeners.lookup id with
    | none =>
      simp only [hfound, isSome_none, Bool.false_eq_true, if_false] at hshut ⊢
      dsimp only at hreply
      omega
    | some l =>
      simp only [hfound, isSome_some, if_true] at hshut ⊢
      rw [hfound, any_some, decide_eq_false_iff_not] at hcalm
      rw [if_neg hcalm]
      dsimp only at hreply
      omega

theorem books_connectReady (hp : p.session ≠ 0) (options : ClientOptions R) (tls : R.Conn)
    (q : Pending) (socket : SocketId) (addresses : Option Addresses) :
    Books p (ind p q) (connectReady options tls q socket addresses) := by
  apply (level_readConfig _).acts
  intro bufferLimit
  apply (level_readConfig _).acts
  intro default
  apply Acts.still
  · intro w id w' h
    obtain ⟨hid, w₀, w₁, hinsert, hfrom, hto⟩ := allocating_eq_ok h
    cases hinsert
    rw [hto, hfrom]
    have hparks : ∀ c, parked p c = ind p q →
        weight p (w.data.setState (w.data.state.insertConnection id c))
          = weight p w.data + ind p q := by
      intro c hparked
      rw [weight_insertConnection hid, hparked]
    exact hparks _ rfl
  · intro id
    exact (quiet_level hp).flushOrFail id (level_armTimeout id)

theorem books_listenReady (hp : p.session ≠ 0) (options : ServerOptions R) (q : Pending)
    (socket : SocketId) (addresses : Option Addresses) :
    Books p (ind p q) (listenReady options q socket addresses) := by
  apply Still.acts
  · intro w id w' h
    obtain ⟨hid, w₀, w₁, hinsert, hfrom, hto⟩ := allocating_eq_ok h
    cases hinsert
    rw [hto, hfrom]
    rfl
  · intro id
    exact books_reply hp q _

theorem level_accept (socket listenSocket : SocketId) (peer : SocketAddr) :
    Level p (accept socket listenSocket peer : Handler R Unit) := by
  apply Still.bind
  · apply Still.guarded
    apply (still_look _).bind
    intro found
    split
    · exact (level_shutdownSocket _).bind fun _ => still_pure _
    · exact still_pure _
  · intro found
    split
    · exact still_pure ()
    · apply (level_capacityError true).bind
      intro full
      split
      · exact level_shutdownSocket socket
      · split
        · exact level_shutdownSocket socket
        · apply Still.bind
          · intro w id w' h
            obtain ⟨hid, c, hsocket, hannounced, hconnect, hclose, hafter⟩ :=
              insertAccepted_data h
            have hparked : parked p c = 0 := by
              unfold parked
              rw [hconnect, hclose]
              rfl
            rw [hafter, weight_insertConnection hid, hparked, Nat.add_zero]
          · intro id
            exact (level_askNet _).bind fun _ => level_suspend rfl

theorem books_complete (hp : p.session ≠ 0) {task : Task R} {completion : Completion}
    {rest : Handler R Unit} (h : complete task completion = some rest) :
    Books p (slot p task.pending) rest := by
  cases task <;> cases completion <;> cases h
  case connecting.opened options tls q result =>
    exact books_connectSocket hp options tls q result
  case connectInfo.informed options tls q socket addresses =>
    exact books_connectReady hp options tls q socket addresses
  case listening.opened options q result => exact books_listenSocket hp options q result
  case listenInfo.informed options q socket addresses =>
    exact books_listenReady hp options q socket addresses
  case startingConnection.finished id q result =>
    exact (still_onlyIf (carries_setPaused id false).level).acts fun _ => books_reply hp q _
  case startingListener.finished id q result =>
    exact (still_onlyIf (level_setStarted id)).acts fun _ => books_reply hp q _
  case pausing.finished id q result =>
    exact (still_onlyIf (carries_setPaused id true).level).acts fun _ => books_reply hp q _
  case sending.finished id q result =>
    exact ((quiet_level hp).plaintextSent id result).acts fun _ => books_reply hp q _
  case closingListener.finished q result => exact books_reply hp q _
  case accepting.finished id result =>
    cases result with
    | error e => exact (level_fail hp id _).acts_id
    | ok _ => exact (level_armTimeout id).acts_id
  case spawnedClose.polled id socket =>
    exact ((level_askNet _).bind fun _ => level_suspend rfl).acts_id
  case closingConnection.finished id result =>
    cases result with
    | error e => exact (level_sendSelf _).acts_id
    | ok _ => exact (still_pure ()).acts_id
  case sleeping.polled id timeoutMs => exact (level_sendSelf _).acts_id

theorem weight_eraseIdx {i : ℕ} {task : Task R} (h : d.tasks[i]? = some task) :
    weight p { d with tasks := d.tasks.eraseIdx i } + slot p task.pending = weight p d := by
  have hsum : ((d.tasks.eraseIdx i).map fun task => slot p task.pending).sum + slot p task.pending
      = (d.tasks.map fun task => slot p task.pending).sum := by
    obtain ⟨hi, hget⟩ := List.getElem?_eq_some_iff.mp h
    have hperm := List.getElem_cons_eraseIdx_perm hi
    have hmap := (hperm.map fun task => slot p task.pending).sum_eq
    rw [List.map_cons, List.sum_cons, hget] at hmap
    omega
  unfold weight waiting suspended answered
  dsimp only
  omega

theorem handle_weight (hp : p.session ≠ 0) {m : Handler R Unit} {w w' : World Cell (Server R)}
    (horderly : AllOrderly d.state) (hcalm : panics d a = false) (hm : handle d a = some m)
    (hw : w.data = d) (h : m w = .ok ((), w')) :
    weight p w'.data + lost p d a = weight p d + arrives p a := by
  subst hw
  cases a with
  | command q command =>
    cases hm
    exact onCommand_weight hp horderly hcalm h
  | net down =>
    cases hm
    cases h
    rfl
  | socket event =>
    cases hm
    cases event with
    | accept id listen peer => exact level_accept id listen peer w () w' h
    | data id data => exact (quiet_level hp).receiveTls id data w () w' h
    | close id => exact level_socketClosed hp id none w () w' h
    | error id reason => exact level_socketClosed hp id (some reason) w () w' h
    | warning id kilobytes => exact (quiet_level hp).warn id kilobytes w () w' h
    | udp =>
      cases h
      rfl
  | wake i completion =>
    obtain ⟨task, htask, hm⟩ := bind_eq_some_iff.mp hm
    obtain ⟨rest, hrest, rfl⟩ := map_eq_some_iff.mp hm
    obtain ⟨_, w₁, h₁, h⟩ := bind_eq_ok h
    have hwoken := weight_eraseIdx (p := p) htask
    have hbooked := books_complete hp hrest w₁ () w' h
    have hdata : w₁.data = { w.data with tasks := w.data.tasks.eraseIdx i } := by
      cases h₁
      rfl
    rw [hbooked, hdata]
    exact hwoken

theorem lost_of_panics (h : panics d a = true) :
    lost p d a = arrives p a := by
  cases a with
  | wake | net => cases h
  | socket event => rfl
  | command q command =>
    cases command <;> try cases h
    case shutdown id =>
      simp only [panics] at h
      cases hfound : d.state.listeners.lookup id with
      | none =>
        rw [hfound] at h
        cases h
      | some l =>
        rw [hfound, any_some, decide_eq_true_eq] at h
        simp only [lost, hfound, h, if_true]
        rfl

/-- **One step.**  Answered, waiting and lost commands add up. -/
theorem act_weight (hp : p.session ≠ 0) {s s' : Service R} (hfree : s.world.held = free)
    (horderly : AllOrderly s.world.data.state) (h : act a s = some s') :
    weight p s'.world.data + lost p s.world.data a = weight p s.world.data + arrives p a := by
  have hact := h
  unfold act at h
  split at h
  · cases h
  · rename_i hcalm
    obtain ⟨m, hm, h⟩ := bind_eq_some_iff.mp h
    have hnone : s.panicked = none := by
      cases hp : s.panicked with
      | none => rfl
      | some cell => exact absurd (by rw [hp]; rfl) hcalm
    have hfate := act_fate hfree hnone (isSome_iff_exists.mpr ⟨m, hm⟩)
    cases hpanics : panics s.world.data a with
    | true =>
      rw [hpanics, if_pos rfl, hact] at hfate
      cases hfate
      rw [lost_of_panics hpanics]
    | false =>
      split at h
      · rename_i world hrun
        cases h
        exact handle_weight hp horderly hpanics hm rfl hrun
      · rw [hpanics, if_neg Bool.false_ne_true] at hfate
        split at hfate
        · rw [hact] at hfate
          cases hfate
        · obtain ⟨d, hd⟩ := hfate
          have hsame := congrArg Service.panicked (some.inj (hact.symm.trans hd))
          cases h
          rw [hnone] at hsame
          cases hsame
      · cases h

/-! ### Runs -/

theorem Change.orderly {s s' : State R} (h : Change s s') (hs : AllOrderly s) : AllOrderly s' := by
  -- an entry of the new table is an old one, or the one that has changed
  have hinsert : ∀ (id : TlsId) (c : TlsConnection R), Orderly c → ∀ id' c',
      (s.connections.insert id c).lookup id' = some c' → Orderly c' := by
    intro id c hc id' c' hfound
    by_cases hid : id' = id
    · subst hid
      rw [AList.lookup_insert] at hfound
      cases hfound
      exact hc
    · rw [AList.lookup_insert_ne hid] at hfound
      exact hs id' c' hfound
  cases h with
  | changed hfound hsocket hannounced horderly => exact hinsert _ _ (horderly (hs _ _ hfound))
  | @announced id c hfound hannounced =>
    have hc : Orderly c := hs id c hfound
    exact hinsert id { c with announced := true, connectPending := none } hc
  | started | listenerDropped => exact hs
  | @connectionDropped id c hfound =>
    intro id' c' hfound'
    by_cases hid : id' = id
    · subst hid
      have herased : (s.connections.erase id').lookup id' = some c' := hfound'
      rw [AList.lookup_erase] at herased
      cases herased
    · have herased : (s.connections.erase id).lookup id' = some c' := hfound'
      rw [AList.lookup_erase_ne hid] at herased
      exact hs id' c' herased

theorem Insertion.orderly {s : State R} (h : Insertion d a s) (hd : AllOrderly d.state) :
    AllOrderly s := by
  have hinsert : ∀ (id : TlsId) (c : TlsConnection R), Orderly c →
      AllOrderly (d.state.insertConnection id c) := by
    intro id c hc id' c' hfound
    have hfound' : (d.state.connections.insert id c).lookup id' = some c' := hfound
    by_cases hid : id' = id
    · subst hid
      rw [AList.lookup_insert] at hfound'
      cases hfound'
      exact hc
    · rw [AList.lookup_insert_ne hid] at hfound'
      exact hd id' c' hfound'
  cases h with
  | connected htask hid hsocket hannounced horderly
  | accepted hroom hid hsocket hannounced horderly => exact hinsert _ _ horderly
  | listening htask hid hsocket => exact hd

theorem orderly_act {s s' : Service R} (h : act a s = some s') (hs : AllOrderly s.world.data.state) :
    AllOrderly s'.world.data.state := by
  obtain ⟨s₁, l, hfirst, hpath⟩ := act_tables h
  have hstart : AllOrderly s₁ := by
    rcases hfirst with ⟨rfl, -⟩ | ⟨hinsertion, -⟩
    · exact hs
    · exact hinsertion.orderly hs
  exact (steps_keep (fun _ _ hv hchange => hchange.orderly hv) hpath hstart).1

def asked (p : Pending) (run : List (Action R)) : ℕ := (run.map (arrives p)).sum

/-- **A `Shutdown` that leaves a command without an answer**: a caller waits at the connection it
takes away, or it stops at the lease assertion while its own caller waits. -/
def strands (d : Server R) : Action R → Bool
  | .command q (.shutdown id) => match d.state.listeners.lookup id with
    | some l => decide (l.owner = q.source) && decide (q.session ≠ 0)
    | none => (d.state.connections.lookup id).any fun c => decide (c.owner = q.source)
      && (c.connectPending.any (fun q => q.session ≠ 0) || c.closePending.any fun q => q.session ≠ 0)
  | _ => false

theorem slot_eq_zero (hp : p.session ≠ 0) {parkedAt : Option Pending}
    (h : parkedAt.any (fun q => decide (q.session ≠ 0)) = false) : slot p parkedAt = 0 := by
  cases parkedAt with
  | none => rfl
  | some q =>
    rw [any_some, decide_eq_false_iff_not, not_not] at h
    have hne : q ≠ p := by
      rintro rfl
      exact hp h
    exact if_neg hne

theorem lost_eq_zero (hp : p.session ≠ 0) (h : strands d a = false) : lost p d a = 0 := by
  cases a with
  | wake | net | socket => rfl
  | command q command =>
    cases command <;> try rfl
    case shutdown id =>
      unfold strands at h
      unfold lost
      cases hlistener : d.state.listeners.lookup id with
      | some l =>
        simp only [hlistener, Bool.and_eq_false_iff, decide_eq_false_iff_not, not_not] at h ⊢
        rcases h with hother | hsilent
        · exact if_neg hother
        · have hne : q ≠ p := by
            rintro rfl
            exact hp hsilent
          rw [ind, if_neg hne, ite_self]
      | none =>
        simp only [hlistener] at h ⊢
        cases hconnection : d.state.connections.lookup id with
        | none => rfl
        | some c =>
          simp only [hconnection, any_some, Bool.and_eq_false_iff,
            decide_eq_false_iff_not, Bool.or_eq_false_iff] at h
          show (if c.owner = q.source then parked p c else 0) = 0
          rcases h with hother | ⟨hconnect, hclose⟩
          · exact if_neg hother
          · unfold parked
            rw [slot_eq_zero hp hconnect, slot_eq_zero hp hclose, ite_self]

theorem exec_weight (hp : p.session ≠ 0) :
    ∀ (run : List (Action R)) (s s' : Service R), s.world.held = free →
      AllOrderly s.world.data.state → exec act run s = some s' →
      weight p s'.world.data ≤ weight p s.world.data + asked p run
      ∧ (along act (fun s a => strands s.world.data a = false) run s →
        weight p s'.world.data = weight p s.world.data + asked p run) := by
  intro run
  induction run with
  | nil =>
    intro s s' _ _ h
    cases h
    exact ⟨le_rfl, fun _ => rfl⟩
  | cons a run ih =>
    intro s s' hfree horderly h
    obtain ⟨s₁, h₁, h⟩ := bind_eq_some_iff.mp h
    obtain ⟨hle, heq⟩ := ih s₁ s' (held_of_act h₁ hfree) (orderly_act h₁ horderly) h
    have hstep := act_weight hp hfree horderly h₁
    have hasked : asked p (a :: run) = arrives p a + asked p run := rfl
    constructor
    · omega
    · intro hgood
      have hnone := lost_eq_zero hp hgood.1
      have hrest := heq (hgood.2 s₁ h₁)
      omega

/-- **Every command is answered once.**  In every run, from every configuration, a command that its
caller waits for is answered at most as often as it was sent; and in a run without a `Shutdown` that
strands a command, every command that is not held by a suspended handler or by a connection in the
table has been answered exactly as often as it was sent. -/
theorem commands_answered (config : TlsConfig) (run : List (Action R)) (s : Service R)
    (hrun : exec act run (initial config) = some s) (p : Pending) (hp : p.session ≠ 0) :
    answered p s.world.data + waiting p s.world.data ≤ asked p run
    ∧ (along act (fun s a => strands s.world.data a = false) run (initial config) →
      answered p s.world.data + waiting p s.world.data = asked p run) := by
  have hempty : AllOrderly (initial config : Service R).world.data.state := by
    intro id c hfound
    cases hfound
  obtain ⟨hle, heq⟩ := exec_weight hp run (initial config) s rfl hempty hrun
  have hstart : weight p (initial config : Service R).world.data = 0 := rfl
  rw [hstart, Nat.zero_add] at hle heq
  exact ⟨hle, heq⟩

/-! ### Runs that lose an answer -/

def closed : List (Action sample) :=
  [connecting 1, .wake 0 (.opened (.ok 5)), .wake 0 (.informed none), .socket (.data 5 [1]),
   .command (owner 2) (.close 1)]

def closedThenGone : List (Action sample) := closed ++ [.socket (.close 5)]

theorem closedThenGone_end :
    (exec act closedThenGone (initial {})).map (fun s => (answered (owner 2) s.world.data,
      waiting (owner 2) s.world.data)) = some (1, 0)
    ∧ along act (fun s a => strands s.world.data a = false) closedThenGone (initial {}) := by
  decide +kernel

theorem answered_of_closedThenGone : ∃ s, exec act closedThenGone (initial {}) = some s
    ∧ waiting (owner 2) s.world.data = 0
    ∧ answered (owner 2) s.world.data + waiting (owner 2) s.world.data
      = asked (owner 2) closedThenGone := by
  obtain ⟨hend, hgood⟩ := closedThenGone_end
  obtain ⟨s, hs, hcounts⟩ := map_eq_some_iff.mp hend
  exact ⟨s, hs, congrArg Prod.snd hcounts,
    (commands_answered {} closedThenGone s hs (owner 2) (by decide)).2 hgood⟩

/-- **The answer of a `Close` is lost** when the same owner sends a `Shutdown` before the socket is
closed, and so is the answer of a `Connect`: the command was sent once, nothing holds it any more, and
it has not been answered. -/
theorem shutdown_strands_close :
    (exec act (closed ++ [.command (owner 0) (.shutdown 1)]) (initial {})).map (fun s =>
        (answered (owner 2) s.world.data, waiting (owner 2) s.world.data)) = some (0, 0)
    ∧ asked (owner 2) (closed ++ [.command (owner 0) (.shutdown 1)]) = 1
    ∧ (exec act (oneConnect ++ [.command (owner 0) (.shutdown 1)]) (initial {})).map (fun s =>
        (answered (owner 1) s.world.data, waiting (owner 1) s.world.data)) = some (0, 0)
    ∧ asked (owner 1) (oneConnect ++ [.command (owner 0) (.shutdown 1)]) = 1 := by
  decide +kernel

end Rskynet.Tls
