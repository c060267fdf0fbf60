import Mathlib.Algebra.BigOperators.Group.List.Basic
import Rskynet.Lib.Threads
import Rskynet.Net.Waiters

/-!
# Every command of the network service is answered once

A command is answered when it is handled, or it is held by a socket or a task and answered later.
Three kinds of steps break this: a connect whose socket cannot be registered is answered by the
socket and by the command; a second `Close` of a socket with unsent data takes the place of the first
one, which is never answered; the message of a connect timer is not answered at all.

* `each_command_answered_once` — **PROVED**: in a run without such steps, answers and held commands
  together are the commands that have come;
* `command_answered_twice_or_never` — **PROVED**: the defects.
-/

namespace Rskynet.Net

open Sockets Interleave List Option

variable {setup : Setup} {key waiting : Pending} {net net' : Server} {id : SocketId}

/-! ### Commands -/

theorem accounts_some (hkey : key.session ≠ 0) {answer : Answer}
    (h : weight key net' = weight key net) :
    Accounts key waiting net (some answer, net') := by
  unfold Accounts
  rw [weight_replyIf hkey]
  exact congrArg (· + ind key waiting) h

theorem accounts_none (h : weight key net' = weight key net + ind key waiting) :
    Accounts key waiting net (none, net') := h

theorem accounts_now (hkey : key.session ≠ 0) {r : Answer × Server}
    (h : weight key r.2 = weight key net) : Accounts key waiting net (now r) :=
  accounts_some hkey h

theorem weight_doListen (addr : SocketAddr) (owner : Handle) :
    weight key (doListen addr owner net).2 = weight key net := by
  unfold doListen
  split
  · rename_i hcall
    exact (weight_call hcall).1
  · rename_i net₁ hcall
    have hinsert := weight_insert key net₁ owner .listener .preListen
    rw [(weight_call hcall).1] at hinsert
    split
    all_goals
      rename_i hinserted
      rw [hinserted] at hinsert
      exact hinsert

theorem weight_doUdpWithPeer (addr : SocketAddr) (peer : Option SocketAddr) (owner : Handle) :
    weight key (doUdpWithPeer addr peer owner net).2 = weight key net := by
  unfold doUdpWithPeer
  split
  · rename_i hcall
    exact (weight_call hcall).1
  · rename_i net₁ hcall
    have hinsert := weight_insert key net₁ owner .udp .connected
    rw [(weight_call hcall).1] at hinsert
    split
    · rename_i hinserted
      rw [hinserted] at hinsert
      exact hinsert
    · rename_i id sockets hinserted
      rw [hinserted] at hinsert
      have hmodify : weight key (({ net₁ with sockets := sockets } : Server).modify id fun s =>
          { s with udpPeer := peer }) = weight key { net₁ with sockets := sockets } :=
        weight_modify rfl rfl rfl fun _ => rfl
      have hset := hmodify.trans hinsert
      dsimp only
      split
      · rename_i happlied
        exact (weight_applied happlied).trans hset
      · rename_i e net₂ happlied
        have happly : weight key net₂ = _ := weight_applied happlied
        -- a registration that fails leaves the table, so the socket is removed as it was put in
        have hsockets : net₂.sockets = sockets.modify id fun s => { s with udpPeer := peer } := by
          unfold Server.apply at happlied
          split at happlied
          · cases happlied
          · split at happlied
            · cases happlied
            · split at happlied
              · rename_i hcall'
                cases happlied
                have hcalled : weight key net₂ = _ ∧ net₂.sockets = _ := weight_call hcall'
                exact hcalled.2
              · cases happlied
        have hget := get_modify (f := fun s => { s with udpPeer := peer }) (get_insert hinserted) rfl
        rw [← hsockets] at hget
        have hremove := total_remove (held key) (remove_eq_some hget)
        have hnone : held key { Socket.new id owner .udp .connected net₁.sockets.floor with
          udpPeer := peer } = 0 := rfl
        rw [hnone] at hremove
        simp only [weight, answered, parked, remove_eq_some hget] at happly hset hremove ⊢
        omega

theorem weight_doUdpForPeer (key : Pending) (net : Server) (peer : SocketAddr) (owner : Handle) :
    weight key (doUdpForPeer peer owner net).2 = weight key net := by
  unfold doUdpForPeer
  split
  · rename_i hcall
    exact (weight_call hcall).1
  · rename_i hcall
    split
    · rename_i hcall'
      exact (weight_call hcall').1.trans (weight_call hcall).1
    · rename_i hcall'
      rw [weight_doUdpWithPeer]
      exact (weight_call hcall').1.trans (weight_call hcall).1

theorem weight_doUdpForPeerCandidates (owner : Handle) (addrs : List SocketAddr) :
    ∀ (lastError : Option String) (net : Server),
      weight key (doUdpForPeerCandidates owner addrs lastError net).2 = weight key net := by
  induction addrs with
  | nil =>
    intro lastError net
    rfl
  | cons addr addrs ih =>
    intro lastError net
    have hfirst := weight_doUdpForPeer key net addr owner
    unfold doUdpForPeerCandidates
    split
    · rename_i hfailed
      rw [hfailed] at hfirst
      rw [ih]
      exact hfirst
    · rename_i hopened
      rw [hopened] at hfirst
      exact hfirst

theorem weight_doUdpConnect (id : SocketId) (addr : SocketAddr) :
    weight key (doUdpConnect id addr net).2 = weight key net := by
  unfold doUdpConnect
  split
  · rfl
  · split
    · rfl
    · exact weight_modify rfl rfl rfl fun _ => rfl

theorem weight_doStart (hkey : key.session ≠ 0) (id : SocketId) (owner : Handle) :
    weight key (doStart id owner net).2 = weight key net := by
  unfold doStart
  split
  · rfl
  · have hmodify : ∀ state : Socket → State, weight key (net.modify id fun s =>
        { s with owner := owner, paused := false, state := state s }) = weight key net :=
      fun _ => weight_modify rfl rfl rfl fun _ => rfl
    dsimp only
    split
    · rename_i happlied
      rw [weight_close hkey, weight_applied happlied]
      exact hmodify _
    · rename_i happlied
      split
      · rw [weight_onRole hkey, weight_applied happlied]
        exact hmodify _
      · exact (weight_applied happlied).trans (hmodify _)

theorem weight_doPause (id : SocketId) : weight key (doPause id net).2 = weight key net := by
  have hmodify : weight key (net.modify id fun s => { s with paused := true }) = weight key net :=
    weight_modify rfl rfl rfl fun _ => rfl
  unfold doPause
  split
  · rfl
  · split
    all_goals
      rename_i happlied
      exact (weight_applied happlied).trans hmodify

theorem weight_doSend (hkey : key.session ≠ 0) (id : SocketId) (chunk : Chunk) (high : Bool) :
    weight key (doSend setup id chunk high net).2 = weight key net := by
  unfold doSend
  split
  · rfl
  · split
    · rfl
    · split
      · rfl
      · rw [weight_flush hkey, weight_tellIf]
        exact weight_modify rfl rfl rfl fun _ => rfl

/-- **A send that waits** is answered at once or held by its socket. -/
theorem accounts_doSendWait (hkey : key.session ≠ 0) (id : SocketId) (chunk : Chunk) (high : Bool) :
    Accounts key waiting net (doSendWait setup id chunk high waiting net) := by
  have hsend : weight key (doSend setup id chunk high net).2 = weight key net :=
    weight_doSend hkey id chunk high
  unfold doSendWait
  split
  · rename_i net₁ hsent
    rw [hsent] at hsend
    dsimp only at hsend
    split
    · exact accounts_some hkey hsend
    · rename_i socket hget
      split
      · exact accounts_some hkey hsend
      · have hexchange := weight_exchange key net₁
          (fun s => { s with sendWaiters := s.sendWaiters ++ [waiting] }) hget
        unfold held at hexchange
        simp only [map_append, sum_append, map_cons, map_nil, sum_cons,
          sum_nil] at hexchange
        apply accounts_none
        omega
  · rename_i hsent
    rw [hsent] at hsend
    exact accounts_some hkey hsend

theorem weight_doUdpSend (hkey : key.session ≠ 0) (id : SocketId) (peer : Option SocketAddr)
    (data : List UInt8) : weight key (doUdpSend setup id peer data net).2 = weight key net := by
  unfold doUdpSend
  split
  · rfl
  · exact weight_doSend hkey id _ true

theorem accounts_doUdpSendWait (hkey : key.session ≠ 0) (id : SocketId) (peer : Option SocketAddr)
    (data : List UInt8) : Accounts key waiting net (doUdpSendWait setup id peer data waiting net) := by
  unfold doUdpSendWait
  split
  · exact accounts_now hkey (r := (_, net)) rfl
  · exact accounts_doSendWait hkey id _ true

/-- A `Close` that finds unsent data and another caller waiting. -/
def displaces (setup : Setup) (id : SocketId) (net : Server) : Bool :=
  match (flush setup id net).sockets.get id with
  | none => false
  | some socket => !socket.wb.isEmpty && socket.pending.any fun waiting => !waiting.isSilent

/-- **A close** is answered at once or held by its socket, if it displaces nobody. -/
theorem accounts_doClose (hkey : key.session ≠ 0) (h : displaces setup id net = false) :
    Accounts key waiting net (doClose setup id waiting net) := by
  have hflush : weight key (flush setup id net) = weight key net := weight_flush hkey id net
  unfold displaces at h
  unfold doClose
  dsimp only
  split
  · exact accounts_some hkey hflush
  · rename_i socket hget
    simp only [hget] at h
    split
    · exact accounts_some hkey ((weight_close hkey id _ _).trans hflush)
    · rename_i hunsent
      -- whoever waits for the socket waits for nobody's answer
      have hfree : socket.pending.elim 0 (ind key) = 0 := by
        cases hpending : socket.pending with
        | none => rfl
        | some other =>
          rw [hpending, Bool.eq_false_iff.mpr hunsent] at h
          refine ind_of_silent hkey ?_
          simpa using h
      have hexchange := weight_exchange key (flush setup id net)
        (fun s => { s with state := .halfCloseWrite, pending := some waiting }) hget
      unfold held at hexchange
      simp only [elim_some] at hexchange
      apply accounts_none
      rw [weight_apply]
      omega

theorem weight_doNodelay (id : SocketId) : weight key (doNodelay id net).2 = weight key net := by
  unfold doNodelay
  split
  · rfl
  · split
    · rfl
    · split
      all_goals
        rename_i hcall
        exact (weight_call hcall).1

theorem accounts_whenParsed {addr : String} {deferred : Deferred}
    {f : SocketAddr → Server → Option Answer × Server}
    (h : ∀ parsed, setup.parse addr = some parsed → Accounts key waiting net (f parsed net)) :
    Accounts key waiting net (whenParsed setup addr waiting deferred f net) := by
  unfold whenParsed
  split
  · rename_i parsed hparsed
    exact h parsed hparsed
  · exact accounts_none (weight_spawn net _)

/-! ### Steps -/

def refusesLiteral (setup : Setup) (addr : String) (waiting : Pending) (deadlineMs : Option ℕ)
    (net : Server) : Bool :=
  match setup.parse addr with
  | none => false
  | some addr => refuses [addr] waiting deadlineMs net

/-- The commands that are not answered once. -/
def strandedBy (setup : Setup) (command : Command) (waiting : Pending) (net : Server) : Bool :=
  match command with
  | .connect addr => refusesLiteral setup addr waiting none net
  | .connectWithTimeout addr timeoutMs =>
    refusesLiteral setup addr waiting (some (min (net.now + timeoutMs) (2 ^ 64 - 1))) net
  | .close id => displaces setup id net
  | .connectTimeoutElapsed _ => !waiting.isSilent
  | _ => false

theorem refuses_of_literal {addr : String} {parsed : SocketAddr} {deadlineMs : Option ℕ}
    (h : refusesLiteral setup addr waiting deadlineMs net = false)
    (hparsed : setup.parse addr = some parsed) : refuses [parsed] waiting deadlineMs net = false := by
  unfold refusesLiteral at h
  simpa only [hparsed] using h

/-- **A command** is answered at once or held. -/
theorem accounts_answerTo (hkey : key.session ≠ 0) {command : Command}
    (h : strandedBy setup command waiting net = false) :
    Accounts key waiting net (answerTo setup command waiting net) := by
  cases command with
  | listen addr =>
    exact accounts_whenParsed fun addr _ => accounts_now hkey (weight_doListen addr _)
  | connect | connectWithTimeout =>
    exact accounts_whenParsed fun _ hparsed =>
      accounts_doConnectCandidates hkey (refuses_of_literal h hparsed)
  | udp bind =>
    exact accounts_whenParsed fun addr _ => accounts_now hkey (weight_doUdpWithPeer addr none _)
  | udpForPeer addr =>
    exact accounts_whenParsed fun addr _ =>
      accounts_now hkey (weight_doUdpForPeer key net addr _)
  | udpConnect id addr =>
    exact accounts_whenParsed fun addr _ => accounts_now hkey (weight_doUdpConnect id addr)
  | start id => exact accounts_now hkey (weight_doStart hkey id _)
  | pause id => exact accounts_now hkey (weight_doPause id)
  | send id data high => exact accounts_now hkey (weight_doSend hkey id _ high)
  | sendWait id data high => exact accounts_doSendWait hkey id _ high
  | udpSend id peer data => exact accounts_now hkey (weight_doUdpSend hkey id peer data)
  | udpSendWait id peer data => exact accounts_doUdpSendWait hkey id peer data
  | close id => exact accounts_doClose hkey h
  | shutdown id => exact accounts_some hkey (weight_close hkey id _ net)
  | noDelay id on => exact accounts_now hkey (weight_doNodelay id)
  | info | netstat => exact accounts_some hkey rfl
  | connectTimeoutElapsed id =>
    have hsilent : waiting.isSilent = true := by simpa [strandedBy] using h
    apply accounts_none
    rw [ind_of_silent hkey hsilent]
    exact weight_connectTimeoutElapsed hkey id net

/-- A resolved connect none of whose addresses gives a socket that can be registered. -/
def resolvedRefused (deferred : Deferred) (waiting : Pending)
    (result : Except String (List SocketAddr)) (net : Server) : Bool :=
  match deferred, result with
  | .connect deadlineMs, .ok (addr :: addrs) => refuses (addr :: addrs) waiting deadlineMs net
  | _, _ => false

/-- **A command whose address is resolved** is answered or held. -/
theorem weight_resolved (hkey : key.session ≠ 0) {deferred : Deferred}
    {result : Except String (List SocketAddr)}
    (h : resolvedRefused deferred waiting result net = false) :
    weight key (resolved waiting deferred result net) = weight key net + ind key waiting := by
  cases result with
  | error reason => exact weight_reply net hkey waiting _
  | ok addrs =>
    cases addrs with
    | nil => exact accounts_some hkey rfl
    | cons addr addrs =>
      cases deferred with
      | listen => exact accounts_now hkey (weight_doListen addr _)
      | connect deadlineMs => exact accounts_doConnectCandidates hkey h
      | udp => exact accounts_now hkey (weight_doUdpWithPeer addr none _)
      | udpForPeer =>
        exact accounts_now hkey (weight_doUdpForPeerCandidates waiting.source (addr :: addrs) none net)
      | udpConnect id => exact accounts_now hkey (weight_doUdpConnect id addr)

theorem weight_onWritable (hkey : key.session ≠ 0)
    (h : (net.sockets.get id).any (·.state = .connecting) = true → fallbackRefused id net = false) :
    weight key (onWritable setup id net) = weight key net := by
  unfold onWritable
  split
  · rename_i hconnecting
    exact weight_finishConnect hkey (h hconnecting)
  · exact weight_flush hkey id net

/-- The end of a connect after which no other address gives a socket that can be registered. -/
def eventRefused (event : Readiness) (net : Server) : Bool :=
  event.writable && (net.sockets.byToken event.token).any fun socket =>
    (net.sockets.get socket.id).any (·.state = .connecting) && fallbackRefused socket.id net

/-- **A readiness event** loses no command. -/
theorem weight_onEvent (hkey : key.session ≠ 0) {event : Readiness}
    (h : eventRefused event net = false) : weight key (onEvent setup event net) = weight key net := by
  unfold onEvent
  split
  · rfl
  · rename_i socket hsocket
    dsimp only
    have hwrite : weight key (if event.writable then onWritable setup socket.id net else net) =
        weight key net := by
      split
      · rename_i hwritable
        apply weight_onWritable hkey
        intro hconnecting
        simpa [eventRefused, hwritable, hsocket, hconnecting] using h
      · rfl
    generalize (if event.writable then onWritable setup socket.id net else net) = net₁ at hwrite ⊢
    have hread : weight key (if event.readable then onRole socket.kind socket.id net₁ else net₁) =
        weight key net₁ := by
      split
      · exact weight_onRole hkey _ _ _
      · rfl
    generalize (if event.readable then onRole socket.kind socket.id net₁ else net₁) = net₂ at hread ⊢
    split
    · rw [weight_close hkey, (weight_call (Prod.mk.eta (p := net₂.call Os.takeError)).symm).1, hread,
        hwrite]
    · rw [hread, hwrite]

/-- **The steps that break it**, on the state they meet. -/
def strands (setup : Setup) (net : Server) (action : Action) : Bool :=
  let net := { net with os := action.os, now := action.now }
  match action.input with
  | .command command waiting => strandedBy setup command waiting net
  | .event event => eventRefused event net
  | .resolved waiting deferred result =>
    resolvedRefused deferred waiting result
      { net with tasks := net.tasks.erase (.resolving waiting deferred) }
  | .elapsed _ => false

def arrives (key : Pending) (action : Action) : ℕ :=
  match action.input with
  | .command _ waiting => ind key waiting
  | _ => 0

theorem weight_resume {task : Task} {after : Server → Server}
    (hafter : weight key (after { net with tasks := net.tasks.erase task }) =
      weight key { net with tasks := net.tasks.erase task } + task.held key)
    (h : resume task after net = some net') : weight key net' = weight key net := by
  unfold resume at h
  split at h
  · rename_i htask
    obtain rfl := some.inj h
    rw [hafter]
    have herase := sum_map_erase (Task.held key) htask
    simp only [weight, answered, parked]
    omega
  · cases h

/-- **One step** counts a command that comes in, and no other. -/
theorem act_weight (hkey : key.session ≠ 0) {action : Action}
    (hgood : strands setup net action = false) (h : act setup action net = some net') :
    weight key net' = weight key net + arrives key action := by
  unfold strands at hgood
  unfold act at h
  unfold arrives
  split at h
  · rename_i command waiting hinput
    obtain rfl := some.inj h
    simp only [hinput] at hgood ⊢
    exact accounts_answerTo hkey hgood
  · rename_i event hinput
    obtain rfl := some.inj h
    simp only [hinput] at hgood ⊢
    exact weight_onEvent hkey hgood
  · rename_i waiting deferred result hinput
    simp only [hinput] at hgood ⊢
    refine Eq.trans (weight_resume ?_ h) rfl
    exact weight_resolved hkey hgood
  · rename_i id hinput
    simp only [hinput]
    refine Eq.trans (weight_resume ?_ h) rfl
    exact weight_connectTimeoutElapsed hkey id _

def arrived (key : Pending) (run : List Action) : ℕ := (run.map (arrives key)).sum

theorem exec_weight (hkey : key.session ≠ 0) (run : List Action)
    (hgood : along (act setup) (fun net a => strands setup net a = false) run net)
    (h : exec (act setup) run net = some net') :
    weight key net' = weight key net + arrived key run := by
  induction run generalizing net with
  | nil =>
    obtain rfl := some.inj h
    rfl
  | cons action run ih =>
    obtain ⟨net₁, hstep, hrest⟩ := bind_eq_some_iff.mp h
    rw [ih (hgood.2 net₁ hstep) hrest, act_weight hkey hgood.1 hstep]
    simp only [arrived, map_cons, sum_cons]
    omega

/-- **Every command is answered once.**  In a run without a step that breaks it, a command that its
caller waits for has been answered as often as it has come, but for those that a socket in the table or
a task still holds. -/
theorem each_command_answered_once (setup : Setup) (run : List Action) (net : Server)
    (hgood : along (act setup) (fun net a => strands setup net a = false) run (initial setup))
    (hrun : exec (act setup) run (initial setup) = some net) (key : Pending)
    (hkey : key.session ≠ 0) : answered key net + parked key net = arrived key run := by
  have hstart : weight key (initial setup) = 0 := by
    simp [weight, answered, parked, initial, total, Sockets.new]
  have hend := exec_weight hkey run hgood hrun
  rwa [hstart, Nat.zero_add] at hend

/-! ### Runs -/

def sampleSetup : Setup where
  config := { maxSocket := 4, writeHighWater := 2, writeLowWater := 1 }
  parse := some

def callerOf (session : ℕ) : Pending := ⟨7, session⟩

def asks (session : ℕ) (command : Command) (os : Os) : Action :=
  ⟨.command command (callerOf session), os, 0⟩

def turnsWritable (os : Os) : Action := ⟨.event ⟨1, true, false, false⟩, os, 0⟩

def blocked : List Action :=
  [asks 1 (.connect "a") {}, turnsWritable {}, asks 2 (.sendWait 1 [1, 2, 3] false) {},
   asks 3 (.close 1) {}]

/-- The socket is closed once more before the peer takes everything. -/
def displaced : List Action :=
  blocked ++ [asks 4 (.close 1) {}, turnsWritable { writes := [.count 3] }]

def drained : List Action := blocked ++ [turnsWritable { writes := [.count 3] }]

theorem drained_end :
    along (act sampleSetup) (fun net a => strands sampleSetup net a = false) drained
      (initial sampleSetup) ∧ (exec (act sampleSetup) drained (initial sampleSetup)).any (fun net =>
      parked (callerOf 2) net = 0 ∧ parked (callerOf 3) net = 0) = true := by
  decide +kernel

theorem each_answered_of_drained : ∃ net,
    exec (act sampleSetup) drained (initial sampleSetup) = some net
    ∧ parked (callerOf 2) net = 0 ∧ parked (callerOf 3) net = 0
    ∧ answered (callerOf 2) net + parked (callerOf 2) net = arrived (callerOf 2) drained
    ∧ answered (callerOf 3) net + parked (callerOf 3) net = arrived (callerOf 3) drained := by
  obtain ⟨hgood, hend⟩ := drained_end
  obtain ⟨net, hnet, hfree⟩ := (any_eq_true _ _).mp hend
  have hfree := of_decide_eq_true hfree
  exact ⟨net, hnet, hfree.1, hfree.2,
    each_command_answered_once sampleSetup drained net hgood hnet (callerOf 2) (by decide),
    each_command_answered_once sampleSetup drained net hgood hnet (callerOf 3) (by decide)⟩

/-- **Two answers and none.**  A connect whose socket cannot be registered is answered twice.  Of two
`Close` commands for a socket with unsent data the first is not answered when the socket goes. -/
theorem command_answered_twice_or_never :
    (exec (act sampleSetup) [asks 1 (.connect "a") { registers := [some "e"] }]
      (initial sampleSetup)).map (fun net => (answered (callerOf 1) net, parked (callerOf 1) net))
      = some (2, 0)
    ∧ arrived (callerOf 1) [asks 1 (.connect "a") { registers := [some "e"] }] = 1
    ∧ (exec (act sampleSetup) displaced (initial sampleSetup)).map (fun net =>
        (answered (callerOf 3) net, parked (callerOf 3) net, net.sockets.get 1 |>.isSome))
      = some (0, 0, false)
    ∧ arrived (callerOf 3) displaced = 1 := by
  decide +kernel

end Rskynet.Net
