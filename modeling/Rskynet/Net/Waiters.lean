import Rskynet.Net.Commands

/-!
# Callers of the network service

A command is known by its caller and session. At any time the service has answered it, or a socket
holds it — the command it waits for, or a send that waits for the queue to fall — or a task resolves
its address.

* `weight_close`, … — **PROVED**: what happens to a socket moves commands from it to the answers and
  loses none;
* `weight_attempt`, … — **PROVED**: a connect is held by its socket.
-/

namespace Rskynet.Net

open Sockets List Option

variable {setup : Setup} {key : Pending}

/-! ### Where a command can be -/

def ind (key waiting : Pending) : ℕ := if waiting = key then 1 else 0

def held (key : Pending) (socket : Socket) : ℕ :=
  socket.pending.elim 0 (ind key) + (socket.sendWaiters.map (ind key)).sum

def Task.held (key : Pending) : Task → ℕ
  | .resolving waiting _ => ind key waiting
  | .timer _ => 0

def answered (key : Pending) (net : Server) : ℕ := (net.replies.map fun r => ind key r.1).sum

/-- How often the command is held: by a socket in the table or by a task. -/
def parked (key : Pending) (net : Server) : ℕ :=
  net.sockets.total (held key) + (net.tasks.map (Task.held key)).sum

def weight (key : Pending) (net : Server) : ℕ := answered key net + parked key net

theorem ind_of_silent (hkey : key.session ≠ 0) {waiting : Pending} (h : waiting.isSilent = true) :
    ind key waiting = 0 := by
  unfold ind
  rw [if_neg]
  rintro rfl
  exact hkey (of_decide_eq_true h)

section Effects

variable (net : Server)

theorem weight_reply (hkey : key.session ≠ 0) (waiting : Pending) (answer : Answer) :
    weight key (net.reply waiting answer) = weight key net + ind key waiting := by
  unfold Server.reply
  split
  · rename_i hsilent
    rw [ind_of_silent hkey hsilent]
    rfl
  · simp only [weight, answered, parked, map_append, sum_append, map_cons,
      map_nil, sum_cons, sum_nil]
    omega

theorem weight_replyAll (hkey : key.session ≠ 0) (waiters : List Pending) (answer : Answer) :
    weight key (net.replyAll waiters answer) = weight key net + (waiters.map (ind key)).sum := by
  unfold Server.replyAll
  induction waiters generalizing net with
  | nil => rfl
  | cons waiting waiters ih =>
    rw [foldl_cons, ih, weight_reply net hkey, map_cons, sum_cons]
    omega

theorem weight_replyTo (hkey : key.session ≠ 0) (waiting : Option Pending) (answer : Answer) :
    weight key (net.replyTo waiting answer) = weight key net + waiting.elim 0 (ind key) := by
  cases waiting with
  | none => rfl
  | some waiting => exact weight_reply net hkey waiting answer

theorem weight_tellIf (owner : Handle) (event : Option SocketEvent) :
    weight key (net.tellIf owner event) = weight key net := by
  cases event with
  | none | some => rfl

theorem weight_spawn (task : Task) :
    weight key (net.spawn task) = weight key net + task.held key := by
  simp only [weight, answered, parked, Server.spawn, map_append, sum_append,
    map_cons, map_nil, sum_cons, sum_nil]
  omega

theorem weight_modify {net net' : Server} {id : SocketId} {f : Socket → Socket}
    (hsockets : net'.sockets = net.sockets.modify id f) (htasks : net'.tasks = net.tasks)
    (hreplies : net'.replies = net.replies)
    (hf : ∀ socket, held key (f socket) = held key socket) : weight key net' = weight key net := by
  simp only [weight, answered, parked, hsockets, htasks, hreplies, total_modify_of_eq (held key) hf]

theorem weight_exchange (key : Pending) (net : Server) {id : SocketId} {socket : Socket}
    (f : Socket → Socket) (h : net.sockets.get id = some socket) :
    weight key (net.modify id f) + held key socket = weight key net + held key (f socket) := by
  have htotal := total_modify (f := f) (held key) h
  simp only [weight, answered, parked, Server.modify]
  omega

theorem weight_call {net net' : Server} {f : Os → Option String × Os} {r : Option String}
    (h : net.call f = (r, net')) : weight key net' = weight key net ∧ net'.sockets = net.sockets := by
  have hnet : { net with os := (f net.os).2 } = net' := congrArg Prod.snd h
  rw [← hnet]
  exact ⟨rfl, rfl⟩

theorem weight_apply (key : Pending) (net : Server) (id : SocketId) :
    weight key (net.apply id).2 = weight key net := by
  unfold Server.apply
  split
  · rfl
  · split
    · rfl
    · split
      · rename_i hcall
        exact (weight_call hcall).1
      · rename_i hcall
        rw [← (weight_call hcall).1]
        exact weight_modify rfl rfl rfl fun _ => rfl

theorem weight_applied {net net' : Server} {id : SocketId} {r : Option String}
    (h : net.apply id = (r, net')) : weight key net' = weight key net := by
  rw [← weight_apply key net id, h]

theorem weight_insert (key : Pending) (net : Server) (owner : Handle) (kind : Kind) (state : State) :
    weight key { net with sockets := (net.sockets.insert owner kind state).2 } = weight key net := by
  have htotal := total_insert (t := net.sockets) (held key) owner kind state
  simp only [weight, answered, parked, htotal]
  cases (net.sockets.insert owner kind state).1 with
  | none | some => rfl

end Effects

/-! ### Closing and writing -/

variable {net net' : Server} {id : SocketId}

section Keyed

variable (hkey : key.session ≠ 0)
include hkey

theorem weight_dispose (socket : Socket) (farewell : Farewell) :
    weight key (dispose socket farewell net) = weight key net + held key socket := by
  have hdetach : weight key (if socket.interest.isSome then (net.call Os.register).2 else net) =
      weight key net := by
    split <;> rfl
  unfold dispose held
  rw [weight_tellIf, weight_replyAll _ hkey, weight_replyTo _ hkey, hdetach]
  omega

/-- **A socket that is closed answers everybody it holds.** -/
theorem weight_close (id : SocketId) (farewell : Farewell) (net : Server) :
    weight key (close id farewell net) = weight key net := by
  unfold close
  split
  · rfl
  · rename_i socket sockets hremove
    have htotal := total_remove (held key) hremove
    rw [weight_dispose hkey]
    simp only [weight, answered, parked]
    omega

theorem weight_releaseSendWaiters (id : SocketId) (net : Server) :
    weight key (releaseSendWaiters setup id net) = weight key net := by
  unfold releaseSendWaiters
  split
  · rfl
  · rename_i socket hget
    split
    · rfl
    · have hexchange := weight_exchange key net
        (fun s => { s with sendWaiters := [] }) hget
      rw [weight_replyAll _ hkey]
      unfold held at hexchange
      simp only [map_nil, sum_nil] at hexchange
      omega

omit hkey in
theorem weight_writeOnce {kind : Kind} {dest : Option SocketAddr} {w : Option Written}
    (h : writeOnce kind dest net = (w, net')) :
    weight key net' = weight key net ∧ net'.sockets = net.sockets := by
  unfold writeOnce at h
  split at h
  · cases h
    exact ⟨rfl, rfl⟩
  · obtain ⟨-, rfl⟩ := Prod.mk.inj h
    exact ⟨rfl, rfl⟩

omit hkey in
/-- **A loop** loses no command if no turn of it does, whether the turn goes round again or ends. -/
theorem weight_finish {β : Type} {turn : Server → Server ⊕ β} {measure : Server → ℕ}
    {hdec : ∀ s s', turn s = .inl s' → measure s' < measure s} (server : β → Server)
    (hturn : ∀ s, (turn s).elim (weight key) (fun r => weight key (server r)) = weight key s)
    (net : Server) : weight key (server (Loop.finish turn measure hdec net)) = weight key net := by
  refine Loop.finish_rule (I := fun s => weight key s = weight key net)
    (Q := fun r => weight key (server r) = weight key net) ?_ ?_ net rfl
  · intro s s' hs h
    have hkept := hturn s
    rw [h] at hkept
    exact hkept.trans hs
  · intro s r hs h
    have hkept := hturn s
    rw [h] at hkept
    exact hkept.trans hs

theorem weight_flushTurn (id : SocketId) (net : Server) :
    (flushTurn setup id net).elim (weight key) (fun r => weight key r.1) = weight key net := by
  have hraise : weight key (net.modify id fun s => { s with wb := s.wb.raise }) = weight key net :=
    weight_modify rfl rfl rfl fun _ => rfl
  unfold flushTurn
  split
  · rfl
  · simp only
    split
    · exact hraise
    · split
      · exact hraise
      · split
        · rename_i hwrite
          show weight key (Server.apply _ id).2 = _
          rw [weight_apply, (weight_writeOnce hwrite).1, hraise]
        · rename_i hwrite
          show weight key (close id _ _) = _
          rw [weight_close hkey, (weight_writeOnce hwrite).1, hraise]
        · rename_i hwrite
          show weight key (releaseSendWaiters setup id _) = _
          rw [weight_releaseSendWaiters hkey, (weight_writeOnce hwrite).1, hraise]
        · rename_i hwrite
          split
          · show weight key (close id _ _) = _
            rw [weight_close hkey, (weight_writeOnce hwrite).1, hraise]
          · show weight key (releaseSendWaiters setup id _) = _
            rw [weight_releaseSendWaiters hkey, ← hraise, ← (weight_writeOnce hwrite).1]
            exact weight_modify rfl rfl rfl fun _ => rfl

theorem weight_flushLoop (setup : Setup) (id : SocketId) (net : Server) :
    weight key (flushLoop setup id net).1 = weight key net :=
  weight_finish Prod.fst (weight_flushTurn hkey id) net

theorem weight_flushed (id : SocketId) (net : Server) :
    weight key (flushed id net) = weight key net := by
  unfold flushed
  split
  · rfl
  · rename_i socket hget
    split
    · have hexchange := weight_exchange key net (fun s => { s with pending := none }) hget
      rw [weight_replyTo _ hkey, weight_close hkey]
      unfold held at hexchange
      simp only [elim_none] at hexchange
      omega
    · exact weight_apply key net id

theorem weight_flush (id : SocketId) (net : Server) :
    weight key (flush setup id net) = weight key net := by
  have hloop := weight_flushLoop hkey setup id net
  unfold flush
  split
  · rename_i hrun
    rw [hrun] at hloop
    exact hloop
  · rename_i hrun
    rw [hrun] at hloop
    rw [weight_flushed hkey]
    exact hloop

/-! ### Reading -/

theorem weight_peerClosed (id : SocketId) (net : Server) :
    weight key (peerClosed id net) = weight key net := by
  unfold peerClosed
  split
  · rfl
  · split
    · exact weight_close hkey id _ net
    · rw [weight_apply]
      exact weight_modify rfl rfl rfl fun _ => rfl

omit hkey in
theorem weight_acceptTurn (listen : SocketId) (net : Server) :
    (acceptTurn listen net).elim (weight key) (weight key) = weight key net := by
  unfold acceptTurn
  split
  · rfl
  · split
    · rfl
    · split
      · rfl
      · rfl
      · rfl
      · rename_i socket _ _ _ _ _ _
        have hinsert := weight_insert key net socket.owner .stream .preAccept
        split
        · rename_i hfull
          rw [hfull] at hinsert
          exact hinsert
        · rename_i hfresh
          rw [hfresh] at hinsert
          exact hinsert

theorem weight_readTurn (id : SocketId) (net : Server) :
    (readTurn id net).elim (weight key) (weight key) = weight key net := by
  unfold readTurn
  split
  · rfl
  · split
    · rfl
    · simp only
      split
      · rfl
      · rfl
      · exact weight_close hkey id _ _
      · split
        · exact weight_peerClosed hkey id _
        · exact weight_modify rfl rfl rfl fun _ => rfl

omit hkey in
theorem weight_udpTurn (id : SocketId) (net : Server) :
    (udpTurn id net).elim (weight key) (weight key) = weight key net := by
  unfold udpTurn
  split
  · rfl
  · split
    · rfl
    · split
      · rfl
      · rfl
      · rfl
      · rfl

/-- **Reading**, whatever kind of socket is read, loses no command. -/
theorem weight_onRole (kind : Kind) (id : SocketId) (net : Server) :
    weight key (onRole kind id net) = weight key net := by
  cases kind with
  | listener => exact weight_finish (fun net => net) (weight_acceptTurn id) net
  | stream => exact weight_finish (fun net => net) (weight_readTurn hkey id) net
  | udp => exact weight_finish (fun net => net) (weight_udpTurn id) net

/-! ### Connecting -/

theorem weight_replyIf (net : Server) (waiting : Pending)
    (answer : Option Answer) : weight key (net.replyIf waiting answer) =
      weight key net + if answer.isSome then ind key waiting else 0 := by
  cases answer with
  | none => rfl
  | some answer => exact weight_reply net hkey waiting answer

end Keyed

/-- What an attempt to connect does with its command: a socket that is in the table holds it. -/
def Attempt.Holds (key waiting : Pending) (net : Server) : Attempt → Prop
  | .undialed net' _ => weight key net' = weight key net
  | .full net' => weight key net' = weight key net
  | .refused net' _ _ => weight key net' = weight key net + ind key waiting
  | .started net' _ => weight key net' = weight key net + ind key waiting

theorem weight_attempt (key waiting : Pending) (deadlineMs : Option ℕ) (addrs : List SocketAddr) :
    ∀ (lastError : Option String) (net : Server),
      (attempt waiting deadlineMs addrs lastError net).Holds key waiting net := by
  induction addrs with
  | nil =>
    intro lastError net
    exact (rfl : weight key net = weight key net)
  | cons addr addrs ih =>
    intro lastError net
    unfold attempt
    split
    · -- the address cannot be dialled, the next one is tried
      rename_i e net₁ hcall
      have hnext := ih (some ("连 " ++ addr ++ " 失败：" ++ e)) net₁
      unfold Attempt.Holds at hnext ⊢
      rw [(weight_call hcall).1] at hnext
      exact hnext
    · rename_i net₁ hcall
      have hinsert := weight_insert key net₁ waiting.source .stream .connecting
      rw [(weight_call hcall).1] at hinsert
      split
      · rename_i hfull
        rw [hfull] at hinsert
        exact hinsert
      · rename_i id sockets hfresh
        have hexchange := weight_exchange key { net₁ with sockets := sockets }
          (Socket.connectingFor waiting addrs deadlineMs) (get_insert hfresh)
        have happly := weight_apply key (({ net₁ with sockets := sockets } : Server).modify id
          (Socket.connectingFor waiting addrs deadlineMs)) id
        have hnew : held key (.new id waiting.source .stream .connecting net₁.sockets.floor) = 0 := rfl
        have hheld : held key (Socket.connectingFor waiting addrs deadlineMs
            (.new id waiting.source .stream .connecting net₁.sockets.floor)) = ind key waiting := rfl
        rw [hfresh] at hinsert
        dsimp only at hinsert
        dsimp only
        split
        · rename_i happlied
          rw [happlied] at happly
          unfold Attempt.Holds
          dsimp only at happly
          omega
        · rename_i happlied
          rw [happlied] at happly
          unfold Attempt.Holds
          dsimp only at happly
          omega

def refuses (addrs : List SocketAddr) (waiting : Pending) (deadlineMs : Option ℕ) (net : Server) :
    Bool :=
  !waiting.isSilent && !deadlineMs.any (net.now ≥ ·) &&
    match attempt waiting deadlineMs addrs none net with
    | .refused _ _ _ => true
    | _ => false

/-- A command with its answer, if there is one, is counted once. -/
def Accounts (key waiting : Pending) (net : Server) (r : Option Answer × Server) : Prop :=
  weight key (r.2.replyIf waiting r.1) = weight key net + ind key waiting

/-- **A connect** is answered at once or held by its socket, unless the socket cannot be registered. -/
theorem accounts_doConnectCandidates (hkey : key.session ≠ 0) {addrs : List SocketAddr}
    {waiting : Pending} {deadlineMs : Option ℕ} (h : refuses addrs waiting deadlineMs net = false) :
    Accounts key waiting net (doConnectCandidates addrs waiting deadlineMs net) := by
  have hattempt := weight_attempt key waiting deadlineMs addrs none net
  unfold Accounts
  rw [weight_replyIf hkey]
  unfold doConnectCandidates
  unfold refuses at h
  split
  · simp only [isSome_some, if_true]
  · rename_i htime
    split
    · rename_i hfound
      rw [hfound] at hattempt
      exact congrArg (· + _) hattempt
    · rename_i hfound
      rw [hfound] at hattempt
      exact congrArg (· + _) hattempt
    · rename_i hfound
      rw [hfound] at h hattempt
      have hsilent : waiting.isSilent = true := by
        have hintime : deadlineMs.any (net.now ≥ ·) = false := Bool.eq_false_iff.mpr htime
        rw [hintime] at h
        simpa using h
      have hnone := ind_of_silent hkey hsilent
      simp only [isSome_some, if_true]
      rw [weight_close hkey, hattempt, hnone]
    · rename_i hfound
      rw [hfound] at hattempt
      split
      · rw [weight_spawn, hattempt]
        rfl
      · exact hattempt

theorem weight_connectError (key : Pending) {socket : Socket} {r : Option String}
    (h : connectError socket net = (r, net')) :
    weight key net' = weight key net ∧ net'.sockets = net.sockets := by
  unfold connectError at h
  split at h
  · exact weight_call h
  · cases h
    exact ⟨rfl, rfl⟩

theorem weight_connectOutcome (key : Pending) {socket : Socket} {r : Option (List SocketAddr × Option ℕ × String)}
    (hget : net.sockets.get socket.id = some socket) (h : connectOutcome socket net = (r, net')) :
    weight key net' + socket.pending.elim 0 (ind key) = weight key net := by
  unfold connectOutcome at h
  split at h
  · rename_i net₁ herror
    cases h
    have hexchange := weight_exchange key net₁ Socket.connectOver
      ((weight_connectError key herror).2 ▸ hget)
    rw [(weight_connectError key herror).1] at hexchange
    unfold held Socket.connectOver at hexchange
    simp only [elim_none] at hexchange
    unfold Socket.connectOver
    omega
  · rename_i net₁ herror
    have hexchange := weight_exchange key net₁
      (fun s => { s.connectOver with state := .connected })
      ((weight_connectError key herror).2 ▸ hget)
    rw [(weight_connectError key herror).1] at hexchange
    have happly := weight_apply key
      (net₁.modify socket.id fun s => { s.connectOver with state := .connected }) socket.id
    unfold held Socket.connectOver at hexchange
    simp only [elim_none] at hexchange
    unfold Socket.connectOver at happly h
    split at h
    all_goals
      rename_i happlied
      cases h
      rw [happlied] at happly
      dsimp only at happly
      omega

/-- A failed connect whose next address gets a socket that cannot be registered. -/
def fallbackRefused (id : SocketId) (net : Server) : Bool :=
  match net.sockets.get id with
  | none => false
  | some socket =>
    match connectOutcome socket net, socket.pending with
    | (some (fallbacks, deadlineMs, _), net), some waiting =>
      !fallbacks.isEmpty && refuses fallbacks waiting deadlineMs (close id .silent net)
    | _, _ => false

/-- **The end of a connect** answers its command or passes it to the next socket. -/
theorem weight_finishConnect (hkey : key.session ≠ 0) (h : fallbackRefused id net = false) :
    weight key (finishConnect id net) = weight key net := by
  unfold fallbackRefused at h
  unfold finishConnect
  split
  · rfl
  · rename_i socket hget
    obtain rfl : socket.id = id := (get_eq_some hget).2
    simp only [hget] at h
    split
    · rename_i hdone
      rw [weight_replyTo _ hkey]
      exact weight_connectOutcome key hget hdone
    · rename_i fallbacks deadlineMs reason net₁ hfailed
      have hout := weight_connectOutcome key hget hfailed
      split
      · rename_i hnone
        rw [hnone] at hout
        rw [weight_close hkey]
        exact hout
      · rename_i waiting hwaits
        rw [hwaits, elim_some] at hout
        simp only [hfailed, hwaits] at h
        split
        · rw [weight_reply _ hkey, weight_close hkey]
          exact hout
        · rename_i hmore
          have hnot : refuses fallbacks waiting deadlineMs (close socket.id .silent net₁) = false := by
            simpa [hmore] using h
          have haccounts := accounts_doConnectCandidates hkey hnot
          unfold Accounts at haccounts
          rw [weight_close hkey] at haccounts
          exact haccounts.trans hout

theorem weight_connectTimeoutElapsed (hkey : key.session ≠ 0) (id : SocketId) (net : Server) :
    weight key (connectTimeoutElapsed id net) = weight key net := by
  unfold connectTimeoutElapsed
  split
  · rfl
  · rename_i socket hget
    split
    · rfl
    · have hexchange := weight_exchange key net (fun s => { s with pending := none }) hget
      rw [weight_replyTo _ hkey, weight_close hkey]
      unfold held at hexchange
      simp only [elim_none] at hexchange
      omega

end Rskynet.Net
