import Rskynet.Http.Keeps

/-!
# Connections of the HTTP client

The client knows a connection from its connect to its end, pools it while it is idle and limits how
many there are. A step changes the connections, the queue of starts and the exchanges in a few ways.
-/

namespace Rskynet.Http

open Cells Relation

variable {U : Ureq} {α : Type}

/-! ### The pools -/

/-- The tables without the start tokens and the timers of idle connections. -/
def State.bare (s : State U) : State U :=
  { s with startTokens := fun _ => none, idleGeneration := fun _ => none, nextIdleGeneration := 0 }

/-- The configuration, the live callers, the tables, the suspended tasks and the messages that the
service has sent to itself. -/
structure Pools (U : Ureq) where
  config : HttpClientConfig
  alive : ℕ → Bool
  state : State U
  tasks : List (Task U)
  sent : List (Command U)

def Client.pools (c : Client U) : Pools U := ⟨c.config, c.alive, c.state.bare, c.tasks, c.sent⟩

namespace Pools

def update (p : Pools U) (f : State U → State U) : Pools U := { p with state := (f p.state).bare }

def forget (p : Pools U) (transport : TransportId) : Pools U := p.update fun s => s.forget transport

def setExchange (p : Pools U) (id : ℕ) (e : Option (Exchange U)) : Pools U :=
  p.update fun s => s.setExchange id e

def suspend (p : Pools U) (task : Task U) : Pools U := { p with tasks := p.tasks ++ [task] }

def erase (p : Pools U) (i : ℕ) : Pools U := { p with tasks := p.tasks.eraseIdx i }

def unconnect (p : Pools U) (origin : Origin) : Pools U :=
  p.update fun s => { s with connecting := s.connecting.erase origin }

def know (p : Pools U) (transport : TransportId) (origin : Origin) : Pools U :=
  p.update fun s => { s with origins := (transport, origin) :: s.origins.filter (·.1 ≠ transport) }

def popIdle (p : Pools U) (origin : Origin) : Pools U := p.update fun s => (s.popIdle origin).2

def insertExchange (p : Pools U) (token : ℕ) (transport : TransportId) (origin : Origin)
    (proto : Proto U) (spec : BodySpec) : Pools U :=
  p.update fun s => (s.insertExchange token transport origin proto spec).2

def living (p : Pools U) : Pools U :=
  p.update fun s => { s with pendingStarts := s.pendingStarts.filter fun start => p.alive start.token }

def resume (p : Pools U) : Option (Start U) → Pools U
  | none => p
  | some start => { p with sent := .resumeStart start :: p.sent }

def wake (p : Pools U) : Pools U :=
  (p.living.update fun s => (s.popEligible p.config).2).resume
    (p.living.state.popEligible p.config).1

def cancel (p : Pools U) (id : ℕ) : Pools U :=
  match p.state.exchanges id with
  | none => p
  | some e => ((p.update fun s => s.drop id).forget e.transport).wake

def recycle (p : Pools U) (transport : TransportId) (origin : Origin) (reusable : Bool) : Pools U :=
  let p := p.update fun s => s.setActive transport none
  if reusable = true ∧ p.state.idleFull p.config origin = false then
    (p.update fun s => s.pool transport origin).wake
  else (p.forget transport).wake

def release (p : Pools U) (id : ℕ) (transport : TransportId) (origin : Origin) (reusable : Bool) :
    Pools U :=
  (p.recycle transport origin reusable).setExchange id none

end Pools

/-! ### The ways the pools change -/

def Task.isPlain : Task U → Bool
  | .connecting .. => false
  | .resuming _ _ _ _ (some _) => false
  | _ => true

def Action.start? : Action U → Option (Start U)
  | .command pending (.start token request) => some ⟨token, pending, request⟩
  | .command _ (.resumeStart start) => some start
  | _ => none

/-- The connection that an action makes the service forget without waking a queued start: bytes for a
connection that is not active, or the end of a connection that ends a body or whose exchange is
gone. -/
def Pools.forgets (c : Pools U) : Action U → Option TransportId
  | .data transport _ => if c.state.active transport = none then some transport else none
  | .closed transport error => (c.state.active transport).bind fun id =>
    match c.state.exchanges id with
    | none => some transport
    | some e => if endsWithClose e = true ∧ error = none then some transport else none
  | _ => none

/-- **The ways a step changes the pools**; those that do not start anywhere start where the step
does. -/
inductive Shift (action : Action U) (c : Pools U) : Pools U → Pools U → Prop where
  | touched (p : Pools U) (id : ℕ) (e e' : Exchange U) (he : p.state.exchanges id = some e)
      (h : Keeps e e') : Shift action c p (p.setExchange id (some e'))
  | suspended (p : Pools U) (task : Task U) (h : task.isPlain = true) :
      Shift action c p (p.suspend task)
  | woken (i : ℕ) (task : Task U) (htask : c.tasks[i]? = some task) (h : task.isPlain = true) :
      Shift action c c (c.erase i)
  | left (token : ℕ) : Shift action c c { c with alive := Function.update c.alive token false }
  | unqueued (token : ℕ) : Shift action c c (c.update fun s =>
      { s with pendingStarts := s.pendingStarts.filter (·.token ≠ token) })
  | woke (p : Pools U) : Shift action c p p.wake
  | queued (start : Start U) (origin : Origin) (haction : action.start? = some start)
      (horigin : Origin.fromUri start.request.uri = .ok origin)
      (hidle : c.state.hasIdle origin = false) (hroom : c.state.hasRoom c.config origin = false) :
      Shift action c c (c.update fun s => { s with pendingStarts := s.pendingStarts ++ [start] })
  | connecting (start : Start U) (origin : Origin) (call : U.SendRequest)
      (haction : action.start? = some start)
      (horigin : Origin.fromUri start.request.uri = .ok origin)
      (hidle : c.state.hasIdle origin = false) (hroom : c.state.hasRoom c.config origin = true) :
      Shift action c c ((c.update fun s => { s with connecting := origin :: s.connecting }).suspend
        (.connecting start origin call))
  | refused (i : ℕ) (start : Start U) (origin : Origin) (call : U.SendRequest)
      (htask : c.tasks[i]? = some (.connecting start origin call)) :
      Shift action c c ((c.erase i).unconnect origin).wake
  | made (i : ℕ) (start : Start U) (origin : Origin) (call : U.SendRequest)
      (transport : TransportId) (proto : Proto U)
      (haction : action = .wake i (.connected (.ok transport)))
      (htask : c.tasks[i]? = some (.connecting start origin call)) (hproto : proto ≠ .done) :
      Shift action c c ((((c.erase i).unconnect origin).know transport origin).insertExchange
        start.token transport origin proto start.request.spec)
  | dropped (i : ℕ) (start : Start U) (origin : Origin) (call : U.SendRequest)
      (transport : TransportId) (haction : action = .wake i (.connected (.ok transport)))
      (htask : c.tasks[i]? = some (.connecting start origin call)) :
      Shift action c c ((((c.erase i).unconnect origin).know transport origin).forget transport).wake
  | reused (start : Start U) (origin : Origin) (transport : TransportId) (proto : Proto U)
      (haction : action.start? = some start)
      (horigin : Origin.fromUri start.request.uri = .ok origin)
      (hfound : c.state.idle.find? (·.1 = origin) = some (origin, transport))
      (hproto : proto ≠ .done) :
      Shift action c c ((c.popIdle origin).insertExchange start.token transport origin proto
        start.request.spec)
  | unused (origin : Origin) (transport : TransportId)
      (hfound : c.state.idle.find? (·.1 = origin) = some (origin, transport)) :
      Shift action c c ((c.popIdle origin).forget transport).wake
  | canceled (p : Pools U) (id : ℕ) : Shift action c p (p.cancel id)
  | forgot (transport : TransportId) (h : c.forgets action = some transport) :
      Shift action c c (c.forget transport)
  | cut (transport : TransportId) (error : Option String) (id : ℕ) (e : Exchange U)
      (haction : action = .closed transport error) (hactive : c.state.active transport = some id)
      (he : c.state.exchanges id = some e) :
      Shift action c c ((c.forget transport).cancel id)
  | lapsed (transport : TransportId) : Shift action c c (c.forget transport).wake
  | gave (id : ℕ) (e e' : Exchange U) (reusable : Bool) (he : c.state.exchanges id = some e)
      (hreusable : e.reusable = some reusable) (htransport : e'.transport = e.transport)
      (horigin : e'.origin = e.origin) (hproto : e'.proto = e.proto) (hspent : e'.reusable = none) :
      Shift action c c ((c.setExchange id (some e')).release id e.transport e.origin reusable)
  | returning (id : ℕ) (e e' : Exchange U) (reusable : Bool) (via : Option (TransportId × Origin))
      (pending : Pending) (answer : Option (Answer U)) (he : c.state.exchanges id = some e)
      (hreusable : e.reusable = some reusable) (htransport : e'.transport = e.transport)
      (horigin : e'.origin = e.origin) (hproto : e'.proto = e.proto) (hspent : e'.reusable = none) :
      Shift action c c ((c.setExchange id (some e')).suspend
        (.resuming id via pending answer (some (e.transport, e.origin, reusable))))
  | returned (i id : ℕ) (via : Option (TransportId × Origin)) (pending : Pending)
      (answer : Option (Answer U)) (transport : TransportId) (origin : Origin)
      (reusable resumed : Bool)
      (htask : c.tasks[i]?
        = some (.resuming id via pending answer (some (transport, origin, reusable)))) :
      Shift action c c ((if resumed then c.erase i else (c.erase i).cancel id).release id transport
        origin reusable)

/-! ### Helpers -/

section Handlers

variable {action : Action U} {c : Pools U}

variable (asked : Asked) (transport : TransportId)

theorem still_pools_reply (pending : Pending) (answer : Answer U) :
    Still Client.pools (reply asked pending answer) := by
  apply still_change
  intro c
  unfold Client.reply
  split
  · rfl
  · rfl

theorem still_pools_replyTo (waiting : Option Pending) (answer : Answer U) :
    Still Client.pools (replyTo asked waiting answer) := by
  cases waiting with
  | none => exact still_pure ()
  | some pending => exact still_pools_reply asked pending answer

theorem still_pools_replyWith (pending : Pending) (answer : Option (Answer U)) :
    Still Client.pools (replyWith asked pending answer) := by
  cases answer with
  | none => exact still_pure ()
  | some answer => exact still_pools_reply asked pending answer

theorem still_pools_replyAll (replies : List (Reply U)) :
    Still Client.pools (replyAll replies) := by
  apply still_change
  intro c
  induction replies generalizing c with
  | nil => rfl
  | cons r replies ih =>
    rw [List.foldl_cons, ih]
    unfold Client.reply
    split
    · rfl
    · rfl

theorem still_pools_shutdown :
    Still Client.pools (shutdown transport : Handler U Unit) := still_change fun _ => rfl

theorem still_pools_arm (command : Command U) : Still Client.pools (arm command) :=
  still_change fun _ => rfl

theorem still_pools_readConfig (f : HttpClientConfig → α) :
    Still Client.pools (readConfig f : Handler U α) := still_within fun _ => rfl

theorem acts_pools_updateState {f : State U → State U}
    (hf : ∀ s : State U, (f s).bare = (f s.bare).bare) :
    Acts Client.pools (fun p => p.update f) (updateState f) := by
  apply acts_within
  intro c
  show Pools.mk c.config c.alive (f c.state).bare c.tasks c.sent = _
  rw [hf]
  rfl

theorem acts_pools_forgetTransport :
    Acts Client.pools (fun p => p.forget transport) (forgetTransport transport : Handler U Unit) :=
  acts_pools_updateState fun _ => rfl

theorem acts_pools_suspend (task : Task U) :
    Acts Client.pools (fun p => p.suspend task) (suspend task) := acts_change fun _ => rfl

theorem popEligible_bare (s : State U) (config : HttpClientConfig) :
    (s.bare.popEligible config).1 = (s.popEligible config).1
      ∧ (s.bare.popEligible config).2.bare = (s.popEligible config).2.bare := by
  have hfind : s.bare.pendingStarts.findIdx? (s.bare.eligible config)
      = s.pendingStarts.findIdx? (s.eligible config) := rfl
  unfold State.popEligible
  rw [hfind]
  cases s.pendingStarts.findIdx? (s.eligible config) with
  | none | some => exact ⟨rfl, rfl⟩

theorem pools_wake (c : Client U) : c.wake.pools = c.pools.wake := by
  obtain ⟨hjob, hrest⟩ := popEligible_bare c.living c.config
  have hpopped : (c.setState (c.living.popEligible c.config).2).pools
      = c.pools.living.update fun s => (s.popEligible c.config).2 := by
    show Pools.mk _ _ _ _ _ = Pools.mk _ _ _ _ _
    congr 1
    exact hrest.symm
  unfold Client.wake Pools.wake
  rw [show (c.pools.living.state.popEligible c.pools.config).1 = _ from hjob,
    show c.pools.config = c.config from rfl, ← hpopped]
  cases (c.living.popEligible c.config).1 with
  | none | some => rfl

theorem acts_pools_wakeQueued : Acts Client.pools Pools.wake (wakeQueued : Handler U Unit) :=
  Acts.sees acts_wakeQueued pools_wake

theorem acts_pools_cancel (id : ℕ) :
    Acts Client.pools (fun p => p.cancel id) (cancel id : Handler U Unit) := by
  intro w a w' h
  obtain ⟨taken, w₁, htaken, h⟩ := bind_eq_ok h
  obtain ⟨rfl, hdata⟩ := within_eq_ok htaken
  show w'.data.pools = w.data.pools.cancel id
  unfold Pools.cancel
  rw [show w.data.pools.state.exchanges = w.data.state.exchanges from rfl]
  cases he : w.data.state.exchanges id with
  | none =>
    simp only [Client.onState, he] at h hdata
    cases h
    rw [hdata]
    rfl
  | some e =>
    simp only [Client.onState, he] at h hdata
    have hreplies := (still_pools_replyTo (.response id) e.responseWaiter (.failed .canceled)).acts
      fun _ => (still_pools_replyTo (.next id e.via) e.bodyWaiter (.failed .canceled)).acts
        fun _ => (still_pools_replyTo (.write id) (e.writeWaiter.map Prod.fst)
          (.failed .canceled)).acts fun _ => acts_pools_wakeQueued (U := U)
    have hrest := (still_pools_shutdown e.transport).acts fun _ =>
      (acts_pools_forgetTransport e.transport).bind fun _ => hreplies
    rw [hrest w₁ a w' h, hdata]
    rfl

theorem pools_discard (c : Client U) :
    (c.discard transport).pools = (c.pools.forget transport).wake := pools_wake _

theorem acts_pools_discard :
    Acts Client.pools (fun p => (p.forget transport).wake)
      (do shutdown transport; forgetTransport transport; wakeQueued : Handler U Unit) :=
  Acts.sees (acts_discard transport) (pools_discard transport)

theorem acts_pools_recycle (origin : Origin) (reusable : Bool) :
    Acts Client.pools (fun p => p.recycle transport origin reusable)
      (recycle transport origin reusable : Handler U Unit) := by
  refine Acts.sees (acts_recycle transport origin reusable) fun c => ?_
  unfold Client.recycle Pools.recycle
  dsimp only
  split
  · rename_i hroom
    exact (pools_wake _).trans (if_pos hroom).symm
  · rename_i hfull
    exact (pools_discard transport _).trans (if_neg hfull).symm

end Handlers

end Rskynet.Http
