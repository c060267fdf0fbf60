import Rskynet.Http.Guards

/-!
# Lease assertions of the HTTP client

* `nextBody_run`, … — **PROVED**: the handlers that can reach a hazard stop at the assertion exactly
  there;
* `leases_kept_iff` — **PROVED**: a run of the service stops at a lease assertion exactly when one of
  its steps is a hazard.
-/

namespace Rskynet.Http

open Cells Interleave Option

variable {U : Ureq}

/-! ### Handlers that can reach a hazard -/

def cleanupHazard (c : Client U) : Option (TransportId × Origin × Bool) → Bool
  | none => false
  | some (transport, origin, reusable) => reusable && recycleHazard c transport origin

variable (c : Client U) (start : Start U) (origin : Origin) (call : U.SendRequest)

theorem recycleHazard_reply (r : Reply U) (transport : TransportId)
    (origin : Origin) : recycleHazard (c.reply r) transport origin
      = recycleHazard c transport origin := by
  unfold Client.reply
  split <;> rfl

theorem nextTaken_run (id : ℕ) (via : Option (TransportId × Origin))
    (pending : Pending) (answer : Option (Answer U))
    (cleanup : Option (TransportId × Origin × Bool)) :
    StopsIf (cleanupHazard c cleanup) c (nextTaken id via pending answer cleanup) := by
  have hreply : ∃ c', (replyWith (.next id via) pending answer : Handler U Unit) ⟨free, c⟩
      = .ok ((), ⟨free, c'⟩) ∧ cleanupHazard c' cleanup = cleanupHazard c cleanup := by
    cases answer with
    | none => exact ⟨c, rfl, rfl⟩
    | some answer =>
      refine ⟨c.reply ⟨.next id via, pending, answer⟩, rfl, ?_⟩
      match cleanup with
      | none => rfl
      | some (transport, origin, reusable) =>
        show (reusable && recycleHazard (c.reply _) transport origin) = _
        rw [recycleHazard_reply]
        rfl
  obtain ⟨c', hreply, hsame⟩ := hreply
  apply StopsIf.after hreply
  rw [← hsame]
  match cleanup with
  | none => exact stopsIf_calm (((calm_readConfig _).bind fun _ => calm_change _) c')
  | some (transport, origin, reusable) =>
    exact (recycle_run c' transport origin reusable).bind fun _ => calm_updateState _

def nextHazard (c : Client U) (id : ℕ) (pending : Pending) : Bool :=
  match c.state.exchanges id with
  | none => false
  | some e => !(e.next c.config pending).resume
    && cleanupHazard c (e.next c.config pending).cleanup

theorem takeNext_run (id : ℕ) (pending : Pending) :
    (guarded .state (do
      let found ← look fun c => c.state.exchanges id
      match found with
      | none => pure none
      | some e =>
        onlyIf e.paused (readConfig fun _ => ())
        effect fun c =>
          let taken := e.next c.config pending
          (some taken, c.setState (c.state.setExchange id (some taken.exchange)))) :
        Handler U (Option (Taken U))) ⟨free, c⟩
      = match c.state.exchanges id with
        | none => .ok (none, ⟨free, c⟩)
        | some e => .ok (some (e.next c.config pending),
            ⟨free, c.setState (c.state.setExchange id (some (e.next c.config pending).exchange))⟩) := by
  cases he : c.state.exchanges id with
  | none =>
    apply guarded_free rfl
    refine (bind_of_ok rfl).trans ?_
    simp only [he]
    rfl
  | some e =>
    apply guarded_free rfl
    refine (bind_of_ok rfl).trans ?_
    simp only [he]
    cases hpaused : e.paused with
    | true => exact (bind_of_ok ((onlyIf_of_true rfl).trans (within_free _ rfl))).trans rfl
    | false => exact (bind_of_ok (onlyIf_of_false rfl)).trans rfl

theorem nextBody_run (id : ℕ) (pending : Pending) :
    StopsIf (nextHazard c id pending) c (nextBody id pending) := by
  have htake := takeNext_run c id pending
  unfold nextHazard
  cases he : c.state.exchanges id with
  | none =>
    simp only [he] at htake
    exact StopsIf.after htake (stopsIf_calm (calm_reply _ _ _ c))
  | some e =>
    simp only [he] at htake
    refine StopsIf.after htake ?_
    dsimp only
    cases hresume : (e.next c.config pending).resume with
    | true =>
      rw [if_pos rfl]
      exact stopsIf_calm (calm_change _ _)
    | false =>
      exact nextTaken_run (c.setState (c.state.setExchange id _)) id _ pending _ _

theorem asks_reply (r : Reply U) : (c.reply r).asks = c.asks := by
  unfold Client.reply
  split <;> rfl

/-- **`start_exchange` with a connection** stops at the assertion exactly at the hazard. -/
theorem startConnected_run (transport : TransportId) :
    StopsIf (headHazard c start call transport) c (startConnected start origin call transport) := by
  have hacquire : (acquire .config : Handler U Unit) ⟨free, c⟩ = .ok ((), ⟨configHeld, c⟩) :=
    acquire_free rfl
  unfold headHazard startConnected
  refine StopsIf.after (a := c.alive start.token) rfl ?_
  cases halive : c.alive start.token with
  | false => exact stopsIf_calm (calm_discard transport c)
  | true =>
    rw [if_pos rfl]
    cases hhead : serializeRequest call c.config.maxHeaderSize with
    | error e =>
      have hasks : Client.asks (Client.reply { c with
            state := c.state.forget transport
            shutdowns := transport :: c.shutdowns }
              ⟨.start start.token, start.pending, .failed e⟩)
          = (true && !(Except.error e : Except HttpError (Bytes × Proto U)).isOk
            && Client.asks { c with state := c.state.forget transport }) :=
        (asks_reply _ _).trans rfl
      rw [← hasks]
      apply run_of_wakeThenRelease
      refine (bind_of_ok hacquire).trans ((bind_of_ok rfl).trans ?_)
      simp only [hhead]
      refine (bind_of_ok rfl).trans ((bind_of_ok (within_free _ rfl)).trans ?_)
      exact bind_of_ok rfl
    | ok head =>
      apply stopsIf_calm
      unfold CalmAt
      rw [bind_of_ok hacquire, bind_of_ok (show (look _ : Handler U _) _ = _ from rfl)]
      simp only [hhead]
      rw [bind_of_ok (release_config c)]
      exact ((calm_withState _).bind fun _ => calm_sendWait _ _ _) c

def acquireHazard (c : Client U) (start : Start U) (origin : Origin) (call : U.SendRequest) : Bool :=
  match c.state.popIdle origin with
  | (none, _) => false
  | (some transport, s) => headHazard (c.setState s) start call transport

theorem acquireTransport_run :
    StopsIf (acquireHazard c start origin call) c (acquireTransport start origin call) := by
  have hpop : (withState fun s => s.popIdle origin : Handler U _) ⟨free, c⟩
      = .ok ((c.state.popIdle origin).1, ⟨free, c.setState (c.state.popIdle origin).2⟩) :=
    within_free _ rfl
  refine StopsIf.after hpop ?_
  unfold acquireHazard
  cases hcase : c.state.popIdle origin with
  | mk idle s =>
    cases idle with
    | some transport => exact startConnected_run (c.setState s) start origin call transport
    | none =>
      apply stopsIf_calm
      apply Calm.bind (calm_updateState _)
      intro _
      apply (calm_readConfig _).bind
      intro _
      dsimp only
      split
      · exact calm_change _
      · exact (calm_updateState _).bind fun _ => calm_failStart _ _

def startHazard (c : Client U) (start : Start U) : Bool :=
  c.alive start.token && match Origin.fromUri start.request.uri with
    | .error _ => false
    | .ok origin => (c.state.hasIdle origin || c.state.hasRoom c.config origin)
      && match applyBodyHeaders start.request.headers start.request.spec with
        | .error _ => false
        | .ok headers => match U.new start.request.uri headers start.request.parts with
          | .error _ => false
          | .ok call => acquireHazard c start origin call

theorem startExchange_run :
    StopsIf (startHazard c start) c (startExchange start) := by
  unfold startHazard startExchange
  refine StopsIf.after (a := c.alive start.token) rfl ?_
  cases halive : c.alive start.token with
  | false => exact stopsIf_calm (calm_wakeQueued c)
  | true =>
    cases horigin : Origin.fromUri start.request.uri with
    | error e => exact stopsIf_calm (calm_failStart start e c)
    | ok origin =>
      have hqueue : (shouldQueue origin : Handler U Bool) ⟨free, c⟩
          = .ok (!(c.state.hasIdle origin || c.state.hasRoom c.config origin), ⟨free, c⟩) := by
        apply guarded_free rfl
        refine (bind_of_ok rfl).trans ?_
        cases hidle : c.state.hasIdle origin with
        | true =>
          simp only [hidle]
          rfl
        | false =>
          simp only [hidle]
          exact within_free _ rfl
      refine StopsIf.after hqueue ?_
      dsimp only
      cases hcase : c.state.hasIdle origin || c.state.hasRoom c.config origin with
      | false => exact stopsIf_calm (calm_updateState _ c)
      | true =>
        cases applyBodyHeaders start.request.headers start.request.spec with
        | error e => exact stopsIf_calm (calm_failStart start e c)
        | ok headers =>
          dsimp only
          cases U.new start.request.uri headers start.request.parts with
          | error e => exact stopsIf_calm (calm_failStart start _ c)
          | ok call => exact acquireTransport_run c start origin call

def connectedHazard (c : Client U) (start : Start U) (origin : Origin) (call : U.SendRequest) :
    Except HttpError TransportId → Bool
  | .error _ => false
  | .ok transport => headHazard (c.setState { c.state with
      connecting := c.state.connecting.erase origin
      origins := (transport, origin) :: c.state.origins.filter (·.1 ≠ transport) })
        start call transport

theorem startWithConnect_run (connected : Except HttpError TransportId) :
    StopsIf (connectedHazard c start origin call connected) c
      (startWithConnect start origin call connected) := by
  refine StopsIf.after (within_free _ rfl) ?_
  cases connected with
  | error e => exact stopsIf_calm (calm_failStart start e _)
  | ok transport =>
    refine StopsIf.after (within_free _ rfl) ?_
    exact startConnected_run _ start origin call transport

/-! ### Steps -/

/-- The end of `next_body` after a resume, at the hazard; a resume that has failed cancels the
exchange first. -/
def resumedHazard (c : Client U) (id : ℕ) (cleanup : Option (TransportId × Origin × Bool))
    (result : Except HttpError Unit) : Bool :=
  if result.isOk then cleanupHazard c cleanup
  else match (cancel id : Handler U Unit) ⟨free, c⟩ with
    | .ok (_, w) => cleanupHazard w.data cleanup
    | .error _ => false

def Task.hazard (c : Client U) : Task U → Completion → Bool
  | .connecting start origin call, .connected result => connectedHazard c start origin call result
  | .resuming id _ _ _ cleanup, .finished result => resumedHazard c id cleanup result
  | _, _ => false

/-- **The hazard.**  The step comes to `wake_queued` with a live guard of the configuration, and the
first queued start with a valid origin has no idle connection, so that its capacity is asked for. -/
def hazard (c : Client U) : Action U → Bool
  | .command pending (.start token request) => startHazard c ⟨token, pending, request⟩
  | .command _ (.resumeStart start) => startHazard c start
  | .command pending (.next id) => nextHazard c id pending
  | .wake i completion =>
    (c.tasks[i]?).any fun task => task.hazard { c with tasks := c.tasks.eraseIdx i } completion
  | _ => false

theorem onCommand_run (rounds : ℕ) (c : Client U) (pending : Pending) (command : Command U) :
    StopsIf (hazard c (.command pending command)) c (onCommand rounds pending command) := by
  cases command with
  | start token request => exact startExchange_run c ⟨token, pending, request⟩
  | resumeStart start => exact startExchange_run c start
  | next id => exact nextBody_run c id pending
  | write id chunk => exact stopsIf_calm (calm_writeCommand id pending chunk c)
  | finish id => exact stopsIf_calm (calm_finishRequest id pending c)
  | response id => exact stopsIf_calm (calm_waitResponse id pending c)
  | cancel id => exact stopsIf_calm (((calm_cancel id).bind fun _ => calm_reply _ _ _) c)
  | cancelStart token => exact stopsIf_calm (calm_cancelStart token c)
  | confirmStart token => exact stopsIf_calm (calm_updateState _ c)
  | continueTimeout id => exact stopsIf_calm (calm_continueTimeout rounds id c)
  | waitTimeout id session body => exact stopsIf_calm (calm_waitTimeout id session body c)
  | idleTimeout transport generation => exact stopsIf_calm (calm_idleTimeout transport generation c)

theorem complete_run {task : Task U} {completion : Completion} {rest : Handler U Unit}
    (h : complete task completion = some rest) (c : Client U) :
    StopsIf (task.hazard c completion) c rest := by
  fun_cases complete task completion with
  | case1 start origin call result =>
    cases h
    exact startWithConnect_run c start origin call result
  | case2 id token pending result =>
    cases h
    exact stopsIf_calm (calm_startSent id token pending result c)
  | case3 id pending pause result =>
    cases h
    exact stopsIf_calm (((calm_reply _ _ _).bind fun _ => calm_pauseTransport id pause) c)
  | case4 id pending result =>
    cases h
    exact stopsIf_calm (calm_reply _ _ _ c)
  | case5 id via pending answer cleanup result =>
    cases h
    show StopsIf (resumedHazard c id cleanup result) c _
    unfold resumedHazard
    cases hok : result.isOk with
    | true =>
      refine StopsIf.after (onlyIf_of_false rfl) ?_
      exact nextTaken_run c id via pending answer cleanup
    | false =>
      rcases calm_cancel (U := U) id c with hmore | ⟨_, c', hcancel⟩
      · rw [hmore]
        exact stopsIf_calm (.inl (bind_of_error ((onlyIf_of_true rfl).trans hmore)))
      · rw [hcancel]
        refine StopsIf.after ((onlyIf_of_true rfl).trans hcancel) ?_
        exact nextTaken_run c' id via pending answer cleanup
  | case6 id result =>
    cases h
    exact stopsIf_calm (calm_onlyIf (calm_cancel id) c)
  | case7 => simp [complete, *] at h

theorem handler_run {rounds : ℕ} {c : Client U} {action : Action U} {m : Handler U Unit}
    (h : handler rounds c action = some m) : StopsIf (hazard c action) c m := by
  cases action with
  | command pending command =>
    cases h
    exact onCommand_run rounds c pending command
  | data transport bytes =>
    cases h
    exact stopsIf_calm (calm_onData rounds transport bytes c)
  | closed transport error =>
    cases h
    exact stopsIf_calm (calm_onClosed rounds transport error c)
  | wake i completion =>
    obtain ⟨task, htask, h⟩ := bind_eq_some_iff.mp h
    obtain ⟨rest, hrest, rfl⟩ := map_eq_some_iff.mp h
    refine StopsIf.after rfl ?_
    have hrun := complete_run hrest { c with tasks := c.tasks.eraseIdx i }
    simp only [hazard, htask, any_some]
    exact hrun
  | giveUp token =>
    cases h
    exact stopsIf_calm (calm_change _ c)

/-- **One step** from free cells stops at a lease assertion exactly at the hazard, and leaves the
cells free. -/
theorem act_panics_iff {turn : Turn U} {s s' : Service U} (hfree : s.world.held = free)
    (h : act turn s = some s') :
    (s'.panicked = none ↔ hazard s.world.data turn.action = false) ∧ s'.world.held = free := by
  have hworld : s.world = ⟨free, s.world.data⟩ := by rw [← hfree]
  obtain ⟨-, m, hm, hcases⟩ := act_cases h
  have hrun := handler_run hm
  rw [hworld] at hcases
  cases hhazard : hazard s.world.data turn.action with
  | true =>
    rw [hhazard] at hrun
    have hstop : m ⟨free, s.world.data⟩ = .error (.lease .config) := hrun
    obtain ⟨w', hok, rfl⟩ | ⟨cell, -, rfl⟩ := hcases
    · rw [hstop] at hok
      cases hok
    · exact ⟨⟨nofun, nofun⟩, rfl⟩
  | false =>
    rw [hhazard] at hrun
    have hcalm : CalmAt free s.world.data m := hrun
    obtain ⟨w', hok, rfl⟩ | ⟨cell, herror, rfl⟩ := hcases
    · refine ⟨⟨fun _ => rfl, fun _ => rfl⟩, ?_⟩
      rcases hcalm with hmore | ⟨a, d, hd⟩
      · rw [hmore] at hok
        cases hok
      · rw [hd] at hok
        cases hok
        rfl
    · rcases hcalm with hmore | ⟨a, d, hd⟩
      · rw [hmore] at herror
        cases herror
      · rw [hd] at herror
        cases herror

/-- **The leases are kept exactly without a hazard.**  A run of the service, from any configuration,
ends without a second borrow of a cell if and only if none of its steps is a hazard. -/
theorem leases_kept_iff (config : HttpClientConfig) (run : List (Turn U)) (s : Service U)
    (hrun : exec act run (initial config) = some s) :
    s.panicked = none
      ↔ along act (fun s turn => hazard s.world.data turn.action = false) run (initial config) := by
  have hgeneral : ∀ (run : List (Turn U)) (s₀ : Service U), s₀.world.held = free →
      s₀.panicked = none → exec act run s₀ = some s →
      (s.panicked = none
        ↔ along act (fun s turn => hazard s.world.data turn.action = false) run s₀) := by
    intro run
    induction run with
    | nil =>
      intro s₀ _ hcalm h
      cases h
      exact ⟨fun _ => trivial, fun _ => hcalm⟩
    | cons turn run ih =>
      intro s₀ hfree hcalm h
      obtain ⟨s₁, hs₁, h⟩ := bind_eq_some_iff.mp h
      obtain ⟨hstep, hfree₁⟩ := act_panics_iff hfree hs₁
      cases hcalm₁ : s₁.panicked with
      | none =>
        rw [ih s₁ hfree₁ hcalm₁ h]
        constructor
        · intro hrest
          refine ⟨hstep.mp hcalm₁, fun u hu => ?_⟩
          rw [mem_def, hs₁] at hu
          exact some.inj hu ▸ hrest
        · intro hall
          exact hall.2 s₁ hs₁
      | some cell =>
        -- a service that has stopped takes no further step
        constructor
        · intro hnone
          cases run with
          | nil =>
            cases h
            rw [hcalm₁] at hnone
            cases hnone
          | cons turn' run =>
            obtain ⟨s₂, hs₂, -⟩ := bind_eq_some_iff.mp h
            rw [(act_cases hs₂).1] at hcalm₁
            cases hcalm₁
        · intro hall
          rw [hstep.mpr hall.1] at hcalm₁
          cases hcalm₁
  exact hgeneral run (initial config) rfl rfl hrun

/-! ### Runs that stop -/

/-- One connection in all, and none idle: a configuration that validation accepts. -/
def narrow : HttpClientConfig :=
  { maxConnections := 1, maxConnectionsPerOrigin := 1
    maxIdleConnections := 0, maxIdleConnectionsPerOrigin := 0 }

def queued : Turn sample := ⟨.command (caller 9) (.start 2 (sampleRequest .plain)), 9⟩

/-- The body of the first exchange ends with a start in the queue; the idle limit is zero. -/
def recycleRun : List (Turn sample) :=
  headTaken ++ [queued, ⟨.data (.plain 1) [0], 9⟩, ⟨.command (caller 3) (.next 1), 9⟩]

/-- The head of the first request cannot be serialized, with a start in the queue. -/
def serializeRun : List (Turn sample) :=
  [⟨.command (caller 1) (.start 1 (sampleRequest .broken)), 9⟩, queued,
   ⟨.wake 0 (.connected (.ok (.plain 1))), 9⟩]

def quietRun : List (Turn sample) :=
  headTaken ++ [⟨.data (.plain 1) [0], 9⟩, ⟨.command (caller 3) (.next 1), 9⟩]

theorem quietRun_end :
    (exec act quietRun (initial narrow)).map (fun s => s.panicked) = some none := by
  decide +kernel

/-- A run at the idle limit without a queue meets the condition and keeps the leases. -/
theorem kept_of_quietRun : ∃ s, exec act quietRun (initial narrow) = some s
    ∧ (s.panicked = none ↔ along act (fun s turn => hazard s.world.data turn.action = false)
      quietRun (initial narrow)) ∧ s.panicked = none := by
  obtain ⟨s, hs, hcalm⟩ := map_eq_some_iff.mp quietRun_end
  exact ⟨s, hs, leases_kept_iff narrow quietRun s hs, hcalm⟩

/-- **Two runs stop at the lease assertion of the configuration**, under a configuration that
validation accepts: `recycle` at the idle limit, and `start_exchange` with a head that cannot be
serialized, each with a start in the queue. -/
theorem second_borrow_of_config :
    narrow.validate.isOk = true
    ∧ (exec act recycleRun (initial narrow)).map (fun s => s.panicked) = some (some .config)
    ∧ (exec act serializeRun (initial narrow)).map (fun s => s.panicked) = some (some .config) := by
  decide +kernel

end Rskynet.Http
