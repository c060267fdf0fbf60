import Rskynet.Http.Release

/-!
# Guards of the HTTP client

A cell of the service has one live guard at a time; a second borrow stops the service. Every handler
is followed through its helpers with the set of live guards.

* `calm_cancel`, … — **PROVED**: handlers that never take a second guard;
* `recycle_run` — **PROVED**: `recycle` stops at the assertion exactly at the hazard.
-/

namespace Rskynet.Http

open Cells Interleave

variable {U : Ureq}
variable {c : Client U} {m : Handler U Unit}

def free : Cell → Bool := fun _ => false

def configHeld : Cell → Bool := Function.update free .config true

/-! ### Handlers without a second guard -/

theorem calm_withState {α : Type} (f : State U → α × State U) : Calm free (withState f) :=
  calm_within rfl

theorem calm_updateState (f : State U → State U) : Calm free (updateState f) :=
  calm_withState _

theorem calm_readConfig {α : Type} (f : HttpClientConfig → α) :
    Calm free (readConfig f : Handler U α) := calm_within rfl

variable (asked : Asked) (rounds id : ℕ) (transport : TransportId) (pending : Pending)
  (chunk : Bytes)

theorem calm_reply (answer : Answer U) :
    Calm free (reply asked pending answer) := calm_change _

theorem calm_replyTo (waiting : Option Pending) (answer : Answer U) :
    Calm free (replyTo asked waiting answer) := by
  cases waiting with
  | none => exact calm_pure ()
  | some pending => exact calm_reply asked pending answer

theorem calm_replyWith (answer : Option (Answer U)) :
    Calm free (replyWith asked pending answer) := by
  cases answer with
  | none => exact calm_pure ()
  | some answer => exact calm_reply asked pending answer

theorem calm_sendWait (data : Bytes) (task : Task U) :
    Calm free (sendWait transport data task) :=
  (calm_change _).bind fun _ => calm_change _

theorem calm_wakeQueued : Calm free (wakeQueued : Handler U Unit) := by
  apply Calm.bind
  · apply Calm.guarded rfl
    apply (calm_change _).bind
    intro _
    apply (calm_look _).bind
    intro asks
    apply (calm_onlyIf (calm_within rfl)).bind
    intro _
    exact calm_effect _
  · intro job
    split
    · exact calm_pure ()
    · exact calm_change _

theorem calm_forgetTransport :
    Calm free (forgetTransport transport : Handler U Unit) := calm_updateState _

theorem calm_discard :
    Calm free (do shutdown transport; forgetTransport transport; wakeQueued : Handler U Unit) := by
  apply (calm_change _).bind
  intro _
  apply (calm_forgetTransport transport).bind
  intro _
  exact calm_wakeQueued

theorem calm_cancel : Calm free (cancel id : Handler U Unit) := by
  apply (calm_withState _).bind
  intro taken
  split
  · exact calm_pure ()
  · apply (calm_change _).bind
    intro _
    apply (calm_forgetTransport _).bind
    intro _
    apply (calm_replyTo _ _ _).bind
    intro _
    apply (calm_replyTo _ _ _).bind
    intro _
    apply (calm_replyTo _ _ _).bind
    intro _
    exact calm_wakeQueued

theorem calm_failStart (start : Start U) (e : HttpError) : Calm free (failStart start e) :=
  (calm_reply _ _ _).bind fun _ => calm_wakeQueued

theorem calm_startSent (token : ℕ) (pending : Pending) (sent : Except HttpError Unit) :
    Calm free (startSent id token pending sent : Handler U Unit) := by
  unfold startSent
  split
  · exact (calm_cancel id).bind fun _ => calm_reply _ _ _
  · apply (calm_look _).bind
    intro alive
    split
    · apply (calm_withState _).bind
      intro awaits
      refine Calm.bind (calm_onlyIf ?_) fun _ => calm_reply _ _ _
      exact (calm_readConfig _).bind fun _ => calm_change _
    · exact calm_cancel id

theorem calm_cancelStart (token : ℕ) : Calm free (cancelStart token : Handler U Unit) := by
  apply (calm_withState _).bind
  intro id
  split
  · exact calm_cancel _
  · exact calm_wakeQueued

theorem calm_writeRequest :
    Calm free (writeRequest id chunk : Handler U _) := by
  unfold writeRequest
  split
  · exact calm_pure _
  · apply (calm_readConfig _).bind
    intro limit
    split
    · exact calm_pure _
    · exact calm_withState _

theorem calm_pauseTransport (pause : Option TransportId) :
    Calm free (pauseTransport id pause : Handler U Unit) := by
  unfold pauseTransport
  split
  · exact calm_pure ()
  · exact calm_change _

theorem calm_writeAndReply
    (pause : Option TransportId) : Calm free (writeAndReply id pending chunk pause : Handler U Unit) := by
  apply (calm_writeRequest id chunk).bind
  intro encoded
  split
  · exact calm_sendWait _ _ _
  · exact (calm_reply _ _ _).bind fun _ => calm_pauseTransport id pause

theorem calm_deferContinueWrite :
    Calm free (deferContinueWrite id pending chunk : Handler U Bool) := by
  unfold deferContinueWrite
  split
  · exact calm_pure true
  · apply (calm_withState _).bind
    rintro ⟨goes, refused⟩
    exact (calm_replyWith _ _ _).bind fun _ => calm_pure goes

theorem calm_writeCommand :
    Calm free (writeCommand id pending chunk : Handler U Unit) :=
  (calm_deferContinueWrite id pending chunk).bind fun _ =>
    calm_onlyIf (calm_writeAndReply id pending chunk none)

theorem calm_finishRequest :
    Calm free (finishRequest id pending : Handler U Unit) := by
  apply (calm_withState _).bind
  intro encoded
  split
  · exact calm_sendWait _ _ _
  · exact calm_reply _ _ _

theorem calm_driveInput : Calm free (driveInput rounds id : Handler U Unit) := by
  apply Calm.bind
  · apply Calm.guarded rfl
    apply (calm_look _).bind
    intro found
    split
    · exact calm_pure none
    · apply Calm.bind (calm_within rfl)
      intro config
      split
      · exact calm_unfinished
      · exact (calm_change _).bind fun _ => calm_pure _
  · intro driven
    split
    · exact calm_pure ()
    · apply (calm_change _).bind
      intro _
      split
      · exact calm_writeAndReply _ _ _ _
      · exact calm_pauseTransport _ _

theorem calm_onData (data : Bytes) :
    Calm free (onData rounds transport data : Handler U Unit) := by
  apply (calm_withState _).bind
  intro id
  split
  · exact (calm_change _).bind fun _ => calm_forgetTransport transport
  · exact (calm_updateState _).bind fun _ => calm_driveInput rounds _

theorem calm_onClosed (error : Option String) :
    Calm free (onClosed rounds transport error : Handler U Unit) := by
  apply (calm_withState _).bind
  intro id
  apply (calm_forgetTransport transport).bind
  intro _
  split
  · exact calm_wakeQueued
  · apply (calm_withState _).bind
    intro delimited
    split
    · exact (calm_updateState _).bind fun _ => calm_driveInput rounds _
    · exact calm_cancel _

theorem calm_waitResponse :
    Calm free (waitResponse id pending : Handler U Unit) := by
  apply (calm_withState _).bind
  intro answer
  split
  · exact calm_reply _ _ _
  · exact (calm_readConfig _).bind fun _ => calm_change _

theorem calm_continueTimeout :
    Calm free (continueTimeout rounds id : Handler U Unit) := by
  apply (calm_withState _).bind
  rintro ⟨job, rejected, transition⟩
  apply (calm_replyTo _ _ _).bind
  intro _
  split
  · exact calm_writeAndReply _ _ _ _
  · exact calm_onlyIf (calm_driveInput rounds id)

theorem calm_waitTimeout (session : ℕ) (body : Bool) :
    Calm free (waitTimeout id session body : Handler U Unit) := by
  apply (calm_withState _).bind
  intro waiting
  split
  · exact calm_pure ()
  · exact (calm_reply _ _ _).bind fun _ => calm_cancel id

theorem calm_idleTimeout (generation : ℕ) :
    Calm free (idleTimeout transport generation : Handler U Unit) := by
  apply (calm_withState _).bind
  intro current
  apply calm_onlyIf
  apply (calm_withState _).bind
  intro removed
  apply calm_onlyIf
  apply (calm_updateState _).bind
  intro _
  exact calm_discard transport

/-! ### `wake_queued` under a guard of the configuration -/

/-- The search of `wake_queued`, once dead starts have left the queue, asks for a capacity. -/
def Client.asks (c : Client U) : Bool :=
  State.asksConfig
    { c.state with pendingStarts := c.state.pendingStarts.filter fun start => c.alive start.token }

theorem wakeQueued_held (h : c.asks = true) :
    wakeQueued ⟨configHeld, c⟩ = .error (.lease .config) := by
  apply bind_of_error
  apply guarded_free_error
  · rfl
  · refine (bind_of_ok rfl).trans ((bind_of_ok rfl).trans (bind_of_error ?_))
    exact (onlyIf_of_true h).trans (within_held _ rfl)

theorem wakeQueued_calm (h : c.asks = false) : CalmAt configHeld c wakeQueued := by
  refine CalmAt.bind ?_ fun job => ?_
  · apply CalmAt.guarded rfl
    exact .after rfl (.after rfl (.after (onlyIf_of_false h) (calm_effect _ _)))
  · split
    · exact calm_pure ()
    · exact calm_change _

/-! ### The two hazards -/

/-- `recycle` finds an idle limit reached, and `wake_queued` then asks for a capacity. -/
def recycleHazard (c : Client U) (transport : TransportId) (origin : Origin) : Bool :=
  c.state.idleFull c.config origin
    && Client.asks { c with state := (c.state.setActive transport none).forget transport }

/-- `start_exchange` cannot serialize the head, and `wake_queued` then asks for a capacity. -/
def headHazard (c : Client U) (start : Start U) (call : U.SendRequest) (transport : TransportId) :
    Bool :=
  c.alive start.token && !(serializeRequest call c.config.maxHeaderSize).isOk
    && Client.asks { c with state := c.state.forget transport }

theorem release_config (c : Client U) :
    (release .config : Handler U Unit) ⟨configHeld, c⟩ = .ok ((), ⟨free, c⟩) := by
  show Except.ok ((), World.mk (Function.update configHeld .config false) c) = _
  unfold configHeld
  rw [Function.update_idem, show (false : Bool) = free .config from rfl, Function.update_eq_self]

theorem wakeThenRelease_run (c : Client U) :
    if c.asks then
      (do wakeQueued; release .config : Handler U Unit) ⟨configHeld, c⟩ = .error (.lease .config)
    else (do wakeQueued; release .config : Handler U Unit) ⟨configHeld, c⟩ = .error .unfinished
      ∨ ∃ c', (do wakeQueued; release .config : Handler U Unit) ⟨configHeld, c⟩
        = .ok ((), ⟨free, c'⟩) := by
  cases hasks : c.asks with
  | true => exact bind_of_error (wakeQueued_held hasks)
  | false =>
    rcases wakeQueued_calm hasks with hmore | ⟨_, c', hrun⟩
    · exact .inl (bind_of_error hmore)
    · exact .inr ⟨c', (bind_of_ok hrun).trans (release_config c')⟩

/-- The handler stops at the assertion of the configuration when `b` holds, and takes no second
guard otherwise. -/
def StopsIf (b : Bool) (c : Client U) (m : Handler U Unit) : Prop :=
  if b then m ⟨free, c⟩ = .error (.lease .config) else CalmAt free c m

theorem stopsIf_calm (h : CalmAt free c m) :
    StopsIf false c m := h

theorem StopsIf.after {α : Type} {m : Handler U α} {f : α → Handler U Unit} {b : Bool} {a : α}
    {c' : Client U} (hm : m ⟨free, c⟩ = .ok (a, ⟨free, c'⟩)) (hf : StopsIf b c' (f a)) :
    StopsIf b c (m >>= f) := by
  unfold StopsIf CalmAt at hf ⊢
  rw [bind_of_ok hm]
  exact hf

theorem StopsIf.bind {f : Unit → Handler U Unit} {b : Bool} (hm : StopsIf b c m)
    (hf : ∀ a, Calm free (f a)) : StopsIf b c (m >>= f) := by
  cases b with
  | true => exact bind_of_error hm
  | false => exact CalmAt.bind hm hf

theorem run_of_wakeThenRelease {c' : Client U}
    (h : m ⟨free, c⟩ = (do wakeQueued; release .config : Handler U Unit) ⟨configHeld, c'⟩) :
    StopsIf c'.asks c m := by
  have hrun := wakeThenRelease_run c'
  unfold StopsIf CalmAt
  rw [h]
  split at hrun
  · rename_i hasks
    rw [if_pos hasks]
    exact hrun
  · rename_i hasks
    rw [if_neg hasks]
    rcases hrun with hmore | ⟨c'', hok⟩
    · exact .inl hmore
    · exact .inr ⟨(), c'', hok⟩

def bothHeld : Cell → Bool := Function.update (Function.update free .state true) .config true

theorem release_state_of_both (c : Client U) :
    (release .state : Handler U Unit) ⟨bothHeld, c⟩ = .ok ((), ⟨configHeld, c⟩) := by
  have hheld : Function.update bothHeld .state false = configHeld := by
    funext cell
    cases cell <;> rfl
  show Except.ok ((), World.mk (Function.update bothHeld .state false) c) = _
  rw [hheld]

theorem release_both (c : Client U) (rest : Handler U Unit) :
    (do release .config; release .state; rest : Handler U Unit) ⟨bothHeld, c⟩ = rest ⟨free, c⟩ := by
  have hheld : Function.update (Function.update bothHeld .config false) .state false = free := by
    funext cell
    cases cell <;> rfl
  refine (bind_of_ok rfl).trans ((bind_of_ok rfl).trans ?_)
  rw [hheld]

theorem recycle_run (c : Client U) (transport : TransportId) (origin : Origin) (reusable : Bool) :
    StopsIf (reusable && recycleHazard c transport origin) c
      (recycle transport origin reusable) := by
  cases reusable with
  | false => exact ((calm_updateState _).bind fun _ => calm_discard transport) c
  | true =>
    have hactive : updateState (fun s => s.setActive transport none) ⟨free, c⟩
        = .ok ((), ⟨free, c.setState (c.state.setActive transport none)⟩) := within_free _ rfl
    -- both guards are live when the limits are compared
    have hboth : ∀ rest : Bool → Handler U Unit, (do
        updateState fun s => s.setActive transport none
        acquire .state
        acquire .config
        let full ← look fun c => c.state.idleFull c.config origin
        rest full) ⟨free, c⟩ = rest (c.state.idleFull c.config origin)
          ⟨bothHeld, c.setState (c.state.setActive transport none)⟩ := by
      intro rest
      refine (bind_of_ok hactive).trans ((bind_of_ok (acquire_free rfl)).trans ?_)
      exact (bind_of_ok (acquire_free rfl)).trans (bind_of_ok rfl)
    cases hfull : c.state.idleFull c.config origin with
    | true =>
      have hrun : recycle transport origin true ⟨free, c⟩
          = (do wakeQueued; release .config : Handler U Unit) ⟨configHeld, { c with
              state := (c.state.setActive transport none).forget transport
              shutdowns := transport :: c.shutdowns }⟩ := by
        refine (hboth _).trans ?_
        rw [hfull, if_pos rfl]
        refine (bind_of_ok (release_state_of_both _)).trans ((bind_of_ok rfl).trans ?_)
        exact bind_of_ok (within_free _ rfl)
      have hstop := run_of_wakeThenRelease hrun
      simp only [recycleHazard, hfull, Bool.true_and]
      exact hstop
    | false =>
      have hrun : recycle transport origin true ⟨free, c⟩
          = (do arm (.idleTimeout transport ((c.state.setActive transport none).pool transport
                  origin).nextIdleGeneration); wakeQueued : Handler U Unit)
              ⟨free, c.setState ((c.state.setActive transport none).pool transport origin)⟩ := by
        refine (hboth _).trans ?_
        rw [hfull, if_neg nofun]
        refine (bind_of_ok rfl).trans ((bind_of_ok rfl).trans ?_)
        exact release_both _ _
      simp only [recycleHazard, hfull, Bool.true_and, Bool.false_and]
      apply stopsIf_calm
      unfold CalmAt
      rw [hrun]
      exact ((calm_change _).bind fun _ => calm_wakeQueued) _

end Rskynet.Http
