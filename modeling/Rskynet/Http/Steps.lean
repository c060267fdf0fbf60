import Rskynet.Http.Pools

/-!
# The handlers of the HTTP client

Handler by handler, the effect on the exchanges, the answers and the suspended tasks is a sequence
of changes, and that on the connections and the queue is one of the ways in which the pools change.
-/

namespace Rskynet.Http

open Cells Relation

variable {U : Ureq} {α : Type} {k : Causes U} {action : Action U} {c : Pools U}
variable {start : Start U} {call : U.SendRequest} {w w' : World Cell (Client U)}
variable {origin : Origin} {transport : TransportId} {a : Unit} {id : ℕ}

/-! ### Both sides of a handler -/

def Client.both (d : Client U) : View U × Pools U := (d.view, d.pools)

def Joint (k : Causes U) (action : Action U) (c : Pools U) (x y : View U × Pools U) : Prop :=
  ReflTransGen (Change k) x.1 y.1 ∧ ReflTransGen (Shift action c) x.2 y.2

/-- A handler that does nothing else, wherever it runs. -/
abbrev Does (k : Causes U) (action : Action U) (c : Pools U) (m : Handler U α) : Prop :=
  Moves Client.both (Joint k action c) m

theorem Does.joint {m : Handler U α} {b : α} (hm : Does k action c m) (h : m w = .ok (b, w')) :
    Joint k action c w.data.both w'.data.both := by
  have hpath := hm w b w' h
  generalize w'.data.both = y at hpath ⊢
  induction hpath with
  | refl => exact ⟨.refl, .refl⟩
  | tail _ hlast ih => exact ⟨ih.1.trans hlast.1, ih.2.trans hlast.2⟩

theorem does_of {m : Handler U α} (hview : Moves Client.view (Change k) m)
    (hpools : Moves Client.pools (Shift action c) m) : Does k action c m :=
  fun w b w' h => .single ⟨hview w b w' h, hpools w b w' h⟩

theorem does_still {m : Handler U α} (hview : Quiet m) (hpools : Still Client.pools m) :
    Does k action c m := does_of hview.moves hpools.moves

theorem does_readConfig (f : HttpClientConfig → α) : Does k action c (readConfig f : Handler U α) :=
  does_still (quiet_readConfig f) (still_pools_readConfig f)

theorem does_arm (command : Command U) : Does k action c (arm command) :=
  does_still (quiet_arm command) (still_pools_arm command)

theorem does_reply {asked : Asked} (h : asked.isSide = true) (pending : Pending)
    (answer : Answer U) : Does k action c (reply asked pending answer) :=
  does_of (steps_reply h pending answer) (still_pools_reply asked pending answer).moves

theorem does_replyTo {asked : Asked} (h : asked.isSide = true) (waiting : Option Pending)
    (answer : Answer U) : Does k action c (replyTo asked waiting answer) := by
  cases waiting with
  | none => exact moves_pure ()
  | some pending => exact does_reply h pending answer

theorem does_replyWith {asked : Asked} (h : asked.isSide = true) (pending : Pending)
    (answer : Option (Answer U)) : Does k action c (replyWith asked pending answer) := by
  cases answer with
  | none => exact moves_pure ()
  | some answer => exact does_reply h pending answer

theorem does_suspend {task : Task U} (hplain : task.isPlain = true)
    (hreads : task.isResuming = false) : Does k action c (suspend task) :=
  does_of ((acts_suspend task).moves fun v => .single (.suspended v task hreads))
    ((acts_pools_suspend task).moves fun p => .single (.suspended p task hplain))

theorem acts_pools_sendWait (transport : TransportId) (data : Bytes) (task : Task U) :
    Acts Client.pools (fun p => p.suspend task) (sendWait transport data task) := by
  have hwrite : Still Client.pools (change fun c : Client U =>
      { c with written := (transport, data) :: c.written } : Handler U Unit) :=
    still_change fun _ => rfl
  exact hwrite.acts fun _ => acts_pools_suspend task

theorem does_sendWait (transport : TransportId) (data : Bytes) {task : Task U}
    (hplain : task.isPlain = true) (hreads : task.isResuming = false) :
    Does k action c (sendWait transport data task) := by
  apply Moves.bind
  · exact does_still (still_change fun _ => rfl) (still_change fun _ => rfl)
  intro _
  exact does_suspend hplain hreads

theorem does_touch {b : α} {f : Exchange U → α} {g : Exchange U → Exchange U}
    (hg : ∀ e, Touch e (g e)) (herror : ∀ e, (g e).error = e.error) :
    Does k action c (withState fun s => match s.exchanges id with
      | none => (b, s)
      | some e => (f e, s.setExchange id (some (g e)))) := by
  apply moves_within
  intro d
  show ReflTransGen _ d.both (d.setState (match d.state.exchanges id with
    | none => (b, d.state)
    | some e => (f e, d.state.setExchange id (some (g e)))).2).both
  cases he : d.state.exchanges id with
  | none => exact .refl
  | some e =>
    exact .single ⟨.single (.touched d.view id e (g e) he (hg e) (absurd (herror e))),
      .single (.touched d.pools id e (g e) he (hg e).requested.keeps)⟩

theorem does_cancel (h : k.doomed id) : Does k action c (cancel id : Handler U Unit) := by
  refine does_of ((acts_cancel id).moves fun v => ?_)
    ((acts_pools_cancel id).moves fun p => .single (.canceled p id))
  unfold View.cancel
  split
  · exact .refl
  · exact .single (.canceled v id _ (by assumption) h)

theorem does_wakeQueued : Does k action c (wakeQueued : Handler U Unit) :=
  does_of quiet_wakeQueued.moves (acts_pools_wakeQueued.moves fun p => .single (.woke p))

/-! ### Starting an exchange -/

/-- The view changes, and an exchange may appear under the next id. -/
def MayStart (d d' : Client U) : Prop :=
  ∀ k : Causes U, k.starts d.state.freshId → ReflTransGen (Change k) d.view d'.view

theorem MayStart.of_view {d d₁ d' : Client U} (h : MayStart d₁ d') (hview : d₁.view = d.view) :
    MayStart d d' := by
  have hfresh : d₁.state.freshId = d.state.freshId := by
    unfold State.freshId
    rw [show d₁.state.nextId = d.state.nextId from congrArg View.nextId hview]
  intro k hk
  rw [← hview]
  exact h k (hfresh ▸ hk)

theorem failStart_cases {e : HttpError} (h : failStart start e w = .ok (a, w')) :
    MayStart w.data w'.data ∧ w'.data.pools = w.data.pools.wake := by
  refine ⟨fun k _ => ?_, (still_pools_reply _ _ _).acts (fun _ => acts_pools_wakeQueued) w a w' h⟩
  exact (steps_reply rfl _ _).bind (fun _ => quiet_wakeQueued.moves) w a w' h

theorem serializeRequest_pastHead {limit : ℕ} {head : Bytes × Proto U}
    (h : serializeRequest call limit = .ok head) : head.2.pastHead = false := by
  unfold serializeRequest at h
  split at h
  · cases h
  · split at h
    · cases h
    · cases h
    · cases h
      rfl
    · cases h
      rfl
    · cases h
      rfl

/-- **A start with a connection** drops it, or puts an exchange on it. -/
theorem startConnected_cases (h : startConnected start origin call transport w = .ok (a, w')) :
    MayStart w.data w'.data ∧ (w'.data.pools = (w.data.pools.forget transport).wake
    ∨ ∃ proto task, proto ≠ .done ∧ task.isPlain = true ∧ w'.data.pools
      = (w.data.pools.insertExchange start.token transport origin proto start.request.spec).suspend
        task) := by
  obtain ⟨alive, w₁, halive, h⟩ := bind_eq_ok h
  cases halive
  split at h
  · obtain ⟨_, w₂, hacquire, h⟩ := bind_eq_ok h
    have hstill : Still (fun d : Client U => d) (acquire Cell.config) := still_acquire
    have hsame : w₂.data = w.data := hstill _ _ w₂ hacquire
    obtain ⟨head, w₃, hlook, h⟩ := bind_eq_ok h
    cases hlook
    rw [← hsame]
    cases hhead : serializeRequest call w₂.data.config.maxHeaderSize with
    | error e =>
      simp only [hhead] at h
      have hside : (Asked.start start.token).isSide = true := rfl
      have hview : ∀ k, Steps k _ := fun k => (quiet_shutdown (U := U) transport).moves.bind
        fun _ => (quiet_forgetTransport transport).moves.bind fun _ =>
          (steps_reply hside start.pending (.failed e)).bind fun _ =>
            quiet_wakeQueued.moves.bind fun _ => (still_release (c := Cell.config)).moves
      have hpools := (still_pools_shutdown (U := U) transport).acts fun _ =>
        (acts_pools_forgetTransport transport).bind fun _ =>
          (still_pools_reply (.start start.token) start.pending (.failed e)).acts fun _ =>
            acts_pools_wakeQueued.still fun _ => still_release (c := Cell.config)
      exact ⟨fun k _ => hview k w₂ a w' h, .inl (hpools w₂ a w' h)⟩
    | ok head =>
      simp only [hhead] at h
      obtain ⟨_, w₃, hrelease, h⟩ := bind_eq_ok h
      cases hrelease
      obtain ⟨id, w₄, hinsert, h⟩ := bind_eq_ok h
      obtain ⟨-, hdata⟩ := within_eq_ok hinsert
      have hpast := serializeRequest_pastHead hhead
      refine ⟨fun k hk => ?_, .inr ⟨head.2, .sendingHead id start.token start.pending, ?_, rfl, ?_⟩⟩
      · have hinserted : Change k w₂.data.view w₄.data.view := by
          rw [hdata]
          exact .inserted w₂.data.view _ transport origin head.2 start.request.spec hpast hk
        have hsent : Does k (.giveUp 0) w.data.pools (sendWait transport head.1
            (.sendingHead id start.token start.pending) : Handler U Unit) := does_sendWait _ _ rfl rfl
        exact ReflTransGen.head hinserted (hsent.joint h).1
      · intro hdone
        rw [hdone] at hpast
        cases hpast
      · rw [acts_pools_sendWait _ _ _ w₄ a w' h, hdata]
        rfl
  · exact ⟨fun k _ => (quiet_discard transport).moves _ a w' h,
      .inl (acts_pools_discard transport _ a w' h)⟩

theorem alike_popIdle (s : State U) (origin : Origin) : s.Alike (s.popIdle origin).2 := by
  unfold State.popIdle
  split
  · exact ⟨rfl, rfl⟩
  · exact ⟨rfl, rfl⟩

theorem popIdle_cases (s : State U) (origin : Origin) :
    (s.hasIdle origin = false ∧ s.popIdle origin = (none, s))
    ∨ ∃ transport, s.idle.find? (·.1 = origin) = some (origin, transport)
      ∧ (s.popIdle origin).1 = some transport := by
  unfold State.popIdle
  cases hfound : s.idle.find? (·.1 = origin) with
  | none =>
    refine .inl ⟨?_, rfl⟩
    unfold State.hasIdle
    rw [List.any_eq_false]
    intro entry hentry
    have := List.find?_eq_none.mp hfound entry hentry
    simpa using this
  | some entry =>
    obtain ⟨origin', transport⟩ := entry
    have horigin := List.find?_some hfound
    have : origin' = origin := by simpa using horigin
    subst this
    exact .inr ⟨transport, rfl, rfl⟩

theorem popIdle_bare (s : State U) (origin : Origin) :
    (s.bare.popIdle origin).2.bare = (s.popIdle origin).2.bare := by
  have hidle : s.bare.idle = s.idle := rfl
  unfold State.popIdle
  rw [hidle]
  cases s.idle.find? fun entry => decide (entry.1 = origin) with
  | none | some => rfl

/-- **What `start_exchange` does with a start**, up to its first await: the start is over and
another one is woken, it is queued, it connects, or it takes an idle connection, which is dropped if
the request cannot go on it. -/
inductive Begins (start : Start U) (c : Pools U) : Pools U → Prop where
  | passed : Begins start c c.wake
  | queued (origin : Origin) (halive : c.alive start.token = true)
      (horigin : Origin.fromUri start.request.uri = .ok origin)
      (hidle : c.state.hasIdle origin = false) (hroom : c.state.hasRoom c.config origin = false) :
      Begins start c (c.update fun s => { s with pendingStarts := s.pendingStarts ++ [start] })
  | connecting (origin : Origin) (call : U.SendRequest) (halive : c.alive start.token = true)
      (horigin : Origin.fromUri start.request.uri = .ok origin)
      (hidle : c.state.hasIdle origin = false) (hroom : c.state.hasRoom c.config origin = true) :
      Begins start c ((c.update fun s => { s with connecting := origin :: s.connecting }).suspend
        (.connecting start origin call))
  | reused (origin : Origin) (transport : TransportId) (proto : Proto U) (task : Task U)
      (halive : c.alive start.token = true)
      (horigin : Origin.fromUri start.request.uri = .ok origin)
      (hfound : c.state.idle.find? (·.1 = origin) = some (origin, transport))
      (hproto : proto ≠ .done) (htask : task.isPlain = true) :
      Begins start c (((c.popIdle origin).insertExchange start.token transport origin proto
        start.request.spec).suspend task)
  | unused (origin : Origin) (transport : TransportId) (halive : c.alive start.token = true)
      (horigin : Origin.fromUri start.request.uri = .ok origin)
      (hfound : c.state.idle.find? (·.1 = origin) = some (origin, transport)) :
      Begins start c ((c.popIdle origin).forget transport).wake

theorem Begins.shifts {p : Pools U} (haction : action.start? = some start) (h : Begins start c p) :
    ReflTransGen (Shift action c) c p := by
  cases h with
  | passed => exact .single (.woke _)
  | queued origin _ horigin hidle hroom =>
    exact .single (.queued start origin haction horigin hidle hroom)
  | connecting origin call _ horigin hidle hroom =>
    exact .single (.connecting start origin call haction horigin hidle hroom)
  | reused origin transport proto task _ horigin hfound hproto htask =>
    exact .tail (.single (.reused start origin transport proto haction horigin hfound hproto))
      (.suspended _ task htask)
  | unused origin transport _ _ hfound => exact .single (.unused origin transport hfound)

theorem acquireTransport_begins (halive : w.data.alive start.token = true)
    (horigin : Origin.fromUri start.request.uri = .ok origin)
    (hroom : w.data.state.hasIdle origin = false → w.data.state.hasRoom w.data.config origin = true)
    (h : acquireTransport start origin call w = .ok (a, w')) :
    MayStart w.data w'.data ∧ Begins start w.data.pools w'.data.pools := by
  obtain ⟨idle, w₁, hpop, h⟩ := bind_eq_ok h
  have hview₁ := quiet_withState (fun s => alike_popIdle s origin) w idle w₁ hpop
  obtain ⟨rfl, hdata⟩ := within_eq_ok hpop
  rcases popIdle_cases w.data.state origin with ⟨hnone, hpopped⟩ | ⟨transport, hfound, hpopped⟩
  · have hsame : w₁.data = w.data := by
      rw [hdata]
      show w.data.setState (w.data.state.popIdle origin).2 = _
      rw [hpopped]
      rfl
    simp only [Client.onState, hpopped] at h
    obtain ⟨_, w₂, hcount, h⟩ := bind_eq_ok h
    obtain ⟨_, w₃, hconfig, h⟩ := bind_eq_ok h
    have hview : w₃.data.view = w.data.view := (quiet_readConfig _ w₂ _ w₃ hconfig).trans
      ((view_of_updateState hcount fun _ => ⟨rfl, rfl⟩).trans hview₁)
    have hcounted : w₃.data.pools = w.data.pools.update fun s =>
        { s with connecting := origin :: s.connecting } := by
      rw [still_pools_readConfig _ w₂ _ w₃ hconfig, acts_pools_updateState (fun _ => rfl) w₁ _ w₂ hcount,
        hsame]
    have hsuspend : suspend (.connecting start origin call) w₃ = .ok (a, w') →
        MayStart w.data w'.data ∧ Begins start w.data.pools w'.data.pools := by
      intro h
      refine ⟨fun k _ => ?_, ?_⟩
      · rw [acts_suspend _ w₃ a w' h, hview]
        exact .single (.suspended _ _ rfl)
      · rw [acts_pools_suspend _ w₃ a w' h, hcounted]
        exact .connecting origin call halive horigin hnone (hroom hnone)
    cases hscheme : origin.scheme with
    | http =>
      simp only [hscheme] at h
      exact hsuspend h
    | https =>
      cases hname : U.serverName origin.host with
      | ok u =>
        simp only [hscheme, hname] at h
        exact hsuspend h
      | error reason =>
        simp only [hscheme, hname] at h
        obtain ⟨_, w₄, huncount, h⟩ := bind_eq_ok h
        have hback : w₄.data.pools = w.data.pools := by
          rw [acts_pools_updateState (fun _ => rfl) w₃ _ w₄ huncount, hcounted]
          show Pools.mk _ _ _ _ _ = Pools.mk _ _ _ _ _
          congr 1
          show State.mk _ _ _ _ _ _ _ ((origin :: w.data.state.connecting).erase origin) _ _
            = State.mk _ _ _ _ _ _ _ w.data.state.connecting _ _
          rw [List.erase_cons_head]
          rfl
        obtain ⟨hstart, hwoken⟩ := failStart_cases h
        rw [hwoken, hback]
        exact ⟨hstart.of_view ((view_of_updateState huncount fun _ => ⟨rfl, rfl⟩).trans hview),
          .passed⟩
  · have hpools : w₁.data.pools = w.data.pools.popIdle origin := by
      rw [hdata]
      show Pools.mk _ _ _ _ _ = Pools.mk _ _ _ _ _
      congr 1
      exact (popIdle_bare w.data.state origin).symm
    simp only [Client.onState, hpopped] at h
    obtain ⟨hstart, hdropped | ⟨proto, task, hproto, htask, hstarted⟩⟩ := startConnected_cases h
    · rw [hdropped, hpools]
      exact ⟨hstart.of_view hview₁, .unused origin transport halive horigin hfound⟩
    · rw [hstarted, hpools]
      exact ⟨hstart.of_view hview₁,
        .reused origin transport proto task halive horigin hfound hproto htask⟩

theorem shouldQueue_eq {queued : Bool} (h : shouldQueue origin w = .ok (queued, w')) :
    w'.data = w.data
      ∧ queued = (!w.data.state.hasIdle origin && !w.data.state.hasRoom w.data.config origin) := by
  obtain ⟨w₁, hblock, hdata⟩ := guarded_eq_ok h
  obtain ⟨idle, w₂, hlook, hblock⟩ := bind_eq_ok hblock
  cases hlook
  cases hidle : w.data.state.hasIdle origin with
  | true =>
    simp only [hidle] at hblock
    cases hblock
    exact ⟨hdata, rfl⟩
  | false =>
    simp only [hidle] at hblock
    obtain ⟨hqueued, hdata'⟩ := within_eq_ok hblock
    exact ⟨hdata.trans hdata', hqueued⟩

theorem startExchange_begins (h : startExchange start w = .ok (a, w')) :
    MayStart w.data w'.data ∧ Begins start w.data.pools w'.data.pools := by
  obtain ⟨alive, w₁, halive, h⟩ := bind_eq_ok h
  cases halive
  split at h
  · rename_i halive
    have hfailed : ∀ {e w₂}, w₂.data = w.data → failStart start e w₂ = .ok (a, w') →
        MayStart w.data w'.data ∧ Begins start w.data.pools w'.data.pools := by
      intro e w₂ hdata hfail
      obtain ⟨hstart, hwoken⟩ := failStart_cases hfail
      rw [hdata] at hstart hwoken
      exact ⟨hstart, hwoken ▸ .passed⟩
    cases horigin : Origin.fromUri start.request.uri with
    | error e =>
      simp only [horigin] at h
      exact hfailed rfl h
    | ok origin =>
      simp only [horigin] at h
      obtain ⟨queued, w₂, hqueue, h⟩ := bind_eq_ok h
      obtain ⟨hdata, hqueued⟩ := shouldQueue_eq hqueue
      cases queued with
      | true =>
        obtain ⟨hidle, hroom⟩ := Bool.and_eq_true_iff.mp hqueued.symm
        rw [Bool.not_eq_true'] at hidle hroom
        rw [acts_pools_updateState (fun _ => rfl) w₂ a w' h, hdata]
        refine ⟨fun k _ => ?_, .queued origin halive horigin hidle hroom⟩
        rw [view_of_updateState h fun _ => ⟨rfl, rfl⟩, hdata]
      | false =>
        have hroom : w₂.data.state.hasIdle origin = false →
            w₂.data.state.hasRoom w₂.data.config origin = true := by
          intro hidle
          rw [hdata] at hidle ⊢
          rw [hidle] at hqueued
          simpa using hqueued
        cases hheaders : applyBodyHeaders start.request.headers start.request.spec with
        | error e =>
          simp only [hheaders] at h
          exact hfailed hdata h
        | ok headers =>
          simp only [hheaders] at h
          cases hcall : U.new start.request.uri headers start.request.parts with
          | error e =>
            simp only [hcall] at h
            exact hfailed hdata h
          | ok call =>
            simp only [hcall] at h
            have hbegins := acquireTransport_begins (hdata ▸ halive) horigin hroom h
            rw [hdata] at hbegins
            exact hbegins
  · rw [acts_pools_wakeQueued _ a w' h]
    exact ⟨fun k _ => quiet_wakeQueued.moves _ a w' h, .passed⟩

theorem startWithConnect_shifts {i : ℕ} {connected : Except HttpError TransportId}
    (htask : c.tasks[i]? = some (.connecting start origin call)) (hw : w.data.pools = c.erase i)
    (h : startWithConnect start origin call connected w = .ok (a, w')) :
    MayStart w.data w'.data
      ∧ ReflTransGen (Shift (.wake i (.connected connected)) c) c w'.data.pools := by
  obtain ⟨_, w₁, hdone, h⟩ := bind_eq_ok h
  have hview₁ := view_of_updateState hdone fun _ => ⟨rfl, rfl⟩
  have hpools₁ : w₁.data.pools = (c.erase i).unconnect origin := by
    rw [acts_pools_updateState (fun _ => rfl) w _ w₁ hdone, hw]
    rfl
  cases connected with
  | error e =>
    obtain ⟨hstart, hwoken⟩ := failStart_cases h
    rw [hwoken, hpools₁]
    exact ⟨hstart.of_view hview₁, .single (.refused i start origin call htask)⟩
  | ok transport =>
    obtain ⟨_, w₂, hknown, h⟩ := bind_eq_ok h
    have hview := (view_of_updateState hknown fun _ => ⟨rfl, rfl⟩).trans hview₁
    have hpools₂ : w₂.data.pools = ((c.erase i).unconnect origin).know transport origin := by
      rw [acts_pools_updateState (fun _ => rfl) w₁ _ w₂ hknown, hpools₁]
      rfl
    obtain ⟨hstart, hdropped | ⟨proto, task, hproto, hplain, hstarted⟩⟩ := startConnected_cases h
    · rw [hdropped, hpools₂]
      exact ⟨hstart.of_view hview, .single (.dropped i start origin call transport rfl htask)⟩
    · rw [hstarted, hpools₂]
      exact ⟨hstart.of_view hview, .tail (.single (.made i start origin call transport proto rfl
        htask hproto)) (.suspended _ task hplain)⟩

theorem startSent_joint {token : ℕ} {pending : Pending} {sent : Except HttpError Unit}
    (h : startSent id token pending sent w = .ok (a, w'))
    (hd : sent.isOk = false ∨ w.data.alive token = false → k.doomed id) :
    Joint k action c w.data.both w'.data.both := by
  cases sent with
  | error e =>
    have hcancel : Does k action c (cancel id : Handler U Unit) := does_cancel (hd (.inl rfl))
    exact Does.joint (hcancel.bind fun _ => does_reply rfl pending (.failed e)) h
  | ok u =>
    obtain ⟨alive, w₁, halive, h⟩ := bind_eq_ok h
    cases halive
    split at h
    · obtain ⟨awaits, w₂, hawaits, h⟩ := bind_eq_ok h
      have hsame : w₂.data.both = w.data.both := still_within (fun _ => rfl) _ _ w₂ hawaits
      have htimer : Does k action c (onlyIf awaits do
          readConfig fun _ => ()
          arm (.continueTimeout id) : Handler U Unit) :=
        moves_onlyIf fun _ => (does_readConfig _).bind fun _ => does_arm _
      rw [← hsame]
      exact Does.joint (htimer.bind fun _ => does_reply rfl pending (.id id)) h
    · rename_i hdead
      exact (does_cancel (hd (.inr (by simpa using hdead)))).joint h

theorem cancelStart_joint {token : ℕ} (h : cancelStart token w = .ok (a, w'))
    (hd : ∀ id, w.data.state.startTokens token = some id → k.doomed id) :
    Joint k action w.data.pools w.data.both w'.data.both := by
  obtain ⟨id, w₁, htaken, h⟩ := bind_eq_ok h
  have hview : w₁.data.view = w.data.view :=
    quiet_withState (fun _ => ⟨rfl, rfl⟩) w id w₁ htaken
  obtain ⟨rfl, hdata⟩ := within_eq_ok htaken
  have hpools : w₁.data.pools = w.data.pools.update fun s =>
      { s with pendingStarts := s.pendingStarts.filter (·.token ≠ token) } := by
    rw [hdata]
    rfl
  have hrest : Joint k action w.data.pools w₁.data.both w'.data.both := by
    cases hid : w.data.state.startTokens token with
    | some id =>
      simp only [Client.onState, hid] at h
      exact (does_cancel (hd id hid)).joint h
    | none =>
      simp only [Client.onState, hid] at h
      exact does_wakeQueued.joint h
  refine ⟨?_, ReflTransGen.head (.unqueued token) ?_⟩
  · rw [show w.data.both.1 = w₁.data.both.1 from hview.symm]
    exact hrest.1
  · rw [← hpools]
    exact hrest.2

/-! ### The request body -/

theorem does_writeRequest (id : ℕ) (chunk : Bytes) :
    Does k action c (writeRequest id chunk : Handler U _) := by
  unfold writeRequest
  split
  · exact moves_pure _
  · apply (does_readConfig _).bind
    intro limit
    split
    · exact moves_pure _
    · exact does_touch (fun e => .write e chunk) fun e => e.error_write chunk

theorem does_pauseTransport (id : ℕ) (pause : Option TransportId) :
    Does k action c (pauseTransport id pause : Handler U Unit) := by
  cases pause with
  | none => exact moves_pure ()
  | some transport => exact does_suspend rfl rfl

theorem does_writeAndReply (id : ℕ) (pending : Pending) (chunk : Bytes)
    (pause : Option TransportId) :
    Does k action c (writeAndReply id pending chunk pause : Handler U Unit) := by
  apply (does_writeRequest id chunk).bind
  intro encoded
  cases encoded with
  | ok sent => exact does_sendWait _ _ rfl rfl
  | error answer =>
    apply (does_reply rfl _ _).bind
    intro _
    exact does_pauseTransport id pause

theorem does_writeCommand (id : ℕ) (pending : Pending) (chunk : Bytes) :
    Does k action c (writeCommand id pending chunk : Handler U Unit) := by
  unfold writeCommand deferContinueWrite
  apply Moves.bind
  · split
    · exact moves_pure _
    · apply Moves.bind
      · exact does_touch (fun e => .defer e pending chunk) fun e => e.error_deferWrite pending chunk
      intro result
      apply (does_replyWith rfl _ _).bind
      intro _
      exact moves_pure _
  intro goes
  apply moves_onlyIf
  intro _
  exact does_writeAndReply id pending chunk none

theorem does_finishRequest (id : ℕ) (pending : Pending) :
    Does k action c (finishRequest id pending : Handler U Unit) := by
  apply Moves.bind
  · exact does_touch (fun e => .finish e) fun e => e.error_finish
  intro encoded
  cases encoded with
  | ok sent => exact does_sendWait _ _ rfl rfl
  | error answer => exact does_reply rfl _ _

end Rskynet.Http
