import Rskynet.Http.Client

/-!
# Changes of the HTTP client's exchanges

What a handler does to the exchanges, the answers and the suspended tasks is a sequence of a few
kinds of changes; every property of the exchanges is proved from those.
-/

namespace Rskynet.Http

open Cells Relation List

variable {U : Ureq} {α : Type}

/-! ### The view -/

/-- The configuration, the exchanges with their counter, the answers and the suspended tasks. -/
structure View (U : Ureq) where
  config : HttpClientConfig
  nextId : ℕ
  exchanges : ℕ → Option (Exchange U)
  replies : List (Reply U)
  tasks : List (Task U)

def Client.view (c : Client U) : View U :=
  ⟨c.config, c.state.nextId, c.state.exchanges, c.replies, c.tasks⟩

namespace View

def reply (v : View U) (r : Reply U) : View U :=
  if r.pending.session = 0 then v else { v with replies := r :: v.replies }

def replyTo (v : View U) (asked : Asked) (waiting : Option Pending) (answer : Answer U) : View U :=
  match waiting with
  | none => v
  | some pending => v.reply ⟨asked, pending, answer⟩

def replyWith (v : View U) (asked : Asked) (pending : Pending) (answer : Option (Answer U)) :
    View U :=
  match answer with
  | none => v
  | some answer => v.reply ⟨asked, pending, answer⟩

def set (v : View U) (id : ℕ) (e : Option (Exchange U)) : View U :=
  { v with exchanges := Function.update v.exchanges id e }

def insert (v : View U) (id : ℕ) (e : Exchange U) : View U :=
  { v with nextId := id, exchanges := Function.update v.exchanges id (some e) }

def suspend (v : View U) (task : Task U) : View U := { v with tasks := v.tasks ++ [task] }

def canceled (v : View U) (id : ℕ) (e : Exchange U) : View U :=
  (((v.set id none).replyTo (.response id) e.responseWaiter (.failed .canceled)).replyTo
    (.next id e.via) e.bodyWaiter (.failed .canceled)).replyTo
      (.write id) (e.writeWaiter.map Prod.fst) (.failed .canceled)

def cancel (v : View U) (id : ℕ) : View U :=
  match v.exchanges id with
  | none => v
  | some e => v.canceled id e

def waitResponse (v : View U) (id : ℕ) (pending : Pending) : View U :=
  match v.exchanges id with
  | none => v.reply ⟨.response id, pending, .failed .bodyClosed⟩
  | some e => (v.set id (some (e.takeResponse pending).1)).replyWith
      (.response id) pending (e.takeResponse pending).2

def nextTaken (v : View U) (id : ℕ) (via : Option (TransportId × Origin)) (pending : Pending)
    (answer : Option (Answer U)) (cleanup : Option (TransportId × Origin × Bool)) : View U :=
  let v := v.replyWith (.next id via) pending answer
  if cleanup.isSome then v.set id none else v

def nextBody (v : View U) (id : ℕ) (pending : Pending) : View U :=
  match v.exchanges id with
  | none => v.reply ⟨.next id none, pending, .failed .bodyClosed⟩
  | some e =>
    let taken := e.next v.config pending
    let v := v.set id (some taken.exchange)
    if taken.resume then
      v.suspend (.resuming id taken.exchange.via pending taken.answer taken.cleanup)
    else v.nextTaken id taken.exchange.via pending taken.answer taken.cleanup

end View

/-! ### Changes -/

/-- The request side of an exchange moves on: a write, the end of the request, a parked write, or
the end of the wait for `100 Continue`. -/
inductive Touch : Exchange U → Exchange U → Prop where
  | write (e : Exchange U) (chunk : Bytes) : Touch e (e.write chunk).1
  | finish (e : Exchange U) : Touch e e.finish.1
  | defer (e : Exchange U) (pending : Pending) (chunk : Bytes) :
      Touch e (e.deferWrite pending chunk).1
  | stopWaiting (e : Exchange U) (h : e.proto.all Proto.isAwait100 = true) :
      Touch e e.stopWaiting100.1

/-- What an exchange gets before its received bytes are driven: nothing, more bytes, or the end of
a body that ends with the connection. -/
inductive Fed : Exchange U → Exchange U → Prop where
  | same (e : Exchange U) : Fed e e
  | data (e : Exchange U) (bytes : Bytes) : Fed e { e with input := e.input ++ bytes }
  | close (e : Exchange U) (h : endsWithClose e = true) :
      Fed e { e with bodyEnded := true, proto := some .done, reusable := some false }

def Asked.isSide : Asked → Bool
  | .start _ => true
  | .write _ => true
  | .finish _ => true
  | .cancel _ => true
  | .response _ => false
  | .next _ _ => false

def Task.isResuming : Task U → Bool
  | .resuming .. => true
  | _ => false

/-- What a step can be the cause of: the exchange that may appear, the one that may lose its protocol
state, the one that may be canceled, and what driving the received bytes may leave. -/
structure Causes (U : Ureq) where
  starts : ℕ → Prop
  late : ℕ → Prop
  stops : ℕ → Exchange U → Prop
  doomed : ℕ → Prop
  drives : ℕ → Driven U → Prop

def Task.isConnecting : Task U → Bool
  | .connecting .. => true
  | _ => false

/-- **The kinds of changes.** -/
inductive Change (k : Causes U) : View U → View U → Prop where
  | answered (v : View U) (r : Reply U) (h : r.asked.isSide = true) :
      Change k v (v.reply r)
  | suspended (v : View U) (task : Task U) (h : task.isResuming = false) :
      Change k v (v.suspend task)
  | inserted (v : View U) (id : ℕ) (transport : TransportId) (origin : Origin) (proto : Proto U)
      (spec : BodySpec) (hproto : proto.pastHead = false) (h : k.starts id) :
      Change k v (v.insert id (.fresh transport origin proto spec))
  | canceled (v : View U) (id : ℕ) (e : Exchange U) (he : v.exchanges id = some e)
      (h : k.doomed id) : Change k v (v.canceled id e)
  | touched (v : View U) (id : ℕ) (e e' : Exchange U) (he : v.exchanges id = some e)
      (h : Touch e e') (hk : e'.error ≠ e.error → k.stops id e) :
      Change k v (v.set id (some e'))
  | lost (v : View U) (id : ℕ) (e : Exchange U) (he : v.exchanges id = some e) (h : k.late id)
      (hproto : e.proto.all Proto.isAwait100 = false) :
      Change k v (v.set id (some { e with proto := none }))
  | driven (v : View U) (id rounds : ℕ) (e e₁ : Exchange U) (d : Driven U)
      (pause : Option TransportId) (he : v.exchanges id = some e) (hfed : Fed e e₁)
      (hd : driveExchange v.config rounds id e₁ = some (d, pause)) (h : k.drives id d) :
      Change k v (d.replies.foldl View.reply (v.set id (some d.exchange)))
  | expired (v : View U) (id : ℕ) (e e' : Exchange U) (asked : Asked) (pending : Pending)
      (session : ℕ) (body : Bool) (error : HttpError) (he : v.exchanges id = some e)
      (hx : e.expire id session body = (e', some (asked, pending))) (h : k.doomed id) :
      Change k v ((v.set id (some e')).reply ⟨asked, pending, .failed error⟩)

/-! ### What a step cancels and loses -/

/-- The completion of a suspended task that cancels exchange `id`: its head, pause or resume
failed, or its caller is gone by the time its head is sent. -/
def Task.Fails (c : Client U) (result : Except HttpError Unit) (id : ℕ) : Task U → Prop
  | .sendingHead task token _ => task = id ∧ (result.isOk = false ∨ c.alive token = false)
  | .resuming task _ _ _ _ => task = id ∧ result.isOk = false
  | .pausing task => task = id ∧ result.isOk = false
  | _ => False

/-- The exchange an action cancels: by command, by a timer that finds its waiter, because its
connection ends before the body does, because its caller is gone, or because the transport refuses
an operation. -/
def Cancels (c : Client U) (id : ℕ) : Action U → Prop
  | .command _ (.cancel i) => i = id
  | .command _ (.cancelStart token) => c.state.startTokens token = some id
  | .command _ (.waitTimeout i session body) =>
    i = id ∧ ∃ e, c.state.exchanges id = some e ∧ (e.expire id session body).2.isSome = true
  | .closed transport error =>
    c.state.active transport = some id
      ∧ ¬ ((c.state.exchanges id).any endsWithClose = true ∧ error = none)
  | .wake i (.finished result) => ∃ task, c.tasks[i]? = some task ∧ task.Fails c result id
  | _ => False

def Action.starts (c : Client U) : Action U → Bool
  | .command _ (.start _ _) => true
  | .command _ (.resumeStart _) => true
  | .wake i _ => (c.tasks[i]?).any Task.isConnecting
  | _ => false

def Action.continueTarget : Action U → Option ℕ
  | .command _ (.continueTimeout id) => some id
  | _ => none

/-- A timer for `100 Continue` that finds its exchange in another protocol state. -/
def Late (c : Client U) (id : ℕ) (action : Action U) : Prop :=
  action.continueTarget = some id
    ∧ ∃ e, c.state.exchanges id = some e ∧ e.proto.all Proto.isAwait100 = false

/-- The exchange whose received bytes an action drives, as it is when the loop starts. -/
def fedBy (c : Client U) : Action U → Option (ℕ × Exchange U)
  | .data transport bytes => (c.state.active transport).bind fun id =>
    (c.state.exchanges id).map fun e => (id, { e with input := e.input ++ bytes })
  | .closed transport error => (c.state.active transport).bind fun id =>
    (c.state.exchanges id).bind fun e =>
      if endsWithClose e = true ∧ error = none then
        some (id, { e with bodyEnded := true, proto := some .done, reusable := some false })
      else none
  | .command _ (.continueTimeout id) => (c.state.exchanges id).bind fun e =>
    if e.stopWaiting100.2.2.2 then some (id, e.stopWaiting100.1) else none
  | _ => none

def causes (c : Client U) (turn : Turn U) : Causes U where
  starts := fun id => c.state.freshId = id ∧ turn.action.starts c = true
  late := fun id => Late c id turn.action
  stops := fun id e => turn.action.continueTarget = some id ∧ c.state.exchanges id = some e
  doomed := fun id => Cancels c id turn.action
  drives := fun id d => ∃ e pause, fedBy c turn.action = some (id, e)
    ∧ driveExchange c.config turn.rounds id e = some (d, pause)

/-! ### Helpers that the view does not see -/

section Handlers

variable {k : Causes U}

@[simp] theorem view_reply (c : Client U) (r : Reply U) : (c.reply r).view = c.view.reply r := by
  unfold Client.reply View.reply
  split <;> rfl

theorem view_replyAll (c : Client U) (replies : List (Reply U)) :
    (replies.foldl Client.reply c).view = replies.foldl View.reply c.view := by
  induction replies generalizing c with
  | nil => rfl
  | cons r replies ih => rw [foldl_cons, foldl_cons, ih, view_reply]

variable (v : View U) (transport : TransportId) (asked : Asked) (replies : List (Reply U))
  (id : ℕ) (r : Reply U) (pending : Pending) (waiting : Option Pending) (answer : Answer U)

theorem View.set_self (e : Option (Exchange U)) (h : v.exchanges id = e) :
    v.set id e = v := by
  subst h
  unfold View.set
  rw [Function.update_eq_self]

@[simp] theorem exchanges_reply :
    (v.reply r).exchanges = v.exchanges := by
  unfold View.reply
  split <;> rfl

@[simp] theorem exchanges_replyTo
    : (v.replyTo asked waiting answer).exchanges = v.exchanges := by
  cases waiting with
  | none => rfl
  | some pending => exact exchanges_reply v _

@[simp] theorem exchanges_replyWith (answer : Option (Answer U)) :
    (v.replyWith asked pending answer).exchanges = v.exchanges := by
  cases answer with
  | none => rfl
  | some answer => exact exchanges_reply v _

@[simp] theorem exchanges_replyAll :
    (replies.foldl View.reply v).exchanges = v.exchanges := by
  induction replies generalizing v with
  | nil => rfl
  | cons r replies ih => rw [foldl_cons, ih, exchanges_reply]

theorem exchanges_canceled (e : Exchange U) :
    (v.canceled id e).exchanges = (v.set id none).exchanges := by
  simp [View.canceled]

@[simp] theorem tasks_reply : (v.reply r).tasks = v.tasks := by
  unfold View.reply
  split <;> rfl

@[simp] theorem tasks_replyTo
    : (v.replyTo asked waiting answer).tasks = v.tasks := by
  cases waiting with
  | none => rfl
  | some pending => exact tasks_reply v _

@[simp] theorem tasks_replyWith
    (answer : Option (Answer U)) : (v.replyWith asked pending answer).tasks = v.tasks := by
  cases answer with
  | none => rfl
  | some answer => exact tasks_reply v _

@[simp] theorem tasks_replyAll :
    (replies.foldl View.reply v).tasks = v.tasks := by
  induction replies generalizing v with
  | nil => rfl
  | cons r replies ih => rw [foldl_cons, ih, tasks_reply]

theorem tasks_canceled (e : Exchange U) :
    (v.canceled id e).tasks = v.tasks := by
  simp [View.canceled, View.set]

theorem tasks_cancel : (v.cancel id).tasks = v.tasks := by
  unfold View.cancel
  split
  · rfl
  · exact tasks_canceled v id _

theorem tasks_nextTaken (via : Option (TransportId × Origin))
    (pending : Pending) (answer : Option (Answer U))
    (cleanup : Option (TransportId × Origin × Bool)) :
    (v.nextTaken id via pending answer cleanup).tasks = v.tasks := by
  unfold View.nextTaken
  split
  · exact tasks_replyWith v _ _ _
  · exact tasks_replyWith v _ _ _

@[simp] theorem config_reply : (v.reply r).config = v.config := by
  unfold View.reply
  split <;> rfl

@[simp] theorem config_replyTo
    : (v.replyTo asked waiting answer).config = v.config := by
  cases waiting with
  | none => rfl
  | some pending => exact config_reply v _

abbrev Quiet (m : Handler U α) : Prop := Still Client.view m

def State.Alike (s s' : State U) : Prop := s'.exchanges = s.exchanges ∧ s'.nextId = s.nextId

theorem view_onState {f : State U → α × State U} (h : ∀ s : State U, s.Alike (f s).2) (c : Client U) :
    (Client.onState f c).2.view = c.view := by
  show View.mk _ (f c.state).2.nextId (f c.state).2.exchanges _ _ = _
  rw [(h c.state).1, (h c.state).2]
  rfl

theorem quiet_withState {f : State U → α × State U} (h : ∀ s : State U, s.Alike (f s).2) :
    Quiet (withState f) := still_within (view_onState h)

theorem quiet_updateState {f : State U → State U} (h : ∀ s : State U, s.Alike (f s)) :
    Quiet (updateState f) := quiet_withState h

theorem view_of_updateState {f : State U → State U} {w w' : World Cell (Client U)} {a : Unit}
    (h : updateState f w = .ok (a, w')) (hf : ∀ s : State U, s.Alike (f s)) :
    w'.data.view = w.data.view := quiet_updateState hf w a w' h

theorem quiet_readConfig (f : HttpClientConfig → α) : Quiet (readConfig f : Handler U α) :=
  still_within fun _ => rfl

theorem quiet_shutdown : Quiet (shutdown transport : Handler U Unit) :=
  still_change fun _ => rfl

theorem quiet_arm (command : Command U) : Quiet (arm command) := still_change fun _ => rfl

theorem quiet_forgetTransport :
    Quiet (forgetTransport transport : Handler U Unit) := quiet_updateState fun _ => ⟨rfl, rfl⟩

/-- The tables without the queued starts whose callers are gone. -/
def Client.living (c : Client U) : State U :=
  { c.state with pendingStarts := c.state.pendingStarts.filter fun start => c.alive start.token }

def Client.wake (c : Client U) : Client U :=
  let popped := c.setState (c.living.popEligible c.config).2
  match (c.living.popEligible c.config).1 with
  | none => popped
  | some start => { popped with sent := .resumeStart start :: c.sent }

def Client.discard (c : Client U) (transport : TransportId) : Client U :=
  ({ c with shutdowns := transport :: c.shutdowns }.setState (c.state.forget transport)).wake

def Client.recycle (c : Client U) (transport : TransportId) (origin : Origin) (reusable : Bool) :
    Client U :=
  let c := c.setState (c.state.setActive transport none)
  if reusable = true ∧ c.state.idleFull c.config origin = false then
    let pooled := c.setState (c.state.pool transport origin)
    { pooled with
      timers := .idleTimeout transport pooled.state.nextIdleGeneration :: c.timers }.wake
  else c.discard transport

theorem acts_wakeQueued : Acts (fun c => c) Client.wake (wakeQueued : Handler U Unit) := by
  intro w a w' h
  obtain ⟨job, w₁, hguard, h⟩ := bind_eq_ok h
  obtain ⟨w₂, hblock, hdata⟩ := guarded_eq_ok hguard
  obtain ⟨_, w₃, hfilter, hblock⟩ := bind_eq_ok hblock
  cases hfilter
  obtain ⟨asks, w₄, hlook, hblock⟩ := bind_eq_ok hblock
  cases hlook
  obtain ⟨_, w₅, hask, hblock⟩ := bind_eq_ok hblock
  have hstill : ∀ b, Still (fun d : Client U => d)
      (onlyIf b (readConfig fun _ => ()) : Handler U Unit) :=
    fun _ => still_onlyIf (still_within fun _ => rfl)
  have hsame := hstill _ _ _ w₅ hask
  dsimp only at hsame
  cases hblock
  rw [hsame] at h hdata
  show w'.data = w.data.wake
  unfold Client.wake
  change (match (w.data.living.popEligible w.data.config).1 with
    | none => pure ()
    | some start => sendSelf (.resumeStart start)) w₁ = _ at h
  cases hjob : (w.data.living.popEligible w.data.config).1 with
  | none =>
    rw [hjob] at h
    cases h
    rw [hdata]
    rfl
  | some start =>
    rw [hjob] at h
    cases h
    rw [hdata]
    rfl

theorem acts_shutdown : Acts (fun c => c) (fun c => { c with shutdowns := transport :: c.shutdowns })
    (shutdown transport : Handler U Unit) := acts_change fun _ => rfl

theorem acts_forgetTransport : Acts (fun c => c) (fun c => c.setState (c.state.forget transport))
    (forgetTransport transport : Handler U Unit) := acts_within fun _ => rfl

theorem acts_discard :
    Acts (fun c => c) (fun c => c.discard transport)
      (do shutdown transport; forgetTransport transport; wakeQueued : Handler U Unit) :=
  (acts_shutdown transport).bind fun _ => (acts_forgetTransport transport).bind fun _ =>
    acts_wakeQueued

theorem acts_recycle (origin : Origin) (reusable : Bool) :
    Acts (fun c => c) (fun c => c.recycle transport origin reusable)
      (recycle transport origin reusable : Handler U Unit) := by
  intro w a w' h
  obtain ⟨_, w₁, hactive, h⟩ := bind_eq_ok h
  obtain ⟨-, hdata⟩ := within_eq_ok hactive
  show w'.data = w.data.recycle transport origin reusable
  unfold Client.recycle
  rw [show w.data.setState (w.data.state.setActive transport none) = w₁.data from hdata.symm]
  cases reusable with
  | false => exact acts_discard transport w₁ a w' h
  | true =>
    obtain ⟨_, w₂, hstate, h⟩ := bind_eq_ok h
    obtain ⟨_, w₃, hconfig, h⟩ := bind_eq_ok h
    obtain ⟨full, w₄, hlook, h⟩ := bind_eq_ok h
    cases hlook
    have hacquire : ∀ cell : Cell, Still (fun c : Client U => c) (acquire cell) :=
      fun _ => still_acquire
    have hrelease : ∀ cell : Cell, Still (fun c : Client U => c) (release cell) :=
      fun _ => still_release
    have hsame : w₃.data = w₁.data := (hacquire _ _ _ w₃ hconfig).trans (hacquire _ _ _ w₂ hstate)
    rw [← hsame]
    cases hfull : w₃.data.state.idleFull w₃.data.config origin with
    | true =>
      simp only [hfull] at h
      rw [if_neg (by simp [hfull])]
      have hrest := (hrelease .state).acts fun _ => (acts_shutdown transport).bind fun _ =>
        (acts_forgetTransport transport).bind fun _ => acts_wakeQueued.still fun _ =>
          hrelease .config
      exact hrest w₃ a w' h
    | false =>
      simp only [hfull] at h
      rw [if_pos ⟨rfl, hfull⟩]
      obtain ⟨_, w₅, hpool, h⟩ := bind_eq_ok h
      cases hpool
      obtain ⟨generation, w₆, hlook, h⟩ := bind_eq_ok h
      cases hlook
      have harm : ∀ g, Acts (fun c => c) _ (arm (.idleTimeout transport g) : Handler U Unit) :=
        fun _ => acts_change fun _ => rfl
      have hrest := fun g => (hrelease .config).acts fun _ => (hrelease .state).acts fun _ =>
        (harm g).bind fun _ => acts_wakeQueued
      rw [show w'.data = _ from hrest _ _ a w' h]
      rfl

theorem view_wake (c : Client U) : c.wake.view = c.view := by
  unfold Client.wake State.popEligible
  dsimp only
  split
  · split
    · rfl
    · rfl
  · split
    · rfl
    · rfl

theorem quiet_wakeQueued : Quiet (wakeQueued : Handler U Unit) :=
  Acts.hides acts_wakeQueued view_wake

theorem view_discard (c : Client U) : (c.discard transport).view = c.view := view_wake _

theorem quiet_discard :
    Quiet (do shutdown transport; forgetTransport transport; wakeQueued : Handler U Unit) :=
  Acts.hides (acts_discard transport) (view_discard transport)

theorem quiet_recycle (origin : Origin) (reusable : Bool) :
    Quiet (recycle transport origin reusable : Handler U Unit) := by
  refine Acts.hides (acts_recycle transport origin reusable) fun c => ?_
  unfold Client.recycle
  dsimp only
  split
  · exact view_wake _
  · exact view_discard transport _

theorem acts_reply :
    Acts Client.view (fun v => v.reply ⟨asked, pending, answer⟩) (reply asked pending answer) := by
  apply acts_change
  intro c
  exact view_reply c _

theorem acts_replyTo :
    Acts Client.view (fun v => v.replyTo asked waiting answer) (replyTo asked waiting answer) := by
  cases waiting with
  | none => exact still_pure ()
  | some pending => exact acts_reply asked pending answer

theorem acts_replyWith (answer : Option (Answer U)) :
    Acts Client.view (fun v => v.replyWith asked pending answer)
      (replyWith asked pending answer) := by
  cases answer with
  | none => exact still_pure ()
  | some answer => exact acts_reply asked pending answer

theorem acts_replyAll :
    Acts Client.view (fun v => replies.foldl View.reply v) (replyAll replies) := by
  apply acts_change
  intro c
  exact view_replyAll c replies

theorem acts_suspend (task : Task U) : Acts Client.view (fun v => v.suspend task) (suspend task) := by
  apply acts_change
  intro c
  rfl

/-- **`cancel`**: the exchange goes, its parked commands fail, nothing else is seen. -/
theorem acts_cancel : Acts Client.view (fun v => v.cancel id) (cancel id : Handler U Unit) := by
  intro w a w' h
  obtain ⟨taken, w₁, htaken, h⟩ := bind_eq_ok h
  obtain ⟨rfl, hdata⟩ := within_eq_ok htaken
  cases he : w.data.state.exchanges id with
  | none =>
    simp only [Client.onState, he] at h hdata
    cases h
    rw [hdata]
    show _ = View.cancel _ id
    unfold View.cancel
    rw [show w.data.view.exchanges id = none from he]
    rfl
  | some e =>
    simp only [Client.onState, he] at h hdata
    have hwrite := (acts_replyTo (.write id) (e.writeWaiter.map Prod.fst)
      (.failed .canceled)).bind fun _ => (quiet_wakeQueued (U := U)).acts_id
    have hnext := (acts_replyTo (.next id e.via) e.bodyWaiter (.failed .canceled)).bind
      fun _ => hwrite
    have hresponse := (acts_replyTo (.response id) e.responseWaiter (.failed .canceled)).bind
      fun _ => hnext
    have hrest := (quiet_shutdown e.transport).acts fun _ =>
      (quiet_forgetTransport e.transport).acts fun _ => hresponse
    rw [hrest w₁ a w' h, hdata]
    show _ = View.cancel _ id
    unfold View.cancel
    rw [show w.data.view.exchanges id = some e from he]
    rfl

/-- A handler whose effect on the view is a sequence of changes. -/
abbrev Steps (k : Causes U) (m : Handler U α) : Prop :=
  Moves Client.view (Change k) m

theorem steps_reply {asked : Asked} (h : asked.isSide = true) (pending : Pending)
    (answer : Answer U) : Steps k (reply asked pending answer) :=
  (acts_reply asked pending answer).moves fun v => .single (.answered v ⟨asked, pending, answer⟩ h)

end Handlers

end Rskynet.Http
