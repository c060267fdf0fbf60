import Rskynet.Http.Steps

/-!
# The steps of the HTTP client

The handlers of received bytes, of timers and of the reader, and with them every step.

* `act_joint` — **PROVED**: every step of the service changes the pools by shifts, and a step that
  does not read a response is a sequence of changes.
-/

namespace Rskynet.Http

open Cells Relation Option

variable {U : Ureq} {α : Type} {k : Causes U} {action : Action U} {c : Pools U}
variable {w w' : World Cell (Client U)}
variable {transport : TransportId} {a : Unit} {id : ℕ} {pending : Pending}

/-! ### Received bytes -/

theorem Fed.keeps {e e' : Exchange U} (h : Fed e e') : Keeps e e' := by
  cases h with
  | same => exact .refl e
  | data bytes => exact .of_same rfl rfl rfl rfl
  | close h => exact keeps_closed h

/-- The view of a service whose exchange `id`, if there is one, has just been fed. -/
def View.Ready (v : View U) (id : ℕ) (now : View U) : Prop :=
  (v.exchanges id = none ∧ now = v)
    ∨ ∃ e e₁, v.exchanges id = some e ∧ Fed e e₁ ∧ now = v.set id (some e₁)

theorem View.ready_self (v : View U) (id : ℕ) : v.Ready id v := by
  cases he : v.exchanges id with
  | none => exact .inl ⟨he, rfl⟩
  | some e => exact .inr ⟨e, e, he, .same e, (v.set_self id _ he).symm⟩

/-- **`drive_input`** after its exchange has been fed: one change, then what the request side can
do. -/
theorem driveInput_joint {rounds : ℕ} (h : driveInput rounds id w = .ok (a, w')) {v : View U}
    (hv : v.Ready id w.data.view)
    (hk : ∀ e d pause, w.data.state.exchanges id = some e →
      driveExchange w.data.config rounds id e = some (d, pause) → k.drives id d) :
    Joint k action c (v, w.data.pools) w'.data.both := by
  obtain ⟨driven, w₁, hguard, h⟩ := bind_eq_ok h
  obtain ⟨w₂, hblock, hdata⟩ := guarded_eq_ok hguard
  obtain ⟨found, w₃, hlook, hblock⟩ := bind_eq_ok hblock
  cases hlook
  rcases hv with ⟨hnone, rfl⟩ | ⟨e, e₁, he, hfed, hv⟩
  · simp only [show w.data.state.exchanges id = none from hnone] at hblock
    cases hblock
    cases h
    rw [hdata]
    exact ⟨.refl, .refl⟩
  · have hfound : w.data.state.exchanges id = some e₁ := by
      have hset := congrArg (fun v => v.exchanges id) hv
      simpa [View.set, Client.view] using hset
    simp only [hfound] at hblock
    obtain ⟨config, w₄, hconfig, hblock⟩ := bind_eq_ok hblock
    obtain ⟨rfl, hsame⟩ := within_eq_ok hconfig
    cases hdrive : driveExchange w.data.config rounds id e₁ with
    | none =>
      simp only [hdrive] at hblock
      cases hblock
    | some out =>
      simp only [hdrive] at hblock
      cases hblock
      have hview : w₁.data.view = v.set id (some out.1.exchange) := by
        rw [hdata, hsame]
        show (w.data.view).set id _ = _
        rw [hv]
        unfold View.set
        rw [Function.update_idem]
      have hpools : w₁.data.pools = w.data.pools.setExchange id (some out.1.exchange) := by
        rw [hdata, hsame]
        rfl
      have hconfig : v.config = w.data.config := (congrArg View.config hv).symm
      obtain ⟨_, w₅, hreplies, h⟩ := bind_eq_ok h
      have hrest : Joint k action c w₅.data.both w'.data.both := by
        cases hjob : out.1.job with
        | some job =>
          simp only [hjob] at h
          exact (does_writeAndReply id _ _ _).joint h
        | none =>
          simp only [hjob] at h
          exact (does_pauseTransport id _).joint h
      have hdrives := hk e₁ out.1 out.2 hfound hdrive
      refine ⟨ReflTransGen.head (.driven v id rounds e e₁ out.1 out.2 he hfed ?_ hdrives) ?_,
        ReflTransGen.head (.touched _ id e₁ _ hfound (keeps_driveExchange hdrive)) ?_⟩
      · rw [hconfig]
        exact hdrive
      · have hafter : w₅.data.view = out.1.replies.foldl View.reply w₁.data.view :=
          acts_replyAll out.1.replies w₁ _ w₅ hreplies
        rw [← hview, ← hafter]
        exact hrest.1
      · rw [← hpools, ← still_pools_replyAll _ w₁ _ w₅ hreplies]
        exact hrest.2

theorem fed_joint {rounds : ℕ} {w₁ : World Cell (Client U)} {g : Exchange U → Exchange U}
    (hfeed : (updateState fun s => match s.exchanges id with
      | none => s
      | some e => s.setExchange id (some (g e)) : Handler U Unit) w = .ok (a, w₁))
    (h : driveInput rounds id w₁ = .ok (a, w'))
    (hg : ∀ e, w.data.state.exchanges id = some e → Fed e (g e))
    (hk : ∀ e d pause, w.data.state.exchanges id = some e →
      driveExchange w.data.config rounds id (g e) = some (d, pause) → k.drives id d) :
    Joint k action c w.data.both w'.data.both := by
  obtain ⟨-, hdata⟩ := within_eq_ok hfeed
  cases he : w.data.state.exchanges id with
  | none =>
    simp only [Client.onState, he] at hdata
    have hsame : w₁.data = w.data := hdata
    rw [← hsame]
    exact driveInput_joint h (View.ready_self _ id) (by simp [hsame, he])
  | some e =>
    simp only [Client.onState, he] at hdata
    have hready : w.data.view.Ready id w₁.data.view := by
      rw [hdata]
      exact .inr ⟨e, g e, he, hg e he, rfl⟩
    have hdriven : _ ∧ ReflTransGen (Shift action c) _ _ := driveInput_joint h hready <| by
      intro e' d pause hfound hdrive
      rw [hdata] at hfound hdrive
      have hfed : some (g e) = some e' := by
        rw [← hfound]
        exact (Function.update_self id _ w.data.state.exchanges).symm
      cases hfed
      exact hk e d pause he hdrive
    refine ⟨hdriven.1, ReflTransGen.head (.touched _ id e _ he (hg e he).keeps) ?_⟩
    have hpools := hdriven.2
    rw [hdata] at hpools
    exact hpools

theorem onData_joint {rounds : ℕ} {data : Bytes}
    (h : onData rounds transport data w = .ok (a, w'))
    (hk : ∀ id e d pause, w.data.state.active transport = some id →
      w.data.state.exchanges id = some e →
      driveExchange w.data.config rounds id { e with input := e.input ++ data } = some (d, pause) →
      k.drives id d) :
    Joint k (.data transport data) w.data.pools w.data.both w'.data.both := by
  obtain ⟨id, w₁, hid, h⟩ := bind_eq_ok h
  obtain ⟨rfl, hsame⟩ := within_eq_ok hid
  have hdata : w₁.data = w.data := hsame
  cases hid : w.data.state.active transport with
  | none =>
    simp only [Client.onState, hid] at h
    have hview := (quiet_shutdown (U := U) transport).bind fun _ => quiet_forgetTransport transport
    have hpools := (still_pools_shutdown (U := U) transport).acts fun _ =>
      acts_pools_forgetTransport transport
    rw [← hdata]
    refine ⟨hview.moves w₁ a w' h, ?_⟩
    rw [show w'.data.both.2 = _ from hpools w₁ a w' h]
    exact .single (.forgot transport (if_pos (hdata ▸ hid)))
  | some id =>
    simp only [Client.onState, hid] at h
    obtain ⟨_, w₂, hfeed, h⟩ := bind_eq_ok h
    rw [← hdata]
    refine fed_joint hfeed h (fun e _ => .data e data) ?_
    rw [hdata]
    exact fun e d pause => hk id e d pause hid

/-- **The end of a connection** ends the body that it delimits, and cancels any other exchange. -/
theorem onClosed_joint {rounds : ℕ} {error : Option String}
    (h : onClosed rounds transport error w = .ok (a, w'))
    (hd : ∀ id, w.data.state.active transport = some id →
      ¬ ((w.data.state.exchanges id).any endsWithClose = true ∧ error = none) → k.doomed id)
    (hk : ∀ id e d pause, w.data.state.active transport = some id →
      w.data.state.exchanges id = some e → endsWithClose e = true → error = none →
      driveExchange w.data.config rounds id
        { e with bodyEnded := true, proto := some .done, reusable := some false } = some (d, pause) →
      k.drives id d) :
    Joint k (.closed transport error) w.data.pools w.data.both w'.data.both := by
  obtain ⟨id, w₁, hid, h⟩ := bind_eq_ok h
  have hview₁ := quiet_withState (fun _ => ⟨rfl, rfl⟩) w id w₁ hid
  obtain ⟨rfl, hdata⟩ := within_eq_ok hid
  obtain ⟨_, w₂, hforget, h⟩ := bind_eq_ok h
  have hview₂ : w₂.data.view = w.data.view :=
    (quiet_forgetTransport transport w₁ _ w₂ hforget).trans hview₁
  have hpools₂ : w₂.data.pools = w.data.pools.forget transport := by
    rw [acts_pools_forgetTransport transport w₁ _ w₂ hforget, hdata]
    show Pools.mk _ _ _ _ _ = Pools.mk _ _ _ _ _
    congr 1
    show State.mk _ _ (Function.update (Function.update w.data.state.active transport none)
      transport none) _ _ _ _ _ _ _ = State.mk _ _ _ _ _ _ _ _ _ _
    rw [Function.update_idem]
    rfl
  cases hid : w.data.state.active transport with
  | none =>
    simp only [Client.onState, hid] at h
    refine ⟨?_, ?_⟩
    · rw [show w.data.both.1 = w₂.data.view from hview₂.symm]
      exact quiet_wakeQueued.moves w₂ a w' h
    · rw [show w'.data.both.2 = _ from acts_pools_wakeQueued w₂ a w' h, hpools₂]
      exact .single (.lapsed transport)
  | some id =>
    simp only [Client.onState, hid] at h
    obtain ⟨delimited, w₃, hdelim, h⟩ := bind_eq_ok h
    obtain ⟨rfl, hsame⟩ := within_eq_ok hdelim
    have hview : w₃.data.view = w.data.view := (congrArg Client.view hsame).trans hview₂
    have hpools : w₃.data.pools = w.data.pools.forget transport :=
      (congrArg Client.pools hsame).trans hpools₂
    have hexchanges : w₃.data.state.exchanges = w.data.state.exchanges :=
      congrArg View.exchanges hview
    have hconfig : w₃.data.config = w.data.config := congrArg View.config hview
    -- the connection is forgotten first, if no queued start is woken for it
    have hforgot : (match w.data.state.exchanges id with
        | none => some transport
        | some e => if endsWithClose e = true ∧ error = none then some transport else none)
          = some transport →
        Joint k (.closed transport error) w.data.pools w₃.data.both w'.data.both →
        Joint k (.closed transport error) w.data.pools w.data.both w'.data.both := by
      intro hforgets hjoint
      refine ⟨?_, ReflTransGen.head (.forgot transport ?_) ?_⟩
      · rw [show w.data.both.1 = w₃.data.view from hview.symm]
        exact hjoint.1
      · show (w.data.state.active transport).bind _ = _
        rw [hid]
        exact hforgets
      · rw [← hpools]
        exact hjoint.2
    have hexchanges₂ : w₂.data.state.exchanges = w.data.state.exchanges :=
      congrArg View.exchanges hview₂
    simp only [Client.onState, hexchanges₂] at h
    cases he : w.data.state.exchanges id with
    | none =>
      rw [he] at h hforgot
      exact hforgot rfl ((does_cancel (hd id hid (by simp [he]))).joint h)
    | some e =>
      rw [he] at h hforgot
      split at h
      · rename_i hends
        obtain ⟨_, w₄, hfeed, h⟩ := bind_eq_ok h
        have hfound : ∀ e', w₃.data.state.exchanges id = some e' → e' = e := by
          rw [hexchanges, he]
          exact fun e' hsome => (some.inj hsome).symm
        refine hforgot (if_pos hends) (fed_joint hfeed h ?_ ?_)
        · exact fun e' he' => .close e' (hfound e' he' ▸ hends.1)
        · intro e' d pause he' hdrive
          rw [hfound e' he', hconfig] at hdrive
          exact hk id e d pause hid he hends.1 hends.2 hdrive
      · rename_i hcancel
        refine ⟨?_, ?_⟩
        · have hdoomed : Does k (.closed transport error) w.data.pools _ :=
            does_cancel (hd id hid (he ▸ hcancel))
          rw [show w.data.both.1 = w₃.data.view from hview.symm]
          exact (hdoomed.joint h).1
        · rw [show w'.data.both.2 = _ from acts_pools_cancel id w₃ a w' h, hpools]
          exact .single (.cut transport error id e rfl hid he)

/-! ### The response, and timers -/

theorem acts_waitResponse (id : ℕ) (pending : Pending) :
    Acts Client.view (fun v => v.waitResponse id pending)
      (waitResponse id pending : Handler U Unit) := by
  intro w a w' h
  obtain ⟨answer, w₁, htake, h⟩ := bind_eq_ok h
  obtain ⟨rfl, hdata⟩ := within_eq_ok htake
  show w'.data.view = w.data.view.waitResponse id pending
  unfold View.waitResponse
  cases he : w.data.state.exchanges id with
  | none =>
    simp only [Client.onState, he] at h hdata
    rw [show w.data.view.exchanges id = none from he, acts_reply _ _ _ w₁ a w' h, hdata]
    rfl
  | some e =>
    simp only [Client.onState, he] at h hdata
    rw [show w.data.view.exchanges id = some e from he]
    dsimp only
    cases hans : (e.takeResponse pending).2 with
    | some answer =>
      simp only [hans] at h
      rw [acts_reply _ _ _ w₁ a w' h, hdata]
      rfl
    | none =>
      simp only [hans] at h
      have hquiet := (quiet_readConfig (U := U) fun _ => ()).bind fun _ =>
        quiet_arm (.waitTimeout id pending.session false)
      rw [hquiet w₁ a w' h, hdata]
      rfl

theorem shifts_waitResponse (id : ℕ) (pending : Pending) :
    Moves Client.pools (Shift action c) (waitResponse id pending : Handler U Unit) := by
  apply Moves.bind
  · apply moves_within
    intro d
    cases he : d.state.exchanges id with
    | none =>
      simp only [Client.onState, he]
      exact .refl
    | some e =>
      simp only [Client.onState, he]
      exact .single (.touched d.pools id e _ he (keeps_takeResponse e pending))
  intro answer
  split
  · exact (still_pools_reply _ _ _).moves
  · apply (still_pools_readConfig _).moves.bind
    intro _
    exact (still_pools_arm _).moves

/-- What a timer for `100 Continue` does first: it moves an exchange that waits for it, and takes the
protocol state from any other. -/
theorem stopWaiting_steps {v : View U} {e : Exchange U} (he : v.exchanges id = some e)
    (hl : e.proto.all Proto.isAwait100 = false → k.late id) (hs : k.stops id e) :
    Change k v (v.set id (some e.stopWaiting100.1)) := by
  cases hawait : e.proto.all Proto.isAwait100 with
  | true => exact .touched v id e _ he (.stopWaiting e hawait) fun _ => hs
  | false =>
    have hlost : e.stopWaiting100.1 = { e with proto := none } := by
      unfold Exchange.stopWaiting100
      split
      · rename_i call hproto
        rw [hproto] at hawait
        cases hawait
      · rfl
    rw [hlost]
    exact .lost v id e he (hl hawait) hawait

theorem continueTimeout_joint {rounds : ℕ} (h : continueTimeout rounds id w = .ok (a, w'))
    (hl : ∀ e, w.data.state.exchanges id = some e → e.proto.all Proto.isAwait100 = false → k.late id)
    (hs : ∀ e, w.data.state.exchanges id = some e → k.stops id e)
    (hk : ∀ e d pause, w.data.state.exchanges id = some e → e.stopWaiting100.2.2.2 = true →
      driveExchange w.data.config rounds id e.stopWaiting100.1 = some (d, pause) → k.drives id d) :
    Joint k action c w.data.both w'.data.both := by
  obtain ⟨result, w₁, htaken, h⟩ := bind_eq_ok h
  obtain ⟨rfl, hdata⟩ := within_eq_ok htaken
  cases he : w.data.state.exchanges id with
  | none =>
    simp only [Client.onState, he] at h hdata
    cases h
    rw [hdata]
    exact ⟨.refl, .refl⟩
  | some e =>
    simp only [Client.onState, he] at h hdata
    have hview : w₁.data.view = w.data.view.set id (some e.stopWaiting100.1) := by
      rw [hdata]
      rfl
    have hfirst : Change k w.data.view w₁.data.view := by
      rw [hview]
      exact stopWaiting_steps he (hl e he) (hs e he)
    have htouched : Shift action c w.data.pools w₁.data.pools := by
      rw [hdata]
      exact .touched w.data.pools id e _ he (keeps_stopWaiting100 e)
    obtain ⟨_, w₂, hreply, h⟩ := bind_eq_ok h
    have hreplied : Joint k action c w₁.data.both w₂.data.both :=
      (does_replyTo rfl _ _).joint hreply
    have hview₂ : w₂.data.view = w₁.data.view.replyTo _ _ _ := acts_replyTo _ _ _ w₁ _ w₂ hreply
    have hrest : Joint k action c w₂.data.both w'.data.both := by
      cases hjob : e.stopWaiting100.2.1 with
      | some job =>
        simp only [hjob] at h
        exact (does_writeAndReply id _ _ none).joint h
      | none =>
        simp only [hjob] at h
        cases htransition : e.stopWaiting100.2.2.2 with
        | false =>
          simp only [htransition, onlyIf] at h
          cases h
          exact ⟨.refl, .refl⟩
        | true =>
          simp only [htransition, onlyIf] at h
          refine driveInput_joint h (View.ready_self _ id) ?_
          intro e' d pause hfound hdrive
          have hexchanges : w₂.data.state.exchanges = w₁.data.state.exchanges := by
            have := congrArg View.exchanges hview₂
            rwa [exchanges_replyTo] at this
          have hconfig : w₂.data.config = w.data.config := by
            have := congrArg View.config hview₂
            rw [config_replyTo, hview] at this
            exact this
          have hfed : some e.stopWaiting100.1 = some e' := by
            rw [← hfound, hexchanges, hdata]
            exact (Function.update_self id _ w.data.state.exchanges).symm
          cases hfed
          rw [hconfig] at hdrive
          exact hk e d pause he htransition hdrive
    exact ⟨ReflTransGen.head hfirst (hreplied.1.trans hrest.1),
      ReflTransGen.head htouched (hreplied.2.trans hrest.2)⟩

theorem expire_none {e : Exchange U} {session : ℕ} {body : Bool}
    (h : (e.expire id session body).2 = none) : (e.expire id session body).1 = e := by
  cases body with
  | true =>
    by_cases hs : e.bodyWaiter.any (·.session = session) = true
    · cases hw : e.bodyWaiter with
      | none => simp [hw] at hs
      | some p =>
        have hsession : p.session = session := by simpa [hw] using hs
        simp [Exchange.expire, hw, hsession] at h
    · simp [Exchange.expire, hs]
  | false =>
    by_cases hs : e.responseWaiter.any (·.session = session) = true
    · cases hw : e.responseWaiter with
      | none => simp [hw] at hs
      | some p =>
        have hsession : p.session = session := by simpa [hw] using hs
        simp [Exchange.expire, hw, hsession] at h
    · simp [Exchange.expire, hs]

theorem waitTimeout_joint {session : ℕ} {body : Bool}
    (h : waitTimeout id session body w = .ok (a, w'))
    (hd : ∀ e, w.data.state.exchanges id = some e → (e.expire id session body).2.isSome = true → k.doomed id) :
    Joint k action c w.data.both w'.data.both := by
  obtain ⟨waiting, w₁, htake, h⟩ := bind_eq_ok h
  obtain ⟨rfl, hdata⟩ := within_eq_ok htake
  cases he : w.data.state.exchanges id with
  | none =>
    simp only [Client.onState, he] at h hdata
    cases h
    rw [hdata]
    exact ⟨.refl, .refl⟩
  | some e =>
    simp only [Client.onState, he] at h hdata
    have htouched : Shift action c w.data.pools w₁.data.pools := by
      rw [hdata]
      exact .touched w.data.pools id e _ he (keeps_expire e id session body)
    cases hx : (e.expire id session body).2 with
    | none =>
      simp only [hx] at h
      cases h
      refine ⟨?_, .single htouched⟩
      rw [hdata, expire_none hx]
      show ReflTransGen _ w.data.view (w.data.view.set id (some e))
      rw [View.set_self _ id _ he]
    | some waiting =>
      simp only [hx] at h
      have hdoom := hd e he (by rw [hx]; rfl)
      obtain ⟨_, w₂, hreply, h⟩ := bind_eq_ok h
      have hanswer : Change k w.data.view w₂.data.view := by
        rw [acts_reply _ _ _ w₁ _ w₂ hreply, hdata]
        exact .expired w.data.view id e _ waiting.1 waiting.2 session body _ he
          (Prod.ext rfl hx) hdoom
      have hrest : Joint k action c w₂.data.both w'.data.both := (does_cancel hdoom).joint h
      refine ⟨ReflTransGen.head hanswer hrest.1, ReflTransGen.head htouched ?_⟩
      rw [← still_pools_reply _ _ _ w₁ _ w₂ hreply]
      exact hrest.2

theorem quiet_idleTimeout (transport : TransportId) (generation : ℕ) :
    Quiet (idleTimeout transport generation : Handler U Unit) := by
  apply Still.bind
  · exact quiet_withState fun _ => ⟨rfl, rfl⟩
  intro current
  apply still_onlyIf
  apply Still.bind
  · exact quiet_withState fun _ => ⟨rfl, rfl⟩
  intro removed
  apply still_onlyIf
  apply Still.bind
  · exact quiet_updateState fun _ => ⟨rfl, rfl⟩
  intro _
  exact quiet_discard transport

theorem idleTimeout_shifts {generation : ℕ} (h : idleTimeout transport generation w = .ok (a, w')) :
    ReflTransGen (Shift action w.data.pools) w.data.pools w'.data.pools := by
  obtain ⟨current, w₁, hcurrent, h⟩ := bind_eq_ok h
  obtain ⟨-, hsame⟩ := within_eq_ok hcurrent
  have hdata₁ : w₁.data = w.data := hsame
  unfold onlyIf at h
  split at h
  · obtain ⟨removed, w₂, hremove, h⟩ := bind_eq_ok h
    obtain ⟨rfl, hdata₂⟩ := within_eq_ok hremove
    rw [hdata₁] at hdata₂
    split at h
    · obtain ⟨_, w₃, hgeneration, h⟩ := bind_eq_ok h
      have hpools₃ : w₃.data.pools = w₂.data.pools := by
        rw [acts_pools_updateState (f := fun s => { s with
          idleGeneration := Function.update s.idleGeneration transport none }) (fun _ => rfl)
          w₂ _ w₃ hgeneration]
        rfl
      have hforget : w₂.data.pools.forget transport = w.data.pools.forget transport := by
        rw [hdata₂]
        show Pools.mk _ _ _ _ _ = Pools.mk _ _ _ _ _
        congr 1
        show State.mk _ _ _ _ ((w.data.state.idle.filter (·.2 ≠ transport)).filter
          (·.2 ≠ transport)) _ _ _ _ _ = State.mk _ _ _ _ (w.data.state.idle.filter
            (·.2 ≠ transport)) _ _ _ _ _
        rw [List.filter_filter]
        simp only [Bool.and_self]
        rfl
      rw [acts_pools_discard transport w₃ a w' h, hpools₃]
      dsimp only
      rw [hforget]
      exact .single (.lapsed transport)
    · rename_i hnone
      cases h
      have hfilter : w.data.state.idle.filter (·.2 ≠ transport) = w.data.state.idle := by
        rw [List.filter_eq_self]
        intro entry hentry
        have hnot : w₁.data.state.idle.any (·.2 = transport) = false := Bool.eq_false_iff.mpr hnone
        rw [hdata₁, List.any_eq_false] at hnot
        simpa using hnot entry hentry
      rw [hdata₂]
      show ReflTransGen _ w.data.pools (w.data.setState { w.data.state with
        idle := w.data.state.idle.filter (·.2 ≠ transport) }).pools
      rw [hfilter]
      exact .refl
  · cases h
    rw [hdata₁]

/-! ### Reading a body -/

theorem acts_nextTaken (id : ℕ) (via : Option (TransportId × Origin)) (pending : Pending)
    (answer : Option (Answer U)) (cleanup : Option (TransportId × Origin × Bool)) :
    Acts Client.view (fun v => v.nextTaken id via pending answer cleanup)
      (nextTaken id via pending answer cleanup) := by
  cases cleanup with
  | none =>
    have hrest := (quiet_readConfig (U := U) fun _ => ()).acts fun _ =>
      (quiet_arm (.waitTimeout id pending.session true)).acts_id
    exact (acts_replyWith (.next id via) pending answer).bind fun _ => hrest
  | some cleanup =>
    have hremove : Acts Client.view (fun v => v.set id none)
        (updateState fun s => s.setExchange id none : Handler U Unit) := by
      apply acts_within
      intro c
      rfl
    have hrest := (quiet_recycle (U := U) cleanup.1 cleanup.2.1 cleanup.2.2).acts fun _ => hremove
    exact (acts_replyWith (.next id via) pending answer).bind fun _ => hrest

theorem acts_pools_nextTaken (id : ℕ) (via : Option (TransportId × Origin)) (pending : Pending)
    (answer : Option (Answer U)) (transport : TransportId) (origin : Origin) (reusable : Bool) :
    Acts Client.pools (fun p => p.release id transport origin reusable)
      (nextTaken id via pending answer (some (transport, origin, reusable))) := by
  have hremove : Acts Client.pools (fun p => p.setExchange id none)
      (updateState fun s => s.setExchange id none : Handler U Unit) :=
    acts_pools_updateState fun _ => rfl
  exact (still_pools_replyWith _ _ _).acts fun _ =>
    (acts_pools_recycle transport origin reusable).bind fun _ => hremove

theorem still_pools_nextTaken (id : ℕ) (via : Option (TransportId × Origin)) (pending : Pending)
    (answer : Option (Answer U)) :
    Still Client.pools (nextTaken id via pending answer none) := by
  apply (still_pools_replyWith _ _ _).bind
  intro _
  apply (still_pools_readConfig _).bind
  intro _
  exact still_pools_arm _

/-- **`next_body`, case by case**: there is no exchange, the transport has to resume first, or the
answer goes out at once. -/
theorem nextBody_cases (h : nextBody id pending w = .ok (a, w')) :
    (w.data.state.exchanges id = none ∧ ∃ w₁, w₁.data = w.data
      ∧ reply (.next id none) pending (.failed .bodyClosed) w₁ = .ok (a, w'))
    ∨ ∃ e taken w₁, w.data.state.exchanges id = some e ∧ e.next w.data.config pending = taken
      ∧ w₁.data = w.data.setState (w.data.state.setExchange id (some taken.exchange))
      ∧ ((taken.resume = true ∧ suspend (.resuming id taken.exchange.via pending taken.answer
            taken.cleanup) w₁ = .ok (a, w'))
        ∨ (taken.resume = false ∧ nextTaken id taken.exchange.via pending taken.answer
            taken.cleanup w₁ = .ok (a, w'))) := by
  obtain ⟨taken, w₁, hguard, h⟩ := bind_eq_ok h
  obtain ⟨w₂, hblock, hdata⟩ := guarded_eq_ok hguard
  obtain ⟨found, w₃, hlook, hblock⟩ := bind_eq_ok hblock
  cases hlook
  cases he : w.data.state.exchanges id with
  | none =>
    simp only [he] at hblock
    cases hblock
    exact .inl ⟨rfl, w₁, hdata, h⟩
  | some e =>
    simp only [he] at hblock
    obtain ⟨_, w₄, hconfig, hblock⟩ := bind_eq_ok hblock
    have hstill : Still (fun d : Client U => d)
        (onlyIf e.paused (readConfig fun _ => ()) : Handler U Unit) :=
      still_onlyIf (still_within fun _ => rfl)
    have hsame := hstill _ _ w₄ hconfig
    dsimp only at hsame
    cases hblock
    refine .inr ⟨e, _, w₁, rfl, rfl, ?_, ?_⟩
    · rw [hdata, hsame]
    · dsimp only at h
      rw [hsame] at h
      split at h
      · rename_i hresume
        exact .inl ⟨hresume, h⟩
      · rename_i hresume
        exact .inr ⟨by simpa using hresume, h⟩

theorem acts_nextBody (id : ℕ) (pending : Pending) :
    Acts Client.view (fun v => v.nextBody id pending) (nextBody id pending : Handler U Unit) := by
  intro w a w' h
  show _ = View.nextBody w.data.view id pending
  unfold View.nextBody
  obtain ⟨he, w₁, hdata, h⟩ | ⟨e, taken, w₁, he, rfl, hdata, ⟨hresume, h⟩ | ⟨hresume, h⟩⟩ :=
    nextBody_cases h
  · rw [show w.data.view.exchanges id = none from he, acts_reply _ _ _ w₁ a w' h, hdata]
  · rw [show w.data.view.exchanges id = some e from he, acts_suspend _ w₁ a w' h, hdata]
    exact (if_pos hresume).symm
  · rw [show w.data.view.exchanges id = some e from he, acts_nextTaken _ _ _ _ _ w₁ a w' h, hdata]
    refine (if_neg ?_).symm
    rw [show (e.next w.data.view.config pending).resume = false from hresume]
    exact Bool.false_ne_true

theorem nextBody_shifts (h : nextBody id pending w = .ok (a, w')) :
    ReflTransGen (Shift action w.data.pools) w.data.pools w'.data.pools := by
  obtain ⟨-, w₁, hdata, h⟩ | ⟨e, taken, w₁, he, rfl, hdata, h⟩ := nextBody_cases h
  · rw [still_pools_reply _ _ _ w₁ a w' h, hdata]
  · have hpools : w₁.data.pools
        = w.data.pools.setExchange id (some (e.next w.data.config pending).exchange) := by
      rw [hdata]
      rfl
    rcases next_cases w.data.config e pending with
      ⟨hcleanup, hkeeps⟩ | ⟨reusable, hreusable, hcleanup, htransport, horigin, hproto, hspent⟩
    · rw [hcleanup] at h
      have htouched : Shift action w.data.pools w.data.pools _ :=
        .touched w.data.pools id e _ he hkeeps
      refine ReflTransGen.head htouched ?_
      rw [← hpools]
      rcases h with ⟨-, h⟩ | ⟨-, h⟩
      · rw [acts_pools_suspend _ w₁ a w' h]
        exact .single (.suspended _ _ rfl)
      · rw [still_pools_nextTaken _ _ _ _ w₁ a w' h]
    · rw [hcleanup] at h
      rcases h with ⟨-, h⟩ | ⟨-, h⟩
      · rw [acts_pools_suspend _ w₁ a w' h, hpools]
        exact .single (.returning id e _ reusable _ pending _ he hreusable htransport horigin hproto
          hspent)
      · rw [acts_pools_nextTaken _ _ _ _ _ _ _ w₁ a w' h, hpools]
        exact .single (.gave id e _ reusable he hreusable htransport horigin hproto hspent)

/-! ### Steps -/

theorem act_cases {turn : Turn U} {s s' : Service U} (h : act turn s = some s') :
    s.panicked = none ∧ ∃ m, handler turn.rounds s.world.data turn.action = some m
      ∧ ((∃ w', m s.world = .ok ((), w') ∧ s' = ⟨w', none⟩)
        ∨ ∃ cell, m s.world = .error (.lease cell) ∧ s' = ⟨s.world, some cell⟩) := by
  unfold act at h
  split at h
  · cases h
  · rename_i hcalm
    have hnone : s.panicked = none := by simpa using hcalm
    obtain ⟨m, hm, h⟩ := bind_eq_some_iff.mp h
    refine ⟨hnone, m, hm, ?_⟩
    split at h
    · rename_i w' hrun
      cases h
      exact .inl ⟨w', hrun, by rw [hnone]⟩
    · rename_i cell hrun
      cases h
      exact .inr ⟨cell, hrun, rfl⟩
    · cases h

theorem act_calm {turn : Turn U} {s s' : Service U} (h : act turn s = some s')
    (hcalm : s'.panicked = none) :
    ∃ m, handler turn.rounds s.world.data turn.action = some m ∧ m s.world = .ok ((), s'.world) := by
  obtain ⟨-, m, hm, ⟨w', hrun, rfl⟩ | ⟨cell, -, rfl⟩⟩ := act_cases h
  · exact ⟨m, hm, hrun⟩
  · cases hcalm

/-- The action reads a response: a `Response` or a `Next` command, or the end of a `Next` after a
resume. -/
def Action.reads (c : Client U) : Action U → Bool
  | .command _ (.response _) => true
  | .command _ (.next _) => true
  | .wake i _ => (c.tasks[i]?).any Task.isResuming
  | _ => false

def begun (c : Client U) : Action U → View U
  | .wake i _ => { c.view with tasks := c.tasks.eraseIdx i }
  | _ => c.view

theorem onCommand_joint {rounds : ℕ} {command : Command U}
    (h : onCommand rounds pending command w = .ok ((), w')) :
    ((Action.command pending command).reads w.data = false → ReflTransGen
      (Change (causes w.data ⟨.command pending command, rounds⟩)) w.data.view w'.data.view)
    ∧ ReflTransGen (Shift (.command pending command) w.data.pools) w.data.pools w'.data.pools := by
  have hboth : Joint (causes w.data ⟨.command pending command, rounds⟩) (.command pending command)
      w.data.pools w.data.both w'.data.both →
      ((Action.command pending command).reads w.data = false → ReflTransGen
        (Change (causes w.data ⟨.command pending command, rounds⟩)) w.data.view w'.data.view)
      ∧ ReflTransGen (Shift (.command pending command) w.data.pools) w.data.pools w'.data.pools :=
    fun h => ⟨fun _ => h.1, h.2⟩
  cases command with
  | start | resumeStart =>
    obtain ⟨hstart, hbegins⟩ := startExchange_begins h
    exact ⟨fun _ => hstart _ ⟨rfl, rfl⟩, hbegins.shifts rfl⟩
  | write id chunk => exact hboth ((does_writeCommand id pending chunk).joint h)
  | finish id => exact hboth ((does_finishRequest id pending).joint h)
  | response id => exact ⟨nofun, shifts_waitResponse id pending w _ w' h⟩
  | next id => exact ⟨nofun, nextBody_shifts h⟩
  | cancel id =>
    refine hboth (Does.joint ((does_cancel ?_).bind fun _ => does_reply rfl pending _) h)
    exact rfl
  | cancelStart token => exact hboth (cancelStart_joint h fun id hid => hid)
  | confirmStart token =>
    have hdoes : Does (causes w.data ⟨.command pending (.confirmStart token), rounds⟩)
        (.command pending (.confirmStart token)) w.data.pools
        (onCommand (U := U) rounds pending (.confirmStart token)) :=
      does_still (quiet_updateState fun _ => ⟨rfl, rfl⟩) (still_within fun _ => rfl)
    exact hboth (hdoes.joint h)
  | continueTimeout id =>
    refine hboth (continueTimeout_joint h (fun e he hlate => ⟨rfl, e, he, hlate⟩) (fun e he => ⟨rfl, he⟩) ?_)
    intro e d pause he htransition hdrive
    refine ⟨e.stopWaiting100.1, pause, ?_, hdrive⟩
    show (w.data.state.exchanges id).bind _ = _
    rw [he]
    exact if_pos htransition
  | waitTimeout id session body =>
    exact hboth (waitTimeout_joint h fun e he hexp => ⟨rfl, e, he, hexp⟩)
  | idleTimeout transport generation =>
    exact ⟨fun _ => (quiet_idleTimeout transport generation).moves w _ w' h, idleTimeout_shifts h⟩

theorem complete_joint (rounds : ℕ) {task : Task U} {completion : Completion}
    {rest : Handler U Unit} (hrest : complete task completion = some rest) {i : ℕ} {d : Client U}
    (htask : d.tasks[i]? = some task) (hdata : w.data = { d with tasks := d.tasks.eraseIdx i })
    (h : rest w = .ok ((), w')) :
    (task.isResuming = false → ReflTransGen (Change (causes d ⟨.wake i completion, rounds⟩))
      w.data.view w'.data.view)
    ∧ ReflTransGen (Shift (.wake i completion) d.pools) d.pools w'.data.pools := by
  have hpools : w.data.pools = d.pools.erase i := by
    rw [hdata]
    rfl
  have hplain : task.isPlain = true → ∀ {k}, Joint k (.wake i completion) d.pools w.data.both
      w'.data.both → ReflTransGen (Change k) w.data.view w'.data.view
        ∧ ReflTransGen (Shift (.wake i completion) d.pools) d.pools w'.data.pools := by
    intro hplain k hjoint
    refine ⟨hjoint.1, ReflTransGen.head (.woken i task htask hplain) ?_⟩
    rw [← hpools]
    exact hjoint.2
  fun_cases complete task completion with
  | case1 start origin call result =>
    cases hrest
    obtain ⟨hstart, hshifts⟩ := startWithConnect_shifts htask hpools h
    refine ⟨fun _ => hstart _ ⟨?_, ?_⟩, hshifts⟩
    · rw [hdata]
    · simp [Action.starts, htask, Task.isConnecting]
  | case2 id token pending result =>
    cases hrest
    refine (hplain rfl (startSent_joint h fun hfail => ?_)).imp_left fun h _ => h
    rw [show w.data.alive = d.alive by rw [hdata]] at hfail
    exact ⟨_, htask, rfl, hfail⟩
  | case3 id pending pause result =>
    cases hrest
    refine (hplain rfl (Does.joint ?_ h)).imp_left fun h _ => h
    exact (does_reply rfl pending _).bind fun _ => does_pauseTransport id pause
  | case4 id pending result =>
    cases hrest
    exact (hplain rfl ((does_reply rfl pending _).joint h)).imp_left fun h _ => h
  | case5 id via pending answer cleanup result =>
    cases hrest
    refine ⟨nofun, ?_⟩
    obtain ⟨_, w₁, hcancel, h⟩ := bind_eq_ok h
    have hcanceled : w₁.data.pools
        = if result.isOk then d.pools.erase i else (d.pools.erase i).cancel id := by
      cases hok : result.isOk with
      | true =>
        rw [hok] at hcancel
        cases hcancel
        exact hpools
      | false =>
        rw [hok] at hcancel
        rw [← hpools]
        exact acts_pools_cancel id w _ w₁ hcancel
    cases cleanup with
    | none =>
      refine ReflTransGen.head (.woken i _ htask rfl) ?_
      rw [still_pools_nextTaken id via pending answer w₁ _ w' h, hcanceled]
      split
      · exact .refl
      · exact .single (.canceled _ id)
    | some cleanup =>
      obtain ⟨transport, origin, reusable⟩ := cleanup
      rw [acts_pools_nextTaken _ _ _ _ _ _ _ w₁ _ w' h, hcanceled]
      exact .single (.returned i id via pending answer transport origin reusable result.isOk htask)
  | case6 id result =>
    cases hrest
    refine (hplain rfl (Does.joint (moves_onlyIf fun hfail => does_cancel ?_) h)).imp_left fun h _ => h
    exact ⟨_, htask, rfl, by simpa using hfail⟩
  | case7 => simp [complete, *] at hrest

/-- **Every step of the service changes the pools in these ways**, and one that does not read a
response is a sequence of changes. -/
theorem act_joint {turn : Turn U} {s s' : Service U} (h : act turn s = some s') :
    (s'.panicked = none → turn.action.reads s.world.data = false →
      ReflTransGen (Change (causes s.world.data turn))
        (begun s.world.data turn.action) s'.world.data.view)
    ∧ ReflTransGen (Shift turn.action s.world.data.pools) s.world.data.pools s'.world.data.pools := by
  obtain ⟨-, m, hm, ⟨w', hrun, rfl⟩ | ⟨cell, -, rfl⟩⟩ := act_cases h
  · obtain ⟨action, rounds⟩ := turn
    cases action with
    | command pending command =>
      cases hm
      exact (onCommand_joint hrun).imp_left fun h _ => h
    | data transport bytes =>
      cases hm
      refine And.imp_left (fun h _ _ => h) (onData_joint hrun ?_)
      intro id e d pause hid he hdrive
      refine ⟨_, pause, ?_, hdrive⟩
      show (s.world.data.state.active transport).bind _ = _
      rw [hid, bind_some, he]
      rfl
    | closed transport error =>
      cases hm
      refine And.imp_left (fun h _ _ => h)
        (onClosed_joint hrun (fun id hid hcancel => ⟨hid, hcancel⟩) ?_)
      intro id e d pause hid he hends herror hdrive
      refine ⟨_, pause, ?_, hdrive⟩
      show (s.world.data.state.active transport).bind _ = _
      rw [hid, bind_some, he, bind_some]
      exact if_pos ⟨hends, herror⟩
    | wake i completion =>
      obtain ⟨task, htask, hm⟩ := bind_eq_some_iff.mp hm
      obtain ⟨rest, hrest, rfl⟩ := map_eq_some_iff.mp hm
      obtain ⟨_, w₁, herase, hrun⟩ := bind_eq_ok hrun
      cases herase
      refine (complete_joint rounds hrest htask rfl hrun).imp_left fun h _ hread => h ?_
      simpa [Action.reads, htask] using hread
    | giveUp token =>
      cases hm
      cases hrun
      exact ⟨fun _ _ => .refl, .single (.left token)⟩
  · exact ⟨nofun, .refl⟩

end Rskynet.Http
