import Rskynet.Http.Story

/-!
# A complete response reaches its reader

`on_closed` cancels the exchange of a connection, whatever has been received. A response that is
complete is lost with it when its reader is slower than the close.

* `complete_response_obtained` — **PROVED**: in every run whose steps meet the condition, a response
  that has been received completely is told from beginning to end.
-/

namespace Rskynet.Http

open Cells Relation Interleave List Option

variable {U : Ureq}
variable {v : View U} {now : Option (U.Response × List Bytes)}
variable {id n : ℕ} {pending : Pending}

/-! ### The condition -/

/-- The reader of `id` asks one thing at a time, the head first, and nothing after the end. -/
def ReadsInOrder (c : Client U) (id : ℕ) : Action U → Prop
  | .command pending (.response i) => i = id → pending.session ≠ 0
    ∧ (c.view.desk id).outstanding = 0
    ∧ (c.state.exchanges id).any (fun e => !e.responseTaken) = true
  | .command pending (.next i) => i = id → pending.session ≠ 0
    ∧ (c.view.desk id).outstanding = 0
    ∧ (c.state.exchanges id).any (fun e => e.responseTaken) = true
    ∧ (c.view.desk id).heard.any Answer.isEnd = false
  | _ => True

/-- **Undisturbed**: the step does not cancel exchange `id` before its reader has heard the end of
the body, it keeps the reader's order, and it does not give the id to another exchange. -/
def Undisturbed (id : ℕ) (s : Service U) (turn : Turn U) : Prop :=
  (Cancels s.world.data id turn.action →
    (s.world.data.view.desk id).heard.any Answer.isEnd = true)
  ∧ ReadsInOrder s.world.data id turn.action
  ∧ (s.world.data.state.freshId = id ∧ turn.action.starts s.world.data = true →
    (s.world.data.state.exchanges id).isNone = true
      ∧ (s.world.data.view.desk id).heard.isEmpty = true)

def Action.asks (id : ℕ) : Action U → ℕ
  | .command _ (.response i) => if i = id then 1 else 0
  | .command _ (.next i) => if i = id then 1 else 0
  | _ => 0

def asked (id : ℕ) (turns : List (Turn U)) : ℕ := (turns.map fun turn => turn.action.asks id).sum

theorem asks_of_not_reads {c : Client U} {action : Action U} (h : action.reads c = false) :
    action.asks id = 0 := by
  cases action with
  | command pending command =>
    cases command with
    | response | next => cases h
    | start | write | finish | cancel | cancelStart | confirmStart | continueTimeout | waitTimeout
    | idleTimeout | resumeStart => rfl
  | data | closed | wake | giveUp => rfl

/-! ### One step -/

structure Tracked (id : ℕ) (now : Option (U.Response × List Bytes)) (n : ℕ) (v : View U) :
    Prop where
  sane : v.Every Exchange.Sane
  tended : (v.desk id).Tended
  told : Told now n (v.desk id)

theorem Change.sane {k : Causes U} {v' : View U} (h : Change k v v') (hv : v.Every Exchange.Sane) :
    v'.Every Exchange.Sane := by
  refine h.every ?_ ?_ ?_ ?_ ?_ hv
  · intro transport origin proto spec hproto
    exact sane_of_open rfl (by simpa [Exchange.fresh] using hproto) (suffix_refl [])
  · intro _ e e' ht _ he
    exact ht.requested.sane he
  · intro id e _ _ he
    exact sane_lost he
  · intro config rounds id e e₁ d pause hfed hd _ he
    exact sane_driveExchange (hfed.parsed he) hd
  · intro e id session body he
    exact sane_expire he id session body

theorem tracked_changes {s : Service U} {turn : Turn U} (hok : Undisturbed id s turn)
    (hs : Tracked id now n s.world.data.view) (hread : turn.action.reads s.world.data = false)
    (hpath : ReflTransGen (Change (causes s.world.data turn)) (begun s.world.data turn.action) v) :
    Tracked id now n v := by
  have hdesk := desk_begun id hread
  -- a step that gives the id to an exchange finds a reader that has heard and asked nothing
  have hfirst : (causes s.world.data turn).starts id → (s.world.data.view.desk id).heard = []
      ∧ (s.world.data.view.desk id).readers = [] ∧ n = 0 ∧ now = none := by
    intro hstarts
    obtain ⟨hnone, hempty⟩ := hok.2.2 hstarts
    have hx : (s.world.data.view.desk id).exchange = none := isNone_iff_eq_none.mp hnone
    have hheard : (s.world.data.view.desk id).heard = [] := by simpa using hempty
    cases hs.told with
    | unused hnow _ _ hreaders hn => exact ⟨hheard, hreaders, hn, hnow⟩
    | broken _ e he | reading e he | ending e head he => cases hx.symm.trans he
    | finished head decoded _ _ htold =>
      rw [hheard] at htold
      cases htold
  have hall : Tracked id now n v
      ∧ (v.desk id).readers = (s.world.data.view.desk id).readers
      ∧ (s.world.data.view.desk id).heard <+: (v.desk id).heard
      ∧ ((causes s.world.data turn).starts id →
        (v.desk id).heard = (s.world.data.view.desk id).heard) := by
    induction hpath with
    | refl =>
      rw [hdesk]
      refine ⟨⟨?_, ?_, ?_⟩, rfl, prefix_refl _, fun _ => rfl⟩
      · cases turn.action <;> exact hs.sane
      · rw [hdesk]
        exact hs.tended
      · rw [hdesk]
        exact hs.told
    | tail _ hlast ih =>
      obtain ⟨htracked, hreaders, hprefix, hsame⟩ := ih
      refine ⟨⟨hlast.sane htracked.sane, ?_, ?_⟩, hlast.readers.trans hreaders,
        hprefix.trans hlast.heard, fun hstarts => ?_⟩
      · unfold Desk.Tended
        rw [hlast.readers]
        exact htracked.tended
      · apply hlast.told htracked.sane
        · intro hcancels
          obtain ⟨a, ha, hend⟩ := any_eq_true.mp (hok.1 hcancels)
          exact any_eq_true.mpr ⟨a, hprefix.subset ha, hend⟩
        · intro hstarts
          obtain ⟨hheard, hnone, hn, hnow⟩ := hfirst hstarts
          exact ⟨(hsame hstarts).trans hheard, hreaders.trans hnone, hn, hnow⟩
        · exact htracked.told
      · exact (hlast.heard_of_starts hstarts.2).trans (hsame hstarts)
  exact hall.1

theorem tracked_response {other : ℕ} (hv : Tracked id now n v)
    (hok : other = id → pending.session ≠ 0 ∧ (v.desk id).outstanding = 0
      ∧ (v.exchanges id).any (fun e => !e.responseTaken) = true) :
    Told now (n + if other = id then 1 else 0) ((v.waitResponse other pending).desk id)
      ∧ ((v.waitResponse other pending).desk id).Tended := by
  have hreaders : ((v.waitResponse other pending).desk id).readers = (v.desk id).readers := by
    unfold View.desk
    rw [tasks_waitResponse]
  constructor
  · by_cases hid : other = id
    · subst hid
      obtain ⟨hsession, hidle, hhead⟩ := hok rfl
      rw [if_pos rfl]
      cases he : v.exchanges other with
      | none =>
        rw [he] at hhead
        cases hhead
      | some e =>
        rw [he] at hhead
        have htaken : e.responseTaken = false := by simpa using hhead
        have hdesk : (v.waitResponse other pending).desk other
            = { v.desk other with
                exchange := some (e.takeResponse pending).1
                heard := (v.desk other).heard ++ (e.takeResponse pending).2.toList } := by
          unfold View.waitResponse
          rw [he]
          rw [desk_replyWith_self _ _ _ rfl hsession, desk_set_self]
        rw [hdesk]
        exact hv.told.response he htaken hsession hidle
    · rw [if_neg hid, desk_waitResponse_other v pending hid]
      exact hv.told
  · unfold Desk.Tended
    rw [hreaders]
    exact hv.tended

theorem desk_nextBody_self {e : Exchange U} (he : v.exchanges id = some e)
    (hsession : pending.session ≠ 0) :
    (v.nextBody id pending).desk id = (v.desk id).answered pending (e.next v.config pending) := by
  unfold View.nextBody Desk.answered
  rw [he]
  dsimp only
  split
  · rw [desk_suspend, desk_set_self, Task.reader, if_pos rfl]
    rfl
  · rw [desk_nextTaken_self _ _ _ _ hsession, desk_set_self]

theorem tracked_next {other : ℕ} (hv : Tracked id now n v)
    (hok : other = id → pending.session ≠ 0 ∧ (v.desk id).outstanding = 0
      ∧ (v.exchanges id).any (fun e => e.responseTaken) = true
      ∧ (v.desk id).heard.any Answer.isEnd = false) :
    Told now (n + if other = id then 1 else 0) ((v.nextBody other pending).desk id)
      ∧ ((v.nextBody other pending).desk id).Tended := by
  by_cases hid : other = id
  · subst hid
    obtain ⟨hsession, hidle, hhead, hends⟩ := hok rfl
    rw [if_pos rfl]
    cases he : v.exchanges other with
    | none =>
      rw [he] at hhead
      cases hhead
    | some e =>
      rw [he] at hhead
      rw [desk_nextBody_self he hsession]
      refine ⟨hv.told.next v.config he hhead hsession hidle hends, ?_⟩
      unfold Desk.answered
      split
      · refine forall_mem_append.mpr ⟨hv.tended, forall_mem_singleton.mpr ?_⟩
        exact ⟨hsession, (next_reading v.config e pending).2.2.2⟩
      · exact hv.tended
  · rw [if_neg hid, desk_nextBody_other v pending hid]
    exact ⟨hv.told, hv.tended⟩

theorem tracked_resumed {other i : ℕ} {c : Client U} {result : Except HttpError Unit}
    {via : Option (TransportId × Origin)} {answer : Option (Answer U)}
    {cleanup : Option (TransportId × Origin × Bool)} (hv : Tracked id now n c.view)
    (hkept : Cancels c id (.wake i (.finished result)) → (c.view.desk id).heard.any Answer.isEnd = true)
    (htask : c.tasks[i]? = some (.resuming other via pending answer cleanup)) :
    Told now n (((if result.isOk then begun c (.wake i (.finished result))
        else (begun c (.wake i (.finished result))).cancel other).nextTaken other via pending
          answer cleanup).desk id)
      ∧ (((if result.isOk then begun c (.wake i (.finished result))
        else (begun c (.wake i (.finished result))).cancel other).nextTaken other via pending
          answer cleanup).desk id).Tended := by
  obtain ⟨before, after, hreaders, herase⟩ := readers_eraseIdx id htask
  have hbegun : (begun c (.wake i (.finished result))).desk id
      = { c.view.desk id with readers := before ++ after } := by
    unfold View.desk begun
    rw [herase]
  have htended : ∀ d : Desk U, d.readers = before ++ after → d.Tended := by
    intro d hd x hx
    apply hv.tended x
    rw [show (c.view.desk id).readers = _ from hreaders]
    rw [hd] at hx
    simp only [mem_append] at hx ⊢
    tauto
  by_cases hid : other = id
  · subst hid
    have hreader : (Task.resuming other via pending answer cleanup).reader other
        = some (pending, answer, cleanup.isSome) := if_pos rfl
    rw [hreader] at hreaders
    have hmem : (pending, answer, cleanup.isSome) ∈ (c.view.desk other).readers := by
      rw [show (c.view.desk other).readers = _ from hreaders]
      simp
    obtain ⟨hsession, hclean⟩ := hv.tended _ hmem
    have hresumed := hv.told.resumed hreaders hclean
    cases hok : result.isOk with
    | true =>
      rw [if_pos rfl, desk_nextTaken_self _ _ _ _ hsession, hbegun]
      exact ⟨hresumed, htended _ rfl⟩
    | false =>
      rw [if_neg nofun, desk_nextTaken_self _ _ _ _ hsession]
      -- the resume failed: the reader has heard the end before, so that this command owes nothing
      have hend := hkept ⟨_, htask, rfl, hok⟩
      obtain ⟨head, decoded, hx, howed, htold, hnow, hn⟩ := hv.told.of_end hend
      have hnone : answer = none := by
        cases answer with
        | none => rfl
        | some a =>
          have : a ∈ (c.view.desk other).owed := by
            exact mem_filterMap.mpr ⟨_, hmem, rfl⟩
          rw [howed] at this
          cases this
      subst hnone
      have hcancel : ((begun c (.wake i (.finished result))).cancel other).desk other
          = { c.view.desk other with exchange := none, readers := before ++ after } := by
        unfold View.cancel
        split
        · rename_i hgone
          rw [hbegun, ← show (c.view.desk other).exchange = none from hgone]
        · rename_i e he
          have he' : c.view.exchanges other = some e := he
          obtain ⟨-, hended, -⟩ := hx e he'
          have hsane := hv.sane other e he'
          rw [desk_canceled_idle _ (hsane.head (.inr hended)).1 (hsane.waiter hended), hbegun]
      rw [hcancel]
      have howed' : (before ++ after).filterMap (fun x => x.2.1) = [] := by
        unfold Desk.owed at howed
        rw [show (c.view.desk other).readers = _ from hreaders] at howed
        simp only [toList_some, filterMap_append, append_eq_nil_iff] at howed ⊢
        exact ⟨howed.1.1, howed.2⟩
      refine ⟨.finished head decoded ?_ howed' ?_ hnow ?_, htended _ rfl⟩
      · intro e he
        split at he <;> cases he
      · simpa using htold
      · simpa using hn
  · have hother : (Task.resuming other via pending answer cleanup).reader id = none := if_neg hid
    rw [hother] at hreaders
    have hsame : (begun c (.wake i (.finished result))).desk id = c.view.desk id := by
      rw [hbegun]
      rw [toList_none, append_nil] at hreaders
      rw [← hreaders]
      rfl
    rw [desk_nextTaken_other _ _ _ _ _ hid]
    split
    · rw [hsame]
      exact ⟨hv.told, hv.tended⟩
    · rw [desk_cancel_other _ hid, hsame]
      exact ⟨hv.told, hv.tended⟩

/-- **One step** that leaves a reader undisturbed moves it along its story. -/
theorem tracked_act {s s' : Service U} {turn : Turn U} (hs : Tracked id now n s.world.data.view)
    (hok : Undisturbed id s turn) (h : act turn s = some s') (hcalm : s'.panicked = none) :
    Tracked id now (n + turn.action.asks id) s'.world.data.view := by
  have hsane := sane_act hs.sane h
  cases act_outcome h with
  | stopped hworld hpanic =>
    rw [hcalm] at hpanic
    cases hpanic
  | changed hread _ hpath =>
    rw [asks_of_not_reads hread]
    exact tracked_changes hok hs hread hpath
  | response other pending haction _ hview =>
    have horder := hok.2.1
    rw [haction] at horder ⊢
    obtain ⟨htold, htended⟩ := tracked_response hs horder
    rw [← hview] at htold htended
    exact ⟨hsane, htended, htold⟩
  | next other pending haction _ hview =>
    have horder := hok.2.1
    rw [haction] at horder ⊢
    obtain ⟨htold, htended⟩ := tracked_next hs horder
    rw [← hview] at htold htended
    exact ⟨hsane, htended, htold⟩
  | resumed i other result via pending answer cleanup haction _ htask hview =>
    have hkept := hok.1
    rw [haction] at hkept hview ⊢
    obtain ⟨htold, htended⟩ := tracked_resumed hs hkept htask
    rw [← hview] at htold htended
    exact ⟨hsane, htended, htold⟩

/-! ### Runs -/

theorem calm_of_exec {turns : List (Turn U)} {s t : Service U} (h : exec act turns s = some t)
    (hcalm : t.panicked = none) : s.panicked = none := by
  cases turns with
  | nil =>
    cases h
    exact hcalm
  | cons turn turns =>
    obtain ⟨s', hs', -⟩ := bind_eq_some_iff.mp h
    exact (act_cases hs').1

theorem tracked_exec (turns : List (Turn U)) {s t : Service U}
    (hs : Tracked id now n s.world.data.view) (hok : along act (Undisturbed id) turns s)
    (h : exec act turns s = some t) (hcalm : t.panicked = none) :
    Tracked id now (n + asked id turns) t.world.data.view := by
  induction turns generalizing n s with
  | nil =>
    cases h
    exact hs
  | cons turn turns ih =>
    obtain ⟨s', hs', ht⟩ := bind_eq_some_iff.mp h
    have hstep := tracked_act hs hok.1 hs' (calm_of_exec ht hcalm)
    have hrest := ih hstep (hok.2 s' hs') ht
    rw [Nat.add_assoc] at hrest
    exact hrest

theorem Told.complete {d : Desk U} {e : Exchange U} (h : Told none n d) (he : d.exchange = some e)
    (hsane : e.Sane) (hended : e.bodyEnded = true) (herror : e.error = none) :
    ∃ head, (e.responseTaken = false → e.response = some head)
      ∧ Told (some (head, e.decoded)) n d := by
  have hvacuous : ∀ head, e.responseTaken = true →
      (e.responseTaken = false → e.response = some head) := by
    intro head htaken hfalse
    cases htaken.symm.trans hfalse
  cases h with
  | unused _ hx => cases hx.symm.trans he
  | broken _ e₀ hx herror' =>
    cases hx.symm.trans he
    rw [herror] at herror'
    cases herror'
  | reading e₀ hx _ htally _ =>
    cases hx.symm.trans he
    cases htally.accounts with
    | silent htaken htold hbody =>
      rcases (hsane.head (.inr hended)).2 with hsome | htrue
      · obtain ⟨head, hhead⟩ := isSome_iff_exists.mp hsome
        refine ⟨head, fun _ => hhead, .reading e hx herror htally ?_⟩
        intro x hx'
        cases hx'
        refine ⟨hended, rfl, fun _ => hhead, fun htrue => ?_⟩
        cases htaken.symm.trans htrue
      · cases htaken.symm.trans htrue
    | begun htaken head read htold hbody =>
      refine ⟨head, hvacuous head htaken, .reading e hx herror htally ?_⟩
      intro x hx'
      cases hx'
      refine ⟨hended, rfl, fun hfalse => ?_, fun _ => ?_⟩
      · cases htaken.symm.trans hfalse
      · rw [htold]
        rfl
  | ending e₀ head hx _ _ htaken howed htold _ hn =>
    cases hx.symm.trans he
    refine ⟨head, hvacuous head htaken, .ending e head hx herror hended htaken howed htold ?_ hn⟩
    intro x hx'
    cases hx'
    rfl
  | finished head decoded hx howed htold _ hn =>
    obtain ⟨-, -, htaken, hdecoded⟩ := hx e he
    subst hdecoded
    refine ⟨head, hvacuous head htaken, .finished head e.decoded hx howed htold ?_ hn⟩
    intro x hx'
    cases hx'
    rfl

/-- What the reader of a complete response has heard is the beginning of its story, and it has an
answer to every command but the ones it waits for. -/
theorem Told.heard {d : Desk U} {head : U.Response} {decoded : List Bytes}
    (h : Told (some (head, decoded)) n d) (hsane : ∀ e ∈ d.exchange, e.Sane) :
    d.heard <+: story head decoded ∧ n = d.heard.length + d.outstanding := by
  cases h with
  | unused hnow | broken hnow => cases hnow
  | reading e hx herror htally hnow =>
    have hknows := hnow _ rfl
    constructor
    · apply (prefix_append d.heard d.owed).trans
      cases htally.accounts with
      | silent _ htold =>
        rw [htold]
        exact nil_prefix
      | begun htaken head' read htold hbody =>
        have hread := hknows.read htaken
        rw [htold] at hread
        cases some.inj hread
        rw [htold]
        refine ⟨e.chunks.map piece ++ [.chunk none], ?_⟩
        have hdecoded : decoded = read ++ e.chunks := hknows.decoded.symm.trans hbody
        rw [hdecoded]
        simp [story]
    · rw [htally.count]
      unfold Desk.outstanding
      rw [hx]
      exact Nat.add_assoc _ _ _
  | ending e head' hx herror hended htaken howed htold hnow hn =>
    cases hnow _ rfl
    have hsane' := hsane e hx
    have hresponse : e.received.responseWaiter = none := (hsane'.head (.inr hended)).1
    have hbody : e.received.bodyWaiter = none := hsane'.waiter hended
    refine ⟨⟨[.chunk none], htold⟩, ?_⟩
    rw [hn]
    unfold Desk.outstanding
    rw [howed, hx]
    show _ = _ + (1 + e.received.waiting)
    rw [Received.waiting, hresponse, hbody]
    rfl
  | finished head' decoded' hx howed htold hnow hn =>
    cases hnow _ rfl
    refine ⟨⟨[], by rw [htold, append_nil]⟩, ?_⟩
    rw [hn]
    unfold Desk.outstanding
    rw [howed]
    cases he : d.exchange with
    | none => rfl
    | some e =>
      obtain ⟨-, hended, -⟩ := hx e he
      have hsane' := hsane e he
      have hresponse : e.received.responseWaiter = none := (hsane'.head (.inr hended)).1
      have hbody : e.received.bodyWaiter = none := hsane'.waiter hended
      show _ = _ + (0 + e.received.waiting)
      rw [Received.waiting, hresponse, hbody]
      rfl

/-- **A complete response is obtained.** In a run whose steps leave the reader of exchange `id`
undisturbed, once the response is complete the reader hears a beginning of its story, the head, the
decoded chunks in order and the end, with an answer to every command but those that wait for the
transport. -/
theorem complete_response_obtained (config : HttpClientConfig) (before after : List (Turn U))
    (s t : Service U) (id : ℕ) (e : Exchange U)
    (hok : along act (Undisturbed id) (before ++ after) (initial config))
    (hbefore : exec act before (initial config) = some s)
    (he : s.world.data.state.exchanges id = some e) (hended : e.bodyEnded = true)
    (herror : e.error = none) (hafter : exec act after s = some t) (hcalm : t.panicked = none) :
    ∃ head, (e.responseTaken = false → e.response = some head)
      ∧ (t.world.data.view.desk id).heard <+: story head e.decoded
      ∧ asked id (before ++ after) = (t.world.data.view.desk id).heard.length
        + (t.world.data.view.desk id).outstanding := by
  obtain ⟨hok₁, hok₂⟩ := along_append hbefore hok
  have hinit : Tracked (U := U) id none 0 (initial config).world.data.view := by
    refine ⟨?_, nofun, .unused rfl rfl rfl rfl rfl⟩
    intro i e he
    cases he
  have hs := tracked_exec before hinit hok₁ hbefore (calm_of_exec hafter hcalm)
  obtain ⟨head, hhead, htold⟩ := hs.told.complete he (hs.sane id e he) hended herror
  have ht := tracked_exec after ⟨hs.sane, hs.tended, htold⟩ hok₂ hafter hcalm
  obtain ⟨hheard, hcount⟩ := ht.told.heard fun e' he' => ht.sane id e' he'
  refine ⟨head, hhead, hheard, ?_⟩
  rw [← hcount]
  simp [asked]

/-! ### A connection that closes first -/

instance decidableExistsSome {α : Type} (o : Option α) (P : α → Prop) [DecidablePred P] :
    Decidable (∃ a, o = some a ∧ P a) :=
  match o with
  | none => isFalse (by rintro ⟨_, h, _⟩; cases h)
  | some a => decidable_of_iff (P a) ⟨fun h => ⟨a, rfl, h⟩, by rintro ⟨_, h, hp⟩; cases h; exact hp⟩

instance decidableFails (c : Client U) (result : Except HttpError Unit) (id : ℕ) :
    (task : Task U) → Decidable (task.Fails c result id)
  | .sendingHead i token _ =>
    inferInstanceAs (Decidable (i = id ∧ (result.isOk = false ∨ c.alive token = false)))
  | .resuming i _ _ _ _ => inferInstanceAs (Decidable (i = id ∧ result.isOk = false))
  | .pausing i => inferInstanceAs (Decidable (i = id ∧ result.isOk = false))
  | .connecting .. | .writing .. | .finishing .. => inferInstanceAs (Decidable False)

instance decidableCancels (c : Client U) (id : ℕ) :
    (action : Action U) → Decidable (Cancels c id action)
  | .command _ (.cancel i) => inferInstanceAs (Decidable (i = id))
  | .command _ (.cancelStart token) =>
    inferInstanceAs (Decidable (c.state.startTokens token = some id))
  | .command _ (.waitTimeout i session body) => inferInstanceAs (Decidable (i = id ∧
      ∃ e, c.state.exchanges id = some e ∧ (e.expire id session body).2.isSome = true))
  | .closed transport error => inferInstanceAs (Decidable (c.state.active transport = some id
      ∧ ¬ ((c.state.exchanges id).any endsWithClose = true ∧ error = none)))
  | .wake i (.finished result) =>
    inferInstanceAs (Decidable (∃ task, c.tasks[i]? = some task ∧ task.Fails c result id))
  | .wake _ (.connected _) | .data _ _ | .giveUp _ => inferInstanceAs (Decidable False)
  | .command _ (.start ..) | .command _ (.write ..) | .command _ (.finish _)
  | .command _ (.response _) | .command _ (.next _) | .command _ (.confirmStart _)
  | .command _ (.continueTimeout _) | .command _ (.idleTimeout ..)
  | .command _ (.resumeStart _) => inferInstanceAs (Decidable False)

instance decidableReadsInOrder (c : Client U) (id : ℕ) :
    (action : Action U) → Decidable (ReadsInOrder c id action)
  | .command pending (.response i) => inferInstanceAs (Decidable (i = id → pending.session ≠ 0
      ∧ (c.view.desk id).outstanding = 0
      ∧ (c.state.exchanges id).any (fun e => !e.responseTaken) = true))
  | .command pending (.next i) => inferInstanceAs (Decidable (i = id → pending.session ≠ 0
      ∧ (c.view.desk id).outstanding = 0
      ∧ (c.state.exchanges id).any (fun e => e.responseTaken) = true
      ∧ (c.view.desk id).heard.any Answer.isEnd = false))
  | .wake _ _ | .data _ _ | .giveUp _ | .closed _ _ => inferInstanceAs (Decidable True)
  | .command _ (.start ..) | .command _ (.write ..) | .command _ (.finish _)
  | .command _ (.cancel _) | .command _ (.cancelStart _) | .command _ (.confirmStart _)
  | .command _ (.continueTimeout _) | .command _ (.waitTimeout ..) | .command _ (.idleTimeout ..)
  | .command _ (.resumeStart _) => inferInstanceAs (Decidable True)

instance (id : ℕ) (s : Service U) (turn : Turn U) : Decidable (Undisturbed id s turn) :=
  inferInstanceAs (Decidable (_ ∧ _ ∧ _))

def received : List (Turn sample) := opened .plain ++ [⟨.data (.plain 1) [7, 65, 0], 9⟩]

def readThenClose : List (Turn sample) :=
  [⟨.command (caller 2) (.response 1), 9⟩, ⟨.command (caller 3) (.next 1), 9⟩,
   ⟨.command (caller 4) (.next 1), 9⟩, ⟨.closed (.plain 1) none, 9⟩]

def closeThenRead : List (Turn sample) :=
  [⟨.closed (.plain 1) none, 9⟩, ⟨.command (caller 2) (.response 1), 9⟩,
   ⟨.command (caller 3) (.next 1), 9⟩]

theorem received_end :
    ((exec act received (initial {})).bind fun s =>
      (exec act readThenClose s).bind fun t => (s.world.data.state.exchanges 1).map fun e =>
        (e.bodyEnded, e.error, e.decoded, t.panicked))
    = some (true, none, [[65]], none) := by
  decide +kernel

theorem obtained_of_readThenClose : ∃ s t e, exec act received (initial {}) = some s
    ∧ s.world.data.state.exchanges 1 = some e ∧ exec act readThenClose s = some t
    ∧ ∃ head, (e.responseTaken = false → e.response = some head)
      ∧ (t.world.data.view.desk 1).heard <+: story head e.decoded
      ∧ asked 1 (received ++ readThenClose) = (t.world.data.view.desk 1).heard.length
        + (t.world.data.view.desk 1).outstanding := by
  obtain ⟨s, hs, hmap⟩ := bind_eq_some_iff.mp received_end
  obtain ⟨t, ht, hmap⟩ := bind_eq_some_iff.mp hmap
  obtain ⟨e, he, hend⟩ := map_eq_some_iff.mp hmap
  simp only [Prod.mk.injEq] at hend
  obtain ⟨hended, herror, -, hcalm⟩ := hend
  exact ⟨s, t, e, hs, he, ht, complete_response_obtained {} received readThenClose s t 1 e
    (by decide +kernel) hs he hended herror ht hcalm⟩

/-- **The close loses the response.**  The response has been received completely, with its head and
its chunk queued; the connection closes before the reader asks, and both commands of the reader are
told that the body is closed. -/
theorem close_loses_response :
    ((exec act received (initial {})).bind fun s =>
      (exec act closeThenRead s).bind fun t => (s.world.data.state.exchanges 1).map fun e =>
        (e.bodyEnded, e.error, e.chunks,
          (t.world.data.view.desk 1).heard.map fun a => a matches .failed .bodyClosed))
    = some (true, none, [[65]], [true, true]) := by
  decide +kernel

end Rskynet.Http
