import Rskynet.Http.Protocol

/-!
# A finished exchange gives its connection back

The end of a body can be told from two places: `next_body`, which then recycles the connection, and
`drive_input`, which answers a parked `Next` command and does nothing else.

* `finished_exchange_released` — **PROVED**: every run releases what it finishes, if no step ends a
  parked reader's body or asks again for an end that is being told.
-/

namespace Rskynet.Http

open Cells Relation Interleave List Option

variable {U : Ureq}
variable {e : Exchange U} {v : View U} {c : Client U} {answer : Option (Answer U)}
variable {id : ℕ} {config : HttpClientConfig} {via : Option (TransportId × Origin)}
  {pending : Pending} {cleanup : Option (TransportId × Origin × Bool)}

/-! ### The end of a body -/

def Reply.endsBody (r : Reply U) : Bool :=
  match r.asked with
  | .next _ _ => r.answer.isEnd
  | _ => false

def Exchange.atEnd (e : Exchange U) : Bool :=
  e.chunks.isEmpty && e.error.isNone && e.bodyEnded

theorem atEnd_of_bodyAnswer {answer : Answer U} (h : (bodyAnswer e).1 = some answer)
    (hend : answer.isEnd = true) : e.atEnd = true := by
  unfold bodyAnswer at h
  split at h
  · cases h
    cases hend
  · rename_i hchunks
    split at h
    · cases h
      cases hend
    · rename_i herror
      split at h
      · rename_i hended
        simp [Exchange.atEnd, hchunks, herror, hended]
      · cases h

/-- The step drives received bytes to the end of a body whose reader is parked, and has no chunk for
it. -/
def endsParked (c : Client U) (turn : Turn U) : Bool :=
  match fedBy c turn.action with
  | none => false
  | some (id, e) => (driveLoop c.config id turn.rounds e).any fun d =>
    d.exchange.bodyWaiter.any (·.session ≠ 0) && d.exchange.atEnd

/-- The step asks for the next chunk of a body whose end is being told to another command. -/
def asksAgain (c : Client U) : Action U → Bool
  | .command pending (.next id) => pending.session ≠ 0
    && (c.state.exchanges id).any fun e => e.atEnd && e.reusable.isNone
  | _ => false

/-- The step neither ends the body of a parked reader nor asks again for an end that is being
told. -/
def Releasing (s : Service U) (turn : Turn U) : Prop :=
  endsParked s.world.data turn = false ∧ asksAgain s.world.data turn.action = false

instance (s : Service U) (turn : Turn U) : Decidable (Releasing s turn) :=
  inferInstanceAs (Decidable (_ ∧ _))

/-! ### Steps that tell no end -/

def NoEnd (v v' : View U) : Prop :=
  ∃ new, v'.replies = new ++ v.replies ∧ ∀ r ∈ new, r.endsBody = false

theorem NoEnd.refl (v : View U) : NoEnd v v := ⟨[], rfl, by simp⟩

theorem NoEnd.trans {v' v'' : View U} (h : NoEnd v v') (h' : NoEnd v' v'') : NoEnd v v'' := by
  obtain ⟨new, hnew, hend⟩ := h
  obtain ⟨new', hnew', hend'⟩ := h'
  refine ⟨new' ++ new, ?_, ?_⟩
  · rw [hnew', hnew, append_assoc]
  · exact forall_mem_append.mpr ⟨hend', hend⟩

theorem noEnd_reply (v : View U) {r : Reply U} (h : r.pending.session ≠ 0 → r.endsBody = false) :
    NoEnd v (v.reply r) := by
  unfold View.reply
  split
  · exact NoEnd.refl v
  · rename_i hsession
    refine ⟨[r], rfl, ?_⟩
    intro r' hr'
    rw [mem_singleton.mp hr']
    exact h hsession

theorem noEnd_replyTo (v : View U) (asked : Asked) (waiting : Option Pending) (e : HttpError) :
    NoEnd v (v.replyTo asked waiting (.failed e)) := by
  cases waiting with
  | none => exact NoEnd.refl v
  | some pending =>
    apply noEnd_reply
    intro _
    cases asked <;> rfl

theorem noEnd_replyAll (v : View U) (replies : List (Reply U))
    (h : ∀ r ∈ replies, r.pending.session ≠ 0 → r.endsBody = false) :
    NoEnd v (replies.foldl View.reply v) := by
  induction replies generalizing v with
  | nil => exact NoEnd.refl v
  | cons r replies ih =>
    apply (noEnd_reply v (h r mem_cons_self)).trans
    apply ih
    intro r' hr'
    exact h r' (mem_cons_of_mem r hr')

theorem noEnd_canceled (v : View U) (id : ℕ) (e : Exchange U) : NoEnd v (v.canceled id e) := by
  have hset : NoEnd v (v.set id none) := NoEnd.refl v
  apply hset.trans
  apply (noEnd_replyTo _ _ e.responseWaiter .canceled).trans
  apply (noEnd_replyTo _ _ e.bodyWaiter .canceled).trans
  exact noEnd_replyTo _ _ _ .canceled

theorem noEnd_cancel (v : View U) (id : ℕ) : NoEnd v (v.cancel id) := by
  unfold View.cancel
  split
  · exact NoEnd.refl v
  · exact noEnd_canceled v id _

theorem Turns.noEnd {round : Round U} (h : Turns id e round) :
    ∀ r ∈ round.replies, r.endsBody = false := by
  intro r hr
  cases h with
  | idle | waits | fails | parsed => cases hr
  | rejected =>
    obtain ⟨waiting, -, rfl⟩ := mem_map.mp hr
    rfl
  | taken =>
    rw [mem_singleton.mp hr]
    rfl
  | decoded _ _ _ _ _ _ _ hround => rcases hround with rfl | rfl <;> cases hr

theorem driveLoop_noEnd {rounds : ℕ} {d : Driven U} (h : driveLoop config id rounds e = some d) :
    ∀ r ∈ d.replies, r.endsBody = false := by
  refine driveLoop_rule (P := fun _ replies => ∀ r ∈ replies, r.endsBody = false) ?_
    nofun h
  exact fun e replies round ht hreplies => forall_mem_append.mpr ⟨hreplies, ht.noEnd⟩

/-- An answer that `drive_input` sends and that ends a body goes to a parked reader. -/
theorem driveExchange_noEnd {rounds : ℕ} {d : Driven U} {pause : Option TransportId}
    (h : driveExchange config rounds id e = some (d, pause))
    (hparked : ((driveLoop config id rounds e).any fun d =>
      d.exchange.bodyWaiter.any (·.session ≠ 0) && d.exchange.atEnd) = false) :
    ∀ r ∈ d.replies, r.pending.session ≠ 0 → r.endsBody = false := by
  obtain ⟨d', hd', hcloses⟩ := driveExchange_closes h
  rw [hd'] at hparked
  have hnext : ∀ e' next, Answered id d'.exchange e' next →
      ∀ r ∈ d'.replies ++ next, r.pending.session ≠ 0 → r.endsBody = false := by
    intro e' next hanswered r hr hsession
    rcases mem_append.mp hr with hr | hr
    · exact driveLoop_noEnd hd' r hr
    · cases hanswered with
      | silent => cases hr
      | told waiting answer rest hwaiter hanswer =>
        rw [mem_singleton.mp hr] at hsession ⊢
        show answer.isEnd = false
        by_contra hend
        have hatEnd := atEnd_of_bodyAnswer (e := d'.exchange) (by rw [hanswer])
          (by simpa using hend)
        rw [any_some, hwaiter, hatEnd] at hparked
        simp [hsession] at hparked
  intro r hr hsession
  cases hcloses with
  | quiet e' next paused hanswered => exact hnext e' next hanswered r hr hsession
  | failed e' next paused reason waiting hanswered =>
    rcases mem_append.mp hr with hr | hr
    · exact hnext e' next hanswered r hr hsession
    · rw [mem_singleton.mp hr]
      rfl

/-- **A change tells no end**, unless it drives a parked reader's body to its end. -/
theorem Change.noEnd {turn : Turn U} {v' : View U} (h : Change (causes c turn) v v')
    (hparked : endsParked c turn = false) : NoEnd v v' := by
  cases h with
  | answered r hr =>
    apply noEnd_reply
    intro _
    unfold Reply.endsBody
    split
    · rename_i hasked
      rw [hasked] at hr
      cases hr
    · rfl
  | suspended | inserted | touched | lost => exact NoEnd.refl v
  | canceled id e he hd => exact noEnd_canceled v id e
  | driven id rounds e e₁ d pause he hfed hd hk =>
    obtain ⟨e₂, pause', hfedBy, hdrive⟩ := hk
    have hset : NoEnd v (v.set id (some d.exchange)) := NoEnd.refl v
    apply hset.trans
    apply noEnd_replyAll
    apply driveExchange_noEnd hdrive
    unfold endsParked at hparked
    rw [hfedBy] at hparked
    exact hparked
  | expired id e e' asked pending session body error he hx hd =>
    have hset : NoEnd v (v.set id (some e')) := NoEnd.refl v
    apply hset.trans
    apply noEnd_reply
    intro _
    cases asked <;> rfl

theorem noEnd_waitResponse (v : View U) (id : ℕ) (pending : Pending) :
    NoEnd v (v.waitResponse id pending) := by
  unfold View.waitResponse
  split
  · exact noEnd_reply v fun _ => rfl
  · rename_i e he
    have hset : NoEnd v (v.set id (some (e.takeResponse pending).1)) := NoEnd.refl v
    apply hset.trans
    cases (e.takeResponse pending).2 with
    | none => exact NoEnd.refl _
    | some answer => exact noEnd_reply _ fun _ => rfl

/-! ### What `recycle` leaves -/

/-- The connection is not active, and it is pooled, or shut down and forgotten. -/
def Settled (c : Client U) (transport : TransportId) (origin : Origin) : Prop :=
  c.state.active transport = none
    ∧ ((origin, transport) ∈ c.state.idle
      ∨ (transport ∈ c.shutdowns ∧ (∀ p ∈ c.state.idle, p.2 ≠ transport)
        ∧ ∀ p ∈ c.state.origins, p.1 ≠ transport))

/-- **Released**: the exchange is gone and its connection is settled. -/
def Released (c : Client U) (id : ℕ) (transport : TransportId) (origin : Origin) : Prop :=
  c.state.exchanges id = none ∧ Settled c transport origin

theorem Settled.wake {transport : TransportId} {origin : Origin} (h : Settled c transport origin) :
    Settled c.wake transport origin := by
  unfold Client.wake State.popEligible
  dsimp only
  split
  · split
    · exact h
    · exact h
  · split
    · exact h
    · exact h

theorem settled_discard (c : Client U) (transport : TransportId) (origin : Origin) :
    Settled (c.discard transport) transport origin := by
  refine Settled.wake ⟨Function.update_self transport _ c.state.active, .inr ⟨?_, ?_, ?_⟩⟩
  · exact mem_cons_self
  · intro p hp
    simpa using (mem_filter.mp hp).2
  · intro p hp
    simpa using (mem_filter.mp hp).2

/-- **`recycle` settles the connection**: it is pooled while it is not active, or discarded. -/
theorem settled_recycle (c : Client U) (transport : TransportId) (origin : Origin)
    (reusable : Bool) : Settled (c.recycle transport origin reusable) transport origin := by
  unfold Client.recycle
  dsimp only
  split
  · refine Settled.wake ⟨Function.update_self transport _ c.state.active, .inl ?_⟩
    exact mem_append_right _ mem_cons_self
  · exact settled_discard _ transport origin

theorem nextTaken_released {transport : TransportId} {origin : Origin} {reusable : Bool}
    {w w' : World Cell (Client U)} {a : Unit}
    (h : nextTaken id via pending answer (some (transport, origin, reusable)) w = .ok (a, w')) :
    Released w'.data id transport origin := by
  obtain ⟨_, w₁, -, h⟩ := bind_eq_ok h
  obtain ⟨_, w₂, hrecycle, h⟩ := bind_eq_ok h
  have hsettled : Settled w₂.data transport origin := by
    rw [show w₂.data = _ from acts_recycle transport origin reusable w₁ _ w₂ hrecycle]
    exact settled_recycle w₁.data transport origin reusable
  obtain ⟨-, hdata⟩ := within_eq_ok h
  rw [hdata]
  exact ⟨Function.update_self id _ w₂.data.state.exchanges, hsettled⟩

/-! ### Readers that wait for a resume -/

/-- A suspended reader that is going to tell an end has the connection to recycle. -/
def Task.Orderly : Task U → Prop
  | .resuming _ via pending answer cleanup =>
    answer.any Answer.isEnd = true → pending.session ≠ 0 →
      ∃ transport origin reusable, cleanup = some (transport, origin, reusable)
        ∧ via = some (transport, origin)
  | _ => True

def View.Orderly (v : View U) : Prop := ∀ task ∈ v.tasks, task.Orderly

theorem atEnd_of_takeNext (h : (e.takeNext pending).2.any Answer.isEnd = true) :
    e.atEnd = true := by
  unfold Exchange.takeNext at h
  split at h
  · rename_i answer rest hanswer
    exact atEnd_of_bodyAnswer (by rw [hanswer]) h
  · split at h
    · cases h
    · cases h

theorem next_atEnd (h : (e.next config pending).answer.any Answer.isEnd = true) :
    e.atEnd = true
      ∧ (e.next config pending).cleanup
        = e.reusable.map (fun reusable => (e.transport, e.origin, reusable))
      ∧ (e.next config pending).exchange.via = e.via := by
  obtain ⟨_, _, htake⟩ := takeNext_shape e pending
  obtain ⟨hanswer, _, hnext⟩ := next_shape config e pending
  rw [hanswer] at h
  rw [if_pos h, htake] at hnext
  refine ⟨atEnd_of_takeNext h, hnext.2, ?_⟩
  rw [hnext.1]
  rfl

theorem next_cleanup (he : c.state.exchanges id = some e)
    (hagain : asksAgain c (.command pending (.next id)) = false)
    (hend : (e.next c.config pending).answer.any Answer.isEnd = true)
    (hsession : pending.session ≠ 0) :
    ∃ transport origin reusable,
      (e.next c.config pending).cleanup = some (transport, origin, reusable)
      ∧ (e.next c.config pending).exchange.via = some (transport, origin) := by
  obtain ⟨hatEnd, hcleanup, hvia⟩ := next_atEnd hend
  cases hreusable : e.reusable with
  | none => simp [asksAgain, he, hatEnd, hreusable, hsession] at hagain
  | some reusable =>
    rw [hreusable] at hcleanup
    exact ⟨e.transport, e.origin, reusable, hcleanup, hvia⟩

theorem View.Orderly.of_tasks {v' : View U} (h : v.Orderly) (hv : v'.tasks = v.tasks) :
    v'.Orderly := by
  intro task ht
  rw [hv] at ht
  exact h task ht

theorem View.Orderly.suspend (h : v.Orderly) {task : Task U} (ht : task.Orderly) :
    (v.suspend task).Orderly :=
  forall_mem_append.mpr ⟨h, forall_mem_singleton.mpr ht⟩

theorem Change.orderly {k : Causes U} {v' : View U} (h : Change k v v') (hv : v.Orderly) :
    v'.Orderly := by
  cases h with
  | answered r hr => exact hv.of_tasks (tasks_reply v r)
  | suspended task ht =>
    apply hv.suspend
    cases task with
    | resuming => cases ht
    | connecting | sendingHead | writing | finishing | pausing => trivial
  | inserted | touched | lost => exact hv
  | canceled id e he hd => exact hv.of_tasks (tasks_canceled v id e)
  | driven id rounds e e₁ d pause he hfed hd hk => exact hv.of_tasks (tasks_replyAll _ _)
  | expired id e e' asked pending session body error he hx hd => exact hv.of_tasks (tasks_reply _ _)

theorem orderly_nextBody (hc : c.view.Orderly)
    (hagain : asksAgain c (.command pending (.next id)) = false) :
    (c.view.nextBody id pending).Orderly := by
  unfold View.nextBody
  split
  · exact hc.of_tasks (tasks_reply _ _)
  · rename_i e he
    dsimp only
    split
    · apply View.Orderly.suspend
      · exact hc
      · intro hend hsession
        exact next_cleanup he hagain hend hsession
    · exact hc.of_tasks (tasks_nextTaken _ _ _ _ _ _)

theorem tasks_waitResponse (v : View U) (id : ℕ) (pending : Pending) :
    (v.waitResponse id pending).tasks = v.tasks := by
  unfold View.waitResponse
  split
  · exact tasks_reply v _
  · exact tasks_replyWith _ _ _ _

/-- **One step** keeps the suspended readers orderly. -/
theorem orderly_act {turn : Turn U} {s s' : Service U} (hs : s.world.data.view.Orderly)
    (hok : Releasing s turn) (h : act turn s = some s') : s'.world.data.view.Orderly := by
  apply act_rule h (I := View.Orderly)
  · intro v i hv task ht
    exact hv task (mem_of_mem_eraseIdx ht)
  · intro v v' hchange hv
    exact hchange.orderly hv
  · intro id pending
    exact hs.of_tasks (tasks_waitResponse _ id pending)
  · intro id pending hturn
    have hagain := hok.2
    rw [hturn] at hagain
    exact orderly_nextBody hs hagain
  · intro v id hv
    exact hv.of_tasks (tasks_cancel v id)
  · intro v id via pending answer cleanup hv
    exact hv.of_tasks (tasks_nextTaken v id via pending answer cleanup)
  · exact hs

/-! ### Runs -/

/-- Every answer since `v` that ends a body leaves its exchange released. -/
def EndsReleased (v : View U) (c : Client U) : Prop :=
  ∃ new, c.replies = new ++ v.replies ∧ ∀ r ∈ new, r.endsBody = true →
    ∃ id transport origin, r.asked = .next id (some (transport, origin))
      ∧ Released c id transport origin

theorem NoEnd.endsReleased (h : NoEnd v c.view) : EndsReleased v c := by
  obtain ⟨new, hnew, hend⟩ := h
  refine ⟨new, hnew, ?_⟩
  intro r hr hr'
  rw [hend r hr] at hr'
  cases hr'

theorem nextTaken_endsReleased {w w' : World Cell (Client U)} {a : Unit}
    (h : nextTaken id via pending answer cleanup w = .ok (a, w'))
    (hclean : answer.any Answer.isEnd = true → pending.session ≠ 0 →
      ∃ transport origin reusable, cleanup = some (transport, origin, reusable)
      ∧ via = some (transport, origin)) :
    EndsReleased w.data.view w'.data := by
  have hview : w'.data.view = w.data.view.nextTaken id via pending answer cleanup :=
    acts_nextTaken id via pending answer cleanup w a w' h
  have hreplies : w'.data.replies
      = (w.data.view.replyWith (.next id via) pending answer).replies := by
    have := congrArg View.replies hview
    unfold View.nextTaken at this
    split at this
    · exact this
    · exact this
  cases answer with
  | none => exact ⟨[], hreplies, by simp⟩
  | some answer =>
    by_cases hsession : pending.session = 0
    · refine ⟨[], ?_, by simp⟩
      rw [hreplies]
      show ((w.data.view).reply _).replies = _
      unfold View.reply
      rw [if_pos hsession]
      rfl
    · refine ⟨[⟨.next id via, pending, answer⟩], ?_, ?_⟩
      · rw [hreplies]
        show ((w.data.view).reply _).replies = _
        unfold View.reply
        rw [if_neg hsession]
        rfl
      · intro r hr hend
        rw [mem_singleton.mp hr] at hend ⊢
        obtain ⟨transport, origin, reusable, rfl, rfl⟩ := hclean hend hsession
        exact ⟨id, transport, origin, rfl, nextTaken_released h⟩

theorem EndsReleased.of_noEnd {v' : View U} (h : EndsReleased v' c) (hv : NoEnd v v') :
    EndsReleased v c := by
  obtain ⟨new, hnew, hend⟩ := h
  obtain ⟨old, hold, hquiet⟩ := hv
  refine ⟨new ++ old, ?_, ?_⟩
  · rw [hnew, hold, append_assoc]
  · intro r hr hr'
    rcases mem_append.mp hr with hr | hr
    · exact hend r hr hr'
    · rw [hquiet r hr] at hr'
      cases hr'

theorem next_endsReleased {rounds : ℕ} {s s' : Service U}
    (hok : Releasing s ⟨.command pending (.next id), rounds⟩)
    (h : act ⟨.command pending (.next id), rounds⟩ s = some s') (hcalm : s'.panicked = none) :
    EndsReleased s.world.data.view s'.world.data := by
  obtain ⟨m, hm, hrun⟩ := act_calm h hcalm
  cases hm
  obtain ⟨he, w₁, hdata, hrun⟩ | ⟨e, taken, w₁, he, rfl, hdata, ⟨-, hrun⟩ | ⟨-, hrun⟩⟩ :=
    nextBody_cases hrun
  · apply NoEnd.endsReleased
    rw [acts_reply _ _ _ w₁ _ _ hrun, hdata]
    exact noEnd_reply _ fun _ => rfl
  · apply NoEnd.endsReleased
    rw [acts_suspend _ w₁ _ _ hrun, hdata]
    exact NoEnd.refl _
  · have hends := nextTaken_endsReleased hrun
      fun hend hsession => next_cleanup he hok.2 hend hsession
    apply hends.of_noEnd
    rw [hdata]
    exact NoEnd.refl _

theorem resumed_endsReleased {i rounds : ℕ} {completion : Completion} {s s' : Service U}
    (hs : s.world.data.view.Orderly) (h : act ⟨.wake i completion, rounds⟩ s = some s')
    (hcalm : s'.panicked = none)
    (htask : s.world.data.tasks[i]? = some (.resuming id via pending answer cleanup)) :
    EndsReleased s.world.data.view s'.world.data := by
  have horderly := hs _ (mem_of_getElem? htask)
  obtain ⟨result, w, rfl, hrun, hview⟩ := act_resumed h hcalm htask
  apply (nextTaken_endsReleased hrun horderly).of_noEnd
  rw [hview]
  split
  · exact NoEnd.refl _
  · exact noEnd_cancel _ id

/-- **One step** that meets the condition releases every exchange whose end it tells. -/
theorem act_released {turn : Turn U} {s s' : Service U} (hs : s.world.data.view.Orderly)
    (hok : Releasing s turn) (h : act turn s = some s') :
    EndsReleased s.world.data.view s'.world.data := by
  cases act_outcome h with
  | stopped hworld hcalm =>
    rw [hworld]
    exact (NoEnd.refl _).endsReleased
  | changed hread hcalm hpath =>
    apply NoEnd.endsReleased
    have hbegun : NoEnd s.world.data.view (begun s.world.data turn.action) := by
      cases turn.action <;> exact NoEnd.refl _
    generalize s'.world.data.view = v' at hpath ⊢
    induction hpath with
    | refl => exact hbegun
    | tail _ hlast ih => exact ih.trans (hlast.noEnd hok.1)
  | response id pending haction hcalm hview =>
    apply NoEnd.endsReleased
    rw [hview]
    exact noEnd_waitResponse _ id pending
  | next id pending haction hcalm hview =>
    obtain ⟨action, rounds⟩ := turn
    cases haction
    exact next_endsReleased hok h hcalm
  | resumed i id result via pending answer cleanup haction hcalm htask hview =>
    obtain ⟨action, rounds⟩ := turn
    cases haction
    exact resumed_endsReleased hs h hcalm htask

/-- **Finished exchanges are released.**  Take a run whose steps all meet the condition: none drives
received bytes to the end of a body whose reader is parked, and none asks for another chunk while
the end is being told to an earlier `Next`.  Every step of it that tells a reader the end of its
body leaves that exchange out of the table and its connection inactive: in the pool of its origin,
or shut down and forgotten. -/
theorem finished_exchange_released (config : HttpClientConfig) (run : List (Turn U)) (turn : Turn U)
    (s s' : Service U) (hok : along act Releasing (run ++ [turn]) (initial config))
    (hrun : exec act run (initial config) = some s) (hturn : act turn s = some s') :
    ∃ new, s'.world.data.replies = new ++ s.world.data.replies ∧ ∀ r ∈ new,
      (∃ id via, r.asked = .next id via) → r.answer = .chunk none →
      ∃ id transport origin, r.asked = .next id (some (transport, origin))
        ∧ s'.world.data.state.exchanges id = none
        ∧ s'.world.data.state.active transport = none
        ∧ ((origin, transport) ∈ s'.world.data.state.idle
          ∨ (transport ∈ s'.world.data.shutdowns
            ∧ (∀ p ∈ s'.world.data.state.idle, p.2 ≠ transport)
            ∧ ∀ p ∈ s'.world.data.state.origins, p.1 ≠ transport)) := by
  have hinit : (initial (U := U) config).world.data.view.Orderly := by
    intro task ht
    cases ht
  obtain ⟨hbefore, hlast⟩ := along_append hrun hok
  have hs : s.world.data.view.Orderly :=
    exec_invariant (I := fun s : Service U => s.world.data.view.Orderly)
      (fun turn s s' hs ht h => orderly_act hs ht h) run hinit hbefore hrun
  obtain ⟨new, hnew, hend⟩ := act_released hs hlast.1 hturn
  refine ⟨new, hnew, ?_⟩
  rintro r hr ⟨id, via, hasked⟩ hanswer
  have hends : r.endsBody = true := by
    unfold Reply.endsBody
    rw [hasked, hanswer]
    rfl
  obtain ⟨id, transport, origin, hasked, hgone, hactive, hplace⟩ := hend r hr hends
  exact ⟨id, transport, origin, hasked, hgone, hactive, hplace⟩

/-! ### A parked reader -/

def headTaken : List (Turn sample) :=
  opened .plain ++ [⟨.data (.plain 1) [7], 9⟩, ⟨.command (caller 2) (.response 1), 9⟩]

def endFirst : List (Turn sample) := headTaken ++ [⟨.data (.plain 1) [0], 9⟩]

def readerFirst : List (Turn sample) :=
  headTaken ++ [⟨.command (caller 3) (.next 1), 9⟩, ⟨.data (.plain 1) [0], 9⟩]

theorem endFirst_meets : along act Releasing
    (endFirst ++ [⟨.command (caller 3) (.next 1), 9⟩]) (initial {}) := by
  decide +kernel

theorem endFirst_runs :
    ((exec act endFirst (initial {})).bind fun s =>
      (act ⟨.command (caller 3) (.next 1), 9⟩ s).map fun s' =>
        s'.world.data.replies.map fun r => (r.asked matches .next _ _, r.answer matches .chunk none))
    = some [(true, true), (false, false), (false, false)] := by
  decide +kernel

/-- A run in which the reader comes after the end: it meets the condition, and the reader's answer
leaves the exchange released. -/
theorem released_of_endFirst : ∃ s s', exec act endFirst (initial {}) = some s
    ∧ act ⟨.command (caller 3) (.next 1), 9⟩ s = some s'
    ∧ ∃ new, s'.world.data.replies = new ++ s.world.data.replies ∧ ∀ r ∈ new,
      (∃ id via, r.asked = .next id via) → r.answer = .chunk none →
      ∃ id transport origin, r.asked = .next id (some (transport, origin))
        ∧ s'.world.data.state.exchanges id = none
        ∧ s'.world.data.state.active transport = none
        ∧ ((origin, transport) ∈ s'.world.data.state.idle
          ∨ (transport ∈ s'.world.data.shutdowns
            ∧ (∀ p ∈ s'.world.data.state.idle, p.2 ≠ transport)
            ∧ ∀ p ∈ s'.world.data.state.origins, p.1 ≠ transport)) := by
  obtain ⟨s, hs, hmap⟩ := bind_eq_some_iff.mp endFirst_runs
  obtain ⟨s', hs', -⟩ := map_eq_some_iff.mp hmap
  exact ⟨s, s', hs, hs', finished_exchange_released {} endFirst _ s s' endFirst_meets hs hs'⟩

/-- **A parked reader leaks the connection.**  The reader of exchange 1 is parked when the end of the
body arrives; it is told the end, and the exchange stays in the table with its connection active,
neither pooled nor shut down. -/
theorem parked_reader_leaks_connection :
    (exec act readerFirst (initial {})).map (fun s =>
      (s.world.data.replies.head?.map fun r =>
          (r.asked matches .next 1 _, r.answer matches .chunk none),
        (s.world.data.state.exchanges 1).isSome, s.world.data.state.active (.plain 1),
        s.world.data.state.idle.length + s.world.data.shutdowns.length))
    = some (some (true, true), true, some 1, 0) := by
  decide +kernel

end Rskynet.Http
