import Rskynet.Http.Shifts

/-!
# What a step of the HTTP client does

* `act_outcome` — **PROVED**: every step has one of the outcomes of `Outcome`.
-/

namespace Rskynet.Http

open Cells Relation Option

variable {U : Ureq}
variable {turn : Turn U} {s s' : Service U}
variable {pending : Pending}

/-! ### Steps -/

theorem act_response {id rounds : ℕ} (h : act ⟨.command pending (.response id), rounds⟩ s = some s')
    (hcalm : s'.panicked = none) :
    s'.world.data.view = s.world.data.view.waitResponse id pending := by
  obtain ⟨m, hm, hrun⟩ := act_calm h hcalm
  cases hm
  exact acts_waitResponse id pending _ _ _ hrun

theorem act_next {id rounds : ℕ} (h : act ⟨.command pending (.next id), rounds⟩ s = some s')
    (hcalm : s'.panicked = none) :
    s'.world.data.view = s.world.data.view.nextBody id pending := by
  obtain ⟨m, hm, hrun⟩ := act_calm h hcalm
  cases hm
  exact acts_nextBody id pending _ _ _ hrun

/-- **The end of a `Next` command after a resume**, and the view that it starts from. -/
theorem act_resumed {i id rounds : ℕ} {completion : Completion}
    {via : Option (TransportId × Origin)} {answer : Option (Answer U)}
    {cleanup : Option (TransportId × Origin × Bool)}
    (h : act ⟨.wake i completion, rounds⟩ s = some s') (hcalm : s'.panicked = none)
    (htask : s.world.data.tasks[i]? = some (.resuming id via pending answer cleanup)) :
    ∃ result w, completion = .finished result
      ∧ nextTaken id via pending answer cleanup w = .ok ((), s'.world)
      ∧ w.data.view = if result.isOk then begun s.world.data (.wake i completion)
          else (begun s.world.data (.wake i completion)).cancel id := by
  obtain ⟨m, hm, hrun⟩ := act_calm h hcalm
  obtain ⟨task, htask', hm⟩ := bind_eq_some_iff.mp hm
  rw [htask] at htask'
  cases htask'
  obtain ⟨rest, hrest, rfl⟩ := map_eq_some_iff.mp hm
  obtain ⟨_, w₁, herase, hrun⟩ := bind_eq_ok hrun
  cases herase
  cases completion with
  | connected result => cases hrest
  | finished result =>
    cases hrest
    obtain ⟨_, w, hcancel, hrun⟩ := bind_eq_ok hrun
    refine ⟨result, w, rfl, hrun, ?_⟩
    cases hok : result.isOk with
    | true =>
      simp only [hok, onlyIf] at hcancel
      cases hcancel
      rfl
    | false =>
      simp only [hok, onlyIf] at hcancel
      exact acts_cancel id _ _ w hcancel

/-- **The ways a step can go**, as the view sees it. -/
inductive Outcome (turn : Turn U) (s s' : Service U) : Prop where
  | stopped (hworld : s'.world = s.world) (hcalm : s'.panicked.isSome = true)
  | changed (hread : turn.action.reads s.world.data = false) (hcalm : s'.panicked = none)
      (hpath : ReflTransGen (Change (causes s.world.data turn))
        (begun s.world.data turn.action) s'.world.data.view)
  | response (id : ℕ) (pending : Pending) (haction : turn.action = .command pending (.response id))
      (hcalm : s'.panicked = none)
      (hview : s'.world.data.view = s.world.data.view.waitResponse id pending)
  | next (id : ℕ) (pending : Pending) (haction : turn.action = .command pending (.next id))
      (hcalm : s'.panicked = none)
      (hview : s'.world.data.view = s.world.data.view.nextBody id pending)
  | resumed (i id : ℕ) (result : Except HttpError Unit) (via : Option (TransportId × Origin))
      (pending : Pending) (answer : Option (Answer U))
      (cleanup : Option (TransportId × Origin × Bool))
      (haction : turn.action = .wake i (.finished result)) (hcalm : s'.panicked = none)
      (htask : s.world.data.tasks[i]? = some (.resuming id via pending answer cleanup))
      (hview : s'.world.data.view = (if result.isOk then begun s.world.data turn.action
        else (begun s.world.data turn.action).cancel id).nextTaken id via pending answer cleanup)

theorem act_outcome (h : act turn s = some s') :
    Outcome turn s s' := by
  cases hcalm : s'.panicked with
  | some cell =>
    obtain ⟨-, m, -, ⟨w', -, rfl⟩ | ⟨cell', -, rfl⟩⟩ := act_cases h
    · cases hcalm
    · exact .stopped rfl rfl
  | none =>
    cases hread : turn.action.reads s.world.data with
    | false => exact .changed hread hcalm ((act_joint h).1 hcalm hread)
    | true =>
      obtain ⟨action, rounds⟩ := turn
      cases action with
      | command pending command =>
        cases command with
        | response id => exact .response id pending rfl hcalm (act_response h hcalm)
        | next id => exact .next id pending rfl hcalm (act_next h hcalm)
        | start | write | finish | cancel | cancelStart | confirmStart | continueTimeout
        | waitTimeout | idleTimeout | resumeStart => cases hread
      | wake i completion =>
        cases htask : s.world.data.tasks[i]? with
        | none => simp [Action.reads, htask] at hread
        | some task =>
          cases task with
          | resuming id via pending answer cleanup =>
            obtain ⟨result, w, rfl, hrun, hview⟩ := act_resumed h hcalm htask
            refine .resumed i id result via pending answer cleanup rfl hcalm htask ?_
            rw [← hview]
            exact acts_nextTaken id via pending answer cleanup w _ _ hrun
          | connecting | sendingHead | writing | finishing | pausing =>
            simp [Action.reads, htask, Task.isResuming] at hread
      | data | closed | giveUp => cases hread

/-- **The rule of one step**: what survives every change, the loss of a woken task and the steps
that read a response survives every step of the service. -/
theorem act_rule {I : View U → Prop} (h : act turn s = some s')
    (herase : ∀ v i, I v → I { v with tasks := v.tasks.eraseIdx i })
    (hchange : ∀ v v', Change (causes s.world.data turn) v v' → I v → I v')
    (hresponse : ∀ id pending, I (s.world.data.view.waitResponse id pending))
    (hnext : ∀ id pending, turn.action = .command pending (.next id) → I (s.world.data.view.nextBody id pending))
    (hcancel : ∀ v id, I v → I (v.cancel id))
    (htaken : ∀ v id via pending answer cleanup, I v → I (v.nextTaken id via pending answer cleanup))
    (hs : I s.world.data.view) : I s'.world.data.view := by
  have hbegun : I (begun s.world.data turn.action) := by
    cases turn.action with
    | wake i completion => exact herase _ i hs
    | command | data | closed | giveUp => exact hs
  cases act_outcome h with
  | stopped hworld hcalm =>
    rw [hworld]
    exact hs
  | changed hread hcalm hpath =>
    generalize s'.world.data.view = v' at hpath ⊢
    induction hpath with
    | refl => exact hbegun
    | tail _ hlast ih => exact hchange _ _ hlast ih
  | response id pending haction hcalm hview =>
    rw [hview]
    exact hresponse id pending
  | next id pending haction hcalm hview =>
    rw [hview]
    exact hnext id pending haction
  | resumed i id result via pending answer cleanup haction hcalm htask hview =>
    rw [hview]
    split
    · exact htaken _ _ _ _ _ _ hbegun
    · exact htaken _ _ _ _ _ _ (hcancel _ id hbegun)

/-! ### A property of every exchange -/

def View.Every (P : Exchange U → Prop) (v : View U) : Prop :=
  ∀ id e, v.exchanges id = some e → P e

namespace View.Every

variable {P : Exchange U → Prop} {v : View U}

theorem update_some (h : v.Every P) (id : ℕ) {e : Exchange U} (he : P e) {v' : View U}
    (hv : v'.exchanges = Function.update v.exchanges id (some e)) : v'.Every P := by
  intro i e' hi
  rw [hv] at hi
  by_cases hid : i = id
  · subst hid
    rw [Function.update_self] at hi
    exact some.inj hi ▸ he
  · rw [Function.update_of_ne hid] at hi
    exact h i e' hi

theorem update_none (h : v.Every P) (id : ℕ) {v' : View U}
    (hv : v'.exchanges = Function.update v.exchanges id none) : v'.Every P := by
  intro i e' hi
  rw [hv] at hi
  by_cases hid : i = id
  · subst hid
    rw [Function.update_self] at hi
    cases hi
  · rw [Function.update_of_ne hid] at hi
    exact h i e' hi

theorem of_exchanges {v' : View U} (h : v.Every P) (hv : v'.exchanges = v.exchanges) :
    v'.Every P := by
  intro id e he
  rw [hv] at he
  exact h id e he

theorem cancel (h : v.Every P) (id : ℕ) : (v.cancel id).Every P := by
  unfold View.cancel
  split
  · exact h
  · exact h.update_none id (exchanges_canceled v id _)

theorem waitResponse (h : v.Every P) (id : ℕ) (pending : Pending)
    (hresponse : ∀ e : Exchange U, P e → P (e.takeResponse pending).1) :
    (v.waitResponse id pending).Every P := by
  unfold View.waitResponse
  split
  · exact h.of_exchanges (exchanges_reply v _)
  · rename_i e he
    exact h.update_some id (hresponse e (h id e he)) (exchanges_replyWith _ _ _ _)

theorem nextTaken (h : v.Every P) (id : ℕ) (via : Option (TransportId × Origin))
    (pending : Pending) (answer : Option (Answer U))
    (cleanup : Option (TransportId × Origin × Bool)) :
    (v.nextTaken id via pending answer cleanup).Every P := by
  have hreply : (v.replyWith (.next id via) pending answer).Every P :=
    h.of_exchanges (exchanges_replyWith v _ _ _)
  unfold View.nextTaken
  split
  · exact hreply.update_none id rfl
  · exact hreply

theorem nextBody (h : v.Every P) (id : ℕ) (pending : Pending)
    (hnext : ∀ e : Exchange U, P e → P (e.next v.config pending).exchange) :
    (v.nextBody id pending).Every P := by
  unfold View.nextBody
  split
  · exact h.of_exchanges (exchanges_reply v _)
  · rename_i e he
    have hset : (v.set id (some (e.next v.config pending).exchange)).Every P :=
      h.update_some id (hnext e (h id e he)) rfl
    dsimp only
    split
    · exact hset
    · exact hset.nextTaken _ _ _ _ _

end View.Every

/-- **The rule for a property of every exchange**, over one change: one premise for each way in
which a change moves an exchange. -/
theorem Change.every {P : Exchange U → Prop} {k : Causes U} {v v' : View U} (h : Change k v v')
    (hfresh : ∀ transport origin proto spec, proto.pastHead = false →
      P (.fresh transport origin proto spec))
    (htouch : ∀ id e e', Touch e e' → (e'.error ≠ e.error → k.stops id e) → P e → P e')
    (hlost : ∀ id e, k.late id → e.proto.all Proto.isAwait100 = false → P e →
      P { e with proto := none })
    (hdrive : ∀ config rounds id e e₁ d pause, Fed e e₁ →
      driveExchange config rounds id e₁ = some (d, pause) → k.drives id d → P e → P d.exchange)
    (hexpire : ∀ e id session body, P e → P (e.expire id session body).1)
    (hv : v.Every P) : v'.Every P := by
  cases h with
  | answered r hr => exact hv.of_exchanges (exchanges_reply v r)
  | suspended task ht => exact hv
  | inserted id transport origin proto spec hproto hk =>
    exact hv.update_some id (hfresh transport origin proto spec hproto) rfl
  | canceled id e he hd => exact hv.update_none id (exchanges_canceled v id e)
  | touched id e e' he ht hk => exact hv.update_some id (htouch id e e' ht hk (hv id e he)) rfl
  | lost id e he hl hproto => exact hv.update_some id (hlost id e hl hproto (hv id e he)) rfl
  | driven id rounds e e₁ d pause he hfed hd hk =>
    exact hv.update_some id (hdrive _ rounds id e e₁ d pause hfed hd hk (hv id e he))
      (exchanges_replyAll _ _)
  | expired id e e' asked pending session body error he hx hd =>
    have he' := hexpire e id session body (hv id e he)
    rw [hx] at he'
    exact hv.update_some id he' (exchanges_reply _ _)

/-- **The rule for a property of every exchange**, over one step. -/
theorem every_act {P : Exchange U → Prop} (h : act turn s = some s')
    (hfresh : ∀ transport origin proto spec, proto.pastHead = false → P (.fresh transport origin proto spec))
    (htouch : ∀ id e e', Touch e e' → (e'.error ≠ e.error → (causes s.world.data turn).stops id e) → P e → P e')
    (hlost : ∀ id e, Late s.world.data id turn.action → e.proto.all Proto.isAwait100 = false → P e →
      P { e with proto := none })
    (hdrive : ∀ config rounds id e e₁ d pause, Fed e e₁ →
      driveExchange config rounds id e₁ = some (d, pause) → (causes s.world.data turn).drives id d →
      P e → P d.exchange)
    (hresponse : ∀ e pending, P e → P (e.takeResponse pending).1)
    (hexpire : ∀ e id session body, P e → P (e.expire id session body).1)
    (hnext : ∀ config e pending, P e → P (e.next config pending).exchange)
    (hs : s.world.data.view.Every P) : s'.world.data.view.Every P := by
  apply act_rule h (I := View.Every P)
  · intro v i hv
    exact hv
  · intro v v' hchange hv
    exact hchange.every hfresh htouch hlost hdrive hexpire hv
  · intro id pending
    exact hs.waitResponse id pending fun e he => hresponse e pending he
  · intro id pending _
    exact hs.nextBody id pending fun e he => hnext _ e pending he
  · intro v id hv
    exact hv.cancel id
  · intro v id via pending answer cleanup hv
    exact hv.nextTaken id via pending answer cleanup
  · exact hs

end Rskynet.Http
