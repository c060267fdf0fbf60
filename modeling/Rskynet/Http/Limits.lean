import Mathlib.Data.List.Count
import Rskynet.Http.Release

/-!
# Connection limits of the HTTP client

* `Shift.within` — **PROVED**: every way in which the pools change keeps the limits.
-/

namespace Rskynet.Http

open Cells Relation Interleave List

variable {U : Ureq} {action : Action U} {c p p' : Pools U}

/-! ### What the operations leave alone -/

theorem popEligible_fields (s : State U) (config : HttpClientConfig) :
    (s.popEligible config).2.exchanges = s.exchanges ∧ (s.popEligible config).2.active = s.active
      ∧ (s.popEligible config).2.origins = s.origins ∧ (s.popEligible config).2.idle = s.idle
      ∧ (s.popEligible config).2.connecting = s.connecting
      ∧ (s.popEligible config).2.nextId = s.nextId := by
  unfold State.popEligible
  split
  · exact ⟨rfl, rfl, rfl, rfl, rfl, rfl⟩
  · exact ⟨rfl, rfl, rfl, rfl, rfl, rfl⟩

theorem resume_fields (p : Pools U) (start : Option (Start U)) :
    (p.resume start).state = p.state ∧ (p.resume start).tasks = p.tasks
      ∧ (p.resume start).config = p.config ∧ (p.resume start).alive = p.alive := by
  cases start with
  | none | some => exact ⟨rfl, rfl, rfl, rfl⟩

section Wake

variable (p : Pools U)

theorem wake_state : p.wake.state = (p.living.state.popEligible p.config).2.bare :=
  (resume_fields _ _).1

@[simp] theorem wake_exchanges : p.wake.state.exchanges = p.state.exchanges := by
  rw [wake_state]
  exact (popEligible_fields _ _).1

@[simp] theorem wake_active : p.wake.state.active = p.state.active := by
  rw [wake_state]
  exact (popEligible_fields _ _).2.1

@[simp] theorem wake_origins : p.wake.state.origins = p.state.origins := by
  rw [wake_state]
  exact (popEligible_fields _ _).2.2.1

@[simp] theorem wake_idle : p.wake.state.idle = p.state.idle := by
  rw [wake_state]
  exact (popEligible_fields _ _).2.2.2.1

@[simp] theorem wake_connecting : p.wake.state.connecting = p.state.connecting := by
  rw [wake_state]
  exact (popEligible_fields _ _).2.2.2.2.1

@[simp] theorem wake_tasks : p.wake.tasks = p.tasks := (resume_fields _ _).2.1

@[simp] theorem wake_config : p.wake.config = p.config := (resume_fields _ _).2.2.1

end Wake

/-! ### The limits -/

def Task.connectsTo (origin : Origin) : Task U → Bool
  | .connecting _ origin' _ => origin' = origin
  | _ => false

/-- **The limits**, and the connects in flight are the tasks that connect. -/
structure Within (p : Pools U) : Prop where
  total : p.state.total ≤ p.config.maxConnections
  same : ∀ origin, p.state.same origin ≤ p.config.maxConnectionsPerOrigin
  idle : p.state.idle.length ≤ p.config.maxIdleConnections
  idleSame : ∀ origin, p.state.idle.countP (·.1 = origin) ≤ p.config.maxIdleConnectionsPerOrigin
  counted : ∀ origin, p.state.connecting.count origin = p.tasks.countP (Task.connectsTo origin)

theorem Within.of_sublist (h : Within p) (hconfig : p'.config = p.config)
    (horigins : p'.state.origins.Sublist p.state.origins)
    (hidle : p'.state.idle.Sublist p.state.idle)
    (hconnecting : p'.state.connecting = p.state.connecting)
    (htasks : ∀ origin, p'.tasks.countP (Task.connectsTo origin)
      = p.tasks.countP (Task.connectsTo origin)) : Within p' := by
  refine ⟨?_, ?_, ?_, ?_, ?_⟩
  · have htotal := h.total
    have hlength := horigins.length_le
    unfold State.total at htotal ⊢
    rw [hconfig, hconnecting]
    omega
  · intro origin
    have hsame := h.same origin
    have hcount := horigins.countP_le (p := fun entry => decide (entry.2 = origin))
    unfold State.same at hsame ⊢
    rw [hconfig, hconnecting]
    omega
  · rw [hconfig]
    exact hidle.length_le.trans h.idle
  · intro origin
    rw [hconfig]
    exact hidle.countP_le.trans (h.idleSame origin)
  · intro origin
    rw [hconnecting, htasks]
    exact h.counted origin

theorem Within.wake (h : Within p) : Within p.wake :=
  h.of_sublist (by simp) (by simp) (by simp) (by simp) (by simp)

theorem Within.forget (h : Within p) (transport : TransportId) : Within (p.forget transport) :=
  h.of_sublist rfl filter_sublist filter_sublist rfl fun _ => rfl

theorem Within.setExchange (h : Within p) (id : ℕ) (e : Option (Exchange U)) :
    Within (p.setExchange id e) :=
  h.of_sublist rfl (List.Sublist.refl _) (List.Sublist.refl _) rfl fun _ => rfl

theorem Within.cancel (h : Within p) (id : ℕ) : Within (p.cancel id) := by
  unfold Pools.cancel
  split
  · exact h
  · rename_i e he
    have hdrop : Within (p.update fun s => s.drop id) :=
      h.of_sublist rfl (List.Sublist.refl _) (List.Sublist.refl _) rfl fun _ => rfl
    exact (hdrop.forget e.transport).wake

theorem Within.recycle (h : Within p) (transport : TransportId) (origin : Origin) (reusable : Bool) :
    Within (p.recycle transport origin reusable) := by
  have hinactive : Within (p.update fun s => s.setActive transport none) :=
    h.of_sublist rfl (List.Sublist.refl _) (List.Sublist.refl _) rfl fun _ => rfl
  unfold Pools.recycle
  dsimp only
  split
  · rename_i hroom
    generalize (p.update fun s => s.setActive transport none) = q at hinactive hroom ⊢
    apply Within.wake
    have hfull := hroom.2
    unfold State.idleFull at hfull
    rw [Bool.or_eq_false_iff, decide_eq_false_iff_not, decide_eq_false_iff_not] at hfull
    refine ⟨hinactive.total, hinactive.same, ?_, ?_, hinactive.counted⟩
    · show (q.state.idle ++ [(origin, transport)]).length ≤ _
      rw [length_append, length_singleton]
      exact Nat.lt_of_not_le hfull.1
    · intro origin'
      show (q.state.idle ++ [(origin, transport)]).countP _ ≤ _
      rw [countP_append, countP_singleton]
      split
      · rename_i heq
        have : origin = origin' := by simpa using heq
        subst this
        exact Nat.lt_of_not_le hfull.2
      · exact hinactive.idleSame origin'
  · exact (hinactive.forget transport).wake

theorem Within.release (h : Within p) (id : ℕ) (transport : TransportId) (origin : Origin)
    (reusable : Bool) : Within (p.release id transport origin reusable) :=
  (h.recycle transport origin reusable).setExchange id none

theorem countP_eraseIdx {α : Type} {l : List α} {i : ℕ} {a : α} (h : l[i]? = some a) (f : α → Bool) :
    l.countP f = (l.eraseIdx i).countP f + if f a then 1 else 0 := by
  obtain ⟨hi, rfl⟩ := List.getElem?_eq_some_iff.mp h
  rw [← (List.getElem_cons_eraseIdx_perm hi).countP_eq, List.countP_cons]

/-- **A connect that is over** gives its place back. -/
theorem Within.unconnect {i : ℕ} {start : Start U} {origin : Origin} {call : U.SendRequest}
    (h : Within p) (htask : p.tasks[i]? = some (.connecting start origin call)) :
    Within ((p.erase i).unconnect origin)
    ∧ ((p.erase i).unconnect origin).state.total < p.config.maxConnections
    ∧ ((p.erase i).unconnect origin).state.same origin < p.config.maxConnectionsPerOrigin := by
  have htasks := fun origin' => countP_eraseIdx htask (Task.connectsTo origin')
  have hmem : origin ∈ p.state.connecting := by
    rw [← count_pos_iff, h.counted, htasks]
    simp [Task.connectsTo]
  have hlength := length_erase_of_mem hmem
  have hpos : 0 < p.state.connecting.length := length_pos_of_mem hmem
  have hcount : ∀ origin', (p.state.connecting.erase origin).count origin'
      = p.state.connecting.count origin' - if origin = origin' then 1 else 0 := by
    intro origin'
    rw [count_erase]
    simp only [beq_iff_eq]
  have hself : 0 < p.state.connecting.count origin := count_pos_iff.mpr hmem
  have htotal := h.total
  have hsame := h.same
  unfold State.total at htotal
  unfold State.same at hsame
  refine ⟨⟨?_, ?_, h.idle, h.idleSame, ?_⟩, ?_, ?_⟩
  · show p.state.origins.length + (p.state.connecting.erase origin).length ≤ _
    show _ ≤ p.config.maxConnections
    omega
  · intro origin'
    show p.state.origins.countP _ + (p.state.connecting.erase origin).count origin' ≤ _
    rw [hcount]
    have := hsame origin'
    show _ ≤ p.config.maxConnectionsPerOrigin
    omega
  · intro origin'
    show (p.state.connecting.erase origin).count origin'
      = (p.tasks.eraseIdx i).countP (Task.connectsTo origin')
    rw [hcount, h.counted, htasks]
    simp only [Task.connectsTo, decide_eq_true_eq]
    omega
  · show p.state.origins.length + (p.state.connecting.erase origin).length < _
    omega
  · show p.state.origins.countP _ + (p.state.connecting.erase origin).count origin < _
    rw [hcount, if_pos rfl]
    have := hsame origin
    omega

theorem Within.know {transport : TransportId} {origin : Origin} (h : Within p)
    (htotal : p.state.total < p.config.maxConnections)
    (hsame : p.state.same origin < p.config.maxConnectionsPerOrigin) :
    Within (p.know transport origin) := by
  have hlength := length_filter_le (fun entry => decide (entry.1 ≠ transport)) p.state.origins
  refine ⟨?_, ?_, h.idle, h.idleSame, h.counted⟩
  · unfold State.total at htotal
    show ((transport, origin) :: p.state.origins.filter (·.1 ≠ transport)).length
      + p.state.connecting.length ≤ p.config.maxConnections
    rw [length_cons]
    omega
  · intro origin'
    have hcount : (p.state.origins.filter (·.1 ≠ transport)).countP (·.2 = origin')
        ≤ p.state.origins.countP (·.2 = origin') := filter_sublist.countP_le
    have hother := h.same origin'
    unfold State.same at hsame hother
    show ((transport, origin) :: p.state.origins.filter (·.1 ≠ transport)).countP (·.2 = origin')
      + p.state.connecting.count origin' ≤ p.config.maxConnectionsPerOrigin
    rw [countP_cons]
    split
    · rename_i heq
      have : origin = origin' := by simpa using heq
      subst this
      omega
    · omega

theorem Within.insertExchange (h : Within p) (token : ℕ) (transport : TransportId)
    (origin : Origin) (proto : Proto U) (spec : BodySpec) :
    Within (p.insertExchange token transport origin proto spec) :=
  h.of_sublist rfl (List.Sublist.refl _) (List.Sublist.refl _) rfl fun _ => rfl

theorem idle_popIdle (s : State U) (origin : Origin) :
    (s.popIdle origin).2.idle = s.idle.eraseP (·.1 = origin) := by
  unfold State.popIdle
  split
  · rename_i hnone
    rw [eraseP_of_forall_not]
    intro entry hentry
    simpa using find?_eq_none.mp hnone entry hentry
  · rfl

theorem popIdle_fields (s : State U) (origin : Origin) :
    (s.popIdle origin).2.exchanges = s.exchanges ∧ (s.popIdle origin).2.active = s.active
      ∧ (s.popIdle origin).2.origins = s.origins
      ∧ (s.popIdle origin).2.connecting = s.connecting
      ∧ (s.popIdle origin).2.nextId = s.nextId := by
  unfold State.popIdle
  split
  · exact ⟨rfl, rfl, rfl, rfl, rfl⟩
  · exact ⟨rfl, rfl, rfl, rfl, rfl⟩

theorem Within.popIdle (h : Within p) (origin : Origin) : Within (p.popIdle origin) := by
  obtain ⟨-, -, horigins, hconnecting, -⟩ := popIdle_fields p.state origin
  refine h.of_sublist rfl ?_ ?_ hconnecting fun _ => rfl
  · show (p.state.popIdle origin).2.origins.Sublist _
    rw [horigins]
  · show (p.state.popIdle origin).2.idle.Sublist _
    rw [idle_popIdle]
    exact eraseP_sublist

theorem Within.suspend (h : Within p) {task : Task U}
    (htask : ∀ origin, task.connectsTo origin = false) : Within (p.suspend task) := by
  refine h.of_sublist rfl (List.Sublist.refl _) (List.Sublist.refl _) rfl ?_
  intro origin
  show (p.tasks ++ [task]).countP _ = _
  rw [countP_append, countP_singleton, htask, if_neg Bool.false_ne_true, Nat.add_zero]

theorem Within.erase (h : Within p) {i : ℕ} {task : Task U} (hi : p.tasks[i]? = some task)
    (htask : ∀ origin, task.connectsTo origin = false) : Within (p.erase i) := by
  refine h.of_sublist rfl (List.Sublist.refl _) (List.Sublist.refl _) rfl ?_
  intro origin
  rw [countP_eraseIdx hi, htask, if_neg Bool.false_ne_true, Nat.add_zero]
  rfl

theorem connectsTo_of_plain {task : Task U} (h : task.isPlain = true) (origin : Origin) :
    task.connectsTo origin = false := by
  cases task with
  | connecting => cases h
  | sendingHead | writing | finishing | resuming | pausing => rfl

theorem Within.connect (h : Within p) {start : Start U} {origin : Origin} {call : U.SendRequest}
    (hroom : p.state.hasRoom p.config origin = true) :
    Within ((p.update fun s => { s with connecting := origin :: s.connecting }).suspend
      (.connecting start origin call)) := by
  unfold State.hasRoom at hroom
  rw [Bool.and_eq_true, decide_eq_true_eq, decide_eq_true_eq] at hroom
  obtain ⟨htotal, hsame⟩ := hroom
  unfold State.total at htotal
  refine ⟨?_, ?_, h.idle, h.idleSame, ?_⟩
  · show p.state.origins.length + (origin :: p.state.connecting).length ≤ p.config.maxConnections
    rw [length_cons]
    omega
  · intro origin'
    have hother := h.same origin'
    unfold State.same at hsame hother
    show p.state.origins.countP _ + (origin :: p.state.connecting).count origin'
      ≤ p.config.maxConnectionsPerOrigin
    rw [count_cons]
    split
    · rename_i heq
      have : origin = origin' := by simpa using heq
      subst this
      omega
    · omega
  · intro origin'
    show (origin :: p.state.connecting).count origin'
      = (p.tasks ++ [Task.connecting start origin call]).countP _
    rw [count_cons, countP_append, countP_singleton, h.counted]
    simp only [Task.connectsTo, beq_iff_eq, decide_eq_true_eq]

/-- **Every way in which the pools change keeps the limits.** -/
theorem Shift.within (h : Shift action c p p') (hp : Within p) : Within p' := by
  cases h with
  | touched _ id e e' he hk => exact hp.setExchange id _
  | suspended _ task hplain => exact hp.suspend (connectsTo_of_plain hplain)
  | woken i task htask hplain => exact hp.erase htask (connectsTo_of_plain hplain)
  | left | unqueued | queued =>
    exact hp.of_sublist rfl (List.Sublist.refl _) (List.Sublist.refl _) rfl fun _ => rfl
  | woke _ => exact hp.wake
  | connecting start origin call haction horigin hidle hroom => exact hp.connect hroom
  | refused i start origin call htask => exact (hp.unconnect htask).1.wake
  | made i start origin call transport proto haction htask hproto =>
    obtain ⟨hover, htotal, hsame⟩ := hp.unconnect htask
    exact (hover.know htotal hsame).insertExchange _ _ _ _ _
  | dropped i start origin call transport haction htask =>
    obtain ⟨hover, htotal, hsame⟩ := hp.unconnect htask
    exact ((hover.know htotal hsame).forget transport).wake
  | reused start origin transport proto haction horigin hfound hproto =>
    exact (hp.popIdle origin).insertExchange _ _ _ _ _
  | unused origin transport hfound => exact ((hp.popIdle origin).forget transport).wake
  | canceled _ id => exact hp.cancel id
  | forgot transport hforgets => exact hp.forget transport
  | cut transport error id e haction hactive he => exact (hp.forget transport).cancel id
  | lapsed transport => exact (hp.forget transport).wake
  | gave id e e' reusable he hreusable htransport horigin hproto hspent =>
    exact (hp.setExchange id _).release _ _ _ _
  | returning id e e' reusable via pending answer he hreusable htransport horigin hproto hspent =>
    exact (hp.setExchange id _).suspend fun _ => rfl
  | returned i id via pending answer transport origin reusable resumed htask =>
    have herase : Within (c.erase i) := hp.erase htask fun _ => rfl
    cases resumed with
    | true => exact herase.release _ _ _ _
    | false => exact (herase.cancel id).release _ _ _ _

end Rskynet.Http
