import Rskynet.Http.Roles

/-!
# The connections of the HTTP client in whole runs

* `Shift.roles` — **PROVED**: every way in which the pools change keeps the roles of the connections;
* `connection_limits` — **PROVED**: the limits hold in every run, and the roles in every run in which
  connects and starts bring nothing that is still in use.
-/

namespace Rskynet.Http

open Cells Relation Interleave List Option

variable {U : Ureq} {action : Action U} {c p p' : Pools U}
variable {turn : Turn U}
variable {transport : TransportId}

/-! ### One step -/

theorem Roles.others {held : Option (TransportId × Origin)} (h : Roles held p) {i id : ℕ}
    {task : Task U} {origin : Origin} (htask : p.tasks[i]? = some task)
    (hgives : task.gives = some (id, transport, origin)) :
    ∀ task' ∈ (p.erase i).tasks, ∀ id' origin', task'.gives ≠ some (id', transport, origin') := by
  intro task' hmem id' origin' hgives'
  obtain ⟨hi, rfl⟩ := List.getElem?_eq_some_iff.mp htask
  have hperm := (List.getElem_cons_eraseIdx_perm hi).filterMap fun task => task.gives.map (·.2.1)
  have hnodup := hperm.nodup_iff.mpr h.once
  rw [List.filterMap_cons_some (b := transport) (by rw [hgives]; rfl), List.nodup_cons] at hnodup
  refine hnodup.1 (List.mem_filterMap.mpr ⟨task', hmem, ?_⟩)
  rw [hgives']
  rfl

theorem Roles.takes (h : Roles none p) {id : ℕ} {e e' : Exchange U} {reusable : Bool}
    (he : p.state.exchanges id = some e) (hreusable : e.reusable = some reusable)
    (htransport : e'.transport = e.transport) (horigin : e'.origin = e.origin)
    (hproto : e'.proto = e.proto) (hspent : e'.reusable = none) :
    Roles none (p.setExchange id (some e'))
    ∧ Given (p.setExchange id (some e')) id e.transport e.origin
    ∧ ∀ task ∈ p.tasks, ∀ id' origin', task.gives ≠ some (id', e.transport, origin') := by
  have hover : e'.over = true := by
    unfold Exchange.over
    rw [hproto]
    exact h.tidy id e he (by rw [hreusable]; rfl)
  have hkeeps : Keeps e e' := ⟨htransport, horigin, fun _ => ⟨hover, hspent⟩, fun _ _ => hover⟩
  have hback : ∀ id' e₁, Function.update p.state.exchanges id (some e') id' = some e₁ →
      (id' = id ∧ e₁ = e') ∨ p.state.exchanges id' = some e₁ := by
    intro id' e₁ he₁
    rw [Function.update_apply] at he₁
    split at he₁
    · rename_i heq
      exact .inl ⟨heq, (some.inj he₁).symm⟩
    · exact .inr he₁
  refine ⟨h.touch he hkeeps, ⟨?_, ?_, ?_⟩, ?_⟩
  · intro origin'
    exact h.apart id e origin' he
  · intro e₁ he₁
    rcases hback id e₁ he₁ with ⟨-, rfl⟩ | he₁
    · exact htransport
    · rw [he] at he₁
      cases he₁
      rfl
  · intro id' e₁ he₁ ht
    rcases hback id' e₁ he₁ with ⟨hid, rfl⟩ | he₁
    · exact ⟨hid, ⟨hover, hspent⟩, horigin⟩
    · obtain rfl := h.single id' id e₁ e he₁ he ht
      have hself : some e' = some e₁ := by
        rw [← ‹(p.setExchange id' (some e')).state.exchanges id' = some e₁›]
        exact (Function.update_self id' _ p.state.exchanges).symm
      cases hself
      exact ⟨rfl, ⟨hover, hspent⟩, horigin⟩
  · intro task htask id' origin' hgives
    obtain ⟨-, hdone, -⟩ := (h.given task htask id' e.transport origin' hgives).alone id e he rfl
    rw [hdone.2] at hreusable
    cases hreusable

theorem Roles.connected (h : Roles none p) (i : ℕ) (hfresh : ¬ p.holds transport) (origin : Origin) :
    Roles (some (transport, origin)) (((p.erase i).unconnect origin).know transport origin) := by
  have hover : Roles none ((p.erase i).unconnect origin) := (h.erase i).of_eq rfl rfl rfl rfl rfl
  refine hover.know ?_ origin
  rintro (hknown | hidle | hexchange | ⟨task, hmem, hrest⟩)
  · exact hfresh (.inl hknown)
  · exact hfresh (.inr (.inl hidle))
  · exact hfresh (.inr (.inr (.inl hexchange)))
  · exact hfresh (.inr (.inr (.inr ⟨task, (eraseIdx_sublist _ i).subset hmem, hrest⟩)))

theorem Given.cancel {id : ℕ} {origin : Origin} (h : Given p id transport origin) :
    Given (p.cancel id) id transport origin := by
  unfold Pools.cancel
  split
  · exact h
  · rename_i e he
    have hback : ∀ id' e', ((p.update fun s => s.drop id).forget e.transport).wake.state.exchanges
        id' = some e' → p.state.exchanges id' = some e' := by
      intro id' e' he'
      rw [wake_exchanges] at he'
      have he' : Function.update p.state.exchanges id none id' = some e' := he'
      rw [Function.update_apply] at he'
      split at he'
      · cases he'
      · exact he'
    refine ⟨?_, fun e' he' => h.mine e' (hback id e' he'),
      fun id' e' he' => h.alone id' e' (hback id' e' he')⟩
    intro origin' hmem
    rw [wake_idle] at hmem
    exact h.apart origin' (mem_filter.mp hmem).1

theorem tasks_cancel_pools (p : Pools U) (id : ℕ) : (p.cancel id).tasks = p.tasks := by
  unfold Pools.cancel
  split
  · rfl
  · exact wake_tasks _

/-- **Every way in which the pools change keeps the roles**, when a connect brings a connection that
the client does not hold and a start an id that is free. -/
theorem Shift.roles (h : Shift action c p p') (hp : Roles none p)
    (hconnect : ∀ i transport, action = .wake i (.connected (.ok transport)) →
      ¬ c.holds transport ∧ c.freeId)
    (hstart : ∀ start, action.start? = some start → c.freeId) : Roles none p' := by
  cases h with
  | touched _ id e e' he hk => exact hp.touch he hk
  | suspended _ task hplain => exact hp.suspend (gives_of_plain hplain)
  | woken i task htask hplain => exact hp.erase i
  | left | unqueued | queued => exact hp.of_eq rfl rfl rfl rfl rfl
  | woke _ => exact hp.wake
  | connecting start origin call haction horigin hidle hroom =>
    have hcounted : Roles none (c.update fun s => { s with connecting := origin :: s.connecting }) :=
      hp.of_eq rfl rfl rfl rfl rfl
    exact hcounted.suspend rfl
  | refused i start origin call htask =>
    exact Roles.wake ((hp.erase i).of_eq rfl rfl rfl rfl rfl)
  | made i start origin call transport proto haction htask hproto =>
    obtain ⟨hfresh, hfree, hgives⟩ := hconnect i transport haction
    have hheld := hp.connected i hfresh origin
    refine hheld.insertExchange ⟨hfree, ?_⟩ _ _ _
    intro task hmem
    exact hgives task ((eraseIdx_sublist _ i).subset hmem)
  | dropped i start origin call transport haction htask =>
    obtain ⟨hfresh, -⟩ := hconnect i transport haction
    have hheld := hp.connected i hfresh origin
    exact hheld.drop.wake
  | reused start origin transport proto haction horigin hfound hproto =>
    obtain ⟨hfree, hgives⟩ := hstart start haction
    obtain ⟨hexchanges, -, -, -, hnext⟩ := popIdle_fields c.state origin
    refine (hp.popIdle hfound).insertExchange ⟨?_, ?_⟩ _ _ _
    · show (c.state.popIdle origin).2.exchanges (max (((c.state.popIdle origin).2.nextId + 1)
        % 2 ^ 64) 1) = none
      rw [hexchanges, hnext]
      exact hfree
    · show ∀ task ∈ c.tasks, ∀ t o, task.gives ≠ some (max (((c.state.popIdle origin).2.nextId + 1)
        % 2 ^ 64) 1, t, o)
      rw [hnext]
      exact hgives
  | unused origin transport hfound => exact (hp.popIdle hfound).drop.wake
  | canceled _ id => exact hp.cancel id
  | forgot transport hforgets => exact hp.forget transport
  | cut transport error id e haction hactive he => exact (hp.forget transport).cancel id
  | lapsed transport => exact (hp.forget transport).wake
  | gave id e e' reusable he hreusable htransport horigin hproto hspent =>
    obtain ⟨hroles, hgiven, hother⟩ := hp.takes he hreusable htransport horigin hproto hspent
    exact hroles.release hgiven hother reusable
  | returning id e e' reusable via pending answer he hreusable htransport horigin hproto hspent =>
    obtain ⟨hroles, hgiven, hother⟩ := hp.takes he hreusable htransport horigin hproto hspent
    exact hroles.give rfl hgiven hother
  | returned i id via pending answer transport origin reusable resumed htask =>
    have hmem := mem_of_getElem? htask
    obtain ⟨happart, hmine, halone⟩ := hp.given _ hmem id transport origin rfl
    have hgiven : Given (c.erase i) id transport origin := ⟨happart, hmine, halone⟩
    have hother := hp.others htask rfl
    cases resumed with
    | true => exact (hp.erase i).release hgiven hother reusable
    | false =>
      refine ((hp.erase i).cancel id).release hgiven.cancel ?_ reusable
      rw [tasks_cancel_pools]
      exact hother

/-! ### Runs -/

def Task.dials : Task U → Option Origin
  | .connecting _ origin _ => some origin
  | _ => none

theorem Within.inFlight (h : Within p) :
    p.state.connecting.length = p.tasks.countP Task.isConnecting := by
  have hperm : p.state.connecting.Perm (p.tasks.filterMap Task.dials) := by
    rw [perm_iff_count]
    intro origin
    rw [h.counted, count_filterMap]
    congr 1
    funext task
    cases task with
    | connecting start origin' call => exact (beq_eq_decide origin' origin).symm
    | sendingHead | writing | finishing | resuming | pausing => rfl
  rw [hperm.length_eq, length_filterMap_eq_countP]
  congr 1
  funext task
  cases task <;> rfl

theorem within_act {s s' : Service U} (h : act turn s = some s') (hs : Within s.world.data.pools) :
    Within s'.world.data.pools := by
  have hpath := (act_joint h).2
  generalize s'.world.data.pools = q at hpath ⊢
  induction hpath with
  | refl => exact hs
  | tail _ hshift ih => exact hshift.within ih

theorem cancel_config (p : Pools U) (id : ℕ) : (p.cancel id).config = p.config := by
  unfold Pools.cancel
  split
  · rfl
  · exact wake_config _

theorem pools_release_config (p : Pools U) (id : ℕ) (transport : TransportId) (origin : Origin)
    (reusable : Bool) : (p.release id transport origin reusable).config = p.config := by
  unfold Pools.release Pools.recycle
  dsimp only
  split
  · exact wake_config _
  · exact wake_config _

theorem Shift.config (h : Shift action c p p') : p'.config = p.config := by
  cases h with
  | touched | suspended | woken | left | unqueued | queued | connecting | made | reused | forgot
  | returning => rfl
  | woke | refused | dropped | unused | lapsed => exact wake_config _
  | canceled _ id => exact cancel_config _ id
  | cut transport error id e haction hactive he => exact cancel_config _ id
  | gave => exact pools_release_config _ _ _ _ _
  | returned i id via pending answer transport origin reusable resumed htask =>
    rw [pools_release_config]
    cases resumed with
    | true => rfl
    | false => exact cancel_config _ id

theorem config_act {s s' : Service U} (h : act turn s = some s') :
    s'.world.data.pools.config = s.world.data.pools.config := by
  have hpath := (act_joint h).2
  generalize s'.world.data.pools = q at hpath ⊢
  induction hpath with
  | refl => rfl
  | tail _ hshift ih => exact hshift.config.trans ih

/-- A connect completes with a connection that the client does not hold, and a start finds an id that
is free. -/
def Fresh (s : Service U) (turn : Turn U) : Prop :=
  (∀ i transport, turn.action = .wake i (.connected (.ok transport)) →
    ¬ s.world.data.pools.holds transport ∧ s.world.data.pools.freeId)
  ∧ ∀ start, turn.action.start? = some start → s.world.data.pools.freeId

theorem roles_act {s s' : Service U} (hfresh : Fresh s turn) (h : act turn s = some s')
    (hs : Roles none s.world.data.pools) :
    Roles none s'.world.data.pools := by
  have hpath := (act_joint h).2
  generalize s'.world.data.pools = q at hpath ⊢
  induction hpath with
  | refl => exact hs
  | tail _ hshift ih => exact hshift.roles ih hfresh.1 hfresh.2

def Idle (s : State U) (transport : TransportId) (origin : Origin) : Prop :=
  s.active transport = none ∧ (origin, transport) ∈ s.idle
    ∧ (s.idle.map Prod.snd).count transport = 1

/-- The connection is active for one exchange, which is the only one on it, and in no pool. -/
def Active (s : State U) (transport : TransportId) (origin : Origin) : Prop :=
  (∀ entry ∈ s.idle, entry.2 ≠ transport)
  ∧ ∃ id e, s.active transport = some id ∧ s.exchanges id = some e ∧ e.transport = transport
    ∧ e.origin = origin ∧ ∀ id' e', s.exchanges id' = some e' → e'.transport = transport → id' = id

theorem Roles.role (h : Roles none p) {origin : Origin}
    (hknown : (transport, origin) ∈ p.state.origins) :
    Idle p.state transport origin ∨ Active p.state transport origin := by
  rcases h.placed transport origin hknown with hheld | hidle | ⟨id, e, hid, he, horigin⟩
  · cases hheld
  · refine .inl ⟨?_, hidle, count_eq_one_of_mem h.pooled (mem_map.mpr ⟨_, hidle, rfl⟩)⟩
    cases hactive : p.state.active transport with
    | none => rfl
    | some id =>
      obtain ⟨e, he, ht⟩ := h.owned transport id hactive
      rw [← ht] at hidle
      exact absurd hidle (h.apart id e origin he)
  · obtain ⟨e', he', ht⟩ := h.owned transport id hid
    rw [he] at he'
    cases he'
    refine .inr ⟨?_, id, e, hid, he, ht, horigin, ?_⟩
    · rintro ⟨origin', t⟩ hmem hsame
      obtain rfl : e.transport = t := ht.trans hsame.symm
      exact h.apart id e origin' he hmem
    · intro id' e' he' ht'
      exact h.single id' id e' e he' he (ht'.trans ht.symm)

theorem roles_initial (config : HttpClientConfig) :
    Roles none (initial config : Service U).world.data.pools where
  known := nodup_nil
  pooled := nodup_nil
  placed := fun _ _ h => absurd h not_mem_nil
  owned := fun _ _ h => by cases h
  apart := fun _ _ _ _ => not_mem_nil
  single := fun _ _ _ _ h => by cases h
  tidy := fun _ _ h => by cases h
  given := fun _ h => absurd h not_mem_nil
  once := nodup_nil
  free := fun _ _ h => by cases h

/-- **Connection limits.**  In every run, from every configuration, the known connections and the
connects in flight respect the two limits, and the pools theirs.  In a run in which connects and starts
bring nothing that is still in use, every known connection is between two steps either in the pool of
its origin or active for one exchange. -/
theorem connection_limits (config : HttpClientConfig) (run : List (Turn U)) (s : Service U)
    (hrun : exec act run (initial config) = some s) :
    s.world.data.state.origins.length + s.world.data.tasks.countP Task.isConnecting
      ≤ config.maxConnections
    ∧ (∀ origin, s.world.data.state.origins.countP (·.2 = origin)
      + s.world.data.tasks.countP (Task.connectsTo origin) ≤ config.maxConnectionsPerOrigin)
    ∧ s.world.data.state.idle.length ≤ config.maxIdleConnections
    ∧ (∀ origin, s.world.data.state.idle.countP (·.1 = origin)
      ≤ config.maxIdleConnectionsPerOrigin)
    ∧ (along act Fresh run (initial config) → ∀ transport origin,
      (transport, origin) ∈ s.world.data.state.origins →
        Xor (Idle s.world.data.state transport origin)
          (Active s.world.data.state transport origin)) := by
  have hstart : Within (initial config : Service U).world.data.pools :=
    ⟨Nat.zero_le _, fun _ => Nat.zero_le _, Nat.zero_le _, fun _ => Nat.zero_le _, fun _ => rfl⟩
  have hreach : Interleave.Reachable (fun s s' => ∃ turn, act turn s = some s') (initial config) s :=
    Interleave.Reachable.of_run hrun
  have hlimits : Within s.world.data.pools ∧ s.world.data.pools.config = config := by
    refine hreach.invariant (I := fun s : Service U => Within s.world.data.pools
      ∧ s.world.data.pools.config = config) ⟨hstart, rfl⟩ ?_
    rintro t t' ⟨hwithin, hconfig⟩ ⟨turn, hact⟩
    exact ⟨within_act hact hwithin, (config_act hact).trans hconfig⟩
  obtain ⟨hwithin, hconfig⟩ := hlimits
  have htotal := hwithin.total
  have hidle := hwithin.idle
  unfold State.total at htotal
  rw [hwithin.inFlight, hconfig] at htotal
  rw [hconfig] at hidle
  refine ⟨htotal, ?_, hidle, ?_, ?_⟩
  · intro origin
    have hsame := hwithin.same origin
    unfold State.same at hsame
    rw [hwithin.counted, hconfig] at hsame
    exact hsame
  · intro origin
    have hsame := hwithin.idleSame origin
    rw [hconfig] at hsame
    exact hsame
  · intro hfresh transport origin hknown
    have hempty : Roles none (initial config : Service U).world.data.pools := roles_initial config
    have hroles : Roles none s.world.data.pools :=
      exec_invariant (I := fun s : Service U => Roles none s.world.data.pools)
        (fun turn t t' ht hP hact => roles_act hP hact ht) run hempty hfresh hrun
    rcases hroles.role hknown with hidle | hactive
    · refine .inl ⟨hidle, ?_⟩
      rintro ⟨hnone, -⟩
      exact hnone _ hidle.2.1 rfl
    · refine .inr ⟨hactive, ?_⟩
      rintro ⟨-, hmem, -⟩
      exact hactive.1 _ hmem rfl

/-! ### A connection that was closed while its reader resumed -/

theorem fresh_of_other {s : Service U}
    (hconnect : ∀ i transport, turn.action ≠ .wake i (.connected (.ok transport)))
    (hstart : turn.action.start? = none) : Fresh s turn := by
  refine ⟨fun i transport h => absurd h (hconnect i transport), ?_⟩
  intro start h
  rw [hstart] at h
  cases h

theorem connecting_holds_nothing :
    (act ⟨.command (caller 1) (.start 1 (sampleRequest .plain)), 9⟩ (initial {})).map (fun s =>
      (s.world.data.state.origins, s.world.data.state.idle, s.world.data.state.exchanges,
        s.world.data.tasks.map Task.gives)) = some ([], [], fun _ => none, [none]) := rfl

theorem fresh_endRead :
    along act Fresh (endFirst ++ [⟨.command (caller 3) (.next 1), 9⟩]) (initial {}) := by
  simp only [endFirst, headTaken, opened, cons_append, nil_append]
  refine ⟨⟨nofun, ?_⟩, ?_⟩
  · intro start _
    exact ⟨rfl, fun _ h => absurd h not_mem_nil⟩
  intro s hs
  obtain ⟨s', hs', hempty⟩ := map_eq_some_iff.mp connecting_holds_nothing
  obtain rfl : s' = s := some.inj (hs'.symm.trans hs)
  simp only [Prod.mk.injEq] at hempty
  obtain ⟨horigins, hidle, hexchanges, hgives⟩ := hempty
  have hnone : ∀ task ∈ s'.world.data.tasks, task.gives = none := by
    intro task htask
    have hmem : task.gives ∈ s'.world.data.tasks.map Task.gives := mem_map.mpr ⟨task, htask, rfl⟩
    rw [hgives] at hmem
    exact mem_singleton.mp hmem
  have hfree : s'.world.data.pools.freeId := by
    refine ⟨congrFun hexchanges _, ?_⟩
    intro task htask transport origin h
    rw [hnone task htask] at h
    cases h
  refine ⟨⟨?_, fun start h => hfree⟩, fun t _ => ?_⟩
  · intro i transport _
    refine ⟨?_, hfree⟩
    rintro (⟨origin, h⟩ | ⟨origin, h⟩ | ⟨id, e, h, -⟩ | ⟨task, htask, id, origin, h⟩)
    · rw [show s'.world.data.pools.state.origins = [] from horigins] at h
      exact not_mem_nil h
    · rw [show s'.world.data.pools.state.idle = [] from hidle] at h
      exact not_mem_nil h
    · rw [show s'.world.data.pools.state.exchanges id = none from congrFun hexchanges id] at h
      cases h
    · rw [hnone task htask] at h
      cases h
  · apply along_of_forall
    intro turn hturn u
    simp only [mem_cons, not_mem_nil, or_false] at hturn
    rcases hturn with rfl | rfl | rfl | rfl | rfl
    all_goals exact fresh_of_other nofun rfl

theorem endRead_runs :
    (exec act (endFirst ++ [⟨.command (caller 3) (.next 1), 9⟩]) (initial {})).any (fun s =>
      s.world.data.state.origins.length = 1 ∧ s.world.data.state.idle.length = 1) = true := by
  decide +kernel

theorem connection_limits_endRead : ∃ s : Service sample,
    exec act (endFirst ++ [⟨.command (caller 3) (.next 1), 9⟩]) (initial {}) = some s
    ∧ s.world.data.state.origins.length = 1
    ∧ ∀ transport origin, (transport, origin) ∈ s.world.data.state.origins →
      Xor (Idle s.world.data.state transport origin)
        (Active s.world.data.state transport origin) := by
  obtain ⟨s, hs, hend⟩ := (any_eq_true _ _).mp endRead_runs
  obtain ⟨hone, -⟩ := of_decide_eq_true hend
  obtain ⟨-, -, -, -, hroles⟩ := connection_limits {} _ s hs
  exact ⟨s, hs, hone, hroles fresh_endRead⟩

def tight : HttpClientConfig := { inputHighWater := 2, inputLowWater := 1 }

def requestTo (host : List Char) (parts : SampleRequest) : Request sample :=
  { sampleRequest parts with uri := ⟨some .http, some host, none⟩ }

/-- The peer closes the connection while the reader of the end of the body waits for its resume. -/
def closedWhileResuming : List (Turn sample) :=
  opened .expects ++
  [⟨.data (.plain 1) [1], 9⟩, ⟨.data (.plain 1) [7, 0], 9⟩, ⟨.wake 0 (.finished (.ok ())), 9⟩,
   ⟨.command (caller 2) (.finish 1), 9⟩, ⟨.wake 0 (.finished (.ok ())), 9⟩,
   ⟨.data (.plain 1) [9], 9⟩, ⟨.command (caller 3) (.response 1), 9⟩,
   ⟨.command (caller 4) (.next 1), 9⟩, ⟨.closed (.plain 1) none, 9⟩,
   ⟨.wake 0 (.finished (.ok ())), 9⟩]

/-- A connect for another origin brings the number of the closed connection. -/
def numberAgain : List (Turn sample) := closedWhileResuming ++
  [⟨.command (caller 5) (.start 2 (requestTo ['g'] .plain)), 9⟩,
   ⟨.wake 0 (.connected (.ok (.plain 1))), 9⟩]

theorem numberAgain_runs :
    (exec act numberAgain (initial tight)).any (fun s =>
      s.world.data.state.origins.map (fun known => (known.1, known.2.host)) = [(.plain 1, ['g'])]
      ∧ s.world.data.state.active (.plain 1) = some 2
      ∧ s.world.data.state.idle.map (fun pooled => (pooled.1.host, pooled.2))
        = [(['h'], .plain 1)]) = true := by
  decide +kernel

/-- **A connection in two roles.**  The closed connection was put into the pool of its origin, and
its number is the active connection of another origin. -/
theorem recycled_after_close : ∃ (s : Service sample) (transport : TransportId)
    (origin pooled : Origin), exec act numberAgain (initial tight) = some s
    ∧ (transport, origin) ∈ s.world.data.state.origins
    ∧ (pooled, transport) ∈ s.world.data.state.idle
    ∧ s.world.data.state.active transport = some 2
    ∧ ¬ Xor (Idle s.world.data.state transport origin)
        (Active s.world.data.state transport origin) := by
  obtain ⟨s, hs, hend⟩ := (any_eq_true _ _).mp numberAgain_runs
  obtain ⟨hknown, hactive, hidle⟩ := of_decide_eq_true hend
  have hmem : (TransportId.plain 1, ['g'])
      ∈ s.world.data.state.origins.map fun known => (known.1, known.2.host) := by
    rw [hknown]
    exact mem_singleton.mpr rfl
  have hmem' : (['h'], TransportId.plain 1)
      ∈ s.world.data.state.idle.map fun pooled => (pooled.1.host, pooled.2) := by
    rw [hidle]
    exact mem_singleton.mpr rfl
  obtain ⟨⟨transport, origin⟩, horigin, heq⟩ := mem_map.mp hmem
  obtain ⟨rfl, -⟩ := Prod.mk.inj heq
  obtain ⟨⟨pooled, transport⟩, hpooled, heq'⟩ := mem_map.mp hmem'
  obtain ⟨-, rfl⟩ := Prod.mk.inj heq'
  refine ⟨s, _, origin, pooled, hs, horigin, hpooled, hactive, ?_⟩
  rintro (⟨⟨hnone, -⟩, -⟩ | ⟨⟨hfree, -⟩, -⟩)
  · rw [hactive] at hnone
    cases hnone
  · exact hfree _ hpooled rfl

end Rskynet.Http
