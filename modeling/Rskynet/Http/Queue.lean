import Rskynet.Http.Capacity
import Rskynet.Http.Connections

/-!
# Queued starts of the HTTP client

A start that finds no connection is queued. Whatever makes a connection available calls
`wake_queued`, which sends one queued start back to the service; the start looks again when the
message arrives.

* `Shift.due`, `Begins.due` — **PROVED**: every other step leaves no wake due;
* `no_eligible_start_queued` — **PROVED**: when no start is on its way, none in the queue could go on.
-/

namespace Rskynet.Http

open Cells Relation Interleave Supplies List Option

variable {U : Ureq} {action : Action U} {c p p' : Pools U} {delivered : ℕ}
variable {transport : TransportId} {origin : Origin}

/-! ### The service and its messages to itself -/

/-- The service, and how many of the starts it sent to itself have arrived. -/
structure Node (U : Ureq) where
  service : Service U
  delivered : ℕ

inductive Choice (U : Ureq) where
  | event (turn : Turn U)
  | deliver (rounds : ℕ)

def Action.resumes : Action U → Bool
  | .command _ (.resumeStart _) => true
  | _ => false

namespace Node

def pools (n : Node U) : Pools U := n.service.world.data.pools

def inbox (n : Node U) : List (Start U) := n.pools.inbox n.delivered

def turn (n : Node U) : Choice U → Option (Turn U)
  | .event turn => if turn.action.resumes then none else some turn
  | .deliver rounds => n.inbox.head?.map fun start => ⟨.command ⟨0, 0⟩ (.resumeStart start), rounds⟩

def arrived (n : Node U) : Choice U → ℕ
  | .event _ => n.delivered
  | .deliver _ => n.delivered + 1

/-- **One step.** -/
def step (choice : Choice U) (n : Node U) : Option (Node U) :=
  (n.turn choice).bind fun turn =>
    (act turn n.service).map fun service => ⟨service, n.arrived choice⟩

def start (config : HttpClientConfig) : Node U := ⟨initial config, 0⟩

end Node

variable {start : Start U}

/-! ### Steps that wake no start -/

/-- **Where a call of `wake_queued` is missing**, with the pools at that place: bytes for a connection
that is not active, the end of a connection that ends a body, whose exchange is gone or on another
connection, a connect that brings a connection which is known already, and a start that arrives
again and goes back to the queue. -/
def Pools.unwoken (p : Pools U) : Action U → Option (Pools U)
  | .data transport _ =>
    if p.state.active transport = none then some (p.forget transport) else none
  | .closed transport error => (p.state.active transport).bind fun id =>
    match p.state.exchanges id with
    | none => some (p.forget transport)
    | some e =>
      if (endsWithClose e = true ∧ error = none) ∨ e.transport ≠ transport then
        some (p.forget transport)
      else none
  | .wake i (.connected (.ok transport)) =>
    match p.tasks[i]? with
    | some (.connecting _ origin _) =>
      if p.state.origins.any (·.1 = transport) then
        some (((p.erase i).unconnect origin).know transport origin)
      else none
    | _ => none
  | .command _ (.resumeStart start) =>
    match Origin.fromUri start.request.uri with
    | .error _ => none
    | .ok origin =>
      if p.alive start.token = true ∧ p.state.hasIdle origin = false
          ∧ p.state.hasRoom p.config origin = false then some p
      else none
  | _ => none

/-- No call of `wake_queued` is missing that would find a start. -/
def Wakes (n : Node U) (choice : Choice U) : Prop :=
  ∀ turn ∈ n.turn choice, ∀ q ∈ n.pools.unwoken turn.action, q.finds = false

instance (n : Node U) (choice : Choice U) : Decidable (Wakes n choice) :=
  inferInstanceAs (Decidable (∀ turn ∈ n.turn choice, ∀ q ∈ n.pools.unwoken turn.action,
    q.finds = false))

/-! ### Events -/

theorem unwoken_of_forgets (h : c.forgets action = some transport) :
    c.unwoken action = some (c.forget transport) := by
  cases action with
  | data transport' bytes =>
    unfold Pools.forgets at h
    unfold Pools.unwoken
    dsimp only at h ⊢
    split at h
    · rename_i hnone
      cases h
      rw [if_pos hnone]
    · cases h
  | closed transport' error =>
    unfold Pools.unwoken
    dsimp only at h ⊢
    obtain ⟨id, hid, h⟩ := bind_eq_some_iff.mp h
    rw [hid, bind_some]
    cases he : c.state.exchanges id with
    | none =>
      rw [he] at h
      cases h
      rfl
    | some e =>
      rw [he] at h
      dsimp only at h ⊢
      split at h
      · rename_i hends
        cases h
        rw [if_pos (.inl hends)]
      · cases h
  | command | wake | giveUp => cases h

theorem filterMap_sublist {α β : Type} {f g : α → Option β} (h : ∀ a, f a = none ∨ f a = g a)
    (l : List α) : (l.filterMap f).Sublist (l.filterMap g) := by
  induction l with
  | nil => exact .slnil
  | cons a l ih =>
    rw [filterMap_cons, filterMap_cons]
    rcases h a with hnone | hsame
    · rw [hnone]
      cases g a with
      | none => exact ih
      | some b => exact ih.cons b
    · rw [hsame]
      cases g a with
      | none => exact ih
      | some b => exact ih.cons_cons b

theorem Due.left (h : Due 0 delivered p) (token : ℕ) :
    Due 0 delivered { p with alive := Function.update p.alive token false } := by
  refine ⟨h.covered.of_subperm (List.Sublist.subperm ?_), h.keys, h.bound⟩
  have hwants : ∀ start, Pools.wants { p with alive := Function.update p.alive token false } start
      = none ∨ Pools.wants { p with alive := Function.update p.alive token false } start
        = p.wants start := by
    intro start
    unfold Pools.wants
    by_cases htoken : start.token = token
    · left
      rw [if_neg]
      show ¬ Function.update p.alive token false start.token = true
      rw [htoken, Function.update_self]
      exact Bool.false_ne_true
    · right
      show (if Function.update p.alive token false start.token = true then _ else _) = _
      rw [Function.update_of_ne htoken]
  exact (filterMap_sublist hwants _).append (filterMap_sublist hwants _)

theorem Due.queued (h : Due 0 delivered p) (horigin : Origin.fromUri start.request.uri = .ok origin)
    (hidle : p.state.hasIdle origin = false) (hroom : p.state.hasRoom p.config origin = false) :
    Due 0 delivered (p.update fun s => { s with pendingStarts := s.pendingStarts ++ [start] }) := by
  have hcannot : ¬ p.supply.can origin := by
    rw [can_iff, hidle, hroom]
    rintro (h | h)
    · cases h
    · cases h
  refine ⟨?_, h.keys, h.bound⟩
  have hmore : Covered p.supply (origin :: p.waiting delivered) ((p.inbox delivered).length + 0) :=
    h.covered.of_cannot hcannot
  refine hmore.of_subperm ?_
  show List.Subperm ((p.state.pendingStarts ++ [start]).filterMap p.wants ++ _) _
  rw [filterMap_append, append_assoc]
  have hone : ([start].filterMap p.wants).Sublist [origin] := by
    cases halive : p.alive start.token with
    | true =>
      rw [filterMap_cons_some (wants_eq halive horigin)]
      exact List.Sublist.refl _
    | false =>
      rw [filterMap_cons_none (by unfold Pools.wants; rw [if_neg (by rw [halive]; decide)])]
      exact nil_sublist _
  have hsub := (List.Sublist.refl (p.state.pendingStarts.filterMap p.wants)).append
    (hone.append (List.Sublist.refl ((p.inbox delivered).filterMap p.wants)))
  exact hsub.subperm.trans perm_middle.subperm

theorem countP_eraseP {l : List (Origin × TransportId)}
    (h : l.find? (·.1 = origin) = some (origin, transport)) (origin' : Origin) :
    (l.eraseP (·.1 = origin)).countP (·.1 = origin')
      = l.countP (·.1 = origin') - if origin' = origin then 1 else 0 := by
  have hmem := mem_of_find?_eq_some h
  obtain ⟨entry, l₁, l₂, -, hentry, hl, herase⟩ :=
    exists_of_eraseP hmem (p := fun entry => decide (entry.1 = origin)) (decide_eq_true rfl)
  have hfirst : entry.1 = origin := of_decide_eq_true hentry
  rw [herase, hl, countP_append, countP_append, countP_cons, hfirst]
  simp only [decide_eq_true_eq, eq_comm (a := origin)]
  split_ifs
  · omega
  · omega

theorem popIdle_supply (hfound : p.state.idle.find? (·.1 = origin) = some (origin, transport)) :
    (p.popIdle origin).supply.AtMost (p.supply.takeReady origin) ∧ p.supply.Takes origin
      (p.supply.takeReady origin) := by
  obtain ⟨-, -, horigins, hconnecting, -⟩ := popIdle_fields p.state origin
  constructor
  · refine ⟨fun origin' => ?_, ?_, fun origin' => (min_le_right _ _).trans ?_⟩
    · show (p.state.popIdle origin).2.idle.countP (·.1 = origin')
        ≤ p.state.idle.countP (·.1 = origin') - if origin' = origin then 1 else 0
      rw [idle_popIdle, countP_eraseP hfound]
    · show _ - ((p.state.popIdle origin).2.origins.length
        + (p.state.popIdle origin).2.connecting.length) ≤ _
      rw [horigins, hconnecting]
      exact le_rfl
    · show _ - ((p.state.popIdle origin).2.origins.countP _
        + (p.state.popIdle origin).2.connecting.count origin') ≤ _
      rw [horigins, hconnecting]
      exact le_rfl
  · refine .ready (countP_pos_iff.mpr ⟨_, mem_of_find?_eq_some hfound, ?_⟩)
    exact decide_eq_true rfl

theorem connect_supply (start : Start U) (call : U.SendRequest)
    (hidle : p.state.hasIdle origin = false) (hroom : p.state.hasRoom p.config origin = true) :
    ((p.update fun s => { s with connecting := origin :: s.connecting }).suspend
      (.connecting start origin call)).supply.AtMost (p.supply.takeRoom origin)
    ∧ p.supply.Takes origin (p.supply.takeRoom origin) := by
  constructor
  · refine ⟨fun _ => le_rfl, ?_, fun origin' => (min_le_right _ _).trans ?_⟩
    · show p.config.maxConnections - (p.state.origins.length + (origin :: p.state.connecting).length)
        ≤ p.config.maxConnections - (p.state.origins.length + p.state.connecting.length) - 1
      rw [length_cons]
      omega
    · show p.config.maxConnectionsPerOrigin
          - (p.state.origins.countP _ + (origin :: p.state.connecting).count origin')
        ≤ p.config.maxConnectionsPerOrigin
          - (p.state.origins.countP _ + p.state.connecting.count origin')
          - if origin' = origin then 1 else 0
      rw [count_cons]
      simp only [beq_iff_eq, eq_comm (a := origin)]
      omega
  · have hnone : p.supply.ready origin = 0 := by
      refine Nat.eq_zero_of_not_pos fun hpos => ?_
      rw [(hasIdle_iff p.state origin).mpr hpos] at hidle
      cases hidle
    have hcan := (can_iff p origin).mpr (.inr hroom)
    obtain ⟨hfree, hfreeOf⟩ := hcan.resolve_left (by rw [hnone]; exact Nat.lt_irrefl 0)
    exact .room hnone hfree hfreeOf

theorem popIdle_queue (s : State U) (origin : Origin) :
    (s.popIdle origin).2.pendingStarts = s.pendingStarts := by
  unfold State.popIdle
  split
  · rfl
  · rfl

theorem popIdle_keys (h : (p.state.origins.map Prod.fst).Nodup) (origin : Origin) :
    ((p.popIdle origin).state.origins.map Prod.fst).Nodup := by
  show ((p.state.popIdle origin).2.origins.map Prod.fst).Nodup
  rw [(popIdle_fields p.state origin).2.2.1]
  exact h

theorem Due.popIdle (h : Due 0 delivered p)
    (hfound : p.state.idle.find? (·.1 = origin) = some (origin, transport)) :
    Due 0 delivered (p.popIdle origin) := by
  obtain ⟨hsupply, htakes⟩ := popIdle_supply hfound
  exact h.of_atMost (hsupply.trans htakes.atMost) (popIdle_keys h.keys origin)
    (popIdle_queue p.state origin) rfl rfl

theorem Due.insertExchange {free : ℕ} (h : Due free delivered p) (token : ℕ)
    (transport : TransportId) (origin : Origin) (proto : Proto U) (spec : BodySpec) :
    Due free delivered (p.insertExchange token transport origin proto spec) :=
  h.of_eq rfl rfl rfl rfl rfl rfl rfl

theorem Due.known (h : Due 0 delivered c) {i : ℕ} {call : U.SendRequest}
    (hwakes : ∀ q ∈ c.unwoken (.wake i (.connected (.ok transport))), q.finds = false)
    (htask : c.tasks[i]? = some (.connecting start origin call)) :
    Due 0 delivered (((c.erase i).unconnect origin).know transport origin) := by
  cases hknown : c.state.origins.any (·.1 = transport) with
  | false => exact h.connected i origin hknown
  | true =>
    have hfinds := hwakes (((c.erase i).unconnect origin).know transport origin) (by
      unfold Pools.unwoken
      dsimp only
      rw [htask]
      dsimp only
      rw [if_pos hknown]
      rfl)
    exact .of_finds hfinds (know_keys h.keys transport origin) h.bound

theorem Due.cut (h : Due 0 delivered c) {error : Option String} {id : ℕ} {e : Exchange U}
    (hactive : c.state.active transport = some id) (he : c.state.exchanges id = some e)
    (hwakes : ∀ q ∈ c.unwoken (.closed transport error), q.finds = false) :
    Due 0 delivered ((c.forget transport).cancel id) := by
  by_cases htransport : e.transport = transport
  · -- the connection is forgotten twice, and one start is woken for it
    have hcancel : (c.forget transport).cancel id
        = (((c.forget transport).update fun s => s.drop id).forget e.transport).wake := by
      unfold Pools.cancel
      rw [show (c.forget transport).state.exchanges id = some e from he]
    have horigins : (((c.forget transport).update fun s => s.drop id).forget
        e.transport).state.origins = (c.forget transport).state.origins := by
      show ((c.state.origins.filter (·.1 ≠ transport)).filter (·.1 ≠ e.transport)) = _
      rw [htransport, List.filter_filter]
      simp only [Bool.and_self]
      rfl
    rw [hcancel]
    apply Due.wake
    refine (h.forget transport).of_atMost ?_ ?_ rfl rfl rfl
    · refine supply_atMost rfl (fun _ => List.filter_sublist.countP_le) ?_ fun origin => ?_
      · unfold State.total
        rw [horigins]
        exact le_rfl
      · unfold State.same
        rw [horigins]
        exact le_rfl
    · rw [horigins]
      exact forget_keys h.keys transport
  · have hfinds := hwakes (c.forget transport) (by
      unfold Pools.unwoken
      dsimp only
      rw [hactive, Option.bind_some, he]
      dsimp only
      rw [if_pos (.inr htransport)]
      rfl)
    exact (Due.of_finds hfinds (forget_keys h.keys transport) h.bound).cancel id

/-- **A step that is not missing a wake leaves none due.** -/
theorem Shift.due (hwakes : ∀ q ∈ c.unwoken action, q.finds = false) (h : Shift action c p p')
    (hp : Due 0 delivered p) : Due 0 delivered p' := by
  cases h with
  | touched _ id e e' he hkeeps => exact hp.setExchange id _
  | suspended | woken => exact hp.of_eq rfl rfl rfl rfl rfl rfl rfl
  | left token => exact hp.left token
  | unqueued token =>
    refine ⟨hp.covered.of_subperm (List.Sublist.subperm ?_), hp.keys, hp.bound⟩
    exact (filter_sublist.filterMap _).append (List.Sublist.refl _)
  | woke _ => exact hp.more.wake
  | queued start origin haction horigin hidle hroom => exact hp.queued horigin hidle hroom
  | connecting start origin call haction horigin hidle hroom =>
    obtain ⟨hsupply, htakes⟩ := connect_supply start call hidle hroom
    exact hp.of_atMost (hsupply.trans htakes.atMost) hp.keys rfl rfl rfl
  | refused i start origin call htask => exact (hp.unconnect i origin).wake
  | made i start origin call transport proto haction htask hproto =>
    subst haction
    exact (hp.known hwakes htask).insertExchange _ _ _ _ _
  | dropped i start origin call transport haction htask =>
    subst haction
    exact ((hp.known hwakes htask).forget transport).wake
  | reused start origin transport proto haction horigin hfound hproto =>
    exact (hp.popIdle hfound).insertExchange _ _ _ _ _
  | unused origin transport hfound => exact ((hp.popIdle hfound).forget transport).wake
  | canceled _ id => exact hp.cancel id
  | forgot transport hforgets =>
    exact .of_finds (hwakes _ (unwoken_of_forgets hforgets)) (forget_keys hp.keys transport) hp.bound
  | cut transport error id e haction hactive he =>
    subst haction
    exact hp.cut hactive he hwakes
  | lapsed transport => exact (hp.forget transport).wake
  | gave id e e' reusable he hreusable htransport horigin hproto hspent =>
    exact (hp.setExchange id _).release id _ _ _
  | returning id e e' reusable via pending answer he hreusable htransport horigin hproto hspent =>
    exact (hp.setExchange id _).of_eq rfl rfl rfl rfl rfl rfl rfl
  | returned i id via pending answer transport origin reusable resumed htask =>
    have herase : Due 0 delivered (c.erase i) := hp.of_eq rfl rfl rfl rfl rfl rfl rfl
    cases resumed with
    | true => exact herase.release id transport origin reusable
    | false => exact (herase.cancel id).release id transport origin reusable

theorem due_shifts (hwakes : ∀ q ∈ c.unwoken action, q.finds = false)
    (h : ReflTransGen (Shift action c) c p) (hc : Due 0 delivered c) : Due 0 delivered p := by
  induction h with
  | refl => exact hc
  | tail _ hshift ih => exact hshift.due hwakes ih

/-! ### A start arrives again -/

structure Owed (start : Start U) (delivered : ℕ) (p : Pools U) : Prop where
  covered : ∀ origin, p.wants start = some origin →
    Covered p.supply (origin :: p.waiting delivered) ((p.inbox delivered).length + 1)
  due : Due 1 delivered p

theorem Due.arrives (h : Due 0 delivered p) (hstart : (p.inbox delivered).head? = some start) :
    Owed start (delivered + 1) p := by
  have hinbox : p.inbox delivered = start :: p.inbox (delivered + 1) := by
    unfold Pools.inbox at hstart ⊢
    rw [← tail_drop, cons_head?_tail hstart]
  have hcovered := h.covered
  rw [hinbox, length_cons] at hcovered
  have hwaiting : (p.waiting delivered).Perm
      (p.state.pendingStarts.filterMap p.wants
        ++ (start :: p.inbox (delivered + 1)).filterMap p.wants) := by
    unfold Pools.waiting
    rw [hinbox]
  have hbound : delivered + 1 ≤ (mailed p.sent).length := by
    have hlength := congrArg length hinbox
    unfold Pools.inbox at hlength
    rw [length_drop, length_cons] at hlength
    omega
  refine ⟨fun origin hwants => hcovered.of_subperm ?_, hcovered.of_subperm ?_, h.keys, hbound⟩
  · rw [filterMap_cons_some hwants] at hwaiting
    exact (perm_middle.symm.trans hwaiting.symm).subperm
  · refine (List.Sublist.subperm ?_).trans hwaiting.symm.subperm
    exact (List.Sublist.refl _).append ((sublist_cons_self _ _).filterMap _)

theorem Owed.popIdle (h : Owed start delivered p) (hwants : p.wants start = some origin)
    (hfound : p.state.idle.find? (·.1 = origin) = some (origin, transport)) :
    Due 0 delivered (p.popIdle origin) := by
  obtain ⟨hsupply, htakes⟩ := popIdle_supply hfound
  refine ⟨?_, popIdle_keys h.due.keys origin, h.due.bound⟩
  have hwaiting : (p.popIdle origin).waiting delivered = p.waiting delivered := by
    apply waiting_congr
    · exact popIdle_queue p.state origin
    · rfl
    · rfl
  rw [hwaiting]
  exact ((h.covered origin hwants).of_takes htakes).of_atMost hsupply

/-- **A start that arrives again is served**, or wakes another one, or finds that no other could be
served. -/
theorem Begins.due {pending : Pending} (h : Begins start c p)
    (hwakes : ∀ q ∈ c.unwoken (.command pending (.resumeStart start)), q.finds = false)
    (howed : Owed start delivered c) : Due 0 delivered p := by
  cases h with
  | passed => exact howed.due.wake
  | queued origin halive horigin hidle hroom =>
    have hfinds : c.finds = false := by
      apply hwakes
      unfold Pools.unwoken
      dsimp only
      rw [horigin]
      dsimp only
      rw [if_pos ⟨halive, hidle, hroom⟩]
      rfl
    refine .of_finds ?_ howed.due.keys howed.due.bound
    show (c.state.pendingStarts ++ [start]).any (fun start =>
      c.alive start.token && c.state.eligible c.config start) = false
    rw [any_append, show c.state.pendingStarts.any _ = false from hfinds, Bool.false_or,
      any_cons, any_nil, Bool.or_false]
    unfold State.eligible
    rw [horigin]
    dsimp only
    rw [hidle, hroom, Bool.or_false, Bool.and_false]
  | connecting origin call halive horigin hidle hroom =>
    obtain ⟨hsupply, htakes⟩ := connect_supply start call hidle hroom
    refine ⟨?_, howed.due.keys, howed.due.bound⟩
    have hserved := (howed.covered origin (wants_eq halive horigin)).of_takes htakes
    exact hserved.of_atMost hsupply
  | reused origin transport proto task halive horigin hfound hproto htask =>
    have hpopped := howed.popIdle (wants_eq halive horigin) hfound
    exact hpopped.of_eq rfl rfl rfl rfl rfl rfl rfl
  | unused origin transport halive horigin hfound =>
    exact ((howed.popIdle (wants_eq halive horigin) hfound).forget transport).wake

/-! ### Whole runs -/

theorem due_step {choice : Choice U} {n n' : Node U} (hwakes : Wakes n choice)
    (hstep : Node.step choice n = some n') (h : Due 0 n.delivered n.pools)
    (hrest : n'.service.panicked = none) : Due 0 n'.delivered n'.pools := by
  obtain ⟨turn, hturn, hstep⟩ := bind_eq_some_iff.mp hstep
  obtain ⟨s', hact, rfl⟩ := map_eq_some_iff.mp hstep
  have hmissing := hwakes turn hturn
  cases choice with
  | event turn' =>
    unfold Node.turn at hturn
    dsimp only at hturn
    split at hturn
    · cases hturn
    · cases hturn
      exact due_shifts hmissing (act_joint hact).2 h
  | deliver rounds =>
    obtain ⟨start, hstart, rfl⟩ := map_eq_some_iff.mp hturn
    obtain ⟨m, hm, hrun⟩ := act_calm hact hrest
    cases hm
    exact (startExchange_begins hrun).2.due hmissing (h.arrives hstart)

theorem due_start (config : HttpClientConfig) :
    Due 0 0 (Node.start config : Node U).pools := by
  refine ⟨?_, nodup_nil, Nat.le_refl _⟩
  intro l hl _
  exact hl.length_le

/-- **No eligible start stays queued.**  In every run in which no wake is missing, while the service
is at rest and no start is on its way to it, the origin of every queued start whose caller is still
there has no idle connection, and one of the limits is reached. -/
theorem no_eligible_start_queued (config : HttpClientConfig) (run : List (Choice U)) (n : Node U)
    (hwakes : along Node.step Wakes run (Node.start config))
    (hrun : exec Node.step run (Node.start config) = some n)
    (hrest : n.service.panicked = none) (hinbox : n.inbox = []) :
    ∀ start ∈ n.service.world.data.state.pendingStarts,
      n.service.world.data.alive start.token = true →
      ∀ origin, Origin.fromUri start.request.uri = .ok origin →
        n.service.world.data.state.hasIdle origin = false
        ∧ (n.service.world.data.config.maxConnections ≤ n.service.world.data.state.total
          ∨ n.service.world.data.config.maxConnectionsPerOrigin
            ≤ n.service.world.data.state.same origin) := by
  have hdue : n.service.panicked = none → Due 0 n.delivered n.pools := by
    refine exec_invariant (I := fun n : Node U => n.service.panicked = none →
      Due 0 n.delivered n.pools) ?_ run (fun _ => due_start config) hwakes hrun
    intro choice m m' hm hmissing hstep hrest'
    refine due_step hmissing hstep (hm ?_) hrest'
    obtain ⟨turn, -, hstep⟩ := bind_eq_some_iff.mp hstep
    obtain ⟨s', hact, -⟩ := map_eq_some_iff.mp hstep
    exact (act_cases hact).1
  intro start hstart halive origin horigin
  have hcovered := (hdue hrest).covered
  rw [show n.pools.inbox n.delivered = [] from hinbox] at hcovered
  have hwaits : origin ∈ n.pools.waiting n.delivered :=
    mem_append.mpr (.inl (mem_filterMap.mpr ⟨start, hstart, wants_eq halive horigin⟩))
  have hcannot := hcovered.cannot hwaits
  rw [can_iff, not_or, Bool.not_eq_true, Bool.not_eq_true] at hcannot
  refine ⟨hcannot.1, ?_⟩
  have hroom := hcannot.2
  unfold State.hasRoom at hroom
  rw [Bool.and_eq_false_iff, decide_eq_false_iff_not, decide_eq_false_iff_not, Nat.not_lt,
    Nat.not_lt] at hroom
  exact hroom

/-! ### Runs -/

def events (turns : List (Turn sample)) : List (Choice sample) := turns.map .event

def startAt (host : List Char) (token : ℕ) : Turn sample :=
  ⟨.command (caller token) (.start token (requestTo host .plain)), 9⟩

def connectedTo (number : ℕ) : List (Turn sample) :=
  [⟨.wake 0 (.connected (.ok (.plain number))), 9⟩, ⟨.wake 0 (.finished (.ok ())), 9⟩]

/-- The response of exchange 1 comes on connection 1 and is read to its end. -/
def readToEnd : List (Turn sample) :=
  [⟨.data (.plain 1) [7], 9⟩, ⟨.command (caller 11) (.response 1), 9⟩, ⟨.data (.plain 1) [0], 9⟩,
   ⟨.command (caller 12) (.next 1), 9⟩]

/-- Two starts wait for the connection of exchange 1; the first gets it. -/
def oneAfterAnother : List (Choice sample) :=
  events ([startAt ['h'] 1] ++ connectedTo 1 ++ [startAt ['h'] 2, startAt ['h'] 3] ++ readToEnd)
    ++ [.deliver 9]

theorem oneAfterAnother_wakes :
    along Node.step Wakes oneAfterAnother (Node.start { maxConnections := 1 }) := by
  decide +kernel

theorem oneAfterAnother_runs :
    (exec Node.step oneAfterAnother (Node.start { maxConnections := 1 })).any (fun n =>
      n.service.panicked.isNone && n.inbox.isEmpty
        && n.service.world.data.state.pendingStarts.map (·.token) == [3]) = true := by
  decide +kernel

theorem no_eligible_after_another : ∃ n : Node sample,
    exec Node.step oneAfterAnother (Node.start { maxConnections := 1 }) = some n
    ∧ n.service.world.data.state.pendingStarts.map (·.token) = [3]
    ∧ ∀ start ∈ n.service.world.data.state.pendingStarts,
      n.service.world.data.alive start.token = true →
      ∀ origin, Origin.fromUri start.request.uri = .ok origin →
        n.service.world.data.state.hasIdle origin = false
        ∧ (n.service.world.data.config.maxConnections ≤ n.service.world.data.state.total
          ∨ n.service.world.data.config.maxConnectionsPerOrigin
            ≤ n.service.world.data.state.same origin) := by
  obtain ⟨n, hn, hend⟩ := (any_eq_true _ _).mp oneAfterAnother_runs
  rw [Bool.and_eq_true, Bool.and_eq_true] at hend
  obtain ⟨⟨hrest, hinbox⟩, hqueue⟩ := hend
  exact ⟨n, hn, beq_iff_eq.mp hqueue, no_eligible_start_queued _ _ n oneAfterAnother_wakes hn
    (isNone_iff_eq_none.mp hrest) (isEmpty_iff.mp hinbox)⟩

/-- Two starts for one origin are woken, for its idle connection and for the room that another
connection leaves; the first takes the connection, and the second may not use the room. -/
def wakeTooMany : List (Choice sample) :=
  events ([startAt ['a'] 1] ++ connectedTo 1 ++ [startAt ['x'] 2] ++ connectedTo 2
    ++ [startAt ['a'] 3, startAt ['a'] 4, startAt ['b'] 5] ++ readToEnd
    ++ [⟨.closed (.plain 2) none, 9⟩])
    ++ [.deliver 9, .deliver 9]

/-- At rest with no start on its way and no connect in flight, and a start in the queue could go
on. -/
def Node.stuck (n : Node U) : Bool :=
  n.service.panicked.isNone && n.inbox.isEmpty
    && n.service.world.data.tasks.all (fun task => !task.isConnecting)
    && n.service.world.data.state.pendingStarts.any fun start =>
      n.service.world.data.alive start.token
        && n.service.world.data.state.eligible n.service.world.data.config start

/-- **A start that stays queued.** -/
theorem queued_while_eligible :
    (exec Node.step wakeTooMany
      (Node.start { maxConnections := 2, maxConnectionsPerOrigin := 1 })).any Node.stuck = true := by
  decide +kernel

end Rskynet.Http
