import Rskynet.Lib.Supply
import Rskynet.Http.Limits

/-!
# Capacity of the HTTP client

The idle connections and the limits are a supply of connections, and the starts that are queued or on
their way back to the service wait for it.

* `Due.wake` — **PROVED**: `wake_queued` settles a wake that is due.
-/

namespace Rskynet.Http

open Cells Supplies List Prod

variable {U : Ureq} {p p' : Pools U} {free delivered : ℕ}

/-! ### The supply -/

/-- The idle connections of every origin, and the room that the limits leave. -/
def Pools.supply (p : Pools U) : Supply Origin where
  ready origin := p.state.idle.countP (·.1 = origin)
  room := p.config.maxConnections - p.state.total
  roomOf origin := p.config.maxConnectionsPerOrigin - p.state.same origin

theorem supply_congr (hconfig : p'.config = p.config) (hidle : p'.state.idle = p.state.idle)
    (horigins : p'.state.origins = p.state.origins)
    (hconnecting : p'.state.connecting = p.state.connecting) : p'.supply = p.supply := by
  unfold Pools.supply State.total State.same
  rw [hconfig, hidle, horigins, hconnecting]

theorem supply_atMost (hconfig : p'.config = p.config)
    (hidle : ∀ origin, p'.state.idle.countP (·.1 = origin) ≤ p.state.idle.countP (·.1 = origin))
    (htotal : p.state.total ≤ p'.state.total)
    (hsame : ∀ origin, p.state.same origin ≤ p'.state.same origin) :
    p'.supply.AtMost p.supply := by
  refine ⟨hidle, ?_, fun origin => (min_le_right _ _).trans ?_⟩
  · show p'.config.maxConnections - _ ≤ _
    rw [hconfig]
    exact Nat.sub_le_sub_left htotal _
  · show p'.config.maxConnectionsPerOrigin - _ ≤ _
    rw [hconfig]
    exact Nat.sub_le_sub_left (hsame origin) _

theorem supply_extra (origin : Origin) (hconfig : p'.config = p.config)
    (hidle : ∀ origin, p'.state.idle.countP (·.1 = origin) ≤ p.state.idle.countP (·.1 = origin))
    (htotal : p.state.total ≤ p'.state.total + 1) (hsame : ∀ origin', p.state.same origin'
      ≤ p'.state.same origin' + if origin' = origin then 1 else 0) :
    p'.supply.Extra p.supply := by
  refine .room origin hidle ?_ fun origin' => (min_le_right _ _).trans ?_
  · show p'.config.maxConnections - p'.state.total ≤ p.config.maxConnections - p.state.total + 1
    rw [hconfig]
    omega
  · have := hsame origin'
    show p'.config.maxConnectionsPerOrigin - p'.state.same origin'
      ≤ p.config.maxConnectionsPerOrigin - p.state.same origin' + if origin' = origin then 1 else 0
    rw [hconfig]
    omega

theorem hasIdle_iff (s : State U) (origin : Origin) :
    s.hasIdle origin = true ↔ 0 < s.idle.countP (·.1 = origin) := by
  unfold State.hasIdle
  rw [any_eq_true, countP_pos_iff]

theorem can_iff (p : Pools U) (origin : Origin) : p.supply.can origin
    ↔ p.state.hasIdle origin = true ∨ p.state.hasRoom p.config origin = true := by
  rw [hasIdle_iff]
  unfold State.hasRoom
  rw [Bool.and_eq_true, decide_eq_true_iff, decide_eq_true_iff]
  show _ ∨ 0 < p.config.maxConnections - p.state.total
    ∧ 0 < p.config.maxConnectionsPerOrigin - p.state.same origin ↔ _
  rw [Nat.sub_pos_iff_lt, Nat.sub_pos_iff_lt]
  rfl

/-! ### The starts that wait -/

def Command.resumed? : Command U → Option (Start U)
  | .resumeStart job => some job
  | _ => none

def mailed (sent : List (Command U)) : List (Start U) := sent.reverse.filterMap Command.resumed?

def Pools.inbox (p : Pools U) (delivered : ℕ) : List (Start U) := (mailed p.sent).drop delivered

/-- The origin that a start asks for, as long as its caller is there. -/
def Pools.wants (p : Pools U) (start : Start U) : Option Origin :=
  if p.alive start.token then (Origin.fromUri start.request.uri).toOption else none

def Pools.waiting (p : Pools U) (delivered : ℕ) : List Origin :=
  p.state.pendingStarts.filterMap p.wants ++ (p.inbox delivered).filterMap p.wants

theorem wants_eq {start : Start U} {origin : Origin} (halive : p.alive start.token = true)
    (horigin : Origin.fromUri start.request.uri = .ok origin) : p.wants start = some origin := by
  unfold Pools.wants
  rw [if_pos halive, horigin]
  rfl

theorem eligible_of_can {start : Start U} {origin : Origin} (hwants : p.wants start = some origin)
    (hcan : p.supply.can origin) :
    p.alive start.token = true ∧ p.state.eligible p.config start = true := by
  unfold Pools.wants at hwants
  split at hwants
  · rename_i halive
    refine ⟨halive, ?_⟩
    unfold State.eligible
    cases horigin : Origin.fromUri start.request.uri with
    | error e =>
      rw [horigin] at hwants
      cases hwants
    | ok origin' =>
      rw [horigin] at hwants
      cases hwants
      exact Bool.or_eq_true_iff.mpr ((can_iff p origin).mp hcan)
  · cases hwants

def Pools.finds (p : Pools U) : Bool :=
  p.state.pendingStarts.any fun start => p.alive start.token && p.state.eligible p.config start

theorem cannot_of_finds (h : p.finds = false) :
    ∀ origin ∈ p.state.pendingStarts.filterMap p.wants, ¬ p.supply.can origin := by
  intro origin horigin hcan
  obtain ⟨start, hstart, hwants⟩ := mem_filterMap.mp horigin
  obtain ⟨halive, heligible⟩ := eligible_of_can hwants hcan
  have hfound := any_eq_false.mp h start hstart
  rw [halive, heligible] at hfound
  exact hfound rfl

/-! ### Wakes that are due -/

/-- **Of the starts that wait no more can be served than are on their way**, but for the wakes that
are due; and the table of the known connections has one entry for each. -/
structure Due (free delivered : ℕ) (p : Pools U) : Prop where
  covered : Covered p.supply (p.waiting delivered) ((p.inbox delivered).length + free)
  keys : (p.state.origins.map Prod.fst).Nodup
  bound : delivered ≤ (mailed p.sent).length

theorem waiting_congr (hqueue : p'.state.pendingStarts = p.state.pendingStarts)
    (halive : p'.alive = p.alive) (hsent : p'.sent = p.sent) (delivered : ℕ) :
    p'.waiting delivered = p.waiting delivered := by
  unfold Pools.waiting Pools.inbox
  have hwants : p'.wants = p.wants := by
    funext start
    unfold Pools.wants
    rw [halive]
  rw [hqueue, hsent, hwants]

theorem Due.of_atMost (h : Due free delivered p) (hsupply : p'.supply.AtMost p.supply)
    (hkeys : (p'.state.origins.map fst).Nodup)
    (hqueue : p'.state.pendingStarts = p.state.pendingStarts) (halive : p'.alive = p.alive)
    (hsent : p'.sent = p.sent) : Due free delivered p' := by
  refine ⟨?_, hkeys, hsent ▸ h.bound⟩
  rw [waiting_congr hqueue halive hsent]
  unfold Pools.inbox
  rw [hsent]
  exact h.covered.of_atMost hsupply

theorem Due.of_extra (h : Due free delivered p) (hsupply : p'.supply.Extra p.supply)
    (hkeys : (p'.state.origins.map fst).Nodup)
    (hqueue : p'.state.pendingStarts = p.state.pendingStarts) (halive : p'.alive = p.alive)
    (hsent : p'.sent = p.sent) : Due (free + 1) delivered p' := by
  refine ⟨?_, hkeys, hsent ▸ h.bound⟩
  rw [waiting_congr hqueue halive hsent]
  unfold Pools.inbox
  rw [hsent]
  exact h.covered.of_extra hsupply

theorem Due.of_eq (h : Due free delivered p) (hconfig : p'.config = p.config)
    (hidle : p'.state.idle = p.state.idle) (horigins : p'.state.origins = p.state.origins)
    (hconnecting : p'.state.connecting = p.state.connecting)
    (hqueue : p'.state.pendingStarts = p.state.pendingStarts) (halive : p'.alive = p.alive)
    (hsent : p'.sent = p.sent) : Due free delivered p' := by
  refine h.of_atMost ?_ (horigins ▸ h.keys) hqueue halive hsent
  rw [supply_congr hconfig hidle horigins hconnecting]
  exact .refl _

theorem Due.of_finds (h : p.finds = false) (hkeys : (p.state.origins.map fst).Nodup)
    (hbound : delivered ≤ (mailed p.sent).length) : Due 0 delivered p := by
  refine ⟨?_, hkeys, hbound⟩
  refine (Covered.of_none (cannot_of_finds h) (List.Subperm.refl _)).of_le ?_
  exact length_filterMap_le _ _

/-! ### Waking a start -/

theorem filterMap_living (p : Pools U) : p.living.state.pendingStarts.filterMap p.wants
    = p.state.pendingStarts.filterMap p.wants := by
  show (p.state.pendingStarts.filter fun start => p.alive start.token).filterMap p.wants = _
  rw [filterMap_filter]
  apply filterMap_congr
  intro start _
  unfold Pools.wants
  split
  · rfl
  · rfl

theorem wake_cases (p : Pools U) :
    (p.wake = p.living ∧ p.finds = false)
    ∨ ∃ i start, p.living.state.pendingStarts[i]? = some start
      ∧ p.wake = { p.living.update fun s => { s with pendingStarts := s.pendingStarts.eraseIdx i }
          with sent := .resumeStart start :: p.sent } := by
  have hwake : p.wake
      = Pools.resume { p.living with state := (p.living.state.popEligible p.config).2.bare }
        (p.living.state.popEligible p.config).1 := rfl
  rw [hwake]
  cases hfound : p.living.state.pendingStarts.findIdx? (p.living.state.eligible p.config) with
  | none =>
    have hpop : p.living.state.popEligible p.config = (none, p.living.state) := by
      unfold State.popEligible
      rw [hfound]
    refine .inl ⟨by rw [hpop]; rfl, any_eq_false.mpr ?_⟩
    intro start hstart hliving
    obtain ⟨halive, heligible⟩ := Bool.and_eq_true_iff.mp hliving
    have hmem : start ∈ p.living.state.pendingStarts := mem_filter.mpr ⟨hstart, halive⟩
    have hnot := findIdx?_eq_none_iff.mp hfound start hmem
    rw [show p.living.state.eligible p.config start = p.state.eligible p.config start from rfl,
      heligible] at hnot
    cases hnot
  | some i =>
    obtain ⟨hi, -⟩ := findIdx?_eq_some_iff_getElem.mp hfound
    have hpop : p.living.state.popEligible p.config = (some p.living.state.pendingStarts[i],
        { p.living.state with pendingStarts := p.living.state.pendingStarts.eraseIdx i }) := by
      unfold State.popEligible
      rw [hfound]
      dsimp only
      rw [getElem?_eq_getElem hi]
    refine .inr ⟨i, p.living.state.pendingStarts[i], getElem?_eq_getElem hi, ?_⟩
    rw [hpop]
    rfl

theorem mailed_cons (start : Start U) (sent : List (Command U)) :
    mailed (.resumeStart start :: sent) = mailed sent ++ [start] := by
  unfold mailed
  rw [reverse_cons, filterMap_append]
  rfl

/-- **`wake_queued`** settles a wake that is due: it sends a start on its way, or none of those in
the queue can be served. -/
theorem Due.wake (h : Due 1 delivered p) : Due 0 delivered p.wake := by
  have hsupply : p.wake.supply = p.supply :=
    supply_congr (wake_config p) (wake_idle p) (wake_origins p) (wake_connecting p)
  have hkeys : (p.wake.state.origins.map fst).Nodup := by
    rw [wake_origins]
    exact h.keys
  rcases wake_cases p with ⟨hwake, hfinds⟩ | ⟨i, start, hstart, hwake⟩
  · have hnone := Due.of_finds hfinds h.keys h.bound
    refine ⟨?_, hkeys, hwake ▸ h.bound⟩
    rw [hsupply, hwake]
    show Covered _ (p.living.state.pendingStarts.filterMap p.wants ++ _) _
    rw [filterMap_living]
    exact hnone.covered
  · have hsent : p.wake.sent = .resumeStart start :: p.sent := by rw [hwake]
    have hinbox : p.wake.inbox delivered = p.inbox delivered ++ [start] := by
      unfold Pools.inbox
      rw [hsent, mailed_cons, List.drop_append_of_le_length h.bound]
    refine ⟨?_, hkeys, ?_⟩
    · rw [hsupply, hinbox, List.length_append]
      refine h.covered.of_subperm (List.Perm.subperm ?_)
      -- the start has only gone from the queue to the inbox
      have hqueue : p.wake.state.pendingStarts = p.living.state.pendingStarts.eraseIdx i := by
        rw [hwake]
        rfl
      have hwants : p.wake.wants = p.wants := by
        rw [hwake]
        rfl
      unfold Pools.waiting
      rw [hinbox, hqueue, hwants, ← filterMap_living p, ← List.filterMap_append,
        ← List.filterMap_append]
      apply List.Perm.filterMap
      obtain ⟨hi, rfl⟩ := List.getElem?_eq_some_iff.mp hstart
      have hperm := List.getElem_cons_eraseIdx_perm hi
      have hmove : (p.living.state.pendingStarts.eraseIdx i
          ++ (p.inbox delivered ++ [p.living.state.pendingStarts[i]])).Perm
          (p.living.state.pendingStarts[i] :: (p.living.state.pendingStarts.eraseIdx i
            ++ p.inbox delivered)) := by
        rw [← List.append_assoc]
        exact List.perm_append_singleton _ _
      exact hmove.trans (hperm.append_right _)
    · rw [hsent, mailed_cons, List.length_append]
      exact h.bound.trans (Nat.le_add_right _ _)

theorem Due.more (h : Due 0 delivered p) : Due 1 delivered p :=
  ⟨h.covered.of_le (Nat.le_succ _), h.keys, h.bound⟩

/-! ### Connections that go and come back -/

theorem perm_filter_key {τ ω : Type} [DecidableEq τ] {l : List (τ × ω)} {t : τ} {o : ω}
    (hkeys : (l.map fst).Nodup) (h : (t, o) ∈ l) : l.Perm ((t, o) :: l.filter (·.1 ≠ t)) := by
  induction l with
  | nil => cases h
  | cons entry l ih =>
    rw [map_cons, nodup_cons] at hkeys
    obtain ⟨hfirst, hrest⟩ := hkeys
    rcases mem_cons.mp h with rfl | h
    · have hothers : ∀ entry ∈ l, decide (entry.1 ≠ t) = true := by
        intro entry hentry
        refine decide_eq_true fun heq => hfirst ?_
        exact mem_map.mpr ⟨entry, hentry, heq⟩
      rw [filter_cons_of_neg (by simp), filter_eq_self.mpr hothers]
    · have hne : entry.1 ≠ t := by
        intro heq
        exact hfirst (heq ▸ mem_map.mpr ⟨_, h, rfl⟩)
      rw [filter_cons_of_pos (by simpa using hne)]
      exact ((ih hrest h).cons entry).trans (.swap _ _ _)

theorem forget_keys (h : (p.state.origins.map fst).Nodup) (transport : TransportId) :
    ((p.forget transport).state.origins.map fst).Nodup :=
  h.sublist (filter_sublist.map _)

theorem Due.forget (h : Due free delivered p) (transport : TransportId) :
    Due (free + 1) delivered (p.forget transport) := by
  have hidle : ∀ origin, (p.state.idle.filter (·.2 ≠ transport)).countP (·.1 = origin)
      ≤ p.state.idle.countP (·.1 = origin) := fun _ => filter_sublist.countP_le
  by_cases hknown : ∃ origin, (transport, origin) ∈ p.state.origins
  · obtain ⟨origin, hknown⟩ := hknown
    have hperm := perm_filter_key h.keys hknown
    refine h.of_extra (supply_extra origin rfl hidle ?_ ?_) (forget_keys h.keys transport) rfl rfl
      rfl
    · have hlength := hperm.length_eq
      rw [length_cons] at hlength
      show p.state.origins.length + p.state.connecting.length
        ≤ (p.state.origins.filter (·.1 ≠ transport)).length + p.state.connecting.length + 1
      omega
    · intro origin'
      have hcount := hperm.countP_eq fun entry => decide (entry.2 = origin')
      rw [countP_cons] at hcount
      simp only [decide_eq_true_eq, eq_comm (a := origin)] at hcount
      show p.state.origins.countP (·.2 = origin') + p.state.connecting.count origin'
        ≤ (p.state.origins.filter (·.1 ≠ transport)).countP (·.2 = origin')
          + p.state.connecting.count origin' + if origin' = origin then 1 else 0
      omega
  · have hsame : p.state.origins.filter (·.1 ≠ transport) = p.state.origins := by
      refine filter_eq_self.mpr fun entry hentry => decide_eq_true fun heq => hknown ?_
      exact ⟨entry.2, heq ▸ hentry⟩
    have hsupply : (p.forget transport).supply.AtMost p.supply := by
      refine supply_atMost rfl hidle ?_ fun origin => ?_
      · show _ ≤ (p.state.origins.filter _).length + _
        rw [hsame]
        exact le_rfl
      · show _ ≤ (p.state.origins.filter _).countP _ + _
        rw [hsame]
        exact le_rfl
    have hdue := h.of_atMost hsupply (forget_keys h.keys transport) rfl rfl rfl
    exact ⟨hdue.covered.of_le (Nat.le_succ _), hdue.keys, hdue.bound⟩

theorem Due.setExchange (h : Due free delivered p) (id : ℕ) (e : Option (Exchange U)) :
    Due free delivered (p.setExchange id e) := h.of_eq rfl rfl rfl rfl rfl rfl rfl

theorem Due.cancel (h : Due 0 delivered p) (id : ℕ) : Due 0 delivered (p.cancel id) := by
  unfold Pools.cancel
  split
  · exact h
  · rename_i e he
    have hdrop : Due 0 delivered (p.update fun s => s.drop id) :=
      h.of_eq rfl rfl rfl rfl rfl rfl rfl
    exact (hdrop.forget e.transport).wake

theorem Due.pool (h : Due 0 delivered p) (transport : TransportId) (origin : Origin) :
    Due 1 delivered (p.update fun s => s.pool transport origin) := by
  refine h.of_extra (.ready origin ?_ le_rfl fun _ => min_le_right _ _) h.keys rfl rfl rfl
  intro origin'
  show (p.state.idle ++ [(origin, transport)]).countP (·.1 = origin')
    ≤ p.state.idle.countP (·.1 = origin') + if origin' = origin then 1 else 0
  rw [countP_append, countP_singleton]
  simp only [decide_eq_true_eq, eq_comm (a := origin)]
  exact le_rfl

theorem Due.recycle (h : Due 0 delivered p) (transport : TransportId) (origin : Origin)
    (reusable : Bool) : Due 0 delivered (p.recycle transport origin reusable) := by
  have hinactive : Due 0 delivered (p.update fun s => s.setActive transport none) :=
    h.of_eq rfl rfl rfl rfl rfl rfl rfl
  unfold Pools.recycle
  dsimp only
  split
  · exact (hinactive.pool transport origin).wake
  · exact (hinactive.forget transport).wake

theorem Due.release (h : Due 0 delivered p) (id : ℕ) (transport : TransportId) (origin : Origin)
    (reusable : Bool) : Due 0 delivered (p.release id transport origin reusable) :=
  (h.recycle transport origin reusable).setExchange id none

/-! ### Connects -/

theorem length_le_erase (connecting : List Origin) (origin : Origin) :
    connecting.length ≤ (connecting.erase origin).length + 1 := by
  rw [length_erase]
  split
  · omega
  · omega

theorem count_le_erase (connecting : List Origin) (origin origin' : Origin) :
    connecting.count origin'
      ≤ (connecting.erase origin).count origin' + if origin' = origin then 1 else 0 := by
  split_ifs with heq
  · subst heq
    rw [count_erase_self]
    omega
  · rw [count_erase_of_ne heq]
    exact le_rfl

theorem Due.unconnect (h : Due 0 delivered p) (i : ℕ) (origin : Origin) :
    Due 1 delivered ((p.erase i).unconnect origin) := by
  refine h.of_extra (supply_extra origin rfl (fun _ => le_rfl) ?_ fun origin' => ?_) h.keys rfl rfl
    rfl
  · have hlength := length_le_erase p.state.connecting origin
    show p.state.origins.length + p.state.connecting.length
      ≤ p.state.origins.length + (p.state.connecting.erase origin).length + 1
    omega
  · have hcount := count_le_erase p.state.connecting origin origin'
    show p.state.origins.countP _ + p.state.connecting.count origin'
      ≤ p.state.origins.countP _ + (p.state.connecting.erase origin).count origin' + _
    omega

theorem know_keys (h : (p.state.origins.map fst).Nodup) (transport : TransportId)
    (origin : Origin) : ((p.know transport origin).state.origins.map fst).Nodup := by
  show (((transport, origin) :: p.state.origins.filter (·.1 ≠ transport)).map fst).Nodup
  rw [map_cons, nodup_cons]
  refine ⟨?_, h.sublist (filter_sublist.map _)⟩
  intro hmem
  obtain ⟨entry, hentry, heq⟩ := mem_map.mp hmem
  have hne := (mem_filter.mp hentry).2
  exact of_decide_eq_true hne heq

theorem Due.connected (h : Due 0 delivered p) (i : ℕ) {transport : TransportId} (origin : Origin)
    (hnew : p.state.origins.any (·.1 = transport) = false) :
    Due 0 delivered (((p.erase i).unconnect origin).know transport origin) := by
  have hsame : p.state.origins.filter (·.1 ≠ transport) = p.state.origins := by
    refine filter_eq_self.mpr fun entry hentry => decide_eq_true fun heq => ?_
    exact any_eq_false.mp hnew entry hentry (decide_eq_true heq)
  refine h.of_atMost (supply_atMost rfl (fun _ => le_rfl) ?_ fun origin' => ?_)
    (know_keys h.keys transport origin) rfl rfl rfl
  · have hlength := length_le_erase p.state.connecting origin
    show p.state.origins.length + p.state.connecting.length
      ≤ ((transport, origin) :: p.state.origins.filter _).length
        + (p.state.connecting.erase origin).length
    rw [hsame, length_cons]
    omega
  · have hcount := count_le_erase p.state.connecting origin origin'
    show p.state.origins.countP _ + p.state.connecting.count origin'
      ≤ ((transport, origin) :: p.state.origins.filter _).countP _
        + (p.state.connecting.erase origin).count origin'
    rw [hsame, countP_cons]
    simp only [decide_eq_true_eq, eq_comm (a := origin)]
    omega

end Rskynet.Http
