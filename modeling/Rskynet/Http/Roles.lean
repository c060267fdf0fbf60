import Rskynet.Http.Limits

/-!
# Roles of the HTTP client's connections

A connection that the client knows is idle in the pool of its origin, active for one exchange, or held
by a start that is about to use it; the last only inside a step.

* `Roles.release`, … — **PROVED**: the operations by which a connection changes hands keep the roles.
-/

namespace Rskynet.Http

open Cells Relation Interleave List Option Prod
open Function (update update_apply update_of_ne update_self)

variable {U : Ureq} {action : Action U} {c p p' : Pools U}
variable {id : ℕ} {transport : TransportId} {origin : Origin}

/-! ### Roles -/

def Task.gives : Task U → Option (ℕ × TransportId × Origin)
  | .resuming id _ _ _ (some (transport, origin, _)) => some (id, transport, origin)
  | _ => none

/-- A connection that the `next_body` of exchange `id` gives back is in nobody else's hands. -/
structure Given (p : Pools U) (id : ℕ) (transport : TransportId) (origin : Origin) : Prop where
  apart : ∀ origin', (origin', transport) ∉ p.state.idle
  mine : ∀ e, p.state.exchanges id = some e → e.transport = transport
  alone : ∀ id' e, p.state.exchanges id' = some e → e.transport = transport →
    id' = id ∧ e.spent ∧ e.origin = origin

structure Free (p : Pools U) (transport : TransportId) (origin : Origin) : Prop where
  apart : ∀ origin', (origin', transport) ∉ p.state.idle
  unused : ∀ id e, p.state.exchanges id = some e → e.transport ≠ transport
  kept : ∀ task ∈ p.tasks, ∀ id origin', task.gives ≠ some (id, transport, origin')
  known : ∀ origin', (transport, origin') ∈ p.state.origins → origin' = origin

/-- **The roles of the connections**, with the one that a start holds. -/
structure Roles (held : Option (TransportId × Origin)) (p : Pools U) : Prop where
  known : (p.state.origins.map Prod.fst).Nodup
  pooled : (p.state.idle.map Prod.snd).Nodup
  placed : ∀ transport origin, (transport, origin) ∈ p.state.origins →
    held = some (transport, origin) ∨ (origin, transport) ∈ p.state.idle
      ∨ ∃ id e, p.state.active transport = some id ∧ p.state.exchanges id = some e
        ∧ e.origin = origin
  owned : ∀ transport id, p.state.active transport = some id →
    ∃ e, p.state.exchanges id = some e ∧ e.transport = transport
  apart : ∀ id e origin, p.state.exchanges id = some e → (origin, e.transport) ∉ p.state.idle
  single : ∀ id id' e e', p.state.exchanges id = some e → p.state.exchanges id' = some e' →
    e.transport = e'.transport → id = id'
  tidy : ∀ id e, p.state.exchanges id = some e → e.tidy
  given : ∀ task ∈ p.tasks, ∀ id transport origin, task.gives = some (id, transport, origin) →
    Given p id transport origin
  once : (p.tasks.filterMap fun task => task.gives.map (·.2.1)).Nodup
  free : ∀ transport origin, held = some (transport, origin) → Free p transport origin

variable {held held' : Option (TransportId × Origin)}

/-! ### What only goes -/

def Placed (held : Option (TransportId × Origin)) (p : Pools U) : Prop :=
  ∀ transport origin, (transport, origin) ∈ p.state.origins →
    held = some (transport, origin) ∨ (origin, transport) ∈ p.state.idle
      ∨ ∃ id e, p.state.active transport = some id ∧ p.state.exchanges id = some e
        ∧ e.origin = origin

def Owned (p : Pools U) : Prop :=
  ∀ transport id, p.state.active transport = some id →
    ∃ e, p.state.exchanges id = some e ∧ e.transport = transport

structure Fewer (p p' : Pools U) : Prop where
  origins : p'.state.origins.Sublist p.state.origins
  idle : p'.state.idle.Sublist p.state.idle
  exchanges : ∀ id e', p'.state.exchanges id = some e' →
    ∃ e, p.state.exchanges id = some e ∧ Keeps e e'
  tasks : p'.tasks.Sublist p.tasks

theorem Fewer.given (hf : Fewer p p') (h : Given p id transport origin) :
    Given p' id transport origin := by
  refine ⟨fun origin' hmem => h.apart origin' (hf.idle.subset hmem), ?_, ?_⟩
  · intro e' he'
    obtain ⟨e, he, hk⟩ := hf.exchanges id e' he'
    exact hk.transport.trans (h.mine e he)
  · intro id' e' he' ht
    obtain ⟨e, he, hk⟩ := hf.exchanges id' e' he'
    obtain ⟨hid, hspent, horigin⟩ := h.alone id' e he (hk.transport.symm.trans ht)
    exact ⟨hid, hk.spent hspent, hk.origin.trans horigin⟩

theorem Fewer.free (hf : Fewer p p') (h : Free p transport origin) : Free p' transport origin := by
  refine ⟨fun origin' hmem => h.apart origin' (hf.idle.subset hmem), ?_,
    fun task htask => h.kept task (hf.tasks.subset htask),
    fun origin' hmem => h.known origin' (hf.origins.subset hmem)⟩
  intro id e' he'
  obtain ⟨e, he, hk⟩ := hf.exchanges id e' he'
  rw [hk.transport]
  exact h.unused id e he

/-- **Where things only go**, the roles are kept if what is left still has its place. -/
theorem Roles.fewer (h : Roles held p) (hf : Fewer p p') (hplaced : Placed held' p')
    (howned : Owned p') (hfree : ∀ transport origin, held' = some (transport, origin) →
      Free p' transport origin) : Roles held' p' := by
  refine ⟨(hf.origins.map _).nodup h.known, (hf.idle.map _).nodup h.pooled, hplaced, howned,
    ?_, ?_, ?_, ?_, (hf.tasks.filterMap _).nodup h.once, hfree⟩
  · intro id e' o he' hmem
    obtain ⟨e, he, hk⟩ := hf.exchanges id e' he'
    rw [hk.transport] at hmem
    exact h.apart id e o he (hf.idle.subset hmem)
  · intro id₁ id₂ e₁ e₂ he₁ he₂ ht
    obtain ⟨e₁', he₁', hk₁⟩ := hf.exchanges id₁ e₁ he₁
    obtain ⟨e₂', he₂', hk₂⟩ := hf.exchanges id₂ e₂ he₂
    rw [hk₁.transport, hk₂.transport] at ht
    exact h.single id₁ id₂ e₁' e₂' he₁' he₂' ht
  · intro id e' he'
    obtain ⟨e, he, hk⟩ := hf.exchanges id e' he'
    exact hk.tidy (h.tidy id e he)
  · intro task htask id t o hgives
    exact hf.given (h.given task (hf.tasks.subset htask) id t o hgives)

theorem Roles.of_eq (h : Roles held p) (hexchanges : p'.state.exchanges = p.state.exchanges)
    (hactive : p'.state.active = p.state.active) (horigins : p'.state.origins = p.state.origins)
    (hidle : p'.state.idle = p.state.idle) (htasks : p'.tasks = p.tasks) : Roles held p' := by
  have hf : Fewer p p' := by
    refine ⟨horigins ▸ .refl _, hidle ▸ .refl _, ?_, htasks ▸ .refl _⟩
    rw [hexchanges]
    exact fun id e he => ⟨e, he, .refl e⟩
  refine h.fewer hf ?_ ?_ fun t o hheld => hf.free (h.free t o hheld)
  · unfold Placed
    rw [horigins, hidle, hactive, hexchanges]
    exact h.placed
  · unfold Owned
    rw [hactive, hexchanges]
    exact h.owned

theorem Roles.wake (h : Roles held p) : Roles held p.wake :=
  h.of_eq (by simp) (by simp) (by simp) (by simp) (by simp)

theorem Roles.forget (h : Roles held p) (transport : TransportId) :
    Roles held (p.forget transport) := by
  have hactive : ∀ t, (p.forget transport).state.active t
      = if t = transport then none else p.state.active t := by
    intro t
    show update p.state.active transport none t = _
    rw [update_apply]
  have hf : Fewer p (p.forget transport) :=
    ⟨filter_sublist, filter_sublist, fun _ e he => ⟨e, he, .refl e⟩, .refl _⟩
  refine h.fewer hf ?_ ?_ fun t o hheld => hf.free (h.free t o hheld)
  · intro t origin hmem
    obtain ⟨hmem, hne⟩ := mem_filter.mp hmem
    have hne : t ≠ transport := by simpa using hne
    rcases h.placed t origin hmem with hh | hidle | ⟨id, e, hid, he, horigin⟩
    · exact .inl hh
    · refine .inr (.inl (mem_filter.mpr ⟨hidle, ?_⟩))
      simpa using hne
    · refine .inr (.inr ⟨id, e, ?_, he, horigin⟩)
      rw [hactive, if_neg hne]
      exact hid
  · intro t id hid
    rw [hactive] at hid
    split at hid
    · cases hid
    · exact h.owned t id hid

theorem Roles.drop (h : Roles (some (transport, origin)) p) : Roles none (p.forget transport) := by
  have hforgotten := h.forget transport
  refine ⟨hforgotten.known, hforgotten.pooled, ?_, hforgotten.owned, hforgotten.apart,
    hforgotten.single, hforgotten.tidy, hforgotten.given, hforgotten.once, nofun⟩
  intro t o hmem
  rcases hforgotten.placed t o hmem with hheld | hplace
  · have hne : t ≠ transport := by simpa using (mem_filter.mp hmem).2
    exact absurd (congrArg fst (some.inj hheld)).symm hne
  · exact .inr hplace

/-! ### Exchanges -/

theorem Roles.touch (h : Roles held p) {e e' : Exchange U} (he : p.state.exchanges id = some e)
    (hk : Keeps e e') :
    Roles held (p.setExchange id (some e')) := by
  have hf : Fewer p (p.setExchange id (some e')) := by
    refine ⟨.refl _, .refl _, ?_, .refl _⟩
    intro id' e₁ he₁
    have he₁ : update p.state.exchanges id (some e') id' = some e₁ := he₁
    rw [update_apply] at he₁
    split at he₁
    · rename_i heq
      obtain rfl := some.inj he₁
      rw [heq]
      exact ⟨e, he, hk⟩
    · exact ⟨e₁, he₁, .refl e₁⟩
  have hforth : ∀ id' e₀, p.state.exchanges id' = some e₀ →
      ∃ e₁, (p.setExchange id (some e')).state.exchanges id' = some e₁ ∧ Keeps e₀ e₁ := by
    intro id' e₀ he₀
    show ∃ e₁, update p.state.exchanges id (some e') id' = some e₁ ∧ Keeps e₀ e₁
    rw [update_apply]
    split
    · rename_i heq
      subst heq
      rw [he] at he₀
      cases he₀
      exact ⟨e', rfl, hk⟩
    · exact ⟨e₀, he₀, .refl e₀⟩
  refine h.fewer hf ?_ ?_ fun t o hheld => hf.free (h.free t o hheld)
  · intro t o hmem
    rcases h.placed t o hmem with hh | hidle | ⟨id', e₀, hid, he₀, horigin⟩
    · exact .inl hh
    · exact .inr (.inl hidle)
    · obtain ⟨e₁, he₁, hk₁⟩ := hforth id' e₀ he₀
      exact .inr (.inr ⟨id', e₁, hid, he₁, hk₁.origin.trans horigin⟩)
  · intro t id' hid
    obtain ⟨e₀, he₀, ht⟩ := h.owned t id' hid
    obtain ⟨e₁, he₁, hk₁⟩ := hforth id' e₀ he₀
    exact ⟨e₁, he₁, hk₁.transport.trans ht⟩

theorem fewer_remove (p : Pools U) (id : ℕ) : Fewer p (p.setExchange id none) := by
  refine ⟨.refl _, .refl _, ?_, .refl _⟩
  intro id' e he
  have he : update p.state.exchanges id none id' = some e := he
  rw [update_apply] at he
  split at he
  · cases he
  · exact ⟨e, he, .refl e⟩

theorem Roles.remove (h : Roles held p)
    (hinactive : ∀ transport, p.state.active transport ≠ some id) :
    Roles held (p.setExchange id none) := by
  have hforth : ∀ transport id' e, p.state.active transport = some id' →
      p.state.exchanges id' = some e → (p.setExchange id none).state.exchanges id' = some e := by
    intro transport id' e hid he
    show update p.state.exchanges id none id' = some e
    rw [update_of_ne, he]
    rintro rfl
    exact hinactive transport hid
  have hf := fewer_remove p id
  refine h.fewer hf ?_ ?_ fun t o hheld => hf.free (h.free t o hheld)
  · intro t o hmem
    rcases h.placed t o hmem with hh | hidle | ⟨id', e, hid, he, horigin⟩
    · exact .inl hh
    · exact .inr (.inl hidle)
    · exact .inr (.inr ⟨id', e, hid, hforth t id' e hid he, horigin⟩)
  · intro t id' hid
    obtain ⟨e, he, ht⟩ := h.owned t id' hid
    exact ⟨e, hforth t id' e hid he, ht⟩

/-- **An exchange that is canceled** takes its connection with it. -/
theorem Roles.cancel (h : Roles none p) (id : ℕ) : Roles none (p.cancel id) := by
  unfold Pools.cancel
  split
  · exact h
  · rename_i e he
    have hforgotten := h.forget e.transport
    have hremoved : Roles none ((p.forget e.transport).setExchange id none) := by
      apply hforgotten.remove
      intro t hid
      have hid : update p.state.active e.transport none t = some id := hid
      rw [update_apply] at hid
      split at hid
      · cases hid
      · rename_i hne
        obtain ⟨e', he', ht⟩ := h.owned t id hid
        rw [he] at he'
        cases he'
        exact hne ht.symm
    exact (hremoved.of_eq rfl rfl rfl rfl rfl : Roles none _).wake

/-! ### Tasks -/

theorem Roles.erase (h : Roles held p) (i : ℕ) : Roles held (p.erase i) := by
  have hf : Fewer p (p.erase i) :=
    ⟨.refl _, .refl _, fun _ e he => ⟨e, he, .refl e⟩, eraseIdx_sublist p.tasks i⟩
  exact h.fewer hf h.placed h.owned fun t o hheld => hf.free (h.free t o hheld)

theorem Roles.suspend (h : Roles held p) {task : Task U} (htask : task.gives = none) :
    Roles held (p.suspend task) := by
  have hmem : ∀ task', task' ∈ p.tasks ++ [task] → task'.gives ≠ none → task' ∈ p.tasks := by
    intro task' hmem hgives
    rcases mem_append.mp hmem with hmem | hmem
    · exact hmem
    · rw [mem_singleton.mp hmem] at hgives
      exact absurd htask hgives
  refine ⟨h.known, h.pooled, h.placed, h.owned, h.apart, h.single, h.tidy, ?_, ?_, ?_⟩
  · intro task' htask' id t o hgives
    obtain ⟨h₁, h₂, h₃⟩ := h.given task' (hmem task' htask' (by rw [hgives]; nofun)) id t o hgives
    exact ⟨h₁, h₂, h₃⟩
  · show ((p.tasks ++ [task]).filterMap fun task => task.gives.map (·.2.1)).Nodup
    rw [filterMap_append]
    simp only [filterMap_cons, htask, map_none, filterMap_nil, append_nil]
    exact h.once
  · intro t o hheld
    obtain ⟨h₁, h₂, h₃, h₄⟩ := h.free t o hheld
    refine ⟨h₁, h₂, ?_, h₄⟩
    intro task' htask' id o' hgives
    exact h₃ task' (hmem task' htask' (by rw [hgives]; nofun)) id o' hgives

theorem gives_of_plain {task : Task U} (h : task.isPlain = true) : task.gives = none := by
  cases task with
  | connecting | sendingHead | writing | finishing | pausing => rfl
  | resuming id via pending answer cleanup =>
    cases cleanup with
    | none => rfl
    | some cleanup => cases h

/-- **A suspended `next_body` takes a connection** that no other one takes. -/
theorem Roles.give (h : Roles none p) {task : Task U}
    (htask : task.gives = some (id, transport, origin)) (hgiven : Given p id transport origin)
    (hother : ∀ task' ∈ p.tasks, ∀ id' origin', task'.gives ≠ some (id', transport, origin')) :
    Roles none (p.suspend task) := by
  refine ⟨h.known, h.pooled, h.placed, h.owned, h.apart, h.single, h.tidy, ?_, ?_, nofun⟩
  · intro task' htask' id' t o hgives
    rcases mem_append.mp htask' with hmem | hmem
    · obtain ⟨h₁, h₂, h₃⟩ := h.given task' hmem id' t o hgives
      exact ⟨h₁, h₂, h₃⟩
    · rw [mem_singleton.mp hmem, htask] at hgives
      cases hgives
      exact ⟨hgiven.apart, hgiven.mine, hgiven.alone⟩
  · show ((p.tasks ++ [task]).filterMap fun task => task.gives.map (·.2.1)).Nodup
    rw [filterMap_append]
    simp only [filterMap_cons, htask, map_some, filterMap_nil]
    rw [nodup_append]
    refine ⟨h.once, nodup_singleton _, ?_⟩
    intro t ht t' ht'
    obtain ⟨task', hmem, hmapped⟩ := mem_filterMap.mp ht
    obtain ⟨⟨id', t'', o'⟩, hgives, rfl⟩ := map_eq_some_iff.mp hmapped
    rw [mem_singleton.mp ht']
    rintro rfl
    exact hother task' hmem id' o' hgives

/-! ### Connections that change hands -/

theorem Roles.letGo (h : Roles none p) (hgiven : Given p id transport origin)
    (hother : ∀ task ∈ p.tasks, ∀ id' origin', task.gives ≠ some (id', transport, origin')) :
    Roles (some (transport, origin))
      ((p.update fun s => s.setActive transport none).setExchange id none) := by
  have howner : ∀ t, t ≠ transport → p.state.active t ≠ some id := by
    intro t hne hid
    obtain ⟨e, he, ht⟩ := h.owned t id hid
    exact hne (ht.symm.trans (hgiven.mine e he))
  have hknown : ∀ origin', (transport, origin') ∈ p.state.origins → origin' = origin := by
    intro origin' hmem
    rcases h.placed transport origin' hmem with hheld | hidle | ⟨id', e, hid, he, horigin⟩
    · cases hheld
    · exact absurd hidle (hgiven.apart origin')
    · obtain ⟨e', he', ht⟩ := h.owned transport id' hid
      rw [he] at he'
      cases he'
      exact horigin.symm.trans (hgiven.alone id' e he ht).2.2
  have hstays : ∀ t id' e, t ≠ transport → p.state.active t = some id' →
      p.state.exchanges id' = some e → update p.state.exchanges id none id' = some e := by
    intro t id' e hne hid he
    rw [update_of_ne, he]
    rintro rfl
    exact howner t hne hid
  have hf : Fewer p ((p.update fun s => s.setActive transport none).setExchange id none) :=
    ⟨.refl _, .refl _, (fewer_remove p id).exchanges, .refl _⟩
  refine h.fewer hf ?_ ?_ ?_
  · intro t o hmem
    by_cases hne : t = transport
    · subst hne
      rw [hknown o hmem]
      exact .inl rfl
    · rcases h.placed t o hmem with hheld | hidle | ⟨id', e, hid, he, horigin⟩
      · cases hheld
      · exact .inr (.inl hidle)
      · refine .inr (.inr ⟨id', e, ?_, hstays t id' e hne hid he, horigin⟩)
        show update p.state.active transport none t = some id'
        rw [update_of_ne hne, hid]
  · intro t id' hid
    have hid : update p.state.active transport none t = some id' := hid
    rw [update_apply] at hid
    split at hid
    · cases hid
    · rename_i hne
      obtain ⟨e, he, ht⟩ := h.owned t id' hid
      exact ⟨e, hstays t id' e hne hid he, ht⟩
  · intro t o hheld
    cases hheld
    refine ⟨hgiven.apart, ?_, hother, hknown⟩
    intro id' e he ht
    have he : update p.state.exchanges id none id' = some e := he
    rw [update_apply] at he
    split at he
    · cases he
    · rename_i hne
      exact hne (hgiven.alone id' e he ht).1

theorem Roles.pool (h : Roles (some (transport, origin)) p) :
    Roles none (p.update fun s => s.pool transport origin) := by
  obtain ⟨happart, hunused, hkept, hknown⟩ := h.free transport origin rfl
  have hidle : ∀ entry, entry ∈ (p.update fun s => s.pool transport origin).state.idle →
      entry ∈ p.state.idle ∨ entry = (origin, transport) := by
    intro entry hentry
    rcases mem_append.mp hentry with hentry | hentry
    · exact .inl hentry
    · exact .inr (mem_singleton.mp hentry)
  refine ⟨h.known, ?_, ?_, h.owned, ?_, h.single, h.tidy, ?_, h.once, nofun⟩
  · show ((p.state.idle ++ [(origin, transport)]).map snd).Nodup
    rw [map_append, nodup_append]
    refine ⟨h.pooled, nodup_singleton _, ?_⟩
    intro t ht t' ht'
    obtain ⟨⟨o, t''⟩, hmem, rfl⟩ := mem_map.mp ht
    rw [map_singleton, mem_singleton] at ht'
    rw [ht']
    rintro rfl
    exact happart o hmem
  · intro t o hmem
    rcases h.placed t o hmem with hheld | hidle | hactive
    · cases hheld
      exact .inr (.inl (mem_append_right _ mem_cons_self))
    · exact .inr (.inl (mem_append_left _ hidle))
    · exact .inr (.inr hactive)
  · intro id e o he hmem
    rcases hidle _ hmem with hmem | hnew
    · exact h.apart id e o he hmem
    · exact hunused id e he (congrArg snd hnew)
  · intro task htask id t o hgives
    obtain ⟨h₁, h₂, h₃⟩ := h.given task htask id t o hgives
    refine ⟨?_, h₂, h₃⟩
    intro o' hmem
    rcases hidle _ hmem with hmem | hnew
    · exact h₁ o' hmem
    · cases hnew
      exact hkept task htask id o hgives

/-- **A connection is given back**: it joins the pool of its origin, or is forgotten. -/
theorem Roles.release (h : Roles none p) (hgiven : Given p id transport origin)
    (hother : ∀ task ∈ p.tasks, ∀ id' origin', task.gives ≠ some (id', transport, origin'))
    (reusable : Bool) : Roles none (p.release id transport origin reusable) := by
  have hfree := h.letGo hgiven hother
  unfold Pools.release Pools.recycle
  dsimp only
  split
  · refine hfree.pool.of_eq ?_ ?_ ?_ ?_ ?_
    · show update (Pools.wake _).state.exchanges id none = _
      rw [wake_exchanges]
      rfl
    · exact wake_active _
    · exact wake_origins _
    · exact wake_idle _
    · exact wake_tasks _
  · refine hfree.drop.of_eq ?_ ?_ ?_ ?_ ?_
    · show update (Pools.wake _).state.exchanges id none = _
      rw [wake_exchanges]
      rfl
    · exact wake_active _
    · exact wake_origins _
    · exact wake_idle _
    · exact wake_tasks _

theorem eraseP_split {l : List (Origin × TransportId)}
    (h : l.find? (·.1 = origin) = some (origin, transport)) :
    ∃ l₁ l₂, l = l₁ ++ (origin, transport) :: l₂ ∧ l.eraseP (·.1 = origin) = l₁ ++ l₂ := by
  obtain ⟨horigin, l₁, l₂, rfl, hbefore⟩ := find?_eq_some_iff_append.mp h
  refine ⟨l₁, l₂, rfl, ?_⟩
  rw [eraseP_append_right, eraseP_cons_of_pos]
  · exact horigin
  · intro entry hentry
    simpa using hbefore entry hentry

/-- **A start takes an idle connection.** -/
theorem Roles.popIdle (h : Roles none p)
    (hfound : p.state.idle.find? (·.1 = origin) = some (origin, transport)) :
    Roles (some (transport, origin)) (p.popIdle origin) := by
  obtain ⟨l₁, l₂, hsplit, herase⟩ := eraseP_split hfound
  have hidle : (p.popIdle origin).state.idle = l₁ ++ l₂ := by
    show (p.state.popIdle origin).2.idle = _
    rw [idle_popIdle, herase]
  have hfields := popIdle_fields p.state origin
  have hexchanges : (p.popIdle origin).state.exchanges = p.state.exchanges := hfields.1
  have hactive : (p.popIdle origin).state.active = p.state.active := hfields.2.1
  have horigins : (p.popIdle origin).state.origins = p.state.origins := hfields.2.2.1
  have hmem : (origin, transport) ∈ p.state.idle := by
    rw [hsplit]
    exact mem_append_right _ mem_cons_self
  have hnot : ∀ o, (o, transport) ∉ l₁ ++ l₂ := by
    intro o hmem
    have hdistinct := h.pooled
    rw [hsplit, map_append, map_cons] at hdistinct
    have hdistinct := nodup_middle.mp hdistinct
    rw [nodup_cons, ← map_append] at hdistinct
    exact hdistinct.1 (mem_map.mpr ⟨_, hmem, rfl⟩)
  have hstays : ∀ o t, (o, t) ∈ p.state.idle → (o, t) = (origin, transport) ∨ (o, t) ∈ l₁ ++ l₂ := by
    intro o t hentry
    rw [hsplit, mem_append, mem_cons] at hentry
    rw [mem_append]
    tauto
  have hf : Fewer p (p.popIdle origin) := by
    refine ⟨horigins ▸ .refl _, ?_, ?_, .refl _⟩
    · rw [hidle, hsplit]
      exact (sublist_cons_self _ l₂).append_left l₁
    · rw [hexchanges]
      exact fun _ e he => ⟨e, he, .refl e⟩
  refine h.fewer hf ?_ ?_ ?_
  · unfold Placed
    rw [horigins, hidle, hactive, hexchanges]
    intro t o hknown
    rcases h.placed t o hknown with hheld | hpooled | hactive
    · cases hheld
    · rcases hstays o t hpooled with heq | hrest
      · cases heq
        exact .inl rfl
      · exact .inr (.inl hrest)
    · exact .inr (.inr hactive)
  · unfold Owned
    rw [hactive, hexchanges]
    exact h.owned
  · intro t o hheld
    cases hheld
    refine ⟨hidle ▸ hnot, ?_, ?_, ?_⟩
    · rw [hexchanges]
      intro id e he ht
      refine h.apart id e origin he ?_
      rw [ht]
      exact hmem
    · intro task htask id o' hgives
      exact (h.given task htask id transport o' hgives).apart origin hmem
    · rw [horigins]
      intro o' hknown
      rcases h.placed transport o' hknown with hheld | hpooled | ⟨id, e, hid, he, -⟩
      · cases hheld
      · rcases hstays o' transport hpooled with heq | hrest
        · exact congrArg fst heq
        · exact absurd hrest (hnot o')
      · obtain ⟨e', he', ht⟩ := h.owned transport id hid
        refine absurd ?_ (h.apart id e' origin he')
        rw [ht]
        exact hmem

/-- The client holds the connection: it knows it, pools it, has an exchange on it, or a suspended
`next_body` is about to give it back. -/
def Pools.holds (p : Pools U) (transport : TransportId) : Prop :=
  (∃ origin, (transport, origin) ∈ p.state.origins)
  ∨ (∃ origin, (origin, transport) ∈ p.state.idle)
  ∨ (∃ id e, p.state.exchanges id = some e ∧ e.transport = transport)
  ∨ ∃ task ∈ p.tasks, ∃ id origin, task.gives = some (id, transport, origin)

/-- **A connect brings a connection** that the client does not hold. -/
theorem Roles.know (h : Roles none p) (hfresh : ¬ p.holds transport) (origin : Origin) :
    Roles (some (transport, origin)) (p.know transport origin) := by
  have horigins : ∀ t o, (t, o) ∈ (p.know transport origin).state.origins →
      (t, o) = (transport, origin) ∨ ((t, o) ∈ p.state.origins ∧ t ≠ transport) := by
    intro t o hmem
    rcases mem_cons.mp hmem with heq | hmem
    · exact .inl heq
    · obtain ⟨hmem, hne⟩ := mem_filter.mp hmem
      exact .inr ⟨hmem, by simpa using hne⟩
  refine ⟨?_, h.pooled, ?_, h.owned, h.apart, h.single, h.tidy, ?_, h.once, ?_⟩
  · show (((transport, origin) :: p.state.origins.filter (·.1 ≠ transport)).map fst).Nodup
    rw [map_cons, nodup_cons]
    refine ⟨?_, (filter_sublist.map fst).nodup h.known⟩
    intro hmem
    obtain ⟨entry, hentry, heq⟩ := mem_map.mp hmem
    have hne := (mem_filter.mp hentry).2
    rw [heq] at hne
    simp at hne
  · intro t o hmem
    rcases horigins t o hmem with heq | ⟨hmem, -⟩
    · cases heq
      exact .inl rfl
    · rcases h.placed t o hmem with hheld | hplace
      · cases hheld
      · exact .inr hplace
  · intro task htask id t o hgives
    obtain ⟨h₁, h₂, h₃⟩ := h.given task htask id t o hgives
    exact ⟨h₁, h₂, h₃⟩
  · intro t o hheld
    cases hheld
    refine ⟨?_, ?_, ?_, ?_⟩
    · intro o' hmem
      exact hfresh (.inr (.inl ⟨o', hmem⟩))
    · intro id e he ht
      exact hfresh (.inr (.inr (.inl ⟨id, e, he, ht⟩)))
    · intro task htask id o' hgives
      exact hfresh (.inr (.inr (.inr ⟨task, htask, id, o', hgives⟩)))
    · intro o' hmem
      rcases horigins transport o' hmem with heq | ⟨-, hne⟩
      · exact congrArg snd heq
      · exact absurd rfl hne

def Pools.freeId (p : Pools U) : Prop :=
  p.state.exchanges p.state.freshId = none
  ∧ ∀ task ∈ p.tasks, ∀ transport origin,
    task.gives ≠ some (p.state.freshId, transport, origin)

/-- **A start puts its exchange on the connection it holds.** -/
theorem Roles.insertExchange (h : Roles (some (transport, origin)) p) (hid : p.freeId) (token : ℕ)
    (proto : Proto U) (spec : BodySpec) :
    Roles none (p.insertExchange token transport origin proto spec) := by
  obtain ⟨happart, hunused, hkept, hknown⟩ := h.free transport origin rfl
  obtain ⟨hnew, hgives⟩ := hid
  have hback : ∀ id e, update p.state.exchanges p.state.freshId
      (some (Exchange.fresh transport origin proto spec)) id = some e →
      (id = p.state.freshId ∧ e = Exchange.fresh transport origin proto spec)
        ∨ p.state.exchanges id = some e := by
    intro id e he
    rw [update_apply] at he
    split at he
    · rename_i heq
      exact .inl ⟨heq, (some.inj he).symm⟩
    · exact .inr he
  have hstays : ∀ id e, p.state.exchanges id = some e → update p.state.exchanges
      p.state.freshId (some (Exchange.fresh transport origin proto spec)) id = some e := by
    intro id e he
    rw [update_of_ne, he]
    rintro rfl
    rw [hnew] at he
    cases he
  refine ⟨h.known, h.pooled, ?_, ?_, ?_, ?_, ?_, ?_, h.once, nofun⟩
  · intro t o hmem
    rcases h.placed t o hmem with hheld | hidle | ⟨id, e, hid, he, horigin⟩
    · cases hheld
      exact .inr (.inr ⟨p.state.freshId, _, update_self _ _ _,
        update_self _ _ _, rfl⟩)
    · exact .inr (.inl hidle)
    · refine .inr (.inr ⟨id, e, ?_, hstays id e he, horigin⟩)
      show update p.state.active transport (some p.state.freshId) t = some id
      rw [update_of_ne, hid]
      rintro rfl
      obtain ⟨e', he', ht⟩ := h.owned t id hid
      exact hunused id e' he' ht
  · intro t id hid
    have hid : update p.state.active transport (some p.state.freshId) t = some id := hid
    rw [update_apply] at hid
    split at hid
    · rename_i heq
      cases hid
      exact ⟨_, update_self _ _ _, heq.symm⟩
    · obtain ⟨e, he, ht⟩ := h.owned t id hid
      exact ⟨e, hstays id e he, ht⟩
  · intro id e o he
    rcases hback id e he with ⟨-, rfl⟩ | he
    · exact happart o
    · exact h.apart id e o he
  · intro id₁ id₂ e₁ e₂ he₁ he₂ ht
    rcases hback id₁ e₁ he₁ with ⟨hid₁, rfl⟩ | he₁
    · rcases hback id₂ e₂ he₂ with ⟨hid₂, rfl⟩ | he₂
      · exact hid₁.trans hid₂.symm
      · exact absurd ht.symm (hunused id₂ e₂ he₂)
    · rcases hback id₂ e₂ he₂ with ⟨-, rfl⟩ | he₂
      · exact absurd ht (hunused id₁ e₁ he₁)
      · exact h.single id₁ id₂ e₁ e₂ he₁ he₂ ht
  · intro id e he
    rcases hback id e he with ⟨-, rfl⟩ | he
    · exact nofun
    · exact h.tidy id e he
  · intro task htask id t o hgives'
    obtain ⟨h₁, h₂, h₃⟩ := h.given task htask id t o hgives'
    refine ⟨h₁, ?_, ?_⟩
    · intro e he
      rcases hback id e he with ⟨rfl, -⟩ | he
      · exact absurd hgives' (hgives task htask t o)
      · exact h₂ e he
    · intro id' e he ht
      rcases hback id' e he with ⟨-, rfl⟩ | he
      · cases ht
        exact absurd hgives' (hkept task htask id o)
      · exact h₃ id' e he ht

end Rskynet.Http
