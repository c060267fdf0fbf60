import Rskynet.Service.Effects

/-!
# The control flow of a shared service

The program points of a worker fit those of its mailbox operations, a service that is being destroyed
is never executed again, and one that was killed is on its way to somebody who destroys it.
-/

namespace Rskynet.Service

open Function (update update_of_ne)

variable {ι : Type*}

/-! ### The invariant -/

structure Control [Fintype ι] (c : Config ι) : Prop where
  synced : ∀ t, Synced (c.box.hold t) (c.point t)
  /-- the backlog is empty when a running service looks into its mailbox -/
  taking : ∀ t, c.point t = .run .take → (c.box.hold t).holds = true →
    c.core.lifecycle = .running → c.core.pending = none
  dead : (c.core.destroyed = true ∨ ∃ t, (c.point t).doomed = true) → c.core.dead = true
  /-- a service under destruction is not executed again -/
  still : (c.core.destroyed = true ∨ ∃ t, (c.point t).cleaning = true) →
    ∀ t, working (c.box.hold t) (c.point t) = false
  emptied : (c.core.destroyed = true ∨ ∃ t, (c.point t).emptied = true) → c.core.pending = none
  gone : c.core.dead = true → c.core.registered = false
  marked : ∀ t, (c.inner t).marking = true → c.core.registered = false
  retiring : c.core.registered = false →
    c.core.dead = true ∨ ∃ t, (c.inner t).marking = true
  /-- a service that failed in its init has left the handle table or is about to -/
  failed : c.core.lifecycle = .failed →
    c.core.registered = false ∨ ∃ t, (c.point t).exiting = true
  removed : c.core.removed + Interleave.tally c.point Point.isAccount = c.core.destroyed.toNat
  /-- a dead service is on its way to somebody who destroys it -/
  attended : c.core.dead = true → c.core.destroyed = false →
    c.box.box.state ≠ .idle ∨ ∃ t, Prompt c t
  /-- a running service with a backlog is attended -/
  backlog : c.core.lifecycle = .running → c.core.pending.getD [] ≠ [] → c.box.box.state ≠ .idle

namespace Control

variable [Fintype ι] {c c' : Config ι} {t : ι}

theorem start [DecidableEq ι] (creator : ι) : Control (Config.start creator) where
  synced := fun _ => rfl
  taking := nofun
  dead := by
    rintro (h | ⟨t, h⟩)
    · cases h
    · cases h
  still := fun _ _ => rfl
  emptied := by
    rintro (h | ⟨t, h⟩)
    · cases h
    · cases h
  gone := nofun
  marked := nofun
  retiring := nofun
  failed := nofun
  removed := by
    show 0 + Interleave.tally (fun _ : ι => Point.out) Point.isAccount = 0
    simp [Interleave.tally, Point.isAccount]
  attended := nofun
  backlog := nofun

/-! ### Senders and killers -/

theorem frame (h : Control c) (t : ι) (hpoint : c'.point = c.point)
    (hhold : c'.box.hold = c.box.hold) (hflags : SameFlags c.core c'.core)
    (hlife : c'.core.lifecycle = c.core.lifecycle) (hpending : c'.core.pending = c.core.pending)
    (hinner : ∀ t', t' ≠ t → c'.inner t' = c.inner t')
    (hcall : ∀ t', t' ≠ t → c'.box.call t' = c.box.call t')
    (hstate : c.box.box.state ≠ .idle → c'.box.box.state ≠ .idle)
    (hprompt : Prompt c t → c'.box.box.state ≠ .idle ∨ Prompt c' t)
    (hmark : (c'.inner t).marking = (c.inner t).marking) : Control c' where
  synced := by
    rw [hpoint, hhold]
    exact h.synced
  taking := by
    rw [hpoint, hhold, hlife, hpending]
    exact h.taking
  dead := by
    rw [hpoint, hflags.destroyed, hflags.dead]
    exact h.dead
  still := by
    rw [hpoint, hhold, hflags.destroyed]
    exact h.still
  emptied := by
    rw [hpoint, hflags.destroyed, hpending]
    exact h.emptied
  gone := by
    rw [hflags.dead, hflags.registered]
    exact h.gone
  marked := by
    rw [hflags.registered]
    intro t' ht'
    by_cases hne : t' = t
    · rw [hne, hmark] at ht'
      exact h.marked t ht'
    · exact h.marked t' (hinner t' hne ▸ ht')
  retiring := by
    rw [hflags.dead, hflags.registered]
    intro hreg
    refine (h.retiring hreg).imp_right ?_
    rintro ⟨t', ht'⟩
    refine ⟨t', ?_⟩
    by_cases hne : t' = t
    · rw [hne, hmark, ← hne]
      exact ht'
    · rw [hinner t' hne]
      exact ht'
  failed := by
    rw [hpoint, hlife, hflags.registered]
    exact h.failed
  removed := by
    rw [hpoint, hflags.removed, hflags.destroyed]
    exact h.removed
  attended := by
    rw [hflags.dead, hflags.destroyed]
    intro hdead hno
    rcases h.attended hdead hno with hs | ⟨t', ht'⟩
    · exact .inl (hstate hs)
    · by_cases hne : t' = t
      · subst hne
        exact (hprompt ht').imp_right fun hp => ⟨t', hp⟩
      · exact .inr ⟨t', prompt_congr (hinner t' hne) (hcall t' hne) (congrFun hpoint t')
          (congrFun hhold t') ht'⟩
  backlog := by
    rw [hlife, hpending]
    exact fun hr hb => hstate (h.backlog hr hb)

theorem retire [DecidableEq ι] (h : Control c) {mine : Bool} (hreg : c.core.registered = true) :
    Control { c with
      core := c.core.unregister, inner := update c.inner t (.markDead mine) } := by
  have halive : c.core.dead = false := by
    by_contra hd
    rw [h.gone (by simpa using hd)] at hreg
    cases hreg
  refine ⟨h.synced, h.taking, h.dead, h.still, h.emptied, fun _ => rfl, fun _ _ => rfl, ?_,
    fun _ => .inl rfl, h.removed, ?_, h.backlog⟩
  · intro _
    exact .inr ⟨t, by simp [Inner.marking]⟩
  · intro hd
    exact absurd (halive.symm.trans hd) (by simp)

theorem markDead [DecidableEq ι] (h : Control c) {mine : Bool} (hi : c.inner t = .markDead mine) :
    Control { c with
      core := { c.core with dead := true }
      inner := update c.inner t (.failInflight mine) } := by
  have hreg : c.core.registered = false := h.marked t (by simp [hi, Inner.marking])
  refine ⟨h.synced, h.taking, fun _ => rfl, h.still, h.emptied, fun _ => hreg, fun _ _ => hreg,
    fun _ => .inl rfl, h.failed, h.removed, ?_, h.backlog⟩
  intro _ _
  exact .inr ⟨t, .inl (by simp [Inner.prompting])⟩

section Steps

variable [DecidableEq ι]

theorem inner (h : Control c) {k : Core} {i : Inner} {call : Option Delivery}
    (hidle : (c.box.call t).isIdle = true)
    (hs : innerStep c.core (c.point t).owns (c.inner t) = some (k, i, call)) :
    Control { c with
      core := k, box := begin c.box t call, inner := update c.inner t i } := by
  have hcall : inNotify (c.box.call t) = false := by
    cases hc : c.box.call t <;> simp_all [Mq.Call.isIdle, inNotify]
  generalize hi : c.inner t = i₀ at hs
  -- a thread on its way to the mailbox stays on it, or starts the delivery
  have hgo : SameFlags c.core k → k.lifecycle = c.core.lifecycle → k.pending = c.core.pending →
      i.marking = i₀.marking → (i₀.prompting = true → i.prompting = true ∨
        inNotify ((begin c.box t call).call t) = true) → Control { c with
          core := k, box := begin c.box t call, inner := update c.inner t i } := by
    intro hflags hlife hpending hmark hgoes
    refine h.frame t rfl (by cases call <;> rfl) hflags hlife hpending
      (fun t' hne => update_of_ne hne _ _) ?_ ?_ ?_ (by simp [hi, hmark])
    · intro t' hne
      cases call with
      | none => rfl
      | some q => exact update_of_ne hne _ _
    · cases call <;> exact id
    · rintro (hp | hp | hp)
      · refine .inr ((hgoes (hi ▸ hp)).imp (fun hi' => ?_) .inl)
        simpa using hi'
      · exact absurd (hcall.symm.trans hp) (by simp)
      · refine .inr (.inr (.inr ?_))
        cases call <;> exact hp
  cases innerStep_moved hs with
  | deliver | leave => exact hgo (.refl _) rfl rfl rfl (by rintro ⟨⟩)
  | die mine => exact h.markDead hi
  | abort mine => exact hgo ⟨rfl, rfl, rfl, rfl⟩ rfl rfl rfl fun _ => .inl rfl
  | spare mine => exact hgo (.refl _) rfl rfl rfl fun _ => .inl rfl
  | notify mine => exact hgo (.refl _) rfl rfl rfl fun _ => .inr (by simp [begin, inNotify])
  | exit => exact hgo ⟨rfl, rfl, rfl, rfl⟩ rfl rfl rfl (by rintro ⟨⟩)

theorem call (h : Control c) {b : Box} {e : ℕ} {p : Delivery}
    (hs : Mq.callStep c.box.box c.box.entries (c.box.call t) = some (b, e, p)) :
    Control { c with
      box := { c.box with box := b, entries := e, call := update c.box.call t p } } := by
  obtain ⟨hnotify, hstate⟩ := callStep_notify hs
  refine h.frame t rfl rfl (.refl _) rfl rfl (fun _ _ => rfl)
    (fun t' hne => update_of_ne hne _ _) hstate ?_ rfl
  rintro (hp | hp | hp)
  · exact .inr (.inl hp)
  · exact (hnotify hp).symm.imp_right fun hq => .inr (.inl (by simpa using hq))
  · exact .inr (.inr (.inr hp))

theorem callFail (h : Control c) {p : Delivery}
    (hs : Mq.callFail c.box.box (c.box.call t) = some p) :
    Control { c with box := { c.box with call := update c.box.call t p } } := by
  refine h.frame t rfl rfl (.refl _) rfl rfl (fun _ _ => rfl)
    (fun t' hne => update_of_ne hne _ _) id ?_ rfl
  rintro (hp | hp | hp)
  · exact .inr (.inl hp)
  · exact (callFail_notify hs hp).symm.imp id
      fun hq => .inr (.inl (by simpa using hq))
  · exact .inr (.inr (.inr hp))

theorem freeStep (h : Control c) (hfree : c.free t = true) {k : Core} (i : Inner)
    (call : Option Delivery) (hflags : SameFlags c.core k)
    (hlife : k.lifecycle = c.core.lifecycle) (hpending : k.pending = c.core.pending)
    (hi : i.marking = false) :
    Control { c with
      core := k, box := begin c.box t call, inner := update c.inner t i } := by
  refine h.frame t rfl (hold_begin _ _) hflags hlife hpending
    (fun t' hne => update_of_ne hne _ _) (fun t' hne => call_begin_of_ne _ _ hne) ?_ ?_ ?_
  · rw [box_begin]
    exact id
  · intro hp
    refine .inr (.inr (.inr ?_))
    simp only [hold_begin]
    exact looking_of_prompt hfree hp
  · simp [not_marking_of_free hfree, hi]

end Steps

end Control

end Rskynet.Service
