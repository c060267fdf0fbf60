import Rskynet.Service.Control

/-!
# The workers of a shared service

The steps of workers keep the control flow of a shared service, and so does every step.

* `Control.step` — **PROVED**: every step keeps the invariant.
-/

namespace Rskynet.Service

open Function (update update_eq_self update_of_ne update_self)
open Interleave

variable {ι : Type*}

namespace Control

variable [Fintype ι] {c c' : Config ι} {t : ι}

section Worker

variable [DecidableEq ι]

omit [DecidableEq ι] in
theorem not_working (h : Control c) (hbox : Mq.Inv c.box) (ht : (c.box.hold t).holds = true)
    {t' : ι} (hne : t' ≠ t) : working (c.box.hold t') (c.point t') = false := by
  by_contra hw
  have hholds := holds_of_working (h.synced t') (by simpa using hw)
  rw [(hbox.sole_holder ht).2.2.2 t' hne] at hholds
  cases hholds

variable {k : Core} {hold : Held} {p : Point}
  {call : Option Delivery}

/-- **A worker's step** keeps the invariant. -/
theorem worker (h : Control c) (hbox : Mq.Inv c.box) (hfree : c.free t = true)
    (e : Effect c.core k (c.box.hold t) hold (c.point t) p call) :
    Control (after c t k hold p call) := by
  set c' := after c t k hold p call with hc'
  have hpt : c'.point t = p := point_after_self
  have hht : c'.box.hold t = hold := hold_after_self
  have hpo : ∀ t', t' ≠ t → c'.point t' = c.point t' := fun t' hne => point_after_of_ne hne
  have hho : ∀ t', t' ≠ t → c'.box.hold t' = c.box.hold t' := fun t' hne => hold_after_of_ne hne
  have hstate : c'.box.box.state = c.box.box.state := state_after
  have hholds : working (c.box.hold t) (c.point t) = true → (c.box.hold t).holds = true :=
    holds_of_working (h.synced t)
  -- what another thread shows now, it showed before; what thread `t` shows is up to the step
  have hex : ∀ P : Point → Bool, (∃ t', P (c'.point t') = true) →
      P p = true ∨ ∃ t', P (c.point t') = true := by
    rintro P ⟨t', ht'⟩
    by_cases hne : t' = t
    · subst hne
      exact .inl (hpt ▸ ht')
    · exact .inr ⟨t', hpo t' hne ▸ ht'⟩
  have hcleaned : (k.destroyed = true ∨ ∃ t', (c'.point t').cleaning = true) →
      (c.core.destroyed = true ∨ ∃ t', (c.point t').cleaning = true) ∨
        ((c.box.hold t).holds = true ∧ p.cleaning = true) := by
    rintro (hd | hclean)
    · rcases e.destroys hd with hd | hp
      · exact .inl (.inl hd)
      · exact .inl (.inr ⟨t, cleaning_of_emptied hp⟩)
    · rcases hex Point.cleaning hclean with hp | hold
      · rcases e.cleans hp with hp' | hh
        · exact .inl (.inr ⟨t, hp'⟩)
        · exact .inr ⟨hh, hp⟩
      · exact .inl (.inr hold)
  refine ⟨?_, ?_, ?_, ?_, ?_, ?_, ?_, ?_, ?_, ?_, ?_, ?_⟩
  · intro t'
    by_cases hne : t' = t
    · rw [hne, hht, hpt]
      exact e.synced
    · rw [hho t' hne, hpo t' hne]
      exact h.synced t'
  · intro t' hp hh hlife
    by_cases hne : t' = t
    · rw [hne, hpt] at hp
      exact e.taking hp hlife
    · rw [hpo t' hne] at hp
      rw [hho t' hne] at hh
      have hother : ¬ working (c.box.hold t) (c.point t) = true := by
        intro hw
        rw [(hbox.sole_holder (hholds hw)).2.2.2 t' hne] at hh
        cases hh
      have hrun : c.core.lifecycle = .running := by
        rcases e.lifecycle.resolve_left hother with hl | hl
        · exact hl ▸ hlife
        · exact absurd (hl.symm.trans hlife) (by simp)
      rcases e.pending.resolve_left hother with hq | hq
      · exact hq.trans (h.taking t' hp hh hrun)
      · exact hq
  · rintro (hd | hdoom)
    · refine e.dead.trans ?_
      rcases e.destroys hd with hd | hp
      · exact h.dead (.inl hd)
      · exact h.dead (.inr ⟨t, doomed_of_cleaning (cleaning_of_emptied hp)⟩)
    · refine e.dead.trans ?_
      rcases hex Point.doomed hdoom with hp | hold
      · exact e.dooms hp
      · exact h.dead (.inr hold)
  · intro hclean t'
    rcases hcleaned hclean with hold | ⟨hh, hp⟩
    · have hdead : c.core.dead = true :=
        h.dead (hold.imp_right fun ⟨t, ht⟩ => ⟨t, doomed_of_cleaning ht⟩)
      by_cases hne : t' = t
      · by_contra hw
        rw [hne, hht, hpt] at hw
        rcases e.works (by simpa using hw) with hw' | hd
        · exact absurd (h.still hold t) (by simp [hw'])
        · exact absurd (hd.symm.trans hdead) (by simp)
      · rw [hho t' hne, hpo t' hne]
        exact h.still hold t'
    · by_cases hne : t' = t
      · rw [hne, hpt]
        exact not_working_of_cleaning hp
      · rw [hho t' hne, hpo t' hne]
        exact h.not_working hbox hh hne
  · intro hempty
    have hcase : p.emptied = true ∨
        (c.core.destroyed = true ∨ ∃ t', (c.point t').emptied = true) := by
      rcases hempty with hd | he
      · exact .inr ((e.destroys hd).imp_right fun hp => ⟨t, hp⟩)
      · exact (hex Point.emptied he).imp_right .inr
    rcases hcase with hp | hold
    · exact e.emptied hp
    · have hnot := h.still (hold.imp_right fun ⟨t, ht⟩ => ⟨t, cleaning_of_emptied ht⟩) t
      rcases e.pending.resolve_left (by simp [hnot]) with hq | hq
      · exact hq.trans (h.emptied hold)
      · exact hq
  · intro hd
    exact e.registered.trans (h.gone (e.dead ▸ hd))
  · intro t' ht'
    exact e.registered.trans (h.marked t' ht')
  · intro hreg
    exact (h.retiring (e.registered ▸ hreg)).imp (fun hd => e.dead.trans hd) id
  · intro hfail
    have hreg : c.core.registered = false → k.registered = false := fun hr => e.registered.trans hr
    rcases e.failed hfail with hold | hd | hp
    · rcases h.failed hold with hr | ⟨t', ht'⟩
      · exact .inl (hreg hr)
      · by_cases hne : t' = t
        · subst hne
          exact .inl (hreg (e.exiting ht'))
        · exact .inr ⟨t', by rw [hpo t' hne]; exact ht'⟩
    · exact .inl (hreg (h.gone hd))
    · exact .inr ⟨t, by rw [hpt]; exact hp⟩
  · have htally := tally_update c.point t p Point.isAccount
    have hremoved := e.removed
    have hold := h.removed
    show k.removed + tally (update c.point t p) Point.isAccount
      = k.destroyed.toNat
    omega
  · intro hd hno
    rw [hstate]
    have hold : c.core.destroyed = false := by
      by_contra hyes
      exact absurd (hno.symm.trans (e.kept (by simpa using hyes))) (by simp)
    rcases h.attended (e.dead ▸ hd) hold with hs | ⟨t', ht'⟩
    · exact .inl hs
    · right
      by_cases hne : t' = t
      · subst hne
        rcases e.looking (looking_of_prompt hfree ht') (e.dead ▸ hd) hno with hl | ⟨q, rfl, hq⟩
        · exact ⟨t', .inr (.inr (by rw [hht, hpt]; exact hl))⟩
        · refine ⟨t', .inr (.inl ?_)⟩
          simpa [hc', after, begin] using hq
      · exact ⟨t', prompt_congr (c := c) rfl (call_begin_of_ne _ call hne) (hpo t' hne)
          (hho t' hne) ht'⟩
  · intro hrun hback
    rw [hstate]
    by_cases hw : working (c.box.hold t) (c.point t) = true
    · rcases (hbox.sole_holder (hholds hw)).1 with hs | hs <;> simp [hs]
    · have hlife : c.core.lifecycle = .running := by
        rcases e.lifecycle.resolve_left hw with hl | hl
        · exact hl ▸ hrun
        · exact absurd (hl.symm.trans hrun) (by simp)
      have hq : k.pending = c.core.pending := by
        rcases e.pending.resolve_left hw with hq | hq
        · exact hq
        · exact absurd (by show k.pending.getD [] = []; rw [hq]; rfl) hback
      exact h.backlog hlife (hq ▸ hback)

theorem pop (h : Control c) (hout : c.point t = .out) {e : ℕ} :
    Control { c with
      box := { c.box with entries := e, hold := update c.box.hold t .markRunning }
      point := update c.point t (.run .enter) } := by
  have hpo : ∀ t', t' ≠ t → update c.point t (.run .enter) t' = c.point t' :=
    fun t' hne => update_of_ne hne _ _
  have hho : ∀ t', t' ≠ t → update c.box.hold t .markRunning t' = c.box.hold t' :=
    fun t' hne => update_of_ne hne _ _
  have hex : ∀ P : Point → Bool, P (.run .enter) = false →
      (∃ t', P (update c.point t (.run .enter) t') = true) →
      ∃ t', P (c.point t') = true := by
    rintro P hP ⟨t', ht'⟩
    by_cases hne : t' = t
    · rw [hne, update_self, hP] at ht'
      cases ht'
    · exact ⟨t', hpo t' hne ▸ ht'⟩
  refine ⟨?_, ?_, ?_, ?_, ?_, h.gone, h.marked, h.retiring, ?_, ?_, ?_, h.backlog⟩
  · intro t'
    by_cases hne : t' = t
    · subst hne
      simp [Synced]
    · simp only [hho t' hne, hpo t' hne]
      exact h.synced t'
  · intro t' hp
    by_cases hne : t' = t
    · subst hne
      simp at hp
    · simp only [hho t' hne]
      exact h.taking t' (hpo t' hne ▸ hp)
  · exact fun hd => h.dead (hd.imp_right (hex Point.doomed rfl))
  · intro hd t'
    by_cases hne : t' = t
    · subst hne
      simp [working]
    · simp only [hho t' hne, hpo t' hne]
      exact h.still (hd.imp_right (hex Point.cleaning rfl)) t'
  · exact fun hd => h.emptied (hd.imp_right (hex Point.emptied rfl))
  · intro hfail
    refine (h.failed hfail).imp_right ?_
    rintro ⟨t', ht'⟩
    have hne : t' ≠ t := fun heq => by simp [heq, hout, Point.exiting] at ht'
    exact ⟨t', by simpa only [hpo t' hne] using ht'⟩
  · rw [← h.removed, tally_update_of_eq]
    rw [hout]
    rfl
  · intro hd hno
    refine (h.attended hd hno).imp_right ?_
    rintro ⟨t', ht'⟩
    by_cases hne : t' = t
    · subst hne
      refine ⟨t', ht'.imp_right (Or.imp_right fun hl => ?_)⟩
      rw [hout] at hl
      cases hl
    · exact ⟨t', prompt_congr (c := c) rfl rfl (hpo t' hne) (hho t' hne) ht'⟩

theorem operate (h : Control c) {b : Box} {e : ℕ} {p : Held}
    (hs : Mq.holdStep c.box.box c.box.entries (c.box.hold t) = some (b, e, p)) :
    Control { c with
      box := { c.box with box := b, entries := e, hold := update c.box.hold t p } } := by
  have hho : ∀ t', t' ≠ t → update c.box.hold t p t' = c.box.hold t' :=
    fun t' hne => update_of_ne hne _ _
  have hworks : working p (c.point t) = true →
      working (c.box.hold t) (c.point t) = true := by
    intro hw
    cases hp : c.point t with
    | run r =>
      cases r with
      | take =>
        rw [hp] at hw
        have hsync := h.synced t
        rw [hp] at hsync
        rcases holdStep_holds hs hw with hh | hm
        · exact hh
        · rw [hm] at hsync
          cases hsync
      | _ => rw [hp] at hw; exact hw
    | _ => rw [hp] at hw; exact hw
  -- the worker that lets go of the service looks at `dead` next
  have hgo : b.state = .idle → c.box.box.state = .idle ∨
      ((c.point t).looking p = true ∧
        (c.core.lifecycle = .running → c.core.pending.getD [] = [])) := by
    intro hidle
    rcases holdStep_idle hs hidle with hold | ⟨hcas, rfl⟩ | ⟨hcas, rfl⟩
    · exact .inl hold
    · right
      have hpoint : c.point t = .run .take := (point_of_cas (h.synced t)).1 hcas
      refine ⟨by rw [hpoint]; rfl, fun hrun => ?_⟩
      rw [h.taking t hpoint (by rw [hcas]; rfl) hrun]
      rfl
    · right
      have hpoint : c.point t = .clean .release := (point_of_cas (h.synced t)).2 hcas
      refine ⟨by rw [hpoint]; rfl, fun _ => ?_⟩
      rw [h.emptied (.inr ⟨t, by rw [hpoint]; rfl⟩)]
      rfl
  refine ⟨?_, ?_, h.dead, ?_, h.emptied, h.gone, h.marked, h.retiring, h.failed, h.removed, ?_, ?_⟩
  · intro t'
    by_cases hne : t' = t
    · subst hne
      simp only [update_self]
      exact synced_holdStep (h.synced t') hs
    · simp only [hho t' hne]
      exact h.synced t'
  · intro t' hp hh
    by_cases hne : t' = t
    · subst hne
      simp only [update_self] at hh
      have hw := hworks (by rw [hp]; exact hh)
      rw [hp] at hw
      exact h.taking t' hp hw
    · simp only [hho t' hne] at hh
      exact h.taking t' hp hh
  · intro hd t'
    by_cases hne : t' = t
    · subst hne
      by_contra hw
      exact absurd (h.still hd t') (by simp [hworks (by simpa using hw)])
    · simp only [hho t' hne]
      exact h.still hd t'
  · intro hd hno
    by_cases hidle : b.state = .idle
    · rcases hgo hidle with hold | ⟨hl, -⟩
      · obtain ⟨t', ht'⟩ := (h.attended hd hno).resolve_left (by simp [hold])
        right
        by_cases hne : t' = t
        · subst hne
          refine ⟨t', ht'.imp_right (Or.imp_right fun hl => ?_)⟩
          simp only [update_self]
          exact looking_holdStep (h.synced t') hs hl
        · exact ⟨t', prompt_congr (c := c) rfl rfl rfl (hho t' hne) ht'⟩
      · exact .inr ⟨t, .inr (.inr (by simpa using hl))⟩
    · exact .inl hidle
  · intro hrun hback hidle
    rcases hgo hidle with hold | ⟨-, hq⟩
    · exact h.backlog hrun hback hold
    · exact hback (hq hrun)

end Worker

/-! ### Every step -/

section Steps

variable [DecidableEq ι]

/-- **Every step keeps the control flow.** -/
theorem step (h : Control c) (hbox : Mq.Inv c.box) (hs : Step c c') : Control c' := by
  obtain ⟨a, ha⟩ := hs
  cases act_acted ha with
  | grab t source session mtype hfree =>
    exact h.freeStep hfree _ none ⟨rfl, rfl, rfl, rfl⟩ rfl rfl rfl
  | retire t exits mine hfree hreg => exact h.retire hreg
  | inner t k i call hidle hi => exact h.inner hidle hi
  | wake t task hfree =>
    simpa only [update_eq_self] using h.freeStep hfree (c.inner t)
      (some (.readyPush task)) (.refl _) rfl rfl (not_marking_of_free hfree)
  | spawn t key hfree hkey =>
    simpa only [update_eq_self] using h.freeStep (k := c.core.install key none)
      hfree (c.inner t) (some (.readyPush ⟨key, c.core.tasks.nextGeneration + 1⟩))
      ⟨rfl, rfl, rfl, rfl⟩ rfl rfl (not_marking_of_free hfree)
  | call t b e p hc => exact h.call hc
  | callFail t p hc => exact h.callFail hc
  | pop t hout => exact h.pop hout
  | hold t b e p hidle hh => exact h.operate hh
  | step t key outcome yields k hold p call hfree hmoved =>
    exact h.worker hbox hfree (hmoved.effect (h.synced t)
      (fun hd => h.dead (.inr ⟨t, hd⟩)) fun he => h.emptied (.inr ⟨t, he⟩))

end Steps

end Control

theorem reachable_control [Fintype ι] [DecidableEq ι] {creator : ι} {c : Config ι}
    (hrun : Reachable creator c) : Control c := by
  have hboth : Control c ∧ Mq.Inv c.box ∧ Reachable creator c := by
    refine hrun.invariant (I := fun c => Control c ∧ Mq.Inv c.box ∧ Reachable creator c) ?_ ?_
    · exact ⟨Control.start creator, Mq.Inv.start creator _, Interleave.Reachable.refl⟩
    · rintro a b ⟨h, hbox, hr⟩ hs
      have hr' := hr.tail hs
      exact ⟨h.step hbox hs, Mq.reachable_inv (box_reachable hr'), hr'⟩
  exact hboth.1

end Rskynet.Service
