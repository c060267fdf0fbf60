import Rskynet.Exclusive.Effects

/-!
# The control flow of an exclusive service

The flags of the service, the backlog of its initialisation, and the signal to its thread: a thread
that sleeps beside a `QUEUED` mailbox or a dead service is signalled, or is about to be.

* `Control.step` — **PROVED**: every step keeps the invariant.
-/

namespace Rskynet.Exclusive

open Mq (Call)
open Service
open Function (update update_eq_self update_of_ne update_self)

variable {ι : Type*}
variable {hold : Held}

def Prompt (c : Config ι) (t : ι) : Prop :=
  (c.inner t).prompting = true ∨ inNotify (c.call t) = true ∨ c.interrupting t = true

structure Control (c : Config ι) : Prop where
  stands : At c.core c.point
  gone : c.core.dead = true → c.core.registered = false
  marked : ∀ t, (c.inner t).marking = true → c.core.registered = false
  retiring : c.core.registered = false → c.core.dead = true ∨ ∃ t, (c.inner t).marking = true
  failed : c.core.lifecycle = .failed → c.core.registered = false ∨ c.point.exiting = true
  /-- a thread that goes to sleep beside queued work is woken -/
  signal : c.point.released c.hold = true → c.box.state = .queued →
    c.signalled = true ∨ ∃ t, c.interrupting t = true
  /-- a thread that sleeps while the service is dead is woken -/
  attended : c.point = .idle → c.core.dead = true →
    c.signalled = true ∨ c.box.state ≠ .idle ∨ ∃ t, Prompt c t

/-! ### One step of a delivery -/

section Call

variable {b b' : Box} {call call' : Delivery} {queued : Bool}

theorem callStep_notify (hs : callStep b call = some (b', call', queued)) :
    (inNotify call = true → inNotify call' = true ∨ b'.state ≠ .idle) ∧
    (b.state ≠ .idle → b'.state ≠ .idle) ∧
    (b'.state = .queued → b.state = .queued ∨ queued = true) := by
  cases call with
  | idle => cases hs
  | lenAdd | queuePush | readyPush =>
    cases hs
    exact ⟨by rintro ⟨⟩, fun h => h, .inl⟩
  | notifyLoad pushed =>
    cases hs
    exact ⟨fun _ => notifyNext_prompt pushed _, fun h => h, .inl⟩
  | casIdle pushed =>
    simp only [callStep] at hs
    split at hs
    · cases hs
      exact ⟨fun _ => .inr (by simp), fun _ => by simp, fun _ => .inr rfl⟩
    · cases hs
      exact ⟨fun _ => notifyNext_prompt pushed _, fun h => h, .inl⟩
  | casRunning pushed =>
    simp only [callStep, Mq.callStep] at hs
    split at hs
    · cases hs
      exact ⟨fun _ => .inr (by simp), fun _ => by simp, by rintro ⟨⟩⟩
    · cases hs
      exact ⟨fun _ => notifyNext_prompt pushed _, fun h => h, .inl⟩
  | pushMark | pushInsert => cases hs

end Call

namespace Control

variable {b : Box}

variable {c c' : Config ι} {t : ι}

theorem start : Control (Config.start ι) where
  stands := ⟨nofun, nofun, nofun, fun _ => Prepared.start⟩
  gone := nofun
  marked := nofun
  retiring := nofun
  failed := nofun
  signal := nofun
  attended := nofun

/-! ### Other threads -/

theorem frame (h : Control c) (t : ι) (hpoint : c'.point = c.point) (hhold : c'.hold = c.hold)
    (hstands : At c.core c.point → At c'.core c.point)
    (hregistered : c'.core.registered = c.core.registered) (hdead : c'.core.dead = c.core.dead)
    (hlife : c'.core.lifecycle = c.core.lifecycle)
    (hsignalled : c.signalled = true → c'.signalled = true)
    (hinner : ∀ t', t' ≠ t → c'.inner t' = c.inner t')
    (hcall : ∀ t', t' ≠ t → c'.call t' = c.call t')
    (hinterrupting : ∀ t', t' ≠ t → c'.interrupting t' = c.interrupting t')
    (hqueued : c'.box.state = .queued → c.box.state = .queued ∨ c'.interrupting t = true)
    (hstate : c.box.state ≠ .idle → c'.box.state ≠ .idle)
    (hinterrupt : c.interrupting t = true → c'.interrupting t = true ∨ c'.signalled = true)
    (hprompt : Prompt c t → c'.signalled = true ∨ c'.box.state ≠ .idle ∨ Prompt c' t)
    (hmark : (c'.inner t).marking = (c.inner t).marking) : Control c' where
  stands := hpoint ▸ hstands h.stands
  gone := by
    rw [hdead, hregistered]
    exact h.gone
  marked := by
    rw [hregistered]
    intro t' ht'
    by_cases hne : t' = t
    · rw [hne, hmark] at ht'
      exact h.marked t ht'
    · exact h.marked t' (hinner t' hne ▸ ht')
  retiring := by
    rw [hdead, hregistered]
    intro hreg
    refine (h.retiring hreg).imp_right ?_
    rintro ⟨t', ht'⟩
    refine ⟨t', ?_⟩
    by_cases hne : t' = t
    · rw [hne, hmark, ← hne]
      exact ht'
    · rw [hinner t' hne]
      exact ht'
  failed := by
    rw [hlife, hregistered, hpoint]
    exact h.failed
  signal := by
    rw [hpoint, hhold]
    intro hreleased hq
    rcases hqueued hq with hold | hnew
    · rcases h.signal hreleased hold with hs | ⟨t', ht'⟩
      · exact .inl (hsignalled hs)
      · by_cases hne : t' = t
        · subst hne
          exact (hinterrupt ht').symm.imp_right fun hi => ⟨t', hi⟩
        · exact .inr ⟨t', by rw [hinterrupting t' hne]; exact ht'⟩
    · exact .inr ⟨t, hnew⟩
  attended := by
    rw [hpoint, hdead]
    intro hidle hd
    rcases h.attended hidle hd with hs | hs | ⟨t', ht'⟩
    · exact .inl (hsignalled hs)
    · exact .inr (.inl (hstate hs))
    · by_cases hne : t' = t
      · subst hne
        exact (hprompt ht').imp_right (Or.imp_right fun hp => ⟨t', hp⟩)
      · refine .inr (.inr ⟨t', ?_⟩)
        unfold Prompt
        rw [hinner t' hne, hcall t' hne, hinterrupting t' hne]
        exact ht'

variable [DecidableEq ι]

theorem retire (h : Control c) {mine : Bool} (hreg : c.core.registered = true) :
    Control { c with
      core := c.core.unregister, inner := update c.inner t (.markDead mine) } := by
  have halive : c.core.dead = false := by
    by_contra hd
    rw [h.gone (by simpa using hd)] at hreg
    cases hreg
  refine ⟨h.stands.congr rfl rfl id
      (fun _ hp => hp.retask rfl rfl hp.generation fun hl => hl),
    fun _ => rfl, fun _ _ => rfl, fun _ => .inr ⟨t, by simp [Inner.marking]⟩,
    fun _ => .inl rfl, h.signal, ?_⟩
  intro _ hd
  exact absurd (halive.symm.trans hd) (by simp)

theorem markDead (h : Control c) {mine : Bool} (hi : c.inner t = .markDead mine) :
    Control { c with
      core := { c.core with dead := true }
      inner := update c.inner t (.failInflight mine) } := by
  have hreg : c.core.registered = false := h.marked t (by simp [hi, Inner.marking])
  refine ⟨h.stands.congr rfl rfl (fun _ => rfl)
      (fun _ hp => hp.retask rfl rfl hp.generation fun hl => hl),
    fun _ => hreg, fun _ _ => hreg, fun _ => .inl rfl, h.failed, h.signal, ?_⟩
  intro _ _
  exact .inr (.inr ⟨t, .inl (by simp [Inner.prompting])⟩)

theorem inner (h : Control c) {owns : Bool} {k : Core} {i : Inner}
    {call : Option Delivery} (hidle : (c.call t).isIdle = true)
    (hs : innerStep c.core owns (c.inner t) = some (k, i, call)) :
    Control (Config.begin { c with core := k, inner := update c.inner t i } t call) := by
  have hcall : inNotify (c.call t) = false := by
    cases hc : c.call t <;> simp_all [Call.isIdle, inNotify]
  generalize hi : c.inner t = i₀ at hs
  -- a thread on its way to the mailbox stays on it, or starts the delivery
  have hgo : (At c.core c.point → At k c.point) → k.registered = c.core.registered →
      k.dead = c.core.dead → k.lifecycle = c.core.lifecycle → i.marking = i₀.marking →
      (i₀.prompting = true → i.prompting = true ∨ inNotify ((c.begin t call).call t) = true) →
      Control (Config.begin { c with core := k, inner := update c.inner t i } t call) := by
    intro hstands hreg hdead hlife hmark hgoes
    cases call with
    | none =>
      refine h.frame t rfl rfl hstands hreg hdead hlife id
        (fun t' hne => update_of_ne hne _ _) (fun _ _ => rfl) (fun _ _ => rfl) .inl
        id .inl ?_ (by simp [Config.begin, hi, hmark])
      refine fun hp => .inr (.inr (hp.imp (fun hp => ?_) fun hp => hp))
      simpa [Config.begin] using (hgoes (hi ▸ hp)).resolve_right (by simp [Config.begin, hcall])
    | some q =>
      refine h.frame t rfl rfl hstands hreg hdead hlife id
        (fun t' hne => update_of_ne hne _ _) (fun t' hne => update_of_ne hne _ _)
        (fun _ _ => rfl) .inl id .inl ?_ (by simp [Config.begin, hi, hmark])
      rintro (hp | hp | hp)
      · refine .inr (.inr ((hgoes (hi ▸ hp)).imp (fun hi' => ?_) .inl))
        simpa [Config.begin] using hi'
      · exact absurd (hcall.symm.trans hp) (by simp)
      · exact .inr (.inr (.inr (.inr hp)))
  cases innerStep_moved hs with
  | deliver | leave => exact hgo id rfl rfl rfl rfl (by rintro ⟨⟩)
  | die mine => exact h.markDead hi
  | abort mine =>
    refine hgo (fun ha => ?_) rfl rfl rfl rfl fun _ => .inl rfl
    exact ha.congr rfl rfl id
      fun _ hp => hp.retask rfl rfl hp.generation live_takeRequests
  | spare mine => exact hgo id rfl rfl rfl rfl fun _ => .inl rfl
  | notify mine =>
    exact hgo id rfl rfl rfl rfl fun _ => .inr (by simp [Config.begin, inNotify])
  | exit =>
    refine hgo (fun ha => ?_) rfl rfl rfl rfl (by rintro ⟨⟩)
    exact ha.congr rfl rfl id fun _ hp => hp.retask rfl rfl hp.generation id

theorem call (h : Control c) {p : Delivery} {queued : Bool}
    (hfree : c.interrupting t = false) (hs : callStep c.box (c.call t) = some (b, p, queued)) :
    Control { c with
      box := b
      call := update c.call t p
      interrupting := update c.interrupting t queued } := by
  obtain ⟨hnotify, hstate, hqueued⟩ := callStep_notify hs
  refine h.frame t rfl rfl id rfl rfl rfl id (fun _ _ => rfl)
    (fun t' hne => update_of_ne hne _ _) (fun t' hne => update_of_ne hne _ _)
    (fun hq => (hqueued hq).imp_right fun hnew => by simpa using hnew) hstate ?_ ?_ rfl
  · intro hi
    exact absurd (hfree.symm.trans hi) (by simp)
  · rintro (hp | hp | hp)
    · exact .inr (.inr (.inl hp))
    · exact .inr ((hnotify hp).symm.imp_right fun hq => .inr (.inl (by simpa using hq)))
    · exact absurd (hfree.symm.trans hp) (by simp)

theorem callFail (h : Control c) {p : Delivery}
    (hs : Mq.callFail c.box (c.call t) = some p) :
    Control { c with call := update c.call t p } := by
  refine h.frame t rfl rfl id rfl rfl rfl id (fun _ _ => rfl)
    (fun t' hne => update_of_ne hne _ _) (fun _ _ => rfl) .inl id .inl ?_ rfl
  rintro (hp | hp | hp)
  · exact .inr (.inr (.inl hp))
  · exact .inr ((callFail_notify hs hp).symm.imp id
      fun hq => .inr (.inl (by simpa using hq)))
  · exact .inr (.inr (.inr (.inr hp)))

theorem interrupt (h : Control c) :
    Control { c with
      signalled := true, interrupting := update c.interrupting t false } :=
  h.frame t rfl rfl id rfl rfl rfl (fun _ => rfl) (fun _ _ => rfl) (fun _ _ => rfl)
    (fun _ hne => update_of_ne hne _ _) .inl id (fun _ => .inr rfl)
    (fun _ => .inl rfl) rfl

omit [DecidableEq ι] in
theorem not_marking_of_free (hfree : c.free t = true) : (c.inner t).marking = false := by
  simp only [Config.free, Bool.and_eq_true] at hfree
  cases hi : c.inner t <;> simp_all [Inner.isNone, Inner.marking]

theorem freeStep (h : Control c) (hfree : c.free t = true) {k : Core} (i : Inner)
    (call : Option Delivery) (hstands : At c.core c.point → At k c.point)
    (hregistered : k.registered = c.core.registered) (hdead : k.dead = c.core.dead)
    (hlife : k.lifecycle = c.core.lifecycle) (hi : i.marking = false) :
    Control (Config.begin { c with core := k, inner := update c.inner t i } t call) := by
  have hmark := not_marking_of_free hfree
  simp only [Config.free, Bool.and_eq_true, Bool.not_eq_true'] at hfree
  have hprompt : ¬ Prompt c t := by
    rintro (hp | hp | hp)
    · cases hi : c.inner t <;> simp_all [Inner.isNone, Inner.prompting]
    · cases hc : c.call t <;> simp_all [Call.isIdle, inNotify]
    · exact absurd (hfree.2.symm.trans hp) (by simp)
  have hmark' : (update c.inner t i t).marking = (c.inner t).marking := by
    rw [update_self, hi, hmark]
  have hinner : ∀ t', t' ≠ t → update c.inner t i t' = c.inner t' :=
    fun t' hne => update_of_ne hne _ _
  cases call with
  | none =>
    exact h.frame t rfl rfl hstands hregistered hdead hlife id hinner (fun _ _ => rfl)
      (fun _ _ => rfl) .inl id .inl (fun hp => absurd hp hprompt) hmark'
  | some q =>
    exact h.frame t rfl rfl hstands hregistered hdead hlife id hinner
      (fun t' hne => update_of_ne hne _ _) (fun _ _ => rfl) .inl id .inl
      (fun hp => absurd hp hprompt) hmark'

/-! ### The thread of the service -/

variable {me : ι}

omit [DecidableEq ι] in
theorem holdStep_queued {b' : Box} {hold' : Held}
    (hs : holdStep b hold = some (b', hold')) (hq : b'.state = .queued) : b.state = .queued := by
  cases hold <;> simp only [holdStep, Mq.holdStep] at hs <;>
    first
      | (obtain ⟨rfl, -⟩ := hs; first | exact hq | cases hq)
      | ((repeat' split at hs) <;> obtain ⟨rfl, -⟩ := hs <;> first | exact hq | cases hq)

theorem operate [Fintype ι] (h : Control c) (hbox : Mq.Inv (project me c))
    (hsync : Synced c.hold c.point) (hs : holdStep c.box c.hold = some (b, hold)) :
    Control { c with box := b, hold := hold } := by
  have hno : c.hold ≠ .none := by
    intro hnone
    rw [hnone] at hs
    cases hs
  refine ⟨h.stands, h.gone, h.marked, h.retiring, h.failed, ?_, ?_⟩
  · intro hreleased hq
    have hqueued := holdStep_queued hs hq
    refine h.signal ?_ hqueued
    have hfree : c.hold.holds = false := by
      by_contra hh
      have hheld : c.box.state = .running ∨ c.box.state = .notified :=
        (hbox.sole_holder (t := me) (by simpa [project, shared, solo_self] using hh)).1
      rcases hheld with hs | hs <;> exact absurd (hs.symm.trans hqueued) (by simp)
    cases hp : c.point with
    | run r =>
      cases r with
      | take => simp [Point.released, hfree]
      | ran result => rw [hp] at hreleased; cases result <;> exact hreleased
      | _ => rw [hp] at hreleased; exact hreleased
    | _ => rw [hp] at hreleased; exact hreleased
  · intro hidle
    rw [show c.point = .idle from hidle] at hsync
    exact absurd hsync hno

theorem thread (h : Control c) {k : Core} {p : Point}
    (e : Effect c.core k c.box b c.hold hold c.point p) (call : Option Delivery) :
    Control (Config.begin
      { c with
        core := k
        box := b
        hold := hold
        point := p
        signalled := c.signalled && !c.point.isIdle } me call) := by
  have hgone : k.dead = true → k.registered = false := fun hd =>
    e.registered.trans (h.gone (e.dead ▸ hd))
  have hmarked : ∀ t, (c.inner t).marking = true → k.registered = false := fun t ht =>
    e.registered.trans (h.marked t ht)
  have hretiring : k.registered = false → k.dead = true ∨ ∃ t, (c.inner t).marking = true :=
    fun hreg => (h.retiring (e.registered ▸ hreg)).imp (fun hd => e.dead.trans hd) id
  have hfailed : k.lifecycle = .failed → k.registered = false ∨ p.exiting = true := by
    intro hf
    rcases e.failed hf with hold | hd | hp
    · exact (h.failed hold).elim (fun hr => .inl (e.registered.trans hr))
        fun hx => .inl (e.registered.trans (e.exiting hx))
    · exact .inl (e.registered.trans (h.gone hd))
    · exact .inr hp
  have hsignal : p.released hold = true → b.state = .queued →
      (c.signalled && !c.point.isIdle) = true ∨ ∃ t, c.interrupting t = true := by
    intro hreleased hq
    obtain ⟨hold, hne, rfl⟩ := e.released hreleased
    refine (h.signal hold hq).imp (fun hs => ?_) id
    cases hp : c.point <;> first | exact absurd hp hne | simp [hs, Point.isIdle]
  -- a thread that goes to sleep has just seen the service alive
  have hawake : p = .idle → k.dead = true → False := by
    intro hidle hd
    exact absurd ((e.resting hidle).symm.trans (e.dead ▸ hd)) (by simp)
  cases call <;>
    exact ⟨e.arrives, hgone, hmarked, hretiring, hfailed, hsignal, fun hi hd => (hawake hi hd).elim⟩

/-- **Every step keeps the control flow.** -/
theorem step [Fintype ι] (h : Control c) (hbox : Mq.Inv (project me c))
    (hsync : Synced c.hold c.point) (hs : Step me c c') : Control c' := by
  obtain ⟨a, ha⟩ := hs
  cases act_acted ha with
  | grab t source session mtype hfree =>
    exact h.freeStep hfree _ none (fun hat => hat.congr rfl rfl id
      fun _ hp => hp.retask rfl rfl hp.generation fun hl => hl) rfl rfl rfl rfl
  | retire t exits mine hfree hreg => exact h.retire hreg
  | inner t k i call hidle hi => exact h.inner hidle hi
  | wake t task hfree =>
    simpa only [update_eq_self] using h.freeStep hfree (c.inner t)
      (some (.readyPush task)) id rfl rfl rfl (not_marking_of_free hfree)
  | spawn key hfree hkey =>
    simpa only [update_eq_self] using h.freeStep (k := c.core.install key none)
      hfree (c.inner me) (some (.readyPush ⟨key, c.core.tasks.nextGeneration + 1⟩))
      (fun hat => hat.congr rfl rfl id fun _ hp =>
        hp.retask rfl rfl (Nat.le_add_left 1 _) (live_install hp.generation hkey))
      rfl rfl rfl (not_marking_of_free hfree)
  | call t b p queued hquiet hc => exact h.call hquiet hc
  | callFail t p hc => exact h.callFail hc
  | interrupt t => exact h.interrupt
  | hold b p hfree hh => exact h.operate hbox hsync hh
  | step key outcome k b hold p call hfree hmoved =>
    exact h.thread (hmoved.effect hsync h.stands) call

end Control

theorem reachable_control [Fintype ι] [DecidableEq ι] {me : ι} {c : Config ι}
    (hrun : Reachable me c) : Control c := by
  have hboth : Control c ∧ Reachable me c := by
    refine hrun.invariant (I := fun c => Control c ∧ Reachable me c) ?_ ?_
    · exact ⟨Control.start, Interleave.Reachable.refl⟩
    · rintro a b ⟨h, hr⟩ hs
      exact ⟨h.step (reachable_box hr) (project_reachable hr).2 hs, hr.tail hs⟩
  exact hboth.1

end Rskynet.Exclusive
