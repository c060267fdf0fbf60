import Rskynet.Service.Workers
import Rskynet.Service.Startup

/-!
# The initialisation of a shared service

The holder of a shared service changes, but the initialisation passes from one holder to the next
in the state that `Prepared` describes, until the service is destroyed.

* `Initialised.step` — **PROVED**: every step keeps the initialisation in order;
* `not_panicked` — **PROVED**: no worker runs into the `expect` on a missing backlog.
-/

namespace Rskynet.Service

open Rskynet.Task (TaskId)

variable {ι : Type*}

def Point.duty : Point → RunPoint
  | .run p => p.duty
  | _ => .loop

def Intact (c : Config ι) : Prop :=
  c.core.destroyed = false ∧ ∀ t, (c.point t).cleaning = false

/-- The duty of the holder, or that of the head of the loop when nobody has another. -/
def OnDuty (c : Config ι) (p : RunPoint) : Prop :=
  (p = .loop ∧ ∀ t, (c.point t).duty = .loop) ∨ (p ≠ .loop ∧ ∃ t, (c.point t).duty = p)

/-- The initialisation of a service that is not being destroyed is in order. -/
def Initialised (c : Config ι) : Prop := Intact c → ∀ p, OnDuty c p → Prepared c.core p

theorem working_of_duty {hold : Held} {p : Point} (h : p.duty ≠ .loop) :
    working hold p = true := by
  cases p with
  | run r =>
    cases r with
    | takePending | work => rfl
    | _ => exact absurd rfl h
  | _ => exact absurd rfl h

theorem duty_of_not_working {hold : Held} {p : Point} (h : working hold p = false) :
    p.duty = .loop := by
  by_contra hne
  exact absurd (h.symm.trans (working_of_duty hne)) (by simp)

theorem intact_of_working [Fintype ι] {c : Config ι} (h : Control c) {t : ι}
    (hw : working (c.box.hold t) (c.point t) = true) : Intact c := by
  constructor
  · by_contra hd
    exact absurd (h.still (.inl (by simpa using hd)) t) (by simp [hw])
  · intro t'
    by_contra hd
    exact absurd (h.still (.inr ⟨t', by simpa using hd⟩) t) (by simp [hw])

namespace Initialised

variable {c c' : Config ι} {t : ι}

theorem start [DecidableEq ι] (creator : ι) : Initialised (Config.start creator) := by
  rintro - p (⟨rfl, -⟩ | ⟨hne, t, ht⟩)
  · exact Prepared.start
  · exact absurd ht.symm hne

theorem frame (h : Initialised c) (hduty : ∀ t, (c'.point t).duty = (c.point t).duty)
    (hintact : Intact c' → Intact c)
    (hprepared : ∀ p, Prepared c.core p → Prepared c'.core p) : Initialised c' := by
  intro hi p hp
  refine hprepared p (h (hintact hi) p ?_)
  rcases hp with ⟨rfl, hall⟩ | ⟨hne, t, ht⟩
  · exact .inl ⟨rfl, fun t => (hduty t).symm.trans (hall t)⟩
  · exact .inr ⟨hne, t, (hduty t).symm.trans ht⟩

theorem innerStep_destroyed {k k' : Core} {owns : Bool} {i i' : Inner}
    {call : Option Delivery} (hs : innerStep k owns i = some (k', i', call)) :
    k'.destroyed = k.destroyed := by
  cases innerStep_moved hs with
  | _ => rfl

theorem innerStep_prepared {k k' : Core} {owns : Bool} {i i' : Inner}
    {call : Option Delivery} (hs : innerStep k owns i = some (k', i', call))
    {p : RunPoint} (h : Prepared k p) : Prepared k' p := by
  cases innerStep_moved hs with
  | die | exit => exact h.retask rfl rfl h.generation id
  | abort => exact h.retask rfl rfl h.generation live_takeRequests
  | _ => exact h

variable [DecidableEq ι] {k : Core} {hold : Held} {key : ℕ} {outcome : Outcome}
  {p : Point} {call : Option Delivery}

theorem stay (h : Initialised c) (hduty : p.duty = (c.point t).duty)
    (hclean : (c.point t).cleaning = false) :
    Initialised (after c t c.core hold p call) := by
  refine h.frame ?_ ?_ fun _ hp => hp
  · intro t'
    by_cases hne : t' = t
    · rw [hne, point_after_self, hduty]
    · rw [point_after_of_ne hne]
  · rintro ⟨hd, hc⟩
    refine ⟨hd, fun t' => ?_⟩
    by_cases hne : t' = t
    · rw [hne, hclean]
    · rw [← point_after_of_ne hne]
      exact hc t'

theorem doomed (hdoom : k.destroyed = true ∨ p.cleaning = true) :
    Initialised (after c t k hold p call) := by
  rintro ⟨hd, hc⟩
  rcases hdoom with hk | hp
  · exact absurd (hd.symm.trans hk) (by simp)
  · have hno := hc t
    rw [point_after_self] at hno
    exact absurd (hno.symm.trans hp) (by simp)

/-- **A step of `run_service`** on a shared service. -/
theorem run [Fintype ι] (h : Initialised c) (hctl : Control c) (hbox : Mq.Inv c.box)
    {r r' : RunPoint} {yields : Bool} {task : Option TaskId} (hr : c.point t = .run r)
    (hs : runStep c.core (c.box.hold t) key outcome yields r = some (k, hold, r', task)) :
    Initialised (after c t k hold (.run r') call) := by
  have e := (runStep_moved hs).effect (by rw [← hr]; exact hctl.synced t)
  by_cases hw : working (c.box.hold t) (c.point t) = true
  · -- the other threads have no duty, before the step and after it
    have hothers : ∀ t', t' ≠ t → (c.point t').duty = .loop := fun t' hne =>
      duty_of_not_working (hctl.not_working hbox (holds_of_working (hctl.synced t) hw) hne)
    have hmine : OnDuty c r.duty := by
      by_cases hloop : r.duty = .loop
      · refine .inl ⟨hloop, fun t' => ?_⟩
        by_cases hne : t' = t
        · rw [hne, hr]
          exact hloop
        · exact hothers t' hne
      · exact .inr ⟨hloop, t, by rw [hr]; rfl⟩
    have hprep : Prepared k r'.duty := (runStep_moved hs).prepared (h (intact_of_working hctl hw) _ hmine)
    rintro - q (⟨rfl, hall⟩ | ⟨hne, t', ht'⟩)
    · have hq := hall t
      rw [point_after_self] at hq
      exact (show r'.duty = .loop from hq) ▸ hprep
    · by_cases heq : t' = t
      · rw [heq, point_after_self] at ht'
        exact (show r'.duty = q from ht') ▸ hprep
      · rw [point_after_of_ne heq, hothers t' heq] at ht'
        exact absurd ht'.symm hne
  · have hk : k = c.core := by
      rcases e.quiet with hw' | hk
      · exact absurd (by rw [hr]; exact hw') hw
      · exact hk
    subst hk
    refine h.stay ?_ (by rw [hr]; rfl)
    rw [duty_of_not_working (p := c.point t) (by simpa using hw)]
    by_contra hne
    rcases e.works (working_of_duty hne) with hw' | ⟨rfl, hdead⟩
    · exact hw (by rw [hr]; exact hw')
    · cases runStep_moved hs <;> exact hne rfl

theorem worker [Fintype ι] (h : Initialised c) (hctl : Control c) (hbox : Mq.Inv c.box)
    (hs : Moved c.core (c.box.hold t) key outcome (c.point t) k hold p call) :
    Initialised (after c t k hold p call) := by
  generalize hp : c.point t = p₀ at hs
  cases hs with
  | run r r' k' hold' task yields hs => exact h.run hctl hbox hp hs
  | clean | dead => exact doomed (.inr rfl)
  | yield r hr hold' hs =>
    refine h.stay ?_ (by rw [hp]; rfl)
    rcases hr with rfl | rfl <;> rw [hp] <;> rfl
  | yielded | keep | idle | again => exact h.stay (by rw [hp]; rfl) (by rw [hp]; rfl)
  | gone hd => exact doomed (.inl hd)
  | destroy hd => exact doomed (.inl rfl)
  | account =>
    have hpos := Interleave.tally_pos (f := c.point) (P := Point.isAccount) (i := t)
      (by rw [hp]; rfl)
    have hd : c.core.destroyed = true := by
      by_contra hno
      have hremoved := hctl.removed
      rw [Bool.not_eq_true] at hno
      rw [hno] at hremoved
      exact absurd hremoved (by simp; omega)
    exact doomed (.inl hd)

/-- **Every step keeps the initialisation in order.** -/
theorem step [Fintype ι] (h : Initialised c) (hctl : Control c) (hbox : Mq.Inv c.box)
    (hs : Step c c') : Initialised c' := by
  obtain ⟨a, ha⟩ := hs
  cases act_acted ha with
  | grab | retire =>
    exact h.frame (fun _ => rfl) id
      fun _ hp => hp.retask rfl rfl hp.generation id
  | inner t k i call hidle hi =>
    exact h.frame (fun _ => rfl) (fun hint => ⟨(innerStep_destroyed hi).symm.trans hint.1, hint.2⟩)
      fun _ hp => innerStep_prepared hi hp
  | spawn t key hfree hkey =>
    exact h.frame (fun _ => rfl) id fun _ hp =>
      hp.retask rfl rfl (Nat.le_add_left 1 _) (live_install hp.generation hkey)
  | pop t hout =>
    have hpoint : ∀ t', (Function.update c.point t (.run .enter) t').duty = (c.point t').duty ∧
        (Function.update c.point t (.run .enter) t').cleaning = (c.point t').cleaning := by
      intro t'
      by_cases hne : t' = t
      · rw [hne, Function.update_self, hout]
        exact ⟨rfl, rfl⟩
      · rw [Function.update_of_ne hne]
        exact ⟨rfl, rfl⟩
    exact h.frame (fun t' => (hpoint t').1)
      (fun hi => ⟨hi.1, fun t' => (hpoint t').2.symm.trans (hi.2 t')⟩) fun _ hp => hp
  | step t key outcome yields k hold p call hfree hmoved => exact h.worker hctl hbox hmoved
  | _ => exact h.frame (fun _ => rfl) id fun _ hp => hp

end Initialised

section Runs

variable [Fintype ι] [DecidableEq ι] {creator : ι} {c : Config ι}

theorem reachable_initialised (hrun : Reachable creator c) : Initialised c := by
  have hboth : Initialised c ∧ Reachable creator c := by
    refine hrun.invariant (I := fun c => Initialised c ∧ Reachable creator c) ?_ ?_
    · exact ⟨Initialised.start creator, Interleave.Reachable.refl⟩
    · rintro a b ⟨h, hr⟩ hs
      exact ⟨h.step (reachable_control hr) (Mq.reachable_inv (box_reachable hr)) hs, hr.tail hs⟩
  exact hboth.1

/-- **No worker panics** on a missing backlog. -/
theorem not_panicked (hrun : Reachable creator c) (t : ι) (m : Message) :
    c.point t ≠ .run (.work (.panicked m)) := by
  intro hp
  have hintact : Intact c :=
    intact_of_working (reachable_control hrun) (t := t) (by rw [hp]; rfl)
  have hduty : OnDuty c (.work (.panicked m)) := .inr ⟨by simp, t, by rw [hp]; rfl⟩
  exact (reachable_initialised hrun hintact _ hduty).safe m rfl

end Runs

end Rskynet.Service
