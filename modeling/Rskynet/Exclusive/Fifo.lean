import Rskynet.Exclusive.Answered
import Rskynet.Service.Fifo

/-!
# First in, first out: exclusive services

The thread of an exclusive service runs the same `run_service` as a worker, so its messages stand in the
same line; `drain_service` and `cleanup` run after the service has left the handle table only.

* `InOrder.step` — **PROVED**: every step keeps the line as long as the service is registered;
* `fifo_across_init` — **PROVED**: the messages of every service that has not been retired are dispatched
  in the order in which they entered its mailbox.
-/

namespace Rskynet.Exclusive

open Service List Option Interleave

variable {ι : Type*}

/-! ### An exclusive service with its log -/

def Point.handled? : Point → Option Message
  | .run p => p.handled?
  | .drain (.work _ w) => (RunPoint.work w).handled?
  | _ => none

def Point.dispatches : Point → Bool
  | .run p => p.dispatches
  | .drain (.work _ w) => (RunPoint.work w).dispatches
  | _ => false

def observe (a : Action ι) (c c' : Config ι) (log : Log) : Log :=
  match a with
  | .call t => log.push (c.call t)
  | .step _ _ => log.handle c'.point.dispatches c.point.handled?
  | _ => log

def traced [DecidableEq ι] (me : ι) (a : Action ι) (s : Config ι × Log) : Option (Config ι × Log) :=
  (act me a s.1).map fun c => (c, observe a s.1 c s.2)

def InOrder (c : Config ι) (log : Log) : Prop :=
  c.core.registered = true → Lined c.core c.point.handled? (popped? c.hold) c.box.queue log

theorem callStep_lined {k : Core} {handled popped : Option Message} {log : Log}
    {b b' : Box} {p p' : Delivery} {queued : Bool}
    (hs : callStep b p = some (b', p', queued)) (h : Lined k handled popped b.queue log) :
    Lined k handled popped b'.queue (log.push p) := by
  cases p with
  | casIdle pushed =>
    simp only [callStep] at hs
    split at hs
    · cases hs
      exact h
    · cases hs
      exact h
  | pushMark | pushInsert => cases hs
  | _ =>
    simp only [callStep] at hs
    obtain ⟨⟨b₁, e, p₁⟩, hstep, heq⟩ := map_eq_some_iff.mp hs
    cases heq
    exact Service.callStep_lined hstep h

theorem past_of_draining {hold : Held} {p : Point} (hsync : Synced hold p)
    (h : draining hold = true) : p.past = true := by
  have hnone : hold ≠ .none := by
    rintro rfl
    cases h
  cases p with
  | run r =>
    by_cases hr : r = .ran .yielded
    · rw [hr] at hsync
      exact hsync.elim
    · have hdoomed := doomed_of_draining ((synced_run hr).mp hsync) h
      cases r with
      | ran result => cases result <;> first | rfl | cases hdoomed
      | _ => cases hdoomed
  | mark | check | idle => exact absurd hsync hnone
  | _ => rfl

namespace InOrder

variable {c c' : Config ι} {log : Log}

theorem start : InOrder (Config.start ι) Log.empty := fun _ => Lined.start

theorem vacuous (h : c.core.registered = false) : InOrder c log := by
  intro hr
  exact absurd (h.symm.trans hr) (by simp)

theorem frame (h : InOrder c log) (hreg : c'.core.registered = true → c.core.registered = true)
    (hlife : c'.core.lifecycle = c.core.lifecycle) (hpending : c'.core.pending = c.core.pending)
    (hbox : c'.box = c.box) (hpoint : c'.point = c.point) (hhold : c'.hold = c.hold) : InOrder c' log := by
  intro hr
  rw [hbox, hpoint, hhold]
  exact (h (hreg hr)).same hlife hpending

section Thread

variable {k : Core} {b : Box} {hold : Held} {key : ℕ} {outcome : Outcome}
  {p : Point} {call : Option Delivery}

/-- **A step of the service's thread** outside the mailbox. -/
theorem thread (h : InOrder c log) (hctl : Control c) (hsync : Synced c.hold c.point)
    (hs : Moved c.core c.box c.hold key outcome c.point k b hold p call)
    (hsafe : ∀ m, p ≠ .run (.work (.panicked m))) (hreg : k.registered = true) :
    Lined k p.handled? (popped? hold) b.queue (log.handle p.dispatches c.point.handled?) := by
  have hreg' : c.core.registered = true := (hs.effect hsync hctl.stands).registered ▸ hreg
  have halive : c.point.past = false := by
    by_contra hpast
    have hgone := hctl.gone (hctl.stands.past (by simpa using hpast))
    exact absurd (hgone.symm.trans hreg') (by simp)
  have hl := h hreg'
  have hstands := hctl.stands
  generalize hp : c.point = p₀ at hs hl halive hstands hsync
  cases hs with
  | run r r' k' hold' task hs =>
    have hr : r ≠ .ran .yielded := by
      rintro rfl
      cases hs
    refine (runStep_moved hs).lined ((synced_run hr).mp hsync) ?_ ?_
      (fun m heq => hsafe m (congrArg _ heq)) hl
    · rintro rfl
      exact (hstands.prepared rfl).replay rfl
    · rintro rfl -
      exact hstands.rested rfl
  | mark q q' hm =>
    rcases hm with ⟨rfl, rfl⟩ | ⟨rfl, rfl⟩ | ⟨rfl, rfl⟩
    · rw [show c.hold = .none from hsync] at hl
      exact hl
    · cases halive
    · cases halive
  | ran | leave | rest | wake => exact hl
  | _ => cases halive

end Thread

/-- **Every step of every thread** keeps the messages in order. -/
theorem step [Fintype ι] [DecidableEq ι] {me : ι} {a : Action ι} (h : InOrder c log)
    (hrun : Reachable me c) (ha : act me a c = some c') : InOrder c' (observe a c c' log) := by
  have hctl := reachable_control hrun
  have hsync := (project_reachable hrun).2
  have hsafe := not_panicked (hrun.tail ⟨a, ha⟩)
  cases act_acted ha with
  | retire => exact vacuous rfl
  | inner t k i call hidle hi =>
    obtain ⟨hreg, hlife, hpending⟩ := innerStep_keeps hi
    cases call <;> exact h.frame (fun hr => hreg ▸ hr) hlife hpending rfl rfl rfl
  | call t b p queued hquiet hc => exact fun hr => callStep_lined hc (h hr)
  | hold b p hfree hh =>
    intro hr
    refine holdStep_lined (holdStep_shared hh 0).1 ?_ (h hr)
    by_contra hd
    have hgone := hctl.gone (hctl.stands.past (past_of_draining hsync (by simpa using hd)))
    exact absurd (hgone.symm.trans hr) (by simp)
  | step key outcome k b hold p call hfree hmoved =>
    have hthread := h.thread hctl hsync hmoved
    cases call <;> exact hthread fun m heq => (hsafe m).1 heq
  | _ => exact h.frame id rfl rfl rfl rfl rfl

end InOrder

/-! ### Runs -/

section Runs

variable [Fintype ι] [DecidableEq ι] {me : ι} {s : Config ι × Log}

theorem reachable_of_traced (as : List (Action ι))
    (hexec : exec (traced me) as (Config.start ι, Log.empty) = some s) :
    Reachable me s.1 ∧ InOrder s.1 s.2 := by
  have hstep : ∀ (a : Action ι) (s s' : Config ι × Log), (Reachable me s.1 ∧ InOrder s.1 s.2) → True →
      traced me a s = some s' → Reachable me s'.1 ∧ InOrder s'.1 s'.2 := by
    rintro a s s' ⟨hrun, h⟩ - hs
    obtain ⟨c', ha, rfl⟩ := map_eq_some_iff.mp hs
    exact ⟨hrun.tail ⟨a, ha⟩, h.step hrun ha⟩
  refine exec_invariant (P := fun _ _ => True)
    (I := fun s : Config ι × Log => Reachable me s.1 ∧ InOrder s.1 s.2) hstep as ?_
    (along_of_forall (fun _ _ _ => trivial) _) hexec
  exact ⟨Interleave.Reachable.refl, InOrder.start⟩

/-- **A registered exclusive service** handles its messages first in, first out. -/
theorem fifo_of_traced (as : List (Action ι))
    (hexec : exec (traced me) as (Config.start ι, Log.empty) = some s)
    (hreg : s.1.core.registered = true) : Fifo s.1.core s.1.box.queue s.2 := by
  obtain ⟨hrun, h⟩ := reachable_of_traced as hexec
  apply (h hreg).fifo
  have hsync := (project_reachable hrun).2
  cases hp : s.1.point with
  | run r =>
    cases r with
    | work w =>
      rw [hp] at hsync
      rw [show s.1.hold = .holding from hsync]
      exact .inr rfl
    | _ => exact .inl rfl
  | drain r =>
    cases r with
    | work budget w =>
      rw [hp] at hsync
      rw [show s.1.hold = .holding from hsync]
      exact .inr rfl
    | _ => exact .inl rfl
  | _ => exact .inl rfl

/-- **First in, first out across the initialisation.** In every run of a shared or an exclusive
service, as long as it is in the handle table, the messages given to `Service::dispatch` are the
first of those that entered the mailbox, in that order. -/
theorem fifo_across_init (me : ι) :
    (∀ (as : List (Service.Action ι)) (s : Service.Config ι × Log),
      Interleave.exec Service.traced as (Service.Config.start me, Log.empty) = some s →
        (s.1.core.registered = true → Fifo s.1.core s.1.box.box.queue s.2) ∧
        ∀ t m, s.1.point t ≠ .run (.work (.panicked m))) ∧
    ∀ (as : List (Action ι)) (s : Config ι × Log),
      Interleave.exec (traced me) as (Config.start ι, Log.empty) = some s →
        (s.1.core.registered = true → Fifo s.1.core s.1.box.queue s.2) ∧
        ∀ m, s.1.point ≠ .run (.work (.panicked m)) ∧
          ∀ budget, s.1.point ≠ .drain (.work budget (.panicked m)) := by
  constructor
  · intro as s hexec
    exact ⟨Service.fifo_of_traced as hexec, Service.not_panicked (Service.reachable_of_traced as hexec).1⟩
  · intro as s hexec
    exact ⟨fifo_of_traced as hexec, not_panicked (reachable_of_traced as hexec).1⟩

end Runs

/-! ### A replayed backlog -/

/-- Thread `t` creates the service and sends to it twice: once before the init has completed and once
while the worker, thread `w`, yields between the end of the init and the replay of the backlog. -/
def lateInit : List (Service.Action (Fin 2)) :=
  let t : Fin 2 := ⟨0, Nat.two_pos⟩
  let w : Fin 2 := ⟨1, Nat.one_lt_two⟩
  let goOn : Service.Action (Fin 2) := .step w 0 .pending false
  List.flatten [
    -- the worker takes the service and polls the init once
    [.call t, .call t, .pop w, .hold w, goOn, goOn], List.replicate 3 (.hold w), List.replicate 4 goOn,
    -- the first message goes to the backlog
    [.grab t 1 1 0, .inner t], List.replicate 4 (.call t),
    [goOn, goOn], List.replicate 6 (.hold w), [goOn, goOn],
    -- the init is woken and completes
    [.wake t initTask], List.replicate 2 (.call t), List.replicate 3 goOn, List.replicate 3 (.hold w),
    [goOn, goOn, .step w 0 .done false, goOn],
    [.grab t 1 1 0, .inner t], List.replicate 3 (.call t),
    [goOn, .step w 0 .pending true], List.replicate 5 goOn]

theorem lateInit_end :
    (exec Service.traced lateInit (Service.Config.start 0, Log.empty)).map (fun s =>
      (s.1.core.registered, s.2.pushed.map Message.stamp, s.2.given.map Message.stamp))
      = some (true, [0, 1], [0]) := by
  decide +kernel

theorem fifo_across_lateInit :
    ∃ s, Interleave.exec Service.traced lateInit (Service.Config.start 0, Log.empty) = some s ∧
      s.2.pushed.map Message.stamp = [0, 1] ∧ s.2.given.map Message.stamp = [0] ∧
      Fifo s.1.core s.1.box.box.queue s.2 := by
  obtain ⟨s, hexec, heq⟩ := map_eq_some_iff.mp lateInit_end
  obtain ⟨hreg, hlogs⟩ := Prod.mk.inj heq
  obtain ⟨hpushed, hgiven⟩ := Prod.mk.inj hlogs
  exact ⟨s, hexec, hpushed, hgiven, ((fifo_across_init 0).1 lateInit s hexec).1 hreg⟩

end Rskynet.Exclusive
