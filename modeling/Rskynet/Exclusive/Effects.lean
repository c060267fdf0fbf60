import Rskynet.Exclusive.Mailbox

/-!
# What a step of the thread of an exclusive service does
-/

namespace Rskynet.Exclusive

open Rskynet.Task (TaskId)
open Service

/-! ### Points -/

/-- What the thread is about to do with the initialisation. -/
def Point.duty : Point → RunPoint
  | .run p => p.duty
  | .drain (.work _ w) => .work w
  | _ => .loop

def Point.cleaning : Point → Bool
  | .clean _ => true
  | .account => true
  | .ended => true
  | _ => false

def Point.emptied : Point → Bool
  | .clean .init => true
  | .clean .release => true
  | .clean .finished => true
  | .account => true
  | .ended => true
  | _ => false

def Point.exiting : Point → Bool
  | .run r => (Service.Point.run r).exiting
  | .drain (.work _ w) => (Service.Point.run (.work w)).exiting
  | _ => false

def Point.rested : Point → Bool
  | .run .take => true
  | .run (.ran .idle) => true
  | .check => true
  | .idle => true
  | _ => false

/-- The thread has let go of the service and is on its way to sleep. -/
def Point.released (hold : Held) : Point → Bool
  | .run .take => !hold.holds
  | .run (.ran .idle) => true
  | .check => true
  | .idle => true
  | _ => false

def Point.past : Point → Bool
  | .run (.ran .dead) => true
  | .leave => true
  | .drain _ => true
  | .destroy => true
  | .clean _ => true
  | .account => true
  | .ended => true
  | _ => false

/-! ### One step of the thread -/

section Effects

variable {k k' : Core} {b b' : Box} {hold hold' : Held} {key : ℕ}
  {outcome : Outcome} {p p' : Point} {call : Option Delivery}

structure At (k : Core) (p : Point) : Prop where
  emptied : p.emptied = true → k.pending = none
  rested : p.rested = true → k.lifecycle = .running → k.pending = none
  past : p.past = true → k.dead = true
  prepared : p.cleaning = false → Prepared k p.duty

theorem At.congr (h : At k p) (hlife : k'.lifecycle = k.lifecycle) (hpending : k'.pending = k.pending)
    (hdead : k.dead = true → k'.dead = true) (hprepared : ∀ q, Prepared k q → Prepared k' q) :
    At k' p := by
  refine ⟨?_, ?_, fun hp => hdead (h.past hp), fun hp => hprepared _ (h.prepared hp)⟩
  · rw [hpending]
    exact h.emptied
  · rw [hlife, hpending]
    exact h.rested

/-- What a step of the thread does to the flags, the backlog and its own point. -/
structure Effect (k k' : Core) (b b' : Box) (hold hold' : Held)
    (p p' : Point) : Prop where
  registered : k'.registered = k.registered
  dead : k'.dead = k.dead
  failed : k'.lifecycle = .failed → k.lifecycle = .failed ∨ k.dead = true ∨ p'.exiting = true
  exiting : p.exiting = true → k.registered = false
  arrives : At k' p'
  resting : p' = .idle → k.dead = false
  released : p'.released hold' = true → p.released hold = true ∧ p ≠ .idle ∧ b' = b

theorem Effect.of_same (hexiting : p.exiting = false) (harrives : At k p')
    (hresting : p' = .idle → k.dead = false)
    (hreleased : p'.released hold' = true → p.released hold = true ∧ p ≠ .idle ∧ b' = b) :
    Effect k k b b' hold hold' p p' :=
  ⟨rfl, rfl, .inl, fun hp => absurd (hexiting.symm.trans hp) (by simp), harrives, hresting,
    hreleased⟩

theorem Effect.of_run {r r' : RunPoint} {task : Option TaskId} (hsync : Synced hold (.run r))
    (h : At k (.run r)) (hs : runStep k hold key outcome false r = some (k', hold', r', task)) :
    Effect k k' b b hold hold' (.run r) (.run r') := by
  have hr : r ≠ .ran .yielded := by
    rintro rfl
    cases hs
  have e := (runStep_moved hs).effect ((synced_run hr).mp hsync)
  refine ⟨e.flags.registered, e.flags.dead, e.failed, e.exiting, ⟨nofun, ?_, ?_,
    fun _ => (runStep_moved hs).prepared (h.prepared rfl)⟩, nofun, ?_⟩
  · intro hp hlife
    cases runStep_moved hs with
    | idle hm => exact h.rested rfl hlife
    | take hm _ => exact e.taking rfl hlife
    | unpend hm _ => rfl
    | _ => cases hp
  · intro hp
    cases runStep_moved hs with
    | refuse hm hdead | dead hdead => exact hdead
    | _ => cases hp
  · intro hp
    cases runStep_moved hs with
    | idle hm => exact ⟨by rw [hm]; rfl, by simp, rfl⟩
    | _ => cases hp

theorem Effect.of_drain_same {r r' : DrainPoint} (h : At k (.drain r))
    (hexiting : (Point.drain r).exiting = false) (hprepared : Prepared k (Point.drain r').duty) :
    Effect k k b b hold hold' (.drain r) (.drain r') :=
  .of_same hexiting
    ⟨nofun, nofun, fun _ => h.past rfl, fun _ => hprepared⟩
    nofun nofun

theorem Effect.of_drain {r r' : DrainPoint} {task : Option TaskId} (h : At k (.drain r))
    (hs : DrainMoved k hold key outcome r k' hold' r' task) :
    Effect k k' b b hold hold' (.drain r) (.drain r') := by
  have hprep := h.prepared rfl
  cases hs with
  | enter | stop | take | empty => exact .of_drain_same h rfl hprep
  | took budget work hm =>
    refine .of_drain_same h rfl (hprep.move _ rfl ?_ ?_ ?_) <;> cases work <;>
      simp [Point.duty, workPoint]
  | done budget =>
    exact .of_drain_same h rfl
      (hprep.move _ rfl (by simp [Point.duty]) (by simp [Point.duty]) (by simp [Point.duty]))
  | work budget w w' k' task hm =>
    obtain ⟨hflags, hfailed, hexit⟩ := workStep_flags hm
    exact ⟨hflags.registered, hflags.dead, hfailed, hexit,
      ⟨by rintro ⟨⟩, by rintro ⟨⟩, fun _ => hflags.dead.trans (h.past rfl),
        fun _ => workStep_prepared hm hprep⟩,
      by rintro ⟨⟩, by rintro ⟨⟩⟩

theorem Effect.of_clean {r r' : CleanPoint} (hsync : Synced hold (.clean r))
    (h : At k (.clean r)) (hs : cleanStep k hold r = some (k', hold', r')) :
    Effect k k' b b hold hold' (.clean r) (.clean r') := by
  have e := cleanStep_effect hsync hs
  have hemptied : (Point.clean r').emptied = true → k'.pending = none := by
    intro hp
    refine e.emptied ?_ ?_
    · intro hr
      exact h.emptied (by cases r <;> first | rfl | cases hr)
    · cases r' <;> first | rfl | cases hp
  exact ⟨e.flags.registered, e.flags.dead, fun _ => .inr (.inl (h.past rfl)),
    nofun,
    ⟨hemptied, nofun, fun _ => e.flags.dead.trans (h.past rfl),
      nofun⟩,
    nofun, nofun⟩

theorem Effect.of_turn (hexiting : p.exiting = false) (hemptied : p'.emptied = false)
    (hrested : p'.rested = false) (hpast : p'.past = true → k.dead = true)
    (hprepared : p'.cleaning = false → Prepared k p'.duty) (hidle : p' ≠ .idle)
    (hreleased : p'.released hold' = false) : Effect k k b b' hold hold' p p' :=
  .of_same hexiting
    ⟨fun hp => absurd (hemptied.symm.trans hp) (by simp),
      fun hp => absurd (hrested.symm.trans hp) (by simp), hpast, hprepared⟩
    (fun hp => absurd hp hidle) (fun hp => absurd (hreleased.symm.trans hp) (by simp))

theorem Moved.effect (hs : Moved k b hold key outcome p k' b' hold' p' call)
    (hsync : Synced hold p) (h : At k p) : Effect k k' b b' hold hold' p p' := by
  cases hs with
  | run r r' k' hold' task hs => exact .of_run hsync h hs
  | drain r r' k' hold' task hs => exact .of_drain h (drainStep_moved hs)
  | clean r r' k' hold' hs => exact .of_clean hsync h hs
  | mark p p' hm =>
    rcases hm with ⟨rfl, rfl⟩ | ⟨rfl, rfl⟩ | ⟨rfl, rfl⟩
    · exact .of_turn rfl rfl rfl nofun (fun _ => h.prepared rfl) (by simp) rfl
    · exact .of_turn rfl rfl rfl (fun _ => h.past rfl) (fun _ => h.prepared rfl) (by simp) rfl
    · exact .of_turn rfl rfl rfl (fun _ => h.past rfl) nofun (by simp) rfl
  | dead | drained =>
    exact .of_turn rfl rfl rfl (fun _ => h.past rfl) (fun _ => h.prepared rfl) (by simp) rfl
  | ran result hm =>
    cases result with
    | dead => exact absurd rfl hm
    | yielded => exact hsync.elim
    | idle =>
      exact .of_same rfl ⟨nofun, fun _ => h.rested rfl, nofun,
        fun _ => h.prepared rfl⟩ nofun (fun _ => ⟨rfl, by simp, rfl⟩)
  | leave hm => exact .of_turn rfl rfl rfl (fun _ => hm) (fun _ => h.prepared rfl) (by simp) rfl
  | rest hm =>
    exact .of_same rfl ⟨nofun, fun _ => h.rested rfl, nofun,
      fun _ => h.prepared rfl⟩ (fun _ => hm) (fun _ => ⟨rfl, by simp, rfl⟩)
  | wake => exact .of_turn rfl rfl rfl nofun (fun _ => h.prepared rfl) (by simp) rfl
  | gone hm =>
    exact .of_same rfl ⟨fun _ => h.emptied rfl, nofun, fun _ => h.past rfl,
      nofun⟩ nofun nofun
  | destroy | account =>
    exact ⟨rfl, rfl, .inl, nofun, ⟨fun _ => h.emptied rfl, nofun,
      fun _ => h.past rfl, nofun⟩, nofun, nofun⟩

end Effects

end Rskynet.Exclusive
