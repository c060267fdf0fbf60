import Rskynet.Service.Points

/-!
# What a step of a worker does to the flags of a shared service
-/

namespace Rskynet.Service

open Rskynet.Task (TaskId)

variable {call : Option Delivery}

/-! ### One step of a worker -/

section Worker

variable {k k' : Core} {hold hold' : Held} {key : ℕ} {outcome : Outcome}
  {yields : Bool} {task : Option TaskId}

/-- What a worker never changes while it executes the service or cleans it up. -/
structure SameFlags (k k' : Core) : Prop where
  registered : k'.registered = k.registered
  dead : k'.dead = k.dead
  destroyed : k'.destroyed = k.destroyed
  removed : k'.removed = k.removed

theorem SameFlags.refl (k : Core) : SameFlags k k := ⟨rfl, rfl, rfl, rfl⟩

theorem lifecycle_finishInit (k : Core) (ok : Bool) (h : (k.finishInit ok).lifecycle = .failed) :
    ok = false ∨ k.dead = true := by
  unfold Core.finishInit at h
  by_contra hno
  rw [not_or, Bool.not_eq_false, Bool.not_eq_true] at hno
  exact absurd h (by simp [hno])

theorem workStep_flags {p p' : WorkPoint} (hs : workStep k key outcome p = some (k', p', task)) :
    SameFlags k k' ∧ (k'.lifecycle = .failed →
      k.lifecycle = .failed ∨ k.dead = true ∨ (Point.run (.work p')).exiting = true) ∧
    ((Point.run (.work p)).exiting = true → k.registered = false) := by
  have hkeep : k'.lifecycle = k.lifecycle → k'.lifecycle = .failed →
      k.lifecycle = .failed ∨ k.dead = true ∨ (Point.run (.work p')).exiting = true :=
    fun heq h => .inl (heq ▸ h)
  cases workStep_moved hs with
  | started =>
    refine ⟨⟨rfl, rfl, rfl, rfl⟩, fun h => ?_, nofun⟩
    exact .inr (.inl ((lifecycle_finishInit k true h).resolve_left (by simp)))
  | refused => exact ⟨⟨rfl, rfl, rfl, rfl⟩, fun _ => .inr (.inr rfl), nofun⟩
  | exited t hreg => exact ⟨.refl k, hkeep rfl, fun _ => hreg⟩
  | _ => exact ⟨⟨rfl, rfl, rfl, rfl⟩, hkeep rfl, nofun⟩

/-- What a step of `run_service` does to the flags of the service and to its own point. -/
structure RunEffect (k k' : Core) (hold hold' : Held) (p p' : RunPoint) : Prop where
  flags : SameFlags k k'
  synced : Synced hold' (.run p')
  works : working hold' (.run p') = true →
    working hold (.run p) = true ∨ (p = .enter ∧ k.dead = false)
  quiet : working hold (.run p) = true ∨ k' = k
  taking : p' = .take → k'.lifecycle = .running → k'.pending = none
  failed : k'.lifecycle = .failed →
    k.lifecycle = .failed ∨ k.dead = true ∨ (Point.run p').exiting = true
  exiting : (Point.run p).exiting = true → k.registered = false
  dooms : (Point.run p').doomed = true → k.dead = true
  looking : (Point.run p).looking hold = true → (Point.run p').looking hold' = true

theorem RunEffect.of_same {p p' : RunPoint} (hsync : Synced hold' (.run p'))
    (hworks : working hold' (.run p') = true →
      working hold (.run p) = true ∨ (p = .enter ∧ k.dead = false))
    (htaking : p' = .take → k.lifecycle = .running → k.pending = none)
    (hexiting : (Point.run p).exiting = false)
    (hdooms : (Point.run p').doomed = true → k.dead = true)
    (hlooking : (Point.run p).looking hold = true → (Point.run p').looking hold' = true) :
    RunEffect k k hold hold' p p' :=
  ⟨.refl k, hsync, hworks, .inr rfl, htaking, .inl,
    fun h => absurd (hexiting.symm.trans h) (by simp), hdooms, hlooking⟩

theorem RunMoved.effect {p p' : RunPoint} (hsync : Synced hold (.run p))
    (hs : RunMoved k hold key outcome yields p k' hold' p' task) :
    RunEffect k k' hold hold' p p' := by
  cases hs with
  | refuse h hdead =>
    exact .of_same h nofun nofun rfl (fun _ => hdead)
      nofun
  | enter h hdead =>
    exact .of_same h (fun _ => .inr ⟨rfl, hdead⟩) nofun rfl nofun
      nofun
  | replay h | done | again =>
    exact .of_same hsync (fun _ => .inl rfl) nofun rfl nofun
      nofun
  | take hlife h =>
    exact .of_same rfl (fun _ => .inl rfl) (fun _ h => absurd h hlife) rfl nofun
      nofun
  | pending m rest h =>
    exact ⟨⟨rfl, rfl, rfl, rfl⟩, hsync, fun _ => .inl rfl, .inl rfl, nofun,
      .inl, nofun, nofun, nofun⟩
  | unpend hnil h =>
    exact ⟨⟨rfl, rfl, rfl, rfl⟩, rfl, fun _ => .inl rfl, .inl rfl, fun _ _ => rfl, .inl,
      nofun, nofun, nofun⟩
  | took work h =>
    subst h
    exact .of_same rfl (fun _ => .inl rfl) nofun rfl nofun
      nofun
  | idle h =>
    exact .of_same h nofun nofun rfl nofun
      (fun _ => rfl)
  | work w w' k' task h =>
    obtain ⟨hflags, hfailed, hexit⟩ := workStep_flags h
    exact ⟨hflags, hsync, fun _ => .inl rfl, .inl rfl, nofun, hfailed, hexit,
      nofun, nofun⟩
  | dead hdead =>
    exact .of_same hsync nofun nofun rfl (fun _ => hdead)
      nofun
  | yield h =>
    exact .of_same hsync nofun nofun rfl nofun
      nofun

/-- What a step of `cleanup` does to the flags of the service and to its own point. -/
structure CleanEffect (k k' : Core) (hold hold' : Held) (p p' : CleanPoint) :
    Prop where
  flags : SameFlags k k'
  synced : Synced hold' (.clean p')
  lifecycle : k'.lifecycle = k.lifecycle ∨ k'.lifecycle = .failed
  pending : k'.pending = k.pending ∨ k'.pending = none
  emptied : ((Point.clean p).emptied = true → k.pending = none) →
    (Point.clean p').emptied = true → k'.pending = none
  looking : (Point.clean p).looking hold = true → (Point.clean p').looking hold' = true

theorem cleanStep_effect {p p' : CleanPoint} (hsync : Synced hold (.clean p))
    (hs : cleanStep k hold p = some (k', hold', p')) : CleanEffect k k' hold hold' p p' := by
  cases cleanStep_moved hs with
  | fail | tasks =>
    exact ⟨⟨rfl, rfl, rfl, rfl⟩, hsync, .inl rfl, .inl rfl, nofun,
      nofun⟩
  | drop =>
    exact ⟨.refl k, rfl, .inl rfl, .inl rfl, nofun, nofun⟩
  | box left hhold =>
    exact ⟨⟨rfl, rfl, rfl, rfl⟩, ⟨left, hhold⟩, .inl rfl, .inl rfl, nofun,
      nofun⟩
  | pending =>
    exact ⟨⟨rfl, rfl, rfl, rfl⟩, hsync, .inl rfl, .inr rfl, fun _ _ => rfl,
      nofun⟩
  | init =>
    exact ⟨.refl k, rfl, .inl rfl, .inl rfl, fun h _ => h rfl, nofun⟩
  | uninit =>
    exact ⟨⟨rfl, rfl, rfl, rfl⟩, rfl, .inr rfl, .inl rfl, fun h _ => h rfl,
      nofun⟩
  | again hhold =>
    subst hhold
    exact ⟨.refl k, rfl, .inl rfl, .inl rfl, nofun, nofun⟩
  | finish hhold =>
    exact ⟨.refl k, hhold, .inl rfl, .inl rfl, fun h _ => h rfl, fun _ => rfl⟩

/-- What a worker's step does to the flags of the service and to its own point. -/
structure Effect (k k' : Core) (hold hold' : Held) (p p' : Point)
    (call : Option Delivery) : Prop where
  registered : k'.registered = k.registered
  dead : k'.dead = k.dead
  kept : k.destroyed = true → k'.destroyed = true
  destroys : k'.destroyed = true → k.destroyed = true ∨ p.emptied = true
  removed : k'.removed + (if p'.isAccount then 1 else 0) + k.destroyed.toNat
    = k.removed + (if p.isAccount then 1 else 0) + k'.destroyed.toNat
  synced : Synced hold' p'
  works : working hold' p' = true → working hold p = true ∨ k.dead = false
  lifecycle : working hold p = true ∨ k'.lifecycle = k.lifecycle ∨ k'.lifecycle = .failed
  pending : working hold p = true ∨ k'.pending = k.pending ∨ k'.pending = none
  taking : p' = .run .take → k'.lifecycle = .running → k'.pending = none
  dooms : p'.doomed = true → k.dead = true
  cleans : p'.cleaning = true → p.cleaning = true ∨ hold.holds = true
  emptied : p'.emptied = true → k'.pending = none
  failed : k'.lifecycle = .failed →
    k.lifecycle = .failed ∨ k.dead = true ∨ p'.exiting = true
  exiting : p.exiting = true → k.registered = false
  looking : p.looking hold = true → k.dead = true → k'.destroyed = false →
    p'.looking hold' = true ∨ ∃ q, call = some q ∧ inNotify q = true

theorem Effect.leave {p p' : Point} (hp : p.exiting = false) (haccount : p.isAccount = false)
    (hp' : p' = .out ∨ p' = .yielding ∨ p' = .run .enter) (hsync : Synced hold' p')
    (hlook : p.looking hold = true → k.dead = true → k.destroyed = false → ∃ q, call = some q ∧ inNotify q = true) :
    Effect k k hold hold' p p' call where
  registered := rfl
  dead := rfl
  kept := id
  destroys := .inl
  removed := by rcases hp' with rfl | rfl | rfl <;> rw [haccount] <;> rfl
  synced := hsync
  works := by rcases hp' with rfl | rfl | rfl <;> exact nofun
  lifecycle := .inr (.inl rfl)
  pending := .inr (.inl rfl)
  taking := by rcases hp' with rfl | rfl | rfl <;> exact nofun
  dooms := by rcases hp' with rfl | rfl | rfl <;> exact nofun
  cleans := by rcases hp' with rfl | rfl | rfl <;> exact nofun
  emptied := by rcases hp' with rfl | rfl | rfl <;> exact nofun
  failed := .inl
  exiting := fun h => absurd h (by simp [hp])
  looking := fun hl hd hno => .inr (hlook hl hd hno)

theorem Moved.effect {p p' : Point} (h : Moved k hold key outcome p k' hold' p' call)
    (hsync : Synced hold p) (hdoomed : p.doomed = true → k.dead = true)
    (hempty : p.emptied = true → k.pending = none) :
    Effect k k' hold hold' p p' call := by
  cases h with
  | run p p' k' hold' task yields h =>
    have e := (runStep_moved h).effect hsync
    refine ⟨e.flags.registered, e.flags.dead, fun hd => e.flags.destroyed.trans hd,
      fun hd => .inl (e.flags.destroyed ▸ hd), ?_, e.synced, ?_, ?_, ?_, ?_, e.dooms,
      by rintro ⟨⟩, by rintro ⟨⟩, e.failed, e.exiting,
      fun hl _ _ => .inl (e.looking hl)⟩
    · rw [e.flags.removed, e.flags.destroyed]
      rfl
    · exact fun hw => (e.works hw).imp_right And.right
    · exact e.quiet.imp_right fun heq => .inl (by rw [heq])
    · exact e.quiet.imp_right fun heq => .inl (by rw [heq])
    · exact fun hp => e.taking (Point.run.inj hp)
  | clean p p' k' hold' h =>
    have e := cleanStep_effect hsync h
    refine ⟨e.flags.registered, e.flags.dead, fun hd => e.flags.destroyed.trans hd,
      fun hd => .inl (e.flags.destroyed ▸ hd), ?_, e.synced, by rintro ⟨⟩,
      .inr e.lifecycle, .inr e.pending, by rintro ⟨⟩, fun _ => hdoomed rfl,
      fun _ => .inl rfl, e.emptied hempty, fun _ => .inr (.inl (hdoomed rfl)),
      by rintro ⟨⟩, fun hl _ _ => .inl (e.looking hl)⟩
    rw [e.flags.removed, e.flags.destroyed]
    rfl
  | yield p hp hold' h =>
    have hhold : hold' = .yieldMark := by cases hold <;> simp_all [Mq.enter]
    subst hhold
    rcases hp with rfl | rfl <;>
      exact .leave rfl rfl (.inr (.inl rfl)) (.inl rfl) (by rintro ⟨⟩)
  | yielded h => exact .leave rfl rfl (.inl rfl) h (by rintro ⟨⟩)
  | keep => exact .leave rfl rfl (.inr (.inr rfl)) (.inr hsync) (by rintro ⟨⟩)
  | dead =>
    obtain rfl : hold = .holding := hsync
    exact ⟨rfl, rfl, fun hd => hd, .inl, rfl, rfl, by rintro ⟨⟩, .inr (.inl rfl),
      .inr (.inl rfl), by rintro ⟨⟩, fun _ => hdoomed rfl, fun _ => .inr rfl,
      by rintro ⟨⟩, .inl, by rintro ⟨⟩, by rintro ⟨⟩⟩
  | idle hdead =>
    refine .leave rfl rfl (.inl rfl) hsync fun _ hd _ => ?_
    rw [hdead] at hd
    cases hd
  | again hdead => exact .leave rfl rfl (.inl rfl) hsync fun _ _ _ => ⟨_, rfl, rfl⟩
  | gone hd =>
    refine .leave rfl rfl (.inl rfl) hsync fun _ _ hno => ?_
    rw [hd] at hno
    cases hno
  | destroy hd =>
    refine ⟨rfl, rfl, fun _ => rfl, fun _ => .inr rfl, ?_, hsync, by rintro ⟨⟩,
      .inr (.inl rfl), .inr (.inl rfl), by rintro ⟨⟩, fun _ => hdoomed rfl,
      fun _ => .inl rfl, fun _ => hempty rfl, .inl, by rintro ⟨⟩,
      by rintro - - ⟨⟩⟩
    rw [hd]
    rfl
  | account =>
    refine ⟨rfl, rfl, fun hd => hd, .inl, ?_, hsync, by rintro ⟨⟩,
      .inr (.inl rfl), .inr (.inl rfl), by rintro ⟨⟩, by rintro ⟨⟩,
      by rintro ⟨⟩, by rintro ⟨⟩, .inl, by rintro ⟨⟩,
      by rintro ⟨⟩⟩
    rfl

end Worker

end Rskynet.Service
