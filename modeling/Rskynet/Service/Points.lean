import Rskynet.Service.Shared

/-!
# The program points of the threads of a shared service

The points of a worker fit the points of its mailbox operations, and some of them stand for a
promise: to execute the service, to destroy it, or to see that somebody does.
-/

namespace Rskynet.Service

variable {ι : Type*}
variable {p : Point}

/-! ### Program points -/

def taking : Held → Bool
  | .takeStreak => true
  | .takeBurst _ => true
  | .takeReady _ => true
  | .storeStreak _ _ => true
  | .takeQueue => true
  | .clearStreak _ => true
  | .lenSub _ => true
  | .loadThreshold _ _ => true
  | .storeOverload _ _ _ => true
  | .storeThreshold _ _ => true
  | .took _ => true
  | .takeCas => true
  | .takeReset => true
  | .resetThreshold => true
  | .none => true
  | .panicked => true
  | _ => false

def draining : Held → Bool
  | .drainReady => true
  | .drainQueue _ => true
  | .drainLen _ _ => true
  | .drained _ => true
  | _ => false

def releasing : Held → Bool
  | .releaseCas => true
  | .releaseReset => true
  | .holding => true
  | .none => true
  | .panicked => true
  | _ => false

/-- The mailbox operation a worker can be in at each of its points. -/
def Synced (hold : Held) : Point → Prop
  | .out => hold = .none
  | .run .enter => hold = .markRunning ∨ hold = .holding
  | .run .take => taking hold = true
  | .run (.ran .idle) => hold = .none
  | .run _ => hold = .holding
  | .yielding => hold = .yieldMark ∨ hold = .yieldInsert ∨ hold = .none
  | .clean .box => draining hold = true
  | .clean .pending => ∃ left, hold = .drained left
  | .clean .init => ∃ left, hold = .drained left
  | .clean .release => releasing hold = true
  | .clean .finished => hold = .none
  | .clean _ => hold = .holding
  | .account => hold = .none

def working (hold : Held) : Point → Bool
  | .run .loop => true
  | .run .takePending => true
  | .run .take => hold.holds
  | .run (.work _) => true
  | .run .check => true
  | _ => false

def Point.doomed : Point → Bool
  | .run (.ran .dead) => true
  | .clean _ => true
  | .account => true
  | _ => false

def Point.cleaning : Point → Bool
  | .clean _ => true
  | .account => true
  | _ => false

def Point.emptied : Point → Bool
  | .clean .init => true
  | .clean .release => true
  | .clean .finished => true
  | .account => true
  | _ => false

def Point.exiting : Point → Bool
  | .run (.work (.initExit _)) => true
  | _ => false

def Point.isAccount : Point → Bool
  | .account => true
  | _ => false

def Inner.marking : Inner → Bool
  | .markDead _ => true
  | _ => false

def Inner.prompting : Inner → Bool
  | .failInflight _ => true
  | .notify _ => true
  | _ => false

def inNotify : Delivery → Bool
  | .notifyLoad _ => true
  | .casIdle _ => true
  | .casRunning _ => true
  | _ => false

/-- The worker has let go of the service and has still to look whether it is dead, or has cleaned
it up and has still to set `destroyed`. -/
def Point.looking (hold : Held) : Point → Bool
  | .run .take => !hold.holds
  | .run (.ran .idle) => true
  | .clean .release => !hold.holds
  | .clean .finished => true
  | _ => false

def Prompt (c : Config ι) (t : ι) : Prop :=
  (c.inner t).prompting = true ∨ inNotify (c.box.call t) = true ∨
    (c.point t).looking (c.box.hold t) = true

theorem holds_of_working {hold : Held} (hsync : Synced hold p)
    (h : working hold p = true) : hold.holds = true := by
  cases p with
  | run r =>
    cases r with
    | take => exact h
    | enter | ran => cases h
    | loop | takePending | work | check => exact (show hold = .holding from hsync) ▸ rfl
  | _ => cases h

theorem doomed_of_cleaning (h : p.cleaning = true) : p.doomed = true := by
  cases p <;> first | rfl | cases h

theorem cleaning_of_emptied (h : p.emptied = true) : p.cleaning = true := by
  cases p <;> first | rfl | cases h

/-! ### One step of a mailbox operation -/

section Box

variable {b b' : Box} {e e' : ℕ} {hold hold' : Held}
  {call call' : Delivery}

/-- A holder stays in the take, the drain or the release it is in. -/
theorem holdStep_phase (hs : Mq.holdStep b e hold = some (b', e', hold')) :
    (taking hold = true → taking hold' = true) ∧ (draining hold = true → draining hold' = true) ∧
      (releasing hold = true → releasing hold' = true) := by
  cases hold <;> simp only [Mq.holdStep] at hs <;>
    first
      | (obtain ⟨-, -, rfl⟩ := hs
         refine ⟨?_, ?_, ?_⟩ <;> intro h <;> first | rfl | cases h)
      | ((repeat' split at hs) <;> obtain ⟨-, -, rfl⟩ := hs <;>
         refine ⟨?_, ?_, ?_⟩ <;> intro h <;> first | rfl | cases h)

theorem synced_holdStep (hsync : Synced hold p) (hs : Mq.holdStep b e hold = some (b', e', hold')) :
    Synced hold' p := by
  have hno : hold ≠ .none ∧ hold ≠ .holding ∧ ∀ left, hold ≠ .drained left := by
    refine ⟨?_, ?_, ?_⟩
    · rintro rfl
      cases hs
    · rintro rfl
      cases hs
    · rintro left rfl
      cases hs
  obtain ⟨htake, hdrain, hrelease⟩ := holdStep_phase hs
  cases p with
  | out => exact absurd hsync hno.1
  | run r =>
    cases r with
    | enter =>
      rcases hsync with rfl | rfl
      · cases hs
        exact .inr rfl
      · exact absurd rfl hno.2.1
    | take => exact htake hsync
    | ran result =>
      cases result with
      | idle => exact absurd hsync hno.1
      | dead | yielded => exact absurd hsync hno.2.1
    | loop | takePending | work | check => exact absurd hsync hno.2.1
  | yielding =>
    rcases hsync with rfl | rfl | rfl
    · cases hs
      exact .inr (.inl rfl)
    · cases hs
      exact .inr (.inr rfl)
    · exact absurd rfl hno.1
  | clean r =>
    cases r with
    | box => exact hdrain hsync
    | release => exact hrelease hsync
    | pending | init => exact (hsync.elim fun left h => hno.2.2 left h).elim
    | finished => exact absurd hsync hno.1
    | fail | tasks | drop => exact absurd hsync hno.2.1
  | account => exact absurd hsync hno.1

theorem holdStep_idle (hs : Mq.holdStep b e hold = some (b', e', hold'))
    (hidle : b'.state = .idle) :
    b.state = .idle ∨ (hold = .takeCas ∧ hold' = .resetThreshold) ∨
      (hold = .releaseCas ∧ hold' = .none) := by
  cases hold <;> simp only [Mq.holdStep] at hs <;>
    first
      | (obtain ⟨rfl, -, -⟩ := hs; first | exact .inl hidle | cases hidle)
      | ((repeat' split at hs) <;> obtain ⟨rfl, -, rfl⟩ := hs <;>
          first
            | exact .inl hidle
            | exact .inr (.inl ⟨rfl, rfl⟩)
            | exact .inr (.inr ⟨rfl, rfl⟩))

theorem holdStep_holds (hs : Mq.holdStep b e hold = some (b', e', hold'))
    (h : hold'.holds = true) : hold.holds = true ∨ hold = .markRunning := by
  cases hold <;> simp only [Mq.holdStep] at hs <;>
    first
      | exact .inl rfl
      | exact .inr rfl
      | (obtain ⟨-, -, rfl⟩ := hs; cases h)
      | cases hs

theorem notifyNext_prompt (pushed : Bool) (s : Mq.BoxState) :
    inNotify (Mq.notifyNext pushed s) = true ∨ s ≠ .idle := by
  cases s <;> simp [Mq.notifyNext, inNotify]

theorem callStep_notify (hs : Mq.callStep b e call = some (b', e', call')) :
    (inNotify call = true → inNotify call' = true ∨ b'.state ≠ .idle) ∧
    (b.state ≠ .idle → b'.state ≠ .idle) := by
  cases call with
  | idle => cases hs
  | lenAdd | queuePush | readyPush | pushInsert =>
    cases hs
    exact ⟨fun h => absurd h (by simp [inNotify]), fun h => h⟩
  | notifyLoad pushed =>
    cases hs
    exact ⟨fun _ => notifyNext_prompt pushed _, fun h => h⟩
  | casIdle pushed | casRunning pushed =>
    simp only [Mq.callStep] at hs
    split at hs
    · cases hs
      exact ⟨fun _ => .inr (by simp), fun _ => by simp⟩
    · cases hs
      exact ⟨fun _ => notifyNext_prompt pushed _, fun h => h⟩
  | pushMark =>
    cases hs
    exact ⟨fun h => absurd h (by simp [inNotify]), fun _ => by simp⟩

theorem callFail_notify (hs : Mq.callFail b call = some call') :
    inNotify call = true → inNotify call' = true ∨ b.state ≠ .idle := by
  intro _
  cases call <;> simp only [Mq.callFail] at hs <;>
    first
      | (obtain rfl := Option.some.inj hs; exact notifyNext_prompt _ _)
      | cases hs

theorem point_of_cas (h : Synced hold p) :
    (hold = .takeCas → p = .run .take) ∧ (hold = .releaseCas → p = .clean .release) := by
  constructor
  all_goals
    rintro rfl
    cases p with
    | run r =>
      cases r with
      | take => first | rfl | cases h
      | ran r => cases r <;> cases h
      | enter => rcases h with h | h <;> cases h
      | _ => cases h
    | yielding => rcases h with h | h | h <;> cases h
    | clean r =>
      cases r with
      | release => first | rfl | cases h
      | pending | init => exact h.elim nofun
      | _ => cases h
    | _ => cases h

theorem looking_holdStep {h₀ h₁ : Held} (hsync : Synced h₀ p)
    (hs : Mq.holdStep b e h₀ = some (b', e', h₁)) (hl : p.looking h₀ = true) :
    p.looking h₁ = true := by
  have hgone : h₀.holds = false → h₀ ≠ .markRunning → h₁.holds = false := by
    intro hno hm
    by_contra hh
    rcases holdStep_holds hs (by simpa using hh) with hh' | hm'
    · exact absurd (hno.symm.trans hh') (by simp)
    · exact hm hm'
  cases p with
  | run r =>
    cases r with
    | take =>
      have hno : h₀.holds = false := by simpa [Point.looking] using hl
      have hm : h₀ ≠ .markRunning := by
        rintro rfl
        cases hsync
      simp [Point.looking, hgone hno hm]
    | ran result => cases result <;> exact hl
    | _ => exact hl
  | clean r =>
    cases r with
    | release =>
      have hno : h₀.holds = false := by simpa [Point.looking] using hl
      have hm : h₀ ≠ .markRunning := by
        rintro rfl
        cases hsync
      simp [Point.looking, hgone hno hm]
    | _ => exact hl
  | _ => exact hl

end Box

/-! ### Threads -/

section Threads

variable {c c' : Config ι} {t : ι}

theorem prompt_congr (hinner : c'.inner t = c.inner t) (hcall : c'.box.call t = c.box.call t)
    (hpoint : c'.point t = c.point t) (hhold : c'.box.hold t = c.box.hold t) (h : Prompt c t) :
    Prompt c' t := by
  unfold Prompt at h ⊢
  rw [hinner, hcall, hpoint, hhold]
  exact h

theorem looking_of_prompt (hfree : c.free t = true) (h : Prompt c t) :
    (c.point t).looking (c.box.hold t) = true := by
  simp only [Config.free, Bool.and_eq_true] at hfree
  rcases h with h | h | h
  · cases hi : c.inner t <;> simp_all [Inner.isNone, Inner.prompting]
  · cases hc : c.box.call t <;> simp_all [Mq.Call.isIdle, inNotify]
  · exact h

theorem not_marking_of_free (hfree : c.free t = true) : (c.inner t).marking = false := by
  simp only [Config.free, Bool.and_eq_true] at hfree
  cases hi : c.inner t <;> simp_all [Inner.isNone, Inner.marking]

theorem not_working_of_cleaning {hold : Held} (h : p.cleaning = true) :
    working hold p = false := by
  cases p <;> first | rfl | cases h

end Threads

end Rskynet.Service
