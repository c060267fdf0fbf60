import Rskynet.Mq.Mailbox

/-!
# The length counter of a mailbox

`len` is changed before a message enters the queue and after it leaves it, so it agrees with the queue up to
the messages that are on their way in or just taken out.

* `reachable_counted` — **PROVED**: so it is in every reachable configuration;
* `len_eq_of_quiet` — **PROVED**: with nobody on the way, the counter is the length of the queue.
-/

namespace Rskynet.Mq

open Interleave Option

variable {μ ρ ι : Type*}

def Call.pushing : Call μ ρ → Bool
  | .queuePush _ => true
  | _ => false

def Hold.popped : Hold μ ρ → Bool
  | .clearStreak _ => true
  | .lenSub _ => true
  | .drainLen _ _ => true
  | _ => false

/-- **The counter agrees with the queue.** -/
def Counted [Fintype ι] (c : Config μ ρ ι) : Prop :=
  c.box.len = c.box.queue.length + tally c.call Call.pushing + tally c.hold Hold.popped

theorem notifyNext_pushing (pushed : Bool) (s : BoxState) :
    (notifyNext (μ := μ) (ρ := ρ) pushed s).pushing = false := by
  cases s <;> rfl

theorem callStep_count {b b' : Mailbox μ ρ} {e e' : ℕ} {p p' : Call μ ρ}
    (h : callStep b e p = some (b', e', p')) :
    b'.len + b.queue.length + (if p.pushing then 1 else 0)
      = b.len + b'.queue.length + (if p'.pushing then 1 else 0) := by
  cases p with
  | idle => cases h
  | lenAdd | queuePush =>
    cases h
    simp [Call.pushing]
    omega
  | readyPush | pushMark | pushInsert =>
    cases h
    rfl
  | notifyLoad pushed =>
    cases h
    rw [notifyNext_pushing]
    rfl
  | casIdle | casRunning =>
    simp only [callStep] at h
    split at h <;> cases h
    · rfl
    · rw [notifyNext_pushing]
      rfl

theorem holdStep_count {b b' : Mailbox μ ρ} {e e' : ℕ} {p p' : Hold μ ρ}
    (hpos : p.popped = true → 1 ≤ b.len) (h : holdStep b e p = some (b', e', p')) :
    b'.len + b.queue.length + (if p.popped then 1 else 0)
      = b.len + b'.queue.length + (if p'.popped then 1 else 0) := by
  cases p with
  | lenSub | drainLen =>
    cases h
    have hle := hpos rfl
    simp only [Hold.popped, if_true]
    simp
    omega
  | takeBurst | takeQueue | drainQueue =>
    simp only [holdStep] at h
    split at h <;> rename_i hqueue <;> cases h <;> simp [Hold.popped, hqueue]
    omega
  | takeStreak | takeReady | loadThreshold | takeCas | drainReady | releaseCas =>
    simp only [holdStep] at h
    split at h <;> cases h <;> rfl
  | _ => cases h <;> rfl

section Runs

variable [Fintype ι] [DecidableEq ι] {c c' : Config μ ρ ι}

theorem enter_popped {k : Choice} {p p' : Hold μ ρ} (h : enter k p = some p') :
    p.popped = false ∧ p'.popped = false := by
  cases k <;> cases p <;> cases h <;> exact ⟨rfl, rfl⟩

theorem counted_deliver {t : ι} {p : Call μ ρ} (h : Counted c) (hp : p.pushing = false)
    (hs : c.deliver t p = some c') : Counted c' := by
  unfold Config.deliver at hs
  split at hs
  · rename_i hidle
    obtain rfl := some.inj hs
    have hold : (c.call t).pushing = false := by
      cases hcall : c.call t with
      | idle => rfl
      | _ =>
        rw [hcall] at hidle
        cases hidle
    have hsame : tally (Function.update c.call t p) Call.pushing = tally c.call Call.pushing :=
      tally_update_of_eq c.call t p Call.pushing (hp.trans hold.symm)
    unfold Counted at h ⊢
    simp only
    omega
  · cases hs

theorem counted_step (h : Counted c) (hs : Step c c') : Counted c' := by
  obtain ⟨a, ha⟩ := hs
  cases a with
  | send | wake | kill => exact counted_deliver h rfl ha
  | call t =>
    obtain ⟨⟨b, e, p⟩, hstep, rfl⟩ := map_eq_some_iff.mp ha
    have hcount := callStep_count hstep
    have hmove := tally_update c.call t p Call.pushing
    unfold Counted at h ⊢
    simp only
    omega
  | callFail t =>
    obtain ⟨p, hfail, rfl⟩ := map_eq_some_iff.mp ha
    have hsame : p.pushing = (c.call t).pushing := by
      cases hcall : c.call t with
      | casIdle | casRunning =>
        rw [hcall] at hfail
        cases hfail
        exact notifyNext_pushing _ _
      | _ =>
        rw [hcall] at hfail
        cases hfail
    have hmove := tally_update_of_eq c.call t p Call.pushing hsame
    unfold Counted at h ⊢
    simp only
    omega
  | pop t =>
    simp only [act] at ha
    split at ha
    · rename_i hguard
      obtain rfl := some.inj ha
      have hnone : (c.hold t).popped = false := by
        simp only [Bool.and_eq_true] at hguard
        cases hhold : c.hold t with
        | none => rfl
        | _ =>
          rw [hhold] at hguard
          cases hguard.1.2
      have hmove := tally_update_of_eq c.hold t .markRunning Hold.popped hnone.symm
      unfold Counted at h ⊢
      simp only
      omega
    · cases ha
  | choose t k =>
    simp only [act] at ha
    split at ha
    · obtain ⟨p, hp, rfl⟩ := map_eq_some_iff.mp ha
      obtain ⟨hold, hnew⟩ := enter_popped hp
      have hmove := tally_update_of_eq c.hold t p Hold.popped (hnew.trans hold.symm)
      unfold Counted at h ⊢
      simp only
      omega
    · cases ha
  | hold t =>
    simp only [act] at ha
    split at ha
    · obtain ⟨⟨b, e, p⟩, hstep, rfl⟩ := map_eq_some_iff.mp ha
      unfold Counted at h ⊢
      have hpos : (c.hold t).popped = true → 1 ≤ c.box.len := by
        intro hpopped
        have := tally_pos (f := c.hold) hpopped
        omega
      have hcount := holdStep_count hpos hstep
      have hmove := tally_update c.hold t p Hold.popped
      simp only
      omega
    · cases ha

theorem counted_start (creator : ι) (ready : List ρ) : Counted (Config.start (μ := μ) creator ready) := by
  have hcall : tally (Config.start (μ := μ) creator ready).call Call.pushing = 0 := by
    have hmove := tally_update_of_eq (fun _ : ι => (Call.idle : Call μ ρ)) creator .pushMark Call.pushing rfl
    refine hmove.trans ?_
    simp [tally, Call.pushing]
  have hhold : tally (Config.start (μ := μ) creator ready).hold Hold.popped = 0 := by
    simp [tally, Config.start, Hold.popped]
  unfold Counted
  rw [hcall, hhold]
  rfl

theorem reachable_counted {creator : ι} {ready : List ρ} (hrun : Reachable creator ready c) : Counted c :=
  hrun.invariant (counted_start creator ready) fun _ _ h hs => counted_step h hs

theorem len_eq_of_quiet {creator : ι} {ready : List ρ} (hrun : Reachable creator ready c)
    (hcall : ∀ t, (c.call t).pushing = false) (hhold : ∀ t, (c.hold t).popped = false) :
    c.box.len = c.box.queue.length := by
  have hcounted := reachable_counted hrun
  unfold Counted at hcounted
  have h₁ : tally c.call Call.pushing = 0 := by simp [tally, hcall]
  have h₂ : tally c.hold Hold.popped = 0 := by simp [tally, hhold]
  omega

end Runs

end Rskynet.Mq
