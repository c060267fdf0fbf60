import Rskynet.Mq.Mailbox

/-!
# Who owns a service, and why no work is stranded

The state byte is compared with two counts that the code does not keep: the tokens of the
service (its run-queue entries and the threads about to insert or to mark one) and its
holders. `Balanced` fixes both for each value of the byte. Stranded work is excluded by
what the holder has seen: once it found a queue empty, anything in that queue was put there
by a delivery that is still to notify or has already left `NOTIFIED` behind.

* `mailbox_ownership` — **PROVED**: the three states of ownership, in every reachable
  configuration.
-/

namespace Rskynet.Mq

open Function (update update_self)
open Option Interleave Finset

variable {pushed : Bool}

variable {μ ρ ι : Type*}
variable {b : Mailbox μ ρ} {p : Hold μ ρ} {t : ι}

/-! ### Counting threads -/

def Call.inserting : Call μ ρ → Bool
  | .pushMark => true
  | .pushInsert => true
  | _ => false

def Call.notifying : Call μ ρ → Bool
  | .notifyLoad pushed => pushed
  | .casIdle pushed => pushed
  | .casRunning pushed => pushed
  | _ => false

def Hold.moving : Hold μ ρ → Bool
  | .markRunning => true
  | .yieldInsert => true
  | _ => false

/-- The worker holds the service: it is between `mark_running` and its successful
compare-and-swap to `IDLE` or its `mark_queued`. -/
def Hold.holds : Hold μ ρ → Bool
  | .none => false
  | .panicked => false
  | .markRunning => false
  | .resetThreshold => false
  | .yieldInsert => false
  | _ => true

section Counts

variable [Fintype ι]

/-- The run-queue entries of the service, with those in the hands of a thread. -/
def tokens (c : Config μ ρ ι) : ℕ :=
  c.entries + Interleave.tally c.call Call.inserting + Interleave.tally c.hold Hold.moving

def holders (c : Config μ ρ ι) : ℕ := Interleave.tally c.hold Hold.holds

def notifiers (c : Config μ ρ ι) : ℕ := Interleave.tally c.call Call.notifying

end Counts

/-- The tokens and holders that each value of the state byte stands for. -/
def Balanced : BoxState → ℕ → ℕ → Prop
  | .idle, tokens, holders => tokens = 0 ∧ holders = 0
  | .queued, tokens, holders => tokens = 1 ∧ holders = 0
  | .running, tokens, holders => tokens = 0 ∧ holders = 1
  | .notified, tokens, holders => tokens = 0 ∧ holders = 1

theorem Balanced.queued_of_token {s : BoxState} {n k : ℕ} (h : Balanced s n k) (hn : 0 < n) :
    s = .queued ∧ n = 1 ∧ k = 0 := by
  cases s <;> simp only [Balanced] at h <;> simp <;> omega

theorem Balanced.held_of_holder {s : BoxState} {n k : ℕ} (h : Balanced s n k) (hk : 0 < k) :
    (s = .running ∨ s = .notified) ∧ n = 0 ∧ k = 1 := by
  cases s <;> simp only [Balanced] at h <;> simp <;> omega

/-- What a worker knows at each program point.  `covered` says that somebody is going to make
the worker look again: the byte is `NOTIFIED` or a delivery has still to notify. -/
def Seen (b : Mailbox μ ρ) (covered : Prop) : Hold μ ρ → Prop
  | .panicked => False
  | .takeQueue => b.ready = [] ∨ covered
  | .takeCas => (b.queue = [] ∧ b.ready = []) ∨ covered
  | .drainQueue _ => b.ready = [] ∨ covered
  | .drainLen _ _ => b.ready = [] ∨ covered
  | .drained _ => (b.queue = [] ∧ b.ready = []) ∨ covered
  | .releaseCas => (b.queue = [] ∧ b.ready = []) ∨ covered
  | _ => True

theorem Seen.mono {b' : Mailbox μ ρ} {P Q : Prop} (h : Seen b P p) (hcov : P → Q)
    (hready : b.ready = [] → b'.ready = [] ∨ Q) (hqueue : b.queue = [] → b'.queue = [] ∨ Q) :
    Seen b' Q p := by
  cases p <;> simp only [Seen] at h ⊢ <;> tauto

theorem Seen.of_not_holds {b' : Mailbox μ ρ} {P Q : Prop} (h : Seen b P p) (hp : p.holds = false) :
    Seen b' Q p := by
  cases p <;> simp_all [Seen, Hold.holds]

theorem seen_update [DecidableEq ι] {hold : ι → Hold μ ρ} {P : Prop} (hself : Seen b P p)
    (hothers : ∀ t', t' ≠ t → Seen b P (hold t')) (t' : ι) : Seen b P (update hold t p t') :=
  (Function.forall_update_iff hold fun _ x => Seen b P x).mpr ⟨hself, hothers⟩ t'

section Invariant

variable [Fintype ι]

/-- Somebody is going to make the holder look again. -/
def Covered (c : Config μ ρ ι) : Prop := c.box.state = .notified ∨ 0 < notifiers c

structure Inv (c : Config μ ρ ι) : Prop where
  balanced : Balanced c.box.state (tokens c) (holders c)
  seen : ∀ t, Seen c.box (Covered c) (c.hold t)
  rest : c.box.state = .idle → (c.box.queue = [] ∧ c.box.ready = []) ∨ 0 < notifiers c

namespace Inv

variable {c : Config μ ρ ι} [DecidableEq ι]

omit [DecidableEq ι] in
theorem holds_pos (ht : (c.hold t).holds = true) : 0 < holders c :=
  tally_pos (i := t) ht

omit [DecidableEq ι] in
theorem sole_holder (h : Inv c) (ht : (c.hold t).holds = true) :
    (c.box.state = .running ∨ c.box.state = .notified) ∧ tokens c = 0 ∧ holders c = 1 ∧
      ∀ t', t' ≠ t → (c.hold t').holds = false := by
  obtain ⟨hs, hn, hk⟩ := h.balanced.held_of_holder (holds_pos ht)
  refine ⟨hs, hn, hk, ?_⟩
  intro t' hne
  by_contra ht'
  exact hne (tally_eq_one_unique hk (by simpa using ht') ht)

/-! ### Deliveries -/

/-- A delivery step that leaves the byte alone: no token appears or vanishes, what it puts into
a queue it will notify about, and it ends only on a byte that speaks for it. -/
theorem call_quiet (h : Inv c) {e : ℕ} {p : Call μ ρ} (hstate : b.state = c.box.state)
    (htok : e + (if p.inserting then 1 else 0) = c.entries + (if (c.call t).inserting then 1 else 0))
    (hnot : (c.call t).notifying = true → p.notifying = true ∨ (c.box.state = .queued ∨ c.box.state = .notified))
    (hqueue : b.queue = c.box.queue ∨ p.notifying = true)
    (hready : b.ready = c.box.ready ∨ p.notifying = true) :
    Inv { c with box := b, entries := e, call := update c.call t p } := by
  have hins := tally_update c.call t p Call.inserting
  have hupd := tally_update c.call t p Call.notifying
  have hp : p.notifying = true →
      0 < tally (update c.call t p) Call.notifying := by
    intro hp
    refine tally_pos (i := t) ?_
    rw [update_self]
    exact hp
  have hcov : 0 < notifiers c → 0 < tally (update c.call t p) Call.notifying ∨
      (c.box.state = .queued ∨ c.box.state = .notified) := by
    intro hpos
    by_cases hold : (c.call t).notifying = true
    · rcases hnot hold with hpn | hs
      · exact .inl (hp hpn)
      · exact .inr hs
    · rw [if_neg hold] at hupd
      unfold notifiers at hpos
      exact .inl (by omega)
  refine ⟨?_, ?_, ?_⟩
  · show Balanced b.state (e + tally (update c.call t p) Call.inserting
      + tally c.hold Hold.moving) (holders c)
    have hb := h.balanced
    have heq : e + tally (update c.call t p) Call.inserting
        + tally c.hold Hold.moving = tokens c := by
      unfold tokens
      omega
    rw [hstate, heq]
    exact hb
  · intro t'
    by_cases hq : c.box.state = .queued
    · have hb := h.balanced
      rw [hq] at hb
      exact (h.seen t').of_not_holds (tally_eq_zero hb.2 t')
    · refine (h.seen t').mono ?_ ?_ ?_
      · rintro (hs | hpos)
        · exact .inl (hstate.trans hs)
        · rcases hcov hpos with hpos' | hs | hs
          · exact .inr hpos'
          · exact absurd hs hq
          · exact .inl (hstate.trans hs)
      · intro hr
        exact hready.imp (fun he => he.trans hr) (fun hpn => .inr (hp hpn))
      · intro hr
        exact hqueue.imp (fun he => he.trans hr) (fun hpn => .inr (hp hpn))
  · intro hidle
    have hidle' : c.box.state = .idle := hstate.symm.trans hidle
    rcases h.rest hidle' with ⟨hq, hr⟩ | hpos
    · rcases hqueue with he | hpn
      · exact hready.imp (fun he' => ⟨he.trans hq, he'.trans hr⟩) hp
      · exact .inr (hp hpn)
    · rcases hcov hpos with hpos' | hs | hs
      · exact .inr hpos'
      · exact absurd (hs.symm.trans hidle') (by simp)
      · exact absurd (hs.symm.trans hidle') (by simp)

omit [Fintype ι] [DecidableEq ι] in
theorem notifyNext_inserting (pushed : Bool) (s : BoxState) :
    (notifyNext pushed s : Call μ ρ).inserting = false := by
  cases s <;> rfl

omit [Fintype ι] [DecidableEq ι] in
theorem notifyNext_notifying (hp : pushed = true) (s : BoxState) :
    (notifyNext pushed s : Call μ ρ).notifying = true ∨ (s = .queued ∨ s = .notified) := by
  subst hp
  cases s <;> simp [notifyNext, Call.notifying]

theorem call_again (h : Inv c) (hins : (c.call t).inserting = false)
    (hnot : (c.call t).notifying = pushed) :
    Inv { c with call := update c.call t (notifyNext pushed c.box.state) } := by
  refine h.call_quiet rfl ?_ ?_ (.inl rfl) (.inl rfl)
  · rw [notifyNext_inserting, hins]
  · intro hp
    exact notifyNext_notifying (hnot.symm.trans hp) _

theorem call_claim (h : Inv c) (hpc : c.call t = .casIdle pushed) (hidle : c.box.state = .idle) :
    Inv { c with box := { c.box with state := .queued },
                 call := update c.call t .pushMark } := by
  have hins := tally_update c.call t .pushMark Call.inserting
  have hb := h.balanced
  rw [hidle] at hb
  simp [hpc, Call.inserting] at hins
  refine ⟨⟨?_, hb.2⟩, ?_, ?_⟩
  · show c.entries + tally (update c.call t .pushMark) Call.inserting
      + tally c.hold Hold.moving = 1
    have htok := hb.1
    unfold tokens at htok
    omega
  · intro t'
    exact (h.seen t').of_not_holds (tally_eq_zero hb.2 t')
  · intro hs
    cases hs

theorem call_notify (h : Inv c) (hpc : c.call t = .casRunning pushed)
    (hrun : c.box.state = .running) :
    Inv { c with box := { c.box with state := .notified },
                 call := update c.call t .idle } := by
  have hb := h.balanced
  rw [hrun] at hb
  refine ⟨⟨?_, hb.2⟩, ?_, ?_⟩
  · show c.entries + tally (update c.call t .idle) Call.inserting
      + tally c.hold Hold.moving = 0
    rw [tally_update_of_eq c.call t .idle _ (by rw [hpc]; rfl)]
    exact hb.1
  · intro t'
    exact (h.seen t').mono (fun _ => .inl rfl) (fun hr => .inl hr) (fun hq => .inl hq)
  · intro hs
    cases hs

/-- **Deliveries preserve the invariant.** -/
theorem call (h : Inv c) {e : ℕ} {p : Call μ ρ}
    (hs : callStep c.box c.entries (c.call t) = some (b, e, p)) :
    Inv { c with box := b, entries := e, call := update c.call t p } := by
  cases hpc : c.call t with
  | idle =>
    rw [hpc] at hs
    cases hs
  | lenAdd | pushInsert =>
    rw [hpc] at hs
    cases hs
    exact h.call_quiet rfl (by rw [hpc]; rfl) (by simp [hpc, Call.notifying]) (.inl rfl)
      (.inl rfl)
  | queuePush m =>
    rw [hpc] at hs
    cases hs
    exact h.call_quiet rfl (by rw [hpc]; rfl) (fun _ => .inl rfl) (.inr rfl) (.inl rfl)
  | readyPush r =>
    rw [hpc] at hs
    cases hs
    exact h.call_quiet rfl (by rw [hpc]; rfl) (fun _ => .inl rfl) (.inl rfl) (.inr rfl)
  | notifyLoad pushed =>
    rw [hpc] at hs
    cases hs
    exact h.call_again (by rw [hpc]; rfl) (by rw [hpc]; rfl)
  | casIdle pushed =>
    rw [hpc] at hs
    simp only [callStep] at hs
    split at hs
    · next hidle =>
      cases hs
      exact h.call_claim hpc hidle
    · cases hs
      exact h.call_again (by rw [hpc]; rfl) (by rw [hpc]; rfl)
  | casRunning pushed =>
    rw [hpc] at hs
    simp only [callStep] at hs
    split at hs
    · next hrun =>
      cases hs
      exact h.call_notify hpc hrun
    · cases hs
      exact h.call_again (by rw [hpc]; rfl) (by rw [hpc]; rfl)
  | pushMark =>
    rw [hpc] at hs
    cases hs
    -- the thread is the token, so the byte is `QUEUED` already
    have hpos := tally_pos (f := c.call) (P := Call.inserting) (i := t)
      (by rw [hpc]; rfl)
    have hq := (h.balanced.queued_of_token (by unfold tokens; omega)).1
    exact h.call_quiet hq.symm (by rw [hpc]; rfl) (by simp [hpc, Call.notifying]) (.inl rfl)
      (.inl rfl)

/-! ### The worker -/

/-- The only thread that can hold the service moves, and the byte does not become `IDLE`. -/
theorem turn (h : Inv c) (hothers : ∀ t', t' ≠ t → (c.hold t').holds = false)
    (hbal : Balanced b.state (c.entries + tally c.call Call.inserting
      + tally (update c.hold t p) Hold.moving) (tally (update c.hold t p) Hold.holds))
    (hseen : Seen b (b.state = .notified ∨ 0 < notifiers c) p) (hbusy : b.state ≠ .idle) :
    Inv { c with box := b, hold := update c.hold t p } :=
  ⟨hbal, seen_update hseen fun t' htt => (h.seen t').of_not_holds (hothers t' htt),
    fun hs => absurd hs hbusy⟩

/-- The holder goes on holding.  It may look into the queues and take from them, and the only
value it writes into the byte is `RUNNING`. -/
theorem keep (h : Inv c) (ht : (c.hold t).holds = true) (hp : p.holds = true)
    (hstate : b.state = c.box.state ∨ b.state = .running)
    (hseen : Seen b (b.state = .notified ∨ 0 < notifiers c) p) :
    Inv { c with box := b, hold := update c.hold t p } := by
  obtain ⟨hs, htok, hone, hothers⟩ := h.sole_holder ht
  have hmoving : ∀ x : Hold μ ρ, x.holds = true → x.moving = false := by
    intro x hx
    cases x <;> simp_all [Hold.holds, Hold.moving]
  have hb : b.state = .running ∨ b.state = .notified := by
    rcases hstate with he | he
    · rw [he]; exact hs
    · exact .inl he
  refine h.turn hothers ?_ hseen ?_
  · rw [tally_update_of_eq c.hold t p _ ((hmoving p hp).trans (hmoving _ ht).symm),
      tally_update_of_eq c.hold t p _ (hp.trans ht.symm)]
    rcases hb with he | he <;> rw [he] <;> exact ⟨htok, hone⟩
  · rcases hb with he | he <;> simp [he]

theorem letGo (h : Inv c) (ht : (c.hold t).holds = true) (hp : p.holds = false)
    (hm : p.moving = false) (hpanic : ∀ b P, Seen b P p) (hrun : c.box.state = .running)
    (hseen : (c.box.queue = [] ∧ c.box.ready = []) ∨ Covered c) :
    Inv { c with box := { c.box with state := .idle }, hold := update c.hold t p } := by
  obtain ⟨-, htok, hone, hothers⟩ := h.sole_holder ht
  have hm' : (c.hold t).moving = false := by
    revert ht
    cases c.hold t <;> simp [Hold.holds, Hold.moving]
  have hcount := tally_update c.hold t p Hold.holds
  rw [ht, hp] at hcount
  refine ⟨⟨?_, ?_⟩, ?_, ?_⟩
  · show c.entries + tally c.call Call.inserting
      + tally (update c.hold t p) Hold.moving = 0
    rw [tally_update_of_eq c.hold t p _ (hm.trans hm'.symm)]
    exact htok
  · show tally (update c.hold t p) Hold.holds = 0
    unfold holders at hone
    simp at hcount
    omega
  · exact seen_update (hpanic _ _) fun t' htt => (h.seen t').of_not_holds (hothers t' htt)
  · intro _
    rcases hseen with hempty | hs | hpos
    · exact .inl hempty
    · exact absurd (hs.symm.trans hrun) (by simp)
    · exact .inr hpos

theorem moveOutside (h : Inv c) (ht : (c.hold t).holds = false) {e : ℕ} (hp : p.holds = false)
    (hpanic : ∀ b P, Seen b P p) (hstate : b.state = c.box.state) (hqueue : b.queue = c.box.queue)
    (hready : b.ready = c.box.ready)
    (htok : e + (if p.moving then 1 else 0) = c.entries + (if (c.hold t).moving then 1 else 0)) :
    Inv { c with box := b, entries := e, hold := update c.hold t p } := by
  have hmv := tally_update c.hold t p Hold.moving
  refine ⟨?_, ?_, ?_⟩
  · show Balanced b.state (e + tally c.call Call.inserting
      + tally (update c.hold t p) Hold.moving)
      (tally (update c.hold t p) Hold.holds)
    have heq : e + tally c.call Call.inserting
        + tally (update c.hold t p) Hold.moving = tokens c := by
      unfold tokens
      omega
    rw [hstate, heq, tally_update_of_eq c.hold t p _ (hp.trans ht.symm)]
    exact h.balanced
  · refine seen_update (hpanic _ _) fun t' _ => (h.seen t').mono ?_ ?_ ?_
    · exact fun hcv => hcv.imp (fun hs => hstate.trans hs) id
    · exact fun hr => .inl (hready.trans hr)
    · exact fun hq => .inl (hqueue.trans hq)
  · intro hidle
    exact (h.rest (hstate.symm.trans hidle)).imp
      (fun hq => ⟨hqueue.trans hq.1, hready.trans hq.2⟩) id

theorem markRunning (h : Inv c) (hpc : c.hold t = .markRunning) :
    Inv { c with box := { c.box with state := .running },
                 hold := update c.hold t .holding } := by
  have hpos := tally_pos (f := c.hold) (P := Hold.moving) (i := t) (by rw [hpc]; rfl)
  obtain ⟨-, htok, hhold⟩ := h.balanced.queued_of_token (by unfold tokens; omega)
  have hmv := tally_update c.hold t .holding Hold.moving
  have hct := tally_update c.hold t .holding Hold.holds
  simp [hpc, Hold.moving, Hold.holds] at hmv hct
  refine h.turn (fun t' _ => tally_eq_zero hhold t') ⟨?_, ?_⟩ trivial nofun
  · unfold tokens at htok
    omega
  · unfold holders at hhold
    omega

theorem yieldMark (h : Inv c) (hpc : c.hold t = .yieldMark) :
    Inv { c with box := { c.box with state := .queued },
                 hold := update c.hold t .yieldInsert } := by
  have ht : (c.hold t).holds = true := by rw [hpc]; rfl
  obtain ⟨-, htok, hone, hothers⟩ := h.sole_holder ht
  have hmv := tally_update c.hold t .yieldInsert Hold.moving
  have hct := tally_update c.hold t .yieldInsert Hold.holds
  simp [hpc, Hold.moving, Hold.holds] at hmv hct
  refine h.turn hothers ⟨?_, ?_⟩ trivial nofun
  · unfold tokens at htok
    omega
  · unfold holders at hone
    omega

/-- **The worker's operations preserve the invariant.** -/
theorem hold (h : Inv c) {e : ℕ} (hs : holdStep c.box c.entries (c.hold t) = some (b, e, p)) :
    Inv { c with box := b, entries := e, hold := update c.hold t p } := by
  have hseen := h.seen t
  cases hpc : c.hold t with
  | none | panicked | holding | took | drained =>
    rw [hpc] at hs; cases hs
  | markRunning =>
    rw [hpc] at hs
    cases hs
    exact h.markRunning hpc
  | yieldMark =>
    rw [hpc] at hs
    cases hs
    exact h.yieldMark hpc
  | yieldInsert | resetThreshold =>
    rw [hpc] at hs
    cases hs
    exact h.moveOutside (by rw [hpc]; rfl) rfl (fun _ _ => trivial) rfl rfl rfl (by rw [hpc]; rfl)
  | takeCas | releaseCas =>
    rw [hpc] at hs hseen
    have ht : (c.hold t).holds = true := by rw [hpc]; rfl
    rcases (h.sole_holder ht).1 with hst | hst
    · simp only [holdStep, hst] at hs
      cases hs
      exact h.letGo ht rfl rfl (fun _ _ => trivial) hst hseen
    · simp only [holdStep, hst] at hs
      cases hs
      exact h.keep ht rfl (.inl rfl) trivial
  | takeQueue =>
    rw [hpc] at hs hseen
    have ht : (c.hold t).holds = true := by rw [hpc]; rfl
    simp only [holdStep] at hs
    split at hs
    · next hq =>
      cases hs
      exact h.keep ht rfl (.inl rfl) (hseen.imp (fun hr => ⟨hq, hr⟩) id)
    · cases hs
      exact h.keep ht rfl (.inl rfl) trivial
  | takeReady | drainReady =>
    rw [hpc] at hs
    have ht : (c.hold t).holds = true := by rw [hpc]; rfl
    simp only [holdStep] at hs
    split at hs
    · next hr =>
      cases hs
      exact h.keep ht rfl (.inl rfl) (.inl hr)
    · cases hs
      exact h.keep ht rfl (.inl rfl) trivial
  | drainQueue left =>
    rw [hpc] at hs hseen
    have ht : (c.hold t).holds = true := by rw [hpc]; rfl
    simp only [holdStep] at hs
    split at hs
    · next hq =>
      cases hs
      exact h.keep ht rfl (.inl rfl) (hseen.imp (fun hr => ⟨hq, hr⟩) id)
    · cases hs
      exact h.keep ht rfl (.inl rfl) hseen
  | drainLen left m =>
    rw [hpc] at hs hseen
    cases hs
    exact h.keep (by rw [hpc]; rfl) rfl (.inl rfl) hseen
  | takeReset | releaseReset =>
    rw [hpc] at hs
    cases hs
    exact h.keep (by rw [hpc]; rfl) rfl (.inr rfl) trivial
  | takeStreak | takeBurst | loadThreshold =>
    rw [hpc] at hs
    simp only [holdStep] at hs
    split at hs
    all_goals
      cases hs
      exact h.keep (by rw [hpc]; rfl) rfl (.inl rfl) trivial
  | storeStreak | clearStreak | lenSub | storeOverload | storeThreshold =>
    rw [hpc] at hs
    cases hs
    exact h.keep (by rw [hpc]; rfl) rfl (.inl rfl) trivial

/-! ### Every run -/

theorem deliver (h : Inv c) {p : Call μ ρ} (hins : p.inserting = false) {c' : Config μ ρ ι}
    (hs : c.deliver t p = some c') : Inv c' := by
  unfold Config.deliver at hs
  split at hs
  · next hidle =>
    obtain rfl := some.inj hs
    have hpc : c.call t = .idle := by
      revert hidle
      cases c.call t <;> simp [Call.isIdle]
    exact h.call_quiet rfl (by rw [hins, hpc]; rfl) (by simp [hpc, Call.notifying]) (.inl rfl)
      (.inl rfl)
  · cases hs

omit [Fintype ι] [DecidableEq ι] in
/-- A decision of the holder neither takes the service nor lets it go, and costs it nothing it
has seen. -/
theorem enter_holds {k : Choice} {p' : Hold μ ρ} (he : enter k p = some p') :
    p.holds = true ∧ p'.holds = true ∧ ∀ (b : Mailbox μ ρ) (P : Prop), Seen b P p → Seen b P p' := by
  cases k <;> cases p <;> simp only [enter, reduceCtorEq, some.injEq] at he <;>
    subst he <;> exact ⟨rfl, rfl, fun _ _ hs => hs⟩

/-- **Every step preserves the invariant.** -/
theorem step (h : Inv c) {c' : Config μ ρ ι} (hs : Step c c') : Inv c' := by
  obtain ⟨a, ha⟩ := hs
  cases a with
  | send | wake | kill => exact h.deliver rfl ha
  | call t =>
    obtain ⟨⟨b, e, p⟩, hc, rfl⟩ := map_eq_some_iff.mp ha
    exact h.call hc
  | callFail t =>
    obtain ⟨p, hc, rfl⟩ := map_eq_some_iff.mp ha
    cases hpc : c.call t with
    | casIdle | casRunning =>
      rw [hpc] at hc
      obtain rfl := some.inj hc
      exact h.call_again (by rw [hpc]; rfl) (by rw [hpc]; rfl)
    | _ => rw [hpc] at hc; cases hc
  | pop t =>
    simp only [act] at ha
    split at ha
    · next hen =>
      obtain rfl := some.inj ha
      simp only [Bool.and_eq_true, decide_eq_true_eq] at hen
      have hpc : c.hold t = .none := by
        have hn := hen.1.2
        revert hn
        cases c.hold t <;> simp [Hold.isNone]
      refine h.moveOutside (by rw [hpc]; rfl) rfl (fun _ _ => trivial) rfl rfl rfl ?_
      rw [hpc]
      show c.entries - 1 + 1 = c.entries + 0
      omega
    · cases ha
  | choose t k =>
    simp only [act] at ha
    split at ha
    · obtain ⟨p, hp, rfl⟩ := map_eq_some_iff.mp ha
      obtain ⟨h1, h2, h3⟩ := enter_holds hp
      exact h.keep h1 h2 (.inl rfl) (h3 _ _ (h.seen t))
    · cases ha
  | hold t =>
    simp only [act] at ha
    split at ha
    · obtain ⟨⟨b, e, p⟩, hc, rfl⟩ := map_eq_some_iff.mp ha
      exact h.hold hc
    · cases ha

theorem start (creator : ι) (ready : List ρ) : Inv (Config.start (μ := μ) creator ready) := by
  refine ⟨⟨?_, ?_⟩, fun t => trivial, ?_⟩
  · have hupd := tally_update (fun _ : ι => (.idle : Call μ ρ)) creator .pushMark
      Call.inserting
    have hzero : tally (fun _ : ι => (.idle : Call μ ρ)) Call.inserting = 0 :=
      sum_eq_zero fun _ _ => rfl
    have hzero' : tally (fun _ : ι => (.none : Hold μ ρ)) Hold.moving = 0 :=
      sum_eq_zero fun _ _ => rfl
    show 0 + tally (update (fun _ : ι => (.idle : Call μ ρ)) creator .pushMark)
      Call.inserting + tally (fun _ : ι => (.none : Hold μ ρ)) Hold.moving = 1
    simp [Call.inserting] at hupd
    omega
  · exact sum_eq_zero fun _ _ => rfl
  · intro hs
    cases hs

end Inv

variable [DecidableEq ι]

/-- Thread `t` has the service's entry in its hands: it is about to insert it into a run queue
or about to mark it `RUNNING`. -/
def Carries (c : Config μ ρ ι) (t : ι) : Prop :=
  (c.call t).inserting = true ∨ (c.hold t).moving = true

omit [DecidableEq ι] in
theorem not_carries {c : Config μ ρ ι} (hcall : tally c.call Call.inserting = 0)
    (hhold : tally c.hold Hold.moving = 0) (t : ι) : ¬ Carries c t := by
  rintro (ht | ht)
  · rw [tally_eq_zero hcall t] at ht
    cases ht
  · rw [tally_eq_zero hhold t] at ht
    cases ht

omit [DecidableEq ι] in
theorem token_place {c : Config μ ρ ι} (h : tokens c = 1) :
    (c.entries = 1 ∧ ∀ t, ¬ Carries c t) ∨ (c.entries = 0 ∧ ∃! t, Carries c t) := by
  unfold tokens at h
  rcases Nat.eq_zero_or_pos c.entries with he | he
  · refine .inr ⟨he, ?_⟩
    rcases Nat.eq_zero_or_pos (tally c.call Call.inserting) with hc | hc
    · obtain ⟨t, ht, huniq⟩ := tally_eq_one (f := c.hold) (P := Hold.moving) (by omega)
      refine ⟨t, .inr ht, ?_⟩
      rintro t' (ht' | ht')
      · rw [tally_eq_zero hc t'] at ht'
        cases ht'
      · exact huniq t' ht'
    · obtain ⟨t, ht, huniq⟩ := tally_eq_one (f := c.call) (P := Call.inserting) (by omega)
      have hm : tally c.hold Hold.moving = 0 := by omega
      refine ⟨t, .inl ht, ?_⟩
      rintro t' (ht' | ht')
      · exact huniq t' ht'
      · rw [tally_eq_zero hm t'] at ht'
        cases ht'
  · exact .inl ⟨by omega, not_carries (by omega) (by omega)⟩

theorem reachable_inv {creator : ι} {ready : List ρ} {c : Config μ ρ ι}
    (hrun : Reachable creator ready c) : Inv c :=
  hrun.invariant (I := Inv) (Inv.start creator ready) fun _ _ h hs => h.step hs

/-- **Ownership and no stranded work.** In every reachable configuration the byte tells where the
service is: with one worker (`RUNNING`, `NOTIFIED`), in one run queue or one thread's hands
(`QUEUED`), or nowhere, with both queues empty unless a delivery has still to notify (`IDLE`). -/
theorem mailbox_ownership (creator : ι) (ready : List ρ) (c : Config μ ρ ι)
    (hrun : Reachable creator ready c) :
    (c.box.state = .running ∨ c.box.state = .notified →
      (∃! t, (c.hold t).holds = true) ∧ c.entries = 0 ∧ ∀ t, ¬ Carries c t) ∧
    (c.box.state = .queued →
      ((c.entries = 1 ∧ ∀ t, ¬ Carries c t) ∨ (c.entries = 0 ∧ ∃! t, Carries c t)) ∧
      ∀ t, (c.hold t).holds = false) ∧ (c.box.state = .idle →
      c.entries = 0 ∧ (∀ t, ¬ Carries c t) ∧ (∀ t, (c.hold t).holds = false) ∧
      ((∀ t, (c.call t).notifying = false) → c.box.queue = [] ∧ c.box.ready = [])) ∧
    ∀ t, c.hold t ≠ .panicked := by
  have h := reachable_inv hrun
  have hb := h.balanced
  have hheld : tokens c = 0 ∧ holders c = 1 →
      (∃! t, (c.hold t).holds = true) ∧ c.entries = 0 ∧ ∀ t, ¬ Carries c t := by
    rintro ⟨htok, hone⟩
    unfold tokens at htok
    exact ⟨tally_eq_one hone, by omega, not_carries (by omega) (by omega)⟩
  refine ⟨?_, ?_, ?_, ?_⟩
  · rintro (hs | hs)
    · rw [hs] at hb
      exact hheld hb
    · rw [hs] at hb
      exact hheld hb
  · intro hs
    rw [hs] at hb
    exact ⟨token_place hb.1, tally_eq_zero hb.2⟩
  · intro hs
    rw [hs] at hb
    have htok := hb.1
    unfold tokens at htok
    refine ⟨by omega, not_carries (by omega) (by omega), tally_eq_zero hb.2, ?_⟩
    intro hquiet
    rcases h.rest hs with hempty | hpos
    · exact hempty
    · have hzero : notifiers c = 0 := by
        refine sum_eq_zero fun t _ => ?_
        rw [hquiet t]
        rfl
      omega
  · intro t hpc
    have hseen := h.seen t
    rw [hpc] at hseen
    exact hseen

/-- A message is delivered to a service that its only worker has left idle, the worker pops it
again, takes the message and lets go. -/
def sendAndTake : List (Action ℕ ℕ (Fin 2)) :=
  [.call 0, .call 0, .pop 1, .hold 1, .choose 1 .take, .hold 1, .hold 1, .hold 1, .hold 1, .hold 1,
    .send 0 7, .call 0, .call 0, .call 0, .call 0, .call 0, .call 0,
    .pop 1, .hold 1, .choose 1 .take, .hold 1, .hold 1, .hold 1, .hold 1, .hold 1, .hold 1]

theorem sendAndTake_state :
    (exec act sendAndTake (Config.start (0 : Fin 2) [])).map
      (fun c => (c.box.state, c.box.queue, c.entries)) = some (.running, [], 0) := by
  rfl

theorem ownership_of_sendAndTake :
    ∃ c : Config ℕ ℕ (Fin 2), Reachable 0 [] c ∧ c.box.state = .running ∧
      (∃! t, (c.hold t).holds = true) ∧ c.entries = 0 := by
  obtain ⟨c, hc, hstate⟩ := map_eq_some_iff.mp sendAndTake_state
  have hrun : Reachable (0 : Fin 2) [] c :=
    Interleave.Reachable.of_run hc
  have hs : c.box.state = .running := congrArg Prod.fst hstate
  obtain ⟨hheld, -⟩ := mailbox_ownership 0 [] c hrun
  exact ⟨c, hrun, hs, (hheld (.inl hs)).1, (hheld (.inl hs)).2.1⟩

end Invariant

end Rskynet.Mq
