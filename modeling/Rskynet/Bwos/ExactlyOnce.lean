import Rskynet.Bwos.Owner

/-!
# Exactly-once delivery of the block-based queue

Thieves preserve the invariant, so it holds in every configuration of every interleaving.

* `every_push_returned_exactly_once` — **PROVED**: what the callers see.
-/

namespace Rskynet.Bwos

open Function (update update_of_ne update_self)
open List Interleave

variable {α ι : Type*} {q : Shape}
variable {pc : ThiefPc α} {m : Mem α} {evs : List (Event α ι)}

/-! ### Thieves in flight -/

section InFlight

variable [Fintype ι] [DecidableEq ι] {thieves : ι → ThiefPc α} {t : ι} {i : ℕ}

theorem inFlight_of_eq (h : ∀ i, ThiefPc.inFlightOn i pc = ThiefPc.inFlightOn i (thieves t)) :
    inFlight (update thieves t pc) = inFlight thieves := by
  funext i
  exact tally_update_of_eq thieves t pc _ (h i)

theorem inFlight_claim {slot : ℕ} (h : ∀ i, ThiefPc.inFlightOn i (thieves t) = false) :
    inFlight (update thieves t (.read i slot))
      = update (inFlight thieves) i (inFlight thieves i + 1) := by
  funext j
  have hsum := tally_update thieves t (.read i slot) (ThiefPc.inFlightOn j)
  rw [h j] at hsum
  by_cases hj : j = i
  · subst hj
    simpa [ThiefPc.inFlightOn, inFlight] using hsum
  · rw [update_of_ne hj]
    simpa [ThiefPc.inFlightOn, inFlight, Ne.symm hj] using hsum

theorem inFlight_report {v : α} (h : thieves t = .count i v) :
    0 < inFlight thieves i ∧ inFlight (update thieves t .idle)
      = update (inFlight thieves) i (inFlight thieves i - 1) := by
  have hpos : 0 < inFlight thieves i := tally_pos (i := t) (by simp [h, ThiefPc.inFlightOn])
  refine ⟨hpos, ?_⟩
  funext j
  have hsum := tally_update thieves t .idle (ThiefPc.inFlightOn j)
  rw [h] at hsum
  by_cases hj : j = i
  · subst hj
    rw [update_self]
    simp [ThiefPc.inFlightOn] at hsum
    unfold inFlight at hpos ⊢
    omega
  · rw [update_of_ne hj]
    simpa [ThiefPc.inFlightOn, inFlight, Ne.symm hj] using hsum

end InFlight

/-! ### Thieves that have claimed nothing -/

/-- The thief has won a slot and not yet returned its value. -/
def ThiefPc.holding : ThiefPc α → Bool
  | .read _ _ => true
  | .count _ _ => true
  | _ => false

/-- The thief is looking for a slot to claim. -/
def ThiefPc.walking : ThiefPc α → Bool
  | .loadStart => true
  | .loadStealTail _ => true
  | .loadTail _ _ => true
  | .loadLast _ => true
  | _ => false

theorem inFlightOn_of_not_holding (h : pc.holding = false) {i : ℕ} : pc.inFlightOn i = false := by
  cases pc <;> first | rfl | cases h

theorem claimedBy_of_not_holding (h : pc.holding = false) : claimedBy m pc = 0 := by
  cases pc <;> first | rfl | cases h

theorem thiefStep_walking {t : ι} {lo : ℕ → ℕ} {m' : Mem α} {pc' : ThiefPc α}
    (hwalk : pc.walking = true) (hok : ThiefOk q m lo pc)
    (hs : thiefStep q t m pc = some (m', pc', evs)) :
    m' = m ∧ ThiefOk q m lo pc' ∧ pc'.holding = false ∧ accepted evs = 0 ∧ returned evs = 0 := by
  cases pc with
  | loadStart =>
    cases hs
    exact ⟨rfl, trivial, rfl, rfl, rfl⟩
  | loadStealTail thief =>
    simp only [thiefStep] at hs
    split at hs
    · cases hs
      exact ⟨rfl, trivial, rfl, rfl, rfl⟩
    · split at hs
      · split at hs <;> cases hs <;> exact ⟨rfl, trivial, rfl, rfl, rfl⟩
      · next hslot =>
        cases hs
        exact ⟨rfl, hslot, rfl, rfl, rfl⟩
  | loadTail thief spos =>
    simp only [thiefStep] at hs
    split at hs
    · cases hs
      exact ⟨rfl, trivial, rfl, rfl, rfl⟩
    · cases hs
      exact ⟨rfl, hok, rfl, rfl, rfl⟩
  | loadLast thief =>
    simp only [thiefStep] at hs
    split at hs <;> cases hs <;> exact ⟨rfl, trivial, rfl, rfl, rfl⟩
  | _ => cases hwalk

namespace Inv

variable {t : ι}

variable [Fintype ι] [DecidableEq ι] {c : Config α ι} {L : ℕ} {lo : ℕ → ℕ}

/-! ### Steps of a thief -/

theorem regs_congr {m' : Mem α} {lo' : ℕ → ℕ} {pc : OwnerPc α} (h : Regs q m lo L pc)
    (hlast : m'.lastBlock = m.lastBlock) (hstart : m'.startBlock = m.startBlock)
    (htail : (m'.blocks (q.indexOf L)).tail = (m.blocks (q.indexOf L)).tail)
    (hring : (m'.blocks (q.indexOf L)).ring = (m.blocks (q.indexOf L)).ring)
    (hlo : pc.kind ≠ .granted → lo' (q.indexOf L) = lo (q.indexOf L))
    (hfull : lo (q.indexOf m.startBlock) = q.blockSize → lo' (q.indexOf m.startBlock) = q.blockSize) :
    Regs q m' lo' L pc := by
  cases pc with
  | undefinedRead => exact h.elim
  | putLoadStart v owner next =>
    obtain ⟨h1, h2, h3, h4, h5, h6⟩ := h
    refine ⟨h1, by rw [hlast]; exact h2, h3, h4, by rw [htail]; exact h5, ?_⟩
    rw [hstart]
    exact fun hn => hfull (h6 hn)
  | putStoreStart v owner next start =>
    obtain ⟨h1, h2, h3, h4, h5, h6, h7, h8⟩ := h
    refine ⟨h1, by rw [hlast]; exact h2, h3, h4, by rw [htail]; exact h5, ?_, ?_, ?_⟩
    · rw [hstart]; exact h6
    · rw [hstart]; exact hfull h7
    · rw [hstart]; exact h8
  | _ =>
    simp only [Regs, hlast, hstart, htail, hring, OwnerPc.kind, ne_eq, reduceCtorEq,
      not_false_eq_true, forall_const, not_true_eq_false, IsEmpty.forall_iff] at h hlo ⊢
    first
      | exact h
      | (rw [hlo]; exact h)

theorem stayThief (h : Inv q c L lo) (t : ι) (hok : ThiefOk q c.mem lo pc)
    (hfly : ∀ i, ThiefPc.inFlightOn i pc = ThiefPc.inFlightOn i (c.thieves t))
    (hclaim : claimedBy c.mem pc = claimedBy c.mem (c.thieves t)) (hacc : accepted evs = 0)
    (hret : returned evs = 0) :
    Inv q { c with thieves := update c.thieves t pc, log := c.log ++ evs } L lo := by
  refine ⟨?_, h.regs, h.accounts.moveThief t hok hclaim hacc hret⟩
  rw [inFlight_of_eq hfly]
  exact h.layout

/-- A thief that has claimed no slot moves on without claiming one. -/
theorem moveFree (h : Inv q c L lo) (t : ι) (hnow : (c.thieves t).holding = false)
    (hnext : pc.holding = false) (hok : ThiefOk q c.mem lo pc) (hacc : accepted evs = 0)
    (hret : returned evs = 0) :
    Inv q { c with thieves := update c.thieves t pc, log := c.log ++ evs } L lo := by
  refine h.stayThief t hok (fun i => ?_) ?_ hacc hret
  · rw [inFlightOn_of_not_holding hnow, inFlightOn_of_not_holding hnext]
  · rw [claimedBy_of_not_holding hnow, claimedBy_of_not_holding hnext]

/-- **The compare-and-swap.**  However stale the thief's register, success means that the
block is granted in the generation it names, and the slot won is the first live one. -/
theorem step_cas (h : Inv q c L lo) {thief spos : ℕ} (hpc : c.thieves t = .cas thief spos)
    (hs : thiefStep q t c.mem (c.thieves t) = some (m, pc, evs)) :
    ∃ lo', Inv q { c with
      mem := m, thieves := update c.thieves t pc, log := c.log ++ evs } L lo' := by
  have hok := h.accounts.thieves t
  rw [hpc] at hs hok
  simp only [Bwos.thiefStep] at hs
  split at hs
  · next heq =>
    cases hs
    have hi := q.indexOf_lt thief
    obtain ⟨hslot, hlt, hcur, hlay⟩ := h.layout.cas hi heq hok
    have hlt' : lo (q.indexOf thief) < q.blockSize := lt_of_lt_of_le hlt (h.layout.tail_le hi)
    refine ⟨update lo (q.indexOf thief) (lo (q.indexOf thief) + 1), ?_, ?_, ?_⟩
    · rw [inFlight_claim (by simp [hpc, ThiefPc.inFlightOn])]
      exact hlay
    · refine regs_congr h.regs rfl rfl (setBlock_tail (by rfl) _) (setBlock_ring (by rfl) _) ?_ ?_
      · intro hk
        exact update_of_ne (fun hidx => hk (hcur hidx.symm)) _ _
      · intro hfull
        exact (update_of_ne (fun hidx => by rw [hidx] at hfull; omega) _ _).trans hfull
    · rw [hslot, append_nil]
      exact h.accounts.claim hi hlt t (by rw [hpc]; rfl) (spos + 1)
  · cases hs
    exact ⟨lo, h.moveFree t (by rw [hpc]; rfl) rfl trivial rfl rfl⟩

theorem step_read (h : Inv q c L lo) {block slot : ℕ} (hpc : c.thieves t = .read block slot)
    (hs : thiefStep q t c.mem (c.thieves t) = some (m, pc, evs)) :
    Inv q { c with mem := m, thieves := update c.thieves t pc, log := c.log ++ evs }
      L lo := by
  have hok := h.accounts.thieves t
  rw [hpc] at hs hok
  obtain ⟨hb, -, hsome⟩ := hok
  obtain ⟨v, hv, hval⟩ := slotValue_isSome hsome
  simp only [Bwos.thiefStep, hv] at hs
  cases hs
  refine h.stayThief t hb (by simp [hpc, ThiefPc.inFlightOn]) ?_ rfl rfl
  rw [hpc]
  exact hval.symm

theorem step_count (h : Inv q c L lo) {block : ℕ} {v : α} (hpc : c.thieves t = .count block v)
    (hs : thiefStep q t c.mem (c.thieves t) = some (m, pc, evs)) :
    Inv q { c with mem := m, thieves := update c.thieves t pc, log := c.log ++ evs }
      L lo := by
  have hok := h.accounts.thieves t
  rw [hpc] at hs hok
  cases hs
  obtain ⟨hpos, hfly⟩ := inFlight_report hpc
  refine ⟨?_, ?_, h.accounts.steal hok t hpc _⟩
  · rw [hfly]
    exact h.layout.count hpos
  · exact regs_congr h.regs rfl rfl (setBlock_tail (by rfl) _) (setBlock_ring (by rfl) _) (fun _ => rfl) id

theorem thiefStep (h : Inv q c L lo)
    (hs : Bwos.thiefStep q t c.mem (c.thieves t) = some (m, pc, evs)) :
    ∃ lo', Inv q { c with
      mem := m, thieves := update c.thieves t pc, log := c.log ++ evs } L lo' := by
  cases hpc : c.thieves t with
  | idle | panicked | undefinedRead => rw [hpc] at hs; cases hs
  | cas thief spos => exact h.step_cas hpc hs
  | read block slot => exact ⟨lo, h.step_read hpc hs⟩
  | count block v => exact ⟨lo, h.step_count hpc hs⟩
  | loadStart | loadStealTail | loadTail | loadLast =>
    have hfree : (c.thieves t).holding = false := by rw [hpc]; rfl
    obtain ⟨rfl, hok, hnext, hacc, hret⟩ :=
      thiefStep_walking (by rw [hpc]; rfl) (h.accounts.thieves t) hs
    exact ⟨lo, h.moveFree t hfree hnext hok hacc hret⟩

/-! ### Every run -/

omit [DecidableEq ι] in
theorem start (q : Shape) :
    Inv q (Config.start α ι q) 0 (fun i => if i = 0 then 0 else q.blockSize) := by
  refine ⟨?_, rfl, ?_, ?_, ?_⟩
  · have hzero : inFlight (Config.start α ι q).thieves = fun _ => 0 := by
      funext i
      exact Finset.sum_eq_zero fun t _ => rfl
    rw [hzero]
    exact Layout.new q
  · intro t
    trivial
  · intro i _ j hj hj'
    by_cases hi : i = 0
    · subst hi
      simp [Config.start, Mem.new, Block.reclaimed] at hj'
    · simp [Config.start, Mem.new, Block.new, hi] at hj hj'
      omega
  · have hclaim : claimed (Config.start α ι q) = 0 := Finset.sum_eq_zero fun t _ => rfl
    have hstored : ∀ i ∈ Finset.range q.numBlocks, ((Config.start α ι q).mem.blocks i).stored
        (if i = 0 then 0 else q.blockSize) = 0 := by
      intro i _
      by_cases hi : i = 0
      · subst hi
        simp [Config.start, Mem.new, Block.reclaimed, Block.stored]
      · simp [Config.start, Mem.new, Block.new, Block.stored, hi]
    rw [hclaim, Finset.sum_eq_zero hstored]
    rfl

/-- **Every step preserves the invariant.** -/
theorem step (h : Inv q c L lo) {c' : Config α ι} (hs : Step q c c') : ∃ L' lo', Inv q c' L' lo' := by
  cases hs with
  | pushCall v hidle | popCall hidle =>
    have hr := h.regs
    have hc := h.layout.current
    rw [hidle] at hr hc
    exact h.stay hc hr rfl rfl
  | owner m pc evs hs => exact h.ownerStep hs
  | stealCall t hidle =>
    exact ⟨L, lo, h.moveFree t (by rw [hidle]; rfl) rfl trivial rfl rfl⟩
  | thief t m pc evs hs => exact ⟨L, h.thiefStep hs⟩

end Inv

/-! ### A push from call to return -/

def OwnerPc.pushing : OwnerPc α → Option α
  | .pushLoadLast v => some v
  | .putLoadTail v .. => some v
  | .putWrite v .. => some v
  | .putStoreTail v .. => some v
  | .putLoadWritable v .. => some v
  | .putLoadStart v .. => some v
  | .putStoreStart v .. => some v
  | .grantLoad v .. => some v
  | .grantSwap v .. => some v
  | .grantStore v .. => some v
  | .reclaimLoadHead v .. => some v
  | .reclaimSpin v .. => some v
  | .reclaimHead v .. => some v
  | .reclaimTail v .. => some v
  | .reclaimStealTail v .. => some v
  | .reclaimCount v .. => some v
  | .putStoreLast v .. => some v
  | _ => none

/-- How an event changes the owner's open push: a call opens one, a return closes it, and the
thieves' events leave it alone. -/
def Event.reopen (o : Option α) : Event α ι → Option α
  | .pushCall v => some v
  | .stealCall _ => o
  | .stole _ _ => o
  | .stealNone _ => o
  | _ => none

def openPush (log : List (Event α ι)) : Option α := log.foldl Event.reopen none

theorem openPush_append (l l' : List (Event α ι)) :
    openPush (l ++ l') = l'.foldl Event.reopen (openPush l) := by
  simp [openPush]

/-- **One step of a push**: it is accepted, it is refused with its own value, or it goes on. -/
theorem ownerStep_pushing {m' : Mem α} {pc pc' : OwnerPc α} {v : α} (hv : pc.pushing = some v)
    (hs : ownerStep q m pc = some (m', pc', evs)) :
    (∃ granted, evs = [.pushed v granted] ∧ pc' = .idle) ∨ (evs = [.full v] ∧ pc' = .idle) ∨
      (evs = [] ∧ (pc'.pushing = some v ∨ pc' = .panicked)) := by
  cases pc <;> simp only [OwnerPc.pushing, Option.some.injEq, reduceCtorEq] at hv <;> subst hv <;>
    simp only [ownerStep] at hs <;> (repeat' split at hs) <;> obtain ⟨-, rfl, rfl⟩ := hs <;>
    simp [OwnerPc.pushing]

theorem ownerStep_not_pushing {m' : Mem α} {pc pc' : OwnerPc α} (hv : pc.pushing = none)
    (hs : ownerStep q m pc = some (m', pc', evs)) :
    pc'.pushing = none ∧ accepted evs = 0 ∧ (∀ w, .full w ∉ evs) ∧
      evs.foldl Event.reopen none = none := by
  cases pc <;> simp only [OwnerPc.pushing, reduceCtorEq] at hv <;>
    simp only [ownerStep, reduceCtorEq] at hs <;> (repeat' split at hs) <;>
    obtain ⟨-, rfl, rfl⟩ := hs <;> simp [OwnerPc.pushing, accepted, Event.accepted?, Event.reopen]

theorem thiefStep_events {t : ι} {m' : Mem α} {pc' : ThiefPc α}
    (hs : thiefStep q t m pc = some (m', pc', evs)) (o : Option α) :
    accepted evs = 0 ∧ (∀ w, .full w ∉ evs) ∧ evs.foldl Event.reopen o = o := by
  cases pc <;> simp only [thiefStep, reduceCtorEq] at hs <;> (repeat' split at hs) <;>
    obtain ⟨-, rfl, rfl⟩ := hs <;> simp [accepted, Event.accepted?, Event.reopen]

theorem ownerStep_ring {m' : Mem α} {pc pc' : OwnerPc α}
    (hs : ownerStep q m pc = some (m', pc', evs)) (i j : ℕ) :
    (m'.blocks i).ring j = (m.blocks i).ring j ∨
      ∃ v owner granted, pc = .putWrite v owner granted j ∧ i = q.indexOf owner := by
  cases pc with
  | putWrite v owner granted back =>
    cases hs
    by_cases hi : i = q.indexOf owner
    · by_cases hj : j = back
      · subst hj
        exact .inr ⟨v, owner, granted, rfl, hi⟩
      · subst hi
        simp [Mem.setBlock, hj]
    · simp [Mem.setBlock, hi]
  | idle | panicked | undefinedRead => cases hs
  | _ =>
    simp only [ownerStep] at hs
    (repeat' split at hs) <;> obtain ⟨rfl, -, -⟩ := hs <;>
      first
        | exact .inl rfl
        | exact .inl (congrFun (setBlock_ring (by rfl) i) j)

/-! ### Exactly once -/

variable [Fintype ι] [DecidableEq ι]

theorem reachable_inv {c : Config α ι} (hrun : Reachable q c) : ∃ L lo, Inv q c L lo := by
  refine hrun.invariant (I := fun c => ∃ L lo, Inv q c L lo) ⟨_, _, Inv.start q⟩ ?_
  rintro a b ⟨L, lo, h⟩ hs
  exact h.step hs

omit [Fintype ι] in
theorem reachable_openPush {c : Config α ι} (hrun : Reachable q c) :
    c.owner = .panicked ∨ openPush c.log = c.owner.pushing := by
  refine hrun.invariant (I := fun c => c.owner = .panicked ∨ openPush c.log = c.owner.pushing)
    (.inr rfl) ?_
  intro a b ih hs
  cases hs with
  | pushCall v hidle =>
    right
    rw [openPush_append]
    rfl
  | popCall hidle =>
    right
    rw [openPush_append]
    rfl
  | owner m pc evs hs =>
    have hopen : openPush a.log = a.owner.pushing := by
      rcases ih with hp | hopen
      · rw [hp] at hs
        cases hs
      · exact hopen
    rw [openPush_append, hopen]
    cases hv : a.owner.pushing with
    | none =>
      obtain ⟨h1, -, -, h4⟩ := ownerStep_not_pushing hv hs
      rw [h1, h4]
      exact .inr rfl
    | some v =>
      rcases ownerStep_pushing hv hs with ⟨_, rfl, rfl⟩ | ⟨rfl, rfl⟩ | ⟨rfl, hpc | hpc⟩
      · exact .inr rfl
      · exact .inr rfl
      · exact .inr hpc.symm
      · exact .inl hpc
  | stealCall t hidle =>
    rw [openPush_append]
    exact ih
  | thief t m pc evs hs =>
    rw [openPush_append, (thiefStep_events hs _).2.2]
    exact ih

/-- No value moves between two configurations: none is accepted or returned, and the same
values are claimed and live. -/
def SameContents (q : Shape) (c c' : Config α ι) : Prop :=
  accepted c'.log = accepted c.log ∧ returned c'.log = returned c.log ∧
    claimed c' = claimed c ∧ live q c' = live q c

theorem claimed_ownerStep {c : Config α ι} (hrun : Reachable q c) {pc : OwnerPc α}
    (hs : ownerStep q c.mem c.owner = some (m, pc, evs)) :
    claimed { c with mem := m, owner := pc, log := c.log ++ evs } = claimed c := by
  obtain ⟨L, lo, h⟩ := reachable_inv hrun
  refine Finset.sum_congr rfl fun t _ => ?_
  have hok := h.accounts.thieves t
  revert hok
  cases c.thieves t with
  | read b j =>
    intro ⟨_, hj, _⟩
    rcases ownerStep_ring hs b j with heq | ⟨v, owner, granted, hpc, rfl⟩
    · simp only [claimedBy, heq]
    · -- the written slot is at the tail, above every slot a thief reads
      have hr := h.regs
      have hc := h.layout.current
      rw [hpc] at hr
      obtain ⟨rfl, -, rfl, -⟩ := hr
      have hlo := hc.lo_le_tail
      omega
  | _ => intro _; rfl

theorem push_keeps_contents {c : Config α ι} (hrun : Reachable q c) {pc : OwnerPc α}
    (hs : ownerStep q c.mem c.owner = some (m, pc, evs)) (hacc : accepted evs = 0)
    (hret : returned evs = 0) :
    SameContents q c { c with mem := m, owner := pc, log := c.log ++ evs } := by
  obtain ⟨L, lo, h⟩ := reachable_inv hrun
  obtain ⟨L', lo', h'⟩ := h.ownerStep hs
  have htotal := h'.total_live
  have hclaim := claimed_ownerStep hrun hs
  have ha : accepted (c.log ++ evs) = accepted c.log := accepted_append_zero hacc
  have hr : returned (c.log ++ evs) = returned c.log := returned_append_zero hret
  refine ⟨ha, hr, hclaim, ?_⟩
  rw [hclaim] at htotal
  have hbal : returned c.log + claimed c + live q { c with
      mem := m, owner := pc, log := c.log ++ evs } = returned c.log + claimed c + live q c := by
    rw [← h.total_live, ← ha, htotal]
    rw [hr]
  exact add_left_cancel hbal

theorem returned_step_le {c c' : Config α ι} (hrun : Reachable q c) (hs : Step q c c') :
    returned c'.log ≤ accepted c.log := by
  obtain ⟨L, lo, h⟩ := reachable_inv hrun
  obtain ⟨L', lo', h'⟩ := h.step hs
  have hle := h'.returned_le
  cases hs with
  | pushCall | popCall | stealCall => rwa [accepted_append_zero rfl] at hle
  | owner m pc evs hs =>
    cases hv : c.owner.pushing with
    | none => rwa [accepted_append_zero (ownerStep_not_pushing hv hs).2.1] at hle
    | some v =>
      have hret : returned evs = 0 := by
        rcases ownerStep_pushing hv hs with ⟨_, rfl, -⟩ | ⟨rfl, -⟩ | ⟨rfl, -⟩ <;> rfl
      rw [returned_append_zero hret]
      exact h.returned_le
  | thief t m pc evs hs => rwa [accepted_append_zero (thiefStep_events hs none).1] at hle

omit [Fintype ι] in
theorem full_eq_openPush {c c' : Config α ι} (hrun : Reachable q c) (hs : Step q c c') {w : α}
    (hlog : c'.log = c.log ++ [.full w]) : openPush c.log = some w := by
  have hsame : ∀ evs : List (Event α ι), c.log ++ evs = c.log ++ [.full w] → evs = [.full w] :=
    fun evs he => append_cancel_left he
  cases hs with
  | pushCall | popCall | stealCall => exact absurd (hsame _ hlog) (by simp)
  | thief t m pc evs hs =>
    have hmem := (thiefStep_events hs none).2.1 w
    rw [hsame evs hlog] at hmem
    exact absurd (mem_singleton.mpr rfl) hmem
  | owner m pc evs hs =>
    have hevs := hsame evs hlog
    subst hevs
    have hopen : openPush c.log = c.owner.pushing := by
      rcases reachable_openPush hrun with hp | hopen
      · rw [hp] at hs
        cases hs
      · exact hopen
    rw [hopen]
    cases hv : c.owner.pushing with
    | none => exact absurd (mem_singleton.mpr rfl) ((ownerStep_not_pushing hv hs).2.2.1 w)
    | some v =>
      rcases ownerStep_pushing hv hs with ⟨_, he, -⟩ | ⟨he, -⟩ | ⟨he, -⟩
      · cases he
      · simp only [cons.injEq, Event.full.injEq, and_true] at he
        rw [he]
      · cases he

/-- **Exactly-once delivery.**  In every configuration that any interleaving of one owner and
any number of thieves reaches: the accepted pushes are exactly the returned, the claimed and
the live values; whatever the next step returns had been accepted before and is not returned
beyond its acceptances; nobody reads an unwritten slot; and every step of a `push_back` either
accepts its value or moves no value at all, in which case a refusal hands back the argument of
the open call. -/
theorem every_push_returned_exactly_once (q : Shape) (c : Config α ι) (hrun : Reachable q c) :
    accepted c.log = returned c.log + claimed c + live q c ∧
    (∀ c', Step q c c' → returned c'.log ≤ accepted c.log) ∧
    (c.owner ≠ .undefinedRead ∧ ∀ t, c.thieves t ≠ .undefinedRead) ∧
    (∀ m pc evs v, c.owner.pushing = some v → ownerStep q c.mem c.owner = some (m, pc, evs) →
      (∃ granted, evs = [.pushed v granted] ∧ pc = .idle) ∨
      ((evs = [.full v] ∧ pc = .idle ∨ evs = [] ∧ (pc.pushing = some v ∨ pc = .panicked)) ∧
        SameContents q c { c with mem := m, owner := pc, log := c.log ++ evs })) ∧
    (∀ c' w, Step q c c' → c'.log = c.log ++ [.full w] → openPush c.log = some w) := by
  obtain ⟨L, lo, h⟩ := reachable_inv hrun
  refine ⟨h.total_live, fun c' hs => returned_step_le hrun hs, ⟨?_, ?_⟩, ?_,
    fun c' w hs hlog => full_eq_openPush hrun hs hlog⟩
  · intro hpc
    have hr := h.regs
    rw [hpc] at hr
    exact hr
  · intro t hpc
    have hok := h.accounts.thieves t
    rw [hpc] at hok
    exact hok
  · intro m pc evs v hv hs
    rcases ownerStep_pushing hv hs with hacc | ⟨rfl, hpc⟩ | ⟨rfl, hpc⟩
    · exact .inl hacc
    · exact .inr ⟨.inl ⟨rfl, hpc⟩, push_keeps_contents hrun hs rfl rfl⟩
    · exact .inr ⟨.inr ⟨rfl, hpc⟩, push_keeps_contents hrun hs rfl rfl⟩

def smallShape : Shape := ⟨2, 1, by decide, ⟨1, rfl⟩, by decide, by decide⟩

/-- Two pushes, the second of which grants the first block, and a steal of the first value. -/
def pushPushSteal : List (Action ℕ (Fin 1)) :=
  .push 7 :: List.replicate 4 .owner ++ .push 8 :: List.replicate 17 .owner
    ++ .steal 0 :: List.replicate 6 (.thief 0)

theorem pushPushSteal_log :
    (exec (act smallShape) pushPushSteal (Config.start ℕ (Fin 1) smallShape)).map
      Config.log = some [.pushCall 7, .pushed 7 false, .pushCall 8, .pushed 8 true,
        .stealCall 0, .stole 0 7] := by
  rfl

theorem exactly_once_of_pushPushSteal :
    ∃ c : Config ℕ (Fin 1), Reachable smallShape c ∧ accepted c.log = {7, 8} ∧
      returned c.log = {7} ∧ accepted c.log = returned c.log + claimed c + live smallShape c := by
  obtain ⟨c, hc, hlog⟩ := Option.map_eq_some_iff.mp pushPushSteal_log
  have hrun : Reachable smallShape c := Interleave.Reachable.of_exec act_step pushPushSteal hc
  refine ⟨c, hrun, ?_, ?_, (every_push_returned_exactly_once smallShape c hrun).1⟩
  · rw [hlog]; rfl
  · rw [hlog]; rfl

end Rskynet.Bwos
