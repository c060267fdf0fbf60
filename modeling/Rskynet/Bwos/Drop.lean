import Rskynet.Bwos.ExactlyOnce

/-!
# Dropping the queue

`Drop for Block` releases the slots from the smaller boundary index up to the tail, with one
formula for every state a block can be in. The queue is dropped when the last handle is gone,
so no operation is in progress.

* `reachable_paid` — **PROVED**: along every run the slots of the ring hold accepted values, each
  at most as often as it was accepted, and the value about to be published.
* `drop_releases_remaining` — **PROVED**: at rest the ranges of the destructor are the slots
  whose values were accepted and not returned;
* `unreturned_bounded` — **PROVED**: how many values can be accepted and not returned.
-/

namespace Rskynet.Bwos

open Finset

variable {α ι : Type*} {q : Shape}

/-! ### The destructor -/

def Block.dropStart (b : Block α) : ℕ := min (slotOf b.head) (slotOf b.stealTail)

/-- The slots the loop of `Drop for Block` visits, in order. -/
def Block.dropRange (b : Block α) : List ℕ :=
  List.range' b.dropStart (slotOf b.tail - b.dropStart)

/-- `drop_in_place` of `ring[idx]`: `none` is an index out of bounds or a slot never written. -/
def Block.dropInPlace (size : ℕ) (b : Block α) (idx : ℕ) : Option (List α) :=
  if idx < size then (b.ring idx).map fun v => [v] else none

/-- The values released by a loop, in order. -/
def releaseEach {β : Type*} (release : β → Option (List α)) (xs : List β) : Option (List α) :=
  (xs.mapM release).map List.flatten

/-- `Drop for Block`; `needsDrop` is `std::mem::needs_drop::<T>()`. -/
def Block.drop (needsDrop : Bool) (size : ℕ) (b : Block α) : Option (List α) :=
  if needsDrop then releaseEach (b.dropInPlace size) b.dropRange else some []

/-- Dropping `LifoQueue` drops its blocks in order. -/
def Mem.drop (q : Shape) (needsDrop : Bool) (m : Mem α) : Option (List α) :=
  releaseEach (fun i => (m.blocks i).drop needsDrop q.blockSize) (List.range q.numBlocks)

/-- No operation is in progress: every thread is between operations or has stopped. -/
def Config.AtRest (q : Shape) (c : Config α ι) : Prop :=
  ownerStep (ι := ι) q c.mem c.owner = none ∧ ∀ t, thiefStep q t c.mem (c.thieves t) = none

/-- The values in the given slots of each block. -/
def valuesIn (q : Shape) (m : Mem α) (slots : ℕ → Finset ℕ) : Multiset α :=
  ∑ i ∈ range q.numBlocks, ∑ j ∈ slots i, slotValue ((m.blocks i).ring j)

/-- The values in the slots that the destructor visits. -/
def inRanges (q : Shape) (m : Mem α) : Multiset α :=
  valuesIn q m fun i => (range q.blockSize).filter (· ∈ (m.blocks i).dropRange)

/-- The values in the slots that the destructor leaves alone. -/
def outsideRanges (q : Shape) (m : Mem α) : Multiset α :=
  valuesIn q m fun i => (range q.blockSize).filter (· ∉ (m.blocks i).dropRange)

theorem mem_valuesIn {m : Mem α} {slots : ℕ → Finset ℕ} {i j : ℕ} {v : α} (hi : i < q.numBlocks)
    (hj : j ∈ slots i) (hv : (m.blocks i).ring j = some v) : v ∈ valuesIn q m slots := by
  refine Multiset.mem_sum.mpr ⟨i, mem_range.mpr hi, Multiset.mem_sum.mpr ⟨j, hj, ?_⟩⟩
  simp [hv, slotValue]

theorem releaseEach_eq {β : Type*} {release : β → Option (List α)} {g : β → Multiset α}
    {l : List β} (h : ∀ x ∈ l, ∃ vs, release x = some vs ∧ (vs : Multiset α) = g x) :
    ∃ vs, releaseEach release l = some vs ∧ (vs : Multiset α) = (l.map g).sum := by
  induction l with
  | nil => exact ⟨[], rfl, rfl⟩
  | cons x l ih =>
    obtain ⟨vs, hvs, hg⟩ := h x (by simp)
    obtain ⟨ws, hws, hsum⟩ := ih fun y hy => h y (by simp [hy])
    obtain ⟨wss, hwss, rfl⟩ := Option.map_eq_some_iff.mp hws
    refine ⟨vs ++ wss.flatten, ?_, ?_⟩
    · simp [releaseEach, hvs, hwss]
    · rw [List.map_cons, List.sum_cons, ← hg, ← hsum]
      rfl

theorem Block.mem_dropRange {b : Block α} {j : ℕ} :
    j ∈ b.dropRange ↔ b.dropStart ≤ j ∧ j < slotOf b.tail := by
  rw [Block.dropRange, List.mem_range'_1]
  omega

theorem Block.drop_eq {b : Block α} {size : ℕ}
    (h : ∀ j ∈ b.dropRange, j < size ∧ (b.ring j).isSome) :
    ∃ vs, b.drop true size = some vs ∧
      (vs : Multiset α) = ∑ j ∈ range size with j ∈ b.dropRange, slotValue (b.ring j) := by
  have hslot : ∀ j ∈ b.dropRange, ∃ vs, b.dropInPlace size j = some vs ∧
      (vs : Multiset α) = slotValue (b.ring j) := by
    intro j hj
    obtain ⟨hlt, hsome⟩ := h j hj
    obtain ⟨v, hv, hval⟩ := slotValue_isSome hsome
    exact ⟨[v], by simp [Block.dropInPlace, hlt, hv], hval.symm⟩
  obtain ⟨vs, hvs, hsum⟩ := releaseEach_eq hslot
  refine ⟨vs, hvs, hsum.trans ?_⟩
  have hset : (range size).filter (· ∈ b.dropRange) = b.dropRange.toFinset := by
    ext j
    simp only [mem_filter, mem_range, List.mem_toFinset, and_iff_right_iff_imp]
    exact fun hj => (h j hj).1
  rw [hset]
  exact (List.sum_toFinset _ List.nodup_range').symm

theorem Mem.drop_eq {m : Mem α} (h : ∀ i < q.numBlocks, ∀ j ∈ (m.blocks i).dropRange,
      j < q.blockSize ∧ ((m.blocks i).ring j).isSome) :
    ∃ vs, m.drop q true = some vs ∧ (vs : Multiset α) = inRanges q m := by
  obtain ⟨vs, hvs, hsum⟩ := releaseEach_eq fun i hi => Block.drop_eq (h i (List.mem_range.mp hi))
  refine ⟨vs, hvs, hsum.trans ?_⟩
  rw [← List.sum_toFinset _ List.nodup_range, List.toFinset_range]
  rfl

theorem Mem.drop_trivial (m : Mem α) : m.drop q false = some [] := by
  obtain ⟨vs, hvs, hsum⟩ := releaseEach_eq (l := List.range q.numBlocks) (g := fun _ => 0)
    fun i _ => ⟨[], show (m.blocks i).drop false q.blockSize = some [] from rfl, rfl⟩
  have hnil : vs = [] := by simpa using hsum
  rw [← hnil]
  exact hvs

/-! ### What the slots hold -/

/-- The values in all written slots of the ring. -/
def written (q : Shape) (m : Mem α) : Multiset α := valuesIn q m fun _ => range q.blockSize

theorem written_eq (m : Mem α) : written q m = inRanges q m + outsideRanges q m := by
  unfold written inRanges outsideRanges valuesIn
  rw [← sum_add_distrib]
  refine sum_congr rfl fun i _ => ?_
  exact (sum_filter_add_sum_filter_not _ (· ∈ (m.blocks i).dropRange) _).symm

/-- The value `put` has written and not yet published. -/
def OwnerPc.unpublished : OwnerPc α → Multiset α
  | .putStoreTail v _ _ _ => {v}
  | _ => 0

theorem sum_le_add_of_bump {f f' : ℕ → Multiset α} {b : ℕ} {d : Multiset α}
    (h : ∀ j, f' j ≤ f j + if j = b then d else 0) (s : Finset ℕ) :
    ∑ j ∈ s, f' j ≤ ∑ j ∈ s, f j + d := by
  refine (sum_le_sum fun j _ => h j).trans ?_
  rw [sum_add_distrib, sum_ite_eq']
  refine add_le_add_right ?_ _
  split
  · exact le_rfl
  · exact Multiset.zero_le d

theorem written_putWrite (m : Mem α) (i back : ℕ) (v : α) :
    written q (m.setBlock i { m.blocks i with
      ring := Function.update (m.blocks i).ring back (some v) }) ≤ written q m + {v} := by
  unfold written valuesIn
  refine sum_le_add_of_bump (b := i) (fun i' => ?_) _
  by_cases hi : i' = i
  · subst hi
    rw [if_pos rfl]
    refine sum_le_add_of_bump (b := back) (fun j => ?_) _
    by_cases hj : j = back
    · subst hj
      simp [Mem.setBlock, slotValue]
    · simp [Mem.setBlock, hj]
  · simp [Mem.setBlock, hi]

theorem written_congr {m m' : Mem α} (h : ∀ i j, (m'.blocks i).ring j = (m.blocks i).ring j) :
    written q m' = written q m := by
  simp only [written, valuesIn, h]

theorem thiefStep_ring {t : ι} {m m' : Mem α} {pc pc' : ThiefPc α} {evs : List (Event α ι)}
    (hs : thiefStep q t m pc = some (m', pc', evs)) (i j : ℕ) :
    (m'.blocks i).ring j = (m.blocks i).ring j := by
  cases pc <;> simp only [thiefStep, reduceCtorEq] at hs <;> (repeat' split at hs) <;>
    obtain ⟨rfl, -, -⟩ := hs <;>
    first
      | rfl
      | exact congrFun (setBlock_ring (by rfl) i) j

/-- Every written slot is paid for by an acceptance, but for the one about to be published. -/
def Paid (q : Shape) (c : Config α ι) : Prop :=
  written q c.mem ≤ accepted c.log + c.owner.unpublished

theorem written_ownerStep {m m' : Mem α} {pc pc' : OwnerPc α} {evs log : List (Event α ι)}
    (h : written q m ≤ accepted log + pc.unpublished)
    (hs : ownerStep q m pc = some (m', pc', evs)) :
    written q m' ≤ accepted (log ++ evs) + pc'.unpublished := by
  rw [accepted_append]
  cases pc with
  | putWrite v owner granted back =>
    cases hs
    refine (written_putWrite m (q.indexOf owner) back v).trans ?_
    exact add_le_add_left h _
  | putStoreTail v owner granted back =>
    cases hs
    rw [written_congr fun i j => congrFun (setBlock_ring (by rfl) i) j]
    exact h.trans (add_zero _).ge
  | _ =>
    rw [written_congr fun i j => (ownerStep_ring hs i j).resolve_right (by simp)]
    exact h.trans (by rw [add_assoc]; exact add_le_add_right (Multiset.zero_le _) _)

/-- **Only accepted values are in the slots.**  Only `put` writes slots, and it publishes what it
has written before the next write. -/
theorem reachable_paid [DecidableEq ι] {c : Config α ι} (hrun : Reachable q c) : Paid q c := by
  refine hrun.invariant (I := Paid q) ?_ ?_
  · have hnone : ∀ i j, ((Config.start α ι q).mem.blocks i).ring j = none := by
      intro i j
      by_cases hi : i = 0 <;> simp [Config.start, Mem.new, Block.reclaimed, Block.new, hi]
    simp [Paid, written, valuesIn, hnone, slotValue]
  · intro a b ih hs
    unfold Paid at ih ⊢
    cases hs with
    | pushCall v hidle | popCall hidle =>
      rw [hidle] at ih
      rw [accepted_append_zero rfl]
      exact ih
    | owner m pc evs hs => exact written_ownerStep ih hs
    | stealCall t hidle =>
      rw [accepted_append_zero rfl]
      exact ih
    | thief t m pc evs hs =>
      rw [accepted_append_zero (thiefStep_events hs none).1, written_congr (thiefStep_ring hs)]
      exact ih

/-! ### The queue at rest -/

section AtRest

variable [Fintype ι] {c : Config α ι} {L : ℕ} {lo : ℕ → ℕ}

omit [Fintype ι] in
theorem ownerStep_eq_none {m : Mem α} {pc : OwnerPc α} (h : ownerStep (ι := ι) q m pc = none) :
    pc.kind = .owned ∧ pc.unpublished = 0 := by
  cases pc <;> simp only [ownerStep] at h <;> (repeat' split at h) <;>
    first
      | exact ⟨rfl, rfl⟩
      | cases h

theorem claimed_atRest (h : c.AtRest q) : claimed c = 0 := by
  refine sum_eq_zero fun t _ => ?_
  have ht := h.2 t
  cases hpc : c.thieves t with
  | read block slot =>
    rw [hpc] at ht
    simp only [thiefStep] at ht
    split at ht <;> cases ht
  | count block v => rw [hpc] at ht; cases ht
  | _ => rfl

/-- **The destructor starts at the first live slot**, whatever state the block is in. -/
theorem Inv.mem_dropRange (h : Inv q c L lo) (hrest : c.AtRest q) {i j : ℕ}
    (hi : i < q.numBlocks) :
    j ∈ (c.mem.blocks i).dropRange ↔ lo i ≤ j ∧ j < (c.mem.blocks i).tail := by
  have hkind := (ownerStep_eq_none hrest.1).1
  have hstart : (c.mem.blocks i).dropStart = lo i := h.rest_boundary hi fun _ => by simp [hkind]
  have htail : slotOf (c.mem.blocks i).tail = (c.mem.blocks i).tail :=
    (TaggedWord.index_eq_mod _).trans (Nat.mod_eq_of_lt (lt_of_le_of_lt (h.layout.tail_le hi) q.size_lt))
  rw [Block.mem_dropRange, hstart, htail]

theorem Inv.total_inRanges (h : Inv q c L lo) (hrest : c.AtRest q) :
    accepted c.log = returned c.log + inRanges q c.mem := by
  rw [h.accounts.total, claimed_atRest hrest, add_zero]
  congr 1
  refine sum_congr rfl fun i hi => ?_
  have hi := mem_range.mp hi
  refine sum_congr ?_ fun _ _ => rfl
  ext j
  have htail := h.layout.tail_le hi
  simp only [mem_Ico, mem_filter, mem_range, h.mem_dropRange hrest hi]
  omega

end AtRest

/-- **Dropping the queue releases exactly the remaining values.**  In every configuration that
any interleaving reaches and in which no operation is in progress: the ranges of the destructor
are written slots of their blocks; the values in them, with the returned ones, are the accepted
ones; every value in a slot outside the ranges was returned, slot by slot; so for distinct
values a slot is in a range iff its value was accepted and not returned; and the destructor
runs through, dropping the value of every slot of the ranges once. -/
theorem drop_releases_remaining [Fintype ι] [DecidableEq ι] (q : Shape) (c : Config α ι)
    (hrun : Reachable q c) (hrest : c.AtRest q) :
    (∀ i < q.numBlocks, ∀ j ∈ (c.mem.blocks i).dropRange,
      j < q.blockSize ∧ ((c.mem.blocks i).ring j).isSome) ∧
    accepted c.log = returned c.log + inRanges q c.mem ∧
    outsideRanges q c.mem ≤ returned c.log ∧
    ((accepted c.log).Nodup → ∀ i < q.numBlocks, ∀ j < q.blockSize,
      (j ∈ (c.mem.blocks i).dropRange ↔
        ∃ v ∈ accepted c.log, v ∉ returned c.log ∧ (c.mem.blocks i).ring j = some v)) ∧
    ∃ dropped : List α, (dropped : Multiset α) = inRanges q c.mem ∧
      ∀ needsDrop, c.mem.drop q needsDrop = some (if needsDrop then dropped else []) := by
  obtain ⟨L, lo, h⟩ := reachable_inv hrun
  have hslots : ∀ i < q.numBlocks, ∀ j ∈ (c.mem.blocks i).dropRange,
      j < q.blockSize ∧ ((c.mem.blocks i).ring j).isSome := by
    intro i hi j hj
    obtain ⟨hlo, hlt⟩ := (h.mem_dropRange hrest hi).mp hj
    exact ⟨lt_of_lt_of_le hlt (h.layout.tail_le hi), h.accounts.filled i hi j hlo hlt⟩
  have htotal := h.total_inRanges hrest
  have hout : outsideRanges q c.mem ≤ returned c.log := by
    have hle := reachable_paid hrun
    unfold Paid at hle
    rw [(ownerStep_eq_none hrest.1).2, add_zero, written_eq, htotal, add_comm] at hle
    exact le_of_add_le_add_right hle
  refine ⟨hslots, htotal, hout, ?_, ?_⟩
  · intro hnodup i hi j hj
    rw [htotal, Multiset.nodup_add] at hnodup
    constructor
    · intro hin
      obtain ⟨v, hv⟩ := Option.isSome_iff_exists.mp (hslots i hi j hin).2
      have hrange : v ∈ inRanges q c.mem :=
        mem_valuesIn hi (mem_filter.mpr ⟨mem_range.mpr hj, hin⟩) hv
      refine ⟨v, ?_, fun hret => Multiset.disjoint_left.mp hnodup.2.2 hret hrange, hv⟩
      rw [htotal]
      exact Multiset.mem_add.mpr (.inr hrange)
    · rintro ⟨v, -, hret, hv⟩
      by_contra hnot
      have hstale : v ∈ outsideRanges q c.mem :=
        mem_valuesIn hi (mem_filter.mpr ⟨mem_range.mpr hj, hnot⟩) hv
      exact hret (Multiset.mem_of_le hout hstale)
  · obtain ⟨dropped, hdrop, hval⟩ := Mem.drop_eq hslots
    refine ⟨dropped, hval, fun needsDrop => ?_⟩
    cases needsDrop with
    | false => exact Mem.drop_trivial c.mem
    | true => exact hdrop

def pairShape : Shape := { smallShape with blockSize := 2, size_pos := Nat.two_pos, size_lt := by decide }

/-- Three pushes, the third of which grants the first block, and a steal of its first value. -/
def halfStolen (t : Fin 1) : List (Action ℕ (Fin 1)) :=
  .push 7 :: List.replicate 4 .owner ++ .push 8 :: List.replicate 4 .owner
    ++ .push 9 :: List.replicate 17 .owner ++ .steal t :: List.replicate 6 (.thief t)

theorem halfStolen_end :
    (Interleave.exec (act pairShape) (halfStolen 0) (Config.start ℕ (Fin 1) pairShape)).map
      (fun c => (c.owner, c.thieves 0, returned c.log, c.mem.drop pairShape true))
      = some (.idle, .idle, {7}, some [8, 9]) := by
  rfl

theorem drop_of_halfStolen :
    ∃ c : Config ℕ (Fin 1), Reachable pairShape c ∧ c.AtRest pairShape ∧ returned c.log = {7} ∧
      c.mem.drop pairShape true = some [8, 9] ∧
      accepted c.log = returned c.log + inRanges pairShape c.mem := by
  obtain ⟨c, hc, hend⟩ := Option.map_eq_some_iff.mp halfStolen_end
  have hrun : Reachable pairShape c := Interleave.Reachable.of_exec act_step (halfStolen 0) hc
  simp only [Prod.mk.injEq] at hend
  obtain ⟨howner, hthief, hret, hdrop⟩ := hend
  have hrest : c.AtRest pairShape := by
    refine ⟨by rw [howner]; rfl, fun t => ?_⟩
    rw [Subsingleton.elim t 0, hthief]
    rfl
  exact ⟨c, hrun, hrest, hret, hdrop, (drop_releases_remaining pairShape c hrun hrest).2.1⟩

/-- **The queue is bounded.** At most a full ring and one value per thief are accepted and not yet
returned. -/
theorem unreturned_bounded [Fintype ι] [DecidableEq ι] (q : Shape) (c : Config α ι)
    (hrun : Reachable q c) :
    (accepted c.log).card ≤ (returned c.log).card + (Fintype.card ι + q.numBlocks * q.blockSize) := by
  obtain ⟨L, lo, h⟩ := reachable_inv hrun
  have hvalue : ∀ o : Option α, (slotValue o).card ≤ 1 := fun o => by cases o <;> simp [slotValue]
  have hthief : ∀ t ∈ univ, (claimedBy c.mem (c.thieves t)).card ≤ 1 := by
    intro t _
    unfold claimedBy
    split <;> simp [hvalue]
  have hblock : ∀ i ∈ range q.numBlocks, ((c.mem.blocks i).stored (lo i)).card ≤ q.blockSize := by
    intro i hi
    have htail := h.layout.tail_le (mem_range.mp hi)
    rw [Block.stored, Multiset.card_sum]
    refine (sum_le_card_nsmul _ _ 1 fun j _ => hvalue _).trans ?_
    simp
    omega
  have hc := sum_le_card_nsmul _ _ _ hthief
  have hs := sum_le_card_nsmul _ _ _ hblock
  rw [h.accounts.total, claimed]
  simp only [Multiset.card_add, Multiset.card_sum]
  simp at hc hs
  omega

theorem unreturned_of_halfStolen :
    ∃ c : Config ℕ (Fin 1), Reachable pairShape c ∧ (accepted c.log).card ≤ 6 := by
  obtain ⟨c, hc, hend⟩ := Option.map_eq_some_iff.mp halfStolen_end
  have hrun : Reachable pairShape c := Interleave.Reachable.of_exec act_step (halfStolen 0) hc
  have hle := unreturned_bounded pairShape c hrun
  simp only [Prod.mk.injEq] at hend
  rw [hend.2.2.1] at hle
  exact ⟨c, hrun, hle⟩

end Rskynet.Bwos
