import Rskynet.Bwos.Layout
import Mathlib.Algebra.BigOperators.Intervals

/-!
# What the queue holds: accepted, returned, claimed and live values

The history of a run fixes the values accepted by `push_back` and those returned by `pop_back` or
`steal_front`; the state fixes those claimed by thieves that have won their compare-and-swap and
not yet returned, and those in live slots. Exactly-once delivery equates the four.
-/

namespace Rskynet.Bwos

open scoped BigOperators
open Function (update update_eq_self update_of_ne update_self)
open Interleave Finset

variable {α ι : Type*} {q : Shape}
variable {pc : OwnerPc α}
variable {i : ℕ}

/-! ### Reading the history -/

def Event.accepted? : Event α ι → Option α
  | .pushed v _ => some v
  | _ => none

def Event.returned? : Event α ι → Option α
  | .popped v => some v
  | .stole _ v => some v
  | _ => none

def accepted (log : List (Event α ι)) : Multiset α := ↑(log.filterMap Event.accepted?)

def returned (log : List (Event α ι)) : Multiset α := ↑(log.filterMap Event.returned?)

theorem accepted_append (l l' : List (Event α ι)) :
    accepted (l ++ l') = accepted l + accepted l' := by
  simp [accepted]

theorem returned_append (l l' : List (Event α ι)) :
    returned (l ++ l') = returned l + returned l' := by
  simp [returned]

theorem accepted_append_zero {l l' : List (Event α ι)} (h : accepted l' = 0) :
    accepted (l ++ l') = accepted l := by
  rw [accepted_append, h, add_zero]

theorem returned_append_zero {l l' : List (Event α ι)} (h : returned l' = 0) :
    returned (l ++ l') = returned l := by
  rw [returned_append, h, add_zero]

/-! ### Reading the state -/

def slotValue : Option α → Multiset α
  | none => 0
  | some v => {v}

/-- The values in the slots of a block from `lo` up to its tail. -/
def Block.stored (b : Block α) (lo : ℕ) : Multiset α :=
  ∑ j ∈ Finset.Ico lo b.tail, slotValue (b.ring j)

/-- What one thief has claimed: the slot it won, or the value it read from it. -/
def claimedBy (m : Mem α) : ThiefPc α → Multiset α
  | .read block slot => slotValue ((m.blocks block).ring slot)
  | .count _ v => {v}
  | _ => 0

def claimed [Fintype ι] (c : Config α ι) : Multiset α := ∑ t, claimedBy c.mem (c.thieves t)

/-- The first live slot of block `i`.  At rest it is the smaller of the two boundary indices;
during a handover the boundary is in the owner's register, and a block between the first two
stores of `reclaim` has no live slot. -/
def firstLive (q : Shape) (c : Config α ι) (i : ℕ) : ℕ :=
  let b := c.mem.blocks i
  let rest := min (slotOf b.head) (slotOf b.stealTail)
  match c.owner with
  | .grantStore _ owner _ oldHead => if q.indexOf owner = i then slotOf oldHead else rest
  | .takeoverStore predecessor spos => if q.indexOf predecessor = i then slotOf spos else rest
  | .reclaimTail _ next => if q.indexOf next = i then b.tail else rest
  | _ => rest

def live (q : Shape) (c : Config α ι) : Multiset α :=
  ∑ i ∈ Finset.range q.numBlocks, (c.mem.blocks i).stored (firstLive q c i)

/-! ### The balance -/

/-- The registers of a thief: a thief about to compare-and-swap holds a slot below the block
size, and a thief in flight on a block reads a written slot below the boundary. -/
def ThiefOk (q : Shape) (m : Mem α) (lo : ℕ → ℕ) : ThiefPc α → Prop
  | .loadTail _ spos => slotOf spos ≠ q.blockSize
  | .cas _ spos => slotOf spos ≠ q.blockSize
  | .read block slot =>
      block < q.numBlocks ∧ slot < lo block ∧ ((m.blocks block).ring slot).isSome
  | .count block _ => block < q.numBlocks
  | .undefinedRead => False
  | _ => True

/-- The balance of the queue for a boundary function `lo`. -/
structure Accounts [Fintype ι] (q : Shape) (c : Config α ι) (lo : ℕ → ℕ) : Prop where
  thieves : ∀ t, ThiefOk q c.mem lo (c.thieves t)
  filled : ∀ i < q.numBlocks, ∀ j, lo i ≤ j → j < (c.mem.blocks i).tail →
    ((c.mem.blocks i).ring j).isSome
  total : accepted c.log = returned c.log + claimed c
    + ∑ i ∈ Finset.range q.numBlocks, (c.mem.blocks i).stored (lo i)

theorem slotValue_isSome {o : Option α} (h : o.isSome) : ∃ v, o = some v ∧ slotValue o = {v} := by
  obtain ⟨v, rfl⟩ := Option.isSome_iff_exists.mp h
  exact ⟨v, rfl, rfl⟩

theorem Mem.setBlock_self (m : Mem α) (i : ℕ) (b : Block α) : (m.setBlock i b).blocks i = b := by
  simp [Mem.setBlock]

theorem setBlock_ring {m : Mem α} {b : Block α} (h : b.ring = (m.blocks i).ring) (i' : ℕ) :
    ((m.setBlock i b).blocks i').ring = (m.blocks i').ring := by
  by_cases hi : i' = i
  · subst hi; simpa [Mem.setBlock] using h
  · simp [Mem.setBlock, hi]

theorem setBlock_tail {m : Mem α} {b : Block α} (h : b.tail = (m.blocks i).tail) (i' : ℕ) :
    ((m.setBlock i b).blocks i').tail = (m.blocks i').tail := by
  by_cases hi : i' = i
  · subst hi; simpa [Mem.setBlock] using h
  · simp [Mem.setBlock, hi]

theorem claimedBy_congr {m m' : Mem α} (h : ∀ i, (m'.blocks i).ring = (m.blocks i).ring)
    (p : ThiefPc α) : claimedBy m' p = claimedBy m p := by
  cases p <;> simp only [claimedBy, h]

theorem ThiefOk.congr {m m' : Mem α} {lo lo' : ℕ → ℕ} {p : ThiefPc α} (h : ThiefOk q m lo p)
    (hring : ∀ i, (m'.blocks i).ring = (m.blocks i).ring) (hlo : ∀ i, lo i ≤ lo' i) :
    ThiefOk q m' lo' p := by
  cases p with
  | read b j =>
    obtain ⟨hb, hj, hs⟩ := h
    refine ⟨hb, lt_of_lt_of_le hj (hlo b), ?_⟩
    rw [hring b]
    exact hs
  | _ => exact h

theorem thiefOk_update [DecidableEq ι] {m : Mem α} {lo : ℕ → ℕ} {thieves : ι → ThiefPc α} {t : ι}
    {p : ThiefPc α} (hself : ThiefOk q m lo p) (hothers : ∀ t', ThiefOk q m lo (thieves t')) :
    ∀ t', ThiefOk q m lo (update thieves t p t') :=
  (Function.forall_update_iff thieves fun _ x => ThiefOk q m lo x).mpr
    ⟨hself, fun t' _ => hothers t'⟩

theorem sum_stored_update (m : Mem α) (lo : ℕ → ℕ) (hi : i < q.numBlocks) (b : Block α) (l : ℕ) :
    ∑ j ∈ range q.numBlocks,
        ((m.setBlock i b).blocks j).stored (update lo i l j)
      + (m.blocks i).stored (lo i)
      = ∑ j ∈ range q.numBlocks, (m.blocks j).stored (lo j) + b.stored l := by
  have hi' : i ∈ range q.numBlocks := mem_range.mpr hi
  have hcomp : (fun j => ((m.setBlock i b).blocks j).stored (update lo i l j))
      = update (fun j => (m.blocks j).stored (lo j)) i (b.stored l) := by
    funext j
    by_cases hj : j = i
    · subst hj; simp [Mem.setBlock]
    · simp [Mem.setBlock, hj]
  rw [hcomp, sum_update_of_mem hi', sdiff_singleton_eq_erase,
    ← add_sum_erase _ (fun j => (m.blocks j).stored (lo j)) hi']
  abel

namespace Accounts

variable [Fintype ι] {c : Config α ι} {lo : ℕ → ℕ}

/-! ### Steps that move no value -/

/-- Nothing reads a slot that is neither below the boundary nor below the tail. -/
theorem congr (h : Accounts q c lo) {c' : Config α ι}
    (hring : ∀ i j, j < lo i ∨ j < (c.mem.blocks i).tail →
      (c'.mem.blocks i).ring j = (c.mem.blocks i).ring j)
    (htail : ∀ i, (c'.mem.blocks i).tail = (c.mem.blocks i).tail)
    (hthieves : c'.thieves = c.thieves) (hacc : accepted c'.log = accepted c.log)
    (hret : returned c'.log = returned c.log) : Accounts q c' lo := by
  have hthief : ∀ t, ThiefOk q c'.mem lo (c.thieves t) ∧
      claimedBy c'.mem (c.thieves t) = claimedBy c.mem (c.thieves t) := by
    intro t
    have ht := h.thieves t
    revert ht
    cases c.thieves t with
    | read b j =>
      intro ⟨hb, hj, hsome⟩
      have heq := hring b j (.inl hj)
      exact ⟨⟨hb, hj, by rwa [heq]⟩, congrArg slotValue heq⟩
    | _ => intro ht; exact ⟨ht, rfl⟩
  have hclaim : claimed c' = claimed c := by
    unfold claimed
    rw [hthieves]
    exact sum_congr rfl fun t _ => (hthief t).2
  have hstored : ∀ i, (c'.mem.blocks i).stored (lo i) = (c.mem.blocks i).stored (lo i) := by
    intro i
    unfold Block.stored
    rw [htail i]
    exact sum_congr rfl fun j hj => congrArg slotValue (hring i j (.inr (mem_Ico.mp hj).2))
  refine ⟨?_, ?_, ?_⟩
  · intro t
    rw [hthieves]
    exact (hthief t).1
  · intro i hi j hj hj'
    rw [htail i] at hj'
    rw [hring i j (.inr hj')]
    exact h.filled i hi j hj hj'
  · rw [hacc, hret, hclaim, sum_congr rfl fun i _ => hstored i]
    exact h.total

theorem rewriteBlock (h : Accounts q c lo) {b : Block α} (hring : b.ring = (c.mem.blocks i).ring)
    (htail : b.tail = (c.mem.blocks i).tail) :
    Accounts q { c with mem := c.mem.setBlock i b, owner := pc } lo :=
  h.congr (fun i j _ => congrFun (setBlock_ring hring i) j) (setBlock_tail htail) rfl rfl rfl

theorem moveThief [DecidableEq ι] (h : Accounts q c lo) (t : ι) {pc : ThiefPc α}
    {evs : List (Event α ι)} (hok : ThiefOk q c.mem lo pc)
    (hclaim : claimedBy c.mem pc = claimedBy c.mem (c.thieves t))
    (hacc : accepted evs = 0) (hret : returned evs = 0) :
    Accounts q { c with thieves := update c.thieves t pc, log := c.log ++ evs } lo := by
  refine ⟨thiefOk_update hok h.thieves, h.filled, ?_⟩
  · have hsum : claimed { c with thieves := update c.thieves t pc, log := c.log ++ evs }
        = claimed c :=
      sum_update_of_eq c.thieves t pc (claimedBy c.mem) hclaim
    rw [accepted_append_zero hacc, returned_append_zero hret, hsum]
    exact h.total

/-! ### The owner's moves -/

theorem write (h : Accounts q c lo) (hlo : lo i ≤ (c.mem.blocks i).tail) (v : α) :
    Accounts q { c with
      mem := c.mem.setBlock i { c.mem.blocks i with
        ring := update (c.mem.blocks i).ring (c.mem.blocks i).tail (some v) },
      owner := pc } lo := by
  refine h.congr (fun i' j hj => ?_) (setBlock_tail (by rfl)) rfl rfl rfl
  by_cases hi : i' = i
  · subst hi
    have hne : j ≠ (c.mem.blocks i').tail := by omega
    simp [Mem.setBlock, hne]
  · simp [Mem.setBlock, hi]

/-- **One block is rewritten**, its ring apart, and its boundary moves.  The values `a` come in and
the values `r` go out to thieves and callers, as the slots of the block show. -/
theorem replace (h : Accounts q c lo) (hi : i < q.numBlocks) {c' : Config α ι} {b : Block α}
    (hmem : c'.mem = c.mem.setBlock i b) (hring : b.ring = (c.mem.blocks i).ring) {l : ℕ}
    (hok : ∀ t, ThiefOk q c.mem (update lo i l) (c'.thieves t))
    (hfill : ∀ j, l ≤ j → j < b.tail → ((c.mem.blocks i).ring j).isSome) {a r : Multiset α}
    (hacc : accepted c'.log = accepted c.log + a)
    (hout : returned c'.log + ∑ t, claimedBy c.mem (c'.thieves t) = returned c.log + claimed c + r)
    (hstored : (c.mem.blocks i).stored (lo i) + a = b.stored l + r) :
    Accounts q c' (update lo i l) := by
  have hsame : ∀ i', (c'.mem.blocks i').ring = (c.mem.blocks i').ring := by
    rw [hmem]
    exact setBlock_ring hring
  refine ⟨fun t => (hok t).congr hsame fun _ => le_rfl, ?_, ?_⟩
  · intro i' hi' j hj hj'
    rw [hsame i']
    rw [hmem] at hj'
    by_cases hii : i' = i
    · subst hii
      rw [update_self] at hj
      rw [Mem.setBlock_self] at hj'
      exact hfill j hj hj'
    · rw [update_of_ne hii] at hj
      simp only [Mem.setBlock, update_of_ne hii] at hj'
      exact h.filled i' hi' j hj hj'
  · have hclaim : claimed c' = ∑ t, claimedBy c.mem (c'.thieves t) :=
      sum_congr rfl fun t _ => claimedBy_congr hsame _
    have hsum := sum_stored_update c.mem lo hi b l
    rw [← hmem] at hsum
    set before := ∑ j ∈ range q.numBlocks, (c.mem.blocks j).stored (lo j)
    set after := ∑ j ∈ range q.numBlocks, (c'.mem.blocks j).stored (update lo i l j)
    have hmove : before + a = after + r := by
      refine add_right_cancel (b := b.stored l) ?_
      calc before + a + b.stored l = before + b.stored l + a := add_right_comm _ _ _
        _ = after + ((c.mem.blocks i).stored (lo i) + a) := by rw [← hsum, add_assoc]
        _ = after + r + b.stored l := by rw [hstored]; abel
    rw [hacc, hclaim, hout, h.total, add_assoc, hmove]
    abel

/-- **A push is accepted**: the tail passes the slot just written. -/
theorem push (h : Accounts q c lo) (hi : i < q.numBlocks) (hlo : lo i ≤ (c.mem.blocks i).tail)
    {v : α} (hv : (c.mem.blocks i).ring (c.mem.blocks i).tail = some v) (granted : Bool) :
    Accounts q { c with
      mem := c.mem.setBlock i { c.mem.blocks i with tail := (c.mem.blocks i).tail + 1 },
      owner := pc, log := c.log ++ [.pushed v granted] } lo := by
  rw [← update_eq_self i lo]
  refine h.replace hi (a := {v}) (r := 0) (by rfl) (by rfl) ?_ ?_ (accepted_append _ _) ?_ ?_
  · rw [update_eq_self]
    exact h.thieves
  · intro j hj hj'
    rcases Nat.lt_succ_iff_lt_or_eq.mp hj' with hlt | rfl
    · exact h.filled i hi j hj hlt
    · rw [hv]; rfl
  · rw [returned_append]
    exact add_right_comm _ _ _
  · unfold Block.stored
    rw [sum_Ico_succ_top hlo, hv, add_zero]
    rfl

/-- **A pop returns**: the tail steps back over the slot just read. -/
theorem pop (h : Accounts q c lo) (hi : i < q.numBlocks) (hlo : lo i < (c.mem.blocks i).tail)
    {v : α} (hv : (c.mem.blocks i).ring ((c.mem.blocks i).tail - 1) = some v) :
    Accounts q { c with
      mem := c.mem.setBlock i { c.mem.blocks i with tail := (c.mem.blocks i).tail - 1 },
      owner := pc, log := c.log ++ [.popped v] } lo := by
  rw [← update_eq_self i lo]
  refine h.replace hi (a := 0) (r := {v}) (by rfl) (by rfl) ?_ ?_ (accepted_append _ _) ?_ ?_
  · rw [update_eq_self]
    exact h.thieves
  · intro j hj hj'
    exact h.filled i hi j hj (Nat.lt_of_lt_pred hj')
  · rw [returned_append]
    exact add_right_comm _ _ _
  · unfold Block.stored
    obtain ⟨n, hn⟩ : ∃ n, (c.mem.blocks i).tail = n + 1 := ⟨(c.mem.blocks i).tail - 1, by omega⟩
    rw [hn] at hv hlo ⊢
    rw [sum_Ico_succ_top (by omega), add_zero]
    simp only [Nat.add_sub_cancel] at hv ⊢
    rw [hv]
    rfl

/-- **A reset moves nothing**: a block with no live slot and no thief in flight restarts. -/
theorem reset (h : Accounts q c lo) (hi : i < q.numBlocks) (hlo : lo i = (c.mem.blocks i).tail)
    (hfree : ∀ t j, c.thieves t ≠ .read i j) :
    Accounts q { c with
      mem := c.mem.setBlock i { c.mem.blocks i with tail := 0 }, owner := pc }
      (update lo i 0) := by
  refine h.replace hi (a := 0) (r := 0) (by rfl) (by rfl) ?_ ?_ (add_zero _).symm (add_zero _).symm ?_
  · intro t
    have ht := h.thieves t
    have hne := hfree t
    revert ht hne
    cases c.thieves t with
    | read b j =>
      intro ⟨hb, hj, hsome⟩ hne
      have hbi : b ≠ i := by rintro rfl; exact hne j rfl
      exact ⟨hb, by rwa [update_of_ne hbi], hsome⟩
    | _ => intro ht _; exact ht
  · intro j _ hj
    exact absurd hj (Nat.not_lt_zero j)
  · simp [Block.stored, hlo]

/-! ### The thieves' moves -/

/-- **A thief claims**: the boundary passes the first live slot. -/
theorem claim [DecidableEq ι] (h : Accounts q c lo) (hi : i < q.numBlocks)
    (hlo : lo i < (c.mem.blocks i).tail) (t : ι) (hpc : claimedBy c.mem (c.thieves t) = 0) (w : ℕ) :
    Accounts q { c with
      mem := c.mem.setBlock i { c.mem.blocks i with stealTail := w },
      thieves := update c.thieves t (.read i (lo i)) }
      (update lo i (lo i + 1)) := by
  have hlole : ∀ i', lo i' ≤ update lo i (lo i + 1) i' := by
    intro i'
    by_cases hii : i' = i
    · subst hii; simp
    · simp [hii]
  refine h.replace hi (a := 0) (r := claimedBy c.mem (.read i (lo i))) (by rfl) (by rfl) ?_ ?_
    (add_zero _).symm ?_ ?_
  · refine thiefOk_update ⟨hi, ?_, h.filled i hi (lo i) le_rfl hlo⟩ fun t' => ?_
    · rw [update_self]
      omega
    · exact (h.thieves t').congr (fun _ => rfl) hlole
  · intro j hj hj'
    exact h.filled i hi j (Nat.le_of_succ_le hj) hj'
  · have hsumT := sum_update_add c.thieves t (.read i (lo i)) (claimedBy c.mem)
    rw [hpc, add_zero] at hsumT
    rw [add_assoc]
    exact congrArg (returned c.log + ·) hsumT
  · unfold Block.stored
    rw [sum_eq_sum_Ico_succ_bot hlo, add_zero, add_comm]
    rfl

/-- **A steal returns**: the thief reports the slot as read and hands out its value. -/
theorem steal [DecidableEq ι] (h : Accounts q c lo) (hi : i < q.numBlocks) (t : ι) {v : α}
    (hpc : c.thieves t = .count i v) (n : ℕ) :
    Accounts q { c with
      mem := c.mem.setBlock i { c.mem.blocks i with stealCount := n },
      thieves := update c.thieves t .idle, log := c.log ++ [.stole t v] } lo := by
  rw [← update_eq_self i lo]
  refine h.replace hi (a := 0) (r := 0) (by rfl) (by rfl) ?_ ?_ (accepted_append _ _) ?_ (by rfl)
  · rw [update_eq_self]
    exact thiefOk_update trivial h.thieves
  · exact h.filled i hi
  · have hsumT := sum_update_add c.thieves t .idle (claimedBy c.mem)
    rw [hpc] at hsumT
    rw [returned_append, add_zero, add_assoc, add_comm (returned [Event.stole t v])]
    exact congrArg (returned c.log + ·) (hsumT.trans (add_zero _))

end Accounts

end Rskynet.Bwos
