import Rskynet.Bwos.Invariant

/-!
# The owner preserves the invariant

One lemma for each atomic operation of `push_back` and `pop_back`, in program order, the boundary
operations in their own sections. `Inv.ownerStep` collects them.
-/

namespace Rskynet.Bwos

open Function (update_self)
open List

variable {owner next predecessor : ℕ}

variable {α ι : Type*} {q : Shape}
variable {v : α} {m : Mem α} {pc : OwnerPc α} {evs : List (Event α ι)}

namespace Inv

variable [Fintype ι] {c : Config α ι} {L : ℕ} {lo : ℕ → ℕ}

theorem here (h : Inv q { c with owner := pc } L lo) : Regs q c.mem lo L pc ∧
    Kind.Holds q (c.mem.blocks (q.indexOf L)) (q.generationOf L) (lo (q.indexOf L))
      (inFlight c.thieves (q.indexOf L)) pc.kind ∧
    Layout q c.mem (inFlight c.thieves) L lo pc.kind :=
  ⟨h.regs, h.layout.current, h.layout⟩

/-- Every step of the owner from `now` preserves the invariant. -/
def Kept (q : Shape) (c : Config α ι) (now : OwnerPc α) : Prop :=
  ∀ L lo m pc evs, Inv q { c with owner := now } L lo →
    Bwos.ownerStep q c.mem now = some (m, pc, evs) →
    ∃ L' lo', Inv q { c with mem := m, owner := pc, log := c.log ++ evs } L' lo'

/-! ### `push_back` inside one block -/

theorem step_pushLoadLast : Kept q c (.pushLoadLast v) := by
  intro L lo m pc evs h hs
  cases hs
  obtain ⟨hr, hc, -⟩ := h.here
  exact h.stay hc ⟨hr, hr⟩ rfl rfl

theorem step_putLoadTail {granted : Bool} : Kept q c (.putLoadTail v owner granted) := by
  intro L lo m pc evs h hs
  obtain ⟨⟨rfl, hlast⟩, hc, -⟩ := h.here
  have htail : (c.mem.blocks (q.indexOf owner)).tail ≤ q.blockSize := hc.tail_le
  simp only [ownerStep] at hs
  split at hs
  · next hlt =>
    cases hs
    exact h.stay hc ⟨rfl, hlast, rfl, hlt⟩ rfl rfl
  · next hge =>
    split at hs
    · cases hs
      exact h.stay hc hlast rfl rfl
    · next next hnext =>
      obtain ⟨rfl, hgen⟩ := q.nextSequence_eq_some hnext
      rw [if_neg (q.indexOf_succ_ne owner)] at hs
      cases hs
      exact h.stay hc ⟨rfl, hlast, rfl, hgen, by omega⟩ rfl rfl

theorem step_putWrite {back : ℕ} {granted : Bool} : Kept q c (.putWrite v owner granted back) := by
  intro L lo m pc evs h hs
  cases hs
  obtain ⟨⟨rfl, hlast, rfl, hlt⟩, hc, -⟩ := h.here
  rw [append_nil]
  refine ⟨_, _, h.layout.rewriteCurrent .owned hc, ⟨rfl, hlast, ?_, hlt, ?_⟩,
    h.accounts.write hc.lo_le_tail v⟩
  · rw [Mem.setBlock_self]
  · rw [Mem.setBlock_self]
    exact update_self ..

theorem step_putStoreTail {back : ℕ} {granted : Bool} : Kept q c (.putStoreTail v owner granted back) := by
  intro L lo m pc evs h hs
  cases hs
  obtain ⟨⟨rfl, hlast, rfl, hlt, hv⟩, ⟨h1, h2, h3, h4, h5⟩, -⟩ := h.here
  exact ⟨_, _, h.layout.rewriteCurrent .owned ⟨h1, h2, Nat.le_succ_of_le h3, hlt, h5⟩, hlast,
    h.accounts.push (q.indexOf_lt owner) h3 hv granted⟩

/-! ### `advance_put_index` up to the grant -/

theorem step_putLoadWritable : Kept q c (.putLoadWritable v owner next) := by
  intro L lo m pc evs h hs
  obtain ⟨⟨rfl, hlast, rfl, hgen, htail⟩, hc, -⟩ := h.here
  simp only [ownerStep] at hs
  split at hs
  · next hw =>
    cases hs
    refine h.stay hc ⟨rfl, hlast, rfl, hgen, htail, ?_⟩ rfl rfl
    intro hfull
    -- the next block is the first of the window, granted one generation ago
    have htwo := q.two_le
    have hSL : c.mem.startBlock < owner := by omega
    have hg : q.generationOf c.mem.startBlock ≤ maxGeneration :=
      le_trans (q.generationOf_mono hSL.le) h.layout.generation_le
    obtain ⟨-, h2, h3, -, -⟩ := h.layout.granted c.mem.startBlock le_rfl hSL
    rw [hfull, q.indexOf_add, q.generationOf_add, h2, writableWord_succ hg] at hw
    have hsize := q.size_lt
    exact (word_inj hg (by omega) hg q.size_lt hw).2
  · cases hs
    exact h.stay hc hlast rfl rfl

theorem step_putLoadStart : Kept q c (.putLoadStart v owner next) := by
  intro L lo m pc evs h hs
  obtain ⟨⟨rfl, hlast, rfl, hgen, htail, hfull⟩, hc, hlay⟩ := h.here
  have hL := hlay.start_le
  have hL' := hlay.lt_end
  simp only [ownerStep] at hs
  split at hs
  · next hidx =>
    -- the start block is reused exactly when the window is full
    have hend : owner + 1 = c.mem.startBlock + q.numBlocks := by
      by_contra hne
      have := q.indexOf_inj (S := c.mem.startBlock) (by omega) (by omega) le_rfl
        (by have := q.numBlocks_pos; omega) hidx
      omega
    split at hs
    · cases hs
      exact h.stay hc hlast rfl rfl
    · next start hstart =>
      obtain ⟨rfl, -⟩ := q.nextSequence_eq_some hstart
      cases hs
      exact h.stay hc ⟨rfl, hlast, rfl, hgen, htail, hend, hfull hend, rfl⟩ rfl rfl
  · next hidx =>
    cases hs
    refine h.stay hc ⟨rfl, hlast, rfl, hgen, htail, ?_⟩ rfl rfl
    by_contra hge
    have hend : owner + 1 = c.mem.startBlock + q.numBlocks := by omega
    exact hidx (by rw [hend, q.indexOf_add])

theorem step_putStoreStart {start : ℕ} : Kept q c (.putStoreStart v owner next start) := by
  intro L lo m pc evs h hs
  cases hs
  obtain ⟨⟨rfl, hlast, rfl, hgen, htail, hend, hex, rfl⟩, -, hlay⟩ := h.here
  rw [append_nil]
  refine ⟨_, _, hlay.advanceStart hend hex, ⟨rfl, hlast, rfl, hgen, htail, ?_⟩,
    h.accounts.congr (fun _ _ _ => rfl) (fun _ => rfl) rfl rfl rfl⟩
  show owner + 1 < c.mem.startBlock + 1 + q.numBlocks
  omega

/-! ### `grant` -/

theorem step_grantLoad : Kept q c (.grantLoad v owner next) := by
  intro L lo m pc evs h hs
  cases hs
  obtain ⟨⟨rfl, hlast, rfl, hgen, htail, hlt⟩, hc, -⟩ := h.here
  exact h.stay hc ⟨rfl, hlast, rfl, hgen, htail, hlt, hc.2.1⟩ rfl rfl

theorem step_grantSwap {blockEnd : ℕ} : Kept q c (.grantSwap v owner next blockEnd) := by
  intro L lo m pc evs h hs
  cases hs
  obtain ⟨⟨rfl, hlast, rfl, hgen, htail, hlt, rfl⟩, ⟨h1, h2, h3, h4, h5⟩, -⟩ := h.here
  exact h.rewrite rfl rfl ⟨rfl, h2, le_trans h3 h4, htail, h5⟩ ⟨rfl, hlast, rfl, hgen, hlt, h1⟩

theorem step_grantStore {oldHead : ℕ} : Kept q c (.grantStore v owner next oldHead) := by
  intro L lo m pc evs h hs
  cases hs
  obtain ⟨⟨rfl, hlast, rfl, hgen, hlt, rfl⟩, ⟨h1, h2, h3, h4, h5⟩, -⟩ := h.here
  rw [append_nil]
  refine ⟨owner + 1, lo, (h.layout.rewriteCurrent .granted ?_).forward hlt hgen, ⟨rfl, ?_⟩,
    h.accounts.rewriteBlock (by rfl) (by rfl)⟩
  · exact ⟨h1, rfl, h3, h4, h5⟩
  · show c.mem.lastBlock + 1 = owner + 1
    rw [hlast]

/-! ### `reclaim` -/

theorem step_reclaimLoadHead : Kept q c (.reclaimLoadHead v next) := by
  intro L lo m pc evs h hs
  cases hs
  obtain ⟨⟨rfl, hlast⟩, hc, -⟩ := h.here
  exact h.stay hc ⟨rfl, hlast, hc.1⟩ rfl rfl

theorem step_reclaimSpin {expected : ℕ} : Kept q c (.reclaimSpin v next expected) := by
  intro L lo m pc evs h hs
  obtain ⟨⟨rfl, hlast, rfl⟩, hc, -⟩ := h.here
  simp only [ownerStep] at hs
  split at hs
  · next heq =>
    cases hs
    obtain ⟨h1, h2, h3, h4, h5⟩ := hc
    exact h.stay ⟨h1, h2, h3, h4, by omega⟩ ⟨rfl, hlast⟩ rfl rfl
  · cases hs
    exact h.stay hc ⟨rfl, hlast, rfl⟩ rfl rfl

theorem step_reclaimHead : Kept q c (.reclaimHead v next) := by
  intro L lo m pc evs h hs
  cases hs
  obtain ⟨⟨rfl, hlast⟩, ⟨h1, h2, h3, h4, h5⟩, -⟩ := h.here
  exact h.rewrite rfl rfl ⟨rfl, h2, h3, h4, h5⟩ ⟨rfl, hlast⟩

theorem step_reclaimTail : Kept q c (.reclaimTail v next) := by
  intro L lo m pc evs h hs
  cases hs
  obtain ⟨⟨rfl, hlast⟩, ⟨h1, h2, h3, h4, h5⟩, -⟩ := h.here
  rw [append_nil]
  refine ⟨_, _, h.layout.setCurrent .resetTail ⟨h1, h2, rfl, rfl, h5⟩, ⟨rfl, hlast⟩, ?_⟩
  refine h.accounts.reset (q.indexOf_lt next) h4.symm ?_
  intro t j hread
  have hfly := Interleave.tally_eq_zero h5 t
  rw [hread] at hfly
  simp [ThiefPc.inFlightOn] at hfly

theorem step_reclaimStealTail : Kept q c (.reclaimStealTail v next) := by
  intro L lo m pc evs h hs
  cases hs
  obtain ⟨⟨rfl, hlast⟩, ⟨h1, h2, h3, h4, h5⟩, -⟩ := h.here
  exact h.rewrite rfl rfl ⟨h1, rfl, h3, h4, h5⟩ ⟨rfl, hlast⟩

theorem step_reclaimCount : Kept q c (.reclaimCount v next) := by
  intro L lo m pc evs h hs
  cases hs
  obtain ⟨⟨rfl, hlast⟩, ⟨h1, h2, h3, h4, h5⟩, -⟩ := h.here
  refine h.rewrite rfl rfl ⟨?_, h2, ?_, ?_, ?_⟩ ⟨rfl, hlast⟩
  · rw [h3]; exact h1
  · rw [h3]; exact Nat.zero_le _
  · rw [h4]; exact Nat.zero_le _
  · rw [h3, h5]

theorem step_putStoreLast : Kept q c (.putStoreLast v next) := by
  intro L lo m pc evs h hs
  cases hs
  obtain ⟨⟨rfl, hlast⟩, -, hlay⟩ := h.here
  rw [append_nil]
  exact ⟨_, _, hlay.setLast next, ⟨rfl, rfl⟩,
    h.accounts.congr (fun _ _ _ => rfl) (fun _ => rfl) rfl rfl rfl⟩

/-! ### `pop_back` inside one block -/

theorem step_popLoadLast : Kept q c .popLoadLast := by
  intro L lo m pc evs h hs
  cases hs
  obtain ⟨hr, hc, -⟩ := h.here
  exact h.stay hc ⟨hr, hr⟩ rfl rfl

theorem step_getLoadTail : Kept q c (.getLoadTail owner) := by
  intro L lo m pc evs h hs
  obtain ⟨⟨rfl, hlast⟩, hc, -⟩ := h.here
  have hlo : lo (q.indexOf owner) ≤ (c.mem.blocks (q.indexOf owner)).tail := hc.lo_le_tail
  simp only [ownerStep] at hs
  split at hs
  · next hz =>
    cases hs
    exact h.stay hc ⟨rfl, hlast, by omega⟩ rfl rfl
  · cases hs
    exact h.stay hc ⟨rfl, hlast, rfl⟩ rfl rfl

theorem step_getLoadHead {back : ℕ} : Kept q c (.getLoadHead owner back) := by
  intro L lo m pc evs h hs
  obtain ⟨⟨rfl, hlast, rfl⟩, hc, -⟩ := h.here
  have hlo : lo (q.indexOf owner) ≤ (c.mem.blocks (q.indexOf owner)).tail := hc.lo_le_tail
  have hsize := q.size_lt
  have htail : (c.mem.blocks (q.indexOf owner)).tail ≤ q.blockSize := hc.tail_le
  have hhead : slotOf (c.mem.blocks (q.indexOf owner)).head = lo (q.indexOf owner) := by
    rw [hc.1]
    exact slotOf_word h.layout.generation_le (by omega)
  simp only [ownerStep, hhead] at hs
  split at hs
  · next heq =>
    cases hs
    exact h.stay hc ⟨rfl, hlast, heq.symm⟩ rfl rfl
  · next hne =>
    cases hs
    exact h.stay hc ⟨rfl, hlast, rfl, by omega⟩ rfl rfl

theorem step_getRead {back : ℕ} : Kept q c (.getRead owner back) := by
  intro L lo m pc evs h hs
  obtain ⟨⟨rfl, hlast, rfl, hlt⟩, hc, -⟩ := h.here
  set back := (c.mem.blocks (q.indexOf owner)).tail
  have hsome : ((c.mem.blocks (q.indexOf owner)).ring (back - 1)).isSome :=
    h.accounts.filled _ (q.indexOf_lt owner) _ (Nat.le_sub_one_of_lt hlt) (Nat.sub_one_lt_of_lt hlt)
  obtain ⟨v, hv, -⟩ := slotValue_isSome hsome
  simp only [ownerStep, hv] at hs
  cases hs
  exact h.stay hc ⟨rfl, hlast, rfl, hlt, hv⟩ rfl rfl

theorem step_getStoreTail {back : ℕ} : Kept q c (.getStoreTail owner back v) := by
  intro L lo m pc evs h hs
  cases hs
  obtain ⟨⟨rfl, hlast, rfl, hlt, hv⟩, ⟨h1, h2, h3, h4, h5⟩, -⟩ := h.here
  exact ⟨_, _, h.layout.rewriteCurrent .owned
    ⟨h1, h2, Nat.le_sub_one_of_lt hlt, le_trans (Nat.sub_le _ _) h4, h5⟩, hlast,
    h.accounts.pop (q.indexOf_lt owner) hlt hv⟩

/-! ### `advance_get_index` -/

theorem step_popLoadStart : Kept q c (.popLoadStart owner) := by
  intro L lo m pc evs h hs
  obtain ⟨⟨rfl, hlast, htail⟩, hc, hlay⟩ := h.here
  have hL := hlay.start_le
  simp only [ownerStep] at hs
  split at hs
  · cases hs
    exact h.stay hc hlast rfl rfl
  · next hne =>
    split at hs
    · cases hs
      exact h.stay hc hlast rfl rfl
    · next predecessor hpred =>
      cases hs
      have hp := previousSequence_eq_some hpred
      exact h.stay hc ⟨rfl, hlast, htail, hp, by omega⟩ rfl rfl

theorem step_reduceLoad : Kept q c (.reduceLoad owner predecessor) := by
  intro L lo m pc evs h hs
  cases hs
  obtain ⟨⟨rfl, hlast, htail, hp, hle⟩, hc, -⟩ := h.here
  exact h.stay hc ⟨rfl, hlast, htail, hp, hle, hc.2.1⟩ rfl rfl

theorem step_reduceStore {stealTail : ℕ} : Kept q c (.reduceStore owner predecessor stealTail) := by
  intro L lo m pc evs h hs
  cases hs
  obtain ⟨⟨rfl, hlast, htail, rfl, hle, rfl⟩, ⟨h1, h2, h3, h4, h5⟩, -⟩ := h.here
  have hsize := q.size_lt
  have hgen := h.layout.generation_le
  have hhead : slotOf (c.mem.blocks (q.indexOf (predecessor + 1))).head
      = lo (q.indexOf (predecessor + 1)) := by
    rw [h1]
    exact slotOf_word hgen (by omega)
  rw [append_nil]
  refine ⟨predecessor, lo, (h.layout.rewriteCurrent .free ?_).back hle, ⟨rfl, hlast⟩,
    h.accounts.rewriteBlock (by rfl) (by rfl)⟩
  exact ⟨hhead, word_reduce hgen q.size_lt, by omega, htail, h5⟩

theorem step_takeoverLoad : Kept q c (.takeoverLoad predecessor) := by
  intro L lo m pc evs h hs
  cases hs
  obtain ⟨⟨rfl, hlast⟩, hc, -⟩ := h.here
  exact h.stay hc ⟨rfl, hlast, hc.1⟩ rfl rfl

theorem step_takeoverSwap {head : ℕ} : Kept q c (.takeoverSwap predecessor head) := by
  intro L lo m pc evs h hs
  cases hs
  obtain ⟨⟨rfl, hlast, rfl⟩, ⟨h1, h2, h3, h4, h5⟩, -⟩ := h.here
  exact h.rewrite rfl rfl ⟨h1, rfl, h3, h4, h5⟩ ⟨rfl, hlast, h2⟩

theorem step_takeoverStore {spos : ℕ} : Kept q c (.takeoverStore predecessor spos) := by
  intro L lo m pc evs h hs
  cases hs
  obtain ⟨⟨rfl, hlast, rfl⟩, ⟨h1, h2, h3, h4, h5⟩, -⟩ := h.here
  exact h.rewrite rfl rfl ⟨rfl, h2, h4 ▸ h3, h4.le, h5⟩ ⟨rfl, hlast⟩

theorem step_popStoreLast : Kept q c (.popStoreLast predecessor) := by
  intro L lo m pc evs h hs
  cases hs
  obtain ⟨⟨rfl, hlast⟩, -, hlay⟩ := h.here
  rw [append_nil]
  exact ⟨_, _, hlay.setLast predecessor, ⟨rfl, rfl⟩,
    h.accounts.congr (fun _ _ _ => rfl) (fun _ => rfl) rfl rfl rfl⟩

/-! ### Every step of the owner -/

theorem ownerStep (h : Inv q c L lo) (hs : Bwos.ownerStep q c.mem c.owner = some (m, pc, evs)) :
    ∃ L' lo', Inv q { c with mem := m, owner := pc, log := c.log ++ evs } L' lo' := by
  obtain ⟨mem, owner, thieves, log⟩ := c
  cases owner with
  | putLoadTail v owner granted => exact step_putLoadTail _ _ _ _ _ h hs
  | putLoadWritable v owner next => exact step_putLoadWritable _ _ _ _ _ h hs
  | putLoadStart v owner next => exact step_putLoadStart _ _ _ _ _ h hs
  | reclaimSpin v next expected => exact step_reclaimSpin _ _ _ _ _ h hs
  | getLoadTail owner => exact step_getLoadTail _ _ _ _ _ h hs
  | getLoadHead owner back => exact step_getLoadHead _ _ _ _ _ h hs
  | getRead owner back => exact step_getRead _ _ _ _ _ h hs
  | popLoadStart owner => exact step_popLoadStart _ _ _ _ _ h hs
  | idle | panicked | undefinedRead => cases hs
  | pushLoadLast v => exact step_pushLoadLast _ _ _ _ _ h hs
  | putWrite v owner granted back => exact step_putWrite _ _ _ _ _ h hs
  | putStoreTail v owner granted back => exact step_putStoreTail _ _ _ _ _ h hs
  | putStoreStart v owner next start => exact step_putStoreStart _ _ _ _ _ h hs
  | grantLoad v owner next => exact step_grantLoad _ _ _ _ _ h hs
  | grantSwap v owner next blockEnd => exact step_grantSwap _ _ _ _ _ h hs
  | grantStore v owner next oldHead => exact step_grantStore _ _ _ _ _ h hs
  | reclaimLoadHead v next => exact step_reclaimLoadHead _ _ _ _ _ h hs
  | reclaimHead v next => exact step_reclaimHead _ _ _ _ _ h hs
  | reclaimTail v next => exact step_reclaimTail _ _ _ _ _ h hs
  | reclaimStealTail v next => exact step_reclaimStealTail _ _ _ _ _ h hs
  | reclaimCount v next => exact step_reclaimCount _ _ _ _ _ h hs
  | putStoreLast v next => exact step_putStoreLast _ _ _ _ _ h hs
  | popLoadLast => exact step_popLoadLast _ _ _ _ _ h hs
  | getStoreTail owner back v => exact step_getStoreTail _ _ _ _ _ h hs
  | reduceLoad owner predecessor => exact step_reduceLoad _ _ _ _ _ h hs
  | reduceStore owner predecessor stealTail => exact step_reduceStore _ _ _ _ _ h hs
  | takeoverLoad predecessor => exact step_takeoverLoad _ _ _ _ _ h hs
  | takeoverSwap predecessor head => exact step_takeoverSwap _ _ _ _ _ h hs
  | takeoverStore predecessor spos => exact step_takeoverStore _ _ _ _ _ h hs
  | popStoreLast predecessor => exact step_popStoreLast _ _ _ _ _ h hs

end Inv

end Rskynet.Bwos
