import Mathlib.Data.Nat.Bitwise
import Mathlib.Tactic.Ring
import Mathlib.Tactic.Zify
import Mathlib.Tactic.NormNum

/-!
# Tagged words: a counter and an index packed into one machine word

Lock-free code packs a generation tag and a small index into one word, so that a single
compare-and-swap checks both. A word of `w` bits keeps the index in its low `k` bits and
the tag above them. The machine's operations on words become arithmetic on the pair.

* `pack_inj` — **PROVED**: one comparison compares the pair;
* `pack_wrapping_sub` — **PROVED**: wrapping subtraction steps the tag back, also across zero.
-/

namespace TaggedWord

/-- Shift the tag above the `k` index bits of a `w`-bit word and `or` the index in. -/
def pack (w k tag idx : ℕ) : ℕ := (tag <<< k) % 2 ^ w ||| idx

/-- The low `k` bits of a word. -/
def index (k word : ℕ) : ℕ := word &&& (2 ^ k - 1)

/-- The bits of a word above the low `k`. -/
def tag (k word : ℕ) : ℕ := word >>> k

variable {w k t t' i i' : ℕ}

theorem pack_eq (hk : k ≤ w) (ht : t < 2 ^ (w - k)) (hi : i < 2 ^ k) :
    pack w k t i = t * 2 ^ k + i := by
  have hlt : t <<< k < 2 ^ w := by
    rw [Nat.shiftLeft_eq]
    calc t * 2 ^ k < 2 ^ (w - k) * 2 ^ k := Nat.mul_lt_mul_of_pos_right ht (by positivity)
      _ = 2 ^ w := by rw [← pow_add, Nat.sub_add_cancel hk]
  rw [pack, Nat.mod_eq_of_lt hlt, ← Nat.shiftLeft_add_eq_or_of_lt hi, Nat.shiftLeft_eq]

theorem index_eq_mod (word : ℕ) : index k word = word % 2 ^ k :=
  Nat.and_two_pow_sub_one_eq_mod word k

theorem tag_eq_div (word : ℕ) : tag k word = word / 2 ^ k := Nat.shiftRight_eq_div_pow word k

theorem index_pack (hk : k ≤ w) (ht : t < 2 ^ (w - k)) (hi : i < 2 ^ k) :
    index k (pack w k t i) = i := by
  rw [index_eq_mod, pack_eq hk ht hi, Nat.mul_comm, Nat.mul_add_mod, Nat.mod_eq_of_lt hi]

theorem tag_pack (hk : k ≤ w) (ht : t < 2 ^ (w - k)) (hi : i < 2 ^ k) :
    tag k (pack w k t i) = t := by
  rw [tag_eq_div, pack_eq hk ht hi, Nat.mul_comm, Nat.mul_add_div (by positivity),
    Nat.div_eq_of_lt hi, Nat.add_zero]

theorem pack_inj (hk : k ≤ w) (ht : t < 2 ^ (w - k)) (hi : i < 2 ^ k)
    (ht' : t' < 2 ^ (w - k)) (hi' : i' < 2 ^ k) (h : pack w k t i = pack w k t' i') :
    t = t' ∧ i = i' := by
  refine ⟨?_, ?_⟩
  · rw [← tag_pack hk ht hi, h, tag_pack hk ht' hi']
  · rw [← index_pack hk ht hi, h, index_pack hk ht' hi']

theorem pack_succ (hk : k ≤ w) (ht : t < 2 ^ (w - k)) (hi : i + 1 < 2 ^ k) :
    pack w k t i + 1 = pack w k t (i + 1) := by
  rw [pack_eq hk ht (by omega), pack_eq hk ht hi]
  ring

/-- The word of the preceding tag, computed as the machine does: the tag is decremented
with wrap-around in the full word width before the shift drops its high bits. -/
def packPred (w k tag idx : ℕ) : ℕ := pack w k ((tag + (2 ^ w - 1)) % 2 ^ w) idx

theorem packPred_succ (ht : t + 1 < 2 ^ w) :
    packPred w k (t + 1) i = pack w k t i := by
  have h1 : t + 1 + (2 ^ w - 1) = t + 2 ^ w := by
    have : 0 < 2 ^ w := by positivity
    omega
  rw [packPred, h1, Nat.add_mod_right, Nat.mod_eq_of_lt (by omega)]

theorem packPred_zero (hk : k ≤ w) (hi : i < 2 ^ k) :
    packPred w k 0 i = pack w k (2 ^ (w - k) - 1) i := by
  have hw : 0 < 2 ^ (w - k) := by positivity
  have hsplit : 2 ^ w = 2 ^ (w - k) * 2 ^ k := by rw [← pow_add, Nat.sub_add_cancel hk]
  have hk1 : 0 < 2 ^ k := by positivity
  have h1 : (0 + (2 ^ w - 1)) % 2 ^ w = 2 ^ w - 1 := by
    rw [Nat.zero_add]
    exact Nat.mod_eq_of_lt (by have : 0 < 2 ^ w := by positivity
                               omega)
  rw [packPred, h1, pack_eq hk (by omega : 2 ^ (w - k) - 1 < 2 ^ (w - k)) hi, pack]
  have h2 : (2 ^ w - 1) <<< k % 2 ^ w = (2 ^ (w - k) - 1) <<< k := by
    rw [Nat.shiftLeft_eq, Nat.shiftLeft_eq]
    have e : (2 ^ w - 1) * 2 ^ k = (2 ^ k - 1) * 2 ^ w + (2 ^ (w - k) - 1) * 2 ^ k := by
      zify [Nat.one_le_two_pow (n := w), Nat.one_le_two_pow (n := k),
        Nat.one_le_two_pow (n := w - k)]
      have := congrArg (Nat.cast : ℕ → ℤ) hsplit
      push_cast at this
      rw [this]
      ring
    rw [e, Nat.mul_comm (2 ^ k - 1), Nat.mul_add_mod]
    apply Nat.mod_eq_of_lt
    rw [hsplit]
    exact Nat.mul_lt_mul_of_pos_right (by omega) hk1
  rw [h2, ← Nat.shiftLeft_add_eq_or_of_lt hi, Nat.shiftLeft_eq]

/-- **Stepping the tag back.**  Wrapping subtraction of `2^k` from a packed word yields the
word of the preceding tag, also across zero. -/
theorem pack_wrapping_sub (hk : k ≤ w) (ht : t < 2 ^ (w - k)) (hi : i < 2 ^ k) :
    (pack w k t i + (2 ^ w - 2 ^ k)) % 2 ^ w = packPred w k t i := by
  have hw : 0 < 2 ^ (w - k) := by positivity
  have hk1 : 0 < 2 ^ k := by positivity
  have hsplit : 2 ^ w = 2 ^ (w - k) * 2 ^ k := by rw [← pow_add, Nat.sub_add_cancel hk]
  have hkw : 2 ^ k ≤ 2 ^ w := Nat.pow_le_pow_right (by norm_num) hk
  have hwk : 2 ^ (w - k) ≤ 2 ^ w := Nat.pow_le_pow_right (by norm_num) (Nat.sub_le _ _)
  cases t with
  | zero =>
    rw [packPred_zero hk hi, pack_eq hk hw hi, pack_eq hk (by omega) hi, Nat.sub_mul, ← hsplit,
      Nat.zero_mul, Nat.one_mul, Nat.zero_add, Nat.add_comm]
    exact Nat.mod_eq_of_lt (by omega)
  | succ t =>
    have hle : (t + 1) * 2 ^ k ≤ 2 ^ w - 2 ^ k := by
      have : (t + 1) * 2 ^ k + 2 ^ k ≤ 2 ^ (w - k) * 2 ^ k := by
        calc (t + 1) * 2 ^ k + 2 ^ k = (t + 1 + 1) * 2 ^ k := by ring
          _ ≤ 2 ^ (w - k) * 2 ^ k := Nat.mul_le_mul_right _ (by omega)
      omega
    have hs : (t + 1) * 2 ^ k = t * 2 ^ k + 2 ^ k := by ring
    rw [packPred_succ (by omega), pack_eq hk ht hi, pack_eq hk (by omega) hi]
    have e : (t + 1) * 2 ^ k + i + (2 ^ w - 2 ^ k) = t * 2 ^ k + i + 2 ^ w := by omega
    rw [e, Nat.add_mod_right]
    exact Nat.mod_eq_of_lt (by omega)

end TaggedWord
