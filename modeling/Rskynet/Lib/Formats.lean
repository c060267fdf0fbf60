import Mathlib.Data.Nat.Notation

/-!
# Self-delimiting byte formats

A format writes values as bytes such that its reader takes exactly the bytes of one value off the
front. Formats compose: pairs, lists, and types that are read back from another type.
-/

/-- A writer and a reader: what was written is read, and what follows is left. -/
structure Format (α : Type) where
  put : α → List UInt8
  get : List UInt8 → Option (α × List UInt8)
  get_put : ∀ a rest, get (put a ++ rest) = some (a, rest)

namespace Format

variable {α β : Type}

/-- A number as that many ones behind which a zero stands. -/
def putNat (n : ℕ) : List UInt8 := List.replicate n 1 ++ [0]

def getNat : List UInt8 → Option (ℕ × List UInt8)
  | [] => none
  | b :: bs => if b = 0 then some (0, bs) else (getNat bs).map fun r => (r.1 + 1, r.2)

theorem getNat_putNat (n : ℕ) (rest : List UInt8) : getNat (putNat n ++ rest) = some (n, rest) := by
  induction n with
  | zero => rfl
  | succ n ih =>
    have hput : putNat (n + 1) ++ rest = 1 :: (putNat n ++ rest) := rfl
    rw [hput, getNat, if_neg (by decide), ih]
    rfl

def nat : Format ℕ := ⟨putNat, getNat, getNat_putNat⟩

def pair (f : Format α) (g : Format β) : Format (α × β) where
  put v := f.put v.1 ++ g.put v.2
  get bs := (f.get bs).bind fun r => (g.get r.2).map fun r' => ((r.1, r'.1), r'.2)
  get_put v rest := by
    rw [List.append_assoc, f.get_put, Option.bind_some, g.get_put]
    rfl

def via (f : Format β) (code : α → β) (back : β → α) (h : ∀ a, back (code a) = a) : Format α where
  put a := f.put (code a)
  get bs := (f.get bs).map fun r => (back r.1, r.2)
  get_put a rest := by
    rw [f.get_put, Option.map_some, h]

def getMany (f : Format α) : ℕ → List UInt8 → Option (List α × List UInt8)
  | 0, bs => some ([], bs)
  | n + 1, bs => (f.get bs).bind fun r => (getMany f n r.2).map fun r' => (r.1 :: r'.1, r'.2)

theorem getMany_flatMap (f : Format α) (as : List α) (rest : List UInt8) :
    getMany f as.length (as.flatMap f.put ++ rest) = some (as, rest) := by
  induction as with
  | nil => rfl
  | cons a as ih =>
    rw [List.flatMap_cons, List.append_assoc, List.length_cons, getMany, f.get_put, Option.bind_some,
      ih]
    rfl

/-- A list behind its length. -/
def list (f : Format α) : Format (List α) where
  put as := putNat as.length ++ as.flatMap f.put
  get bs := (getNat bs).bind fun r => getMany f r.1 r.2
  get_put as rest := by
    rw [List.append_assoc, getNat_putNat, Option.bind_some, getMany_flatMap]

end Format
