/-!
# Binary floating point

A double has a sign, and is "not a number" or has a magnitude. A magnitude is identified by its
rank among the doubles that are not negative: zero has rank 0, the smallest positive double rank 1,
and infinity comes last. Ranks below `2 ^ 52` are the subnormal doubles; from there on each run
of `2 ^ 52` ranks covers one power of two. So the rank is at the same time the bit pattern
without the sign bit, and the order of ranks is the order of the numbers. The patterns beyond
infinity are those of "not a number"; a double keeps the one it has.
-/

namespace TypedValues

/-- How many ranks cover one power of two: `2 ^ 52`. -/
def binade : Nat := 0x10000000000000

/-- The rank of infinity: it follows the doubles of all 2047 exponents. -/
def infinityRank : Nat := 2047 * binade

/-- A double that is not negative, by its rank. -/
@[ext] structure Magnitude where
  rank : Nat
  rank_le : rank ≤ infinityRank
  deriving DecidableEq

namespace Magnitude

/-- The magnitude of a rank, infinity for any rank beyond it. -/
def ofRank (rank : Nat) : Magnitude := ⟨min rank infinityRank, Nat.min_le_right _ _⟩

def zero : Magnitude := ofRank 0
def infinity : Magnitude := ofRank infinityRank

/-- Whether the magnitude is a number. -/
def isFinite (x : Magnitude) : Bool := x.rank < infinityRank

/-- The whole number that the value is a power of two times. -/
def significand (x : Magnitude) : Nat :=
  if x.rank < binade then x.rank else binade + x.rank % binade

/-- The exponent of that power of two. -/
def binaryExponent (x : Magnitude) : Int :=
  if x.rank < binade then -1074 else (x.rank / binade : Nat) - 1075

@[simp] theorem ofRank_rank (x : Magnitude) : ofRank x.rank = x :=
  Magnitude.ext (Nat.min_eq_left x.rank_le)

end Magnitude

/-- The bit that is set in the patterns of negative doubles: `2 ^ 63`. -/
def signBit : Nat := 0x8000000000000000

/-- A pattern of "not a number", without the sign bit. -/
@[ext] structure NanPattern where
  rank : Nat
  infinityRank_lt : infinityRank < rank
  lt_signBit : rank < signBit
  deriving DecidableEq

/-- The quiet pattern without payload. -/
def NanPattern.quiet : NanPattern := ⟨infinityRank + binade / 2, by decide, by decide⟩

/-- A double. -/
inductive Binary64 where
  | nan (negative : Bool := false) (pattern : NanPattern := .quiet)
  | number (negative : Bool) (magnitude : Magnitude)
  deriving DecidableEq

namespace Binary64

def isNan : Binary64 → Bool
  | nan _ _ => true
  | number _ _ => false

/-- Whether the double is neither infinite nor "not a number". -/
def isFinite : Binary64 → Bool
  | nan _ _ => false
  | number _ x => x.isFinite

def isZero : Binary64 → Bool
  | nan _ _ => false
  | number _ x => x.rank == 0

/-- Numeric equality: the two zeros are equal, and "not a number" equals nothing. -/
def numEq : Binary64 → Binary64 → Bool
  | number s x, number t y => x == y && (s == t || x.rank == 0)
  | _, _ => false

/-- Equality that also counts "not a number" as equal to itself. -/
def same (x y : Binary64) : Bool := x.numEq y || x.isNan && y.isNan

/-! ## Bit patterns -/

def toBits : Binary64 → Nat
  | nan negative p => (if negative then signBit else 0) + p.rank
  | number negative x => (if negative then signBit else 0) + x.rank

/-- The double of a 64-bit pattern. -/
def ofBits (bits : Nat) : Binary64 :=
  if h : bits % signBit ≤ infinityRank then
    number (signBit ≤ bits % (2 * signBit)) ⟨bits % signBit, h⟩
  else
    nan (signBit ≤ bits % (2 * signBit))
      ⟨bits % signBit, Nat.lt_of_not_le h, Nat.mod_lt _ (by decide)⟩

theorem add_mod_signBit (negative : Bool) {rank : Nat} (h : rank < signBit) :
    ((if negative then signBit else 0) + rank) % signBit = rank := by
  cases negative <;> simp [Nat.mod_eq_of_lt h]

theorem signBit_le_add (negative : Bool) {rank : Nat} (h : rank < signBit) :
    decide (signBit ≤ ((if negative then signBit else 0) + rank) % (2 * signBit)) = negative := by
  cases negative with
  | false =>
    have hmod : rank % (2 * signBit) = rank := Nat.mod_eq_of_lt (by omega)
    simp [hmod, h]
  | true =>
    have hmod : (signBit + rank) % (2 * signBit) = signBit + rank := Nat.mod_eq_of_lt (by omega)
    simp [hmod]

/-- A double is told by its bit pattern. -/
theorem ofBits_toBits (x : Binary64) : ofBits x.toBits = x := by
  cases x with
  | nan negative p =>
    have hrank := add_mod_signBit negative p.lt_signBit
    have hnan : ¬((if negative then signBit else 0) + p.rank) % signBit ≤ infinityRank := by
      rw [hrank]
      exact Nat.not_le.mpr p.infinityRank_lt
    rw [toBits, ofBits, dif_neg hnan, signBit_le_add negative p.lt_signBit]
    exact congrArg (nan negative ·) (NanPattern.ext hrank)
  | number negative x =>
    have hlt : x.rank < signBit := Nat.lt_of_le_of_lt x.rank_le (by decide)
    have hrank := add_mod_signBit negative hlt
    have hnumber : ((if negative then signBit else 0) + x.rank) % signBit ≤ infinityRank := by
      rw [hrank]
      exact x.rank_le
    rw [toBits, ofBits, dif_pos hnumber, signBit_le_add negative hlt]
    exact congrArg (number negative) (Magnitude.ext hrank)

end Binary64

end TypedValues
