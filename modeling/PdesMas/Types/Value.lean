import Mathlib.Algebra.Order.Ring.Int

/-!
The values of shared state variables, and the ranges in which points lie. The
comparison operators of pairs are not strict, and a point with both coordinates
at `INT_MAX` stands for no point at all.
-/

namespace PdesMas

def INT_MAX : Int := 2147483647

/-- What an `int` of 32 bits makes of a number. -/
def toInt32 (n : Int) : Int := n.bmod (2 ^ 32)

@[simp] theorem toInt32_zero : toInt32 0 = 0 := rfl

/-- Only the last conversion of a sum shows. -/
theorem toInt32_toInt32_add (n k : Int) : toInt32 (toInt32 n + k) = toInt32 (n + k) :=
  Int.bmod_add_bmod

theorem toInt32_eq_self_iff {n : Int} : toInt32 n = n ↔ -2 ^ 31 ≤ n ∧ n < 2 ^ 31 := by
  rw [toInt32, Int.bmod_eq_iff (by decide)]
  simp

theorem toInt32_le {n : Int} (h : -2 ^ 31 ≤ n) : toInt32 n ≤ n := by
  by_cases hlt : n < 2 ^ 31
  · exact Int.le_of_eq (toInt32_eq_self_iff.mpr ⟨h, hlt⟩)
  · have hbound : toInt32 n < (2 ^ 32 + 1) / 2 := Int.bmod_lt (by decide)
    omega

/-- What is missing in a number does not show in an `int` where it is a multiple of `2 ^ 32`. -/
theorem toInt32_sub_eq_iff {n : Int} {k : Nat} :
    toInt32 (n - k) = n ↔ (-2 ^ 31 ≤ n ∧ n < 2 ^ 31) ∧ 2 ^ 32 ∣ k := by
  rw [toInt32, Int.bmod_eq_iff (by decide), Int.sub_sub_self, Int.natCast_dvd_natCast, ← and_assoc]
  simp

structure Point where
  x : Int
  y : Int
deriving DecidableEq, Repr

namespace Point

def lt (p q : Point) : Bool := decide (p.x ≤ q.x) && decide (p.y ≤ q.y)

def gt (p q : Point) : Bool := decide (p.x ≥ q.x) && decide (p.y ≥ q.y)

def isSentinel (p : Point) : Bool := p.x == INT_MAX && p.y == INT_MAX

def min (p q : Point) : Point :=
  if q.isSentinel then p
  else if p.isSentinel then q
  else ⟨if q.x < p.x then q.x else p.x, if q.y < p.y then q.y else p.y⟩

def max (p q : Point) : Point :=
  if q.isSentinel then p
  else if p.isSentinel then q
  else ⟨if q.x > p.x then q.x else p.x, if q.y > p.y then q.y else p.y⟩

end Point

structure Range where
  minRangeValue : Point
  maxRangeValue : Point
deriving DecidableEq, Repr

def Range.isValueOverlapping (range : Range) (value : Point) : Bool :=
  value.lt range.maxRangeValue && value.gt range.minRangeValue

def Range.minMaxOfTwoRanges (range other : Range) : Range :=
  ⟨range.minRangeValue.min other.minRangeValue, range.maxRangeValue.max other.maxRangeValue⟩

/-- The range that a message carries when there is none. -/
def Range.sentinel : Range := ⟨⟨INT_MAX, INT_MAX⟩, ⟨INT_MAX, INT_MAX⟩⟩

/-- One of the ranges contains a corner of the other. -/
def Range.isRangeOverlapping (range other : Range) : Bool :=
  let corners (r : Range) : List Point :=
    [r.minRangeValue, ⟨r.maxRangeValue.x, r.minRangeValue.y⟩,
      ⟨r.minRangeValue.x, r.maxRangeValue.y⟩, r.maxRangeValue]
  (corners other).any range.isValueOverlapping || (corners range).any other.isValueOverlapping

/-- The instances of `Value`. A double is kept as its bits; nothing computes with it. -/
inductive AbstractValue where
  | valueINT (value : Int)
  | valueDOUBLE (bits : BitVec 64)
  | valuePOINT (value : Point)
  | valueSTRING (value : String)
  | valueLONG (value : Int)
deriving DecidableEq, Repr

/-- The point of a value whose type is `VALUEPOINT`. -/
def AbstractValue.point? : AbstractValue → Option Point
  | .valuePOINT p => some p
  | .valueINT _ | .valueDOUBLE _ | .valueSTRING _ | .valueLONG _ => none

/-- The ports of a CLP, and the bound of the enumeration. -/
inductive Direction where
  | HERE
  | UP
  | LEFT
  | RIGHT
  | DIRECTION_SIZE
deriving DecidableEq, Repr

/-- `operator ++`, which asserts that the bound is not passed. -/
def Direction.next : Direction → Option Direction
  | HERE => some UP
  | UP => some LEFT
  | LEFT => some RIGHT
  | RIGHT => some DIRECTION_SIZE
  | DIRECTION_SIZE => none

end PdesMas
