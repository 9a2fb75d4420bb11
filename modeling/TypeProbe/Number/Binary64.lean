/-!
# Binary floating-point numbers of 64 bits

A number is kept as its 64 bits: a sign, an exponent of 11 bits and a fraction of 52 bits.  A finite
number is `mantissa * 2 ^ scale` up to its sign.  `Binary64.eq` is the comparison of the standard,
for which a NaN differs from everything and the two zeros are equal; it is weaker than equality of
the bits on zeros and stronger on NaNs.
-/

namespace TypeProbe

structure Binary64 where
  bits : UInt64
deriving DecidableEq, Inhabited

namespace Binary64

def isNegative (x : Binary64) : Bool :=
  decide (Nat.pow 2 63 ≤ x.bits.toNat)

/-- The exponent as stored. -/
def exponent (x : Binary64) : Nat :=
  x.bits.toNat / Nat.pow 2 52 % Nat.pow 2 11

def fraction (x : Binary64) : Nat :=
  x.bits.toNat % Nat.pow 2 52

def isNaN (x : Binary64) : Bool :=
  x.exponent == 2047 && x.fraction != 0

def isInfinite (x : Binary64) : Bool :=
  x.exponent == 2047 && x.fraction == 0

def isZero (x : Binary64) : Bool :=
  x.exponent == 0 && x.fraction == 0

/-- The integer factor of a finite number; numbers with stored exponent zero have no leading one. -/
def mantissa (x : Binary64) : Nat :=
  if x.exponent = 0 then x.fraction else Nat.pow 2 52 + x.fraction

/-- The power of two that multiplies the mantissa. -/
def scale (x : Binary64) : Int :=
  (max x.exponent 1 : Nat) - 1075

/-- Whether the next smaller number is only half as far away as the next larger one. -/
def isAtPowerOfTwo (x : Binary64) : Bool :=
  x.fraction == 0 && decide (1 < x.exponent)

/-- Equality of numbers. -/
def eq (x y : Binary64) : Bool :=
  !x.isNaN && !y.isNaN && (x.bits == y.bits || x.isZero && y.isZero)

theorem eq_self {x : Binary64} (h : x.isNaN = false) : x.eq x = true := by
  simp [eq, h]

theorem eq_comm (x y : Binary64) : x.eq y = y.eq x := by
  unfold eq
  rw [Bool.and_comm (!x.isNaN), Bool.beq_comm, Bool.and_comm x.isZero]

end Binary64

end TypeProbe
