/-!
# Binary floating point numbers

The 64-bit floating point numbers, by their bits, and correct rounding: a quotient of natural
numbers goes to the nearest number, a tie to the one with even significand, and what is too large
to infinity.  Integers and decimals are rounded as quotients.
-/

namespace LaunchGraph

/-- A 64-bit floating point number, by its bits. -/
structure Binary64 where
  bits : UInt64
deriving DecidableEq, Repr, Inhabited

namespace Binary64

/-- The bits of positive infinity, as a number; those of a finite magnitude are below. -/
def infinityBits : Nat := 0x7FF * Nat.pow 2 52

/-- The bits without the sign. -/
def magnitudeBits (x : Binary64) : Nat := x.bits.toNat % Nat.pow 2 63

/-- The sign bit. -/
def isNegative (x : Binary64) : Bool := Nat.pow 2 63 ≤ x.bits.toNat

def isNaN (x : Binary64) : Bool := infinityBits < x.magnitudeBits

def isInfinite (x : Binary64) : Bool := x.magnitudeBits == infinityBits

/-- A number from its sign and the bits of its magnitude. -/
def ofMagnitudeBits (negative : Bool) (magnitude : Nat) : Binary64 :=
  ⟨UInt64.ofNat (magnitude + if negative then Nat.pow 2 63 else 0)⟩

def infinity (negative : Bool) : Binary64 := ofMagnitudeBits negative infinityBits

def nan : Binary64 := ofMagnitudeBits false (infinityBits + Nat.pow 2 51)

/-- The `m` and `q` of a finite magnitude `m · 2 ^ q`. -/
def parts (x : Binary64) : Nat × Int :=
  let exponent : Nat := x.magnitudeBits / Nat.pow 2 52
  let fraction : Nat := x.magnitudeBits % Nat.pow 2 52
  if exponent = 0 then (fraction, -1074) else (Nat.pow 2 52 + fraction, (exponent : Int) - 1075)

/-- `num / den` rounded to the nearest natural number, a half to the even one. -/
def roundDiv (num den : Nat) : Nat :=
  let quotient := num / den
  let rest := 2 * (num % den)
  if rest < den then quotient
  else if den < rest then quotient + 1
  else quotient + quotient % 2

/-- `num / den < base ^ e`, for `den` not zero. -/
def quotientBelow (base num den : Nat) (e : Int) : Bool :=
  num * Nat.pow base (-e).toNat < den * Nat.pow base e.toNat

/-- The largest `e` with `2 ^ e ≤ num / den`, for `num` and `den` not zero. -/
def floorLog2 (num den : Nat) : Int :=
  let e := (num.log2 : Int) - den.log2
  if quotientBelow 2 num den e then e - 1 else e

/-- The number nearest to `num / den`, for `den` not zero.  A significand that rounds up to the
next power of two carries into the exponent. -/
def ofQuotient (negative : Bool) (num den : Nat) : Binary64 :=
  if num = 0 then ofMagnitudeBits negative 0
  else
    let q := max (floorLog2 num den - 52) (-1074)
    let m := roundDiv (num * Nat.pow 2 (-q).toNat) (den * Nat.pow 2 q.toNat)
    ofMagnitudeBits negative (min ((q + 1074).toNat * Nat.pow 2 52 + m) infinityBits)

/-- The number nearest to an integer. -/
def ofInt (i : Int) : Binary64 := ofQuotient (i < 0) i.natAbs 1

/-- How many decimal digits a natural number has. -/
def digitCount (n : Nat) : Nat := (Nat.toDigits 10 n).length

/-- The number nearest to `digits · 10 ^ exponent`.  Decimals far outside the range of finite
numbers are settled by their order of magnitude. -/
def ofDecimal (negative : Bool) (digits : Nat) (exponent : Int) : Binary64 :=
  let order := (digitCount digits : Int) + exponent
  if digits = 0 ∨ order < -400 then ofMagnitudeBits negative 0
  else if 400 < order then infinity negative
  else ofQuotient negative (digits * Nat.pow 10 exponent.toNat) (Nat.pow 10 (-exponent).toNat)

end Binary64

end LaunchGraph
