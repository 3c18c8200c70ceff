import LaunchGraph.Numeric.Binary64

/-!
# Shortest decimals

The decimal text of a floating point number: the fewest digits that read back as the same
number, of these the nearest, written out in positions without an exponent.

A decimal reads back as a number when it lies in the interval of the reals that round to it.  If
a multiple of a power of ten lies in the interval, then so does one of the two multiples next to
the number itself; so for each count of digits only two candidates are tried.
-/

namespace LaunchGraph

/-- The decimal `digits · 10 ^ exponent`. -/
structure Decimal where
  digits : Nat
  exponent : Int
deriving DecidableEq, Repr

namespace Decimal

/-- The digits before and after the point; there are no zeros at the end of the latter. -/
def positions (d : Decimal) : List Char × List Char :=
  let ds := Nat.toDigits 10 d.digits
  if 0 ≤ d.exponent then (ds ++ List.replicate d.exponent.toNat '0', [])
  else
    let places := (-d.exponent).toNat
    let padded := List.replicate (places + 1 - ds.length) '0' ++ ds
    let whole := padded.length - places
    (padded.take whole, ((padded.drop whole).reverse.dropWhile (· == '0')).reverse)

/-- The decimal written out in positions, without a point if it is whole. -/
def text (d : Decimal) : String :=
  match d.positions with
  | (whole, []) => String.ofList whole
  | (whole, fraction) => String.ofList (whole ++ '.' :: fraction)

end Decimal

namespace Binary64

/-- The interval of a magnitude `m · 2 ^ q`: in quarters of `2 ^ q`, its lower end, the number
itself and its upper end. Below a power of two the numbers lie twice as close. -/
def interval (m : Nat) (q : Int) : Nat × Nat × Nat :=
  (if m = Nat.pow 2 52 ∧ -1074 < q then 4 * m - 1 else 4 * m - 2, 4 * m, 4 * m + 2)

/-- The largest `e` with `10 ^ e ≤ num / den`, for `num` and `den` not zero. -/
def floorLog10 (num den : Nat) : Int :=
  let e := (digitCount num : Int) - digitCount den
  if quotientBelow 10 num den e then e - 1 else e

/-- The nearest multiple of `10 ^ k` that reads back as `m · 2 ^ q`, if there is one; of two at
the same distance the larger. -/
def nearestOnGrid (m : Nat) (q k : Int) : Option Decimal :=
  let (lo, mid, hi) := interval m q
  -- Everything is compared as a multiple of `1 / den`, where `x` quarters are `x * num`.
  let num := Nat.pow 2 (q - 2).toNat * Nat.pow 10 (-k).toNat
  let den := Nat.pow 2 (2 - q).toNat * Nat.pow 10 k.toNat
  let inside (d : Nat) : Bool :=
    if m % 2 = 0 then lo * num ≤ d * den && d * den ≤ hi * num
    else lo * num < d * den && d * den < hi * num
  let below := mid * num / den
  let rest := mid * num % den
  match inside below, inside (below + 1) with
  | true, true => some ⟨if 2 * rest < den then below else below + 1, k⟩
  | true, false => some ⟨below, k⟩
  | false, true => some ⟨below + 1, k⟩
  | false, false => none

/-- The shortest decimal that reads back as `m · 2 ^ q`, for `m` not zero.  Seventeen digits
always do. -/
def shortest (m : Nat) (q : Int) : Decimal :=
  let order := floorLog10 (m * Nat.pow 2 q.toNat) (Nat.pow 2 (-q).toNat)
  ((List.range 17).findSome? fun (n : Nat) => nearestOnGrid m q (order - n)).getD ⟨0, 0⟩

/-- The text of a number. -/
def text (x : Binary64) : String :=
  if x.isNaN then "NaN"
  else
    let magnitude :=
      if x.isInfinite then "inf"
      else if x.magnitudeBits = 0 then "0"
      else (shortest x.parts.1 x.parts.2).text
    if x.isNegative then "-" ++ magnitude else magnitude

/-- Whether the number is finite and whole. -/
def isWhole (x : Binary64) : Bool :=
  let (m, q) := x.parts
  x.magnitudeBits < infinityBits && m % Nat.pow 2 (-q).toNat == 0

end Binary64

end LaunchGraph
