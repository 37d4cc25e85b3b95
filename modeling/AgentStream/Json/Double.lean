/-
# Double-precision numbers

A finite number of the binary64 format is `m * 2 ^ q` for a natural `m` below `2 ^ 53`
and an exponent `q` of at least `-1074`; the format keeps it as 64 bits.  All
arithmetic here is exact arithmetic on `m` and `q` followed by one rounding, so
nothing depends on the machine's floating-point unit.

* `Double.ofRatio` : the double nearest to a ratio, a half going to the even neighbour;
* `Double.decimal` : the fewest digits that read back as the same double;
* `Double.text` : how a double is written.
-/

namespace AgentStream

/-- A binary64 number, as its 64 bits: sign, eleven bits of exponent, 52 of fraction. -/
structure Double where
  bits : UInt64
deriving DecidableEq, Repr, Inhabited

namespace Double

/-! ## Sign, significand and exponent -/

/-- The weight of the sign bit, two to the power 63. -/
def signWeight : Nat := 9223372036854775808

/-- The weight of the lowest exponent bit, two to the power 52. -/
def exponentWeight : Nat := 4503599627370496

/-- The bits of a magnitude and a sign put together. -/
def ofMagnitude (negative : Bool) (magnitude : Nat) : Double :=
  ⟨UInt64.ofNat ((if negative then signWeight else 0) + magnitude)⟩

/-- The bits below the sign, read as a natural number; they grow with the absolute value. -/
def magnitude (x : Double) : Nat := x.bits.toNat % signWeight

/-- Whether the sign bit is set. -/
def negative (x : Double) : Bool := decide (signWeight ≤ x.bits.toNat)

/-- The magnitude of infinity: all exponent bits set, no fraction. -/
def infinite : Nat := 2047 * exponentWeight

/-- Neither an infinity nor a NaN. -/
def isFinite (x : Double) : Bool := decide (x.magnitude < infinite)

/-- The natural `m` of the absolute value `m * 2 ^ q`. -/
def significand (x : Double) : Nat :=
  if x.magnitude < exponentWeight then x.magnitude
  else exponentWeight + x.magnitude % exponentWeight

/-- The `q` of the absolute value `m * 2 ^ q`. -/
def exponent (x : Double) : Int :=
  if x.magnitude < exponentWeight then -1074
  else (x.magnitude / exponentWeight : Nat) - 1075

/-- The double without its sign. -/
def abs (x : Double) : Double := ofMagnitude false x.magnitude

/-- The double with the opposite sign. -/
def neg (x : Double) : Double := ofMagnitude (!x.negative) x.magnitude

/-! ## Rounding a ratio -/

/-- The integer nearest to `num / den`, a half going to the even neighbour. -/
def roundEven (num den : Nat) : Nat :=
  let below := num / den
  let twice := 2 * (num % den)
  if twice < den then below
  else if den < twice then below + 1
  else below + below % 2

/-- The greatest `e` with `2 ^ e ≤ num / den`, for positive `num` and `den`. -/
def log2Ratio (num den : Nat) : Int :=
  let guess : Int := (Nat.log2 num : Int) - Nat.log2 den
  let fits := if 0 ≤ guess then den * Nat.pow 2 guess.toNat ≤ num
    else den ≤ num * Nat.pow 2 (-guess).toNat
  if fits then guess else guess - 1

/-- The magnitude of the double nearest to `num / den`; beyond the greatest double, that of
infinity. -/
def ratioMagnitude (num den : Nat) : Nat :=
  if num = 0 then 0
  else
    let e := max (log2Ratio num den) (-1022)
    let q := e - 52
    let m := if 0 ≤ q then roundEven num (den * Nat.pow 2 q.toNat)
      else roundEven (num * Nat.pow 2 (-q).toNat) den
    min ((e + 1022).toNat * exponentWeight + m) infinite

/-- The double nearest to `num / den`, with a sign. -/
def ofRatio (negative : Bool) (num den : Nat) : Double :=
  ofMagnitude negative (ratioMagnitude num den)

/-- The double nearest to a natural number. -/
def ofNat (n : Nat) : Double := ofRatio false n 1

/-- The double nearest to an integer. -/
def ofInt (i : Int) : Double := ofRatio (decide (i < 0)) i.natAbs 1

/-- The absolute value as a ratio of naturals. -/
def ratio (x : Double) : Nat × Nat :=
  if 0 ≤ x.exponent then (x.significand * Nat.pow 2 x.exponent.toNat, 1)
  else (x.significand, Nat.pow 2 (-x.exponent).toNat)

/-- The product of the absolute values, rounded once. -/
def mulAbs (x y : Double) : Double :=
  ofRatio false (x.ratio.1 * y.ratio.1) (x.ratio.2 * y.ratio.2)

/-- The quotient of the absolute values, rounded once. -/
def divAbs (x y : Double) : Double :=
  ofRatio false (x.ratio.1 * y.ratio.2) (x.ratio.2 * y.ratio.1)

/-! ## Scaling by a power of ten -/

/-- The greatest power of ten that one rounding step scales by. -/
def maxPower : Nat := 308

/-- Divide by `10 ^ 308` until at most `308` tens are left, then divide by the rest. -/
def divTens (x : Double) (tens : Nat) : Double :=
  if x.magnitude = 0 then x
  else if tens ≤ maxPower then x.divAbs (ofNat (Nat.pow 10 tens))
  else divTens (x.divAbs (ofNat (Nat.pow 10 maxPower))) (tens - maxPower)
termination_by tens
decreasing_by simp only [maxPower] at *; omega

/-- Scale by `10 ^ tens` in rounded steps of at most 308 tens; nothing when the result is
infinite. -/
def scaleTens (x : Double) (tens : Int) : Option Double :=
  if tens < 0 then some (x.divTens (-tens).toNat)
  else if x.magnitude = 0 then some x
  else if tens.toNat ≤ maxPower then
    let scaled := x.mulAbs (ofNat (Nat.pow 10 tens.toNat))
    if scaled.isFinite then some scaled else none
  else none

/-! ## The shortest decimal -/

/-- A decimal `digits * 10 ^ exponent`. -/
structure Decimal where
  digits : Nat
  exponent : Int
deriving DecidableEq, Repr

/-- The double nearest to a decimal. -/
def Decimal.nearest (d : Decimal) : Double :=
  if 0 ≤ d.exponent then ofRatio false (d.digits * Nat.pow 10 d.exponent.toNat) 1
  else ofRatio false d.digits (Nat.pow 10 (-d.exponent).toNat)

/-- How many digits a natural number has; zero has none. -/
def digitCount (n : Nat) : Nat :=
  if n = 0 then 0 else digitCount (n / 10) + 1
termination_by n
decreasing_by omega

/-- The greatest `k` with `10 ^ k ≤ num / den`, for positive `num` and `den`. -/
def log10Ratio (num den : Nat) : Int :=
  if den ≤ num then (digitCount (num / den) : Int) - 1
  else -(digitCount ((den + num - 1) / num - 1) : Int)

/-- The two neighbours of `num / den` on the grid of multiples of `10 ^ unit`, as decimals
with the distance of each, in units of the grid over a common denominator. -/
def neighbours (num den : Nat) (unit : Int) : (Decimal × Nat) × (Decimal × Nat) :=
  let (n, d) := if 0 ≤ unit then (num, den * Nat.pow 10 unit.toNat)
    else (num * Nat.pow 10 (-unit).toNat, den)
  let below := n / d
  let rest := n % d
  ((⟨below, unit⟩, rest), (⟨below + 1, unit⟩, d - rest))

/-- The first of the grids with `digits`, `digits + 1`, … digits on which a neighbour of the
value reads back as `x`; of two such neighbours the nearer one, or else the even one. -/
def search (x : Double) (num den : Nat) (top : Int) : Nat → Nat → Decimal
  | 0, _ => ⟨num, 0⟩
  | fuel + 1, digits =>
    let (low, high) := neighbours num den (top - digits + 1)
    let lowReads := low.1.nearest = x
    let highReads := high.1.nearest = x
    if lowReads ∧ highReads then
      if high.2 < low.2 ∨ (high.2 = low.2 ∧ low.1.digits % 2 = 1) then high.1 else low.1
    else if lowReads then low.1
    else if highReads then high.1
    else search x num den top fuel (digits + 1)

/-- The decimal with the fewest digits, 17 at most, that reads back as the absolute value of
`x`. -/
def decimal (x : Double) : Decimal :=
  let (num, den) := x.ratio
  if num = 0 then ⟨0, 0⟩
  else search x.abs num den (log10Ratio num den) 17 1

/-- A decimal without trailing zeros among its digits. -/
def Decimal.trim : Nat → Decimal → Decimal
  | 0, d => d
  | fuel + 1, d =>
    if d.digits ≠ 0 ∧ d.digits % 10 = 0 then Decimal.trim fuel ⟨d.digits / 10, d.exponent + 1⟩
    else d

/-! ## The written form -/

/-- The decimal exponents written out with zeros rather than with an exponent mark. -/
def positional (e : Int) : Bool := decide (-5 ≤ e ∧ e < 16)

/-- The exponent mark: a sign is always written, and no padding. -/
def exponentMark (e : Int) : String :=
  (if e < 0 then "e-" else "e+") ++ toString e.natAbs

/-- Positional notation for exponents from `-5` to `15`, always with a point; otherwise one
digit before the point, a point only if digits follow it, and an exponent mark. -/
def Decimal.text (d : Decimal) : String :=
  let ds := toString d.digits
  let count : Int := ds.length
  let e := d.exponent + count - 1
  if positional e then
    if 0 ≤ d.exponent then ds ++ "".pushn '0' d.exponent.toNat ++ ".0"
    else if 0 ≤ e then
      String.ofList (ds.toList.take (e + 1).toNat) ++ "."
        ++ String.ofList (ds.toList.drop (e + 1).toNat)
    else "0." ++ "".pushn '0' (-e - 1).toNat ++ ds
  else
    let tail := String.ofList (ds.toList.drop 1)
    String.ofList (ds.toList.take 1) ++ (if tail.isEmpty then "" else "." ++ tail) ++ exponentMark e

/-- The written form of a double; what is not finite has none and is written `null`. -/
def text (x : Double) : String :=
  if x.isFinite then
    (if x.negative then "-" else "") ++ (x.decimal.trim 20).text
  else "null"

end Double

end AgentStream
