import NodeReshape.Text

/-! Double precision numbers and their decimal text: the fewest digits that read back as the same
number, positional between 1e-7 and 1e21 and with an exponent elsewhere. All arithmetic is exact and
on naturals. -/
namespace NodeReshape

/-- A double precision number, given by its 64 bits. -/
structure Number where
  bits : UInt64
  deriving DecidableEq

/-- A positive value `significand * 2 ^ exponent`. `narrow` says that the gap to the number below is
half the gap to the number above, as it is for most powers of two. -/
structure Binary where
  significand : Nat
  exponent : Int
  narrow : Bool
  deriving DecidableEq

/-- The value `digits * 10 ^ exponent`. -/
structure Decimal where
  digits : Nat
  exponent : Int
  deriving DecidableEq

namespace Decimal

/-- The order of `d` and `n * 2 ^ k`. -/
def compareBinary (d : Decimal) (n : Nat) (k : Int) : Ordering :=
  compare (d.digits * Nat.pow 10 d.exponent.toNat * Nat.pow 2 (-k).toNat)
    (n * Nat.pow 2 k.toNat * Nat.pow 10 (-d.exponent).toNat)

/-- The same value without trailing zeros among its digits. -/
def strip : Nat → Decimal → Decimal
  | 0, d => d
  | n + 1, d => if d.digits % 10 = 0 then strip n ⟨d.digits / 10, d.exponent + 1⟩ else d

end Decimal

namespace Binary

/-- The decimals that round to `x` lie between the midpoints to its neighbours. The midpoints
belong to the number with the even significand. -/
def readsBack (x : Binary) (d : Decimal) : Bool :=
  let low := d.compareBinary (4 * x.significand - if x.narrow then 1 else 2) (x.exponent - 2)
  let high := d.compareBinary (4 * x.significand + 2) (x.exponent - 2)
  let even := x.significand % 2 == 0
  (low == .gt || (even && low == .eq)) && (high == .lt || (even && high == .eq))

/-- The largest multiple of `10 ^ place` that is not above `x`. -/
def floorAt (x : Binary) (place : Int) : Decimal :=
  ⟨x.significand * Nat.pow 2 x.exponent.toNat * Nat.pow 10 (-place).toNat /
    (Nat.pow 2 (-x.exponent).toNat * Nat.pow 10 place.toNat), place⟩

/-- The number of decimal digits in front of the point; zero or below it when `x < 1`. -/
def scale (x : Binary) : Int :=
  let whole := (x.floorAt 0).digits
  if whole = 0 then
    -((List.range 324).takeWhile fun k : Nat => (x.floorAt (-1 - (k : Int))).digits = 0).length
  else (natText whole).length

/-- The multiple of `10 ^ place` that reads back as `x`: the nearer one when both neighbours do, and
the even one when they are equally near. -/
def candidate? (x : Binary) (place : Int) : Option Decimal :=
  let below := x.floorAt place
  let above : Decimal := ⟨below.digits + 1, place⟩
  match x.readsBack below, x.readsBack above with
  | true, true =>
    let twiceMiddle : Decimal := ⟨2 * below.digits + 1, place⟩
    match twiceMiddle.compareBinary (2 * x.significand) x.exponent with
    | .gt => some below
    | .lt => some above
    | .eq => some (if below.digits % 2 = 0 then below else above)
  | true, false => some below
  | false, true => some above
  | false, false => none

/-- The decimal with the fewest digits that reads back as `x`. Seventeen digits always suffice. -/
def shortest (x : Binary) : Decimal :=
  let found := (List.range 17).findSome? fun n : Nat => x.candidate? (x.scale - 1 - (n : Int))
  (found.getD (x.floorAt x.exponent)).strip 25

end Binary

namespace Number

/-- The bits of infinity, which lie just above those of the largest number. -/
def infinityBits : Nat := 0x7FF0000000000000

/-- `n / d` in units of `2 ^ k`, as a quotient and its two parts. -/
def scaled (n d : Nat) (k : Int) : Nat × Nat × Nat :=
  let n := n * Nat.pow 2 (-k).toNat
  let d := d * Nat.pow 2 k.toNat
  (n / d, n % d, d)

/-- The bits of the positive number nearest to `n / d`, of two equally near ones the even one. The
quotient by the last place has 53 binary digits, or fewer when the last place is the smallest there
is; a quotient rounded up to 54 digits carries into the exponent. -/
def nearestBits (n d : Nat) : Nat :=
  let k : Int := (n.log2 : Int) - (d.log2 : Int) - 52
  let k := if (scaled n d k).1 < 0x10000000000000 then k - 1 else k
  let k := if k < -1074 then -1074 else k
  let (q, r, d) := scaled n d k
  let q := if d < 2 * r ∨ (2 * r = d ∧ q % 2 = 1) then q + 1 else q
  min ((k + 1074).toNat * 0x10000000000000 + q) infinityBits

/-- The number nearest to `digits * 10 ^ exponent`. What is below every number or above all of them
is not computed. -/
def ofDecimal (negative : Bool) (digits : Nat) (exponent : Int) : Number :=
  let size : Int := (natText digits).length + exponent
  let bits :=
    if digits = 0 ∨ size < -400 then 0
    else if 400 < size then infinityBits
    else nearestBits (digits * Nat.pow 10 exponent.toNat) (Nat.pow 10 (-exponent).toNat)
  ⟨UInt64.ofNat (if negative then 0x8000000000000000 + bits else bits)⟩

def ofNat (n : Nat) : Number := ofDecimal false n 0

def isNegative (x : Number) : Bool := 0x8000000000000000 ≤ x.bits

def exponentField (x : Number) : Nat := ((x.bits >>> 52) &&& 0x7FF).toNat

def fractionField (x : Number) : Nat := (x.bits &&& 0xFFFFFFFFFFFFF).toNat

def isFinite (x : Number) : Bool := x.exponentField != 0x7FF

/-- Neither a zero nor an undefined result. -/
def truthy (x : Number) : Bool :=
  if x.isFinite then x.exponentField != 0 || x.fractionField != 0 else x.fractionField == 0

/-- The absolute value of a finite number. -/
def magnitude (x : Number) : Binary :=
  if x.exponentField = 0 then ⟨x.fractionField, -1074, false⟩
  else ⟨0x10000000000000 + x.fractionField, (x.exponentField : Int) - 1075,
    x.fractionField == 0 && x.exponentField != 1⟩

/-- Digits with a point behind the first `point` of them, filled with zeros where digits are
missing, or in scientific notation when the point lies far from the digits. -/
def layout (digits : Text) (point : Int) : Text :=
  let k : Int := digits.length
  if k ≤ point && point ≤ 21 then digits ++ List.replicate (point - k).toNat '0'
  else if 0 < point && point ≤ 21 then
    digits.take point.toNat ++ '.' :: digits.drop point.toNat
  else if -6 < point && point ≤ 0 then
    '0' :: '.' :: (List.replicate (-point).toNat '0' ++ digits)
  else
    let mantissa := match digits with
      | d :: e :: rest => d :: '.' :: e :: rest
      | short => short
    let power := point - 1
    mantissa ++ 'e' :: (if power < 0 then '-' else '+') :: natText power.natAbs

/-- The text of a number. Both zeros are written `0`. -/
def text (x : Number) : Text :=
  let sign : Text := if x.isNegative then ['-'] else []
  if !x.isFinite then
    if x.fractionField = 0 then sign ++ "Infinity".toList else "NaN".toList
  else if x.magnitude.significand = 0 then ['0']
  else
    let d := x.magnitude.shortest
    let digits := natText d.digits
    sign ++ layout digits (digits.length + d.exponent)

end Number
end NodeReshape
