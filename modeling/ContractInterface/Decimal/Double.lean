import ContractInterface.Decimal.Digits

/-!
# Numbers with a 53-bit significand

A double is zero or more halves, quarters, ... of a power of two: `m * 2 ^ e` with `m` below `2 ^ 53`
and `e` at least `-1074`, beside the infinities and one value that is no number.  Decimals are
rounded to the nearest double, ties to the even significand, and shown with the fewest digits that
are rounded back to it.
-/

namespace ContractInterface

inductive Double where
  | nan
  | infinite (negative : Bool)
  /-- the number `m * 2 ^ e`; `m` has 53 bits unless `e` is the least exponent -/
  | finite (negative : Bool) (m : Nat) (e : Int)
deriving DecidableEq, Repr

namespace Double

/-- The power `2 ^ n`. -/
def pow2 (n : Nat) : Nat := Nat.pow 2 n

/-- The power `10 ^ n`. -/
def pow10 (n : Nat) : Nat := Nat.pow 10 n

/-- The quotient `num / den` rounded to the nearest natural number, ties to even. -/
def roundDiv (num den : Nat) : Nat :=
  let q := num / den
  let r := num % den
  if 2 * r < den then q
  else if den < 2 * r then q + 1
  else if q % 2 = 0 then q else q + 1

/-- The quotient `num / den` in units of `2 ^ e`, as a fraction. -/
def inUnits (num den : Nat) (e : Int) : Nat × Nat :=
  (num * pow2 (-e).toNat, den * pow2 e.toNat)

/-- The double next to `num / den`, where neither is zero. -/
def ofRatio (negative : Bool) (num den : Nat) : Double :=
  let guess : Int := (num.log2 : Int) - den.log2 - 53
  let (n, d) := inUnits num den guess
  let e := max (if pow2 53 ≤ n / d then guess + 1 else guess) (-1074)
  let (n, d) := inUnits num den e
  let m := roundDiv n d
  let (m, e) := if m = pow2 53 then (pow2 52, e + 1) else (m, e)
  if 971 < e then infinite negative else finite negative m e

/-- The double next to `digits * 10 ^ exp`. -/
def ofDecimal (negative : Bool) (digits : Nat) (exp : Int) : Double :=
  if digits = 0 then finite negative 0 (-1074)
  else
    let size : Int := (Decimal.digits digits).length + exp
    if 310 < size then infinite negative
    else if size < -330 then finite negative 0 (-1074)
    else ofRatio negative (digits * pow10 exp.toNat) (pow10 (-exp).toNat)

/-! ## Shortest digits -/

/-- The number `a * 10 ^ i` compared with `n * 2 ^ j`. -/
def compareScaled (a : Nat) (i : Int) (n : Nat) (j : Int) : Ordering :=
  compare (a * pow10 i.toNat * pow2 (-j).toNat) (n * pow2 j.toNat * pow10 (-i).toNat)

/-- The decimal `a * 10 ^ i` is rounded to `m * 2 ^ e`: it lies between the middles to the two
neighbours, or on one of them if `m` is even.  Below a power of two the neighbours are closer. -/
def readsBack (m : Nat) (e : Int) (a : Nat) (i : Int) : Bool :=
  let low := if m = pow2 52 && -1074 < e then 4 * m - 1 else 4 * m - 2
  let below := compareScaled a i low (e - 2)
  let above := compareScaled a i (4 * m + 2) (e - 2)
  (below == .gt || m % 2 == 0 && below == .eq) && (above == .lt || m % 2 == 0 && above == .eq)

/-- The number of digits of `m * 2 ^ e` in front of the decimal point; if there are none, the
number of zeros behind the point with a minus sign. -/
def scale (m : Nat) (e : Int) : Int :=
  ((Decimal.digits (m * pow2 e.toNat * pow10 400 / pow2 (-e).toNat)).length : Int) - 400

/-- The multiple of `10 ^ i` next to `m * 2 ^ e` among its two neighbours that read back. -/
def nearestOnGrid (m : Nat) (e i : Int) : Option Nat :=
  let num := m * pow2 e.toNat * pow10 (-i).toNat
  let den := pow2 (-e).toNat * pow10 i.toNat
  let f := num / den
  match readsBack m e f i, readsBack m e (f + 1) i with
  | true, true =>
    match compare (2 * num) ((2 * f + 1) * den) with
    | .lt => some f
    | .gt => some (f + 1)
    | .eq => some (if f % 2 = 0 then f else f + 1)
  | true, false => some f
  | false, true => some (f + 1)
  | false, false => none

/-- Move trailing zeros into the exponent. -/
def stripZeros : Nat → Nat → Int → Nat × Int
  | 0, a, i => (a, i)
  | fuel + 1, a, i => if a % 10 = 0 then stripZeros fuel (a / 10) (i + 1) else (a, i)

/-- The fewest digits that read back as `m * 2 ^ e`, with their exponent. -/
def shortest (m : Nat) (e : Int) : Nat × Int :=
  let k := scale m e
  match (List.range 17).findSome? fun n =>
    (nearestOnGrid m e (k - (n + 1 : Nat))).map fun a => (a, k - ((n + 1 : Nat) : Int)) with
  | some (a, i) => stripZeros 17 a i
  | none => (m * pow2 e.toNat * Nat.pow 5 (-e).toNat, min e 0)

/-! ## Layout -/

/-- The digits `ds` of a number whose decimal point stands behind the first `point` of them:
positional for exponents from -4 to 15, otherwise with an exponent of at least two digits. -/
def layout (ds : List Char) (point : Int) : List Char :=
  let n : Int := ds.length
  if -4 < point && point ≤ 16 then
    if point ≤ 0 then '0' :: '.' :: (List.replicate (-point).toNat '0' ++ ds)
    else if n ≤ point then ds ++ List.replicate (point - n).toNat '0' ++ ['.', '0']
    else ds.take point.toNat ++ '.' :: ds.drop point.toNat
  else
    let x := point - 1
    let size := Decimal.digits x.natAbs
    let mantissa := if ds.length ≤ 1 then ds else ds.take 1 ++ '.' :: ds.drop 1
    mantissa ++ 'e' :: (if x < 0 then '-' else '+') ::
      (if size.length < 2 then '0' :: size else size)

/-- The text of a double with the given texts for infinity and for what is no number. -/
def textWith (infinity notANumber : String) : Double → String
  | nan => notANumber
  | infinite negative => (if negative then "-" else "") ++ infinity
  | finite negative m e =>
    (if negative then "-" else "") ++
      if m = 0 then "0.0"
      else
        let (a, i) := shortest m e
        let ds := Decimal.digits a
        String.ofList (layout ds (ds.length + i))

def text : Double → String := textWith "inf" "nan"

/-- The integer that a double is equal to. -/
def toInt? : Double → Option Int
  | finite negative m e =>
    let den := pow2 (-e).toNat
    let num := m * pow2 e.toNat
    if num % den = 0 then some (if negative then -(num / den : Nat) else (num / den : Nat)) else none
  | _ => none

end Double

end ContractInterface
