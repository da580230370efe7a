import ShiftReduce.Text.Numeral

/-! # Fractions — numerals with a point or an exponent

    A fraction is decimal, such as `2.5` or `1e3`, or hexadecimal with a binary
    exponent, such as `0x1.8p1`.  Its value is the nearest number with 53
    significant bits, of two nearest ones the even one, so `2.99999999999999999`
    is three. -/

namespace ShiftReduce

namespace Fraction

/-- A quotient rounded to the nearest whole number, a half to the even one. -/
def roundDiv (a b : Nat) : Nat :=
  let q := a / b
  let r := a % b
  if b < 2 * r || (b == 2 * r && q % 2 == 1) then q + 1 else q

/-- A value that is positive: a numerator and a denominator. -/
structure Ratio where
  top : Nat
  bottom : Nat
  deriving DecidableEq, Repr

/-- The value times a power of two. -/
def Ratio.scale (v : Ratio) : Int → Ratio
  | .ofNat n => { v with top := v.top * Nat.pow 2 n }
  | .negSucc n => { v with bottom := v.bottom * Nat.pow 2 (n + 1) }

/-- The greatest `e` with `2^e` not above the value. -/
def Ratio.magnitude (v : Ratio) : Int :=
  let e : Int := v.top.log2 - v.bottom.log2
  let unit := v.scale (-e)
  if unit.top < unit.bottom then e - 1 else e

/-- The integral part of the nearest number with 53 significant bits. -/
def Ratio.integralPart (v : Ratio) : Nat :=
  if v.top = 0 then 0
  else
    let shift := 52 - v.magnitude
    let scaled := v.scale shift
    let back := Ratio.scale ⟨roundDiv scaled.top scaled.bottom, 1⟩ (-shift)
    back.top / back.bottom

/-- Whether a character is a digit of a base. -/
def isDigitOf (base : Nat) (c : Char) : Bool :=
  match Numeral.digitValue? c with
  | some d => d < base
  | none => false

/-- The value of digits of a base. -/
def digitsValue (base : Nat) (ds : List Char) : Nat :=
  ds.foldl (fun v c => v * base + (Numeral.digitValue? c).getD 0) 0

/-- The digits of an exponent.  From five digits on the exact value does not
    matter any more. -/
def exponentValue (ds : List Char) : Nat :=
  ds.foldl (fun e c => if e < 10000 then e * 10 + (Numeral.digitValue? c).getD 0 else e) 0

/-- Reads an exponent behind the given letter, which may be left out if
    `optional` says so. -/
def exponent? (letter : Char) (optional : Bool) : List Char → Option Int
  | [] => if optional then some 0 else none
  | c :: cs =>
    let (negative, ds) := Numeral.splitSign cs
    if c.toLower == letter && ((ds.head?.map (isDigitOf 10)).getD false)
        && ds.all (fun d => isDigitOf 10 d || d == '_') then
      let e := exponentValue (ds.filter fun d => d != '_')
      some (if negative then -(e : Int) else e)
    else none

/-- The digits before and behind the point, and what follows them.  There is at
    least one digit and at most one point. -/
def mantissa? (base : Nat) (cs : List Char) : Option (List Char × List Char × List Char) :=
  let isPart (c : Char) : Bool := isDigitOf base c || c == '.' || c == '_'
  let body := (cs.takeWhile isPart).filter fun c => c != '_'
  let whole := body.takeWhile fun c => c != '.'
  let part := (body.dropWhile fun c => c != '.').drop 1
  if (whole.isEmpty && part.isEmpty) || part.contains '.' then none
  else some (whole, part, cs.dropWhile isPart)

/-- Whether a numeral without sign is hexadecimal. -/
def isHex (body : List Char) : Bool :=
  Numeral.hasHexMarker body && 2 < body.length

/-- The exact value of a numeral without sign. -/
def value? (body : List Char) : Option Ratio :=
  if !Numeral.separatorsFit body then none
  else if isHex body then do
    let (whole, part, rest) ← mantissa? 16 (body.drop 2)
    let e ← exponent? 'p' false rest
    return Ratio.scale ⟨digitsValue 16 (whole ++ part), 1⟩ (e - 4 * part.length)
  else do
    let (whole, part, rest) ← mantissa? 10 body
    let e ← exponent? 'e' true rest
    let digits := digitsValue 10 (whole ++ part)
    return match e - part.length with
      | .ofNat n => ⟨digits * Nat.pow 10 n, 1⟩
      | .negSucc n => ⟨digits, Nat.pow 10 (n + 1)⟩

/-- The integral part of the number that a numeral stands for. -/
def integralPart? (cs : List Char) : Option Int :=
  let (negative, body) := Numeral.splitSign cs
  (value? body).map fun v => if negative then -(v.integralPart : Int) else v.integralPart

end Fraction

end ShiftReduce
