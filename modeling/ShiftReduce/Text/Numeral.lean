/-! # Numerals — numbers as users write them

    Two ways to read an integer: plain and decimal, or with an optional base
    marker and digit separators.  Integers have to fit into 64 bits. -/

namespace ShiftReduce

namespace Numeral

/-- Why a text is no 64-bit integer. -/
inductive Defect where
  | malformed
  | outOfRange
  deriving DecidableEq, Repr

/-- How a defect is reported. -/
def Defect.message : Defect → String
  | .malformed => "invalid syntax"
  | .outOfRange => "value out of range"

/-- The sign of a numeral and what follows it. -/
def splitSign : List Char → Bool × List Char
  | '-' :: cs => (true, cs)
  | '+' :: cs => (false, cs)
  | cs => (false, cs)

/-- The value of a digit in bases up to 36. -/
def digitValue? (c : Char) : Option Nat :=
  if '0' ≤ c && c ≤ '9' then some (c.toNat - '0'.toNat)
  else if 'a' ≤ c && c ≤ 'z' then some (c.toNat - 'a'.toNat + 10)
  else if 'A' ≤ c && c ≤ 'Z' then some (c.toNat - 'A'.toNat + 10)
  else none

/-- The first magnitude that a word of 64 bits does not hold: 2^64. -/
def wordLimit : Nat := 18446744073709551616

/-- The first magnitude that a signed word of 64 bits does not hold: 2^63. -/
def signedLimit : Nat := 9223372036854775808

/-- Reads digits of a base from the left.  The value has to fit into a word at
    every digit. -/
def readDigits (base : Nat) (separators : Bool) : Nat → List Char → Except Defect Nat
  | value, [] => .ok value
  | value, c :: cs =>
    if separators && c == '_' then readDigits base separators value cs
    else match digitValue? c with
      | none => .error .malformed
      | some d =>
        if base ≤ d then .error .malformed
        else if wordLimit ≤ value * base + d then .error .outOfRange
        else readDigits base separators (value * base + d) cs

/-- Gives a magnitude its sign if the result fits into 64 bits. -/
def applySign (negative : Bool) (value : Nat) : Except Defect Int :=
  if negative then
    if signedLimit < value then .error .outOfRange else .ok (-(value : Int))
  else
    if signedLimit ≤ value then .error .outOfRange else .ok value

/-- A plain decimal integer with an optional sign. -/
def decimalInt? (cs : List Char) : Option Int :=
  let (negative, digits) := splitSign cs
  if digits.isEmpty then none
  else match readDigits 10 false 0 digits with
    | .ok value => (applySign negative value).toOption
    | .error _ => none

/-- The base that the beginning of a numeral announces, and its digits.  A
    leading zero alone announces base eight. -/
def splitBase : List Char → Nat × List Char
  | '0' :: m :: c :: cs =>
    if m == 'x' || m == 'X' then (16, c :: cs)
    else if m == 'o' || m == 'O' then (8, c :: cs)
    else if m == 'b' || m == 'B' then (2, c :: cs)
    else (8, m :: c :: cs)
  | '0' :: cs => (8, cs)
  | cs => (10, cs)

/-- Whether a numeral announces its base by a letter. -/
def hasBaseMarker : List Char → Bool
  | '0' :: m :: _ => m == 'x' || m == 'X' || m == 'o' || m == 'O' || m == 'b' || m == 'B'
  | _ => false

/-- Whether a numeral announces base sixteen. -/
def hasHexMarker : List Char → Bool
  | '0' :: m :: _ => m == 'x' || m == 'X'
  | _ => false

/-- Whether every separator stands behind a digit and before a digit. -/
def separatorsInPlace (isDigit : Char → Bool) : Bool → List Char → Bool
  | _, [] => true
  | afterDigit, '_' :: cs =>
    afterDigit && ((cs.head?.map isDigit).getD false) && separatorsInPlace isDigit false cs
  | _, c :: cs => separatorsInPlace isDigit (isDigit c) cs

/-- Whether the separators of a numeral without sign are in place.  A base
    marker counts as a digit. -/
def separatorsFit (body : List Char) : Bool :=
  let isDigit (c : Char) : Bool :=
    match digitValue? c with
    | some d => d < (if hasHexMarker body then 16 else 10)
    | none => false
  separatorsInPlace isDigit (hasBaseMarker body) (if hasBaseMarker body then body.drop 2 else body)

/-- An integer with an optional sign, an optional base marker and single
    underscores between digits. -/
def markedInt (cs : List Char) : Except Defect Int :=
  let (negative, body) := splitSign cs
  if body.isEmpty then .error .malformed
  else
    let (base, digits) := splitBase body
    match readDigits base true 0 digits with
    | .error d => .error d
    | .ok value => if separatorsFit body then applySign negative value else .error .malformed

/-- A number with leading zeros up to a width. -/
def padded (width n : Nat) : String :=
  let digits := toString n
  String.ofList (List.replicate (width - digits.length) '0') ++ digits

end Numeral

end ShiftReduce
