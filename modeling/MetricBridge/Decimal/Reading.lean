import MetricBridge.Text.Letter
import MetricBridge.Text.Blank

namespace MetricBridge

inductive NumberFault where
  | malformed
  | tooLong
deriving DecidableEq, Repr

def integerDigitLimit : Nat := 4300

namespace Text

def digitValues? (t : Text) : Option (List Nat) := t.mapM CodePoint.decimalValue?

def valueOfDigits (digits : List Nat) : Nat := digits.foldl (fun n d => 10 * n + d) 0

def natOfDigits (digits : List Nat) : Except NumberFault Nat :=
  if digits.length > integerDigitLimit then .error .tooLong else .ok (valueOfDigits digits)

/-- Drops the low lines between two digits; `previous` says whether a digit stands before. -/
def dropSeparators (previous : Bool) : Text → Option Text
  | [] => some []
  | c :: t =>
    if c = .scalar '_' then
      match t with
      | d :: _ => if previous && d.isDecimal then dropSeparators false t else none
      | [] => none
    else (dropSeparators c.isDecimal t).map (c :: ·)

def takeSign : Text → Bool × Text
  | .scalar '-' :: t => (true, t)
  | .scalar '+' :: t => (false, t)
  | t => (false, t)

/-- What may stand around a number: a blank that is no information separator. -/
def isMargin (c : CodePoint) : Bool := c.isBlank && !(0x1C ≤ c.val && c.val ≤ 0x1F)

def readInt (t : Text) : Except NumberFault Int := do
  let (negative, body) := takeSign (t.stripWhere isMargin)
  let some plain := dropSeparators false body | throw .malformed
  let some digits := digitValues? plain | throw .malformed
  if digits.isEmpty then throw .malformed
  let n ← natOfDigits digits
  return if negative then -(n : Int) else n

/-- The float nearest to `digits * 10 ^ exponent`. Far outside the range of floats the value is not
computed. -/
def nearestFloat (digits : List Nat) (exponent : Int) : Float :=
  let significant := digits.dropWhile (· == 0)
  let size : Int := significant.length + exponent
  if significant.isEmpty || size < -400 then 0.0
  else if size > 400 then 1.0 / 0.0
  else Float.ofScientific (valueOfDigits significant) (exponent < 0) exponent.natAbs

def takeDigits : Text → List Nat × Text
  | [] => ([], [])
  | c :: t => match c.decimalValue? with
    | some d => let (ds, rest) := takeDigits t; (d :: ds, rest)
    | none => ([], c :: t)

def decimalFloat? (t : Text) : Option Float := do
  let (whole, t) := takeDigits t
  let (fraction, t) := match t with
    | .scalar '.' :: t => takeDigits t
    | t => ([], t)
  if whole.isEmpty && fraction.isEmpty then none
  match t with
  | [] => return nearestFloat (whole ++ fraction) (-(fraction.length : Int))
  | c :: t =>
    if c ≠ .scalar 'e' ∧ c ≠ .scalar 'E' then none
    let (negative, t) := takeSign t
    let (exponent, t) := takeDigits t
    if exponent.isEmpty || !t.isEmpty then none
    let e : Int := if negative then -(valueOfDigits exponent) else valueOfDigits exponent
    return nearestFloat (whole ++ fraction) (e - fraction.length)

def isWordInAnyCase (word : String) (t : Text) : Bool :=
  t.map (fun | .scalar c => .scalar c.toLower | s => s) == (word : Text)

/-- The float that the text denotes; infinity and not-a-number may be spelled out. -/
def readFloat (t : Text) : Except NumberFault Float :=
  let (negative, body) := takeSign (t.stripWhere isMargin)
  let magnitude :=
    if isWordInAnyCase "inf" body || isWordInAnyCase "infinity" body then some (1.0 / 0.0)
    else if isWordInAnyCase "nan" body then some (0.0 / 0.0)
    else (dropSeparators false body).bind decimalFloat?
  match magnitude with
  | none => .error .malformed
  | some x => .ok (if negative then -x else x)

end Text
end MetricBridge
