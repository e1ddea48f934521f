import MetricBridge.Decimal.Shortest
import MetricBridge.Text.Basic

namespace MetricBridge

structure NumberLayout where
  /-- Values of at least `10 ^ positionalBelow` are written with an exponent. -/
  positionalBelow : Int
  pointZero : Bool
  infinity : Text
  notANumber : Text

namespace NumberLayout

/-- A float in full: every float reads back from its text, and its text shows that it is a float. -/
def full : NumberLayout := ⟨16, true, "inf", "nan"⟩

def json : NumberLayout := ⟨16, true, "Infinity", "NaN"⟩

/-- A float in a message for people, with six significant digits. -/
def short : NumberLayout := ⟨6, false, "inf", "nan"⟩

def exponentText (e : Int) : Text :=
  let digits := Text.ofNat e.natAbs
  [.scalar 'e', .scalar (if e < 0 then '-' else '+')] ++
    (if digits.length < 2 then .scalar '0' :: digits else digits)

def zeros (n : Int) : Text := List.replicate n.toNat (.scalar '0')

def decimal (layout : NumberLayout) (d : Decimal) : Text :=
  let digits := Text.ofNat d.digits
  let n : Int := digits.length
  -- the position of the point, counted from the first digit
  let point : Int := if d.digits = 0 then 1 else n + d.exponent
  if -4 < point ∧ point ≤ layout.positionalBelow then
    if point ≤ 0 then [.scalar '0', .scalar '.'] ++ zeros (-point) ++ digits
    else if n ≤ point then
      digits ++ zeros (point - n) ++ (if layout.pointZero then [.scalar '.', .scalar '0'] else [])
    else digits.take point.toNat ++ [.scalar '.'] ++ digits.drop point.toNat
  else
    digits.take 1 ++ (if n = 1 then [] else .scalar '.' :: digits.drop 1)
      ++ exponentText (point - 1)

def float (layout : NumberLayout) (choose : Binary → Decimal) (x : Float) : Text :=
  if x.isNaN then layout.notANumber
  else
    let sign : Text := if x.toBits >>> 63 = 1 then [.scalar '-'] else []
    sign ++ if x.isInf then layout.infinity else layout.decimal (choose (Binary.ofFloat x))

end NumberLayout

namespace Text

def ofFloat (x : Float) : Text := NumberLayout.full.float Binary.shortest x

def ofFloatShort (x : Float) : Text := NumberLayout.short.float (Binary.significant 6) x

end Text
end MetricBridge
