namespace MetricBridge

/-- The value `mantissa * 2 ^ exponent`. -/
structure Binary where
  mantissa : Nat
  exponent : Int
  /-- The gap to the next number below is half the gap to the next number above. -/
  narrowBelow : Bool

/-- The value `digits * 10 ^ exponent`. -/
structure Decimal where
  digits : Nat
  exponent : Int
deriving DecidableEq, Repr

namespace Binary

def ofBits (bits : UInt64) : Binary :=
  let e := ((bits >>> 52) &&& 0x7FF).toNat
  let f := (bits &&& 0xFFFFFFFFFFFFF).toNat
  if e = 0 then ⟨f, -1074, false⟩
  else ⟨0x10000000000000 + f, (e : Int) - 1075, f == 0 && e > 1⟩

def ofFloat (x : Float) : Binary := ofBits x.toBits

def numerator (x : Binary) : Nat := x.mantissa * Nat.pow 2 x.exponent.toNat

def denominator (x : Binary) : Nat := Nat.pow 2 (-x.exponent).toNat

def belowPower (x : Binary) (k : Int) : Bool :=
  x.numerator * Nat.pow 10 (-k).toNat < x.denominator * Nat.pow 10 k.toNat

/-- The least `k` with the value below `10 ^ k`, for a value other than zero. The estimate from the
binary logarithm is off by less than the range that is searched. -/
def magnitude (x : Binary) : Int :=
  let estimate := ((x.mantissa.log2 : Int) + x.exponent) * 30103 / 100000
  ((List.range 6).map fun (i : Nat) => estimate - 2 + (i : Int)).find? x.belowPower
    |>.getD (estimate + 3)

def scaled (x : Binary) (g : Int) : Nat × Nat :=
  (x.numerator * Nat.pow 10 (-g).toNat, x.denominator * Nat.pow 10 g.toNat)

def isIntegral (x : Binary) : Bool := x.numerator % x.denominator == 0

def floor (x : Binary) : Nat := x.numerator / x.denominator

end Binary

namespace Decimal

def trimZeros : Nat → Decimal → Decimal
  | 0, d => d
  | n + 1, d =>
    if d.digits ≠ 0 ∧ d.digits % 10 = 0 then trimZeros n ⟨d.digits / 10, d.exponent + 1⟩ else d

end Decimal
end MetricBridge
