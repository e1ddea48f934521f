import MetricBridge.Decimal.Binary

namespace MetricBridge.Binary

def compareScaled (a : Nat) (i : Int) (b : Nat) (j : Int) : Ordering :=
  compare (a * Nat.pow 10 i.toNat * Nat.pow 2 (-j).toNat)
    (b * Nat.pow 2 j.toNat * Nat.pow 10 (-i).toNat)

/-- Whether the decimal lies among the reals that round to the number: from halfway to the number
below to halfway to the number above, ends included when the mantissa is even. -/
def readsBack (x : Binary) (d : Decimal) : Bool :=
  let low := if x.narrowBelow then 4 * x.mantissa - 1 else 4 * x.mantissa - 2
  let atLow := compareScaled d.digits d.exponent low (x.exponent - 2)
  let atHigh := compareScaled d.digits d.exponent (4 * x.mantissa + 2) (x.exponent - 2)
  let closed := x.mantissa % 2 == 0
  (atLow == .gt || (closed && atLow == .eq)) && (atHigh == .lt || (closed && atHigh == .eq))

def onGrid? (x : Binary) (g : Int) : Option Decimal :=
  let (a, b) := x.scaled g
  let low : Decimal := ⟨a / b, g⟩
  let high : Decimal := ⟨a / b + 1, g⟩
  match x.readsBack low, x.readsBack high with
  | true, true =>
    match compare (2 * a) ((2 * (a / b) + 1) * b) with
    | .lt => some low
    | .gt => some high
    | .eq => some (if a / b % 2 = 0 then low else high)
  | true, false => some low
  | false, true => some high
  | false, false => none

/-- The decimal with the fewest digits that reads back; of several the nearest. Seventeen digits
always suffice; beyond them the exact value is taken. -/
def shortest (x : Binary) : Decimal :=
  if x.mantissa = 0 then ⟨0, 0⟩
  else
    let k := x.magnitude
    let found := (List.range 17).findSome? fun (n : Nat) => x.onGrid? (k - ((n : Int) + 1))
    (found.getD ⟨(x.scaled x.exponent).1 / (x.scaled x.exponent).2, x.exponent⟩).trimZeros 20

def significant (n : Nat) (x : Binary) : Decimal :=
  if x.mantissa = 0 then ⟨0, 0⟩
  else
    let g := x.magnitude - (n : Int)
    let (a, b) := x.scaled g
    let digits := match compare (2 * (a % b)) b with
      | .lt => a / b
      | .gt => a / b + 1
      | .eq => if a / b % 2 = 0 then a / b else a / b + 1
    Decimal.trimZeros (n + 1) ⟨digits, g⟩

end MetricBridge.Binary
