import MetricBridge.Decimal.Layout

namespace MetricBridge.Binary

def roundEven (a b : Nat) : Nat :=
  match compare (2 * (a % b)) b with
  | .lt => a / b
  | .gt => a / b + 1
  | .eq => if a / b % 2 = 0 then a / b else a / b + 1

def timesPower (places : Nat) (x : Binary) : Nat :=
  let (a, b) := x.scaled (-(places : Int))
  roundEven a b

def leading (n : Nat) (x : Binary) : Nat × Int :=
  if x.mantissa = 0 then (0, 0)
  else
    let k := x.magnitude
    let (a, b) := x.scaled (k - (n : Int))
    let digits := roundEven a b
    if digits = Nat.pow 10 n then (Nat.pow 10 (n - 1), k) else (digits, k - 1)

end MetricBridge.Binary

namespace MetricBridge.Text

def padLeft (c : Char) (n : Nat) (t : Text) : Text :=
  List.replicate (n - t.length) (.scalar c) ++ t

def padRight (c : Char) (n : Nat) (t : Text) : Text :=
  t ++ List.replicate (n - t.length) (.scalar c)

def withPoint (places : Nat) (point : Bool) (digits : Text) : Text :=
  let whole := digits.length - places
  digits.take whole ++
    if places = 0 then (if point then [.scalar '.'] else []) else .scalar '.' :: digits.drop whole

def fixed (places : Nat) (point : Bool) (x : Binary) : Text :=
  withPoint places point (padLeft '0' (places + 1) (ofNat (x.timesPower places)))

def scientific (places : Nat) (point : Bool) (x : Binary) : Text :=
  let (digits, e) := x.leading (places + 1)
  withPoint places point (padLeft '0' (places + 1) (ofNat digits)) ++ NumberLayout.exponentText e

def trimFraction (t : Text) : Text :=
  if t.contains (.scalar '.') then
    stripRightWhere (· == .scalar '.') (stripRightWhere (· == .scalar '0') t)
  else t

/-- The value with the given number of digits, positional or as a multiple of a power of ten. Zeros
at the end are kept only if they are wanted. -/
def general (digits : Nat) (full : Bool) (x : Binary) : Text :=
  let n := max digits 1
  let e := (x.leading n).2
  let trim := fun t => if full then t else trimFraction t
  if -4 ≤ e ∧ e < n then trim (fixed (n - 1 - e).toNat full x)
  else
    let t := withPoint (n - 1) full (padLeft '0' n (ofNat (x.leading n).1))
    trim t ++ NumberLayout.exponentText e

end MetricBridge.Text
