import MetricBridge.Decimal.Layout
import MetricBridge.Json.Basic

namespace MetricBridge

/-- Numbers of seconds: a program runs on floats, and its timing is reasoned about in exact numbers. -/
class Seconds (τ : Type) where
  zero : τ
  add : τ → τ → τ
  sub : τ → τ → τ
  twice : τ → τ
  lt : τ → τ → Bool
  le : τ → τ → Bool
  /-- A whole number of seconds, if it is in range. -/
  ofInt? : Int → Option τ
  brief : τ → Text
  toJson : τ → Json
  /-- Whether a JSON number is at most the time; nothing for a value that is no number. -/
  reached? : τ → Json → Option Bool
  /-- Whether a JSON number is greater than the time; nothing for a value that is no number. -/
  ahead? : τ → Json → Option Bool

namespace Binary

/-- Compares the exact value of a float other than NaN with an integer. -/
def compareInt (x : Float) (n : Int) : Ordering :=
  if x.isInf then (if x < 0.0 then .lt else .gt)
  else
    let value := ofFloat x
    let a : Int := if x < 0.0 then -(value.numerator : Int) else value.numerator
    compare a (n * value.denominator)

end Binary

namespace Seconds

def numberOf? : Json → Option (Float ⊕ Int)
  | .float x => some (.inl x)
  | .int n => some (.inr n)
  | .bool b => some (.inr (if b then 1 else 0))
  | _ => none

def floatOfInt? (n : Int) : Option Float :=
  let x := Float.ofInt n
  if x.isInf then none else some x

instance : Seconds Float where
  zero := 0.0
  add := (· + ·)
  sub := (· - ·)
  twice x := x * 2.0
  lt a b := a < b
  le a b := a ≤ b
  ofInt? := floatOfInt?
  brief := Text.ofFloatShort
  toJson := .float
  reached? now j := (numberOf? j).map fun
    | .inl x => decide (x ≤ now)
    | .inr n => !now.isNaN && Binary.compareInt now n != .lt
  ahead? now j := (numberOf? j).map fun
    | .inl x => decide (now < x)
    | .inr n => !now.isNaN && Binary.compareInt now n == .lt

end Seconds
end MetricBridge
