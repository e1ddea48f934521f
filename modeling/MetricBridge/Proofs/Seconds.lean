import MetricBridge.Seconds
import Mathlib.Algebra.Order.Group.Int
import Mathlib.Algebra.Order.Monoid.Unbundled.Pow

namespace MetricBridge.Seconds

/-- The times are added and compared without rounding. -/
class Exact (τ : Type) [Seconds τ] [AddCommGroup τ] [LinearOrder τ] : Prop where
  zero_eq : (zero : τ) = 0
  add_eq (a b : τ) : add a b = a + b
  sub_eq (a b : τ) : sub a b = a - b
  twice_eq (a : τ) : twice a = a + a
  lt_iff (a b : τ) : lt a b = true ↔ a < b
  le_iff (a b : τ) : le a b = true ↔ a ≤ b

instance : Seconds Int where
  zero := 0
  add := (· + ·)
  sub := (· - ·)
  twice t := 2 * t
  lt a b := a < b
  le a b := a ≤ b
  ofInt? := some
  brief := Text.ofInt
  toJson := .int
  reached? now j := (numberOf? j).map fun
    | .inl x => !x.isNaN && Binary.compareInt x now != .gt
    | .inr n => n ≤ now
  ahead? now j := (numberOf? j).map fun
    | .inl x => !x.isNaN && Binary.compareInt x now == .gt
    | .inr n => now < n

instance : Exact Int where
  zero_eq := rfl
  add_eq _ _ := rfl
  sub_eq _ _ := rfl
  twice_eq := Int.two_mul
  lt_iff _ _ := decide_eq_true_iff
  le_iff _ _ := decide_eq_true_iff

class Whole (τ : Type) [Seconds τ] [AddCommGroup τ] [LinearOrder τ] : Prop where
  exists_second : ∃ second : τ, 0 < second ∧ ∀ n : Int, ofInt? n = some (n • second)

instance : Whole Int where
  exists_second := ⟨1, Int.one_pos, fun n => congrArg some (by simp)⟩

theorem exists_ofInt? {τ : Type} [Seconds τ] [AddCommGroup τ] [LinearOrder τ] [IsOrderedAddMonoid τ]
    [Whole τ] {n : Int} (h : 0 < n) : ∃ t : τ, ofInt? n = some t ∧ 0 < t := by
  obtain ⟨second, hpos, hwhole⟩ := Whole.exists_second (τ := τ)
  exact ⟨n • second, hwhole n, zsmul_pos hpos h⟩

end MetricBridge.Seconds
