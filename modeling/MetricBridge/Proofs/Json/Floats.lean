import MetricBridge.Proofs.Decimal.Shortest
import MetricBridge.Proofs.Json.Reading

namespace MetricBridge

open Float.Model (UnpackedFloat)

/-- A numeral is read as the float that its number is nearest to. -/
theorem Numeral.unpack_value {n : Numeral} {d : Decimal} {y : Binary} (h : n.Denotes d) (hy : y.IsFloat)
    (hcovers : y.Covers d.value) :
    n.value.toModel.unpack = .finite .positive y.mantissa y.exponent hy.pos := by
  obtain ⟨k, hdigits, hexponent⟩ := h
  have hne : d.digits ≠ 0 := by
    intro hzero
    have hpos : (0 : ℚ) < 2 ^ (-1075 : Int) := by positivity
    have hgt := hcovers.gt hy
    rw [Decimal.value, hzero, Nat.cast_zero, zero_mul] at hgt
    linarith
  refine Binary.Covers.unpack_nearestFloat (Text.digitsOf_lt _) hy ?_
  have hten : (10 : ℚ) ≠ 0 := by norm_num
  rw [hdigits, Nat.cast_mul, Nat.cast_pow, Nat.cast_ofNat, mul_assoc, ← zpow_natCast, ← zpow_add₀ hten,
    add_comm, hexponent hne]
  exact hcovers

theorem readsBack_zero {x : Float} {s : UnpackedFloat.Sign} (h : x.toModel.unpack = .zero s) : ReadsBack x := by
  cases s with
  | positive =>
      have hzero : (0.0 : Float).toModel.unpack = .zero .positive := rfl
      rw [eq_of_unpack (h.trans hzero.symm)]
      exact fun _ _ => by decide +kernel
  | negative =>
      have hzero : (-0.0 : Float).toModel.unpack = .zero .negative := rfl
      rw [eq_of_unpack (h.trans hzero.symm)]
      exact fun _ _ => by decide +kernel

/-- A finite float is read back from its text. -/
theorem readsBack_float (x : Float) : ReadsBack x := by
  intro hnan hinf
  cases unpacks hnan hinf with
  | zero _ hunpack => exact readsBack_zero hunpack hnan hinf
  | @finite y hfloat hy hunpack =>
      obtain ⟨n, htext, hdenotes⟩ := NumberLayout.exists_numeral y.shortest
      have hvalue := n.unpack_value hdenotes hy hy.covers_shortest
      have hread := n.readFloat_text (x.toBits >>> 63 = 1)
      simp only [decide_eq_true_eq] at hread
      rw [Text.ofFloat, NumberLayout.float, if_neg (ne_true_of_eq_false hnan),
        if_neg (ne_true_of_eq_false hinf), hfloat, htext, hread]
      refine congrArg Except.ok (eq_of_unpack ?_)
      rw [hunpack, signOf]
      split
      · have hneg : (-n.value).toModel.unpack = UnpackedFloat.unpack .binary64
            (UnpackedFloat.pack .binary64 (UnpackedFloat.neg n.value.toModel.unpack)) := rfl
        rw [hneg, hvalue]
        exact hy.unpack_pack .negative
      · exact hvalue

theorem rereadFloat_eq (x : Float) : rereadFloat x = x := by
  cases floatForm x with
  | nan hnan _ read =>
      have hzero : (0.0 / 0.0 : Float).toModel.unpack = .notANumber := rfl
      exact read.trans (eq_of_unpack (hzero.trans (unpack_isNaN hnan).symm))
  | infinity hinf sign _ read =>
      have hpositive : (1.0 / 0.0 : Float).toModel.unpack = .infinity .positive := rfl
      have hunpack := unpack_infinity hinf
      rw [if_neg sign] at hunpack
      exact read.trans (eq_of_unpack (hpositive.trans hunpack.symm))
  | minusInfinity hinf sign _ read =>
      have hnegative : (-1.0 / 0.0 : Float).toModel.unpack = .infinity .negative := rfl
      have hunpack := unpack_infinity hinf
      rw [if_pos sign] at hunpack
      exact read.trans (eq_of_unpack (hnegative.trans hunpack.symm))
  | numeral _ _ hnan hinf => rw [rereadFloat, readsBack_float x hnan hinf]

/-- What was read from a file is read again as it is. -/
theorem Json.ReadFrom.reread_eq {source : Text} {j : Json} (h : ReadFrom source j)
    (hsource : source.NoSurrogate) : reread j = j := by
  induction h with
  | null | bool | int => rfl
  | float x => rw [reread, rereadFloat_eq]
  | string t hjoined => rw [reread, Text.joined_eq_self (hjoined hsource)]
  | array items _ ih => rw [reread, rereadItems_eq, List.map_congr_left ih, List.map_id']
  | object fields hnodup hnames _ ih =>
      have hfields : rereadFields fields = fields := by
        rw [rereadFields_eq]
        refine (List.map_congr_left fun field hfield => ?_).trans (List.map_id fields)
        rw [ih field hfield, Text.joined_eq_self (hnames field hfield hsource)]
        rfl
      rw [reread, hfields, Entries.ofPairs_eq_self hnodup]

end MetricBridge
