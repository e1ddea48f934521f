import MetricBridge.Decimal.Layout
import MetricBridge.Decimal.Reading
import Mathlib

namespace MetricBridge

open Float.Model (Format UnpackedFloat)
open Float.Model.UnpackedFloat

def isUpright : UnpackedFloat → Bool
  | .infinity .positive => true
  | .zero .positive => true
  | .finite .positive .. => true
  | _ => false

def sign? : UnpackedFloat → Option Sign
  | .notANumber => none
  | .infinity s | .zero s | .finite s .. => some s

theorem isUpright_iff {u : UnpackedFloat} : isUpright u = true ↔ sign? u = some .positive := by
  cases u with
  | notANumber => exact ⟨nofun, nofun⟩
  | infinity s | zero s | finite s => cases s <;> simp [isUpright, sign?]

/-- An exponent of ones belongs to infinity only, if the mantissa is zero with it. -/
theorem sign?_unpack (spec : Format) (s : Sign) (e : BitVec spec.exponentBits)
    (m : BitVec spec.mantissaBitsWithoutImplicit) (h : e = -1#_ → m = 0#_) :
    sign? (unpack spec (packComponents spec s e m)) = some s := by
  unfold unpack
  simp only [unpackSign_packComponents, unpackMantissa_packComponents,
    unpackExponent_packComponents, Sign.ofBitVec_toBitVec]
  split
  · rename_i he
    rw [if_pos (h he)]
    rfl
  · split
    · split <;> rfl
    · rfl

/-- Packing keeps the sign, and numbers stay numbers. -/
theorem sign?_pack {spec : Format} {u : UnpackedFloat} {s : Sign} (h : sign? u = some s) :
    sign? (unpack spec (pack spec u)) = some s := by
  cases u with
  | notANumber => cases h
  | infinity sign | zero sign =>
      cases h
      exact sign?_unpack _ _ _ _ fun _ => rfl
  | finite sign m e hm =>
      cases h
      unfold pack
      dsimp only
      split
      · exact sign?_unpack _ _ _ _ fun _ => rfl
      · rename_i hsmall
        split
        · refine sign?_unpack _ _ _ _ fun he => ?_
          have hones := congrArg BitVec.toNat he
          rw [BitVec.neg_one_eq_allOnes, BitVec.toNat_allOnes, BitVec.toNat_ofNat,
            Nat.mod_eq_of_lt (by omega)] at hones
          omega
        · refine sign?_unpack _ _ _ _ fun he => ?_
          have hones := congrArg BitVec.toNat he
          have hpow : 2 ^ 1 ≤ 2 ^ spec.exponentBits := Nat.pow_le_pow_right (by decide) spec.he
          rw [BitVec.neg_one_eq_allOnes, BitVec.toNat_allOnes, BitVec.toNat_zero] at hones
          omega

theorem isUpright_pack {spec : Format} {u : UnpackedFloat} (h : isUpright u = true) :
    isUpright (unpack spec (pack spec u)) = true :=
  isUpright_iff.mpr (sign?_pack (isUpright_iff.mp h))

theorem sign?_round (spec : Format) (s : Sign) (m : Nat) (e : Int) (accuracy : Accuracy) :
    sign? (roundWithAccuracy spec s m e accuracy) = some s := by
  unfold roundWithAccuracy
  dsimp only
  split <;> rfl

theorem isUpright_round (spec : Format) (m : Nat) (e : Int) (accuracy : Accuracy) :
    isUpright (roundWithAccuracy spec .positive m e accuracy) = true :=
  isUpright_iff.mpr (sign?_round ..)

def IsMagnitude (x : Float) : Prop := isUpright x.toModel.unpack = true

theorem isMagnitude_pack {u : UnpackedFloat} (h : isUpright u = true) :
    IsMagnitude (Float.ofModel (Float.Model.pack u)) :=
  isUpright_pack h

def isPositive : UnpackedFloat → Bool
  | .finite .positive .. => true
  | _ => false

theorem isUpright_mul {spec : Format} {u v : UnpackedFloat} (hu : isUpright u = true)
    (hv : isPositive v = true) : isUpright (mul spec u v) = true := by
  match v, hv with
  | .finite .positive m e hm, _ =>
    cases u with
    | notANumber => cases hu
    | infinity sign => cases sign with
        | negative => cases hu
        | positive => rfl
    | zero sign => cases sign with
        | negative => cases hu
        | positive => rfl
    | finite sign m' e' hm' => cases sign with
        | negative => cases hu
        | positive => exact isUpright_round _ _ _ _

theorem isUpright_div {spec : Format} {u v : UnpackedFloat} (hu : isUpright u = true)
    (hv : isPositive v = true) : isUpright (div spec u v) = true := by
  match v, hv with
  | .finite .positive m e hm, _ =>
    cases u with
    | notANumber => cases hu
    | infinity sign => cases sign with
        | negative => cases hu
        | positive => rfl
    | zero sign => cases sign with
        | negative => cases hu
        | positive => rfl
    | finite sign m' e' hm' => cases sign with
        | negative => cases hu
        | positive => exact isUpright_round _ _ _ _

theorem isUpright_ofScientific (spec : Format) (m : Nat) (e : Int) :
    isUpright (UnpackedFloat.ofScientific spec m e) = true := by
  unfold UnpackedFloat.ofScientific
  split
  · rfl
  · split
    · rfl
    · split
      · rfl
      · split
        · exact isUpright_mul rfl rfl
        · exact isUpright_div rfl rfl

theorem isMagnitude_ofUInt64 (n : UInt64) : IsMagnitude n.toFloat := by
  refine isMagnitude_pack ?_
  unfold ofUInt64 ofNat ofInt UnpackedFloat.normalize
  split
  · rename_i hneg
    rw [Int.compare_eq_lt] at hneg
    omega
  · rfl
  · exact isUpright_round _ _ _ _

theorem isMagnitude_ofScientific (m : Nat) (s : Bool) (e : Nat) :
    IsMagnitude (Float.ofScientific m s e) := by
  have hpowers : ∀ x ∈ Float.exactlyRepresentablePowersOfTen,
      isPositive x.toModel.unpack = true := by
    decide +kernel
  unfold Float.ofScientific
  split
  · have hpower := hpowers _ (Array.getElem_mem (i := e) (by
      simp [Float.exactlyRepresentablePowersOfTen]; omega))
    dsimp only
    split
    · exact isMagnitude_pack (isUpright_div (isMagnitude_ofUInt64 _) hpower)
    · exact isMagnitude_pack (isUpright_mul (isMagnitude_ofUInt64 _) hpower)
  · exact isMagnitude_pack (isUpright_ofScientific _ _ _)

namespace Text

theorem isMagnitude_nearestFloat (digits : List Nat) (exponent : Int) :
    IsMagnitude (nearestFloat digits exponent) := by
  unfold nearestFloat
  dsimp only
  split
  · exact isMagnitude_ofScientific 0 true 1
  · split
    · exact (by decide +kernel : isUpright (1.0 / 0.0 : Float).toModel.unpack = true)
    · exact isMagnitude_ofScientific _ _ _

/-- A decimal fraction denotes no negative number. -/
theorem isMagnitude_decimalFloat {t : Text} {x : Float} (h : decimalFloat? t = some x) :
    IsMagnitude x := by
  unfold decimalFloat? at h
  dsimp only at h
  -- the fraction, then each of the checks
  split at h
  all_goals
    split at h
    · cases h
    · split at h
      · cases h
        exact isMagnitude_nearestFloat _ _
      · split at h
        · cases h
        · split at h
          · cases h
          · cases h
            exact isMagnitude_nearestFloat _ _

end Text

variable {x : Float}

theorem IsMagnitude.isNaN_eq_false (h : IsMagnitude x) : x.isNaN = false := by
  unfold IsMagnitude at h
  change x.toModel.unpack.isNaN = false
  cases hu : x.toModel.unpack with
  | notANumber =>
      rw [hu] at h
      cases h
  | infinity | zero | finite => rfl

def isZero : UnpackedFloat → Bool
  | .zero _ => true
  | _ => false

theorem lt_eq_false_of_isZero {u v : UnpackedFloat} (hu : isUpright u = true)
    (hv : isZero v = true) : u.lt v = false := by
  match v, hv with
  | .zero _, _ =>
    cases u with
    | notANumber => cases hu
    | zero => rfl
    | infinity sign => cases sign with
        | negative => cases hu
        | positive => rfl
    | finite sign m e hm => cases sign with
        | negative => cases hu
        | positive => rfl

theorem IsMagnitude.not_lt_zero (h : IsMagnitude x) : ¬ x < 0.0 := by
  intro hlt
  have hlt : x.toModel.unpack.lt (0.0 : Float).toModel.unpack = true := of_decide_eq_true hlt
  rw [lt_eq_false_of_isZero h (by decide +kernel)] at hlt
  cases hlt

theorem unpackSign_eq_one_iff (x : Float) :
    @unpackSign Format.binary64 x.toModel.toBits.toBitVec = 1#1 ↔ x.toBits >>> 63 = 1 := by
  have hlt := x.toModel.toBits.toNat_lt
  rw [← BitVec.toNat_inj, ← UInt64.toNat_inj]
  simp [unpackSign, Float.toBits, Nat.shiftRight_eq_div_pow]
  omega

theorem IsMagnitude.sign_ne_one (h : IsMagnitude x) : x.toBits >>> 63 ≠ 1 := by
  intro hsign
  have hnegative : Sign.ofBitVec 1#1 = .negative := rfl
  unfold IsMagnitude Float.Model.unpack UnpackedFloat.unpack at h
  dsimp only at h
  rw [(unpackSign_eq_one_iff x).mpr hsign, hnegative] at h
  split at h
  · split at h <;> cases h
  · split at h
    · split at h <;> cases h
    · cases h

theorem unpack_infinity (h : x.isInf = true) : x.toModel.unpack =
    .infinity (if x.toBits >>> 63 = 1 then .negative else .positive) := by
  have hinf : x.toModel.unpack.isInf = true := h
  have hsign := unpackSign_eq_one_iff x
  unfold Float.Model.unpack UnpackedFloat.unpack at hinf ⊢
  dsimp only at hinf ⊢
  split at hinf
  · rename_i he
    split at hinf
    · rename_i hm
      rw [if_pos he, if_pos hm]
      by_cases hbit : @unpackSign Format.binary64 x.toModel.toBits.toBitVec = 1#1
      · rw [if_pos (hsign.mp hbit), hbit]
        rfl
      · have hzero : ∀ b : BitVec 1, b ≠ 1#1 → b = 0#1 := by decide
        rw [if_neg fun h => hbit (hsign.mpr h), hzero _ hbit]
        rfl
    · cases hinf
  · split at hinf
    · split at hinf <;> cases hinf
    · cases hinf

theorem unpack_isNaN (h : x.isNaN = true) : x.toModel.unpack = .notANumber := by
  change x.toModel.unpack.isNaN = true at h
  cases hu : x.toModel.unpack <;> rw [hu] at h <;> first | rfl | cases h

theorem le_iff_unpack (x y : Float) : x ≤ y ↔ x.toModel.unpack.le y.toModel.unpack = true :=
  decide_eq_true_iff

end MetricBridge
