import MetricBridge.Proofs.Decimal.Rounding

namespace MetricBridge

open Float.Model (Format UnpackedFloat)
open Float.Model.UnpackedFloat

namespace Binary

theorem isFloat_subnormal {m : Nat} (hpos : 0 < m) (hm : m < 2 ^ 52) : IsFloat ⟨m, -1074, false⟩ where
  pos := hpos
  lt := by dsimp only; omega
  least := le_rfl
  greatest := by dsimp only; omega
  normal := .inr rfl
  narrow := by simp

theorem isFloat_normal {m e : Nat} (hm : m < 2 ^ 52) (he : e ≠ 0) (hfinite : e < 2047) :
    IsFloat ⟨0x10000000000000 + m, (e : Int) - 1075, m == 0 && e > 1⟩ where
  pos := by dsimp only; omega
  lt := by dsimp only; omega
  least := by dsimp only; omega
  greatest := by dsimp only; omega
  normal := .inl (by dsimp only; omega)
  narrow := by
    simp only [Bool.and_eq_true, beq_iff_eq, decide_eq_true_eq]
    omega

theorem toNat_unpackExponent (bits : UInt64) :
    (@unpackExponent .binary64 bits.toBitVec).toNat = ((bits >>> 52) &&& 0x7FF).toNat := by
  have hmask : ∀ n : Nat, n &&& 0x7FF = n % 2 ^ 11 := fun n => Nat.and_two_pow_sub_one_eq_mod n 11
  rw [UInt64.toNat_and, UInt64.toNat_shiftRight]
  simp only [unpackExponent, BitVec.toNat_cast, BitVec.extractLsb_toNat]
  exact (hmask _).symm

theorem toNat_unpackMantissa (bits : UInt64) :
    (@unpackMantissa .binary64 bits.toBitVec).toNat = (bits &&& 0xFFFFFFFFFFFFF).toNat := by
  have hmask : ∀ n : Nat, n &&& 0xFFFFFFFFFFFFF = n % 2 ^ 52 := fun n => Nat.and_two_pow_sub_one_eq_mod n 52
  rw [UInt64.toNat_and]
  simp only [unpackMantissa, BitVec.toNat_cast, BitVec.extractLsb_toNat]
  exact (hmask _).symm

end Binary

def signOf (x : Float) : Sign := if x.toBits >>> 63 = 1 then .negative else .positive

theorem ofBitVec_unpackSign (x : Float) :
    Sign.ofBitVec (@unpackSign .binary64 x.toModel.toBits.toBitVec) = signOf x := by
  have hsign := unpackSign_eq_one_iff x
  unfold signOf
  rcases BitVec.eq_zero_or_eq_one (@unpackSign .binary64 x.toModel.toBits.toBitVec) with h | h
  · rw [if_neg fun hone => absurd (h.symm.trans (hsign.mpr hone)) (by decide), h]
    rfl
  · rw [if_pos (hsign.mp h), h]
    rfl

/-- The mantissa with the first bit, which is not stored. -/
theorem toNat_lead (m : BitVec 52) : (1#1 ++ m).toNat = 0x10000000000000 + m.toNat := by
  rw [BitVec.toNat_append]
  exact (Nat.two_pow_add_eq_or_of_lt m.isLt 1).symm

inductive Unpacks (x : Float) : Prop
  | zero (mantissa : (Binary.ofFloat x).mantissa = 0) (unpack : x.toModel.unpack = .zero (signOf x))
  | finite {y : Binary} (ofFloat : Binary.ofFloat x = y) (isFloat : y.IsFloat)
      (unpack : x.toModel.unpack = .finite (signOf x) y.mantissa y.exponent isFloat.pos)

theorem unpacks {x : Float} (hnan : x.isNaN = false) (hinf : x.isInf = false) : Unpacks x := by
  have hnan : x.toModel.unpack.isNaN = false := hnan
  have hinf : x.toModel.unpack.isInf = false := hinf
  have hofFloat : Binary.ofFloat x = Binary.ofBits x.toModel.toBits := rfl
  have hunpack : x.toModel.unpack = UnpackedFloat.unpack .binary64 x.toModel.toBits.toBitVec := rfl
  rw [Binary.ofBits, ← Binary.toNat_unpackExponent, ← Binary.toNat_unpackMantissa] at hofFloat
  rw [UnpackedFloat.unpack, ofBitVec_unpackSign] at hunpack
  have hmantissa := (@unpackMantissa .binary64 x.toModel.toBits.toBitVec).isLt
  have hexponent := (@unpackExponent .binary64 x.toModel.toBits.toBitVec).isLt
  dsimp only at hofFloat hunpack
  split at hunpack
  · -- all bits of the exponent are set: NaN or infinity
    split at hunpack <;> rw [hunpack] at hnan hinf <;> contradiction
  rename_i hones
  split at hunpack
  · rename_i hzero
    rw [if_pos (by rw [hzero]; rfl)] at hofFloat
    split at hunpack
    · rename_i hmzero
      exact .zero (by rw [hofFloat, hmzero]; rfl) hunpack
    · rename_i hmpos
      refine .finite hofFloat (Binary.isFloat_subnormal (Nat.pos_of_ne_zero fun h => hmpos
        (BitVec.eq_of_toNat_eq h)) hmantissa) (hunpack.trans ?_)
      simp only [hzero]
      rfl
  · rename_i hzero
    have hne : (@unpackExponent .binary64 x.toModel.toBits.toBitVec).toNat ≠ 0 :=
      fun h => hzero (BitVec.eq_of_toNat_eq h)
    have hfinite : (@unpackExponent .binary64 x.toModel.toBits.toBitVec).toNat ≠ 2047 :=
      fun h => hones (BitVec.eq_of_toNat_eq h)
    rw [if_neg hne] at hofFloat
    refine .finite hofFloat (Binary.isFloat_normal hmantissa hne (by dsimp only at hexponent; omega))
      (hunpack.trans ?_)
    have hlead := toNat_lead (@unpackMantissa .binary64 x.toModel.toBits.toBitVec)
    congr 1

theorem unpack_normal (s : Sign) {e : BitVec 11} {m : BitVec 52} (hones : e ≠ -1#11) (hzero : e ≠ 0#11)
    {n : Nat} {f : Int} (hn : (1#1 ++ m).toNat = n) (hf : (e.toNat : Int) - 1075 = f) (hpos : 0 < n) :
    UnpackedFloat.unpack .binary64 (packComponents .binary64 s e m) = .finite s n f hpos := by
  subst hn hf
  unfold UnpackedFloat.unpack
  simp only [unpackExponent_packComponents, unpackMantissa_packComponents, unpackSign_packComponents,
    Sign.ofBitVec_toBitVec, if_neg hones, if_neg hzero]
  rfl

theorem unpack_subnormal (s : Sign) {m : BitVec 52} (hpos : 0 < m.toNat) :
    UnpackedFloat.unpack .binary64 (packComponents .binary64 s 0#11 m) = .finite s m.toNat (-1074) hpos := by
  have hne : m ≠ 0#52 := fun h => by
    rw [h] at hpos
    exact absurd hpos (by decide)
  have hones : 0#11 ≠ -1#11 := by decide
  unfold UnpackedFloat.unpack
  simp only [unpackExponent_packComponents, unpackMantissa_packComponents, unpackSign_packComponents,
    Sign.ofBitVec_toBitVec, if_neg hones, if_pos, dif_neg hne]
  rfl

/-- Packing and unpacking keeps a float. -/
theorem Binary.IsFloat.unpack_pack {y : Binary} (h : y.IsFloat) (s : Sign) :
    UnpackedFloat.unpack .binary64 (UnpackedFloat.pack .binary64 (.finite s y.mantissa y.exponent h.pos)) =
      .finite s y.mantissa y.exponent h.pos := by
  obtain ⟨m, e, narrow⟩ := y
  have hpos : 0 < m := h.pos
  have hleast : -1074 ≤ e := h.least
  have hgreatest : e ≤ 971 := h.greatest
  have hlt : m.log2 < 53 := (Nat.log2_lt hpos.ne').mpr h.lt
  have hsmall : ¬2 ^ 11 ≤ (e + (1023 : Nat) + (52 : Nat)).toNat + 1 := by omega
  by_cases hlog : m.log2 + 1 = 53
  · have hpack : UnpackedFloat.pack .binary64 (.finite s m e hpos) = packComponents .binary64 s
        (BitVec.ofNat 11 (e + (1023 : Nat) + (52 : Nat)).toNat) (BitVec.ofNat 52 m) :=
      (if_neg hsmall).trans (if_pos hlog)
    have hge : 2 ^ 52 ≤ m := (Nat.le_log2 hpos.ne').mp (by omega)
    have hexponent : (BitVec.ofNat 11 (e + (1023 : Nat) + (52 : Nat)).toNat).toNat = (e + 1075).toNat := by
      rw [BitVec.toNat_ofNat, Nat.mod_eq_of_lt (by omega)]
      omega
    have hlead : (1#1 ++ BitVec.ofNat 52 m).toNat = m := by
      have hlt : m < 2 ^ 53 := h.lt
      rw [toNat_lead, BitVec.toNat_ofNat]
      omega
    refine (congrArg _ hpack).trans (unpack_normal s (fun hones => ?_) (fun hzero => ?_) hlead ?_ hpos)
    · have hones := congrArg BitVec.toNat hones
      rw [hexponent] at hones
      change _ = 2047 at hones
      omega
    · have hzero := congrArg BitVec.toNat hzero
      rw [hexponent] at hzero
      change _ = 0 at hzero
      omega
    · rw [hexponent]
      change _ = e
      omega
  · have hpack : UnpackedFloat.pack .binary64 (.finite s m e hpos) =
        packComponents .binary64 s 0#11 (BitVec.ofNat 52 m) := (if_neg hsmall).trans (if_neg hlog)
    have hm : m < 2 ^ 52 := (Nat.log2_lt hpos.ne').mp (by omega)
    have he : e = -1074 := h.normal.resolve_left (by dsimp only; omega)
    have hvalue : (BitVec.ofNat 52 m).toNat = m := (BitVec.toNat_ofNat ..).trans (Nat.mod_eq_of_lt hm)
    subst he
    rw [hpack, unpack_subnormal s (by omega)]
    congr 1

theorem eq_of_unpack {x y : Float} (h : x.toModel.unpack = y.toModel.unpack) : x = y :=
  Float.toBits_inj.mp (UInt64.toBitVec_inj.mp ((unpack_inj_of_valid x.toModel.valid y.toModel.valid).mp h))

end MetricBridge
