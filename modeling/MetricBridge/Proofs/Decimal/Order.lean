import MetricBridge.Proofs.Decimal.Sign

namespace MetricBridge

open Float.Model (Format UnpackedFloat)
open Float.Model.UnpackedFloat

def place? : UnpackedFloat → Option (Int × Int × Int)
  | .notANumber => none
  | .infinity .negative => some (-2, 0, 0)
  | .finite .negative m e _ => some (-1, -e, -m)
  | .zero _ => some (0, 0, 0)
  | .finite .positive m e _ => some (1, e, m)
  | .infinity .positive => some (2, 0, 0)

def Precedes (a b : Int × Int × Int) : Prop :=
  a.1 < b.1 ∨ a.1 = b.1 ∧ (a.2.1 < b.2.1 ∨ a.2.1 = b.2.1 ∧ a.2.2 ≤ b.2.2)

theorem Precedes.trans {a b c : Int × Int × Int} (h : Precedes a b) (h' : Precedes b c) :
    Precedes a c := by
  unfold Precedes at *
  omega

theorem Precedes.of_not {a b : Int × Int × Int} (h : ¬Precedes a b) : Precedes b a := by
  unfold Precedes at *
  omega

def comparePlaces (a b : Int × Int × Int) : Ordering :=
  (compare a.1 b.1).then ((compare a.2.1 b.2.1).then (compare a.2.2 b.2.2))

theorem isLE_then_compare {m n : Int} {o : Ordering} :
    ((compare m n).then o).isLE = true ↔ m < n ∨ m = n ∧ o.isLE = true := by
  rcases lt_trichotomy m n with h | rfl | h
  · simp [compare_lt_iff_lt.mpr h, h]
  · simp
  · simp [compare_gt_iff_gt.mpr h, h.not_gt, h.ne']

theorem isLE_comparePlaces {a b : Int × Int × Int} : (comparePlaces a b).isLE = true ↔ Precedes a b := by
  rw [comparePlaces, isLE_then_compare, isLE_then_compare, Int.isLE_compare]
  rfl

theorem comparePlaces_eq_lt {a b : Int × Int × Int} : comparePlaces a b = .lt ↔ ¬Precedes b a := by
  have hswap : comparePlaces b a = (comparePlaces a b).swap := by
    unfold comparePlaces
    rw [Ordering.swap_then, Ordering.swap_then]
    simp [Int.compare_swap]
  rw [← isLE_comparePlaces, hswap]
  cases comparePlaces a b <;> decide

theorem unpackedCompare_eq (u v : UnpackedFloat) :
    u.compare v = (place? u).bind fun a => (place? v).map (comparePlaces a) := by
  cases u with
  | notANumber => rfl
  | infinity s => cases v with
      | notANumber => cases s <;> rfl
      | infinity t => cases s <;> cases t <;> rfl
      | zero t => cases s <;> rfl
      | finite t n f hn => cases s <;> cases t <;> rfl
  | zero s => cases v with
      | notANumber => rfl
      | infinity t | finite t n f hn => cases t <;> rfl
      | zero t => rfl
  | finite s m e hm => cases v with
      | notANumber => cases s <;> rfl
      | infinity t => cases s <;> cases t <;> rfl
      | zero t => cases s <;> rfl
      | finite t n f hn =>
        have hnat : compare (m : Int) n = compare m n := by
          rcases lt_trichotomy m n with h | rfl | h
          · rw [compare_lt_iff_lt.mpr h, compare_lt_iff_lt.mpr (Int.ofNat_lt.mpr h)]
          · simp
          · rw [compare_gt_iff_gt.mpr h, compare_gt_iff_gt.mpr (Int.ofNat_lt.mpr h)]
        have hneg : ∀ a b : Int, compare (-a) (-b) = (compare a b).swap := by
          intro a b
          rcases lt_trichotomy a b with h | rfl | h
          · rw [compare_lt_iff_lt.mpr h, compare_gt_iff_gt.mpr (neg_lt_neg h)]
            rfl
          · simp
          · rw [compare_gt_iff_gt.mpr h, compare_lt_iff_lt.mpr (neg_lt_neg h)]
            rfl
        cases s <;> cases t
        · simp [UnpackedFloat.compare, place?, comparePlaces, hnat, hneg, Ordering.swap_then]
        · rfl
        · rfl
        · simp [UnpackedFloat.compare, place?, comparePlaces, hnat]

theorem unpackedLe_iff {u v : UnpackedFloat} : u.le v = true ↔
    ∃ a b, place? u = some a ∧ place? v = some b ∧ Precedes a b := by
  rw [UnpackedFloat.le, unpackedCompare_eq]
  cases place? u <;> cases place? v <;> simp [isLE_comparePlaces]

theorem unpackedLt_iff {u v : UnpackedFloat} : u.lt v = true ↔
    ∃ a b, place? u = some a ∧ place? v = some b ∧ ¬Precedes b a := by
  rw [UnpackedFloat.lt, unpackedCompare_eq]
  cases place? u <;> cases place? v <;> simp [comparePlaces_eq_lt]

theorem floatLe_trans {x y z : Float} (h : x ≤ y) (h' : y ≤ z) : x ≤ z := by
  rw [le_iff_unpack, unpackedLe_iff] at *
  obtain ⟨a, b, ha, hb, hab⟩ := h
  obtain ⟨b', c, hb', hc, hbc⟩ := h'
  cases hb.symm.trans hb'
  exact ⟨a, c, ha, hc, hab.trans hbc⟩

variable {x y : Float}

theorem isNaN_iff_place? : x.isNaN = false ↔ ∃ a, place? x.toModel.unpack = some a := by
  change x.toModel.unpack.isNaN = false ↔ _
  cases x.toModel.unpack with
  | notANumber => exact ⟨nofun, nofun⟩
  | infinity s | finite s => cases s <;> exact ⟨fun _ => ⟨_, rfl⟩, fun _ => rfl⟩
  | zero s => exact ⟨fun _ => ⟨_, rfl⟩, fun _ => rfl⟩

theorem isNaN_of_le (h : x ≤ y) : x.isNaN = false ∧ y.isNaN = false := by
  rw [le_iff_unpack, unpackedLe_iff] at h
  obtain ⟨a, b, ha, hb, -⟩ := h
  exact ⟨isNaN_iff_place?.mpr ⟨a, ha⟩, isNaN_iff_place?.mpr ⟨b, hb⟩⟩

theorem lt_iff_unpack (x y : Float) : x < y ↔ x.toModel.unpack.lt y.toModel.unpack = true :=
  decide_eq_true_iff

/-- Of two numbers the first is at most the second, or the second is smaller. -/
theorem floatNot_le (hx : x.isNaN = false) (hy : y.isNaN = false) : ¬x ≤ y ↔ y < x := by
  obtain ⟨a, ha⟩ := isNaN_iff_place?.mp hx
  obtain ⟨b, hb⟩ := isNaN_iff_place?.mp hy
  rw [le_iff_unpack, lt_iff_unpack, unpackedLe_iff, unpackedLt_iff, ha, hb]
  simp

theorem floatLe_of_not_le (hx : x.isNaN = false) (hy : y.isNaN = false) (h : ¬x ≤ y) : y ≤ x := by
  obtain ⟨a, ha⟩ := isNaN_iff_place?.mp hx
  obtain ⟨b, hb⟩ := isNaN_iff_place?.mp hy
  rw [le_iff_unpack, unpackedLe_iff] at *
  exact ⟨b, a, hb, ha, .of_not fun hab => h ⟨a, b, ha, hb, hab⟩⟩

theorem isNaN_iff_sign? : x.isNaN = false ↔ ∃ s, sign? x.toModel.unpack = some s := by
  change x.toModel.unpack.isNaN = false ↔ _
  cases x.toModel.unpack <;> simp [UnpackedFloat.isNaN, sign?]

theorem exists_sign?_normalize (spec : Format) (m e : Int) (s : Sign) :
    ∃ t, sign? (UnpackedFloat.normalize spec m e s) = some t := by
  unfold UnpackedFloat.normalize
  split
  · exact ⟨_, sign?_round _ _ _ _ _⟩
  · exact ⟨s, rfl⟩
  · exact ⟨_, sign?_round _ _ _ _ _⟩

/-- A number plus a finite number is a number. -/
theorem exists_sign?_add (spec : Format) {u v : UnpackedFloat} (hu : u.isNaN = false) (hv : v.isNaN = false)
    (hfinite : v.isInf = false) : ∃ s, sign? (UnpackedFloat.add spec u v) = some s := by
  cases v with
  | notANumber => cases hv
  | infinity t => cases hfinite
  | zero t => cases u with
      | notANumber => cases hu
      | zero s => cases s <;> cases t <;> exact ⟨_, rfl⟩
      | infinity s | finite s m e hm => exact ⟨s, rfl⟩
  | finite t n f hn => cases u with
      | notANumber => cases hu
      | infinity s => exact ⟨s, rfl⟩
      | zero s => exact ⟨t, rfl⟩
      | finite s m e hm => exact exists_sign?_normalize _ _ _ _

theorem isNaN_add (hx : x.isNaN = false) (hy : y.isNaN = false) (hfinite : y.isInf = false) :
    (x + y).isNaN = false := by
  obtain ⟨s, hs⟩ := exists_sign?_add .binary64 hx hy hfinite
  exact isNaN_iff_sign?.mpr ⟨s, sign?_pack hs⟩

theorem isNaN_of_isFinite (h : x.isFinite = true) : x.isNaN = false := by
  change x.toModel.unpack.isFinite = true at h
  change x.toModel.unpack.isNaN = false
  cases hu : x.toModel.unpack with
  | notANumber => rw [hu] at h; cases h
  | _ => rfl

theorem isInf_of_isFinite (h : x.isFinite = true) : x.isInf = false := by
  change x.toModel.unpack.isFinite = true at h
  change x.toModel.unpack.isInf = false
  cases hu : x.toModel.unpack with
  | infinity => rw [hu] at h; cases h
  | _ => rfl

theorem unpack_add (x y : Float) : (x + y).toModel.unpack =
    unpack .binary64 (pack .binary64 (add .binary64 x.toModel.unpack y.toModel.unpack)) := rfl

theorem isNaN_add_right (hy : y.isNaN = true) : (x + y).isNaN = true := by
  change y.toModel.unpack.isNaN = true at hy
  change (x + y).toModel.unpack.isNaN = true
  have hv : y.toModel.unpack = .notANumber := by
    cases hv : y.toModel.unpack with
    | notANumber => rfl
    | _ => rw [hv] at hy; cases hy
  have hadd : ∀ u : UnpackedFloat, add .binary64 u .notANumber = .notANumber := by
    intro u
    cases u <;> rfl
  rw [unpack_add, hv, hadd]
  rfl

/-- What is added to infinity is lost. -/
theorem unpack_add_infinity (hx : x.isFinite = true)
    (hy : y.toModel.unpack = .infinity .positive) :
    (x + y).toModel.unpack = .infinity .positive := by
  change x.toModel.unpack.isFinite = true at hx
  have hadd : add .binary64 x.toModel.unpack (.infinity .positive) = .infinity .positive := by
    cases hu : x.toModel.unpack with
    | notANumber | infinity => rw [hu] at hx; cases hx
    | zero | finite => rfl
  rw [unpack_add, hy, hadd]
  rfl

/-- No finite number reaches infinity. -/
theorem not_infinity_le (hx : x.toModel.unpack = .infinity .positive) (hy : y.isFinite = true) :
    ¬ x ≤ y := by
  change y.toModel.unpack.isFinite = true at hy
  rw [le_iff_unpack, unpackedLe_iff, hx]
  rintro ⟨a, b, ha, hb, hab⟩
  cases ha
  cases hv : y.toModel.unpack with
  | notANumber | infinity => rw [hv] at hy; cases hy
  | zero s =>
      rw [hv] at hb
      cases hb
      simp [Precedes] at hab
  | finite s m e hm =>
      rw [hv] at hb
      cases s <;> cases hb <;> simp [Precedes] at hab

/-- Of the infinities the one above zero. -/
theorem unpack_of_isInf (hx : x.isInf = true) (hle : 0.0 ≤ x) :
    x.toModel.unpack = .infinity .positive := by
  change x.toModel.unpack.isInf = true at hx
  have hzero : place? (0.0 : Float).toModel.unpack = some (0, 0, 0) := by decide +kernel
  rw [le_iff_unpack, unpackedLe_iff, hzero] at hle
  obtain ⟨a, b, ha, hb, hab⟩ := hle
  cases ha
  cases hu : x.toModel.unpack with
  | infinity s => cases s with
      | positive => rfl
      | negative =>
          rw [hu] at hb
          cases hb
          simp [Precedes] at hab
  | _ => rw [hu] at hx; cases hx

theorem isNaN_ofInt (n : Int) : (Float.ofInt n).isNaN = false := by
  cases n with
  | ofNat k => exact (isMagnitude_ofScientific k false 0).isNaN_eq_false
  | negSucc k =>
      have hneg : ∀ {u : UnpackedFloat} {s}, sign? u = some s → sign? u.neg = some (-s) := by
        intro u s h
        cases u <;> cases h <;> rfl
      obtain ⟨s, hs⟩ := isNaN_iff_sign?.mp (isMagnitude_ofScientific (k + 1) false 0).isNaN_eq_false
      exact isNaN_iff_sign?.mpr ⟨-s, sign?_pack (hneg hs)⟩

end MetricBridge
