import MetricBridge.Proofs.Text.Percent

namespace MetricBridge.Text

variable {safe : Char → Bool} {t : Text} {c : CodePoint}

theorem utf8Tail_read {count low high n b : Nat} (rest : Bytes) (hlow : low ≤ b) (hhigh : b ≤ high)
    (hb : b < 0x100) : utf8Tail (count + 1) low high n (b.toUInt8 :: rest) =
      utf8Tail count 0x80 0xBF (0x40 * n + b % 0x40) rest := by
  have hbyte : b.toUInt8.toNat = b := by
    simp
    omega
  rw [utf8Tail, hbyte, if_pos ⟨hlow, hhigh⟩]

theorem utf8Step_lead {b count low high : Nat} (rest : Bytes) (hb : b < 0x100)
    (h : utf8Lead b = some (count, low, high)) : utf8Step b.toUInt8 rest =
      utf8Tail count low high
        (if count = 1 then b % 0x20 else if count = 2 then b % 0x10 else b % 8) rest := by
  have hbyte : b.toUInt8.toNat = b := by
    simp
    omega
  have hmulti : ¬b < 0x80 := by
    intro hlt
    unfold utf8Lead at h
    split_ifs at h <;> omega
  rw [utf8Step]
  simp only [hbyte, if_neg hmulti, h]

theorem utf8Lead_two {n : Nat} (hlow : 0x80 ≤ n) (hhigh : n < 0x800) :
    utf8Lead (0xC0 + n / 0x40) = some (1, 0x80, 0xBF) :=
  if_pos ⟨by omega, by omega⟩

/-- The range of the second byte admits all numbers of three bytes but the surrogates. -/
theorem utf8Lead_three {n : Nat} (hlow : 0x800 ≤ n) (hhigh : n < 0x10000)
    (hscalar : n < 0xD800 ∨ 0xDFFF < n) : ∃ low high,
      utf8Lead (0xE0 + n / 0x1000) = some (2, low, high) ∧
        low ≤ 0x80 + n / 0x40 % 0x40 ∧ 0x80 + n / 0x40 % 0x40 ≤ high := by
  unfold utf8Lead
  split_ifs <;> first | omega | exact ⟨_, _, rfl, by omega, by omega⟩

theorem utf8Lead_four {n : Nat} (hlow : 0x10000 ≤ n) (hhigh : n < 0x110000) : ∃ low high,
    utf8Lead (0xF0 + n / 0x40000) = some (3, low, high) ∧
      low ≤ 0x80 + n / 0x1000 % 0x40 ∧ 0x80 + n / 0x1000 % 0x40 ≤ high := by
  unfold utf8Lead
  split_ifs <;> first | omega | exact ⟨_, _, rfl, by omega, by omega⟩

theorem val_of_scalar (hc : ∀ m, c ≠ .surrogate m) :
    c.val < 0xD800 ∨ 0xDFFF < c.val ∧ c.val < 0x110000 := by
  cases c with
  | surrogate m => exact absurd rfl (hc m)
  | scalar c => exact c.valid

/-- The bytes of a code point are read as that code point, whatever follows them. -/
theorem utf8Step_utf8 (hc : ∀ m, c ≠ .surrogate m) (rest : Bytes) : ∃ b more,
    c.utf8 ++ rest = b :: more ∧ utf8Step b more = .read c rest := by
  have hread : ∀ {n}, n = c.val → Utf8Step.read (.ofNat n) rest = .read c rest := by
    rintro _ rfl
    rw [CodePoint.ofNat_val]
  have hvalid := val_of_scalar hc
  unfold CodePoint.utf8
  dsimp only
  split_ifs with hone htwo hthree
  · have hbyte : c.val.toUInt8.toNat = c.val := by
      simp
      omega
    refine ⟨_, _, List.cons_append, ?_⟩
    rw [utf8Step]
    simp only [hbyte, if_pos hone]
    exact hread rfl
  · refine ⟨_, _, List.cons_append, ?_⟩
    rw [utf8Step_lead _ (by omega) (utf8Lead_two (by omega) htwo), List.cons_append,
      utf8Tail_read _ (by omega) (by omega) (by omega), if_pos rfl, utf8Tail, List.nil_append]
    exact hread (by omega)
  · obtain ⟨low, high, hlead, hlow, hhigh⟩ := utf8Lead_three (by omega) hthree (by omega)
    refine ⟨_, _, List.cons_append, ?_⟩
    rw [utf8Step_lead _ (by omega) hlead, List.cons_append, utf8Tail_read _ hlow hhigh (by omega),
      List.cons_append, utf8Tail_read _ (by omega) (by omega) (by omega), if_neg (by decide), if_pos rfl,
      utf8Tail, List.nil_append]
    exact hread (by omega)
  · obtain ⟨low, high, hlead, hlow, hhigh⟩ := utf8Lead_four (n := c.val) (by omega) (by omega)
    refine ⟨_, _, List.cons_append, ?_⟩
    rw [utf8Step_lead _ (by omega) hlead, List.cons_append, utf8Tail_read _ hlow hhigh (by omega),
      List.cons_append, utf8Tail_read _ (by omega) (by omega) (by omega), List.cons_append,
      utf8Tail_read _ (by omega) (by omega) (by omega), if_neg (by decide), if_neg (by decide), utf8Tail,
      List.nil_append]
    exact hread (by omega)

theorem readUtf8Lossy_utf8 (h : t.NoSurrogate) {fuel : Nat} (hfuel : t.length ≤ fuel) :
    readUtf8Lossy fuel t.utf8 = t := by
  induction t generalizing fuel with
  | nil => cases fuel <;> rfl
  | cons c t ih =>
      obtain ⟨hc, ht⟩ := noSurrogate_cons.mp h
      obtain ⟨fuel, rfl⟩ := Nat.exists_eq_add_of_lt hfuel
      obtain ⟨b, more, hbytes, hstep⟩ := utf8Step_utf8 hc (utf8 t)
      have hcons : utf8 (c :: t) = b :: more := hbytes
      rw [hcons, readUtf8Lossy, hstep]
      exact congrArg (c :: ·) (ih ht (Nat.le_add_right _ _))

theorem length_le_utf8 (t : Text) : t.length ≤ t.utf8.length := by
  induction t with
  | nil => exact Nat.le_refl 0
  | cons c t ih =>
      have hc := List.length_pos_of_ne_nil c.utf8_ne_nil
      have hcons : utf8 (c :: t) = c.utf8 ++ utf8 t := rfl
      rw [hcons, List.length_append, List.length_cons]
      omega

theorem ofUtf8Lossy_utf8 (h : t.NoSurrogate) : ofUtf8Lossy t.utf8 = t :=
  readUtf8Lossy_utf8 h (length_le_utf8 t)

theorem takePercentBytes_percentByte (b : UInt8) (t : Text) :
    takePercentBytes (percentByte b ++ t) =
      (b :: (takePercentBytes t).1, (takePercentBytes t).2) := by
  have hdigit : ∀ n < 16, hexValue? (.scalar (Nat.digitChar n).toUpper) = some n := by decide
  have hlt := b.toNat_lt
  have hpair : hexPair? (.scalar (Nat.digitChar (b.toNat / 16)).toUpper)
      (.scalar (Nat.digitChar (b.toNat % 16)).toUpper) = some b := by
    rw [hexPair?, hdigit _ (by omega), hdigit _ (by omega)]
    refine congrArg some (UInt8.toNat_inj.mp ?_)
    simp
    omega
  simp only [percentByte, List.cons_append, List.nil_append, takePercentBytes, hpair]

theorem takePercentBytes_percentBytes (bytes : Bytes) (t : Text) :
    takePercentBytes (bytes.flatMap percentByte ++ t) =
      (bytes ++ (takePercentBytes t).1, (takePercentBytes t).2) := by
  induction bytes with
  | nil => rfl
  | cons b bytes ih => rw [List.flatMap_cons, List.append_assoc, takePercentBytes_percentByte, ih]; rfl

theorem takePercentBytes_of_ne (h : c ≠ .scalar '%') (t : Text) :
    takePercentBytes (c :: t) = ([], c :: t) := by
  rw [takePercentBytes]
  rintro a b rest heq
  exact absurd (List.cons.inj heq).1 h

def isKept (safe : Char → Bool) (c : CodePoint) : Bool := c.satisfies fun c => isUnreserved c || safe c

theorem ne_percent_of_isKept (hsafe : safe '%' = false) (h : isKept safe c = true) :
    c ≠ .scalar '%' := by
  rintro rfl
  rw [isKept, CodePoint.satisfies, hsafe] at h
  cases h

theorem percentEncode_cons_kept (h : isKept safe c = true) (t : Text) :
    percentEncode safe (c :: t) = c :: t.percentEncode safe := by
  rw [percentEncode_eq, List.flatMap_cons, percentCode]
  exact congrArg (· ++ t.flatMap (percentCode safe)) (if_pos h)

theorem percentEncode_cons_coded (h : isKept safe c = false) (t : Text) :
    percentEncode safe (c :: t) = c.utf8.flatMap percentByte ++ t.percentEncode safe := by
  rw [percentEncode_eq, List.flatMap_cons, percentCode]
  exact congrArg (· ++ t.flatMap (percentCode safe)) (if_neg (Bool.not_eq_true _ ▸ h))

/-- The encoded bytes at the front are those of the code points that are not kept. -/
theorem takePercentBytes_percentEncode (hsafe : safe '%' = false) (t : Text) :
    takePercentBytes (t.percentEncode safe) =
      (utf8 (t.takeWhile fun c => !isKept safe c),
        percentEncode safe (t.dropWhile fun c => !isKept safe c)) := by
  induction t with
  | nil => rfl
  | cons c t ih =>
      cases hc : isKept safe c with
      | true =>
          rw [percentEncode_cons_kept hc, takePercentBytes_of_ne (ne_percent_of_isKept hsafe hc)]
          simp only [List.takeWhile_cons, List.dropWhile_cons, hc, Bool.not_true, Bool.false_eq_true,
            if_false, percentEncode_cons_kept hc]
          rfl
      | false =>
          rw [percentEncode_cons_coded hc, takePercentBytes_percentBytes, ih]
          simp only [List.takeWhile_cons, List.dropWhile_cons, hc, Bool.not_false, if_true]
          rfl

theorem decodePieces_percentEncode (hsafe : safe '%' = false) (h : t.NoSurrogate) {fuel : Nat}
    (hfuel : t.length ≤ fuel) : decodePieces fuel (t.percentEncode safe) = t := by
  induction fuel generalizing t with
  | zero => rw [List.eq_nil_of_length_eq_zero (Nat.le_zero.mp hfuel)]; rfl
  | succ fuel ih =>
      cases t with
      | nil => rfl
      | cons c t =>
          obtain ⟨d, rest, hcode⟩ : ∃ d rest, percentEncode safe (c :: t) = d :: rest :=
            List.exists_cons_of_ne_nil (List.append_ne_nil_of_left_ne_nil (percentCode_ne_nil c) _)
          have htake := takePercentBytes_percentEncode hsafe (c :: t)
          rw [hcode] at htake ⊢
          rw [decodePieces, htake]
          cases hc : isKept safe c with
          | true =>
              -- no bytes stand in front of a code point that is kept
              rw [percentEncode_cons_kept hc] at hcode
              obtain ⟨rfl, rfl⟩ := List.cons.inj hcode
              simp only [List.takeWhile_cons, hc, Bool.not_true, Bool.false_eq_true, if_false]
              exact congrArg (c :: ·)
                (ih (noSurrogate_cons.mp h).2 (Nat.le_of_succ_le_succ hfuel))
          | false =>
              have hbytes : (utf8 ((c :: t).takeWhile fun c => !isKept safe c)).isEmpty = false := by
                rw [List.takeWhile_cons, hc]
                exact List.isEmpty_eq_false_iff.mpr
                  (List.append_ne_nil_of_left_ne_nil c.utf8_ne_nil _)
              have hshort : ((c :: t).dropWhile fun c => !isKept safe c).length ≤ fuel := by
                rw [List.dropWhile_cons, hc]
                have hle := (List.dropWhile_sublist (l := t) fun c => !isKept safe c).length_le
                exact Nat.le_trans hle (Nat.le_of_succ_le_succ hfuel)
              simp only [hbytes, Bool.false_eq_true, if_false]
              rw [ofUtf8Lossy_utf8 (h.of_subset (List.takeWhile_subset _)),
                ih (h.of_subset (List.dropWhile_subset _)) hshort]
              exact List.takeWhile_append_dropWhile

theorem noSurrogate_percentEncode (t : Text) : (t.percentEncode safe).NoSurrogate := by
  intro m hm
  rw [percentEncode_eq, List.mem_flatMap] at hm
  obtain ⟨c, -, hc⟩ := hm
  unfold percentCode at hc
  split at hc
  · rename_i hkept
    rw [← List.mem_singleton.mp hc] at hkept
    cases hkept
  · obtain ⟨byte, -, hbyte⟩ := List.mem_flatMap.mp hc
    simp [percentByte] at hbyte

theorem length_le_percentEncode (t : Text) : t.length ≤ (t.percentEncode safe).length := by
  induction t with
  | nil => exact Nat.le_refl 0
  | cons c t ih =>
      have hc : 0 < (percentCode safe c).length := List.length_pos_of_ne_nil (percentCode_ne_nil c)
      have hcons : percentEncode safe (c :: t) = percentCode safe c ++ percentEncode safe t := rfl
      rw [hcons, List.length_append, List.length_cons]
      omega

/-- Encoded text is decoded to what was encoded, exactly if there is no surrogate in it. -/
theorem percentDecode_percentEncode (hsafe : safe '%' = false) :
    (t.percentEncode safe).percentDecode = t ↔ t.NoSurrogate := by
  constructor
  · intro h
    rw [← h]
    exact noSurrogate_percentDecode.mpr (noSurrogate_percentEncode t)
  · intro h
    exact decodePieces_percentEncode hsafe h (length_le_percentEncode t)

end MetricBridge.Text
