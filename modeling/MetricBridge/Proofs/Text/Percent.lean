import MetricBridge.Proofs.Text.Utf8
import MetricBridge.Text.Percent

namespace MetricBridge

def IsPrefixFree {α β : Type} (code : α → List β) : Prop :=
  ∀ ⦃a b x y⦄, code a ++ x = code b ++ y → a = b ∧ x = y

theorem IsPrefixFree.flatMap_injective {α β : Type} {code : α → List β} (h : IsPrefixFree code)
    (hne : ∀ a, code a ≠ []) : Function.Injective (List.flatMap code) := by
  intro s t heq
  induction s generalizing t with
  | nil =>
      cases t with
      | nil => rfl
      | cons b t =>
          rw [List.flatMap_cons] at heq
          exact absurd (List.append_eq_nil_iff.mp heq.symm).1 (hne b)
  | cons a s ih =>
      cases t with
      | nil =>
          rw [List.flatMap_cons] at heq
          exact absurd (List.append_eq_nil_iff.mp heq).1 (hne a)
      | cons b t =>
          rw [List.flatMap_cons, List.flatMap_cons] at heq
          obtain ⟨rfl, hrest⟩ := h heq
          rw [ih hrest]

/-- Of two encoded lists with equal beginnings, one is the beginning of the other. -/
theorem IsPrefixFree.prefix_or_prefix {α β : Type} {code : α → List β} (h : IsPrefixFree code)
    {s t : List α} {x y : List β} (heq : s.flatMap code ++ x = t.flatMap code ++ y) :
    s <+: t ∨ t <+: s := by
  induction s generalizing t with
  | nil => exact .inl List.nil_prefix
  | cons a s ih =>
      cases t with
      | nil => exact .inr List.nil_prefix
      | cons b t =>
          rw [List.flatMap_cons, List.flatMap_cons, List.append_assoc, List.append_assoc] at heq
          obtain ⟨rfl, hrest⟩ := h heq
          exact (ih hrest).imp (List.prefix_cons_inj a).mpr (List.prefix_cons_inj a).mpr

theorem IsPrefixFree.comp {α β γ : Type} {inner : α → List β} {outer : β → List γ}
    (houter : IsPrefixFree outer) (hinner : IsPrefixFree inner) :
    IsPrefixFree fun a => (inner a).flatMap outer := by
  intro a b x y heq
  obtain rfl : a = b := by
    obtain ⟨z, hz⟩ | ⟨z, hz⟩ := houter.prefix_or_prefix heq
    · exact (hinner (hz.trans (List.append_nil _).symm)).1
    · exact (hinner (hz.trans (List.append_nil _).symm)).1.symm
  exact ⟨rfl, List.append_cancel_left heq⟩

theorem mod_eq_of_toUInt8_eq {m n : Nat} (h : m.toUInt8 = n.toUInt8) : m % 256 = n % 256 := by
  have := congrArg UInt8.toNat h
  simpa using this

namespace CodePoint

theorem val_injective : Function.Injective val := by
  intro c d h
  rw [← ofNat_val c, ← ofNat_val d, h]

theorem utf8_ne_nil (c : CodePoint) : c.utf8 ≠ [] := by
  unfold utf8
  dsimp only
  split_ifs <;> exact List.cons_ne_nil _ _

/-- The first byte tells how many there are, and all of them the number. -/
theorem utf8_prefixFree : IsPrefixFree utf8 := by
  intro c d x y h
  have hc := c.val_lt
  have hd := d.val_lt
  have hval : c.val = d.val ∧ x = y := by
    unfold utf8 at h
    dsimp only at h
    split_ifs at h <;> simp only [List.cons_append, List.nil_append, List.cons.injEq] at h
    -- the first bytes of encodings of different lengths differ
    all_goals
      have hfirst := mod_eq_of_toUInt8_eq h.1
      try omega
    · exact ⟨by omega, h.2⟩
    · have hsecond := mod_eq_of_toUInt8_eq h.2.1
      exact ⟨by omega, h.2.2⟩
    · have hsecond := mod_eq_of_toUInt8_eq h.2.1
      have hthird := mod_eq_of_toUInt8_eq h.2.2.1
      exact ⟨by omega, h.2.2.2⟩
    · have hsecond := mod_eq_of_toUInt8_eq h.2.1
      have hthird := mod_eq_of_toUInt8_eq h.2.2.1
      have hfourth := mod_eq_of_toUInt8_eq h.2.2.2.1
      exact ⟨by omega, h.2.2.2.2⟩
  exact ⟨val_injective hval.1, hval.2⟩

end CodePoint

namespace Text

theorem percentByte_prefixFree : IsPrefixFree percentByte := by
  have hdigit : ∀ m < 16, ∀ n < 16,
      (Nat.digitChar m).toUpper = (Nat.digitChar n).toUpper → m = n := by decide
  intro b c x y h
  simp only [percentByte, List.cons_append, List.nil_append, List.cons.injEq,
    CodePoint.scalar.injEq, true_and] at h
  have hb := b.toNat_lt
  have hc := c.toNat_lt
  have hhigh := hdigit _ (by omega) _ (by omega) h.1
  have hlow := hdigit _ (by omega) _ (by omega) h.2.1
  exact ⟨UInt8.toNat_inj.mp (by omega), h.2.2⟩

def percentCode (safe : Char → Bool) (c : CodePoint) : Text :=
  if c.satisfies fun c => isUnreserved c || safe c then [c] else c.utf8.flatMap percentByte

variable {safe : Char → Bool}

theorem percentEncode_eq (safe : Char → Bool) (t : Text) :
    t.percentEncode safe = t.flatMap (percentCode safe) := rfl

theorem exists_percentBytes (c : CodePoint) :
    ∃ rest, c.utf8.flatMap percentByte = .scalar '%' :: rest := by
  cases hutf8 : c.utf8 with
  | nil => exact absurd hutf8 c.utf8_ne_nil
  | cons byte bytes => exact ⟨_, rfl⟩

theorem percentCode_ne_nil (c : CodePoint) : percentCode safe c ≠ [] := by
  unfold percentCode
  split
  · exact List.cons_ne_nil _ _
  · obtain ⟨rest, hrest⟩ := exists_percentBytes c
    rw [hrest]
    exact List.cons_ne_nil _ _

theorem percentCode_prefixFree (hsafe : safe '%' = false) : IsPrefixFree (percentCode safe) := by
  have hpercent : ∀ {c : CodePoint} {d : CodePoint} {x y : Text},
      c.satisfies (fun c => isUnreserved c || safe c) = true →
        [c] ++ x ≠ d.utf8.flatMap percentByte ++ y := by
    intro c d x y hc heq
    obtain ⟨rest, hrest⟩ := exists_percentBytes d
    rw [hrest] at heq
    obtain ⟨rfl, -⟩ := List.cons.inj heq
    rw [CodePoint.satisfies, hsafe] at hc
    cases hc
  intro c d x y h
  unfold percentCode at h
  split at h
  · rename_i hc
    split at h
    · exact List.cons.inj h
    · exact absurd h (hpercent hc)
  · split at h
    · rename_i hd
      exact absurd h.symm (hpercent hd)
    · exact percentByte_prefixFree.comp CodePoint.utf8_prefixFree h

theorem percentEncode_injective (hsafe : safe '%' = false) :
    Function.Injective (percentEncode safe) :=
  (percentCode_prefixFree hsafe).flatMap_injective percentCode_ne_nil

/-- A mark that would be encoded does not occur in encoded text. -/
theorem notMem_percentEncode {mark : Char} (hmark : (isUnreserved mark || safe mark) = false)
    (hdigits : ∀ n < 16, (Nat.digitChar n).toUpper ≠ mark) (hpercent : mark ≠ '%') (t : Text) :
    CodePoint.scalar mark ∉ t.percentEncode safe := by
  rw [percentEncode_eq, List.mem_flatMap]
  rintro ⟨c, -, hc⟩
  unfold percentCode at hc
  split at hc
  · rename_i hsatisfies
    obtain rfl := List.mem_singleton.mp hc
    rw [CodePoint.satisfies, hmark] at hsatisfies
    cases hsatisfies
  · obtain ⟨byte, -, hbyte⟩ := List.mem_flatMap.mp hc
    have hlt := byte.toNat_lt
    simp only [percentByte, List.mem_cons, CodePoint.scalar.injEq, List.not_mem_nil, or_false]
      at hbyte
    rcases hbyte with h | h | h
    · exact hpercent h
    · exact hdigits _ (by omega) h.symm
    · exact hdigits _ (by omega) h.symm

theorem noSurrogate_readUtf8Lossy (fuel : Nat) (bytes : Bytes) :
    (readUtf8Lossy fuel bytes).NoSurrogate := by
  induction fuel generalizing bytes with
  | zero => nofun
  | succ fuel ih =>
      cases bytes with
      | nil => nofun
      | cons b rest =>
          intro m hm
          rw [readUtf8Lossy] at hm
          split at hm
          · rename_i c more hstep
            rcases List.mem_cons.mp hm with rfl | hm
            · exact ne_surrogate_of_utf8Step hstep m rfl
            · exact ih more m hm
          · rcases List.mem_cons.mp hm with hm | hm
            · cases hm
            · exact ih _ m hm

theorem surrogate_mem_takePercentBytes {m : Fin 0x800} (t : Text) :
    CodePoint.surrogate m ∈ (takePercentBytes t).2 ↔ CodePoint.surrogate m ∈ t := by
  fun_induction takePercentBytes t with
  | case1 a b t byte hbyte bytes rest hrest ih =>
      simp only [hexPair?, Option.bind_eq_bind, Option.bind_eq_some_iff] at hbyte
      obtain ⟨_, ha, _, hb, -⟩ := hbyte
      have hdigit : ∀ {c i}, hexValue? c = some i → CodePoint.surrogate m ≠ c := by
        rintro _ _ h rfl
        cases h
      rw [hrest] at ih
      simp [hdigit ha, hdigit hb, ih]
  | case2 => rfl
  | case3 => rfl

theorem surrogate_mem_decodePieces {m : Fin 0x800} (fuel : Nat) (t : Text) :
    CodePoint.surrogate m ∈ decodePieces fuel t ↔ CodePoint.surrogate m ∈ t := by
  induction fuel generalizing t with
  | zero => rfl
  | succ fuel ih =>
      cases t with
      | nil => rfl
      | cons c t =>
          have htake := surrogate_mem_takePercentBytes (m := m) (c :: t)
          rw [decodePieces]
          split
          rename_i hbytes
          rw [hbytes] at htake
          split
          · rw [List.mem_cons, List.mem_cons, ih]
          · rw [List.mem_append, ih, htake]
            exact or_iff_right (noSurrogate_readUtf8Lossy _ _ m)

theorem noSurrogate_percentDecode {t : Text} : t.percentDecode.NoSurrogate ↔ t.NoSurrogate :=
  forall_congr' fun _ => not_congr (surrogate_mem_decodePieces _ _)

end Text
end MetricBridge
