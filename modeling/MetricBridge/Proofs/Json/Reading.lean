import MetricBridge.Proofs.Json.ReadBack

namespace MetricBridge

def Text.NoSurrogate (t : Text) : Prop := ∀ n, CodePoint.surrogate n ∉ t

namespace Json

variable {source t t' rest s : Text} {c : CodePoint} {start fuel : Nat} {j : Json}

theorem hexValue?_lt {n : Nat} (h : Text.hexValue? c = some n) : n < 16 := by
  cases c with
  | surrogate => cases h
  | scalar c =>
      rw [Text.hexValue?] at h
      have hval : c.toNat = c.val.toNat := rfl
      simp only [Char.le_def, UInt32.le_iff_toNat_le, Char.reduceVal, UInt32.reduceToNat] at h
      split_ifs at h <;> cases h <;> omega

theorem unitOfHex?_lt {a b c d : CodePoint} {n : Nat} (h : Text.unitOfHex? a b c d = some n) :
    n < 0x10000 := by
  simp only [Text.unitOfHex?, Option.bind_eq_bind, Option.bind_eq_some_iff] at h
  obtain ⟨i, hi, j, hj, k, hk, l, hl, h⟩ := h
  cases h
  have := hexValue?_lt hi
  have := hexValue?_lt hj
  have := hexValue?_lt hk
  have := hexValue?_lt hl
  omega

inductive StringStep : Text → CodePoint → Text → Prop
  | plain {c : CodePoint} {t : Text} (hc : c ≠ .scalar '"') (hc' : c ≠ .scalar '\\') : StringStep (c :: t) c t
  | escape {e c : CodePoint} {t : Text} (he : simpleEscape? e = some c) : StringStep (.scalar '\\' :: e :: t) c t
  | unit {a b c d e : CodePoint} {t : Text} {n : Nat} (hn : Text.unitOfHex? a b c d = some n)
      (hlow : isHigh n = true → lowHalf? (e :: t) = none) :
      StringStep (.scalar '\\' :: .scalar 'u' :: a :: b :: c :: d :: e :: t) (.ofNat n) (e :: t)
  | pair {a b c d e : CodePoint} {t t' : Text} {m n : Nat} (hm : Text.unitOfHex? a b c d = some m) (hhigh : isHigh m = true)
      (hlow : lowHalf? (e :: t) = some (n, t')) :
      StringStep (.scalar '\\' :: .scalar 'u' :: a :: b :: c :: d :: e :: t) (joinPair m n) t'

theorem readString_succ (h : readString start (fuel + 1) t = .ok (s, rest)) :
    (t = .scalar '"' :: rest ∧ s = []) ∨
      ∃ c u t', s = c :: u ∧ StringStep t c t' ∧ readString start fuel t' = .ok (u, rest) := by
  cases t with
  | nil => cases h
  | cons c t =>
      unfold readString at h
      dsimp only at h
      by_cases hquote : c = .scalar '"'
      · subst hquote
        cases h
        exact .inl ⟨rfl, rfl⟩
      right
      rw [if_neg hquote] at h
      by_cases hslash : c = .scalar '\\'
      · subst hslash
        rw [if_pos rfl] at h
        split at h
        · cases h
        · split at h
          · rename_i a b c d e after
            split at h
            · cases h
            · rename_i n hn
              cases hjoined : (if isHigh n = true then lowHalf? (e :: after) else none) with
              | none =>
                  simp only [hjoined] at h
                  split at h
                  · cases h
                    refine ⟨_, _, _, rfl, .unit hn fun hhigh => ?_, ‹_›⟩
                    rwa [if_pos hhigh] at hjoined
                  · cases h
              | some pair =>
                  simp only [hjoined] at h
                  split at h
                  · cases h
                    rw [ite_eq_iff] at hjoined
                    obtain ⟨hhigh, hlow⟩ := hjoined.resolve_right (by rintro ⟨-, h⟩; cases h)
                    exact ⟨_, _, _, rfl, .pair hn hhigh hlow, ‹_›⟩
                  · cases h
          · cases h
        · split at h
          · cases h
          · rename_i e he
            split at h
            · cases h
              exact ⟨_, _, _, rfl, .escape he, ‹_›⟩
            · cases h
      · rw [if_neg hslash] at h
        split at h
        · cases h
        · split at h
          · cases h
            exact ⟨c, _, t, rfl, .plain hquote hslash, ‹_›⟩
          · cases h

theorem lowHalf?_eq_some {n : Nat} (h : lowHalf? t = some (n, t')) :
    isLow n = true ∧ ∃ a b c d, t = .scalar '\\' :: .scalar 'u' :: a :: b :: c :: d :: t' := by
  unfold lowHalf? at h
  split at h
  · split at h
    · split at h
      · rename_i hlow
        cases h
        exact ⟨(Bool.and_eq_true_iff.mp hlow).1, _, _, _, _, rfl⟩
      · cases h
    · cases h
  · cases h

namespace StringStep

theorem suffix (h : StringStep t c t') : t' <:+ t := by
  cases h with
  | plain => exact List.suffix_cons _ _
  | escape => exact ⟨[_, _], rfl⟩
  | unit => exact ⟨[_, _, _, _, _, _], rfl⟩
  | pair _ _ hlow =>
      obtain ⟨-, a, b, c, d, heq⟩ := lowHalf?_eq_some hlow
      exact ⟨[_, _, _, _, _, _, _, _, _, _, _, _], by rw [heq]; rfl⟩

/-- A half of a pair comes from an escape of it, if the text has no surrogates. -/
theorem of_half (h : StringStep t c t') (ht : t.NoSurrogate) (hc : 0xD800 ≤ c.val ∧ c.val < 0xE000) :
    ∃ a b e d, t = .scalar '\\' :: .scalar 'u' :: a :: b :: e :: d :: t' ∧
      Text.unitOfHex? a b e d = some c.val ∧ t' ≠ [] ∧ (isHigh c.val = true → lowHalf? t' = none) := by
  cases h with
  | plain =>
      cases c with
      | surrogate n => exact absurd List.mem_cons_self (ht n)
      | scalar c =>
          have hvalid : c.toNat < 0xD800 ∨ 0xDFFF < c.toNat ∧ c.toNat < 0x110000 := c.valid
          simp only [CodePoint.val] at hc
          omega
  | escape he =>
      unfold simpleEscape? at he
      split at he <;> cases he <;> exact absurd hc (by decide)
  | @unit a b e d f t n hn hlow =>
      have hval : (CodePoint.ofNat n).val = n :=
        CodePoint.val_ofNat (Nat.lt_trans (unitOfHex?_lt hn) (by decide))
      rw [hval] at hc ⊢
      exact ⟨a, b, e, d, rfl, hn, List.cons_ne_nil _ _, hlow⟩
  | pair _ hhigh hlow =>
      rw [val_joinPair hhigh (lowHalf?_eq_some hlow).1] at hc
      omega

end StringStep

theorem readString_suffix (h : readString start fuel t = .ok (s, rest)) : rest <:+ t := by
  induction fuel generalizing t s with
  | zero => cases h
  | succ fuel ih =>
      obtain ⟨rfl, -⟩ | ⟨c, u, t', -, hstep, h⟩ := readString_succ h
      · exact List.suffix_cons _ _
      · exact (ih h).trans hstep.suffix

theorem NoSurrogate.of_suffix (ht : t.NoSurrogate) (h : t' <:+ t) : t'.NoSurrogate :=
  fun n hn => ht n (h.subset hn)

/-- The strings of a text without surrogates have no pairs of them: escapes of pairs are joined. -/
theorem isJoined_readString (ht : t.NoSurrogate) (h : readString start fuel t = .ok (s, rest)) :
    s.IsJoined := by
  induction fuel generalizing t s with
  | zero => cases h
  | succ fuel ih =>
      obtain ⟨-, rfl⟩ | ⟨c, u, t', rfl, hstep, h⟩ := readString_succ h
      · exact .nil
      have ht' := NoSurrogate.of_suffix ht hstep.suffix
      have hu := ih ht' h
      cases u with
      | nil => exact .singleton c
      | cons d u =>
          refine List.isChain_cons_cons.mpr ⟨?_, hu⟩
          by_contra hpair
          rw [Text.Apart, Bool.not_eq_false, Bool.and_eq_true_iff] at hpair
          obtain ⟨hhigh, hlow⟩ := hpair
          have hc := isHigh_iff.mp hhigh
          have hd := isLow_iff.mp hlow
          obtain ⟨-, -, -, -, -, -, -, hnone⟩ := hstep.of_half ht (by omega)
          cases fuel with
          | zero => cases h
          | succ fuel =>
              obtain ⟨-, hnil⟩ | ⟨d', u', t'', hcons, hnext, h⟩ := readString_succ h
              · cases hnil
              · cases hcons
                obtain ⟨a, b, e, f, rfl, hn, hne, -⟩ := hnext.of_half ht' (by omega)
                have hsome := hnone hhigh
                simp [lowHalf?, hn, hlow, hne] at hsome

inductive ReadFrom (source : Text) : Json → Prop
  | null : ReadFrom source .null
  | bool (b : Bool) : ReadFrom source (.bool b)
  | int (n : Int) (h : n.natAbs < 10 ^ integerDigitLimit) : ReadFrom source (.int n)
  | float (x : Float) : ReadFrom source (.float x)
  | string (t : Text) (h : source.NoSurrogate → t.IsJoined) : ReadFrom source (.string t)
  | array (items : List Json) (h : ∀ item ∈ items, ReadFrom source item) :
      ReadFrom source (.array items)
  | object (fields : List (Text × Json)) (hnodup : (Entries.keys fields).Nodup)
      (hnames : ∀ field ∈ fields, source.NoSurrogate → field.1.IsJoined)
      (h : ∀ field ∈ fields, ReadFrom source field.2) : ReadFrom source (.object fields)

theorem ReadFrom.hasShortInts (h : ReadFrom source j) : j.HasShortInts := by
  intro n hn
  induction h with
  | int m h =>
      cases List.mem_singleton.mp hn
      exact h
  | array items _ ih =>
      obtain ⟨item, hitem, hn⟩ := (mem_parts_array.mp hn).resolve_left nofun
      exact ih item hitem hn
  | object fields _ _ _ ih =>
      obtain ⟨field, hfield, hn⟩ := (mem_parts_object.mp hn).resolve_left nofun
      exact ih field hfield hn
  | null | bool | float | string => cases List.mem_singleton.mp hn

theorem spanDigits_suffix (t : Text) : (spanDigits t).2 <:+ t := List.dropWhile_suffix _

theorem takeMinus_suffix (t : Text) : (takeMinus t).2 <:+ t := by
  unfold takeMinus
  split
  · exact List.suffix_cons _ _
  · exact List.suffix_refl _

theorem spanWhole_suffix (t : Text) : (spanWhole t).2 <:+ t := by
  unfold spanWhole
  split
  · exact List.suffix_cons _ _
  · exact spanDigits_suffix _

theorem readFraction_suffix {digits : Text} (h : readFraction t = some (digits, rest)) :
    rest <:+ t := by
  unfold readFraction at h
  split at h
  · dsimp only at h
    split at h
    · cases h
    · cases h
      exact (spanDigits_suffix _).trans (List.suffix_cons _ _)
  · cases h

theorem takeSign_suffix (t : Text) : (Text.takeSign t).2 <:+ t := by
  unfold Text.takeSign
  split
  · exact List.suffix_cons _ _
  · exact List.suffix_cons _ _
  · exact List.suffix_refl _

theorem readExponent_suffix {e : Int} (h : readExponent t = some (e, rest)) : rest <:+ t := by
  unfold readExponent at h
  split at h
  · split at h
    · dsimp only at h
      split at h
      · cases h
      · cases h
        exact (spanDigits_suffix _).trans ((takeSign_suffix _).trans (List.suffix_cons _ _))
    · cases h
  · cases h

theorem readFrom_number (h : readNumber t = .ok (j, rest)) : ReadFrom source j ∧ rest <:+ t := by
  rw [readNumber_def] at h
  split at h
  · cases h
  have hbody := (spanWhole_suffix (takeMinus t).2).trans (takeMinus_suffix t)
  generalize (spanWhole (takeMinus t).2).1 = whole at h
  generalize (spanWhole (takeMinus t).2).2 = behind at h hbody
  have hfraction : ((readFraction behind).getD ([], behind)).2 <:+ behind := by
    cases hf : readFraction behind with
    | none => exact List.suffix_refl _
    | some pair => exact readFraction_suffix hf
  have hexponent : ∀ t, ((readExponent t).getD (0, t)).2 <:+ t := by
    intro t
    cases he : readExponent t with
    | none => exact List.suffix_refl _
    | some pair => exact readExponent_suffix he
  have hrest := (hexponent _).trans (hfraction.trans hbody)
  unfold numberOf at h
  dsimp only at h
  split at h
  · split at h
    · rename_i n hn
      cases h
      refine ⟨.int _ ?_, hrest⟩
      have hlt := Text.natOfDigits_lt_of_forall (Text.digitsOf_lt whole) hn
      split
      · rwa [Int.natAbs_neg, Int.natAbs_natCast]
      · rwa [Int.natAbs_natCast]
    · cases h
  · cases h
    exact ⟨.float _, hrest⟩

theorem readFrom_word (h : readWord t = some (j, rest)) : ReadFrom source j ∧ rest <:+ t := by
  obtain ⟨⟨word, value⟩, hmem, h⟩ := List.exists_of_findSome?_eq_some h
  dsimp only at h
  split at h
  · cases h
    refine ⟨?_, List.drop_suffix _ _⟩
    simp only [List.mem_cons, Prod.mk.injEq, List.not_mem_nil, or_false] at hmem
    obtain ⟨-, rfl⟩ | ⟨-, rfl⟩ | ⟨-, rfl⟩ | ⟨-, rfl⟩ | ⟨-, rfl⟩ | ⟨-, rfl⟩ := hmem
    · exact .null
    · exact .bool true
    · exact .bool false
    · exact .float _
    · exact .float _
    · exact .float _
  · cases h

theorem skipSpaces_suffix (t : Text) : skipSpaces t <:+ t := List.dropWhile_suffix _

def FieldFrom (source : Text) (field : Text × Json) : Prop :=
  (source.NoSurrogate → field.1.IsJoined) ∧ ReadFrom source field.2

theorem readFrom_object {fields : List (Text × Json)} (h : ∀ field ∈ fields, FieldFrom source field) :
    ReadFrom source (.object (Entries.ofPairs fields)) :=
  .object _ (Entries.nodup_keys_ofPairs fields)
    (fun _ hfield => (h _ (Entries.mem_of_mem_ofPairs hfield)).1)
    fun _ hfield => (h _ (Entries.mem_of_mem_ofPairs hfield)).2

def ValuesFrom (source : Text) (fuel : Nat) : Prop :=
  ∀ t j rest, t <:+ source → readValue fuel t = .ok (j, rest) → ReadFrom source j ∧ rest <:+ t

def ItemsFrom (source : Text) (fuel : Nat) : Prop :=
  ∀ t items rest, t <:+ source → readItems fuel t = .ok (items, rest) →
    (∀ item ∈ items, ReadFrom source item) ∧ rest <:+ t

def FieldsFrom (source : Text) (fuel : Nat) : Prop :=
  ∀ t fields rest, t <:+ source → readFields fuel t = .ok (fields, rest) →
    (∀ field ∈ fields, FieldFrom source field) ∧ rest <:+ t

theorem suffix_of_skipSpaces (h : skipSpaces t = c :: rest) : rest <:+ t :=
  (h ▸ List.suffix_cons c rest : rest <:+ skipSpaces t).trans (skipSpaces_suffix t)

theorem stringFrom (ht : t <:+ source) (h : readString start fuel t = .ok (s, rest)) :
    (source.NoSurrogate → s.IsJoined) ∧ rest <:+ t :=
  ⟨fun hs => isJoined_readString (NoSurrogate.of_suffix hs ht) h, readString_suffix h⟩

theorem valuesFrom_succ (hitems : ItemsFrom source fuel) (hfields : FieldsFrom source fuel) :
    ValuesFrom source (fuel + 1) := by
  intro t j rest ht h
  unfold readValue at h
  split at h
  · rename_i u
    have hu := List.suffix_cons (.scalar '"') u
    split at h
    · rename_i s v hs
      cases h
      obtain ⟨hjoined, hv⟩ := stringFrom (hu.trans ht) hs
      exact ⟨.string s hjoined, hv.trans hu⟩
    · cases h
  · rename_i u
    have hu := List.suffix_cons (.scalar '[') u
    have hspaces := (skipSpaces_suffix u).trans hu
    split at h
    · rename_i v hv
      cases h
      exact ⟨.array [] (List.forall_mem_nil _), (suffix_of_skipSpaces hv).trans hu⟩
    · split at h
      · rename_i items v hread
        cases h
        obtain ⟨hfrom, hv⟩ := hitems _ _ _ (hspaces.trans ht) hread
        exact ⟨.array items hfrom, hv.trans hspaces⟩
      · cases h
  · rename_i u
    have hu := List.suffix_cons (.scalar '{') u
    have hspaces := (skipSpaces_suffix u).trans hu
    split at h
    · rename_i v hv
      cases h
      exact ⟨.object [] List.nodup_nil (List.forall_mem_nil _) (List.forall_mem_nil _), (suffix_of_skipSpaces hv).trans hu⟩
    · split at h
      · rename_i fields v hread
        cases h
        obtain ⟨hfrom, hv⟩ := hfields _ _ _ (hspaces.trans ht) hread
        exact ⟨readFrom_object hfrom, hv.trans hspaces⟩
      · cases h
  · split at h
    · rename_i hword
      cases h
      exact readFrom_word hword
    · exact readFrom_number h

theorem itemsFrom_succ (hvalues : ValuesFrom source fuel) (hitems : ItemsFrom source fuel) :
    ItemsFrom source (fuel + 1) := by
  intro t items rest ht h
  unfold readItems at h
  split at h
  · cases h
  rename_i item u hread
  obtain ⟨hitem, hu⟩ := hvalues _ _ _ ht hread
  split at h
  · rename_i v hv
    cases h
    exact ⟨List.forall_mem_singleton.mpr hitem, (suffix_of_skipSpaces hv).trans hu⟩
  · rename_i v hv
    have hspaces := (skipSpaces_suffix v).trans ((suffix_of_skipSpaces hv).trans hu)
    split at h
    · rename_i more w hmore
      cases h
      obtain ⟨hfrom, hw⟩ := hitems _ _ _ (hspaces.trans ht) hmore
      exact ⟨List.forall_mem_cons.mpr ⟨hitem, hfrom⟩, hw.trans hspaces⟩
    · cases h
  · cases h

theorem fieldsFrom_succ (hvalues : ValuesFrom source fuel) (hfields : FieldsFrom source fuel) :
    FieldsFrom source (fuel + 1) := by
  intro t fields rest ht h
  unfold readFields at h
  split at h
  · rename_i u
    have hu := List.suffix_cons (.scalar '"') u
    split at h
    · cases h
    rename_i name v hname
    obtain ⟨hjoined, hv⟩ := stringFrom (hu.trans ht) hname
    replace hv := hv.trans hu
    split at h
    · rename_i w hw
      have hspaces := (skipSpaces_suffix w).trans ((suffix_of_skipSpaces hw).trans hv)
      split at h
      · cases h
      rename_i value x hvalue
      obtain ⟨hfrom, hx⟩ := hvalues _ _ _ (hspaces.trans ht) hvalue
      have hfield : FieldFrom source (name, value) := ⟨hjoined, hfrom⟩
      replace hx := hx.trans hspaces
      split at h
      · rename_i y hy
        cases h
        exact ⟨List.forall_mem_singleton.mpr hfield, (suffix_of_skipSpaces hy).trans hx⟩
      · rename_i y hy
        have hbehind := (skipSpaces_suffix y).trans ((suffix_of_skipSpaces hy).trans hx)
        split at h
        · rename_i more z hmore
          cases h
          obtain ⟨hmore, hz⟩ := hfields _ _ _ (hbehind.trans ht) hmore
          exact ⟨List.forall_mem_cons.mpr ⟨hfield, hmore⟩, hz.trans hbehind⟩
        · cases h
      · cases h
    · cases h
  · cases h

theorem valuesFrom (source : Text) (fuel : Nat) : ValuesFrom source fuel := by
  have hall : ValuesFrom source fuel ∧ ItemsFrom source fuel ∧ FieldsFrom source fuel := by
    induction fuel with
    | zero => exact ⟨nofun, nofun, nofun⟩
    | succ fuel ih =>
        obtain ⟨hvalues, hitems, hfields⟩ := ih
        exact ⟨valuesFrom_succ hitems hfields, itemsFrom_succ hvalues hitems,
          fieldsFrom_succ hvalues hfields⟩
  exact hall.1

/-- What a text denotes can be read from it. -/
theorem readFrom_of_parse (h : parse t = .ok j) : ReadFrom t j := by
  unfold parse at h
  split at h
  · cases h
  · split at h
    · cases h
    · rename_i value rest hread
      obtain ⟨hfrom, -⟩ := valuesFrom t _ _ _ _ (skipSpaces_suffix t) hread
      dsimp only at h
      split at h
      · cases h
        exact hfrom
      · cases h

end Json
end MetricBridge
