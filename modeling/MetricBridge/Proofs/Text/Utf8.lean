import MetricBridge.Files
import MetricBridge.Proofs.Json.Reading

namespace MetricBridge

theorem CodePoint.ofNat_scalar {n : Nat} (h : ¬(0xD800 ≤ n ∧ n < 0xE000)) (m : Fin 0x800) :
    ofNat n ≠ .surrogate m := by
  simp [ofNat, h]

namespace Text

variable {s t : Text} {c : CodePoint} {bytes : Bytes}

theorem noSurrogate_cons : NoSurrogate (c :: t) ↔ (∀ m, c ≠ .surrogate m) ∧ t.NoSurrogate := by
  simp only [NoSurrogate, List.mem_cons, not_or, forall_and, ne_comm, ne_eq]

theorem NoSurrogate.of_subset (h : t.NoSurrogate) (hs : s ⊆ t) : s.NoSurrogate :=
  fun m hm => h m (hs hm)

theorem noSurrogate_append : (s ++ t).NoSurrogate ↔ s.NoSurrogate ∧ t.NoSurrogate := by
  simp only [NoSurrogate, List.mem_append, not_or, forall_and]

theorem all_satisfies_iff : t.all (CodePoint.satisfies fun _ => true) = true ↔ t.NoSurrogate := by
  rw [List.all_eq_true]
  constructor
  · intro h m hm
    cases h _ hm
  · intro h c hc
    cases c with
    | scalar => rfl
    | surrogate m => exact absurd hc (h m)

instance (t : Text) : Decidable t.NoSurrogate := decidable_of_iff _ all_satisfies_iff

theorem utf8?_of_noSurrogate (h : t.NoSurrogate) : t.utf8? = some t.utf8 :=
  if_pos (all_satisfies_iff.mpr h)

theorem noSurrogate_of_utf8? (h : t.utf8? = some bytes) : t.NoSurrogate := by
  unfold utf8? at h
  split at h
  · rename_i hall
    exact all_satisfies_iff.mp hall
  · cases h

theorem utf8?_isSome : t.utf8?.isSome = true ↔ t.NoSurrogate := by
  unfold utf8?
  rw [← all_satisfies_iff]
  split <;> simp_all

def IsPlain (t : Text) : Prop := ∀ c ∈ t, 0x20 ≤ c.val ∧ c.val < 0x7F

theorem IsPlain.noSurrogate (h : t.IsPlain) : t.NoSurrogate := by
  intro n hn
  have hval := (h _ hn).2
  simp only [CodePoint.val] at hval
  omega

theorem NoSurrogate.isJoined (h : t.NoSurrogate) : t.IsJoined := by
  have happart : ∀ c ∈ t, ∀ d, Apart c d := by
    intro c hc d
    cases c with
    | surrogate n => exact absurd hc (h n)
    | scalar c =>
        have hvalid : c.toNat < 0xD800 ∨ 0xDFFF < c.toNat ∧ c.toNat < 0x110000 := c.valid
        have hhigh : ¬Json.isHigh (CodePoint.val (.scalar c)) = true := by
          rw [Json.isHigh_iff, CodePoint.val]
          omega
        rw [Apart, Bool.eq_false_iff.mpr hhigh, Bool.false_and]
  induction t with
  | nil => exact .nil
  | cons c t ih =>
      cases t with
      | nil => exact .singleton c
      | cons d t =>
          refine List.isChain_cons_cons.mpr ⟨happart c List.mem_cons_self d, ih ?_ ?_⟩
          · exact fun n hn => h n (List.mem_cons_of_mem _ hn)
          · exact fun c hc => happart c (List.mem_cons_of_mem _ hc)

theorem utf8_plain (h : t.IsPlain) : t.utf8 = t.map fun c => c.val.toUInt8 := by
  induction t with
  | nil => rfl
  | cons c t ih =>
      obtain ⟨hc, ht⟩ := List.forall_mem_cons.mp h
      have hbyte : c.utf8 = [c.val.toUInt8] := by
        simp [CodePoint.utf8, show c.val < 0x80 by omega]
      rw [utf8, List.flatMap_cons, hbyte, List.map_cons, ← ih ht]
      rfl

theorem ofUtf8?_utf8 (h : t.IsPlain) : ofUtf8? t.utf8 = some t := by
  rw [ofUtf8?, utf8_plain h, List.length_map]
  induction t with
  | nil => rfl
  | cons c t ih =>
      obtain ⟨hc, ht⟩ := List.forall_mem_cons.mp h
      have hbyte : (c.val.toUInt8).toNat = c.val := by
        simp
        omega
      have hstep : ∀ rest, utf8Step c.val.toUInt8 rest = .read c rest := by
        intro rest
        simp only [utf8Step, hbyte, CodePoint.ofNat_val]
        rw [if_pos (by omega)]
      rw [List.map_cons, List.length_cons, readUtf8, hstep]
      simp [ih ht]

theorem unifyLines_plain (h : t.IsPlain) : unifyLines t = t := by
  induction t with
  | nil => rfl
  | cons c t ih =>
      obtain ⟨hc, ht⟩ := List.forall_mem_cons.mp h
      have hne : c ≠ .scalar '\r' := by
        rintro rfl
        exact absurd hc (by decide)
      rw [unifyLines, ih ht]
      · rintro _ rfl
        exact absurd rfl hne
      · exact hne

theorem ofFile?_utf8 (h : t.IsPlain) : ofFile? t.utf8 = some t := by
  rw [ofFile?, ofUtf8?_utf8 h, Option.map_some, unifyLines_plain h]

theorem utf8Tail_succ {count low high n : Nat} {c : CodePoint} {more : Bytes}
    (h : utf8Tail (count + 1) low high n bytes = .read c more) :
    ∃ b rest, low ≤ b ∧ b ≤ high ∧
      utf8Tail count 0x80 0xBF (0x40 * n + b % 0x40) rest = .read c more := by
  cases bytes with
  | nil => cases h
  | cons b rest =>
      rw [utf8Tail] at h
      split at h
      · rename_i hb
        exact ⟨b.toNat, rest, hb.1, hb.2, h⟩
      · cases h

theorem utf8Tail_bounds {count low high n : Nat} {c : CodePoint} {more : Bytes}
    (h : utf8Tail count low high n bytes = .read c more) :
    ∃ k, c = .ofNat k ∧ 0x40 ^ count * n ≤ k ∧ k < 0x40 ^ count * (n + 1) := by
  induction count generalizing low high n bytes with
  | zero =>
      cases h
      exact ⟨n, rfl, by omega, by omega⟩
  | succ count ih =>
      obtain ⟨b, rest, -, -, h⟩ := utf8Tail_succ h
      obtain ⟨k, hc, hle, hlt⟩ := ih h
      have hmod : b % 0x40 < 0x40 := Nat.mod_lt b (by decide)
      refine ⟨k, hc, ?_, ?_⟩
      · calc 0x40 ^ (count + 1) * n = 0x40 ^ count * (0x40 * n) := by rw [Nat.pow_succ, Nat.mul_assoc]
          _ ≤ 0x40 ^ count * (0x40 * n + b % 0x40) := Nat.mul_le_mul_left _ (by omega)
          _ ≤ k := hle
      · calc k < 0x40 ^ count * (0x40 * n + b % 0x40 + 1) := hlt
          _ ≤ 0x40 ^ count * (0x40 * (n + 1)) := Nat.mul_le_mul_left _ (by omega)
          _ = 0x40 ^ (count + 1) * (n + 1) := by rw [Nat.pow_succ, Nat.mul_assoc]

theorem ne_surrogate_of_utf8Step {b : UInt8} {rest more : Bytes} {c : CodePoint}
    (h : utf8Step b rest = .read c more) (m : Fin 0x800) : c ≠ .surrogate m := by
  have hb := b.toNat_lt
  unfold utf8Step at h
  dsimp only at h
  split at h
  · cases h
    exact CodePoint.ofNat_scalar (by omega) m
  split at h
  · cases h
  rename_i count low high hlead
  unfold utf8Lead at hlead
  -- the range of the second byte keeps the number out of the surrogates
  split_ifs at hlead <;> cases hlead
  all_goals
    obtain ⟨b', rest', hlow, hhigh, htail⟩ := utf8Tail_succ h
    obtain ⟨k, rfl, hle, hlt⟩ := utf8Tail_bounds htail
    refine CodePoint.ofNat_scalar ?_ m
    simp at hle hlt
    omega

theorem noSurrogate_readUtf8 {fuel : Nat} (h : readUtf8 fuel bytes = some t) : t.NoSurrogate := by
  induction fuel generalizing bytes t with
  | zero =>
      cases h
      nofun
  | succ fuel ih =>
      cases bytes with
      | nil =>
          cases h
          nofun
      | cons b rest =>
          rw [readUtf8] at h
          split at h
          · rename_i c more hstep
            obtain ⟨u, hu, rfl⟩ := Option.map_eq_some_iff.mp h
            intro m hm
            rcases List.mem_cons.mp hm with rfl | hm
            · exact ne_surrogate_of_utf8Step hstep m rfl
            · exact ih hu m hm
          · cases h

theorem unifyLines_subset (t : Text) : ∀ c ∈ unifyLines t, c = .scalar '\n' ∨ c ∈ t := by
  induction t using unifyLines.induct with
  | case1 => nofun
  | case2 t ih =>
      intro c hc
      rw [unifyLines] at hc
      rcases List.mem_cons.mp hc with rfl | hc
      · exact .inl rfl
      · exact (ih c hc).imp id fun h => List.mem_cons_of_mem _ (List.mem_cons_of_mem _ h)
  | case3 t hnot ih =>
      intro c hc
      rw [unifyLines] at hc
      · rcases List.mem_cons.mp hc with rfl | hc
        · exact .inl rfl
        · exact (ih c hc).imp id (List.mem_cons_of_mem _)
      · exact hnot
  | case4 d t hnot hnot' ih =>
      intro c hc
      rw [unifyLines] at hc
      · rcases List.mem_cons.mp hc with rfl | hc
        · exact .inr List.mem_cons_self
        · exact (ih c hc).imp id (List.mem_cons_of_mem _)
      · exact hnot
      · exact hnot'

/-- What is read from a file has no surrogates. -/
theorem noSurrogate_ofFile? (h : ofFile? bytes = some t) : t.NoSurrogate := by
  obtain ⟨u, hu, rfl⟩ := Option.map_eq_some_iff.mp h
  intro n hn
  rcases unifyLines_subset u _ hn with hn | hn
  · cases hn
  · exact noSurrogate_readUtf8 hu n hn

end Text

end MetricBridge
