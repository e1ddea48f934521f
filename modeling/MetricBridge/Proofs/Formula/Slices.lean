import MetricBridge.Proofs.Formula.Longest

namespace MetricBridge.Formula

/-- The lexeme stands at the front of the text, written as `w`. A name, a number or a delimiter is
the longest one there, so that no code point behind it would go on with it. -/
def Lexeme.HasSlice (w t : Text) : Lexeme → Prop
  | number literal => w = literal ∧ IsLongest IsNumber w t
  | name value => w = value ∧ IsLongest IsName w t
  | string value => ∃ quote inside, (quote = .scalar '"' ∨ quote = .scalar '\'') ∧
      w = quote :: inside ++ [quote] ∧ IsQuoted quote inside value
  | delimiter d => w = d.spelling ∧ IsLongest (· ∈ Delimiter.all.map Delimiter.spelling) w t
  | newline => w = lit "\n"
  | finish => w = [] ∧ t = []

structure Slice where
  lexeme : Lexeme
  start : Nat
  stop : Nat

namespace Slice

def token (s : Slice) : Token := ⟨s.lexeme, s.start⟩

structure IsIn (t : Text) (s : Slice) : Prop where
  ordered : s.start ≤ s.stop
  within : s.stop ≤ t.length
  read : s.lexeme.HasSlice ((t.drop s.start).take (s.stop - s.start)) (t.drop s.start)

end Slice

inductive Slices (t : Text) : Nat → List Slice → Prop
  | finish : Slices t t.length [⟨.finish, t.length, t.length⟩]
  | blank {n : Nat} {c : CodePoint} {slices : List Slice} (hc : t[n]? = some c)
      (hblank : c.isBlank = true) (hfeed : c ≠ .scalar '\n') (h : Slices t (n + 1) slices) :
      Slices t n slices
  | slice {s : Slice} {slices : List Slice} (hs : s.IsIn t) (hlt : s.start < s.stop)
      (h : Slices t s.stop slices) : Slices t s.start (s :: slices)

variable {c : CodePoint} {t w rest : Text} {l : Lexeme} {s : Slice} {slices : List Slice}
  {ts : List Token} {n fuel position : Nat}

theorem scanLexeme_hasSlice (h : scanLexeme position (c :: t) = .ok (l, rest)) :
    ∃ w, w ++ rest = c :: t ∧ w ≠ [] ∧ l.HasSlice w (c :: t) := by
  unfold scanLexeme at h
  dsimp only at h
  split_ifs at h with hquote hstart hempty hname
  · split at h
    · rename_i hvalue
      cases h
      obtain ⟨inside, rfl, hinside⟩ := scanString_isQuoted hvalue
      exact ⟨c :: inside ++ [c], by simp, List.cons_ne_nil _ _, c, inside, hquote, rfl, hinside⟩
    · cases h
  · cases h
    have hne : (spanNumber (c :: t)).1 ≠ [] := by simpa using hempty
    exact ⟨_, spanNumber_eq (c :: t), hne, rfl, isLongest_spanNumber hne⟩
  · cases h
    have hpart : isNamePart c = true := by rw [isNamePart, hname, Bool.true_or]
    refine ⟨_, spanText_eq isNamePart (c :: t), ?_, rfl, spanText_name hname⟩
    rw [spanText, List.takeWhile_cons_of_pos hpart]
    exact List.cons_ne_nil _ _
  · split at h
    · rename_i d hfirst
      cases h
      have hlongest := isLongest_first? hfirst
      obtain ⟨more, hmore⟩ := hlongest.begins
      refine ⟨d.spelling, ?_, by cases d <;> decide, rfl, hlongest⟩
      rw [← hmore, List.drop_left]
    · cases h

theorem Slices.of_drop (hw : w ++ rest = t.drop position) (hne : w ≠ [])
    (hl : l.HasSlice w (t.drop position)) (h : Slices t (position + w.length) slices) :
    Slices t position (⟨l, position, position + w.length⟩ :: slices) := by
  have hlength := congrArg List.length hw
  have hpos := List.length_pos_iff.mpr hne
  simp only [List.length_append, List.length_drop] at hlength
  refine .slice (s := ⟨l, position, position + w.length⟩) ⟨?_, ?_, ?_⟩ ?_ h
  · exact Nat.le_add_right _ _
  · dsimp only
    omega
  · rwa [Nat.add_sub_cancel_left, ← hw, List.take_left, hw]
  · dsimp only
    omega

/-- The tokens that scanning from a place on gives are those of the slices from it on. -/
theorem slices_of_scanFrom (hfuel : (t.drop position).length < fuel) (hposition : position ≤ t.length)
    (h : scanFrom fuel position (t.drop position) = .ok ts) :
    ∃ slices, slices.map Slice.token = ts ∧ Slices t position slices := by
  induction fuel generalizing position ts with
  | zero => cases hfuel
  | succ fuel ih =>
      have hstep : ∀ {w rest : Text} {us : List Token}, w ++ rest = t.drop position → w ≠ [] →
          scanFrom fuel (position + w.length) rest = .ok us →
          ∃ slices, slices.map Slice.token = us ∧ Slices t (position + w.length) slices := by
        intro w rest us hw hne hus
        have hrest : rest = t.drop (position + w.length) := by
          rw [← List.drop_drop, ← hw, List.drop_left]
        have hlength := congrArg List.length hw
        have hpos := List.length_pos_iff.mpr hne
        simp only [List.length_append, List.length_drop] at hlength hfuel
        subst hrest
        exact ih (by rw [List.length_drop]; omega) (by omega) hus
      unfold scanFrom at h
      split at h
      · rename_i hnil
        cases h
        obtain rfl : position = t.length :=
          Nat.le_antisymm hposition (List.drop_eq_nil_iff.mp hnil)
        exact ⟨_, rfl, .finish⟩
      · rename_i c rest hcons
        have hone : [c] ++ rest = t.drop position := hcons.symm
        split_ifs at h with hfeed hblank
        · obtain ⟨us, hus, rfl⟩ := map_eq_ok h
          obtain ⟨slices, rfl, hslices⟩ := hstep hone (List.cons_ne_nil _ _) hus
          exact ⟨_, rfl, .of_drop hone (List.cons_ne_nil _ _) (by rw [hfeed]; rfl) hslices⟩
        · obtain ⟨slices, rfl, hslices⟩ := hstep hone (List.cons_ne_nil _ _) h
          have hc : t[position]? = some c := by
            rw [← Nat.add_zero position, ← List.getElem?_drop, hcons]
            rfl
          exact ⟨slices, rfl, .blank hc hblank hfeed hslices⟩
        · split at h
          · cases h
          · rename_i l more hl
            obtain ⟨us, hus, rfl⟩ := map_eq_ok h
            rw [hcons] at hl
            obtain ⟨w, hw, hne, hslice⟩ := scanLexeme_hasSlice hl
            rw [← hcons] at hw hslice
            rw [← hw, List.length_append, Nat.add_sub_cancel] at hus
            obtain ⟨slices, rfl, hslices⟩ := hstep hw hne hus
            exact ⟨_, rfl, .of_drop hw hne hslice hslices⟩

theorem exists_slices (h : tokenize t = .ok ts) :
    ∃ slices, slices.map Slice.token = ts ∧ Slices t 0 slices :=
  slices_of_scanFrom (Nat.lt_succ_self _) (Nat.zero_le _) h

namespace Slices

theorem isIn (h : Slices t n slices) : ∀ s ∈ slices, s.IsIn t := by
  induction h with
  | finish =>
      intro s hs
      obtain rfl := List.mem_singleton.mp hs
      exact ⟨Nat.le_refl _, Nat.le_refl _, by simp [Lexeme.HasSlice]⟩
  | blank _ _ _ _ ih => exact ih
  | slice hs _ _ ih => exact List.forall_mem_cons.mpr ⟨hs, ih⟩

theorem le_start (h : Slices t n slices) : ∀ s ∈ slices, n ≤ s.start := by
  induction h with
  | finish =>
      intro s hs
      obtain rfl := List.mem_singleton.mp hs
      exact Nat.le_refl _
  | blank _ _ _ _ ih => exact fun s hs => Nat.le_of_succ_le (ih s hs)
  | slice hs _ _ ih =>
      exact List.forall_mem_cons.mpr ⟨Nat.le_refl _, fun s hmem => hs.ordered.trans (ih s hmem)⟩

theorem disjoint (h : Slices t n slices) : slices.Pairwise fun s s' => s.stop ≤ s'.start := by
  induction h with
  | finish => exact List.pairwise_singleton _ _
  | blank _ _ _ _ ih => exact ih
  | slice _ _ h ih => exact List.pairwise_cons.mpr ⟨h.le_start, ih⟩

theorem increasing (h : Slices t n slices) : slices.Pairwise fun s s' => s.start < s'.start := by
  induction h with
  | finish => exact List.pairwise_singleton _ _
  | blank _ _ _ _ ih => exact ih
  | slice _ hlt h ih =>
      exact List.pairwise_cons.mpr ⟨fun s hs => Nat.lt_of_lt_of_le hlt (h.le_start s hs), ih⟩

theorem ends (h : Slices t n slices) : slices.getLast? = some ⟨.finish, t.length, t.length⟩ := by
  induction h with
  | finish => rfl
  | blank _ _ _ _ ih => exact ih
  | slice _ _ _ ih => rw [List.getLast?_cons, ih]; rfl

/-- Only blanks stand outside of the slices. -/
theorem outside (h : Slices t n slices) {i : Nat} (hi : n ≤ i) (hc : t[i]? = some c)
    (hout : ∀ s ∈ slices, i < s.start ∨ s.stop ≤ i) : c.isBlank = true ∧ c ≠ .scalar '\n' := by
  induction h with
  | finish =>
      rw [List.getElem?_eq_none hi] at hc
      cases hc
  | @blank n d slices hd hblank hfeed _ ih =>
      rcases Nat.eq_or_lt_of_le hi with rfl | hi
      · cases hd.symm.trans hc
        exact ⟨hblank, hfeed⟩
      · exact ih hi hout
  | slice _ _ _ ih =>
      obtain ⟨hs, hout⟩ := List.forall_mem_cons.mp hout
      rcases hs with hs | hs
      · exact absurd hi (Nat.not_le_of_lt hs)
      · exact ih hs hout

end Slices

/-- The tokens of a text stand one behind the other, the last one at its end. Their slices do not
overlap, only blanks other than line feeds stand outside of them, and each token is read off its
slice: names, numbers and delimiters are the longest ones at their places. -/
theorem tokenize_slices (h : tokenize t = .ok ts) :
    ts.Pairwise (fun k k' => k.position < k'.position) ∧
      ts.getLast? = some ⟨.finish, t.length⟩ ∧
      ∃ slices : List Slice, slices.map Slice.token = ts ∧
        slices.Pairwise (fun s s' => s.stop ≤ s'.start) ∧ (∀ s ∈ slices, s.IsIn t) ∧
        ∀ i c, t[i]? = some c → (∀ s ∈ slices, i < s.start ∨ s.stop ≤ i) →
          c.isBlank = true ∧ c ≠ .scalar '\n' := by
  obtain ⟨slices, rfl, hslices⟩ := exists_slices h
  refine ⟨List.pairwise_map.mpr hslices.increasing, ?_, slices, rfl, hslices.disjoint,
    hslices.isIn, fun i c => hslices.outside (Nat.zero_le i)⟩
  rw [List.getLast?_map, hslices.ends]
  rfl

/-- Operators of one, two and three marks, a number with an exponent, a string with an escape, and a
line feed. -/
theorem tokenize_slices_mixed :
    let text := lit "$a>>>.5e+3\t'\\u0041'\n>>b"
    let tokens : List Token := [⟨.name "$a", 0⟩, ⟨.delimiter .shiftRightLogical, 2⟩,
      ⟨.number ".5e+3", 5⟩, ⟨.string "A", 11⟩, ⟨.newline, 19⟩, ⟨.delimiter .shiftRight, 20⟩,
      ⟨.name "b", 22⟩, ⟨.finish, 23⟩]
    tokenize text = .ok tokens ∧ ∃ slices : List Slice, slices.map Slice.token = tokens ∧
      (∀ s ∈ slices, s.IsIn text) ∧
      ∀ i c, text[i]? = some c → (∀ s ∈ slices, i < s.start ∨ s.stop ≤ i) → c.isBlank = true := by
  intro text tokens
  have hok : tokenize text = .ok tokens := by decide +kernel
  obtain ⟨-, -, slices, htokens, -, hisIn, houtside⟩ := tokenize_slices hok
  exact ⟨hok, slices, htokens, hisIn, fun i c hc hout => (houtside i c hc hout).1⟩

end MetricBridge.Formula
