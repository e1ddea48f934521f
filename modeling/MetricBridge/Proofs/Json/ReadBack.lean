import MetricBridge.Proofs.Entries
import MetricBridge.Proofs.Json.Numbers
import MetricBridge.Proofs.Json.Parts
import MetricBridge.Proofs.Json.Strings

namespace MetricBridge

def rereadFloat (x : Float) : Float :=
  match Text.readFloat (Text.ofFloat x) with
  | .ok y => y
  | .error _ => x

def ReadsBack (x : Float) : Prop :=
  x.isNaN = false → x.isInf = false → Text.readFloat (Text.ofFloat x) = .ok x

inductive FloatForm (x : Float) : Prop
  | nan (h : x.isNaN = true) (written : Json.floatText x = lit "NaN")
      (read : rereadFloat x = 0.0 / 0.0)
  | infinity (h : x.isInf = true) (sign : x.toBits >>> 63 ≠ 1)
      (written : Json.floatText x = lit "Infinity") (read : rereadFloat x = 1.0 / 0.0)
  | minusInfinity (h : x.isInf = true) (sign : x.toBits >>> 63 = 1)
      (written : Json.floatText x = lit "-Infinity") (read : rereadFloat x = -1.0 / 0.0)
  | numeral (negative : Bool) (n : Numeral) (hnan : x.isNaN = false) (hinf : x.isInf = false)
      (written : Json.floatText x = (if negative then [.scalar '-'] else []) ++ n.text)
      (read : rereadFloat x = if negative then -n.value else n.value)

theorem floatForm (x : Float) : FloatForm x := by
  by_cases hnan : x.isNaN = true
  · refine .nan hnan ?_ ?_
    · rw [Json.floatText, NumberLayout.float, if_pos hnan]
      rfl
    · rw [rereadFloat, Text.ofFloat, NumberLayout.float, if_pos hnan]
      rfl
  · by_cases hinf : x.isInf = true
    · by_cases hsign : x.toBits >>> 63 = 1
      · refine .minusInfinity hinf hsign ?_ ?_
        · rw [Json.floatText, NumberLayout.float, if_neg hnan, if_pos hsign, if_pos hinf]
          rfl
        · rw [rereadFloat, Text.ofFloat, NumberLayout.float, if_neg hnan, if_pos hsign, if_pos hinf]
          rfl
      · refine .infinity hinf hsign ?_ ?_
        · rw [Json.floatText, NumberLayout.float, if_neg hnan, if_neg hsign, if_pos hinf]
          rfl
        · rw [rereadFloat, Text.ofFloat, NumberLayout.float, if_neg hnan, if_neg hsign, if_pos hinf]
          rfl
    · obtain ⟨n, hn, -⟩ := NumberLayout.exists_numeral (Binary.shortest (Binary.ofFloat x))
      have hjson : NumberLayout.json.decimal (Binary.shortest (Binary.ofFloat x)) = n.text := hn
      have hread := n.readFloat_text (x.toBits >>> 63 = 1)
      simp only [decide_eq_true_eq] at hread
      refine .numeral (x.toBits >>> 63 = 1) n (Bool.eq_false_iff.mpr hnan) (Bool.eq_false_iff.mpr hinf)
        ?_ ?_
      · rw [Json.floatText, NumberLayout.float, if_neg hnan, if_neg hinf, hjson]
        simp only [decide_eq_true_eq]
      · rw [rereadFloat, Text.ofFloat, NumberLayout.float, if_neg hnan, if_neg hinf, hn, hread]
        simp only [decide_eq_true_eq]

namespace Json

theorem floatText_rereadFloat {x : Float} (h : ReadsBack x) :
    floatText (rereadFloat x) = floatText x := by
  cases floatForm x with
  | nan _ written read =>
      rw [read, written]
      decide +kernel
  | infinity _ _ written read =>
      rw [read, written]
      decide +kernel
  | minusInfinity _ _ written read =>
      rw [read, written]
      decide +kernel
  | numeral _ _ hnan hinf => rw [rereadFloat, h hnan hinf]

mutual

def reread : Json → Json
  | .float x => .float (rereadFloat x)
  | .string t => .string t.joined
  | .array items => .array (rereadItems items)
  | .object fields => .object (Entries.ofPairs (rereadFields fields))
  | j => j
termination_by structural j => j

def rereadItems : List Json → List Json
  | [] => []
  | item :: items => reread item :: rereadItems items
termination_by structural items => items

def rereadFields : List (Text × Json) → List (Text × Json)
  | [] => []
  | (name, value) :: fields => (name.joined, reread value) :: rereadFields fields
termination_by structural fields => fields

end

theorem rereadItems_eq (items : List Json) : rereadItems items = items.map reread := by
  induction items with
  | nil => rfl
  | cons item items ih => rw [rereadItems, ih, List.map_cons]

theorem rereadFields_eq (fields : List (Text × Json)) :
    rereadFields fields = fields.map fun field => (field.1.joined, reread field.2) := by
  induction fields with
  | nil => rfl
  | cons field fields ih => rw [rereadFields, ih, List.map_cons]

variable {rest t : Text} {fuel : Nat} {j : Json}

theorem readWord_digit {c : CodePoint} (h : c.isAsciiDigit = true) (u : Text) :
    readWord (c :: u) = none ∧ readWord (.scalar '-' :: c :: u) = none := by
  have hne : ∀ d : Char, d.isDigit = false → CodePoint.scalar d ≠ c := by
    rintro d hd rfl
    cases hd.symm.trans h
  simp [readWord, Text.begins, lit, hne 'n' rfl, hne 't' rfl, hne 'f' rfl, hne 'N' rfl, hne 'I' rfl,
    hne '-' rfl]

theorem readValue_number {c : CodePoint} (h : c.isAsciiDigit = true) (u : Text) (negative : Bool) :
    readValue (fuel + 1) ((if negative then [.scalar '-'] else []) ++ c :: u) =
      readNumber ((if negative then [.scalar '-'] else []) ++ c :: u) := by
  obtain ⟨hword, hword'⟩ := readWord_digit h u
  have hne : ∀ d : Char, d.isDigit = false → c ≠ CodePoint.scalar d := by
    rintro d hd rfl
    cases hd.symm.trans h
  cases negative
  · simp [readValue, hword, hne '"' rfl, hne '[' rfl, hne '{' rfl]
  · simp [readValue, hword']

theorem readValue_ofInt {n : Int} (hn : n.natAbs < 10 ^ integerDigitLimit) (h : Behind rest) :
    readValue (fuel + 1) (Text.ofInt n ++ rest) = .ok (.int n, rest) := by
  have hread := readNumber_ofInt hn h
  have hcons : ∃ (negative : Bool) (c : CodePoint) (u : Text), c.isAsciiDigit = true ∧
      Text.ofInt n = (if negative then [.scalar '-'] else []) ++ c :: u := by
    have hnat : ∀ k : Nat, ∃ c u, c.isAsciiDigit = true ∧ Text.ofNat k = c :: u := by
      intro k
      obtain ⟨c, u, hcons⟩ := List.exists_cons_of_ne_nil (Text.ofNat_ne_nil k)
      exact ⟨c, u, Text.isDigits_ofNat k c (hcons ▸ List.mem_cons_self), hcons⟩
    cases n with
    | ofNat k =>
        obtain ⟨c, u, hc, hcons⟩ := hnat k
        exact ⟨false, c, u, hc, hcons⟩
    | negSucc k =>
        obtain ⟨c, u, hc, hcons⟩ := hnat (k + 1)
        refine ⟨true, c, u, hc, ?_⟩
        rw [if_pos rfl, ← hcons]
        rfl
  obtain ⟨negative, c, u, hc, heq⟩ := hcons
  rw [heq, List.append_assoc, List.cons_append] at hread ⊢
  rw [readValue_number hc, hread]

theorem readValue_floatText (x : Float) (h : Behind rest) :
    readValue (fuel + 1) (floatText x ++ rest) = .ok (.float (rereadFloat x), rest) := by
  cases floatForm x with
  | nan _ written read =>
      rw [written, read]
      rfl
  | infinity _ _ written read =>
      rw [written, read]
      rfl
  | minusInfinity _ _ written read =>
      rw [written, read]
      rfl
  | numeral negative n _ _ written read =>
      have hread := readNumber_text n negative h
      obtain ⟨c, u, hcons, hc⟩ := n.exists_digit
      rw [written, read]
      rw [hcons, List.append_assoc, List.cons_append] at hread ⊢
      rw [readValue_number hc, hread]

def openings : Text := "ntfNI-0123456789\"[\x7b"

theorem print_cons (j : Json) : ∃ c u, print j = c :: u ∧ c ∈ openings := by
  have hdigit : ∀ {c : CodePoint}, c.isAsciiDigit = true → c ∈ openings := by
    intro c hc
    have hall : ∀ n < 58, 48 ≤ n → CodePoint.scalar (Char.ofNat n) ∈ openings := by decide
    cases c with
    | surrogate => cases hc
    | scalar c =>
        have hrange : 48 ≤ c.toNat ∧ c.toNat ≤ 57 := Char.isDigit_iff_toNat.mp hc
        have hmem := hall c.toNat (by omega) hrange.1
        rwa [Char.ofNat_toNat] at hmem
  have hsigned : ∀ (negative : Bool) {t : Text}, (∃ c u, t = c :: u ∧ c.isAsciiDigit = true) →
      ∃ c u, (if negative then [.scalar '-'] else []) ++ t = c :: u ∧ c ∈ openings := by
    rintro negative _ ⟨c, u, rfl, hc⟩
    cases negative
    · exact ⟨c, u, rfl, hdigit hc⟩
    · exact ⟨.scalar '-', c :: u, rfl, by decide⟩
  have hnat : ∀ k, ∃ c u, Text.ofNat k = c :: u ∧ c.isAsciiDigit = true := by
    intro k
    obtain ⟨c, u, hcons⟩ := List.exists_cons_of_ne_nil (Text.ofNat_ne_nil k)
    exact ⟨c, u, hcons, Text.isDigits_ofNat k c (hcons ▸ List.mem_cons_self)⟩
  cases j with
  | null => exact ⟨_, _, rfl, by decide⟩
  | bool b => cases b <;> exact ⟨_, _, rfl, by decide⟩
  | int n =>
      cases n with
      | ofNat k => exact hsigned false (hnat k)
      | negSucc k => exact hsigned true (hnat (k + 1))
  | float x =>
      rw [print]
      cases floatForm x with
      | nan _ written => exact written ▸ ⟨_, _, rfl, by decide⟩
      | infinity _ _ written => exact written ▸ ⟨_, _, rfl, by decide⟩
      | minusInfinity _ _ written => exact written ▸ ⟨_, _, rfl, by decide⟩
      | numeral negative n _ _ written => exact written ▸ hsigned negative n.exists_digit
  | string t => exact ⟨_, _, rfl, by decide⟩
  | array items => exact ⟨_, _, rfl, by decide⟩
  | object fields => exact ⟨_, _, rfl, by decide⟩

theorem skipSpaces_cons {c : CodePoint} (h : isSpace c = false) (t : Text) :
    skipSpaces (c :: t) = c :: t := by
  simp [skipSpaces, h]

theorem skipSpaces_print (j : Json) (t : Text) : skipSpaces (print j ++ t) = print j ++ t := by
  obtain ⟨c, u, hcons, hc⟩ := print_cons j
  have hall : ∀ c ∈ openings, isSpace c = false := by decide
  rw [hcons]
  exact skipSpaces_cons (hall c hc) _

theorem skipSpaces_space (t : Text) : skipSpaces (.scalar ' ' :: t) = skipSpaces t := rfl

def ReadsTo (j : Json) : Prop :=
  ∀ fuel rest, 2 * (print j).length ≤ fuel → Behind rest →
    readValue fuel (print j ++ rest) = .ok (reread j, rest)

theorem length_print_pos (j : Json) : 0 < (print j).length := by
  obtain ⟨c, u, hcons, -⟩ := print_cons j
  simp [hcons]

theorem readItems_print (rest : Text) {items : List Json} (h : ∀ item ∈ items, ReadsTo item) (hne : items ≠ [])
    (hfuel : 2 * (printItems items).length ≤ fuel) :
    readItems (fuel + 1) (printItems items ++ .scalar ']' :: rest) =
      .ok (items.map reread, rest) := by
  have hclose : isSpace (.scalar ']') = false := by decide
  have hcomma : isSpace (.scalar ',') = false := by decide
  induction items generalizing fuel with
  | nil => exact absurd rfl hne
  | cons item items ih =>
      obtain ⟨hitem, hitems⟩ := List.forall_mem_cons.mp h
      cases items with
      | nil =>
          simp only [printItems, List.isEmpty_nil, if_true, List.append_nil] at hfuel ⊢
          rw [readItems, hitem fuel _ hfuel (.cons (by decide) _)]
          simp [skipSpaces_cons hclose]
      | cons next items =>
          have htext : printItems (item :: next :: items) = print item ++
              (.scalar ',' :: .scalar ' ' :: printItems (next :: items)) := by
            simp [printItems, lit]
          have hspaces : skipSpaces (printItems (next :: items) ++ .scalar ']' :: rest) =
              printItems (next :: items) ++ .scalar ']' :: rest := by
            rw [printItems, List.append_assoc, List.append_assoc]
            exact skipSpaces_print next _
          rw [htext, List.length_append, List.length_cons, List.length_cons] at hfuel
          obtain ⟨fuel, rfl⟩ : ∃ more, fuel = more + 1 := ⟨fuel - 1, by omega⟩
          have hrest := ih hitems (List.cons_ne_nil _ _)
            (show 2 * (printItems (next :: items)).length ≤ fuel by omega)
          rw [htext, List.append_assoc, List.cons_append, List.cons_append, readItems,
            hitem (fuel + 1) _ (by omega) (.cons (by decide) _)]
          simp [skipSpaces_cons hcomma, skipSpaces_space, hspaces, hrest]

theorem readString_quote (t rest : Text) (start : Nat) :
    readString start ((t.flatMap CodePoint.quotedAscii ++ .scalar '"' :: rest).length + 1)
      (t.flatMap CodePoint.quotedAscii ++ .scalar '"' :: rest) = .ok (t.joined, rest) := by
  refine quotes_joined t rest ?_ start
  have hlength := Text.length_le_quotedAscii t
  rw [List.length_append, List.length_cons]
  omega

theorem readFields_print (rest : Text) {fields : List (Text × Json)}
    (h : ∀ field ∈ fields, ReadsTo field.2) (hne : fields ≠ [])
    (hfuel : 2 * (printFields fields).length ≤ fuel) :
    readFields (fuel + 1) (printFields fields ++ .scalar '}' :: rest) =
      .ok (rereadFields fields, rest) := by
  have hcolon : isSpace (.scalar ':') = false := by decide
  have hclose : isSpace (.scalar '}') = false := by decide
  have hcomma : isSpace (.scalar ',') = false := by decide
  induction fields generalizing fuel with
  | nil => exact absurd rfl hne
  | cons field fields ih =>
      obtain ⟨name, value⟩ := field
      obtain ⟨hvalue, hfields⟩ := List.forall_mem_cons.mp h
      replace hvalue : ReadsTo value := hvalue
      have hquote : ∀ t, name.quote ++ t =
          .scalar '"' :: (name.flatMap CodePoint.quotedAscii ++ .scalar '"' :: t) := by
        simp [Text.quote]
      cases fields with
      | nil =>
          have htext : printFields [(name, value)] =
              name.quote ++ .scalar ':' :: .scalar ' ' :: print value := by
            simp [printFields, lit]
          rw [htext, List.length_append, List.length_cons, List.length_cons] at hfuel
          have hread := hvalue fuel (.scalar '}' :: rest) (by omega) (.cons (by decide) _)
          rw [htext, List.append_assoc, hquote, readFields, readString_quote]
          simp [skipSpaces_cons hcolon, skipSpaces_space, skipSpaces_print, hread,
            skipSpaces_cons hclose, rereadFields]
      | cons next fields =>
          have htext : printFields ((name, value) :: next :: fields) =
              name.quote ++ .scalar ':' :: .scalar ' ' :: (print value ++
                .scalar ',' :: .scalar ' ' :: printFields (next :: fields)) := by
            simp [printFields, lit]
          have hspaces : skipSpaces (printFields (next :: fields) ++ .scalar '}' :: rest) =
              printFields (next :: fields) ++ .scalar '}' :: rest := rfl
          rw [htext, List.length_append, List.length_cons, List.length_cons, List.length_append,
            List.length_cons, List.length_cons] at hfuel
          obtain ⟨fuel, rfl⟩ : ∃ more, fuel = more + 1 := ⟨fuel - 1, by omega⟩
          have hrest := ih hfields (List.cons_ne_nil _ _)
            (show 2 * (printFields (next :: fields)).length ≤ fuel by omega)
          have hread := hvalue (fuel + 1) (.scalar ',' :: .scalar ' ' ::
            (printFields (next :: fields) ++ .scalar '}' :: rest)) (by omega) (.cons (by decide) _)
          rw [htext, List.append_assoc, hquote, readFields, readString_quote]
          simp [skipSpaces_cons hcolon, skipSpaces_space, skipSpaces_print, hread,
            skipSpaces_cons hcomma, hspaces, hrest]
          rfl

/-- No integer in the value has more digits than are read. -/
def HasShortInts (j : Json) : Prop :=
  ∀ n, .int n ∈ j.parts → n.natAbs < 10 ^ integerDigitLimit

/-- A value has a text, so that there is fuel for two steps. -/
theorem readsTo_of (h : ∀ more rest, 2 * (print j).length ≤ more + 2 → Behind rest →
    readValue (more + 2) (print j ++ rest) = .ok (reread j, rest)) : ReadsTo j := by
  intro fuel rest hfuel hrest
  have hpos := length_print_pos j
  obtain ⟨more, rfl⟩ : ∃ more, fuel = more + 2 := ⟨fuel - 2, by omega⟩
  exact h more rest hfuel hrest

theorem readsTo_array {items : List Json} (h : ∀ item ∈ items, ReadsTo item) :
    ReadsTo (.array items) := by
  refine readsTo_of fun more rest hfuel _ => ?_
  cases items with
  | nil => rfl
  | cons item items =>
      have hlength : (print (.array (item :: items))).length =
          (printItems (item :: items)).length + 2 := by
        simp [print]
      have hread := readItems_print rest h (List.cons_ne_nil _ _)
        (show 2 * (printItems (item :: items)).length ≤ more by omega)
      obtain ⟨c, u, hcons, hc⟩ := print_cons item
      have hall : ∀ c ∈ openings, isSpace c = false ∧ c ≠ .scalar ']' := by decide
      obtain ⟨hspace, hclose⟩ := hall c hc
      have htext : print (.array (item :: items)) ++ rest =
          .scalar '[' :: (printItems (item :: items) ++ .scalar ']' :: rest) := by
        simp [print]
      obtain ⟨v, hv⟩ : ∃ v, printItems (item :: items) ++ .scalar ']' :: rest = c :: v := by
        rw [printItems, hcons]
        exact ⟨_, rfl⟩
      rw [htext, reread, rereadItems_eq]
      rw [hv] at hread ⊢
      simp [readValue, skipSpaces_cons hspace, hclose, hread]

theorem readsTo_object {fields : List (Text × Json)} (h : ∀ field ∈ fields, ReadsTo field.2) :
    ReadsTo (.object fields) := by
  refine readsTo_of fun more rest hfuel _ => ?_
  cases fields with
  | nil => rfl
  | cons field fields =>
      have hlength : (print (.object (field :: fields))).length =
          (printFields (field :: fields)).length + 2 := by
        simp [print]
      have hread := readFields_print rest h (List.cons_ne_nil _ _)
        (show 2 * (printFields (field :: fields)).length ≤ more by omega)
      have htext : print (.object (field :: fields)) ++ rest =
          .scalar '{' :: (printFields (field :: fields) ++ .scalar '}' :: rest) := by
        simp [print]
      have hquote : isSpace (.scalar '"') = false := by decide
      obtain ⟨v, hv⟩ : ∃ v, printFields (field :: fields) ++ .scalar '}' :: rest =
        .scalar '"' :: v := ⟨_, rfl⟩
      rw [htext, reread]
      rw [hv] at hread ⊢
      simp [readValue, skipSpaces_cons hquote, hread]

theorem readsTo (h : j.HasShortInts) : ReadsTo j := by
  induction j using Json.induct with
  | null => exact readsTo_of fun _ _ _ _ => rfl
  | bool b => cases b <;> exact readsTo_of fun _ _ _ _ => rfl
  | int n => exact readsTo_of fun _ _ _ hrest => readValue_ofInt (h n (mem_parts_self _)) hrest
  | float x => exact readsTo_of fun _ _ _ hrest => readValue_floatText x hrest
  | string t =>
      refine readsTo_of fun more rest _ _ => ?_
      have htext : print (.string t) ++ rest =
          .scalar '"' :: (t.flatMap CodePoint.quotedAscii ++ .scalar '"' :: rest) := by
        simp [print, Text.quote]
      rw [htext, readValue, readString_quote]
      rfl
  | array items ih =>
      exact readsTo_array fun item hitem => ih item hitem fun n hn => h n (mem_parts_of_item hitem hn)
  | object fields ih =>
      exact readsTo_object fun field hfield =>
        ih field hfield fun n hn => h n (mem_parts_of_field hfield hn)

theorem parse_print (h : j.HasShortInts) : parse (print j) = .ok (reread j) := by
  obtain ⟨c, u, hcons, hc⟩ := print_cons j
  have hall : ∀ c ∈ openings, c ≠ .scalar '\uFEFF' := by decide
  have hmark : Text.begins [.scalar '\uFEFF'] (print j) = false := by
    rw [Text.begins, hcons, List.isPrefixOf, beq_eq_false_iff_ne.mpr (hall c hc).symm, Bool.false_and]
  have hspaces := skipSpaces_print j []
  have hread := readsTo h (2 * (print j).length + 2) [] (Nat.le_add_right _ _) .nil
  rw [List.append_nil] at hspaces hread
  simp only [parse, hmark, hspaces, hread, Bool.false_eq_true, if_false]
  rfl

def NamesApart (fields : List (Text × Json)) : Prop :=
  ((Entries.keys fields).map Text.quote).Nodup

instance (fields : List (Text × Json)) : Decidable (NamesApart fields) :=
  inferInstanceAs (Decidable (List.Nodup _))

theorem ofPairs_rereadFields {fields : List (Text × Json)} (h : NamesApart fields) :
    Entries.ofPairs (rereadFields fields) = rereadFields fields := by
  refine Entries.ofPairs_eq_self (List.Nodup.of_map Text.quote ?_)
  have hkeys : (Entries.keys (rereadFields fields)).map Text.quote =
      (Entries.keys fields).map Text.quote := by
    rw [rereadFields_eq]
    simp [Entries.keys, Text.quote_joined]
  rw [hkeys]
  exact h

theorem printItems_map {f : Json → Json} {items : List Json}
    (h : ∀ item ∈ items, print (f item) = print item) :
    printItems (items.map f) = printItems items := by
  induction items with
  | nil => rfl
  | cons item items ih =>
      obtain ⟨hitem, hitems⟩ := List.forall_mem_cons.mp h
      rw [List.map_cons, printItems, printItems, hitem, ih hitems, List.isEmpty_map]

theorem printFields_reread {fields : List (Text × Json)}
    (h : ∀ field ∈ fields, print (reread field.2) = print field.2) :
    printFields (rereadFields fields) = printFields fields := by
  induction fields with
  | nil => rfl
  | cons field fields ih =>
      obtain ⟨hfield, hfields⟩ := List.forall_mem_cons.mp h
      have hempty : (rereadFields fields).isEmpty = fields.isEmpty := by cases fields <;> rfl
      rw [rereadFields, printFields, printFields, Text.quote_joined, hfield, ih hfields, hempty]

/-- What is read from the text of a value has the same text, if floats are read back and no object has
two names that are written alike. -/
theorem print_reread (hfloats : ∀ x, .float x ∈ j.parts → ReadsBack x)
    (hnames : ∀ fields, .object fields ∈ j.parts → NamesApart fields) :
    print (reread j) = print j := by
  induction j using Json.induct with
  | null | bool | int => rfl
  | float x => exact floatText_rereadFloat (hfloats x (mem_parts_self _))
  | string t => exact Text.quote_joined t
  | array items ih =>
      have hitems := printItems_map fun item hitem => ih item hitem
        (fun x hx => hfloats x (mem_parts_of_item hitem hx))
        fun fields hf => hnames fields (mem_parts_of_item hitem hf)
      rw [reread, rereadItems_eq, print, print, hitems]
  | object fields ih =>
      have hfields := printFields_reread fun field hfield => ih field hfield
        (fun x hx => hfloats x (mem_parts_of_field hfield hx))
        fun fields hf => hnames fields (mem_parts_of_field hfield hf)
      rw [reread, ofPairs_rereadFields (hnames fields (mem_parts_self _)), print, print, hfields]

end Json
end MetricBridge
