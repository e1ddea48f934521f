import MetricBridge.Proofs.Formula.Faithful
import MetricBridge.Proofs.Formula.Reparsed

namespace MetricBridge.Formula

variable {t : Text} {x : Float} {v v' : Literal} {depths : Depths}

def Literal.rational? : Literal → Option ℚ
  | int n => some n
  | float x =>
    if x.isNaN || x.isInf then none
    else some (if x < 0.0 then -(Binary.ofFloat x).value else (Binary.ofFloat x).value)
  | _ => none

/-- The same constant, or the same number as an integer and as a float. -/
def Literal.SameValue (v w : Literal) : Prop :=
  v = w ∨ ∃ q, v.rational? = some q ∧ w.rational? = some q

theorem rational?_of_isWhole (h : Literal.isWhole x = true) : ∃ q,
    (Literal.int (if x < 0.0 then -((Binary.ofFloat x).floor : Int)
      else (Binary.ofFloat x).floor)).rational? = some q ∧
    (Literal.float x).rational? = some q := by
  simp only [Literal.isWhole, Bool.and_eq_true, Bool.not_eq_true'] at h
  obtain ⟨⟨⟨hnan, hinf⟩, hintegral⟩, -⟩ := h
  refine ⟨_, rfl, ?_⟩
  simp only [Literal.rational?, hnan, hinf, Bool.or_self, Bool.false_eq_true, if_false,
    Binary.value_of_isIntegral hintegral]
  split <;> simp

theorem units_eq_self_iff : t.units = t ↔ ∀ c ∈ t, c.val < 0x10000 := by
  have hone : ∀ c : CodePoint, c.val < 0x10000 → c.units = [c] := fun c hc => if_pos hc
  induction t with
  | nil => exact ⟨nofun, fun _ => rfl⟩
  | cons c t ih =>
      rw [List.forall_mem_cons]
      constructor
      · intro h
        rw [Text.units, List.flatMap_cons] at h
        by_cases hc : c.val < 0x10000
        · rw [hone c hc] at h
          exact ⟨hc, ih.mp (List.cons.inj h).2⟩
        · -- a half of a pair is no code point above the others
          rw [CodePoint.units, if_neg hc] at h
          have hhalf := c.highHalf_range
          have hval := CodePoint.val_ofNat_surrogate hhalf
          rw [(List.cons.inj h).1] at hval
          omega
      · rintro ⟨hc, ht⟩
        have htail := ih.mpr ht
        rw [Text.units] at htail ⊢
        rw [List.flatMap_cons, hone c hc, htail, List.singleton_append]

/-- Only the code points of strings may be others after reading. -/
theorem sameValue_reread (h : v.reread = .constant v') :
    v'.SameValue v ↔ ∀ t, v = .string t → ∀ c ∈ t, c.val < 0x10000 := by
  cases v with
  | string t =>
      cases h
      constructor
      · rintro (heq | ⟨q, hq, -⟩) u ⟨⟩
        · exact units_eq_self_iff.mp (Literal.string.inj heq)
        · cases hq
      · exact fun h => .inl (congrArg Literal.string (units_eq_self_iff.mpr (h t rfl)))
  | float x =>
      refine ⟨fun _ _ ht => Literal.noConfusion ht, fun _ => ?_⟩
      rw [Literal.reread] at h
      split at h
      · rename_i hwhole
        cases h
        exact .inr (rational?_of_isWhole hwhole)
      · split at h
        · cases h
        · cases h
          exact .inl rfl
  | int | bool | null =>
      cases h
      exact ⟨fun _ _ ht => Literal.noConfusion ht, fun _ => .inl rfl⟩

inductive LiteralKind where
  | number
  | string
deriving DecidableEq

def Lexeme.literalKind? : Lexeme → Option LiteralKind
  | number _ => some .number
  | string _ => some .string
  | _ => none

def Literal.kind? : Literal → Option LiteralKind
  | int _ => some .number
  | float _ => some .number
  | string _ => some .string
  | _ => none

theorem Lexeme.Denotes.literalKind?_eq {l : Lexeme} (h : l.Denotes v.terminal) :
    l.literalKind? = v.kind? := by
  cases v with
  | int | float =>
      obtain ⟨literal, rfl, -⟩ := h.of_number
      rfl
  | string t =>
      cases h.of_string
      rfl
  | bool b =>
      cases b with
      | true | false =>
          cases h.of_name
          rfl
  | null =>
      cases h.of_name
      rfl

theorem kind?_reread (h : v.reread = .constant v') : v'.kind? = v.kind? := by
  cases v with
  | float x =>
      rw [Literal.reread] at h
      split at h
      · cases h
        rfl
      · split at h <;> cases h
        rfl
  | int | string | bool | null =>
      cases h
      rfl

theorem exists_reread_iff : (∃ v', v.reread = .constant v') ↔
    ∀ x, v = .float x → x.isInf = false := by
  cases v with
  | float x =>
      by_cases hwhole : Literal.isWhole x = true
      · have hfinite : x.isInf = false := by
          simp only [Literal.isWhole, Bool.and_eq_true, Bool.not_eq_true'] at hwhole
          exact hwhole.1.1.2
        exact ⟨fun _ y hy => Literal.float.inj hy ▸ hfinite, fun _ => ⟨_, if_pos hwhole⟩⟩
      · rw [Literal.reread, if_neg hwhole]
        cases hinf : x.isInf with
        | true =>
            rw [if_pos rfl]
            exact ⟨fun h => h.elim fun _ he => Expr.noConfusion he,
              fun h => Bool.noConfusion (hinf.symm.trans (h x rfl))⟩
        | false =>
            rw [if_neg Bool.false_ne_true]
            exact ⟨fun _ y hy => Literal.float.inj hy ▸ hinf, fun _ => ⟨_, rfl⟩⟩
  | int | string | bool | null =>
      exact ⟨fun _ _ hx => Literal.noConfusion hx, fun _ => ⟨_, rfl⟩⟩

theorem denotes_of_primary {item : Rule} {s : Surroundings} {u : Token} {ts rest : List Token}
    {kind : LiteralKind} (hkind : u.lexeme.literalKind? = some kind)
    (h : Rule.primary item s (u :: ts) = .ok (.constant v, rest)) :
    u.lexeme.Denotes v.terminal := by
  have hsettle : settle s (u :: ts) = u :: ts := by
    unfold settle
    split
    · refine List.dropWhile_cons_of_neg fun hnewline => ?_
      rw [of_decide_eq_true hnewline] at hkind
      cases hkind
    · rfl
  unfold Rule.primary at h
  rw [hsettle] at h
  dsimp only [front] at h
  cases hu : u.lexeme with
  | number literal =>
      rw [hu] at h
      dsimp only at h
      split at h
      · cases h
      · rename_i hnumber
        cases h
        have hterminal : v.terminal = .number v := by
          have := isNumber_of_number hnumber
          cases v <;> first | rfl | cases this
        rw [hterminal]
        exact .number hnumber
  | string t =>
      rw [hu] at h
      cases h
      exact .string t
  | name | delimiter | newline | finish => rw [hu] at hkind; cases hkind

theorem Literal.Form.tokenized (h : v.Form) : ∃ l q p,
    tokenize v.text = .ok [⟨l, q⟩, ⟨.finish, p⟩] ∧ l.Denotes v.terminal.reparsed := by
  obtain ⟨ls, hls, hscans⟩ := h.closed.denotes
  rw [v.terminals_reread] at hls
  obtain ⟨l, ls', hl, hnil, rfl⟩ := List.forall₂_cons_right_iff.mp hls
  cases List.forall₂_nil_right_iff.mp hnil
  have hscan := hscans [] .nil
  rw [List.append_nil] at hscan
  obtain ⟨body, p, hts, hbody⟩ := tokenize_iff.mpr hscan
  obtain ⟨⟨l', q⟩, rest, rfl, rfl, hrest⟩ := List.map_eq_cons_iff.mp hbody
  cases List.map_eq_nil_iff.mp hrest
  exact ⟨_, q, p, hts, hl⟩

theorem Literal.Form.parsed (h : v.Form) : parse depths v.text = .ok v.reread := by
  have hfits : v.reread.Fits 18 .assignment false := (h.fits 0 false).loosen (k := 17) rfl
  obtain ⟨ts, hts, hparse⟩ := parse_of_shows h.closed hfits
  rw [parse, hts]
  exact hparse depths.rules (Nat.le_trans (by decide) depths.le_rules)

/-- A number or a string that becomes a constant is written, in the text of a tree and in a
calculated field, as one token of its kind that is parsed as a constant of the same value, except
for infinite numbers and strings with code points above `0xFFFF`. -/
theorem primary_read_back {item : Rule} {s : Surroundings} {u : Token} {ts rest : List Token}
    {kind : LiteralKind} (hkind : u.lexeme.literalKind? = some kind)
    (h : Rule.primary item s (u :: ts) = .ok (.constant v, rest)) (n : Nat) :
    (Expr.constant v).render (n + 1) = .ok v.text ∧ (Expr.constant v).emit (n + 1) = .ok v.text ∧
      ((∃ l q p v', tokenize v.text = .ok [⟨l, q⟩, ⟨.finish, p⟩] ∧ l.literalKind? = some kind ∧
          parse depths v.text = .ok (.constant v') ∧ v'.SameValue v) ↔
        (∀ x, v = .float x → x.isInf = false) ∧ ∀ t, v = .string t → ∀ c ∈ t, c.val < 0x10000) := by
  have hdenotes := denotes_of_primary hkind h
  have hform := Literal.IsWritten.form ⟨_, hdenotes⟩
  have hv : v.kind? = some kind := hdenotes.literalKind?_eq.symm.trans hkind
  refine ⟨rfl, rfl, ?_⟩
  rw [← exists_reread_iff]
  constructor
  · rintro ⟨-, -, -, v', -, -, hparse, hsame⟩
    have hreread := Except.ok.inj (hform.parsed.symm.trans hparse)
    exact ⟨⟨v', hreread⟩, (sameValue_reread hreread).mp hsame⟩
  · rintro ⟨⟨v', hreread⟩, hplain⟩
    obtain ⟨l, q, p, hts, hl⟩ := hform.tokenized
    have hterminal := v.terminals_reread
    rw [hreread] at hterminal
    rw [← (List.cons.inj hterminal).1] at hl
    exact ⟨l, q, p, v', hts, hl.literalKind?_eq.trans ((kind?_reread hreread).trans hv),
      hform.parsed.trans (congrArg Except.ok hreread), (sameValue_reread hreread).mpr hplain⟩

/-- A float that is written as an integer, an infinite one, and a string whose last code point is
read as two. -/
theorem primary_read_back_kinds :
    (∃ x, Rule.primary (Rule.ofLevel 0 .assignment) .outermost [⟨.number "100e-1", 0⟩] =
        .ok (.constant (.float x), []) ∧
      (Literal.float x).text = lit "10" ∧
      ∃ l q p v', tokenize "10" = .ok [⟨l, q⟩, ⟨.finish, p⟩] ∧ l.literalKind? = some .number ∧
        parse .least "10" = .ok (.constant v') ∧ v'.SameValue (.float x)) ∧
    (∃ x, Rule.primary (Rule.ofLevel 0 .assignment) .outermost [⟨.number "1e999", 0⟩] =
        .ok (.constant (.float x), []) ∧
      (Literal.float x).text = lit "inf" ∧
      ¬ ∃ l q p v', tokenize "inf" = .ok [⟨l, q⟩, ⟨.finish, p⟩] ∧ l.literalKind? = some .number ∧
        parse .least "inf" = .ok (.constant v') ∧ v'.SameValue (.float x)) ∧
    (Literal.string "a😀").text = lit "\"a\\ud83d\\ude00\"" ∧
      ¬ ∃ l q p v', tokenize "\"a\\ud83d\\ude00\"" = .ok [⟨l, q⟩, ⟨.finish, p⟩] ∧
        l.literalKind? = some .string ∧ parse .least "\"a\\ud83d\\ude00\"" = .ok (.constant v') ∧
        v'.SameValue (.string "a😀") := by
  refine ⟨⟨(Text.decimalFloat? "100e-1").getD 0.0, rfl, by decide +kernel, ?_⟩,
    ⟨(Text.decimalFloat? "1e999").getD 0.0, rfl, by decide +kernel, ?_⟩, by decide +kernel, ?_⟩
  · have htext : (Literal.float ((Text.decimalFloat? "100e-1").getD 0.0)).text = lit "10" := by
      decide +kernel
    have hfinite : ((Text.decimalFloat? "100e-1").getD 0.0).isInf = false := by decide +kernel
    have hread := (@primary_read_back (.float ((Text.decimalFloat? "100e-1").getD 0.0)) .least
      (Rule.ofLevel 0 .assignment) .outermost ⟨.number "100e-1", 0⟩ [] [] .number rfl rfl 0).2.2
    rw [htext] at hread
    exact hread.mpr ⟨fun y hy => Literal.float.inj hy ▸ hfinite, nofun⟩
  · have htext : (Literal.float ((Text.decimalFloat? "1e999").getD 0.0)).text = lit "inf" := by
      decide +kernel
    have hinfinite : ((Text.decimalFloat? "1e999").getD 0.0).isInf = true := by decide +kernel
    have hread := (@primary_read_back (.float ((Text.decimalFloat? "1e999").getD 0.0)) .least
      (Rule.ofLevel 0 .assignment) .outermost ⟨.number "1e999", 0⟩ [] [] .number rfl rfl 0).2.2
    rw [htext] at hread
    exact fun h => Bool.noConfusion (hinfinite.symm.trans ((hread.mp h).1 _ rfl))
  · have htext : (Literal.string "a😀").text = lit "\"a\\ud83d\\ude00\"" := by
      decide +kernel
    have hread := (@primary_read_back (.string "a😀") .least (Rule.ofLevel 0 .assignment) .outermost
      ⟨.string "a😀", 0⟩ [] [] .string rfl rfl 0).2.2
    rw [htext] at hread
    intro h
    have hall := (hread.mp h).2 _ rfl (.scalar '😀') (by decide)
    exact absurd hall (by decide)

end MetricBridge.Formula
