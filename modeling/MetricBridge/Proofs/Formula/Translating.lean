import MetricBridge.Problem.Faults
import MetricBridge.Proofs.Formula.Offenders
import MetricBridge.Proofs.Formula.Soundness
import MetricBridge.Proofs.Formula.Starting
import Mathlib.Data.List.TakeWhile

namespace MetricBridge.Formula

variable {t formula : Text} {ts : List Token} {e tree : Expr} {es : List Expr} {depth : Nat}
  {depths : Depths}

theorem Expr.IsFormula.regular (h : e.IsFormula depth) : e.Regular := by
  cases h with
  | statement hfits => exact hfits.regular
  | block _ hfits => exact .block fun s hs => (hfits s hs).regular

theorem Expr.Fits.exists_mem {level : Level} {awaits : Bool} (h : e.Fits depth level awaits) :
    ∃ m ∈ e.terminals, m.isSemicolon = false := by
  obtain ⟨m, ms, hms, hm⟩ := h.begun
  refine ⟨m, hms ▸ List.mem_cons_self, ?_⟩
  cases m with
  | mark d => rcases hm with rfl | rfl | rfl <;> rfl
  | _ => rfl

theorem Expr.IsFormula.content_ne_nil (h : e.IsFormula depth) : e.content ≠ [] := by
  have hmem : ∃ m ∈ e.terminals, m.isSemicolon = false := by
    cases h with
    | statement hfits => exact hfits.exists_mem
    | @block es hne hfits =>
        cases es with
        | nil => exact absurd rfl hne
        | cons s es =>
            obtain ⟨m, hm, hsemicolon⟩ := (hfits s List.mem_cons_self).exists_mem
            refine ⟨m, ?_, hsemicolon⟩
            rw [terminals, pieces, markedBy_cons]
            exact List.mem_append_left _ hm
  obtain ⟨m, hm, hsemicolon⟩ := hmem
  exact List.ne_nil_of_mem (List.mem_filter.mpr ⟨hm, by rw [hsemicolon]; rfl⟩)

theorem scanFrom_blank {fuel position : Nat} (ht : ∀ c ∈ t, c.isBlank = true)
    (h : scanFrom fuel position t = .ok ts) : ∀ u ∈ ts, u.lexeme.isContent = false := by
  induction fuel generalizing position t ts with
  | zero =>
      cases h
      exact List.forall_mem_singleton.mpr rfl
  | succ fuel ih =>
      unfold scanFrom at h
      split at h
      · cases h
        exact List.forall_mem_singleton.mpr rfl
      · obtain ⟨hc, hrest⟩ := List.forall_mem_cons.mp ht
        split at h
        · obtain ⟨us, hus, rfl⟩ := map_eq_ok h
          exact List.forall_mem_cons.mpr ⟨rfl, ih hrest hus⟩
        · exact ih hrest h

theorem blank_of_trim (h : t.trim.isEmpty = true) : ∀ c ∈ t, c.isBlank = true := by
  have hnil : ((t.dropWhile CodePoint.isBlank).reverse.dropWhile CodePoint.isBlank).reverse = [] :=
    List.isEmpty_iff.mp h
  rw [List.reverse_eq_nil_iff, List.dropWhile_eq_nil_iff] at hnil
  intro c hc
  rw [← List.takeWhile_append_dropWhile (p := CodePoint.isBlank) (l := t)] at hc
  rcases List.mem_append.mp hc with hc | hc
  · exact List.all_eq_true.mp List.all_takeWhile c hc
  · exact hnil c (List.mem_reverse.mpr hc)

theorem trim_of_parse (h : parse depths t = .ok e) : t.trim.isEmpty = false := by
  by_contra hblank
  obtain ⟨body, p, hts, hwrites⟩ := parse_reads h
  have hcontent := hwrites.content
  have hnone := scanFrom_blank (blank_of_trim (by simpa using hblank)) hts
  have hempty : (body.map Token.lexeme).filter Lexeme.isContent = [] := by
    simp_all
  rw [hempty, List.forall₂_nil_left_iff] at hcontent
  exact hwrites.isFormula.content_ne_nil hcontent

theorem translate_of_parse (h : parse depths formula = .ok tree) :
    translate depths formula = match tree.emit depths.nodes with
      | .error fault => .error (.unemitted fault)
      | .ok text => .ok ⟨some text, tree.metrics⟩ := by
  unfold translate
  rw [trim_of_parse h, h]
  rfl

/-- A formula that is not nested too deeply is translated if no node outside of accessors is an
offender. Otherwise the problem names the formula and the first offender. -/
theorem translate_offenders (htree : parse depths formula = .ok tree) :
    (translate depths formula = .error (.unemitted (.unrendered .tooDeep)) ∧ depths.nodes ≤ tree.height) ∨
    (((translate depths formula).isOk = true ↔ ∀ e ∈ tree.outside, ¬ e.IsOffender) ∧
      ∀ fault, translate depths formula = .error fault → ∃ offender r,
        Expr.IsFirstOffender tree.outside offender ∧ fault = .unemitted (.refused r) ∧
        r.kind = offender.kind? ∧
        (∀ depth, depths.nodes ≤ depth → offender.render depth = .ok r.text) ∧
        fault.problem? formula =
          some (unsupported (some formula) r.kind (some r.text) r.message)) := by
  obtain ⟨body, p, -, hwrites⟩ := parse_reads htree
  have htranslate := translate_of_parse htree
  have hends := hwrites.isFormula.regular.ends depths.nodes
  generalize tree.emit depths.nodes = emission at htranslate hends
  cases hends with
  | tooDeep hlt => exact .inl ⟨htranslate, Nat.le_of_lt_succ hlt⟩
  | emitted hnone =>
      rw [htranslate]
      exact .inr ⟨⟨fun _ => hnone, fun _ => rfl⟩, nofun⟩
  | @refused e refusal text he ht =>
      rw [htranslate]
      refine .inr ⟨⟨nofun, fun hnone => ?_⟩, ?_⟩
      · obtain ⟨before, after, hnodes, -, hoffender⟩ := he
        exact absurd hoffender (hnone e (by rw [hnodes]; simp))
      · rintro fault ⟨⟩
        exact ⟨e, _, he, rfl, rfl, ht, rfl⟩

/-- A supported function of a goal's column, and an unknown function of arrays before another
array. -/
theorem translate_offenders_function :
    (∃ tree, parse .least "abs($goals[\"idgoal=1\"].revenue) - 1" = .ok tree ∧
      translate .least "abs($goals[\"idgoal=1\"].revenue) - 1" =
        .ok ⟨some "ABS($goals_1_revenue) - 1", []⟩ ∧
      ∀ e ∈ tree.outside, ¬ e.IsOffender) ∧
    ∃ tree offender, parse .least "abs($goals[\"idgoal=1\"].revenue) - f([1], 2) * [3]" = .ok tree ∧
      translate .least "abs($goals[\"idgoal=1\"].revenue) - f([1], 2) * [3]" =
        .error (.unemitted (.refused ⟨.function "f", some "function call", "f([1], 2)"⟩)) ∧
      Expr.IsFirstOffender tree.outside offender ∧ offender.kind? = some (lit "function call") ∧
      offender.render Depths.least.nodes = .ok "f([1], 2)" := by
  constructor
  · have htranslate : translate .least "abs($goals[\"idgoal=1\"].revenue) - 1" =
        .ok ⟨some "ABS($goals_1_revenue) - 1", []⟩ := by
      decide +kernel
    have hparse : (parse .least "abs($goals[\"idgoal=1\"].revenue) - 1").isOk = true := by decide +kernel
    obtain ⟨tree, htree⟩ := exists_eq_ok hparse
    refine ⟨tree, htree, htranslate, ?_⟩
    have hoffenders := translate_offenders htree
    rw [htranslate] at hoffenders
    rcases hoffenders with ⟨hdeep, -⟩ | ⟨hiff, -⟩
    · cases hdeep
    · exact hiff.mp rfl
  · have htranslate : translate .least "abs($goals[\"idgoal=1\"].revenue) - f([1], 2) * [3]" =
        .error (.unemitted (.refused ⟨.function "f", some "function call", "f([1], 2)"⟩)) := by
      decide +kernel
    have hparse : (parse .least "abs($goals[\"idgoal=1\"].revenue) - f([1], 2) * [3]").isOk = true := by
      decide +kernel
    obtain ⟨tree, htree⟩ := exists_eq_ok hparse
    have hoffenders := translate_offenders htree
    rw [htranslate] at hoffenders
    rcases hoffenders with ⟨hdeep, -⟩ | ⟨-, hnames⟩
    · cases hdeep
    · obtain ⟨offender, r, hfirst, hr, hkind, htext, -⟩ := hnames _ rfl
      cases hr
      exact ⟨tree, offender, htree, htranslate, hfirst, hkind.symm, htext _ (Nat.le_refl _)⟩

end MetricBridge.Formula
