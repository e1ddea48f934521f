import MetricBridge.Proofs.Formula.Completeness
import MetricBridge.Proofs.Formula.Depth
import MetricBridge.Proofs.Formula.ReadBack
import MetricBridge.Proofs.Formula.Soundness

namespace MetricBridge.Formula

open Text (ofFloat)

variable {t rest : Text} {ts : List Token} {fuel position n : Nat} {e tree : Expr}
  {depths : Depths}

theorem isName_of_scanLexeme {c : CodePoint} {name : Text}
    (h : scanLexeme position (c :: t) = .ok (.name name, rest)) : IsName name := by
  unfold scanLexeme at h
  dsimp only at h
  split at h
  · split at h <;> cases h
  · split at h
    · split at h <;> cases h
    · split at h
      · rename_i hc
        cases h
        have hpart : isNamePart c = true := by rw [isNamePart, hc, Bool.true_or]
        refine ⟨⟨c, t.takeWhile isNamePart, List.takeWhile_cons_of_pos hpart, hc⟩, fun d hd => ?_⟩
        exact List.all_eq_true.mp List.all_takeWhile d hd
      · split at h <;> cases h

theorem isName_of_scanFrom (h : scanFrom fuel position t = .ok ts) :
    ∀ u ∈ ts, ∀ name, u.lexeme = .name name → IsName name := by
  induction fuel generalizing position t ts with
  | zero =>
      cases h
      exact List.forall_mem_singleton.mpr nofun
  | succ fuel ih =>
      unfold scanFrom at h
      split at h
      · cases h
        exact List.forall_mem_singleton.mpr nofun
      · split at h
        · obtain ⟨us, hus, rfl⟩ := map_eq_ok h
          exact List.forall_mem_cons.mpr ⟨nofun, ih hus⟩
        · split at h
          · exact ih h
          · split at h
            · cases h
            · rename_i l rest hl
              obtain ⟨us, hus, rfl⟩ := map_eq_ok h
              refine List.forall_mem_cons.mpr ⟨?_, ih hus⟩
              rintro name rfl
              exact isName_of_scanLexeme hl

theorem Spells.denoted {ms : List Terminal} {m : Terminal} (h : Spells n ts ms) (hm : m ∈ ms) :
    ∃ u ∈ ts, u.lexeme.Denotes m := by
  induction h with
  | nil => cases hm
  | feed _ _ _ ih =>
      obtain ⟨u, hu, hdenotes⟩ := ih hm
      exact ⟨u, List.mem_cons_of_mem _ hu, hdenotes⟩
  | cons ht _ ih =>
      rcases List.mem_cons.mp hm with rfl | hm
      · exact ⟨_, List.mem_cons_self, ht⟩
      · obtain ⟨u, hu, hdenotes⟩ := ih hm
        exact ⟨u, List.mem_cons_of_mem _ hu, hdenotes⟩

theorem parse_of_shows {depth : Nat} (hshows : Shows Closed t e.terminals)
    (hfits : e.Fits depth .assignment false) : ∃ ts, tokenize t = .ok ts ∧
      ∀ depth', depth ≤ depth' → parseTokens depth' ts = .ok e := by
  obtain ⟨ls, hls, hscans⟩ := hshows.denotes
  have hscan := hscans [] .nil
  rw [List.append_nil] at hscan
  obtain ⟨body, p, hts, hbody⟩ := hscan.scanFrom 0 rfl (Nat.lt_succ_self t.length)
  subst hbody
  have hspells : Spells 0 body e.terminals := .of_forall₂ hls
  exact ⟨_, hts, fun depth' hd =>
    (parseTokens_eq_ok_iff hspells.ne_finish).mpr (.statement (hfits.mono hd) hspells)⟩

/-- The translation of a formula without accessors is parsed as the calculated tree of the formula,
constants and symbols compared by their texts, whatever depth suffices for it. Floats are read back
from what is written by assumption. -/
theorem translate_faithful {formula text : Text} {metrics : List Text}
    (h : translate depths formula = .ok ⟨some text, metrics⟩) (htree : parse depths formula = .ok tree)
    (hflat : ∀ base subscript, .accessor base subscript ∉ tree.walk)
    (hfloats : ∀ x, .constant (.float x) ∈ tree.walk → x.isInf = false →
      Text.decimalFloat? (ofFloat x) = some x) :
    ∃ ts tree', tokenize text = .ok ts ∧ tree'.byText = tree.calculated.byText ∧
      (∃ depth, ∀ depth', depth ≤ depth' → parseTokens depth' ts = .ok tree') ∧
      (parse depths text = .ok tree' ∨ parse depths text = .error .tooDeep) := by
  obtain ⟨body, p, hts, hwrites⟩ := parse_reads htree
  have hemit : tree.emit depths.nodes = .ok text := by
    unfold translate at h
    rw [htree] at h
    split at h
    · cases h
    · dsimp only at h
      split at h
      · cases h
      · rename_i hemit
        cases h
        exact hemit
  cases hwrites with
  | block => cases Expr.isEmitted_of_emit hemit
  | statement hfits hspells =>
      have hnames : Expr.NamesWritten tree.terminals := by
        intro name hname
        obtain ⟨u, hu, hdenotes⟩ := hspells.denoted hname
        exact isName_of_scanFrom hts u (List.mem_append_left _ hu) name hdenotes.of_name
      obtain ⟨hshows, depth, hdepth⟩ := hfits.translates ⟨hflat, hfloats⟩ hnames hemit
      obtain ⟨ts, htext, hparse⟩ := parse_of_shows hshows hdepth
      refine ⟨ts, tree.readBack, htext, tree.calculated.byText_reread, ⟨depth, hparse⟩, ?_⟩
      unfold parse
      rw [htext]
      rcases parseTokens_cut (Nat.le_max_left depths.rules depth) ts with hdeep | hsame
      · exact .inr hdeep
      · exact .inl (hsame.trans (hparse _ (Nat.le_max_right depths.rules depth)))

/-- A conditional with a function, a float, a sign at a factorial and a chain of comparisons. -/
theorem translate_faithful_conditional : ∃ tree ts tree',
    parse .least "$a ? min(2.5, -b!) : 1 < c < 3" = .ok tree ∧
    translate .least "$a ? min(2.5, -b!) : 1 < c < 3" =
      .ok ⟨some "IF($a, NARY_MIN(2.5, -b!), 1 < c < 3)", ["a"]⟩ ∧
    tokenize "IF($a, NARY_MIN(2.5, -b!), 1 < c < 3)" = .ok ts ∧
    tree'.byText = tree.calculated.byText ∧
    (∃ depth, ∀ depth', depth ≤ depth' → parseTokens depth' ts = .ok tree') ∧
    (parse .least "IF($a, NARY_MIN(2.5, -b!), 1 < c < 3)" = .ok tree' ∨
      parse .least "IF($a, NARY_MIN(2.5, -b!), 1 < c < 3)" = .error .tooDeep) := by
  have htranslate : translate .least "$a ? min(2.5, -b!) : 1 < c < 3" =
      .ok ⟨some "IF($a, NARY_MIN(2.5, -b!), 1 < c < 3)", ["a"]⟩ := by
    decide +kernel
  have hplain : (parse .least "$a ? min(2.5, -b!) : 1 < c < 3").toOption.any
      (fun tree => tree.walk.all fun
        | .accessor .. => false
        | .constant (.float x) => x.isInf || decide (Text.decimalFloat? (ofFloat x) = some x)
        | _ => true) = true := by
    decide +kernel
  cases htree : parse .least "$a ? min(2.5, -b!) : 1 < c < 3" with
  | error => rw [htree] at hplain; cases hplain
  | ok tree =>
      rw [htree] at hplain
      have hnodes := List.all_eq_true.mp hplain
      obtain ⟨ts, tree', hfaithful⟩ := translate_faithful htranslate htree
        (fun base subscript hmem => nomatch hnodes _ hmem)
        (fun x hmem hinf => by simpa [hinf] using hnodes _ hmem)
      exact ⟨tree, ts, tree', rfl, htranslate, hfaithful⟩

end MetricBridge.Formula
