import MetricBridge.Proofs.Formula.Displaying
import MetricBridge.Proofs.Formula.Faithful
import MetricBridge.Proofs.Formula.Layout
import MetricBridge.Proofs.Formula.Translating

namespace MetricBridge.Formula

variable {depth : Nat} {ts : List Token} {e : Expr} {text : Text} {depths : Depths}

/-- A number that takes in a dot leaves at least one symbol without a lexeme. -/
theorem Matches.length_content {ls : List Lexeme} {ms : List Terminal} (h : Matches ls ms) :
    (ls.filter Lexeme.isContent).length + (ls.any Lexeme.isPointed).toNat ≤
      (ms.filter (!·.isSemicolon)).length := by
  induction h with
  | nil => exact Nat.le_refl 0
  | cons hl hp _ ih =>
      rw [List.any_cons, hp, Bool.false_or, List.filter_cons, List.filter_cons, hl.isContent_eq]
      split
      · rw [List.length_cons, List.length_cons]
        omega
      · exact ih
  | @swallowed l us ls v name ms hp hus _ ih =>
      have hl : l.isContent = true := by
        cases l <;> first | rfl | cases hp
      have hrest : ((us ++ ls).filter Lexeme.isContent).length ≤
          (ls.filter Lexeme.isContent).length + 1 := by
        rcases hus with rfl | ⟨more, rfl⟩
        · exact Nat.le_succ _
        · exact Nat.le_refl _
      have hms : ((.number v :: .mark .dot :: .name name :: ms).filter (!·.isSemicolon)).length =
          (ms.filter (!·.isSemicolon)).length + 3 := rfl
      rw [List.any_cons, hp, Bool.true_or, List.filter_cons_of_pos hl, List.length_cons, hms,
        Bool.toNat_true]
      omega

theorem Terminal.isSemicolon_reparsed (m : Terminal) : m.reparsed.isSemicolon = m.isSemicolon := by
  cases m with
  | number v =>
      rcases Expr.reread_cases v with ⟨v', hv⟩ | ⟨name, hv⟩
      · rw [reparsed, hv]
        cases v' with
        | bool b => cases b <;> rfl
        | _ => rfl
      · rw [reparsed, hv]
        rfl
  | _ => rfl

theorem Writes.namesWritten (h : Writes depth ts e)
    (hts : ∀ u ∈ ts, ∀ name, u.lexeme = .name name → IsName name) :
    Expr.NamesWritten e.terminals := by
  intro name hname
  have hcontent : .name name ∈ e.content := List.mem_filter.mpr ⟨hname, rfl⟩
  obtain ⟨i, hi, hget⟩ := List.mem_iff_getElem.mp hcontent
  have hlength := h.content.length_eq
  have hdenotes := (List.forall₂_iff_get.mp h.content).2 i (hlength ▸ hi) hi
  rw [List.get_eq_getElem, List.get_eq_getElem, hget] at hdenotes
  have hmem := (List.mem_filter.mp (List.getElem_mem (hlength ▸ hi))).1
  rw [hdenotes.of_name] at hmem
  obtain ⟨u, hu, hlexeme⟩ := List.mem_map.mp hmem
  exact hts u hu name hlexeme

namespace Expr.IsFormula

theorem displays (h : e.IsFormula depth) (hnames : NamesWritten e.terminals) :
    Displays Closed e.written e.reparsed.terminals e.fuses := by
  cases h with
  | statement h => exact h.displays.closed hnames
  | block _ h =>
      rw [written, reparsed, terminals, writtenAll_eq_map, reparsedAll_eq_map, pieces_eq_map,
        List.map_map, fuses_node rfl]
      exact .joined .semicolon (fun _ => .cons (by decide)) fun e he =>
        (h e he).displays.closed (hnames.part fun m hm => mem_markedBy (mem_pieces he) hm)

theorem terminals_reparsed (h : e.IsFormula depth) :
    e.reparsed.terminals = e.terminals.map Terminal.reparsed := by
  cases h with
  | statement h => exact h.terminals_reparsed
  | block _ h =>
      rw [reparsed, terminals, terminals, pieces_reparsed fun e he => (h e he).terminals_reparsed,
        map_markedBy]

theorem length_content (h : e.IsFormula depth) : e.reparsed.content.length = e.content.length := by
  rw [content, content, h.terminals_reparsed, List.filter_map, List.length_map]
  congr 2
  funext m
  exact congrArg (!·) m.isSemicolon_reparsed

end Expr.IsFormula

variable {n : Nat} {s : Text} {e' : Expr} {es : List Expr} {ls : List Lexeme}

/-- The text of the tree of a formula is scanned as the tree that it is read as. -/
theorem displays_of_parse (h : parse depths text = .ok e) :
    Displays Closed e.written e.reparsed.terminals e.fuses := by
  obtain ⟨body, p, hts, hwrites⟩ := parse_reads h
  exact hwrites.isFormula.displays (hwrites.namesWritten fun u hu =>
    isName_of_scanFrom hts u (List.mem_append_left _ hu))

theorem matches_of_parse (h : parse depths text = .ok e) (hscans : Scans e.written ls []) :
    Matches ls e.reparsed.terminals ∧ ls.any Lexeme.isPointed = e.fuses := by
  obtain ⟨ls', hls', hfuses, hscans'⟩ := displays_of_parse h
  have hwhole := hscans' [] .nil
  rw [List.append_nil] at hwhole
  obtain ⟨more, rfl, hnil⟩ := hwhole.cut hscans
  cases hnil
  rw [List.append_nil]
  exact ⟨hls', hfuses⟩

theorem map_lexeme (ls : List Lexeme) : (ls.map (⟨·, 0⟩)).map Token.lexeme = ls := by
  simp [Function.comp_def]

/-- A formula that is written as it stands has no number that takes in a dot. -/
theorem fuses_of_parse_written (h : parse depths e.written = .ok e) : e.fuses = false := by
  obtain ⟨ls, hscans⟩ := scans_of_parse h
  obtain ⟨hmatches, hfuses⟩ := matches_of_parse h hscans
  have hwrites := (parse_iff hscans).mp h
  have hcontent := hwrites.content.length_eq
  rw [map_lexeme, ← hwrites.isFormula.length_content] at hcontent
  have hlength := hmatches.length_content
  rw [hfuses, hcontent, Expr.content] at hlength
  cases hb : e.fuses with
  | false => rfl
  | true =>
      rw [hb, Bool.toNat_true] at hlength
      omega

theorem Expr.Regular.render_succ (hregular : e.Regular) (h : e.render n = .ok s) :
    e.render (n + 1) = .ok s := by
  rcases hregular.settles n with ⟨hdeep, -⟩ | ⟨t, ht⟩
  · cases h.symm.trans hdeep
  · exact (ht (n + 1) (Nat.le_succ n)).trans ((ht n (Nat.le_refl n)).symm.trans h)

theorem render_single (hregular : e.Regular) (h : (Expr.block [e]).render n = .ok s) :
    e.render n = .ok s := by
  cases n with
  | zero => cases h
  | succ n =>
      obtain ⟨parts, hparts, hs⟩ := bind_eq_ok.mp h
      have hstatements := forall₂_of_mapM hparts
      cases hstatements with
      | cons ht hnil =>
          cases hnil
          cases pure_eq_ok.mp hs
          exact hregular.render_succ ht

/-- A text without a number that takes in a dot is parsed as the tree that it is read as. A block of
one statement becomes the statement. -/
theorem parse_written (h : parse depths text = .ok e) (hs : e.render n = .ok s) (hfuses : e.fuses = false) :
    ∃ e', parse depths s = .ok e' ∧ e'.render n = .ok s := by
  have hdisplays := displays_of_parse h
  rw [hfuses] at hdisplays
  obtain ⟨ls, hls, hscans⟩ := hdisplays.denotes
  have hscan := hscans [] .nil
  rw [List.append_nil, ← Expr.written_of_render hs] at hscan
  have hspells : Spells 0 (ls.map (⟨·, 0⟩)) e.reparsed.terminals :=
    .of_forall₂ ((map_lexeme ls).symm ▸ hls)
  have hread : e.reparsed.IsProper depths.rules → ∃ e', parse depths s = .ok e' ∧ e'.render n = .ok s :=
    fun hproper => ⟨e.reparsed, (parse_iff hscan).mpr (hproper.writes hspells),
      (Expr.render_reparsed n e).trans hs⟩
  obtain ⟨body, p, -, hwrites⟩ := parse_reads h
  cases hwrites.isFormula with
  | statement hfits => exact hread (.statement hfits.reparsed)
  | @block es hne hfits =>
      match es, hne with
      | [e], _ =>
          have he := hfits e List.mem_cons_self
          refine ⟨e.reparsed, (parse_iff hscan).mpr (.statement he.reparsed ?_),
            (Expr.render_reparsed n e).trans (render_single he.regular hs)⟩
          simpa [Expr.reparsed, Expr.reparsedAll, Expr.terminals, Expr.pieces] using hspells
      | a :: b :: es, _ =>
          refine hread (.block ?_ (Expr.forall_reparsedAll fun e he => (hfits e he).reparsed))
          rw [Expr.reparsedAll_eq_map, List.length_map]
          exact Nat.le_add_left 2 es.length

/-- Writing the tree of a formula and parsing the text gives a tree with the same text, except where
a member of a number in digits alone is written: its dot goes to the number. -/
theorem parse_render (h : parse depths text = .ok e) (n : Nat) :
    (e.render n = .error .tooDeep ∧ n < e.height) ∨ ∃ s, e.render n = .ok s ∧
      ((∃ e', parse depths s = .ok e' ∧ e'.render n = .ok s) ↔ ∀ node ∈ e.walk, node.isFused = false) := by
  obtain ⟨body, p, -, hwrites⟩ := parse_reads h
  rcases hwrites.isFormula.regular.settles n with hdeep | ⟨s, hs⟩
  · exact .inl hdeep
  · have hs := hs n (Nat.le_refl n)
    have hfuses : (∀ node ∈ e.walk, node.isFused = false) ↔ e.fuses = false := by
      simp [Expr.fuses]
    refine .inr ⟨s, hs, ?_⟩
    rw [hfuses]
    constructor
    · rintro ⟨e', he', hs'⟩
      have hwritten := Expr.written_of_render hs
      have hwritten' := Expr.written_of_render hs'
      obtain ⟨ls, hscans⟩ := scans_of_parse he'
      have hfuses := (matches_of_parse h (hwritten ▸ hscans)).2
      rw [← hfuses, (matches_of_parse he' (hwritten' ▸ hscans)).2]
      exact fuses_of_parse_written (hwritten' ▸ he')
    · exact parse_written h hs

/-- Members, an index and an object in two statements; and a member of an integer. -/
theorem parse_render_members :
    (∃ e e', parse .least "a[1].b ? \x7bk: -c!\x7d : d; 2.5.e" = .ok e ∧
      e.render Depths.least.nodes = .ok "a[1].b ? \x7b\"k\": -c!\x7d : d; 2.5.e" ∧
      parse .least "a[1].b ? \x7b\"k\": -c!\x7d : d; 2.5.e" = .ok e' ∧
      e'.render Depths.least.nodes = .ok "a[1].b ? \x7b\"k\": -c!\x7d : d; 2.5.e") ∧
    ∃ e, parse .least "1 .b" = .ok e ∧ e.render Depths.least.nodes = .ok "1.b" ∧
      ¬ ∃ e', parse .least "1.b" = .ok e' ∧ e'.render Depths.least.nodes = .ok "1.b" := by
  constructor
  · have hrender : (parse .least "a[1].b ? \x7bk: -c!\x7d : d; 2.5.e").map
        (fun e => (e.render Depths.least.nodes, e.walk.any Expr.isFused)) =
          .ok (.ok "a[1].b ? \x7b\"k\": -c!\x7d : d; 2.5.e", false) := by
      decide +kernel
    obtain ⟨e, he, hpair⟩ := map_eq_ok hrender
    obtain ⟨hs, hfused⟩ := Prod.mk.inj hpair
    rcases parse_render he Depths.least.nodes with ⟨hdeep, -⟩ | ⟨s, hs', hiff⟩
    · cases hdeep.symm.trans hs
    · cases hs.symm.trans hs'
      obtain ⟨e', he', hrender'⟩ := hiff.mpr (by simpa using hfused)
      exact ⟨e, e', he, hs, he', hrender'⟩
  · have hrender : (parse .least "1 .b").map
        (fun e => (e.render Depths.least.nodes, e.walk.any Expr.isFused)) = .ok (.ok "1.b", true) := by
      decide +kernel
    obtain ⟨e, he, hpair⟩ := map_eq_ok hrender
    obtain ⟨hs, hfused⟩ := Prod.mk.inj hpair
    rcases parse_render he Depths.least.nodes with ⟨hdeep, -⟩ | ⟨s, hs', hiff⟩
    · cases hdeep.symm.trans hs
    · cases hs.symm.trans hs'
      refine ⟨e, he, hs, fun hback => ?_⟩
      obtain ⟨node, hnode, hnodeFused⟩ := List.any_eq_true.mp hfused
      exact Bool.false_ne_true ((hiff.mp hback node hnode).symm.trans hnodeFused)

end MetricBridge.Formula
