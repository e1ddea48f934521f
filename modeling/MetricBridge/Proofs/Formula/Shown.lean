import MetricBridge.Formula.CalculatedField
import MetricBridge.Proofs.Formula.Grammatical
import MetricBridge.Proofs.Formula.Splitting
import Mathlib.Data.List.Forall2

namespace MetricBridge.Formula

def Lexeme.isPointed : Lexeme → Bool
  | number literal => match literal.dropWhile (· ≠ .scalar '.') with
    | _ :: t => !t.head?.any CodePoint.isDecimal
    | [] => false
  | _ => false

/-- The lexemes stand for the symbols one by one, except where a number takes in a point that belongs
to the name behind it, with the front of the name or all of it as an exponent. -/
inductive Matches : List Lexeme → List Terminal → Prop
  | nil : Matches [] []
  | cons {l ls m ms} (hl : l.Denotes m) (hp : l.isPointed = false) (h : Matches ls ms) :
      Matches (l :: ls) (m :: ms)
  | swallowed {l us ls v name ms} (hp : l.isPointed = true)
      (hus : us = [] ∨ ∃ more, us = [.name more]) (h : Matches ls ms) :
      Matches (l :: (us ++ ls)) (.number v :: .mark .dot :: .name name :: ms)

namespace Matches

variable {ls ls' : List Lexeme} {ms ms' : List Terminal}

theorem append (h : Matches ls ms) (h' : Matches ls' ms') : Matches (ls ++ ls') (ms ++ ms') := by
  induction h with
  | nil => exact h'
  | cons hl hp _ ih => exact .cons hl hp ih
  | swallowed hp hus _ ih =>
      rw [List.cons_append, List.append_assoc]
      exact .swallowed hp hus ih

theorem denotes (h : Matches ls ms) (hp : ls.any Lexeme.isPointed = false) :
    List.Forall₂ Lexeme.Denotes ls ms := by
  induction h with
  | nil => exact .nil
  | cons hl hl' _ ih =>
      rw [List.any_cons, hl', Bool.false_or] at hp
      exact .cons hl (ih hp)
  | swallowed hl =>
      rw [List.any_cons, hl] at hp
      cases hp

end Matches

/-- In front of every text with the property, the text is scanned as lexemes that match the symbols.
The flag says whether one of them is a number that takes in a point. -/
def Displays (p : Text → Prop) (t : Text) (ms : List Terminal) (pointed : Bool) : Prop :=
  ∃ ls, Matches ls ms ∧ ls.any Lexeme.isPointed = pointed ∧
    ∀ rest, p rest → Scans (t ++ rest) ls rest

abbrev Shows (p : Text → Prop) (t : Text) (ms : List Terminal) : Prop := Displays p t ms false

def Whatever (_ : Text) : Prop := True

namespace Displays

variable {p q : Text → Prop} {t t' : Text} {m : Terminal} {ms ms' : List Terminal} {l : Lexeme}
  {b b' : Bool}

theorem append (h : Displays p t ms b) (h' : Displays q t' ms' b')
    (hp : ∀ rest, q rest → p (t' ++ rest)) : Displays q (t ++ t') (ms ++ ms') (b || b') := by
  obtain ⟨ls, hls, hb, hscans⟩ := h
  obtain ⟨ls', hls', hb', hscans'⟩ := h'
  refine ⟨ls ++ ls', hls.append hls', by rw [List.any_append, hb, hb'], fun rest hrest => ?_⟩
  rw [List.append_assoc]
  exact (hscans _ (hp rest hrest)).trans (hscans' rest hrest)

theorem opening (h : Shows Whatever t ms) (h' : Displays q t' ms' b) :
    Displays q (t ++ t') (ms ++ ms') b :=
  h.append h' fun _ _ => trivial

theorem denotes (h : Shows p t ms) : ∃ ls, List.Forall₂ Lexeme.Denotes ls ms ∧
    ∀ rest, p rest → Scans (t ++ rest) ls rest := by
  obtain ⟨ls, hls, hb, hscans⟩ := h
  exact ⟨ls, hls.denotes hb, hscans⟩

theorem mono (h : Displays p t ms b) (hq : ∀ rest, q rest → p rest) : Displays q t ms b := by
  obtain ⟨ls, hls, hb, hscans⟩ := h
  exact ⟨ls, hls, hb, fun rest hrest => hscans rest (hq rest hrest)⟩

theorem single {c : CodePoint} (hl : l.Denotes m) (hpoint : l.isPointed = false)
    (hc : c.isBlank = false)
    (h : ∀ rest, p rest → ∀ position, scanLexeme position (c :: t ++ rest) = .ok (l, rest)) :
    Shows p (c :: t) [m] := by
  refine ⟨[l], .cons hl hpoint .nil, ?_, fun rest hrest => .lexeme hc (h rest hrest) (.stop rest)⟩
  rw [List.any_cons, hpoint, List.any_nil, Bool.or_false]

theorem blankBefore (h : Displays p t ms b) : Displays p (.scalar ' ' :: t) ms b := by
  obtain ⟨ls, hls, hb, hscans⟩ := h
  exact ⟨ls, hls, hb, fun rest hrest => .blank rfl nofun (hscans rest hrest)⟩

theorem blankBehind (h : Displays p t ms b) (hp : ∀ rest, p (.scalar ' ' :: rest)) :
    Displays Whatever (t ++ [.scalar ' ']) ms b := by
  obtain ⟨ls, hls, hb, hscans⟩ := h
  refine ⟨ls, hls, hb, fun rest _ => ?_⟩
  have hrest := (hscans (.scalar ' ' :: rest) (hp rest)).trans (.blank rfl nofun (.stop rest))
  rwa [List.append_nil, ← List.singleton_append, ← List.append_assoc] at hrest

theorem name (h : IsName t) (hl : (Lexeme.name t).Denotes m)
    (hp : ∀ rest, p rest → ∀ c u, rest = c :: u → isNamePart c = false) : Shows p t [m] := by
  obtain ⟨c, u, rfl, hc⟩ := h.1
  obtain ⟨-, -, -, -, hblank⟩ := isNameStart_facts hc
  exact single hl rfl hblank fun rest hrest _ => scanLexeme_name h (hp rest hrest)

theorem delimiter {d : Delimiter} (hd : d ≠ .dot) (hl : (Lexeme.delimiter d).Denotes m)
    (hp : ∀ rest, p rest → Delimiter.first? (d.spelling ++ rest) = some d) :
    Shows p d.spelling [m] := by
  obtain ⟨c, u, hspelling, -, -, -, hblank, -⟩ := Delimiter.spelling_cons hd
  have hscan : ∀ rest, p rest → ∀ position,
      scanLexeme position (d.spelling ++ rest) = .ok (.delimiter d, rest) :=
    fun rest hrest _ => scanLexeme_delimiter hd (hp rest hrest)
  rw [hspelling] at hscan ⊢
  exact single hl rfl hblank hscan

theorem nil : Shows p [] [] := ⟨[], .nil, rfl, fun rest _ => .stop rest⟩

theorem mark {d : Delimiter} (hd : d ≠ .dot)
    (hfirst : ∀ rest, Delimiter.first? (d.spelling ++ rest) = some d) :
    Shows Whatever d.spelling [.mark d] :=
  delimiter hd (.mark d) fun rest _ => hfirst rest

theorem comma : Shows Whatever (lit ", ") [.mark .comma] :=
  (mark (d := .comma) nofun fun _ => rfl).blankBehind fun _ => trivial

theorem semicolon : Shows Whatever (lit "; ") [.mark .semicolon] :=
  (mark (d := .semicolon) nofun fun _ => rfl).blankBehind fun _ => trivial

theorem around {between : Text} (h : Displays Closed t ms b)
    (hbetween : Shows Whatever between [m]) (hclosed : ∀ rest, Closed (between ++ rest))
    (h' : Displays q t' ms' b') : Displays q (t ++ (between ++ t')) (ms ++ m :: ms') (b || b') :=
  h.append (hbetween.opening h') fun rest _ => by
    rw [List.append_assoc]
    exact hclosed _

theorem joined {α : Type} {d : Delimiter} {between : Text} {text : α → Text}
    {symbols : α → List Terminal} {pointed : α → Bool} {as : List α}
    (hbetween : Shows Whatever between [.mark d]) (hclosed : ∀ rest, Closed (between ++ rest))
    (h : ∀ a ∈ as, Displays Closed (text a) (symbols a) (pointed a)) :
    Displays Closed (Text.joinWith between (as.map text)) (Expr.markedBy d (as.map symbols))
      (as.any pointed) := by
  induction as with
  | nil => exact nil
  | cons a as ih =>
      obtain ⟨ha, has⟩ := List.forall_mem_cons.mp h
      cases as with
      | nil => simpa [Text.joinWith] using ha
      | cons a' as =>
          simpa [Text.joinWith, List.intercalate_cons_cons] using
            ha.around hbetween hclosed (ih has)

theorem grouped {opening closing : Delimiter} (ho : Shows Whatever opening.spelling [.mark opening])
    (hc : Shows Whatever closing.spelling [.mark closing])
    (hclosed : ∀ rest, Closed (closing.spelling ++ rest)) (h : Displays Closed t ms b) :
    Displays p (opening.spelling ++ t ++ closing.spelling) (Expr.bracketed opening closing ms) b := by
  have hpiece := (ho.opening h).append hc fun rest _ => hclosed rest
  rw [Bool.or_false] at hpiece
  exact hpiece.mono fun _ _ => trivial

theorem parenthesized (h : Displays Closed t ms b) : Displays p (lit "(" ++ t ++ lit ")")
    (Expr.bracketed .openParen .closeParen ms) b :=
  grouped (mark nofun fun _ => rfl) (mark nofun fun _ => rfl) (fun _ => .cons (by decide)) h

theorem listed {ts : List Text} {pieces : List (List Terminal)}
    (h : List.Forall₂ (Shows Closed) ts pieces) :
    Shows Closed (Expr.commaSeparated ts) (Expr.markedBy .comma pieces) := by
  obtain ⟨hlength, hzip⟩ := List.forall₂_iff_zip.mp h
  have hjoined : Displays Closed (Expr.commaSeparated ((ts.zip pieces).map Prod.fst))
      (Expr.markedBy .comma ((ts.zip pieces).map Prod.snd)) ((ts.zip pieces).any fun _ => false) :=
    joined comma (fun _ => .cons (by decide)) fun a ha => hzip (a := a.1) (b := a.2) ha
  rwa [List.map_fst_zip hlength.le, List.map_snd_zip hlength.ge,
    List.any_eq_false.mpr fun _ _ => Bool.false_ne_true] at hjoined

theorem call {name : Text} {ts : List Text} {pieces : List (List Terminal)} (hname : IsName name)
    (h : List.Forall₂ (Shows Closed) ts pieces) :
    Shows p (name ++ lit "(" ++ Expr.commaSeparated ts ++ lit ")")
      (.name name :: Expr.bracketed .openParen .closeParen (Expr.markedBy .comma pieces)) := by
  have hcallee : Shows (Before attached) name [.name name] :=
    Displays.name hname (.name name) fun rest hrest => hrest.head (by decide)
  have hcall := hcallee.append (parenthesized (p := p) (listed h)) fun _ _ => .cons (by decide)
  simpa using hcall

end Displays

def IsSpaced (op : Text) : Prop :=
  op ≠ lit ";" ∧ op ≠ lit "." ∧
    (isWordOperator op = true ∨ ∃ d ∈ Delimiter.all, d.spelling = op)

instance (op : Text) : Decidable (IsSpaced op) := by unfold IsSpaced; infer_instance

theorem isSpaced_joining {op : Text} {fn : Operation} {level : Level}
    (hop : (op, fn) ∈ level.joining) : IsSpaced op := by
  have hall : ∀ level ∈ Level.all, ∀ entry ∈ level.joining, IsSpaced entry.1 := by decide
  exact hall level (by cases level <;> decide) _ hop

theorem isName_of_isWordOperator {name : Text} (h : isWordOperator name = true) : IsName name := by
  have hall : ∀ word ∈ wordOperators,
      word.head?.any isNameStart = true ∧ word.all isNamePart = true := by
    decide
  obtain ⟨hstart, hparts⟩ := hall name (List.contains_iff_mem.mp h)
  cases name with
  | nil => cases hstart
  | cons c u => exact ⟨⟨c, u, rfl, hstart⟩, List.all_eq_true.mp hparts⟩

namespace Displays

variable {p q : Text → Prop} {t t' op : Text} {fn : Operation} {m : Terminal}
  {ms ms' : List Terminal} {b b' : Bool}

theorem spacedDelimiter {d : Delimiter} (hd : d ≠ .dot) (hl : (Lexeme.delimiter d).Denotes m) :
    Shows Whatever (lit " " ++ d.spelling ++ lit " ") [m] := by
  have hdelimiter : Shows (fun rest => ∃ more, rest = .scalar ' ' :: more) d.spelling [m] := by
    refine delimiter hd hl ?_
    rintro rest ⟨more, rfl⟩
    exact first?_blank d
  exact (hdelimiter.blankBehind fun rest => ⟨rest, rfl⟩).blankBefore

theorem spaced (h : IsSpaced op) : Shows Whatever (lit " " ++ op ++ lit " ") [.operator op] := by
  obtain ⟨hsemicolon, hdot, hword | ⟨d, -, rfl⟩⟩ := h
  · have hname : Shows Closed op [.operator op] :=
      name (isName_of_isWordOperator hword) (.operator (if_pos hword) hsemicolon)
        fun rest hrest => hrest.head (by decide)
    exact (hname.blankBehind fun _ => .cons (by decide)).blankBefore
  · exact spacedDelimiter (fun hd => hdot (hd ▸ rfl)) (.operator rfl hsemicolon)

theorem binary (hop : IsSpaced op) (h : Displays Closed t ms b) (h' : Displays Closed t' ms' b') :
    Displays Closed (t ++ (lit " " ++ op ++ lit " " ++ t')) (ms ++ .operator op :: ms') (b || b') :=
  h.around (spaced hop) (fun _ => .cons (by decide)) h'

/-- A sign stands at its operand, a word in front of a blank. -/
theorem sign (hop : (op, fn) ∈ Level.unaryTable) (h : Displays p t ms b) :
    Displays p (if isWordOperator op then op ++ lit " " ++ t else op ++ t) (.operator op :: ms)
      b := by
  have hsign : ∀ {d : Delimiter}, d ≠ .dot → d.spelling ≠ lit ";" →
      (∀ rest, Delimiter.first? (d.spelling ++ rest) = some d) →
      Displays p (d.spelling ++ t) (.operator d.spelling :: ms) b := by
    intro d hd hsemicolon hfirst
    exact (delimiter hd (.operator rfl hsemicolon) fun rest _ => hfirst rest).opening h
  simp only [Level.unaryTable, List.mem_cons, Prod.mk.injEq, List.not_mem_nil, or_false] at hop
  rcases hop with ⟨rfl, -⟩ | ⟨rfl, -⟩ | ⟨rfl, -⟩ | ⟨rfl, -⟩
  · rw [if_neg (by decide)]
    exact hsign (d := .minus) nofun nofun fun _ => rfl
  · rw [if_neg (by decide)]
    exact hsign (d := .plus) nofun nofun fun _ => rfl
  · rw [if_neg (by decide)]
    exact hsign (d := .tilde) nofun nofun fun _ => rfl
  · rw [if_pos (by decide)]
    have hname : Shows Closed (lit "not") [.operator (lit "not")] :=
      name (isName_of_isWordOperator (by decide)) (.operator (by decide) nofun)
        fun rest hrest => hrest.head (by decide)
    exact (hname.blankBehind fun _ => .cons (by decide)).opening h

theorem factorial (hop : (op, fn) ∈ Level.factorialTable) (h : Displays Closed t ms b) :
    Displays Closed (t ++ op) (ms ++ [.operator op]) b := by
  have hop : op = lit "!" := by simp_all [Level.factorialTable]
  subst hop
  have hbang : Shows Closed (lit "!") [.operator (lit "!")] := by
    refine delimiter (d := .bang) nofun (.operator rfl nofun) fun rest hrest => ?_
    cases rest with
    | nil => rfl
    | cons c u =>
        have hclosers : closers = [.scalar ' ', .scalar ')', .scalar ',', .scalar '!', .scalar ':',
          .scalar ';', .scalar ']', .scalar '\x7d'] := by decide
        have hc := hrest c u rfl
        simp only [hclosers, List.mem_cons, List.not_mem_nil, or_false] at hc
        rcases hc with rfl | rfl | rfl | rfl | rfl | rfl | rfl | rfl <;> rfl
  have hoperand := h.append hbang fun _ _ => .cons (by decide)
  rwa [Bool.or_false] at hoperand

end Displays

namespace Expr

def NamesWritten (ms : List Terminal) : Prop := ∀ name, .name name ∈ ms → IsName name

theorem NamesWritten.part {ms ms' : List Terminal} (h : NamesWritten ms) (hms : ∀ m ∈ ms', m ∈ ms) :
    NamesWritten ms' := fun name hname => h name (hms _ hname)

end Expr

end MetricBridge.Formula
