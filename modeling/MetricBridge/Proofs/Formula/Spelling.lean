import MetricBridge.Proofs.Formula.Terminal
import Mathlib.Data.List.Forall2

namespace MetricBridge.Formula

def Terminal.opened : Terminal → Nat → Nat
  | .mark .openParen, n => n + 1
  | .mark .openBracket, n => n + 1
  | .mark .openBrace, n => n + 1
  | .mark .closeParen, n => n - 1
  | .mark .closeBracket, n => n - 1
  | .mark .closeBrace, n => n - 1
  | _, n => n

def opened (ms : List Terminal) (n : Nat) : Nat := ms.foldl (fun n m => m.opened n) n

def Balanced (ms : List Terminal) : Prop := ∀ n, opened ms n = n

theorem opened_append (ms ms' : List Terminal) (n : Nat) :
    opened (ms ++ ms') n = opened ms' (opened ms n) := by
  simp [opened]

namespace Balanced

theorem append {ms ms' : List Terminal} (h : Balanced ms) (h' : Balanced ms') :
    Balanced (ms ++ ms') := fun n => by rw [opened_append, h, h']

theorem cons {m : Terminal} {ms : List Terminal} (hm : Balanced [m]) (h : Balanced ms) :
    Balanced (m :: ms) := hm.append h

theorem operator (op : Text) : Balanced [.operator op] := fun _ => rfl

end Balanced

def Delimiter.opens : Delimiter → Bool
  | openParen | openBracket | openBrace => true
  | _ => false

def Delimiter.opening? : Delimiter → Option Delimiter
  | closeParen => some openParen
  | closeBracket => some openBracket
  | closeBrace => some openBrace
  | _ => none

/-- The open brackets after the symbol, the innermost first, unless it closes one that is not the
innermost. -/
def Terminal.brackets? : Terminal → List Delimiter → Option (List Delimiter)
  | .mark d, outer =>
    if d.opens then some (d :: outer)
    else match d.opening?, outer with
      | none, outer => some outer
      | some b, c :: outer => if b = c then some outer else none
      | some _, [] => none
  | _, outer => some outer

def brackets? (ms : List Terminal) (outer : List Delimiter) : Option (List Delimiter) :=
  ms.foldlM (fun outer m => m.brackets? outer) outer

/-- The symbols close each bracket that they open by its partner, and no other one. -/
def Nested (ms : List Terminal) : Prop := ∀ outer, brackets? ms outer = some outer

theorem brackets?_append (ms ms' : List Terminal) (outer : List Delimiter) :
    brackets? (ms ++ ms') outer = (brackets? ms outer).bind (brackets? ms') :=
  List.foldlM_append

theorem Terminal.opened_brackets {m : Terminal} {outer inner : List Delimiter}
    (h : m.brackets? outer = some inner) : m.opened outer.length = inner.length := by
  cases m with
  | mark d =>
      cases d with
      | closeParen | closeBracket | closeBrace =>
          cases outer with
          | nil => cases h
          | cons c outer =>
              obtain ⟨-, ⟨⟩⟩ := Option.ite_none_right_eq_some.mp h
              rfl
      | _ => cases h; rfl
  | _ => cases h; rfl

theorem opened_brackets {ms : List Terminal} {outer inner : List Delimiter}
    (h : brackets? ms outer = some inner) : opened ms outer.length = inner.length := by
  induction ms generalizing outer with
  | nil => cases h; rfl
  | cons m ms ih =>
      obtain ⟨between, hm, hms⟩ := Option.bind_eq_some_iff.mp h
      rw [← List.singleton_append, opened_append, ← ih hms, ← Terminal.opened_brackets hm]
      rfl

namespace Nested

theorem nil : Nested [] := fun _ => rfl

theorem append {ms ms' : List Terminal} (h : Nested ms) (h' : Nested ms') :
    Nested (ms ++ ms') := fun outer => by rw [brackets?_append, h, Option.bind_some, h']

theorem cons {m : Terminal} {ms : List Terminal} (hm : Nested [m]) (h : Nested ms) :
    Nested (m :: ms) := hm.append h

theorem group {opening closing : Delimiter} {ms : List Terminal}
    (ho : ∀ outer, Terminal.brackets? (.mark opening) outer = some (opening :: outer))
    (hc : ∀ outer, Terminal.brackets? (.mark closing) (opening :: outer) = some outer)
    (h : Nested ms) : Nested (Expr.bracketed opening closing ms) := by
  intro outer
  have hopen : brackets? [.mark opening] outer = some (opening :: outer) := by
    simp [brackets?, ho]
  have hclose : brackets? [.mark closing] (opening :: outer) = some outer := by
    simp [brackets?, hc]
  rw [Expr.bracketed, brackets?_append, ← List.singleton_append, brackets?_append, hopen,
    Option.bind_some, h, Option.bind_some, hclose]

theorem intercalate {separator : List Terminal} (hs : Nested separator)
    {pieces : List (List Terminal)} (h : ∀ ms ∈ pieces, Nested ms) :
    Nested (List.intercalate separator pieces) := by
  induction pieces with
  | nil => exact nil
  | cons ms pieces ih =>
      have hms := h ms (by simp)
      have hrest := ih fun ms' hms' => h ms' (by simp [hms'])
      cases pieces with
      | nil => simpa using hms
      | cons ms' pieces =>
          rw [List.intercalate_cons_cons]
          exact (hms.append hs).append hrest

theorem operator (op : Text) : Nested [.operator op] := fun _ => rfl

theorem name (name : Text) : Nested [.name name] := fun _ => rfl

theorem balanced {ms : List Terminal} (h : Nested ms) : Balanced ms := fun n => by
  simpa using opened_brackets (h (List.replicate n .openParen))

end Nested

theorem nested_chained (ops : List Text) {pieces : List (List Terminal)}
    (h : ∀ ms ∈ pieces, Nested ms) : Nested (Expr.chained ops pieces) := by
  induction ops generalizing pieces with
  | nil => exact Nested.nil
  | cons op ops ih =>
      cases pieces with
      | nil => exact Nested.nil
      | cons ms pieces =>
          have hms := h ms (by simp)
          exact .cons (.operator op) (hms.append (ih fun ms' hms' => h ms' (by simp [hms'])))

theorem nested_literal (v : Literal) : Nested [v.terminal] := by
  cases v with
  | bool b => cases b <;> exact fun _ => rfl
  | _ => exact fun _ => rfl

mutual

theorem nested_terminals : (e : Expr) → Nested e.terminals
  | .constant v => nested_literal v
  | .symbol name => .name name
  | .index dimensions dot => by
      have h : Nested (Expr.bracketed .openBracket .closeBracket
          (Expr.markedBy .comma (Expr.pieces dimensions))) :=
        .group (fun _ => rfl) (fun _ => rfl)
          (.intercalate (fun _ => rfl) (nested_pieces dimensions))
      unfold Expr.terminals
      split
      case h_3 => exact fun _ => rfl
      all_goals simp_all
  | .accessor base subscript => (nested_terminals base).append (nested_terminals subscript)
  | .conditional condition whenTrue whenFalse =>
      ((nested_terminals condition).append
        (.cons (fun _ => rfl) (nested_terminals whenTrue))).append
        (.cons (fun _ => rfl) (nested_terminals whenFalse))
  | .operator op fn args => by
      have h := nested_pieces args
      match args, h with
      | [], _ => exact Nested.nil
      | [arg], h =>
          have harg := h arg.terminals (by simp [Expr.pieces])
          by_cases hfn : fn = .factorial
          · simpa [Expr.terminals, hfn] using harg.append (.operator op)
          · simpa [Expr.terminals, hfn] using Nested.cons (.operator op) harg
      | [left, right], h =>
          have hleft := h left.terminals (by simp [Expr.pieces])
          have hright := h right.terminals (by simp [Expr.pieces])
          exact hleft.append (.cons (.operator op) hright)
      | _ :: _ :: _ :: _, h => exact .intercalate (.operator op) h
  | .parenthesis content => .group (fun _ => rfl) (fun _ => rfl) (nested_terminals content)
  | .relational _ [] _ => .nil
  | .relational _ (first :: params) ops =>
      (nested_terminals first).append (nested_chained ops (nested_pieces params))
  | .call callee args =>
      (nested_terminals callee).append (.group (fun _ => rfl) (fun _ => rfl)
        (.intercalate (fun _ => rfl) (nested_pieces args)))
  | .array items =>
      .group (fun _ => rfl) (fun _ => rfl) (.intercalate (fun _ => rfl) (nested_pieces items))
  | .object properties =>
      .group (fun _ => rfl) (fun _ => rfl)
        (.intercalate (fun _ => rfl) (nested_propertyPieces properties))
  | .assignment target value =>
      (nested_terminals target).append (.cons (fun _ => rfl) (nested_terminals value))
  | .definition name params body => by
      have hparams : ∀ ms ∈ params.map (fun param => [Terminal.name param]), Nested ms := by
        intro ms hms
        obtain ⟨param, -, rfl⟩ := List.mem_map.mp hms
        exact .name param
      have hlist : Nested (Expr.bracketed .openParen .closeParen
          (Expr.markedBy .comma (params.map fun param => [.name param]))) :=
        .group (fun _ => rfl) (fun _ => rfl) (.intercalate (fun _ => rfl) hparams)
      have h := (Nested.cons (.name name) hlist).append
        (.cons (m := .mark .assign) (fun _ => rfl) (nested_terminals body))
      simpa [Expr.terminals] using h
  | .block statements => .intercalate (fun _ => rfl) (nested_pieces statements)
  | .range first step last => by
      refine .intercalate (fun _ => rfl) fun ms hms => ?_
      rcases List.mem_append.mp hms with h | h
      · rcases List.mem_cons.mp h with rfl | h
        · exact nested_terminals first
        · exact nested_stepPieces step ms h
      · rw [List.mem_singleton.mp h]
        exact nested_terminals last
  | .foreign _ => .nil

theorem nested_pieces : (es : List Expr) → ∀ ms ∈ Expr.pieces es, Nested ms
  | [] => fun _ h => nomatch h
  | e :: es => fun ms h => by
      rcases List.mem_cons.mp h with rfl | h
      · exact nested_terminals e
      · exact nested_pieces es ms h

theorem nested_propertyPieces :
    (ps : List (Text × Expr)) → ∀ ms ∈ Expr.propertyPieces ps, Nested ms
  | [] => fun _ h => nomatch h
  | (key, e) :: ps => fun ms h => by
      rcases List.mem_cons.mp h with rfl | h
      · exact .cons (fun _ => rfl) (.cons (fun _ => rfl) (nested_terminals e))
      · exact nested_propertyPieces ps ms h

theorem nested_stepPieces : (step : Option Expr) → ∀ ms ∈ Expr.stepPieces step, Nested ms
  | none => fun _ h => nomatch h
  | some e => fun ms h => by
      rw [List.mem_singleton.mp h]
      exact nested_terminals e

end

theorem balanced_terminals (e : Expr) : Balanced e.terminals := (nested_terminals e).balanced

theorem balanced_markedBy {d : Delimiter} (hd : Nested [.mark d]) (es : List Expr) :
    Balanced (Expr.markedBy d (Expr.pieces es)) :=
  (Nested.intercalate hd (nested_pieces es)).balanced

/-- The tokens spell the symbols where `n` brackets are open. -/
inductive Spells : Nat → List Token → List Terminal → Prop
  | nil (n) : Spells n [] []
  | feed {n t ts m ms} (hn : 0 < n) (ht : t.lexeme = .newline) (h : Spells n ts (m :: ms)) :
      Spells n (t :: ts) (m :: ms)
  | cons {n t ts m ms} (ht : t.lexeme.Denotes m) (h : Spells (m.opened n) ts ms) :
      Spells n (t :: ts) (m :: ms)

namespace Spells

theorem append {n : Nat} {ts ts' : List Token} {ms ms' : List Terminal} (h : Spells n ts ms)
    (h' : Spells (opened ms n) ts' ms') : Spells n (ts ++ ts') (ms ++ ms') := by
  induction h with
  | nil => exact h'
  | feed hn ht _ ih => exact .feed hn ht (ih h')
  | cons ht _ ih => exact .cons ht (ih h')

theorem length_le {n : Nat} {ts : List Token} {ms : List Terminal} (h : Spells n ts ms) :
    ms.length ≤ ts.length := by
  induction h with
  | nil => exact Nat.le_refl 0
  | feed _ _ _ ih => exact Nat.le_succ_of_le ih
  | cons _ _ ih => exact Nat.succ_le_succ ih

/-- The tokens that spell the first part end with a symbol, so that line feeds before the second
part belong to it. -/
theorem split {n : Nat} {ts : List Token} {ms ms' : List Terminal} (h : Spells n ts (ms ++ ms')) :
    ∃ us us', ts = us ++ us' ∧ Spells n us ms ∧ Spells (opened ms n) us' ms' := by
  generalize hall : ms ++ ms' = all at h
  induction h generalizing ms with
  | nil n =>
      obtain ⟨rfl, rfl⟩ := List.append_eq_nil_iff.mp hall
      exact ⟨[], [], rfl, .nil n, .nil n⟩
  | @feed n t ts m rest hn ht h ih =>
      cases ms with
      | nil => exact ⟨[], t :: ts, rfl, .nil n, by rw [show ms' = _ from hall]; exact .feed hn ht h⟩
      | cons m' ms =>
          obtain ⟨us, us', rfl, hus, hus'⟩ := ih hall
          exact ⟨t :: us, us', rfl, .feed hn ht hus, hus'⟩
  | @cons n t ts m rest ht h ih =>
      cases ms with
      | nil => exact ⟨[], t :: ts, rfl, .nil n, by rw [show ms' = _ from hall]; exact .cons ht h⟩
      | cons m' ms =>
          obtain ⟨rfl, hrest⟩ := List.cons.inj hall
          obtain ⟨us, us', rfl, hus, hus'⟩ := ih hrest
          exact ⟨t :: us, us', rfl, .cons ht hus, hus'⟩

theorem uncons {n : Nat} {ts : List Token} {m : Terminal} {ms : List Terminal}
    (h : Spells n ts (m :: ms)) :
    ∃ feeds t us, ts = feeds ++ t :: us ∧ (∀ f ∈ feeds, f.lexeme = .newline) ∧
      (n = 0 → feeds = []) ∧ t.lexeme.Denotes m ∧ Spells (m.opened n) us ms := by
  generalize hall : m :: ms = all at h
  induction h with
  | nil => cases hall
  | @feed n t ts m' ms' hn ht h ih =>
      obtain ⟨feeds, u, us, rfl, hfeeds, -, hu, hus⟩ := ih hall
      refine ⟨t :: feeds, u, us, rfl, ?_, fun h0 => absurd h0 (Nat.ne_of_gt hn), hu, hus⟩
      intro f hf
      rcases List.mem_cons.mp hf with rfl | hf
      · exact ht
      · exact hfeeds f hf
  | @cons n t ts m' ms' ht h ih =>
      obtain ⟨rfl, rfl⟩ := List.cons.inj hall
      exact ⟨[], t, ts, rfl, by simp, fun _ => rfl, ht, h⟩

theorem of_forall₂ {n : Nat} {ts : List Token} {ms : List Terminal}
    (h : List.Forall₂ Lexeme.Denotes (ts.map Token.lexeme) ms) : Spells n ts ms := by
  induction ts generalizing n ms with
  | nil => cases h; exact .nil n
  | cons t ts ih => cases h with | cons ht h => exact .cons ht (ih h)

end Spells

variable {s : Surroundings} {ts ts₀ rest : List Token} {ms ms' : List Terminal} {m : Terminal}

def Took (s : Surroundings) (ts : List Token) (ms : List Terminal) (rest : List Token) : Prop :=
  ∃ taken, ts = taken ++ rest ∧ ∀ n, s.grouped = decide (0 < n) → Spells n taken ms

namespace Took

theorem refl (s : Surroundings) (ts : List Token) : Took s ts [] ts :=
  ⟨[], rfl, fun n _ => .nil n⟩

theorem trans (h : Took s ts ms ts₀) (hb : Balanced ms) (h' : Took s ts₀ ms' rest) :
    Took s ts (ms ++ ms') rest := by
  obtain ⟨taken, rfl, ht⟩ := h
  obtain ⟨taken', rfl, ht'⟩ := h'
  refine ⟨taken ++ taken', by rw [List.append_assoc], fun n hn => (ht n hn).append ?_⟩
  rw [hb n]
  exact ht' n hn

theorem length_le (h : Took s ts ms rest) : ms.length + rest.length ≤ ts.length := by
  obtain ⟨taken, rfl, ht⟩ := h
  cases hg : s.grouped with
  | false =>
      have := (ht 0 (by simpa using hg)).length_le
      rw [List.length_append]
      omega
  | true =>
      have := (ht 1 (by simpa using hg)).length_le
      rw [List.length_append]
      omega

end Took

theorem settle_eq (s : Surroundings) (ts : List Token) :
    ∃ feeds, ts = feeds ++ settle s ts ∧ (∀ f ∈ feeds, f.lexeme = .newline) ∧
      (s.grouped = false → feeds = []) := by
  unfold settle
  split
  · rename_i hg
    refine ⟨ts.takeWhile (fun t => t.lexeme = .newline), List.takeWhile_append_dropWhile.symm, ?_,
      ?_⟩
    · intro f hf
      simpa using List.all_eq_true.mp List.all_takeWhile f hf
    · rw [hg]
      nofun
  · exact ⟨[], rfl, nofun, fun _ => rfl⟩

/-- Line feeds that may be skipped change nothing in what is spelled. -/
theorem Spells.feeds {n : Nat} {feeds : List Token} (hf : ∀ f ∈ feeds, f.lexeme = .newline)
    (h0 : n = 0 → feeds = []) (h : Spells n ts (m :: ms)) : Spells n (feeds ++ ts) (m :: ms) := by
  induction feeds with
  | nil => exact h
  | cons f feeds ih =>
      have hn : 0 < n := Nat.pos_of_ne_zero fun hn => nomatch h0 hn
      refine .feed hn (hf f (by simp)) (ih (fun g hg => hf g (by simp [hg])) ?_)
      intro hz
      exact absurd hz (Nat.ne_of_gt hn)

theorem took_next (h : (front (settle s ts)).lexeme.Denotes m) :
    Took s ts [m] (passed (settle s ts)) := by
  obtain ⟨feeds, hts, hfeeds, hnone⟩ := settle_eq s ts
  cases hs : settle s ts with
  | nil =>
      rw [hs] at h
      exact absurd rfl h.ne_finish
  | cons t us =>
      rw [hs] at h hts
      have hne : t.lexeme ≠ .finish := h.ne_finish
      refine ⟨feeds ++ [t], by simpa [passed, hne] using hts, fun n hn => ?_⟩
      refine .feeds hfeeds (fun h0 => hnone ?_) (.cons h (.nil _))
      rw [hn, h0]
      rfl

theorem took_delimiter {d : Delimiter} (h : (front (settle s ts)).lexeme = .delimiter d) :
    Took s ts [.mark d] (passed (settle s ts)) :=
  took_next (h ▸ .mark d)

theorem took_name {name : Text} (h : (front (settle s ts)).lexeme = .name name) :
    Took s ts [.name name] (passed (settle s ts)) :=
  took_next (h ▸ .name name)

theorem after?_eq_some {d : Delimiter} (h : after? s d ts = some rest) :
    (front (settle s ts)).lexeme = .delimiter d ∧ rest = passed (settle s ts) := by
  unfold after? at h
  dsimp only at h
  split at h
  · rename_i hd
    exact ⟨hd, (Option.some.inj h).symm⟩
  · cases h

theorem took_mark {d : Delimiter} (h : after? s d ts = some rest) : Took s ts [.mark d] rest := by
  obtain ⟨hd, rfl⟩ := after?_eq_some h
  exact took_delimiter hd

theorem Took.over {d : Delimiter} {ts₁ ts₂ : List Token} (h : Took s ts ms ts₁) (hb : Balanced ms)
    (hd : Balanced [.mark d]) (hm : after? s d ts₁ = some ts₂) (h' : Took s ts₂ ms' rest) :
    Took s ts (ms ++ .mark d :: ms') rest :=
  h.trans hb ((took_mark hm).trans hd h')

theorem after?_of_expect {d : Delimiter} (h : expect s d ts = .ok rest) :
    after? s d ts = some rest := by
  unfold expect at h
  split at h
  · rename_i hd
    cases h
    exact hd
  · cases h

theorem operatorAt?_eq_some {table : OperatorTable} {op : Text} {fn : Operation}
    (h : operatorAt? s table ts = some (op, fn, rest)) :
    (front (settle s ts)).lexeme.operator? = some op ∧ table.find? op = some fn ∧
      rest = passed (settle s ts) := by
  unfold operatorAt? at h
  dsimp only at h
  split at h
  · cases h
  · rename_i op' hop
    obtain ⟨fn', hfn, he⟩ := Option.map_eq_some_iff.mp h
    cases he
    exact ⟨hop, hfn, rfl⟩

theorem took_operator {table : OperatorTable} {op : Text} {fn : Operation}
    (ht : table.find? ";" = none) (h : operatorAt? s table ts = some (op, fn, rest)) :
    Took s ts [.operator op] rest := by
  obtain ⟨hop, hfn, rfl⟩ := operatorAt?_eq_some h
  refine took_next (.operator hop ?_)
  rintro rfl
  rw [ht] at hfn
  cases hfn

theorem Level.semicolon_not_joining (level : Level) : level.joining.find? ";" = none := by
  cases level <;> rfl

theorem OperatorTable.mem_of_find? {table : OperatorTable} {op : Text} {fn : Operation}
    (h : table.find? op = some fn) : (op, fn) ∈ table := by
  obtain ⟨entry, he, rfl⟩ := Option.map_eq_some_iff.mp h
  have hop : entry.1 = op := by simpa using List.find?_some he
  rw [← hop]
  exact List.mem_of_find?_eq_some he

/-- What stands in a pair of brackets may contain line feeds. -/
theorem Took.group {opening closing : Delimiter} {ts₁ ts₂ : List Token}
    (ho : ∀ n, Terminal.opened (.mark opening) n = n + 1) (hb : Balanced ms)
    (h : Took s ts [.mark opening] ts₁) (hin : Took .group ts₁ ms ts₂)
    (hclose : Took .group ts₂ [.mark closing] rest) :
    Took s ts (Expr.bracketed opening closing ms) rest := by
  obtain ⟨taken, rfl, ht⟩ := h
  obtain ⟨inner, rfl, hi⟩ := hin
  obtain ⟨last, rfl, hl⟩ := hclose
  refine ⟨taken ++ (inner ++ last), by simp, fun n hn => ?_⟩
  rw [Expr.bracketed, List.cons_append, ← List.singleton_append]
  refine (ht n hn).append ?_
  have hopened : opened [.mark opening] n = n + 1 := ho n
  have hgroup : Surroundings.group.grouped = decide (0 < n + 1) := by simp [Surroundings.group]
  rw [hopened]
  refine (hi (n + 1) hgroup).append ?_
  rw [hb]
  exact hl (n + 1) hgroup

end MetricBridge.Formula
