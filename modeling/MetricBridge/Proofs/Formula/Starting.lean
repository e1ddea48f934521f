import MetricBridge.Proofs.Formula.Following

namespace MetricBridge.Formula

def Terminal.Starts (level : Level) : Terminal → Prop
  | number _ => True
  | string _ => True
  | name value => isWordOperator value = false
  | operator op => level.rank ≤ Level.unary.rank ∧ ∃ fn, (op, fn) ∈ Level.unaryTable
  | mark d => d = .openParen ∨ d = .openBracket ∨ d = .openBrace
  | key _ => False

def Begun (level : Level) (ms : List Terminal) : Prop := ∃ m ms', ms = m :: ms' ∧ m.Starts level

def Delimiter.starts : Delimiter → Bool
  | openParen | openBracket | openBrace | minus | plus | tilde => true
  | _ => false

variable {depth n : Nat} {level level' : Level} {awaits : Bool} {e : Expr} {l : Lexeme}
variable {m : Terminal} {ms ms' : List Terminal} {s : Surroundings} {ts rest : List Token}

theorem Terminal.Starts.mono (h : m.Starts level) (hr : level'.rank ≤ level.rank) :
    m.Starts level' := by
  cases m with
  | operator op => exact ⟨Nat.le_trans hr h.1, h.2⟩
  | _ => exact h

theorem Begun.append (h : Begun level ms) (hr : level'.rank ≤ level.rank) :
    Begun level' (ms ++ ms') := by
  obtain ⟨m, ms, rfl, hm⟩ := h
  exact ⟨m, ms ++ ms', rfl, hm.mono hr⟩

theorem Begun.mono (h : Begun level ms) (hr : level'.rank ≤ level.rank) : Begun level' ms := by
  obtain ⟨m, ms, rfl, hm⟩ := h
  exact ⟨m, ms, rfl, hm.mono hr⟩

theorem Literal.starts (v : Literal) (level : Level) : v.terminal.Starts level := by
  have htrue : isWordOperator "true" = false := by decide
  have hfalse : isWordOperator "false" = false := by decide
  have hnull : isWordOperator "null" = false := by decide
  cases v with
  | bool b => cases b with
      | true => exact htrue
      | false => exact hfalse
  | null => exact hnull
  | int | float | string => exact trivial

theorem Expr.Fits.begun (h : e.Fits depth level awaits) : Begun level e.terminals := by
  induction h with
  | @tighter _ level _ _ _ _ ih => exact ih.mono level.rank_le_next
  | assignment _ _ _ iht _ => exact iht.append (by decide)
  | @definition _ _ name params _ _ _ iht _ =>
      obtain ⟨m, ms, hms, hm⟩ := iht
      obtain ⟨rfl, -⟩ := List.cons.inj hms
      exact ⟨_, _, rfl, hm⟩
  | conditional _ _ _ ihc _ _ =>
      rw [terminals, List.append_assoc]
      exact ihc.append (by decide)
  | join _ _ _ _ iha _ => exact iha.append (Nat.le_refl _)
  | comparison _ _ _ iha _ => exact iha.append (by decide)
  | comparisons _ _ _ _ ihfirst _ => exact ihfirst.append (by decide)
  | range _ _ iha _ =>
      have hfirst := iha.mono (show Level.range.rank ≤ Level.additive.rank by decide)
      simpa [terminals, stepPieces] using hfirst.append (Nat.le_refl _)
  | stepped _ _ _ iha _ _ =>
      have hfirst := iha.mono (show Level.range.rank ≤ Level.additive.rank by decide)
      simpa [terminals, stepPieces] using hfirst.append (Nat.le_refl _)
  | @sign _ _ op fn arg hop _ _ =>
      refine ⟨.operator op, arg.terminals, ?_, Nat.le_refl _, fn, hop⟩
      have hfn : fn ≠ .factorial := by
        rintro rfl
        simp [Level.unaryTable] at hop
      simp [terminals, hfn]
  | power _ _ _ iha _ => exact iha.append (by decide)
  | @factorial _ _ op fn arg hop _ ih =>
      have hfn : fn = .factorial := by simp_all [Level.factorialTable]
      simpa [terminals, hfn] using ih.append (Nat.le_refl _)
  | call _ _ _ ihc _ => exact ihc.append (Nat.le_refl _)
  | brackets _ _ _ ihb _ => exact ihb.append (Nat.le_refl _)
  | dot _ ihb => exact ihb.append (Nat.le_refl _)
  | constant => exact ⟨_, [], rfl, Literal.starts _ _⟩
  | symbol hw _ => exact ⟨_, [], rfl, hw⟩
  | parenthesis => exact ⟨_, _, rfl, .inl rfl⟩
  | array => exact ⟨_, _, rfl, .inr (.inl rfl)⟩
  | object => exact ⟨_, _, rfl, .inr (.inr rfl)⟩

theorem Delimiter.not_unary {d : Delimiter} (h : d.starts = false) :
    Level.unaryTable.find? d.spelling = none := by
  cases d <;> first | rfl | cases h

theorem Terminal.Starts.delimiter {d : Delimiter} (h : m.Starts level)
    (hd : Lexeme.Denotes (.delimiter d) m) : d.starts = true := by
  cases hd with
  | mark => rcases h with rfl | rfl | rfl <;> rfl
  | operator hop _ =>
      cases hop
      obtain ⟨-, fn, hfn⟩ := h
      have hfind := OperatorTable.find?_of_mem (by decide) hfn
      cases hd : d.starts with
      | true => rfl
      | false =>
          rw [Delimiter.not_unary hd] at hfind
          cases hfind

theorem Terminal.Starts.not_unary {op : Text} (h : m.Starts level)
    (hr : Level.unary.rank < level.rank) (hl : l.Denotes m) (hop : l.operator? = some op) :
    Level.unaryTable.find? op = none := by
  cases hl with
  | number => cases hop
  | string => cases hop
  | name value =>
      have hw : isWordOperator value = false := h
      simp [Lexeme.operator?, hw] at hop
  | quotedKey => cases h
  | bareKey => cases h
  | operator => exact absurd h.1 (Nat.not_le_of_gt hr)
  | mark =>
      cases hop
      rcases h with rfl | rfl | rfl <;> rfl

namespace Begun

variable {d : Delimiter}

theorem front_ne (h : Begun level ms) (hs : Spells n ts ms) (hg : s.grouped = decide (0 < n))
    (hd : d.starts = false) : (front (settle s (ts ++ rest))).lexeme ≠ .delimiter d := by
  obtain ⟨m, ms, rfl, hm⟩ := h
  obtain ⟨t, us, ht, -, -, hsettle⟩ := hs.settled hg
  intro hfront
  rw [hsettle rest] at hfront
  have hstarts := hm.delimiter (hfront ▸ ht)
  rw [hd] at hstarts
  cases hstarts

/-- A list is not at its end where a tree starts. -/
theorem after?_eq_none (h : Begun level ms) (hs : Spells n ts ms) (hg : s.grouped = decide (0 < n))
    (hd : d.starts = false) : after? s d (ts ++ rest) = none :=
  if_neg (h.front_ne hs hg hd)

theorem operatorAt?_eq_none (h : Begun level ms) (hr : Level.unary.rank < level.rank)
    (hs : Spells n ts ms) (hg : s.grouped = decide (0 < n)) :
    operatorAt? s Level.unaryTable (ts ++ rest) = none := by
  obtain ⟨m, ms, rfl, hm⟩ := h
  obtain ⟨t, us, ht, -, -, hsettle⟩ := hs.settled hg
  unfold operatorAt?
  rw [hsettle rest]
  dsimp only
  split
  · rfl
  · rename_i op hop
    rw [hm.not_unary hr ht hop, Option.map_none]

end Begun

end MetricBridge.Formula
