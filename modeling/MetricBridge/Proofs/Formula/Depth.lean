import MetricBridge.Formula.Grammar

namespace MetricBridge.Formula

def Cut {α : Type} (x y : Except Failure α) : Prop := x = .error .tooDeep ∨ x = y

namespace Cut

variable {α β : Type} {x y : Except Failure α}

theorem refl (x : Except Failure α) : Cut x x := .inr rfl

theorem deep (y : Except Failure α) : Cut (.error .tooDeep) y := .inl rfl

theorem map {f : α → β} (h : Cut x y) : Cut (x.map f) (y.map f) := by
  rcases h with rfl | rfl
  · exact .deep _
  · exact .refl _

end Cut

namespace Rule

def Below (r r' : Rule) : Prop := ∀ s ts, Cut (r s ts) (r' s ts)

variable {operand operand' item item' first first' second second' : Rule} {s : Surroundings}

theorem joinOnto_below (h : Below operand operand') (table : OperatorTable) (fuel : Nat) (e : Expr)
    (ts : List Token) :
    Cut (joinOnto operand table s fuel e ts) (joinOnto operand' table s fuel e ts) := by
  induction fuel generalizing e ts with
  | zero => exact .refl _
  | succ fuel ih =>
      unfold joinOnto
      split
      · exact .refl _
      · rename_i op fn us _
        rcases h s us with hr | hr <;> rw [hr]
        · exact .deep _
        · split
          · exact .refl _
          · exact ih _ _

theorem joined_below (h : Below operand operand') (table : OperatorTable) :
    Below (joined operand table) (joined operand' table) := by
  intro s ts
  unfold joined
  rcases h s ts with hr | hr <;> rw [hr]
  · exact .deep _
  · split
    · exact .refl _
    · exact joinOnto_below h table _ _ _

theorem assignment_below (h : Below first first') (h' : Below second second') :
    Below (assignment first second) (assignment first' second') := by
  intro s ts
  unfold assignment
  rcases h s ts with hr | hr <;> rw [hr]
  · exact .deep _
  · split
    · exact .refl _
    · split
      · exact .refl _
      · rename_i rest _
        rcases h' s rest with hr | hr <;> rw [hr]
        · exact .deep _
        · exact .refl _

theorem conditional_below (h : Below first first') (h' : Below second second') :
    Below (conditional first second) (conditional first' second') := by
  intro s ts
  unfold conditional
  rcases h s ts with hr | hr <;> rw [hr]
  · exact .deep _
  · split
    · exact .refl _
    · split
      · exact .refl _
      · rename_i rest _
        rcases h' s.branch rest with hr | hr <;> rw [hr]
        · exact .deep _
        · split
          · exact .refl _
          · split
            · exact .refl _
            · rename_i rest _
              rcases h' s rest with hr | hr <;> rw [hr]
              · exact .deep _
              · exact .refl _

theorem comparisons_below (h : Below operand operand') (fuel : Nat) (ts : List Token) :
    Cut (comparisons operand s fuel ts) (comparisons operand' s fuel ts) := by
  induction fuel generalizing ts with
  | zero => exact .refl _
  | succ fuel ih =>
      unfold comparisons
      split
      · exact .refl _
      · rename_i op fn us _
        rcases h s us with hr | hr <;> rw [hr]
        · exact .deep _
        · split
          · exact .refl _
          · rename_i us _
            rcases ih us with hr | hr <;> rw [hr]
            · exact .deep _
            · exact .refl _

theorem relational_below (h : Below operand operand') :
    Below (relational operand) (relational operand') := by
  intro s ts
  unfold relational
  rcases h s ts with hr | hr <;> rw [hr]
  · exact .deep _
  · split
    · exact .refl _
    · rename_i us _
      rcases comparisons_below h (us.length + 1) us with hr | hr <;> rw [hr]
      · exact .deep _
      · exact .refl _

theorem range_below (h : Below operand operand') : Below (range operand) (range operand') := by
  intro s ts
  unfold range
  rcases h s ts with hr | hr <;> rw [hr]
  · exact .deep _
  · split
    · exact .refl _
    · split
      · exact .refl _
      · split
        · exact .refl _
        · rename_i us _
          rcases h s us with hr | hr <;> rw [hr]
          · exact .deep _
          · split
            · exact .refl _
            · split
              · exact .refl _
              · rename_i us _
                rcases h s us with hr | hr <;> rw [hr]
                · exact .deep _
                · exact .refl _

theorem unary_below (h : Below first first') (h' : Below second second') :
    Below (unary first second) (unary first' second') := by
  intro s ts
  unfold unary
  split
  · exact h' s ts
  · rename_i us _
    rcases h s us with hr | hr <;> rw [hr]
    · exact .deep _
    · exact .refl _

theorem power_below (h : Below first first') (h' : Below second second') :
    Below (power first second) (power first' second') := by
  intro s ts
  unfold power
  rcases h s ts with hr | hr <;> rw [hr]
  · exact .deep _
  · split
    · exact .refl _
    · split
      · exact .refl _
      · rename_i us _
        rcases h' s us with hr | hr <;> rw [hr]
        · exact .deep _
        · exact .refl _

theorem listed_below (h : Below item item') (fuel : Nat) (ts : List Token) :
    Cut (listed item fuel ts) (listed item' fuel ts) := by
  induction fuel generalizing ts with
  | zero => exact .refl _
  | succ fuel ih =>
      unfold listed
      rcases h .group ts with hr | hr <;> rw [hr]
      · exact .deep _
      · split
        · exact .refl _
        · split
          · exact .refl _
          · rename_i us _
            rcases ih us with hr | hr <;> rw [hr]
            · exact .deep _
            · exact .refl _

theorem enclosed_below (h : Below item item') (closing : Delimiter) (ts : List Token) :
    Cut (enclosed item closing ts) (enclosed item' closing ts) := by
  unfold enclosed
  split
  · exact .refl _
  · rcases listed_below h (ts.length + 1) ts with hr | hr <;> rw [hr]
    · exact .deep _
    · exact .refl _

theorem accessorsOnto_below (h : Below item item') (fuel : Nat) (e : Expr) (ts : List Token) :
    Cut (accessorsOnto item s fuel e ts) (accessorsOnto item' s fuel e ts) := by
  induction fuel generalizing e ts with
  | zero => exact .refl _
  | succ fuel ih =>
      unfold accessorsOnto
      dsimp only
      split
      · split
        · rcases enclosed_below h .closeParen (passed (settle s ts)) with hr | hr <;> rw [hr]
          · exact .deep _
          · split
            · exact .refl _
            · exact ih _ _
        · exact .refl _
      · rcases enclosed_below h .closeBracket (passed (settle s ts)) with hr | hr <;> rw [hr]
        · exact .deep _
        · split
          · exact .refl _
          · exact .refl _
          · exact ih _ _
      · split
        · exact ih _ _
        · exact .refl _
      · exact .refl _

theorem factorial_below (h : Below first first') (h' : Below item item') :
    Below (factorial first item) (factorial first' item') := by
  intro s ts
  unfold factorial
  rcases h s ts with hr | hr <;> rw [hr]
  · exact .deep _
  · split
    · exact .refl _
    · rename_i e us _
      rcases accessorsOnto_below h' (us.length + 1) e us with hr | hr <;> rw [hr]
      · exact .deep _
      · exact .refl _

theorem properties_below (h : Below item item') (fuel : Nat) (isFirst : Bool) (ts : List Token) :
    Cut (properties item isFirst fuel ts) (properties item' isFirst fuel ts) := by
  induction fuel generalizing isFirst ts with
  | zero => exact .refl _
  | succ fuel ih =>
      unfold properties
      dsimp only
      split
      · exact .refl _
      · split
        · exact .refl _
        · split
          · exact .refl _
          · split
            · exact .refl _
            · rename_i us _
              rcases h .group us with hr | hr <;> rw [hr]
              · exact .deep _
              · split
                · exact .refl _
                · rename_i us _
                  rcases ih false us with hr | hr <;> rw [hr]
                  · exact .deep _
                  · exact .refl _

theorem primary_below (h : Below item item') : Below (primary item) (primary item') := by
  intro s ts
  unfold primary
  dsimp only
  split
  · exact .refl _
  · exact .refl _
  · exact .refl _
  · rcases h .group (passed (settle s ts)) with hr | hr <;> rw [hr]
    · exact .deep _
    · exact .refl _
  · rcases enclosed_below h .closeBracket (passed (settle s ts)) with hr | hr <;> rw [hr]
    · exact .deep _
    · exact .refl _
  · rcases properties_below h ((passed (settle s ts)).length + 1) true (passed (settle s ts)) with
      hr | hr <;> rw [hr]
    · exact .deep _
    · exact .refl _
  · exact .refl _
  · exact .refl _

theorem ofLevel_below (depth : Nat) (level : Level) :
    Below (ofLevel depth level) (ofLevel (depth + 1) level) := by
  induction depth generalizing level with
  | zero => exact fun _ _ => .deep _
  | succ depth ih =>
      cases level with
      | assignment => exact assignment_below (ih _) (ih _)
      | conditional => exact conditional_below (ih _) (ih _)
      | relational => exact relational_below (ih _)
      | range => exact range_below (ih _)
      | unary => exact unary_below (ih _) (ih _)
      | power => exact power_below (ih _) (ih _)
      | factorial => exact factorial_below (ih _) (ih _)
      | primary => exact primary_below (ih _)
      | _ => exact joined_below (ih _) _

theorem statements_below (h : Below item item') (fuel : Nat) (free : Bool) (ts : List Token) :
    Cut (statements item free fuel ts) (statements item' free fuel ts) := by
  induction fuel generalizing free ts with
  | zero => exact .refl _
  | succ fuel ih =>
      unfold statements
      split
      · exact .refl _
      · exact (ih _ _).map
      · exact (ih _ _).map
      · split
        · exact .refl _
        · rcases h .outermost ts with hr | hr <;> rw [hr]
          · exact .deep _
          · split
            · exact .refl _
            · exact (ih _ _).map

theorem block_below (h : Below item item') (ts : List Token) :
    Cut (block item ts) (block item' ts) := by
  unfold block
  rcases statements_below h (ts.length + 1) true ts with hr | hr <;> rw [hr]
  · exact .deep _
  · exact .refl _

end Rule

theorem parseTokens_succ (depth : Nat) (ts : List Token) :
    Cut (parseTokens depth ts) (parseTokens (depth + 1) ts) := by
  unfold parseTokens
  rcases Rule.block_below (Rule.ofLevel_below depth .assignment) ts with hr | hr <;> rw [hr]
  · exact .deep _
  · exact .refl _

/-- What a parser finds within some depth, others find too or run out of depth. -/
theorem parseTokens_cut {depth depth' : Nat} (hd : depth ≤ depth') (ts : List Token) :
    Cut (parseTokens depth ts) (parseTokens depth' ts) := by
  induction hd with
  | refl => exact .refl _
  | step _ ih =>
      rename_i m _
      rcases ih with h | h
      · exact .inl h
      · rw [h]
        exact parseTokens_succ _ ts

end MetricBridge.Formula
