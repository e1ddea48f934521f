import MetricBridge.Formula.Grammar
import MetricBridge.Proofs.Except

namespace MetricBridge.Formula

/-- The property is kept when tokens are passed over, and what can be reported where tokens have it is
one of the failures. -/
structure Guards (Fine : List Token → Prop) (Bad : Failure → Prop) : Prop where
  settle : ∀ {s us}, Fine us → Fine (settle s us)
  passed : ∀ {us}, Fine us → Fine (passed us)
  fault : ∀ {us} (fault : SyntaxFault), Fine us → Bad (.syntaxError ⟨fault, (front us).position⟩)
  number : ∀ {us literal e}, Fine us → (front us).lexeme = .number literal →
    Rule.number literal = .error e → Bad e
  tooDeep : Bad .tooDeep

inductive Leads (Fine : List Token → Prop) (Bad : Failure → Prop) {α : Type}
    (left : α → List Token) : Except Failure α → Prop
  | read (a : α) (h : Fine (left a)) : Leads Fine Bad left (.ok a)
  | failed {e : Failure} (h : Bad e) : Leads Fine Bad left (.error e)

variable {Fine : List Token → Prop} {Bad : Failure → Prop} {s : Surroundings}
  {us rest : List Token} {d : Delimiter} {table : OperatorTable} {op : Text} {fn : Operation}

namespace Leads

variable {α β : Type} {left : α → List Token} {left' : β → List Token} {x : Except Failure α}

theorem leaves {a : α} (h : Leads Fine Bad left x) (hx : x = .ok a) : Fine (left a) := by
  subst hx
  cases h with
  | read _ hfine => exact hfine

theorem fails {e : Failure} (h : Leads Fine Bad left x) (hx : x = .error e) : Bad e := by
  subst hx
  cases h with
  | failed hbad => exact hbad

theorem error {e : Failure} (h : Leads Fine Bad left x) (hx : x = .error e) :
    Leads Fine Bad left' (.error e : Except Failure β) :=
  .failed (h.fails hx)

theorem done {a : α} {b : β} (h : Leads Fine Bad left x) (hx : x = .ok a) (hb : left' b = left a) :
    Leads Fine Bad left' (.ok b) :=
  .read b (hb ▸ h.leaves hx)

theorem map {f : α → β} (h : Leads Fine Bad left x) (hf : ∀ a, left' (f a) = left a) :
    Leads Fine Bad left' (x.map f) := by
  cases h with
  | read a hfine => exact .read (f a) (hf a ▸ hfine)
  | failed hbad => exact .failed hbad

end Leads

namespace Guards

variable (g : Guards Fine Bad)
include g

theorem fail {α : Type} {left : α → List Token} (fault : SyntaxFault) (h : Fine us) :
    Leads Fine Bad left (Formula.fail fault (front us)) :=
  .failed (g.fault fault h)

theorem next (h : Fine us) : Fine (Formula.passed (Formula.settle s us)) := g.passed (g.settle h)

theorem after? (h : Fine us) (hd : after? s d us = some rest) : Fine rest := by
  unfold Formula.after? at hd
  dsimp only at hd
  split at hd
  · cases hd
    exact g.next h
  · cases hd

theorem operatorAt? (h : Fine us) (hop : operatorAt? s table us = some (op, fn, rest)) :
    Fine rest := by
  unfold Formula.operatorAt? at hop
  dsimp only at hop
  split at hop
  · cases hop
  · obtain ⟨_, -, hpair⟩ := Option.map_eq_some_iff.mp hop
    cases hpair
    exact g.next h

theorem expect (h : Fine us) : Leads Fine Bad id (expect s d us) := by
  unfold Formula.expect
  split
  · rename_i hd
    exact .read _ (g.after? h hd)
  · exact g.fail _ (g.settle h)

end Guards

namespace Rule

def Guarded (Fine : List Token → Prop) (Bad : Failure → Prop) (rule : Rule) : Prop :=
  ∀ ⦃s us⦄, Fine us → Leads Fine Bad Prod.snd (rule s us)

variable {operand item first second : Rule} {e : Expr} {fuel : Nat}

section

variable (g : Guards Fine Bad)
include g

theorem joinOnto_guarded (h : Guarded Fine Bad operand) (hus : Fine us) :
    Leads Fine Bad Prod.snd (joinOnto operand table s fuel e us) := by
  induction fuel generalizing e us with
  | zero => exact .read _ hus
  | succ fuel ih =>
      unfold joinOnto
      split
      · exact .read _ hus
      · rename_i hop
        have hright := h (s := s) (g.operatorAt? hus hop)
        split
        · rename_i hx
          exact hright.error hx
        · rename_i hx
          exact ih (hright.leaves hx)

theorem joined_guarded (h : Guarded Fine Bad operand) (table : OperatorTable) :
    Guarded Fine Bad (joined operand table) := by
  intro s us hus
  have hleft := h (s := s) hus
  unfold joined
  split
  · rename_i hx
    exact hleft.error hx
  · rename_i hx
    exact joinOnto_guarded g h (hleft.leaves hx)

theorem assignment_guarded (h : Guarded Fine Bad first) (h' : Guarded Fine Bad second) :
    Guarded Fine Bad (assignment first second) := by
  intro s us hus
  have hleft := h (s := s) hus
  unfold assignment
  split
  · rename_i hx
    exact hleft.error hx
  · rename_i hx
    have hsign := hleft.leaves hx
    split
    · exact hleft.done hx rfl
    · rename_i hd
      have hright := h' (s := s) (g.after? hsign hd)
      split
      · rename_i hx
        exact hright.error hx
      · rename_i hx
        split
        · exact hright.done hx rfl
        · exact g.fail _ (g.settle hsign)

theorem conditional_guarded (h : Guarded Fine Bad first) (h' : Guarded Fine Bad second) :
    Guarded Fine Bad (conditional first second) := by
  intro s us hus
  have hcondition := h (s := s) hus
  unfold conditional
  split
  · rename_i hx
    exact hcondition.error hx
  · rename_i hx
    split
    · exact hcondition.done hx rfl
    · rename_i hd
      have htrue := h' (s := s.branch) (g.after? (hcondition.leaves hx) hd)
      split
      · rename_i hx
        exact htrue.error hx
      · rename_i hx
        split
        · exact g.fail _ (g.settle (htrue.leaves hx))
        · rename_i hd
          have hfalse := h' (s := s) (g.after? (htrue.leaves hx) hd)
          split
          · rename_i hx
            exact hfalse.error hx
          · rename_i hx
            exact hfalse.done hx rfl

theorem comparisons_guarded (h : Guarded Fine Bad operand) (fuel : Nat) (hus : Fine us) :
    Leads Fine Bad Prod.snd (comparisons operand s fuel us) := by
  induction fuel generalizing us with
  | zero => exact .read _ hus
  | succ fuel ih =>
      unfold comparisons
      split
      · exact .read _ hus
      · rename_i hop
        have hright := h (s := s) (g.operatorAt? hus hop)
        split
        · rename_i hx
          exact hright.error hx
        · rename_i hx
          have hmore := ih (hright.leaves hx)
          split
          · rename_i hx
            exact hmore.error hx
          · rename_i hx
            exact hmore.done hx rfl

theorem relational_guarded (h : Guarded Fine Bad operand) :
    Guarded Fine Bad (relational operand) := by
  intro s us hus
  have hleft := h (s := s) hus
  unfold relational
  split
  · rename_i hx
    exact hleft.error hx
  · rename_i left us' hx
    have hlinks := comparisons_guarded g (s := s) h (us'.length + 1) (hleft.leaves hx)
    split
    · rename_i hx
      exact hlinks.error hx
    all_goals
      rename_i hx
      exact hlinks.done hx rfl

theorem range_guarded (h : Guarded Fine Bad operand) : Guarded Fine Bad (range operand) := by
  intro s us hus
  have hfirst := h (s := s) hus
  unfold range
  split
  · rename_i hx
    exact hfirst.error hx
  · rename_i hx
    split
    · exact hfirst.done hx rfl
    · split
      · exact hfirst.done hx rfl
      · rename_i hd
        have hsecond := h (s := s) (g.after? (hfirst.leaves hx) hd)
        split
        · rename_i hx
          exact hsecond.error hx
        · rename_i hx
          split
          · exact hsecond.done hx rfl
          · rename_i hd
            have hthird := h (s := s) (g.after? (hsecond.leaves hx) hd)
            split
            · rename_i hx
              exact hthird.error hx
            · rename_i hx
              exact hthird.done hx rfl

theorem unary_guarded (h : Guarded Fine Bad first) (h' : Guarded Fine Bad second) :
    Guarded Fine Bad (unary first second) := by
  intro s us hus
  unfold unary
  split
  · exact h' hus
  · rename_i hop
    have harg := h (s := s) (g.operatorAt? hus hop)
    split
    · rename_i hx
      exact harg.error hx
    · rename_i hx
      exact harg.done hx rfl

theorem power_guarded (h : Guarded Fine Bad first) (h' : Guarded Fine Bad second) :
    Guarded Fine Bad (power first second) := by
  intro s us hus
  have hbase := h (s := s) hus
  unfold power
  split
  · rename_i hx
    exact hbase.error hx
  · rename_i hx
    split
    · exact hbase.done hx rfl
    · rename_i hop
      have hexponent := h' (s := s) (g.operatorAt? (hbase.leaves hx) hop)
      split
      · rename_i hx
        exact hexponent.error hx
      · rename_i hx
        exact hexponent.done hx rfl

theorem listed_guarded (h : Guarded Fine Bad item) (fuel : Nat) (hus : Fine us) :
    Leads Fine Bad Prod.snd (listed item fuel us) := by
  induction fuel generalizing us with
  | zero => exact .read _ hus
  | succ fuel ih =>
      have hitem := h (s := .group) hus
      unfold listed
      split
      · rename_i hx
        exact hitem.error hx
      · rename_i hx
        split
        · exact hitem.done hx rfl
        · rename_i hd
          have hmore := ih (g.after? (hitem.leaves hx) hd)
          split
          · rename_i hx
            exact hmore.error hx
          · rename_i hx
            exact hmore.done hx rfl

theorem enclosed_guarded (h : Guarded Fine Bad item) (closing : Delimiter) (hus : Fine us) :
    Leads Fine Bad Prod.snd (enclosed item closing us) := by
  have hitems := listed_guarded g h (us.length + 1) hus
  unfold enclosed
  split
  · rename_i hd
    exact .read _ (g.after? hus hd)
  · split
    · rename_i hx
      exact hitems.error hx
    · rename_i hx
      have hclose := g.expect (s := .group) (d := closing) (hitems.leaves hx)
      split
      · rename_i hx
        exact hclose.error hx
      · rename_i hx
        exact .read _ (hclose.leaves hx)

theorem accessorsOnto_guarded (h : Guarded Fine Bad item) (fuel : Nat) (hus : Fine us) :
    Leads Fine Bad Prod.snd (accessorsOnto item s fuel e us) := by
  induction fuel generalizing e us with
  | zero => exact .read _ hus
  | succ fuel ih =>
      have hnext := g.next (s := s) hus
      unfold accessorsOnto
      dsimp only
      split
      · have hargs := enclosed_guarded g h .closeParen hnext
        split
        · split
          · rename_i hx
            exact hargs.error hx
          · rename_i hx
            exact ih (hargs.leaves hx)
        · exact .read _ hus
      · have hdimensions := enclosed_guarded g h .closeBracket hnext
        split
        · rename_i hx
          exact hdimensions.error hx
        · exact g.fail _ (g.settle hus)
        · rename_i hx
          exact ih (hdimensions.leaves hx)
      · split
        · exact ih (g.next hnext)
        · exact g.fail _ (g.settle hnext)
      · exact .read _ hus

theorem factorialsOnto_guarded (hus : Fine us) : Fine (factorialsOnto s fuel e us).2 := by
  induction fuel generalizing e us with
  | zero => exact hus
  | succ fuel ih =>
      unfold factorialsOnto
      split
      · exact hus
      · rename_i hop
        exact ih (g.operatorAt? hus hop)

theorem factorial_guarded (h : Guarded Fine Bad first) (h' : Guarded Fine Bad item) :
    Guarded Fine Bad (factorial first item) := by
  intro s us hus
  have hprimary := h (s := s) hus
  unfold factorial
  split
  · rename_i hx
    exact hprimary.error hx
  · rename_i e us' hx
    have haccessors :=
      accessorsOnto_guarded g (s := s) (e := e) h' (us'.length + 1) (hprimary.leaves hx)
    split
    · rename_i hx
      exact haccessors.error hx
    · rename_i hx
      exact .read _ (factorialsOnto_guarded g (haccessors.leaves hx))

theorem properties_guarded (h : Guarded Fine Bad item) (isFirst : Bool) (fuel : Nat)
    (hus : Fine us) : Leads Fine Bad Prod.snd (properties item isFirst fuel us) := by
  induction fuel generalizing isFirst us with
  | zero => exact .read _ hus
  | succ fuel ih =>
      have hseparator : Leads Fine Bad id
          (if isFirst = true then .ok us else expect .group .comma us) := by
        split
        · exact .read _ hus
        · exact g.expect hus
      unfold properties
      dsimp only
      split
      · rename_i hd
        exact .read _ (g.after? hus hd)
      · split
        · rename_i hx
          exact hseparator.error hx
        · rename_i hx
          have hkey := g.settle (s := .group) (hseparator.leaves hx)
          split
          · exact g.fail _ hkey
          · have hcolon := g.expect (s := .group) (d := .colon) (g.passed hkey)
            split
            · rename_i hx
              exact hcolon.error hx
            · rename_i hx
              have hvalue := h (s := .group) (hcolon.leaves hx)
              split
              · rename_i hx
                exact hvalue.error hx
              · rename_i hx
                have hmore := ih false (hvalue.leaves hx)
                split
                · rename_i hx
                  exact hmore.error hx
                · rename_i hx
                  exact hmore.done hx rfl

theorem primary_guarded (h : Guarded Fine Bad item) : Guarded Fine Bad (primary item) := by
  intro s us hus
  have hhere := g.settle (s := s) hus
  have hnext := g.passed hhere
  unfold primary
  dsimp only
  split
  · rename_i literal hlexeme
    split
    · rename_i hx
      exact .failed (g.number hhere hlexeme hx)
    · exact .read _ hnext
  · exact .read _ hnext
  · split
    · exact g.fail _ hhere
    · split
      · exact .read _ hnext
      · exact .read _ hnext
  · have hcontent := h (s := .group) hnext
    split
    · rename_i hx
      exact hcontent.error hx
    · rename_i hx
      have hclose := g.expect (s := .group) (d := .closeParen) (hcontent.leaves hx)
      split
      · rename_i hx
        exact hclose.error hx
      · rename_i hx
        exact .read _ (hclose.leaves hx)
  · have hitems := enclosed_guarded g h .closeBracket hnext
    split
    · rename_i hx
      exact hitems.error hx
    · rename_i hx
      exact hitems.done hx rfl
  · have hproperties :=
      properties_guarded g h true ((passed (settle s us)).length + 1) hnext
    split
    · rename_i hx
      exact hproperties.error hx
    · rename_i hx
      exact hproperties.done hx rfl
  · exact g.fail _ hhere
  · exact g.fail _ hhere

theorem ofLevel_guarded (depth : Nat) (level : Level) : Guarded Fine Bad (ofLevel depth level) := by
  induction depth generalizing level with
  | zero => exact fun _ _ _ => .failed g.tooDeep
  | succ depth ih =>
      cases level with
      | assignment => exact assignment_guarded g (ih _) (ih _)
      | conditional => exact conditional_guarded g (ih _) (ih _)
      | relational => exact relational_guarded g (ih _)
      | range => exact range_guarded g (ih _)
      | unary => exact unary_guarded g (ih _) (ih _)
      | power => exact power_guarded g (ih _) (ih _)
      | factorial => exact factorial_guarded g (ih _) (ih _)
      | primary => exact primary_guarded g (ih _)
      | _ => exact joined_guarded g (ih _) _

theorem statements_guarded (h : Guarded Fine Bad item) (free : Bool) (fuel : Nat) (hus : Fine us) :
    Leads Fine Bad (fun r : List Expr × Bool × List Token => r.2.2)
      (statements item free fuel us) := by
  induction fuel generalizing free us with
  | zero => exact .read _ hus
  | succ fuel ih =>
      unfold statements
      split
      · exact .read _ hus
      · exact (ih _ (g.passed hus)).map fun _ => rfl
      · exact (ih _ (g.passed hus)).map fun _ => rfl
      · split
        · exact .read _ hus
        · have hitem := h (s := .outermost) hus
          split
          · rename_i hx
            exact hitem.error hx
          · rename_i hx
            exact (ih _ (hitem.leaves hx)).map fun _ => rfl

theorem block_guarded (h : Guarded Fine Bad item) (hus : Fine us) :
    Leads Fine Bad Prod.snd (block item us) := by
  have hstatements := statements_guarded g h true (us.length + 1) hus
  unfold block
  split
  · rename_i hx
    exact hstatements.error hx
  · rename_i hx
    exact g.fail _ (hstatements.leaves hx)
  all_goals
    rename_i hx
    exact hstatements.done hx rfl

end

end Rule

/-- The parser fails only with the failures that the guards allow. -/
theorem Guards.parseTokens (g : Guards Fine Bad) (hus : Fine us) {depth : Nat} {e : Failure}
    (h : parseTokens depth us = .error e) : Bad e := by
  have hblock := Rule.block_guarded g (Rule.ofLevel_guarded g depth .assignment) hus
  unfold Formula.parseTokens at h
  split at h
  · rename_i hx
    cases h
    exact hblock.fails hx
  · rename_i hx
    dsimp only at h
    split at h
    · cases h
    · cases h
      exact g.fault _ (hblock.leaves hx)

end MetricBridge.Formula
