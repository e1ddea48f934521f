import MetricBridge.Formula.Grammar
import MetricBridge.Proofs.Formula.Terminal

namespace MetricBridge.Formula

namespace Level

def rank : Level → Nat
  | assignment => 0 | conditional => 1 | or => 2 | xor => 3 | and => 4 | bitOr => 5 | bitXor => 6
  | bitAnd => 7 | relational => 8 | shift => 9 | conversion => 10 | range => 11 | additive => 12
  | multiplicative => 13 | unary => 14 | power => 15 | factorial => 16 | primary => 17

def all : List Level :=
  [assignment, conditional, or, xor, and, bitOr, bitXor, bitAnd, relational, shift, conversion,
    range, additive, multiplicative, unary, power, factorial, primary]

theorem rank_le_next (level : Level) : level.rank ≤ level.next.rank := by
  cases level <;> decide

theorem rank_next {level : Level} (h : level ≠ primary) : level.next.rank = level.rank + 1 := by
  cases level <;> first | rfl | exact absurd rfl h

theorem rank_le (level : Level) : level.rank ≤ primary.rank := by
  cases level <;> decide

theorem eq_of_rank_eq {level level' : Level} (h : level.rank = level'.rank) : level = level' := by
  have hall : ∀ k : Level, all[k.rank]? = some k := fun k => by cases k <;> rfl
  have hlevel := hall level
  rw [h, hall level'] at hlevel
  exact (Option.some.inj hlevel).symm

end Level

/-- Some lexeme stands for the constant. Every string is written by a lexeme; a number has to be
the value of a literal. -/
def Literal.IsWritten (v : Literal) : Prop := ∃ l : Lexeme, l.Denotes v.terminal

/-- The tree has the level, within `depth` nested rules. In the branch of a conditional that awaits
its colon no range stands outside of brackets, hence the flag. At the level of primaries calls,
brackets and dots are included. -/
inductive Expr.Fits : Nat → Level → Bool → Expr → Prop
  | tighter {depth level awaits e} (hl : level ≠ .primary)
      (he : Fits depth level.next awaits e) : Fits (depth + 1) level awaits e
  | assignment {depth awaits target value} (hs : Rule.isCallable target = true)
      (ht : Fits depth .conditional awaits target) (hv : Fits depth .assignment awaits value) :
      Fits (depth + 1) .assignment awaits (.assignment target value)
  | definition {depth awaits name params body}
      (ht : Fits depth .conditional awaits (.call (.symbol name) (params.map .symbol)))
      (hb : Fits depth .assignment awaits body) :
      Fits (depth + 1) .assignment awaits (.definition name params body)
  | conditional {depth awaits condition whenTrue whenFalse}
      (hc : Fits depth .or awaits condition) (ht : Fits depth .assignment true whenTrue)
      (hf : Fits depth .assignment awaits whenFalse) :
      Fits (depth + 1) .conditional awaits (.conditional condition whenTrue whenFalse)
  | join {depth level awaits op fn left right} (hl : level ≠ .relational)
      (hop : (op, fn) ∈ level.joining) (ha : Fits (depth + 1) level awaits left)
      (hb : Fits depth level.next awaits right) :
      Fits (depth + 1) level awaits (.operator op fn [left, right])
  | comparison {depth awaits op fn left right} (hop : (op, fn) ∈ Level.relational.joining)
      (ha : Fits depth .shift awaits left) (hb : Fits depth .shift awaits right) :
      Fits (depth + 1) .relational awaits (.operator op fn [left, right])
  | comparisons {depth awaits first} {links : List (Text × Operation × Expr)}
      (hlen : 2 ≤ links.length) (hfirst : Fits depth .shift awaits first)
      (hops : ∀ k ∈ links, (k.1, k.2.1) ∈ Level.relational.joining)
      (hlinks : ∀ k ∈ links, Fits depth .shift awaits k.2.2) :
      Fits (depth + 1) .relational awaits
        (.relational (links.map (·.2.1)) (first :: links.map (·.2.2)) (links.map (·.1)))
  | range {depth first last} (ha : Fits depth .additive false first)
      (hb : Fits depth .additive false last) :
      Fits (depth + 1) .range false (.range first none last)
  | stepped {depth first step last} (ha : Fits depth .additive false first)
      (hs : Fits depth .additive false step) (hb : Fits depth .additive false last) :
      Fits (depth + 1) .range false (.range first (some step) last)
  | sign {depth awaits op fn arg} (hop : (op, fn) ∈ Level.unaryTable)
      (he : Fits depth .unary awaits arg) : Fits (depth + 1) .unary awaits (.operator op fn [arg])
  | power {depth awaits op fn base exponent} (hop : (op, fn) ∈ Level.powerTable)
      (ha : Fits depth .factorial awaits base) (hb : Fits depth .unary awaits exponent) :
      Fits (depth + 1) .power awaits (.operator op fn [base, exponent])
  | factorial {depth awaits op fn arg} (hop : (op, fn) ∈ Level.factorialTable)
      (he : Fits (depth + 1) .factorial awaits arg) :
      Fits (depth + 1) .factorial awaits (.operator op fn [arg])
  | call {depth awaits callee args} (hs : Rule.isCallable callee = true)
      (hc : Fits depth .primary awaits callee) (ha : ∀ a ∈ args, Fits depth .assignment false a) :
      Fits depth .primary awaits (.call callee args)
  | brackets {depth awaits base dimensions} (hne : dimensions ≠ [])
      (hb : Fits depth .primary awaits base)
      (hd : ∀ a ∈ dimensions, Fits depth .assignment false a) :
      Fits depth .primary awaits (.accessor base (.index dimensions false))
  | dot {depth awaits base name} (hb : Fits depth .primary awaits base) :
      Fits depth .primary awaits (.accessor base (.index [.constant (.string name)] true))
  | constant {depth awaits v} (hv : v.IsWritten) : Fits (depth + 1) .primary awaits (.constant v)
  | symbol {depth awaits name} (hw : isWordOperator name = false)
      (hc : Rule.namedConstant? name = none) : Fits (depth + 1) .primary awaits (.symbol name)
  | parenthesis {depth awaits content} (hc : Fits depth .assignment false content) :
      Fits (depth + 1) .primary awaits (.parenthesis content)
  | array {depth awaits items} (hi : ∀ a ∈ items, Fits depth .assignment false a) :
      Fits (depth + 1) .primary awaits (.array items)
  | object {depth awaits} {properties : List (Text × Expr)}
      (hp : ∀ p ∈ properties, Fits depth .assignment false p.2) :
      Fits (depth + 1) .primary awaits (.object properties)

namespace Expr.Fits

variable {depth depth' : Nat} {level level' : Level} {awaits : Bool} {e : Expr}

theorem succ (h : Fits depth level awaits e) : Fits (depth + 1) level awaits e := by
  induction h with
  | tighter hl _ ih => exact .tighter hl ih
  | assignment hs _ _ iht ihv => exact .assignment hs iht ihv
  | definition _ _ iht ihb => exact .definition iht ihb
  | conditional _ _ _ ihc iht ihf => exact .conditional ihc iht ihf
  | join hl hop _ _ iha ihb => exact .join hl hop iha ihb
  | comparison hop _ _ iha ihb => exact .comparison hop iha ihb
  | comparisons hlen _ hops _ ihfirst ihlinks => exact .comparisons hlen ihfirst hops ihlinks
  | range _ _ iha ihb => exact .range iha ihb
  | stepped _ _ _ iha ihs ihb => exact .stepped iha ihs ihb
  | sign hop _ ih => exact .sign hop ih
  | power hop _ _ iha ihb => exact .power hop iha ihb
  | factorial hop _ ih => exact .factorial hop ih
  | call hs _ _ ihc iha => exact .call hs ihc iha
  | brackets hne _ _ ihb ihd => exact .brackets hne ihb ihd
  | dot _ ih => exact .dot ih
  | constant hv => exact .constant hv
  | symbol hw hc => exact .symbol hw hc
  | parenthesis _ ih => exact .parenthesis ih
  | array _ ih => exact .array ih
  | object _ ih => exact .object ih

theorem mono (h : Fits depth level awaits e) (hd : depth ≤ depth') :
    Fits depth' level awaits e := by
  induction hd with
  | refl => exact h
  | step _ ih => exact ih.succ

theorem loosen {k : Nat} (h : Fits depth level' awaits e) (hk : level.rank + k = level'.rank) :
    Fits (depth + k) level awaits e := by
  induction k generalizing level with
  | zero => rwa [Level.eq_of_rank_eq hk]
  | succ k ih =>
      have hl : level ≠ .primary := by
        rintro rfl
        have := level'.rank_le
        omega
      refine .tighter hl (ih ?_)
      rw [Level.rank_next hl]
      omega

theorem freed (h : Fits depth level awaits e) : Fits depth level false e := by
  induction h with
  | tighter hl _ ih => exact .tighter hl ih
  | assignment hs _ _ iht ihv => exact .assignment hs iht ihv
  | definition _ _ iht ihb => exact .definition iht ihb
  | conditional _ ht _ ihc _ ihf => exact .conditional ihc ht ihf
  | join hl hop _ _ iha ihb => exact .join hl hop iha ihb
  | comparison hop _ _ iha ihb => exact .comparison hop iha ihb
  | comparisons hlen _ hops _ ihfirst ihlinks => exact .comparisons hlen ihfirst hops ihlinks
  | range ha hb => exact .range ha hb
  | stepped ha hs hb => exact .stepped ha hs hb
  | sign hop _ ih => exact .sign hop ih
  | power hop _ _ iha ihb => exact .power hop iha ihb
  | factorial hop _ ih => exact .factorial hop ih
  | call hs _ ha ihc _ => exact .call hs ihc ha
  | brackets hne _ hd ihb _ => exact .brackets hne ihb hd
  | dot _ ih => exact .dot ih
  | constant hv => exact .constant hv
  | symbol hw hc => exact .symbol hw hc
  | parenthesis hc => exact .parenthesis hc
  | array hi => exact .array hi
  | object hp => exact .object hp

end Expr.Fits

end MetricBridge.Formula
