import MetricBridge.Formula.CalculatedField
import MetricBridge.Proofs.Except

namespace MetricBridge.Formula

theorem refuse_ne_ok {α : Type} {depth : Nat} {refusal : Refusal} {e : Expr} {a : α} :
    refuse depth refusal e ≠ .ok a := by
  unfold refuse
  split <;> nofun

namespace Expr

variable {n : Nat} {e left right condition whenTrue whenFalse content callee first arg : Expr}
  {args params : List Expr} {op t : Text} {ops : List Text} {fn : Operation}
  {fns : List Operation} {v : Literal} {links more : List Link}

def isEmitted : Expr → Bool
  | constant _ | symbol _ | accessor .. | conditional .. | operator .. | parenthesis _
  | relational .. | call .. => true
  | _ => false

theorem isEmitted_of_emit (h : emit n e = .ok t) : e.isEmitted = true := by
  cases n with
  | zero => cases h
  | succ n => cases e <;> first | rfl | exact absurd h refuse_ne_ok

theorem emit_constant (h : emit n (.constant v) = .ok t) : t = v.text := by
  cases n with
  | zero => cases h
  | succ n => exact (Except.ok.inj h).symm

theorem emit_symbol {name : Text} (h : emit n (.symbol name) = .ok t) : t = name := by
  cases n with
  | zero => cases h
  | succ n => exact (Except.ok.inj h).symm

theorem emit_conditional (h : emit n (.conditional condition whenTrue whenFalse) = .ok t) :
    ∃ m a b c, emit m condition = .ok a ∧ emit m whenTrue = .ok b ∧ emit m whenFalse = .ok c ∧
      t = lit "IF(" ++ a ++ lit ", " ++ b ++ lit ", " ++ c ++ lit ")" := by
  cases n with
  | zero => cases h
  | succ n =>
      obtain ⟨a, ha, h⟩ := bind_eq_ok.mp h
      obtain ⟨b, hb, h⟩ := bind_eq_ok.mp h
      obtain ⟨c, hc, h⟩ := bind_eq_ok.mp h
      exact ⟨n, a, b, c, ha, hb, hc, (pure_eq_ok.mp h).symm⟩

theorem emit_parenthesis (h : emit n (.parenthesis content) = .ok t) :
    ∃ m a, emit m content = .ok a ∧ t = lit "(" ++ a ++ lit ")" := by
  cases n with
  | zero => cases h
  | succ n =>
      obtain ⟨a, ha, h⟩ := bind_eq_ok.mp h
      exact ⟨n, a, ha, (pure_eq_ok.mp h).symm⟩

theorem emit_unary (h : emit n (.operator op fn [arg]) = .ok t) :
    ∃ m a, emit m arg = .ok a ∧ t =
      if fn = .factorial then a ++ op
      else if isWordText op then op ++ lit " " ++ a
      else op ++ a := by
  cases n with
  | zero => cases h
  | succ n =>
      obtain ⟨-, -, h⟩ := bind_eq_ok.mp h
      obtain ⟨a, ha, h⟩ := bind_eq_ok.mp h
      exact ⟨n, a, ha, (pure_eq_ok.mp h).symm⟩

theorem emit_call (h : emit n (.call callee args) = .ok t) :
    ∃ m name target parts, callee = .symbol name ∧ functionName? name = some target ∧
      args.mapM (emit m) = .ok parts ∧
        t = target ++ lit "(" ++ commaSeparated parts ++ lit ")" := by
  cases n with
  | zero => cases h
  | succ n =>
      unfold emit at h
      dsimp only at h
      split at h
      · rename_i target htarget
        obtain ⟨parts, hparts, h⟩ := bind_eq_ok.mp h
        split at htarget
        · rename_i name
          exact ⟨n, name, target, parts, rfl, htarget, hparts, (pure_eq_ok.mp h).symm⟩
        · cases htarget
      · split at h
        · cases h
        · exact absurd h refuse_ne_ok

theorem emit_relational (h : emit n (.relational fns (first :: params) ops) = .ok t) :
    ∃ m whole a b, emit m first = .ok a ∧
      emitComparisons (emit m) m whole fns params = .ok b ∧ t = a ++ b := by
  cases n with
  | zero => cases h
  | succ n =>
      obtain ⟨a, ha, h⟩ := bind_eq_ok.mp h
      obtain ⟨b, hb, h⟩ := bind_eq_ok.mp h
      exact ⟨n, _, a, b, ha, hb, (pure_eq_ok.mp h).symm⟩

theorem emitComparisons_cons {emit : Expr → Emission} {depth : Nat} {whole : Expr}
    (h : emitComparisons emit depth whole (fn :: fns) (arg :: args) = .ok t) :
    ∃ sign a more, fn.symbol? = some sign ∧ emit arg = .ok a ∧
      emitComparisons emit depth whole fns args = .ok more ∧
      t = lit " " ++ sign ++ lit " " ++ a ++ more := by
  unfold emitComparisons at h
  split at h
  · exact absurd h refuse_ne_ok
  · rename_i sign hsign
    obtain ⟨a, ha, h⟩ := bind_eq_ok.mp h
    obtain ⟨more, hmore, h⟩ := bind_eq_ok.mp h
    exact ⟨sign, a, more, hsign, ha, hmore, (pure_eq_ok.mp h).symm⟩

theorem spineOnto_append (e : Expr) (links more : List Link) :
    spineOnto e (links ++ more) = ((spineOnto e links).1, (spineOnto e links).2 ++ more) := by
  fun_induction spineOnto e links with
  | case1 op fn left right links ih => rw [spineOnto, ← List.cons_append, ih]
  | case2 e links h =>
      unfold spineOnto
      split
      · exact (h _ _ _ _ rfl).elim
      · rfl

def emitChain (n : Nat) (e : Expr) : Emission := do
  e.spine.2.forM fun link => checkLink n link.op link.fn link.whole
  let first ← emit n e.spine.1
  let rest ← e.spine.2.mapM fun link =>
    return lit " " ++ link.op ++ lit " " ++ (← emit n link.right)
  return first ++ rest.flatten

theorem emit_of_emitChain (h : emitChain n e = .ok t) : ∃ m, emit m e = .ok t := by
  by_cases hbinary : ∃ op fn left right, e = .operator op fn [left, right]
  · obtain ⟨op, fn, left, right, rfl⟩ := hbinary
    exact ⟨n + 1, h⟩
  · have hspine : e.spine = (e, []) := by
      unfold spine spineOnto
      split
      · exact absurd ⟨_, _, _, _, rfl⟩ hbinary
      · rfl
    unfold emitChain at h
    rw [hspine] at h
    obtain ⟨-, -, h⟩ := bind_eq_ok.mp h
    obtain ⟨a, ha, h⟩ := bind_eq_ok.mp h
    obtain ⟨rest, hrest, h⟩ := bind_eq_ok.mp h
    cases hrest
    have hat : a ++ [].flatten = t := pure_eq_ok.mp h
    rw [List.flatten_nil, List.append_nil] at hat
    exact ⟨n, hat ▸ ha⟩

theorem emit_binary (h : emit n (.operator op fn [left, right]) = .ok t) :
    ∃ m m' a b, emit m left = .ok a ∧ emit m' right = .ok b ∧
      t = a ++ (lit " " ++ op ++ lit " " ++ b) := by
  cases n with
  | zero => cases h
  | succ n =>
      have hspine : (operator op fn [left, right]).spine = (left.spine.1,
          left.spine.2 ++ [⟨op, fn, right, .operator op fn [left, right]⟩]) :=
        spineOnto_append left [] _
      have h : emitChain n (.operator op fn [left, right]) = .ok t := h
      unfold emitChain at h
      rw [hspine] at h
      obtain ⟨u, hchecks, h⟩ := bind_eq_ok.mp h
      rw [List.forM_eq_forM, List.forM_append] at hchecks
      obtain ⟨v, hchecks, -⟩ := bind_eq_ok.mp hchecks
      obtain ⟨a, ha, h⟩ := bind_eq_ok.mp h
      obtain ⟨rest, hrest, h⟩ := bind_eq_ok.mp h
      rw [List.mapM_append] at hrest
      obtain ⟨links, hlinks, hrest⟩ := bind_eq_ok.mp hrest
      obtain ⟨last, hlast, hrest⟩ := bind_eq_ok.mp hrest
      rw [List.mapM_cons, List.mapM_nil] at hlast
      obtain ⟨piece, hpiece, hlast⟩ := bind_eq_ok.mp hlast
      obtain ⟨b, hb, hpiece⟩ := bind_eq_ok.mp hpiece
      cases hpiece
      cases hlast
      cases hrest
      have hleft : emitChain n left = .ok (a ++ links.flatten) :=
        bind_eq_ok.mpr ⟨v, hchecks, bind_eq_ok.mpr ⟨a, ha, bind_eq_ok.mpr ⟨links, hlinks, rfl⟩⟩⟩
      obtain ⟨m, hm⟩ := emit_of_emitChain hleft
      refine ⟨m, n, a ++ links.flatten, b, hm, hb, ?_⟩
      rw [← pure_eq_ok.mp h]
      simp

end Expr

end MetricBridge.Formula
