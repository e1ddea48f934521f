import MetricBridge.Proofs.Formula.Emission
import MetricBridge.Proofs.Formula.Grammatical

namespace MetricBridge.Formula

namespace Expr

def isBinary : Expr → Bool
  | operator _ _ [_, _] => true
  | _ => false

mutual

/-- The number of nested nodes; a chain of binary operators counts as one. -/
def height : Expr → Nat
  | constant _ => 1
  | symbol _ => 1
  | index dimensions _ => 1 + heights dimensions
  | accessor base subscript => 1 + max (height base) (height subscript)
  | conditional condition whenTrue whenFalse =>
    1 + max (height condition) (max (height whenTrue) (height whenFalse))
  | operator _ _ [left, right] => 1 + max (height left - left.isBinary.toNat) (height right)
  | operator _ _ args => 1 + heights args
  | parenthesis content => 1 + height content
  | relational _ params _ => 1 + heights params
  | call callee args => 1 + max (height callee) (heights args)
  | array items => 1 + heights items
  | object properties => 1 + propertyHeights properties
  | assignment target value => 1 + max (height target) (height value)
  | definition _ _ body => 1 + height body
  | block statements => 1 + heights statements
  | range first step last => 1 + max (height first) (max (stepHeight step) (height last))
  | foreign _ => 1
termination_by structural e => e

def heights : List Expr → Nat
  | [] => 0
  | e :: es => max (height e) (heights es)
termination_by structural es => es

def propertyHeights : List (Text × Expr) → Nat
  | [] => 0
  | (_, e) :: ps => max (height e) (propertyHeights ps)
termination_by structural ps => ps

def stepHeight : Option Expr → Nat
  | none => 0
  | some e => height e
termination_by structural step => step

end

theorem height_le_heights {e : Expr} {es : List Expr} (h : e ∈ es) : e.height ≤ heights es := by
  induction es with
  | nil => cases h
  | cons e' es ih =>
      rw [heights]
      rcases List.mem_cons.mp h with rfl | h
      · exact Nat.le_max_left _ _
      · exact Nat.le_trans (ih h) (Nat.le_max_right _ _)

theorem height_le_propertyHeights {p : Text × Expr} {ps : List (Text × Expr)} (h : p ∈ ps) :
    p.2.height ≤ propertyHeights ps := by
  induction ps with
  | nil => cases h
  | cons p' ps ih =>
      rw [propertyHeights]
      rcases List.mem_cons.mp h with rfl | h
      · exact Nat.le_max_left _ _
      · exact Nat.le_trans (ih h) (Nat.le_max_right _ _)

theorem height_le_stepHeight {e : Expr} {step : Option Expr} (h : e ∈ step) :
    e.height ≤ stepHeight step := by
  cases h
  exact Nat.le_refl _

theorem height_pos (e : Expr) : 0 < e.height := by
  unfold height
  split <;> omega

/-- Each operator stands for a known operation, each chain of comparisons has an operand more than
comparisons, and what stands after an object is an index and nowhere else. -/
inductive Regular : Expr → Prop
  | constant {v} : Regular (.constant v)
  | symbol {name} : Regular (.symbol name)
  | accessor {base dimensions dot} (hb : Regular base) (hd : ∀ d ∈ dimensions, Regular d) :
      Regular (.accessor base (.index dimensions dot))
  | conditional {condition whenTrue whenFalse} (hc : Regular condition) (ht : Regular whenTrue)
      (hf : Regular whenFalse) : Regular (.conditional condition whenTrue whenFalse)
  | operator {op fn args} (hfn : fn.symbol?.isSome = true) (ha : ∀ a ∈ args, Regular a) :
      Regular (.operator op fn args)
  | parenthesis {content} (hc : Regular content) : Regular (.parenthesis content)
  | relational {fns first params ops} (hlength : fns.length = params.length)
      (hfns : ∀ fn ∈ fns, fn.symbol?.isSome = true) (hf : Regular first)
      (hp : ∀ p ∈ params, Regular p) : Regular (.relational fns (first :: params) ops)
  | call {callee args} (hc : Regular callee) (ha : ∀ a ∈ args, Regular a) :
      Regular (.call callee args)
  | array {items} (hi : ∀ i ∈ items, Regular i) : Regular (.array items)
  | object {properties : List (Text × Expr)} (hp : ∀ p ∈ properties, Regular p.2) :
      Regular (.object properties)
  | assignment {target value} (ht : Regular target) (hv : Regular value) :
      Regular (.assignment target value)
  | definition {name params body} (hb : Regular body) : Regular (.definition name params body)
  | block {statements} (hs : ∀ s ∈ statements, Regular s) : Regular (.block statements)
  | range {first step last} (hf : Regular first) (hs : ∀ s ∈ step, Regular s)
      (hl : Regular last) : Regular (.range first step last)

theorem symbol?_joining {op : Text} {fn : Operation} {level : Level}
    (hop : (op, fn) ∈ level.joining) : fn.symbol?.isSome = true := by
  have hall : ∀ level ∈ Level.all, ∀ entry ∈ level.joining, entry.2.symbol?.isSome = true := by
    decide
  exact hall level (by cases level <;> decide) _ hop

theorem Fits.regular {depth : Nat} {level : Level} {awaits : Bool} {e : Expr}
    (h : e.Fits depth level awaits) : e.Regular := by
  have hunary : ∀ {table : OperatorTable}, (∀ entry ∈ table, entry.2.symbol?.isSome = true) →
      ∀ {op fn arg}, (op, fn) ∈ table → Regular arg → Regular (.operator op fn [arg]) :=
    fun htable _ _ _ hop harg => .operator (htable _ hop) (List.forall_mem_singleton.mpr harg)
  have hbinary : ∀ {op fn left right}, fn.symbol?.isSome = true → Regular left → Regular right →
      Regular (.operator op fn [left, right]) :=
    fun hfn hleft hright =>
      .operator hfn (List.forall_mem_cons.mpr ⟨hleft, List.forall_mem_singleton.mpr hright⟩)
  induction h with
  | tighter _ _ ih => exact ih
  | assignment _ _ _ iht ihv => exact .assignment iht ihv
  | definition _ _ _ ihb => exact .definition ihb
  | conditional _ _ _ ihc iht ihf => exact .conditional ihc iht ihf
  | join _ hop _ _ iha ihb => exact hbinary (symbol?_joining hop) iha ihb
  | comparison hop _ _ iha ihb => exact hbinary (symbol?_joining hop) iha ihb
  | comparisons _ _ hops _ ihfirst ihlinks =>
      refine .relational (by simp) (List.forall_mem_map.mpr fun k hk => symbol?_joining (hops k hk))
        ihfirst (List.forall_mem_map.mpr ihlinks)
  | range _ _ iha ihb => exact .range iha nofun ihb
  | stepped _ _ _ iha ihs ihb => exact .range iha (by simpa using ihs) ihb
  | sign hop _ ih => exact hunary (by decide) hop ih
  | @power _ _ op fn base exponent hop _ _ iha ihb =>
      have htable : ∀ entry ∈ Level.powerTable, entry.2.symbol?.isSome = true := by decide
      exact hbinary (htable _ hop) iha ihb
  | factorial hop _ ih => exact hunary (by decide) hop ih
  | call _ _ _ ihc iha => exact .call ihc iha
  | brackets _ _ _ ihb ihd => exact .accessor ihb ihd
  | dot _ ih => exact .accessor ih (List.forall_mem_singleton.mpr .constant)
  | constant => exact .constant
  | symbol => exact .symbol
  | parenthesis _ ih => exact .parenthesis ih
  | array _ ih => exact .array ih
  | object _ ih => exact .object ih

/-- What holds of a tree and goes over to the left operands holds of the head of its chain, and what
holds of the operators on the way holds of the links. -/
theorem spineOnto_induction {P : Expr → Prop} {Q : Link → Prop} {e : Expr} {links : List Link}
    (hstep : ∀ op fn left right, P (.operator op fn [left, right]) →
      P left ∧ Q ⟨op, fn, right, .operator op fn [left, right]⟩)
    (he : P e) (hlinks : ∀ k ∈ links, Q k) :
    (P (spineOnto e links).1 ∧ (spineOnto e links).1.isBinary = false) ∧
      ∀ k ∈ (spineOnto e links).2, Q k := by
  fun_induction spineOnto e links with
  | case1 op fn left right links ih =>
      obtain ⟨hleft, hlink⟩ := hstep op fn left right he
      exact ih hleft (List.forall_mem_cons.mpr ⟨hlink, hlinks⟩)
  | case2 e links h =>
      refine ⟨⟨he, ?_⟩, hlinks⟩
      change e.isBinary = false
      unfold isBinary
      split
      · exact (h _ _ _ _ rfl).elim
      · rfl

theorem height_spine_lt {e : Expr} (hbinary : e.isBinary = true) :
    e.spine.1.height < e.height ∧ ∀ k ∈ e.spine.2, k.right.height < e.height := by
  let P : Expr → Prop := fun d => d.height - d.isBinary.toNat < e.height
  let Q : Link → Prop := fun k => k.right.height < e.height
  have hstep : ∀ op fn left right, P (.operator op fn [left, right]) →
      P left ∧ Q ⟨op, fn, right, .operator op fn [left, right]⟩ := by
    intro op fn left right hlt
    have hsub : 1 + max (left.height - left.isBinary.toNat) right.height - 1 < e.height := hlt
    rwa [Nat.add_sub_cancel_left, Nat.max_lt] at hsub
  have hstart : e.height - e.isBinary.toNat < e.height := by
    rw [hbinary]
    exact Nat.sub_lt e.height_pos Nat.one_pos
  obtain ⟨⟨hheight, hend⟩, hlinks⟩ := @spineOnto_induction P Q e [] hstep hstart nofun
  have hhead : (spineOnto e []).1.height - (spineOnto e []).1.isBinary.toNat < e.height := hheight
  rw [hend, Bool.toNat_false, Nat.sub_zero] at hhead
  exact ⟨hhead, hlinks⟩

theorem Regular.spine {e : Expr} (h : e.Regular) (hbinary : e.isBinary = true) :
    (e.spine.1.Regular ∧ e.spine.1.height < e.height) ∧ ∀ k ∈ e.spine.2,
      k.fn.symbol?.isSome = true ∧ k.right.Regular ∧ k.right.height < e.height := by
  let Q : Link → Prop := fun k => k.fn.symbol?.isSome = true ∧ k.right.Regular
  have hstep : ∀ op fn left right, Regular (.operator op fn [left, right]) →
      Regular left ∧ Q ⟨op, fn, right, .operator op fn [left, right]⟩ := by
    intro op fn left right hr
    cases hr with
    | operator hfn hargs => exact ⟨hargs _ (by simp), hfn, hargs _ (by simp)⟩
  obtain ⟨⟨hhead, -⟩, hlinks⟩ := @spineOnto_induction Regular Q e [] hstep h nofun
  obtain ⟨hheight, hheights⟩ := height_spine_lt hbinary
  exact ⟨⟨hhead, hheight⟩, fun k hk => ⟨(hlinks k hk).1, (hlinks k hk).2, hheights k hk⟩⟩

end Expr

def Settles {α : Type} (b n : Nat) (f : Nat → Except RenderFault α) : Prop :=
  (f n = .error .tooDeep ∧ n < b) ∨ ∃ a, ∀ m, n ≤ m → f m = .ok a

namespace Settles

variable {α β : Type} {b b' n : Nat}

theorem pure (a : α) : Settles b n fun _ => .ok a := .inr ⟨a, fun _ _ => rfl⟩

theorem mono {f : Nat → Except RenderFault α} (h : Settles b n f) (hb : b ≤ b') :
    Settles b' n f := by
  rcases h with ⟨hdeep, hlt⟩ | hok
  · exact .inl ⟨hdeep, by omega⟩
  · exact .inr hok

theorem bind {f : Nat → Except RenderFault α} {g : α → Nat → Except RenderFault β}
    (hf : Settles b n f) (hg : ∀ a, Settles b n (g a)) :
    Settles b n fun m => f m >>= fun a => g a m := by
  rcases hf with ⟨hdeep, hlt⟩ | ⟨a, ha⟩
  · refine .inl ⟨?_, hlt⟩
    dsimp only
    rw [hdeep]
    rfl
  · have hbind : ∀ m, n ≤ m → (f m >>= fun a => g a m) = g a m := by
      intro m hm
      rw [ha m hm]
      rfl
    rcases hg a with ⟨hdeep, hlt⟩ | ⟨c, hc⟩
    · exact .inl ⟨(hbind n (Nat.le_refl n)).trans hdeep, hlt⟩
    · exact .inr ⟨c, fun m hm => (hbind m hm).trans (hc m hm)⟩

theorem mapM {f : α → Nat → Except RenderFault β} {as : List α}
    (h : ∀ a ∈ as, Settles b n (f a)) : Settles b n fun m => as.mapM fun a => f a m := by
  induction as with
  | nil => exact .pure []
  | cons a as ih =>
      obtain ⟨ha, has⟩ := List.forall_mem_cons.mp h
      simp only [List.mapM_cons]
      exact ha.bind fun c => (ih has).bind fun cs => .pure (c :: cs)

end Settles

namespace Expr

variable {b n : Nat} {e : Expr}

theorem settles_succ (h : Settles b n fun m => render (m + 1) e) (hb : b < e.height) :
    Settles e.height (n + 1) fun m => e.render m := by
  rcases h with ⟨hdeep, hlt⟩ | ⟨t, ht⟩
  · exact .inl ⟨hdeep, by omega⟩
  · refine .inr ⟨t, fun m hm => ?_⟩
    obtain ⟨k, rfl⟩ := Nat.exists_eq_add_of_le' hm
    exact ht (k + n) (by omega)

theorem settles_all {es : List Expr}
    (h : ∀ e ∈ es, Settles e.height n fun m => e.render m) :
    Settles (heights es) n fun m => es.mapM (render m) :=
  .mapM fun e he => (h e he).mono (height_le_heights he)

theorem settles_index {dimensions : List Expr} {dot : Bool}
    (h : ∀ m < n, ∀ d ∈ dimensions, Settles d.height m fun m => d.render m) :
    Settles (index dimensions dot).height n fun m => render m (.index dimensions dot) := by
  cases n with
  | zero => exact .inl ⟨rfl, height_pos _⟩
  | succ n =>
      refine settles_succ ?_ (b := heights dimensions) (by simp only [height]; omega)
      simp only [render]
      split
      · exact .pure _
      · exact (settles_all (h n (Nat.lt_succ_self n))).bind fun parts => .pure _

/-- Where a tree is not too deep to be written, its text is the same at every greater depth. -/
theorem Regular.settles (h : e.Regular) (n : Nat) : Settles e.height n fun m => e.render m := by
  -- the dimensions of an index are two levels below the accessor
  induction n using Nat.strongRecOn generalizing e with
  | ind n ih =>
    cases n with
    | zero => exact .inl ⟨rfl, e.height_pos⟩
    | succ n =>
      have hpart : ∀ {e b}, Regular e → e.height ≤ b → Settles b n fun m => e.render m :=
        fun he hb => (ih n (Nat.lt_succ_self n) he).mono hb
      have hparts : ∀ {es b}, (∀ e ∈ es, Regular e) → heights es ≤ b →
          Settles b n fun m => es.mapM (render m) :=
        fun hes hb => (settles_all fun e he => hpart (hes e he) (Nat.le_refl _)).mono hb
      cases h with
      | constant => exact settles_succ (.pure (b := 0) _) (height_pos _)
      | symbol => exact settles_succ (.pure (b := 0) _) (height_pos _)
      | @accessor base dimensions dot hb hd =>
          refine settles_succ ?_ (b := max base.height (index dimensions dot).height)
            (by simp only [height]; omega)
          simp only [render]
          refine (hpart hb (by omega)).bind fun t => ?_
          have hindex : Settles (index dimensions dot).height n fun m =>
              render m (.index dimensions dot) :=
            settles_index fun m hm d hmem => ih m (by omega) (hd d hmem)
          exact (hindex.mono (by omega)).bind fun t' => .pure _
      | @conditional condition whenTrue whenFalse hc ht hf =>
          refine settles_succ ?_
            (b := max condition.height (max whenTrue.height whenFalse.height))
            (by simp only [height]; omega)
          simp only [render]
          exact (hpart hc (by omega)).bind fun t => (hpart ht (by omega)).bind fun t' =>
            (hpart hf (by omega)).bind fun t'' => .pure _
      | @operator op fn args hfn ha =>
          match args with
          | [arg] =>
              refine settles_succ ?_ (b := heights [arg]) (by simp only [height]; omega)
              simp only [render]
              refine Settles.bind (hpart (ha arg List.mem_cons_self) ?_) fun t => .pure _
              exact height_le_heights List.mem_cons_self
          | [left, right] =>
              have hchain : Regular (.operator op fn [left, right]) := .operator hfn ha
              obtain ⟨⟨hhead, hlt⟩, hlinks⟩ := hchain.spine rfl
              refine settles_succ ?_ (Nat.sub_lt (height_pos _) Nat.one_pos)
              simp only [render]
              refine (hpart hhead (Nat.le_sub_one_of_lt hlt)).bind fun t =>
                .bind (.mapM fun k hk => ?_) fun ts => .pure _
              obtain ⟨-, hright, hlt⟩ := hlinks k hk
              exact (hpart hright (Nat.le_sub_one_of_lt hlt)).bind fun t => .pure _
          | [] => exact settles_succ (.pure (b := 0) _) (height_pos _)
          | a :: a' :: a'' :: as =>
              refine settles_succ ?_ (b := heights (a :: a' :: a'' :: as))
                (by simp only [height]; omega)
              simp only [render]
              exact (hparts ha (Nat.le_refl _)).bind fun ts => .pure _
      | @parenthesis content hc =>
          refine settles_succ ?_ (b := content.height) (by simp only [height]; omega)
          simp only [render]
          exact (hpart hc (by omega)).bind fun t => .pure _
      | @relational fns first params ops hlength hfns hf hp =>
          refine settles_succ ?_ (b := heights (first :: params)) (by simp only [height]; omega)
          simp only [render]
          refine (hpart hf (height_le_heights List.mem_cons_self)).bind fun t => ?_
          refine Settles.bind (.mapM fun p hmem => ?_) fun ts => .pure _
          have hmem := List.mem_of_mem_take hmem
          exact hpart (hp p hmem) (height_le_heights (List.mem_cons_of_mem _ hmem))
      | @call callee args hc ha =>
          refine settles_succ ?_ (b := max callee.height (heights args))
            (by simp only [height]; omega)
          simp only [render]
          exact (hpart hc (by omega)).bind fun t => (hparts ha (by omega)).bind fun ts => .pure _
      | @array items hi =>
          refine settles_succ ?_ (b := heights items) (by simp only [height]; omega)
          simp only [render]
          exact (hparts hi (by omega)).bind fun ts => .pure _
      | @object properties hp =>
          refine settles_succ ?_ (b := propertyHeights properties) (by simp only [height]; omega)
          simp only [render]
          refine Settles.bind (.mapM fun p hmem => ?_) fun ts => .pure _
          exact (hpart (hp p hmem) (height_le_propertyHeights hmem)).bind fun t => .pure _
      | @assignment target value ht hv =>
          refine settles_succ ?_ (b := max target.height value.height)
            (by simp only [height]; omega)
          simp only [render]
          exact (hpart ht (by omega)).bind fun t => (hpart hv (by omega)).bind fun t' => .pure _
      | @definition name params body hb =>
          refine settles_succ ?_ (b := body.height) (by simp only [height]; omega)
          simp only [render]
          exact (hpart hb (by omega)).bind fun t => .pure _
      | @block statements hs =>
          refine settles_succ ?_ (b := heights statements) (by simp only [height]; omega)
          simp only [render]
          exact (hparts hs (by omega)).bind fun ts => .pure _
      | @range first step last hf hs hl =>
          refine settles_succ ?_ (b := max first.height (max (stepHeight step) last.height))
            (by simp only [height]; omega)
          simp only [render]
          refine Settles.bind (.mapM fun p hmem => ?_) fun ts => .pure _
          simp only [List.mem_append, List.mem_cons, Option.mem_toList, List.not_mem_nil,
            or_false] at hmem
          rcases hmem with (rfl | hmem) | rfl
          · exact hpart hf (by omega)
          · have hstep := height_le_stepHeight hmem
            exact hpart (hs p hmem) (by omega)
          · exact hpart hl (by omega)

end Expr
end MetricBridge.Formula
