import MetricBridge.Proofs.Formula.Starting

namespace MetricBridge.Formula

variable {n : Nat} {s : Surroundings} {ts rest : List Token} {ms : List Terminal}
variable {level level' : Level} {awaits : Bool} {op : Text} {fn : Operation} {e left right : Expr}

theorem Spells.part (h : Spells n ts (e.terminals ++ ms)) :
    ∃ us us', ts = us ++ us' ∧ Spells n us e.terminals ∧ Spells n us' ms := by
  obtain ⟨us, us', rfl, hus, hus'⟩ := h.split
  rw [balanced_terminals e n] at hus'
  exact ⟨us, us', rfl, hus, hus'⟩

def Expr.compared (left : Expr) : List (Text × Operation × Expr) → Expr
  | [] => left
  | [(op, fn, right)] => .operator op fn [left, right]
  | links => .relational (links.map (·.2.1)) (left :: links.map (·.2.2)) (links.map (·.1))

theorem Expr.terminals_compared (left : Expr) (links : List (Text × Operation × Expr)) :
    (left.compared links).terminals =
      left.terminals ++ chained (links.map (·.1)) (pieces (links.map (·.2.2))) := by
  match links with
  | [] => simp [compared, chained]
  | [(op, fn, right)] => simp [compared, terminals, chained, pieces]
  | _ :: _ :: _ => rfl

theorem Stops.unary (h : Stops .power s ts) : Stops .unary s ts := by
  intro op k hop hk hrank
  refine h op k hop hk ?_
  have hmem := List.find?_some hk
  cases k <;> first | decide | (exact absurd hrank (by decide)) | cases hmem

namespace Rule

/-- The rule reads the tree back from tokens that spell it, in front of tokens that let it stop. -/
def Returns (rule : Rule) (stop : Surroundings → List Token → Prop) (awaits : Bool) (e : Expr) :
    Prop :=
  ∀ ⦃n : Nat⦄ ⦃s : Surroundings⦄ ⦃ts rest : List Token⦄, s.awaitsColon = awaits →
    s.grouped = decide (0 < n) → Spells n ts e.terminals → stop s rest →
    rule s (ts ++ rest) = .ok (e, rest)

variable {stop stop' : Surroundings → List Token → Prop} {operand item : Rule}

theorem Returns.mono {rule : Rule} (h : rule.Returns stop awaits e)
    (hs : ∀ s ts, stop' s ts → stop s ts) : rule.Returns stop' awaits e :=
  fun _ _ _ _ hawaits hg hts hrest => h hawaits hg hts (hs _ _ hrest)

theorem assignment_passes {target value : Rule}
    (ht : target.Returns (Stops .assignment) awaits e) :
    (assignment target value).Returns (Stops .assignment) awaits e := by
  intro n s ts rest hawaits hg h hstop
  unfold assignment
  rw [ht hawaits hg h hstop]
  dsimp only
  rw [hstop.after?_eq_none (by decide) nofun]

theorem assignment_returns {target value : Rule} {e : Expr}
    (ht : target.Returns (Stops .conditional) awaits left)
    (hv : value.Returns (Stops .assignment) awaits right) (hassign : assign? left right = some e)
    (he : e.terminals = left.terminals ++ .mark .assign :: right.terminals) :
    (assignment target value).Returns (Stops .assignment) awaits e := by
  intro n s ts rest hawaits hg h hstop
  rw [he] at h
  obtain ⟨us, us', rfl, hus, hus'⟩ := h.part
  obtain ⟨vs, hvs, -, hafter⟩ := hus'.after?_eq hg
  have hfront : Stops .conditional s (us' ++ rest) :=
    hus'.stops_looser .assignment hg (by decide) (by decide)
  unfold assignment
  rw [List.append_assoc, ht hawaits hg hus hfront]
  dsimp only
  rw [hafter]
  dsimp only
  rw [hv hawaits hg hvs hstop]
  dsimp only
  rw [hassign]

theorem conditional_passes {condition branch : Rule}
    (hc : condition.Returns (Stops .or) awaits e) :
    (conditional condition branch).Returns (Stops .conditional) awaits e := by
  intro n s ts rest hawaits hg h hstop
  unfold conditional
  rw [hc hawaits hg h (hstop.mono (by decide))]
  dsimp only
  rw [hstop.after?_eq_none (by decide) nofun]

theorem conditional_returns {condition branch : Rule} {c whenTrue whenFalse : Expr}
    (hc : condition.Returns (Stops .or) awaits c)
    (ht : branch.Returns (Stops .assignment) true whenTrue)
    (hf : branch.Returns (Stops .assignment) awaits whenFalse) :
    (conditional condition branch).Returns (Stops .assignment) awaits
      (.conditional c whenTrue whenFalse) := by
  intro n s ts rest hawaits hg h hstop
  rw [Expr.terminals, List.append_assoc] at h
  obtain ⟨us, us', rfl, hus, hus'⟩ := h.part
  obtain ⟨vs, hvs, -, hquestion⟩ := hus'.after?_eq hg
  obtain ⟨ws, ws', rfl, hws, hws'⟩ := hvs.part
  obtain ⟨xs, hxs, -, hcolon⟩ := hws'.after?_eq hg
  have hfront : Stops .or s (us' ++ rest) :=
    hus'.stops_looser .conditional hg (by decide) (by decide)
  -- the colon belongs to no level while the branch is read
  have hbranch : Stops .assignment s.branch (ws' ++ rest) := hws'.stops_awaited hg rfl
  have htrue := ht (s := s.branch) rfl hg hws hbranch
  unfold conditional
  rw [List.append_assoc, hc hawaits hg hus hfront]
  dsimp only
  rw [hquestion]
  dsimp only
  rw [List.append_assoc, htrue]
  dsimp only
  rw [hcolon]
  dsimp only
  rw [hf hawaits hg hxs hstop]

theorem stops_chained {links : List (Text × Operation × Expr)}
    (hops : ∀ k ∈ links, (k.1, k.2.1) ∈ Level.relational.joining) (hg : s.grouped = decide (0 < n))
    (h : Spells n ts (Expr.chained (links.map (·.1)) (Expr.pieces (links.map (·.2.2)))))
    (hstop : Stops .relational s rest) : Stops .shift s (ts ++ rest) := by
  cases links with
  | nil =>
      cases h
      exact hstop.mono (by decide)
  | cons k links =>
      have hop := List.mem_map_of_mem (f := Prod.fst) (hops k List.mem_cons_self)
      exact Spells.stops_operator .relational h hg hop (by decide)

theorem comparisons_eq {links : List (Text × Operation × Expr)}
    (hops : ∀ k ∈ links, (k.1, k.2.1) ∈ Level.relational.joining)
    (ho : ∀ k ∈ links, operand.Returns (Stops .shift) awaits k.2.2)
    (hawaits : s.awaitsColon = awaits)
    (hg : s.grouped = decide (0 < n))
    (h : Spells n ts (Expr.chained (links.map (·.1)) (Expr.pieces (links.map (·.2.2)))))
    (hstop : Stops .relational s rest) {fuel : Nat} (hfuel : links.length < fuel) :
    comparisons operand s fuel (ts ++ rest) = .ok (links, rest) := by
  induction links generalizing fuel ts with
  | nil =>
      cases h
      cases fuel with
      | zero => rfl
      | succ fuel =>
          unfold comparisons
          rw [List.nil_append, hstop.operatorAt?_eq_none nofun fun entry => List.mem_map_of_mem]
  | cons k links ih =>
      obtain ⟨hop, hops⟩ := List.forall_mem_cons.mp hops
      obtain ⟨hk, ho⟩ := List.forall_mem_cons.mp ho
      rw [List.map_cons, List.map_cons, Expr.pieces, Expr.chained, List.cons_append] at h
      obtain ⟨us, hus, -, hoperator⟩ :=
        h.operatorAt?_eq hg (OperatorTable.find?_of_mem (Level.joining_nodup _) hop)
      obtain ⟨vs, vs', rfl, hvs, hvs'⟩ := hus.part
      have hfront := stops_chained hops hg hvs' hstop
      cases fuel with
      | zero => cases hfuel
      | succ fuel =>
          unfold comparisons
          rw [hoperator]
          dsimp only
          rw [List.append_assoc, hk hawaits hg hvs hfront]
          dsimp only
          rw [ih hops ho hvs' (Nat.lt_of_succ_lt_succ hfuel)]

theorem length_le_chained (links : List (Text × Operation × Expr)) : links.length ≤
    (Expr.chained (links.map (·.1)) (Expr.pieces (links.map (·.2.2)))).length := by
  induction links with
  | nil => exact Nat.le_refl 0
  | cons k links ih =>
      simp only [List.map_cons, Expr.pieces, Expr.chained, List.length_cons, List.length_append]
      omega

theorem relational_returns (links : List (Text × Operation × Expr))
    (hl : operand.Returns (Stops .shift) awaits left)
    (hops : ∀ k ∈ links, (k.1, k.2.1) ∈ Level.relational.joining)
    (ho : ∀ k ∈ links, operand.Returns (Stops .shift) awaits k.2.2) :
    (relational operand).Returns (Stops .relational) awaits (left.compared links) := by
  intro n s ts rest hawaits hg h hstop
  rw [Expr.terminals_compared] at h
  obtain ⟨us, us', rfl, hus, hus'⟩ := h.part
  have hlength : links.length < (us' ++ rest).length + 1 := by
    have hspelled := hus'.length_le
    have hchained := length_le_chained links
    rw [List.length_append]
    omega
  have hlinks := comparisons_eq hops ho hawaits hg hus' hstop hlength
  have hfront := stops_chained hops hg hus' hstop
  unfold relational
  rw [List.append_assoc, hl hawaits hg hus hfront]
  dsimp only
  rw [hlinks]
  match links with
  | [] => rfl
  | [(op, fn, right)] => rfl
  | _ :: _ :: _ => rfl

theorem range_passes (ho : operand.Returns (Stops .additive) awaits e) :
    (range operand).Returns (Stops .range) awaits e := by
  intro n s ts rest hawaits hg h hstop
  unfold range
  rw [ho hawaits hg h (hstop.mono (by decide))]
  dsimp only
  cases hs : s.awaitsColon with
  | true => rfl
  | false => rw [hstop.after?_eq_none (by decide) fun _ => hs]; rfl

theorem range_returns {first last : Expr} (hf : operand.Returns (Stops .additive) false first)
    (hl : operand.Returns (Stops .additive) false last) :
    (range operand).Returns (Stops .range) false (.range first none last) := by
  intro n s ts rest hawaits hg h hstop
  have hterms : (Expr.range first none last).terminals =
      first.terminals ++ .mark .colon :: last.terminals := by
    simp [Expr.terminals, Expr.stepPieces]
  rw [hterms] at h
  obtain ⟨us, us', rfl, hus, hus'⟩ := h.part
  obtain ⟨vs, hvs, -, hcolon⟩ := hus'.after?_eq hg
  have hfront : Stops .additive s (us' ++ rest) :=
    hus'.stops_looser .range hg (by decide) (by decide)
  unfold range
  rw [List.append_assoc, hf hawaits hg hus hfront]
  simp only [hawaits, Bool.false_eq_true, if_false, hcolon]
  rw [hl hawaits hg hvs (hstop.mono (by decide))]
  dsimp only
  rw [hstop.after?_eq_none (by decide) fun _ => hawaits]

theorem range_returns_step {first step last : Expr}
    (hf : operand.Returns (Stops .additive) false first)
    (hs : operand.Returns (Stops .additive) false step)
    (hl : operand.Returns (Stops .additive) false last) :
    (range operand).Returns (Stops .range) false (.range first (some step) last) := by
  intro n s ts rest hawaits hg h hstop
  have hterms : (Expr.range first (some step) last).terminals =
      first.terminals ++ .mark .colon :: (step.terminals ++ .mark .colon :: last.terminals) := by
    simp [Expr.terminals, Expr.stepPieces]
  rw [hterms] at h
  obtain ⟨us, us', rfl, hus, hus'⟩ := h.part
  obtain ⟨vs, hvs, -, hcolon⟩ := hus'.after?_eq hg
  obtain ⟨ws, ws', rfl, hws, hws'⟩ := hvs.part
  obtain ⟨xs, hxs, -, hcolon'⟩ := hws'.after?_eq hg
  have hfront : Stops .additive s (us' ++ rest) :=
    hus'.stops_looser .range hg (by decide) (by decide)
  have hfront' : Stops .additive s (ws' ++ rest) :=
    hws'.stops_looser .range hg (by decide) (by decide)
  unfold range
  rw [List.append_assoc, hf hawaits hg hus hfront]
  simp only [hawaits, Bool.false_eq_true, if_false, hcolon]
  rw [List.append_assoc, hs hawaits hg hws hfront']
  simp only [hcolon']
  rw [hl hawaits hg hxs (hstop.mono (by decide))]

theorem unary_passes {self : Rule} (ho : operand.Returns (Stops .power) awaits e)
    (hb : Begun .power e.terminals) : (unary self operand).Returns (Stops .unary) awaits e := by
  intro n s ts rest hawaits hg h hstop
  unfold unary
  rw [hb.operatorAt?_eq_none (by decide) h hg]
  exact ho hawaits hg h (hstop.mono (by decide))

theorem unary_returns {self : Rule} (hop : (op, fn) ∈ Level.unaryTable)
    (hs : self.Returns (Stops .unary) awaits e) :
    (unary self operand).Returns (Stops .unary) awaits (.operator op fn [e]) := by
  intro n s ts rest hawaits hg h hstop
  have hfn : fn ≠ .factorial := by
    rintro rfl
    simp [Level.unaryTable] at hop
  rw [Expr.terminals, if_neg hfn] at h
  obtain ⟨us, hus, -, hoperator⟩ := h.operatorAt?_eq hg (OperatorTable.find?_of_mem (by decide) hop)
  unfold unary
  rw [hoperator]
  dsimp only
  rw [hs hawaits hg hus hstop]

theorem power_passes {base exponent : Rule} (hb : base.Returns (Stops .factorial) awaits e) :
    (power base exponent).Returns (Stops .power) awaits e := by
  intro n s ts rest hawaits hg h hstop
  unfold power
  rw [hb hawaits hg h (hstop.mono (by decide))]
  dsimp only
  rw [hstop.operatorAt?_eq_none nofun (by decide)]

theorem power_returns {base exponent : Rule} (hop : (op, fn) ∈ Level.powerTable)
    (hb : base.Returns (Stops .factorial) awaits left)
    (he : exponent.Returns (Stops .unary) awaits right) :
    (power base exponent).Returns (Stops .power) awaits (.operator op fn [left, right]) := by
  intro n s ts rest hawaits hg h hstop
  obtain ⟨us, us', rfl, hus, hus'⟩ := Spells.part h
  obtain ⟨vs, hvs, -, hoperator⟩ :=
    hus'.operatorAt?_eq hg (OperatorTable.find?_of_mem (by decide) hop)
  have hbehind : ∀ entry ∈ Level.powerTable, entry.1 ∈ Level.power.behind := by decide
  have hfront : Stops .factorial s (us' ++ rest) :=
    hus'.stops_operator .power hg (hbehind _ hop) (by decide)
  unfold power
  rw [List.append_assoc, hb hawaits hg hus hfront]
  dsimp only
  rw [hoperator]
  dsimp only
  rw [he hawaits hg hvs hstop.unary]

def Resumes (rule : Rule) (loop : Surroundings → Nat → Expr → List Token → Reading Expr)
    (stop : Surroundings → List Token → Prop) (awaits : Bool) (e : Expr) : Prop :=
  ∀ ⦃n : Nat⦄ ⦃s : Surroundings⦄ ⦃ts rest : List Token⦄ ⦃r : Reading Expr⦄, s.awaitsColon = awaits →
    s.grouped = decide (0 < n) → Spells n ts e.terminals → stop s rest →
    (∀ fuel, rest.length < fuel → loop s fuel e rest = r) → rule s (ts ++ rest) = r

variable {loop : Surroundings → Nat → Expr → List Token → Reading Expr}

theorem Resumes.returns {rule : Rule} (h : rule.Resumes loop stop awaits e)
    (hloop : ∀ s fuel ts, stop' s ts → loop s fuel e ts = .ok (e, ts))
    (hs : ∀ s ts, stop' s ts → stop s ts) : rule.Returns stop' awaits e :=
  fun _ _ _ _ hawaits hg hts hrest =>
    h hawaits hg hts (hs _ _ hrest) fun fuel _ => hloop _ fuel _ hrest

theorem joinOnto_stopped (operand : Rule) (hl : level ≠ .range) (s : Surroundings) (fuel : Nat)
    (e : Expr) (ts : List Token) (h : Stops level s ts) :
    joinOnto operand level.joining s fuel e ts = .ok (e, ts) := by
  cases fuel with
  | zero => rfl
  | succ fuel =>
      unfold joinOnto
      rw [h.operatorAt?_eq_none hl level.mem_behind]

theorem joined_resumes_operand {table : OperatorTable} (ho : operand.Returns stop awaits e) :
    (joined operand table).Resumes (joinOnto operand table) stop awaits e := by
  intro n s ts rest r hawaits hg h hstop hloop
  unfold joined
  rw [ho hawaits hg h hstop]
  exact hloop _ (Nat.lt_succ_self _)

theorem joined_resumes {table : OperatorTable} (hfind : table.find? op = some fn)
    (hop : op ∈ level.behind) (hr : level.rank < level'.rank)
    (hl : (joined operand table).Resumes (joinOnto operand table) (Stops level') awaits left)
    (ho : operand.Returns (Stops level') awaits right) :
    (joined operand table).Resumes (joinOnto operand table) (Stops level') awaits
      (.operator op fn [left, right]) := by
  intro n s ts rest r hawaits hg h hstop hloop
  obtain ⟨us, us', rfl, hus, hus'⟩ := Spells.part h
  obtain ⟨vs, hvs, hlen, hoperator⟩ := hus'.operatorAt?_eq hg hfind
  rw [List.append_assoc]
  refine hl hawaits hg hus (hus'.stops_operator level hg hop hr) fun fuel hfuel => ?_
  cases fuel with
  | zero => cases hfuel
  | succ fuel =>
      unfold joinOnto
      rw [hoperator]
      dsimp only
      rw [ho hawaits hg hvs hstop]
      refine hloop fuel ?_
      rw [List.length_append] at hfuel
      omega

theorem factorialsOnto_stopped (s : Surroundings) (fuel : Nat) (e : Expr) (ts : List Token)
    (h : Stops .factorial s ts) : factorialsOnto s fuel e ts = (e, ts) := by
  cases fuel with
  | zero => rfl
  | succ fuel =>
      unfold factorialsOnto
      rw [h.operatorAt?_eq_none nofun (by decide)]

def accessed (primary item : Rule) : Rule := fun s ts =>
  match primary s ts with
  | .error e => .error e
  | .ok (e, ts) => accessorsOnto item s (ts.length + 1) e ts

theorem factorial_eq (primary item : Rule) (s : Surroundings) (ts : List Token) :
    factorial primary item s ts = match accessed primary item s ts with
      | .error e => .error e
      | .ok (e, ts) => .ok (factorialsOnto s (ts.length + 1) e ts) := by
  unfold factorial accessed
  cases primary s ts <;> rfl

def factorialLoop (s : Surroundings) (fuel : Nat) (e : Expr) (ts : List Token) : Reading Expr :=
  .ok (factorialsOnto s fuel e ts)

theorem factorial_resumes_operand {primary : Rule}
    (hp : (accessed primary item).Resumes (accessorsOnto item) (fun _ _ => True) awaits e) :
    (factorial primary item).Resumes factorialLoop (Stops .primary) awaits e := by
  intro n s ts rest r hawaits hg h hstop hloop
  have hread := hp hawaits hg h trivial fun fuel _ => hstop.accessorsOnto_eq item fuel e
  rw [factorial_eq, hread]
  exact hloop _ (Nat.lt_succ_self _)

theorem factorial_resumes {primary : Rule} (hop : (op, fn) ∈ Level.factorialTable)
    (he : (factorial primary item).Resumes factorialLoop (Stops .primary) awaits e) :
    (factorial primary item).Resumes factorialLoop (Stops .primary) awaits
      (.operator op fn [e]) := by
  intro n s ts rest r hawaits hg h hstop hloop
  have hfn : fn = .factorial := by
    simp only [Level.factorialTable, List.mem_singleton] at hop
    exact congrArg Prod.snd hop
  have hbehind : ∀ entry ∈ Level.factorialTable, entry.1 ∈ Level.factorial.behind := by decide
  rw [Expr.terminals, if_pos hfn] at h
  obtain ⟨us, us', rfl, hus, hus'⟩ := h.part
  obtain ⟨vs, hvs, hlen, hoperator⟩ :=
    hus'.operatorAt?_eq hg (OperatorTable.find?_of_mem (by decide) hop)
  cases hvs
  rw [List.append_assoc]
  have hfront : Stops .primary s (us' ++ rest) :=
    hus'.stops_operator .factorial hg (hbehind _ hop) (by decide)
  refine he hawaits hg hus hfront fun fuel hfuel => ?_
  cases fuel with
  | zero => cases hfuel
  | succ fuel =>
      unfold factorialLoop factorialsOnto
      rw [hoperator]
      refine hloop fuel ?_
      rw [List.length_append] at hfuel
      omega

theorem accessed_resumes_operand {primary : Rule} (hp : primary.Returns stop awaits e) :
    (accessed primary item).Resumes (accessorsOnto item) stop awaits e := by
  intro n s ts rest r hawaits hg h hstop hloop
  unfold accessed
  rw [hp hawaits hg h hstop]
  exact hloop _ (Nat.lt_succ_self _)

theorem group_grouped (hn : 0 < n) : Surroundings.group.grouped = decide (0 < n) := by
  simp [Surroundings.group, hn]

theorem listed_eq {es : List Expr} (hne : es ≠ [])
    (hi : ∀ e ∈ es, item.Returns (Stops .assignment) false e) (hn : 0 < n)
    (h : Spells n ts (Expr.markedBy .comma (Expr.pieces es)))
    (hstop : Stops .assignment .group rest)
    (hcomma : after? .group .comma rest = none) {fuel : Nat} (hfuel : es.length ≤ fuel) :
    listed item fuel (ts ++ rest) = .ok (es, rest) := by
  induction es generalizing ts fuel with
  | nil => exact absurd rfl hne
  | cons e es ih =>
      obtain ⟨he, hi⟩ := List.forall_mem_cons.mp hi
      cases fuel with
      | zero => cases hfuel
      | succ fuel =>
          unfold listed
          cases es with
          | nil =>
              have hts : Spells n ts e.terminals := by simpa [Expr.pieces] using h
              rw [he rfl (group_grouped hn) hts hstop]
              dsimp only
              rw [hcomma]
          | cons e' es =>
              rw [Expr.pieces, Expr.pieces, Expr.markedBy, List.intercalate_cons_cons,
                List.append_assoc] at h
              obtain ⟨us, us', rfl, hus, hus'⟩ := h.part
              obtain ⟨vs, hvs, -, hafter⟩ := Spells.after?_eq hus' (group_grouped hn)
              have hfront : Stops .assignment .group (us' ++ rest) :=
                Spells.stops_closed hus' (group_grouped hn) rfl
              rw [List.append_assoc, he rfl (group_grouped hn) hus hfront]
              dsimp only
              rw [hafter]
              dsimp only
              rw [ih (List.cons_ne_nil e' es) hi hvs (Nat.le_of_succ_le_succ hfuel)]

theorem length_le_pieces {es : List Expr} (hb : ∀ e ∈ es, Begun .assignment e.terminals) :
    es.length ≤ (Expr.markedBy .comma (Expr.pieces es)).length := by
  rw [Expr.pieces_eq_map]
  induction es with
  | nil => exact Nat.le_refl 0
  | cons e es ih =>
      obtain ⟨⟨m, ms, hms, -⟩, hb⟩ := List.forall_mem_cons.mp hb
      have hes := ih hb
      rw [List.map_cons, hms]
      cases es with
      | nil => simp
      | cons e' es =>
          rw [List.map_cons, Expr.markedBy, List.intercalate_cons_cons, ← List.map_cons]
          simp only [Expr.markedBy, List.length_append, List.length_cons] at hes ⊢
          omega

theorem enclosed_eq {es : List Expr} {closing : Delimiter}
    (hi : ∀ e ∈ es, item.Returns (Stops .assignment) false e)
    (hb : ∀ e ∈ es, Begun .assignment e.terminals) (hn : 0 < n)
    (hclosing : closing = .closeParen ∨ closing = .closeBracket)
    (h : Spells n ts (Expr.markedBy .comma (Expr.pieces es) ++ [.mark closing]))
    (rest : List Token) : enclosed item closing (ts ++ rest) = .ok (es, rest) := by
  have hbound : Level.binding? closing.spelling = none := by rcases hclosing with rfl | rfl <;> rfl
  have hstarts : closing.starts = false := by rcases hclosing with rfl | rfl <;> rfl
  have hcomma : closing ≠ .comma := by rcases hclosing with rfl | rfl <;> nofun
  unfold enclosed
  by_cases hne : es = []
  · subst hne
    obtain ⟨us, hus, -, hafter⟩ := Spells.after?_eq h (group_grouped hn)
    cases hus
    rw [hafter]
    rfl
  · have hbegun : Begun .assignment (Expr.markedBy .comma (Expr.pieces es) ++ [.mark closing]) := by
      obtain ⟨e, es, rfl⟩ := List.exists_cons_of_ne_nil hne
      rw [Expr.pieces, Expr.markedBy_cons, List.append_assoc]
      exact (hb e List.mem_cons_self).append (Nat.le_refl _)
    rw [hbegun.after?_eq_none h (group_grouped hn) hstarts]
    dsimp only
    obtain ⟨us, us', rfl, hus, hus'⟩ := h.split
    have hbalanced : Balanced (Expr.markedBy .comma (Expr.pieces es)) :=
      balanced_markedBy (fun _ => rfl) es
    rw [hbalanced n] at hus'
    obtain ⟨vs, hvs, hexpect⟩ := hus'.expect_eq (group_grouped hn)
    cases hvs
    have hfront : Stops .assignment .group (us' ++ rest) :=
      hus'.stops_closed (group_grouped hn) hbound
    have hlength : es.length ≤ (us ++ us' ++ rest).length + 1 := by
      have hspelled := hus.length_le
      have hpieces := length_le_pieces hb
      simp only [List.length_append]
      omega
    rw [List.append_assoc] at hlength ⊢
    rw [listed_eq hne hi hn hus hfront (hus'.after?_ne (group_grouped hn) hcomma) hlength]
    dsimp only
    rw [hexpect]
    rfl

def Anything (_ : Surroundings) (_ : List Token) : Prop := True

variable {primary : Rule} {es : List Expr}

theorem accessed_resumes_call (hs : isCallable e = true)
    (hc : (accessed primary item).Resumes (accessorsOnto item) Anything awaits e)
    (hi : ∀ a ∈ es, item.Returns (Stops .assignment) false a)
    (hb : ∀ a ∈ es, Begun .assignment a.terminals) :
    (accessed primary item).Resumes (accessorsOnto item) Anything awaits (.call e es) := by
  intro n s ts rest r hawaits hg h _ hloop
  obtain ⟨us, us', rfl, hus, hus'⟩ := Spells.part h
  obtain ⟨t, vs, ht, hvs, hlen, hsettle⟩ := hus'.settled hg
  have hargs := enclosed_eq hi hb (Nat.succ_pos n) (.inl rfl) hvs rest
  rw [List.append_assoc]
  refine hc hawaits hg hus trivial fun fuel hfuel => ?_
  cases fuel with
  | zero => cases hfuel
  | succ fuel =>
      unfold accessorsOnto
      simp only [hsettle, front, ht.of_mark, passed, reduceCtorEq, if_false, hs, if_true, hargs]
      refine hloop fuel ?_
      rw [List.length_append] at hfuel
      omega

theorem accessed_resumes_brackets (hne : es ≠ [])
    (hc : (accessed primary item).Resumes (accessorsOnto item) Anything awaits e)
    (hi : ∀ a ∈ es, item.Returns (Stops .assignment) false a)
    (hb : ∀ a ∈ es, Begun .assignment a.terminals) :
    (accessed primary item).Resumes (accessorsOnto item) Anything awaits
      (.accessor e (.index es false)) := by
  intro n s ts rest r hawaits hg h _ hloop
  rw [Expr.terminals, Expr.terminals_brackets] at h
  obtain ⟨us, us', rfl, hus, hus'⟩ := h.part
  obtain ⟨t, vs, ht, hvs, hlen, hsettle⟩ := hus'.settled hg
  have hdims := enclosed_eq hi hb (Nat.succ_pos n) (.inr rfl) hvs rest
  rw [List.append_assoc]
  refine hc hawaits hg hus trivial fun fuel hfuel => ?_
  cases fuel with
  | zero => cases hfuel
  | succ fuel =>
      obtain ⟨a, as, rfl⟩ := List.exists_cons_of_ne_nil hne
      unfold accessorsOnto
      simp only [hsettle, front, ht.of_mark, passed, reduceCtorEq, if_false, hdims]
      refine hloop fuel ?_
      rw [List.length_append] at hfuel
      omega

theorem accessed_resumes_dot {name : Text}
    (hc : (accessed primary item).Resumes (accessorsOnto item) Anything awaits e) :
    (accessed primary item).Resumes (accessorsOnto item) Anything awaits
      (.accessor e (.index [.constant (.string name)] true)) := by
  intro n s ts rest r hawaits hg h _ hloop
  obtain ⟨us, us', rfl, hus, hus'⟩ := Spells.part h
  obtain ⟨t, vs, ht, hvs, hlen, hsettle⟩ := hus'.settled hg
  obtain ⟨t', ws, ht', hws, hlen', hsettle'⟩ := Spells.settled (s := s) hvs hg
  cases hws
  rw [List.append_assoc]
  refine hc hawaits hg hus trivial fun fuel hfuel => ?_
  cases fuel with
  | zero => cases hfuel
  | succ fuel =>
      unfold accessorsOnto
      simp only [hsettle, front, ht.of_mark, passed, reduceCtorEq, if_false, hsettle', ht'.of_name]
      refine hloop fuel ?_
      rw [List.length_append] at hfuel
      omega

theorem property_start {key : Text} {first : Bool} (hn : 0 < n)
    (h : Spells n ts ((if first then [] else [.mark .comma]) ++ .key key :: ms))
    (rest : List Token) : ∃ us, Spells n us (.key key :: ms) ∧
      after? .group .closeBrace (ts ++ rest) = none ∧
      (if first then .ok (ts ++ rest) else expect .group .comma (ts ++ rest)) =
        .ok (us ++ rest) := by
  cases first with
  | true =>
      obtain ⟨t, us, ht, -, -, hsettle⟩ := h.settled (group_grouped hn)
      refine ⟨ts, h, ?_, rfl⟩
      unfold after?
      rw [hsettle]
      rcases ht.of_key with hkey | hkey <;> simp [front, hkey]
  | false =>
      obtain ⟨us, hus, hexpect⟩ := h.expect_eq (group_grouped hn)
      exact ⟨us, hus, h.after?_ne (group_grouped hn) (by decide), hexpect rest⟩

theorem stops_properties {ps : List (Text × Expr)} (hn : 0 < n)
    (h : Spells n ts (Expr.followingProperties false ps ++ [.mark .closeBrace]))
    (rest : List Token) : Stops .assignment .group (ts ++ rest) := by
  cases ps with
  | nil => exact Spells.stops_closed h (group_grouped hn) rfl
  | cons p ps => exact Spells.stops_closed h (group_grouped hn) rfl

theorem properties_eq {ps : List (Text × Expr)} {first : Bool}
    (hi : ∀ p ∈ ps, item.Returns (Stops .assignment) false p.2) (hn : 0 < n)
    (h : Spells n ts (Expr.followingProperties first ps ++ [.mark .closeBrace]))
    (rest : List Token) {fuel : Nat} (hfuel : ps.length < fuel) :
    properties item first fuel (ts ++ rest) = .ok (ps, rest) := by
  induction ps generalizing ts first fuel with
  | nil =>
      have hclose : Spells n ts [.mark .closeBrace] := by
        cases first <;> simpa [Expr.followingProperties, Expr.propertyPieces] using h
      obtain ⟨us, hus, -, hafter⟩ := hclose.after?_eq (group_grouped hn)
      cases hus
      cases fuel with
      | zero => cases hfuel
      | succ fuel =>
          unfold properties
          rw [hafter]
          rfl
  | cons p ps ih =>
      obtain ⟨key, value⟩ := p
      obtain ⟨hvalue, hi⟩ := List.forall_mem_cons.mp hi
      cases fuel with
      | zero => cases hfuel
      | succ fuel =>
          rw [Expr.followingProperties_cons, List.append_assoc, List.append_assoc] at h
          obtain ⟨us, hus, hclose, hcomma⟩ := property_start hn h rest
          obtain ⟨t, vs, ht, hvs, -, hsettle⟩ := hus.settled (group_grouped hn)
          obtain ⟨ws, hws, hcolon⟩ := Spells.expect_eq hvs (group_grouped hn)
          obtain ⟨xs, xs', rfl, hxs, hxs'⟩ := Spells.part hws
          have hread := hvalue rfl (group_grouped hn) hxs (stops_properties hn hxs' rest)
          have hmore := ih hi hxs' (Nat.lt_of_succ_lt_succ hfuel)
          unfold properties
          rw [hclose]
          dsimp only
          rw [hcomma]
          rcases ht.of_key with hkey | hkey <;>
            simp [hsettle, front, hkey, passed, hcolon, hread, hmore]

theorem primary_returns_constant (v : Literal) :
    (Rule.primary item).Returns Anything awaits (.constant v) := by
  intro n s ts rest hawaits hg h _
  obtain ⟨t, us, ht, hus, -, hsettle⟩ := Spells.settled h hg
  cases hus
  have hword : ∀ {name : Text}, t.lexeme = .name name → isWordOperator name = false →
      namedConstant? name = some v →
      Rule.primary item s (ts ++ rest) = .ok (.constant v, rest) := by
    intro name hname hw hv
    unfold Rule.primary
    simp [hsettle, front, hname, passed, hw, hv]
  have hnumber : ∀ {literal : Text}, t.lexeme = .number literal → number literal = .ok v →
      Rule.primary item s (ts ++ rest) = .ok (.constant v, rest) := by
    intro literal hliteral hv
    unfold Rule.primary
    simp [hsettle, front, hliteral, passed, hv]
  cases v with
  | int i =>
      obtain ⟨literal, hliteral, hv⟩ := ht.of_number
      exact hnumber hliteral hv
  | float x =>
      obtain ⟨literal, hliteral, hv⟩ := ht.of_number
      exact hnumber hliteral hv
  | string value =>
      have hstring := Lexeme.Denotes.of_string ht
      unfold Rule.primary
      simp [hsettle, front, hstring, passed]
  | bool b => cases b with
      | true => exact hword ht.of_name (by decide) rfl
      | false => exact hword ht.of_name (by decide) rfl
  | null => exact hword ht.of_name (by decide) rfl

theorem primary_returns_symbol {name : Text} (hw : isWordOperator name = false)
    (hc : namedConstant? name = none) :
    (Rule.primary item).Returns Anything awaits (.symbol name) := by
  intro n s ts rest hawaits hg h _
  obtain ⟨t, us, ht, hus, -, hsettle⟩ := Spells.settled h hg
  cases hus
  unfold Rule.primary
  simp [hsettle, front, ht.of_name, passed, hw, hc]

theorem primary_returns_parenthesis (hi : item.Returns (Stops .assignment) false e) :
    (Rule.primary item).Returns Anything awaits (.parenthesis e) := by
  intro n s ts rest hawaits hg h _
  obtain ⟨t, us, ht, hus, -, hsettle⟩ := Spells.settled h hg
  have hn : 0 < n + 1 := Nat.succ_pos n
  obtain ⟨vs, vs', rfl, hvs, hvs'⟩ := Spells.part hus
  obtain ⟨ws, hws, hclose⟩ := Spells.expect_eq hvs' (group_grouped hn)
  cases hws
  have hfront : Stops .assignment .group (vs' ++ rest) := hvs'.stops_closed (group_grouped hn) rfl
  have hread := hi rfl (group_grouped hn) hvs hfront
  unfold Rule.primary
  simp [hsettle, front, ht.of_mark, passed, hread, hclose]

theorem primary_returns_array (hi : ∀ a ∈ es, item.Returns (Stops .assignment) false a)
    (hb : ∀ a ∈ es, Begun .assignment a.terminals) :
    (Rule.primary item).Returns Anything awaits (.array es) := by
  intro n s ts rest hawaits hg h _
  obtain ⟨t, us, ht, hus, -, hsettle⟩ := Spells.settled h hg
  have hitems := enclosed_eq hi hb (Nat.succ_pos n) (.inr rfl) hus rest
  unfold Rule.primary
  simp [hsettle, front, ht.of_mark, passed, hitems]

theorem length_le_properties (ps : List (Text × Expr)) :
    ps.length ≤ (Expr.followingProperties true ps).length := by
  have hfollowing : ∀ ps, ps.length ≤ (Expr.followingProperties false ps).length := by
    intro ps
    induction ps with
    | nil => exact Nat.le_refl 0
    | cons p ps ih =>
        rw [Expr.followingProperties_cons]
        simp only [List.length_append, List.length_cons]
        omega
  cases ps with
  | nil => exact Nat.le_refl 0
  | cons p ps =>
      have hps := hfollowing ps
      rw [Expr.followingProperties_cons]
      simp only [List.length_append, List.length_cons]
      omega

theorem primary_returns_object {ps : List (Text × Expr)}
    (hi : ∀ p ∈ ps, item.Returns (Stops .assignment) false p.2) :
    (Rule.primary item).Returns Anything awaits (.object ps) := by
  intro n s ts rest hawaits hg h _
  obtain ⟨t, us, ht, hus, -, hsettle⟩ := Spells.settled h hg
  have hspelled : Spells (n + 1) us (Expr.followingProperties true ps ++ [.mark .closeBrace]) := hus
  have hlength : ps.length < (us ++ rest).length + 1 := by
    have hps := length_le_properties ps
    have hus := hspelled.length_le
    rw [List.length_append] at hus ⊢
    omega
  have hread := properties_eq hi (Nat.succ_pos n) hspelled rest hlength
  unfold Rule.primary
  simp [hsettle, front, ht.of_mark, passed] at hread ⊢
  rw [hread]

end Rule

end MetricBridge.Formula
