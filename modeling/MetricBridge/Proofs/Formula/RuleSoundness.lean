import MetricBridge.Proofs.Formula.Grammatical
import MetricBridge.Proofs.Formula.Spelling

namespace MetricBridge.Formula

variable {s : Surroundings} {ts ts₀ rest : List Token}

structure Reads (depth : Nat) (level : Level) (s : Surroundings) (ts : List Token) (e : Expr)
    (rest : List Token) : Prop where
  fits : e.Fits depth level s.awaitsColon
  took : Took s ts e.terminals rest

def Rule.Sound (depth : Nat) (level : Level) (rule : Rule) : Prop :=
  ∀ ⦃s ts e rest⦄, rule s ts = .ok (e, rest) → Reads depth level s ts e rest

namespace Rule

variable {depth : Nat} {level : Level} {operand item : Rule} {e left : Expr}

theorem joinOnto_sound (hl : level ≠ .relational) (ho : Sound depth level.next operand)
    {fuel : Nat} (hleft : Reads (depth + 1) level s ts₀ left ts)
    (h : joinOnto operand level.joining s fuel left ts = .ok (e, rest)) :
    Reads (depth + 1) level s ts₀ e rest := by
  induction fuel generalizing left ts with
  | zero =>
      cases h
      exact hleft
  | succ fuel ih =>
      unfold joinOnto at h
      split at h
      · cases h
        exact hleft
      · rename_i op fn ts₁ hop
        split at h
        · cases h
        · rename_i right ts₂ hright
          have hr := ho hright
          refine ih ⟨.join hl ?_ hleft.fits hr.fits, ?_⟩ h
          · exact OperatorTable.mem_of_find? (operatorAt?_eq_some hop).2.1
          · have hmark :=
              (took_operator level.semicolon_not_joining hop).trans (.operator op) hr.took
            exact hleft.took.trans (balanced_terminals left) hmark

theorem joined_sound (hl : level ≠ .relational) (hp : level ≠ .primary)
    (ho : Sound depth level.next operand) :
    Sound (depth + 1) level (joined operand level.joining) := by
  intro s ts e rest h
  unfold joined at h
  split at h
  · cases h
  · rename_i left ts₁ hleft
    have hfirst := ho hleft
    exact joinOnto_sound hl ho ⟨.tighter hp hfirst.fits, hfirst.took⟩ h

theorem eq_map_of_mapM {f : Expr → Option Text} {g : Text → Expr}
    (hf : ∀ e t, f e = some t → e = g t) {es : List Expr} {names : List Text}
    (h : es.mapM f = some names) : es = names.map g := by
  induction es generalizing names with
  | nil =>
      cases h
      rfl
  | cons e es ih =>
      rw [List.mapM_cons] at h
      obtain ⟨name, hname, h⟩ := Option.bind_eq_some_iff.mp h
      obtain ⟨names', hnames, h⟩ := Option.bind_eq_some_iff.mp h
      cases h
      rw [hf e name hname, ih hnames, List.map_cons]

theorem assign?_fits {target value : Expr} {awaits : Bool}
    (ht : target.Fits depth .conditional awaits) (hv : value.Fits depth .assignment awaits)
    (h : assign? target value = some e) :
    e.Fits (depth + 1) .assignment awaits ∧
      e.terminals = target.terminals ++ .mark .assign :: value.terminals := by
  unfold assign? at h
  split at h
  · cases h
    exact ⟨.assignment rfl ht hv, rfl⟩
  · cases h
    exact ⟨.assignment rfl ht hv, rfl⟩
  · rename_i name args
    obtain ⟨params, hparams, rfl⟩ := Option.map_eq_some_iff.mp h
    have hargs : args = params.map .symbol := by
      refine eq_map_of_mapM ?_ hparams
      intro e t het
      split at het <;> cases het
      rfl
    subst hargs
    refine ⟨.definition ht hv, ?_⟩
    simp [Expr.terminals, Expr.pieces_eq_map, Function.comp_def]
  · cases h

theorem assignment_sound {target value : Rule} (ht : Sound depth .conditional target)
    (hv : Sound depth .assignment value) :
    Sound (depth + 1) .assignment (assignment target value) := by
  intro s ts e rest h
  unfold assignment at h
  split at h
  · cases h
  · rename_i left ts₁ hleft
    have hl := ht hleft
    split at h
    · cases h
      exact ⟨.tighter nofun hl.fits, hl.took⟩
    · rename_i ts₂ heq
      split at h
      · cases h
      · rename_i right ts₃ hright
        have hr := hv hright
        split at h
        · rename_i e' he
          cases h
          obtain ⟨hfits, hterms⟩ := assign?_fits hl.fits hr.fits he
          refine ⟨hfits, ?_⟩
          rw [hterms]
          exact hl.took.over (balanced_terminals left) (fun _ => rfl) heq hr.took
        · cases h

theorem conditional_sound {condition branch : Rule} (hc : Sound depth .or condition)
    (hb : Sound depth .assignment branch) :
    Sound (depth + 1) .conditional (conditional condition branch) := by
  intro s ts e rest h
  unfold conditional at h
  split at h
  · cases h
  · rename_i c ts₁ hcond
    have hcr := hc hcond
    split at h
    · cases h
      exact ⟨.tighter nofun hcr.fits, hcr.took⟩
    · rename_i ts₂ hq
      split at h
      · cases h
      · rename_i whenTrue ts₃ htrue
        have htr := hb htrue
        split at h
        · cases h
        · rename_i ts₄ hcolon
          split at h
          · cases h
          · rename_i whenFalse ts₅ hfalse
            have hfr := hb hfalse
            cases h
            refine ⟨.conditional hcr.fits htr.fits hfr.fits, ?_⟩
            -- the branch is read in surroundings that differ in the awaited colon only
            have hbranch : Took s ts₂ whenTrue.terminals ts₃ := htr.took
            have hfront := hcr.took.over (balanced_terminals c) (fun _ => rfl) hq hbranch
            refine hfront.over ?_ (fun _ => rfl) hcolon hfr.took
            exact (balanced_terminals c).append (.cons (fun _ => rfl) (balanced_terminals whenTrue))

theorem comparisons_sound (ho : Sound depth .shift operand) {fuel : Nat}
    {links : List (Text × Operation × Expr)}
    (h : comparisons operand s fuel ts = .ok (links, rest)) :
    (∀ k ∈ links, (k.1, k.2.1) ∈ Level.relational.joining) ∧
      (∀ k ∈ links, k.2.2.Fits depth .shift s.awaitsColon) ∧
      Took s ts (Expr.chained (links.map (·.1)) (Expr.pieces (links.map (·.2.2)))) rest := by
  induction fuel generalizing ts links with
  | zero =>
      cases h
      exact ⟨nofun, nofun, .refl _ _⟩
  | succ fuel ih =>
      unfold comparisons at h
      split at h
      · cases h
        exact ⟨nofun, nofun, .refl _ _⟩
      · rename_i op fn ts₁ hop
        split at h
        · cases h
        · rename_i right ts₂ hright
          have hr := ho hright
          split at h
          · cases h
          · rename_i more ts₃ hmore
            cases h
            obtain ⟨hops, hfits, htook⟩ := ih hmore
            refine ⟨?_, ?_, ?_⟩
            · exact List.forall_mem_cons.mpr
                ⟨OperatorTable.mem_of_find? (operatorAt?_eq_some hop).2.1, hops⟩
            · exact List.forall_mem_cons.mpr ⟨hr.fits, hfits⟩
            · have hlink := (took_operator rfl hop).trans (.operator op) hr.took
              exact hlink.trans (.cons (.operator op) (balanced_terminals right)) htook

theorem relational_sound (ho : Sound depth .shift operand) :
    Sound (depth + 1) .relational (relational operand) := by
  intro s ts e rest h
  unfold relational at h
  split at h
  · cases h
  · rename_i left ts₁ hleft
    have hl := ho hleft
    split at h
    · cases h
    · cases h
      rename_i hlinks
      obtain ⟨-, -, htook⟩ := comparisons_sound ho hlinks
      refine ⟨.tighter nofun hl.fits, ?_⟩
      simpa [Expr.chained] using hl.took.trans (balanced_terminals e) htook
    · rename_i op fn right ts₂ hlinks
      cases h
      obtain ⟨hops, hfits, htook⟩ := comparisons_sound ho hlinks
      refine ⟨.comparison (hops _ List.mem_cons_self) hl.fits (hfits _ List.mem_cons_self), ?_⟩
      simpa [Expr.chained, Expr.pieces, Expr.terminals] using
        hl.took.trans (balanced_terminals left) htook
    · rename_i links ts₂ hnil hone hlinks
      cases h
      obtain ⟨hops, hfits, htook⟩ := comparisons_sound ho hlinks
      refine ⟨.comparisons ?_ hl.fits hops hfits, hl.took.trans (balanced_terminals left) htook⟩
      rcases links with _ | ⟨⟨op, fn, right⟩, _ | ⟨k, links⟩⟩
      · exact (hnil rfl).elim
      · exact (hone _ _ _ rfl).elim
      · simp

theorem range_sound (ho : Sound depth .additive operand) :
    Sound (depth + 1) .range (range operand) := by
  intro s ts e rest h
  unfold range at h
  split at h
  · cases h
  · rename_i first ts₁ hfirst
    have hf := ho hfirst
    split at h
    · cases h
      exact ⟨.tighter nofun hf.fits, hf.took⟩
    · rename_i hawaits
      have hs : s.awaitsColon = false := by simpa using hawaits
      split at h
      · cases h
        exact ⟨.tighter nofun hf.fits, hf.took⟩
      · rename_i ts₂ hcolon
        split at h
        · cases h
        · rename_i second ts₃ hsecond
          have hse := ho hsecond
          have htwo := hf.took.over (balanced_terminals first) (fun _ => rfl) hcolon hse.took
          split at h
          · cases h
            refine ⟨?_, by simpa [Expr.terminals, Expr.stepPieces] using htwo⟩
            have hff := hf.fits
            have hsf := hse.fits
            rw [hs] at hff hsf ⊢
            exact .range hff hsf
          · rename_i ts₄ hcolon'
            split at h
            · cases h
            · rename_i third ts₅ hthird
              have hth := ho hthird
              cases h
              have hbal : Balanced (first.terminals ++ .mark .colon :: second.terminals) :=
                (balanced_terminals first).append (.cons (fun _ => rfl) (balanced_terminals second))
              have hthree := htwo.over hbal (fun _ => rfl) hcolon' hth.took
              refine ⟨?_, by simpa [Expr.terminals, Expr.stepPieces] using hthree⟩
              have hff := hf.fits
              have hsf := hse.fits
              have htf := hth.fits
              rw [hs] at hff hsf htf ⊢
              exact .stepped hff hsf htf

theorem unary_sound {self : Rule} (hself : Sound depth .unary self)
    (ho : Sound depth .power operand) : Sound (depth + 1) .unary (unary self operand) := by
  intro s ts e rest h
  unfold unary at h
  split at h
  · have he := ho h
    exact ⟨.tighter nofun he.fits, he.took⟩
  · rename_i op fn ts₁ hop
    split at h
    · cases h
    · rename_i arg ts₂ harg
      have ha := hself harg
      cases h
      have hmem := OperatorTable.mem_of_find? (operatorAt?_eq_some hop).2.1
      have hfn : fn ≠ .factorial := by
        rintro rfl
        simp [Level.unaryTable] at hmem
      refine ⟨.sign hmem ha.fits, ?_⟩
      simpa [Expr.terminals, hfn] using (took_operator rfl hop).trans (.operator op) ha.took

theorem power_sound {base exponent : Rule} (hb : Sound depth .factorial base)
    (he : Sound depth .unary exponent) : Sound (depth + 1) .power (power base exponent) := by
  intro s ts e rest h
  unfold power at h
  split at h
  · cases h
  · rename_i left ts₁ hleft
    have hl := hb hleft
    split at h
    · cases h
      exact ⟨.tighter nofun hl.fits, hl.took⟩
    · rename_i op fn ts₂ hop
      split at h
      · cases h
      · rename_i right ts₃ hright
        have hr := he hright
        cases h
        refine ⟨.power (OperatorTable.mem_of_find? (operatorAt?_eq_some hop).2.1) hl.fits
          hr.fits, ?_⟩
        have hmark := (took_operator rfl hop).trans (.operator op) hr.took
        exact hl.took.trans (balanced_terminals left) hmark

/-- A list that is read is not empty: its fuel lasts until an expression without a comma. -/
theorem listed_sound (hi : Sound depth .assignment item) {fuel : Nat} {es : List Expr}
    (hfuel : ts.length < fuel) (h : listed item fuel ts = .ok (es, rest)) :
    es ≠ [] ∧ (∀ e ∈ es, e.Fits depth .assignment false) ∧
      Took .group ts (Expr.markedBy .comma (Expr.pieces es)) rest := by
  induction fuel generalizing ts es with
  | zero => exact absurd hfuel (Nat.not_lt_zero _)
  | succ fuel ih =>
      unfold listed at h
      split at h
      · cases h
      · rename_i e ts₁ he
        have her := hi he
        split at h
        · cases h
          refine ⟨nofun, ?_, by simpa [Expr.pieces] using her.took⟩
          exact List.forall_mem_singleton.mpr her.fits
        · rename_i ts₂ hcomma
          split at h
          · cases h
          · rename_i more ts₃ hmore
            cases h
            have hlen := her.took.length_le
            have hlen' := (took_mark hcomma).length_le
            simp only [List.length_singleton] at hlen'
            obtain ⟨hne, hfits, htook⟩ := ih (by omega) hmore
            refine ⟨nofun, List.forall_mem_cons.mpr ⟨her.fits, hfits⟩, ?_⟩
            have h := her.took.over (balanced_terminals e) (fun _ => rfl) hcomma htook
            cases more with
            | nil => exact absurd rfl hne
            | cons e' more => simpa [Expr.pieces, Expr.markedBy] using h

theorem enclosed_sound (hi : Sound depth .assignment item) {opening closing : Delimiter}
    {es : List Expr} {ts₁ : List Token} (ho : ∀ n, Terminal.opened (.mark opening) n = n + 1)
    (hopen : Took s ts [.mark opening] ts₁) (h : enclosed item closing ts₁ = .ok (es, rest)) :
    (∀ e ∈ es, e.Fits depth .assignment false) ∧
      Took s ts (Expr.bracketed opening closing (Expr.markedBy .comma (Expr.pieces es))) rest := by
  unfold enclosed at h
  split at h
  · rename_i ts₂ hclose
    cases h
    exact ⟨nofun, hopen.group ho (fun _ => rfl) (.refl _ _) (took_mark hclose)⟩
  · split at h
    · cases h
    · rename_i es' ts₂ hes
      split at h
      · cases h
      · rename_i ts₃ hclose
        cases h
        obtain ⟨-, hfits, htook⟩ := listed_sound hi (Nat.lt_succ_self _) hes
        have hbal : Balanced (Expr.markedBy .comma (Expr.pieces es)) :=
          balanced_markedBy (fun _ => rfl) es
        exact ⟨hfits, hopen.group ho hbal htook (took_mark (after?_of_expect hclose))⟩

theorem accessorsOnto_sound (hi : Sound depth .assignment item) {fuel : Nat}
    (hleft : Reads depth .primary s ts₀ left ts)
    (h : accessorsOnto item s fuel left ts = .ok (e, rest)) :
    Reads depth .primary s ts₀ e rest := by
  induction fuel generalizing left ts with
  | zero =>
      cases h
      exact hleft
  | succ fuel ih =>
      unfold accessorsOnto at h
      dsimp only at h
      split at h
      · rename_i hparen
        split at h
        · rename_i hcall
          split at h
          · cases h
          · rename_i args ts₁ hargs
            obtain ⟨hfits, htook⟩ := enclosed_sound hi (fun _ => rfl) (took_delimiter hparen) hargs
            refine ih ⟨.call hcall hleft.fits hfits, ?_⟩ h
            exact hleft.took.trans (balanced_terminals left) htook
        · cases h
          exact hleft
      · rename_i hbracket
        split at h
        · cases h
        · cases h
        · rename_i dimensions ts₁ hne hdims
          obtain ⟨hfits, htook⟩ := enclosed_sound hi (fun _ => rfl) (took_delimiter hbracket) hdims
          have hne : dimensions ≠ [] := fun h0 => hne h0
          refine ih ⟨.brackets hne hleft.fits hfits,
            hleft.took.trans (balanced_terminals left) ?_⟩ h
          rw [Expr.terminals_brackets]
          exact htook
      · rename_i hdot
        split at h
        · rename_i name hname
          have hmark := (took_delimiter hdot).trans (fun _ => rfl) (took_name hname)
          exact ih ⟨.dot hleft.fits, hleft.took.trans (balanced_terminals left) hmark⟩ h
        · cases h
      · cases h
        exact hleft

theorem factorialsOnto_sound {fuel : Nat} (hleft : Reads (depth + 1) .factorial s ts₀ left ts)
    (h : factorialsOnto s fuel left ts = (e, rest)) :
    Reads (depth + 1) .factorial s ts₀ e rest := by
  induction fuel generalizing left ts with
  | zero =>
      cases h
      exact hleft
  | succ fuel ih =>
      unfold factorialsOnto at h
      split at h
      · cases h
        exact hleft
      · rename_i op fn ts₁ hop
        have hmem := OperatorTable.mem_of_find? (operatorAt?_eq_some hop).2.1
        have hfn : fn = .factorial := by
          simp only [Level.factorialTable, List.mem_singleton] at hmem
          exact congrArg Prod.snd hmem
        refine ih ⟨.factorial hmem hleft.fits, ?_⟩ h
        simpa [Expr.terminals, hfn] using
          hleft.took.trans (balanced_terminals left) (took_operator rfl hop)

theorem factorial_sound {primary : Rule} (hp : Sound depth .primary primary)
    (hi : Sound depth .assignment item) :
    Sound (depth + 1) .factorial (factorial primary item) := by
  intro s ts e rest h
  unfold factorial at h
  split at h
  · cases h
  · rename_i e₁ ts₁ hprimary
    split at h
    · cases h
    · rename_i e₂ ts₂ haccessors
      have hr := accessorsOnto_sound hi (hp hprimary) haccessors
      exact factorialsOnto_sound ⟨.tighter nofun hr.fits, hr.took⟩ (Except.ok.inj h)

theorem took_comma {first : Bool} {ts₁ : List Token}
    (h : (if first then .ok ts else expect .group .comma ts) = .ok ts₁) :
    Took .group ts (if first then [] else [.mark .comma]) ts₁ := by
  cases first with
  | true =>
      cases h
      exact .refl _ _
  | false => exact took_mark (after?_of_expect h)

theorem properties_sound (hi : Sound depth .assignment item) {first : Bool} {fuel : Nat}
    {ps : List (Text × Expr)} (hfuel : ts.length < fuel)
    (h : properties item first fuel ts = .ok (ps, rest)) :
    (∀ p ∈ ps, p.2.Fits depth .assignment false) ∧ ∃ ts₁,
      Took .group ts (Expr.followingProperties first ps) ts₁ ∧
        after? .group .closeBrace ts₁ = some rest := by
  induction fuel generalizing ts first ps with
  | zero => exact absurd hfuel (Nat.not_lt_zero _)
  | succ fuel ih =>
      unfold properties at h
      split at h
      · rename_i ts₁ hclose
        cases h
        refine ⟨nofun, ts, ?_, hclose⟩
        cases first <;> exact .refl _ _
      · split at h
        · cases h
        · rename_i ts₁ hcomma
          have hstart := took_comma hcomma
          dsimp only at h
          split at h
          · cases h
          · rename_i key hkey
            have hdenotes : (front (settle .group ts₁)).lexeme.Denotes (.key key) := by
              split at hkey
              · rename_i key' heq
                cases hkey
                exact heq ▸ .quotedKey key
              · rename_i key' heq
                cases hkey
                exact heq ▸ .bareKey key
              · cases hkey
            split at h
            · cases h
            · rename_i ts₂ hcolon
              split at h
              · cases h
              · rename_i value ts₃ hvalue
                have hv := hi hvalue
                split at h
                · cases h
                · rename_i more ts₄ hmore
                  cases h
                  have hpiece := (took_next hdenotes).over (fun _ => rfl) (fun _ => rfl)
                    (after?_of_expect hcolon) hv.took
                  have hstart' : Balanced (if first then [] else [.mark .comma]) := by
                    cases first <;> exact fun _ => rfl
                  have hhead := hstart.trans hstart' hpiece
                  have hlen := hhead.length_le
                  simp only [List.length_append, List.length_cons] at hlen
                  obtain ⟨hfits, ts₅, htook, hclose⟩ := ih (by omega) hmore
                  refine ⟨List.forall_mem_cons.mpr ⟨hv.fits, hfits⟩, ts₅, ?_, hclose⟩
                  rw [Expr.followingProperties_cons]
                  refine hhead.trans (hstart'.append ?_) htook
                  exact .cons (fun _ => rfl) (.cons (fun _ => rfl) (balanced_terminals value))

theorem number_isWritten {literal : Text} {v : Literal} (h : number literal = .ok v) :
    Lexeme.Denotes (.number literal) v.terminal := by
  have hden := Lexeme.Denotes.number h
  unfold number at h
  split at h
  · split at h
    · cases h
      exact hden
    · cases h
  · cases h
    exact hden

theorem namedConstant?_terminal {name : Text} {v : Literal} (h : namedConstant? name = some v) :
    v.terminal = .name name := by
  unfold namedConstant? at h
  split at h
  · rename_i hn
    cases h
    rw [hn]
    rfl
  · split at h
    · rename_i hn
      cases h
      rw [hn]
      rfl
    · split at h
      · rename_i hn
        cases h
        rw [hn]
        rfl
      · cases h

theorem primary_sound (hi : Sound depth .assignment item) :
    Sound (depth + 1) .primary (primary item) := by
  intro s ts e rest h
  unfold primary at h
  dsimp only at h
  split at h
  · rename_i literal hlexeme
    split at h
    · cases h
    · rename_i v hv
      cases h
      have hd := number_isWritten hv
      exact ⟨.constant ⟨_, hd⟩, took_next (hlexeme ▸ hd)⟩
  · rename_i value hlexeme
    cases h
    exact ⟨.constant ⟨_, .string value⟩, took_next (hlexeme ▸ .string value)⟩
  · rename_i name hlexeme
    split at h
    · cases h
    · rename_i hword
      split at h
      · rename_i v hv
        cases h
        have hd : Lexeme.Denotes (.name name) v.terminal := namedConstant?_terminal hv ▸ .name name
        exact ⟨.constant ⟨_, hd⟩, took_next (hlexeme ▸ hd)⟩
      · rename_i hc
        cases h
        exact ⟨.symbol (by simpa using hword) hc, took_name hlexeme⟩
  · rename_i hlexeme
    split at h
    · cases h
    · rename_i content ts₁ hcontent
      have hc := hi hcontent
      split at h
      · cases h
      · rename_i ts₂ hclose
        cases h
        exact ⟨.parenthesis hc.fits, (took_delimiter hlexeme).group (fun _ => rfl)
          (balanced_terminals content) hc.took (took_mark (after?_of_expect hclose))⟩
  · rename_i hlexeme
    split at h
    · cases h
    · rename_i items ts₁ hitems
      cases h
      obtain ⟨hfits, htook⟩ := enclosed_sound hi (fun _ => rfl) (took_delimiter hlexeme) hitems
      exact ⟨.array hfits, htook⟩
  · rename_i hlexeme
    split at h
    · cases h
    · rename_i ps ts₁ hps
      cases h
      obtain ⟨hfits, ts₂, htook, hclose⟩ := properties_sound hi (Nat.lt_succ_self _) hps
      refine ⟨.object hfits,
        (took_delimiter hlexeme).group (fun _ => rfl) ?_ htook (took_mark hclose)⟩
      exact (Nested.intercalate (fun _ => rfl) (nested_propertyPieces ps)).balanced
  · cases h
  · cases h

/-- Every rule reads trees of its level only. -/
theorem ofLevel_sound (depth : Nat) (level : Level) : Sound depth level (ofLevel depth level) := by
  induction depth generalizing level with
  | zero =>
      intro s ts e rest h
      cases h
  | succ depth ih =>
      cases level with
      | assignment => exact assignment_sound (ih .conditional) (ih .assignment)
      | conditional => exact conditional_sound (ih .or) (ih .assignment)
      | relational => exact relational_sound (ih .shift)
      | range => exact range_sound (ih .additive)
      | unary => exact unary_sound (ih .unary) (ih .power)
      | power => exact power_sound (ih .factorial) (ih .unary)
      | factorial => exact factorial_sound (ih .primary) (ih .assignment)
      | primary => exact primary_sound (ih .assignment)
      | or => exact joined_sound nofun nofun (ih .xor)
      | xor => exact joined_sound nofun nofun (ih .and)
      | and => exact joined_sound nofun nofun (ih .bitOr)
      | bitOr => exact joined_sound nofun nofun (ih .bitXor)
      | bitXor => exact joined_sound nofun nofun (ih .bitAnd)
      | bitAnd => exact joined_sound nofun nofun (ih .relational)
      | shift => exact joined_sound nofun nofun (ih .conversion)
      | conversion => exact joined_sound nofun nofun (ih .range)
      | additive => exact joined_sound nofun nofun (ih .multiplicative)
      | multiplicative => exact joined_sound nofun nofun (ih .unary)

end Rule

end MetricBridge.Formula
