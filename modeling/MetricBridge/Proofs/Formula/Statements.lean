import MetricBridge.Proofs.Formula.RuleSoundness

namespace MetricBridge.Formula

def Lexeme.separates : Lexeme → Bool
  | newline => true
  | delimiter .semicolon => true
  | _ => false

def Lexeme.isContent (l : Lexeme) : Bool := !l.separates && l ≠ finish

def Terminal.isSemicolon : Terminal → Bool
  | mark .semicolon => true
  | _ => false

/-- The symbols of a tree without the semicolons between its statements. -/
def Expr.content (e : Expr) : List Terminal := e.terminals.filter (!·.isSemicolon)

/-- The tree is one statement or a block of statements, within `depth` nested rules. -/
inductive Expr.IsFormula (depth : Nat) : Expr → Prop
  | statement {e} (h : e.Fits depth .assignment false) : IsFormula depth e
  | block {es : List Expr} (hne : es ≠ []) (h : ∀ e ∈ es, e.Fits depth .assignment false) :
      IsFormula depth (.block es)

inductive Sequence : Bool → List Token → List Expr → Bool → Prop
  | done (free) : Sequence free [] [] false
  | separator {free t ts es seen} (ht : t.lexeme.separates = true) (h : Sequence true ts es seen) :
      Sequence free (t :: ts) es true
  | statement {us ts e es seen} (hu : Spells 0 us e.terminals) (h : Sequence false ts es seen) :
      Sequence true (us ++ ts) (e :: es) seen

inductive Writes (depth : Nat) : List Token → Expr → Prop
  | statement {ts e} (hf : e.Fits depth .assignment false) (h : Spells 0 ts e.terminals) :
      Writes depth ts e
  | block {ts es} (hne : es ≠ []) (hf : ∀ e ∈ es, e.Fits depth .assignment false)
      (h : Sequence true ts es true) : Writes depth ts (.block es)

variable {depth : Nat} {ts taken rest : List Token} {e : Expr} {es : List Expr} {free seen : Bool}

theorem Lexeme.Denotes.isContent_eq {l : Lexeme} {m : Terminal} (h : l.Denotes m) :
    l.isContent = !m.isSemicolon := by
  cases h with
  | number | string | name | quotedKey | bareKey => rfl
  | mark d => cases d <;> rfl
  | @operator l op h hop =>
      cases l with
      | delimiter d =>
          cases d with
          | semicolon => exact absurd (Option.some.inj h).symm hop
          | _ => rfl
      | name => rfl
      | number | string | newline | finish => cases h

theorem Spells.content {n : Nat} {ms : List Terminal} (h : Spells n ts ms) :
    List.Forall₂ Lexeme.Denotes ((ts.map Token.lexeme).filter Lexeme.isContent)
      (ms.filter (!·.isSemicolon)) := by
  induction h with
  | nil => exact .nil
  | feed _ ht _ ih => simpa [ht, Lexeme.isContent, Lexeme.separates] using ih
  | @cons n t ts m ms ht _ ih =>
      have hc := ht.isContent_eq
      rw [List.map_cons, List.filter_cons, List.filter_cons, hc]
      split
      · exact .cons ht ih
      · exact ih

theorem Sequence.content (h : Sequence free ts es seen) :
    List.Forall₂ Lexeme.Denotes ((ts.map Token.lexeme).filter Lexeme.isContent)
      ((Expr.pieces es).flatten.filter (!·.isSemicolon)) := by
  induction h with
  | done => exact .nil
  | separator ht _ ih => simpa [ht, Lexeme.isContent] using ih
  | statement hu _ ih =>
      simpa [Expr.pieces] using List.rel_append hu.content ih

theorem filter_semicolons (pieces : List (List Terminal)) :
    (Expr.markedBy .semicolon pieces).filter (!·.isSemicolon) =
      pieces.flatten.filter (!·.isSemicolon) := by
  cases pieces with
  | nil => rfl
  | cons piece pieces =>
      rw [Expr.markedBy_cons, List.flatten_cons, List.filter_append, List.filter_append]
      congr 1
      induction pieces with
      | nil => rfl
      | cons piece' pieces ih => simp_all [Terminal.isSemicolon]

/-- Without separators the tokens correspond one by one to the symbols of the tree. -/
theorem Writes.content (h : Writes depth ts e) :
    List.Forall₂ Lexeme.Denotes ((ts.map Token.lexeme).filter Lexeme.isContent) e.content := by
  cases h with
  | statement _ h => exact h.content
  | block _ _ h =>
      rw [Expr.content, Expr.terminals, filter_semicolons]
      exact h.content

theorem Spells.ne_finish {n : Nat} {ms : List Terminal} (h : Spells n ts ms) :
    ∀ t ∈ ts, t.lexeme ≠ .finish := by
  induction h with
  | nil => nofun
  | feed _ ht _ ih => exact List.forall_mem_cons.mpr ⟨by rw [ht]; nofun, ih⟩
  | cons ht _ ih => exact List.forall_mem_cons.mpr ⟨ht.ne_finish, ih⟩

theorem Sequence.ne_finish (h : Sequence free ts es seen) : ∀ t ∈ ts, t.lexeme ≠ .finish := by
  induction h with
  | done => nofun
  | separator ht _ ih =>
      refine List.forall_mem_cons.mpr ⟨fun hf => ?_, ih⟩
      rw [hf] at ht
      cases ht
  | statement hu _ ih => exact List.forall_mem_append.mpr ⟨hu.ne_finish, ih⟩

theorem Writes.ne_finish (h : Writes depth ts e) : ∀ t ∈ ts, t.lexeme ≠ .finish := by
  cases h with
  | statement _ h => exact h.ne_finish
  | block _ _ h => exact h.ne_finish

theorem Writes.isFormula (h : Writes depth ts e) : e.IsFormula depth := by
  cases h with
  | statement hf _ => exact .statement hf
  | block hne hf _ => exact .block hne hf

theorem Sequence.seen_of_two (h : Sequence free ts es seen) :
    (free = false → es ≠ [] → seen = true) ∧ (2 ≤ es.length → seen = true) := by
  induction h with
  | done => exact ⟨fun _ h => absurd rfl h, nofun⟩
  | separator => exact ⟨fun _ _ => rfl, fun _ => rfl⟩
  | @statement us ts e es seen hu h ih =>
      refine ⟨nofun, fun hlen => ih.1 rfl ?_⟩
      rintro rfl
      simp at hlen

theorem Sequence.single (h : Sequence true ts [e] false) : Spells 0 ts e.terminals := by
  cases h with
  | statement hu h =>
      cases h
      rwa [List.append_nil]

namespace Rule

variable {item : Rule}

theorem front_eq {t : Lexeme} (h : (front ts).lexeme = t) (ht : t ≠ .finish) :
    ∃ u us, ts = u :: us ∧ u.lexeme = t ∧ passed ts = us := by
  cases ts with
  | nil => exact absurd h.symm ht
  | cons u us =>
      have hu : u.lexeme ≠ .finish := fun he => ht (h.symm.trans he)
      exact ⟨u, us, rfl, h, by rw [passed, if_neg hu]⟩

theorem statements_sound (hi : Sound depth .assignment item) {fuel : Nat}
    (h : statements item free fuel ts = .ok (es, seen, rest)) :
    (∀ e ∈ es, e.Fits depth .assignment false) ∧
      ∃ taken, ts = taken ++ rest ∧ Sequence free taken es seen := by
  induction fuel generalizing ts free es seen with
  | zero =>
      cases h
      exact ⟨nofun, [], rfl, .done free⟩
  | succ fuel ih =>
      have hseparator : ∀ {l}, (front ts).lexeme = l → l ≠ .finish → l.separates = true →
          (statements item true fuel (passed ts)).map (fun x => (x.1, true, x.2.2)) =
            .ok (es, seen, rest) →
          (∀ e ∈ es, e.Fits depth .assignment false) ∧
            ∃ taken, ts = taken ++ rest ∧ Sequence free taken es seen := by
        intro l hl hne hsep h
        obtain ⟨t, us, rfl, ht, hus⟩ := front_eq hl hne
        rw [hus] at h
        cases hr : statements item true fuel us with
        | error => rw [hr] at h; cases h
        | ok r =>
            rw [hr] at h
            cases h
            obtain ⟨hfits, taken, rfl, hseq⟩ := ih hr
            exact ⟨hfits, t :: taken, rfl, .separator (ht ▸ hsep) hseq⟩
      unfold statements at h
      split at h
      · cases h
        exact ⟨nofun, [], rfl, .done free⟩
      · rename_i hl
        exact hseparator hl nofun rfl h
      · rename_i hl
        exact hseparator hl nofun rfl h
      · cases free with
        | false =>
            cases h
            exact ⟨nofun, [], rfl, .done false⟩
        | true =>
            simp only [Bool.not_true, Bool.false_eq_true, if_false] at h
            split at h
            · cases h
            · rename_i e ts₁ he
              have her := hi he
              obtain ⟨taken, rfl, hspells⟩ := her.took
              cases hr : statements item false fuel ts₁ with
              | error => rw [hr] at h; cases h
              | ok r =>
                  rw [hr] at h
                  cases h
                  obtain ⟨hfits, taken', rfl, hseq⟩ := ih hr
                  refine ⟨List.forall_mem_cons.mpr ⟨her.fits, hfits⟩, taken ++ taken', by simp, ?_⟩
                  exact .statement (hspells 0 rfl) hseq

theorem block_sound (hi : Sound depth .assignment item) (h : block item ts = .ok (e, rest)) :
    ∃ taken, ts = taken ++ rest ∧ Writes depth taken e := by
  unfold block at h
  split at h
  · cases h
  · cases h
  · rename_i hr
    cases h
    obtain ⟨hfits, taken, hts, hseq⟩ := statements_sound hi hr
    exact ⟨taken, hts, .statement (hfits e (by simp)) hseq.single⟩
  · rename_i es seen ts₁ hnil hone hr
    cases h
    obtain ⟨hfits, taken, hts, hseq⟩ := statements_sound hi hr
    have hne : es ≠ [] := hnil
    have hseen : seen = true := by
      match es, hnil, hone with
      | [], hnil, _ => exact (hnil rfl).elim
      | [e], _, hone =>
          cases seen with
          | true => rfl
          | false => exact (hone e rfl rfl).elim
      | _ :: _ :: _, _, _ => exact hseq.seen_of_two.2 (by simp)
    rw [hseen] at hseq
    exact ⟨taken, hts, .block hne hfits hseq⟩

end Rule

theorem parseTokens_sound (h : parseTokens depth ts = .ok e) :
    ∃ taken rest, ts = taken ++ rest ∧ (front rest).lexeme = .finish ∧ Writes depth taken e := by
  unfold parseTokens at h
  split at h
  · cases h
  · rename_i e' rest hr
    dsimp only at h
    split at h
    · rename_i hfront
      cases h
      obtain ⟨taken, hts, hwrites⟩ := Rule.block_sound (Rule.ofLevel_sound _ _) hr
      exact ⟨taken, rest, hts, hfront, hwrites⟩
    · cases h

theorem parseTokens_reads {body : List Token} {p : Nat} (hbody : ∀ t ∈ body, t.lexeme ≠ .finish)
    (h : parseTokens depth (body ++ [⟨.finish, p⟩]) = .ok e) : Writes depth body e := by
  obtain ⟨taken, rest, hsplit, hfinish, hwrites⟩ := parseTokens_sound h
  rcases List.append_eq_append_iff.mp hsplit with ⟨more, rfl, -⟩ | ⟨more, rfl, hrest⟩
  · -- the tokens taken would go beyond the end
    cases more with
    | nil => rwa [List.append_nil] at hwrites
    | cons t more => exact absurd rfl (hwrites.ne_finish ⟨.finish, p⟩ (by simp_all))
  · cases more with
    | nil => rwa [List.append_nil]
    | cons t more =>
        rw [hrest] at hfinish
        exact absurd hfinish (hbody t (by simp))

end MetricBridge.Formula
