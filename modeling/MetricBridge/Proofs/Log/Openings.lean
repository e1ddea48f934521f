import MetricBridge.Proofs.Log.Matches

namespace MetricBridge.Redaction

variable {w w' : Bool} {n k : Nat} {c d q : CodePoint} {t t' u v x y z r rest name value : Text}

section Letters

theorem mem_of_map_fold {s : Text} (hx : x.map CodePoint.fold = s) (hc : c ∈ x) (h : c.foldsToLetter = false) :
    c ∈ s := by
  have hfold : c.fold = c := by
    cases hf : c.fold with
    | surrogate m =>
        cases c with
        | surrogate => exact hf.symm
        | scalar e =>
            simp only [CodePoint.fold] at hf
            split_ifs at hf
    | scalar e =>
        refine (CodePoint.eq_of_fold_eq hf ?_).symm
        rw [CodePoint.foldsToLetter, hf] at h
        simp only [CodePoint.satisfies, Bool.and_eq_false_iff, decide_eq_false_iff_not, Char.not_le,
          Char.lt_def, UInt32.lt_iff_toNat_lt] at h
        exact h
  rw [← hx, ← hfold]
  exact List.mem_map_of_mem hc

/-- A text that is one of the names in the list, once it is folded, has what all letters and all code points of
the names have. -/
theorem forall_of_map_fold {p : CodePoint → Prop} {names : List Text} (hx : x.map CodePoint.fold ∈ names)
    (hletter : ∀ c, c.foldsToLetter = true → p c) (hnames : ∀ s ∈ names, ∀ c ∈ s, p c) : ∀ c ∈ x, p c := by
  intro c hc
  cases hc' : c.foldsToLetter with
  | false => exact hnames _ hx c (mem_of_map_fold rfl hc hc')
  | true => exact hletter c hc'

theorem exists_cons_of_map_fold {e : Char} {l : List Text} (h : x.map CodePoint.fold ∈ l.map (.scalar e :: ·)) :
    ∃ c y, x = c :: y ∧ c.fold = .scalar e ∧ y.map CodePoint.fold ∈ l := by
  obtain ⟨s, hs, heq⟩ := List.mem_map.mp h
  obtain ⟨c, y, rfl, hc, rfl⟩ := List.map_eq_cons_iff.mp heq.symm
  exact ⟨c, y, rfl, hc, hs⟩

def isFoldedLetter (c : CodePoint) : Bool :=
  c.satisfies (fun d => 'a' ≤ d && d ≤ 'z') || c == .scalar '_'

theorem isNameLetter_eq (c : CodePoint) : isNameLetter c = isFoldedLetter c.fold := by
  have hlow : c = .scalar '_' ↔ c.fold = .scalar '_' := by
    constructor
    · rintro rfl
      rfl
    · exact fun h => CodePoint.eq_of_fold_eq h (by decide)
  rw [Bool.eq_iff_iff]
  simp [isNameLetter, isFoldedLetter, CodePoint.foldsToLetter, hlow]

def stop? (t : Text) : Option CodePoint := t.find? fun c => !isNameLetter c

theorem stop?_append (h : stop? x = some d) (z : Text) : stop? (x ++ z) = some d := by
  rw [stop?, List.find?_append]
  rw [stop?] at h
  rw [h]
  rfl

theorem stop?_mem (h : stop? x = some d) : d ∈ x := List.mem_of_find?_eq_some h

theorem stop?_of_letters (hx : ∀ c ∈ x, isNameLetter c = true) (hd : isNameLetter d = false) (z : Text) :
    stop? (x ++ d :: z) = some d := by
  have hnone : x.find? (fun c => !isNameLetter c) = none := by
    rw [List.find?_eq_none]
    simpa using hx
  rw [stop?, List.find?_append, hnone, Option.none_or]
  simp [hd]

theorem exists_stop? (hc : c ∈ x) (h : isNameLetter c = false) : ∃ d, stop? x = some d := by
  refine Option.isSome_iff_exists.mp ?_
  rw [stop?, List.find?_isSome]
  exact ⟨c, hc, by simp [h]⟩

theorem map_stop? (x : Text) :
    (stop? x).map CodePoint.fold = (x.map CodePoint.fold).find? fun c => !isFoldedLetter c := by
  rw [stop?, List.find?_map]
  congr 2
  funext c
  rw [isNameLetter_eq, Function.comp_apply]

theorem stop?_of_map_fold {e : Char} (h : (x.map CodePoint.fold).find? (fun c => !isFoldedLetter c) = some (.scalar e))
    (he : e.toNat < 97 ∨ 122 < e.toNat) (z : Text) : stop? (x ++ z) = some (.scalar e) := by
  rw [← map_stop?] at h
  obtain ⟨d, hd, hfold⟩ := Option.map_eq_some_iff.mp h
  rw [CodePoint.eq_of_fold_eq hfold he] at hd
  exact stop?_append hd z

theorem OpensToken.stop? (h : OpensToken t) : stop? t = some (.scalar '=') := by
  obtain ⟨name, z, rfl, hname⟩ := h
  exact stop?_of_map_fold (by rw [hname]; rfl) (by decide) z

theorem OpensAddress.stop? (h : OpensAddress t) : stop? t = some (.scalar ':') := by
  obtain ⟨scheme, z, rfl, hscheme⟩ := h
  have hstop : ∀ s ∈ [lit "https://", lit "http://"], s.find? (fun c => !isFoldedLetter c) = some (.scalar ':') := by
    decide
  exact stop?_of_map_fold (hstop _ hscheme) (by decide) z

theorem isNameLetter_of_isBlank (h : c.isBlank = true) : isNameLetter c = false := by
  rw [isNameLetter, foldsToLetter_of_isBlank h, Bool.false_or, beq_eq_false_iff_ne]
  rintro rfl
  cases h

theorem OpensAuthorization.stop? (h : OpensAuthorization t) : ∃ d, stop? t = some d ∧ d.isBlank = true := by
  obtain ⟨scheme, blank, z, rfl, hscheme, hblank⟩ := h
  refine ⟨blank, stop?_of_letters ?_ (isNameLetter_of_isBlank hblank) z, hblank⟩
  exact forall_of_map_fold hscheme (fun c hc => by rw [isNameLetter, hc, Bool.true_or]) (by decide)

theorem OpensToken.head (h : OpensToken t) : ∃ c y, t = c :: y ∧ c.fold = .scalar 't' := by
  obtain ⟨name, z, rfl, hname⟩ := h
  obtain ⟨c, y, rfl, hc, -⟩ := List.map_eq_cons_iff.mp hname
  exact ⟨c, y ++ z, rfl, hc⟩

theorem OpensAuthorization.head (h : OpensAuthorization t) : ∃ c y, t = c :: y ∧ c.fold = .scalar 'b' := by
  obtain ⟨scheme, blank, z, rfl, hscheme, -⟩ := h
  obtain ⟨c, y, rfl, hc, -⟩ := exists_cons_of_map_fold (l := [lit "asic", lit "earer"]) hscheme
  exact ⟨c, y ++ blank :: z, rfl, hc⟩

theorem OpensAddress.head (h : OpensAddress t) : ∃ c y, t = c :: y ∧ c.fold = .scalar 'h' := by
  obtain ⟨scheme, z, rfl, hscheme⟩ := h
  obtain ⟨c, y, rfl, hc, -⟩ := exists_cons_of_map_fold (l := [lit "ttps://", lit "ttp://"]) hscheme
  exact ⟨c, y ++ z, rfl, hc⟩

theorem isNameLetter_of_fold {e : Char} (h : c.fold = .scalar e) (he : 'a' ≤ e ∧ e ≤ 'z') :
    isNameLetter c = true ∧ c.foldsToLetter = true := by
  have hletter : c.foldsToLetter = true := by
    rw [CodePoint.foldsToLetter, h]
    simpa [CodePoint.satisfies] using he
  exact ⟨by rw [isNameLetter, hletter, Bool.true_or], hletter⟩

end Letters

def Harmless (opens : Text → Prop) (x : Text) : Prop :=
  ∀ x₁ x₂, x = x₁ ++ x₂ → x₂ ≠ [] → ∀ z, ¬opens (x₂ ++ z)

theorem Harmless.eq_none {rule : Rule} {opens : Text → Prop} (hx : Harmless opens x) (htame : rule.Tame opens)
    (heq : x = u ++ v) (hv : v ≠ []) (w : Bool) (z : Text) : rule w (v ++ z) = none := by
  by_contra h
  exact hx u v heq hv z (htame.opens_of_ne_none h)

theorem harmless_of_head {opens : Text → Prop} {e : Char}
    (hopens : ∀ t, opens t → ∃ c y, t = c :: y ∧ c.fold = .scalar e) (hx : ∀ c ∈ x, c.fold ≠ .scalar e) :
    Harmless opens x := by
  rintro x₁ x₂ rfl hne z h
  obtain ⟨c, y, heq, hc⟩ := hopens _ h
  cases x₂ with
  | nil => exact hne rfl
  | cons d x₂ =>
      obtain ⟨rfl, -⟩ := List.cons.inj heq
      exact hx d (by simp) hc

theorem harmless_of_quoteless (hx : ∀ c ∈ x, isQuote c = false) : Harmless OpensLabel x := by
  rintro x₁ x₂ rfl hne z ⟨q, c, y, heq, hq, -⟩
  cases x₂ with
  | nil => exact hne rfl
  | cons d x₂ =>
      obtain ⟨rfl, -⟩ := List.cons.inj heq
      rw [hx d (by simp)] at hq
      cases hq

theorem namedValue_eq_none_of_quoteless (h : isQuote c = false) : namedValue w (c :: t) = none := by
  by_contra hsome
  obtain ⟨q, d, z, heq, hq, -⟩ := namedValue_tame.opens_of_ne_none hsome
  obtain ⟨rfl, -⟩ := List.cons.inj heq
  rw [h] at hq
  cases hq

theorem quoteless_of_map_fold {names : List Text} (hx : x.map CodePoint.fold ∈ names)
    (hnames : ∀ s ∈ names, ∀ c ∈ s, isQuote c = false) : ∀ c ∈ x, isQuote c = false := by
  refine forall_of_map_fold hx (fun c hc => ?_) hnames
  by_contra hquote
  rw [foldsToLetter_of_isQuote (by simpa using hquote)] at hc
  cases hc

theorem ne_equals_of_map_fold {names : List Text} (hx : x.map CodePoint.fold ∈ names)
    (hnames : ∀ s ∈ names, ∀ c ∈ s, c ≠ .scalar '=') : ∀ c ∈ x, c ≠ .scalar '=' := by
  refine forall_of_map_fold hx ?_ hnames
  rintro c hc rfl
  cases hc

theorem isQuote_of_isNameLetter (h : isNameLetter c = true) : isQuote c = false := by
  by_contra hquote
  rw [isNameLetter_of_isQuote (by simpa using hquote)] at h
  cases h

theorem isQuote_of_isBlank (h : c.isBlank = true) : isQuote c = false := by
  by_contra hquote
  obtain rfl | rfl := isQuote_iff.mp (by simpa using hquote) <;> cases h

theorem isQuote_of_isCredential (h : isCredential c = true) : isQuote c = false := by
  by_contra hquote
  obtain rfl | rfl := isQuote_iff.mp (by simpa using hquote) <;> cases h

/-- Whether each run of letters in the text is followed, in the text, by something else than a blank or a
colon. -/
def isFirm : Text → Bool
  | [] => true
  | c :: t => (!isNameLetter c || (stop? t).any fun d => !d.isBlank && d != .scalar ':') && isFirm t

theorem isFirm_append (hx : isFirm x = true) (hy : isFirm y = true) : isFirm (x ++ y) = true := by
  induction x with
  | nil => exact hy
  | cons c x ih =>
      simp only [isFirm, List.cons_append, Bool.and_eq_true, Bool.or_eq_true] at hx ⊢
      refine ⟨hx.1.imp_right fun hstop => ?_, ih hx.2⟩
      cases hd : stop? x with
      | none =>
          rw [hd] at hstop
          cases hstop
      | some d =>
          rw [hd] at hstop
          rwa [stop?_append hd]

theorem isFirm_drop (h : isFirm (x ++ y) = true) : isFirm y = true := by
  induction x with
  | nil => exact h
  | cons c x ih =>
      simp only [isFirm, List.cons_append, Bool.and_eq_true] at h
      exact ih h.2

theorem isFirm_of_letterless (h : ∀ c ∈ x, isNameLetter c = false) : isFirm x = true := by
  induction x with
  | nil => rfl
  | cons c x ih =>
      obtain ⟨hc, hx⟩ := List.forall_mem_cons.mp h
      simp [isFirm, hc, ih hx]

theorem isFirm_of_last (hx : ∀ c ∈ x, c.isBlank = false ∧ c ≠ .scalar ':') (hd : isNameLetter d = false)
    (hmark : d.isBlank = false ∧ d ≠ .scalar ':') : isFirm (x ++ [d]) = true := by
  induction x with
  | nil => exact isFirm_of_letterless (by simpa using hd)
  | cons c x ih =>
      obtain ⟨e, he⟩ := exists_stop? (x := x ++ [d]) (by simp) hd
      have hmem : e ∈ c :: x ∨ e = d := by
        obtain h | h := List.mem_append.mp (stop?_mem he)
        · exact .inl (List.mem_cons_of_mem c h)
        · exact .inr (List.mem_singleton.mp h)
      have hplain : e.isBlank = false ∧ e ≠ .scalar ':' := hmem.elim (hx e) fun h => h ▸ hmark
      simp [isFirm, he, hplain, ih fun c' hc' => hx c' (List.mem_cons_of_mem c hc')]

def BeginsWithWord (opens : Text → Prop) : Prop :=
  ∀ t, opens t → (∃ c y, t = c :: y ∧ isNameLetter c = true) ∧
    ∃ d, stop? t = some d ∧ (d.isBlank = true ∨ d = .scalar ':')

theorem authorization_beginsWithWord : BeginsWithWord OpensAuthorization := by
  intro t h
  obtain ⟨c, y, rfl, hc⟩ := h.head
  obtain ⟨d, hd, hblank⟩ := h.stop?
  exact ⟨⟨c, y, rfl, (isNameLetter_of_fold hc (by decide)).1⟩, d, hd, .inl hblank⟩

theorem address_beginsWithWord : BeginsWithWord OpensAddress := by
  intro t h
  obtain ⟨c, y, rfl, hc⟩ := h.head
  exact ⟨⟨c, y, rfl, (isNameLetter_of_fold hc (by decide)).1⟩, _, h.stop?, .inr rfl⟩

theorem harmless_of_isFirm {opens : Text → Prop} (hopens : BeginsWithWord opens) (hx : isFirm x = true) :
    Harmless opens x := by
  rintro x₁ x₂ rfl hne z h
  obtain ⟨⟨c, y, heq, hc⟩, d, hd, hmark⟩ := hopens _ h
  cases x₂ with
  | nil => exact hne rfl
  | cons c' x₂ =>
      obtain ⟨rfl, -⟩ := List.cons.inj heq
      have hfirm := isFirm_drop hx
      simp only [isFirm, hc, Bool.not_true, Bool.false_or, Bool.and_eq_true] at hfirm
      cases hstop : stop? x₂ with
      | none =>
          rw [hstop] at hfirm
          cases hfirm.1
      | some e =>
          have hsame : stop? (c' :: x₂ ++ z) = some e := by
            refine stop?_append ?_ z
            rw [stop?] at hstop ⊢
            simp [hc, hstop]
          obtain rfl : d = e := Option.some.inj (hd.symm.trans hsame)
          rw [hstop] at hfirm
          obtain h | rfl := hmark
          · simp [h] at hfirm
          · simp at hfirm

theorem isFirm_tokenName (h : name.map CodePoint.fold = lit "token_auth=") : isFirm name = true := by
  have hplain : ∀ c ∈ name, c.isBlank = false ∧ c ≠ .scalar ':' := by
    refine forall_of_map_fold (List.mem_singleton.mpr h) (fun c hc => ⟨c.isBlank_of_foldsToLetter hc, ?_⟩)
      (by decide)
    rintro rfl
    cases hc
  obtain ⟨l, s, rfl, -, hs⟩ := List.map_eq_append_iff.mp (h.trans (rfl : _ = lit "token_auth" ++ lit "="))
  obtain ⟨e, y, rfl, he, hy⟩ := List.map_eq_cons_iff.mp hs
  obtain rfl := List.map_eq_nil_iff.mp hy
  obtain rfl := CodePoint.eq_of_fold_eq he (by decide)
  exact isFirm_of_last (fun c hc => hplain c (List.mem_append_left _ hc)) rfl (by decide)

theorem isFirm_tokenName_tail (h : name.map CodePoint.fold = lit "oken_auth=") : isFirm name = true :=
  isFirm_drop (x := [.scalar 't']) (isFirm_tokenName (by rw [List.map_append, h]; rfl))

theorem isFirm_hidden : isFirm hidden = true := by decide

theorem isFirm_hiddenValue (value : Text) : isFirm (hiddenValue value) = true := by
  obtain h | ⟨q, hq, h⟩ := hiddenValue_cases value
  · rw [h]
    decide
  · rw [h]
    obtain rfl | rfl := isQuote_iff.mp hq <;> decide

theorem IsLabel.tail (h : IsLabel (q :: y)) : isFirm y = true ∧ Harmless OpensLabel y := by
  obtain @⟨_, q', name, before, after, ⟨-, hq'⟩, hname, -, hbefore, hafter⟩ := h
  have hrest : ∀ c ∈ before ++ .scalar ':' :: after, isNameLetter c = false ∧ isQuote c = false := by
    intro c hc
    rw [List.mem_append, List.mem_cons] at hc
    obtain hc | rfl | hc := hc
    · exact ⟨isNameLetter_of_isBlank (hbefore c hc), isQuote_of_isBlank (hbefore c hc)⟩
    · exact ⟨rfl, rfl⟩
    · exact ⟨isNameLetter_of_isBlank (hafter c hc), isQuote_of_isBlank (hafter c hc)⟩
  generalize hr : before ++ .scalar ':' :: after = mark at hrest
  have hmark : mark ≠ [] := by
    rintro rfl
    simp at hr
  constructor
  · have hfirst : isFirm (name ++ [q']) = true := by
      refine isFirm_of_last (fun c hc => ⟨?_, ?_⟩) (isNameLetter_of_isQuote hq') ?_
      · by_contra hblank
        have hletter := hname c hc
        rw [isNameLetter_of_isBlank (by simpa using hblank)] at hletter
        cases hletter
      · rintro rfl
        cases hname _ hc
      · obtain rfl | rfl := isQuote_iff.mp hq' <;> decide
    have hfirm := isFirm_append hfirst (isFirm_of_letterless fun c hc => (hrest c hc).1)
    rwa [List.append_assoc, List.singleton_append] at hfirm
  · rintro y₁ y₂ heq hne z ⟨e, c, r, hopens, he, hc⟩
    have hfirst : ∀ d y, y₂ = d :: y → isQuote d = true := by
      rintro d y rfl
      obtain ⟨rfl, -⟩ := List.cons.inj hopens
      exact he
    have hquote : y₂ ≠ q' :: mark := by
      rintro rfl
      cases mark with
      | nil => exact hmark rfl
      | cons d mark =>
          obtain ⟨rfl, -⟩ := List.cons.inj (List.cons.inj hopens).2
          rw [(hrest d List.mem_cons_self).1] at hc
          cases hc
    obtain ⟨a, rfl, ha⟩ | ⟨a, rfl, rfl⟩ := List.append_eq_append_iff.mp heq
    · cases a with
      | nil => exact hquote ha.symm
      | cons d a =>
          obtain ⟨-, rfl⟩ := List.cons.inj ha
          cases y₂ with
          | nil => exact hne rfl
          | cons d y =>
              have hd := hfirst d y rfl
              rw [(hrest d (by simp)).2] at hd
              cases hd
    · cases a with
      | nil => exact hquote rfl
      | cons d a =>
          have hd := hfirst d _ rfl
          rw [isQuote_of_isNameLetter (hname d (by simp))] at hd
          cases hd

theorem IsLabel.mem (h : IsLabel x) : ∀ c ∈ x,
    isQuote c = true ∨ isNameLetter c = true ∨ c.isBlank = true ∨ c = .scalar ':' := by
  obtain @⟨q, q', name, before, after, ⟨hq, hq'⟩, hname, -, hbefore, hafter⟩ := h
  intro c hc
  simp only [List.mem_cons, List.mem_append] at hc
  obtain rfl | hc | rfl | hc | rfl | hc := hc
  · exact .inl hq
  · exact .inr (.inl (hname c hc))
  · exact .inl hq'
  · exact .inr (.inr (.inl (hbefore c hc)))
  · exact .inr (.inr (.inr rfl))
  · exact .inr (.inr (.inl (hafter c hc)))

theorem IsLabel.ne_equals (h : IsLabel x) : ∀ c ∈ x, c ≠ .scalar '=' := by
  rintro c hc rfl
  exact absurd (h.mem _ hc) (by decide)

theorem notMem_hiddenNamedValue (hx : IsLabel x) (value : Text) :
    CodePoint.scalar '@' ∉ x ++ hiddenValue value := by
  refine List.not_mem_append (fun h => absurd (hx.mem _ h) (by decide)) ?_
  obtain h | ⟨q, hq, h⟩ := hiddenValue_cases value
  · rw [h]
    decide
  · rw [h]
    obtain rfl | rfl := isQuote_iff.mp hq <;> decide

theorem harmless_token_of_map_fold {s : Text} (hx : x.map CodePoint.fold = s)
    (hs : ∀ k < s.length, ¬(s.drop k <+: lit "token_auth=" ∨ lit "token_auth=" <+: s.drop k)) :
    Harmless OpensToken x := by
  rintro x₁ x₂ rfl hne z ⟨name, y, heq, hname⟩
  have hmap : x₂.map CodePoint.fold ++ z.map CodePoint.fold = lit "token_auth=" ++ y.map CodePoint.fold := by
    rw [← hname, ← List.map_append, heq, List.map_append]
  have hdrop : s.drop x₁.length = x₂.map CodePoint.fold := by
    rw [← hx, List.map_append, ← List.length_map (f := CodePoint.fold), List.drop_left]
  refine hs x₁.length ?_ ?_
  · have hpos := List.length_pos_iff.mpr hne
    rw [← hx, List.length_map, List.length_append]
    omega
  · rw [hdrop]
    exact List.prefix_or_prefix_of_prefix ⟨_, hmap⟩ ⟨_, rfl⟩

theorem mem_of_getLast?_append (h : (x ++ y).getLast? = some d) (hy : y ≠ []) : d ∈ y := by
  have hsome := List.getLast?_eq_some_getLast hy
  rw [List.getLast?_append, hsome, Option.some_or] at h
  exact List.mem_of_getLast? (hsome.trans h)

theorem harmless_token_of_last (hx : ∀ c ∈ x, c ≠ .scalar '=') (hd : isNameLetter d = false)
    (hlast : x.getLast? = some d) : Harmless OpensToken x := by
  rintro x₁ x₂ rfl hne z h
  have hmem := mem_of_getLast?_append hlast hne
  obtain ⟨e, he⟩ := exists_stop? hmem hd
  have hstop := stop?_append he z
  rw [h.stop?] at hstop
  cases hstop
  exact hx _ (List.mem_append_right x₁ (stop?_mem he)) rfl

theorem harmless_token_namedValue (h : namedValue w (u ++ r) = some (v, u.length)) :
    Harmless OpensToken v := by
  obtain ⟨x, value, rfl, hx, -, -, rfl⟩ := namedValue_parts h
  obtain hhidden | ⟨q, hq, hhidden⟩ := hiddenValue_cases value
  · refine harmless_token_of_last (d := .scalar ']') ?_ rfl ?_
    · rw [hhidden]
      refine List.forall_mem_append.mpr ⟨hx.ne_equals, by decide⟩
    · rw [hhidden, List.getLast?_append]
      rfl
  · refine harmless_token_of_last (d := q) ?_ (isNameLetter_of_isQuote hq) ?_
    · rw [hhidden]
      refine List.forall_mem_append.mpr ⟨hx.ne_equals, ?_⟩
      obtain rfl | rfl := isQuote_iff.mp hq <;> decide
    · rw [hhidden, ← List.cons_append, ← List.append_assoc, List.getLast?_concat]

theorem harmless_token_authorization (h : authorization w (u ++ r) = some (v, u.length)) :
    Harmless OpensToken v := by
  obtain ⟨scheme, blanks, value, rfl, hm, rfl⟩ := authorization_parts h
  refine harmless_token_of_last (d := .scalar ']') ?_ rfl ?_
  · exact List.forall_mem_append.mpr ⟨ne_equals_of_map_fold hm.scheme (by decide), by decide⟩
  · rw [List.getLast?_append]
    rfl

theorem harmless_token_address (h : address w (u ++ r) = some (v, u.length)) : Harmless OpensToken v := by
  obtain ⟨scheme, user, rfl, hs, -, rfl⟩ := address_parts h
  refine harmless_token_of_last (d := .scalar '@') ?_ rfl ?_
  · rw [List.append_assoc]
    exact List.forall_mem_append.mpr ⟨ne_equals_of_map_fold hs (by decide), by decide⟩
  · rw [List.getLast?_concat]

def IsSchemeTail (x : Text) : Prop := ∀ d ∈ x, d.isBlank = true ∨ d.fold ∈ lit "asicer"

theorem IsSchemeTail.fold_ne {e : Char} (hx : IsSchemeTail x) (he : 'a' ≤ e ∧ e ≤ 'z')
    (hnot : CodePoint.scalar e ∉ lit "asicer") : ∀ c ∈ x, c.fold ≠ .scalar e := by
  intro c hc heq
  obtain h | h := hx c hc
  · have hletter := (isNameLetter_of_fold heq he).2
    rw [foldsToLetter_of_isBlank h] at hletter
    cases hletter
  · rw [heq] at h
    exact hnot h

theorem exists_schemeTail {scheme : Text} (h : scheme.map CodePoint.fold ∈ [lit "basic", lit "bearer"]) :
    ∃ c tail, scheme = c :: tail ∧ c.foldsToLetter = true ∧ IsSchemeTail tail := by
  obtain ⟨c, tail, rfl, hc, htail⟩ := exists_cons_of_map_fold (l := [lit "asic", lit "earer"]) h
  have hletters : ∀ s ∈ [lit "asic", lit "earer"], ∀ d ∈ s, d ∈ lit "asicer" := by decide
  exact ⟨c, tail, rfl, (isNameLetter_of_fold hc (by decide)).2,
    fun d hd => .inr (hletters _ htail _ (List.mem_map_of_mem hd))⟩

theorem exists_addressTail {scheme : Text} (h : scheme.map CodePoint.fold ∈ [lit "https://", lit "http://"]) :
    ∃ c tail, scheme = c :: tail ∧ c.foldsToLetter = true ∧ ∀ d ∈ tail, d.fold ≠ .scalar 'h' := by
  obtain ⟨c, tail, rfl, hc, htail⟩ := exists_cons_of_map_fold (l := [lit "ttps://", lit "ttp://"]) h
  have hletters : ∀ s ∈ [lit "ttps://", lit "ttp://"], ∀ d ∈ s, d ≠ .scalar 'h' := by decide
  exact ⟨c, tail, rfl, (isNameLetter_of_fold hc (by decide)).2,
    fun d hd => hletters _ htail _ (List.mem_map_of_mem hd)⟩

theorem mem_addressScheme {scheme : Text} (h : scheme.map CodePoint.fold ∈ [lit "https://", lit "http://"]) :
    CodePoint.scalar '/' ∈ scheme ∧ CodePoint.scalar '@' ∉ scheme := by
  have hmarks : ∀ s ∈ [lit "https://", lit "http://"], CodePoint.scalar '/' ∈ s ∧ CodePoint.scalar '@' ∉ s := by
    decide
  obtain ⟨hslash, hat⟩ := hmarks _ h
  obtain ⟨c, hc, hfold⟩ := List.mem_map.mp hslash
  rw [CodePoint.eq_of_fold_eq hfold (by decide)] at hc
  exact ⟨hc, fun hmem => hat (mem_of_map_fold rfl hmem rfl)⟩

/-- No address begins inside another one. -/
theorem harmless_address {tail user : Text} (htail : ∀ c ∈ tail, c.fold ≠ .scalar 'h') (huser : IsUserInfo user) :
    Harmless OpensAddress (tail ++ (user ++ [.scalar '@'])) := by
  intro x₁ x₂ heq hne z hopens
  obtain ⟨a, ha⟩ : ∃ a, user ++ [.scalar '@'] = a ++ x₂ := by
    obtain ⟨a, -, ha⟩ | ⟨a, rfl, rfl⟩ := List.append_eq_append_iff.mp heq
    · exact ⟨a, ha⟩
    · cases a with
      | nil => exact ⟨[], rfl⟩
      | cons d a =>
          obtain ⟨c, y, hc, hfold⟩ := hopens.head
          obtain ⟨rfl, -⟩ := List.cons.inj hc
          exact absurd hfold (htail d (by simp))
  have hat := mem_of_getLast?_append (ha ▸ List.getLast?_concat) hne
  have hslash : CodePoint.scalar '/' ∉ x₂ := by
    intro hmem
    have hall := ha ▸ List.mem_append_right a hmem
    obtain h | h := List.mem_append.mp hall
    · cases huser.plain _ h
    · cases List.mem_singleton.mp h
  obtain ⟨scheme, z', hz, hs⟩ := hopens
  obtain ⟨hmem, hnot⟩ := mem_addressScheme hs
  obtain ⟨b, rfl, -⟩ | ⟨b, rfl, -⟩ := List.append_eq_append_iff.mp hz
  · exact hnot (List.mem_append_left b hat)
  · exact hslash (List.mem_append_left b hmem)

end MetricBridge.Redaction
