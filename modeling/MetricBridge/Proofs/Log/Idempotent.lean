import MetricBridge.Log.Record
import MetricBridge.Proofs.Entries
import MetricBridge.Proofs.Log.Openings

namespace MetricBridge.Redaction

variable {w w' : Bool} {n k : Nat} {c d q : CodePoint} {t t' u v x y z r rest name value : Text}

/-- What the rules after the first one do does not reach into the name of a token. -/
theorem fixes_queryToken_of_scan {rule : Rule} {opens : Text → Prop} (htame : rule.Tame opens)
    (hname : ∀ name, name.map CodePoint.fold = lit "oken_auth=" → Harmless opens name)
    (hhidden : Harmless opens hidden) (hw : w' = w ∨ c.foldsToLetter = false)
    (hscan : Scan rule c.isWord t t') (h : Fixes queryToken w (c :: t)) : Fixes queryToken w' (c :: t') := by
  intro v n hrule
  obtain ⟨rfl, name, value, rest, heq, hm, rfl, rfl⟩ := queryToken_eq_some_iff.mp hrule
  obtain ⟨c', name', rfl, hc, hname'⟩ := List.map_eq_cons_iff.mp hm.name
  obtain ⟨rfl, rfl⟩ := List.cons.inj heq
  have hletter : c.foldsToLetter = true := (isNameLetter_of_fold hc (by decide)).2
  obtain rfl : false = w := hw.resolve_right (by simp [hletter])
  obtain ⟨y, rfl, hy⟩ := htame.unscan hscan fun x₁ x₂ hx hne => hname name' hname' x₁ x₂ hx hne _
  obtain ⟨value', rest', rfl, hvalue', hrest', -⟩ := Text.exists_span isTokenChar y
  have hhead := htame.scan_head? hy
  have hne : value' ≠ [] := by
    rintro rfl
    cases value with
    | nil => exact hm.value_ne rfl
    | cons e value =>
        have hin := hm.value e List.mem_cons_self
        rw [hrest' e hhead.symm] at hin
        cases hin
  -- the token was hidden before
  have hold := h _ _ (queryToken_eq_some_iff.mpr
    ⟨rfl, c :: name', value', rest', rfl, ⟨hm.name, hne, hvalue', hrest'⟩, rfl, rfl⟩)
  have hhidden' : hidden = value' := by
    have htake : (c :: (name' ++ (value' ++ rest'))).take (c :: name' ++ value').length = c :: name' ++ value' := by
      rw [← List.cons_append, ← List.append_assoc, List.take_left]
    rw [htake] at hold
    exact List.append_cancel_left hold
  subst hhidden'
  obtain ⟨z, hz, hmore⟩ := htame.scan_kept hy fun x₁ x₂ hx hne => hhidden x₁ x₂ hx hne _
  have hstop : ∀ e, z.head? = some e → isTokenChar e = false := by
    rw [htame.scan_head? hmore]
    exact hrest'
  have hvalue : value = hidden := by
    rw [← Text.takeWhile_append_stop hm.value hm.rest, hz, Text.takeWhile_append_stop hvalue' hstop]
  rw [hvalue]
  have htake : (c :: name' ++ hidden ++ rest).take (c :: name' ++ hidden).length = c :: name' ++ hidden :=
    List.take_left
  simpa using htake.symm

theorem everywhere_fixes_queryToken (w : Bool) (t : Text) :
    Everywhere (Fixes queryToken) w (applyFrom queryToken w 0 t) := by
  refine queryToken_tame.everywhere_of_scan ?_ ?_ (queryToken_tame.scan w t)
    (.of_forall (fun _ _ => trivial) w t) (.inl rfl)
  · intro w w' c t t' hw hnone hscan _
    refine fixes_queryToken_of_scan queryToken_tame ?_ ?_ hw hscan ?_
    · exact fun name hname => harmless_token_of_map_fold hname (by decide)
    · exact harmless_token_of_map_fold rfl (by decide)
    · intro v n hrule
      rw [hnone] at hrule
      cases hrule
  · intro w u r r' v hu hrule hhead v₁ v₂ heq hne w' hw'
    obtain ⟨name, value, rfl, hm, rfl⟩ := queryToken_parts hrule
    cases v₁ with
    | nil =>
        have hrest : ∀ c, r'.head? = some c → isTokenChar c = false := by
          rw [hhead]
          exact hm.rest
        have hsame := queryToken_eq_some_iff.mpr
          ⟨rfl, name, hidden, r', List.append_assoc _ _ _, ⟨hm.name, nofun, by decide, hrest⟩, rfl, rfl⟩
        rintro v n hagain
        obtain ⟨rfl, -⟩ := queryToken_eq_some_iff.mp hagain
        rw [List.nil_append] at heq
        rw [← heq, hsame] at hagain
        cases hagain
        rw [← heq, List.take_left]
    | cons c v₁ =>
        obtain ⟨d, name', rfl, -, hname'⟩ := List.map_eq_cons_iff.mp hm.name
        obtain ⟨rfl, htail⟩ := List.cons.inj heq
        have hfold : (name' ++ hidden).map CodePoint.fold = lit "oken_auth=[redacted]" := by
          rw [List.map_append, hname']
          rfl
        have hnone := (harmless_token_of_map_fold hfold (by decide)).eq_none queryToken_tame htail hne w' r'
        intro v n hagain
        rw [hnone] at hagain
        cases hagain

theorem Rule.Tame.everywhere_fixes_queryToken {rule : Rule} {opens : Text → Prop} (htame : rule.Tame opens)
    (hname : ∀ name, name.map CodePoint.fold = lit "oken_auth=" → Harmless opens name)
    (hhidden : Harmless opens hidden)
    (hwritten : ∀ {w u r v}, u ≠ [] → rule w (u ++ r) = some (v, u.length) → Harmless OpensToken v)
    (h : Everywhere (Fixes queryToken) w t) : Everywhere (Fixes queryToken) w (applyFrom rule w 0 t) := by
  refine htame.everywhere_of_scan (fun hw _ hscan hfixes =>
    fixes_queryToken_of_scan htame hname hhidden hw hscan hfixes) ?_ (htame.scan w t) h (.inl rfl)
  intro w u r r' v hu hrule _ v₁ v₂ heq hne w' _ v n hagain
  rw [(hwritten hu hrule).eq_none queryToken_tame heq hne w' r'] at hagain
  cases hagain

/-- What the last two rules do makes no credentials out of something else. -/
theorem authorization_eq_none_of_scan {rule : Rule} {opens : Text → Prop} (htame : rule.Tame opens)
    (hname : ∀ name, IsSchemeTail name → Harmless opens name) (hw : w' = w ∨ c.foldsToLetter = false)
    (hscan : Scan rule c.isWord t t') (h : authorization w (c :: t) = none) :
    authorization w' (c :: t') = none := by
  by_contra hsome
  obtain ⟨⟨v, n⟩, hrule⟩ := Option.ne_none_iff_exists'.mp hsome
  obtain ⟨rfl, scheme, blanks, value, rest, heq, hm, rfl, rfl⟩ := authorization_eq_some_iff.mp hrule
  obtain ⟨c', tail, rfl, hletter, htail⟩ := exists_schemeTail hm.scheme
  obtain ⟨rfl, hrest⟩ := List.cons.inj heq
  obtain rfl : false = w := hw.resolve_right (by simp [hletter])
  obtain rfl : t' = tail ++ blanks ++ (value ++ rest) := by simpa using hrest
  have hharmless : Harmless opens (tail ++ blanks) :=
    hname _ (List.forall_mem_append.mpr ⟨htail, fun d hd => .inl (hm.blanks d hd)⟩)
  obtain ⟨y, rfl, hy⟩ := htame.unscan hscan fun x₁ x₂ hx hne => hharmless x₁ x₂ hx hne _
  have hhead := htame.scan_head? hy
  obtain ⟨value', rest', rfl, hvalue', hrest', -⟩ := Text.exists_span isCredential y
  cases value with
  | nil => exact hm.value_ne rfl
  | cons e value =>
      cases value' with
      | nil =>
          have hin := hm.value e List.mem_cons_self
          rw [hrest' e hhead.symm] at hin
          cases hin
      | cons e' value' =>
          have hstart : c :: (tail ++ blanks ++ (e' :: value' ++ rest')) =
              c :: tail ++ (blanks ++ (e' :: value' ++ rest')) := by simp
          rw [hstart, authorization_eq_some_iff.mpr ⟨rfl, c :: tail, blanks, e' :: value', rest', rfl,
            ⟨hm.scheme, hm.blanks_ne, hm.blanks, nofun, hvalue', hrest'⟩, rfl, rfl⟩] at h
          cases h

def NoAuthorization : Bool → Text → Prop := Everywhere fun w t => authorization w t = none

theorem noAuthorization (w : Bool) (t : Text) : NoAuthorization w (applyFrom authorization w 0 t) := by
  refine authorization_tame.everywhere_of_scan (fun hw hnone hscan _ =>
    authorization_eq_none_of_scan authorization_tame
      (fun _ hx => harmless_of_head (fun _ h => h.head) (hx.fold_ne (by decide) (by decide))) hw hscan hnone) ?_
    (authorization_tame.scan w t) (.of_forall (fun _ _ => trivial) w t) (.inl rfl)
  intro w u r r' v hu hrule hhead v₁ v₂ heq hne w' hw'
  obtain ⟨scheme, blanks, value, rfl, hm, rfl⟩ := authorization_parts hrule
  cases v₁ with
  | nil =>
      rw [List.nil_append] at heq
      rw [← heq]
      cases w' with
      | true => rfl
      | false =>
          have hnone : authorization false (scheme ++ ([.scalar ' '] ++ ([] ++ (hidden ++ r')))) = none :=
            authorization_append hm.scheme (by decide) (by rintro c ⟨⟩; rfl) nofun (by rintro c ⟨⟩; rfl)
          simpa using hnone
  | cons c v₁ =>
      obtain ⟨c', tail, rfl, -, htail⟩ := exists_schemeTail hm.scheme
      obtain ⟨rfl, hrest⟩ := List.cons.inj heq
      have hharmless : Harmless OpensAuthorization (tail ++ .scalar ' ' :: hidden) :=
        harmless_of_head (fun _ h => h.head)
          (List.forall_mem_append.mpr ⟨htail.fold_ne (by decide) (by decide), by decide⟩)
      exact hharmless.eq_none authorization_tame hrest hne w' r'

theorem noAuthorization_address (h : NoAuthorization w t) : NoAuthorization w (applyFrom address w 0 t) := by
  refine address_tame.everywhere_of_scan (fun hw _ hscan hnone =>
    authorization_eq_none_of_scan address_tame
      (fun _ hx => harmless_of_head (fun _ h => h.head) (hx.fold_ne (by decide) (by decide))) hw hscan hnone) ?_
    (address_tame.scan w t) h (.inl rfl)
  intro w u r r' v hu hrule hhead v₁ v₂ heq hne w' hw'
  obtain ⟨scheme, user, rfl, hs, -, rfl⟩ := address_parts hrule
  have hharmless : Harmless OpensAuthorization (scheme ++ hidden ++ [.scalar '@']) := by
    refine harmless_of_head (fun _ h => h.head) ?_
    have hletters : ∀ s ∈ [lit "https://", lit "http://"], ∀ d ∈ s, d ≠ .scalar 'b' := by decide
    rw [List.append_assoc]
    exact List.forall_mem_append.mpr ⟨fun c hc => hletters _ hs _ (List.mem_map_of_mem hc), by decide⟩
  exact hharmless.eq_none authorization_tame heq hne w' r'

theorem everywhere_fixes_address (w : Bool) (t : Text) :
    Everywhere (Fixes address) w (applyFrom address w 0 t) := by
  refine address_tame.everywhere_of_scan ?_ ?_ (address_tame.scan w t) (.of_forall (fun _ _ => trivial) w t) (.inl rfl)
  · intro w w' c t t' hw hnone hscan _ v n hrule
    obtain ⟨rfl, scheme, user, rest, heq, hs, huser, rfl, rfl⟩ := address_eq_some_iff.mp hrule
    obtain ⟨c', tail, rfl, hletter, htail⟩ := exists_addressTail hs
    obtain ⟨rfl, hrest⟩ := List.cons.inj heq
    obtain rfl : false = w := hw.resolve_right (by simp [hletter])
    obtain rfl : t' = tail ++ (user ++ [.scalar '@']) ++ rest := by simpa using hrest
    obtain ⟨y, rfl, -⟩ := address_tame.unscan hscan fun x₁ x₂ hx hne => harmless_address htail huser x₁ x₂ hx hne _
    have hstart : c :: (tail ++ (user ++ [.scalar '@']) ++ y) = c :: tail ++ (user ++ .scalar '@' :: y) := by simp
    rw [hstart, address_eq_some_iff.mpr ⟨rfl, c :: tail, user, y, rfl, hs, huser, rfl, rfl⟩] at hnone
    cases hnone
  · intro w u r r' v hu hrule _ v₁ v₂ heq hne w' _
    obtain ⟨scheme, user, rfl, hs, -, rfl⟩ := address_parts hrule
    cases v₁ with
    | nil =>
        intro v n hagain
        obtain ⟨rfl, -⟩ := address_eq_some_iff.mp hagain
        have hsame := address_eq_some_iff.mpr
          ⟨rfl, scheme, hidden, r', rfl, hs, ⟨⟨_, _, rfl, nofun⟩, by decide⟩, rfl, rfl⟩
        rw [List.nil_append] at heq
        have hstart : scheme ++ hidden ++ [.scalar '@'] ++ r' = scheme ++ (hidden ++ .scalar '@' :: r') := by simp
        rw [← heq, hstart, hsame] at hagain
        cases hagain
        rw [← heq, List.take_left' (by simp [Nat.add_assoc])]
    | cons c v₁ =>
        obtain ⟨c', tail, rfl, -, htail⟩ := exists_addressTail hs
        rw [List.cons_append, List.cons_append, List.append_assoc] at heq
        obtain ⟨rfl, hrest⟩ := List.cons.inj heq
        have hharmless : Harmless OpensAddress (tail ++ (hidden ++ [.scalar '@'])) :=
          harmless_of_head (fun _ h => h.head) (List.forall_mem_append.mpr ⟨htail, by decide⟩)
        intro v n hagain
        rw [hharmless.eq_none address_tame hrest hne w' r'] at hagain
        cases hagain

section NamedValue

theorem Settled.of_namedValue (h : Settled namedValue w t) (w' : Bool) : Settled namedValue w' t := by
  cases h with
  | nil => exact .nil w'
  | keep hnone hrest => exact .keep hnone hrest
  | @same _ u _ hu hsome hrest =>
      refine .same hu hsome ?_
      rwa [wordAfter_of_ne_nil hu w' w]

theorem namedValue_eq_none_of_scan {rule : Rule} {opens : Text → Prop} (htame : rule.Tame opens)
    (hlabel : ∀ q y, IsLabel (q :: y) → Harmless opens y) (hscan : Scan rule c.isWord t t')
    (h : namedValue w (c :: t) = none) : namedValue w (c :: t') = none := by
  by_contra hsome
  obtain ⟨⟨v, n⟩, hrule⟩ := Option.ne_none_iff_exists'.mp hsome
  obtain ⟨x, z, k, heq, hx, hz, hk, -⟩ := namedValue_eq_some_iff.mp hrule
  cases x with
  | nil => exact hx.ne_nil rfl
  | cons q y =>
      obtain ⟨rfl, rfl⟩ := List.cons.inj heq
      obtain ⟨z₀, rfl, hscan'⟩ := htame.unscan hscan fun x₁ x₂ heq hne => hlabel c y hx x₁ x₂ heq hne _
      have hhead := htame.scan_head? hscan'
      obtain ⟨d, z, rfl, hd⟩ := valueLength?_ne_none_iff.mp (Option.ne_none_iff_exists'.mpr ⟨k, hk⟩)
      cases z₀ with
      | nil => cases hhead
      | cons d' z₀ =>
          cases hhead
          have hvalue := valueLength?_ne_none_iff.mpr ⟨d, z₀, rfl, hd⟩
          rw [← List.cons_append, namedValue_label hx (by rintro e ⟨⟩; exact hz d rfl), Option.map_eq_none_iff] at h
          exact hvalue h

/-- A named value that was hidden is one again, whatever follows its border. -/
theorem namedValue_again (h : namedValue w (u ++ r) = some (v, u.length)) (hr : z.head? = r.head?) (w' : Bool) :
    namedValue w' (v ++ z) = some (v, v.length) := by
  obtain ⟨x, value, rfl, hx, -, hvalue, rfl⟩ := namedValue_parts h
  obtain ⟨hlength, hhidden⟩ := valueLength?_hiddenValue hvalue hr
  have hstart : ∀ c, (hiddenValue value ++ z).head? = some c → c.isBlank = false := by
    obtain heq | ⟨q, hq, heq⟩ := hiddenValue_cases value
    · rw [heq]
      rintro c ⟨⟩
      rfl
    · rw [heq]
      rintro c ⟨⟩
      obtain rfl | rfl := isQuote_iff.mp hq <;> rfl
  rw [List.append_assoc, namedValue_label hx hstart, hlength, Option.map_some, List.take_left, hhidden,
    List.length_append]

theorem settled_namedValue (h : Scan namedValue w t t') : Settled namedValue w t' := by
  induction h with
  | nil w => exact .nil w
  | keep hnone hscan ih =>
      exact .keep (namedValue_eq_none_of_scan namedValue_tame (fun _ _ hx => hx.tail.2) hscan hnone) ih
  | @replace w u r v r' hu hrule hscan ih =>
      refine .same ?_ (namedValue_again hrule (namedValue_tame.scan_head? hscan) w) (ih.of_namedValue _)
      rintro rfl
      have hhead := namedValue_tame.head hu hrule
      exact hu (List.head?_eq_none_iff.mp hhead.symm)

theorem Settled.append_quoteless (hx : ∀ c ∈ x, isQuote c = false) (h : Settled namedValue w' t) :
    Settled namedValue w (x ++ t) := by
  induction x generalizing w with
  | nil => exact h.of_namedValue w
  | cons c x ih =>
      obtain ⟨hc, hx⟩ := List.forall_mem_cons.mp hx
      exact .keep (namedValue_eq_none_of_quoteless hc) (ih hx)

theorem Settled.drop (h : Settled rule w (x ++ r))
    (hx : ∀ x₁ x₂, x = x₁ ++ x₂ → x₂ ≠ [] → ∀ w u z, x₂ ++ r = u ++ z → rule w (u ++ z) = some (u, u.length) →
      u.length ≤ x₂.length) : ∃ w', Settled rule w' r := by
  induction hn : x.length using Nat.strong_induction_on generalizing w x with
  | _ n ih =>
      subst hn
      cases x with
      | nil => exact ⟨w, h⟩
      | cons c x =>
          have hfirst := hx [] (c :: x) rfl (List.cons_ne_nil c x)
          generalize hs : c :: x ++ r = s at h hfirst
          cases h with
          | nil => cases hs
          | keep hnone hrest =>
              obtain ⟨rfl, rfl⟩ := List.cons.inj hs
              exact ih x.length (Nat.lt_succ_self _) hrest
                (fun x₁ x₂ heq => hx (c :: x₁) x₂ (congrArg (c :: ·) heq)) rfl
          | @same _ u z hu hsome hrest =>
              have hle := hfirst w u z rfl hsome
              obtain ⟨a, hxu, rfl⟩ : ∃ a, c :: x = u ++ a ∧ z = a ++ r := by
                obtain ⟨a, rfl, ha⟩ | ⟨a, ha, hr⟩ := List.append_eq_append_iff.mp hs
                · rw [List.length_append] at hle
                  obtain rfl : a = [] := List.length_eq_zero_iff.mp (by omega)
                  exact ⟨[], by simp, ha.symm⟩
                · exact ⟨a, ha, hr⟩
              have hpos := List.length_pos_iff.mpr hu
              refine ih a.length (by rw [hxu, List.length_append]; omega) hrest
                (fun x₁ x₂ heq => hx (u ++ x₁) x₂ ?_) rfl
              rw [hxu, heq, List.append_assoc]

/-- The named values stay settled, since no match of a later rule begins inside one of them. -/
theorem Rule.Tame.settled_namedValue {rule : Rule} {opens : Text → Prop} (htame : rule.Tame opens)
    (hopens : BeginsWithWord opens)
    (hpiece : ∀ {w w' u r v}, rule w (u ++ r) = some (v, u.length) → (∀ c ∈ v, isQuote c = false) ∧
      (Settled namedValue w' (u ++ r) → ∃ w', Settled namedValue w' r))
    (h : Settled namedValue w' t) (hscan : Scan rule w t t') : Settled namedValue w' t' := by
  induction hn : t.length using Nat.strong_induction_on generalizing w w' t t' with
  | _ n ih =>
      subst hn
      cases h with
      | nil =>
          cases hscan.eq_applyFrom
          exact .nil w'
      | @keep _ c t hnone hrest =>
          generalize hs : c :: t = s at hscan
          cases hscan with
          | nil => cases hs
          | keep _ hscan =>
              obtain ⟨rfl, rfl⟩ := List.cons.inj hs
              refine .keep (namedValue_eq_none_of_scan htame (fun _ _ hx => harmless_of_isFirm hopens hx.tail.1)
                hscan hnone) (ih _ (Nat.lt_succ_self _) hrest hscan rfl)
          | @replace _ u r v r' hu hrule hscan =>
              obtain ⟨hv, hdrop⟩ := @hpiece _ w' _ _ _ hrule
              obtain ⟨w'', hr⟩ := hdrop (hs ▸ .keep hnone hrest)
              have hpos := List.length_pos_iff.mpr hu
              have hlength := congrArg List.length hs
              rw [List.length_append] at hlength
              exact .append_quoteless hv (ih r.length (by omega) hr hscan rfl)
      | @same _ u r hu hsome hrest =>
          obtain ⟨x, value, hxv, hx, -, -, hxh⟩ := namedValue_parts hsome
          have hfirm : isFirm u = true := by
            rw [hxh]
            refine isFirm_append ?_ (isFirm_hiddenValue value)
            cases x with
            | nil => rfl
            | cons q y =>
                obtain ⟨_, c, z, heq, hq, -⟩ := hx.opens []
                obtain ⟨rfl, -⟩ := List.cons.inj heq
                simp [isFirm, isNameLetter_of_isQuote hq, hx.tail.1]
          obtain ⟨r', rfl, hscan'⟩ := htame.scan_kept hscan
            fun x₁ x₂ heq hne => harmless_of_isFirm hopens hfirm x₁ x₂ heq hne _
          have hpos := List.length_pos_iff.mpr hu
          have hagain := ih r.length (by rw [List.length_append]; omega) hrest hscan' rfl
          exact .same hu (namedValue_again hsome (htame.scan_head? hscan') w') hagain

theorem settled_authorization (h : Settled namedValue w t) :
    Settled namedValue w (applyFrom authorization w 0 t) := by
  refine authorization_tame.settled_namedValue authorization_beginsWithWord ?_ h (authorization_tame.scan w t)
  intro w w' u r v hrule
  obtain ⟨scheme, blanks, value, rfl, hm, rfl⟩ := authorization_parts hrule
  have hscheme := quoteless_of_map_fold hm.scheme (by decide)
  refine ⟨List.forall_mem_append.mpr ⟨hscheme, by decide⟩, fun hsettled => hsettled.drop ?_⟩
  intro x₁ x₂ heq hne w u z hz hsome
  have hquoteless : ∀ c ∈ scheme ++ (blanks ++ value), isQuote c = false :=
    List.forall_mem_append.mpr ⟨hscheme, List.forall_mem_append.mpr
      ⟨fun c hc => isQuote_of_isBlank (hm.blanks c hc), fun c hc => isQuote_of_isCredential (hm.value c hc)⟩⟩
  cases x₂ with
  | nil => exact absurd rfl hne
  | cons c x₂ =>
      rw [← hz, List.cons_append, namedValue_eq_none_of_quoteless (hquoteless c (by simp [heq]))] at hsome
      cases hsome

theorem settled_address (h : Settled namedValue w t) : Settled namedValue w (applyFrom address w 0 t) := by
  refine address_tame.settled_namedValue address_beginsWithWord ?_ h (address_tame.scan w t)
  intro w w' u r v hrule
  obtain ⟨scheme, user, rfl, hs, -, rfl⟩ := address_parts hrule
  constructor
  · rw [List.append_assoc]
    exact List.forall_mem_append.mpr ⟨quoteless_of_map_fold hs (by decide), by decide⟩
  · -- the piece ends with an `@`, which no settled match has
    refine fun hsettled => hsettled.drop fun x₁ x₂ heq hne w u z hz hsome => ?_
    have hat : CodePoint.scalar '@' ∈ x₂ := by
      refine mem_of_getLast?_append (x := x₁) ?_ hne
      rw [← heq, ← List.append_assoc, List.getLast?_concat]
    obtain ⟨x, value, -, hx, -, -, rfl⟩ := namedValue_parts hsome
    obtain ⟨a, h, -⟩ | ⟨a, rfl, -⟩ := List.append_eq_append_iff.mp hz
    · exact absurd (h ▸ List.mem_append_left a hat) (notMem_hiddenNamedValue hx value)
    · exact (List.prefix_append _ a).length_le

end NamedValue

/-- What the four rules leave is a text that none of them changes. -/
theorem redact_eq_self (h₁ : Everywhere (Fixes queryToken) false t) (h₂ : Settled namedValue false t)
    (h₃ : NoAuthorization false t) (h₄ : Everywhere (Fixes address) false t) : redact t = t := by
  have hquery : apply queryToken t = t := (queryToken_tame.scan false t).eq_of_everywhere h₁
  have hnamed : apply namedValue t = t := h₂.applyFrom_eq
  have hauthorization : apply authorization t = t := by
    refine (authorization_tame.scan false t).eq_of_everywhere (Everywhere.imp (fun w t hnone => ?_) h₃)
    intro v n hsome
    rw [hnone] at hsome
    cases hsome
  have haddress : apply address t = t := (address_tame.scan false t).eq_of_everywhere h₄
  rw [redact, hquery, hnamed, hauthorization, haddress]

theorem redact_redact (t : Text) : redact (redact t) = redact t := by
  refine redact_eq_self ?_ ?_ ?_ (everywhere_fixes_address false _)
  · have hfirm : ∀ name, name.map CodePoint.fold = lit "oken_auth=" → isFirm name = true :=
      fun _ => isFirm_tokenName_tail
    refine address_tame.everywhere_fixes_queryToken
      (fun name hname => harmless_of_isFirm address_beginsWithWord (hfirm name hname))
      (harmless_of_isFirm address_beginsWithWord isFirm_hidden) (fun _ h => harmless_token_address h) ?_
    refine authorization_tame.everywhere_fixes_queryToken
      (fun name hname => harmless_of_isFirm authorization_beginsWithWord (hfirm name hname))
      (harmless_of_isFirm authorization_beginsWithWord isFirm_hidden) (fun _ h => harmless_token_authorization h) ?_
    refine namedValue_tame.everywhere_fixes_queryToken
      (fun name hname => harmless_of_quoteless (quoteless_of_map_fold (List.mem_singleton.mpr hname) (by decide)))
      (harmless_of_quoteless (by decide)) (fun _ h => harmless_token_namedValue h) ?_
    exact everywhere_fixes_queryToken false t
  · exact settled_address (settled_authorization (settled_namedValue (namedValue_tame.scan false _)))
  · exact noAuthorization_address (noAuthorization false _)

mutual

theorem redactValue_redactValue : ∀ j : Json, redactValue (redactValue j) = redactValue j
  | .null | .bool _ | .int _ | .float _ => rfl
  | .string t => congrArg Json.string (redact_redact t)
  | .array items => congrArg Json.array (redactItems_redactItems items)
  | .object fields => congrArg Json.object (redactFields_redactFields fields)

theorem redactItems_redactItems : ∀ items : List Json, redactItems (redactItems items) = redactItems items
  | [] => rfl
  | item :: items => by
      rw [redactItems, redactItems, redactValue_redactValue item, redactItems_redactItems items]

theorem redactFields_redactFields : ∀ fields : List (Text × Json),
    redactFields (redactFields fields) = redactFields fields
  | [] => rfl
  | (name, value) :: fields => by
      rw [redactFields, redactFields, redactFields_redactFields fields]
      by_cases hsecret : isSecretField name = true
      · simp [hsecret]
      · simp [hsecret, redactValue_redactValue value]

end

theorem redactFields_eq_self_iff {fields : List (Text × Json)} : redactFields fields = fields ↔
    ∀ e ∈ fields, (if isSecretField e.1 then .string hidden else redactValue e.2) = e.2 := by
  induction fields with
  | nil => exact ⟨fun _ => List.forall_mem_nil _, fun _ => rfl⟩
  | cons e fields ih =>
      obtain ⟨name, value⟩ := e
      rw [List.forall_mem_cons, redactFields, List.cons.injEq, ih, Prod.mk.injEq]
      simp

end MetricBridge.Redaction

namespace MetricBridge.LogRecord

open Redaction

variable {r : LogRecord} {name : Text} {value : Json}

theorem redactExtra_redactExtra (name : Text) (value : Json) :
    redactExtra name (redactExtra name value) = redactExtra name value := by
  simp only [redactExtra]
  split
  · rfl
  · split
    · rfl
    · exact redactValue_redactValue value

theorem redactField_of_redactExtra (hname : isInternal name = false) (h : redactExtra name value = value) :
    (if isSecretField name then .string Redaction.hidden else redactValue value) = value := by
  rw [redactExtra, hname] at h
  exact h

/-- What the extras show was redacted, if the extras were. -/
theorem redactFields_shownExtras (h : ∀ e ∈ r.extras, redactExtra e.1 e.2 = e.2) :
    redactFields r.shownExtras = r.shownExtras := by
  -- the fields collected so far stay redacted with each extra that is added
  have hfold : ∀ (extras shown : Entries Text Json), (∀ e ∈ extras, redactExtra e.1 e.2 = e.2) →
      redactFields shown = shown → ∀ e ∈ extras.foldl (fun shown e =>
        if isInternal e.1 || e.1 == extraFields || Entries.has e.1 shown then shown
        else Entries.set e.1 e.2 shown) shown,
        (if isSecretField e.1 then .string Redaction.hidden else redactValue e.2) = e.2 := by
    intro extras
    induction extras with
    | nil => exact fun shown _ hshown => redactFields_eq_self_iff.mp hshown
    | cons e extras ih =>
        intro shown hextras hshown
        obtain ⟨hfirst, hextras⟩ := List.forall_mem_cons.mp hextras
        rw [List.foldl_cons]
        refine ih _ hextras ?_
        split_ifs with hshow
        · exact hshown
        · have hname : isInternal e.1 = false := by
            by_contra hinternal
            exact hshow (by simp [hinternal])
          refine redactFields_eq_self_iff.mpr fun field hfield => ?_
          obtain rfl | hfield := Entries.mem_of_mem_set hfield
          · exact redactField_of_redactExtra hname hfirst
          · exact redactFields_eq_self_iff.mp hshown field hfield
  refine redactFields_eq_self_iff.mpr (hfold r.extras _ h ?_)
  split
  · rename_i fields hfind
    have hvalue := h _ (Entries.mem_of_find? hfind)
    have hfields := redactField_of_redactExtra (by decide : isInternal extraFields = false) hvalue
    have hsecret : isSecretField extraFields = false := by decide
    rw [hsecret] at hfields
    injection hfields
  · exact redactFields.eq_1

/-- A redacted record stays as it is when it is redacted once more, and so does what its JSON form shows. -/
theorem redaction_idempotent : (∀ t, Redaction.redact (Redaction.redact t) = Redaction.redact t) ∧
    (∀ j, redactValue (redactValue j) = redactValue j) ∧ ∀ r : LogRecord,
      let kept := ({ r with isRedacted := false } : LogRecord).redact
      ({ kept with isRedacted := false } : LogRecord).redact = kept ∧
      redactFields kept.shownExtras = kept.shownExtras ∧
      ({ kept with isRedacted := false } : LogRecord).toJson = kept.toJson := by
  refine ⟨redact_redact, redactValue_redactValue, fun r => ?_⟩
  intro kept
  have hextras : ∀ e ∈ kept.extras, redactExtra e.1 e.2 = e.2 := by
    intro e he
    obtain ⟨⟨name, value⟩, -, rfl⟩ := List.mem_map.mp he
    exact redactExtra_redactExtra name value
  have hmessage : Redaction.redact kept.message.text = kept.message.text := redact_redact r.message.text
  have hagain : kept.extras.map (fun e => (e.1, redactExtra e.1 e.2)) = kept.extras := by
    refine (List.map_congr_left fun e he => ?_).trans (List.map_id' _)
    rw [hextras e he]
  have hkept : ({ kept with isRedacted := false } : LogRecord).redact = { kept with
      message := .template (Redaction.redact kept.message.text) []
      extras := kept.extras.map fun e => (e.1, redactExtra e.1 e.2) } := rfl
  refine ⟨?_, redactFields_shownExtras hextras, ?_⟩
  · rw [hkept, hmessage, hagain]
    rfl
  · have hshown : ({ kept with isRedacted := false } : LogRecord).toJson =
        { kept with message := .template (Redaction.redact kept.message.text) [] }.toJson := rfl
    rw [hshown, hmessage]
    rfl

end MetricBridge.LogRecord
