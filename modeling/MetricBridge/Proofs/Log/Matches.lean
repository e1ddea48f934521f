import MetricBridge.Proofs.Log.Rewriting

namespace MetricBridge

namespace CodePoint

variable {c : CodePoint} {d : Char}

theorem val_toLower (d : Char) :
    d.toLower.toNat = if 65 ≤ d.toNat ∧ d.toNat ≤ 90 then d.toNat + 32 else d.toNat := by
  have hrange : (d.val ≥ 'A'.val ∧ d.val ≤ 'Z'.val) ↔ 65 ≤ d.toNat ∧ d.toNat ≤ 90 := by
    rw [ge_iff_le, UInt32.le_iff_toNat_le, UInt32.le_iff_toNat_le]
    exact Iff.rfl
  by_cases h : d.val ≥ 'A'.val ∧ d.val ≤ 'Z'.val
  · have hlower : d.toLower.toNat = (d.val + ('a'.val - 'A'.val)).toNat :=
      congrArg Char.toNat (dif_pos h : d.toLower = _)
    have hdistance : ('a'.val - 'A'.val).toNat = 32 := rfl
    have hval : d.val.toNat = d.toNat := rfl
    have hupper := hrange.mp h
    rw [if_pos hupper, hlower, UInt32.toNat_add]
    omega
  · have hlower : d.toLower = d := dif_neg h
    rw [hlower, if_neg fun hupper => h (hrange.mpr hupper)]

theorem eq_of_fold_eq (h : c.fold = .scalar d) (hd : d.toNat < 97 ∨ 122 < d.toNat) : c = .scalar d := by
  cases c with
  | surrogate => cases h
  | scalar e =>
      simp only [fold] at h
      split_ifs at h with h₁ h₂ h₃
      · cases h
        exact absurd hd (by decide)
      · cases h
        exact absurd hd (by decide)
      · cases h
        exact absurd hd (by decide)
      · injection h with h
        have hval := val_toLower e
        rw [h] at hval
        split_ifs at hval with hupper
        · omega
        · exact congrArg scalar (Char.toNat_inj.mp hval.symm)

theorem val_of_foldsToLetter (h : c.foldsToLetter = true) :
    (65 ≤ c.val ∧ c.val ≤ 90) ∨ (97 ≤ c.val ∧ c.val ≤ 122) ∨ c.val ∈ [0x130, 0x131, 0x17F, 0x212A] := by
  cases c with
  | surrogate => cases h
  | scalar e =>
      simp only [foldsToLetter, fold] at h
      split_ifs at h with h₁ h₂ h₃
      · obtain rfl | rfl := h₁ <;> decide
      · subst h₂
        decide
      · subst h₃
        decide
      · simp only [satisfies, Bool.and_eq_true, decide_eq_true_eq, Char.le_def, UInt32.le_iff_toNat_le] at h
        have hval := val_toLower e
        have hlow : 97 ≤ e.toLower.toNat := h.1
        have hhigh : e.toLower.toNat ≤ 122 := h.2
        show (65 ≤ e.toNat ∧ e.toNat ≤ 90) ∨ (97 ≤ e.toNat ∧ e.toNat ≤ 122) ∨ _
        split_ifs at hval with hupper <;> omega

theorem isBlank_eq_false (h : (33 ≤ c.val ∧ c.val < 0x85) ∨ c.val ∈ [0x130, 0x131, 0x17F, 0x212A]) :
    c.isBlank = false := by
  simp only [List.mem_cons, List.not_mem_nil, or_false] at h
  simp only [isBlank, Bool.or_eq_false_iff, Bool.and_eq_false_iff, decide_eq_false_iff_not, beq_eq_false_iff_ne]
  omega

theorem isBlank_of_foldsToLetter (h : c.foldsToLetter = true) : c.isBlank = false := by
  refine isBlank_eq_false ?_
  obtain h | h | h := val_of_foldsToLetter h
  · exact .inl (by omega)
  · exact .inl (by omega)
  · exact .inr h

end CodePoint

namespace Text

variable {p : CodePoint → Bool} {start x y t : Text}

theorem takeWhile_append_stop (hx : ∀ c ∈ x, p c = true) (hy : ∀ c, y.head? = some c → p c = false) :
    (x ++ y).takeWhile p = x := by
  have hstop : y.takeWhile p = [] := by
    cases y with
    | nil => rfl
    | cons c y => simp [hy c rfl]
  rw [List.takeWhile_append_of_pos hx, hstop, List.append_nil]

/-- A text as the longest part that has the property everywhere, and the rest. -/
theorem exists_span (p : CodePoint → Bool) (t : Text) : ∃ x y, t = x ++ y ∧ (∀ c ∈ x, p c = true) ∧
    (∀ c, y.head? = some c → p c = false) ∧ t.takeWhile p = x := by
  refine ⟨t.takeWhile p, t.dropWhile p, List.takeWhile_append_dropWhile.symm, ?_, ?_, rfl⟩
  · exact fun c hc => List.mem_takeWhile_imp hc
  · intro c hc
    have hnot := List.head?_dropWhile_not p t
    rw [hc] at hnot
    exact hnot

theorem beginsFolded_iff : beginsFolded start t = true ↔
    ∃ x y, t = x ++ y ∧ x.map CodePoint.fold = start := by
  rw [beginsFolded, begins, List.isPrefixOf_iff_prefix]
  constructor
  · rintro ⟨z, hz⟩
    obtain ⟨x, y, rfl, hx, -⟩ := List.map_eq_append_iff.mp hz.symm
    exact ⟨x, y, rfl, hx⟩
  · rintro ⟨x, y, rfl, rfl⟩
    exact ⟨y.map CodePoint.fold, List.map_append.symm⟩

end Text

namespace Redaction

variable {w : Bool} {n k : Nat} {c d q : CodePoint} {t u v x y z r rest name value : Text}

def isTokenChar (c : CodePoint) : Bool := c != .scalar '&' && !c.isBlank && !isQuote c

structure IsToken (name value rest : Text) : Prop where
  name : name.map CodePoint.fold = lit "token_auth="
  value_ne : value ≠ []
  value : ∀ c ∈ value, isTokenChar c = true
  rest : ∀ c, rest.head? = some c → isTokenChar c = false

theorem queryToken_append (hname : name.map CodePoint.fold = lit "token_auth=")
    (hvalue : ∀ c ∈ value, isTokenChar c = true) (hrest : ∀ c, rest.head? = some c → isTokenChar c = false) :
    queryToken false (name ++ (value ++ rest)) =
      if value.isEmpty then none else some (name ++ hidden, (name ++ value).length) := by
  have hbegins := Text.beginsFolded_iff.mpr ⟨name, value ++ rest, rfl, hname⟩
  have hlength : (lit "token_auth=").length = name.length := by rw [← hname, List.length_map]
  have htake : (value ++ rest).takeWhile (fun c => c != .scalar '&' && !c.isBlank && !isQuote c) = value :=
    Text.takeWhile_append_stop hvalue hrest
  simp only [queryToken, hbegins, hlength, List.drop_left, List.take_left, htake, List.length_append]
  rfl

theorem queryToken_eq_some_iff : queryToken w t = some (v, n) ↔ w = false ∧ ∃ name value rest,
    t = name ++ (value ++ rest) ∧ IsToken name value rest ∧ v = name ++ hidden ∧
      n = (name ++ value).length := by
  constructor
  · intro h
    cases hbegins : !w && Text.beginsFolded (lit "token_auth=") t with
    | false =>
        simp [queryToken, hbegins] at h
    | true =>
        rw [Bool.and_eq_true, Bool.not_eq_true'] at hbegins
        obtain ⟨rfl, hbegins⟩ := hbegins
        obtain ⟨name, y, rfl, hname⟩ := Text.beginsFolded_iff.mp hbegins
        obtain ⟨value, rest, rfl, hvalue, hrest, -⟩ := Text.exists_span isTokenChar y
        rw [queryToken_append hname hvalue hrest] at h
        split at h
        · cases h
        · rename_i hne
          cases h
          exact ⟨rfl, name, value, rest, rfl, ⟨hname, by simpa using hne, hvalue, hrest⟩, rfl, rfl⟩
  · rintro ⟨rfl, name, value, rest, rfl, hm, rfl, rfl⟩
    rw [queryToken_append hm.name hm.value hm.rest, if_neg]
    simpa using hm.value_ne

structure IsAuthorization (scheme blanks value rest : Text) : Prop where
  scheme : scheme.map CodePoint.fold ∈ [lit "basic", lit "bearer"]
  blanks_ne : blanks ≠ []
  blanks : ∀ c ∈ blanks, c.isBlank = true
  value_ne : value ≠ []
  value : ∀ c ∈ value, isCredential c = true
  rest : ∀ c, rest.head? = some c → isCredential c = false

theorem isBlank_of_isCredential (h : isCredential c = true) : c.isBlank = false := by
  rw [isCredential, Bool.or_eq_true] at h
  obtain h | h := h
  · exact c.isBlank_of_foldsToLetter h
  · cases c with
    | surrogate => cases h
    | scalar e =>
        rw [CodePoint.satisfies, Bool.or_eq_true] at h
        refine CodePoint.isBlank_eq_false (.inl ?_)
        show 33 ≤ e.toNat ∧ e.toNat < 0x85
        obtain h | h := h
        · simp only [Char.isDigit, ge_iff_le, Bool.and_eq_true, decide_eq_true_eq, UInt32.le_iff_toNat_le] at h
          have hlow : 48 ≤ e.toNat := h.1
          have hhigh : e.toNat ≤ 57 := h.2
          omega
        · rw [List.contains_iff_mem] at h
          have hall : ("._~+/=-".toList.all fun e => 33 ≤ e.toNat && e.toNat < 0x85) = true := by decide
          simpa using List.all_eq_true.mp hall e h

theorem find?_scheme {a b s : Text} (hab : ∀ x y : Text, a ++ x ≠ b ++ y) :
    [a, b].find? (Text.beginsFolded · t) = some s ↔ s ∈ [a, b] ∧ Text.beginsFolded s t = true := by
  constructor
  · intro h
    exact ⟨List.mem_of_find?_eq_some h, by simpa using List.find?_some h⟩
  · rintro ⟨hs, hbegins⟩
    rw [List.mem_cons, List.mem_singleton] at hs
    obtain rfl | rfl := hs
    · simp [hbegins]
    · have hfirst : Text.beginsFolded a t = false := by
        by_contra hfirst
        obtain ⟨x, y, rfl, rfl⟩ := Text.beginsFolded_iff.mp hbegins
        obtain ⟨x', y', heq, rfl⟩ := Text.beginsFolded_iff.mp (by simpa using hfirst)
        refine hab (y'.map CodePoint.fold) (y.map CodePoint.fold) ?_
        rw [← List.map_append, ← List.map_append, heq]
      simp [hfirst, hbegins]

theorem basic_ne_bearer (x y : Text) : lit "basic" ++ x ≠ lit "bearer" ++ y := by
  intro h
  cases h

theorem authorization_append {scheme blanks : Text} (hscheme : scheme.map CodePoint.fold ∈ [lit "basic", lit "bearer"])
    (hblanks : ∀ c ∈ blanks, c.isBlank = true)
    (hstop : ∀ c, (value ++ rest).head? = some c → c.isBlank = false)
    (hvalue : ∀ c ∈ value, isCredential c = true) (hrest : ∀ c, rest.head? = some c → isCredential c = false) :
    authorization false (scheme ++ (blanks ++ (value ++ rest))) =
      if blanks.isEmpty || value.isEmpty then none
      else some (scheme ++ .scalar ' ' :: hidden, (scheme ++ (blanks ++ value)).length) := by
  have hbegins : Text.beginsFolded (scheme.map CodePoint.fold) (scheme ++ (blanks ++ (value ++ rest))) = true :=
    Text.beginsFolded_iff.mpr ⟨scheme, _, rfl, rfl⟩
  have hfind := (find?_scheme basic_ne_bearer).mpr ⟨hscheme, hbegins⟩
  have hdrop : (scheme ++ (blanks ++ (value ++ rest))).drop (scheme.length + blanks.length) = value ++ rest := by
    rw [← List.drop_drop, List.drop_left, List.drop_left]
  simp only [authorization, hfind, List.length_map, List.drop_left, List.take_left,
    Text.takeWhile_append_stop hblanks hstop, hdrop, Text.takeWhile_append_stop hvalue hrest,
    Bool.false_eq_true, if_false, Option.bind_eq_bind, Option.bind_some, Option.bind_none,
    List.length_append, Nat.add_assoc]

theorem authorization_eq_some_iff : authorization w t = some (v, n) ↔ w = false ∧
    ∃ scheme blanks value rest, t = scheme ++ (blanks ++ (value ++ rest)) ∧
      IsAuthorization scheme blanks value rest ∧ v = scheme ++ .scalar ' ' :: hidden ∧
        n = (scheme ++ (blanks ++ value)).length := by
  constructor
  · intro h
    cases w with
    | true => cases h
    | false =>
        refine ⟨rfl, ?_⟩
        cases hfind : [lit "basic", lit "bearer"].find? (Text.beginsFolded · t) with
        | none =>
            simp only [authorization, hfind] at h
            cases h
        | some s =>
            obtain ⟨hmem, hbegins⟩ := (find?_scheme basic_ne_bearer).mp hfind
            obtain ⟨scheme, y, rfl, rfl⟩ := Text.beginsFolded_iff.mp hbegins
            obtain ⟨blanks, z, rfl, hblanks, hstop, -⟩ := Text.exists_span CodePoint.isBlank y
            obtain ⟨value, rest, rfl, hvalue, hrest, -⟩ := Text.exists_span isCredential z
            rw [authorization_append hmem hblanks hstop hvalue hrest] at h
            split at h
            · cases h
            · rename_i hne
              rw [Bool.or_eq_true, not_or] at hne
              cases h
              exact ⟨scheme, blanks, value, rest, rfl,
                ⟨hmem, by simpa using hne.1, hblanks, by simpa using hne.2, hvalue, hrest⟩, rfl, rfl⟩
  · rintro ⟨rfl, scheme, blanks, value, rest, rfl, h, rfl, rfl⟩
    have hstop : ∀ c, (value ++ rest).head? = some c → c.isBlank = false := by
      intro c hc
      cases value with
      | nil => exact absurd rfl h.value_ne
      | cons d value =>
          cases hc
          exact isBlank_of_isCredential (h.value _ List.mem_cons_self)
    rw [authorization_append h.scheme h.blanks hstop h.value h.rest, if_neg]
    simp [h.blanks_ne, h.value_ne]

def isPlain (c : CodePoint) : Bool := c != .scalar '/' && !c.isBlank && c != .scalar '@'

structure IsUserInfo (user : Text) : Prop where
  head : ∃ c rest, user = c :: rest ∧ c ≠ .scalar ':'
  plain : ∀ c ∈ user, isPlain c = true

section UserInfo

variable {password : Text} (hname : ∀ c ∈ name, (isPlain c && c != .scalar ':') = true) (hne : name ≠ [])

include hname hne

theorem userInfo?_user (hy : ∀ c, y.head? = some c → (isPlain c && c != .scalar ':') = false)
    (hcolon : y.head? ≠ some (.scalar ':')) :
    userInfo? (name ++ y) = if y.head? = some (.scalar '@') then some (name.length + 1) else none := by
  have htake : (name ++ y).takeWhile (fun c => (c != .scalar '/' && !c.isBlank && c != .scalar '@') &&
      c != .scalar ':') = name := Text.takeWhile_append_stop hname hy
  have hpos : name.length ≠ 0 := by simpa using hne
  simp only [userInfo?, htake, hpos, if_false, List.drop_left]
  split
  · exact absurd rfl hcolon
  · simp

theorem userInfo?_password (hpassword : ∀ c ∈ password, isPlain c = true)
    (hrest : ∀ c, rest.head? = some c → isPlain c = false) :
    userInfo? (name ++ .scalar ':' :: (password ++ rest)) =
      if rest.head? = some (.scalar '@') then some ((name ++ .scalar ':' :: password).length + 1) else none := by
  have htake : (name ++ .scalar ':' :: (password ++ rest)).takeWhile (fun c =>
      (c != .scalar '/' && !c.isBlank && c != .scalar '@') && c != .scalar ':') = name := by
    refine Text.takeWhile_append_stop hname ?_
    rintro c ⟨⟩
    rfl
  have hspan : (password ++ rest).takeWhile (fun c => c != .scalar '/' && !c.isBlank && c != .scalar '@') =
      password := Text.takeWhile_append_stop hpassword hrest
  have hdrop : (name ++ .scalar ':' :: (password ++ rest)).drop (name.length + (1 + password.length)) = rest := by
    rw [← List.drop_drop, List.drop_left, Nat.add_comm, List.drop_succ_cons, List.drop_left]
  have hpos : name.length ≠ 0 := by simpa using hne
  simp only [userInfo?, htake, hpos, if_false, List.drop_left, hspan, hdrop]
  simp [Nat.add_comm, Nat.add_left_comm]

end UserInfo

/-- The name ends at its first colon; with no colon there is no password to read. -/
theorem exists_of_userInfo? (h : userInfo? t = some n) :
    ∃ user rest, t = user ++ .scalar '@' :: rest ∧ IsUserInfo user ∧ n = user.length + 1 := by
  obtain ⟨name, y, rfl, hname, hy, htake⟩ := Text.exists_span (fun c => isPlain c && c != .scalar ':') t
  have hplain : ∀ c ∈ name, isPlain c = true ∧ c ≠ .scalar ':' := by
    intro c hc
    simpa using hname c hc
  cases name with
  | nil =>
      have hzero : ((([] : Text) ++ y).takeWhile (fun c =>
          (c != .scalar '/' && !c.isBlank && c != .scalar '@') && c != .scalar ':')).length = 0 :=
        congrArg List.length htake
      simp only [userInfo?, hzero, if_true] at h
      cases h
  | cons first name =>
      have hne := List.cons_ne_nil first name
      by_cases hcolon : y.head? = some (.scalar ':')
      · obtain ⟨y, rfl⟩ := List.head?_eq_some_iff.mp hcolon
        obtain ⟨password, rest, rfl, hpassword, hrest, -⟩ := Text.exists_span isPlain y
        rw [userInfo?_password hname hne hpassword hrest] at h
        split at h
        · rename_i hend
          obtain ⟨rest, rfl⟩ := List.head?_eq_some_iff.mp hend
          cases h
          refine ⟨first :: name ++ .scalar ':' :: password, rest, by simp, ⟨⟨first, _, rfl, ?_⟩, ?_⟩, rfl⟩
          · exact (hplain first List.mem_cons_self).2
          · intro c hc
            obtain hc | hc := List.mem_append.mp hc
            · exact (hplain c hc).1
            · obtain rfl | hc := List.mem_cons.mp hc
              · rfl
              · exact hpassword c hc
        · cases h
      · rw [userInfo?_user hname hne hy hcolon] at h
        split at h
        · rename_i hend
          obtain ⟨rest, rfl⟩ := List.head?_eq_some_iff.mp hend
          cases h
          exact ⟨first :: name, rest, rfl, ⟨⟨first, name, rfl, (hplain first List.mem_cons_self).2⟩,
            fun c hc => (hplain c hc).1⟩, rfl⟩
        · cases h

theorem IsUserInfo.userInfo? {user : Text} (h : IsUserInfo user) (rest : Text) :
    userInfo? (user ++ .scalar '@' :: rest) = some (user.length + 1) := by
  obtain ⟨⟨first, more, rfl, hfirst⟩, hplain⟩ := h
  obtain ⟨name, y, heq, hname, hy, htake⟩ :=
    Text.exists_span (fun c => isPlain c && c != .scalar ':') (first :: more)
  have hne : name ≠ [] := by
    rintro rfl
    have hp := hplain first List.mem_cons_self
    simp [hp, hfirst] at htake
  rw [heq] at hplain ⊢
  cases y with
  | nil =>
      have hstop : ∀ c, List.head? (.scalar '@' :: rest) = some c →
          (isPlain c && c != .scalar ':') = false := by
        rintro c ⟨⟩
        decide
      have huser := userInfo?_user hname hne hstop (by simp)
      simpa using huser
  | cons d password =>
      -- what stops the name is plain, so it is the colon before the password
      have hd : d = .scalar ':' := by
        have hp := hplain d (by simp)
        simpa [hp] using hy d rfl
      subst hd
      have hpassword : ∀ c ∈ password, isPlain c = true := fun c hc => hplain c (by simp [hc])
      have hrest : ∀ c, List.head? (.scalar '@' :: rest) = some c → isPlain c = false := by
        rintro c ⟨⟩
        decide
      have huser := userInfo?_password hname hne hpassword hrest
      simpa using huser

theorem userInfo?_eq_some_iff : userInfo? t = some n ↔
    ∃ user rest, t = user ++ .scalar '@' :: rest ∧ IsUserInfo user ∧ n = user.length + 1 := by
  constructor
  · exact exists_of_userInfo?
  · rintro ⟨user, rest, rfl, huser, rfl⟩
    exact huser.userInfo? rest

theorem https_ne_http (x y : Text) : lit "https://" ++ x ≠ lit "http://" ++ y := by
  intro h
  cases h

theorem address_eq_some_iff : address w t = some (v, n) ↔ w = false ∧ ∃ scheme user rest,
    t = scheme ++ (user ++ .scalar '@' :: rest) ∧ scheme.map CodePoint.fold ∈ [lit "https://", lit "http://"] ∧
      IsUserInfo user ∧ v = scheme ++ hidden ++ [.scalar '@'] ∧ n = (scheme ++ user).length + 1 := by
  constructor
  · intro h
    cases w with
    | true => cases h
    | false =>
        refine ⟨rfl, ?_⟩
        cases hfind : [lit "https://", lit "http://"].find? (Text.beginsFolded · t) with
        | none =>
            simp only [address, hfind] at h
            cases h
        | some s =>
            obtain ⟨hmem, hbegins⟩ := (find?_scheme https_ne_http).mp hfind
            obtain ⟨scheme, y, rfl, rfl⟩ := Text.beginsFolded_iff.mp hbegins
            simp only [address, hfind, Bool.false_eq_true, if_false, Option.bind_eq_bind, Option.bind_some,
              List.length_map, List.drop_left, List.take_left, Option.bind_eq_some_iff] at h
            obtain ⟨k, hk, h⟩ := h
            obtain ⟨user, rest, rfl, huser, rfl⟩ := userInfo?_eq_some_iff.mp hk
            cases h
            exact ⟨scheme, user, rest, rfl, hmem, huser, rfl, by rw [List.length_append, Nat.add_assoc]⟩
  · rintro ⟨rfl, scheme, user, rest, rfl, hmem, huser, rfl, rfl⟩
    have hbegins : Text.beginsFolded (scheme.map CodePoint.fold) (scheme ++ (user ++ .scalar '@' :: rest)) = true :=
      Text.beginsFolded_iff.mpr ⟨scheme, _, rfl, rfl⟩
    have hfind := (find?_scheme https_ne_http).mpr ⟨hmem, hbegins⟩
    have hinfo := userInfo?_eq_some_iff.mpr ⟨user, rest, rfl, huser, rfl⟩
    simp [address, hfind, hinfo, Nat.add_assoc]

inductive IsLabel : Text → Prop
  | mk {q q' : CodePoint} {name before after : Text} (quotes : isQuote q = true ∧ isQuote q' = true)
      (letters : ∀ c ∈ name, isNameLetter c = true)
      (secret : secretWords.any (Text.occursIn · (name.map CodePoint.fold)) = true)
      (before_blank : ∀ c ∈ before, c.isBlank = true) (after_blank : ∀ c ∈ after, c.isBlank = true) :
      IsLabel (q :: (name ++ q' :: (before ++ .scalar ':' :: after)))

def isBareChar (c : CodePoint) : Bool := c != .scalar ',' && !c.isBlank && c != .scalar '}'

theorem isQuote_iff : isQuote c = true ↔ c = .scalar '"' ∨ c = .scalar '\'' := by
  simp [isQuote]

theorem isNameLetter_of_isQuote (h : isQuote c = true) : isNameLetter c = false := by
  obtain rfl | rfl := isQuote_iff.mp h <;> rfl

theorem isBareChar_of_isQuote (h : isQuote c = true) : isBareChar c = true := by
  obtain rfl | rfl := isQuote_iff.mp h <;> rfl

theorem quotedName?_eq_some_iff : quotedName? t = some k ↔ ∃ q name q' r, t = q :: (name ++ q' :: r) ∧
    (isQuote q = true ∧ isQuote q' = true) ∧ (∀ c ∈ name, isNameLetter c = true) ∧
    secretWords.any (Text.occursIn · (name.map CodePoint.fold)) = true ∧ k = name.length + 2 := by
  constructor
  · intro h
    cases t with
    | nil => cases h
    | cons q t =>
        obtain ⟨name, y, rfl, hname, -, htake⟩ := Text.exists_span isNameLetter t
        simp only [quotedName?, htake, List.drop_left] at h
        split at h
        · rename_i hq
          split at h
          · rename_i hend
            rw [Bool.and_eq_true] at hend
            cases y with
            | nil => cases hend.2
            | cons q' r =>
                cases h
                exact ⟨q, name, q', r, rfl, ⟨hq, hend.2⟩, hname, hend.1, rfl⟩
          · cases h
        · cases h
  · rintro ⟨q, name, q', r, rfl, ⟨hq, hq'⟩, hname, hsecret, rfl⟩
    have htake : (name ++ q' :: r).takeWhile isNameLetter = name := by
      refine Text.takeWhile_append_stop hname ?_
      rintro c ⟨⟩
      exact isNameLetter_of_isQuote hq'
    simp only [quotedName?, htake, hq, hsecret, List.drop_left, List.head?_cons, Option.any_some, hq']
    rfl

theorem separator?_eq_some_iff : separator? t = some k ↔ ∃ before after z,
    t = before ++ .scalar ':' :: (after ++ z) ∧ (∀ c ∈ before, c.isBlank = true) ∧
    (∀ c ∈ after, c.isBlank = true) ∧ (∀ c, z.head? = some c → c.isBlank = false) ∧
    k = before.length + 1 + after.length := by
  constructor
  · intro h
    obtain ⟨before, y, rfl, hbefore, -, htake⟩ := Text.exists_span CodePoint.isBlank t
    simp only [separator?, htake, List.drop_left] at h
    split at h
    · rename_i r
      obtain ⟨after, z, rfl, hafter, hz, htake⟩ := Text.exists_span CodePoint.isBlank r
      rw [htake] at h
      cases h
      exact ⟨before, after, z, rfl, hbefore, hafter, hz, rfl⟩
    · cases h
  · rintro ⟨before, after, z, rfl, hbefore, hafter, hz, rfl⟩
    have htake : (before ++ .scalar ':' :: (after ++ z)).takeWhile CodePoint.isBlank = before := by
      refine Text.takeWhile_append_stop hbefore ?_
      rintro c ⟨⟩
      rfl
    simp only [separator?, htake, List.drop_left, Text.takeWhile_append_stop hafter hz]

theorem namedValue_label (hx : IsLabel x) (hz : ∀ c, z.head? = some c → c.isBlank = false) :
    namedValue w (x ++ z) =
      (valueLength? z).map fun n => (x ++ hiddenValue (z.take n), x.length + n) := by
  obtain @⟨q, q', name, before, after, hquotes, hname, hsecret, hbefore, hafter⟩ := hx
  have hlabel : quotedName? (q :: (name ++ q' :: (before ++ .scalar ':' :: after)) ++ z) = some (name.length + 2) :=
    quotedName?_eq_some_iff.mpr ⟨q, name, q', before ++ .scalar ':' :: (after ++ z), by simp, hquotes, hname,
      hsecret, rfl⟩
  have hrest : (q :: (name ++ q' :: (before ++ .scalar ':' :: after)) ++ z).drop (name.length + 2) =
      before ++ .scalar ':' :: (after ++ z) := by
    simp [List.drop_append]
  have hseparator := separator?_eq_some_iff.mpr ⟨before, after, z, rfl, hbefore, hafter, hz, rfl⟩
  have hlength : name.length + 2 + (before.length + 1 + after.length) =
      (q :: (name ++ q' :: (before ++ .scalar ':' :: after))).length := by
    simp
    omega
  simp only [namedValue, hlabel, hrest, hseparator, hlength, Option.bind_eq_bind, Option.bind_some, List.drop_left,
    List.take_left]
  cases valueLength? z <;> rfl

theorem namedValue_eq_some_iff : namedValue w t = some (v, n) ↔ ∃ x z k, t = x ++ z ∧ IsLabel x ∧
    (∀ c, z.head? = some c → c.isBlank = false) ∧ valueLength? z = some k ∧
    v = x ++ hiddenValue (z.take k) ∧ n = x.length + k := by
  constructor
  · intro h
    have hparts := h
    simp only [namedValue, Option.bind_eq_bind, Option.bind_eq_some_iff] at hparts
    obtain ⟨k, hname, l, hseparator, -⟩ := hparts
    obtain ⟨q, name, q', r, rfl, hquotes, hletters, hsecret, rfl⟩ := quotedName?_eq_some_iff.mp hname
    have hdrop : (q :: (name ++ q' :: r)).drop (name.length + 2) = r := by simp [List.drop_append]
    rw [hdrop] at hseparator
    obtain ⟨before, after, z, rfl, hbefore, hafter, hz, rfl⟩ := separator?_eq_some_iff.mp hseparator
    have hx := IsLabel.mk hquotes hletters hsecret hbefore hafter
    have heq : q :: (name ++ q' :: (before ++ .scalar ':' :: (after ++ z))) =
        q :: (name ++ q' :: (before ++ .scalar ':' :: after)) ++ z := by simp
    rw [heq] at h ⊢
    rw [namedValue_label hx hz, Option.map_eq_some_iff] at h
    obtain ⟨k, hk, he⟩ := h
    cases he
    exact ⟨_, z, k, rfl, hx, hz, hk, rfl, rfl⟩
  · rintro ⟨x, z, k, rfl, hx, hz, hk, rfl, rfl⟩
    rw [namedValue_label hx hz, hk]
    rfl

theorem closing?_eq_some (h : closing? q t = some k) : ∃ y r, t = y ++ q :: r ∧ k = y.length + 1 := by
  fun_induction closing? q t generalizing k with
  | case1 => cases h
  | case2 =>
      cases h
      exact ⟨[], [], rfl, rfl⟩
  | case3 => cases h
  | case4 d t =>
      cases h
      exact ⟨[], d :: t, rfl, rfl⟩
  | case5 => cases h
  | case6 d t _ _ ih =>
      obtain ⟨j, hj, rfl⟩ := Option.map_eq_some_iff.mp h
      obtain ⟨y, r, rfl, rfl⟩ := ih hj
      exact ⟨.scalar '\\' :: d :: y, r, rfl, rfl⟩
  | case7 c d t _ _ ih =>
      obtain ⟨j, hj, rfl⟩ := Option.map_eq_some_iff.mp h
      obtain ⟨y, r, heq, rfl⟩ := ih hj
      exact ⟨c :: y, r, by rw [heq]; rfl, rfl⟩

theorem bareValue?_append (hvalue : ∀ c ∈ value, isBareChar c = true)
    (hrest : ∀ c, rest.head? = some c → isBareChar c = false) :
    bareValue? (value ++ rest) = if value.length = 0 then none else some value.length := by
  have htake : (value ++ rest).takeWhile (fun c => c != .scalar ',' && !c.isBlank && c != .scalar '}') = value :=
    Text.takeWhile_append_stop hvalue hrest
  simp only [bareValue?, htake]

theorem bareValue?_eq_some (h : bareValue? t = some k) : ∃ value rest, t = value ++ rest ∧ k = value.length ∧
    value ≠ [] ∧ (∀ c ∈ value, isBareChar c = true) ∧ ∀ c, rest.head? = some c → isBareChar c = false := by
  obtain ⟨value, rest, rfl, hvalue, hrest, -⟩ := Text.exists_span isBareChar t
  rw [bareValue?_append hvalue hrest] at h
  split_ifs at h with hzero
  cases h
  exact ⟨value, rest, rfl, rfl, by simpa using hzero, hvalue, hrest⟩

theorem valueLength?_of_not_isQuote (h : ∀ c, t.head? = some c → isQuote c = false) :
    valueLength? t = bareValue? t := by
  cases t with
  | nil => rfl
  | cons c t => simp [valueLength?, h c rfl]

theorem valueLength?_of_isQuote (h : isQuote q = true) (t : Text) :
    valueLength? (q :: t) = ((closing? q t).map (· + 1)).or (bareValue? (q :: t)) := by
  simp [valueLength?, h]

def IsValue (value rest : Text) : Prop :=
  (∃ q y, isQuote q = true ∧ value = q :: (y ++ [q])) ∨
    (value ≠ [] ∧ ∀ c, rest.head? = some c → isBareChar c = false)

theorem valueLength?_eq_some (h : valueLength? z = some k) :
    ∃ value rest, z = value ++ rest ∧ k = value.length ∧ IsValue value rest := by
  have hbare : ∀ {t}, bareValue? t = some k →
      ∃ value rest, t = value ++ rest ∧ k = value.length ∧ IsValue value rest := by
    intro t ht
    obtain ⟨value, rest, heq, hk, hne, -, hrest⟩ := bareValue?_eq_some ht
    exact ⟨value, rest, heq, hk, .inr ⟨hne, hrest⟩⟩
  cases z with
  | nil => cases h
  | cons c t =>
      by_cases hc : isQuote c = true
      · rw [valueLength?_of_isQuote hc, Option.or_eq_some_iff] at h
        obtain h | ⟨-, h⟩ := h
        · obtain ⟨j, hj, rfl⟩ := Option.map_eq_some_iff.mp h
          obtain ⟨y, r, rfl, rfl⟩ := closing?_eq_some hj
          exact ⟨c :: (y ++ [c]), r, by simp, by simp, .inl ⟨c, y, hc, rfl⟩⟩
        · exact hbare h
      · rw [valueLength?_of_not_isQuote (by rintro d ⟨⟩; simpa using hc)] at h
        exact hbare h

theorem valueLength?_ne_none_iff : valueLength? z ≠ none ↔ ∃ d z', z = d :: z' ∧ isBareChar d = true := by
  constructor
  · intro h
    obtain ⟨k, hk⟩ := Option.ne_none_iff_exists'.mp h
    cases z with
    | nil => cases hk
    | cons d z =>
        refine ⟨d, z, rfl, ?_⟩
        by_cases hd : isQuote d = true
        · exact isBareChar_of_isQuote hd
        · rw [valueLength?_of_not_isQuote (by rintro c ⟨⟩; simpa using hd)] at hk
          obtain ⟨value, rest, heq, -, hne, hvalue, -⟩ := bareValue?_eq_some hk
          cases value with
          | nil => exact absurd rfl hne
          | cons c value =>
              obtain ⟨rfl, -⟩ := List.cons.inj heq
              exact hvalue d List.mem_cons_self
  · rintro ⟨d, z, rfl, hd⟩
    have hbare : bareValue? (d :: z) ≠ none := by
      simp only [isBareChar] at hd
      simp [bareValue?, hd]
    by_cases hq : isQuote d = true
    · rw [valueLength?_of_isQuote hq]
      simp [hbare]
    · rwa [valueLength?_of_not_isQuote (by rintro c ⟨⟩; simpa using hq)]

theorem hiddenValue_quoted (hq : isQuote q = true) (y : Text) :
    hiddenValue (q :: (y ++ [q])) = q :: (hidden ++ [q]) := by
  have hlast : (q :: (y ++ [q])).getLast? = some q := by
    rw [← List.cons_append, List.getLast?_concat]
  simp [hiddenValue, hlast, hq]

theorem hiddenValue_cases (value : Text) : hiddenValue value = hidden ∨
    ∃ q, isQuote q = true ∧ hiddenValue value = q :: (hidden ++ [q]) := by
  simp only [hiddenValue]
  split
  · split_ifs with h
    · exact .inr ⟨_, h.2.1, rfl⟩
    · exact .inl rfl
  · exact .inl rfl

theorem bare_of_hiddenValue_eq (hvalue : IsValue value rest) (h : hiddenValue value = hidden) :
    ∀ c, rest.head? = some c → isBareChar c = false := by
  obtain ⟨q, y, hq, rfl⟩ | ⟨-, hrest⟩ := hvalue
  · rw [hiddenValue_quoted hq] at h
    cases h
  · exact hrest

theorem isBareChar_hidden : ∀ c ∈ hidden, isBareChar c = true := by decide

theorem hiddenValue_hidden : hiddenValue hidden = hidden := by decide

/-- What stands for a value is found as a value again, and stands for itself. -/
theorem valueLength?_hiddenValue (hvalue : IsValue value rest) (hr : r.head? = rest.head?) :
    valueLength? (hiddenValue value ++ r) = some (hiddenValue value).length ∧
      hiddenValue (hiddenValue value) = hiddenValue value := by
  obtain h | ⟨q, hq, h⟩ := hiddenValue_cases value
  · have hstop := bare_of_hiddenValue_eq hvalue h
    rw [← hr] at hstop
    rw [h]
    refine ⟨?_, hiddenValue_hidden⟩
    rw [valueLength?_of_not_isQuote (by rintro c ⟨⟩; rfl), bareValue?_append isBareChar_hidden hstop]
    rfl
  · have hclosing : closing? q (hidden ++ q :: r) = some 11 := by
      obtain rfl | rfl := isQuote_iff.mp hq <;> cases r <;> rfl
    rw [h, List.cons_append, List.append_assoc, List.singleton_append, valueLength?_of_isQuote hq, hclosing,
      hiddenValue_quoted hq]
    exact ⟨rfl, rfl⟩

theorem foldsToLetter_of_isQuote (h : isQuote c = true) : c.foldsToLetter = false := by
  obtain rfl | rfl := isQuote_iff.mp h <;> rfl

theorem isWord_of_isQuote (h : isQuote c = true) : c.isWord = false := by
  obtain rfl | rfl := isQuote_iff.mp h <;> decide

theorem foldsToLetter_of_isBlank (h : c.isBlank = true) : c.foldsToLetter = false := by
  by_contra hletter
  rw [CodePoint.isBlank_of_foldsToLetter (by simpa using hletter)] at h
  cases h

theorem foldsToLetter_of_not_isTokenChar (h : isTokenChar c = false) : c.foldsToLetter = false := by
  simp only [isTokenChar, Bool.and_eq_false_iff, bne_eq_false_iff_eq, Bool.not_eq_eq_eq_not, Bool.not_false] at h
  obtain (rfl | h) | h := h
  · rfl
  · exact foldsToLetter_of_isBlank h
  · exact foldsToLetter_of_isQuote h

theorem foldsToLetter_of_not_isBareChar (h : isBareChar c = false) : c.foldsToLetter = false := by
  simp only [isBareChar, Bool.and_eq_false_iff, bne_eq_false_iff_eq, Bool.not_eq_eq_eq_not, Bool.not_false] at h
  obtain (rfl | h) | rfl := h
  · rfl
  · exact foldsToLetter_of_isBlank h
  · rfl

theorem foldsToLetter_of_not_isCredential (h : isCredential c = false) : c.foldsToLetter = false := by
  rw [isCredential, Bool.or_eq_false_iff] at h
  exact h.1

theorem wordAfter_hidden (w : Bool) : wordAfter w hidden = false := by
  cases w <;> decide

def OpensToken (t : Text) : Prop := ∃ name z, t = name ++ z ∧ name.map CodePoint.fold = lit "token_auth="

def OpensLabel (t : Text) : Prop := ∃ q c z, t = q :: c :: z ∧ isQuote q = true ∧ isNameLetter c = true

def OpensAuthorization (t : Text) : Prop := ∃ scheme blank z, t = scheme ++ blank :: z ∧
  scheme.map CodePoint.fold ∈ [lit "basic", lit "bearer"] ∧ blank.isBlank = true

def OpensAddress (t : Text) : Prop := ∃ scheme z, t = scheme ++ z ∧
  scheme.map CodePoint.fold ∈ [lit "https://", lit "http://"]

theorem IsToken.name_ne (h : IsToken name value rest) : name ≠ [] := by
  rintro rfl
  cases h.name

theorem scheme_ne_nil {scheme : Text} {s s' : String} (h : scheme.map CodePoint.fold ∈ [lit s, lit s'])
    (hs : lit s ≠ []) (hs' : lit s' ≠ []) : scheme ≠ [] := by
  rintro rfl
  rw [List.map_nil, List.mem_cons, List.mem_singleton] at h
  obtain h | h := h
  · exact hs h.symm
  · exact hs' h.symm

theorem head?_append_of_ne_nil (h : x ≠ []) (y : Text) : (x ++ y).head? = x.head? := by
  cases x with
  | nil => exact absurd rfl h
  | cons c x => rfl

theorem queryToken_parts (h : queryToken w (u ++ r) = some (v, u.length)) :
    ∃ name value, u = name ++ value ∧ IsToken name value r ∧ v = name ++ hidden := by
  obtain ⟨-, name, value, rest, heq, hm, rfl, hlen⟩ := queryToken_eq_some_iff.mp h
  rw [← List.append_assoc] at heq
  obtain ⟨rfl, rfl⟩ := List.append_inj heq hlen
  exact ⟨name, value, rfl, hm, rfl⟩

theorem queryToken_tame : Rule.Tame queryToken OpensToken where
  fits h := by
    obtain ⟨-, name, value, rest, rfl, hm, rfl, rfl⟩ := queryToken_eq_some_iff.mp h
    exact ⟨name ++ value, rest, by simp, List.append_ne_nil_of_left_ne_nil hm.name_ne value, rfl⟩
  head _ h := by
    obtain ⟨name, value, rfl, hm, rfl⟩ := queryToken_parts h
    rw [head?_append_of_ne_nil hm.name_ne, head?_append_of_ne_nil hm.name_ne]
  border _ h := by
    obtain ⟨name, value, rfl, hm, rfl⟩ := queryToken_parts h
    exact ⟨by rw [wordAfter_append, wordAfter_hidden], fun _ c hc =>
      foldsToLetter_of_not_isTokenChar (hm.rest c hc)⟩
  opens_of_match h := by
    obtain ⟨-, name, value, rest, rfl, hm, rfl, rfl⟩ := queryToken_eq_some_iff.mp h
    exact ⟨name, _, rfl, hm.name⟩
  opens_of_written _ h z := by
    obtain ⟨name, value, rfl, hm, rfl⟩ := queryToken_parts h
    exact ⟨name, _, List.append_assoc _ _ _, hm.name⟩

theorem IsLabel.opens (h : IsLabel x) (z : Text) : OpensLabel (x ++ z) := by
  obtain @⟨q, q', name, before, after, hquotes, hname, hsecret, -, -⟩ := h
  cases name with
  | nil => exact absurd hsecret (by decide)
  | cons c name => exact ⟨q, c, _, rfl, hquotes.1, hname c List.mem_cons_self⟩

theorem IsLabel.ne_nil (h : IsLabel x) : x ≠ [] := by
  obtain ⟨⟩ := h
  exact List.cons_ne_nil _ _

theorem namedValue_parts (h : namedValue w (u ++ r) = some (v, u.length)) :
    ∃ x value, u = x ++ value ∧ IsLabel x ∧ (∀ c, (value ++ r).head? = some c → c.isBlank = false) ∧
      IsValue value r ∧ v = x ++ hiddenValue value := by
  obtain ⟨x, z, k, heq, hx, hz, hk, rfl, hlen⟩ := namedValue_eq_some_iff.mp h
  obtain ⟨value, rest, rfl, rfl, hvalue⟩ := valueLength?_eq_some hk
  rw [← List.append_assoc] at heq
  obtain ⟨rfl, rfl⟩ := List.append_inj heq (by rw [hlen, List.length_append])
  exact ⟨x, value, rfl, hx, hz, hvalue, by rw [List.take_left]⟩

theorem namedValue_tame : Rule.Tame namedValue OpensLabel where
  fits h := by
    obtain ⟨x, z, k, rfl, hx, -, hk, rfl, rfl⟩ := namedValue_eq_some_iff.mp h
    obtain ⟨value, rest, rfl, rfl, -⟩ := valueLength?_eq_some hk
    exact ⟨x ++ value, rest, by simp, List.append_ne_nil_of_left_ne_nil hx.ne_nil value, by simp⟩
  head _ h := by
    obtain ⟨x, value, rfl, hx, -, -, rfl⟩ := namedValue_parts h
    rw [head?_append_of_ne_nil hx.ne_nil, head?_append_of_ne_nil hx.ne_nil]
  border _ h := by
    obtain ⟨x, value, rfl, hx, -, hvalue, rfl⟩ := namedValue_parts h
    constructor
    · obtain hhidden | ⟨q, hq, hhidden⟩ := hiddenValue_cases value
      · rw [hhidden, wordAfter_append, wordAfter_hidden]
      · simp [hhidden, isWord_of_isQuote hq]
    · obtain ⟨q, y, hq, rfl⟩ | ⟨-, hstop⟩ := hvalue
      · simp [isWord_of_isQuote hq]
      · exact fun _ c hc => foldsToLetter_of_not_isBareChar (hstop c hc)
  opens_of_match h := by
    obtain ⟨x, z, k, rfl, hx, -⟩ := namedValue_eq_some_iff.mp h
    exact hx.opens z
  opens_of_written _ h z := by
    obtain ⟨x, value, rfl, hx, -, -, rfl⟩ := namedValue_parts h
    rw [List.append_assoc]
    exact hx.opens _

theorem IsAuthorization.scheme_ne {scheme blanks : Text} (h : IsAuthorization scheme blanks value rest) :
    scheme ≠ [] := scheme_ne_nil h.scheme nofun nofun

theorem authorization_parts (h : authorization w (u ++ r) = some (v, u.length)) :
    ∃ scheme blanks value, u = scheme ++ (blanks ++ value) ∧ IsAuthorization scheme blanks value r ∧
      v = scheme ++ .scalar ' ' :: hidden := by
  obtain ⟨-, scheme, blanks, value, rest, heq, hm, rfl, hlen⟩ := authorization_eq_some_iff.mp h
  have hparts : scheme ++ (blanks ++ (value ++ rest)) = scheme ++ (blanks ++ value) ++ rest := by simp
  obtain ⟨rfl, rfl⟩ := List.append_inj (heq.trans hparts) hlen
  exact ⟨scheme, blanks, value, rfl, hm, rfl⟩

theorem authorization_tame : Rule.Tame authorization OpensAuthorization where
  fits h := by
    obtain ⟨-, scheme, blanks, value, rest, rfl, hm, rfl, rfl⟩ := authorization_eq_some_iff.mp h
    exact ⟨scheme ++ (blanks ++ value), rest, by simp, List.append_ne_nil_of_left_ne_nil hm.scheme_ne _, rfl⟩
  head _ h := by
    obtain ⟨scheme, blanks, value, rfl, hm, rfl⟩ := authorization_parts h
    rw [head?_append_of_ne_nil hm.scheme_ne, head?_append_of_ne_nil hm.scheme_ne]
  border _ h := by
    obtain ⟨scheme, blanks, value, rfl, hm, rfl⟩ := authorization_parts h
    refine ⟨?_, fun _ c hc => foldsToLetter_of_not_isCredential (hm.rest c hc)⟩
    rw [wordAfter_append, wordAfter_cons, wordAfter_hidden]
  opens_of_match h := by
    obtain ⟨-, scheme, blanks, value, rest, rfl, hm, rfl, rfl⟩ := authorization_eq_some_iff.mp h
    cases blanks with
    | nil => exact absurd rfl hm.blanks_ne
    | cons b blanks => exact ⟨scheme, b, _, rfl, hm.scheme, hm.blanks b List.mem_cons_self⟩
  opens_of_written _ h z := by
    obtain ⟨scheme, blanks, value, rfl, hm, rfl⟩ := authorization_parts h
    exact ⟨scheme, .scalar ' ', hidden ++ z, by simp, hm.scheme, rfl⟩

theorem address_parts (h : address w (u ++ r) = some (v, u.length)) :
    ∃ scheme user, u = scheme ++ (user ++ [.scalar '@']) ∧
      scheme.map CodePoint.fold ∈ [lit "https://", lit "http://"] ∧ IsUserInfo user ∧
      v = scheme ++ hidden ++ [.scalar '@'] := by
  obtain ⟨-, scheme, user, rest, heq, hs, huser, rfl, hlen⟩ := address_eq_some_iff.mp h
  have hparts : scheme ++ (user ++ .scalar '@' :: rest) = scheme ++ (user ++ [.scalar '@']) ++ rest := by simp
  obtain ⟨rfl, -⟩ := List.append_inj (heq.trans hparts) (by rw [hlen]; simp; omega)
  exact ⟨scheme, user, rfl, hs, huser, rfl⟩

theorem address_tame : Rule.Tame address OpensAddress where
  fits h := by
    obtain ⟨-, scheme, user, rest, rfl, hs, -, rfl, rfl⟩ := address_eq_some_iff.mp h
    exact ⟨scheme ++ (user ++ [.scalar '@']), rest, by simp,
      List.append_ne_nil_of_left_ne_nil (scheme_ne_nil hs nofun nofun) _, by simp; omega⟩
  head _ h := by
    obtain ⟨scheme, user, rfl, hs, -, rfl⟩ := address_parts h
    have hne := scheme_ne_nil hs nofun nofun
    rw [List.append_assoc, head?_append_of_ne_nil hne, head?_append_of_ne_nil hne]
  border _ h := by
    obtain ⟨scheme, user, rfl, hs, -, rfl⟩ := address_parts h
    have hat : (CodePoint.scalar '@').isWord = false := by decide
    simp [hat]
  opens_of_match h := by
    obtain ⟨-, scheme, user, rest, rfl, hs, -, rfl, rfl⟩ := address_eq_some_iff.mp h
    exact ⟨scheme, _, rfl, hs⟩
  opens_of_written _ h z := by
    obtain ⟨scheme, user, rfl, hs, -, rfl⟩ := address_parts h
    exact ⟨scheme, hidden ++ [.scalar '@'] ++ z, by simp, hs⟩

end Redaction

end MetricBridge
