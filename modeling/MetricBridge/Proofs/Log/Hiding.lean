import MetricBridge.Proofs.Log.Openings
import MetricBridge.Proofs.Text.Percent

namespace MetricBridge.Redaction

variable {w w' : Bool} {n k : Nat} {c d q : CodePoint} {a b m m₁ m₂ t u v x y z z₁ r name value : Text}

section Query

theorem toNat_of_isAlphanum {e : Char} (h : e.isAlphanum = true) : 48 ≤ e.toNat ∧ e.toNat ≤ 122 := by
  have hbounds : ∀ low high : Char, low.val ≤ e.val → e.val ≤ high.val →
      low.toNat ≤ e.toNat ∧ e.toNat ≤ high.toNat := by
    intro low high hlow hhigh
    exact ⟨UInt32.le_iff_toNat_le.mp hlow, UInt32.le_iff_toNat_le.mp hhigh⟩
  have hkinds : (e.isUpper || e.isLower || e.isDigit) = true := h
  rw [Bool.or_eq_true, Bool.or_eq_true] at hkinds
  obtain (hupper | hlower) | hdigit := hkinds
  · have hin : e.val ≥ 'A'.val ∧ e.val ≤ 'Z'.val := of_decide_eq_true hupper
    have hnat : 65 ≤ e.toNat ∧ e.toNat ≤ 90 := hbounds 'A' 'Z' hin.1 hin.2
    omega
  · obtain ⟨hlow, hhigh⟩ := Bool.and_eq_true_iff.mp hlower
    have hnat : 97 ≤ e.toNat ∧ e.toNat ≤ 122 := hbounds 'a' 'z' (of_decide_eq_true hlow) (of_decide_eq_true hhigh)
    omega
  · obtain ⟨hlow, hhigh⟩ := Bool.and_eq_true_iff.mp hdigit
    have hnat : 48 ≤ e.toNat ∧ e.toNat ≤ 57 := hbounds '0' '9' (of_decide_eq_true hlow) (of_decide_eq_true hhigh)
    omega

theorem isBlank_of_mem_percentEncode (h : c ∈ t.percentEncode fun _ => false) : c.isBlank = false := by
  rw [Text.percentEncode_eq, List.mem_flatMap] at h
  obtain ⟨e, -, he⟩ := h
  rw [Text.percentCode] at he
  split at he
  · rename_i hsatisfies
    obtain rfl := List.mem_singleton.mp he
    cases c with
    | surrogate => cases hsatisfies
    | scalar d =>
        refine CodePoint.isBlank_eq_false (.inl ?_)
        show 33 ≤ d.toNat ∧ d.toNat < 0x85
        simp only [CodePoint.satisfies, Bool.or_false, Text.isUnreserved, Bool.or_eq_true, beq_iff_eq] at hsatisfies
        obtain (((h | rfl) | rfl) | rfl) | rfl := hsatisfies
        · have hnat := toNat_of_isAlphanum h
          omega
        all_goals decide
  · obtain ⟨byte, -, hbyte⟩ := List.mem_flatMap.mp he
    have hlt := byte.toNat_lt
    have hdigit : ∀ n < 16, (CodePoint.scalar (Nat.digitChar n).toUpper).isBlank = false := by decide
    simp only [Text.percentByte, List.mem_cons, List.not_mem_nil, or_false] at hbyte
    obtain rfl | rfl | rfl := hbyte
    · rfl
    · exact hdigit _ (by omega)
    · exact hdigit _ (by omega)

theorem isTokenChar_of_mem_percentEncode (h : c ∈ t.percentEncode fun _ => false) : isTokenChar c = true := by
  have hamp : c ≠ .scalar '&' := by
    rintro rfl
    exact Text.notMem_percentEncode (by decide) (by decide) (by decide) t h
  have hquote : isQuote c = false := by
    by_contra hquote
    obtain rfl | rfl := isQuote_iff.mp (by simpa using hquote)
    · exact Text.notMem_percentEncode (by decide) (by decide) (by decide) t h
    · exact Text.notMem_percentEncode (by decide) (by decide) (by decide) t h
  simp [isTokenChar, hamp, hquote, isBlank_of_mem_percentEncode h]

/-- A match that begins in front of an ampersand ends there, whatever follows. -/
theorem queryToken_ampersand (h : queryToken w (y ++ .scalar '&' :: z₁) = some (v, n)) (z₂ : Text) :
    queryToken w (y ++ .scalar '&' :: z₂) = some (v, n) ∧ n ≤ y.length := by
  obtain ⟨rfl, name, value, rest, heq, hm, rfl, rfl⟩ := queryToken_eq_some_iff.mp h
  have hnot : CodePoint.scalar '&' ∉ name ++ value := by
    refine List.not_mem_append (fun hmem => ?_) fun hmem => ?_
    · exact absurd (mem_of_map_fold hm.name hmem rfl) (by decide)
    · cases hm.value _ hmem
  rw [← List.append_assoc] at heq
  obtain ⟨x, rfl, rfl⟩ : ∃ x, y = name ++ value ++ x ∧ rest = x ++ .scalar '&' :: z₁ := by
    obtain ⟨x, hx, hrest⟩ | ⟨x, hx, hrest⟩ := List.append_eq_append_iff.mp heq
    · cases x with
      | nil => exact ⟨[], by simpa using hx.symm, hrest.symm⟩
      | cons d x =>
          obtain ⟨rfl, -⟩ := List.cons.inj hrest
          exact absurd (hx ▸ List.mem_append_right y List.mem_cons_self) hnot
    · exact ⟨x, hx, hrest⟩
  have hrest : ∀ c, (x ++ .scalar '&' :: z₂).head? = some c → isTokenChar c = false := by
    cases x with
    | nil =>
        rintro c ⟨⟩
        rfl
    | cons d x => exact hm.rest
  refine ⟨queryToken_eq_some_iff.mpr ⟨rfl, name, value, x ++ .scalar '&' :: z₂, by simp, ?_, rfl, rfl⟩, ?_⟩
  · exact ⟨hm.name, hm.value_ne, hm.value, hrest⟩
  · exact (List.prefix_append _ x).length_le

theorem queryToken_eq_none_of_head (h : c.fold ≠ .scalar 't') (w : Bool) (t : Text) :
    queryToken w (c :: t) = none := by
  by_contra hsome
  obtain ⟨d, y, heq, hd⟩ := (queryToken_tame.opens_of_ne_none hsome).head
  obtain ⟨rfl, -⟩ := List.cons.inj heq
  exact h hd

theorem applyFrom_queryToken (hrest : ∀ c, r.head? = some c → isTokenChar c = false) (w : Bool) :
    applyFrom queryToken w 0 r = applyFrom queryToken false 0 r := by
  cases r with
  | nil => rfl
  | cons c r =>
      have hletter := foldsToLetter_of_not_isTokenChar (hrest c rfl)
      have hhead : c.fold ≠ .scalar 't' := by
        intro hfold
        rw [(isNameLetter_of_fold hfold (by decide)).2] at hletter
        cases hletter
      rw [applyFrom_keep (queryToken_eq_none_of_head hhead w r),
        applyFrom_keep (queryToken_eq_none_of_head hhead false r)]

theorem apply_queryToken_payload (pre : Text) (hvalue : value ≠ []) (htoken : ∀ c ∈ value, isTokenChar c = true)
    (hrest : ∀ c, r.head? = some c → isTokenChar c = false) :
    apply queryToken (pre ++ .scalar '&' :: (lit "token_auth=" ++ (value ++ r))) =
      front queryToken false 0 pre [.scalar '&'] ++ .scalar '&' :: (lit "token_auth=" ++ hidden ++
        applyFrom queryToken false 0 r) := by
  have hwithin : ∀ y : Text, y ≠ [] → ∀ w, queryToken w (y ++ [.scalar '&']) =
      queryToken w (y ++ .scalar '&' :: (lit "token_auth=" ++ (value ++ r))) ∧
      ∀ v n, queryToken w (y ++ .scalar '&' :: (lit "token_auth=" ++ (value ++ r))) = some (v, n) →
        n ≤ y.length := by
    refine fun y _ w => ⟨Option.ext fun e => ?_, fun v n h => (queryToken_ampersand h []).2⟩
    exact ⟨fun h => (queryToken_ampersand h _).1, fun h => (queryToken_ampersand h _).1⟩
  obtain ⟨heq, -, hover⟩ := front_of_within hwithin false pre (Nat.zero_le _)
  have hhead := queryToken_eq_none_of_head (c := .scalar '&') (by decide)
  have hword : (CodePoint.scalar '&').isWord = false := by decide
  have hmatch : queryToken false (lit "token_auth=" ++ value ++ r) =
      some (lit "token_auth=" ++ hidden, (lit "token_auth=" ++ value).length) :=
    queryToken_eq_some_iff.mpr ⟨rfl, lit "token_auth=", value, r, List.append_assoc _ _ _,
      ⟨rfl, hvalue, htoken, hrest⟩, rfl, rfl⟩
  rw [apply, applyFrom_append, hover, ← heq, applyFrom_keep (hhead _ _), hword, ← List.append_assoc,
    applyFrom_replace (List.append_ne_nil_of_right_ne_nil _ hvalue) hmatch, applyFrom_queryToken hrest]

/-- The token of a request is hidden in what is logged, and what is written does not depend on it. -/
theorem payload_token_hidden (pre : Text) {t₁ t₂ suf : Text} (h₁ : t₁ ≠ []) (h₂ : t₂ ≠ [])
    (hsuf : ∀ c, suf.head? = some c → c = .scalar '&' ∨ c.isBlank = true ∨ isQuote c = true) :
    redact (pre ++ lit "&token_auth=" ++ t₁.percentEncode (fun _ => false) ++ suf) =
      redact (pre ++ lit "&token_auth=" ++ t₂.percentEncode (fun _ => false) ++ suf) := by
  have hencoded : ∀ {t : Text}, t ≠ [] → t.percentEncode (fun _ => false) ≠ [] := by
    intro t ht
    cases t with
    | nil => exact absurd rfl ht
    | cons c t => exact List.append_ne_nil_of_left_ne_nil (Text.percentCode_ne_nil c) _
  have hrest : ∀ c, suf.head? = some c → isTokenChar c = false := by
    intro c hc
    obtain rfl | h | h := hsuf c hc
    · rfl
    · simp [isTokenChar, h]
    · simp [isTokenChar, h]
  have hquery : ∀ {t : Text}, t ≠ [] →
      apply queryToken (pre ++ lit "&token_auth=" ++ t.percentEncode (fun _ => false) ++ suf) =
        front queryToken false 0 pre [.scalar '&'] ++ .scalar '&' :: (lit "token_auth=" ++ hidden ++
          applyFrom queryToken false 0 suf) := by
    intro t ht
    have hamp : lit "&token_auth=" = .scalar '&' :: lit "token_auth=" := rfl
    rw [← apply_queryToken_payload pre (hencoded ht) (fun c hc => isTokenChar_of_mem_percentEncode hc) hrest, hamp]
    simp only [List.append_assoc, List.cons_append]
  rw [redact, redact, hquery h₁, hquery h₂]

/-- One token has an ampersand and a quote in it, and another secret stands in front of each. -/
theorem payload_token_hidden_quote : (lit "abc" ≠ [] ∧ lit "x&\"y" ≠ []) ∧
    redact (lit "POST token_auth=old&a=1" ++ lit "&token_auth=" ++ (lit "abc").percentEncode (fun _ => false) ++
        lit " failed") =
      redact (lit "POST token_auth=old&a=1" ++ lit "&token_auth=" ++
        (lit "x&\"y").percentEncode (fun _ => false) ++ lit " failed") := by
  have hne : lit "abc" ≠ [] ∧ lit "x&\"y" ≠ [] := ⟨nofun, nofun⟩
  refine ⟨hne, payload_token_hidden _ hne.1 hne.2 ?_⟩
  rintro c ⟨⟩
  exact .inr (.inl rfl)

end Query

section Login

def isPartChar (c : CodePoint) : Bool := isPlain c && c != .scalar ':' && !isQuote c

def NamesToken (t : Text) : Prop := ∃ x y, t = x ++ y ∧ wordAfter false x = false ∧ OpensToken y

structure IsPart (part : Text) : Prop where
  ne : part ≠ []
  chars : ∀ c ∈ part, isPartChar c = true
  names : ¬NamesToken part

def login (scheme user password : Text) : Text := scheme ++ (user ++ .scalar ':' :: (password ++ [.scalar '@']))

inductive IsLogin : Text → Prop
  | mk {scheme user password : Text} : scheme ∈ [lit "https://", lit "http://"] → IsPart user → IsPart password →
      IsLogin (login scheme user password)

namespace IsLogin

theorem exists_scheme (h : IsLogin m) : ∃ scheme r, scheme ∈ [lit "https", lit "http"] ∧
    m = scheme ++ .scalar ':' :: (.scalar '/' :: r) := by
  obtain ⟨hscheme, -, -⟩ := h
  rw [List.mem_cons, List.mem_singleton] at hscheme
  obtain rfl | rfl := hscheme
  · exact ⟨lit "https", _, by simp, rfl⟩
  · exact ⟨lit "http", _, by simp, rfl⟩

theorem stop? (h : IsLogin m) (a : Text) : Redaction.stop? (m ++ a) = some (.scalar ':') := by
  obtain ⟨scheme, r, hscheme, rfl⟩ := h.exists_scheme
  rw [List.append_assoc]
  have hletters : ∀ s ∈ [lit "https", lit "http"], ∀ c ∈ s, isNameLetter c = true := by decide
  exact stop?_of_letters (hletters _ hscheme) rfl _

theorem exists_ht (h : IsLogin m) : ∃ r, m = .scalar 'h' :: .scalar 't' :: r := by
  obtain ⟨scheme, r, hscheme, rfl⟩ := h.exists_scheme
  rw [List.mem_cons, List.mem_singleton] at hscheme
  obtain rfl | rfl := hscheme
  · exact ⟨_, rfl⟩
  · exact ⟨_, rfl⟩

theorem clean (h : IsLogin m) : ∀ c ∈ m, c.isBlank = false ∧ isQuote c = false := by
  obtain ⟨hscheme, huser, hpassword⟩ := h
  have hpart : ∀ part, IsPart part → ∀ c ∈ part, c.isBlank = false ∧ isQuote c = false := by
    intro part hpart c hc
    have hchar := hpart.chars c hc
    simp only [isPartChar, isPlain, Bool.and_eq_true, Bool.not_eq_true'] at hchar
    exact ⟨hchar.1.1.1.2, hchar.2⟩
  have hmarks : ∀ s ∈ [lit "https://", lit "http://"], ∀ c ∈ s, c.isBlank = false ∧ isQuote c = false := by decide
  exact List.forall_mem_append.mpr ⟨hmarks _ hscheme, List.forall_mem_append.mpr ⟨hpart _ huser,
    List.forall_mem_cons.mpr ⟨by decide, List.forall_mem_append.mpr ⟨hpart _ hpassword, by decide⟩⟩⟩⟩

theorem getLast? (h : IsLogin m) : m.getLast? = some (.scalar '@') := by
  obtain ⟨hscheme, huser, hpassword⟩ := h
  rw [login, ← List.append_assoc, ← List.cons_append, ← List.append_assoc, List.getLast?_concat]

theorem wordAfter (h : IsLogin m) (w : Bool) : Redaction.wordAfter w m = false := by
  obtain ⟨hscheme, huser, hpassword⟩ := h
  have hat : (CodePoint.scalar '@').isWord = false := by decide
  simp [login, hat]

/-- A run of code points that comes up to an address ends inside of it, or goes on behind it. -/
theorem span (h : IsLogin m) {p : CodePoint → Bool} (hp : p (.scalar 'h') = true) {more rest : Text}
    (hmore : ∀ c ∈ more, p c = true) (hrest : ∀ c, rest.head? = some c → p c = false) :
    ∃ x r, m ++ (more ++ rest) = x ++ r ∧ (∀ c ∈ x, p c = true) ∧ (∀ c, r.head? = some c → p c = false) ∧
      x ≠ [] ∧ (x.length < m.length ∨ x = m ++ more) := by
  obtain ⟨s, hs⟩ := h.exists_ht
  obtain ⟨x, r, rfl, hx, hr, -⟩ := Text.exists_span p m
  cases r with
  | nil =>
      rw [List.append_nil] at hs ⊢
      refine ⟨x ++ more, rest, by simp, List.forall_mem_append.mpr ⟨hx, hmore⟩, hrest, ?_, .inr rfl⟩
      rw [hs]
      exact List.cons_ne_nil _ _
  | cons d r =>
      refine ⟨x, d :: r ++ (more ++ rest), List.append_assoc _ _ _, hx, hr, ?_, .inl (by simp)⟩
      rintro rfl
      obtain ⟨rfl, -⟩ := List.cons.inj hs
      rw [hr _ rfl] at hp
      cases hp

end IsLogin

/-- A name that begins in front of an address ends there. -/
theorem name_within {names : List Text} (hname : name.map CodePoint.fold ∈ names)
    (hnames : ∀ s ∈ names, ∀ k < s.length, 0 < k → ¬(s.drop k <+: lit "ht" ∨ lit "ht" <+: s.drop k)) (hy : y ≠ [])
    (hm : IsLogin m) (heq : y ++ (m ++ a) = name ++ r) : ∃ y', y = name ++ y' ∧ r = y' ++ (m ++ a) := by
  obtain ⟨z, rfl⟩ := hm.exists_ht
  obtain ⟨x, rfl, hr⟩ | ⟨x, rfl, hr⟩ := List.append_eq_append_iff.mp heq
  · cases x with
    | nil => exact ⟨[], by simp, hr.symm⟩
    | cons d x =>
        exfalso
        have hdrop : ((y ++ d :: x).map CodePoint.fold).drop y.length = (d :: x).map CodePoint.fold := by
          rw [List.map_append, ← List.length_map (f := CodePoint.fold), List.drop_left]
        refine hnames _ hname y.length ?_ (List.length_pos_iff.mpr hy) ?_
        · rw [List.length_map, List.length_append, List.length_cons]
          omega
        · have hmap := congrArg (List.map CodePoint.fold) hr
          rw [List.map_append, List.map_append] at hmap
          rw [hdrop]
          exact List.prefix_or_prefix_of_prefix ⟨_, hmap.symm⟩ ⟨_, rfl⟩
  · exact ⟨x, rfl, hr⟩

/-- What a rule says where `y` begins, in front of an address: either it looks at `y` only, or its match takes
in a part of the address, or all of it with what is written and what is behind being the same for all addresses. -/
def Reaches (rule : Rule) (w : Bool) (y a : Text) : Prop :=
  (∃ o : Option (Text × Nat), (∀ v n, o = some (v, n) → n ≤ y.length) ∧
    ∀ m, IsLogin m → rule w (y ++ (m ++ a)) = o) ∨
  ∃ v k, ∀ m, IsLogin m → (∃ v' n, rule w (y ++ (m ++ a)) = some (v', n) ∧ y.length < n ∧ n < y.length + m.length) ∨
    rule w (y ++ (m ++ a)) = some (v, y.length + m.length + k)

theorem Reaches.alike {rule : Rule} (h : Reaches rule w y a) (h₁ : IsLogin m₁) (h₂ : IsLogin m₂) :
    AlikeMatch y m₁ m₂ (rule w (y ++ (m₁ ++ a))) (rule w (y ++ (m₂ ++ a))) := by
  obtain ⟨o, hwithin, ho⟩ | ⟨v, k, hacross⟩ := h
  · rw [ho m₁ h₁, ho m₂ h₂]
    match o with
    | none => exact .none
    | some (v, n) => exact .some (.inl ⟨rfl, hwithin v n rfl⟩)
  · obtain ⟨v₁, n₁, heq, hlow, hhigh⟩ | heq₁ := hacross m₁ h₁
    · rw [heq]
      exact .cutLeft hlow hhigh
    · obtain ⟨v₂, n₂, heq, hlow, hhigh⟩ | heq₂ := hacross m₂ h₂
      · rw [heq]
        exact .cutRight hlow hhigh
      · rw [heq₁, heq₂]
        exact .some (.inr ⟨k, rfl, rfl⟩)

theorem reaches_queryToken (hy : y ≠ []) (w : Bool) (a : Text) : Reaches queryToken w y a := by
  by_cases hname : w = false ∧ ∃ name y', y = name ++ y' ∧ name.map CodePoint.fold = lit "token_auth="
  · obtain ⟨rfl, name, y', rfl, hname⟩ := hname
    obtain ⟨value, rest, rfl, hvalue, hrest, -⟩ := Text.exists_span isTokenChar y'
    cases rest with
    | cons d rest =>
        refine .inl ⟨if value.isEmpty then none else some (name ++ hidden, (name ++ value).length), ?_, fun m hm => ?_⟩
        · intro v n h
          split at h
          · cases h
          · cases h
            rw [← List.append_assoc]
            exact (List.prefix_append _ _).length_le
        · rw [List.append_assoc, List.append_assoc]
          exact queryToken_append hname hvalue (by rintro c ⟨⟩; exact hrest d rfl)
    | nil =>
        obtain ⟨more, rest, rfl, hmore, hrest, -⟩ := Text.exists_span isTokenChar a
        refine .inr ⟨name ++ hidden, more.length, fun m hm => ?_⟩
        obtain ⟨x, r, heq, hx, hr, hne, hend⟩ := hm.span (p := isTokenChar) rfl hmore hrest
        have hrule : queryToken false (name ++ (value ++ []) ++ (m ++ (more ++ rest))) =
            some (name ++ hidden, (name ++ (value ++ x)).length) := by
          rw [heq, List.append_nil, List.append_assoc, ← List.append_assoc value,
            queryToken_append hname (List.forall_mem_append.mpr ⟨hvalue, hx⟩) hr, if_neg]
          simp [hne]
        have hpos := List.length_pos_iff.mpr hne
        simp only [List.length_append, List.length_nil] at hrule ⊢
        obtain hshort | rfl := hend
        · exact .inl ⟨_, _, hrule, by omega, by omega⟩
        · rw [hrule, List.length_append]
          exact .inr (by congr 2; omega)
  · refine .inl ⟨none, nofun, fun m hm => ?_⟩
    by_contra hsome
    obtain ⟨⟨v, n⟩, hrule⟩ := Option.ne_none_iff_exists'.mp hsome
    obtain ⟨rfl, name, value, rest, heq, htoken, -, -⟩ := queryToken_eq_some_iff.mp hrule
    obtain ⟨y', rfl, -⟩ := name_within (List.mem_singleton.mpr htoken.name) (by decide) hy hm heq
    exact hname ⟨rfl, name, y', rfl, htoken.name⟩

/-- Credentials of a header that come up to an address end inside of it, at the latest at the colon. -/
theorem authorization_into_login {blanks : Text} (hname : name.map CodePoint.fold ∈ [lit "basic", lit "bearer"])
    (hblanks : ∀ c ∈ blanks, c.isBlank = true) (hstop : ∀ c, value.head? = some c → c.isBlank = false)
    (hvalue : ∀ c ∈ value, isCredential c = true) (hm : IsLogin m) (a : Text) :
    ∃ x, x ≠ [] ∧ x.length < m.length ∧ authorization false (name ++ (blanks ++ value) ++ (m ++ a)) =
      if blanks.isEmpty then none
      else some (name ++ .scalar ' ' :: hidden, (name ++ (blanks ++ (value ++ x))).length) := by
  obtain ⟨more, rest, rfl, hmore, hrest, -⟩ := Text.exists_span isCredential a
  obtain ⟨x, r, heq, hx, hr, hne, hend⟩ := hm.span (p := isCredential) rfl hmore hrest
  have hshort : x.length < m.length := by
    refine hend.resolve_right ?_
    rintro rfl
    obtain ⟨scheme, s, -, rfl⟩ := hm.exists_scheme
    cases hx (.scalar ':') (by simp)
  have hstop' : ∀ c, (value ++ x ++ r).head? = some c → c.isBlank = false := by
    cases value with
    | nil =>
        rw [List.nil_append, ← heq]
        obtain ⟨s, rfl⟩ := hm.exists_ht
        rintro c ⟨⟩
        rfl
    | cons d value => exact hstop
  refine ⟨x, hne, hshort, ?_⟩
  rw [heq, List.append_assoc, List.append_assoc, ← List.append_assoc value,
    authorization_append hname hblanks hstop' (List.forall_mem_append.mpr ⟨hvalue, hx⟩) hr]
  simp [hne]

theorem reaches_authorization (hy : y ≠ []) (w : Bool) (a : Text) : Reaches authorization w y a := by
  by_cases hname : w = false ∧ ∃ name y', y = name ++ y' ∧ name.map CodePoint.fold ∈ [lit "basic", lit "bearer"]
  · obtain ⟨rfl, name, y', rfl, hname⟩ := hname
    obtain ⟨blanks, y', rfl, hblanks, hstop, -⟩ := Text.exists_span CodePoint.isBlank y'
    obtain ⟨value, rest, rfl, hvalue, hrest, -⟩ := Text.exists_span isCredential y'
    cases rest with
    | cons d rest =>
        refine .inl ⟨if blanks.isEmpty || value.isEmpty then none
          else some (name ++ .scalar ' ' :: hidden, (name ++ (blanks ++ value)).length), ?_, fun m hm => ?_⟩
        · intro v n h
          split at h
          · cases h
          · cases h
            simp
        · simp only [List.append_assoc, List.cons_append]
          refine authorization_append hname hblanks ?_ hvalue (by rintro c ⟨⟩; exact hrest d rfl)
          cases value with
          | nil => exact hstop
          | cons c value => exact hstop
    | nil =>
        rw [List.append_nil] at hstop ⊢
        cases blanks with
        | nil =>
            refine .inl ⟨none, nofun, fun m hm => ?_⟩
            obtain ⟨x, -, -, hx⟩ := authorization_into_login hname hblanks hstop hvalue hm a
            exact hx
        | cons d blanks =>
            refine .inr ⟨[], 0, fun m hm => .inl ?_⟩
            obtain ⟨x, hne, hshort, hx⟩ := authorization_into_login hname hblanks hstop hvalue hm a
            have hpos := List.length_pos_iff.mpr hne
            exact ⟨_, _, hx, by simp; omega, by simp; omega⟩
  · refine .inl ⟨none, nofun, fun m hm => ?_⟩
    by_contra hsome
    obtain ⟨⟨v, n⟩, hrule⟩ := Option.ne_none_iff_exists'.mp hsome
    obtain ⟨rfl, name, blanks, value, rest, heq, hparts, -, -⟩ := authorization_eq_some_iff.mp hrule
    obtain ⟨y', rfl, -⟩ := name_within hparts.scheme (by decide) hy hm heq
    exact hname ⟨rfl, name, y', rfl, hparts.scheme⟩

theorem address_login (hy : y ≠ []) (h₁ : IsLogin m₁) (h : address w (y ++ (m₁ ++ a)) = some (v, n))
    (m₂ : Text) : address w (y ++ (m₂ ++ a)) = some (v, n) ∧ n ≤ y.length := by
  obtain ⟨rfl, name, user, rest, heq, hs, huser, rfl, rfl⟩ := address_eq_some_iff.mp h
  obtain ⟨y', rfl, hr⟩ := name_within hs (by decide) hy h₁ heq
  obtain ⟨scheme, r, hscheme, rfl⟩ := h₁.exists_scheme
  have hslash : CodePoint.scalar '/' ∉ user := by
    intro hmem
    cases huser.plain _ hmem
  have hmarks : ∀ s ∈ [lit "https", lit "http"], CodePoint.scalar '@' ∉ s ++ [.scalar ':'] := by decide
  have hat := hmarks _ hscheme
  -- the `@` comes before the slash of the address, so it stands in front of the address
  obtain ⟨x, rfl⟩ : ∃ x, y' = user ++ .scalar '@' :: x := by
    have hr' : user ++ .scalar '@' :: rest = y' ++ (scheme ++ [.scalar ':']) ++ .scalar '/' :: (r ++ a) := by
      simpa using hr
    obtain ⟨x, hx, hx'⟩ | ⟨x, rfl, hx⟩ := List.append_eq_append_iff.mp hr'
    · cases x with
      | nil => cases hx'
      | cons d x =>
          obtain ⟨rfl, -⟩ := List.cons.inj hx'
          obtain ⟨z, -, hz⟩ | ⟨z, rfl, hz⟩ := List.append_eq_append_iff.mp hx
          · exact absurd (hz ▸ List.mem_append_right z List.mem_cons_self) hat
          · cases z with
            | nil => exact absurd (hz ▸ List.mem_cons_self) hat
            | cons e z =>
                obtain ⟨rfl, -⟩ := List.cons.inj hz
                exact ⟨z, rfl⟩
    · cases x with
      | nil => cases hx
      | cons d x =>
          obtain ⟨rfl, -⟩ := List.cons.inj hx
          exact absurd (List.mem_append_right _ List.mem_cons_self) hslash
  constructor
  · exact address_eq_some_iff.mpr ⟨rfl, name, user, x ++ (m₂ ++ a), by simp, hs, huser, rfl, rfl⟩
  · simp only [List.length_append, List.length_cons]
    omega

/-- A text without the quote and without line breaks is passed by, unless it ends in a backslash. -/
theorem closing?_append (hx : ∀ c ∈ x, c ≠ q ∧ c ≠ .scalar '\n') (hlast : x.getLast? ≠ some (.scalar '\\'))
    (r : Text) : closing? q (x ++ r) = (closing? q r).map (· + x.length) := by
  induction hn : x.length using Nat.strong_induction_on generalizing x with
  | _ n ih =>
      subst hn
      match x with
      | [] => simp
      | [c] =>
          obtain ⟨hc, -⟩ := hx c (by simp)
          have hslash : c ≠ .scalar '\\' := by
            rintro rfl
            exact hlast rfl
          cases r with
          | nil => simp [closing?, hc]
          | cons d r => simp [closing?, hc, hslash]
      | c :: d :: x =>
          obtain ⟨⟨hc, -⟩, htail⟩ := List.forall_mem_cons.mp hx
          obtain ⟨⟨-, hd⟩, hmore⟩ := List.forall_mem_cons.mp htail
          by_cases hslash : c = .scalar '\\'
          · subst hslash
            have hrest := ih x.length (Nat.lt_add_of_pos_right Nat.two_pos) hmore
              (fun h => hlast (by simp [List.getLast?_cons, h])) rfl
            rw [List.cons_append, List.cons_append, closing?, if_neg hc, if_pos rfl, if_neg hd, hrest]
            simp [Option.map_map, Function.comp_def, Nat.add_assoc]
          · have hrest := ih (d :: x).length (by simp) htail (fun h => hlast (by simpa using h)) rfl
            rw [List.cons_append] at hrest
            rw [List.cons_append, List.cons_append, closing?, if_neg hc, if_neg hslash, hrest]
            simp [Option.map_map, Function.comp_def, Nat.add_assoc]

def ClosesApart (q : CodePoint) (y a : Text) : Prop :=
  (∃ o : Option Nat, (∀ k, o = some k → k ≤ y.length) ∧ ∀ m, IsLogin m → closing? q (y ++ (m ++ a)) = o) ∨
    ∀ m, IsLogin m → closing? q (y ++ (m ++ a)) = (closing? q a).map (· + (y.length + m.length))

theorem ClosesApart.shift {y' : Text} (h : ClosesApart q y a) (hlength : y'.length = y.length + k)
    (hstep : ∀ m, IsLogin m → closing? q (y' ++ (m ++ a)) = (closing? q (y ++ (m ++ a))).map (· + k)) :
    ClosesApart q y' a := by
  obtain ⟨o, hwithin, ho⟩ | hacross := h
  · refine .inl ⟨o.map (· + k), fun i hi => ?_, fun m hm => by rw [hstep m hm, ho m hm]⟩
    obtain ⟨j, hj, rfl⟩ := Option.map_eq_some_iff.mp hi
    have hle := hwithin j hj
    omega
  · refine .inr fun m hm => ?_
    rw [hstep m hm, hacross m hm, Option.map_map, hlength]
    congr 1
    funext j
    rw [Function.comp_apply]
    omega

theorem closesApart (hq : isQuote q = true) (y a : Text) : ClosesApart q y a := by
  have hclean : ∀ m, IsLogin m → ∀ c ∈ m, c ≠ q ∧ c ≠ .scalar '\n' := by
    refine fun m hm c hc => ⟨?_, ?_⟩
    · rintro rfl
      rw [(hm.clean _ hc).2] at hq
      cases hq
    · rintro rfl
      cases (hm.clean _ hc).1
  have hpassed : ∀ m, IsLogin m → closing? q (m ++ a) = (closing? q a).map (· + m.length) := fun m hm =>
    closing?_append (hclean m hm) (by rw [hm.getLast?]; nofun) a
  have hfound : ∀ y, ClosesApart q (q :: y) a := by
    refine fun y => .inl ⟨some 1, by rintro k ⟨⟩; simp, fun m hm => ?_⟩
    cases hrest : y ++ (m ++ a) with
    | nil => simp [hrest, closing?]
    | cons d rest => simp [hrest, closing?]
  have hnil : ClosesApart q [] a := .inr fun m hm => by simpa using hpassed m hm
  induction hn : y.length using Nat.strong_induction_on generalizing y with
  | _ n ih =>
      subst hn
      match y with
      | [] => exact hnil
      | [c] =>
          by_cases hc : c = q
          · exact hc ▸ hfound []
          · by_cases hback : c = .scalar '\\'
            · -- the backslash takes the first code point of the address along
              subst hback
              refine .inr fun m hm => ?_
              obtain ⟨s, rfl⟩ := hm.exists_ht
              have hlast := hm.getLast?
              have hrest := closing?_append (x := .scalar 't' :: s) (fun d hd => hclean _ hm d (by simp [hd]))
                (by rw [← List.getLast?_cons_cons, hlast]; nofun) a
              have hstep : closing? q (.scalar '\\' :: (.scalar 'h' :: (.scalar 't' :: s ++ a))) =
                  (closing? q (.scalar 't' :: s ++ a)).map (· + 2) := by
                simp [closing?, hc]
              rw [List.singleton_append, List.cons_append, hstep, hrest, Option.map_map]
              congr 1
              funext j
              simp only [Function.comp_apply, List.length_cons, List.length_nil]
              omega
            · refine hnil.shift (k := 1) rfl fun m hm => ?_
              obtain ⟨s, rfl⟩ := hm.exists_ht
              simp [closing?, hc, hback]
      | c :: d :: y =>
          by_cases hc : c = q
          · exact hc ▸ hfound (d :: y)
          · by_cases hback : c = .scalar '\\'
            · by_cases hd : d = .scalar '\n'
              · exact .inl ⟨none, nofun, fun m hm => by simp [closing?, hback ▸ hc, hback, hd]⟩
              · refine (ih y.length (Nat.lt_add_of_pos_right Nat.two_pos) y rfl).shift (k := 2) rfl fun m hm => ?_
                simp [closing?, hback ▸ hc, hback, hd]
            · refine (ih (d :: y).length (by simp) (d :: y) rfl).shift (k := 1) rfl fun m hm => ?_
              simp [closing?, hc, hback]

theorem hiddenValue_congr (hhead : value.head? = name.head?) (hlast : value.getLast? = name.getLast?)
    (hvalue : 2 ≤ value.length) (hname : 2 ≤ name.length) : hiddenValue value = hiddenValue name := by
  simp only [hiddenValue, hhead, hlast, hvalue, hname]

def ReachesLength (length? : Text → Option Nat) (y a : Text) : Prop :=
  (∃ o : Option Nat, (∀ k, o = some k → k ≤ y.length) ∧ ∀ m, IsLogin m → length? (y ++ (m ++ a)) = o) ∨
  ∃ v k, ∀ m, IsLogin m →
    (∃ n, length? (y ++ (m ++ a)) = some n ∧ y.length < n ∧ n < y.length + m.length) ∨
    (length? (y ++ (m ++ a)) = some (y.length + m.length + k) ∧
      hiddenValue ((y ++ (m ++ a)).take (y.length + m.length + k)) = v)

theorem ReachesLength.congr {f g : Text → Option Nat} (h : ReachesLength f y a)
    (heq : ∀ m, IsLogin m → g (y ++ (m ++ a)) = f (y ++ (m ++ a))) : ReachesLength g y a := by
  obtain ⟨o, hwithin, ho⟩ | ⟨v, k, hacross⟩ := h
  · exact .inl ⟨o, hwithin, fun m hm => (heq m hm).trans (ho m hm)⟩
  · refine .inr ⟨v, k, fun m hm => ?_⟩
    rw [heq m hm]
    exact hacross m hm

theorem reachesLength_bareValue (y a : Text) : ReachesLength bareValue? y a := by
  obtain ⟨value, rest, rfl, hvalue, hrest, -⟩ := Text.exists_span isBareChar y
  cases rest with
  | cons d rest =>
      refine .inl ⟨if value.length = 0 then none else some value.length, ?_, fun m hm => ?_⟩
      · intro k h
        split at h
        · cases h
        · cases h
          exact (List.prefix_append _ _).length_le
      · rw [List.append_assoc]
        exact bareValue?_append hvalue (by rintro c ⟨⟩; exact hrest d rfl)
  | nil =>
      obtain ⟨more, rest, rfl, hmore, hrest, -⟩ := Text.exists_span isBareChar a
      rw [List.append_nil]
      refine .inr ⟨hiddenValue (value ++ (lit "ht@" ++ more)), more.length, fun m hm => ?_⟩
      obtain ⟨x, r, heq, hx, hr, hne, hend⟩ := hm.span (p := isBareChar) rfl hmore hrest
      have hpos := List.length_pos_iff.mpr hne
      have hlength : bareValue? (value ++ (m ++ (more ++ rest))) = some (value ++ x).length := by
        rw [heq, ← List.append_assoc, bareValue?_append (List.forall_mem_append.mpr ⟨hvalue, hx⟩) hr, if_neg]
        rw [List.length_append]
        omega
      obtain hshort | rfl := hend
      · exact .inl ⟨_, hlength, by rw [List.length_append]; omega, by rw [List.length_append]; omega⟩
      · refine .inr ⟨by rw [hlength]; simp [Nat.add_assoc], ?_⟩
        have htake : (value ++ (m ++ (more ++ rest))).take (value.length + m.length + more.length) =
            value ++ (m ++ more) := by
          rw [← List.append_assoc m, ← List.append_assoc]
          exact List.take_left' (by simp [Nat.add_assoc])
        obtain ⟨s, hs⟩ := hm.exists_ht
        have hm2 : 2 ≤ m.length := by simp [hs]
        have hht : (lit "ht@").length = 3 := rfl
        rw [htake]
        refine hiddenValue_congr ?_ ?_ (by simp; omega) (by simp; omega)
        · cases value with
          | nil =>
              rw [hs]
              rfl
          | cons c value => rfl
        · simp only [List.getLast?_append, hm.getLast?]
          rfl

theorem reachesLength_valueLength (y a : Text) : ReachesLength valueLength? y a := by
  have hbare := reachesLength_bareValue y a
  match y with
  | [] =>
      refine hbare.congr fun m hm => valueLength?_of_not_isQuote ?_
      obtain ⟨s, rfl⟩ := hm.exists_ht
      rintro c ⟨⟩
      rfl
  | q :: y =>
      cases hq : isQuote q with
      | false =>
          refine hbare.congr fun m hm => valueLength?_of_not_isQuote ?_
          rintro c ⟨⟩
          exact hq
      | true =>
          have hvalue := fun m : Text => valueLength?_of_isQuote hq (y ++ (m ++ a))
          obtain ⟨o, hwithin, ho⟩ | hacross := closesApart hq y a
          · cases o with
            | none => exact hbare.congr fun m hm => by simp [hvalue, ho m hm]
            | some k =>
                refine .inl ⟨some (k + 1), ?_, fun m hm => by simp [hvalue, ho m hm]⟩
                rintro j ⟨⟩
                exact Nat.succ_le_succ (hwithin k rfl)
          · cases hclosing : closing? q a with
            | none => exact hbare.congr fun m hm => by simp [hvalue, hacross m hm, hclosing]
            | some k =>
                obtain ⟨x, r, rfl, rfl⟩ := closing?_eq_some hclosing
                refine .inr ⟨q :: (hidden ++ [q]), x.length + 1, fun m hm => .inr ⟨?_, ?_⟩⟩
                · rw [List.cons_append, hvalue, hacross m hm, hclosing]
                  simp
                  omega
                · have hparts : q :: y ++ (m ++ (x ++ q :: r)) = q :: ((y ++ (m ++ x)) ++ [q]) ++ r := by simp
                  rw [hparts, List.take_left' (by simp; omega), hiddenValue_quoted hq]

theorem label_within (hx : IsLabel x) (hm : IsLogin m) (hy : y ≠ []) (heq : y ++ (m ++ a) = x ++ z) :
    ∃ y', y = x ++ y' ∧ z = y' ++ (m ++ a) := by
  obtain ⟨x', rfl, hx'⟩ | ⟨y', rfl, hz⟩ := List.append_eq_append_iff.mp heq
  · cases x' with
    | nil => exact ⟨[], by simp, hx'.symm⟩
    | cons d x' =>
        exfalso
        obtain ⟨s, hs⟩ := hm.exists_ht
        obtain rfl : d = .scalar 'h' := by
          rw [hs] at hx'
          exact (List.cons.inj hx').1.symm
        cases y with
        | nil => exact hy rfl
        | cons q y =>
            generalize hlabel : q :: y ++ .scalar 'h' :: x' = label at hx
            obtain @⟨q₁, q₂, name, before, after, ⟨-, hq⟩, hletters, -, hbefore, hafter⟩ := hx
            obtain ⟨e, rfl, he⟩ | ⟨e, -, he⟩ := List.append_eq_append_iff.mp (List.cons.inj hlabel).2
            · -- the address would begin in a name, and the name would end at a colon
              have hstop : stop? (m ++ a) = some q₂ := by
                rw [hx', he, List.append_assoc]
                exact stop?_of_letters (fun c hc => hletters c (List.mem_append_right y hc))
                  (isNameLetter_of_isQuote hq) _
              rw [hm.stop?] at hstop
              cases hstop
              cases hq
            · have hmem : CodePoint.scalar 'h' ∈ q₂ :: (before ++ .scalar ':' :: after) :=
                he ▸ List.mem_append_right e List.mem_cons_self
              rw [List.mem_cons, List.mem_append, List.mem_cons] at hmem
              obtain rfl | h | h | h := hmem
              · cases hq
              · cases hbefore _ h
              · cases h
              · cases hafter _ h
  · exact ⟨y', rfl, hz⟩

theorem reaches_namedValue (hy : y ≠ []) (w : Bool) (a : Text) : Reaches namedValue w y a := by
  by_cases hlabel : ∃ x y', y = x ++ y' ∧ IsLabel x ∧ ∀ c, y'.head? = some c → c.isBlank = false
  · obtain ⟨x, y', rfl, hx, hstop⟩ := hlabel
    have hrule : ∀ m, IsLogin m → namedValue w (x ++ y' ++ (m ++ a)) = (valueLength? (y' ++ (m ++ a))).map
        fun n => (x ++ hiddenValue ((y' ++ (m ++ a)).take n), x.length + n) := by
      intro m hm
      rw [List.append_assoc]
      refine namedValue_label hx ?_
      cases y' with
      | nil =>
          obtain ⟨s, rfl⟩ := hm.exists_ht
          rintro c ⟨⟩
          rfl
      | cons d y' => exact hstop
    obtain ⟨o, hwithin, ho⟩ | ⟨v, k, hacross⟩ := reachesLength_valueLength y' a
    · refine .inl ⟨o.map fun n => (x ++ hiddenValue (y'.take n), x.length + n), ?_, fun m hm => ?_⟩
      · intro v n h
        obtain ⟨k, hk, he⟩ := Option.map_eq_some_iff.mp h
        cases he
        rw [List.length_append]
        exact Nat.add_le_add_left (hwithin k hk) _
      · rw [hrule m hm, ho m hm]
        cases o with
        | none => rfl
        | some k => simp [List.take_append_of_le_length (hwithin k rfl)]
    · refine .inr ⟨x ++ v, k, fun m hm => ?_⟩
      rw [hrule m hm]
      obtain ⟨n, hn, hlow, hhigh⟩ | ⟨hn, hv⟩ := hacross m hm
      · rw [hn]
        exact .inl ⟨_, _, rfl, by rw [List.length_append]; omega, by rw [List.length_append]; omega⟩
      · rw [hn, Option.map_some, hv]
        exact .inr (by simp [Nat.add_assoc])
  · refine .inl ⟨none, nofun, fun m hm => ?_⟩
    by_contra hsome
    obtain ⟨⟨v, n⟩, hrule⟩ := Option.ne_none_iff_exists'.mp hsome
    obtain ⟨x, z, k, heq, hx, hz, -⟩ := namedValue_eq_some_iff.mp hrule
    obtain ⟨y', rfl, rfl⟩ := label_within hx hm hy heq
    refine hlabel ⟨x, y', rfl, hx, ?_⟩
    cases y' with
    | nil => nofun
    | cons d y' => exact hz

/-- A name of a token in a text with a mark in it stands in front of the mark or behind it. -/
theorem opensToken_beside (hd : d ∈ [CodePoint.scalar '/', .scalar ':', .scalar '@']) (heq : u ++ d :: r = x ++ y)
    (h : OpensToken y) : (∃ y', u = x ++ y' ∧ OpensToken y') ∨ ∃ x', x = u ++ d :: x' ∧ r = x' ++ y := by
  have hmarks : ∀ d ∈ [CodePoint.scalar '/', .scalar ':', .scalar '@'],
      d.foldsToLetter = false ∧ d ∉ lit "token_auth=" := by decide
  have hletter := hmarks d hd
  obtain ⟨e, rfl, he⟩ | ⟨e, rfl, rfl⟩ := List.append_eq_append_iff.mp heq
  · cases e with
    | nil =>
        obtain ⟨c, s, rfl, hc⟩ := h.head
        obtain ⟨rfl, -⟩ := List.cons.inj he
        rw [(isNameLetter_of_fold hc (by decide)).2] at hletter
        cases hletter.1
    | cons e e' =>
        obtain ⟨rfl, rfl⟩ := List.cons.inj he
        exact .inr ⟨e', rfl, rfl⟩
  · obtain ⟨name, z, hz, hname⟩ := h
    refine .inl ⟨e, rfl, ?_⟩
    obtain ⟨f, rfl, hf⟩ | ⟨f, rfl, -⟩ := List.append_eq_append_iff.mp hz
    · cases f with
      | nil => exact ⟨e, [], (List.append_nil e).symm, by simpa using hname⟩
      | cons f f' =>
          obtain ⟨rfl, -⟩ := List.cons.inj hf
          exact absurd (mem_of_map_fold hname (by simp) hletter.1) hletter.2
    · exact ⟨name, f, rfl, hname⟩

/-- Two addresses come out alike, whatever stands around them, unless a match ends in one of them. -/
structure Rule.SparesLogins (rule : Rule) : Prop where
  reaches : ∀ {y} w a, y ≠ [] → Reaches rule w y a
  inside : ∀ {m x₁ x₂} w a, IsLogin m → m = x₁ ++ x₂ → x₂ ≠ [] → rule (wordAfter w x₁) (x₂ ++ a) = none

theorem IsLogin.queryToken_eq_none {x₁ x₂ : Text} (h : IsLogin m) (heq : m = x₁ ++ x₂) (hne : x₂ ≠ [])
    (w : Bool) (a : Text) : queryToken (Redaction.wordAfter w x₁) (x₂ ++ a) = none := by
  by_contra hsome
  have hopens := queryToken_tame.opens_of_ne_none hsome
  have hword : Redaction.wordAfter w x₁ = false := by
    obtain ⟨e, he⟩ := Option.ne_none_iff_exists'.mp hsome
    exact (queryToken_eq_some_iff.mp he).1
  obtain @⟨scheme, user, password, hscheme, huser, hpassword⟩ := h
  obtain ⟨s, rfl, hs⟩ : ∃ s, scheme = s ++ [.scalar '/'] ∧ ∀ c ∈ s, c ≠ .scalar '=' := by
    rw [List.mem_cons, List.mem_singleton] at hscheme
    obtain rfl | rfl := hscheme
    · exact ⟨lit "https:/", rfl, by decide⟩
    · exact ⟨lit "http:/", rfl, by decide⟩
  have hparts : (s ++ .scalar '/' :: (user ++ .scalar ':' :: password)) ++ .scalar '@' :: a = x₁ ++ (x₂ ++ a) := by
    rw [← List.append_assoc, ← heq]
    simp [login]
  obtain ⟨y, hy, hopens⟩ | ⟨x', rfl, hx'⟩ := opensToken_beside (by simp) hparts hopens
  · obtain ⟨y', rfl, hopens⟩ | ⟨x', rfl, hx'⟩ := opensToken_beside (by simp) hy hopens
    · exact hs _ (List.mem_append_right _ (stop?_mem hopens.stop?)) rfl
    · have hslash : (CodePoint.scalar '/').isWord = false := by decide
      rw [wordAfter_append, wordAfter_cons, hslash] at hword
      obtain ⟨y', rfl, hopens⟩ | ⟨x'', rfl, rfl⟩ := opensToken_beside (by simp) hx' hopens
      · exact huser.names ⟨x', y', rfl, hword, hopens⟩
      · have hcolon : (CodePoint.scalar ':').isWord = false := by decide
        rw [wordAfter_append, wordAfter_cons, hcolon] at hword
        exact hpassword.names ⟨x'', y, rfl, hword, hopens⟩
  · have hlength := congrArg List.length heq
    have hpos := List.length_pos_iff.mpr hne
    simp only [login, List.length_append, List.length_cons, List.length_nil] at hlength
    omega

theorem queryToken_sparesLogins : Rule.SparesLogins queryToken where
  reaches w a hy := reaches_queryToken hy w a
  inside w a hm heq hne := hm.queryToken_eq_none heq hne w a

theorem namedValue_sparesLogins : Rule.SparesLogins namedValue where
  reaches w a hy := reaches_namedValue hy w a
  inside {m x₁ x₂} w a hm heq hne := by
    cases x₂ with
    | nil => exact absurd rfl hne
    | cons c x₂ => exact namedValue_eq_none_of_quoteless (hm.clean c (by simp [heq])).2

theorem authorization_sparesLogins : Rule.SparesLogins authorization where
  reaches w a hy := reaches_authorization hy w a
  inside {m x₁ x₂} w a hm heq hne := by
    by_contra hsome
    obtain ⟨e, he, hblank⟩ := (authorization_tame.opens_of_ne_none hsome).stop?
    obtain ⟨e', he'⟩ := exists_stop? (mem_of_getLast?_append (heq ▸ hm.getLast?) hne) rfl
    rw [stop?_append he'] at he
    cases he
    have hclean := (hm.clean e (by rw [heq]; exact List.mem_append_right _ (stop?_mem he'))).1
    rw [hblank] at hclean
    cases hclean

theorem Rule.SparesLogins.applyFrom_login {rule : Rule} (hrule : rule.SparesLogins) (hm : IsLogin m) (w : Bool)
    (a : Text) : applyFrom rule w 0 (m ++ a) = m ++ applyFrom rule false 0 a := by
  have hnone := applyFrom_of_none fun x₁ x₂ heq hne => hrule.inside w a hm heq hne
  rwa [hm.wordAfter] at hnone

/-- No match of one of the rules that begins in front of the text `m` ends inside of it. Unless one of them takes
it in as a whole, there is no word character in front of it in the end. -/
def Spared : List Rule → Text → Text → Text → Prop
  | [], before, _, _ => wordAfter false before = false
  | rule :: rules, before, m, after =>
    m.length ≤ overrun rule false 0 before (m ++ after) ∨
    (overrun rule false 0 before (m ++ after) = 0 ∧
      Spared rules (front rule false 0 before (m ++ after)) m (apply rule after))

theorem Spared.noneOrAll {rules : List Rule} (h : Spared (rule :: rules) b m a) :
    NoneOrAll m (overrun rule false 0 b (m ++ a)) := by
  obtain h | ⟨h, -⟩ := h
  · exact .inr h
  · exact .inl h

theorem apply_login {rule : Rule} {rules : List Rule} (hrule : rule.SparesLogins) (h₁ : IsLogin m₁)
    (h₂ : IsLogin m₂) (hs₁ : Spared (rule :: rules) b m₁ a) (hs₂ : Spared (rule :: rules) b m₂ a) :
    apply rule (b ++ (m₁ ++ a)) = apply rule (b ++ (m₂ ++ a)) ∨
      ∃ b' a', apply rule (b ++ (m₁ ++ a)) = b' ++ (m₁ ++ a') ∧ apply rule (b ++ (m₂ ++ a)) = b' ++ (m₂ ++ a') ∧
        Spared rules b' m₁ a' ∧ Spared rules b' m₂ a' := by
  obtain heq | ⟨hover₁, hover₂, hfront⟩ := applyFrom_of_alike (fun y hy w => (hrule.reaches w a hy).alike h₁ h₂)
    (fun w => by rw [h₁.wordAfter, h₂.wordAfter]) hs₁.noneOrAll hs₂.noneOrAll
  · exact .inl heq
  · have hne : ∀ m, IsLogin m → ¬m.length ≤ 0 := by
      intro m hm
      obtain ⟨s, rfl⟩ := hm.exists_ht
      simp
    obtain hall | ⟨-, hs₁⟩ := hs₁
    · exact absurd (hover₁ ▸ hall) (hne m₁ h₁)
    obtain hall | ⟨-, hs₂⟩ := hs₂
    · exact absurd (hover₂ ▸ hall) (hne m₂ h₂)
    refine .inr ⟨front rule false 0 b (m₁ ++ a), apply rule a, ?_, ?_, hs₁, hfront ▸ hs₂⟩
    · rw [apply, applyFrom_append, hover₁, hrule.applyFrom_login h₁]
      rfl
    · rw [apply, applyFrom_append, hover₂, hrule.applyFrom_login h₂, hfront]
      rfl

theorem IsPart.plain {part : Text} (h : IsPart part) : ∀ c ∈ part, isPlain c = true ∧ c ≠ .scalar ':' := by
  intro c hc
  have hchar := h.chars c hc
  simp only [isPartChar, Bool.and_eq_true, bne_iff_ne] at hchar
  exact hchar.1

theorem address_eq_some_of_login {scheme user password : Text} (hscheme : scheme ∈ [lit "https://", lit "http://"])
    (huser : IsPart user) (hpassword : IsPart password) (a : Text) :
    address false (login scheme user password ++ a) =
      some (scheme ++ hidden ++ [.scalar '@'], (login scheme user password).length) := by
  have hfolded : ∀ s ∈ [lit "https://", lit "http://"], s.map CodePoint.fold = s := by decide
  have hfold := hfolded _ hscheme
  have hinfo : IsUserInfo (user ++ .scalar ':' :: password) := by
    refine ⟨?_, List.forall_mem_append.mpr ⟨fun c hc => (huser.plain c hc).1,
      List.forall_mem_cons.mpr ⟨by decide, fun c hc => (hpassword.plain c hc).1⟩⟩⟩
    cases user with
    | nil => exact absurd rfl huser.ne
    | cons c user => exact ⟨c, _, rfl, (huser.plain c List.mem_cons_self).2⟩
  refine address_eq_some_iff.mpr
    ⟨rfl, scheme, user ++ .scalar ':' :: password, a, ?_, hfold.symm ▸ hscheme, hinfo, rfl, ?_⟩
  · simp [login]
  · simp [login]
    omega

theorem front_address_login (h₁ : IsLogin m₁) (h₂ : IsLogin m₂) (b a : Text) :
    front address false 0 b (m₁ ++ a) = front address false 0 b (m₂ ++ a) ∧
      overrun address false 0 b (m₁ ++ a) = 0 ∧ overrun address false 0 b (m₂ ++ a) = 0 := by
  refine front_of_within (fun y hy w => ⟨Option.ext fun e => ⟨fun h => ?_, fun h => ?_⟩, fun v n h => ?_⟩) false b
    (Nat.zero_le _)
  · exact (address_login hy h₁ h m₂).1
  · exact (address_login hy h₂ h m₁).1
  · exact (address_login hy h₂ h []).2

theorem apply_address_login {scheme user password : Text} (hscheme : scheme ∈ [lit "https://", lit "http://"])
    (huser : IsPart user) (hpassword : IsPart password) (hword : wordAfter false b = false) (a : Text) :
    apply address (b ++ (login scheme user password ++ a)) =
      front address false 0 b (login scheme user password ++ a) ++
        (scheme ++ hidden ++ [.scalar '@'] ++ applyFrom address false 0 a) := by
  have hlogin := IsLogin.mk hscheme huser hpassword
  obtain ⟨-, hover, -⟩ := front_address_login hlogin hlogin b a
  have hne : login scheme user password ≠ [] := by
    obtain ⟨s, hs⟩ := hlogin.exists_ht
    rw [hs]
    exact List.cons_ne_nil _ _
  rw [apply, applyFrom_append, hover, hword,
    applyFrom_replace hne (address_eq_some_of_login hscheme huser hpassword a), hlogin.wordAfter]

theorem not_namesToken {part : Text} (h : ∀ c ∈ part, c ≠ .scalar '=') : ¬NamesToken part := by
  rintro ⟨x, y, rfl, -, hopens⟩
  exact h _ (List.mem_append_right x (stop?_mem hopens.stop?)) rfl

instance decidableSpared : ∀ rules before m after, Decidable (Spared rules before m after)
  | [], before, _, _ => inferInstanceAs (Decidable (wordAfter false before = false))
  | rule :: rules, before, m, after =>
    have := decidableSpared rules (front rule false 0 before (m ++ after)) m (apply rule after)
    inferInstanceAs (Decidable (_ ∨ _ ∧ _))

/-- The credentials in an address are hidden, and what is written does not depend on them. -/
theorem login_hidden {scheme before after user₁ password₁ user₂ password₂ : Text}
    (hscheme : scheme ∈ [lit "https://", lit "http://"]) (h₁ : IsPart user₁ ∧ IsPart password₁)
    (h₂ : IsPart user₂ ∧ IsPart password₂)
    (hs₁ : Spared [queryToken, namedValue, authorization] before (login scheme user₁ password₁) after)
    (hs₂ : Spared [queryToken, namedValue, authorization] before (login scheme user₂ password₂) after) :
    redact (before ++ login scheme user₁ password₁ ++ after) =
      redact (before ++ login scheme user₂ password₂ ++ after) := by
  have hlogin₁ := IsLogin.mk hscheme h₁.1 h₁.2
  have hlogin₂ := IsLogin.mk hscheme h₂.1 h₂.2
  have hrules : ∀ (rules : List Rule), (∀ rule ∈ rules, rule.SparesLogins) → ∀ b a,
      Spared rules b (login scheme user₁ password₁) a → Spared rules b (login scheme user₂ password₂) a →
      apply address (rules.foldl (fun t rule => apply rule t) (b ++ (login scheme user₁ password₁ ++ a))) =
        apply address (rules.foldl (fun t rule => apply rule t) (b ++ (login scheme user₂ password₂ ++ a))) := by
    intro rules
    induction rules with
    | nil =>
        intro _ b a hword _
        rw [List.foldl_nil, List.foldl_nil, apply_address_login hscheme h₁.1 h₁.2 hword,
          apply_address_login hscheme h₂.1 h₂.2 hword, (front_address_login hlogin₁ hlogin₂ b a).1]
    | cons rule rules ih =>
        intro hspares b a hs₁ hs₂
        obtain ⟨hrule, hspares⟩ := List.forall_mem_cons.mp hspares
        rw [List.foldl_cons, List.foldl_cons]
        obtain heq | ⟨b', a', heq₁, heq₂, hs₁, hs₂⟩ := apply_login hrule hlogin₁ hlogin₂ hs₁ hs₂
        · rw [heq]
        · rw [heq₁, heq₂]
          exact ih hspares b' a' hs₁ hs₂
  have hspares : ∀ rule ∈ [queryToken, namedValue, authorization], rule.SparesLogins := by
    simpa using ⟨queryToken_sparesLogins, namedValue_sparesLogins, authorization_sparesLogins⟩
  rw [List.append_assoc, List.append_assoc]
  exact hrules _ hspares before after hs₁ hs₂

/-- The credentials of an address are left if a word goes on into it, if a match of an earlier rule that begins
in front of it ends in it, or if the name of a token is part of them. -/
theorem login_leaks :
    (∀ part ∈ [lit "bob", lit "s3cret", lit "ann", lit "a&b", lit "a,b", lit "token_auth=x"],
      part ≠ [] ∧ ∀ c ∈ part, isPartChar c = true) ∧
    redact (lit "x" ++ login (lit "https://") (lit "bob") (lit "s3cret") ++ lit "host") ≠
      redact (lit "x" ++ login (lit "https://") (lit "ann") (lit "s3cret") ++ lit "host") ∧
    redact (lit "basic " ++ login (lit "https://") (lit "bob") (lit "s3cret") ++ lit "host") ≠
      redact (lit "basic " ++ login (lit "https://") (lit "ann") (lit "s3cret") ++ lit "host") ∧
    redact (lit "token_auth=" ++ login (lit "http://") (lit "a&b") (lit "s3cret") ++ lit "host") ≠
      redact (lit "token_auth=" ++ login (lit "http://") (lit "bob") (lit "s3cret") ++ lit "host") ∧
    redact (lit "\"token\": " ++ login (lit "http://") (lit "a,b") (lit "s3cret") ++ lit "host") ≠
      redact (lit "\"token\": " ++ login (lit "http://") (lit "bob") (lit "s3cret") ++ lit "host") ∧
    redact (login (lit "http://") (lit "bob") (lit "token_auth=x") ++ lit "host") ≠
      redact (login (lit "http://") (lit "ann") (lit "token_auth=x") ++ lit "host") := by
  decide +kernel

/-- Other secrets stand in front of the address and behind it. -/
theorem login_hidden_among_secrets :
    let before := lit "Authorization: Basic Zm9v, token_auth=t&url="
    let after := lit "host/?token_auth=u, \"password\": \"p\""
    (lit "https://" ∈ [lit "https://", lit "http://"] ∧ (IsPart (lit "bob") ∧ IsPart (lit "s3cret,&")) ∧
      (IsPart (lit "ann") ∧ IsPart (lit "bearer")) ∧
      Spared [queryToken, namedValue, authorization] before
        (login (lit "https://") (lit "bob") (lit "s3cret,&")) after ∧
      Spared [queryToken, namedValue, authorization] before
        (login (lit "https://") (lit "ann") (lit "bearer")) after) ∧
    redact (before ++ login (lit "https://") (lit "bob") (lit "s3cret,&") ++ after) =
      redact (before ++ login (lit "https://") (lit "ann") (lit "bearer") ++ after) := by
  intro before after
  have hpart : ∀ part ∈ [lit "bob", lit "s3cret,&", lit "ann", lit "bearer"], IsPart part := by
    intro part hmem
    have hall : ∀ part ∈ [lit "bob", lit "s3cret,&", lit "ann", lit "bearer"],
        part ≠ [] ∧ (∀ c ∈ part, isPartChar c = true) ∧ ∀ c ∈ part, c ≠ .scalar '=' := by decide +kernel
    obtain ⟨hne, hchars, hequals⟩ := hall part hmem
    exact ⟨hne, hchars, not_namesToken hequals⟩
  have hscheme : lit "https://" ∈ [lit "https://", lit "http://"] := by simp
  have h₁ : IsPart (lit "bob") ∧ IsPart (lit "s3cret,&") := ⟨hpart _ (by simp), hpart _ (by simp)⟩
  have h₂ : IsPart (lit "ann") ∧ IsPart (lit "bearer") := ⟨hpart _ (by simp), hpart _ (by simp)⟩
  have hs₁ : Spared [queryToken, namedValue, authorization] before
      (login (lit "https://") (lit "bob") (lit "s3cret,&")) after := by decide +kernel
  have hs₂ : Spared [queryToken, namedValue, authorization] before
      (login (lit "https://") (lit "ann") (lit "bearer")) after := by decide +kernel
  exact ⟨⟨hscheme, h₁, h₂, hs₁, hs₂⟩, login_hidden hscheme h₁ h₂ hs₁ hs₂⟩

end Login

end MetricBridge.Redaction
