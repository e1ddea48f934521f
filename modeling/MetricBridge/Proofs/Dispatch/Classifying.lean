import MetricBridge.Dispatch.Round
import MetricBridge.Proofs.Except
import Mathlib.Data.List.Forall2
import Mathlib.Data.List.Infix
import Mathlib.Data.List.TakeWhile

namespace MetricBridge

namespace CodePoint

/-- The same code point, or the same ASCII letter in upper and lower case. -/
inductive SameLetter : CodePoint → CodePoint → Prop
  | same (c : CodePoint) : SameLetter c c
  | recased {c d : Char} (hc : c.isAlpha = true) (hd : d.isAlpha = true) (h : c.toLower = d.toLower) :
      SameLetter (.scalar c) (.scalar d)

instance : DecidableRel SameLetter
  | .surrogate m, .surrogate n =>
      if h : m = n then .isTrue (h ▸ .same _) else .isFalse fun hs => by cases hs; exact h rfl
  | .surrogate _, .scalar _ | .scalar _, .surrogate _ => .isFalse nofun
  | .scalar c, .scalar d =>
      if h : c = d ∨ c.isAlpha = true ∧ d.isAlpha = true ∧ c.toLower = d.toLower then
        .isTrue (h.elim (fun h => h ▸ .same _) fun h => .recased h.1 h.2.1 h.2.2)
      else .isFalse fun hs => by
        cases hs with
        | same => exact h (.inl rfl)
        | recased hc hd heq => exact h (.inr ⟨hc, hd, heq⟩)

variable {c d : CodePoint}

theorem ne_of_isAlpha {e o : Char} (he : e.isAlpha = true) (ho : o.isAlpha = false) : e ≠ o := by
  rintro rfl
  cases he.symm.trans ho

theorem SameLetter.fold_eq (h : SameLetter c d) : c.fold = d.fold := by
  have hfold : ∀ {e : Char}, e.isAlpha = true → (CodePoint.scalar e).fold = .scalar e.toLower := by
    intro e he
    simp [fold, ne_of_isAlpha he (o := '\u0130') rfl, ne_of_isAlpha he (o := '\u0131') rfl,
      ne_of_isAlpha he (o := '\u017F') rfl, ne_of_isAlpha he (o := '\u212A') rfl]
  cases h with
  | same => rfl
  | recased hc hd heq => rw [hfold hc, hfold hd, heq]

end CodePoint

namespace Text

variable {part first second t : Text}

abbrev Recased : Text → Text → Prop := List.Forall₂ CodePoint.SameLetter

theorem Recased.map_fold {s t : Text} (h : Recased s t) : s.map CodePoint.fold = t.map CodePoint.fold := by
  induction h with
  | nil => rfl
  | cons hletter _ ih => rw [List.map_cons, List.map_cons, hletter.fold_eq, ih]

theorem lowerLatin_cons (c : CodePoint) (t : Text) : lowerLatin (c :: t) = lowerLatin [c] ++ lowerLatin t :=
  (List.flatMap_append : ([c] ++ t).flatMap _ = _)

theorem Recased.lowerLatin_eq {s t : Text} (h : Recased s t) : s.lowerLatin = t.lowerLatin := by
  have hlower : ∀ {e : Char}, e.isAlpha = true → lowerLatin [.scalar e] = [.scalar e.toLower] := by
    intro e he
    simp [lowerLatin, CodePoint.ne_of_isAlpha he (o := '\u0130') rfl,
      CodePoint.ne_of_isAlpha he (o := '\u212A') rfl]
  induction h with
  | nil => rfl
  | @cons c d s t hletter _ ih =>
      rw [lowerLatin_cons c, lowerLatin_cons d, ih]
      cases hletter with
      | same => rfl
      | recased hc hd heq => rw [hlower hc, hlower hd, heq]

theorem occursIn_iff : occursIn part t = true ↔ part <:+: t := by
  induction t with
  | nil => simp [occursIn]
  | cons c t ih =>
      rw [occursIn, Bool.or_eq_true, ih, begins, List.isPrefixOf_iff_prefix, List.infix_cons_iff]

end Text

namespace Retry

variable {first second t m m' : Text}

/-- A search that goes along a text succeeds if it does so at one of the places. -/
theorem exists_suffix_of_search {search : Text → Bool} (here : Text → Bool) (hnil : search [] = false)
    (hcons : ∀ c t, search (c :: t) = (here (c :: t) || search t)) (hhere : here [] = false) :
    search t = true ↔ ∃ u, u <:+ t ∧ here u = true := by
  induction t with
  | nil =>
      rw [hnil]
      refine iff_of_false nofun ?_
      rintro ⟨u, hu, h⟩
      rw [List.suffix_nil.mp hu, hhere] at h
      cases h
  | cons c t ih =>
      rw [hcons, Bool.or_eq_true, ih]
      constructor
      · rintro (h | ⟨u, hu, h⟩)
        · exact ⟨_, List.suffix_refl _, h⟩
        · exact ⟨u, hu.trans (List.suffix_cons c t), h⟩
      · rintro ⟨u, hu, h⟩
        rcases List.suffix_cons_iff.mp hu with rfl | hu
        · exact .inl h
        · exact .inr ⟨u, hu, h⟩

theorem prefix_append_iff {rest u : Text} :
    first ++ rest <+: u ↔ Text.begins first u = true ∧ rest <+: u.drop first.length := by
  rw [Text.begins, List.isPrefixOf_iff_prefix]
  constructor
  · rintro ⟨back, rfl⟩
    rw [List.append_assoc, List.drop_left]
    exact ⟨List.prefix_append _ _, List.prefix_append _ _⟩
  · rintro ⟨⟨back, rfl⟩, h⟩
    rw [List.drop_left] at h
    exact (List.prefix_append_right_inj first).mpr h

theorem begins_nil (hfirst : first ≠ []) : Text.begins first [] = false := by
  cases first with
  | nil => exact absurd rfl hfirst
  | cons => rfl

theorem infix_takeWhile_iff {u : Text} (hsecond : CodePoint.scalar '\n' ∉ second) :
    second <:+: u.takeWhile (· ≠ .scalar '\n') ↔
      ∃ gap, CodePoint.scalar '\n' ∉ gap ∧ gap ++ second <+: u := by
  constructor
  · rintro ⟨gap, back, heq⟩
    refine ⟨gap, fun hmem => ?_, List.IsPrefix.trans ⟨back, heq⟩ (List.takeWhile_prefix _)⟩
    have hline := List.mem_append_left back (List.mem_append_left second hmem)
    rw [heq] at hline
    simpa using List.mem_takeWhile_imp hline
  · rintro ⟨gap, hgap, back, rfl⟩
    rw [List.takeWhile_append_of_pos]
    · exact ⟨gap, _, rfl⟩
    · intro c hc
      have hne : c ≠ .scalar '\n' := by
        rintro rfl
        exact (List.mem_append.mp hc).elim hgap hsecond
      simpa using hne

theorem dropWhile_isWord_iff {u : Text} (hsecond : ∀ c, second.head? = some c → c.isWord = false)
    (hne : second ≠ []) :
    (u.head?.any CodePoint.isWord && Text.begins second (u.dropWhile CodePoint.isWord)) = true ↔
      ∃ word, word ≠ [] ∧ (∀ c ∈ word, c.isWord = true) ∧ word ++ second <+: u := by
  rw [Bool.and_eq_true, Text.begins, List.isPrefixOf_iff_prefix]
  constructor
  · rintro ⟨hhead, hrest⟩
    refine ⟨u.takeWhile CodePoint.isWord, fun hnil => ?_, fun c hc => List.mem_takeWhile_imp hc, ?_⟩
    · cases u with
      | nil => cases hhead
      | cons c u =>
          rw [List.head?_cons, Option.any_some] at hhead
          rw [List.takeWhile_cons_of_pos hhead] at hnil
          cases hnil
    · have hwhole := (List.prefix_append_right_inj (u.takeWhile CodePoint.isWord)).mpr hrest
      rwa [List.takeWhile_append_dropWhile] at hwhole
  · rintro ⟨word, hword, hall, back, rfl⟩
    obtain ⟨c, word, rfl⟩ := List.exists_cons_of_ne_nil hword
    obtain ⟨d, second, rfl⟩ := List.exists_cons_of_ne_nil hne
    have hd : ¬d.isWord = true := Bool.eq_false_iff.mp (hsecond d rfl)
    refine ⟨hall c List.mem_cons_self, ?_⟩
    rw [List.append_assoc, List.dropWhile_append_of_pos hall, List.cons_append,
      List.dropWhile_cons_of_neg hd]
    exact ⟨back, rfl⟩

theorem occurOnOneLine_iff (hfirst : first ≠ []) (hsecond : CodePoint.scalar '\n' ∉ second) :
    occurOnOneLine first second t = true ↔
      ∃ gap, CodePoint.scalar '\n' ∉ gap ∧ first ++ (gap ++ second) <:+: t := by
  rw [exists_suffix_of_search (fun u => Text.begins first u &&
    Text.occursIn second ((u.drop first.length).takeWhile (· ≠ .scalar '\n'))) rfl (fun _ _ => rfl)
    (by rw [begins_nil hfirst, Bool.false_and])]
  simp only [Bool.and_eq_true, Text.occursIn_iff, infix_takeWhile_iff hsecond,
    List.infix_iff_prefix_suffix, prefix_append_iff]
  constructor
  · rintro ⟨u, hu, hbegins, gap, hgap, h⟩
    exact ⟨gap, hgap, u, ⟨hbegins, h⟩, hu⟩
  · rintro ⟨gap, hgap, u, ⟨hbegins, h⟩, hu⟩
    exact ⟨u, hu, hbegins, gap, hgap, h⟩

theorem occurAroundWord_iff (hfirst : first ≠ []) (hne : second ≠ [])
    (hsecond : ∀ c, second.head? = some c → c.isWord = false) : occurAroundWord first second t = true ↔
      ∃ word, word ≠ [] ∧ (∀ c ∈ word, c.isWord = true) ∧ first ++ (word ++ second) <:+: t := by
  rw [exists_suffix_of_search (fun u => Text.begins first u &&
    ((u.drop first.length).head?.any CodePoint.isWord &&
      Text.begins second ((u.drop first.length).dropWhile CodePoint.isWord))) rfl (fun _ _ => rfl)
    (by rw [begins_nil hfirst, Bool.false_and])]
  simp only [Bool.and_eq_true (Text.begins first _), dropWhile_isWord_iff hsecond hne,
    List.infix_iff_prefix_suffix, prefix_append_iff]
  constructor
  · rintro ⟨u, hu, hbegins, word, hword, hall, h⟩
    exact ⟨word, hword, hall, u, ⟨hbegins, h⟩, hu⟩
  · rintro ⟨word, hword, hall, u, ⟨hbegins, h⟩, hu⟩
    exact ⟨u, hu, hbegins, word, hword, hall, h⟩

inductive IsPermanentPart : Text → Prop
  | listed {part : Text} (h : part ∈ permanentParts) : IsPermanentPart part
  | report {gap : Text} (h : CodePoint.scalar '\n' ∉ gap) :
      IsPermanentPart (lit "requested report" ++ (gap ++ lit "not found in the list of available reports"))
  | plugin {word : Text} (hne : word ≠ []) (h : ∀ c ∈ word, c.isWord = true) :
      IsPermanentPart (lit "the plugin " ++ (word ++ lit " is not enabled"))

theorem isPermanent_iff :
    isPermanent m = true ↔ ∃ part, IsPermanentPart part ∧ part <:+: m.map CodePoint.fold := by
  rw [isPermanent, Bool.or_eq_true, Bool.or_eq_true, List.any_eq_true,
    occurOnOneLine_iff (by decide) (by decide), occurAroundWord_iff (by decide) (by decide) (by decide)]
  simp only [Text.occursIn_iff]
  constructor
  · rintro ((⟨part, hpart, h⟩ | ⟨gap, hgap, h⟩) | ⟨word, hne, hword, h⟩)
    · exact ⟨part, .listed hpart, h⟩
    · exact ⟨_, .report hgap, h⟩
    · exact ⟨_, .plugin hne hword, h⟩
  · rintro ⟨part, hpart, h⟩
    cases hpart with
    | listed hpart => exact .inl (.inl ⟨part, hpart, h⟩)
    | report hgap => exact .inl (.inr ⟨_, hgap, h⟩)
    | plugin hne hword => exact .inr ⟨_, hne, hword, h⟩

theorem isPermanent_of_occurs (h : m <:+: m') (hm : isPermanent m = true) : isPermanent m' = true := by
  obtain ⟨part, hpart, hoccurs⟩ := isPermanent_iff.mp hm
  exact isPermanent_iff.mpr ⟨part, hpart, hoccurs.trans (h.map _)⟩

theorem isQuota_of_occurs (h : m <:+: m') (hm : isQuota m = true) : isQuota m' = true :=
  Text.occursIn_iff.mpr ((Text.occursIn_iff.mp hm).trans (h.flatMap _))

theorem isTransient_of_occurs (h : m <:+: m') (hm : isTransient m = true) : isTransient m' = true := by
  rw [isTransient, List.any_eq_true] at hm ⊢
  obtain ⟨part, hpart, hoccurs⟩ := hm
  exact ⟨part, hpart, Text.occursIn_iff.mpr ((Text.occursIn_iff.mp hoccurs).trans (h.flatMap _))⟩

theorem isPermanent_recased (h : Text.Recased m m') : isPermanent m' = isPermanent m := by
  rw [isPermanent, isPermanent, h.map_fold]

theorem isQuota_recased (h : Text.Recased m m') : isQuota m' = isQuota m := by
  rw [isQuota, isQuota, h.lowerLatin_eq]

theorem isTransient_recased (h : Text.Recased m m') : isTransient m' = isTransient m := by
  rw [isTransient, isTransient, h.lowerLatin_eq]

end Retry

/-- A payload whose message comes again on every attempt is the last one for its query. -/
theorem Reply.judge_of_isPermanent {r : Reply} {payload : Json} {m query : Text}
    (hstatus : Retry.isSuccess r.status = true) (hparse : Json.parse r.content = .ok payload)
    (hmessage : Entry.message payload = .string m) (hm : Retry.isPermanent m = true) :
    r.judge query = .ok (.final payload none) := by
  have hlasting : isTemporary payload = .ok false := by
    cases m with
    | nil => cases hm
    | cons => simp [isTemporary, hmessage, hm]
  unfold judge
  rw [if_pos hstatus, hparse]
  dsimp only [judgePayload]
  split
  · rw [hlasting]
    rfl
  · rfl

open Retry Text in
/-- Text around a message and the case of its letters do not change what the message is known as. So a reply
stays the last one for its query if its message comes again on every attempt, and is wrapped and recased on
its way. -/
theorem classification_stable :
    (∀ before m behind : Text,
      (isPermanent m = true → isPermanent (before ++ m ++ behind) = true) ∧
      (isQuota m = true → isQuota (before ++ m ++ behind) = true) ∧
      (isTransient m = true → isTransient (before ++ m ++ behind) = true)) ∧
    (∀ m m' : Text, Recased m m' →
      isPermanent m' = isPermanent m ∧ isQuota m' = isQuota m ∧ isTransient m' = isTransient m) ∧
    ∀ (before m behind m' query : Text) (r : Reply) (payload : Json), isPermanent m = true →
      Recased (before ++ m ++ behind) m' → isSuccess r.status = true →
      Json.parse r.content = .ok payload → Entry.message payload = .string m' →
      r.judge query = .ok (.final payload none) := by
  refine ⟨fun before m behind => ?_, fun m m' h => ?_, ?_⟩
  · have hwithin : m <:+: before ++ m ++ behind := List.infix_append before m behind
    exact ⟨isPermanent_of_occurs hwithin, isQuota_of_occurs hwithin, isTransient_of_occurs hwithin⟩
  · exact ⟨isPermanent_recased h, isQuota_recased h, isTransient_recased h⟩
  · intro before m behind m' query r payload hm h hstatus hparse hmessage
    refine r.judge_of_isPermanent hstatus hparse hmessage ?_
    rw [isPermanent_recased h]
    exact isPermanent_of_occurs (List.infix_append before m behind) hm

open Retry Text in
/-- One proxy puts text around messages, and another one writes them in capital letters. -/
theorem classification_stable_proxy :
    let before := lit "\u03A3\u0130: "
    let m := lit "The plugin Ziele_\u017F is not enabled"
    let capital := lit "\u03A3\u0130: THE PLUGIN ZIELE_\u017F IS NOT ENABLED.\n"
    let quota := lit "Service invoked too many times for one day: urlfetch"
    let r : Reply :=
      ⟨200, some (lit "\x7b\"result\": \"error\", \"message\": " ++ capital.quote ++ lit "\x7d")⟩
    (isPermanent m = true ∧ isPermanent (before ++ m ++ lit ".\n") = true) ∧
    (isQuota quota = true ∧ isQuota (before ++ quota ++ lit ".\n") = true) ∧
    (isTransient (lit "DNS error") = true ∧
      isTransient (before ++ lit "DNS error" ++ lit ".\n") = true) ∧
    (Recased (before ++ m ++ lit ".\n") capital ∧
      isPermanent capital = isPermanent (before ++ m ++ lit ".\n")) ∧
    ∃ payload, Json.parse r.content = .ok payload ∧ Entry.message payload = .string capital ∧
      r.judge "q" = .ok (.final payload none) := by
  intro before m capital quota r
  obtain ⟨hwrapped, hrecased, hjudge⟩ := classification_stable
  have hm : isPermanent m = true := by decide +kernel
  have hquota : isQuota quota = true := by decide +kernel
  have htransient : isTransient (lit "DNS error") = true := by decide +kernel
  have hcapital : Recased (before ++ m ++ lit ".\n") capital := by decide +kernel
  have hread : (Json.parse r.content).toOption.bind (fun j => (Entry.message j).text?) = some capital := by
    decide +kernel
  obtain ⟨payload, hparse, hmessage⟩ : ∃ payload, Json.parse r.content = .ok payload ∧
      Entry.message payload = .string capital := by
    cases hparse : Json.parse r.content with
    | error => simp [hparse, Except.toOption] at hread
    | ok payload =>
        simp only [hparse, Except.toOption, Option.bind_some] at hread
        refine ⟨payload, rfl, ?_⟩
        cases hmessage : Entry.message payload with
        | string t => simpa [hmessage, Json.text?] using hread
        | _ => simp [hmessage, Json.text?] at hread
  exact ⟨⟨hm, (hwrapped before m _).1 hm⟩, ⟨hquota, (hwrapped before quota _).2.1 hquota⟩,
    ⟨htransient, (hwrapped before _ _).2.2 htransient⟩, ⟨hcapital, (hrecased _ _ hcapital).1⟩,
    payload, hparse, hmessage, hjudge before m _ capital "q" r payload hm hcapital rfl hparse hmessage⟩

end MetricBridge
