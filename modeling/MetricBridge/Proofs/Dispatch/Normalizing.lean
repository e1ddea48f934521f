import MetricBridge.Dispatch.Endpoint
import Mathlib.Data.List.TakeWhile

namespace MetricBridge.Endpoint

variable {t u v before rest path name : Text} {c d : CodePoint}

def slashes (n : Nat) : Text := List.replicate n (.scalar '/')

def indexNames : List Text := [lit "index.php?", lit "index.php", []]

def IsEnd (rest : Text) : Prop := rest = [] ∨ rest = [.scalar '\n']

def IndexAt (u before rest : Text) : Prop :=
  ∃ n, ∃ name ∈ indexNames, u = before ++ (slashes (n + 1) ++ (name ++ rest)) ∧ IsEnd rest

def EndsInIndex (u : Text) : Prop := ∃ before rest, IndexAt u before rest

/-- The text without the slashes and the `index.php` at its end, from the first place where they can
begin. -/
inductive Trims (u : Text) : Text → Prop
  | whole (absent : ¬EndsInIndex u) : Trims u u
  | first {before rest : Text} (found : IndexAt u before rest)
      (leftmost : ∀ before' rest', IndexAt u before' rest' → before.length ≤ before'.length) :
      Trims u (before ++ rest)

theorem slash_notMem (hname : name ∈ indexNames) (hrest : IsEnd rest) : .scalar '/' ∉ name ++ rest := by
  rw [List.mem_append, not_or]
  refine ⟨?_, by rcases hrest with rfl | rfl <;> decide⟩
  revert name
  decide

theorem dropWhile_slashes (n : Nat) (h : .scalar '/' ∉ t) :
    (slashes n ++ t).dropWhile (· == .scalar '/') = t := by
  have hall : ∀ c ∈ slashes n, (c == .scalar '/') = true := by
    intro c hc
    rw [List.eq_of_mem_replicate hc]
    exact beq_self_eq_true _
  rw [List.dropWhile_append_of_pos hall]
  apply List.dropWhile_eq_self_iff.mpr
  intro hpos heq
  exact h (eq_of_beq heq ▸ List.getElem_mem hpos)

theorem exists_slashes (t : Text) :
    ∃ n, t = slashes n ++ t.dropWhile (· == .scalar '/') := by
  induction t with
  | nil => exact ⟨0, rfl⟩
  | cons c t ih =>
      obtain ⟨n, hn⟩ := ih
      by_cases hc : c = .scalar '/'
      · refine ⟨n + 1, ?_⟩
        subst hc
        exact congrArg (CodePoint.scalar '/' :: ·) hn
      · exact ⟨0, by simp [slashes, hc]⟩

theorem begins_eq_true {start : Text} : Text.begins start t = true ↔ ∃ rest, t = start ++ rest := by
  rw [Text.begins, List.isPrefixOf_iff_prefix]
  exact exists_congr fun _ => eq_comm

/-- No name has a line feed, so it can be told from the end behind it. -/
theorem dropWhile_name (hname : name ∈ indexNames) (hrest : IsEnd rest) :
    (name ++ rest).dropWhile (· != .scalar '\n') = rest := by
  have hall : ∀ name ∈ indexNames, ∀ c ∈ name, (c != .scalar '\n') = true := by decide
  rw [List.dropWhile_append_of_pos (hall name hname)]
  rcases hrest with rfl | rfl <;> rfl

theorem end_unique {name' rest' : Text} (hname : name ∈ indexNames) (hname' : name' ∈ indexNames)
    (hrest : IsEnd rest) (hrest' : IsEnd rest') (heq : name ++ rest = name' ++ rest') : rest = rest' := by
  rw [← dropWhile_name hname hrest, heq, dropWhile_name hname' hrest']

theorem mem_candidates : rest ∈ (indexNames.filterMap fun name =>
    if Text.begins name t then some (t.drop name.length) else none) ↔
      ∃ name ∈ indexNames, t = name ++ rest := by
  rw [List.mem_filterMap]
  refine exists_congr fun name => and_congr_right fun _ => ?_
  rw [Option.ite_none_right_eq_some, begins_eq_true]
  constructor
  · rintro ⟨⟨rest, rfl⟩, hdrop⟩
    rw [List.drop_left, Option.some.injEq] at hdrop
    rw [hdrop]
  · rintro rfl
    exact ⟨⟨rest, rfl⟩, by rw [List.drop_left]⟩

theorem isEnd_iff : (rest.isEmpty || rest == [.scalar '\n']) = true ↔ IsEnd rest := by simp [IsEnd]

theorem afterIndex?_eq_some_iff :
    afterIndex? t = some rest ↔ ∃ name ∈ indexNames, t = name ++ rest ∧ IsEnd rest := by
  have hcut : ∀ {rest}, afterIndex? t = some rest →
      ∃ name ∈ indexNames, t = name ++ rest ∧ IsEnd rest := by
    intro rest h
    obtain ⟨name, hname, htext⟩ := mem_candidates.mp (List.mem_of_find?_eq_some h)
    have hend := List.find?_some (p := fun rest : Text => rest.isEmpty || rest == [.scalar '\n']) h
    exact ⟨name, hname, htext, isEnd_iff.mp hend⟩
  refine ⟨hcut, ?_⟩
  rintro ⟨name, hname, htext, hrest⟩
  cases hfound : afterIndex? t with
  | none =>
      have hnone := List.find?_eq_none.mp hfound rest (mem_candidates.mpr ⟨name, hname, htext⟩)
      exact absurd (isEnd_iff.mpr hrest) hnone
  | some rest' =>
      obtain ⟨name', hname', htext', hrest'⟩ := hcut hfound
      exact congrArg some (end_unique hname' hname hrest' hrest (htext'.symm.trans htext))

theorem indexAt_nil_iff : IndexAt (c :: t) [] rest ↔
    c = .scalar '/' ∧ afterIndex? (t.dropWhile (· == .scalar '/')) = some rest := by
  rw [afterIndex?_eq_some_iff]
  constructor
  · rintro ⟨n, name, hname, htext, hrest⟩
    obtain ⟨rfl, rfl⟩ := List.cons.inj htext
    exact ⟨rfl, name, hname, dropWhile_slashes n (slash_notMem hname hrest), hrest⟩
  · rintro ⟨rfl, name, hname, htext, hrest⟩
    obtain ⟨n, hn⟩ := exists_slashes t
    exact ⟨n, name, hname, congrArg (CodePoint.scalar '/' :: ·) (htext ▸ hn), hrest⟩

theorem indexAt_cons_iff : IndexAt (c :: t) (d :: before) rest ↔ c = d ∧ IndexAt t before rest := by
  constructor
  · rintro ⟨n, name, hname, htext, hrest⟩
    obtain ⟨hc, ht⟩ := List.cons.inj htext
    exact ⟨hc, n, name, hname, ht, hrest⟩
  · rintro ⟨rfl, n, name, hname, rfl, hrest⟩
    exact ⟨n, name, hname, rfl, hrest⟩

theorem not_indexAt_nil (before rest : Text) : ¬IndexAt [] before rest := by
  rintro ⟨n, name, -, htext, -⟩
  simp [slashes, List.replicate_succ] at htext

theorem trims_cons (h : Trims t v) (hc : ∀ rest, ¬IndexAt (c :: t) [] rest) : Trims (c :: t) (c :: v) := by
  have huncons : ∀ before rest, IndexAt (c :: t) before rest →
      ∃ more, before = c :: more ∧ IndexAt t more rest := by
    intro before rest hfound
    cases before with
    | nil => exact absurd hfound (hc rest)
    | cons d more =>
        obtain ⟨rfl, hmore⟩ := indexAt_cons_iff.mp hfound
        exact ⟨more, rfl, hmore⟩
  cases h with
  | whole absent =>
      refine .whole ?_
      rintro ⟨before, rest, hfound⟩
      obtain ⟨more, -, hmore⟩ := huncons before rest hfound
      exact absent ⟨more, rest, hmore⟩
  | first found leftmost =>
      refine .first (indexAt_cons_iff.mpr ⟨rfl, found⟩) fun before' rest' hfound => ?_
      obtain ⟨more, rfl, hmore⟩ := huncons before' rest' hfound
      exact Nat.succ_le_succ (leftmost more rest' hmore)

theorem trims_trimIndex (u : Text) : Trims u (trimIndex u) := by
  induction u with
  | nil => exact .whole fun ⟨before, rest, h⟩ => not_indexAt_nil before rest h
  | cons c t ih =>
      rw [trimIndex]
      split
      · rename_i hc
        split
        · rename_i rest hrest
          exact .first (indexAt_nil_iff.mpr ⟨hc, hrest⟩) fun _ _ _ => Nat.zero_le _
        · rename_i hnone
          refine trims_cons ih fun rest hfound => ?_
          cases hnone.symm.trans (indexAt_nil_iff.mp hfound).2
      · rename_i hc
        exact trims_cons ih fun rest hfound => hc (indexAt_nil_iff.mp hfound).1

theorem IndexAt.length_lt (h : IndexAt u before rest) : (before ++ rest).length < u.length := by
  obtain ⟨n, name, -, rfl, -⟩ := h
  simp only [List.length_append, slashes, List.length_replicate]
  omega

theorem trimIndex_eq_self_iff : trimIndex u = u ↔ ¬EndsInIndex u := by
  generalize hv : trimIndex u = v
  have htrims : Trims u v := hv ▸ trims_trimIndex u
  cases htrims with
  | whole absent => simpa using absent
  | first found _ =>
      constructor
      · intro heq
        exact absurd (congrArg List.length heq) found.length_lt.ne
      · intro h
        exact absurd ⟨_, _, found⟩ h

instance : DecidablePred EndsInIndex := fun u =>
  decidable_of_iff (trimIndex u ≠ u) (not_congr trimIndex_eq_self_iff |>.trans not_not)

theorem Trims.unique (h : Trims u v) {w : Text} (hw : Trims u w) : v = w := by
  cases h with
  | whole absent =>
      cases hw with
      | whole => rfl
      | first found => exact absurd ⟨_, _, found⟩ absent
  | first found leftmost =>
      cases hw with
      | whole absent => exact absurd ⟨_, _, found⟩ absent
      | first found' leftmost' =>
          have hlength := Nat.le_antisymm (leftmost _ _ found') (leftmost' _ _ found)
          obtain ⟨n, name, hname, htext, hrest⟩ := found
          obtain ⟨n', name', hname', htext', hrest'⟩ := found'
          obtain ⟨rfl, htail⟩ := List.append_inj (htext.symm.trans htext') hlength
          have hdrop := congrArg (List.dropWhile (· == CodePoint.scalar '/')) htail
          rw [dropWhile_slashes _ (slash_notMem hname hrest),
            dropWhile_slashes _ (slash_notMem hname' hrest')] at hdrop
          rw [end_unique hname hname' hrest hrest' hdrop]

/-- What is left does not end in a slash: the slashes would have begun earlier. -/
theorem Trims.getLast?_ne (h : Trims u v) : v.getLast? ≠ some (.scalar '/') := by
  intro hlast
  obtain ⟨before', rfl⟩ := List.getLast?_eq_some_iff.mp hlast
  generalize hv : before' ++ [CodePoint.scalar '/'] = v at h
  cases h with
  | whole absent => exact absent ⟨before', [], 0, [], by decide, hv.symm, .inl rfl⟩
  | first found leftmost =>
      obtain ⟨n, name, hname, rfl, rfl | rfl⟩ := found
      · rw [List.append_nil] at hv
        subst hv
        have hearlier := leftmost before' []
          ⟨n + 1, name, hname, by simp [slashes, List.replicate_succ], .inl rfl⟩
        rw [List.length_append, List.length_singleton] at hearlier
        omega
      · simpa using congrArg List.getLast? hv

/-- Slashes and a name behind a text that does not end in a slash are what comes off. -/
theorem trimIndex_append (h : u.getLast? ≠ some (.scalar '/')) (n : Nat) (hname : name ∈ indexNames) :
    trimIndex (u ++ (slashes (n + 1) ++ name)) = u := by
  have hfound : IndexAt (u ++ (slashes (n + 1) ++ name)) u [] := ⟨n, name, hname, by simp, .inl rfl⟩
  have htrims : Trims (u ++ (slashes (n + 1) ++ name)) (u ++ []) := by
    refine .first hfound ?_
    rintro before' rest' ⟨n', name', hname', htext, hrest'⟩
    rcases List.append_eq_append_iff.mp htext with ⟨more, rfl, -⟩ | ⟨more, rfl, htail⟩
    · simp
    -- an earlier place would be in front of a slash that ends `u`, or of one behind a name
    rcases List.append_eq_append_iff.mp htail with ⟨middle, -, hmiddle⟩ | ⟨middle, hslashes, -⟩
    · refine absurd ?_ (slash_notMem hname' hrest')
      rw [hmiddle]
      simp [slashes, List.replicate_succ]
    · cases hmore : more.getLast? with
      | none => simp [List.getLast?_eq_none_iff.mp hmore]
      | some c =>
          have hmem : c ∈ slashes (n' + 1) := hslashes ▸ List.mem_append_left _ (List.mem_of_getLast? hmore)
          rw [List.eq_of_mem_replicate hmem] at hmore
          exact absurd (List.getLast?_append.trans (by rw [hmore]; rfl)) h
  simpa using (trims_trimIndex _).unique htrims

theorem normalize_normalize (u : Text) : normalize (normalize u) = normalize u := by
  have hname : lit "index.php?" ∈ indexNames := by decide
  have htrim := trimIndex_append (trims_trimIndex u).getLast?_ne 0 hname
  exact congrArg (· ++ lit "/index.php?") htrim

/-- The normal form is the base address without the slashes and the `index.php` at its end, and with one
`index.php?`. It stays as it is. And a base address that does not end in slashes and an optional
`index.php` has the same normal form as with any of these behind it. -/
theorem normalize_forms :
    (∀ u, ∃ v, Trims u v ∧ normalize u = v ++ lit "/index.php?") ∧
    (∀ u, normalize (normalize u) = normalize u) ∧
    ∀ base, ¬EndsInIndex base → normalize base = base ++ lit "/index.php?" ∧
      ∀ n, ∀ name ∈ indexNames,
        normalize (base ++ (slashes (n + 1) ++ name)) = base ++ lit "/index.php?" := by
  refine ⟨fun u => ⟨_, trims_trimIndex u, rfl⟩, normalize_normalize, fun base hbase => ⟨?_, ?_⟩⟩
  · rw [normalize, trimIndex_eq_self_iff.mpr hbase]
  · intro n name hname
    rw [normalize, trimIndex_append (Trims.whole hbase).getLast?_ne n hname]

theorem normalize_forms_nested :
    let base : Text := "https://example.org//index.php?/b"
    let form : Text := "https://example.org//index.php?/b/index.php?"
    ¬EndsInIndex base ∧ lit "index.php" ∈ indexNames ∧ normalize base = form ∧
      normalize (base ++ (slashes 3 ++ lit "index.php")) = form := by
  intro base form
  have hbase : ¬EndsInIndex base := by decide
  have hname : lit "index.php" ∈ indexNames := by decide
  obtain ⟨-, -, hforms⟩ := normalize_forms
  exact ⟨hbase, hname, (hforms base hbase).1, (hforms base hbase).2 2 _ hname⟩

end MetricBridge.Endpoint
