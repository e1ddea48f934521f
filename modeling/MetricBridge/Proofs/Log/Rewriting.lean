import MetricBridge.Log.Redaction
import Mathlib.Data.List.TakeWhile

namespace MetricBridge.Redaction

variable {rule : Rule} {w w' : Bool} {n : Nat} {c : CodePoint} {t t' u v r x y z rest : Text}

def wordAfter (w : Bool) (t : Text) : Bool := t.foldl (fun _ c => c.isWord) w

@[simp] theorem wordAfter_nil (w : Bool) : wordAfter w [] = w := rfl

@[simp] theorem wordAfter_cons (w : Bool) (c : CodePoint) (t : Text) :
    wordAfter w (c :: t) = wordAfter c.isWord t := rfl

@[simp] theorem wordAfter_append (w : Bool) (t u : Text) :
    wordAfter w (t ++ u) = wordAfter (wordAfter w t) u := by
  simp [wordAfter, List.foldl_append]

theorem wordAfter_of_ne_nil (h : t ≠ []) (w w' : Bool) : wordAfter w t = wordAfter w' t := by
  cases t with
  | nil => exact absurd rfl h
  | cons c t => rfl

/-- The scan of a text: what does not match is kept, and a match is replaced as a whole. -/
inductive Scan (rule : Rule) : Bool → Text → Text → Prop
  | nil (w : Bool) : Scan rule w [] []
  | keep {w : Bool} {c : CodePoint} {t t' : Text} :
      rule w (c :: t) = none → Scan rule c.isWord t t' → Scan rule w (c :: t) (c :: t')
  | replace {w : Bool} {u t v t' : Text} :
      u ≠ [] → rule w (u ++ t) = some (v, u.length) → Scan rule (wordAfter w u) t t' →
      Scan rule w (u ++ t) (v ++ t')

/-- A text that the rule leaves as it is, since every match is replaced by itself. -/
inductive Settled (rule : Rule) : Bool → Text → Prop
  | nil (w : Bool) : Settled rule w []
  | keep {w : Bool} {c : CodePoint} {t : Text} :
      rule w (c :: t) = none → Settled rule c.isWord t → Settled rule w (c :: t)
  | same {w : Bool} {u t : Text} :
      u ≠ [] → rule w (u ++ t) = some (u, u.length) → Settled rule (wordAfter w u) t →
      Settled rule w (u ++ t)

def Fixes (rule : Rule) (w : Bool) (t : Text) : Prop :=
  ∀ v n, rule w t = some (v, n) → v = t.take n

def Everywhere (p : Bool → Text → Prop) : Bool → Text → Prop
  | _, [] => True
  | w, c :: t => p w (c :: t) ∧ Everywhere p c.isWord t

/-- What the rules have in common. A match is a piece of the text, its first code point stays, no word
character is written at its end, and if there was one then no letter follows. Both a match and what is written
for it begin in the way that `opens` says. -/
structure Rule.Tame (rule : Rule) (opens : Text → Prop) : Prop where
  fits : ∀ {w t v n}, rule w t = some (v, n) → ∃ u r, t = u ++ r ∧ u ≠ [] ∧ n = u.length
  head : ∀ {w u r v}, u ≠ [] → rule w (u ++ r) = some (v, u.length) → v.head? = u.head?
  border : ∀ {w u r v}, u ≠ [] → rule w (u ++ r) = some (v, u.length) → wordAfter w v = false ∧
    (wordAfter w u = true → ∀ c, r.head? = some c → c.foldsToLetter = false)
  opens_of_match : ∀ {w t v n}, rule w t = some (v, n) → opens t
  opens_of_written : ∀ {w u r v}, u ≠ [] → rule w (u ++ r) = some (v, u.length) → ∀ z, opens (v ++ z)

theorem applyFrom_skip (rule : Rule) (w : Bool) (u : Text) (k : Nat) (t : Text) :
    applyFrom rule w (u.length + k) (u ++ t) = applyFrom rule (wordAfter w u) k t := by
  induction u generalizing w with
  | nil => simp
  | cons c u ih =>
      rw [List.length_cons, Nat.add_right_comm, List.cons_append, applyFrom]
      exact ih c.isWord

theorem applyFrom_keep (h : rule w (c :: t) = none) :
    applyFrom rule w 0 (c :: t) = c :: applyFrom rule c.isWord 0 t := by
  simp [applyFrom, h]

theorem applyFrom_replace (hu : u ≠ []) (h : rule w (u ++ t) = some (v, u.length)) :
    applyFrom rule w 0 (u ++ t) = v ++ applyFrom rule (wordAfter w u) 0 t := by
  cases u with
  | nil => exact absurd rfl hu
  | cons c u =>
      have hskip := applyFrom_skip rule c.isWord u 0 t
      simp only [List.cons_append, List.length_cons] at h
      simp only [List.cons_append, applyFrom, h, wordAfter_cons]
      rw [← hskip, Nat.add_zero]

theorem applyFrom_of_none (h : ∀ x₁ x₂, x = x₁ ++ x₂ → x₂ ≠ [] → rule (wordAfter w x₁) (x₂ ++ y) = none) :
    applyFrom rule w 0 (x ++ y) = x ++ applyFrom rule (wordAfter w x) 0 y := by
  induction x generalizing w with
  | nil => rfl
  | cons c x ih =>
      have hfirst : rule w (c :: (x ++ y)) = none := h [] (c :: x) rfl (List.cons_ne_nil c x)
      rw [List.cons_append, applyFrom_keep hfirst, List.cons_append, wordAfter_cons]
      congr 1
      exact ih fun x₁ x₂ heq => h (c :: x₁) x₂ (congrArg (c :: ·) heq)

namespace Scan

theorem eq_applyFrom (h : Scan rule w t t') : applyFrom rule w 0 t = t' := by
  induction h with
  | nil => rfl
  | keep hnone _ ih => rw [applyFrom_keep hnone, ih]
  | replace hu hsome _ ih => rw [applyFrom_replace hu hsome, ih]

end Scan

theorem Settled.scan (h : Settled rule w t) : Scan rule w t t := by
  induction h with
  | nil w => exact .nil w
  | keep hnone _ ih => exact .keep hnone ih
  | same hu hsome _ ih => exact .replace hu hsome ih

theorem Settled.applyFrom_eq (h : Settled rule w t) : applyFrom rule w 0 t = t := h.scan.eq_applyFrom

theorem Everywhere.head {p : Bool → Text → Prop} (h : Everywhere p w t) (ht : t ≠ []) : p w t := by
  cases t with
  | nil => exact absurd rfl ht
  | cons c t => exact h.1

theorem Everywhere.of_forall {p : Bool → Text → Prop} (h : ∀ w t, p w t) (w : Bool) (t : Text) :
    Everywhere p w t := by
  induction t generalizing w with
  | nil => trivial
  | cons c t ih => exact ⟨h w (c :: t), ih c.isWord⟩

theorem Everywhere.imp {p q : Bool → Text → Prop} (h : ∀ w t, p w t → q w t) (ht : Everywhere p w t) :
    Everywhere q w t := by
  induction t generalizing w with
  | nil => trivial
  | cons c t ih => exact ⟨h _ _ ht.1, ih ht.2⟩

theorem Everywhere.drop {p : Bool → Text → Prop} (h : Everywhere p w (u ++ t)) :
    Everywhere p (wordAfter w u) t := by
  induction u generalizing w with
  | nil => exact h
  | cons c u ih => exact ih h.2

namespace Rule.Tame

variable {opens : Text → Prop}

theorem scan (htame : rule.Tame opens) (w : Bool) (t : Text) : Scan rule w t (applyFrom rule w 0 t) := by
  induction hn : t.length using Nat.strong_induction_on generalizing w t with
  | _ n ih =>
      subst hn
      cases t with
      | nil => exact .nil w
      | cons c t =>
          cases hrule : rule w (c :: t) with
          | none =>
              rw [applyFrom_keep hrule]
              exact .keep hrule (ih _ (Nat.lt_succ_self _) _ _ rfl)
          | some e =>
              obtain ⟨v, n⟩ := e
              obtain ⟨u, r, heq, hu, rfl⟩ := htame.fits hrule
              have hlen : r.length < (c :: t).length := by
                have hpos := List.length_pos_iff.mpr hu
                rw [heq, List.length_append]
                omega
              rw [heq] at hrule ⊢
              rw [applyFrom_replace hu hrule]
              exact .replace hu hrule (ih _ hlen _ _ rfl)

theorem opens_of_ne_none (htame : rule.Tame opens) (h : rule w t ≠ none) : opens t := by
  obtain ⟨⟨v, n⟩, hrule⟩ := Option.ne_none_iff_exists'.mp h
  exact htame.opens_of_match hrule

theorem scan_head? (htame : rule.Tame opens) (h : Scan rule w t t') : t'.head? = t.head? := by
  cases h with
  | nil => rfl
  | keep => rfl
  | @replace _ u _ v _ hu hrule _ =>
      have hhead := htame.head hu hrule
      cases u with
      | nil => exact absurd rfl hu
      | cons c u => simp [List.head?_append, hhead]

/-- What is written begins as the text does, as long as no match can begin there. -/
theorem unscan (htame : rule.Tame opens) (h : Scan rule w t (x ++ z))
    (hx : ∀ x₁ x₂, x = x₁ ++ x₂ → x₂ ≠ [] → ¬opens (x₂ ++ z)) :
    ∃ y, t = x ++ y ∧ Scan rule (wordAfter w x) y z := by
  induction x generalizing w t with
  | nil => exact ⟨t, rfl, h⟩
  | cons c x ih =>
      have hopens := hx [] (c :: x) rfl (List.cons_ne_nil c x)
      generalize hwritten : c :: x ++ z = s at h hopens
      cases h with
      | nil => cases hwritten
      | keep hnone hscan =>
          obtain ⟨rfl, rfl⟩ := List.cons.inj hwritten
          obtain ⟨y, rfl, hy⟩ := ih hscan fun x₁ x₂ heq => hx (c :: x₁) x₂ (congrArg (c :: ·) heq)
          exact ⟨y, rfl, hy⟩
      | replace hu hrule => exact absurd (htame.opens_of_written hu hrule _) hopens

theorem scan_kept (htame : rule.Tame opens) (h : Scan rule w (x ++ y) z)
    (hx : ∀ x₁ x₂, x = x₁ ++ x₂ → x₂ ≠ [] → ¬opens (x₂ ++ y)) :
    ∃ y', z = x ++ y' ∧ Scan rule (wordAfter w x) y y' := by
  induction x generalizing w z with
  | nil => exact ⟨z, rfl, h⟩
  | cons c x ih =>
      have hnone : rule w (c :: x ++ y) = none := by
        by_contra hsome
        exact hx [] (c :: x) rfl (List.cons_ne_nil c x) (htame.opens_of_ne_none hsome)
      have hscan := h.eq_applyFrom
      rw [List.cons_append] at hnone hscan
      rw [applyFrom_keep hnone] at hscan
      obtain ⟨y', heq, hy⟩ := ih (htame.scan c.isWord (x ++ y))
        fun x₁ x₂ heq => hx (c :: x₁) x₂ (congrArg (c :: ·) heq)
      exact ⟨y', by rw [← hscan, heq, List.cons_append], hy⟩

/-- A property of the written text, shown where the text was kept and at each place of what was written.
Behind a match it is no matter what stood before, as long as no letter follows. -/
theorem everywhere_of_scan (htame : rule.Tame opens) {p q : Bool → Text → Prop}
    (hkeep : ∀ {w w' c t t'}, (w' = w ∨ c.foldsToLetter = false) → rule w (c :: t) = none →
      Scan rule c.isWord t t' → p w (c :: t) → q w' (c :: t'))
    (hreplace : ∀ {w u r r' v}, u ≠ [] → rule w (u ++ r) = some (v, u.length) → r'.head? = r.head? →
      ∀ v₁ v₂, v = v₁ ++ v₂ → v₂ ≠ [] → ∀ w', (v₁ ≠ [] → w' = wordAfter w v₁) → q w' (v₂ ++ r'))
    (h : Scan rule w t t') (hp : Everywhere p w t)
    (hw : w' = w ∨ ∀ c, t.head? = some c → c.foldsToLetter = false) : Everywhere q w' t' := by
  induction h generalizing w' with
  | nil => trivial
  | @keep w c t t' hnone hscan ih =>
      refine ⟨hkeep (hw.imp_right fun hc => hc c rfl) hnone hscan hp.1, ih hp.2 (.inl rfl)⟩
  | @replace w u r v r' hu hrule hscan ih =>
      have hrest : Everywhere q (wordAfter w v) r' := by
        obtain ⟨hv, hborder⟩ := htame.border hu hrule
        refine ih hp.drop ?_
        cases hword : wordAfter w u with
        | false => exact .inl hv
        | true => exact .inr (hborder hword)
      have hhead := htame.scan_head? hscan
      have hparts : ∀ v₁ v₂, v = v₁ ++ v₂ → ∀ w', (v₁ ≠ [] → w' = wordAfter w v₁) →
          (v₂ = [] → v₁ ≠ []) → Everywhere q w' (v₂ ++ r') := by
        intro v₁ v₂ heq w' hw' hne
        induction v₂ generalizing v₁ w' with
        | nil =>
            rw [List.append_nil] at heq
            subst heq
            rw [hw' (hne rfl)]
            exact hrest
        | cons c v₂ ihv =>
            refine ⟨hreplace hu hrule hhead v₁ (c :: v₂) heq (List.cons_ne_nil c v₂) w' hw', ?_⟩
            exact ihv (v₁ ++ [c]) (by rw [heq, List.append_assoc]; rfl) _ (fun _ => by simp)
              fun _ => by simp
      refine hparts [] v rfl w' (fun h => absurd rfl h) fun hv => ?_
      have hhead := htame.head hu hrule
      rw [hv] at hhead
      exact absurd (List.head?_eq_none_iff.mp hhead.symm) hu

end Rule.Tame

theorem Scan.eq_of_everywhere (h : Scan rule w t t') (hfixes : Everywhere (Fixes rule) w t) : t' = t := by
  induction h with
  | nil => rfl
  | keep _ _ ih => rw [ih hfixes.2]
  | @replace w u r v r' hu hrule _ ih =>
      have hv := hfixes.head (List.append_ne_nil_of_left_ne_nil hu r) v u.length hrule
      rw [List.take_left] at hv
      rw [ih hfixes.drop, hv]

section Border

variable {b m m₁ m₂ a : Text} {k k₁ k₂ : Nat}

/-- How many code points of the second part belong to a match that begins in the first one; `skip` code
points of the first one were dealt with. -/
def overrun (rule : Rule) : Bool → Nat → Text → Text → Nat
  | _, skip, [], _ => skip
  | _, skip + 1, c :: t, rest => overrun rule c.isWord skip t rest
  | w, 0, c :: t, rest => match rule w (c :: t ++ rest) with
    | some (_, n + 1) => overrun rule c.isWord n t rest
    | _ => overrun rule c.isWord 0 t rest

def front (rule : Rule) : Bool → Nat → Text → Text → Text
  | _, _, [], _ => []
  | _, skip + 1, c :: t, rest => front rule c.isWord skip t rest
  | w, 0, c :: t, rest => match rule w (c :: t ++ rest) with
    | some (written, n + 1) => written ++ front rule c.isWord n t rest
    | _ => c :: front rule c.isWord 0 t rest

theorem applyFrom_append (rule : Rule) (w : Bool) (k : Nat) (t rest : Text) :
    applyFrom rule w k (t ++ rest) =
      front rule w k t rest ++ applyFrom rule (wordAfter w t) (overrun rule w k t rest) rest := by
  induction t generalizing w k with
  | nil => rfl
  | cons c t ih =>
      cases k with
      | succ k => exact ih c.isWord k
      | zero =>
          simp only [List.cons_append, applyFrom, front, overrun, wordAfter_cons]
          generalize rule w (c :: (t ++ rest)) = o
          match o with
          | none | some (_, 0) => simp [ih]
          | some (_, _ + 1) => simp [ih]

theorem overrun_add (rule : Rule) (w : Bool) (t : Text) (k : Nat) (rest : Text) :
    overrun rule w (t.length + k) t rest = k := by
  induction t generalizing w with
  | nil => simp [overrun]
  | cons c t ih =>
      rw [List.length_cons, Nat.add_right_comm, overrun]
      exact ih c.isWord

/-- Matches that end before the border do not depend on how the text goes on. -/
theorem front_of_within {r₁ r₂ : Text}
    (h : ∀ y, y ≠ [] → ∀ w, rule w (y ++ r₁) = rule w (y ++ r₂) ∧
      ∀ v n, rule w (y ++ r₂) = some (v, n) → n ≤ y.length) (w : Bool) (b : Text) (hk : k ≤ b.length) :
    front rule w k b r₁ = front rule w k b r₂ ∧ overrun rule w k b r₁ = 0 ∧ overrun rule w k b r₂ = 0 := by
  induction b generalizing w k with
  | nil => exact ⟨rfl, Nat.le_zero.mp hk, Nat.le_zero.mp hk⟩
  | cons c b ih =>
      cases k with
      | succ k => exact ih c.isWord (Nat.le_of_succ_le_succ hk)
      | zero =>
          obtain ⟨heq, hwithin⟩ := h (c :: b) (List.cons_ne_nil c b) w
          simp only [front, overrun, heq]
          generalize rule w (c :: b ++ r₂) = o at hwithin ⊢
          match o with
          | none | some (_, 0) =>
              obtain ⟨hfront, hzero⟩ := ih c.isWord (Nat.zero_le _)
              exact ⟨congrArg (c :: ·) hfront, hzero⟩
          | some (v, n + 1) =>
              obtain ⟨hfront, hzero⟩ := ih c.isWord (Nat.le_of_succ_le_succ (hwithin v _ rfl))
              exact ⟨congrArg (v ++ ·) hfront, hzero⟩

def Abreast (y m₁ m₂ : Text) (k₁ k₂ : Nat) : Prop :=
  (k₁ = k₂ ∧ k₁ ≤ y.length) ∨ ∃ k, k₁ = y.length + m₁.length + k ∧ k₂ = y.length + m₂.length + k

theorem Abreast.eq_zero_iff (h : Abreast y m₁ m₂ k₁ k₂) (hy : y ≠ []) : k₁ = 0 ↔ k₂ = 0 := by
  have hpos := List.length_pos_iff.mpr hy
  obtain ⟨rfl, -⟩ | ⟨k, rfl, rfl⟩ := h
  · exact Iff.rfl
  · omega

theorem Abreast.of_cons (h : Abreast (c :: y) m₁ m₂ (k₁ + 1) (k₂ + 1)) : Abreast y m₁ m₂ k₁ k₂ := by
  obtain ⟨heq, hle⟩ | ⟨k, h₁, h₂⟩ := h
  · exact .inl ⟨Nat.succ.inj heq, Nat.le_of_succ_le_succ hle⟩
  · rw [List.length_cons] at h₁ h₂
    exact .inr ⟨k, by omega, by omega⟩

/-- What a rule says where `y` begins, before `m₁` and before `m₂`: the same, unless one of the matches ends
inside of them. -/
inductive AlikeMatch (y m₁ m₂ : Text) : Option (Text × Nat) → Option (Text × Nat) → Prop
  | none : AlikeMatch y m₁ m₂ none none
  | some {v : Text} {n₁ n₂ : Nat} : Abreast y m₁ m₂ n₁ n₂ → AlikeMatch y m₁ m₂ (some (v, n₁)) (some (v, n₂))
  | cutLeft {v : Text} {n : Nat} {o : Option (Text × Nat)} :
      y.length < n → n < y.length + m₁.length → AlikeMatch y m₁ m₂ (.some (v, n)) o
  | cutRight {v : Text} {n : Nat} {o : Option (Text × Nat)} :
      y.length < n → n < y.length + m₂.length → AlikeMatch y m₁ m₂ o (.some (v, n))

def NoneOrAll (m : Text) (k : Nat) : Prop := k = 0 ∨ m.length ≤ k

theorem not_noneOrAll_overrun {n : Nat} (hlow : b.length < n) (hhigh : n < b.length + m.length) (w : Bool)
    (rest : Text) : ¬NoneOrAll m (overrun rule w n b rest) := by
  obtain ⟨k, rfl⟩ := Nat.exists_eq_add_of_lt hlow
  rw [Nat.add_assoc, overrun_add]
  rintro (h | h) <;> omega

theorem front_of_alike
    (h : ∀ y, y ≠ [] → ∀ w, AlikeMatch y m₁ m₂ (rule w (y ++ (m₁ ++ a))) (rule w (y ++ (m₂ ++ a))))
    (hk : Abreast b m₁ m₂ k₁ k₂) (h₁ : NoneOrAll m₁ (overrun rule w k₁ b (m₁ ++ a)))
    (h₂ : NoneOrAll m₂ (overrun rule w k₂ b (m₂ ++ a))) :
    front rule w k₁ b (m₁ ++ a) = front rule w k₂ b (m₂ ++ a) ∧
      Abreast [] m₁ m₂ (overrun rule w k₁ b (m₁ ++ a)) (overrun rule w k₂ b (m₂ ++ a)) := by
  induction b generalizing w k₁ k₂ with
  | nil => exact ⟨rfl, hk⟩
  | cons c b ih =>
      match k₁, k₂, hk.eq_zero_iff (List.cons_ne_nil c b) with
      | k₁ + 1, k₂ + 1, _ => exact ih hk.of_cons h₁ h₂
      | 0, _ + 1, hzero => exact absurd (hzero.mp rfl) (Nat.succ_ne_zero _)
      | _ + 1, 0, hzero => exact absurd (hzero.mpr rfl) (Nat.succ_ne_zero _)
      | 0, 0, _ =>
          have hnone : Abreast b m₁ m₂ 0 0 := .inl ⟨rfl, Nat.zero_le _⟩
          have hmatch := h (c :: b) (List.cons_ne_nil c b) w
          simp only [front, overrun] at h₁ h₂ ⊢
          generalize rule w (c :: b ++ (m₁ ++ a)) = o₁ at hmatch h₁ ⊢
          generalize rule w (c :: b ++ (m₂ ++ a)) = o₂ at hmatch h₂ ⊢
          cases hmatch with
          | none =>
              obtain ⟨hfront, hover⟩ := ih hnone h₁ h₂
              exact ⟨congrArg (c :: ·) hfront, hover⟩
          | @some v n₁ n₂ hn =>
              match n₁, n₂, hn.eq_zero_iff (List.cons_ne_nil c b) with
              | 0, _ + 1, hzero => exact absurd (hzero.mp rfl) (Nat.succ_ne_zero _)
              | _ + 1, 0, hzero => exact absurd (hzero.mpr rfl) (Nat.succ_ne_zero _)
              | 0, 0, _ =>
                  obtain ⟨hfront, hover⟩ := ih hnone h₁ h₂
                  exact ⟨congrArg (c :: ·) hfront, hover⟩
              | n₁ + 1, n₂ + 1, _ =>
                  obtain ⟨hfront, hover⟩ := ih hn.of_cons h₁ h₂
                  exact ⟨congrArg (v ++ ·) hfront, hover⟩
          | @cutLeft v n _ hlow hhigh =>
              rw [List.length_cons] at hlow hhigh
              cases n with
              | zero => omega
              | succ n => exact absurd h₁ (not_noneOrAll_overrun (by omega) (by omega) _ _)
          | @cutRight v n _ hlow hhigh =>
              rw [List.length_cons] at hlow hhigh
              cases n with
              | zero => omega
              | succ n => exact absurd h₂ (not_noneOrAll_overrun (by omega) (by omega) _ _)

/-- Two texts that differ in the middle come out alike, or all matches that begin in front of the middle end
there. -/
theorem applyFrom_of_alike
    (h : ∀ y, y ≠ [] → ∀ w, AlikeMatch y m₁ m₂ (rule w (y ++ (m₁ ++ a))) (rule w (y ++ (m₂ ++ a))))
    (hword : ∀ w, wordAfter w m₁ = wordAfter w m₂) (h₁ : NoneOrAll m₁ (overrun rule w 0 b (m₁ ++ a)))
    (h₂ : NoneOrAll m₂ (overrun rule w 0 b (m₂ ++ a))) :
    applyFrom rule w 0 (b ++ (m₁ ++ a)) = applyFrom rule w 0 (b ++ (m₂ ++ a)) ∨
      (overrun rule w 0 b (m₁ ++ a) = 0 ∧ overrun rule w 0 b (m₂ ++ a) = 0 ∧
        front rule w 0 b (m₁ ++ a) = front rule w 0 b (m₂ ++ a)) := by
  obtain ⟨hfront, hover⟩ := front_of_alike h (.inl ⟨rfl, Nat.zero_le _⟩) h₁ h₂
  obtain ⟨heq, hle⟩ | ⟨k, hk₁, hk₂⟩ := hover
  · have hzero := Nat.le_zero.mp hle
    exact .inr ⟨hzero, heq ▸ hzero, hfront⟩
  · refine .inl ?_
    rw [List.length_nil, Nat.zero_add] at hk₁ hk₂
    calc applyFrom rule w 0 (b ++ (m₁ ++ a))
        = front rule w 0 b (m₁ ++ a) ++ applyFrom rule (wordAfter (wordAfter w b) m₁) k a := by
          rw [applyFrom_append, hk₁, applyFrom_skip]
      _ = front rule w 0 b (m₂ ++ a) ++ applyFrom rule (wordAfter (wordAfter w b) m₂) k a := by
          rw [hfront, hword]
      _ = applyFrom rule w 0 (b ++ (m₂ ++ a)) := by
          rw [applyFrom_append, hk₂, applyFrom_skip]

end Border

end MetricBridge.Redaction
