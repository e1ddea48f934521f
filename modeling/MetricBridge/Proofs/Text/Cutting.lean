import MetricBridge.Text.Basic
import Mathlib.Data.List.Basic

namespace MetricBridge.Text

variable {c : CodePoint} {t a b : Text} {parts : List Text}

theorem cutAt_append (h : c ∉ a) (b : Text) : cutAt c (a ++ c :: b) = some (a, b) := by
  induction a with
  | nil => simp [cutAt]
  | cons d a ih =>
      obtain ⟨hd, ha⟩ := List.ne_and_not_mem_of_not_mem_cons h
      simp [cutAt, hd.symm, ih ha]

theorem cutAt_of_notMem (h : c ∉ t) : cutAt c t = none := by
  induction t with
  | nil => rfl
  | cons d t ih =>
      obtain ⟨hd, ht⟩ := List.ne_and_not_mem_of_not_mem_cons h
      simp [cutAt, hd.symm, ih ht]

/-- A text is cut at the first of several equal code points. -/
theorem cutAt_eq_some_iff : cutAt c t = some (a, b) ↔ t = a ++ c :: b ∧ c ∉ a := by
  constructor
  · intro h
    have hmem : c ∈ t := by
      by_contra hnot
      rw [cutAt_of_notMem hnot] at h
      cases h
    obtain ⟨a', b', rfl, ha'⟩ := List.eq_append_cons_of_mem hmem
    rw [cutAt_append ha'] at h
    cases h
    exact ⟨rfl, ha'⟩
  · rintro ⟨rfl, h⟩
    exact cutAt_append h b

theorem pieces_append (h : c ∉ a) (b : Text) : pieces c (a ++ c :: b) = a :: pieces c b := by
  induction a with
  | nil => simp [pieces]
  | cons d a ih =>
      obtain ⟨hd, ha⟩ := List.ne_and_not_mem_of_not_mem_cons h
      simp [pieces, hd.symm, ih ha]

theorem pieces_of_notMem (h : c ∉ t) : pieces c t = [t] := by
  induction t with
  | nil => rfl
  | cons d t ih =>
      obtain ⟨hd, ht⟩ := List.ne_and_not_mem_of_not_mem_cons h
      simp [pieces, hd.symm, ih ht]

theorem notMem_of_mem_pieces (h : a ∈ pieces c t) : c ∉ a := by
  induction t generalizing a with
  | nil => exact List.mem_singleton.mp h ▸ List.not_mem_nil
  | cons d t ih =>
      rw [pieces] at h
      split at h
      · rcases List.mem_cons.mp h with rfl | h
        · exact List.not_mem_nil
        · exact ih h
      · rename_i hd
        have hcons : ∀ {piece : Text}, c ∉ piece → c ∉ d :: piece := fun hpiece hc =>
          (List.mem_cons.mp hc).elim (fun heq => hd heq.symm) hpiece
        split at h
        · exact List.mem_singleton.mp h ▸ hcons List.not_mem_nil
        · rename_i piece rest hpieces
          rw [hpieces] at ih
          rcases List.mem_cons.mp h with rfl | h
          · exact hcons (ih List.mem_cons_self)
          · exact ih (List.mem_cons_of_mem _ h)

theorem pieces_joinWith (hne : parts ≠ []) (h : ∀ part ∈ parts, c ∉ part) :
    pieces c (joinWith [c] parts) = parts := by
  induction parts with
  | nil => exact absurd rfl hne
  | cons part parts ih =>
      obtain ⟨hpart, hparts⟩ := List.forall_mem_cons.mp h
      cases parts with
      | nil => exact pieces_of_notMem hpart
      | cons next parts =>
          rw [joinWith, List.append_assoc]
          · exact (pieces_append hpart _).trans
              (congrArg (part :: ·) (ih (List.cons_ne_nil _ _) hparts))
          · nofun

end MetricBridge.Text
