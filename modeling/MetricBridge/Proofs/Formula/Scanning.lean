import MetricBridge.Formula.Scan
import MetricBridge.Proofs.Except

namespace MetricBridge.Formula

variable {t rest : Text} {ts : List Token}

theorem scanLexeme_ne_finish {c : CodePoint} {l : Lexeme} {position : Nat}
    (h : scanLexeme position (c :: t) = .ok (l, rest)) : l ≠ .finish := by
  unfold scanLexeme at h
  dsimp only at h
  split at h
  · split at h
    · cases h
      nofun
    · cases h
  · split at h
    · split at h
      · cases h
      · cases h
        nofun
    · split at h
      · cases h
        nofun
      · split at h
        · cases h
          nofun
        · cases h

theorem scanFrom_ends {fuel position : Nat} (h : scanFrom fuel position t = .ok ts) :
    ∃ body p, ts = body ++ [⟨.finish, p⟩] ∧ ∀ u ∈ body, u.lexeme ≠ .finish := by
  have hcons : ∀ {u : Token} {us}, u.lexeme ≠ .finish →
      (∃ body p, us = body ++ [⟨.finish, p⟩] ∧ ∀ u ∈ body, u.lexeme ≠ .finish) →
      ∃ body p, u :: us = body ++ [⟨.finish, p⟩] ∧ ∀ u ∈ body, u.lexeme ≠ .finish := by
    rintro u us hu ⟨body, p, rfl, hbody⟩
    exact ⟨u :: body, p, rfl, List.forall_mem_cons.mpr ⟨hu, hbody⟩⟩
  induction fuel generalizing position t ts with
  | zero =>
      cases h
      exact ⟨[], position, rfl, nofun⟩
  | succ fuel ih =>
      unfold scanFrom at h
      split at h
      · cases h
        exact ⟨[], position, rfl, nofun⟩
      · split at h
        · obtain ⟨us, hus, rfl⟩ := map_eq_ok h
          exact hcons nofun (ih hus)
        · split at h
          · exact ih h
          · split at h
            · cases h
            · rename_i l rest hl
              obtain ⟨us, hus, rfl⟩ := map_eq_ok h
              exact hcons (scanLexeme_ne_finish hl) (ih hus)

end MetricBridge.Formula
