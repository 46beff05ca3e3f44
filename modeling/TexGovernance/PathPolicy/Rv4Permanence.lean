import TexGovernance.PathPolicy.Ltlf

/-!
# Permanent RV4 verdicts are irrevocable

A position of a trace is compared with a position of an extension of it.
-/

namespace TexGovernance.PathPolicy
open FiniteTrace

variable {Step : Type} (holds : Step → Atom → Bool)

attribute [local simp] canBecomeTrue canBecomeFalse

/-- Position `k` of an extension by `added` steps can stand for position `i`
of a trace of length `n`. -/
def Moves (n added i k : ℕ) : Prop := i ≤ k ∧ k ≤ i + added ∧ (i < n → k = i)

theorem Moves.refl (n added i : ℕ) : Moves n added i i := ⟨le_rfl, by omega, fun _ => rfl⟩

theorem Moves.succ {n added i k : ℕ} (h : Moves n added i k) : Moves n added (i + 1) (k + 1) := by
  obtain ⟨h1, h2, h3⟩ := h
  exact ⟨by omega, by omega, fun hi => by have := h3 (by omega); omega⟩

theorem Moves.reach {n added i k j : ℕ} (h : Moves n added i k) (hkj : k ≤ j)
    (hj : j ≤ max k (n + added)) : ∃ j0, i ≤ j0 ∧ j0 ≤ max i n ∧ Moves n added j0 j := by
  obtain ⟨h1, h2, h3⟩ := h
  by_cases hn : j < n
  · exact ⟨j, by omega, by omega, Moves.refl n added j⟩
  · exact ⟨max i n, by omega, le_rfl, by omega, by omega, fun hlt => absurd hlt (by omega)⟩

end TexGovernance.PathPolicy
