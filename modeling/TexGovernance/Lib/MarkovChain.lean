import Mathlib.Algebra.BigOperators.Fin
import Mathlib.Algebra.BigOperators.Ring.Finset
import Mathlib.Algebra.Order.BigOperators.Ring.Finset
import Mathlib.Algebra.Order.Field.Rat
import Mathlib.Data.Fintype.BigOperators
import Mathlib.Logic.Function.Iterate
import Mathlib.Tactic.Linarith

/-!
# Finite Markov chains

The probability that a chain visits a set within a number of steps is the sum
over the paths of that many steps. Making the set absorbing and propagating the
distribution computes it.
-/

namespace MarkovChain

variable {S : Type} [Fintype S] (P : S → S → ℚ) (bad : S → Bool)

structure RowStochastic : Prop where
  nonneg : ∀ s t, 0 ≤ P s t
  total : ∀ s, ∑ t, P s t = 1

def weight : S → List S → ℚ
  | _, [] => 1
  | s, t :: path => P s t * weight t path

def visits (s : S) (path : List S) : Bool := (s :: path).any bad

/-- The chain started in `s` visits a bad state within `k` steps. -/
def visitProbability (k : ℕ) (s : S) : ℚ :=
  ∑ path : Fin k → S, if visits bad s (List.ofFn path) then weight P s (List.ofFn path) else 0

theorem sum_paths (f : List S → ℚ) (k : ℕ) :
    ∑ path : Fin (k + 1) → S, f (List.ofFn path) =
      ∑ t, ∑ path : Fin k → S, f (t :: List.ofFn path) := by
  rw [← Fintype.sum_prod_type']
  refine Fintype.sum_equiv (Fin.consEquiv fun _ => S).symm _ _ fun path => ?_
  rw [List.ofFn_succ]
  rfl

theorem visitProbability_zero (s : S) : visitProbability P bad 0 s = if bad s = true then 1 else 0 := by
  unfold visitProbability
  rw [Fintype.sum_unique, List.ofFn_zero]
  simp [visits, weight]

theorem visitProbability_succ {s : S} (hs : bad s ≠ true) (k : ℕ) :
    visitProbability P bad (k + 1) s = ∑ t, P s t * visitProbability P bad k t := by
  unfold visitProbability
  rw [sum_paths (fun path => if visits bad s path then weight P s path else 0)]
  refine Finset.sum_congr rfl fun t _ => ?_
  rw [Finset.mul_sum]
  refine Finset.sum_congr rfl fun path _ => ?_
  have hlater : visits bad s (t :: List.ofFn path) = visits bad t (List.ofFn path) := by
    rw [visits, List.any_cons, Bool.eq_false_iff.mpr hs, Bool.false_or, visits]
  rw [hlater, mul_ite, mul_zero]
  rfl

section Stochastic

variable {P} (hP : RowStochastic P)
include hP

theorem total_weight (k : ℕ) (s : S) : ∑ path : Fin k → S, weight P s (List.ofFn path) = 1 := by
  induction k generalizing s with
  | zero => rw [Fintype.sum_unique, List.ofFn_zero, weight]
  | succ k ih =>
    rw [sum_paths]
    calc ∑ t, ∑ path : Fin k → S, weight P s (t :: List.ofFn path)
        = ∑ t, P s t * ∑ path : Fin k → S, weight P t (List.ofFn path) := by
          refine Finset.sum_congr rfl fun t _ => ?_
          rw [Finset.mul_sum]
          rfl
      _ = ∑ t, P s t := Finset.sum_congr rfl fun t _ => by rw [ih, mul_one]
      _ = 1 := hP.total s

theorem visitProbability_of_bad {s : S} (hs : bad s = true) (k : ℕ) : visitProbability P bad k s = 1 := by
  rw [← total_weight hP k s]
  refine Finset.sum_congr rfl fun path _ => if_pos ?_
  rw [visits, List.any_cons, hs, Bool.true_or]

theorem visitProbability_nonneg (k : ℕ) (s : S) : 0 ≤ visitProbability P bad k s := by
  induction k generalizing s with
  | zero =>
    rw [visitProbability_zero]
    split <;> norm_num
  | succ k ih =>
    by_cases hs : bad s = true
    · rw [visitProbability_of_bad bad hP hs]
      norm_num
    · rw [visitProbability_succ P bad hs]
      exact Finset.sum_nonneg fun t _ => mul_nonneg (hP.nonneg s t) (ih t)

theorem visitProbability_le_one (k : ℕ) (s : S) : visitProbability P bad k s ≤ 1 := by
  induction k generalizing s with
  | zero =>
    rw [visitProbability_zero]
    split <;> norm_num
  | succ k ih =>
    by_cases hs : bad s = true
    · exact (visitProbability_of_bad bad hP hs _).le
    · rw [visitProbability_succ P bad hs, ← hP.total s]
      refine Finset.sum_le_sum fun t _ => ?_
      exact mul_le_of_le_one_right (hP.nonneg s t) (ih t)

theorem visitProbability_le_succ (k : ℕ) (s : S) :
    visitProbability P bad k s ≤ visitProbability P bad (k + 1) s := by
  induction k generalizing s with
  | zero =>
    rw [visitProbability_zero]
    split
    · rename_i hs
      exact (visitProbability_of_bad bad hP hs _).ge
    · exact visitProbability_nonneg bad hP _ _
  | succ k ih =>
    by_cases hs : bad s = true
    · rw [visitProbability_of_bad bad hP hs, visitProbability_of_bad bad hP hs]
    · rw [visitProbability_succ P bad hs, visitProbability_succ P bad hs]
      exact Finset.sum_le_sum fun t _ => mul_le_mul_of_nonneg_left (ih t) (hP.nonneg s t)

theorem visitProbability_mono (s : S) : Monotone fun k => visitProbability P bad k s :=
  monotone_nat_of_le_succ fun k => visitProbability_le_succ bad hP k s

end Stochastic

section Propagation

variable [DecidableEq S]

def absorbing (s t : S) : ℚ := if bad s = true then if t = s then 1 else 0 else P s t

def propagate (M : S → S → ℚ) (pi : S → ℚ) (t : S) : ℚ := ∑ s, pi s * M s t

def oneHot (s t : S) : ℚ := if t = s then 1 else 0

def badMass (pi : S → ℚ) : ℚ := ∑ s, if bad s = true then pi s else 0

variable {P} (hP : RowStochastic P)
include hP

theorem visitProbability_absorbing (k : ℕ) (s : S) :
    visitProbability P bad (k + 1) s = ∑ t, absorbing P bad s t * visitProbability P bad k t := by
  unfold absorbing
  by_cases hs : bad s = true
  · simp only [if_pos hs, ite_mul, one_mul, zero_mul, Finset.sum_ite_eq', Finset.mem_univ, if_true]
    rw [visitProbability_of_bad bad hP hs, visitProbability_of_bad bad hP hs]
  · simp only [if_neg hs]
    exact visitProbability_succ P bad hs k

theorem badMass_propagate (k : ℕ) (pi : S → ℚ) :
    badMass bad ((propagate (absorbing P bad))^[k] pi) = ∑ s, pi s * visitProbability P bad k s := by
  induction k generalizing pi with
  | zero =>
    refine Finset.sum_congr rfl fun s _ => ?_
    rw [visitProbability_zero, mul_ite, mul_one, mul_zero]
    rfl
  | succ k ih =>
    rw [Function.iterate_succ_apply, ih]
    simp only [propagate, Finset.sum_mul]
    rw [Finset.sum_comm]
    refine Finset.sum_congr rfl fun s _ => ?_
    rw [visitProbability_absorbing bad hP, Finset.mul_sum]
    exact Finset.sum_congr rfl fun t _ => mul_assoc ..

theorem badMass_oneHot (k : ℕ) (s : S) :
    badMass bad ((propagate (absorbing P bad))^[k] (oneHot s)) = visitProbability P bad k s := by
  rw [badMass_propagate bad hP]
  simp only [oneHot, ite_mul, one_mul, zero_mul, Finset.sum_ite_eq', Finset.mem_univ, if_true]

end Propagation

end MarkovChain
