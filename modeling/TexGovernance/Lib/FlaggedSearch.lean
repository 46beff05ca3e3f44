import TexGovernance.Lib.GraphSearch
import Mathlib.Algebra.BigOperators.Group.Finset.Sigma
import Mathlib.Algebra.BigOperators.Ring.Finset
import Mathlib.Data.Fintype.BigOperators
import Mathlib.Data.Fintype.Prod

/-!
# Searches that remember a mark

A backward search over pairs of a node and a flag, which is set once an edge with a mark is
taken. What it reaches with the flag set is what leads to the start by a walk with a mark.
-/

namespace GraphSearch

variable {α κ : Type}

def flagged (preds : α → List (α × κ)) (mark : κ → Bool) (p : α × Bool) : List (α × Bool) :=
  (preds p.1).map fun e => (e.1, p.2 || mark e.2)

theorem flagged_reach_iff (preds : α → List (α × κ)) (mark : κ → Bool) (v u : α) (b : Bool) :
    Relation.ReflTransGen (fun p q => q ∈ flagged preds mark p) (v, false) (u, b) ↔
      ∃ ps, Walk (fun x k y => (x, k) ∈ preds y) u ps v ∧ b = ps.any fun p => mark p.2 := by
  constructor
  · intro h
    generalize hend : (u, b) = stop at h
    induction h generalizing u b with
    | refl =>
      cases hend
      exact ⟨[], .nil v, rfl⟩
    | @tail mid stop _ hstep ih =>
      obtain ⟨w, crossed⟩ := mid
      obtain ⟨e, he, heq⟩ := List.mem_map.mp hstep
      cases hend.trans heq.symm
      obtain ⟨ps, hwalk, hcrossed⟩ := ih w crossed rfl
      refine ⟨(e.1, e.2) :: ps, .cons he hwalk, ?_⟩
      rw [List.any_cons, ← hcrossed, Bool.or_comm]
  · intro h
    obtain ⟨ps, hwalk, rfl⟩ := h
    induction hwalk with
    | nil x => exact .refl
    | @cons x y z k ps hedge _ ih =>
      refine ih.tail (List.mem_map.mpr ⟨(x, k), hedge, ?_⟩)
      rw [List.any_cons, Bool.or_comm]

variable [DecidableEq α]

theorem pending_flagged (preds : α → List (α × κ)) (mark : κ → Bool) (nodes : Finset α) :
    pending (flagged preds mark) (nodes ×ˢ Finset.univ) [] = 2 * ∑ x ∈ nodes, (preds x).length := by
  have hlength (p : α × Bool) : (flagged preds mark p).length = (preds p.1).length := List.length_map _
  unfold pending
  rw [Finset.filter_true_of_mem fun x _ => List.not_mem_nil, Finset.sum_product]
  simp only [hlength, Fintype.sum_bool, ← two_mul, Finset.mul_sum]

theorem closure_keeps {succ : α → List α} {fuel : ℕ} {stack visited result : List α}
    (h : closure succ fuel stack visited = some result) : ∀ x ∈ visited, x ∈ result := by
  induction fuel generalizing stack visited with
  | zero => cases h
  | succ fuel ih =>
    cases stack with
    | nil =>
      cases h
      exact fun x hx => hx
    | cons current rest =>
      unfold closure at h
      by_cases hseen : current ∈ visited
      · rw [if_pos hseen] at h
        exact ih h
      · rw [if_neg hseen] at h
        exact fun x hx => ih h x (List.mem_append_left _ hx)

theorem closure_nodup {succ : α → List α} {fuel : ℕ} {stack visited result : List α}
    (h : closure succ fuel stack visited = some result) (hnodup : visited.Nodup) : result.Nodup := by
  induction fuel generalizing stack visited with
  | zero => cases h
  | succ fuel ih =>
    cases stack with
    | nil =>
      cases h
      exact hnodup
    | cons current rest =>
      unfold closure at h
      by_cases hseen : current ∈ visited
      · rw [if_pos hseen] at h
        exact ih h hnodup
      · rw [if_neg hseen] at h
        exact ih h (hnodup.append (List.nodup_singleton _) (List.disjoint_singleton.mpr hseen))

end GraphSearch
