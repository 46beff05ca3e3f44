import TexGovernance.PathPolicy.Ltlf
import TexGovernance.Contracts.Ltl

/-!
# The two LTLf evaluators agree

A formula of the textbook syntax is read into the trees of `contracts/_ltl.py` and of
`governance/path_policy/ltlf.py`; the two evaluators return the same value at every position, and
at a position of the trace it is textbook satisfaction.
-/

namespace TexGovernance
open FiniteTrace PyStr

variable {α Step : Type}

def toPath (f : α → PathPolicy.Atom) : Formula α → PathPolicy.Node
  | .const b => .const b
  | .atom a => .atom (f a)
  | .not φ => .not (toPath f φ)
  | .and φ ψ => .and (toPath f φ) (toPath f ψ)
  | .or φ ψ => .or (toPath f φ) (toPath f ψ)
  | .implies φ ψ => .implies (toPath f φ) (toPath f ψ)
  | .next φ => .next (toPath f φ)
  | .globally φ => .globally (toPath f φ)
  | .eventually φ => .eventually (toPath f φ)
  | .until φ ψ => .until (toPath f φ) (toPath f ψ)

def toContract (g : α → Str) : Formula α → Contracts.Node
  | .const b => .const b
  | .atom a => .atom (g a)
  | .not φ => .not (toContract g φ)
  | .and φ ψ => .and (toContract g φ) (toContract g ψ)
  | .or φ ψ => .or (toContract g φ) (toContract g ψ)
  | .implies φ ψ => .implies (toContract g φ) (toContract g ψ)
  | .next φ => .next (toContract g φ)
  | .globally φ => .globally (toContract g φ)
  | .eventually φ => .eventually (toContract g φ)
  | .until φ ψ => .until (toContract g φ) (toContract g ψ)

theorem untilWalk_eq_any (goal keep : ℕ → Bool) (lo hi : ℕ) :
    untilWalk goal keep false (span lo hi) =
      (span lo hi).any fun k => goal k && (span lo k).all keep := by
  rw [Bool.eq_iff_iff, untilWalk_span, any_span]
  simp only [Bool.false_eq_true, false_and, or_false, Bool.and_eq_true, all_span]

section Agreement

variable (f : α → PathPolicy.Atom) (g : α → Str)
variable (holds : Step → PathPolicy.Atom → Bool) (resolver : Str → Step → Bool)

theorem evalLtlf_eq_evalAt (hv : ∀ step a, resolver (g a) step = holds step (f a))
    (φ : Formula α) (t : List Step) :
    ∀ i, Contracts.evalLtlf resolver (toContract g φ) t i =
      PathPolicy.evalAt holds (toPath f φ) t i := by
  induction φ with
  | const b =>
    intro i
    rfl
  | atom a =>
    intro i
    simp only [toContract, toPath, Contracts.evalLtlf, PathPolicy.evalAt]
    cases t[i]? with
    | none => rfl
    | some step => exact hv step a
  | not φ ih =>
    intro i
    simp only [toContract, toPath, Contracts.evalLtlf, PathPolicy.evalAt, ih i]
  | and φ ψ ihl ihr =>
    intro i
    simp only [toContract, toPath, Contracts.evalLtlf, PathPolicy.evalAt, ihl i, ihr i]
  | or φ ψ ihl ihr =>
    intro i
    simp only [toContract, toPath, Contracts.evalLtlf, PathPolicy.evalAt, ihl i, ihr i]
  | implies φ ψ ihl ihr =>
    intro i
    simp only [toContract, toPath, Contracts.evalLtlf, PathPolicy.evalAt, ihl i, ihr i]
    cases PathPolicy.evalAt holds (toPath f φ) t i <;> rfl
  | next φ ih =>
    intro i
    simp only [toContract, toPath, Contracts.evalLtlf, PathPolicy.evalAt, ih (i + 1)]
  | globally φ ih =>
    intro i
    simp only [toContract, toPath, Contracts.evalLtlf, PathPolicy.evalAt, ih]
  | eventually φ ih =>
    intro i
    simp only [toContract, toPath, Contracts.evalLtlf, PathPolicy.evalAt, ih]
  | «until» φ ψ ihl ihr =>
    intro i
    simp only [toContract, toPath, Contracts.evalLtlf, PathPolicy.evalAt, ihl, ihr]
    exact untilWalk_eq_any _ _ i t.length

def traceValuation (t : List Step) (j : ℕ) (a : α) : Prop :=
  ∃ step, t[j]? = some step ∧ holds step (f a) = true

theorem evalAt_iff_sat (φ : Formula α) (t : List Step) :
    ∀ i, i < t.length → (PathPolicy.evalAt holds (toPath f φ) t i = true ↔
      Sat (traceValuation f holds t) t.length φ i) := by
  induction φ with
  | const b =>
    intro i _
    rfl
  | atom a =>
    intro i hi
    simp only [toPath, PathPolicy.evalAt, Sat, traceValuation, List.getElem?_eq_getElem hi,
      Option.some.injEq, exists_eq_left']
  | not φ ih =>
    intro i hi
    simp only [toPath, PathPolicy.evalAt, Sat, ← ih i hi, Bool.not_eq_true', Bool.not_eq_true]
  | and φ ψ ihl ihr =>
    intro i hi
    simp only [toPath, PathPolicy.evalAt, Sat, ← ihl i hi, ← ihr i hi, Bool.and_eq_true]
  | or φ ψ ihl ihr =>
    intro i hi
    simp only [toPath, PathPolicy.evalAt, Sat, ← ihl i hi, ← ihr i hi, Bool.or_eq_true]
  | implies φ ψ ihl ihr =>
    intro i hi
    simp only [toPath, PathPolicy.evalAt, Sat, ← ihl i hi, ← ihr i hi, Bool.or_eq_true,
      Bool.not_eq_true']
    cases PathPolicy.evalAt holds (toPath f φ) t i <;> simp
  | next φ ih =>
    intro i hi
    simp only [toPath, PathPolicy.evalAt, Sat]
    by_cases hn : i + 1 < t.length
    · have hge : ¬ (i + 1 ≥ t.length) := by omega
      simp only [hge, ite_false, hn, true_and]
      exact ih (i + 1) hn
    · have hge : i + 1 ≥ t.length := by omega
      simp only [hge, ite_true, hn, false_and, Bool.false_eq_true]
  | globally φ ih =>
    intro i hi
    simp only [toPath, PathPolicy.evalAt, Sat, all_span]
    exact forall_congr' fun j => forall_congr' fun _ => forall_congr' fun hj => ih j hj
  | eventually φ ih =>
    intro i hi
    simp only [toPath, PathPolicy.evalAt, Sat, any_span]
    exact exists_congr fun j => and_congr_right fun _ => and_congr_right fun hj => ih j hj
  | «until» φ ψ ihl ihr =>
    intro i hi
    simp only [toPath, PathPolicy.evalAt, Sat, any_span, Bool.and_eq_true, all_span]
    refine exists_congr fun j => and_congr_right fun _ => and_congr_right fun hj => ?_
    refine and_congr (ihr j hj) ?_
    exact forall_congr' fun k => forall_congr' fun _ => forall_congr' fun hk => ihl k (by omega)

/-- Agreement of the evaluators up to the position past the end, and with
textbook satisfaction on the positions of the trace. -/
theorem evaluators_agree (hv : ∀ step a, resolver (g a) step = holds step (f a))
    (φ : Formula α) (t : List Step) (i : ℕ) (_hi : i ≤ t.length) :
    Contracts.evalLtlf resolver (toContract g φ) t i =
        PathPolicy.evalAt holds (toPath f φ) t i ∧
      (i < t.length → (Contracts.evalLtlf resolver (toContract g φ) t i = true ↔
        Sat (traceValuation f holds t) t.length φ i)) := by
  have hagree := evalLtlf_eq_evalAt f g holds resolver hv φ t i
  refine ⟨hagree, fun hlt => ?_⟩
  rw [hagree]
  exact evalAt_iff_sat f holds φ t i hlt

end Agreement

theorem evaluators_agree_next :
    Contracts.evalLtlf (fun _ step => step) (toContract (fun _ : Unit => lit ['a'])
        (.next (.atom ()))) [true, true] 1 = false ∧
      ¬ Sat (traceValuation (fun _ : Unit => ⟨lit ['t', 'o', 'o', 'l'], .eq, lit ['a']⟩)
        (fun step _ => step) [true, true]) 2 (.next (.atom ())) 1 := by
  have h := evaluators_agree (fun _ : Unit => ⟨lit ['t', 'o', 'o', 'l'], .eq, lit ['a']⟩)
    (fun _ => lit ['a']) (fun step _ => step) (fun _ step => step) (fun _ _ => rfl)
    (.next (.atom ())) [true, true] 1 (by decide)
  have hval : Contracts.evalLtlf (fun _ step => step) (toContract (fun _ : Unit => lit ['a'])
      (.next (.atom ()))) [true, true] 1 = false := rfl
  refine ⟨hval, fun hs => ?_⟩
  have htrue := (h.2 (by decide)).mpr hs
  rw [hval] at htrue
  exact Bool.noConfusion htrue

end TexGovernance
