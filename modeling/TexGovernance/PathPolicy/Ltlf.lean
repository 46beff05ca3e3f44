import TexGovernance.Lib.PyStr
import TexGovernance.Lib.Traces

/-!
# LTLf path policies (`governance/path_policy/ltlf.py`)

The formula tree of a path policy, its evaluation at a position of a finite trace, and the
four-valued verdict, which over-approximates the truth values that an extension of the trace can
still produce. The comparison of an atom with a step is a section variable.
-/

namespace TexGovernance.PathPolicy
open FiniteTrace PyStr

inductive Comparator where
  | eq
  | ne
  | ge
  | le
  | gt
  | lt
  deriving DecidableEq, Repr

structure Atom where
  lhs : Str
  rhs : Comparator
  value : Str
  deriving DecidableEq

inductive Node where
  | const (value : Bool)
  | atom (a : Atom)
  | not (arg : Node)
  | and (left right : Node)
  | or (left right : Node)
  | implies (left right : Node)
  | next (arg : Node)
  | globally (arg : Node)
  | eventually (arg : Node)
  | until (left right : Node)
  deriving DecidableEq

section Semantics

variable {Step : Type} (holds : Step → Atom → Bool)

/-- `_eval_at`: truth at position `i`, with positions past the end allowed. -/
def evalAt : Node → List Step → ℕ → Bool
  | .const value, _, _ => value
  | .atom a, t, i =>
    -- past the end an atom is false
    match t[i]? with
    | none => false
    | some step => holds step a
  | .not arg, t, i => !evalAt arg t i
  | .and left right, t, i => evalAt left t i && evalAt right t i
  | .or left right, t, i => evalAt left t i || evalAt right t i
  | .implies left right, t, i => !evalAt left t i || evalAt right t i
  | .next arg, t, i => if i + 1 ≥ t.length then false else evalAt arg t (i + 1)
  | .globally arg, t, i => (span i t.length).all fun j => evalAt arg t j
  | .eventually arg, t, i => (span i t.length).any fun j => evalAt arg t j
  | .until left right, t, i =>
    (span i t.length).any fun k =>
      evalAt right t k && (span i k).all fun j => evalAt left t j

mutual

def canBecomeTrue : Node → List Step → ℕ → Bool
  | .const value, _, _ => value
  | .atom a, t, i => if i < t.length then evalAt holds (.atom a) t i else true
  | .not arg, t, i => canBecomeFalse arg t i
  | .and left right, t, i => canBecomeTrue left t i && canBecomeTrue right t i
  | .or left right, t, i => canBecomeTrue left t i || canBecomeTrue right t i
  | .implies left right, t, i => canBecomeFalse left t i || canBecomeTrue right t i
  | .next arg, t, i => canBecomeTrue arg t (i + 1)
  | .globally arg, t, i => (span i t.length).all fun k => canBecomeTrue arg t k
  | .eventually arg, t, i =>
    (span i t.length).any (fun k => canBecomeTrue arg t k) ||
      canBecomeTrue arg t (max i t.length)
  | .until left right, t, i =>
    untilWalk (fun k => canBecomeTrue right t k) (fun k => canBecomeTrue left t k)
      (canBecomeTrue right t (max i t.length)) (span i t.length)

def canBecomeFalse : Node → List Step → ℕ → Bool
  | .const value, _, _ => !value
  | .atom a, t, i => if i < t.length then !evalAt holds (.atom a) t i else true
  | .not arg, t, i => canBecomeTrue arg t i
  | .and left right, t, i => canBecomeFalse left t i || canBecomeFalse right t i
  | .or left right, t, i => canBecomeFalse left t i && canBecomeFalse right t i
  | .implies left right, t, i => canBecomeTrue left t i && canBecomeFalse right t i
  | .next arg, t, i =>
    if i + 1 ≥ t.length then true else canBecomeFalse arg t (i + 1)
  | .globally arg, t, i =>
    (span i t.length).any (fun k => canBecomeFalse arg t k) ||
      canBecomeFalse arg t (max i t.length)
  | .eventually arg, t, i =>
    -- the last position tried is the first appended one
    (span i (t.length + 1)).all fun k => canBecomeFalse arg t k
  | .until _ _, _, _ => true

end

end Semantics

end TexGovernance.PathPolicy
