import TexGovernance.Lib.PyJson
import TexGovernance.Lib.PyRepr
import TexGovernance.Lib.Tarjan
import TexGovernance.Pcas.Ast

/-!
# Stratification

The embedding of `pcas/language/stratify.py`: helper calls are lifted out of
the bodies, every rule is checked for safety, and the components of the
dependency graph become the strata.
-/

namespace TexGovernance.Pcas
open PyStr PyDict PyJson PyRepr Pipeline

structure Stratum where
  index : ℕ
  predicates : List Str
  rules : List Rule

section Disambiguate

variable (repr : Str → Str) (helperNames : List Str)

def negatedHelper (n : NegatedAtom) : Str :=
  txt "helper " ++ repr n.atom.predicate ++ txt " cannot appear negated (line " ++
    natText n.line ++ txt ", col " ++ natText n.col ++ txt ")"

def disambiguateElement : BodyElement → Except PcasError BodyElement
  | .atom a =>
    .ok (if a.predicate ∈ helperNames then .helper ⟨a.predicate, a.args, a.line, a.col⟩ else .atom a)
  | .negated n =>
    if n.atom.predicate ∈ helperNames then .error (.stratification (negatedHelper repr n))
    else .ok (.negated n)
  | .helper h => .ok (.helper h)

def disambiguateRule (r : Rule) : Except PcasError Rule := do
  let body ← r.body.mapM (disambiguateElement repr helperNames)
  return { r with body := body }

def disambiguateProgram (p : Program) : Except PcasError Program := do
  let rules ← p.rules.mapM (disambiguateRule repr helperNames)
  return ⟨rules⟩

end Disambiguate

section Safety

variable (repr : Str → Str)

def positiveVars (r : Rule) : List Str := r.positiveAtoms.flatMap fun a => a.args.filterMap Term.named

def anonymousHead (r : Rule) : Str :=
  txt "anonymous variable in head of rule for " ++ repr r.head.predicate ++ txt " (line " ++
    natText r.line ++ txt ")"

def unsafeRule (place : Str) (line : ℕ) : Str :=
  txt "unsafe rule: " ++ place ++ txt " is not bound by any positive body atom (line " ++
    natText line ++ txt ")"

def headProblem (r : Rule) : Term → Option Str
  | .const _ => none
  | .var name =>
    if isAnonymous name then some (anonymousHead repr r)
    else if name ∈ positiveVars r then none
    else some (unsafeRule (txt "head variable " ++ repr name ++ txt " of " ++
      repr r.head.predicate) r.line)

def negatedProblem (r : Rule) (n : NegatedAtom) : Term → Option Str
  | .const _ => none
  | .var name =>
    if isAnonymous name ∨ name ∈ positiveVars r then none
    else some (unsafeRule (txt "variable " ++ repr name ++ txt " in negated atom " ++
      repr n.atom.predicate) n.line)

def helperProblem (r : Rule) (h : HelperCall) : Term → Option Str
  | .const _ => none
  | .var name =>
    if isAnonymous name ∨ name ∈ positiveVars r then none
    else some (unsafeRule (txt "variable " ++ repr name ++ txt " in helper " ++ repr h.name) h.line)

def safetyProblems (r : Rule) : List Str :=
  r.head.args.filterMap (headProblem repr r) ++
    r.negatedAtoms.flatMap (fun n => n.atom.args.filterMap (negatedProblem repr r n)) ++
    r.helperCalls.flatMap (fun h => h.args.filterMap (helperProblem repr r h))

def checkSafety (p : Program) : Except PcasError Unit :=
  match (p.rules.flatMap (safetyProblems repr)).head? with
  | some message => .error (.stratification message)
  | none => .ok ()

end Safety

def addName (names : List Str) (x : Str) : List Str := if x ∈ names then names else names ++ [x]

structure PredicateGraph where
  nodes : List Str
  posEdges : Dict Str (List Str)
  negEdges : Dict Str (List Str)

def edgesFrom (edges : Dict Str (List Str)) (p : Str) : List Str := (edges.get? p).getD []

def setDefault (edges : Dict Str (List Str)) (p : Str) : Dict Str (List Str) :=
  if (edges.get? p).isSome then edges else edges.set p []

def addEdge (edges : Dict Str (List Str)) (p q : Str) : Dict Str (List Str) :=
  edges.set p (addName (edgesFrom edges p) q)

namespace PredicateGraph

def empty : PredicateGraph := ⟨[], Dict.empty, Dict.empty⟩

def addHead (g : PredicateGraph) (p : Str) : PredicateGraph :=
  ⟨addName g.nodes p, setDefault g.posEdges p, setDefault g.negEdges p⟩

def addPositive (p : Str) (g : PredicateGraph) (a : Atom) : PredicateGraph :=
  ⟨addName g.nodes a.predicate, setDefault (addEdge g.posEdges p a.predicate) a.predicate,
    setDefault g.negEdges a.predicate⟩

def addNegated (p : Str) (g : PredicateGraph) (n : NegatedAtom) : PredicateGraph :=
  ⟨addName g.nodes n.atom.predicate, setDefault g.posEdges n.atom.predicate,
    setDefault (addEdge g.negEdges p n.atom.predicate) n.atom.predicate⟩

def addRule (g : PredicateGraph) (r : Rule) : PredicateGraph :=
  let p := r.head.predicate
  r.negatedAtoms.foldl (addNegated p) (r.positiveAtoms.foldl (addPositive p) (g.addHead p))

def build (p : Program) : PredicateGraph := p.rules.foldl addRule empty

def edgesOf (g : PredicateGraph) (p : Str) : List Str :=
  (edgesFrom g.negEdges p).foldl addName (edgesFrom g.posEdges p)

end PredicateGraph

section Strata

variable (repr : Str → Str) (order : SetOrder)

/-- `remaining.pop()` takes the last name of the set's order. -/
def tarjanSccs (g : PredicateGraph) : List (List Str) :=
  Tarjan.components (fun p => (order.names (g.edgesOf p)).reverse) (sortedNames g.nodes)

def selfNegated (p : Str) : Str :=
  txt "predicate " ++ repr p ++ txt " is recursively defined through negation (self-negated cycle)"

def negativeCycle (component : List Str) (u v : Str) : Str :=
  txt "predicate " ++ repr u ++ txt " depends on " ++ repr v ++
    txt " through negation inside the cycle " ++ namesRepr repr (sortedNames component) ++
    txt ": recursion through negation is not stratifiable"

def componentProblem (g : PredicateGraph) : List Str → Option PcasError
  | [] => some .indexError
  | [p] =>
    if p ∈ edgesFrom g.negEdges p then some (.stratification (selfNegated repr p)) else none
  | component =>
    (component.findSome? fun u =>
      ((order.names (edgesFrom g.negEdges u)).find? (· ∈ component)).map
        (negativeCycle repr component u)).map PcasError.stratification

def checkNoNegativeCycles (g : PredicateGraph) (sccs : List (List Str)) : Except PcasError Unit :=
  match sccs.findSome? (componentProblem repr order g) with
  | some e => .error e
  | none => .ok ()

def rulesFor (p : Program) (component : List Str) : List Rule :=
  component.flatMap fun q => p.rules.filter fun r => r.head.predicate = q

def stratify (p : Program) (helperNames : List Str) :
    Except PcasError (Program × List Stratum) := do
  let p ← disambiguateProgram repr helperNames p
  checkSafety repr p
  let g := PredicateGraph.build p
  let sccs := tarjanSccs order g
  checkNoNegativeCycles repr order g sccs
  return (p, sccs.zipIdx.map fun e => ⟨e.2, e.1, rulesFor p e.1⟩)

end Strata

structure Rule.Safe (r : Rule) : Prop where
  head : ∀ x, Term.var x ∈ r.head.args → isAnonymous x = false ∧ x ∈ positiveVars r
  negated : ∀ n ∈ r.negatedAtoms, ∀ x, Term.var x ∈ n.atom.args →
    isAnonymous x = true ∨ x ∈ positiveVars r
  helper : ∀ h ∈ r.helperCalls, ∀ x, Term.var x ∈ h.args →
    isAnonymous x = true ∨ x ∈ positiveVars r

section Accepted

variable (repr : Str → Str) (order : SetOrder)

theorem safe_of_noProblems {r : Rule} (h : safetyProblems repr r = []) : r.Safe := by
  simp only [safetyProblems, List.append_eq_nil_iff, List.filterMap_eq_nil_iff,
    List.flatMap_eq_nil_iff] at h
  obtain ⟨⟨hhead, hnegated⟩, hhelper⟩ := h
  refine ⟨fun x hx => ?_, fun n hn x hx => ?_, fun c hc x hx => ?_⟩
  · have hnone := hhead (.var x) hx
    simp only [headProblem] at hnone
    split at hnone
    · cases hnone
    · next hnamed =>
      split at hnone
      · next hbound => exact ⟨by simpa using hnamed, hbound⟩
      · cases hnone
  · have hnone := hnegated n hn (.var x) hx
    simp only [negatedProblem] at hnone
    split at hnone
    · next hbound => exact hbound
    · cases hnone
  · have hnone := hhelper c hc (.var x) hx
    simp only [helperProblem] at hnone
    split at hnone
    · next hbound => exact hbound
    · cases hnone

theorem safe_of_checkSafety {p : Program} (h : checkSafety repr p = .ok ()) :
    ∀ r ∈ p.rules, r.Safe := by
  intro r hr
  apply safe_of_noProblems repr
  rw [checkSafety] at h
  split at h
  · cases h
  · next hnone =>
    rw [List.head?_eq_none_iff, List.flatMap_eq_nil_iff] at hnone
    exact hnone r hr

theorem stratify_ok {p p' : Program} {helperNames : List Str} {strata : List Stratum}
    (h : stratify repr order p helperNames = .ok (p', strata)) :
    disambiguateProgram repr helperNames p = .ok p' ∧ checkSafety repr p' = .ok () ∧
      checkNoNegativeCycles repr order (PredicateGraph.build p')
        (tarjanSccs order (PredicateGraph.build p')) = .ok () ∧
      strata = (tarjanSccs order (PredicateGraph.build p')).zipIdx.map
        fun e => ⟨e.2, e.1, rulesFor p' e.1⟩ := by
  obtain ⟨q, hq, h⟩ := bind_ok h
  obtain ⟨_, hsafe, h⟩ := bind_ok h
  obtain ⟨_, hcycles, h⟩ := bind_ok h
  obtain ⟨rfl, rfl⟩ := Prod.mk.inj (Except.ok.inj h)
  exact ⟨hq, hsafe, hcycles, rfl⟩

theorem stratify_safe {p p' : Program} {helperNames : List Str} {strata : List Stratum}
    (h : stratify repr order p helperNames = .ok (p', strata)) : ∀ r ∈ p'.rules, r.Safe :=
  safe_of_checkSafety repr (stratify_ok repr order h).2.1

end Accepted

theorem mem_rulesFor {p : Program} {c : List Str} {r : Rule} :
    r ∈ rulesFor p c ↔ r ∈ p.rules ∧ r.head.predicate ∈ c := by
  simp only [rulesFor, List.mem_flatMap, List.mem_filter, decide_eq_true_eq]
  constructor
  · rintro ⟨q, hq, hr, rfl⟩
    exact ⟨hr, hq⟩
  · rintro ⟨hr, hhead⟩
    exact ⟨_, hhead, hr, rfl⟩

end TexGovernance.Pcas

namespace TexGovernance.Pcas
open PyStr PyDict PyJson Pipeline

theorem foldl_covers {β γ : Type} (f : γ → β → γ) (Inv : γ → Prop) (Le : γ → γ → Prop)
    (Post : β → γ → Prop) (hrefl : ∀ g, Le g g) (htrans : ∀ g g' g'', Le g g' → Le g' g'' → Le g g'')
    (hmono : ∀ x g g', Post x g → Le g g' → Post x g') (xs : List β)
    (hstep : ∀ x ∈ xs, ∀ g, Inv g → Inv (f g x) ∧ Le g (f g x) ∧ Post x (f g x)) (g : γ)
    (hg : Inv g) : Inv (xs.foldl f g) ∧ Le g (xs.foldl f g) ∧ ∀ x ∈ xs, Post x (xs.foldl f g) := by
  induction xs generalizing g with
  | nil => exact ⟨hg, hrefl g, fun x hx => absurd hx List.not_mem_nil⟩
  | cons x xs ih =>
    obtain ⟨hinv, hle, hpost⟩ := hstep x List.mem_cons_self g hg
    obtain ⟨hinv', hle', hpost'⟩ := ih (fun y hy => hstep y (List.mem_cons_of_mem _ hy)) (f g x) hinv
    refine ⟨hinv', htrans _ _ _ hle hle', fun y hy => ?_⟩
    rcases List.mem_cons.mp hy with rfl | hy
    · exact hmono y _ _ hpost hle'
    · exact hpost' y hy

theorem mem_addName {names : List Str} {x y : Str} : y ∈ addName names x ↔ y ∈ names ∨ y = x := by
  rw [addName]
  split
  · next hx =>
    constructor
    · exact Or.inl
    · rintro (hy | rfl)
      · exact hy
      · exact hx
  · rw [List.mem_append, List.mem_singleton]

theorem nodup_addName {names : List Str} (h : names.Nodup) (x : Str) : (addName names x).Nodup := by
  rw [addName]
  split
  · exact h
  · next hx =>
    refine h.append (List.nodup_singleton x) fun y hy hyx => hx ?_
    rw [List.mem_singleton.mp hyx] at hy
    exact hy

theorem edgesFrom_setDefault (edges : Dict Str (List Str)) (p q : Str) :
    edgesFrom (setDefault edges p) q = edgesFrom edges q := by
  rw [setDefault]
  split
  · rfl
  · next hp =>
    rw [edgesFrom, Dict.get?_set]
    split
    · next hq =>
      subst hq
      rw [edgesFrom, Option.not_isSome_iff_eq_none.mp hp]
      rfl
    · rfl

theorem mem_addEdge (edges : Dict Str (List Str)) (p q p' x : Str) :
    x ∈ edgesFrom (addEdge edges p q) p' ↔ x ∈ edgesFrom edges p' ∨ (p' = p ∧ x = q) := by
  rw [edgesFrom, addEdge, Dict.get?_set]
  split
  · next hp =>
    subst hp
    simp [mem_addName]
  · next hp => simp [edgesFrom, hp]

namespace PredicateGraph

structure Closed (g : PredicateGraph) : Prop where
  nodup : g.nodes.Nodup
  pos : ∀ p, ∀ q ∈ edgesFrom g.posEdges p, q ∈ g.nodes
  neg : ∀ p, ∀ q ∈ edgesFrom g.negEdges p, q ∈ g.nodes

structure Le (g g' : PredicateGraph) : Prop where
  nodes : ∀ p ∈ g.nodes, p ∈ g'.nodes
  pos : ∀ p, ∀ q ∈ edgesFrom g.posEdges p, q ∈ edgesFrom g'.posEdges p
  neg : ∀ p, ∀ q ∈ edgesFrom g.negEdges p, q ∈ edgesFrom g'.negEdges p

theorem Le.refl (g : PredicateGraph) : Le g g := ⟨fun _ h => h, fun _ _ h => h, fun _ _ h => h⟩

theorem Le.trans (g g' g'' : PredicateGraph) (h : Le g g') (h' : Le g' g'') : Le g g'' :=
  ⟨fun p hp => h'.nodes p (h.nodes p hp), fun p q hq => h'.pos p q (h.pos p q hq),
    fun p q hq => h'.neg p q (h.neg p q hq)⟩

theorem addHead_spec (g : PredicateGraph) (hg : g.Closed) (p : Str) :
    (g.addHead p).Closed ∧ Le g (g.addHead p) ∧ p ∈ (g.addHead p).nodes := by
  refine ⟨⟨nodup_addName hg.nodup p, fun p' q hq => ?_, fun p' q hq => ?_⟩,
    ⟨fun q hq => mem_addName.mpr (Or.inl hq), fun p' q hq => ?_, fun p' q hq => ?_⟩,
    mem_addName.mpr (Or.inr rfl)⟩
  · rw [addHead, edgesFrom_setDefault] at hq
    exact mem_addName.mpr (Or.inl (hg.pos p' q hq))
  · rw [addHead, edgesFrom_setDefault] at hq
    exact mem_addName.mpr (Or.inl (hg.neg p' q hq))
  · rw [addHead, edgesFrom_setDefault]
    exact hq
  · rw [addHead, edgesFrom_setDefault]
    exact hq

theorem addPositive_spec (p : Str) (a : Atom) (g : PredicateGraph) (hg : g.Closed) :
    (addPositive p g a).Closed ∧ Le g (addPositive p g a) ∧
      a.predicate ∈ edgesFrom (addPositive p g a).posEdges p := by
  refine ⟨⟨nodup_addName hg.nodup _, fun p' q hq => ?_, fun p' q hq => ?_⟩,
    ⟨fun q hq => mem_addName.mpr (Or.inl hq), fun p' q hq => ?_, fun p' q hq => ?_⟩, ?_⟩
  · rw [addPositive, edgesFrom_setDefault, mem_addEdge] at hq
    exact mem_addName.mpr (hq.imp (hg.pos p' q) And.right)
  · rw [addPositive, edgesFrom_setDefault] at hq
    exact mem_addName.mpr (Or.inl (hg.neg p' q hq))
  · rw [addPositive, edgesFrom_setDefault, mem_addEdge]
    exact Or.inl hq
  · rw [addPositive, edgesFrom_setDefault]
    exact hq
  · rw [addPositive, edgesFrom_setDefault, mem_addEdge]
    exact Or.inr ⟨rfl, rfl⟩

theorem addNegated_spec (p : Str) (n : NegatedAtom) (g : PredicateGraph) (hg : g.Closed) :
    (addNegated p g n).Closed ∧ Le g (addNegated p g n) ∧
      n.atom.predicate ∈ edgesFrom (addNegated p g n).negEdges p := by
  refine ⟨⟨nodup_addName hg.nodup _, fun p' q hq => ?_, fun p' q hq => ?_⟩,
    ⟨fun q hq => mem_addName.mpr (Or.inl hq), fun p' q hq => ?_, fun p' q hq => ?_⟩, ?_⟩
  · rw [addNegated, edgesFrom_setDefault] at hq
    exact mem_addName.mpr (Or.inl (hg.pos p' q hq))
  · rw [addNegated, edgesFrom_setDefault, mem_addEdge] at hq
    exact mem_addName.mpr (hq.imp (hg.neg p' q) And.right)
  · rw [addNegated, edgesFrom_setDefault]
    exact hq
  · rw [addNegated, edgesFrom_setDefault, mem_addEdge]
    exact Or.inl hq
  · rw [addNegated, edgesFrom_setDefault, mem_addEdge]
    exact Or.inr ⟨rfl, rfl⟩

structure Covers (r : Rule) (g : PredicateGraph) : Prop where
  head : r.head.predicate ∈ g.nodes
  pos : ∀ a ∈ r.positiveAtoms, a.predicate ∈ edgesFrom g.posEdges r.head.predicate
  neg : ∀ n ∈ r.negatedAtoms, n.atom.predicate ∈ edgesFrom g.negEdges r.head.predicate

theorem Covers.mono (r : Rule) (g g' : PredicateGraph) (h : Covers r g) (hle : Le g g') :
    Covers r g' :=
  ⟨hle.nodes _ h.head, fun a ha => hle.pos _ _ (h.pos a ha), fun n hn => hle.neg _ _ (h.neg n hn)⟩

theorem addRule_spec (r : Rule) (g : PredicateGraph) (hg : g.Closed) :
    (g.addRule r).Closed ∧ Le g (g.addRule r) ∧ Covers r (g.addRule r) := by
  obtain ⟨hclosed, hle, hhead⟩ := addHead_spec g hg r.head.predicate
  obtain ⟨hclosed₁, hle₁, hpos⟩ := foldl_covers (addPositive r.head.predicate) Closed Le
    (fun a g => a.predicate ∈ edgesFrom g.posEdges r.head.predicate) Le.refl Le.trans
    (fun a _ _ ha hle => hle.pos _ _ ha) r.positiveAtoms
    (fun a _ g hg => addPositive_spec _ a g hg) _ hclosed
  obtain ⟨hclosed₂, hle₂, hneg⟩ := foldl_covers (addNegated r.head.predicate) Closed Le
    (fun n g => n.atom.predicate ∈ edgesFrom g.negEdges r.head.predicate) Le.refl Le.trans
    (fun n _ _ hn hle => hle.neg _ _ hn) r.negatedAtoms
    (fun n _ g hg => addNegated_spec _ n g hg) _ hclosed₁
  exact ⟨hclosed₂, (hle.trans _ _ _ hle₁).trans _ _ _ hle₂,
    hle₂.nodes _ (hle₁.nodes _ hhead), fun a ha => hle₂.pos _ _ (hpos a ha), hneg⟩

theorem build_spec (p : Program) : (build p).Closed ∧ ∀ r ∈ p.rules, Covers r (build p) := by
  have hempty : empty.Closed :=
    ⟨List.nodup_nil, fun _ _ h => absurd h List.not_mem_nil, fun _ _ h => absurd h List.not_mem_nil⟩
  obtain ⟨hclosed, -, hcovers⟩ := foldl_covers addRule Closed Le Covers Le.refl Le.trans Covers.mono
    p.rules (fun r _ g hg => addRule_spec r g hg) empty hempty
  exact ⟨hclosed, hcovers⟩

theorem mem_edgesOf {g : PredicateGraph} {p q : Str} :
    q ∈ g.edgesOf p ↔ q ∈ edgesFrom g.posEdges p ∨ q ∈ edgesFrom g.negEdges p := by
  rw [edgesOf]
  generalize edgesFrom g.posEdges p = pos
  induction edgesFrom g.negEdges p generalizing pos with
  | nil => simp
  | cons x neg ih =>
    rw [List.foldl_cons, ih, mem_addName, List.mem_cons, or_assoc]

end PredicateGraph

section Components

variable (repr : Str → Str) (order : SetOrder)

theorem mem_successors {g : PredicateGraph} {p q : Str} :
    q ∈ (order.names (g.edgesOf p)).reverse ↔
      q ∈ edgesFrom g.posEdges p ∨ q ∈ edgesFrom g.negEdges p := by
  rw [List.mem_reverse, (order.names_perm _).mem_iff, PredicateGraph.mem_edgesOf]

theorem successors_closed {g : PredicateGraph} (hg : g.Closed) : ∀ p ∈ sortedNames g.nodes,
    ∀ q ∈ (order.names (g.edgesOf p)).reverse, q ∈ sortedNames g.nodes := by
  intro p _ q hq
  rw [sortedNames, List.mem_insertionSort]
  rcases (mem_successors order).mp hq with hq | hq
  · exact hg.pos p q hq
  · exact hg.neg p q hq

theorem tarjanSccs_spec {g : PredicateGraph} (hg : g.Closed) :
    (tarjanSccs order g).flatten.Nodup ∧ (∀ p, p ∈ (tarjanSccs order g).flatten ↔ p ∈ g.nodes) ∧
      [] ∉ tarjanSccs order g ∧
      Tarjan.Ordered (fun p => (order.names (g.edgesOf p)).reverse) (tarjanSccs order g) := by
  have hperm : (sortedNames g.nodes).Perm g.nodes := List.perm_insertionSort _ _
  obtain ⟨hnodup, hmem, hnonempty, hordered⟩ :=
    Tarjan.components_spec (hperm.nodup_iff.mpr hg.nodup) (successors_closed order hg)
  exact ⟨hnodup, fun p => (hmem p).trans hperm.mem_iff, hnonempty, hordered⟩

theorem no_negative_edge {g : PredicateGraph} {c : List Str}
    (h : componentProblem repr order g c = none) : ∀ u ∈ c, ∀ v ∈ edgesFrom g.negEdges u, v ∉ c := by
  intro u hu v hv hmem
  rw [componentProblem.eq_def] at h
  split at h
  · exact absurd hu List.not_mem_nil
  · next p =>
    obtain rfl := List.mem_singleton.mp hu
    obtain rfl := List.mem_singleton.mp hmem
    rw [if_pos hv] at h
    cases h
  · rw [Option.map_eq_none_iff, List.findSome?_eq_none_iff] at h
    have hnone := h u hu
    rw [Option.map_eq_none_iff, List.find?_eq_none] at hnone
    exact hnone v ((order.names_perm _).mem_iff.mpr hv) (by simpa using hmem)

structure Layered (p : Program) (sccs : List (List Str)) : Prop where
  nodup : sccs.flatten.Nodup
  heads : ∀ r ∈ p.rules, r.head.predicate ∈ sccs.flatten
  positive : ∀ earlier c later, sccs = earlier ++ c :: later → ∀ r ∈ p.rules,
    r.head.predicate ∈ c → ∀ a ∈ r.positiveAtoms, a.predicate ∈ earlier.flatten ∨ a.predicate ∈ c
  negated : ∀ earlier c later, sccs = earlier ++ c :: later → ∀ r ∈ p.rules,
    r.head.predicate ∈ c → ∀ n ∈ r.negatedAtoms, n.atom.predicate ∈ earlier.flatten

theorem stratify_layered {p p' : Program} {helperNames : List Str} {strata : List Stratum}
    (h : stratify repr order p helperNames = .ok (p', strata)) :
    ∃ sccs, Layered p' sccs ∧ strata = sccs.zipIdx.map fun e => ⟨e.2, e.1, rulesFor p' e.1⟩ := by
  obtain ⟨-, -, hcycles, hstrata⟩ := stratify_ok repr order h
  obtain ⟨hclosed, hcovers⟩ := PredicateGraph.build_spec p'
  obtain ⟨hnodup, hmem, -, hordered⟩ := tarjanSccs_spec order hclosed
  have hproblem : ∀ c ∈ tarjanSccs order (PredicateGraph.build p'),
      componentProblem repr order (PredicateGraph.build p') c = none := by
    rw [checkNoNegativeCycles] at hcycles
    split at hcycles
    · cases hcycles
    · next hnone => exact List.findSome?_eq_none_iff.mp hnone
  refine ⟨_, ⟨hnodup, fun r hr => (hmem _).mpr (hcovers r hr).head, ?_, ?_⟩, hstrata⟩
  · intro earlier c later hsplit r hr hhead a ha
    exact hordered earlier c later hsplit _ hhead _
      ((mem_successors order).mpr (Or.inl ((hcovers r hr).pos a ha)))
  · intro earlier c later hsplit r hr hhead n hn
    have hedge := (hcovers r hr).neg n hn
    have hc : c ∈ tarjanSccs order (PredicateGraph.build p') := by simp [hsplit]
    exact (hordered earlier c later hsplit _ hhead _
      ((mem_successors order).mpr (Or.inr hedge))).resolve_right
      (no_negative_edge repr order (hproblem c hc) _ hhead _ hedge)

end Components

end TexGovernance.Pcas
