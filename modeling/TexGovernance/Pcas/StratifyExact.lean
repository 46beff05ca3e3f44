import TexGovernance.Lib.StrongComponents
import TexGovernance.Pcas.Stratify

/-!
# Which programs have strata

A program is stratified exactly if its rules are safe and no cycle of its dependencies passes
through a negated one.
-/

namespace TexGovernance.Pcas
open PyStr PyDict PyJson Pipeline

namespace Program

def DependsPositively (p : Program) (u v : Str) : Prop :=
  ∃ r ∈ p.rules, r.head.predicate = u ∧ ∃ a ∈ r.positiveAtoms, a.predicate = v

def DependsNegatively (p : Program) (u v : Str) : Prop :=
  ∃ r ∈ p.rules, r.head.predicate = u ∧ ∃ n ∈ r.negatedAtoms, n.atom.predicate = v

def Depends (p : Program) (u v : Str) : Prop := p.DependsPositively u v ∨ p.DependsNegatively u v

def NegativeCycle (p : Program) : Prop :=
  ∃ u v, p.DependsNegatively u v ∧ Relation.ReflTransGen p.Depends v u

end Program

namespace PredicateGraph

structure Sourced (p : Program) (g : PredicateGraph) : Prop where
  pos : ∀ u, ∀ v ∈ edgesFrom g.posEdges u, p.DependsPositively u v
  neg : ∀ u, ∀ v ∈ edgesFrom g.negEdges u, p.DependsNegatively u v

variable {p : Program} {g : PredicateGraph}

theorem Sourced.addPositive (h : Sourced p g) {r : Rule} (hr : r ∈ p.rules) {a : Atom}
    (ha : a ∈ r.positiveAtoms) : Sourced p (addPositive r.head.predicate g a) := by
  refine ⟨fun u v hv => ?_, fun u v hv => ?_⟩
  · rw [PredicateGraph.addPositive, edgesFrom_setDefault, mem_addEdge] at hv
    rcases hv with hv | ⟨rfl, rfl⟩
    · exact h.pos u v hv
    · exact ⟨r, hr, rfl, a, ha, rfl⟩
  · rw [PredicateGraph.addPositive, edgesFrom_setDefault] at hv
    exact h.neg u v hv

theorem Sourced.addNegated (h : Sourced p g) {r : Rule} (hr : r ∈ p.rules) {n : NegatedAtom}
    (hn : n ∈ r.negatedAtoms) : Sourced p (addNegated r.head.predicate g n) := by
  refine ⟨fun u v hv => ?_, fun u v hv => ?_⟩
  · rw [PredicateGraph.addNegated, edgesFrom_setDefault] at hv
    exact h.pos u v hv
  · rw [PredicateGraph.addNegated, edgesFrom_setDefault, mem_addEdge] at hv
    rcases hv with hv | ⟨rfl, rfl⟩
    · exact h.neg u v hv
    · exact ⟨r, hr, rfl, n, hn, rfl⟩

theorem Sourced.addRule (h : Sourced p g) {r : Rule} (hr : r ∈ p.rules) :
    Sourced p (g.addRule r) := by
  have hhead : Sourced p (g.addHead r.head.predicate) := by
    refine ⟨fun u v hv => ?_, fun u v hv => ?_⟩
    · rw [addHead, edgesFrom_setDefault] at hv
      exact h.pos u v hv
    · rw [addHead, edgesFrom_setDefault] at hv
      exact h.neg u v hv
  have hpos := List.foldlRecOn (motive := Sourced p) r.positiveAtoms
    (PredicateGraph.addPositive r.head.predicate) hhead fun g hg a ha => hg.addPositive hr ha
  exact List.foldlRecOn (motive := Sourced p) r.negatedAtoms
    (PredicateGraph.addNegated r.head.predicate) hpos fun g hg n hn => hg.addNegated hr hn

theorem sourced_build (p : Program) : Sourced p (build p) := by
  have hempty : Sourced p empty :=
    ⟨fun _ _ h => absurd h List.not_mem_nil, fun _ _ h => absurd h List.not_mem_nil⟩
  exact List.foldlRecOn (motive := Sourced p) p.rules PredicateGraph.addRule hempty
    fun g hg r hr => hg.addRule hr

theorem mem_posEdges_build (u v : Str) :
    v ∈ edgesFrom (build p).posEdges u ↔ p.DependsPositively u v := by
  refine ⟨(sourced_build p).pos u v, fun ⟨r, hr, hhead, a, ha, hpred⟩ => ?_⟩
  rw [← hhead, ← hpred]
  exact ((build_spec p).2 r hr).pos a ha

theorem mem_negEdges_build (u v : Str) :
    v ∈ edgesFrom (build p).negEdges u ↔ p.DependsNegatively u v := by
  refine ⟨(sourced_build p).neg u v, fun ⟨r, hr, hhead, n, hn, hpred⟩ => ?_⟩
  rw [← hhead, ← hpred]
  exact ((build_spec p).2 r hr).neg n hn

end PredicateGraph

section Cycles

variable (repr : Str → Str) (order : SetOrder) {p : Program}

theorem reach_iff (u v : Str) :
    Tarjan.Reach (fun q => (order.names ((PredicateGraph.build p).edgesOf q)).reverse) u v ↔
      Relation.ReflTransGen p.Depends u v := by
  have hstep : (fun x y => y ∈ (order.names ((PredicateGraph.build p).edgesOf x)).reverse) =
      p.Depends := by
    funext x y
    rw [mem_successors, PredicateGraph.mem_posEdges_build, PredicateGraph.mem_negEdges_build]
    rfl
  unfold Tarjan.Reach
  rw [hstep]

theorem mem_scc_iff {c : List Str} (hc : c ∈ tarjanSccs order (PredicateGraph.build p)) {u v : Str}
    (hu : u ∈ c) : v ∈ c ↔ Relation.ReflTransGen p.Depends u v ∧ Relation.ReflTransGen p.Depends v u := by
  have hclosed := (PredicateGraph.build_spec p).1
  have hperm : (sortedNames (PredicateGraph.build p).nodes).Perm (PredicateGraph.build p).nodes :=
    List.perm_insertionSort _ _
  rw [Tarjan.mem_component_iff (hperm.nodup_iff.mpr hclosed.nodup)
    (successors_closed order hclosed) hc hu, reach_iff, reach_iff]

theorem componentProblem_none {g : PredicateGraph} {c : List Str} (hne : c ≠ [])
    (h : ∀ u ∈ c, ∀ v ∈ edgesFrom g.negEdges u, v ∉ c) : componentProblem repr order g c = none := by
  rw [componentProblem.eq_def]
  split
  · exact absurd rfl hne
  · next q =>
    rw [if_neg]
    exact fun hq => h q List.mem_cons_self q hq List.mem_cons_self
  · rw [Option.map_eq_none_iff, List.findSome?_eq_none_iff]
    intro u hu
    rw [Option.map_eq_none_iff, List.find?_eq_none]
    intro v hv
    simpa using h u hu v ((order.names_perm _).mem_iff.mp hv)

theorem checkNoNegativeCycles_ok_iff :
    checkNoNegativeCycles repr order (PredicateGraph.build p)
        (tarjanSccs order (PredicateGraph.build p)) = .ok () ↔ ¬ p.NegativeCycle := by
  obtain ⟨hclosed, hcovers⟩ := PredicateGraph.build_spec p
  obtain ⟨-, hmem, hnonempty, -⟩ := tarjanSccs_spec order hclosed
  have hfind : checkNoNegativeCycles repr order (PredicateGraph.build p)
      (tarjanSccs order (PredicateGraph.build p)) = .ok () ↔
      ∀ c ∈ tarjanSccs order (PredicateGraph.build p),
        componentProblem repr order (PredicateGraph.build p) c = none := by
    rw [checkNoNegativeCycles, ← List.findSome?_eq_none_iff]
    cases (tarjanSccs order (PredicateGraph.build p)).findSome?
        (componentProblem repr order (PredicateGraph.build p)) with
    | none => exact ⟨fun _ => rfl, fun _ => rfl⟩
    | some e => exact ⟨fun h => (by cases h), fun h => (by cases h)⟩
  rw [hfind]
  constructor
  · intro hnone hcycle
    obtain ⟨u, v, hneg, hback⟩ := hcycle
    -- both ends of the negated edge lie in the component of its source
    have hu : u ∈ (tarjanSccs order (PredicateGraph.build p)).flatten := by
      obtain ⟨r, hr, rfl, -⟩ := hneg
      exact (hmem _).mpr (hcovers r hr).head
    obtain ⟨c, hc, hu⟩ := List.mem_flatten.mp hu
    have hv : v ∈ c := (mem_scc_iff order hc hu).mpr ⟨.single (.inr hneg), hback⟩
    exact no_negative_edge repr order (hnone c hc) u hu v
      ((PredicateGraph.mem_negEdges_build u v).mpr hneg) hv
  · intro hcycle c hc
    refine componentProblem_none repr order (fun hnil => hnonempty (hnil ▸ hc))
      fun u hu v hv hmemv => hcycle ⟨u, v, (PredicateGraph.mem_negEdges_build u v).mp hv, ?_⟩
    exact ((mem_scc_iff order hc hu).mp hmemv).2

end Cycles

section Safety

variable (repr : Str → Str)

theorem noProblems_of_safe {r : Rule} (h : r.Safe) : safetyProblems repr r = [] := by
  simp only [safetyProblems, List.append_eq_nil_iff, List.filterMap_eq_nil_iff,
    List.flatMap_eq_nil_iff]
  refine ⟨⟨fun t ht => ?_, fun n hn t ht => ?_⟩, fun c hc t ht => ?_⟩
  · cases t with
    | const _ => rfl
    | var x =>
      obtain ⟨hnamed, hbound⟩ := h.head x ht
      simp only [headProblem, hnamed, hbound, Bool.false_eq_true, if_false, if_true]
  · cases t with
    | const _ => rfl
    | var x => simp only [negatedProblem, if_pos (h.negated n hn x ht)]
  · cases t with
    | const _ => rfl
    | var x => simp only [helperProblem, if_pos (h.helper c hc x ht)]

theorem checkSafety_ok_iff {p : Program} : checkSafety repr p = .ok () ↔ ∀ r ∈ p.rules, r.Safe := by
  refine ⟨safe_of_checkSafety repr, fun h => ?_⟩
  have hnone : p.rules.flatMap (safetyProblems repr) = [] :=
    List.flatMap_eq_nil_iff.mpr fun r hr => noProblems_of_safe repr (h r hr)
  rw [checkSafety, hnone]
  rfl

def Rule.Binds (r : Rule) (x : Str) : Prop := ∃ a ∈ r.positiveAtoms, Term.var x ∈ a.args

structure Rule.RangeRestricted (r : Rule) : Prop where
  head_named : ∀ x, Term.var x ∈ r.head.args → isAnonymous x = false
  head : ∀ x, Term.var x ∈ r.head.args → r.Binds x
  negated : ∀ n ∈ r.negatedAtoms, ∀ x, Term.var x ∈ n.atom.args → isAnonymous x = false → r.Binds x
  helper : ∀ h ∈ r.helperCalls, ∀ x, Term.var x ∈ h.args → isAnonymous x = false → r.Binds x

theorem mem_positiveVars_iff {r : Rule} {x : Str} :
    x ∈ positiveVars r ↔ isAnonymous x = false ∧ r.Binds x := by
  rw [positiveVars, List.mem_flatMap]
  constructor
  · intro ⟨a, ha, hx⟩
    obtain ⟨t, ht, hname⟩ := List.mem_filterMap.mp hx
    cases t with
    | const _ => cases hname
    | var y =>
      simp only [Term.named] at hname
      split at hname
      · cases hname
      · next hy =>
        cases hname
        exact ⟨Bool.not_eq_true _ ▸ hy, a, ha, ht⟩
  · intro ⟨hx, a, ha, hin⟩
    refine ⟨a, ha, List.mem_filterMap.mpr ⟨.var x, hin, ?_⟩⟩
    simp only [Term.named, hx, Bool.false_eq_true, if_false]

theorem safe_iff {r : Rule} : r.Safe ↔ r.RangeRestricted := by
  constructor
  · intro h
    have hbody : ∀ {x : Str}, isAnonymous x = true ∨ x ∈ positiveVars r → isAnonymous x = false →
        r.Binds x := by
      intro x hx hnamed
      rcases hx with hx | hx
      · rw [hnamed] at hx
        cases hx
      · exact (mem_positiveVars_iff.mp hx).2
    exact ⟨fun x hx => (h.head x hx).1, fun x hx => (mem_positiveVars_iff.mp (h.head x hx).2).2,
      fun n hn x hx => hbody (h.negated n hn x hx), fun c hc x hx => hbody (h.helper c hc x hx)⟩
  · intro h
    have hbody : ∀ {x : Str}, (isAnonymous x = false → r.Binds x) →
        isAnonymous x = true ∨ x ∈ positiveVars r := by
      intro x hx
      cases hanon : isAnonymous x with
      | true => exact .inl rfl
      | false => exact .inr (mem_positiveVars_iff.mpr ⟨hanon, hx hanon⟩)
    exact ⟨fun x hx => ⟨h.head_named x hx, mem_positiveVars_iff.mpr ⟨h.head_named x hx, h.head x hx⟩⟩,
      fun n hn x hx => hbody (h.negated n hn x hx), fun c hc x hx => hbody (h.helper c hc x hx)⟩

end Safety

section Strata

variable {p : Program} {sccs : List (List Str)}

theorem rulesFor_perm (h : Layered p sccs) : (sccs.flatMap (rulesFor p)).Perm p.rules := by
  have hflat : sccs.flatMap (rulesFor p) =
      sccs.flatten.flatMap fun q => p.rules.filter fun r => r.head.predicate = q := by
    rw [List.flatten_eq_flatMap, List.flatMap_assoc]
    rfl
  have hcollect : ∀ (names : List Str) (rules : List Rule), names.Nodup →
      (∀ r ∈ rules, r.head.predicate ∈ names) →
      (names.flatMap fun q => rules.filter fun r => r.head.predicate = q).Perm rules := by
    intro names
    induction names with
    | nil =>
      intro rules _ hrules
      have hnil : rules = [] := List.eq_nil_iff_forall_not_mem.mpr fun r hr =>
        absurd (hrules r hr) List.not_mem_nil
      rw [hnil]
      rfl
    | cons q names ih =>
      intro rules hnodup hrules
      obtain ⟨hq, hnodup⟩ := List.nodup_cons.mp hnodup
      rw [List.flatMap_cons]
      -- the other names find the same rules without those of the first name
      have hrest : (names.flatMap fun q' => rules.filter fun r => r.head.predicate = q') =
          names.flatMap fun q' =>
            (rules.filter fun r => ¬ r.head.predicate = q).filter fun r => r.head.predicate = q' := by
        refine List.flatMap_congr fun q' hq' => ?_
        rw [List.filter_filter]
        refine List.filter_congr fun r _ => ?_
        by_cases hr : r.head.predicate = q'
        · have hne : ¬ r.head.predicate = q := fun h => hq (by rw [← h, hr]; exact hq')
          simp [hr, hr ▸ hne]
        · simp [hr]
      rw [hrest]
      refine ((ih (rules.filter fun r => ¬ r.head.predicate = q) hnodup fun r hr => ?_).append_left _).trans ?_
      · obtain ⟨hr, hne⟩ := List.mem_filter.mp hr
        exact (List.mem_cons.mp (hrules r hr)).resolve_left (by simpa using hne)
      · have hsplit := List.filter_append_perm (fun r : Rule => decide (r.head.predicate = q)) rules
        simpa using hsplit
  rw [hflat]
  exact hcollect _ _ h.nodup h.heads

structure Stratified (p : Program) (strata : List Stratum) : Prop where
  index : ∀ (i : ℕ) (st : Stratum), strata[i]? = some st → st.index = i
  rules : (strata.flatMap Stratum.rules).Perm p.rules
  unique : ∀ r ∈ p.rules, ∃! i : ℕ, ∃ st : Stratum, strata[i]? = some st ∧ r ∈ st.rules
  positive : ∀ (i j : ℕ) (st st' : Stratum), strata[i]? = some st → strata[j]? = some st' →
    ∀ r ∈ st.rules, ∀ a ∈ r.positiveAtoms, ∀ r' ∈ st'.rules, r'.head.predicate = a.predicate → j ≤ i
  negated : ∀ (i j : ℕ) (st st' : Stratum), strata[i]? = some st → strata[j]? = some st' →
    ∀ r ∈ st.rules, ∀ n ∈ r.negatedAtoms, ∀ r' ∈ st'.rules, r'.head.predicate = n.atom.predicate → j < i

theorem getElem?_strata {i : ℕ} {st : Stratum} :
    (sccs.zipIdx.map fun e => (⟨e.2, e.1, rulesFor p e.1⟩ : Stratum))[i]? = some st ↔
      ∃ c, sccs[i]? = some c ∧ st = ⟨i, c, rulesFor p c⟩ := by
  rw [List.getElem?_map, List.getElem?_zipIdx, Nat.zero_add]
  cases sccs[i]? with
  | none => exact ⟨fun h => (by cases h), fun ⟨_, h, _⟩ => (by cases h)⟩
  | some c =>
    exact ⟨fun h => ⟨c, rfl, (Option.some.inj h).symm⟩, fun ⟨_, h, hst⟩ => (by cases h; rw [hst]; rfl)⟩

theorem place_unique (hnodup : sccs.flatten.Nodup) {i j : ℕ} {c d : List Str} (hi : sccs[i]? = some c)
    (hj : sccs[j]? = some d) {q : Str} (hc : q ∈ c) (hd : q ∈ d) : i = j := by
  have hpairs := List.pairwise_iff_getElem.mp (List.nodup_flatten.mp hnodup).2
  obtain ⟨hilt, rfl⟩ := List.getElem?_eq_some_iff.mp hi
  obtain ⟨hjlt, rfl⟩ := List.getElem?_eq_some_iff.mp hj
  rcases Nat.lt_trichotomy i j with hlt | heq | hgt
  · exact absurd hd (List.disjoint_left.mp (hpairs i j hilt hjlt hlt) hc)
  · exact heq
  · exact absurd hc (List.disjoint_left.mp (hpairs j i hjlt hilt hgt) hd)

theorem split_at {i : ℕ} {c : List Str} (hi : sccs[i]? = some c) :
    sccs = sccs.take i ++ c :: sccs.drop (i + 1) := by
  obtain ⟨hlt, rfl⟩ := List.getElem?_eq_some_iff.mp hi
  rw [← List.drop_eq_getElem_cons hlt, List.take_append_drop]

theorem place_lt (hnodup : sccs.flatten.Nodup) {i j : ℕ} {d : List Str} (hj : sccs[j]? = some d)
    {q : Str} (hd : q ∈ d) (hearly : q ∈ (sccs.take i).flatten) : j < i := by
  obtain ⟨c, hc, hq⟩ := List.mem_flatten.mp hearly
  obtain ⟨k, hk, hget⟩ := List.mem_take_iff_getElem.mp hc
  have hklt : k < sccs.length := by omega
  have hk' : sccs[k]? = some c := by rw [List.getElem?_eq_getElem hklt, hget]
  have hsame := place_unique hnodup hk' hj hq hd
  omega

theorem Layered.stratified (h : Layered p sccs) :
    Stratified p (sccs.zipIdx.map fun e => ⟨e.2, e.1, rulesFor p e.1⟩) := by
  refine ⟨fun i st hst => ?_, ?_, fun r hr => ?_, ?_, ?_⟩
  · obtain ⟨c, -, rfl⟩ := getElem?_strata.mp hst
    rfl
  · have hflat : (sccs.zipIdx.map fun e => (⟨e.2, e.1, rulesFor p e.1⟩ : Stratum)).flatMap
        Stratum.rules = sccs.flatMap (rulesFor p) := by
      rw [List.flatMap_map]
      change sccs.zipIdx.flatMap (fun e => rulesFor p e.1) = _
      rw [← List.flatMap_map Prod.fst (rulesFor p) sccs.zipIdx, List.zipIdx_map_fst]
    rw [hflat]
    exact rulesFor_perm h
  · obtain ⟨c, hc, hq⟩ := List.mem_flatten.mp (h.heads r hr)
    obtain ⟨i, hi⟩ := List.mem_iff_getElem?.mp hc
    refine ⟨i, ⟨_, getElem?_strata.mpr ⟨c, hi, rfl⟩, mem_rulesFor.mpr ⟨hr, hq⟩⟩, ?_⟩
    intro j ⟨st, hst, hrst⟩
    obtain ⟨d, hj, rfl⟩ := getElem?_strata.mp hst
    exact place_unique h.nodup hj hi (mem_rulesFor.mp hrst).2 hq
  · intro i j st st' hst hst' r hr a ha r' hr' hhead
    obtain ⟨c, hi, rfl⟩ := getElem?_strata.mp hst
    obtain ⟨d, hj, rfl⟩ := getElem?_strata.mp hst'
    obtain ⟨hr, hc⟩ := mem_rulesFor.mp hr
    obtain ⟨-, hd⟩ := mem_rulesFor.mp hr'
    rw [hhead] at hd
    rcases h.positive _ c _ (split_at hi) r hr hc a ha with hearly | hsame
    · exact (place_lt h.nodup hj hd hearly).le
    · exact (place_unique h.nodup hj hi hd hsame).le
  · intro i j st st' hst hst' r hr n hn r' hr' hhead
    obtain ⟨c, hi, rfl⟩ := getElem?_strata.mp hst
    obtain ⟨d, hj, rfl⟩ := getElem?_strata.mp hst'
    obtain ⟨hr, hc⟩ := mem_rulesFor.mp hr
    obtain ⟨-, hd⟩ := mem_rulesFor.mp hr'
    rw [hhead] at hd
    exact place_lt h.nodup hj hd (h.negated _ c _ (split_at hi) r hr hc n hn)

end Strata

/-- A program has strata exactly if its rules are range-restricted and no cycle
of its dependencies passes through a negated one. -/
theorem stratify_exact (repr : Str → Str) (order : SetOrder) (helperNames : List Str) (p p' : Program)
    (hdisambiguate : disambiguateProgram repr helperNames p = .ok p') :
    ((∃ strata, stratify repr order p helperNames = .ok (p', strata)) ↔
        (∀ r ∈ p'.rules, r.RangeRestricted) ∧ ¬ p'.NegativeCycle) ∧
      ∀ q strata, stratify repr order p helperNames = .ok (q, strata) →
        q = p' ∧ Stratified p' strata := by
  refine ⟨⟨fun ⟨strata, h⟩ => ?_, fun ⟨hsafe, hcycle⟩ => ?_⟩, fun q strata h => ?_⟩
  · obtain ⟨-, hsafe, hcycles, -⟩ := stratify_ok repr order h
    exact ⟨fun r hr => safe_iff.mp ((checkSafety_ok_iff repr).mp hsafe r hr),
      (checkNoNegativeCycles_ok_iff repr order).mp hcycles⟩
  · have hsafe := (checkSafety_ok_iff repr).mpr fun r hr => safe_iff.mpr (hsafe r hr)
    have hcycles := (checkNoNegativeCycles_ok_iff repr order).mpr hcycle
    rw [stratify, hdisambiguate]
    dsimp only [bind, Except.bind]
    rw [hsafe]
    dsimp only
    rw [hcycles]
    exact ⟨_, rfl⟩
  · have hq : q = p' := by
      obtain ⟨hq, -⟩ := stratify_ok repr order h
      exact Except.ok.inj (hq.symm.trans hdisambiguate)
    subst hq
    obtain ⟨sccs, hlayered, rfl⟩ := stratify_layered repr order h
    exact ⟨rfl, hlayered.stratified⟩

/-- `open(X) :- event(X), not sealed(X).` -/
def openEvents : Program :=
  ⟨[⟨.rule, ⟨txt "open", [.var (txt "X")], 1, 1⟩, [.atom ⟨txt "event", [.var (txt "X")], 1, 12⟩,
    .negated ⟨⟨txt "sealed", [.var (txt "X")], 1, 26⟩, 1, 22⟩], 1, 1⟩]⟩

theorem stratify_exact_openEvents :
    (∃ strata, stratify id listOrder openEvents [] = .ok (openEvents, strata)) ↔
      (∀ r ∈ openEvents.rules, r.RangeRestricted) ∧ ¬ openEvents.NegativeCycle :=
  (stratify_exact id listOrder [] openEvents openEvents rfl).1

end TexGovernance.Pcas
