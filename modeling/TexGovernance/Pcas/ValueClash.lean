import TexGovernance.Pcas.ClosureCorrect

/-!
# When values clash

For each boolean with its integer, and for each function helper without arguments, there is an
accepted program whose evaluation fails.
-/

namespace TexGovernance.Pcas
open PyStr PyDict Pipeline StratifiedLogic

section Positive

variable (repr : Str → Str) (order : SetOrder)

theorem negEdges_nil {p : Program} (h : ∀ r ∈ p.rules, r.negatedAtoms = []) (q : Str) :
    edgesFrom (PredicateGraph.build p).negEdges q = [] := by
  let NoNeg : PredicateGraph → Prop := fun g => ∀ q, edgesFrom g.negEdges q = []
  have hpos : ∀ (r : Str) (a : Atom) (g : PredicateGraph), NoNeg g →
      NoNeg (PredicateGraph.addPositive r g a) := by
    intro r a g hg q
    rw [PredicateGraph.addPositive, edgesFrom_setDefault]
    exact hg q
  have hatoms : ∀ (r : Str) (atoms : List Atom) (g : PredicateGraph), NoNeg g →
      NoNeg (atoms.foldl (PredicateGraph.addPositive r) g) := by
    intro r atoms
    induction atoms with
    | nil => exact fun g hg => hg
    | cons a atoms ih => exact fun g hg => ih _ (hpos r a g hg)
  have hrules : ∀ (rules : List Rule), (∀ r ∈ rules, r.negatedAtoms = []) →
      ∀ g : PredicateGraph, NoNeg g → NoNeg (rules.foldl PredicateGraph.addRule g) := by
    intro rules
    induction rules with
    | nil => exact fun _ g hg => hg
    | cons r rules ih =>
      intro hr g hg
      refine ih (fun r' hr' => hr r' (List.mem_cons_of_mem _ hr')) _ ?_
      rw [PredicateGraph.addRule, hr r List.mem_cons_self]
      refine hatoms _ _ _ fun q => ?_
      rw [PredicateGraph.addHead, edgesFrom_setDefault]
      exact hg q
  exact hrules p.rules h PredicateGraph.empty (fun _ => rfl) q

theorem checkNoNegativeCycles_positive {p : Program} (h : ∀ r ∈ p.rules, r.negatedAtoms = []) :
    checkNoNegativeCycles repr order (PredicateGraph.build p)
      (tarjanSccs order (PredicateGraph.build p)) = .ok () := by
  have hneg := negEdges_nil h
  have hnone : (tarjanSccs order (PredicateGraph.build p)).findSome?
      (componentProblem repr order (PredicateGraph.build p)) = none := by
    rw [List.findSome?_eq_none_iff]
    intro c hc
    have hnil : order.names [] = [] := (order.names_perm []).eq_nil
    rw [componentProblem.eq_def]
    split
    · exact absurd hc (tarjanSccs_spec order (PredicateGraph.build_spec p).1).2.2.1
    · next q => simp [hneg]
    · rw [Option.map_eq_none_iff, List.findSome?_eq_none_iff]
      intro u _
      simp [hneg, hnil]
  rw [checkNoNegativeCycles, hnone]

structure GroundRule (r : Rule) : Prop where
  head : ∀ t ∈ r.head.args, ∃ v, t = .const v
  body : ∀ b ∈ r.body, ∃ h : HelperCall, b = .helper h ∧ h.args = []

theorem GroundRule.positiveAtoms {r : Rule} (h : GroundRule r) : r.positiveAtoms = [] := by
  rw [Rule.positiveAtoms, List.filterMap_eq_nil_iff]
  intro b hb
  obtain ⟨c, rfl, -⟩ := h.body b hb
  rfl

theorem GroundRule.negatedAtoms {r : Rule} (h : GroundRule r) : r.negatedAtoms = [] := by
  rw [Rule.negatedAtoms, List.filterMap_eq_nil_iff]
  intro b hb
  obtain ⟨c, rfl, -⟩ := h.body b hb
  rfl

theorem GroundRule.calls {r : Rule} (h : GroundRule r) : ∀ c ∈ r.helperCalls, c.args = [] := by
  intro c hc
  obtain ⟨b, hb, hbc⟩ := List.mem_filterMap.mp hc
  obtain ⟨c', rfl, hargs⟩ := h.body b hb
  obtain rfl := Option.some.inj hbc
  exact hargs

theorem disambiguate_ground {p : Program} (h : ∀ r ∈ p.rules, GroundRule r) (names : List Str) :
    disambiguateProgram repr names p = .ok p := by
  have hrule : ∀ r ∈ p.rules, disambiguateRule repr names r = .ok r := by
    intro r hr
    have hbody : r.body.mapM (disambiguateElement repr names) = .ok r.body := by
      rw [mapM_ok_iff, List.forall₂_same]
      intro b hb
      obtain ⟨c, rfl, -⟩ := (h r hr).body b hb
      rfl
    rw [disambiguateRule, hbody]
    rfl
  have hrules : p.rules.mapM (disambiguateRule repr names) = .ok p.rules := by
    rw [mapM_ok_iff, List.forall₂_same]
    exact hrule
  rw [disambiguateProgram, hrules]
  rfl

theorem checkSafety_ground {p : Program} (h : ∀ r ∈ p.rules, GroundRule r) :
    checkSafety repr p = .ok () := by
  have hnone : p.rules.flatMap (safetyProblems repr) = [] := by
    rw [List.flatMap_eq_nil_iff]
    intro r hr
    have hg := h r hr
    simp only [safetyProblems, hg.negatedAtoms, List.append_eq_nil_iff, List.filterMap_eq_nil_iff,
      List.flatMap_eq_nil_iff]
    refine ⟨⟨fun t ht => ?_, fun n hn => absurd hn List.not_mem_nil⟩, fun c hc t ht => ?_⟩
    · obtain ⟨v, rfl⟩ := hg.head t ht
      rfl
    · rw [hg.calls c hc] at ht
      exact absurd ht List.not_mem_nil
  rw [checkSafety, hnone]
  rfl

theorem ruleArities_ground {arity : Str → ℕ} (rules : List Rule) (h : ∀ r ∈ rules, GroundRule r)
    (harity : ∀ r ∈ rules, r.head.arity = arity r.head.predicate) (table : Dict Str ℕ)
    (htable : ∀ q n, table.get? q = some n → n = arity q) :
    ∃ out, rules.foldlM (ruleArities repr) table = .ok out := by
  induction rules generalizing table with
  | nil => exact ⟨table, rfl⟩
  | cons r rules ih =>
    have hknown : ((noteAtom table r.head).get? r.head.predicate).getD 0 = r.head.arity := by
      rw [get?_noteAtom, if_pos rfl, Option.getD_some]
      cases hget : table.get? r.head.predicate with
      | none => rfl
      | some n =>
        rw [Option.getD_some, htable _ n hget, harity r List.mem_cons_self]
    have hg := h r List.mem_cons_self
    have hstep : ruleArities repr table r = .ok (noteAtom table r.head) := by
      rw [ruleArities, hg.positiveAtoms, hg.negatedAtoms]
      exact if_neg (not_not.mpr hknown)
    rw [List.foldlM_cons, hstep]
    refine ih (fun r' hr' => h r' (List.mem_cons_of_mem _ hr'))
      (fun r' hr' => harity r' (List.mem_cons_of_mem _ hr')) _ fun q n hq => ?_
    rw [get?_noteAtom] at hq
    split at hq
    · next heq =>
      subst heq
      rw [← Option.some.inj hq]
      cases hget : table.get? r.head.predicate with
      | none => exact harity r List.mem_cons_self
      | some m => exact htable _ m hget
    · exact htable q n hq

theorem make_ground {p : Program} (h : ∀ r ∈ p.rules, GroundRule r) (arity : Str → ℕ)
    (harity : ∀ r ∈ p.rules, r.head.arity = arity r.head.predicate) (helpers : Registry) :
    ∃ ev, Evaluator.make repr order p helpers = .ok ev ∧ ev.program = p := by
  obtain ⟨table, htable⟩ := ruleArities_ground repr p.rules h harity Dict.empty
    fun q n hq => by simp [Dict.get?, Dict.empty] at hq
  have hcycles := checkNoNegativeCycles_positive repr order fun r hr => (h r hr).negatedAtoms
  have hstratify : stratify repr order p helpers.keys =
      .ok (p, (tarjanSccs order (PredicateGraph.build p)).zipIdx.map
        fun e => ⟨e.2, e.1, rulesFor p e.1⟩) := by
    rw [stratify, disambiguate_ground repr h]
    change (checkSafety repr p >>= _) = _
    rw [checkSafety_ground repr h]
    change (checkNoNegativeCycles repr order (PredicateGraph.build p)
      (tarjanSccs order (PredicateGraph.build p)) >>= _) = _
    rw [hcycles]
    rfl
  refine ⟨⟨p, (tarjanSccs order (PredicateGraph.build p)).zipIdx.map
    fun e => ⟨e.2, e.1, rulesFor p e.1⟩, helpers, table⟩, ?_, rfl⟩
  rw [Evaluator.make, hstratify]
  change (p.rules.foldlM (ruleArities repr) Dict.empty >>= _) = _
  rw [htable]
  rfl

end Positive

section Clash

variable {cc : CharClasses} {repr : Str → Str} {order : SetOrder} {helpers : Registry}

theorem stratumRounds_facts {stratum : Stratum} (h : ∀ r ∈ stratum.rules, r.isFact = true)
    (rounds : ℕ) (facts : Dict Str Relation) :
    stratumRounds cc repr order helpers stratum (rounds + 1) facts = .ok facts := by
  have hfold : ∀ (rules : List Rule) (new : Dict Str (List Fact)),
      (∀ r ∈ rules, r.isFact = true) →
      rules.foldlM (ruleAdditions repr order helpers facts) new = .ok new := by
    intro rules
    induction rules with
    | nil => exact fun _ _ => rfl
    | cons r rules ih =>
      intro new hr
      rw [List.foldlM_cons, ruleAdditions, if_pos (hr r List.mem_cons_self)]
      exact ih new fun r' hr' => hr r' (List.mem_cons_of_mem _ hr')
  rw [stratumRounds, hfold _ _ h]
  rfl

theorem strata_facts (strata : List Stratum) (h : ∀ s ∈ strata, ∀ r ∈ s.rules, r.isFact = true)
    (facts : Dict Str Relation) :
    strata.foldlM (evaluateStratum cc repr order helpers) facts = .ok facts := by
  induction strata with
  | nil => rfl
  | cons s strata ih =>
    rw [List.foldlM_cons, evaluateStratum, maxIterations,
      stratumRounds_facts (h s List.mem_cons_self) 1023]
    exact ih fun s' hs' => h s' (List.mem_cons_of_mem _ hs')

def twoFlags (v w : FactValue) : Program := ⟨[flagFact v, flagFact w]⟩

theorem twoFlags_ground (v w : FactValue) : ∀ r ∈ (twoFlags v w).rules, GroundRule r := by
  intro r hr
  have hflag : ∀ u, GroundRule (flagFact u) := fun u =>
    ⟨fun t ht => ⟨u, List.mem_singleton.mp ht⟩, fun b hb => absurd hb List.not_mem_nil⟩
  rcases List.mem_cons.mp hr with rfl | hr
  · exact hflag v
  · rw [List.mem_singleton.mp hr]
    exact hflag w

theorem seedFact_flag {facts : Dict Str Relation} {fs : List Fact} (v : FactValue)
    (hfs : ∀ f ∈ fs, f.length = 1) (hp : cc.islower (cp 'p') = true)
    (hrel : facts.get? (txt "p") = some ⟨txt "p", 1, fs, hfs⟩)
    (hlen : ∀ f ∈ unionFacts fs [[v]], f.length = 1) :
    seedFact cc repr facts (flagFact v) =
      .ok (facts.set (txt "p") ⟨txt "p", 1, unionFacts fs [[v]], hlen⟩) :=
  addFacts_eq hrel hp [[v]] hlen

theorem twoFlags_result {v w : FactValue} (hp : cc.islower (cp 'p') = true) (hvw : pyEq v w = true)
    {ev : Evaluator} (hmake : Evaluator.make repr order (twoFlags v w) helpers = .ok ev)
    (hprogram : ev.program = twoFlags v w) :
    ∃ final, ev.evaluate cc repr order Dict.empty = .ok final ∧
      ∀ f, Holds final (txt "p") f ↔ f = [v] := by
  obtain ⟨-, -, ⟨sccs, -, hstrata⟩, htable⟩ := make_ok hmake
  have hitems : ev.relationArities.items = [(txt "p", 1)] := by
    rw [htable, hprogram]
    rfl
  have hone : ∀ u : FactValue, ∀ f ∈ unionFacts [] [[u]], f.length = 1 := fun u f hf => by
    rw [List.mem_singleton.mp hf]
    rfl
  have hkept : unionFacts [[v]] [[w]] = [[v]] := by
    have hmem : memFacts [w] [[v]] = true := by
      simpa [memFacts, factEq, pyEq, eq_comm] using hvw
    rw [unionFacts, List.foldl_cons, addFact, if_pos hmem]
    rfl
  have hboth : ∀ f ∈ unionFacts [[v]] [[w]], f.length = 1 := by
    rw [hkept]
    exact hone v
  set opened : Dict Str Relation :=
    Dict.empty.set (txt "p") ⟨txt "p", 1, [], fun f hf => absurd hf List.not_mem_nil⟩ with hopened
  set first := opened.set (txt "p") ⟨txt "p", 1, [[v]], hone v⟩ with hfirst
  set both := first.set (txt "p") ⟨txt "p", 1, unionFacts [[v]] [[w]], hboth⟩ with hbothset
  have hseed₁ : seedFact cc repr opened (flagFact v) = .ok first :=
    seedFact_flag v (fun f hf => absurd hf List.not_mem_nil) hp
      (by rw [hopened, Dict.get?_set, if_pos rfl]) (hone v)
  have hseed₂ : seedFact cc repr first (flagFact w) = .ok both :=
    seedFact_flag w (hone v) hp (by rw [hfirst, Dict.get?_set, if_pos rfl]; rfl) hboth
  have hfacts : ∀ s ∈ ev.strata, ∀ r ∈ s.rules, r.isFact = true := by
    rw [hstrata]
    intro s hs r hr
    obtain ⟨e, -, rfl⟩ := List.mem_map.mp hs
    have hmem := (mem_rulesFor.mp hr).1
    rw [hprogram] at hmem
    rcases List.mem_cons.mp hmem with rfl | hmem
    · rfl
    · rw [List.mem_singleton.mp hmem]
      rfl
  refine ⟨both, ?_, fun f => ?_⟩
  · have hopen : [(txt "p", 1)].foldlM (seedEmpty cc) Dict.empty = .ok opened := by
      have hmake : Relation.make cc (txt "p") 1 [] =
          .ok ⟨txt "p", 1, [], fun f hf => absurd hf List.not_mem_nil⟩ := by
        have hlower : startsLower cc (txt "p") = true := hp
        rw [Relation.make, hlower, if_neg (by simp), dif_pos fun f hf => absurd hf List.not_mem_nil]
      change ((Relation.make cc (txt "p") 1 [] >>= _) >>= _) = _
      rw [hmake]
      rfl
    rw [Evaluator.evaluate, hitems, hprogram]
    change ([(txt "p", 1)].foldlM (seedEmpty cc) Dict.empty >>= _) = _
    rw [hopen]
    change (seedFact cc repr opened (flagFact v) >>= _) >>= _ = _
    rw [hseed₁]
    change (seedFact cc repr first (flagFact w) >>= _) >>= _ = _
    rw [hseed₂]
    exact strata_facts ev.strata hfacts both
  · rw [Holds, hbothset, Dict.get?_set, if_pos rfl]
    simp [hkept]

theorem twoFlags_imperfect {v w : FactValue} (hp : cc.islower (cp 'p') = true)
    (hvw : pyEq v w = true) (hne : v ≠ w) {ev : Evaluator}
    (hmake : Evaluator.make repr order (twoFlags v w) helpers = .ok ev)
    (hprogram : ev.program = twoFlags v w) :
    ¬ ReturnsPerfectModel cc repr order ev Dict.empty := by
  obtain ⟨final, hfinal, hholds⟩ := twoFlags_result hp hvw hmake hprogram
  rintro (⟨message, herror⟩ | ⟨final', hfinal', ⟨level, hlevel⟩, hperfect⟩)
  · rw [hfinal] at herror
    cases herror
  · obtain rfl := Except.ok.inj (hfinal.symm.trans hfinal')
    have hderived : Derived (groundClauses ev.program ev.helpers Dict.empty)
        (perfectModel ev.program ev.helpers Dict.empty level) (txt "p", [w]) := by
      have hmem : flagFact w ∈ ev.program.rules := by
        rw [hprogram]
        exact List.mem_cons_of_mem _ List.mem_cons_self
      exact Derived.clause (ruleClause (flagFact w) (fun _ => w) (fun _ => []) [w])
        (Or.inr ⟨_, hmem, _, _, _, .cons rfl .nil, fun a ha => absurd ha List.not_mem_nil,
          fun h hh => absurd hh List.not_mem_nil, rfl⟩)
        (fun x ⟨a, ha, _⟩ => absurd ha List.not_mem_nil)
        (fun x ⟨n, hn, _⟩ => absurd hn List.not_mem_nil)
    have hmem := perfect_of_derived (stratified_groundClauses hlevel _ _) hderived
    have heq := (hholds [w]).mp ((hperfect level hlevel _ _).mpr hmem)
    exact hne (List.cons.inj heq).1.symm

end Clash

section Nullary

variable {cc : CharClasses} {repr : Str → Str} {order : SetOrder} {helpers : Registry}

def callRule (name : Str) : Rule :=
  ⟨.rule, ⟨txt "p", [], 1, 1⟩, [.helper ⟨name, [], 1, 6⟩], 1, 1⟩

theorem callRule_fails {name : Str} {fn : List FactValue → Option FactValue}
    (h : helpers.get? name = some (.function 0 fn)) (facts : Dict Str Relation)
    (new : Dict Str (List Fact)) :
    ruleAdditions repr order helpers facts new (callRule name) = .error .indexError := by
  have happly : applyHelpers repr helpers [⟨name, [], 1, 6⟩] [emptySubst] = .error .indexError := by
    rw [applyHelpers, h]
    rfl
  have hderive : derive order repr helpers (callRule name) facts = .error .indexError := by
    change ((applyHelpers repr helpers [⟨name, [], 1, 6⟩] [emptySubst]) >>= _) = _
    rw [happly]
    rfl
  change (derive order repr helpers (callRule name) facts >>= _) = _
  rw [hderive]
  rfl

theorem strata_nullary {name : Str} {fn : List FactValue → Option FactValue}
    (h : helpers.get? name = some (.function 0 fn)) (strata : List Stratum)
    (honly : ∀ s ∈ strata, ∀ r ∈ s.rules, r = callRule name)
    (hsome : ∃ s ∈ strata, s.rules ≠ []) (facts : Dict Str Relation) :
    strata.foldlM (evaluateStratum cc repr order helpers) facts = .error .indexError := by
  induction strata with
  | nil =>
    obtain ⟨s, hs, -⟩ := hsome
    exact absurd hs List.not_mem_nil
  | cons s strata ih =>
    rw [List.foldlM_cons, evaluateStratum, maxIterations]
    cases hrules : s.rules with
    | nil =>
      rw [stratumRounds_facts (by simp [hrules]) 1023]
      refine ih (fun s' hs' => honly s' (List.mem_cons_of_mem _ hs')) ?_
      obtain ⟨s', hs', hne⟩ := hsome
      rcases List.mem_cons.mp hs' with rfl | hs'
      · exact absurd hrules hne
      · exact ⟨s', hs', hne⟩
    | cons r rules =>
      obtain rfl : r = callRule name := honly s List.mem_cons_self r (by simp [hrules])
      rw [stratumRounds, hrules, List.foldlM_cons, callRule_fails h]
      rfl

theorem nullary_fails {name : Str} {fn : List FactValue → Option FactValue}
    (hp : cc.islower (cp 'p') = true) (h : helpers.get? name = some (.function 0 fn)) {ev : Evaluator}
    (hmake : Evaluator.make repr order ⟨[callRule name]⟩ helpers = .ok ev)
    (hprogram : ev.program = ⟨[callRule name]⟩) :
    ev.evaluate cc repr order Dict.empty = .error .indexError := by
  obtain ⟨hhelpers, -, ⟨sccs, hlayered, hstrata⟩, htable⟩ := make_ok hmake
  have hitems : ev.relationArities.items = [(txt "p", 0)] := by
    rw [htable, hprogram]
    rfl
  have honly : ∀ s ∈ ev.strata, ∀ r ∈ s.rules, r = callRule name := by
    rw [hstrata]
    intro s hs r hr
    obtain ⟨e, -, rfl⟩ := List.mem_map.mp hs
    have hmem := (mem_rulesFor.mp hr).1
    rw [hprogram] at hmem
    exact List.mem_singleton.mp hmem
  have hsome : ∃ s ∈ ev.strata, s.rules ≠ [] := by
    have hmem : callRule name ∈ ev.program.rules := by
      rw [hprogram]
      exact List.mem_singleton.mpr rfl
    obtain ⟨c, hc, hhead⟩ := List.mem_flatten.mp (hlayered.heads _ hmem)
    obtain ⟨i, hi⟩ := List.getElem?_of_mem hc
    refine ⟨⟨i, c, rulesFor ev.program c⟩, ?_, fun hnil => ?_⟩
    · rw [hstrata]
      exact List.mem_map.mpr ⟨(c, i), List.mem_zipIdx_iff_getElem?.mpr hi, rfl⟩
    · have hrule := mem_rulesFor.mpr ⟨hmem, hhead⟩
      dsimp only at hnil
      rw [hnil] at hrule
      exact absurd hrule List.not_mem_nil
  have hmakeRel : Relation.make cc (txt "p") 0 [] =
      .ok ⟨txt "p", 0, [], fun f hf => absurd hf List.not_mem_nil⟩ := by
    have hlower : startsLower cc (txt "p") = true := hp
    rw [Relation.make, hlower, if_neg (by simp), dif_pos fun f hf => absurd hf List.not_mem_nil]
  rw [Evaluator.evaluate, hitems, hprogram, hhelpers]
  change ((Relation.make cc (txt "p") 0 [] >>= _) >>= _) >>= _ = _
  rw [hmakeRel]
  exact strata_nullary h ev.strata honly hsome _

end Nullary

section Result

variable {cc : CharClasses} {helpers : Registry}

theorem no_edb_holds (q : Str) (f : Fact) : ¬ Holds Dict.empty q f := by
  rintro ⟨rel, hrel, -⟩
  simp [Dict.get?, Dict.empty] at hrel

theorem twoFlags_admissible (hp : cc.islower (cp 'p') = true) (v w : FactValue) :
    Admissible cc (twoFlags v w) helpers Dict.empty := by
  have hrule : ∀ r ∈ (twoFlags v w).rules, ∃ u, r = flagFact u := by
    intro r hr
    rcases List.mem_cons.mp hr with rfl | hr
    · exact ⟨v, rfl⟩
    · exact ⟨w, List.mem_singleton.mp hr⟩
  refine ⟨fun r hr a ha => ?_, fun r hr h hh => ?_, fun q rel hrel => ?_,
    ⟨fun _ => 1, fun r hr a ha => ?_⟩, fun r hr n hn => ?_, fun r hr h hh => ?_⟩
  · obtain ⟨u, rfl⟩ := hrule r hr
    rw [List.mem_singleton.mp ha]
    exact hp
  · obtain ⟨u, rfl⟩ := hrule r hr
    exact absurd hh List.not_mem_nil
  · simp [Dict.get?, Dict.empty] at hrel
  · obtain ⟨u, rfl⟩ := hrule r hr
    rw [List.mem_singleton.mp ha]
    rfl
  · obtain ⟨u, rfl⟩ := hrule r hr
    exact absurd hn List.not_mem_nil
  · obtain ⟨u, rfl⟩ := hrule r hr
    exact absurd hh List.not_mem_nil

theorem twoFlags_occurring (v w : FactValue) :
    occurring (twoFlags v w) Dict.empty ⊆ {v, w} := by
  rintro u (⟨r, hr, a, ha, hu⟩ | ⟨q, f, hf, -⟩)
  · have hatom : ∀ x, a ∈ (flagFact x).atoms → u = x := by
      intro x hx
      rw [List.mem_singleton.mp hx] at hu
      exact Term.const.inj (List.mem_singleton.mp hu)
    rcases List.mem_cons.mp hr with rfl | hr
    · exact Or.inl (hatom v ha)
    · rw [List.mem_singleton.mp hr] at ha
      exact Or.inr (hatom w ha)
  · exact absurd hf (no_edb_holds q f)

theorem callRule_admissible (hp : cc.islower (cp 'p') = true) {name : Str} (hname : Callable name) :
    Admissible cc ⟨[callRule name]⟩ helpers Dict.empty := by
  refine ⟨fun r hr a ha => ?_, fun r hr h hh => ?_, fun q rel hrel => ?_,
    ⟨fun _ => 0, fun r hr a ha => ?_⟩, fun r hr n hn => ?_, fun r hr h hh t ht => ?_⟩
  · obtain rfl := List.mem_singleton.mp hr
    rw [List.mem_singleton.mp ha]
    exact hp
  · obtain rfl := List.mem_singleton.mp hr
    rw [List.mem_singleton.mp hh]
    exact hname
  · simp [Dict.get?, Dict.empty] at hrel
  · obtain rfl := List.mem_singleton.mp hr
    rw [List.mem_singleton.mp ha]
    rfl
  · obtain rfl := List.mem_singleton.mp hr
    exact absurd hn List.not_mem_nil
  · obtain rfl := List.mem_singleton.mp hr
    rw [List.mem_singleton.mp hh, helperInputs] at ht
    split at ht <;> exact absurd ht List.not_mem_nil

theorem callRule_occurring (name : Str) : occurring ⟨[callRule name]⟩ Dict.empty = ∅ := by
  rw [Set.eq_empty_iff_forall_notMem]
  rintro u (⟨r, hr, a, ha, hu⟩ | ⟨q, f, hf, -⟩)
  · obtain rfl := List.mem_singleton.mp hr
    rw [List.mem_singleton.mp ha] at hu
    exact absurd hu List.not_mem_nil
  · exact absurd hf (no_edb_holds q f)

theorem callRule_ground (name : Str) :
    ∀ r ∈ (⟨[callRule name]⟩ : Program).rules, GroundRule r := by
  intro r hr
  obtain rfl := List.mem_singleton.mp hr
  exact ⟨fun t ht => absurd ht List.not_mem_nil,
    fun b hb => ⟨⟨name, [], 1, 6⟩, List.mem_singleton.mp hb, rfl⟩⟩

variable (cc helpers) (repr : Str → Str) (order : SetOrder)

/-- An accepted program without clashing values that calls no function helper
without arguments is evaluated to its perfect model. For a set of values and a
registry all programs are, just when the set has no clash and the registry no
such helper. -/
theorem perfect_model_iff :
    (∀ p ev edb, Evaluator.make repr order p helpers = .ok ev →
      Admissible cc ev.program helpers edb → NoClash (occurring ev.program edb) →
        NoNullaryFunction ev.program helpers → ReturnsPerfectModel cc repr order ev edb) ∧
      (cc.islower (cp 'p') = true → ∀ V : Set FactValue,
        (∀ p ev edb, Evaluator.make repr order p helpers = .ok ev →
          Admissible cc ev.program helpers edb → occurring ev.program edb ⊆ V →
            ReturnsPerfectModel cc repr order ev edb) ↔
          NoClash V ∧ ∀ name fn, Callable name → helpers.get? name ≠ some (.function 0 fn)) := by
  refine ⟨fun p ev edb => evaluate_perfect, fun hp V => ⟨fun hall => ⟨?_, ?_⟩, ?_⟩⟩
  · intro v hv w hw hvw
    by_contra hne
    obtain ⟨ev, hmake, hprogram⟩ := make_ground repr order (twoFlags_ground v w)
      (fun _ => 1) (fun r hr => by
        rcases List.mem_cons.mp hr with rfl | hr
        · rfl
        · rw [List.mem_singleton.mp hr]
          rfl) helpers
    refine twoFlags_imperfect hp hvw hne hmake hprogram (hall _ ev Dict.empty hmake ?_ ?_)
    · rw [hprogram]
      exact twoFlags_admissible hp v w
    · rw [hprogram]
      refine (twoFlags_occurring v w).trans ?_
      rintro u (rfl | rfl)
      · exact hv
      · exact hw
  · intro name fn hname hget
    obtain ⟨ev, hmake, hprogram⟩ := make_ground repr order (callRule_ground name)
      (fun _ => 0) (fun r hr => by
        rw [List.mem_singleton.mp hr]
        rfl) helpers
    have hresult := hall _ ev Dict.empty hmake (hprogram ▸ callRule_admissible hp hname)
      (by rw [hprogram, callRule_occurring]; exact Set.empty_subset V)
    have hfails : ev.evaluate cc repr order Dict.empty = .error .indexError :=
      nullary_fails hp hget hmake hprogram
    rcases hresult with ⟨message, herror⟩ | ⟨final, hfinal, -⟩
    · rw [hfails] at herror
      cases Except.error.inj herror
    · rw [hfails] at hfinal
      cases hfinal
  · rintro ⟨hV, hnullary⟩ p ev edb hmake hadm hsub
    exact evaluate_perfect hmake hadm (fun v hv w hw => hV v (hsub hv) w (hsub hw))
      fun r hr h hh fn => hnullary h.name fn (hadm.calls r hr h hh)

theorem one_and_two_perfect :
    ∃ ev, Evaluator.make quotedName listOrder (twoFlags (.int 1) (.int 2)) comparisons = .ok ev ∧
      ReturnsPerfectModel asciiClasses quotedName listOrder ev Dict.empty := by
  obtain ⟨ev, hmake, hprogram⟩ := make_ground quotedName listOrder
    (twoFlags_ground (.int 1) (.int 2)) (fun _ => 1) (by decide) comparisons
  refine ⟨ev, hmake, (perfect_model_iff asciiClasses comparisons quotedName listOrder).1 _ ev
    Dict.empty hmake ?_ ?_ ?_⟩
  · rw [hprogram]
    exact twoFlags_admissible (by decide) _ _
  · have hclash : NoClash {.int 1, .int 2} := by
      rintro v (rfl | rfl) w (rfl | rfl) hvw <;> revert hvw <;> decide
    rw [hprogram]
    exact fun v hv w hw => hclash v (twoFlags_occurring _ _ hv) w (twoFlags_occurring _ _ hw)
  · rw [hprogram]
    have hcalls : ∀ r ∈ (twoFlags (.int 1) (.int 2)).rules, r.helperCalls = [] := by decide
    intro r hr h hh
    rw [hcalls r hr] at hh
    exact absurd hh List.not_mem_nil

end Result

end TexGovernance.Pcas
