import TexGovernance.Pcas.RuleSemantics

/-!
# A rule derives its consequences

The substitutions that the joins and the helper calls leave are the restricted
valuations that satisfy the positive part of the body, and `derive` answers
with the heads of the valuations that satisfy all of it.
-/

namespace TexGovernance.Pcas
open PyStr PyDict Pipeline

def Represents (Q : Valuation → Prop) (vars : List Str) (subs : List Subst) : Prop :=
  ∀ s, s ∈ subs ↔ ∃ ν, Q ν ∧ s = restrict ν vars

def varsOf (atoms : List Atom) : List Str := atoms.flatMap fun a => namedVars a.args

theorem varsOf_snoc (atoms : List Atom) (a : Atom) :
    varsOf (atoms ++ [a]) = varsOf atoms ++ namedVars a.args := by
  simp [varsOf]

theorem represents_start (facts : Dict Str Relation) :
    Represents (Joined facts []) (varsOf []) [emptySubst] := by
  intro s
  rw [List.mem_singleton]
  constructor
  · rintro rfl
    refine ⟨fun _ => .int 0, fun a ha => absurd ha List.not_mem_nil, ?_⟩
    funext x
    simp [emptySubst, restrict, varsOf]
  · rintro ⟨ν, -, rfl⟩
    funext x
    simp [emptySubst, restrict, varsOf]

theorem represents_nil {Q : Valuation → Prop} {vars : List Str} (h : ∀ ν, ¬ Q ν) :
    Represents Q vars [] := by
  intro s
  constructor
  · intro hs
    exact absurd hs List.not_mem_nil
  · rintro ⟨ν, hν, -⟩
    exact absurd hν (h ν)

theorem Represents.none {Q : Valuation → Prop} {vars : List Str} {subs : List Subst}
    (h : Represents Q vars subs) (hnil : subs.isEmpty = true) (ν : Valuation) : ¬ Q ν := by
  intro hν
  have hmem := (h _).mpr ⟨ν, hν, rfl⟩
  rw [List.isEmpty_iff.mp hnil] at hmem
  exact absurd hmem List.not_mem_nil

section Joins

variable {D : Set FactValue} {arity : Str → ℕ} {facts : Dict Str Relation}

theorem Joined.value_mem (hfacts : FactsFit D arity facts) {atoms : List Atom} {ν : Valuation}
    (h : Joined facts atoms ν) {x : Str} (hx : x ∈ varsOf atoms) : ν x ∈ D := by
  obtain ⟨a, ha, hxa⟩ := List.mem_flatMap.mp hx
  obtain ⟨g, hg, hatom⟩ := h a ha
  exact hfacts.values _ g hg _ (hatom.value_mem hxa)

theorem Joined.congr {atoms : List Atom} {ν ν' : Valuation} (h : Joined facts atoms ν)
    (hν : ∀ x ∈ varsOf atoms, ν' x = ν x) : Joined facts atoms ν' := by
  intro a ha
  obtain ⟨g, hg, hatom⟩ := h a ha
  refine ⟨g, hg, hatom.congr fun x hx => (hν x ?_).symm⟩
  exact List.mem_flatMap.mpr ⟨a, ha, hx⟩

theorem joined_snoc {atoms : List Atom} {a : Atom} {ν : Valuation} :
    Joined facts (atoms ++ [a]) ν ↔
      Joined facts atoms ν ∧ ∃ g, Holds facts a.predicate g ∧ AtomIs ν a g := by
  simp only [Joined, List.mem_append, List.mem_singleton, or_imp, forall_and, forall_eq]

variable (order : SetOrder)

theorem joinAtom_spec (hD : NoClash D) (hfacts : FactsFit D arity facts) {done : List Atom}
    {a : Atom} (harity : a.arity = arity a.predicate) (hconst : ∀ v, Term.const v ∈ a.args → v ∈ D)
    {subs : List Subst} (h : Represents (Joined facts done) (varsOf done) subs) :
    ∃ out, joinAtom order a subs facts = .ok out ∧
      Represents (Joined facts (done ++ [a])) (varsOf (done ++ [a])) out := by
  cases hrel : facts.get? a.predicate with
  | none =>
    refine ⟨[], by rw [joinAtom, hrel], represents_nil fun ν hν => ?_⟩
    obtain ⟨g, ⟨rel, hsome, -⟩, -⟩ := (joined_snoc.mp hν).2
    rw [hrel] at hsome
    cases hsome
  | some rel =>
    have hone := fun ν (hν : Joined facts done ν) => joinOne_spec order hD a rel
      (fun f hf => (hfacts.arities _ rel hrel f hf).trans harity.symm)
      (fun f hf => hfacts.values _ f ⟨rel, hrel, hf⟩) hconst ν (varsOf done)
      fun x hx => hν.value_mem hfacts hx
    have hreturns : ∃ joined, subs.mapM (joinOne order a rel) = .ok joined := by
      refine mapM_ok_of_forall fun s hs => ?_
      obtain ⟨ν, hν, rfl⟩ := (h s).mp hs
      obtain ⟨out, hout, -⟩ := hone ν hν
      exact ⟨out, hout⟩
    obtain ⟨joined, hjoined⟩ := hreturns
    have hout : joinAtom order a subs facts = .ok joined.flatten := by
      rw [joinAtom, hrel]
      dsimp only
      rw [hjoined]
      rfl
    refine ⟨_, hout, fun s' => ?_⟩
    rw [joinAtom_mem order hout, varsOf_snoc]
    constructor
    · rintro ⟨rel', hrel', s, hs, out, hout', hmem⟩
      obtain rfl := Option.some.inj (hrel.symm.trans hrel')
      obtain ⟨ν, hν, rfl⟩ := (h s).mp hs
      obtain ⟨out', hout'', hspec⟩ := hone ν hν
      obtain rfl := Except.ok.inj (hout'.symm.trans hout'')
      obtain ⟨f, hf, ν', hsame, hatom, rfl⟩ := (hspec s').mp hmem
      exact ⟨ν', joined_snoc.mpr ⟨hν.congr hsame, f, ⟨rel, hrel, hf⟩, hatom⟩, rfl⟩
    · rintro ⟨ν, hν, rfl⟩
      obtain ⟨hdone, g, ⟨rel', hrel', hg⟩, hatom⟩ := joined_snoc.mp hν
      obtain rfl := Option.some.inj (hrel.symm.trans hrel')
      obtain ⟨out, hout', hspec⟩ := hone ν hdone
      exact ⟨rel, hrel, _, (h _).mpr ⟨ν, hdone, rfl⟩, out, hout',
        (hspec _).mpr ⟨g, hg, ν, fun _ _ => rfl, hatom, rfl⟩⟩

theorem joinAtoms_spec (hD : NoClash D) (hfacts : FactsFit D arity facts) (done atoms : List Atom)
    (harity : ∀ a ∈ atoms, a.arity = arity a.predicate)
    (hconst : ∀ a ∈ atoms, ∀ v, Term.const v ∈ a.args → v ∈ D) (subs : List Subst)
    (h : Represents (Joined facts done) (varsOf done) subs) :
    ∃ out, joinAtoms order facts atoms subs = .ok out ∧
      Represents (Joined facts (done ++ atoms)) (varsOf (done ++ atoms)) out := by
  induction atoms generalizing done subs with
  | nil =>
    refine ⟨subs, rfl, ?_⟩
    rw [List.append_nil]
    exact h
  | cons a atoms ih =>
    obtain ⟨next, hnext, hrep⟩ := joinAtom_spec order hD hfacts (harity a List.mem_cons_self)
      (hconst a List.mem_cons_self) h
    have hsplit : done ++ a :: atoms = (done ++ [a]) ++ atoms := by simp
    rw [joinAtoms, hnext, hsplit]
    change ∃ out, (if next.isEmpty = true then _ else _) = _ ∧ _
    split
    · next hnil =>
      refine ⟨[], rfl, represents_nil fun ν hν => hrep.none hnil ν fun b hb => hν b ?_⟩
      exact List.mem_append_left _ hb
    · exact ih (done ++ [a]) (fun b hb => harity b (List.mem_cons_of_mem _ hb))
        (fun b hb => hconst b (List.mem_cons_of_mem _ hb)) next hrep

end Joins

theorem mapM_resolve {ν : Valuation} {vars : List Str} {args : List Term}
    (hanon : ∀ t ∈ args, t.anonymous = false)
    (hvars : ∀ x, Term.var x ∈ args → isAnonymous x = true ∨ x ∈ vars) :
    args.mapM (resolveTerm (restrict ν vars)) = some (args.map (evalTerm ν)) := by
  rw [mapM_some_iff, List.forall₂_map_right_iff, List.forall₂_same]
  intro t ht
  cases t with
  | const v => rfl
  | var x =>
    have hx : isAnonymous x = false := hanon _ ht
    have hmem : x ∈ vars := by
      refine (hvars x ht).resolve_left ?_
      rw [hx]
      exact Bool.false_ne_true
    simp [resolveTerm, hx, restrict, hmem, evalTerm]

theorem bindOutput_spec {ν : Valuation} {vars : List Str} {output : Term} (result : FactValue)
    (hvars : ∀ x, output = .var x → isAnonymous x = true ∨ x ∈ vars) (s' : Subst) :
    bindOutput output result (restrict ν vars) = some s' ↔
      OutputIs ν output result ∧ s' = restrict ν vars := by
  cases output with
  | const v => simp [bindOutput, OutputIs, @eq_comm _ s']
  | var x =>
    by_cases hx : isAnonymous x = true
    · simp [bindOutput, OutputIs, hx, @eq_comm _ s']
    · have hmem : x ∈ vars := (hvars x rfl).resolve_left hx
      simp [bindOutput, OutputIs, hx, restrict, hmem, @eq_comm _ s']

section Calls

variable {helpers : Registry} {ν : Valuation} {vars : List Str}

theorem callHelper_spec {call : HelperCall} {reg : HelperFunction}
    (hreg : helpers.get? call.name = some reg) (hlen : call.args.length = reg.arity)
    (hinputs : ∀ t ∈ helperInputs helpers call, t.anonymous = false)
    (hvars : ∀ x, Term.var x ∈ call.args → isAnonymous x = true ∨ x ∈ vars)
    (houtput : ∀ fn, helpers.get? call.name ≠ some (.function 0 fn)) :
    ∃ out, callHelper reg call.args (restrict ν vars) = .ok out ∧
      ∀ s', out = some s' ↔ CallSucceeds helpers ν call ∧ s' = restrict ν vars := by
  simp only [helperInputs, hreg] at hinputs
  simp only [CallSucceeds, hreg]
  cases reg with
  | predicate arity fn =>
    refine ⟨_, by rw [callHelper, mapM_resolve hinputs hvars], fun s' => ?_⟩
    dsimp only at hlen ⊢
    rw [show call.args.length = arity from hlen]
    split
    · next hfn => simp [hfn, @eq_comm _ s']
    · next hfn => simp [hfn]
  | function arity fn =>
    have hne : call.args ≠ [] := by
      intro hnil
      rw [hnil] at hlen
      have harity : arity = 0 := hlen.symm
      subst harity
      exact houtput fn hreg
    obtain ⟨output, hlast⟩ := Option.isSome_iff_exists.mp (List.getLast?_isSome.mpr hne)
    have hmem : output ∈ call.args := List.mem_of_getLast? hlast
    have hdrop : ∀ x, Term.var x ∈ call.args.dropLast → isAnonymous x = true ∨ x ∈ vars :=
      fun x hx => hvars x (List.dropLast_subset _ hx)
    refine ⟨_, by rw [callHelper, hlast]; dsimp only; rw [mapM_resolve hinputs hdrop], fun s' => ?_⟩
    dsimp only
    rw [Option.bind_eq_some_iff]
    constructor
    · rintro ⟨result, hresult, hbind⟩
      obtain ⟨houtput', rfl⟩ := (bindOutput_spec result (fun x hx => hvars x (hx ▸ hmem)) s').mp hbind
      exact ⟨⟨hlen, result, hresult, output, hlast, houtput'⟩, rfl⟩
    · rintro ⟨⟨-, result, hresult, output', hlast', houtput'⟩, rfl⟩
      obtain rfl := Option.some.inj (hlast.symm.trans hlast')
      exact ⟨result, hresult,
        (bindOutput_spec result (fun x hx => hvars x (hx ▸ hmem)) _).mpr ⟨houtput', rfl⟩⟩

theorem applyHelpers_spec (repr : Str → Str) (calls : List HelperCall)
    (hinputs : ∀ h ∈ calls, ∀ t ∈ helperInputs helpers h, t.anonymous = false)
    (hvars : ∀ h ∈ calls, ∀ x, Term.var x ∈ h.args → isAnonymous x = true ∨ x ∈ vars)
    (houtput : ∀ h ∈ calls, ∀ fn, helpers.get? h.name ≠ some (.function 0 fn))
    (Q : Valuation → Prop) (subs : List Subst) (hrep : Represents Q vars subs) :
    (∃ message, applyHelpers repr helpers calls subs = .error (.evaluation message)) ∨
      ∃ out, applyHelpers repr helpers calls subs = .ok out ∧
        Represents (fun ν => Q ν ∧ ∀ h ∈ calls, CallSucceeds helpers ν h) vars out := by
  induction calls generalizing Q subs with
  | nil => exact Or.inr ⟨subs, rfl, by simpa using hrep⟩
  | cons call calls ih =>
    rw [applyHelpers]
    cases hreg : helpers.get? call.name with
    | none =>
      refine Or.inr ⟨[], rfl, represents_nil fun ν hν => ?_⟩
      have hcall := hν.2 call List.mem_cons_self
      simp only [CallSucceeds, hreg] at hcall
    | some reg =>
      dsimp only
      split
      · exact Or.inl ⟨_, rfl⟩
      · next hlen =>
        have hcall := fun ν => @callHelper_spec helpers ν vars call reg hreg (not_not.mp hlen)
          (hinputs call List.mem_cons_self) (hvars call List.mem_cons_self)
          (houtput call List.mem_cons_self)
        have hreturns : ∃ called, subs.mapM (callHelper reg call.args) = .ok called := by
          refine mapM_ok_of_forall fun s hs => ?_
          obtain ⟨ν, -, rfl⟩ := (hrep s).mp hs
          obtain ⟨out, hout, -⟩ := hcall ν
          exact ⟨out, hout⟩
        obtain ⟨called, hcalled⟩ := hreturns
        have hnext : Represents (fun ν => Q ν ∧ CallSucceeds helpers ν call) vars
            (called.filterMap id) := by
          intro s'
          simp only [List.mem_filterMap, id, exists_eq_right]
          rw [mem_mapM_ok hcalled]
          constructor
          · rintro ⟨s, hs, hok⟩
            obtain ⟨ν, hν, rfl⟩ := (hrep s).mp hs
            obtain ⟨out, hout, hspec⟩ := hcall ν
            obtain rfl := Except.ok.inj (hout.symm.trans hok)
            obtain ⟨hsucceeds, rfl⟩ := (hspec s').mp rfl
            exact ⟨ν, ⟨hν, hsucceeds⟩, rfl⟩
          · rintro ⟨ν, ⟨hν, hsucceeds⟩, rfl⟩
            obtain ⟨out, hout, hspec⟩ := hcall ν
            refine ⟨_, (hrep _).mpr ⟨ν, hν, rfl⟩, ?_⟩
            rw [hout, (hspec _).mpr ⟨hsucceeds, rfl⟩]
        have hiff : ∀ ν, (Q ν ∧ ∀ h ∈ call :: calls, CallSucceeds helpers ν h) ↔
            (Q ν ∧ CallSucceeds helpers ν call) ∧ ∀ h ∈ calls, CallSucceeds helpers ν h := by
          intro ν
          rw [List.forall_mem_cons, and_assoc]
        rw [hcalled]
        change (∃ message, (if (called.filterMap id).isEmpty = true then _ else _) = _) ∨
          ∃ out, (if (called.filterMap id).isEmpty = true then _ else _) = _ ∧ _
        simp only [hiff]
        split
        · next hnil =>
          exact Or.inr ⟨[], rfl, represents_nil fun ν hν => hnext.none hnil ν hν.1⟩
        · exact ih (fun h hh => hinputs h (List.mem_cons_of_mem _ hh))
            (fun h hh => hvars h (List.mem_cons_of_mem _ hh))
            (fun h hh => houtput h (List.mem_cons_of_mem _ hh)) _ _ hnext

end Calls

theorem termsAre_iff {ν : Valuation} (args : List Term) (hanon : ∀ t ∈ args, t.anonymous = false)
    (f : Fact) : List.Forall₂ (TermIs ν) args f ↔ f = args.map (evalTerm ν) := by
  induction args generalizing f with
  | nil => simp
  | cons t args ih =>
    have hrest := ih fun t ht => hanon t (List.mem_cons_of_mem _ ht)
    have hterm : ∀ w, TermIs ν t w ↔ w = evalTerm ν t := by
      intro w
      cases t with
      | const v => exact Iff.rfl
      | var x =>
        have hx : isAnonymous x = false := hanon (.var x) List.mem_cons_self
        simp [TermIs, evalTerm, hx]
    simp [List.forall₂_cons_left_iff, hterm, hrest]

theorem atomIs_iff {ν : Valuation} {a : Atom} (hanon : ∀ t ∈ a.args, t.anonymous = false) (f : Fact) :
    AtomIs ν a f ↔ f = a.args.map (evalTerm ν) :=
  termsAre_iff a.args hanon f

theorem head_mem_atoms (r : Rule) : r.head ∈ r.atoms := List.mem_cons_self

theorem positive_mem_atoms {r : Rule} {a : Atom} (ha : a ∈ r.positiveAtoms) : a ∈ r.atoms :=
  List.mem_cons_of_mem _ (List.mem_append_left _ ha)

theorem negated_mem_atoms {r : Rule} {n : NegatedAtom} (hn : n ∈ r.negatedAtoms) :
    n.atom ∈ r.atoms :=
  List.mem_cons_of_mem _ (List.mem_append_right _ (List.mem_map_of_mem hn))

section Rule

variable {D : Set FactValue} {arity : Str → ℕ} {helpers : Registry} {facts : Dict Str Relation}
  {r : Rule} {ν : Valuation}

theorem evalTerm_mem (hfit : RuleFits D arity helpers r) (hfacts : FactsFit D arity facts)
    (hjoined : Joined facts r.positiveAtoms ν) {a : Atom} (ha : a ∈ r.atoms)
    (hvars : ∀ x, Term.var x ∈ a.args → x ∈ positiveVars r) :
    ∀ v ∈ a.args.map (evalTerm ν), v ∈ D := by
  intro v hv
  obtain ⟨t, ht, rfl⟩ := List.mem_map.mp hv
  cases t with
  | const v => exact hfit.constants a ha v ht
  | var x => exact hjoined.value_mem hfacts (hvars x ht)

theorem RuleFits.head_named (hfit : RuleFits D arity helpers r) :
    ∀ t ∈ r.head.args, t.anonymous = false := by
  intro t ht
  cases t with
  | const v => rfl
  | var x => exact (hfit.safe.head x ht).1

theorem RuleFits.negated_bound (hfit : RuleFits D arity helpers r) {n : NegatedAtom}
    (hn : n ∈ r.negatedAtoms) {x : Str} (hx : Term.var x ∈ n.atom.args) : x ∈ positiveVars r := by
  have hanon : isAnonymous x = false := hfit.noWildcard n hn _ hx
  refine (hfit.safe.negated n hn x hx).resolve_left ?_
  rw [hanon]
  exact Bool.false_ne_true

theorem keepsNegated_spec (hD : NoClash D) (hfit : RuleFits D arity helpers r)
    (hfacts : FactsFit D arity facts) (hjoined : Joined facts r.positiveAtoms ν) {n : NegatedAtom}
    (hn : n ∈ r.negatedAtoms) :
    keepsNegated facts (restrict ν (positiveVars r)) n = true ↔
      ∀ g, AtomIs ν n.atom g → ¬ Holds facts n.atom.predicate g := by
  have hanon := hfit.noWildcard n hn
  have hground : groundAtom n.atom (restrict ν (positiveVars r)) =
      some (n.atom.args.map (evalTerm ν)) :=
    mapM_resolve hanon fun x hx => Or.inr (hfit.negated_bound hn hx)
  have hvalues := evalTerm_mem hfit hfacts hjoined (negated_mem_atoms hn)
    fun x hx => hfit.negated_bound hn hx
  simp only [atomIs_iff hanon, forall_eq, keepsNegated, hground]
  cases hrel : facts.get? n.atom.predicate with
  | none => simp [Holds, hrel]
  | some rel =>
    have hmem : memFacts (n.atom.args.map (evalTerm ν)) rel.facts = true ↔
        n.atom.args.map (evalTerm ν) ∈ rel.facts := by
      rw [memFacts, List.any_eq_true]
      constructor
      · rintro ⟨f, hf, heq⟩
        rw [(hD.factEq_iff hvalues (hfacts.values _ f ⟨rel, hrel, hf⟩)).mp heq]
        exact hf
      · intro hf
        exact ⟨_, hf, factEq_refl _⟩
    simp only [Holds, hrel, Option.some.injEq, exists_eq_left', ← hmem, Bool.not_eq_true',
      Bool.not_eq_true]

theorem emitted_spec (hD : NoClash D) (hfit : RuleFits D arity helpers r)
    (hfacts : FactsFit D arity facts) (hjoined : Joined facts r.positiveAtoms ν) (f : Fact) :
    emitted r facts (restrict ν (positiveVars r)) = some f ↔
      (∀ n ∈ r.negatedAtoms, ∀ g, AtomIs ν n.atom g → ¬ Holds facts n.atom.predicate g) ∧
        AtomIs ν r.head f := by
  have hhead : groundAtom r.head (restrict ν (positiveVars r)) =
      some (r.head.args.map (evalTerm ν)) :=
    mapM_resolve hfit.head_named fun x hx => Or.inr (hfit.safe.head x hx).2
  have hall : r.negatedAtoms.all (keepsNegated facts (restrict ν (positiveVars r))) = true ↔
      ∀ n ∈ r.negatedAtoms, ∀ g, AtomIs ν n.atom g → ¬ Holds facts n.atom.predicate g := by
    rw [List.all_eq_true]
    exact forall₂_congr fun n hn => keepsNegated_spec hD hfit hfacts hjoined hn
  rw [← hall, atomIs_iff hfit.head_named, emitted, hhead]
  split
  · next h => simp [h, eq_comm]
  · next h => simp [h]

theorem bindings_spec (order : SetOrder) (repr : Str → Str) (hD : NoClash D)
    (hfit : RuleFits D arity helpers r) (hfacts : FactsFit D arity facts) :
    (∃ message, bindings order repr helpers r facts = .error (.evaluation message)) ∨
      ∃ subs, bindings order repr helpers r facts = .ok subs ∧
        Represents (fun ν => Joined facts r.positiveAtoms ν ∧
          ∀ h ∈ r.helperCalls, CallSucceeds helpers ν h) (positiveVars r) subs := by
  obtain ⟨joined, hjoined, hrep⟩ := joinAtoms_spec order hD hfacts [] r.positiveAtoms
    (fun a ha => hfit.arities a (positive_mem_atoms ha))
    (fun a ha => hfit.constants a (positive_mem_atoms ha)) [emptySubst] (represents_start facts)
  rw [List.nil_append] at hrep
  rw [bindings, hjoined]
  change (∃ message, (if joined.isEmpty = true then _ else _) = _) ∨
    ∃ subs, (if joined.isEmpty = true then _ else _) = _ ∧ _
  split
  · next hnil => exact Or.inr ⟨[], rfl, represents_nil fun ν hν => hrep.none hnil ν hν.1⟩
  · exact applyHelpers_spec repr r.helperCalls hfit.inputs hfit.safe.helper hfit.outputs _ joined hrep

theorem derive_spec (order : SetOrder) (repr : Str → Str) (hD : NoClash D)
    (hfit : RuleFits D arity helpers r) (hfacts : FactsFit D arity facts) :
    (∃ message, derive order repr helpers r facts = .error (.evaluation message)) ∨
      ∃ ds, derive order repr helpers r facts = .ok ds ∧
        ∀ f, f ∈ ds ↔ ∃ ν, Satisfies facts helpers r ν ∧ AtomIs ν r.head f := by
  rcases bindings_spec order repr hD hfit hfacts with ⟨message, herror⟩ | ⟨subs, hsubs, hrep⟩
  · exact Or.inl ⟨message, by rw [derive, herror]; rfl⟩
  · refine Or.inr ⟨_, derive_eq order repr helpers hsubs, fun f => ?_⟩
    rw [List.mem_filterMap]
    constructor
    · rintro ⟨s, hs, hf⟩
      obtain ⟨ν, ⟨hjoined, hcalls⟩, rfl⟩ := (hrep s).mp hs
      obtain ⟨hnegated, hhead⟩ := (emitted_spec hD hfit hfacts hjoined f).mp hf
      exact ⟨ν, ⟨hjoined, hcalls, hnegated⟩, hhead⟩
    · rintro ⟨ν, ⟨hjoined, hcalls, hnegated⟩, hhead⟩
      exact ⟨_, (hrep _).mpr ⟨ν, ⟨hjoined, hcalls⟩, rfl⟩,
        (emitted_spec hD hfit hfacts hjoined f).mpr ⟨hnegated, hhead⟩⟩

theorem satisfies_fits (hfit : RuleFits D arity helpers r) (hfacts : FactsFit D arity facts)
    (h : Satisfies facts helpers r ν) {f : Fact} (hf : AtomIs ν r.head f) :
    f.length = arity r.head.predicate ∧ ∀ v ∈ f, v ∈ D := by
  refine ⟨?_, ?_⟩
  · rw [← hf.length_eq]
    exact hfit.arities _ (head_mem_atoms r)
  · rw [(atomIs_iff hfit.head_named f).mp hf]
    exact evalTerm_mem hfit hfacts h.1 (head_mem_atoms r) fun x hx => (hfit.safe.head x hx).2

end Rule

end TexGovernance.Pcas
