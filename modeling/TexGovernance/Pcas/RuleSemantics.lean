import TexGovernance.Pcas.Joins

/-!
# The meaning of a rule

A rule is read with a valuation of its named variables; an anonymous variable takes any value at
each of its occurrences.
-/

namespace TexGovernance.Pcas
open PyStr PyDict Pipeline

abbrev Valuation := Str → FactValue

def evalTerm (ν : Valuation) : Term → FactValue
  | .const v => v
  | .var x => ν x

def TermIs (ν : Valuation) : Term → FactValue → Prop
  | .const v, w => w = v
  | .var x, w => isAnonymous x = true ∨ w = ν x

def AtomIs (ν : Valuation) (a : Atom) (f : Fact) : Prop := List.Forall₂ (TermIs ν) a.args f

def OutputIs (ν : Valuation) : Term → FactValue → Prop
  | .const v, result => pyEq result v
  | .var x, result => isAnonymous x = true ∨ pyEq (ν x) result

def CallSucceeds (helpers : Registry) (ν : Valuation) (call : HelperCall) : Prop :=
  match helpers.get? call.name with
  | none => False
  | some (.predicate arity fn) => call.args.length = arity ∧ fn (call.args.map (evalTerm ν)) = true
  | some (.function arity fn) => call.args.length = arity ∧
      ∃ result, fn (call.args.dropLast.map (evalTerm ν)) = some result ∧
        ∃ output, call.args.getLast? = some output ∧ OutputIs ν output result

def Holds (facts : Dict Str Relation) (p : Str) (f : Fact) : Prop :=
  ∃ rel, facts.get? p = some rel ∧ f ∈ rel.facts

def Joined (facts : Dict Str Relation) (atoms : List Atom) (ν : Valuation) : Prop :=
  ∀ a ∈ atoms, ∃ g, Holds facts a.predicate g ∧ AtomIs ν a g

def Satisfies (facts : Dict Str Relation) (helpers : Registry) (r : Rule) (ν : Valuation) : Prop :=
  Joined facts r.positiveAtoms ν ∧ (∀ h ∈ r.helperCalls, CallSucceeds helpers ν h) ∧
    ∀ n ∈ r.negatedAtoms, ∀ g, AtomIs ν n.atom g → ¬ Holds facts n.atom.predicate g

/-- No boolean meets the integer that Python takes it for. -/
def NoClash (D : Set FactValue) : Prop := ∀ v ∈ D, ∀ w ∈ D, pyEq v w = true → v = w

def helperInputs (helpers : Registry) (call : HelperCall) : List Term :=
  match helpers.get? call.name with
  | some (.function _ _) => call.args.dropLast
  | _ => call.args

def Rule.atoms (r : Rule) : List Atom :=
  r.head :: r.positiveAtoms ++ r.negatedAtoms.map NegatedAtom.atom

structure RuleFits (D : Set FactValue) (arity : Str → ℕ) (helpers : Registry) (r : Rule) : Prop where
  safe : r.Safe
  arities : ∀ a ∈ r.atoms, a.arity = arity a.predicate
  constants : ∀ a ∈ r.atoms, ∀ v, Term.const v ∈ a.args → v ∈ D
  noWildcard : NoWildcard r
  inputs : ∀ h ∈ r.helperCalls, ∀ t ∈ helperInputs helpers h, t.anonymous = false
  outputs : ∀ h ∈ r.helperCalls, ∀ fn, helpers.get? h.name ≠ some (.function 0 fn)

structure FactsFit (D : Set FactValue) (arity : Str → ℕ) (facts : Dict Str Relation) : Prop where
  arities : ∀ p rel, facts.get? p = some rel → ∀ f ∈ rel.facts, f.length = arity p
  values : ∀ p f, Holds facts p f → ∀ v ∈ f, v ∈ D

theorem pyEq_refl (v : FactValue) : pyEq v v = true := by simp [pyEq]

theorem factEq_refl (f : Fact) : factEq f f = true := by simp [factEq]

theorem NoClash.factEq_iff {D : Set FactValue} (hD : NoClash D) {f g : Fact}
    (hf : ∀ v ∈ f, v ∈ D) (hg : ∀ v ∈ g, v ∈ D) : factEq f g = true ↔ f = g := by
  constructor
  · intro h
    have hall := (Pcas.factEq_iff f g).mp h
    rw [← List.forall₂_eq_eq_eq]
    refine List.forall₂_iff_get.mpr ⟨hall.length_eq, fun i hi hj => ?_⟩
    exact hD _ (hf _ (List.get_mem f ⟨i, hi⟩)) _ (hg _ (List.get_mem g ⟨i, hj⟩))
      ((List.forall₂_iff_get.mp hall).2 i hi hj)
  · rintro rfl
    exact factEq_refl f

def restrict (ν : Valuation) (vars : List Str) : Subst := fun x => if x ∈ vars then some (ν x) else none

theorem restrict_congr {ν ν' : Valuation} {vars : List Str} (h : ∀ x ∈ vars, ν x = ν' x) :
    restrict ν vars = restrict ν' vars := by
  funext x
  by_cases hx : x ∈ vars
  · simp [restrict, hx, h x hx]
  · simp [restrict, hx]

theorem bindVar_restrict (ν : Valuation) (vars : List Str) (x : Str) (w : FactValue)
    (hx : x ∉ vars) :
    bindVar (restrict ν vars) x w = restrict (Function.update ν x w) (vars ++ [x]) := by
  funext y
  by_cases hy : y = x
  · subst hy
    simp [bindVar, restrict]
  · simp [bindVar, restrict, hy, Function.update]

theorem namedVars_const (v : FactValue) (args : List Term) :
    namedVars (.const v :: args) = namedVars args := rfl

theorem namedVars_anonymous {x : Str} (h : isAnonymous x = true) (args : List Term) :
    namedVars (.var x :: args) = namedVars args := by
  simp [namedVars, Term.named, h]

theorem namedVars_named {x : Str} (h : ¬ isAnonymous x = true) (args : List Term) :
    namedVars (.var x :: args) = x :: namedVars args := by
  simp [namedVars, Term.named, h]

theorem TermIs.congr {ν ν' : Valuation} {t : Term} {w : FactValue} (h : TermIs ν t w)
    (hν : ∀ x, t.named = some x → ν x = ν' x) : TermIs ν' t w := by
  cases t with
  | const v => exact h
  | var x =>
    by_cases hx : isAnonymous x = true
    · exact Or.inl hx
    · exact Or.inr ((h.resolve_left hx).trans (hν x (by simp [Term.named, hx])))

theorem AtomIs.congr {ν ν' : Valuation} {a : Atom} {f : Fact} (h : AtomIs ν a f)
    (hν : ∀ x ∈ namedVars a.args, ν x = ν' x) : AtomIs ν' a f := by
  refine List.forall₂_iff_get.mpr ⟨h.length_eq, fun i hi hj => ?_⟩
  refine ((List.forall₂_iff_get.mp h).2 i hi hj).congr fun x hx => hν x ?_
  exact List.mem_filterMap.mpr ⟨_, List.get_mem _ _, hx⟩

theorem AtomIs.value_mem {ν : Valuation} {a : Atom} {f : Fact} (h : AtomIs ν a f) {x : Str}
    (hx : x ∈ namedVars a.args) : ν x ∈ f := by
  obtain ⟨hmem, hanon⟩ := mem_namedVars.mp hx
  obtain ⟨i, hi, hterm⟩ := List.getElem_of_mem hmem
  have hlen : i < f.length := h.length_eq ▸ hi
  have hvalue := (List.forall₂_iff_get.mp h).2 i hi hlen
  rw [List.get_eq_getElem, hterm] at hvalue
  rcases hvalue with hbad | hvalue
  · rw [hanon] at hbad
    cases hbad
  · rw [← hvalue]
    exact List.get_mem f ⟨i, hlen⟩

theorem matchFact_returns (f : Fact) (i : ℕ) (args : List Term) (s : Subst)
    (h : i + args.length ≤ f.length) : ∃ out, matchFact f i args s = .ok out := by
  induction args generalizing i s with
  | nil => exact ⟨some s, rfl⟩
  | cons t args ih =>
    rw [List.length_cons] at h
    have hi : i < f.length := by omega
    have hrest := fun s => ih (i + 1) s (by omega)
    cases t with
    | const v =>
      rw [matchFact, List.getElem?_eq_getElem hi]
      dsimp only
      split
      · exact hrest s
      · exact ⟨none, rfl⟩
    | var x =>
      rw [matchFact, List.getElem?_eq_getElem hi]
      dsimp only
      split
      · exact hrest s
      · split
        · split
          · exact hrest s
          · exact ⟨none, rfl⟩
        · exact hrest _

theorem matchFact_complete (f : Fact) (i : ℕ) (args : List Term) (ν : Valuation) (vars : List Str)
    (h : List.Forall₂ (TermIs ν) args (f.drop i)) :
    matchFact f i args (restrict ν vars) = .ok (some (restrict ν (vars ++ namedVars args))) := by
  induction args generalizing i vars with
  | nil => simp [matchFact, namedVars]
  | cons t args ih =>
    obtain ⟨w, rest, ht, hrest, hdrop⟩ := List.forall₂_cons_left_iff.mp h
    have hget : f[i]? = some w := by
      rw [← List.head?_drop, hdrop]
      rfl
    have htail : f.drop (i + 1) = rest := by
      rw [← List.tail_drop, hdrop]
      rfl
    have hnext := fun vars => ih (i + 1) vars (htail ▸ hrest)
    cases t with
    | const v =>
      obtain rfl : w = v := ht
      rw [matchFact, hget, namedVars_const]
      dsimp only
      rw [if_pos (pyEq_refl w)]
      exact hnext vars
    | var x =>
      rw [matchFact, hget]
      dsimp only
      by_cases hx : isAnonymous x = true
      · rw [if_pos hx, namedVars_anonymous hx]
        exact hnext vars
      · obtain rfl : w = ν x := ht.resolve_left hx
        rw [if_neg hx, namedVars_named hx]
        by_cases hbound : x ∈ vars
        · have hvalue : restrict ν vars x = some (ν x) := by simp [restrict, hbound]
          rw [hvalue]
          dsimp only
          rw [if_pos (pyEq_refl _), hnext vars]
          congr 2
          funext y
          by_cases hy : y = x
          · subst hy
            simp [restrict, hbound]
          · simp [restrict, hy]
        · have hnone : restrict ν vars x = none := by simp [restrict, hbound]
          rw [hnone]
          dsimp only
          rw [bindVar_restrict ν vars x (ν x) hbound, Function.update_eq_self, hnext,
            List.append_assoc]
          rfl

theorem matchFact_sound {D : Set FactValue} (hD : NoClash D) (f : Fact) (hf : ∀ v ∈ f, v ∈ D)
    (i : ℕ) (args : List Term) (hconst : ∀ v, Term.const v ∈ args → v ∈ D)
    (hlen : f.length = i + args.length) (ν : Valuation) (vars : List Str)
    (hν : ∀ x ∈ vars, ν x ∈ D) (s' : Subst)
    (h : matchFact f i args (restrict ν vars) = .ok (some s')) :
    ∃ ν', (∀ x ∈ vars, ν' x = ν x) ∧ s' = restrict ν' (vars ++ namedVars args) ∧
      List.Forall₂ (TermIs ν') args (f.drop i) := by
  induction args generalizing i ν vars with
  | nil =>
    obtain rfl := Option.some.inj (Except.ok.inj h)
    refine ⟨ν, fun _ _ => rfl, by simp [namedVars], ?_⟩
    rw [List.forall₂_nil_left_iff, List.drop_eq_nil_iff, hlen]
    rfl
  | cons t args ih =>
    rw [List.length_cons] at hlen
    have hi : i < f.length := by omega
    have hdrop : f.drop i = f[i] :: f.drop (i + 1) := List.drop_eq_getElem_cons hi
    have hget : f[i]? = some f[i] := List.getElem?_eq_getElem hi
    have hmem : f[i] ∈ D := hf _ (List.getElem_mem hi)
    have hnext := ih (i + 1) (fun v hv => hconst v (List.mem_cons_of_mem _ hv)) (by omega)
    cases t with
    | const v =>
      rw [matchFact, hget] at h
      dsimp only at h
      split at h
      · next heq =>
        have hvalue := hD _ hmem v (hconst v List.mem_cons_self) heq
        obtain ⟨ν', hsame, hs', hargs⟩ := hnext ν vars hν h
        refine ⟨ν', hsame, hs', ?_⟩
        rw [hdrop]
        exact .cons hvalue hargs
      · cases h
    | var x =>
      rw [matchFact, hget] at h
      dsimp only at h
      by_cases hx : isAnonymous x = true
      · rw [if_pos hx] at h
        obtain ⟨ν', hsame, hs', hargs⟩ := hnext ν vars hν h
        rw [namedVars_anonymous hx, hdrop]
        exact ⟨ν', hsame, hs', .cons (Or.inl hx) hargs⟩
      · rw [if_neg hx] at h
        rw [namedVars_named hx, hdrop]
        by_cases hbound : x ∈ vars
        · have hrestrict : restrict ν vars x = some (ν x) := by simp [restrict, hbound]
          rw [hrestrict] at h
          dsimp only at h
          split at h
          · next heq =>
            have hvalue := hD _ (hν x hbound) _ hmem heq
            obtain ⟨ν', hsame, rfl, hargs⟩ := hnext ν vars hν h
            refine ⟨ν', hsame, ?_, .cons (Or.inr ?_) hargs⟩
            · funext y
              by_cases hy : y = x
              · subst hy
                simp [restrict, hbound]
              · simp [restrict, hy]
            · rw [← hvalue, hsame x hbound]
          · cases h
        · have hnone : restrict ν vars x = none := by simp [restrict, hbound]
          rw [hnone] at h
          dsimp only at h
          rw [bindVar_restrict ν vars x _ hbound] at h
          have hν₁ : ∀ y ∈ vars ++ [x], Function.update ν x f[i] y ∈ D := by
            intro y hy
            by_cases hyx : y = x
            · subst hyx
              rw [Function.update_self]
              exact hmem
            · rw [Function.update_of_ne hyx]
              exact hν y (by simpa [hyx] using hy)
          obtain ⟨ν', hsame, hs', hargs⟩ := hnext _ _ hν₁ h
          refine ⟨ν', fun y hy => ?_, by rw [hs', List.append_assoc]; rfl, .cons (Or.inr ?_) hargs⟩
          · have hyx : y ≠ x := fun e => hbound (e ▸ hy)
            rw [hsame y (List.mem_append_left _ hy), Function.update_of_ne hyx]
          · rw [hsame x (by simp), Function.update_self]

theorem mem_boundColumns {s : Subst} {args : List Term} {c : ℕ} {v : FactValue} :
    (c, v) ∈ boundColumns s args ↔ ∃ t, args[c]? = some t ∧ resolveTerm s t = some v := by
  simp only [boundColumns, List.mem_filterMap, Prod.exists, List.mem_zipIdx_iff_getElem?,
    Option.map_eq_some_iff, Prod.mk.injEq]
  constructor
  · rintro ⟨t, i, ht, w, hw, rfl, rfl⟩
    exact ⟨t, ht, hw⟩
  · rintro ⟨t, ht, hv⟩
    exact ⟨t, c, ht, v, hv, rfl, rfl⟩

section Lookup

variable (order : SetOrder)

theorem indexEntry_of_key {columns : List ℕ} {f : Fact} {key : List FactValue}
    (h : List.Forall₂ (fun c v => f[c]? = some v) columns key) :
    indexEntry columns f = .ok (key, f) := by
  have hkey : factKey columns f = .ok key := by
    rw [factKey, mapM_ok_iff]
    refine h.imp fun c v hv => ?_
    rw [hv]
  rw [indexEntry, hkey]
  rfl

theorem lookup_spec {rel : Relation} {columns : List ℕ} (values : List FactValue)
    (hcolumns : ∀ c ∈ columns, ∀ f ∈ rel.facts, c < f.length) :
    ∃ candidates, rel.lookup order columns values = .ok candidates ∧
      (∀ f ∈ candidates, f ∈ rel.facts) ∧
      ∀ f ∈ rel.facts, List.Forall₂ (fun c v => f[c]? = some v) columns values → f ∈ candidates := by
  have hperm := order.facts_perm rel.facts
  rw [Relation.lookup]
  split
  · exact ⟨_, rfl, fun f hf => hperm.mem_iff.mp hf, fun f hf _ => hperm.mem_iff.mpr hf⟩
  · have hreturns : ∃ keyed, (order.facts rel.facts).mapM (indexEntry columns) = .ok keyed := by
      refine mapM_ok_of_forall fun f hf => ?_
      have hkey : List.Forall₂ (fun c v => f[c]? = some v) columns
          (columns.map fun c => (f[c]?).getD (.int 0)) := by
        rw [List.forall₂_map_right_iff, List.forall₂_same]
        intro c hc
        rw [List.getElem?_eq_getElem (hcolumns c hc f (hperm.mem_iff.mp hf))]
        rfl
      exact ⟨_, indexEntry_of_key hkey⟩
    obtain ⟨keyed, hkeyed⟩ := hreturns
    rw [hkeyed]
    refine ⟨_, rfl, fun f hf => ?_, fun f hf hvalues => ?_⟩
    · obtain ⟨⟨key, g⟩, he, rfl⟩ := List.mem_map.mp hf
      obtain ⟨g', hg', hentry⟩ := (mem_mapM_ok hkeyed _).mp (List.mem_filter.mp he).1
      obtain ⟨key', -, hpair⟩ := bind_ok hentry
      obtain ⟨-, rfl⟩ := Prod.mk.inj (Except.ok.inj hpair)
      exact hperm.mem_iff.mp hg'
    · refine List.mem_map.mpr ⟨(values, f), List.mem_filter.mpr ⟨?_, factEq_refl values⟩, rfl⟩
      exact (mem_mapM_ok hkeyed _).mpr ⟨f, hperm.mem_iff.mpr hf, indexEntry_of_key hvalues⟩

theorem boundColumns_match {ν : Valuation} {vars : List Str} {a : Atom} {f : Fact}
    (h : AtomIs ν a f) :
    List.Forall₂ (fun c v => f[c]? = some v)
      ((boundColumns (restrict ν vars) a.args).map Prod.fst)
      ((boundColumns (restrict ν vars) a.args).map Prod.snd) := by
  rw [List.forall₂_map_left_iff, List.forall₂_map_right_iff, List.forall₂_same]
  rintro ⟨c, v⟩ hcv
  obtain ⟨t, ht, hv⟩ := mem_boundColumns.mp hcv
  obtain ⟨hc, hterm⟩ := List.getElem?_eq_some_iff.mp ht
  have hlen : c < f.length := h.length_eq ▸ hc
  have hvalue := (List.forall₂_iff_get.mp h).2 c hc hlen
  rw [List.get_eq_getElem, List.get_eq_getElem, hterm] at hvalue
  rw [List.getElem?_eq_getElem hlen, Option.some.injEq]
  cases t with
  | const w =>
    obtain rfl := Option.some.inj hv
    exact hvalue
  | var x =>
    rw [resolveTerm] at hv
    split at hv
    · cases hv
    · next hx =>
      rw [hvalue.resolve_left hx]
      rw [restrict] at hv
      split at hv
      · exact Option.some.inj hv
      · cases hv

theorem joinOne_spec {D : Set FactValue} (hD : NoClash D) (a : Atom) (rel : Relation)
    (hlen : ∀ f ∈ rel.facts, f.length = a.arity) (hvalues : ∀ f ∈ rel.facts, ∀ v ∈ f, v ∈ D)
    (hconst : ∀ v, Term.const v ∈ a.args → v ∈ D) (ν : Valuation) (vars : List Str)
    (hν : ∀ x ∈ vars, ν x ∈ D) :
    ∃ out, joinOne order a rel (restrict ν vars) = .ok out ∧ ∀ s', s' ∈ out ↔
      ∃ f ∈ rel.facts, ∃ ν', (∀ x ∈ vars, ν' x = ν x) ∧ AtomIs ν' a f ∧
        s' = restrict ν' (vars ++ namedVars a.args) := by
  have hcolumns : ∀ c ∈ (boundColumns (restrict ν vars) a.args).map Prod.fst,
      ∀ f ∈ rel.facts, c < f.length := by
    intro c hc f hf
    obtain ⟨⟨c, v⟩, hcv, rfl⟩ := List.mem_map.mp hc
    obtain ⟨t, ht, -⟩ := mem_boundColumns.mp hcv
    rw [hlen f hf]
    exact (List.getElem?_eq_some_iff.mp ht).1
  obtain ⟨candidates, hlookup, hsub, hall⟩ := lookup_spec order
    ((boundColumns (restrict ν vars) a.args).map Prod.snd) hcolumns
  have hmatched : ∃ matched, candidates.mapM
      (fun f => matchFact f 0 a.args (restrict ν vars)) = .ok matched := by
    refine mapM_ok_of_forall fun f hf => matchFact_returns f 0 a.args _ ?_
    rw [hlen f (hsub f hf), Nat.zero_add]
    rfl
  obtain ⟨matched, hmatched⟩ := hmatched
  have hjoin : joinOne order a rel (restrict ν vars) = .ok (matched.filterMap id) := by
    rw [joinOne, hlookup]
    change (candidates.mapM (fun f => matchFact f 0 a.args (restrict ν vars)) >>= _) = _
    rw [hmatched]
    rfl
  refine ⟨_, hjoin, fun s' => ?_⟩
  simp only [List.mem_filterMap, id, exists_eq_right]
  rw [mem_mapM_ok hmatched]
  constructor
  · rintro ⟨f, hf, hmatch⟩
    have hmem := hsub f hf
    obtain ⟨ν', hsame, hs', hargs⟩ := matchFact_sound hD f (hvalues f hmem) 0 a.args hconst
      (by rw [hlen f hmem, Nat.zero_add]; rfl) ν vars hν s' hmatch
    exact ⟨f, hmem, ν', hsame, hargs, hs'⟩
  · rintro ⟨f, hf, ν', hsame, hargs, rfl⟩
    rw [← restrict_congr hsame]
    refine ⟨f, hall f hf ?_, matchFact_complete f 0 a.args ν' vars hargs⟩
    rw [← restrict_congr hsame]
    exact boundColumns_match hargs

end Lookup

end TexGovernance.Pcas
