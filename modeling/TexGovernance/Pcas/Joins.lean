import TexGovernance.Pcas.Evaluator

/-!
# What joins and helper calls bind

A substitution only grows along the evaluation of a body, and at the end every
variable of a positive atom is bound.
-/

namespace TexGovernance.Pcas
open PyStr PyDict Pipeline

theorem groundAtom_eq_some_iff (a : Atom) (s : Subst) (f : Fact) :
    groundAtom a s = some f ↔ List.Forall₂ (fun t v => resolveTerm s t = some v) a.args f :=
  mapM_some_iff _ _ _

def namedVars (args : List Term) : List Str := args.filterMap Term.named

theorem mem_namedVars {x : Str} {args : List Term} :
    x ∈ namedVars args ↔ Term.var x ∈ args ∧ isAnonymous x = false := by
  rw [namedVars, List.mem_filterMap]
  constructor
  · rintro ⟨t, ht, hname⟩
    cases t with
    | const v => cases hname
    | var y =>
      rw [Term.named] at hname
      split at hname
      · cases hname
      · next hanon =>
        obtain rfl := Option.some.inj hname
        exact ⟨ht, by simpa using hanon⟩
  · rintro ⟨ht, hanon⟩
    exact ⟨.var x, ht, by simp [Term.named, hanon]⟩

theorem mem_positiveVars {x : Str} {r : Rule} :
    x ∈ positiveVars r ↔ ∃ a ∈ r.positiveAtoms, x ∈ namedVars a.args :=
  List.mem_flatMap

theorem resolveTerm_isSome {s : Subst} {t : Term}
    (h : ∀ x, t = .var x → isAnonymous x = false ∧ (s x).isSome) : (resolveTerm s t).isSome := by
  cases t with
  | const v => rfl
  | var x =>
    obtain ⟨hanon, hbound⟩ := h x rfl
    simp [resolveTerm, hanon, hbound]

theorem groundAtom_isSome {s : Subst} {a : Atom}
    (h : ∀ x, Term.var x ∈ a.args → isAnonymous x = false ∧ (s x).isSome) :
    ∃ f, groundAtom a s = some f := by
  have hall : ∀ t ∈ a.args, (resolveTerm s t).isSome := fun t ht =>
    resolveTerm_isSome fun x hx => h x (hx ▸ ht)
  refine ⟨a.args.map fun t => (resolveTerm s t).getD (.int 0), ?_⟩
  rw [groundAtom_eq_some_iff, List.forall₂_map_right_iff, List.forall₂_same]
  intro t ht
  obtain ⟨v, hv⟩ := Option.isSome_iff_exists.mp (hall t ht)
  simp [hv]

theorem groundAtom_anonymous {s : Subst} {a : Atom} {t : Term} (ht : t ∈ a.args)
    (hanon : t.anonymous = true) : groundAtom a s = none := by
  rw [Option.eq_none_iff_forall_not_mem]
  intro f hf
  obtain ⟨i, hi, rfl⟩ := List.getElem_of_mem ht
  have hresolved := (List.forall₂_iff_get.mp ((groundAtom_eq_some_iff a s f).mp hf))
  have hlen : i < f.length := hresolved.1 ▸ hi
  have hvalue := hresolved.2 i hi hlen
  rw [List.get_eq_getElem] at hvalue
  cases hterm : a.args[i] with
  | const v => simp [hterm, Term.anonymous] at hanon
  | var x =>
    have hx : isAnonymous x = true := by simpa [hterm, Term.anonymous] using hanon
    simp [hterm, resolveTerm, hx] at hvalue

def Extends (s s' : Subst) : Prop := ∀ x v, s x = some v → s' x = some v

theorem Extends.rfl {s : Subst} : Extends s s := fun _ _ h => h

theorem Extends.trans {s s' s'' : Subst} (h : Extends s s') (h' : Extends s' s'') : Extends s s'' :=
  fun x v hx => h' x v (h x v hx)

theorem Extends.isSome {s s' : Subst} (h : Extends s s') {x : Str} (hx : (s x).isSome) :
    (s' x).isSome := by
  obtain ⟨v, hv⟩ := Option.isSome_iff_exists.mp hx
  rw [h x v hv]
  rfl

theorem extends_bindVar {s : Subst} {x : Str} (hx : s x = none) (v : FactValue) :
    Extends s (bindVar s x v) := by
  intro y w hy
  rw [bindVar, if_neg]
  · exact hy
  · rintro rfl
    rw [hx] at hy
    cases hy

theorem matchFact_binds (f : Fact) (i : ℕ) (args : List Term) (s s' : Subst)
    (h : matchFact f i args s = .ok (some s')) :
    Extends s s' ∧ ∀ x ∈ namedVars args, (s' x).isSome := by
  induction args generalizing i s with
  | nil =>
    obtain rfl := Option.some.inj (Except.ok.inj h)
    exact ⟨.rfl, fun x hx => absurd hx List.not_mem_nil⟩
  | cons t args ih =>
    cases t with
    | const v =>
      have hvars : namedVars (.const v :: args) = namedVars args := rfl
      rw [hvars]
      rw [matchFact] at h
      split at h
      · cases h
      · split at h
        · exact ih _ _ h
        · cases h
    | var name =>
      rw [matchFact] at h
      by_cases hanon : isAnonymous name = true
      · have hvars : namedVars (.var name :: args) = namedVars args := by
          simp [namedVars, Term.named, hanon]
        rw [hvars]
        rw [if_pos hanon] at h
        exact ih _ _ h
      · have hvars : namedVars (.var name :: args) = name :: namedVars args := by
          simp [namedVars, Term.named, hanon]
        rw [hvars]
        rw [if_neg hanon] at h
        split at h
        · cases h
        · next w _ =>
          split at h
          · next v hv =>
            split at h
            · obtain ⟨hext, hbinds⟩ := ih _ _ h
              refine ⟨hext, fun x hx => ?_⟩
              rcases List.mem_cons.mp hx with rfl | hx
              · rw [hext x v hv]
                rfl
              · exact hbinds x hx
            · cases h
          · next hnone =>
            obtain ⟨hext, hbinds⟩ := ih _ _ h
            refine ⟨(extends_bindVar hnone w).trans hext, fun x hx => ?_⟩
            rcases List.mem_cons.mp hx with rfl | hx
            · rw [hext x w (by simp [bindVar])]
              rfl
            · exact hbinds x hx

section Body

variable (order : SetOrder) (repr : Str → Str) (helpers : Registry)

theorem joinOne_mem {a : Atom} {rel : Relation} {s : Subst} {out : List Subst}
    (h : joinOne order a rel s = .ok out) :
    ∃ candidates, rel.lookup order ((boundColumns s a.args).map Prod.fst)
        ((boundColumns s a.args).map Prod.snd) = .ok candidates ∧
      ∀ s', s' ∈ out ↔ ∃ f ∈ candidates, matchFact f 0 a.args s = .ok (some s') := by
  obtain ⟨candidates, hcandidates, h⟩ := bind_ok h
  obtain ⟨matched, hmatched, h⟩ := bind_ok h
  obtain rfl := Except.ok.inj h
  refine ⟨candidates, hcandidates, fun s' => ?_⟩
  simp only [List.mem_filterMap, id, exists_eq_right]
  exact mem_mapM_ok hmatched (some s')

theorem joinAtom_mem {a : Atom} {subs out : List Subst} {facts : Dict Str Relation}
    (h : joinAtom order a subs facts = .ok out) (s' : Subst) :
    s' ∈ out ↔ ∃ rel, facts.get? a.predicate = some rel ∧
      ∃ s ∈ subs, ∃ joined, joinOne order a rel s = .ok joined ∧ s' ∈ joined := by
  rw [joinAtom] at h
  split at h
  · next hnone =>
    obtain rfl := Except.ok.inj h
    simp [hnone]
  · next rel hrel =>
    obtain ⟨joined, hjoined, h⟩ := bind_ok h
    obtain rfl := Except.ok.inj h
    rw [List.mem_flatten]
    constructor
    · rintro ⟨ss, hss, hmem⟩
      obtain ⟨s, hs, hone⟩ := (mem_mapM_ok hjoined ss).mp hss
      exact ⟨rel, hrel, s, hs, ss, hone, hmem⟩
    · rintro ⟨rel', hrel', s, hs, ss, hone, hmem⟩
      obtain rfl := Option.some.inj (hrel.symm.trans hrel')
      exact ⟨ss, (mem_mapM_ok hjoined ss).mpr ⟨s, hs, hone⟩, hmem⟩

theorem joinAtom_binds {a : Atom} {subs out : List Subst} {facts : Dict Str Relation}
    (h : joinAtom order a subs facts = .ok out) {s' : Subst} (hs' : s' ∈ out) :
    (∃ s ∈ subs, Extends s s') ∧ ∀ x ∈ namedVars a.args, (s' x).isSome := by
  obtain ⟨rel, -, s, hs, joined, hone, hmem⟩ := (joinAtom_mem order h s').mp hs'
  obtain ⟨candidates, -, hjoined⟩ := joinOne_mem order hone
  obtain ⟨f, -, hmatch⟩ := (hjoined s').mp hmem
  obtain ⟨hext, hbinds⟩ := matchFact_binds f 0 a.args s s' hmatch
  exact ⟨⟨s, hs, hext⟩, hbinds⟩

theorem joinAtoms_binds {facts : Dict Str Relation} (atoms : List Atom) (subs out : List Subst)
    (h : joinAtoms order facts atoms subs = .ok out) (s' : Subst) (hs' : s' ∈ out) :
    (∃ s ∈ subs, Extends s s') ∧ ∀ a ∈ atoms, ∀ x ∈ namedVars a.args, (s' x).isSome := by
  induction atoms generalizing subs with
  | nil =>
    obtain rfl := Except.ok.inj h
    exact ⟨⟨s', hs', .rfl⟩, fun a ha => absurd ha List.not_mem_nil⟩
  | cons a atoms ih =>
    obtain ⟨next, hjoin, h⟩ := bind_ok h
    split at h
    · obtain rfl := Except.ok.inj h
      exact absurd hs' List.not_mem_nil
    · obtain ⟨⟨s, hs, hext⟩, hbinds⟩ := ih next h
      obtain ⟨⟨s₀, hs₀, hext₀⟩, hbinds₀⟩ := joinAtom_binds order hjoin hs
      refine ⟨⟨s₀, hs₀, hext₀.trans hext⟩, fun b hb x hx => ?_⟩
      rcases List.mem_cons.mp hb with rfl | hb
      · exact hext.isSome (hbinds₀ x hx)
      · exact hbinds b hb x hx

theorem bindOutput_extends {output : Term} {result : FactValue} {s s' : Subst}
    (h : bindOutput output result s = some s') : Extends s s' := by
  cases output with
  | const v =>
    rw [bindOutput] at h
    split at h
    · obtain rfl := Option.some.inj h
      exact .rfl
    · cases h
  | var name =>
    rw [bindOutput] at h
    split at h
    · obtain rfl := Option.some.inj h
      exact .rfl
    · split at h
      · split at h
        · obtain rfl := Option.some.inj h
          exact .rfl
        · cases h
      · next hnone =>
        obtain rfl := Option.some.inj h
        exact extends_bindVar hnone result

theorem callHelper_extends {reg : HelperFunction} {args : List Term} {s s' : Subst}
    (h : callHelper reg args s = .ok (some s')) : Extends s s' := by
  cases reg with
  | predicate n fn =>
    rw [callHelper] at h
    split at h
    · cases h
    · split at h
      · obtain rfl := Option.some.inj (Except.ok.inj h)
        exact .rfl
      · cases h
  | function n fn =>
    rw [callHelper] at h
    split at h
    · cases h
    · split at h
      · cases h
      · obtain ⟨result, -, hbind⟩ := Option.bind_eq_some_iff.mp (Except.ok.inj h)
        exact bindOutput_extends hbind

theorem applyHelpers_extends (calls : List HelperCall) (subs out : List Subst)
    (h : applyHelpers repr helpers calls subs = .ok out) (s' : Subst) (hs' : s' ∈ out) :
    ∃ s ∈ subs, Extends s s' := by
  induction calls generalizing subs with
  | nil =>
    obtain rfl := Except.ok.inj h
    exact ⟨s', hs', .rfl⟩
  | cons call calls ih =>
    rw [applyHelpers] at h
    split at h
    · obtain rfl := Except.ok.inj h
      exact absurd hs' List.not_mem_nil
    · split at h
      · cases h
      · obtain ⟨called, hcalled, h⟩ := bind_ok h
        dsimp only at h
        split at h
        · obtain rfl := Except.ok.inj h
          exact absurd hs' List.not_mem_nil
        · obtain ⟨s, hs, hext⟩ := ih _ h
          simp only [List.mem_filterMap, id, exists_eq_right] at hs
          obtain ⟨s₀, hs₀, hcall⟩ := (mem_mapM_ok hcalled (some s)).mp hs
          exact ⟨s₀, hs₀, (callHelper_extends hcall).trans hext⟩

theorem bindings_bind {r : Rule} {facts : Dict Str Relation} {subs : List Subst}
    (h : bindings order repr helpers r facts = .ok subs) {s : Subst} (hs : s ∈ subs) {x : Str}
    (hx : x ∈ positiveVars r) : (s x).isSome := by
  obtain ⟨joined, hjoined, h⟩ := bind_ok h
  split at h
  · obtain rfl := Except.ok.inj h
    exact absurd hs List.not_mem_nil
  · obtain ⟨s₀, hs₀, hext⟩ := applyHelpers_extends repr helpers _ _ _ h s hs
    obtain ⟨a, ha, hxa⟩ := mem_positiveVars.mp hx
    exact hext.isSome ((joinAtoms_binds order _ _ _ hjoined s₀ hs₀).2 a ha x hxa)

end Body

/-- The head fact of a binding that the negated atoms let through. -/
def emitted (r : Rule) (facts : Dict Str Relation) (s : Subst) : Option Fact :=
  if r.negatedAtoms.all (keepsNegated facts s) then groundAtom r.head s else none

theorem derive_eq (order : SetOrder) (repr : Str → Str) (helpers : Registry) {r : Rule}
    {facts : Dict Str Relation} {subs : List Subst}
    (h : bindings order repr helpers r facts = .ok subs) :
    derive order repr helpers r facts = .ok (subs.filterMap (emitted r facts)) := by
  have hemitted : (filterNegated r.negatedAtoms subs facts).filterMap (groundAtom r.head) =
      subs.filterMap (emitted r facts) := by
    rw [filterNegated, List.filterMap_filter]
    rfl
  rw [derive, h, ← hemitted]
  rfl

def MatchesFree (s : Subst) : Term → FactValue → Prop
  | .const v, w => pyEq v w
  | .var x, w => isAnonymous x = true ∨ ∃ v, s x = some v ∧ pyEq v w

/-- A fact of a negated predicate matches its atom under the binding. -/
def Blocked (r : Rule) (facts : Dict Str Relation) (s : Subst) : Prop :=
  ∃ n ∈ r.negatedAtoms, ∃ rel, facts.get? n.atom.predicate = some rel ∧
    ∃ f ∈ rel.facts, List.Forall₂ (MatchesFree s) n.atom.args f

/-- No negated atom has an anonymous variable. -/
def NoWildcard (r : Rule) : Prop :=
  ∀ n ∈ r.negatedAtoms, ∀ t ∈ n.atom.args, t.anonymous = false

theorem factEq_iff (g f : Fact) : factEq g f = true ↔ List.Forall₂ (fun v w => pyEq v w = true) g f := by
  rw [factEq, decide_eq_true_iff, ← List.forall₂_eq_eq_eq, List.forall₂_map_left_iff,
    List.forall₂_map_right_iff]
  simp only [pyEq, decide_eq_true_eq]

theorem matchesFree_iff {s : Subst} {args : List Term} {g f : Fact}
    (hanon : ∀ t ∈ args, t.anonymous = false)
    (hground : List.Forall₂ (fun t v => resolveTerm s t = some v) args g) :
    List.Forall₂ (MatchesFree s) args f ↔ factEq g f = true := by
  rw [factEq_iff]
  induction hground generalizing f with
  | nil => simp
  | @cons t v args g ht _ ih =>
    have hterm : ∀ w, MatchesFree s t w ↔ pyEq v w = true := by
      intro w
      cases t with
      | const c =>
        obtain rfl := Option.some.inj ht
        exact Iff.rfl
      | var x =>
        have hx : isAnonymous x = false := hanon (.var x) List.mem_cons_self
        simp only [resolveTerm, hx, Bool.false_eq_true, if_false] at ht
        simp [MatchesFree, hx, ht]
    have hrest := fun fs => ih (f := fs) fun t ht => hanon t (List.mem_cons_of_mem _ ht)
    simp only [List.forall₂_cons_left_iff, hterm, hrest]

theorem keepsNegated_iff {facts : Dict Str Relation} {s : Subst} {n : NegatedAtom} {g : Fact}
    (hanon : ∀ t ∈ n.atom.args, t.anonymous = false) (hground : groundAtom n.atom s = some g) :
    keepsNegated facts s n = true ↔ ¬ ∃ rel, facts.get? n.atom.predicate = some rel ∧
      ∃ f ∈ rel.facts, List.Forall₂ (MatchesFree s) n.atom.args f := by
  have hmatches := fun f => matchesFree_iff (f := f) hanon ((groundAtom_eq_some_iff _ _ _).mp hground)
  simp only [keepsNegated, hground]
  cases hrel : facts.get? n.atom.predicate with
  | none => simp
  | some rel => simp [memFacts, hmatches]

section Accepted

variable (order : SetOrder) (repr : Str → Str) {r : Rule} {facts : Dict Str Relation}
  {s : Subst}

theorem emitted_of_wildcard (h : ¬ NoWildcard r) : emitted r facts s = none := by
  simp only [NoWildcard, not_forall] at h
  obtain ⟨n, hn, t, ht, hanon⟩ := h
  rw [emitted, if_neg]
  intro hall
  have hkeeps := List.all_eq_true.mp hall n hn
  rw [keepsNegated, groundAtom_anonymous ht (by simpa using hanon)] at hkeeps
  cases hkeeps

theorem emitted_iff (hsafe : r.Safe) (hbound : ∀ x ∈ positiveVars r, (s x).isSome)
    (h : NoWildcard r) : (emitted r facts s).isSome ↔ ¬ Blocked r facts s := by
  obtain ⟨head, hhead⟩ := groundAtom_isSome fun x hx =>
    ⟨(hsafe.head x hx).1, hbound x (hsafe.head x hx).2⟩
  have hkeeps : ∀ n ∈ r.negatedAtoms, (keepsNegated facts s n = true ↔
      ¬ ∃ rel, facts.get? n.atom.predicate = some rel ∧
        ∃ f ∈ rel.facts, List.Forall₂ (MatchesFree s) n.atom.args f) := by
    intro n hn
    have hground : ∃ g, groundAtom n.atom s = some g := groundAtom_isSome fun x hx => by
      have hanon : isAnonymous x = false := h n hn (.var x) hx
      refine ⟨hanon, hbound x ((hsafe.negated n hn x hx).resolve_left ?_)⟩
      rw [hanon]
      exact Bool.false_ne_true
    obtain ⟨g, hg⟩ := hground
    exact keepsNegated_iff (h n hn) hg
  have hall : r.negatedAtoms.all (keepsNegated facts s) = true ↔ ¬ Blocked r facts s := by
    rw [List.all_eq_true, Blocked, not_exists]
    constructor
    · intro hk n hblocked
      exact (hkeeps n hblocked.1).mp (hk n hblocked.1) hblocked.2
    · intro hnot n hn
      exact (hkeeps n hn).mpr fun hmatch => hnot n ⟨hn, hmatch⟩
  rw [← hall, emitted, hhead]
  split
  · next hk => simp [hk]
  · next hk => simp [hk]

/-- For a rule of an accepted program and any state of the relations, what the
rule derives is what it emits for the bindings of its positive atoms and helper
calls. A binding's answer agrees with the negated atoms just when they have no
wildcard or a fact matches them. -/
theorem wildcard_negation_iff {p p' : Program} {helperNames : List Str} {strata : List Stratum}
    (haccepted : stratify repr order p helperNames = .ok (p', strata)) (hr : r ∈ p'.rules)
    (helpers : Registry) {subs : List Subst}
    (hsubs : bindings order repr helpers r facts = .ok subs) :
    derive order repr helpers r facts = .ok (subs.filterMap (emitted r facts)) ∧
      ∀ s ∈ subs, ((emitted r facts s).isSome ↔ ¬ Blocked r facts s) ↔
        NoWildcard r ∨ Blocked r facts s := by
  refine ⟨derive_eq order repr helpers hsubs, fun s hs => ?_⟩
  have hsafe := stratify_safe repr order haccepted r hr
  by_cases h : NoWildcard r
  · have hiff : (emitted r facts s).isSome ↔ ¬ Blocked r facts s := emitted_iff hsafe
      (fun x hx => bindings_bind order repr helpers hsubs hs hx) h
    exact iff_of_true hiff (Or.inl h)
  · rw [emitted_of_wildcard h]
    simp [h]

end Accepted

def wildcard : Term := .var (txt "_")

/-- `@deny deny(A) :- pending_action(A, _, _, _), not approved(A, _, _).` -/
def unapprovedRule : Rule where
  annotation := .deny
  head := ⟨txt "deny", [.var (txt "A")], 1, 7⟩
  body :=
    [.atom ⟨txt "pending_action", [.var (txt "A"), wildcard, wildcard, wildcard], 1, 18⟩,
      .negated ⟨⟨txt "approved", [.var (txt "A"), wildcard, wildcard], 1, 53⟩, 1, 49⟩]
  line := 1
  col := 7

def unapproved : Program := ⟨[unapprovedRule]⟩

def pendingFact : Fact := [.str (txt "a1"), .str (txt "send"), .str (txt "bot"), .str (txt "h")]

/-- One pending action and no approval. -/
def pendingEdb : Dict Str Relation :=
  (Dict.empty.set (txt "pending_action")
    ⟨txt "pending_action", 4, [pendingFact], fun f hf => by rw [List.mem_singleton.mp hf]; rfl⟩).set
    (txt "approved") ⟨txt "approved", 3, [], fun f hf => absurd hf List.not_mem_nil⟩

theorem unapproved_accepted :
    ∃ strata, stratify quotedName listOrder unapproved [] = .ok (unapproved, strata) := by
  have hmap : (stratify quotedName listOrder unapproved []).map (fun q => q.1.rules) =
      .ok [unapprovedRule] := by
    decide
  obtain ⟨⟨⟨rules⟩, strata⟩, hok, hrules⟩ := map_ok hmap
  obtain rfl : rules = [unapprovedRule] := hrules
  exact ⟨strata, hok⟩

theorem unapproved_bindings :
    ∃ s, bindings listOrder quotedName Dict.empty unapprovedRule pendingEdb = .ok [s] ∧
      s (txt "A") = some (.str (txt "a1")) := by
  have hmap : (bindings listOrder quotedName Dict.empty unapprovedRule pendingEdb).map
      (fun subs => subs.map fun s => s (txt "A")) = .ok [some (.str (txt "a1"))] := by
    decide
  obtain ⟨subs, hok, hsubs⟩ := map_ok hmap
  obtain ⟨s, rfl, hs⟩ := List.map_eq_singleton_iff.mp hsubs
  exact ⟨s, hok, hs⟩

theorem unapproved_wildcard : ¬ NoWildcard unapprovedRule := by
  intro h
  have hanon := h ⟨⟨txt "approved", [.var (txt "A"), wildcard, wildcard], 1, 53⟩, 1, 49⟩
    (by simp [unapprovedRule, Rule.negatedAtoms]) wildcard (by simp)
  exact absurd hanon (by decide)

theorem unapproved_unblocked (s : Subst) : ¬ Blocked unapprovedRule pendingEdb s := by
  rintro ⟨n, hn, rel, hrel, f, hf, -⟩
  obtain rfl : n = ⟨⟨txt "approved", [.var (txt "A"), wildcard, wildcard], 1, 53⟩, 1, 49⟩ := by
    simpa [unapprovedRule, Rule.negatedAtoms] using hn
  rw [pendingEdb, Dict.get?_set, if_pos rfl] at hrel
  obtain rfl := Option.some.inj hrel
  exact absurd hf List.not_mem_nil

/-- The rule applies to a pending action without an approval and stays silent,
and the closure has no `deny` fact. -/
theorem unapproved_action_not_denied :
    (∃ p' strata, stratify quotedName listOrder unapproved [] = .ok (p', strata) ∧
      ∃ r ∈ p'.rules, ¬ NoWildcard r ∧
        ∃ subs, bindings listOrder quotedName Dict.empty r pendingEdb = .ok subs ∧
          ∃ s ∈ subs, ¬ ((emitted r pendingEdb s).isSome ↔ ¬ Blocked r pendingEdb s)) ∧
      (Evaluator.make quotedName listOrder unapproved Dict.empty >>= fun ev =>
        (ev.evaluate asciiClasses quotedName listOrder pendingEdb).map fun closure =>
          closure.items.map fun e => (e.1, e.2.facts)) =
        .ok [(txt "pending_action", [pendingFact]), (txt "approved", []), (txt "deny", [])] := by
  obtain ⟨strata, haccepted⟩ := unapproved_accepted
  obtain ⟨s, hsubs, -⟩ := unapproved_bindings
  refine ⟨⟨unapproved, strata, haccepted, unapprovedRule, List.mem_singleton.mpr rfl,
    unapproved_wildcard, [s], hsubs, s, List.mem_singleton.mpr rfl, ?_⟩, by decide⟩
  rw [emitted_of_wildcard unapproved_wildcard]
  simp [unapproved_unblocked]

theorem wildcard_negation_unapproved :
    ∃ s, derive listOrder quotedName Dict.empty unapprovedRule pendingEdb =
        .ok ([s].filterMap (emitted unapprovedRule pendingEdb)) ∧
      (((emitted unapprovedRule pendingEdb s).isSome ↔ ¬ Blocked unapprovedRule pendingEdb s) ↔
        NoWildcard unapprovedRule ∨ Blocked unapprovedRule pendingEdb s) := by
  obtain ⟨strata, haccepted⟩ := unapproved_accepted
  obtain ⟨s, hsubs, -⟩ := unapproved_bindings
  have h := wildcard_negation_iff listOrder quotedName haccepted (List.mem_singleton.mpr rfl)
    Dict.empty hsubs
  exact ⟨s, h.1, h.2 s (List.mem_singleton.mpr rfl)⟩

end TexGovernance.Pcas
