import TexGovernance.Pcas.Evaluator
import TexGovernance.Pcas.PerfectModel

/-!
# An evaluation returns the perfect model

The seeded relations and the run over the strata put together, for programs
and given facts whose values Python keeps apart.
-/

namespace TexGovernance.Pcas
open PyStr PyDict Pipeline StratifiedLogic

section Evaluate

variable {cc : CharClasses} {repr : Str → Str} {order : SetOrder} {p : Program} {helpers : Registry}
  {ev : Evaluator} {edb : Dict Str Relation}

theorem table_spec (h : Admissible cc p helpers edb) :
    (∀ r ∈ p.rules, ∀ a ∈ r.atoms,
      (((p.rules.flatMap Rule.atoms).foldl noteAtom Dict.empty).get? a.predicate) = some a.arity) ∧
      ∀ q n, ((p.rules.flatMap Rule.atoms).foldl noteAtom Dict.empty).get? q = some n →
        startsLower cc q = true := by
  obtain ⟨arity, harity⟩ := h.oneArity
  obtain ⟨hfrom, -, hnoted⟩ := noteAtoms_spec (p.rules.flatMap Rule.atoms) Dict.empty
  have horigin : ∀ q n, ((p.rules.flatMap Rule.atoms).foldl noteAtom Dict.empty).get? q = some n →
      ∃ r ∈ p.rules, ∃ a ∈ r.atoms, a.predicate = q ∧ a.arity = n := by
    intro q n hq
    rcases hfrom q n hq with hempty | ⟨a, ha, hname⟩
    · simp [Dict.get?, Dict.empty] at hempty
    · obtain ⟨r, hr, har⟩ := List.mem_flatMap.mp ha
      exact ⟨r, hr, a, har, hname⟩
  refine ⟨fun r hr a ha => ?_, fun q n hq => ?_⟩
  · obtain ⟨n, hn⟩ := Option.isSome_iff_exists.mp (hnoted a (List.mem_flatMap.mpr ⟨r, hr, ha⟩))
    obtain ⟨r', hr', b, hb, hname, rfl⟩ := horigin _ _ hn
    rw [hn, harity r hr a ha, harity r' hr' b hb, hname]
  · obtain ⟨r, hr, a, ha, rfl, -⟩ := horigin q n hq
    exact h.names r hr a ha

theorem ruleFits_of (hsafe : ∀ r ∈ p.rules, r.Safe) (h : Admissible cc p helpers edb)
    (hnullary : NoNullaryFunction p helpers) :
    ∀ r ∈ p.rules, RuleFits (occurring p edb)
      (arityOf ((p.rules.flatMap Rule.atoms).foldl noteAtom Dict.empty) edb) helpers r := by
  intro r hr
  refine ⟨hsafe r hr, fun a ha => ?_, fun a ha v hv => Or.inl ⟨r, hr, a, ha, hv⟩,
    h.noWildcard r hr, h.inputs r hr, hnullary r hr⟩
  rw [arityOf, (table_spec h).1 r hr a ha]
  rfl

theorem stateFits_edb (h : Admissible cc p helpers edb) {table : Dict Str ℕ}
    (hchecked : ∀ e ∈ edb.items, ∀ n, table.get? e.1 = some n → e.2.arity = n) :
    StateFits cc (occurring p edb) (arityOf table edb) edb where
  named := h.edbNames
  arities q rel hrel := by
    rw [arityOf]
    cases htable : table.get? q with
    | none => simp [hrel]
    | some n => exact hchecked (q, rel) ((Dict.get?_eq_some_iff _ _ _).mp hrel) n htable
  values q f hf v hv := Or.inr ⟨q, f, hf, hv⟩

theorem evaluate_perfect (hmake : Evaluator.make repr order p helpers = .ok ev)
    (h : Admissible cc ev.program helpers edb) (hD : NoClash (occurring ev.program edb))
    (hnullary : NoNullaryFunction ev.program helpers) :
    ReturnsPerfectModel cc repr order ev edb := by
  obtain ⟨hhelpers, hsafe, ⟨sccs, hlayered, hstrata⟩, htable⟩ := make_ok hmake
  have hfit := ruleFits_of hsafe h hnullary
  rw [← htable] at hfit
  rw [ReturnsPerfectModel, Evaluator.evaluate, hhelpers]
  rcases checkEdb_spec repr ev.relationArities edb.items with ⟨message, herror⟩ | ⟨hok, hchecked⟩
  · exact Or.inl ⟨message, by rw [herror]; rfl⟩
  rw [hok]
  have hstart := stateFits_edb h hchecked
  obtain ⟨hnoted, hnames⟩ := table_spec h
  rw [← htable] at hnoted hnames
  obtain ⟨opened, hopened, hfits, hholds, -, hpresent⟩ :=
    seedEmpty_spec hstart ev.relationArities.items fun e he => by
      have hget := (Dict.get?_eq_some_iff ev.relationArities e.1 e.2).mpr he
      refine ⟨?_, hnames e.1 e.2 hget⟩
      rw [arityOf, hget]
      rfl
  have hheads : ∀ r ∈ ev.program.rules, (opened.get? r.head.predicate).isSome = true := fun r hr =>
    hpresent (r.head.predicate, r.head.arity)
      ((Dict.get?_eq_some_iff _ _ _).mp (hnoted r hr _ (head_mem_atoms r)))
  obtain ⟨seeded, hseeded, hfits', hdomain, hholds'⟩ :=
    seedFacts_spec repr hD ev.program.rules hfits hfit hheads
  have hseed : ∀ q f, Holds seeded q f ↔ Holds edb q f ∨
      ∃ r ∈ ev.program.rules, r.isFact = true ∧ r.head.predicate = q ∧ ∃ ν, AtomIs ν r.head f :=
    fun q f => (hholds' q f).trans (or_congr_left (hholds q f))
  have hrun := strata_spec repr order hD hlayered hfit [] sccs rfl 0 seeded hfits'
    fun r hr => (hdomain _).trans (hheads r hr)
  rw [← hstrata] at hrun
  change (∃ message, (ev.relationArities.items.foldlM (seedEmpty cc) edb >>= _) = _) ∨
    ∃ final, (ev.relationArities.items.foldlM (seedEmpty cc) edb >>= _) = _ ∧ _
  rw [hopened]
  change (∃ message, (ev.program.rules.foldlM (seedFact cc repr) opened >>= _) = _) ∨
    ∃ final, (ev.program.rules.foldlM (seedFact cc repr) opened >>= _) = _ ∧ _
  rw [hseeded]
  rcases hrun with herror | ⟨final, hfinal, hcompleted⟩
  · exact Or.inl herror
  · refine Or.inr ⟨final, hfinal, ⟨_, hlayered.stratifies⟩, fun level hlevel q f => ?_⟩
    have hperfect := (stable_iff_perfect (stratified_groundClauses hlevel helpers edb)).mp
      (final_stable hlayered hseed hcompleted)
    rw [perfectModel, ← hperfect]
    rfl

end Evaluate

def comparisons : Registry := Dict.empty.set (txt "greater") (.predicate 2 greater)

def flagFact (v : FactValue) : Rule := ⟨.rule, ⟨txt "p", [.const v], 1, 1⟩, [], 1, 1⟩

/-- `q(X) :- p(X), greater(X, 0).`, with the call as it is parsed. -/
def positiveFlag (body : List BodyElement) : Rule :=
  ⟨.rule, ⟨txt "q", [.var (txt "X")], 3, 1⟩, .atom ⟨txt "p", [.var (txt "X")], 3, 9⟩ :: body, 3, 1⟩

def greaterAtom : BodyElement := .atom ⟨txt "greater", [.var (txt "X"), .const (.int 0)], 3, 15⟩

def greaterCall : HelperCall := ⟨txt "greater", [.var (txt "X"), .const (.int 0)], 3, 15⟩

/-- `p(true). p(1). q(X) :- p(X), greater(X, 0).` -/
def maskedFlag : Program :=
  ⟨[flagFact (.bool true), flagFact (.int 1), positiveFlag [greaterAtom]]⟩

def maskedRules : List Rule :=
  [flagFact (.bool true), flagFact (.int 1), positiveFlag [.helper greaterCall]]

theorem maskedFlag_make : ∃ ev, Evaluator.make quotedName listOrder maskedFlag comparisons = .ok ev ∧
    ev.program = ⟨maskedRules⟩ ∧ ev.helpers = comparisons ∧
    (ev.evaluate asciiClasses quotedName listOrder Dict.empty).map
      (fun final => final.items.map fun e => (e.1, e.2.facts)) =
      .ok [(txt "p", [[.bool true]]), (txt "q", [])] := by
  have hrules : (Evaluator.make quotedName listOrder maskedFlag comparisons).map
      (fun ev => ev.program.rules) = .ok maskedRules := by
    decide
  have hresult : (Evaluator.make quotedName listOrder maskedFlag comparisons >>= fun ev =>
      (ev.evaluate asciiClasses quotedName listOrder Dict.empty).map fun final =>
        final.items.map fun e => (e.1, e.2.facts)) =
      .ok [(txt "p", [[.bool true]]), (txt "q", [])] := by
    decide
  obtain ⟨ev, hmake, hev⟩ := map_ok hrules
  rw [hmake] at hresult
  refine ⟨ev, hmake, ?_, (make_ok hmake).1, hresult⟩
  rw [← hev]

theorem maskedFlag_admissible : Admissible asciiClasses ⟨maskedRules⟩ comparisons Dict.empty where
  names := by decide
  calls := by decide
  edbNames q rel hrel := by simp [Dict.get?, Dict.empty] at hrel
  oneArity := ⟨fun _ => 1, by decide⟩
  noWildcard r hr n hn := by
    have hnone : ∀ r ∈ maskedRules, r.negatedAtoms = [] := by decide
    rw [hnone r hr] at hn
    exact absurd hn List.not_mem_nil
  inputs := by decide

theorem masked_derivable (final : Dict Str Relation) :
    (txt "q", [.int 1]) ∈ derivable ⟨maskedRules⟩ comparisons Dict.empty final := by
  have hflag : (txt "p", [.int 1]) ∈ derivable ⟨maskedRules⟩ comparisons Dict.empty final :=
    derivable_rule (r := flagFact (.int 1)) (by simp [maskedRules]) (fun _ => .int 1)
      ⟨fun a ha => absurd ha List.not_mem_nil, fun h hh => absurd hh List.not_mem_nil,
        fun n hn => absurd hn List.not_mem_nil⟩ (.cons rfl .nil)
  refine derivable_rule (r := positiveFlag [.helper greaterCall])
    (by simp [maskedRules]) (fun _ => .int 1) ⟨fun a ha => ?_, fun h hh => ?_, fun n hn => absurd hn List.not_mem_nil⟩
    (.cons (Or.inr rfl) .nil)
  · obtain rfl : a = ⟨txt "p", [.var (txt "X")], 3, 9⟩ := List.mem_singleton.mp ha
    exact ⟨_, hflag, .cons (Or.inr rfl) .nil⟩
  · obtain rfl : h = greaterCall := List.mem_singleton.mp hh
    have hget : comparisons.get? greaterCall.name = some (.predicate 2 greater) := by
      rw [comparisons, Dict.get?_set]
      exact if_pos rfl
    simp only [CallSucceeds, hget]
    exact ⟨rfl, by decide⟩

/-- The relation `p` keeps `true` and drops `1`, so `greater` never sees the
integer and `q(1)` is missing. -/
theorem boolean_masks_integer :
    ∃ ev, Evaluator.make quotedName listOrder maskedFlag comparisons = .ok ev ∧
      Admissible asciiClasses ev.program comparisons Dict.empty ∧
      ¬ ReturnsPerfectModel asciiClasses quotedName listOrder ev Dict.empty := by
  obtain ⟨ev, hmake, hprogram, hhelpers, hresult⟩ := maskedFlag_make
  refine ⟨ev, hmake, hprogram ▸ maskedFlag_admissible, ?_⟩
  obtain ⟨final, hfinal, hitems⟩ := map_ok hresult
  rintro (⟨message, herror⟩ | ⟨final', hfinal', ⟨level, hlevel⟩, hperfect⟩)
  · rw [hfinal] at herror
    cases herror
  · obtain rfl := Except.ok.inj (hfinal.symm.trans hfinal')
    have hset : perfectModel ev.program ev.helpers Dict.empty level = {x | Holds final x.1 x.2} :=
      Set.ext fun x => (hperfect level hlevel x.1 x.2).symm
    have hmem := masked_derivable final
    rw [derivable, ← hprogram, ← hhelpers, ← hset] at hmem
    have hholds := (hperfect level hlevel _ _).mpr
      (perfect_of_derived (stratified_groundClauses hlevel _ _) hmem)
    obtain ⟨rel, hrel, hfact⟩ := hholds
    have hitem := List.mem_map_of_mem (f := fun e : Str × Relation => (e.1, e.2.facts))
      ((Dict.get?_eq_some_iff _ _ _).mp hrel)
    rw [hitems] at hitem
    have hne : txt "q" ≠ txt "p" := by decide
    simp only [List.mem_cons, Prod.mk.injEq, hne, false_and, true_and, List.not_mem_nil, or_false,
      false_or] at hitem
    rw [hitem] at hfact
    exact absurd hfact List.not_mem_nil

end TexGovernance.Pcas
