import TexGovernance.Pcas.ValueClash

/-!
# What a closure depends on

The order of rules, facts and sets does not show in a closure, and what rests on positive rules
alone is derived by every extension of the policy and of the facts.
-/

namespace TexGovernance.Pcas
open PyStr PyDict Pipeline StratifiedLogic

/-- What `evaluate_perfect` asks of a program and its facts. -/
structure Evaluable (cc : CharClasses) (ev : Evaluator) (helpers : Registry) (edb : Dict Str Relation) : Prop where
  admissible : Admissible cc ev.program helpers edb
  noClash : NoClash (occurring ev.program edb)
  noNullary : NoNullaryFunction ev.program helpers

section Closures

variable {cc : CharClasses} {repr : Str → Str} {order order' : SetOrder} {helpers : Registry} {p p' : Program}
  {ev ev' : Evaluator} {edb edb' final final' : Dict Str Relation}

theorem closure_eq (hmake : Evaluator.make repr order p helpers = .ok ev) (h : Evaluable cc ev helpers edb)
    (hfinal : ev.evaluate cc repr order edb = .ok final) : (∃ level, Stratifies ev.program level) ∧
      ∀ level, Stratifies ev.program level → ∀ q f,
        Holds final q f ↔ (q, f) ∈ perfectModel ev.program helpers edb level := by
  rcases evaluate_perfect hmake h.admissible h.noClash h.noNullary with ⟨message, herror⟩ | ⟨model, hmodel, hperfect⟩
  · rw [hfinal] at herror
    cases herror
  · obtain rfl := Except.ok.inj (hfinal.symm.trans hmodel)
    rw [(make_ok hmake).1] at hperfect
    exact hperfect

theorem mem_disambiguated (hmake : Evaluator.make repr order p helpers = .ok ev) (r : Rule) :
    r ∈ ev.program.rules ↔ ∃ r₀ ∈ p.rules, disambiguateRule repr helpers.keys r₀ = .ok r := by
  obtain ⟨⟨program, strata⟩, hstratify, h⟩ := bind_ok hmake
  obtain ⟨table, -, h⟩ := bind_ok h
  obtain rfl := Except.ok.inj h
  obtain ⟨q, hq, hrest⟩ := bind_ok hstratify
  obtain ⟨u, -, hrest⟩ := bind_ok hrest
  obtain ⟨u', -, hrest⟩ := bind_ok hrest
  obtain ⟨rfl, -⟩ := Prod.mk.inj (Except.ok.inj hrest)
  obtain ⟨rules, hrules, hq⟩ := bind_ok hq
  obtain rfl := Except.ok.inj hq
  exact mem_mapM_ok hrules r

theorem rules_subset (hmake : Evaluator.make repr order p helpers = .ok ev)
    (hmake' : Evaluator.make repr order' p' helpers = .ok ev') (h : p.rules ⊆ p'.rules) :
    ev.program.rules ⊆ ev'.program.rules := by
  intro r hr
  obtain ⟨r₀, hr₀, hread⟩ := (mem_disambiguated hmake r).mp hr
  exact (mem_disambiguated hmake' r).mpr ⟨r₀, h hr₀, hread⟩

theorem oneTwo_noClash : NoClash {.int 1, .int 2} := by
  intro v hv w hw hvw
  rcases hv with rfl | rfl <;> rcases hw with rfl | rfl <;> revert hvw <;> decide

theorem twoFlags_evaluates {v w : FactValue} (hclash : NoClash {v, w})
    (hok : (Evaluator.make quotedName listOrder (twoFlags v w) comparisons >>= fun ev =>
      ev.evaluate asciiClasses quotedName listOrder Dict.empty).isOk = true) :
    ∃ ev final, Evaluator.make quotedName listOrder (twoFlags v w) comparisons = .ok ev ∧
      ev.program = twoFlags v w ∧ Evaluable asciiClasses ev comparisons Dict.empty ∧
      ev.evaluate asciiClasses quotedName listOrder Dict.empty = .ok final := by
  have harity : ∀ r ∈ (twoFlags v w).rules, r.head.arity = 1 ∧ r.helperCalls = [] := by
    intro r hr
    rcases List.mem_cons.mp hr with rfl | hr
    · exact ⟨rfl, rfl⟩
    · rw [List.mem_singleton.mp hr]
      exact ⟨rfl, rfl⟩
  obtain ⟨ev, hmake, hprogram⟩ := make_ground quotedName listOrder (twoFlags_ground v w) (fun _ => 1)
    (fun r hr => (harity r hr).1) comparisons
  rw [hmake] at hok
  cases hfinal : ev.evaluate asciiClasses quotedName listOrder Dict.empty with
  | error e =>
    rw [show ((Except.ok ev >>= fun ev => ev.evaluate asciiClasses quotedName listOrder Dict.empty) :
      Except PcasError (Dict Str Relation)) = .error e from hfinal] at hok
    cases hok
  | ok final =>
    refine ⟨ev, final, hmake, hprogram, ⟨?_, ?_, ?_⟩, hfinal⟩
    · rw [hprogram]
      exact twoFlags_admissible (by decide) v w
    · rw [hprogram]
      exact fun x hx y hy => hclash x (twoFlags_occurring v w hx) y (twoFlags_occurring v w hy)
    · rw [hprogram]
      intro r hr h hh
      rw [(harity r hr).2] at hh
      cases hh

/-- Two evaluations of the same rules on the same facts, in whatever order these are given and sets
are gone through, have the same closure. -/
theorem closure_order_free (hmake : Evaluator.make repr order p helpers = .ok ev)
    (hmake' : Evaluator.make repr order' p' helpers = .ok ev') (h : Evaluable cc ev helpers edb)
    (h' : Evaluable cc ev' helpers edb') (hrules : ∀ r, r ∈ p.rules ↔ r ∈ p'.rules)
    (hedb : ∀ q f, Holds edb q f ↔ Holds edb' q f) (hfinal : ev.evaluate cc repr order edb = .ok final)
    (hfinal' : ev'.evaluate cc repr order' edb' = .ok final') (q : Str) (f : Fact) :
    Holds final q f ↔ Holds final' q f := by
  have hsame (r : Rule) : r ∈ ev.program.rules ↔ r ∈ ev'.program.rules :=
    ⟨fun hr => rules_subset hmake hmake' (fun r hr => (hrules r).mp hr) hr,
      fun hr => rules_subset hmake' hmake (fun r hr => (hrules r).mpr hr) hr⟩
  have hclauses : groundClauses ev.program helpers edb = groundClauses ev'.program helpers edb' := by
    unfold groundClauses
    simp only [hedb, hsame]
  obtain ⟨⟨level, hlevel⟩, hmodel⟩ := closure_eq hmake h hfinal
  have hlevel' : Stratifies ev'.program level := fun r hr => hlevel r ((hsame r).mpr hr)
  rw [hmodel level hlevel, (closure_eq hmake' h' hfinal').2 level hlevel', perfectModel, perfectModel, hclauses]

theorem closure_order_free_sample :
    ∃ ev ev' final final', Evaluator.make quotedName listOrder (twoFlags (.int 1) (.int 2)) comparisons = .ok ev ∧
      Evaluator.make quotedName listOrder (twoFlags (.int 2) (.int 1)) comparisons = .ok ev' ∧
      ev.evaluate asciiClasses quotedName listOrder Dict.empty = .ok final ∧
      ev'.evaluate asciiClasses quotedName listOrder Dict.empty = .ok final' ∧
      ∀ q f, Holds final q f ↔ Holds final' q f := by
  obtain ⟨ev, final, hmake, -, h, hfinal⟩ := twoFlags_evaluates oneTwo_noClash (by decide)
  obtain ⟨ev', final', hmake', -, h', hfinal'⟩ :=
    twoFlags_evaluates (Set.pair_comm _ _ ▸ oneTwo_noClash) (by decide)
  refine ⟨ev, ev', final, final', hmake, hmake', hfinal, hfinal',
    closure_order_free hmake hmake' h h' (fun r => ?_) (fun q f => Iff.rfl) hfinal hfinal'⟩
  exact (List.Perm.swap _ _ []).mem_iff

end Closures

end TexGovernance.Pcas
