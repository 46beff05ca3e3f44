import TexGovernance.Lib.StratifiedLogic
import TexGovernance.Pcas.Rounds
import TexGovernance.Pcas.Stratify

/-!
# The strata of an evaluation and the perfect model

A stratum only adds to its own predicates, and the bodies of its rules lie in
it and the strata before it.
-/

namespace TexGovernance.Pcas
open PyStr PyDict Pipeline

theorem notHead_rulesFor {p : Program} {c : List Str} {q : Str} (hq : q ∉ c) :
    NotHead (rulesFor p c) q := by
  intro r hr hhead
  exact hq (hhead ▸ (mem_rulesFor.mp hr).2)

theorem Consequence.congr {facts facts' : Dict Str Relation} {helpers : Registry} {r : Rule} {f : Fact}
    (hpos : ∀ a ∈ r.positiveAtoms, ∀ g, Holds facts a.predicate g → Holds facts' a.predicate g)
    (hneg : ∀ n ∈ r.negatedAtoms, ∀ g, Holds facts' n.atom.predicate g →
      Holds facts n.atom.predicate g)
    (h : Consequence facts helpers r f) : Consequence facts' helpers r f := by
  obtain ⟨ν, ⟨hjoined, hcalls, hnegated⟩, hhead⟩ := h
  refine ⟨ν, ⟨fun a ha => ?_, hcalls, fun n hn g hg hmem => ?_⟩, hhead⟩
  · obtain ⟨g, hg, hatom⟩ := hjoined a ha
    exact ⟨g, hpos a ha g hg, hatom⟩
  · exact hnegated n hn g hg (hneg n hn g hmem)

/-- The body of a rule read with positive atoms in `S` and negation in `N`. -/
def BodyHolds (S N : Str → Fact → Prop) (helpers : Registry) (r : Rule) (ν : Valuation) : Prop :=
  (∀ a ∈ r.positiveAtoms, ∃ g, S a.predicate g ∧ AtomIs ν a g) ∧
    (∀ h ∈ r.helperCalls, CallSucceeds helpers ν h) ∧
    ∀ n ∈ r.negatedAtoms, ∀ g, AtomIs ν n.atom g → ¬ N n.atom.predicate g

/-- What the strata of `later` make of the relations `facts`. -/
structure Completed (cc : CharClasses) (D : Set FactValue) (arity : Str → ℕ) (helpers : Registry)
    (p : Program) (later : List (List Str)) (facts final : Dict Str Relation) : Prop where
  fits : StateFits cc D arity final
  grows : ∀ q f, Holds facts q f → Holds final q f
  frame : ∀ q, q ∉ later.flatten → ∀ f, Holds final q f ↔ Holds facts q f
  closed : ∀ r ∈ p.rules, r.isFact = false → r.head.predicate ∈ later.flatten → ∀ f,
    Consequence final helpers r f → Holds final r.head.predicate f
  sound : ∀ S : Str → Fact → Prop, (∀ q f, Holds facts q f → S q f) →
    (∀ r ∈ p.rules, ∀ ν f, BodyHolds S (Holds final) helpers r ν → AtomIs ν r.head f →
      S r.head.predicate f) →
    ∀ q f, Holds final q f → S q f

section Run

variable {cc : CharClasses} {D : Set FactValue} {arity : Str → ℕ} {helpers : Registry}
  {p : Program} {sccs : List (List Str)}

theorem Layered.disjoint (h : Layered p sccs) {earlier later : List (List Str)} {c : List Str}
    (hsplit : sccs = earlier ++ c :: later) {q : Str} (hq : q ∈ earlier.flatten ∨ q ∈ c) :
    q ∉ later.flatten := by
  have hnodup := h.nodup
  rw [hsplit, List.flatten_append, List.flatten_cons, List.nodup_append, List.nodup_append] at hnodup
  obtain ⟨-, ⟨-, -, hcl⟩, hel⟩ := hnodup
  intro hlater
  rcases hq with hq | hq
  · exact hel q hq q (List.mem_append_right _ hlater) rfl
  · exact hcl q hq q hlater rfl

theorem Layered.earlier_notMem (h : Layered p sccs) {earlier later : List (List Str)} {c : List Str}
    (hsplit : sccs = earlier ++ c :: later) {q : Str} (hq : q ∈ earlier.flatten) : q ∉ c := by
  have hnodup := h.nodup
  rw [hsplit, List.flatten_append, List.flatten_cons, List.nodup_append] at hnodup
  intro hc
  exact hnodup.2.2 q hq q (List.mem_append_left _ hc) rfl

theorem Saturated.then (hlayered : Layered p sccs) {earlier later : List (List Str)} {c : List Str}
    (hsplit : sccs = earlier ++ c :: later) {facts facts₁ final : Dict Str Relation}
    (h : Saturated cc D arity helpers (rulesFor p c) facts facts₁)
    (hrest : Completed cc D arity helpers p later facts₁ final) :
    Completed cc D arity helpers p (c :: later) facts final := by
  have hpos : ∀ r ∈ p.rules, r.head.predicate ∈ c → ∀ a ∈ r.positiveAtoms, ∀ f,
      Holds final a.predicate f ↔ Holds facts₁ a.predicate f := fun r hr hhead a ha =>
    hrest.frame _ (hlayered.disjoint hsplit (hlayered.positive _ _ _ hsplit r hr hhead a ha))
  have hneg : ∀ r ∈ p.rules, r.head.predicate ∈ c → ∀ n ∈ r.negatedAtoms, ∀ f,
      (Holds final n.atom.predicate f ↔ Holds facts₁ n.atom.predicate f) := fun r hr hhead n hn =>
    hrest.frame _ (hlayered.disjoint hsplit
      (Or.inl (hlayered.negated _ _ _ hsplit r hr hhead n hn)))
  refine ⟨hrest.fits, fun q f hf => hrest.grows q f (h.grows q f hf), fun q hq f => ?_,
    fun r hr hfact hhead f hf => ?_, fun S hS hstep => hrest.sound S (h.sound S hS ?_) hstep⟩
  · rw [List.flatten_cons, List.mem_append, not_or] at hq
    exact (hrest.frame q hq.2 f).trans (h.frame q (notHead_rulesFor hq.1) f)
  · rw [List.flatten_cons, List.mem_append] at hhead
    rcases hhead with hhead | hhead
    · have hcons : Consequence facts₁ helpers r f := hf.congr
        (fun a ha g => (hpos r hr hhead a ha g).mp) (fun n hn g => (hneg r hr hhead n hn g).mpr)
      exact hrest.grows _ _ (h.closed r (mem_rulesFor.mpr ⟨hr, hhead⟩) hfact f hcons)
    · exact hrest.closed r hr hfact hhead f hf
  · intro G hG hframe r hr _ f hf
    obtain ⟨hr, hhead⟩ := mem_rulesFor.mp hr
    obtain ⟨ν, ⟨hjoined, hcalls, hnegated⟩, hatom⟩ := hf
    refine hstep r hr ν f ⟨fun a ha => ?_, hcalls, fun n hn g hg hmem => ?_⟩ hatom
    · obtain ⟨g, hg, hag⟩ := hjoined a ha
      exact ⟨g, hG _ g hg, hag⟩
    · have hnot := notHead_rulesFor (p := p)
        (hlayered.earlier_notMem hsplit (hlayered.negated _ _ _ hsplit r hr hhead n hn))
      refine hnegated n hn g hg ((hframe _ hnot g).mpr ?_)
      exact (h.frame _ hnot g).mp ((hneg r hr hhead n hn g).mp hmem)

variable (repr : Str → Str) (order : SetOrder)

theorem strata_spec (hD : NoClash D) (hlayered : Layered p sccs)
    (hfit : ∀ r ∈ p.rules, RuleFits D arity helpers r) (earlier later : List (List Str))
    (hsplit : sccs = earlier ++ later) (i : ℕ) (facts : Dict Str Relation)
    (h : StateFits cc D arity facts)
    (hheads : ∀ r ∈ p.rules, (facts.get? r.head.predicate).isSome = true) :
    (∃ message, ((later.zipIdx i).map fun e => (⟨e.2, e.1, rulesFor p e.1⟩ : Stratum)).foldlM
        (evaluateStratum cc repr order helpers) facts = .error (.evaluation message)) ∨
      ∃ final, ((later.zipIdx i).map fun e => (⟨e.2, e.1, rulesFor p e.1⟩ : Stratum)).foldlM
        (evaluateStratum cc repr order helpers) facts = .ok final ∧
        Completed cc D arity helpers p later facts final := by
  induction later generalizing earlier i facts with
  | nil =>
    exact Or.inr ⟨facts, rfl, h, fun _ _ hf => hf, fun _ _ _ => Iff.rfl,
      fun _ _ _ hhead => absurd hhead List.not_mem_nil, fun _ hS _ => hS⟩
  | cons c later ih =>
    rw [List.zipIdx_cons, List.map_cons, List.foldlM_cons]
    rcases stratumRounds_spec repr order hD ⟨i, c, rulesFor p c⟩
      (fun r hr => hfit r (mem_rulesFor.mp hr).1) maxIterations facts h
      (fun r hr => hheads r (mem_rulesFor.mp hr).1) with ⟨message, herror⟩ | ⟨facts₁, hok, hsat⟩
    · exact Or.inl ⟨message, by rw [evaluateStratum, herror]; rfl⟩
    · rw [evaluateStratum, hok]
      rcases ih (earlier ++ [c]) (by simp [hsplit]) (i + 1) facts₁ hsat.fits
        (fun r hr => (hsat.domain _).trans (hheads r hr)) with herror | ⟨final, hfinal, hrest⟩
      · exact Or.inl herror
      · exact Or.inr ⟨final, hfinal, hsat.then hlayered hsplit hrest⟩

end Run

end TexGovernance.Pcas

namespace TexGovernance.Pcas
open PyStr PyDict Pipeline StratifiedLogic

abbrev GroundAtom := Str × Fact

/-- The clause of a rule for a valuation; `w` gives the facts of the positive
atoms, which an anonymous variable leaves open. -/
def ruleClause (r : Rule) (ν : Valuation) (w : Atom → Fact) (f : Fact) : Clause GroundAtom where
  head := (r.head.predicate, f)
  pos := {x | ∃ a ∈ r.positiveAtoms, x = (a.predicate, w a)}
  neg := {x | ∃ n ∈ r.negatedAtoms, ∃ g, AtomIs ν n.atom g ∧ x = (n.atom.predicate, g)}

def edbClause (q : Str) (f : Fact) : Clause GroundAtom := ⟨(q, f), ∅, ∅⟩

def groundClauses (p : Program) (helpers : Registry) (edb : Dict Str Relation) :
    Set (Clause GroundAtom) :=
  {c | (∃ q f, Holds edb q f ∧ c = edbClause q f) ∨
    ∃ r ∈ p.rules, ∃ ν w f, AtomIs ν r.head f ∧ (∀ a ∈ r.positiveAtoms, AtomIs ν a (w a)) ∧
      (∀ h ∈ r.helperCalls, CallSucceeds helpers ν h) ∧ c = ruleClause r ν w f}

def Stratifies (p : Program) (level : Str → ℕ) : Prop :=
  ∀ r ∈ p.rules, (∀ a ∈ r.positiveAtoms, level a.predicate ≤ level r.head.predicate) ∧
    ∀ n ∈ r.negatedAtoms, level n.atom.predicate < level r.head.predicate

def perfectModel (p : Program) (helpers : Registry) (edb : Dict Str Relation) (level : Str → ℕ) :
    Set GroundAtom :=
  perfect (groundClauses p helpers edb) fun x => level x.1

theorem stratified_groundClauses {p : Program} {level : Str → ℕ} (h : Stratifies p level)
    (helpers : Registry) (edb : Dict Str Relation) :
    Stratified (groundClauses p helpers edb) fun x => level x.1 where
  pos := by
    rintro c (⟨q, f, -, rfl⟩ | ⟨r, hr, ν, w, f, -, -, -, rfl⟩) x hx
    · exact absurd hx (Set.notMem_empty x)
    · obtain ⟨a, ha, rfl⟩ := hx
      exact (h r hr).1 a ha
  neg := by
    rintro c (⟨q, f, -, rfl⟩ | ⟨r, hr, ν, w, f, -, -, -, rfl⟩) x hx
    · exact absurd hx (Set.notMem_empty x)
    · obtain ⟨n, hn, g, -, rfl⟩ := hx
      exact (h r hr).2 n hn

def levelOf (sccs : List (List Str)) (q : Str) : ℕ := sccs.findIdx fun c => decide (q ∈ c)

theorem levelOf_lt {earlier later : List (List Str)} {q : Str} (hq : q ∈ earlier.flatten) :
    levelOf (earlier ++ later) q < earlier.length := by
  obtain ⟨c, hc, hqc⟩ := List.mem_flatten.mp hq
  have hlt : earlier.findIdx (fun c => decide (q ∈ c)) < earlier.length :=
    List.findIdx_lt_length_of_exists ⟨c, hc, by simpa using hqc⟩
  rw [levelOf, List.findIdx_append, if_pos hlt]
  exact hlt

theorem levelOf_le {earlier later : List (List Str)} {c : List Str} {q : Str} (hq : q ∈ c) :
    levelOf (earlier ++ c :: later) q ≤ earlier.length := by
  rw [levelOf, List.findIdx_append]
  split
  · next hlt => exact hlt.le
  · simp [List.findIdx_cons, hq]

theorem levelOf_eq {earlier later : List (List Str)} {c : List Str} {q : Str} (hq : q ∈ c)
    (hnot : q ∉ earlier.flatten) : levelOf (earlier ++ c :: later) q = earlier.length := by
  rw [levelOf, List.findIdx_append, if_neg]
  · simp [List.findIdx_cons, hq]
  · rw [List.findIdx_lt_length]
    rintro ⟨d, hd, hqd⟩
    exact hnot (List.mem_flatten.mpr ⟨d, hd, by simpa using hqd⟩)

theorem Layered.stratifies {p : Program} {sccs : List (List Str)} (h : Layered p sccs) :
    Stratifies p (levelOf sccs) := by
  intro r hr
  obtain ⟨c, hc, hhead⟩ := List.mem_flatten.mp (h.heads r hr)
  obtain ⟨earlier, later, rfl⟩ := List.append_of_mem hc
  have hnot : r.head.predicate ∉ earlier.flatten := fun hmem =>
    h.earlier_notMem rfl hmem hhead
  rw [levelOf_eq hhead hnot]
  refine ⟨fun a ha => ?_, fun n hn => levelOf_lt (h.negated _ _ _ rfl r hr hhead n hn)⟩
  rcases h.positive _ _ _ rfl r hr hhead a ha with hmem | hmem
  · exact (levelOf_lt hmem).le
  · exact levelOf_le hmem

def noteAtom (table : Dict Str ℕ) (a : Atom) : Dict Str ℕ := noteArity table a.predicate a.arity

theorem get?_noteAtom (table : Dict Str ℕ) (a : Atom) (q : Str) :
    (noteAtom table a).get? q =
      if q = a.predicate then some ((table.get? q).getD a.arity) else table.get? q := by
  rw [noteAtom, noteArity]
  by_cases hq : q = a.predicate
  · subst hq
    rw [if_pos rfl]
    split
    · next hsome =>
      obtain ⟨n, hn⟩ := Option.isSome_iff_exists.mp hsome
      rw [hn]
      rfl
    · next hnone =>
      rw [Dict.get?_set, if_pos rfl, Option.not_isSome_iff_eq_none.mp hnone]
      rfl
  · rw [if_neg hq]
    split
    · rfl
    · rw [Dict.get?_set, if_neg hq]

theorem noteAtoms_spec (atoms : List Atom) (table : Dict Str ℕ) :
    (∀ q n, (atoms.foldl noteAtom table).get? q = some n →
      table.get? q = some n ∨ ∃ a ∈ atoms, a.predicate = q ∧ a.arity = n) ∧
      (∀ q, (table.get? q).isSome = true → ((atoms.foldl noteAtom table).get? q).isSome = true) ∧
      ∀ a ∈ atoms, ((atoms.foldl noteAtom table).get? a.predicate).isSome = true := by
  induction atoms generalizing table with
  | nil => exact ⟨fun _ _ h => Or.inl h, fun _ h => h, fun a ha => absurd ha List.not_mem_nil⟩
  | cons a atoms ih =>
    obtain ⟨hfrom, hkept, hnoted⟩ := ih (noteAtom table a)
    refine ⟨fun q n hq => ?_, fun q hq => hkept q ?_, fun b hb => ?_⟩
    · rcases hfrom q n hq with hq | ⟨b, hb, hname⟩
      · rw [get?_noteAtom] at hq
        split at hq
        · next heq =>
          cases htable : table.get? q with
          | none =>
            rw [htable] at hq
            exact Or.inr ⟨a, List.mem_cons_self, heq.symm, Option.some.inj hq⟩
          | some m =>
            rw [htable] at hq
            exact Or.inl hq
        · exact Or.inl hq
      · exact Or.inr ⟨b, List.mem_cons_of_mem _ hb, hname⟩
    · rw [get?_noteAtom]
      split
      · rfl
      · exact hq
    · rcases List.mem_cons.mp hb with rfl | hb
      · refine hkept _ ?_
        rw [get?_noteAtom, if_pos rfl]
        rfl
      · exact hnoted b hb

theorem ruleArities_eq {repr : Str → Str} {table table' : Dict Str ℕ} {r : Rule}
    (h : ruleArities repr table r = .ok table') : table' = r.atoms.foldl noteAtom table := by
  rw [ruleArities] at h
  dsimp only at h
  split at h
  · cases h
  · rw [← Except.ok.inj h, Rule.atoms, List.cons_append, List.foldl_cons, List.foldl_append,
      List.foldl_map]
    rfl

theorem tableOf_rules {repr : Str → Str} (rules : List Rule) (table table' : Dict Str ℕ)
    (h : rules.foldlM (ruleArities repr) table = .ok table') :
    table' = (rules.flatMap Rule.atoms).foldl noteAtom table := by
  induction rules generalizing table with
  | nil => exact (Except.ok.inj h).symm
  | cons r rules ih =>
    rw [List.foldlM_cons] at h
    obtain ⟨next, hnext, h⟩ := bind_ok h
    rw [ih next h, ruleArities_eq hnext, List.flatMap_cons, List.foldl_append]

section Seeding

variable {cc : CharClasses} (repr : Str → Str) {D : Set FactValue} {arity : Str → ℕ}
  {helpers : Registry}

theorem checkEdb_spec (table : Dict Str ℕ) (items : List (Str × Relation)) :
    (∃ message, checkEdb repr table items = .error (.evaluation message)) ∨
      (checkEdb repr table items = .ok () ∧
        ∀ e ∈ items, ∀ n, table.get? e.1 = some n → e.2.arity = n) := by
  induction items with
  | nil => exact Or.inr ⟨rfl, fun e he => absurd he List.not_mem_nil⟩
  | cons e items ih =>
    obtain ⟨q, rel⟩ := e
    rw [checkEdb]
    cases htable : table.get? q with
    | none =>
      refine ih.imp id fun ⟨hok, hall⟩ => ⟨hok, fun e he n hn => ?_⟩
      rcases List.mem_cons.mp he with rfl | he
      · rw [htable] at hn
        cases hn
      · exact hall e he n hn
    | some expected =>
      dsimp only
      split
      · exact Or.inl ⟨_, rfl⟩
      · next heq =>
        refine ih.imp id fun ⟨hok, hall⟩ => ⟨hok, fun e he n hn => ?_⟩
        rcases List.mem_cons.mp he with rfl | he
        · rw [htable] at hn
          rw [← Option.some.inj hn]
          exact not_not.mp heq
        · exact hall e he n hn

theorem seedEmpty_spec {facts : Dict Str Relation} (h : StateFits cc D arity facts)
    (items : List (Str × ℕ)) (hitems : ∀ e ∈ items, arity e.1 = e.2 ∧ startsLower cc e.1 = true) :
    ∃ facts', items.foldlM (seedEmpty cc) facts = .ok facts' ∧ StateFits cc D arity facts' ∧
      (∀ q f, Holds facts' q f ↔ Holds facts q f) ∧
      (∀ q, (facts.get? q).isSome = true → (facts'.get? q).isSome = true) ∧
      ∀ e ∈ items, (facts'.get? e.1).isSome = true := by
  induction items generalizing facts with
  | nil => exact ⟨facts, rfl, h, fun _ _ => Iff.rfl, fun _ hq => hq,
      fun e he => absurd he List.not_mem_nil⟩
  | cons e items ih =>
    obtain ⟨p, n⟩ := e
    obtain ⟨hn, hlower⟩ := hitems (p, n) List.mem_cons_self
    have hseed : ∃ next, seedEmpty cc facts (p, n) = .ok next ∧ StateFits cc D arity next ∧
        (∀ q f, Holds next q f ↔ Holds facts q f) ∧
        (∀ q, (facts.get? q).isSome = true → (next.get? q).isSome = true) ∧
        (next.get? p).isSome = true := by
      rw [seedEmpty]
      split
      · next hp => exact ⟨facts, rfl, h, fun _ _ => Iff.rfl, fun _ hq => hq, hp⟩
      · next hp =>
        have hnone : facts.get? p = none := Option.not_isSome_iff_eq_none.mp hp
        set rel : Relation := ⟨p, n, [], fun f hf => absurd hf List.not_mem_nil⟩ with hrel
        have hmake : Relation.make cc p n [] = .ok rel := by
          rw [Relation.make, if_neg (by simpa using hlower),
            dif_pos fun f hf => absurd hf List.not_mem_nil]
        have hget : ∀ q, (facts.set p rel).get? q = if q = p then some rel else facts.get? q :=
          fun q => Dict.get?_set facts p q rel
        have hholds : ∀ q f, Holds (facts.set p rel) q f ↔ Holds facts q f := by
          intro q f
          by_cases hq : q = p
          · subst hq
            simp [Holds, hnone, hrel]
          · simp [Holds, hget, hq]
        refine ⟨facts.set p rel, by simp only [hmake]; rfl, ⟨?_, ?_, ?_⟩, hholds, ?_, ?_⟩
        · intro q rel' hq
          rw [hget] at hq
          split at hq
          · rw [← Option.some.inj hq]
            exact hlower
          · exact h.named q rel' hq
        · intro q rel' hq
          rw [hget] at hq
          split at hq
          · next hqp =>
            rw [← Option.some.inj hq, hqp]
            exact hn.symm
          · exact h.arities q rel' hq
        · exact fun q f hf => h.values q f ((hholds q f).mp hf)
        · intro q hq
          rw [hget]
          split
          · rfl
          · exact hq
        · rw [hget, if_pos rfl]
          rfl
    obtain ⟨next, hok, hfits, hholds, hkept, hp⟩ := hseed
    obtain ⟨facts', hok', hfits', hholds', hkept', hitems'⟩ :=
      ih hfits fun e he => hitems e (List.mem_cons_of_mem _ he)
    refine ⟨facts', ?_, hfits', fun q f => (hholds' q f).trans (hholds q f),
      fun q hq => hkept' q (hkept q hq), fun e he => ?_⟩
    · rw [List.foldlM_cons, hok]
      exact hok'
    · rcases List.mem_cons.mp he with rfl | he
      · exact hkept' p hp
      · exact hitems' e he

theorem fact_ground {r : Rule} (hfit : RuleFits D arity helpers r) (hfact : r.isFact = true) :
    ∃ g, groundAtom r.head emptySubst = some g ∧ ∀ ν f, AtomIs ν r.head f ↔ f = g := by
  have hbody : r.body = [] := List.isEmpty_iff.mp hfact
  have hvars : positiveVars r = [] := by
    simp [positiveVars, Rule.positiveAtoms, hbody]
  have hground : ∀ ν, groundAtom r.head emptySubst = some (r.head.args.map (evalTerm ν)) := by
    intro ν
    have hempty : emptySubst = restrict ν [] := by
      funext x
      simp [emptySubst, restrict]
    rw [hempty]
    refine mapM_resolve hfit.head_named fun x hx => Or.inr ?_
    rw [← hvars]
    exact (hfit.safe.head x hx).2
  refine ⟨_, hground fun _ => .int 0, fun ν f => ?_⟩
  rw [atomIs_iff hfit.head_named]
  have hsame := Option.some.inj ((hground ν).symm.trans (hground fun _ => .int 0))
  rw [hsame]

theorem seedFacts_spec (hD : NoClash D) (rules : List Rule) {facts : Dict Str Relation}
    (h : StateFits cc D arity facts) (hfit : ∀ r ∈ rules, RuleFits D arity helpers r)
    (hheads : ∀ r ∈ rules, (facts.get? r.head.predicate).isSome = true) :
    ∃ facts', rules.foldlM (seedFact cc repr) facts = .ok facts' ∧ StateFits cc D arity facts' ∧
      SameDomain facts facts' ∧ ∀ q f, Holds facts' q f ↔ Holds facts q f ∨
        ∃ r ∈ rules, r.isFact = true ∧ r.head.predicate = q ∧ ∃ ν, AtomIs ν r.head f := by
  induction rules generalizing facts with
  | nil => exact ⟨facts, rfl, h, fun _ => rfl, by simp⟩
  | cons r rules ih =>
    have hr := hfit r List.mem_cons_self
    have hseed : ∃ next, seedFact cc repr facts r = .ok next ∧ StateFits cc D arity next ∧
        SameDomain facts next ∧ ∀ q f, Holds next q f ↔ Holds facts q f ∨
          (r.isFact = true ∧ r.head.predicate = q ∧ ∃ ν, AtomIs ν r.head f) := by
      rw [seedFact]
      split
      · next hfact =>
        obtain ⟨g, hground, hatom⟩ := fact_ground hr hfact
        have hg : AtomIs (fun _ => .int 0) r.head g := (hatom _ g).mpr rfl
        have hvalues : ∀ v ∈ g, v ∈ D := by
          have hconst : positiveVars r = [] := by
            simp [positiveVars, Rule.positiveAtoms, List.isEmpty_iff.mp hfact]
          rw [(atomIs_iff hr.head_named g).mp hg]
          intro v hv
          obtain ⟨t, ht, rfl⟩ := List.mem_map.mp hv
          cases t with
          | const v => exact hr.constants _ (head_mem_atoms r) v ht
          | var x =>
            have hx := (hr.safe.head x ht).2
            rw [hconst] at hx
            exact absurd hx List.not_mem_nil
        have hlen : g.length = arity r.head.predicate := by
          rw [← hg.length_eq]
          exact hr.arities _ (head_mem_atoms r)
        obtain ⟨next, hok, hfits, hdomain, hholds⟩ := addFacts_spec hD h (hheads r List.mem_cons_self)
          [g] (by simpa using hlen) (by simpa using hvalues)
        refine ⟨next, by rw [hground]; exact hok, hfits, hdomain, fun q f => ?_⟩
        rw [hholds, List.mem_singleton, eq_comm (a := q)]
        simp only [hfact, hatom, exists_const, true_and]
      · next hfact =>
        exact ⟨facts, rfl, h, fun _ => rfl, fun q f => by simp [hfact]⟩
    obtain ⟨next, hok, hfits, hdomain, hholds⟩ := hseed
    obtain ⟨facts', hok', hfits', hdomain', hholds'⟩ := ih hfits
      (fun r' hr' => hfit r' (List.mem_cons_of_mem _ hr'))
      fun r' hr' => (hdomain _).trans (hheads r' (List.mem_cons_of_mem _ hr'))
    refine ⟨facts', ?_, hfits', hdomain.trans hdomain', fun q f => ?_⟩
    · rw [List.foldlM_cons, hok]
      exact hok'
    · rw [hholds', hholds, or_assoc]
      simp only [List.mem_cons, or_and_right, exists_or, exists_eq_left]

end Seeding

/-- What a `HelperCall` checks of its name. -/
def Callable (name : Str) : Prop := name ≠ [] ∧ name.length ≤ 64

instance (name : Str) : Decidable (Callable name) := inferInstanceAs (Decidable (_ ∧ _))

structure Admissible (cc : CharClasses) (p : Program) (helpers : Registry) (edb : Dict Str Relation) :
    Prop where
  names : ∀ r ∈ p.rules, ∀ a ∈ r.atoms, startsLower cc a.predicate = true
  calls : ∀ r ∈ p.rules, ∀ h ∈ r.helperCalls, Callable h.name
  edbNames : ∀ q rel, edb.get? q = some rel → startsLower cc rel.name = true
  oneArity : ∃ arity : Str → ℕ, ∀ r ∈ p.rules, ∀ a ∈ r.atoms, a.arity = arity a.predicate
  noWildcard : ∀ r ∈ p.rules, NoWildcard r
  inputs : ∀ r ∈ p.rules, ∀ h ∈ r.helperCalls, ∀ t ∈ helperInputs helpers h, t.anonymous = false

def occurring (p : Program) (edb : Dict Str Relation) : Set FactValue :=
  {v | (∃ r ∈ p.rules, ∃ a ∈ r.atoms, Term.const v ∈ a.args) ∨ ∃ q f, Holds edb q f ∧ v ∈ f}

def NoNullaryFunction (p : Program) (helpers : Registry) : Prop :=
  ∀ r ∈ p.rules, ∀ h ∈ r.helperCalls, ∀ fn, helpers.get? h.name ≠ some (.function 0 fn)

/-- The evaluation ends with an `EvaluationError` or with the perfect model. -/
def ReturnsPerfectModel (cc : CharClasses) (repr : Str → Str) (order : SetOrder) (ev : Evaluator)
    (edb : Dict Str Relation) : Prop :=
  (∃ message, ev.evaluate cc repr order edb = .error (.evaluation message)) ∨
    ∃ final, ev.evaluate cc repr order edb = .ok final ∧
      (∃ level, Stratifies ev.program level) ∧
      ∀ level, Stratifies ev.program level →
        ∀ q f, Holds final q f ↔ (q, f) ∈ perfectModel ev.program ev.helpers edb level

section Result

variable {cc : CharClasses} {repr : Str → Str} {order : SetOrder} {p : Program} {helpers : Registry}
  {ev : Evaluator} {edb : Dict Str Relation}

theorem make_ok (h : Evaluator.make repr order p helpers = .ok ev) :
    ev.helpers = helpers ∧ (∀ r ∈ ev.program.rules, r.Safe) ∧
      (∃ sccs, Layered ev.program sccs ∧
        ev.strata = sccs.zipIdx.map fun e => ⟨e.2, e.1, rulesFor ev.program e.1⟩) ∧
      ev.relationArities = (ev.program.rules.flatMap Rule.atoms).foldl noteAtom Dict.empty := by
  obtain ⟨⟨program, strata⟩, hstratify, h⟩ := bind_ok h
  obtain ⟨table, htable, h⟩ := bind_ok h
  obtain rfl := Except.ok.inj h
  exact ⟨rfl, stratify_safe repr order hstratify, stratify_layered repr order hstratify,
    tableOf_rules _ _ _ htable⟩

def arityOf (table : Dict Str ℕ) (edb : Dict Str Relation) (q : Str) : ℕ :=
  (table.get? q).getD ((edb.get? q).elim 0 Relation.arity)

abbrev derivable (p : Program) (helpers : Registry) (edb final : Dict Str Relation) : Set GroundAtom :=
  {x | Derived (groundClauses p helpers edb) {y | Holds final y.1 y.2} x}

theorem derivable_rule {final : Dict Str Relation} {r : Rule} (hr : r ∈ p.rules) (ν : Valuation)
    {f : Fact}
    (hbody : BodyHolds (fun q f => (q, f) ∈ derivable p helpers edb final) (Holds final) helpers r ν)
    (hhead : AtomIs ν r.head f) : (r.head.predicate, f) ∈ derivable p helpers edb final := by
  obtain ⟨hpos, hcalls, hneg⟩ := hbody
  choose! w hw using hpos
  have hclause : ruleClause r ν w f ∈ groundClauses p helpers edb :=
    Or.inr ⟨r, hr, ν, w, f, hhead, fun a ha => (hw a ha).2, hcalls, rfl⟩
  refine Derived.clause _ hclause ?_ ?_
  · rintro x ⟨a, ha, rfl⟩
    exact (hw a ha).1
  · rintro x ⟨n, hn, g, hg, rfl⟩
    exact hneg n hn g hg

theorem final_stable {D : Set FactValue} {arity : Str → ℕ} {sccs : List (List Str)}
    {seeded final : Dict Str Relation} (hlayered : Layered p sccs)
    (hseeded : ∀ q f, Holds seeded q f ↔ Holds edb q f ∨
      ∃ r ∈ p.rules, r.isFact = true ∧ r.head.predicate = q ∧ ∃ ν, AtomIs ν r.head f)
    (h : Completed cc D arity helpers p sccs seeded final) :
    Stable (groundClauses p helpers edb) {x | Holds final x.1 x.2} := by
  rintro ⟨q, f⟩
  constructor
  · intro hf
    refine h.sound (fun q f => (q, f) ∈ derivable p helpers edb final) (fun q f hf => ?_)
      (fun r hr ν f hbody hhead => derivable_rule hr ν hbody hhead) q f hf
    rcases (hseeded q f).mp hf with hf | ⟨r, hr, hfact, rfl, ν, hhead⟩
    · exact Derived.clause (edbClause q f) (Or.inl ⟨q, f, hf, rfl⟩)
        (fun x hx => absurd hx (Set.notMem_empty x)) fun x hx => absurd hx (Set.notMem_empty x)
    · have hbody : r.body = [] := List.isEmpty_iff.mp hfact
      refine derivable_rule hr ν ⟨?_, ?_, ?_⟩ hhead <;>
        simp [Rule.positiveAtoms, Rule.helperCalls, Rule.negatedAtoms, hbody]
  · intro hderived
    generalize hx : (q, f) = x at hderived
    induction hderived generalizing q f with
    | clause c hc _ hneg ih =>
      rcases hc with ⟨q', f', hf, rfl⟩ | ⟨r, hr, ν, w, f', hhead, hpos, hcalls, rfl⟩
      · obtain ⟨rfl, rfl⟩ := Prod.mk.inj hx
        exact h.grows _ _ ((hseeded _ _).mpr (Or.inl hf))
      · obtain ⟨rfl, rfl⟩ := Prod.mk.inj hx
        by_cases hfact : r.isFact = true
        · exact h.grows _ _ ((hseeded _ _).mpr (Or.inr ⟨r, hr, hfact, rfl, ν, hhead⟩))
        · refine h.closed r hr (by simpa using hfact) (hlayered.heads r hr) _
            ⟨ν, ⟨fun a ha => ⟨w a, ?_, hpos a ha⟩, hcalls, fun n hn g hg hmem => ?_⟩, hhead⟩
          · exact ih (a.predicate, w a) ⟨a, ha, rfl⟩ _ _ rfl
          · exact hneg (n.atom.predicate, g) ⟨n, hn, g, hg, rfl⟩ hmem

end Result

end TexGovernance.Pcas
