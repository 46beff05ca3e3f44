import TexGovernance.Pcas.RuleCorrect

/-!
# The rounds of a stratum

One round adds what the rules of the stratum derive from the relations of the
round before. The rounds end with relations that are closed under the rules,
and everything they add is derived.
-/

namespace TexGovernance.Pcas
open PyStr PyDict Pipeline

structure StateFits (cc : CharClasses) (D : Set FactValue) (arity : Str → ℕ)
    (facts : Dict Str Relation) : Prop where
  named : ∀ p rel, facts.get? p = some rel → startsLower cc rel.name = true
  arities : ∀ p rel, facts.get? p = some rel → rel.arity = arity p
  values : ∀ p f, Holds facts p f → ∀ v ∈ f, v ∈ D

section Adding

variable {cc : CharClasses} {D : Set FactValue} {arity : Str → ℕ} {facts facts' : Dict Str Relation}

theorem StateFits.factsFit (h : StateFits cc D arity facts) : FactsFit D arity facts where
  arities p rel hrel f hf := (rel.arity_eq f hf).trans (h.arities p rel hrel)
  values := h.values

theorem mem_addFact (hD : NoClash D) {fs : List Fact} {f : Fact} (hfs : ∀ g ∈ fs, ∀ v ∈ g, v ∈ D)
    (hf : ∀ v ∈ f, v ∈ D) (g : Fact) : g ∈ addFact fs f ↔ g ∈ fs ∨ g = f := by
  rw [addFact]
  split
  · next hmem =>
    obtain ⟨g', hg', heq⟩ := List.any_eq_true.mp hmem
    obtain rfl := (hD.factEq_iff hf (hfs g' hg')).mp heq
    constructor
    · exact Or.inl
    · rintro (hg | rfl)
      · exact hg
      · exact hg'
  · rw [List.mem_append, List.mem_singleton]

theorem mem_unionFacts (hD : NoClash D) (fs additions : List Fact) (hfs : ∀ g ∈ fs, ∀ v ∈ g, v ∈ D)
    (hadd : ∀ g ∈ additions, ∀ v ∈ g, v ∈ D) (g : Fact) :
    g ∈ unionFacts fs additions ↔ g ∈ fs ∨ g ∈ additions := by
  induction additions generalizing fs with
  | nil => simp [unionFacts]
  | cons f additions ih =>
    have hf := hadd f List.mem_cons_self
    have hnext : ∀ g ∈ addFact fs f, ∀ v ∈ g, v ∈ D := by
      intro g hg
      rcases (mem_addFact hD hfs hf g).mp hg with hg | rfl
      · exact hfs g hg
      · exact hf
    have hrest := ih (addFact fs f) hnext fun g hg => hadd g (List.mem_cons_of_mem _ hg)
    rw [unionFacts, List.foldl_cons]
    rw [unionFacts] at hrest
    rw [hrest, mem_addFact hD hfs hf, List.mem_cons, or_assoc]

def SameDomain (facts facts' : Dict Str Relation) : Prop :=
  ∀ p, (facts'.get? p).isSome = (facts.get? p).isSome

theorem SameDomain.trans {facts'' : Dict Str Relation} (h : SameDomain facts facts')
    (h' : SameDomain facts' facts'') : SameDomain facts facts'' := fun p => (h' p).trans (h p)

theorem addFacts_eq {p : Str} {rel : Relation} (hrel : facts.get? p = some rel)
    (hname : startsLower cc rel.name = true) (additions : List Fact)
    (hlen : ∀ f ∈ unionFacts rel.facts additions, f.length = rel.arity) :
    addFacts cc facts p additions =
      .ok (facts.set p ⟨rel.name, rel.arity, unionFacts rel.facts additions, hlen⟩) := by
  have hmake : rel.withFacts cc additions =
      .ok ⟨rel.name, rel.arity, unionFacts rel.facts additions, hlen⟩ := by
    rw [Relation.withFacts, Relation.make, if_neg (by simp [hname]), dif_pos hlen]
  rw [addFacts, hrel]
  dsimp only
  rw [hmake]
  rfl

theorem addFacts_spec (hD : NoClash D) (h : StateFits cc D arity facts) {p : Str}
    (hp : (facts.get? p).isSome = true) (additions : List Fact)
    (hlen : ∀ f ∈ additions, f.length = arity p) (hadd : ∀ f ∈ additions, ∀ v ∈ f, v ∈ D) :
    ∃ facts', addFacts cc facts p additions = .ok facts' ∧ StateFits cc D arity facts' ∧
      SameDomain facts facts' ∧
      ∀ q f, Holds facts' q f ↔ Holds facts q f ∨ (q = p ∧ f ∈ additions) := by
  obtain ⟨rel, hrel⟩ := Option.isSome_iff_exists.mp hp
  have hunion := mem_unionFacts hD rel.facts additions (fun g hg => h.values p g ⟨rel, hrel, hg⟩) hadd
  have hall : ∀ f ∈ unionFacts rel.facts additions, f.length = rel.arity := by
    intro f hf
    rcases (hunion f).mp hf with hf | hf
    · exact rel.arity_eq f hf
    · rw [hlen f hf, h.arities p rel hrel]
  set next : Relation := ⟨rel.name, rel.arity, unionFacts rel.facts additions, hall⟩ with hnext
  have hget : ∀ q, (facts.set p next).get? q = if q = p then some next else facts.get? q :=
    fun q => Dict.get?_set facts p q next
  have hholds : ∀ q f, Holds (facts.set p next) q f ↔ Holds facts q f ∨ (q = p ∧ f ∈ additions) := by
    intro q f
    by_cases hq : q = p
    · subst hq
      simp only [Holds, hget, if_true, hrel, Option.some.injEq, exists_eq_left', true_and]
      exact hunion f
    · simp [Holds, hget, hq]
  refine ⟨facts.set p next, addFacts_eq hrel (h.named p rel hrel) additions hall, ⟨?_, ?_, ?_⟩, ?_, hholds⟩
  · intro q rel' hq
    rw [hget] at hq
    split at hq
    · obtain rfl := Option.some.inj hq
      exact h.named p rel hrel
    · exact h.named q rel' hq
  · intro q rel' hq
    rw [hget] at hq
    split at hq
    · next hqp =>
      obtain rfl := Option.some.inj hq
      rw [hqp]
      exact h.arities p rel hrel
    · exact h.arities q rel' hq
  · intro q f hf
    rcases (hholds q f).mp hf with hf | ⟨-, hf⟩
    · exact h.values q f hf
    · exact hadd f hf
  · intro q
    rw [hget]
    split
    · next hqp => rw [hqp, hp]; rfl
    · rfl

end Adding

section Round

variable {cc : CharClasses} (repr : Str → Str) (order : SetOrder) {helpers : Registry}
  {D : Set FactValue} {arity : Str → ℕ} {facts : Dict Str Relation}

def Consequence (facts : Dict Str Relation) (helpers : Registry) (r : Rule) (f : Fact) : Prop :=
  ∃ ν, Satisfies facts helpers r ν ∧ AtomIs ν r.head f

structure NewFits (D : Set FactValue) (arity : Str → ℕ) (facts : Dict Str Relation)
    (helpers : Registry) (rules : List Rule) (new : Dict Str (List Fact)) : Prop where
  present : ∀ p b, new.get? p = some b → (facts.get? p).isSome = true
  fresh : ∀ p f, (∃ b, new.get? p = some b ∧ f ∈ b) ↔ ¬ Holds facts p f ∧
    ∃ r ∈ rules, r.isFact = false ∧ r.head.predicate = p ∧ Consequence facts helpers r f

theorem consequence_fits (hfacts : FactsFit D arity facts) {r : Rule}
    (hfit : RuleFits D arity helpers r) {f : Fact} (h : Consequence facts helpers r f) :
    f.length = arity r.head.predicate ∧ ∀ v ∈ f, v ∈ D := by
  obtain ⟨ν, hν, hf⟩ := h
  exact satisfies_fits hfit hfacts hν hf

variable {new : Dict Str (List Fact)} {rules : List Rule}

theorem NewFits.values (hfacts : FactsFit D arity facts)
    (hfit : ∀ r ∈ rules, RuleFits D arity helpers r)
    (h : NewFits D arity facts helpers rules new) {p : Str} {b : List Fact}
    (hb : new.get? p = some b) : ∀ f ∈ b, f.length = arity p ∧ ∀ v ∈ f, v ∈ D := by
  intro f hf
  obtain ⟨-, r, hr, -, rfl, hcons⟩ := (h.fresh p f).mp ⟨b, hb, hf⟩
  exact consequence_fits hfacts (hfit r hr) hcons

theorem fresh_snoc {r : Rule} {p : Str} {f : Fact} :
    (¬ Holds facts p f ∧ ∃ r' ∈ rules ++ [r], r'.isFact = false ∧ r'.head.predicate = p ∧
        Consequence facts helpers r' f) ↔
      (¬ Holds facts p f ∧ ∃ r' ∈ rules, r'.isFact = false ∧ r'.head.predicate = p ∧
        Consequence facts helpers r' f) ∨
      (¬ Holds facts p f ∧ r.isFact = false ∧ r.head.predicate = p ∧ Consequence facts helpers r f) := by
  simp only [List.mem_append, List.mem_singleton, or_and_right, exists_or, exists_eq_left, and_or_left]

theorem NewFits.skip {r : Rule} (h : NewFits D arity facts helpers rules new)
    (hnone : ∀ f, ¬ (¬ Holds facts r.head.predicate f ∧ r.isFact = false ∧
      Consequence facts helpers r f)) : NewFits D arity facts helpers (rules ++ [r]) new where
  present := h.present
  fresh p f := by
    rw [fresh_snoc, h.fresh p f, or_iff_left]
    rintro ⟨hnot, hfact, rfl, hcons⟩
    exact hnone f ⟨hnot, hfact, hcons⟩

theorem NewFits.bucket (hD : NoClash D) (hfacts : FactsFit D arity facts)
    (hfit : ∀ r ∈ rules, RuleFits D arity helpers r) {r : Rule} (hr : RuleFits D arity helpers r)
    (hhead : (facts.get? r.head.predicate).isSome = true)
    (h : NewFits D arity facts helpers rules new) (hfact : r.isFact = false) {additions : List Fact}
    (hadd : ∀ f, f ∈ additions ↔ ¬ Holds facts r.head.predicate f ∧ Consequence facts helpers r f) :
    NewFits D arity facts helpers (rules ++ [r])
      (new.set r.head.predicate (unionFacts ((new.get? r.head.predicate).getD []) additions)) := by
  have hunion : ∀ f, f ∈ unionFacts ((new.get? r.head.predicate).getD []) additions ↔
      (∃ b, new.get? r.head.predicate = some b ∧ f ∈ b) ∨ f ∈ additions := by
    intro f
    rw [mem_unionFacts hD]
    · cases new.get? r.head.predicate <;> simp
    · intro g hg
      cases hb : new.get? r.head.predicate with
      | none => simp [hb] at hg
      | some b =>
        rw [hb] at hg
        exact (h.values hfacts hfit hb g hg).2
    · intro g hg
      exact (consequence_fits hfacts hr ((hadd g).mp hg).2).2
  refine ⟨fun p b hb => ?_, fun p f => ?_⟩
  · rw [Dict.get?_set] at hb
    split at hb
    · next hp => rw [hp, hhead]
    · exact h.present p b hb
  · rw [fresh_snoc, ← h.fresh p f, Dict.get?_set]
    by_cases hp : p = r.head.predicate
    · subst hp
      simp only [if_true, Option.some.injEq, exists_eq_left', hunion, hadd, hfact, true_and]
    · have hne : ¬ r.head.predicate = p := fun e => hp e.symm
      simp only [if_neg hp, hne, false_and, and_false, or_false]

theorem ruleAdditions_spec (hD : NoClash D) (h : StateFits cc D arity facts)
    (hfit : ∀ r ∈ rules, RuleFits D arity helpers r) {r : Rule} (hr : RuleFits D arity helpers r)
    (hhead : (facts.get? r.head.predicate).isSome = true)
    (hnew : NewFits D arity facts helpers rules new) :
    (∃ message, ruleAdditions repr order helpers facts new r = .error (.evaluation message)) ∨
      ∃ new', ruleAdditions repr order helpers facts new r = .ok new' ∧
        NewFits D arity facts helpers (rules ++ [r]) new' := by
  rw [ruleAdditions]
  by_cases hfact : r.isFact = true
  · rw [if_pos hfact]
    refine Or.inr ⟨new, rfl, hnew.skip fun f hf => ?_⟩
    rw [hfact] at hf
    cases hf.2.1
  · rw [if_neg hfact]
    rcases derive_spec order repr hD hr h.factsFit with ⟨message, herror⟩ | ⟨ds, hds, hmem⟩
    · exact Or.inl ⟨message, by rw [herror]; rfl⟩
    · right
      obtain ⟨rel, hrel⟩ := Option.isSome_iff_exists.mp hhead
      have hknown : ∀ f, Consequence facts helpers r f →
          ((!memFacts f rel.facts) = true ↔ ¬ Holds facts r.head.predicate f) := by
        intro f hf
        have hvalues := (consequence_fits h.factsFit hr hf).2
        rw [Bool.not_eq_true', ← Bool.not_eq_true, not_iff_not, memFacts, List.any_eq_true]
        constructor
        · rintro ⟨g, hg, heq⟩
          rw [(hD.factEq_iff hvalues (h.values _ g ⟨rel, hrel, hg⟩)).mp heq]
          exact ⟨rel, hrel, hg⟩
        · rintro ⟨rel', hrel', hg⟩
          obtain rfl := Option.some.inj (hrel.symm.trans hrel')
          exact ⟨f, hg, factEq_refl f⟩
      have hadd : ∀ f, f ∈ ds.filter (fun f => !memFacts f rel.facts) ↔
          ¬ Holds facts r.head.predicate f ∧ Consequence facts helpers r f := by
        intro f
        rw [List.mem_filter, hmem, and_comm]
        exact and_congr_left (hknown f)
      have hnone : ∀ {l : List Fact}, (∀ f, f ∈ l ↔ ¬ Holds facts r.head.predicate f ∧
          Consequence facts helpers r f) → l.isEmpty = true →
          ∀ f, ¬ (¬ Holds facts r.head.predicate f ∧ r.isFact = false ∧
            Consequence facts helpers r f) := by
        intro l hl hnil f hf
        have hin := (hl f).mpr ⟨hf.1, hf.2.2⟩
        rw [List.isEmpty_iff.mp hnil] at hin
        exact absurd hin List.not_mem_nil
      rw [hds]
      change ∃ new', (if ds.isEmpty = true then _ else _) = _ ∧ _
      split
      · next hnil =>
        refine ⟨new, rfl, hnew.skip fun f hf => ?_⟩
        have hin := (hmem f).mpr hf.2.2
        rw [List.isEmpty_iff.mp hnil] at hin
        exact absurd hin List.not_mem_nil
      · rw [hrel]
        dsimp only
        split
        · next hnil => exact ⟨new, rfl, hnew.skip (hnone hadd hnil)⟩
        · exact ⟨_, rfl, hnew.bucket hD h.factsFit hfit hr hhead (by simpa using hfact) hadd⟩

theorem roundAdditions_spec (hD : NoClash D) (h : StateFits cc D arity facts) (done rules : List Rule)
    (hfit : ∀ r ∈ done ++ rules, RuleFits D arity helpers r)
    (hheads : ∀ r ∈ rules, (facts.get? r.head.predicate).isSome = true) (new : Dict Str (List Fact))
    (hnew : NewFits D arity facts helpers done new) :
    (∃ message, rules.foldlM (ruleAdditions repr order helpers facts) new =
        .error (.evaluation message)) ∨
      ∃ new', rules.foldlM (ruleAdditions repr order helpers facts) new = .ok new' ∧
        NewFits D arity facts helpers (done ++ rules) new' := by
  induction rules generalizing done new with
  | nil =>
    refine Or.inr ⟨new, rfl, ?_⟩
    rw [List.append_nil]
    exact hnew
  | cons r rules ih =>
    have hsplit : done ++ r :: rules = (done ++ [r]) ++ rules := by simp
    rw [List.foldlM_cons]
    rcases ruleAdditions_spec repr order hD h
      (fun r' hr' => hfit r' (List.mem_append_left _ hr'))
      (hfit r (by simp)) (hheads r List.mem_cons_self) hnew with ⟨message, herror⟩ | ⟨next, hok, hnext⟩
    · exact Or.inl ⟨message, by rw [herror]; rfl⟩
    · rw [hok, hsplit]
      rw [hsplit] at hfit
      exact ih (done ++ [r]) hfit (fun r' hr' => hheads r' (List.mem_cons_of_mem _ hr')) next hnext

theorem commits_spec (hD : NoClash D) (h : StateFits cc D arity facts) (items : List (Str × List Fact))
    (hitems : ∀ e ∈ items, (facts.get? e.1).isSome = true ∧
      ∀ f ∈ e.2, f.length = arity e.1 ∧ ∀ v ∈ f, v ∈ D) :
    ∃ facts', items.foldlM (commit cc) facts = .ok facts' ∧ StateFits cc D arity facts' ∧
      SameDomain facts facts' ∧
      ∀ q f, Holds facts' q f ↔ Holds facts q f ∨ ∃ b, (q, b) ∈ items ∧ f ∈ b := by
  induction items generalizing facts with
  | nil => exact ⟨facts, rfl, h, fun _ => rfl, by simp⟩
  | cons e items ih =>
    obtain ⟨p, b⟩ := e
    obtain ⟨hp, hb⟩ := hitems (p, b) List.mem_cons_self
    have hcommit : ∃ next, commit cc facts (p, b) = .ok next ∧ StateFits cc D arity next ∧
        SameDomain facts next ∧ ∀ q f, Holds next q f ↔ Holds facts q f ∨ (q = p ∧ f ∈ b) := by
      rw [commit]
      split
      · next hnil =>
        refine ⟨facts, rfl, h, fun _ => rfl, fun q f => ?_⟩
        dsimp only at hnil
        simp [List.isEmpty_iff.mp hnil]
      · exact addFacts_spec hD h hp b (fun f hf => (hb f hf).1) fun f hf => (hb f hf).2
    obtain ⟨next, hok, hfits, hdomain, hholds⟩ := hcommit
    obtain ⟨facts', hok', hfits', hdomain', hholds'⟩ := ih hfits fun e he =>
      ⟨(hdomain e.1).trans (hitems e (List.mem_cons_of_mem _ he)).1,
        (hitems e (List.mem_cons_of_mem _ he)).2⟩
    refine ⟨facts', ?_, hfits', hdomain.trans hdomain', fun q f => ?_⟩
    · rw [List.foldlM_cons, hok]
      exact hok'
    · rw [hholds', hholds, or_assoc]
      refine or_congr_right ?_
      simp only [List.mem_cons, Prod.mk.injEq, or_and_right, exists_or, and_assoc, exists_and_left]
      refine or_congr_left ?_
      rw [exists_eq_left]

/-- No rule of `rules` has the predicate for its head. -/
def NotHead (rules : List Rule) (p : Str) : Prop := ∀ r ∈ rules, r.head.predicate ≠ p

structure Saturated (cc : CharClasses) (D : Set FactValue) (arity : Str → ℕ) (helpers : Registry)
    (rules : List Rule) (facts facts' : Dict Str Relation) : Prop where
  fits : StateFits cc D arity facts'
  domain : SameDomain facts facts'
  grows : ∀ p f, Holds facts p f → Holds facts' p f
  frame : ∀ p, NotHead rules p → ∀ f, Holds facts' p f ↔ Holds facts p f
  closed : ∀ r ∈ rules, r.isFact = false → ∀ f, Consequence facts' helpers r f →
    Holds facts' r.head.predicate f
  sound : ∀ S : Str → Fact → Prop, (∀ p f, Holds facts p f → S p f) →
    (∀ G, (∀ p f, Holds G p f → S p f) →
      (∀ p, NotHead rules p → ∀ f, Holds G p f ↔ Holds facts p f) →
      ∀ r ∈ rules, r.isFact = false → ∀ f, Consequence G helpers r f → S r.head.predicate f) →
    ∀ p f, Holds facts' p f → S p f

theorem saturated_of_nothingNew (h : StateFits cc D arity facts)
    (hnew : NewFits D arity facts helpers rules new)
    (hnone : new.items.any (fun e => !e.2.isEmpty) = false) :
    Saturated cc D arity helpers rules facts facts where
  fits := h
  domain _ := rfl
  grows _ _ hf := hf
  frame _ _ _ := Iff.rfl
  closed r hr hfact f hf := by
    by_contra hnot
    obtain ⟨b, hb, hmem⟩ := (hnew.fresh r.head.predicate f).mpr ⟨hnot, r, hr, hfact, rfl, hf⟩
    have hempty := List.any_eq_false.mp hnone _ ((Dict.get?_eq_some_iff _ _ _).mp hb)
    rw [Bool.not_eq_true', Bool.not_eq_false, List.isEmpty_iff] at hempty
    dsimp only at hempty
    rw [hempty] at hmem
    exact absurd hmem List.not_mem_nil
  sound S hS _ := hS

theorem Saturated.after
    {facts₁ facts₂ : Dict Str Relation} (hnew : NewFits D arity facts helpers rules new)
    (hdomain : SameDomain facts facts₁)
    (hholds : ∀ q f, Holds facts₁ q f ↔ Holds facts q f ∨ ∃ b, (q, b) ∈ new.items ∧ f ∈ b)
    (h : Saturated cc D arity helpers rules facts₁ facts₂) :
    Saturated cc D arity helpers rules facts facts₂ := by
  have hadded : ∀ q f, Holds facts₁ q f ↔ Holds facts q f ∨
      ∃ r ∈ rules, r.isFact = false ∧ r.head.predicate = q ∧ Consequence facts helpers r f := by
    intro q f
    have hfresh := hnew.fresh q f
    simp only [Dict.get?_eq_some_iff] at hfresh
    rw [hholds, hfresh]
    constructor
    · exact fun hf => hf.imp id And.right
    · intro hf
      by_cases hq : Holds facts q f
      · exact Or.inl hq
      · exact Or.inr ⟨hq, hf.resolve_left hq⟩
  have hframe : ∀ p, NotHead rules p → ∀ f, Holds facts₁ p f ↔ Holds facts p f := by
    intro p hp f
    rw [hadded, or_iff_left]
    rintro ⟨r, hr, -, hhead, -⟩
    exact hp r hr hhead
  refine ⟨h.fits, hdomain.trans h.domain, fun p f hf => h.grows p f ((hadded p f).mpr (Or.inl hf)),
    fun p hp f => (h.frame p hp f).trans (hframe p hp f), h.closed, fun S hS hstep => ?_⟩
  refine h.sound S (fun p f hf => ?_) fun G hG hGframe => hstep G hG fun p hp f =>
    (hGframe p hp f).trans (hframe p hp f)
  rcases (hadded p f).mp hf with hf | ⟨r, hr, hfact, rfl, hcons⟩
  · exact hS p f hf
  · exact hstep facts hS (fun _ _ _ => Iff.rfl) r hr hfact f hcons

theorem stratumRounds_spec (hD : NoClash D) (stratum : Stratum)
    (hfit : ∀ r ∈ stratum.rules, RuleFits D arity helpers r) (rounds : ℕ)
    (facts : Dict Str Relation) (h : StateFits cc D arity facts)
    (hheads : ∀ r ∈ stratum.rules, (facts.get? r.head.predicate).isSome = true) :
    (∃ message, stratumRounds cc repr order helpers stratum rounds facts =
        .error (.evaluation message)) ∨
      ∃ facts', stratumRounds cc repr order helpers stratum rounds facts = .ok facts' ∧
        Saturated cc D arity helpers stratum.rules facts facts' := by
  induction rounds generalizing facts with
  | zero => exact Or.inl ⟨_, rfl⟩
  | succ rounds ih =>
    have hstart : NewFits D arity facts helpers [] (Dict.empty : Dict Str (List Fact)) :=
      ⟨fun p b hb => by simp [Dict.get?, Dict.empty] at hb, fun p f => by simp [Dict.get?, Dict.empty]⟩
    rw [stratumRounds]
    rcases roundAdditions_spec repr order hD h [] stratum.rules hfit hheads Dict.empty hstart with
      ⟨message, herror⟩ | ⟨new, hok, hnew⟩
    · exact Or.inl ⟨message, by rw [herror]; rfl⟩
    · rw [List.nil_append] at hnew
      rw [hok]
      change (∃ message, (if new.items.any (fun e => !e.2.isEmpty) = true then _ else _) = _) ∨
        ∃ facts', (if new.items.any (fun e => !e.2.isEmpty) = true then _ else _) = _ ∧ _
      split
      · next hadded =>
        obtain ⟨next, hcommits, hfits, hdomain, hholds⟩ := commits_spec hD h new.items fun e he =>
          have hb := (Dict.get?_eq_some_iff new e.1 e.2).mpr he
          ⟨hnew.present e.1 e.2 hb, hnew.values h.factsFit hfit hb⟩
        rw [hcommits]
        rcases ih next hfits (fun r hr => (hdomain _).trans (hheads r hr)) with herror | ⟨out, hout, hsat⟩
        · exact Or.inl herror
        · exact Or.inr ⟨out, hout, hsat.after hnew hdomain hholds⟩
      · next hnone =>
        exact Or.inr ⟨facts, rfl, saturated_of_nothingNew h hnew (by simpa using hnone)⟩

end Round

end TexGovernance.Pcas
