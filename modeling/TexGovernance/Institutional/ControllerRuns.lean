import TexGovernance.Institutional.Controller
import TexGovernance.Lib.JsonDoc
import Mathlib.Data.List.Chain

/-!
# Runs of the governance controller

A call either blocks and leaves the controller alone, or traverses one declared edge.
-/

namespace TexGovernance.Institutional
open PyStr PyRepr PyDict
open PyJson (intText)
open PyCodec (decimalText)
open Engine (Uuid)

structure IdsEncodable (t : LegalTransition) : Prop where
  sanction : ∀ id, t.effectiveSanctionId = .ok (some id) → Plain id
  restorative : ∀ id ∈ t.restorativePathId, Plain id

structure ReasonEncodable (g : GovernanceGraph) (t : LegalTransition) : Prop where
  action : ∀ id s, t.effectiveSanctionId = .ok (some id) → g.lookupSanction id = .ok s →
    Plain s.enforcementAction
  kind : ∀ id ∈ t.restorativePathId, ∀ p, g.lookupRestorativePath id = .ok p → Plain p.restorationKind

structure Recordable (g : GovernanceGraph) (c : GovernanceController) (call : EnforceCall) : Prop where
  named : call.actorEntityId ≠ [] ∧ call.proposedEventKind ≠ []
  texts : Plain call.proposedEventKind ∧ Plain call.actorEntityId ∧ ∀ id ∈ call.caseId, Plain id
  digest : Plain g.manifestSemanticSha256
  ids : ∀ t, g.findTransition (c.actorState call.actorEntityId) call.proposedEventKind = .ok (some t) →
    IdsEncodable t
  blocked : ∀ t until_,
    g.findTransition (c.actorState call.actorEntityId) call.proposedEventKind = .ok (some t) →
    c.cooldownUntil call.actorEntityId t.edgeKey call.currentRound = some until_ →
    (natText until_.natAbs).length ≤ maxStrDigits
  traversed : ∀ t,
    g.findTransition (c.actorState call.actorEntityId) call.proposedEventKind = .ok (some t) →
    c.cooldownUntil call.actorEntityId t.edgeKey call.currentRound = none → ReasonEncodable g t

theorem plain_of_ranges {rs : List (ℕ × ℕ)} (hrs : ∀ r ∈ rs, r.2 < 0xd800) {s : Str}
    (h : s.all (inRanges rs) = true) : Plain s := by
  intro c hc
  obtain ⟨r, hr, hin⟩ := List.any_eq_true.mp (List.all_eq_true.mp h c hc)
  rw [Bool.and_eq_true, decide_eq_true_eq, decide_eq_true_eq] at hin
  exact isSurrogate_of_lt (lt_of_le_of_lt hin.2 (hrs r hr))

theorem all_span (p : CodePoint → Bool) (s : Str) : (s.span p).1.all p = true := by
  rw [List.span_eq_takeWhile_dropWhile]
  exact List.all_takeWhile

theorem span_append (p : CodePoint → Bool) (s : Str) : (s.span p).1 ++ (s.span p).2 = s := by
  rw [List.span_eq_takeWhile_dropWhile]
  exact List.takeWhile_append_dropWhile

theorem plain_edgeKeyParts {edgeKey rule source target : Str}
    (h : edgeKeyParts? edgeKey = some (rule, source, target)) :
    Plain edgeKey ∧ Plain rule ∧ Plain source ∧ Plain target := by
  unfold edgeKeyParts? at h
  simp only at h
  split at h
  · rename_i colon rest hrest
    split at h
    · rename_i dash angle rest' hrest'
      split_ifs at h with hall
      obtain ⟨-, hcolon, -, hdash, hangle, -, hend⟩ := hall
      cases h
      have hstate : ∀ s : Str, Plain (s.span isStateChar).1 := fun s =>
        plain_of_ranges (by decide) (all_span isStateChar s)
      have hrule : Plain (edgeKey.span isRuleChar).1 :=
        plain_of_ranges (by decide) (all_span isRuleChar edgeKey)
      refine ⟨?_, hrule, hstate _, hstate _⟩
      rw [← span_append isRuleChar edgeKey, hrest, ← span_append isStateChar rest, hrest',
        ← span_append isStateChar rest']
      refine hrule.append (Plain.cons (by rw [hcolon]; decide) ((hstate _).append ?_))
      refine Plain.cons (by rw [hdash]; decide) (Plain.cons (by rw [hangle]; decide) ((hstate _).append ?_))
      rcases List.mem_cons.mp hend with hend | hend
      · rw [hend]
        exact nofun
      · rw [List.mem_singleton.mp hend]
        decide
    · cases h
  · cases h

theorem EdgeValid.plain {stateIds sanctionIds pathIds : List Str} {t : LegalTransition}
    (h : EdgeValid stateIds sanctionIds pathIds t) :
    Plain t.edgeKey ∧ Plain t.ruleId ∧ Plain t.fromState ∧ Plain t.toState := by
  obtain ⟨rule, hparts, hrule⟩ := h.parts
  obtain ⟨hkey, hplain, hsource, htarget⟩ := plain_edgeKeyParts hparts
  refine ⟨hkey, ?_, hsource, htarget⟩
  rcases hrule with hrule | hrule
  · rw [hrule]
    exact nofun
  · rwa [hrule]

theorem plain_uuid (id : Uuid) : Plain id.text := by
  intro c hc
  have htext := id.isUuidText
  rw [Engine.isUuidText, Bool.and_eq_true, List.all_eq_true] at htext
  obtain ⟨i, hlt, hget⟩ := List.mem_iff_getElem.mp hc
  have hchar := htext.2 (c, i) (by
    rw [List.mem_zipIdx_iff_getElem?, ← hget]
    exact List.getElem?_eq_getElem hlt)
  simp only at hchar
  split_ifs at hchar
  · rw [of_decide_eq_true hchar]
    decide
  · have hranges : ∀ r ∈ ([(0x30, 0x39), (0x61, 0x66)] : List (ℕ × ℕ)), r.2 < 0xd800 := by decide
    exact plain_of_ranges hranges (List.all_eq_true.mpr fun d hd => by
      rwa [List.mem_singleton.mp hd]) c (List.mem_singleton_self c)

theorem plain_decisionId (call : EnforceCall) : Plain call.decisionId :=
  (plain_txt _).append fun c hc => plain_uuid _ c (List.mem_filter.mp (List.mem_of_mem_take hc)).1

theorem validated_ok {d : ControllerDecision} (h : ∀ s ∈ d.texts, Plain s) : d.validated = .ok d :=
  if_pos h

theorem mem_texts {P : Str → Prop} {d : ControllerDecision} (hid : P d.decisionId) (hedge : P d.edgeKey)
    (hrule : P d.ruleId) (hfrom : P d.fromState) (hto : P d.toState) (hkind : P d.triggeredBy)
    (hactor : P d.actorEntityId) (hrationale : P d.rationale) (hdigest : P d.manifestSemanticSha256)
    (hsanction : ∀ id ∈ d.sanctionId, P id) (hpath : ∀ id ∈ d.restorativePathId, P id)
    (hcase : ∀ id ∈ d.caseId, P id) : ∀ s ∈ d.texts, P s := by
  intro s hs
  simp only [ControllerDecision.texts, List.mem_append, List.mem_cons, List.not_mem_nil, or_false,
    Option.mem_toList] at hs
  rcases hs with ((hs | hs) | hs) | hs
  · rcases hs with rfl | rfl | rfl | rfl | rfl | rfl | rfl | rfl | rfl <;> assumption
  · exact hsanction s hs
  · exact hpath s hs
  · exact hcase s hs

section Calls

variable {repr : Str → Str} (hrepr : ∀ s, Plain (repr s)) {g : GovernanceGraph} (hvalid : TopologyValid g)
  {c : GovernanceController} {call : EnforceCall}

theorem plain_unmatched (hrec : Recordable g c call) {fromState rationale : Str} (hstate : Plain fromState)
    (hrationale : Plain rationale) : ∀ s ∈ (unmatched g fromState rationale call).texts, Plain s :=
  mem_texts (plain_decisionId call) nofun nofun hstate nofun hrec.texts.1 hrec.texts.2.1 hrationale
    hrec.digest nofun nofun hrec.texts.2.2

variable {t : LegalTransition}

theorem plain_matched {stateIds sanctionIds pathIds : List Str}
    (hedge : EdgeValid stateIds sanctionIds pathIds t) (hids : IdsEncodable t) {sanctionId : Option Str}
    (hsanction : t.effectiveSanctionId = .ok sanctionId) (hrec : Recordable g c call)
    {fromState rationale : Str} (hstate : Plain fromState) (hrationale : Plain rationale)
    (outcome : ControllerOutcome) (until_ : Option ℤ) :
    ∀ s ∈ (matched g t sanctionId outcome fromState until_ rationale call).texts, Plain s := by
  obtain ⟨hkey, hrule, -, hto⟩ := hedge.plain
  have hsanctionId : ∀ id ∈ sanctionId, Plain id := fun id hid =>
    hids.sanction id (by rw [hsanction, Option.mem_def.mp hid])
  exact mem_texts (plain_decisionId call) hkey hrule hstate hto hrec.texts.1 hrec.texts.2.1 hrationale
    hrec.digest hsanctionId hids.restorative hrec.texts.2.2

include hrepr in
theorem plain_outcomeOf {sanctionId : Option Str}
    (hsanction : t.effectiveSanctionId = .ok sanctionId) (hreason : ReasonEncodable g t) :
    Plain (outcomeOf repr g t sanctionId).2 := by
  have htraversed : Plain (txt "traversed " ++ repr t.edgeKey) := (plain_txt _).append (hrepr _)
  unfold outcomeOf
  cases hpath : t.restorativePathId with
  | some pathId =>
    refine ((htraversed.append (plain_txt _)).append (hrepr _)).append ?_
    cases hlookup : g.lookupRestorativePath pathId with
    | ok path => exact ((plain_txt _).append (hreason.kind pathId hpath path hlookup)).append (plain_txt _)
    | error e => exact plain_txt _
  | none =>
    cases sanctionId with
    | some sanctionId =>
      refine ((htraversed.append (plain_txt _)).append (hrepr _)).append ?_
      cases hlookup : g.lookupSanction sanctionId with
      | ok sanction =>
        exact ((plain_txt _).append (hreason.action sanctionId sanction hsanction hlookup)).append
          (plain_txt _)
      | error e => exact plain_txt _
    | none => exact htraversed.append (plain_txt _)

theorem blockedDecision_eq {sanctionId : Option Str}
    (hsanction : t.effectiveSanctionId = .ok sanctionId) {until_ : ℤ}
    (hshort : (natText until_.natAbs).length ≤ maxStrDigits) (fromState : Str) (call : EnforceCall) :
    ∃ untilText, Plain untilText ∧ blockedDecision repr g t fromState until_ call =
      (matched g t sanctionId .blocked fromState (some until_)
        (coolingRationale repr t untilText call) call).validated := by
  have hdigits : decimalText until_.natAbs = .ok (natText until_.natAbs) := if_neg (not_lt.mpr hshort)
  refine ⟨if until_ < 0 then cp '-' :: natText until_.natAbs else natText until_.natAbs, ?_, ?_⟩
  · split_ifs
    · exact Plain.cons (isSurrogate_cp '-') (JsonDoc.plain_natText _)
    · exact JsonDoc.plain_natText _
  · unfold blockedDecision intText
    rw [hsanction, hdigits]
    rfl

theorem outcomeOf_ne_blocked (t : LegalTransition) (sanctionId : Option Str) :
    (outcomeOf repr g t sanctionId).1 ≠ .blocked := by
  unfold outcomeOf
  cases t.restorativePathId with
  | some pathId => exact nofun
  | none =>
    cases sanctionId with
    | some sanctionId => exact nofun
    | none => exact nofun

/-- The call asks for this edge. -/
def Dispatches (g : GovernanceGraph) (c : GovernanceController) (call : EnforceCall) (t : LegalTransition) :
    Prop :=
  g.findTransition (c.actorState call.actorEntityId) call.proposedEventKind = .ok (some t)

structure Blocks (g : GovernanceGraph) (c : GovernanceController) (call : EnforceCall)
    (d : ControllerDecision) (c' : GovernanceController) : Prop where
  actor : d.actorEntityId = call.actorEntityId
  blocked : d.decision = .blocked
  unchanged : c' = c
  cooling : ∀ t, Dispatches g c call t →
    c.inCooldown call.actorEntityId t.edgeKey call.currentRound = true

structure Traverses (g : GovernanceGraph) (c : GovernanceController) (call : EnforceCall)
    (t : LegalTransition) (d : ControllerDecision) (c' : GovernanceController) : Prop where
  declared : t ∈ g.transitions
  source : t.fromState = c.actorState call.actorEntityId
  dispatched : Dispatches g c call t
  ready : c.inCooldown call.actorEntityId t.edgeKey call.currentRound = false
  actor : d.actorEntityId = call.actorEntityId
  fired : d.decision ≠ .blocked
  target : d.toState = t.toState
  written : c' = c.traverse t call

include hrepr hvalid in
theorem enforce_cases (hstate : Plain (c.actorState call.actorEntityId)) (hrec : Recordable g c call) :
    ∃ d, (enforce repr g c call).1 = .ok d ∧
      (Blocks g c call d (enforce repr g c call).2 ∨
        ∃ t, Traverses g c call t d (enforce repr g c call).2) := by
  obtain ⟨found, hfound, hmem⟩ :=
    hvalid.findTransition_ok (c.actorState call.actorEntityId) call.proposedEventKind
  have hnamed : ¬ (call.actorEntityId = [] ∨ call.proposedEventKind = []) :=
    not_or.mpr ⟨hrec.named.1, hrec.named.2⟩
  cases found with
  | none =>
    have hresult : enforce repr g c call =
        ((unmatched g (c.actorState call.actorEntityId)
          (noEdgeRationale repr (c.actorState call.actorEntityId) call.proposedEventKind) call).validated, c) := by
      simp only [enforce, if_neg hnamed, hfound]
    have hrationale :
        Plain (noEdgeRationale repr (c.actorState call.actorEntityId) call.proposedEventKind) :=
      (((plain_txt _).append (hrepr _)).append (plain_txt _)).append (hrepr _)
    rw [hresult]
    refine ⟨_, validated_ok (plain_unmatched hrec hstate hrationale), .inl ⟨rfl, rfl, rfl, fun t ht => ?_⟩⟩
    rw [Dispatches, hfound] at ht
    cases ht
  | some t =>
    obtain ⟨hdeclared, hsource, -⟩ := hmem t rfl
    have hedge := hvalid.edges t hdeclared
    have hids := hrec.ids t hfound
    obtain ⟨sanctionId, hsanction, -⟩ := hedge.sanction
    cases hcooling : c.cooldownUntil call.actorEntityId t.edgeKey call.currentRound with
    | some until_ =>
      have hresult : enforce repr g c call =
          (blockedDecision repr g t (c.actorState call.actorEntityId) until_ call, c) := by
        simp only [enforce, if_neg hnamed, hfound, hcooling]
      obtain ⟨untilText, hplain, hblocked⟩ := blockedDecision_eq hsanction
        (hrec.blocked t until_ hfound hcooling) (c.actorState call.actorEntityId) call
      have hrationale : Plain (coolingRationale repr t untilText call) :=
        (((((plain_txt _).append (hrepr _)).append (plain_txt _)).append hplain).append
          (plain_txt _)).append (hrepr _)
      rw [hresult, hblocked]
      refine ⟨_, validated_ok (plain_matched hedge hids hsanction hrec hstate hrationale _ _),
        .inl ⟨rfl, rfl, rfl, fun t' ht' => ?_⟩⟩
      rw [Dispatches, hfound] at ht'
      obtain rfl := Option.some.inj (Except.ok.inj ht')
      rw [GovernanceController.inCooldown, hcooling, Option.isSome_some]
    | none =>
      have hresult : enforce repr g c call =
          ((traversal repr g t sanctionId (c.actorState call.actorEntityId) call).validated,
            c.traverse t call) := by
        simp only [enforce, if_neg hnamed, hfound, hcooling, hsanction]
      have hrationale := plain_outcomeOf hrepr hsanction (hrec.traversed t hfound hcooling)
      rw [hresult]
      refine ⟨_, validated_ok (plain_matched hedge hids hsanction hrec hstate hrationale _ _), .inr ⟨t, ?_⟩⟩
      exact
        { declared := hdeclared
          source := hsource
          dispatched := hfound
          ready := by rw [GovernanceController.inCooldown, hcooling, Option.isSome_none]
          actor := rfl
          fired := outcomeOf_ne_blocked t sanctionId
          target := rfl
          written := rfl }

variable {c' : GovernanceController} {d : ControllerDecision}

theorem Traverses.actorState
    (h : Traverses g c call t d c') : c'.actorState call.actorEntityId = t.toState := by
  rw [h.written, GovernanceController.actorState, GovernanceController.traverse, Dict.get?_set, if_pos rfl,
    Option.getD_some]

theorem Traverses.other
    (h : Traverses g c call t d c') {other : Str} (hother : other ≠ call.actorEntityId) :
    c'.actorState other = c.actorState other ∧
      ∀ key, c'.cooldowns.get? (other, key) = c.cooldowns.get? (other, key) := by
  refine ⟨?_, fun key => ?_⟩
  · rw [h.written, GovernanceController.actorState, GovernanceController.traverse, Dict.get?_set,
      if_neg hother]
    rfl
  · rw [h.written, GovernanceController.traverse]
    simp only
    split_ifs
    · rw [Dict.get?_set, if_neg fun heq => hother (Prod.mk.inj heq).1]
    · rfl

def CoolsUntil (c : GovernanceController) (actor edgeKey : Str) (round : ℤ) : Prop :=
  ∃ until_, c.cooldowns.get? (actor, edgeKey) = some until_ ∧ round ≤ until_

theorem CoolsUntil.inCooldown {actor edgeKey : Str} {round now : ℤ} (h : CoolsUntil c actor edgeKey round)
    (hnow : now < round) : c.inCooldown actor edgeKey now = true := by
  obtain ⟨until_, hget, hle⟩ := h
  rw [GovernanceController.inCooldown, GovernanceController.cooldownUntil, hget, Option.filter_some,
    if_pos (decide_eq_true (lt_of_lt_of_le hnow hle)), Option.isSome_some]

theorem of_ready {actor edgeKey : Str} {now until_ : ℤ} (h : c.inCooldown actor edgeKey now = false)
    (hget : c.cooldowns.get? (actor, edgeKey) = some until_) : until_ ≤ now := by
  by_contra hlt
  have hcooling : CoolsUntil c actor edgeKey until_ := ⟨until_, hget, le_rfl⟩
  rw [hcooling.inCooldown (not_le.mp hlt)] at h
  cases h

theorem Traverses.cools (h : Traverses g c call t d c') (hcooldown : 0 < cooldownFor t) :
    CoolsUntil c' call.actorEntityId t.edgeKey (call.currentRound + cooldownFor t) := by
  refine ⟨_, ?_, le_rfl⟩
  rw [h.written, GovernanceController.traverse]
  simp only [if_pos hcooldown]
  rw [Dict.get?_set, if_pos rfl]

theorem Traverses.keepsCooling (h : Traverses g c call t d c') {actor edgeKey : Str} {round : ℤ}
    (hcooling : CoolsUntil c actor edgeKey round) : CoolsUntil c' actor edgeKey round := by
  obtain ⟨until_, hget, hle⟩ := hcooling
  rw [h.written, GovernanceController.traverse, CoolsUntil]
  simp only
  split_ifs with hcooldown
  · rw [Dict.get?_set]
    split_ifs with hkey
    · obtain ⟨rfl, rfl⟩ := Prod.mk.inj hkey
      have hover := of_ready h.ready hget
      exact ⟨_, rfl, by omega⟩
    · exact ⟨until_, hget, hle⟩
  · exact ⟨until_, hget, hle⟩

end Calls

section Runs

variable (repr : Str → Str) (g : GovernanceGraph)

def after (c : GovernanceController) (calls : List EnforceCall) : GovernanceController :=
  calls.foldl (fun c call => (enforce repr g c call).2) c

def decisions : GovernanceController → List EnforceCall → List ControllerDecision
  | _, [] => []
  | c, call :: rest => (enforce repr g c call).1.toOption.toList ++ decisions (enforce repr g c call).2 rest

def RunRecordable : GovernanceController → List EnforceCall → Prop
  | _, [] => True
  | c, call :: rest => Recordable g c call ∧ RunRecordable (enforce repr g c call).2 rest

def moves (actor : Str) (log : List ControllerDecision) : List Str :=
  (log.filter fun d => d.actorEntityId = actor ∧ d.decision ≠ .blocked).map ControllerDecision.toState

/-- A declared transition leads from one state to the other. -/
def Declared (g : GovernanceGraph) (source target : Str) : Prop :=
  ∃ t ∈ g.transitions, t.fromState = source ∧ t.toState = target

variable {repr : Str → Str} (hrepr : ∀ s, Plain (repr s)) {g : GovernanceGraph} (hvalid : TopologyValid g)

theorem after_append (c : GovernanceController) (before rest : List EnforceCall) :
    after repr g c (before ++ rest) = after repr g (after repr g c before) rest := List.foldl_append

variable {c : GovernanceController}

theorem runRecordable_append {before rest : List EnforceCall} :
    RunRecordable repr g c (before ++ rest) ↔
      RunRecordable repr g c before ∧ RunRecordable repr g (after repr g c before) rest := by
  induction before generalizing c with
  | nil => exact (iff_of_eq (true_and _)).symm
  | cons call before ih =>
    change _ ∧ RunRecordable repr g _ (before ++ rest) ↔ (_ ∧ _) ∧ _
    rw [ih, and_assoc]
    rfl

include hrepr hvalid in
theorem plain_states (hstates : ∀ actor, Plain (c.actorState actor))
    {call : EnforceCall} (hrec : Recordable g c call) (actor : Str) :
    Plain ((enforce repr g c call).2.actorState actor) := by
  obtain ⟨d, -, hblocks | ⟨t, htraverses⟩⟩ := enforce_cases hrepr hvalid (hstates _) hrec
  · rw [hblocks.unchanged]
    exact hstates actor
  · by_cases hactor : actor = call.actorEntityId
    · rw [hactor, htraverses.actorState]
      exact (hvalid.edges t htraverses.declared).plain.2.2.2
    · rw [(htraverses.other hactor).1]
      exact hstates actor

include hrepr hvalid in
theorem plain_after (hstates : ∀ actor, Plain (c.actorState actor))
    {calls : List EnforceCall} (hrun : RunRecordable repr g c calls) (actor : Str) :
    Plain ((after repr g c calls).actorState actor) := by
  induction calls generalizing c with
  | nil => exact hstates actor
  | cons call rest ih => exact ih (plain_states hrepr hvalid hstates hrun.1) hrun.2

include hrepr hvalid in
theorem path_of_run (hstates : ∀ actor, Plain (c.actorState actor))
    {calls : List EnforceCall} (hrun : RunRecordable repr g c calls) (actor : Str) :
    (c.actorState actor :: moves actor (decisions repr g c calls)).IsChain (Declared g) ∧
      (after repr g c calls).actorState actor =
        (moves actor (decisions repr g c calls)).getLastD (c.actorState actor) := by
  induction calls generalizing c with
  | nil => exact ⟨List.isChain_singleton _, rfl⟩
  | cons call rest ih =>
    obtain ⟨hpath, hlast⟩ := ih (plain_states hrepr hvalid hstates hrun.1) hrun.2
    obtain ⟨d, hreturned, hcases⟩ := enforce_cases hrepr hvalid (hstates _) hrun.1
    have hlog : decisions repr g c (call :: rest) =
        d :: decisions repr g (enforce repr g c call).2 rest := by
      rw [decisions, hreturned]
      rfl
    change _ ∧ (after repr g (enforce repr g c call).2 rest).actorState actor = _
    rw [hlog, hlast]
    obtain hblocks | ⟨t, htraverses⟩ := hcases
    · have hskip : moves actor (d :: decisions repr g (enforce repr g c call).2 rest) =
          moves actor (decisions repr g (enforce repr g c call).2 rest) := by
        simp [moves, hblocks.blocked]
      rw [hskip]
      rw [hblocks.unchanged] at hpath ⊢
      exact ⟨hpath, rfl⟩
    · by_cases hactor : call.actorEntityId = actor
      · have hmove : moves actor (d :: decisions repr g (enforce repr g c call).2 rest) =
            t.toState :: moves actor (decisions repr g (enforce repr g c call).2 rest) := by
          simp [moves, htraverses.actor, hactor, htraverses.fired, htraverses.target]
        rw [← hactor, htraverses.actorState, hactor] at hpath ⊢
        rw [hmove]
        refine ⟨List.isChain_cons_cons.mpr ⟨?_, hpath⟩, (List.getLastD_cons ..).symm⟩
        exact ⟨t, htraverses.declared, by rw [htraverses.source, hactor], rfl⟩
      · have hskip : moves actor (d :: decisions repr g (enforce repr g c call).2 rest) =
            moves actor (decisions repr g (enforce repr g c call).2 rest) := by
          simp [moves, htraverses.actor, hactor]
        rw [hskip]
        rw [(htraverses.other (Ne.symm hactor)).1] at hpath ⊢
        exact ⟨hpath, rfl⟩

include hrepr hvalid in
theorem cooling_after (hstates : ∀ actor, Plain (c.actorState actor))
    {calls : List EnforceCall} (hrun : RunRecordable repr g c calls) {actor edgeKey : Str} {round : ℤ}
    (hcooling : CoolsUntil c actor edgeKey round) :
    CoolsUntil (after repr g c calls) actor edgeKey round := by
  induction calls generalizing c with
  | nil => exact hcooling
  | cons call rest ih =>
    refine ih (plain_states hrepr hvalid hstates hrun.1) hrun.2 ?_
    beta_reduce
    obtain ⟨d, -, hblocks | ⟨t, htraverses⟩⟩ := enforce_cases hrepr hvalid (hstates _) hrun.1
    · rwa [hblocks.unchanged]
    · exact htraverses.keepsCooling hcooling

structure CallSound (repr : Str → Str) (g : GovernanceGraph) (c : GovernanceController) (call : EnforceCall)
    (d : ControllerDecision) : Prop where
  returned : (enforce repr g c call).1 = .ok d
  blocked : d.decision = .blocked → (enforce repr g c call).2 = c
  written : d.decision ≠ .blocked →
    (enforce repr g c call).2.actorStates = c.actorStates.set call.actorEntityId d.toState
  others : ∀ other ≠ call.actorEntityId,
    (enforce repr g c call).2.actorState other = c.actorState other ∧
      ∀ key, (enforce repr g c call).2.cooldowns.get? (other, key) = c.cooldowns.get? (other, key)

include hrepr hvalid in
theorem callSound {call : EnforceCall}
    (hstate : Plain (c.actorState call.actorEntityId)) (hrec : Recordable g c call) :
    ∃ d, CallSound repr g c call d := by
  obtain ⟨d, hreturned, hblocks | ⟨t, htraverses⟩⟩ := enforce_cases hrepr hvalid hstate hrec
  · refine ⟨d, hreturned, fun _ => hblocks.unchanged, fun h => absurd hblocks.blocked h, fun other _ => ?_⟩
    rw [hblocks.unchanged]
    exact ⟨rfl, fun _ => rfl⟩
  · refine ⟨d, hreturned, fun h => absurd h htraverses.fired, fun _ => ?_, fun other hother =>
      htraverses.other hother⟩
    rw [htraverses.written, htraverses.target]
    rfl

/-- No branch of `enforce` for an ambiguous dispatch or a failed lookup is reached. -/
def AlwaysResolves (g : GovernanceGraph) : Prop :=
  (∀ fromState triggeredBy, ∃ found, g.findTransition fromState triggeredBy = .ok found) ∧
  ∀ t ∈ g.transitions,
    (∃ sanctionId, t.effectiveSanctionId = .ok sanctionId ∧
      ∀ id ∈ sanctionId, ∃ s, g.lookupSanction id = .ok s) ∧
    ∀ id ∈ t.restorativePathId, ∃ p, g.lookupRestorativePath id = .ok p

include hvalid in
theorem alwaysResolves : AlwaysResolves g := by
  refine ⟨fun fromState triggeredBy => ?_, fun t ht => ⟨?_, fun id hid => ?_⟩⟩
  · obtain ⟨found, hfound, -⟩ := hvalid.findTransition_ok fromState triggeredBy
    exact ⟨found, hfound⟩
  · obtain ⟨sanctionId, hsanction, hmem⟩ := (hvalid.edges t ht).sanction
    refine ⟨sanctionId, hsanction, fun id hid => ?_⟩
    obtain ⟨s, -, hs⟩ := lookupSanction_ok (hmem id hid)
    exact ⟨s, hs⟩
  · obtain ⟨p, -, hp⟩ := lookupRestorativePath_ok ((hvalid.edges t ht).restorative id hid)
    exact ⟨p, hp⟩

include hvalid in
theorem declared_of_moves {source : Str} {path : List Str}
    (hsource : source ∈ g.states.map LegalState.stateId) (hpath : (source :: path).IsChain (Declared g)) :
    ∀ s ∈ source :: path, s ∈ g.states.map LegalState.stateId := by
  induction path generalizing source with
  | nil =>
    intro s hs
    rwa [List.mem_singleton.mp hs]
  | cons target path ih =>
    obtain ⟨⟨t, ht, -, htarget⟩, hrest⟩ := List.isChain_cons_cons.mp hpath
    intro s hs
    obtain rfl | hs := List.mem_cons.mp hs
    · exact hsource
    · exact ih (htarget ▸ (hvalid.edges t ht).target) hrest s hs

include hrepr hvalid in
theorem blocked_while_cooling (hstates : ∀ actor, Plain (c.actorState actor))
    {call later : EnforceCall} {mid : List EnforceCall} {t : LegalTransition} {d : ControllerDecision}
    (hrec : Recordable g c call) (hmid : RunRecordable repr g (enforce repr g c call).2 mid)
    (hlater : Recordable g (after repr g (enforce repr g c call).2 mid) later)
    (hfired : (enforce repr g c call).1 = .ok d) (hne : d.decision ≠ .blocked)
    (hdispatch : Dispatches g c call t) (hcooldown : 0 < cooldownFor t)
    (hactor : later.actorEntityId = call.actorEntityId)
    (hdispatch' : Dispatches g (after repr g (enforce repr g c call).2 mid) later t)
    (hround : later.currentRound < call.currentRound + cooldownFor t) :
    ∃ d', (enforce repr g (after repr g (enforce repr g c call).2 mid) later).1 = .ok d' ∧
      d'.decision = .blocked := by
  have hstates' := plain_states hrepr hvalid hstates hrec
  have hcools : CoolsUntil (enforce repr g c call).2 call.actorEntityId t.edgeKey
      (call.currentRound + cooldownFor t) := by
    obtain ⟨d', hreturned, hblocks | ⟨t', htraverses⟩⟩ := enforce_cases hrepr hvalid (hstates _) hrec
    · rw [hfired] at hreturned
      obtain rfl := Except.ok.inj hreturned
      exact absurd hblocks.blocked hne
    · obtain rfl : t' = t :=
        Option.some.inj (Except.ok.inj (htraverses.dispatched.symm.trans hdispatch))
      exact htraverses.cools hcooldown
  have hcooling := cooling_after hrepr hvalid hstates' hmid hcools
  obtain ⟨d', hreturned, hblocks | ⟨t', htraverses⟩⟩ :=
    enforce_cases hrepr hvalid (plain_after hrepr hvalid hstates' hmid _) hlater
  · exact ⟨d', hreturned, hblocks.blocked⟩
  · obtain rfl : t' = t :=
      Option.some.inj (Except.ok.inj (htraverses.dispatched.symm.trans hdispatch'))
    have hready := htraverses.ready
    rw [hactor, hcooling.inCooldown hround] at hready
    cases hready

theorem plain_fresh (actor : Str) : Plain (GovernanceController.fresh.actorState actor) := plain_txt _

end Runs

/-- Over a run of recordable calls the controller runs the declared transition
system. -/
theorem controller_runs_declared (isprintable : CodePoint → Bool)
    (hsurrogate : ∀ c, isSurrogate c = true → isprintable c = false) {g : GovernanceGraph}
    (htopology : validateTopology g = .ok ()) (hactive : txt "active" ∈ g.states.map LegalState.stateId)
    {calls : List EnforceCall}
    (hrun : RunRecordable (PyRepr.repr isprintable) g GovernanceController.fresh calls) :
    let c := after (PyRepr.repr isprintable) g GovernanceController.fresh
    (∀ actor, let path := moves actor (decisions (PyRepr.repr isprintable) g GovernanceController.fresh calls)
      (txt "active" :: path).IsChain (Declared g) ∧
      (∀ s ∈ txt "active" :: path, s ∈ g.states.map LegalState.stateId) ∧
      (c calls).actorState actor = path.getLastD (txt "active")) ∧
    (∀ before call rest, calls = before ++ call :: rest →
      ∃ d, CallSound (PyRepr.repr isprintable) g (c before) call d) ∧
    (∀ before call mid later rest t d, calls = before ++ call :: (mid ++ later :: rest) →
      (enforce (PyRepr.repr isprintable) g (c before) call).1 = .ok d → d.decision ≠ .blocked →
      Dispatches g (c before) call t → 0 < cooldownFor t → later.actorEntityId = call.actorEntityId →
      Dispatches g (c (before ++ call :: mid)) later t →
      later.currentRound < call.currentRound + cooldownFor t →
      ∃ d', (enforce (PyRepr.repr isprintable) g (c (before ++ call :: mid)) later).1 = .ok d' ∧
        d'.decision = .blocked) ∧
    AlwaysResolves g := by
  have hvalid := topologyValid htopology
  have hrepr := plain_repr isprintable hsurrogate
  intro c
  refine ⟨fun actor => ?_, ?_, ?_, alwaysResolves hvalid⟩
  · obtain ⟨hpath, hlast⟩ := path_of_run hrepr hvalid plain_fresh hrun actor
    exact ⟨hpath, declared_of_moves hvalid hactive hpath, hlast⟩
  · rintro before call rest rfl
    obtain ⟨hbefore, hcall, -⟩ := runRecordable_append.mp hrun
    exact callSound hrepr hvalid (plain_after hrepr hvalid plain_fresh hbefore _) hcall
  · rintro before call mid later rest t d rfl hfired hne hdispatch hcooldown hactor hdispatch' hround
    obtain ⟨hbefore, hcall, hrest⟩ := runRecordable_append.mp hrun
    obtain ⟨hmid, hlater, -⟩ := runRecordable_append.mp hrest
    have hsplit : c (before ++ call :: mid) =
        after (PyRepr.repr isprintable) g (enforce (PyRepr.repr isprintable) g (c before) call).2 mid :=
      after_append _ _ _
    rw [hsplit] at hdispatch' ⊢
    exact blocked_while_cooling hrepr hvalid (plain_after hrepr hvalid plain_fresh hbefore) hcall hmid hlater
      hfired hne hdispatch hcooldown hactor hdispatch' hround

def sampleEdge (edgeKey fromState toState triggeredBy : Str) (cooldown : ℤ) : LegalTransition where
  fromState
  toState
  triggeredBy
  edgeKey
  ruleId := []
  sanctionId := none
  restorativePathId := none
  timing := some (.ofItems [(txt "cooldown_rounds", cooldown)])
  sanctionOnViolation := none
  preconditionLtl := []
  metadata := none

/-- A warning, which lapses. -/
def sampleGraph : GovernanceGraph where
  graphId := txt "g"
  version := txt "1"
  states := [⟨txt "active", [], []⟩, ⟨txt "warning", [], []⟩]
  transitions :=
    [sampleEdge (txt "P2:active->warning") (txt "active") (txt "warning") (txt "violation") 3,
      sampleEdge (txt "P2:warning->active") (txt "warning") (txt "active") (txt "expiry_tick") 0]
  sanctions := []
  restorativePaths := []
  manifestSemanticSha256 := []
  schemaVersion := txt "v1"
  interpreterName := []
  interpreterVersion := []
  policySurface := none
  policyProgram := none
  contracts := none

theorem sampleGraph_valid : validateTopology sampleGraph = .ok () := by decide

def sampleCall (kind actor : Str) (round : ℤ) : EnforceCall where
  proposedEventKind := kind
  actorEntityId := actor
  currentRound := round
  caseId := none
  uuid4 := ⟨txt "00000000-0000-0000-0000-000000000001", by decide⟩

/-- An actor whose id holds a lone surrogate is warned, and no decision tells of it. -/
theorem unrecorded_traversal :
    let call := sampleCall (txt "violation") [Fin.ofNat 0x110000 0xd800] 0
    call.actorEntityId ≠ [] ∧ call.proposedEventKind ≠ [] ∧
      validateTopology sampleGraph = .ok () ∧
      txt "active" ∈ sampleGraph.states.map LegalState.stateId ∧
      (enforce (PyRepr.repr fun _ => false) sampleGraph .fresh call).1.toOption = none ∧
      (enforce (PyRepr.repr fun _ => false) sampleGraph .fresh call).2.actorState call.actorEntityId =
        txt "warning" := by
  decide

theorem sample_recordable (round : ℤ) (c : GovernanceController) (h : c.cooldowns = Dict.empty) :
    Recordable sampleGraph c (sampleCall (txt "violation") (txt "firm_1") round) := by
  have hcooldown : ∀ actor key now, c.cooldownUntil actor key now = none := fun actor key now => by
    rw [GovernanceController.cooldownUntil, h]
    rfl
  have hmem : ∀ t, sampleGraph.findTransition (c.actorState (txt "firm_1")) (txt "violation") = .ok (some t) →
      t ∈ sampleGraph.transitions := fun t ht => by
    obtain ⟨found, hfound, hmem⟩ := (topologyValid sampleGraph_valid).findTransition_ok
      (c.actorState (txt "firm_1")) (txt "violation")
    rw [hfound] at ht
    exact (hmem t (Except.ok.inj ht)).1
  have hnone : ∀ t ∈ sampleGraph.transitions, t.effectiveSanctionId = .ok none ∧ t.restorativePathId = none := by
    intro t ht
    obtain rfl | ht := List.mem_cons.mp ht
    · exact ⟨rfl, rfl⟩
    · rw [List.mem_singleton.mp ht]
      exact ⟨rfl, rfl⟩
  have hnamed : txt "firm_1" ≠ [] ∧ txt "violation" ≠ [] := by decide
  refine ⟨hnamed, ⟨plain_txt _, plain_txt _, nofun⟩, nofun, fun t ht => ?_, fun t u _ hu => ?_,
    fun t ht _ => ?_⟩
  · obtain ⟨hsanction, hpath⟩ := hnone t (hmem t ht)
    refine ⟨fun id hid => ?_, fun id hid => ?_⟩
    · rw [hsanction] at hid
      cases hid
    · rw [hpath] at hid
      cases hid
  · rw [hcooldown] at hu
    cases hu
  · obtain ⟨hsanction, hpath⟩ := hnone t (hmem t ht)
    refine ⟨fun id _ hid => ?_, fun id hid => ?_⟩
    · rw [hsanction] at hid
      cases hid
    · rw [hpath] at hid
      cases hid

theorem controller_runs_declared_sample :
    ∃ d, CallSound (PyRepr.repr fun _ => false) sampleGraph .fresh
      (sampleCall (txt "violation") (txt "firm_1") 0) d := by
  have hrun : RunRecordable (PyRepr.repr fun _ => false) sampleGraph .fresh
      [sampleCall (txt "violation") (txt "firm_1") 0] := ⟨sample_recordable 0 _ rfl, trivial⟩
  have hdeclared := controller_runs_declared (fun _ => false) (fun _ _ => rfl) sampleGraph_valid
    (by decide) hrun
  exact hdeclared.2.1 [] _ [] rfl

end TexGovernance.Institutional
