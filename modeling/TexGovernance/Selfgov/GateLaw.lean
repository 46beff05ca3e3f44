import TexGovernance.Lib.JsonText
import TexGovernance.Selfgov.Governor

/-!
# What the reflexive gate rules

A call of the gate is denied unless the policy decision point permits it or it is one of the
passes, and it leaves one sealed fact.
-/

namespace TexGovernance.Selfgov
open PyStr PyRepr PyJson Actions
open Provenance (SealedFact SealedFactRecord)
open Engine (Verdict)

def ownFacts (depth : ℕ) (log : GateLog) : List SealedFact :=
  (log.sealed.filter fun s => s.1 = depth).map Prod.snd

def Working (binding : Binding) : Prop :=
  ∃ ledger, binding.ledger = some ledger ∧ ∀ sealed fact, ∃ record, ledger.append sealed fact = .ok record

def sealsNothing : Mechanism → Bool
  | .noChange | .stagePass | .registrationPass => true
  | _ => false

section Law

variable (draws : Draws) (binding : Binding) (py : Interpreter) (depth : ℕ) (source : Source)

def PdpPermits (log : GateLog) : Prop :=
  ∃ descriptor result log', source.first = .ok descriptor ∧
    askPdp draws binding py (gateMutation draws binding py (depth + 1)) descriptor log = .ok result log' ∧
    result.verdict = .permit

def NothingFired : Prop :=
  ∃ descriptor mg, source.first = .ok descriptor ∧ evaluateMetaguard py descriptor = .ok mg ∧ mg.fired = false

structure Ruled (log : GateLog) (outcome : GateOutcome) (log' : GateLog) : Prop where
  permitted : outcome.allowed = true → outcome.verdict = some .permit ∧ outcome.floorCodes = [] ∧
    outcome.cautionCodes = [] ∧ NothingFired py source ∧
    (outcome.mechanism ∈ [.noChange, .stagePass, .registrationPass, .protectivePass] ∨
      PdpPermits draws binding py depth source log)
  backstop : 0 < depth → (outcome.mechanism = .noChange ∨ outcome.allowed = false) ∧ log'.asked = log.asked
  sealed : Working binding → if sealsNothing outcome.mechanism then ownFacts depth log' = ownFacts depth log
    else ∃ fact, fact.kind = .enforcement ∧ ownFacts depth log' = ownFacts depth log ++ [fact]

def TotalAndFailClosed : Prop :=
  ∀ binding log, ∃ outcome log', gateMutation draws binding py depth source log = .ok outcome log' ∧
    Ruled draws binding py depth source log outcome log'

end Law

def Writable (descriptor : MutationDescriptor) : Prop :=
  (∃ payload, descriptor.payload.asDict = .ok payload) ∧ fitsField 200 descriptor.surface ∧
    fitsField 2000 (enforcementClaim descriptor false)

theorem fitsField_claim (descriptor : MutationDescriptor) (allowed : Bool) :
    fitsField 2000 (enforcementClaim descriptor allowed) ↔ fitsField 2000 (enforcementClaim descriptor false) := by
  cases allowed with
  | false => rfl
  | true =>
    have hword : (txt "allowed").length = (txt "blocked").length := by decide
    have hplain : Plain (txt "allowed") ∧ Plain (txt "blocked") := ⟨plain_txt _, plain_txt _⟩
    simp only [fitsField, enforcementClaim, if_true, Bool.false_eq_true, if_false, List.length_append, hword,
      JsonText.plain_append_iff, hplain.1, hplain.2]

set_option maxRecDepth 2000 in
theorem writable_unknown : Writable unknownDescriptor := by
  refine ⟨⟨[], rfl⟩, ?_, ?_⟩
  · decide
  · decide

section Seal

variable {draws : Draws} {binding : Binding} {depth : ℕ} {descriptor : MutationDescriptor} {ruling : Ruling}
variable {log : GateLog}

theorem enforcementFact_ok (h : Writable descriptor) (count : ℕ) :
    ∃ fact, enforcementFact draws descriptor ruling count = .ok fact := by
  obtain ⟨⟨payload, hpayload⟩, hsurface, hclaim⟩ := h
  unfold enforcementFact
  rw [hpayload]
  exact ⟨_, if_pos ⟨hsurface, (fitsField_claim _ _).mpr hclaim⟩⟩

theorem enforcementFact_kind {count : ℕ} {fact : SealedFact}
    (h : enforcementFact draws descriptor ruling count = .ok fact) :
    Writable descriptor ∧ fact.kind = .enforcement := by
  unfold enforcementFact at h
  obtain ⟨payload, hpayload, h⟩ := Pipeline.bind_ok h
  by_cases hfits : fitsField 200 descriptor.surface ∧ fitsField 2000 (enforcementClaim descriptor ruling.allowed)
  · cases (if_pos hfits).symm.trans h
    exact ⟨⟨⟨payload, hpayload⟩, hfits.1, (fitsField_claim _ _).mp hfits.2⟩, rfl⟩
  · cases (if_neg hfits).symm.trans h

/-- One fact at `depth`, if the ledger takes it, and nothing else. -/
structure SealedOne (binding : Binding) (depth : ℕ) (log log' : GateLog) : Prop where
  asked : log'.asked = log.asked
  own : Working binding → ∃ fact, fact.kind = .enforcement ∧ ownFacts depth log' = ownFacts depth log ++ [fact]
  others : ∀ k ≠ depth, ownFacts k log' = ownFacts k log

theorem sealedOne_of_idle (h : ¬ Working binding) : SealedOne binding depth log log :=
  ⟨rfl, fun hworking => absurd hworking h, fun _ _ => rfl⟩

theorem sealedOne_of_append {fact : SealedFact} (h : fact.kind = .enforcement) :
    SealedOne binding depth log { log with sealed := log.sealed ++ [(depth, fact)] } := by
  refine ⟨rfl, fun _ => ⟨fact, h, ?_⟩, fun k hk => ?_⟩
  · simp [ownFacts]
  · simp [ownFacts, Ne.symm hk]

theorem seal_meets : Meets (sealEnforcement draws binding depth descriptor ruling) log
    (fun _ log' => SealedOne binding depth log log') fun log' => log' = log := by
  unfold Meets sealEnforcement
  cases hledger : binding.ledger with
  | none => exact sealedOne_of_idle fun ⟨_, hsome, _⟩ => absurd (hledger.symm.trans hsome) nofun
  | some ledger =>
    cases hfact : enforcementFact draws descriptor ruling log.sealed.length with
    | error e => rfl
    | ok fact =>
      cases happend : ledger.append (log.sealed.map Prod.snd) fact with
      | error e =>
        simp only [happend]
        refine sealedOne_of_idle fun ⟨ledger', hsome, hworks⟩ => ?_
        cases hledger.symm.trans hsome
        obtain ⟨record, hrecord⟩ := hworks (log.sealed.map Prod.snd) fact
        exact absurd (happend.symm.trans hrecord) nofun
      | ok record =>
        simp only [happend]
        exact sealedOne_of_append (enforcementFact_kind hfact).2

theorem seal_total (h : Writable descriptor) :
    ∃ record log', sealEnforcement draws binding depth descriptor ruling log = .ok record log' := by
  obtain ⟨fact, hfact⟩ := @enforcementFact_ok draws _ ruling h log.sealed.length
  unfold sealEnforcement
  cases binding.ledger with
  | none => exact ⟨none, log, rfl⟩
  | some ledger =>
    simp only [hfact]
    cases ledger.append (log.sealed.map Prod.snd) fact with
    | ok record => exact ⟨_, _, rfl⟩
    | error e => exact ⟨_, _, rfl⟩

theorem seal_raises (h : ¬ Writable descriptor) {ledger : Ledger} (hledger : binding.ledger = some ledger) :
    ∃ e, sealEnforcement draws binding depth descriptor ruling log = .error e log := by
  unfold sealEnforcement
  rw [hledger]
  cases hfact : enforcementFact draws descriptor ruling log.sealed.length with
  | error e => exact ⟨e, rfl⟩
  | ok fact => exact absurd (enforcementFact_kind hfact).1 h

structure Follows (ruling : Ruling) (outcome : GateOutcome) : Prop where
  allowed : outcome.allowed = ruling.allowed
  verdict : outcome.verdict = some ruling.verdict
  mechanism : outcome.mechanism = ruling.mechanism
  floorCodes : outcome.floorCodes = ruling.floorCodes
  cautionCodes : outcome.cautionCodes = ruling.cautionCodes

theorem sealedOutcome_meets : Meets (sealedOutcome draws binding depth descriptor ruling) log
    (fun outcome log' => Follows ruling outcome ∧ SealedOne binding depth log log') fun log' => log' = log := by
  refine Meets.seq seal_meets fun record log' hsealed => ?_
  exact Meets.ret ⟨⟨rfl, rfl, rfl, rfl, rfl⟩, hsealed⟩

theorem sealedOutcome_total (h : Writable descriptor) :
    ∃ outcome log', sealedOutcome draws binding depth descriptor ruling log = .ok outcome log' := by
  obtain ⟨record, log', hseal⟩ := @seal_total draws binding depth _ ruling log h
  exact ⟨_, log', bind_ok hseal _⟩

theorem sealedOutcome_raises (h : ¬ Writable descriptor) {ledger : Ledger}
    (hledger : binding.ledger = some ledger) :
    ∃ e, sealedOutcome draws binding depth descriptor ruling log = .error e log := by
  obtain ⟨e, hseal⟩ := @seal_raises draws binding depth _ ruling log h ledger hledger
  exact ⟨e, bind_error hseal _⟩

end Seal

section Backstop

variable {draws : Draws} {binding : Binding} {py : Interpreter} {nested : Source → Gate GateOutcome}
variable {depth : ℕ} {descriptor : MutationDescriptor} {log : GateLog}

theorem lift_meets {α : Type} (x : Except PyErr α) :
    Meets (lift x) log (fun a log' => x = .ok a ∧ log' = log) fun log' => log' = log := by
  cases x with
  | ok a => exact ⟨rfl, rfl⟩
  | error e => exact rfl

theorem noChange_unfired {mg : MetaguardResult} (h : evaluateMetaguard py descriptor = .ok mg)
    (hchange : mg.noChange = true) : mg.fired = false := by
  unfold evaluateMetaguard at h
  obtain ⟨payload, -, h⟩ := Pipeline.bind_ok h
  obtain ⟨noChange, -, h⟩ := Pipeline.bind_ok h
  by_cases htrue : isTrue noChange = true
  · cases (if_pos htrue).symm.trans h
    rfl
  · have h := (if_neg htrue).symm.trans h
    obtain ⟨fired, -, h⟩ := Pipeline.bind_ok h
    obtain ⟨protectivePass, -, h⟩ := Pipeline.bind_ok h
    cases h
    exact absurd hchange nofun

structure Backstopped (binding : Binding) (depth : ℕ) (log : GateLog) (outcome : GateOutcome) (log' : GateLog) :
    Prop where
  denied : outcome.allowed = false
  mechanism : outcome.mechanism = .noRegressBackstop
  sealed : SealedOne binding depth log log'

theorem gateBound_backstop (hdepth : 0 < depth) : Meets (gateBound draws binding py nested depth descriptor) log
    (fun outcome log' => (outcome = noChangeOutcome ∧ log' = log ∧
        ∃ mg, evaluateMetaguard py descriptor = .ok mg ∧ mg.fired = false) ∨
      Backstopped binding depth log outcome log') fun log' => log' = log := by
  refine Meets.seq (lift_meets _) ?_
  rintro mg - ⟨hmg, rfl⟩
  by_cases hchange : mg.noChange = true
  · rw [if_pos hchange]
    exact Meets.ret (.inl ⟨rfl, rfl, mg, hmg, noChange_unfired hmg hchange⟩)
  · rw [if_neg hchange, if_pos hdepth]
    refine Meets.seq sealedOutcome_meets fun outcome log' hout => ?_
    exact Meets.ret (.inr ⟨hout.1.allowed, hout.1.mechanism, hout.2⟩)

/-- What the calls at `depth` sealed stays as it is. -/
def KeepsOwn (depth : ℕ) : GateLog → GateLog → Prop := fun log log' => ownFacts depth log' = ownFacts depth log

theorem gateWith_keeps (hdepth : 0 < depth) {k : ℕ} (hk : k ≠ depth) (source : Source) :
    Keeps (KeepsOwn k) (gateWith draws binding py nested depth source) := by
  intro log
  refine Meets.after (Meets.rescued (E := KeepsOwn k log) ?_ fun log' hkeep => ?_)
  · refine Meets.seq ((lift_meets source.first).mono (fun _ _ h => h) fun _ h => congrArg (ownFacts k) h) ?_
    rintro d _ ⟨-, rfl⟩
    refine (gateBound_backstop hdepth).mono ?_ fun _ h => congrArg (ownFacts k) h
    rintro outcome log' (⟨-, rfl, -⟩ | hback)
    · rfl
    · exact hback.sealed.others k hk
  · refine sealedOutcome_meets.mono ?_ fun _ h => (congrArg (ownFacts k) h).trans hkeep
    exact fun _ _ h => (h.2.others k hk).trans hkeep

end Backstop

section Evaluations

variable {nested : Source → Gate GateOutcome} {k : ℕ}

theorem run_keeps (hnested : ∀ attempt, Keeps (KeepsOwn k) (nested attempt)) (evaluation : Evaluation) :
    Keeps (KeepsOwn k) (evaluation.run nested) := by
  induction evaluation with
  | answer result => exact fun _ => rfl
  | raises e => exact fun _ => rfl
  | mutate attempt next ih =>
    intro log
    have hattempt := hnested attempt log
    unfold after Evaluation.run
    cases hcall : nested attempt log with
    | ok outcome log' =>
      rw [after_of_ok hcall] at hattempt
      exact (ih (.ok outcome) log').trans hattempt
    | error e log' =>
      rw [after_of_error hcall] at hattempt
      exact (ih (.error e) log').trans hattempt

variable {draws : Draws} {binding : Binding} {py : Interpreter} {descriptor : MutationDescriptor} {log : GateLog}

theorem askPdp_meets (hnested : ∀ attempt, Keeps (KeepsOwn k) (nested attempt)) :
    Meets (askPdp draws binding py nested descriptor) log (fun _ => KeepsOwn k log) (KeepsOwn k log) := by
  refine Meets.read (Meets.seq ((lift_meets _).mono (fun _ _ h => h) fun _ h => congrArg (ownFacts k) h) ?_)
  rintro request _ ⟨-, rfl⟩
  exact Meets.write (Meets.of_after (run_keeps hnested (binding.pdp request) _))

end Evaluations

section Top

variable {draws : Draws} {binding : Binding} {py : Interpreter} {depth : ℕ} {descriptor : MutationDescriptor}
variable {mg : MetaguardResult} {log : GateLog}

structure Passed (binding : Binding) (depth : ℕ) (log : GateLog) (outcome : GateOutcome) (log' : GateLog) :
    Prop where
  verdict : outcome.verdict = some .permit
  floorCodes : outcome.floorCodes = []
  cautionCodes : outcome.cautionCodes = []
  mechanism : outcome.mechanism ∈ [.noChange, .stagePass, .registrationPass, .protectivePass]
  sealed : if sealsNothing outcome.mechanism then log' = log else SealedOne binding depth log log'

theorem fastPass_meets : Meets (fastPass draws binding depth descriptor mg) log
    (fun pass log' => match pass with
      | none => log' = log
      | some outcome => mg.fired = false ∧ Passed binding depth log outcome log') fun log' => log' = log := by
  unfold fastPass
  by_cases hfired : mg.fired = true
  · rw [if_pos hfired]
    exact Meets.ret rfl
  have hfired : mg.fired = false := Bool.eq_false_of_not_eq_true hfired
  rw [hfired, if_neg Bool.false_ne_true]
  refine Meets.seq (lift_meets _) ?_
  rintro stageWrite _ ⟨-, rfl⟩
  split
  · exact Meets.ret ⟨rfl, rfl, rfl, rfl, by simp [stageOutcome], rfl⟩
  refine Meets.seq (lift_meets _) ?_
  rintro newRegistration _ ⟨-, rfl⟩
  split
  · exact Meets.ret ⟨rfl, rfl, rfl, rfl, by simp [registrationOutcome], rfl⟩
  split
  · refine Meets.seq sealedOutcome_meets ?_
    rintro outcome log' ⟨hfollows, hsealed⟩
    refine Meets.ret ⟨rfl, hfollows.verdict, hfollows.floorCodes, hfollows.cautionCodes, ?_, ?_⟩
    · rw [hfollows.mechanism]
      simp [protectiveRuling]
    · rw [hfollows.mechanism]
      exact hsealed
  · exact Meets.ret rfl

structure Composed (binding : Binding) (depth : ℕ) (mg : MetaguardResult) (result : PdpResult) (log : GateLog)
    (outcome : GateOutcome) (log' : GateLog) : Prop where
  permitted : outcome.allowed = true → outcome.verdict = some .permit ∧ mg.fired = false ∧
    outcome.floorCodes = [] ∧ outcome.cautionCodes = [] ∧ result.verdict = .permit
  mechanism : outcome.mechanism = .pdpMetaguard
  sealed : SealedOne binding depth log log'

theorem composeGateVerdict_permit {pdpVerdict : Verdict} (h : composeGateVerdict pdpVerdict mg = .permit) :
    mg.floor = [] ∧ mg.caution = [] ∧ pdpVerdict = .permit := by
  unfold composeGateVerdict at h
  split at h
  · cases h
  · rename_i hfloor
    split at h
    · cases h
    · rename_i hcaution
      refine ⟨List.isEmpty_iff.mp (by simpa using hfloor), ?_, h⟩
      rw [h] at hcaution
      simpa using hcaution

theorem composedOutcome_meets (result : PdpResult) :
    Meets (composedOutcome draws binding depth descriptor mg result) log
      (fun outcome log' => Composed binding depth mg result log outcome log') fun log' => log' = log := by
  refine Meets.seq sealedOutcome_meets ?_
  rintro outcome log' ⟨hfollows, hsealed⟩
  refine Meets.ret ⟨fun hallowed => ?_, hfollows.mechanism, hsealed⟩
  have hfinal : composeGateVerdict result.verdict mg = .permit :=
    of_decide_eq_true (hfollows.allowed.symm.trans hallowed)
  obtain ⟨hfloor, hcaution, hverdict⟩ := composeGateVerdict_permit hfinal
  refine ⟨hfollows.verdict.trans (congrArg some hfinal), ?_, ?_, ?_, hverdict⟩
  · simp [MetaguardResult.fired, hfloor, hcaution]
  · refine hfollows.floorCodes.trans ?_
    simp [composedRuling, MetaguardResult.floorCodes, hfloor]
  · refine hfollows.cautionCodes.trans ?_
    simp [composedRuling, MetaguardResult.cautionCodes, hcaution]

theorem ownFacts_of_sealedOne {log₁ log₂ : GateLog} (h : SealedOne binding depth log₁ log₂)
    (hkeep : KeepsOwn depth log log₁) (hworking : Working binding) :
    ∃ fact, fact.kind = .enforcement ∧ ownFacts depth log₂ = ownFacts depth log ++ [fact] := by
  obtain ⟨fact, hkind, hown⟩ := h.own hworking
  exact ⟨fact, hkind, by rw [hown, hkeep]⟩

theorem passed_facts {outcome : GateOutcome} {log' : GateLog} (h : Passed binding depth log outcome log')
    (hworking : Working binding) :
    if sealsNothing outcome.mechanism then ownFacts depth log' = ownFacts depth log
    else ∃ fact, fact.kind = .enforcement ∧ ownFacts depth log' = ownFacts depth log ++ [fact] := by
  have hsealed := h.sealed
  by_cases hnothing : sealsNothing outcome.mechanism = true
  · rw [if_pos hnothing] at hsealed ⊢
    rw [hsealed]
  · rw [if_neg hnothing] at hsealed ⊢
    exact ownFacts_of_sealedOne hsealed rfl hworking

variable {source : Source}

theorem ruled_of_passed (hfirst : source.first = .ok descriptor) (hmg : evaluateMetaguard py descriptor = .ok mg)
    (hfired : mg.fired = false) {outcome : GateOutcome} {log' : GateLog}
    (h : Passed binding 0 log outcome log') : Ruled draws binding py 0 source log outcome log' where
  permitted _ := ⟨h.verdict, h.floorCodes, h.cautionCodes, ⟨_, _, hfirst, hmg, hfired⟩, .inl h.mechanism⟩
  backstop hdepth := absurd hdepth (lt_irrefl 0)
  sealed := passed_facts h

theorem gateBound_top (hfirst : source.first = .ok descriptor) :
    Meets (gateBound draws binding py (gateMutation draws binding py 1) 0 descriptor) log
      (Ruled draws binding py 0 source log) (KeepsOwn 0 log) := by
  refine Meets.seq ((lift_meets _).mono (fun _ _ h => h) fun _ h => congrArg (ownFacts 0) h) ?_
  rintro mg _ ⟨hmg, rfl⟩
  rename_i log
  by_cases hchange : mg.noChange = true
  · rw [if_pos hchange]
    exact Meets.ret (ruled_of_passed hfirst hmg (noChange_unfired hmg hchange)
      ⟨rfl, rfl, rfl, by simp [noChangeOutcome], rfl⟩)
  rw [if_neg hchange, if_neg (lt_irrefl 0)]
  refine Meets.seq (fastPass_meets.mono (fun _ _ h => h) fun _ h => congrArg (ownFacts 0) h) ?_
  rintro (_ | outcome) log₁ hpass
  · cases hpass
    have hnested : ∀ attempt, Keeps (KeepsOwn 0) (gateMutation draws binding py 1 attempt) :=
      gateWith_keeps Nat.one_pos Nat.zero_ne_one
    refine Meets.seq (askPdp_meets hnested).traced ?_
    rintro result log₁ ⟨hask, hkeep⟩
    refine (composedOutcome_meets result).mono ?_ fun _ h => (congrArg (ownFacts 0) h).trans hkeep
    intro outcome log' hcomposed
    refine ⟨fun hallowed => ?_, fun hdepth => absurd hdepth (lt_irrefl 0), fun hworking => ?_⟩
    · obtain ⟨hverdict, hfired, hfloor, hcaution, hpermit⟩ := hcomposed.permitted hallowed
      exact ⟨hverdict, hfloor, hcaution, ⟨_, _, hfirst, hmg, hfired⟩, .inr ⟨_, _, _, hfirst, hask, hpermit⟩⟩
    · rw [hcomposed.mechanism]
      exact ownFacts_of_sealedOne hcomposed.sealed hkeep hworking
  · obtain ⟨hfired, hpassed⟩ := hpass
    exact Meets.ret (ruled_of_passed hfirst hmg hfired hpassed)

end Top

section Levels

variable {draws : Draws} {binding : Binding} {py : Interpreter} {depth : ℕ} {source : Source} {log : GateLog}

theorem attempt_meets : Meets
    (lift source.first >>= gateBound draws binding py (gateMutation draws binding py (depth + 1)) depth) log
    (Ruled draws binding py depth source log)
    fun log' => KeepsOwn depth log log' ∧ (0 < depth → log'.asked = log.asked) := by
  refine Meets.seq ((lift_meets source.first).mono (fun _ _ h => h) fun _ h => ?_) ?_
  · exact ⟨congrArg _ h, fun _ => congrArg _ h⟩
  rintro descriptor log ⟨hfirst, rfl⟩
  cases depth with
  | zero => exact (gateBound_top hfirst).mono (fun _ _ h => h) fun _ h => ⟨h, fun hdepth => absurd hdepth (lt_irrefl 0)⟩
  | succ k =>
    refine (gateBound_backstop (Nat.succ_pos k)).mono ?_ fun _ h => ⟨congrArg _ h, fun _ => congrArg _ h⟩
    rintro outcome log' (⟨rfl, rfl, mg, hmg, hfired⟩ | hback)
    · exact ⟨fun _ => ⟨rfl, rfl, rfl, ⟨_, _, hfirst, hmg, hfired⟩, .inl (by simp [noChangeOutcome])⟩,
        fun _ => ⟨.inl rfl, rfl⟩, fun _ => rfl⟩
    · refine ⟨fun hallowed => absurd hallowed (by rw [hback.denied]; decide),
        fun _ => ⟨.inr hback.denied, hback.sealed.asked⟩, fun hworking => ?_⟩
      rw [hback.mechanism]
      exact hback.sealed.own hworking

theorem gate_meets : Meets (gateMutation draws binding py depth source) log
    (Ruled draws binding py depth source log) fun _ => ¬ Writable (fallback source) := by
  rw [gateMutation_eq]
  refine Meets.rescued attempt_meets ?_
  rintro log' ⟨hkeep, hasked⟩
  refine Meets.of_cases ?_ ?_
  · intro outcome log'' hrun
    obtain ⟨hfollows, hsealed⟩ := sealedOutcome_meets.of_ok hrun
    have hdenied : outcome.allowed = false := hfollows.allowed
    refine ⟨fun hallowed => absurd hallowed (by rw [hdenied]; decide),
      fun hdepth => ⟨.inr hdenied, hsealed.asked.trans (hasked hdepth)⟩, fun hworking => ?_⟩
    rw [hfollows.mechanism]
    exact ownFacts_of_sealedOne hsealed hkeep hworking
  · intro e log'' hrun hwritable
    obtain ⟨outcome, t, hok⟩ := @sealedOutcome_total draws binding depth _ failClosedRuling log' hwritable
    exact absurd (hrun.symm.trans hok) nofun

def RuledAlone (py : Interpreter) (depth : ℕ) (descriptor : MutationDescriptor) : Prop :=
  ∃ mg, evaluateMetaguard py descriptor = .ok mg ∧
    (mg.noChange = true ∨ (0 < depth ∧ Writable descriptor) ∨
      (depth = 0 ∧ mg.fired = false ∧
        ∃ stageWrite, descriptor.payload.get (txt "stage_write") = .ok stageWrite ∧
          (isTrue stageWrite = true ∨
            ∃ newRegistration, descriptor.payload.get (txt "new_registration") = .ok newRegistration ∧
              (isTrue newRegistration = true ∨ mg.protectivePass = true ∧ Writable descriptor))))

variable {nested : Source → Gate GateOutcome} {descriptor : MutationDescriptor}

theorem gateBound_total (h : RuledAlone py depth descriptor) :
    ∃ outcome log', gateBound draws binding py nested depth descriptor log = .ok outcome log' := by
  obtain ⟨mg, hmg, hruled⟩ := h
  have hlift : lift (evaluateMetaguard py descriptor) log = .ok mg log := by
    unfold lift
    rw [hmg]
  unfold gateBound
  rw [bind_ok hlift]
  by_cases hchange : mg.noChange = true
  · rw [if_pos hchange]
    exact ⟨_, _, rfl⟩
  rw [if_neg hchange]
  obtain hchange' | ⟨hdepth, hwritable⟩ | ⟨rfl, hfired, stageWrite, hstage, hrest⟩ := hruled
  · exact absurd hchange' hchange
  · obtain ⟨outcome, log', hseal⟩ := @sealedOutcome_total draws binding depth _ (backstopRuling mg) log hwritable
    rw [if_pos hdepth, bind_ok hseal]
    exact ⟨_, _, rfl⟩
  rw [if_neg (lt_irrefl 0)]
  suffices hpass : ∃ outcome log', fastPass draws binding 0 descriptor mg log = .ok (some outcome) log' by
    obtain ⟨outcome, log', hpass⟩ := hpass
    rw [bind_ok hpass]
    exact ⟨_, _, rfl⟩
  have hliftStage : lift (descriptor.payload.get (txt "stage_write")) log = .ok stageWrite log := by
    unfold lift
    rw [hstage]
  unfold fastPass
  rw [hfired, if_neg Bool.false_ne_true, bind_ok hliftStage]
  by_cases hstageTrue : isTrue stageWrite = true
  · rw [if_pos hstageTrue]
    exact ⟨_, _, rfl⟩
  rw [if_neg hstageTrue]
  obtain ⟨newRegistration, hnew, hlast⟩ := hrest.resolve_left hstageTrue
  have hliftNew : lift (descriptor.payload.get (txt "new_registration")) log = .ok newRegistration log := by
    unfold lift
    rw [hnew]
  rw [bind_ok hliftNew]
  by_cases hnewTrue : isTrue newRegistration = true
  · rw [if_pos hnewTrue]
    exact ⟨_, _, rfl⟩
  obtain ⟨hprotective, hwritable⟩ := hlast.resolve_left hnewTrue
  obtain ⟨outcome, log', hseal⟩ := @sealedOutcome_total draws binding 0 _ protectiveRuling log hwritable
  rw [if_neg hnewTrue, if_pos hprotective, bind_ok hseal]
  exact ⟨_, _, rfl⟩

end Levels

section Raising

variable {draws : Draws} {py : Interpreter} {depth : ℕ} {source : Source} {log : GateLog}

def failingBinding : Binding where
  pdp _ := .raises .other
  sealsDecisions := false
  ledger := some ⟨fun _ _ => .error .other⟩

theorem sealedOutcome_writable {descriptor : MutationDescriptor} {ruling : Ruling} :
    Meets (sealedOutcome draws failingBinding depth descriptor ruling) log (fun _ _ => Writable descriptor)
      fun _ => True := by
  refine Meets.of_cases (fun outcome log' hrun => ?_) fun _ _ _ => trivial
  by_contra hnot
  obtain ⟨e, herror⟩ := @sealedOutcome_raises draws failingBinding depth _ ruling log hnot _ rfl
  exact absurd (hrun.symm.trans herror) nofun

theorem lift_traced {α : Type} (x : Except PyErr α) :
    Meets (lift x) log (fun a _ => x = .ok a) fun _ => True :=
  (lift_meets x).mono (fun _ _ h => h.1) fun _ _ => trivial

theorem fastPass_ruledAlone {descriptor : MutationDescriptor} {mg : MetaguardResult}
    (hmg : evaluateMetaguard py descriptor = .ok mg) :
    Meets (fastPass draws failingBinding 0 descriptor mg) log
      (fun pass _ => pass = none ∨ RuledAlone py 0 descriptor) fun _ => True := by
  unfold fastPass
  by_cases hfired : mg.fired = true
  · rw [if_pos hfired]
    exact Meets.ret (.inl rfl)
  rw [if_neg hfired]
  refine Meets.seq (lift_traced _) fun stageWrite _ hstage => ?_
  have hfacts : (∃ newRegistration, descriptor.payload.get (txt "new_registration") = .ok newRegistration ∧
      (isTrue newRegistration = true ∨ mg.protectivePass = true ∧ Writable descriptor)) ∨
      isTrue stageWrite = true → RuledAlone py 0 descriptor := fun h =>
    ⟨mg, hmg, .inr (.inr ⟨rfl, Bool.eq_false_of_not_eq_true hfired, stageWrite, hstage, h.symm⟩)⟩
  by_cases hstageTrue : isTrue stageWrite = true
  · rw [if_pos hstageTrue]
    exact Meets.ret (.inr (hfacts (.inr hstageTrue)))
  rw [if_neg hstageTrue]
  refine Meets.seq (lift_traced _) fun newRegistration _ hnew => ?_
  by_cases hnewTrue : isTrue newRegistration = true
  · rw [if_pos hnewTrue]
    exact Meets.ret (.inr (hfacts (.inl ⟨_, hnew, .inl hnewTrue⟩)))
  rw [if_neg hnewTrue]
  by_cases hprotective : mg.protectivePass = true
  · rw [if_pos hprotective]
    exact Meets.seq sealedOutcome_writable fun _ _ hwritable =>
      Meets.ret (.inr (hfacts (.inl ⟨_, hnew, .inr ⟨hprotective, hwritable⟩⟩)))
  · rw [if_neg hprotective]
    exact Meets.ret (.inl rfl)

theorem gateBound_ruledAlone {nested : Source → Gate GateOutcome} {descriptor : MutationDescriptor} :
    Meets (gateBound draws failingBinding py nested depth descriptor) log
      (fun _ _ => RuledAlone py depth descriptor) fun _ => True := by
  refine Meets.seq (lift_traced _) fun mg log hmg => ?_
  by_cases hchange : mg.noChange = true
  · rw [if_pos hchange]
    exact Meets.ret ⟨mg, hmg, .inl hchange⟩
  rw [if_neg hchange]
  by_cases hdepth : 0 < depth
  · rw [if_pos hdepth]
    exact Meets.seq sealedOutcome_writable fun _ _ hwritable =>
      Meets.ret ⟨mg, hmg, .inr (.inl ⟨hdepth, hwritable⟩)⟩
  rw [if_neg hdepth]
  obtain rfl := Nat.eq_zero_of_not_pos hdepth
  refine Meets.seq (fastPass_ruledAlone hmg) ?_
  rintro (_ | outcome) log' hpass
  · -- the policy decision point raises
    refine Meets.seq (Q := fun _ _ => False) ?_ fun _ _ h => h.elim
    refine Meets.read (Meets.seq (lift_traced _) fun request _ _ => ?_)
    exact Meets.write trivial
  · exact Meets.ret (hpass.resolve_left nofun)

theorem writable_of_total (htotal : TotalAndFailClosed draws py depth source) :
    Writable (fallback source) ∨ ∃ descriptor, source.first = .ok descriptor ∧ RuledAlone py depth descriptor := by
  by_contra hnot
  obtain ⟨hwritable, halone⟩ := not_or.mp hnot
  obtain ⟨outcome, log', hrun, -⟩ := htotal failingBinding ⟨0, []⟩
  rw [gateMutation_eq] at hrun
  refine Meets.of_ok (Q := fun _ _ => False) (E := fun _ => True) ?_ hrun
  refine Meets.rescued (E := fun _ => True) ?_ fun log _ => ?_
  · refine Meets.seq (lift_traced source.first) fun descriptor log hfirst => ?_
    exact gateBound_ruledAlone.mono (fun _ _ h => halone ⟨descriptor, hfirst, h⟩) fun _ h => h
  · exact sealedOutcome_writable.mono (fun _ _ h => hwritable h) fun _ h => h

/-- What a call returns is ruled as it must be. A call never raises, whatever is bound, where
the fact of a failure can be written, and where no failure can come up. -/
theorem gate_total_iff (draws : Draws) (py : Interpreter) (depth : ℕ) (source : Source) :
    (∀ binding log outcome log', gateMutation draws binding py depth source log = .ok outcome log' →
      Ruled draws binding py depth source log outcome log') ∧
    (TotalAndFailClosed draws py depth source ↔
      Writable (fallback source) ∨ ∃ descriptor, source.first = .ok descriptor ∧ RuledAlone py depth descriptor) := by
  refine ⟨fun binding log outcome log' hrun => gate_meets.of_ok hrun, writable_of_total, ?_⟩
  intro hcondition binding log
  suffices hruns : ∃ outcome log', gateMutation draws binding py depth source log = .ok outcome log' by
    obtain ⟨outcome, log', hrun⟩ := hruns
    exact ⟨outcome, log', hrun, gate_meets.of_ok hrun⟩
  obtain hwritable | ⟨descriptor, hfirst, halone⟩ := hcondition
  · cases hrun : gateMutation draws binding py depth source log with
    | ok outcome log' => exact ⟨outcome, log', rfl⟩
    | error e log' => exact absurd hwritable (gate_meets.of_error hrun)
  · have hlift : lift source.first log = .ok descriptor log := by
      unfold lift
      rw [hfirst]
    obtain ⟨outcome, log', hrun⟩ :=
      @gateBound_total draws binding py depth log (gateMutation draws binding py (depth + 1)) descriptor halone
    refine ⟨outcome, log', ?_⟩
    rw [gateMutation_eq]
    exact rescue_ok ((bind_ok hlift _).trans hrun) _

theorem zeroText_number : PyJson.isNumberText (txt "0.0") = true := by decide

def plainInterpreter : Interpreter where
  fold := CaseFold.asciiFolding
  lower s := s.map CaseFold.lowerLetter
  lower_ascii _ _ := rfl
  display _ := []
  floatRepr _ := ⟨txt "0.0", zeroText_number⟩

def sampleUuid : Engine.Uuid := ⟨txt "00000000-0000-4000-8000-000000000000", by decide⟩

def plainDraws : Draws := ⟨fun _ => sampleUuid, fun _ => txt "2026-01-01T00:00:00+00:00"⟩

def nullPayload : MutationDescriptor where
  surface := txt "stores.policy_store.InMemoryPolicyStore.save"
  mutationClass := policyWrite
  subjectId := none
  payload := .null

def longSurface : MutationDescriptor where
  surface := List.replicate 201 (cp 's')
  mutationClass := policyWrite
  subjectId := none
  payload := .ofItems []

theorem unwritable_descriptors_raise : ¬ TotalAndFailClosed plainDraws plainInterpreter 0 (.of nullPayload) ∧
    ¬ TotalAndFailClosed plainDraws plainInterpreter 0 (.of longSurface) := by
  constructor
  · intro htotal
    have hmg : evaluateMetaguard plainInterpreter nullPayload = .ok ⟨[], [], false, false⟩ := by decide
    obtain ⟨⟨_, hdict⟩, -⟩ | ⟨descriptor, hfirst, mg, hmg', hruled⟩ := writable_of_total htotal
    · cases hdict
    cases hfirst
    cases hmg.symm.trans hmg'
    obtain hchange | ⟨hdepth, -⟩ | ⟨-, -, stageWrite, hstage, -⟩ := hruled
    · cases hchange
    · exact absurd hdepth (lt_irrefl 0)
    · cases hstage
  · intro htotal
    have hmg : evaluateMetaguard plainInterpreter longSurface = .ok ⟨[], [], false, false⟩ := by decide
    have hlong : ¬ fitsField 200 longSurface.surface := fun h => by
      have hlength : (List.replicate 201 (cp 's')).length ≤ 200 := h.1
      rw [List.length_replicate] at hlength
      omega
    obtain ⟨-, hsurface, -⟩ | ⟨descriptor, hfirst, mg, hmg', hruled⟩ := writable_of_total htotal
    · exact hlong hsurface
    cases hfirst
    cases hmg.symm.trans hmg'
    obtain hchange | ⟨hdepth, -⟩ | ⟨-, -, stageWrite, hstage, hrest⟩ := hruled
    · cases hchange
    · exact absurd hdepth (lt_irrefl 0)
    · cases hstage
      obtain hstage | ⟨newRegistration, hnew, hlast⟩ := hrest
      · cases hstage
      · cases hnew
        obtain hnew | ⟨hprotective, -⟩ := hlast
        · cases hnew
        · cases hprotective

end Raising

end TexGovernance.Selfgov
