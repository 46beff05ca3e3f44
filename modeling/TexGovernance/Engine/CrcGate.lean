import TexGovernance.Engine.PdpCaution
import Mathlib.Order.Bounds.Basic
import Mathlib.Data.List.TakeWhile
import Mathlib.Tactic.FieldSimp

/-!
# Calibrating the risk gate (`engine/crc_gate.py`)

The two sweeps over the grid, the collars and the constructor.
-/

namespace TexGovernance.Engine
open PyStr PyFloat

structure CalibrationRecord where
  finalScore : UnitScore
  isUnsafe : Bool

inductive GateError where
  | valueError (message : Str)
  | zeroDivisionError
  deriving DecidableEq

/-- `_SideCalibration`. -/
structure SideCalibration where
  cutoffGrid : ℚ
  empiricalMarginal : ℚ
  marginalUcb : ℚ
  empiricalSelective : ℚ
  selectiveUcb : ℚ
  nActed : ℕ

def uncertified (cutoffGrid : ℚ) : SideCalibration := ⟨cutoffGrid, 0, 1, 0, 1, 0⟩

def gridNodes (gridSize : ℤ) : Except GateError (List ℚ) :=
  if gridSize - 1 = 0 then .error .zeroDivisionError
  else .ok ((List.range gridSize.toNat).map fun (i : ℕ) => 1 - i / (gridSize - 1 : ℤ))

section Sweep

variable (ucb : ℚ → ℕ → ℚ → ℚ)

structure Side where
  acts : ℚ → ℚ → Bool
  wrong : CalibrationRecord → Bool

def permitSide : Side := ⟨fun lam s => s ≤ lam, fun c => c.isUnsafe⟩

def forbidSide : Side := ⟨fun lam s => lam ≤ s, fun c => !c.isUnsafe⟩

variable (side : Side) (calibration : List CalibrationRecord)

def Side.nActed (lam : ℚ) : ℕ := calibration.countP fun c => side.acts lam c.finalScore

def Side.hits (lam : ℚ) : ℕ := calibration.countP fun c => side.acts lam c.finalScore && side.wrong c

def Side.marginalRate (lam : ℚ) : ℚ := side.hits calibration lam / calibration.length

def Side.selectiveRate (lam : ℚ) : ℚ :=
  if 0 < side.nActed calibration lam then side.hits calibration lam / side.nActed calibration lam
  else 0

def Side.calibrated (delta lam : ℚ) : SideCalibration where
  cutoffGrid := lam
  empiricalMarginal := side.marginalRate calibration lam
  marginalUcb := ucb (side.marginalRate calibration lam) calibration.length delta
  empiricalSelective := side.selectiveRate calibration lam
  selectiveUcb := ucb (side.selectiveRate calibration lam) (side.nActed calibration lam) delta
  nActed := side.nActed calibration lam

def SideCalibration.gated (calibrated : SideCalibration) (selective : Bool) : ℚ :=
  if selective then calibrated.selectiveUcb else calibrated.marginalUcb

def Side.within (alpha delta : ℚ) (selective : Bool) (lam : ℚ) : Bool :=
  (side.calibrated ucb calibration delta lam).gated selective ≤ alpha

/-- `_calibrate`: the first node within the budget. -/
def calibrate (alpha delta : ℚ) (gridSize : ℤ) (selective : Bool) :
    Except GateError SideCalibration := do
  let nodes ← gridNodes gridSize
  match nodes.find? (permitSide.within ucb calibration alpha delta selective) with
  | some lam => return permitSide.calibrated ucb calibration delta lam
  | none => return uncertified (-1)

/-- `_calibrate_forbid`: the last node before the first that is not within the
budget. -/
def calibrateForbid (alphaForbid delta : ℚ) (gridSize : ℤ) (selective : Bool) :
    Except GateError SideCalibration := do
  let nodes ← gridNodes gridSize
  match (nodes.takeWhile
      (forbidSide.within ucb calibration alphaForbid delta selective)).getLast? with
  | some lam => return forbidSide.calibrated ucb calibration delta lam
  | none => return uncertified 2

end Sweep

def collarPermit (epsilon cutoffGrid : ℚ) : ℚ :=
  if cutoffGrid < 0 then -1
  else if 0 ≤ cutoffGrid - epsilon then cutoffGrid - epsilon else -1

def collarForbid (epsilon cutoffGrid : ℚ) : ℚ :=
  if 1 < cutoffGrid then 2
  else if cutoffGrid + epsilon ≤ 1 then cutoffGrid + epsilon else 2

structure TwoSidedGate extends ConformalRiskGate where
  empiricalRisk : ℚ
  n : ℕ
  delta : ℚ
  deltaForbid : ℚ
  epsilon : ℚ
  alphaForbid : ℚ
  lambdaForbid : ℚ
  empiricalForbidRisk : ℚ
  forbidRiskUcb : ℚ
  forbidCertified : Bool
  actedPermitUcb : ℚ
  actedForbidUcb : ℚ
  nActedPermit : ℕ
  nActedForbid : ℕ

structure GateArguments where
  calibration : Option (List CalibrationRecord)
  alpha : ℚ
  delta : ℚ
  alphaForbid : Option ℚ
  gridSize : ℤ
  deltaSplit : ℚ
  epsilonCollar : Option ℚ
  riskEstimand : Str

namespace GateArguments

def forbidBudget (args : GateArguments) : ℚ := args.alphaForbid.getD args.alpha

def deltaPermit (args : GateArguments) : ℚ := args.delta * args.deltaSplit

def deltaForbid (args : GateArguments) : ℚ := args.delta * (1 - args.deltaSplit)

def selective (args : GateArguments) : Bool := args.riskEstimand = txt "selective"

def epsilon (args : GateArguments) : Except GateError ℚ :=
  match args.epsilonCollar with
  | some epsilonCollar => .ok epsilonCollar
  | none =>
    if args.gridSize - 1 = 0 then .error .zeroDivisionError
    else .ok (1 / (args.gridSize - 1 : ℤ))

def insideUnit (q : ℚ) : Bool := 0 < q && q < 1

def validate (args : GateArguments) : Except GateError Unit :=
  if !insideUnit args.alpha then .error (.valueError (txt "alpha must be in (0, 1)"))
  else if !insideUnit args.delta then .error (.valueError (txt "delta must be in (0, 1)"))
  else if !insideUnit args.deltaSplit then
    .error (.valueError (txt "delta_split must be in (0, 1)"))
  else if args.riskEstimand ∉ [txt "marginal", txt "selective"] then
    .error (.valueError (txt "risk_estimand must be one of ('marginal', 'selective')"))
  else if !insideUnit args.forbidBudget then
    .error (.valueError (txt "alpha_forbid must be in (0, 1)"))
  else .ok ()

def inert (args : GateArguments) (epsilon : ℚ) : TwoSidedGate where
  enabled := false
  certified := false
  lambdaHat := 1
  alpha := args.alpha
  deltaPermit := args.deltaPermit
  riskUcb := 1
  riskEstimand := args.riskEstimand
  empiricalRisk := 0
  n := 0
  delta := args.delta
  deltaForbid := args.deltaForbid
  epsilon := epsilon
  alphaForbid := args.forbidBudget
  lambdaForbid := 2
  empiricalForbidRisk := 0
  forbidRiskUcb := 1
  forbidCertified := false
  actedPermitUcb := 1
  actedForbidUcb := 1
  nActedPermit := 0
  nActedForbid := 0

def calibratedGate (args : GateArguments) (epsilon : ℚ) (n : ℕ) (permit forbid : SideCalibration) :
    TwoSidedGate where
  enabled := true
  certified := 0 ≤ collarPermit epsilon permit.cutoffGrid
  lambdaHat := collarPermit epsilon permit.cutoffGrid
  alpha := args.alpha
  deltaPermit := args.deltaPermit
  riskUcb := permit.gated args.selective
  riskEstimand := args.riskEstimand
  empiricalRisk := permit.empiricalMarginal
  n := n
  delta := args.delta
  deltaForbid := args.deltaForbid
  epsilon := epsilon
  alphaForbid := args.forbidBudget
  lambdaForbid := collarForbid epsilon forbid.cutoffGrid
  empiricalForbidRisk := forbid.empiricalMarginal
  forbidRiskUcb := forbid.gated args.selective
  forbidCertified := collarForbid epsilon forbid.cutoffGrid ≤ 1
  actedPermitUcb := permit.selectiveUcb
  actedForbidUcb := forbid.selectiveUcb
  nActedPermit := permit.nActed
  nActedForbid := forbid.nActed

/-- `ConformalRiskGate.__init__`. -/
def construct (args : GateArguments) (ucb : ℚ → ℕ → ℚ → ℚ) : Except GateError TwoSidedGate := do
  args.validate
  let epsilon ← args.epsilon
  if epsilon < 0 then throw (.valueError (txt "epsilon_collar must be >= 0"))
  match args.calibration with
  | none | some [] => return args.inert epsilon
  | some (record :: records) =>
    let calibration := record :: records
    let permit ← calibrate ucb calibration args.alpha args.deltaPermit args.gridSize args.selective
    let forbid ← calibrateForbid ucb calibration args.forbidBudget args.deltaForbid args.gridSize
      args.selective
    return args.calibratedGate epsilon calibration.length permit forbid

end GateArguments

section Descending

variable {nodes : List ℚ} {p : ℚ → Bool}

theorem find?_isGreatest (hsorted : nodes.Pairwise (· ≥ ·)) {lam : ℚ}
    (h : nodes.find? p = some lam) : IsGreatest {x | x ∈ nodes ∧ p x = true} lam := by
  induction nodes with
  | nil => cases h
  | cons node nodes ih =>
    obtain ⟨hhead, htail⟩ := List.pairwise_cons.mp hsorted
    by_cases hp : p node = true
    · rw [List.find?_cons_of_pos hp] at h
      obtain rfl := Option.some.inj h
      refine ⟨⟨List.mem_cons_self .., hp⟩, fun x hx => ?_⟩
      rcases List.mem_cons.mp hx.1 with rfl | hmem
      · exact le_rfl
      · exact hhead x hmem
    · rw [List.find?_cons_of_neg hp] at h
      obtain ⟨⟨hmem, hlam⟩, hbound⟩ := ih htail h
      refine ⟨⟨List.mem_cons_of_mem _ hmem, hlam⟩, fun x hx => ?_⟩
      rcases List.mem_cons.mp hx.1 with rfl | hmem
      · exact absurd hx.2 hp
      · exact hbound ⟨hmem, hx.2⟩

theorem getLast?_isLeast (hsorted : nodes.Pairwise (· ≥ ·)) {lam : ℚ}
    (h : nodes.getLast? = some lam) : IsLeast {x | x ∈ nodes} lam := by
  refine ⟨List.mem_of_getLast? h, fun x hx => ?_⟩
  obtain ⟨front, rfl⟩ := List.getLast?_eq_some_iff.mp h
  rcases List.mem_append.mp hx with hx | hx
  · exact (List.pairwise_append.mp hsorted).2.2 x hx lam (List.mem_singleton.mpr rfl)
  · exact (List.mem_singleton.mp hx).ge

end Descending

theorem gridNodes_ok {gridSize : ℤ} (h : 2 ≤ gridSize) :
    ∃ nodes, gridNodes gridSize = .ok nodes ∧ nodes.Pairwise (· ≥ ·) ∧
      ∀ node ∈ nodes, 0 ≤ node ∧ node ≤ 1 := by
  have hpos : (0 : ℚ) < (gridSize - 1 : ℤ) := by
    have hint : 0 < gridSize - 1 := by omega
    exact_mod_cast hint
  unfold gridNodes
  rw [if_neg (by omega)]
  refine ⟨_, rfl, ?_, ?_⟩
  · rw [List.pairwise_map]
    refine List.pairwise_lt_range.imp fun {i j} hij => ?_
    have hcast : (i : ℚ) ≤ j := by exact_mod_cast hij.le
    have hdiv := div_le_div_of_nonneg_right hcast hpos.le
    linarith
  · intro node hnode
    obtain ⟨i, hi, rfl⟩ := List.mem_map.mp hnode
    have hlt : (i : ℤ) ≤ gridSize - 1 := by
      have hrange := List.mem_range.mp hi
      omega
    have hcast : (i : ℚ) ≤ (gridSize - 1 : ℤ) := by exact_mod_cast hlt
    have hdiv : (i : ℚ) / (gridSize - 1 : ℤ) ≤ 1 := (div_le_one hpos).mpr hcast
    have hnonneg : 0 ≤ (i : ℚ) / (gridSize - 1 : ℤ) := div_nonneg (Nat.cast_nonneg i) hpos.le
    constructor <;> linarith

section Rates

variable {side : Side} {calibration : List CalibrationRecord}

end Rates

section Certified

variable {ucb : ℚ → ℕ → ℚ → ℚ} {side : Side} {calibration : List CalibrationRecord}
variable {alpha delta : ℚ}

end Certified

section Construct

variable {ucb : ℚ → ℕ → ℚ → ℚ} {args : GateArguments}

theorem calibrate_returns (calibration : List CalibrationRecord) (alpha delta : ℚ) {gridSize : ℤ}
    (hgrid : 2 ≤ gridSize) (selective : Bool) :
    (∃ permit, calibrate ucb calibration alpha delta gridSize selective = .ok permit) ∧
      ∃ forbid, calibrateForbid ucb calibration alpha delta gridSize selective = .ok forbid := by
  obtain ⟨nodes, hnodes, -⟩ := gridNodes_ok hgrid
  unfold calibrate calibrateForbid
  rw [hnodes]
  simp only [bind, Except.bind]
  constructor
  · split <;> exact ⟨_, rfl⟩
  · split <;> exact ⟨_, rfl⟩

theorem construct_returns (ucb : ℚ → ℕ → ℚ → ℚ) (hgrid : 2 ≤ args.gridSize)
    (hvalid : args.validate = .ok ()) {epsilon : ℚ} (hepsilon : args.epsilon = .ok epsilon)
    (hnonneg : 0 ≤ epsilon) : ∃ gate, args.construct ucb = .ok gate := by
  unfold GateArguments.construct
  rw [hvalid, hepsilon]
  simp only [bind, Except.bind, pure, Except.pure]
  rw [if_neg (not_lt.mpr hnonneg)]
  split
  · exact ⟨_, rfl⟩
  · exact ⟨_, rfl⟩
  · rename_i record records _
    obtain ⟨⟨permit, hpermit⟩, -⟩ := @calibrate_returns ucb (record :: records)
      args.alpha args.deltaPermit _ hgrid args.selective
    obtain ⟨-, forbid, hforbid⟩ := @calibrate_returns ucb (record :: records)
      args.forbidBudget args.deltaForbid _ hgrid args.selective
    rw [hpermit, hforbid]
    exact ⟨_, rfl⟩

theorem construct_ok {calibration : List CalibrationRecord} {gate : TwoSidedGate}
    (hcalibration : args.calibration = some calibration) (hne : calibration ≠ [])
    (h : args.construct ucb = .ok gate) :
    ∃ epsilon permit forbid, (args.epsilon = .ok epsilon ∧ 0 ≤ epsilon) ∧
      calibrate ucb calibration args.alpha args.deltaPermit args.gridSize args.selective = .ok permit ∧
      calibrateForbid ucb calibration args.forbidBudget args.deltaForbid args.gridSize
        args.selective = .ok forbid ∧
      gate = args.calibratedGate epsilon calibration.length permit forbid := by
  unfold GateArguments.construct at h
  obtain ⟨-, -, h⟩ := Pipeline.bind_ok h
  obtain ⟨epsilon, hepsilon, h⟩ := Pipeline.bind_ok h
  by_cases hneg : epsilon < 0
  · rw [if_pos hneg] at h
    cases h
  · rw [if_neg hneg] at h
    rw [hcalibration] at h
    cases calibration with
    | nil => exact absurd rfl hne
    | cons record records =>
      obtain ⟨permit, hpermit, h⟩ := Pipeline.bind_ok h
      obtain ⟨forbid, hforbid, h⟩ := Pipeline.bind_ok h
      exact ⟨epsilon, permit, forbid, ⟨hepsilon, not_lt.mp hneg⟩, hpermit, hforbid, (Except.ok.inj h).symm⟩

end Construct

theorem apply_keeps {gate : ConformalRiskGate} (henabled : gate.enabled = true) {finalScore : ℚ}
    (h : (gate.apply .permit finalScore).verdict = .permit) :
    gate.certified = true ∧ finalScore ≤ gate.lambdaHat := by
  unfold ConformalRiskGate.apply at h
  rw [if_neg (by simp [henabled])] at h
  split at h
  · rename_i hcertified
    exact hcertified
  · cases h

def sampleUcb (rate : ℚ) (n : ℕ) (_delta : ℚ) : ℚ := min 1 (rate + 1 / (n + 1))

def sampleArguments (calibration : List CalibrationRecord) : GateArguments where
  calibration := some calibration
  alpha := 3 / 10
  delta := 5 / 100
  alphaForbid := none
  gridSize := 11
  deltaSplit := 1 / 2
  epsilonCollar := none
  riskEstimand := txt "marginal"

def sampleRecords : List CalibrationRecord :=
  List.replicate 4 ⟨⟨2 / 10, by norm_num⟩, false⟩ ++ List.replicate 4 ⟨⟨9 / 10, by norm_num⟩, true⟩

def rounded6 (q : ℚ) : ℚ := roundHalfEven (q * 10 ^ 6) / 10 ^ 6

def clampUnit (q : ℚ) : ℚ := min 1 (max 0 q)

/-- The figures of `certificate_template` about the sets acted on. -/
structure ActedFigures where
  actedSetFalsePermitRate : ℚ
  actedSetFalseForbidRate : ℚ
  nActedPermit : ℕ
  nActedForbid : ℕ

def TwoSidedGate.certificateTemplate (gate : TwoSidedGate) : ActedFigures where
  actedSetFalsePermitRate := rounded6 (clampUnit (if gate.certified then gate.actedPermitUcb else 1))
  actedSetFalseForbidRate :=
    rounded6 (clampUnit (if gate.forbidCertified then gate.actedForbidUcb else 1))
  nActedPermit := if gate.certified then gate.nActedPermit else 0
  nActedForbid := if gate.forbidCertified then gate.nActedForbid else 0

def Side.regionUcb (ucb : ℚ → ℕ → ℚ → ℚ) (side : Side) (calibration : List CalibrationRecord)
    (delta lam : ℚ) : ℚ :=
  ucb (side.selectiveRate calibration lam) (side.nActed calibration lam) delta

structure DescribesActed (ucb : ℚ → ℕ → ℚ → ℚ) (args : GateArguments)
    (calibration : List CalibrationRecord) (gate : TwoSidedGate) : Prop where
  permit : gate.certified = true →
    gate.certificateTemplate.actedSetFalsePermitRate =
      rounded6 (clampUnit (permitSide.regionUcb ucb calibration args.deltaPermit gate.lambdaHat)) ∧
    gate.certificateTemplate.nActedPermit = permitSide.nActed calibration gate.lambdaHat
  forbid : gate.forbidCertified = true →
    gate.certificateTemplate.actedSetFalseForbidRate =
      rounded6 (clampUnit (forbidSide.regionUcb ucb calibration args.deltaForbid gate.lambdaForbid)) ∧
    gate.certificateTemplate.nActedForbid = forbidSide.nActed calibration gate.lambdaForbid
  selective : args.selective = true → ∀ finalScore,
    (gate.apply .permit finalScore).verdict = .permit →
      permitSide.regionUcb ucb calibration args.deltaPermit gate.lambdaHat ≤ args.alpha

/-- The highest node within the budget leaves no record in the collar below it. -/
def PermitCollarEmpty (ucb : ℚ → ℕ → ℚ → ℚ) (args : GateArguments)
    (calibration : List CalibrationRecord) : Prop :=
  ∀ epsilon nodes node, args.epsilon = .ok epsilon → gridNodes args.gridSize = .ok nodes →
    IsGreatest {x | x ∈ nodes ∧ permitSide.within ucb calibration args.alpha args.deltaPermit
      args.selective x = true} node →
    epsilon ≤ node → ∀ c ∈ calibration, ¬ (node - epsilon < c.finalScore ∧ c.finalScore ≤ node)

/-- The lowest node down to which all are within the budget leaves no record in
the collar above it. -/
def ForbidCollarEmpty (ucb : ℚ → ℕ → ℚ → ℚ) (args : GateArguments)
    (calibration : List CalibrationRecord) : Prop :=
  ∀ epsilon nodes node, args.epsilon = .ok epsilon → gridNodes args.gridSize = .ok nodes →
    IsLeast {x | x ∈ nodes ∧ ∀ y ∈ nodes, x ≤ y → forbidSide.within ucb calibration args.forbidBudget
      args.deltaForbid args.selective y = true} node →
    node + epsilon ≤ 1 → ∀ c ∈ calibration, ¬ (node ≤ c.finalScore ∧ c.finalScore < node + epsilon)

section Acted

variable {side : Side} {calibration : List CalibrationRecord} {lam lam' : ℚ}

theorem figures_congr (h : ∀ c ∈ calibration, side.acts lam c.finalScore = side.acts lam' c.finalScore) :
    side.nActed calibration lam = side.nActed calibration lam' ∧
      side.selectiveRate calibration lam = side.selectiveRate calibration lam' := by
  have hacted : side.nActed calibration lam = side.nActed calibration lam' :=
    List.countP_congr fun c hc => by rw [h c hc]
  have hhits : side.hits calibration lam = side.hits calibration lam' :=
    List.countP_congr fun c hc => by rw [h c hc]
  refine ⟨hacted, ?_⟩
  unfold Side.selectiveRate
  rw [hacted, hhits]

theorem acts_of_nActed (hsub : ∀ s, side.acts lam s = true → side.acts lam' s = true)
    (h : side.nActed calibration lam' = side.nActed calibration lam) :
    ∀ c ∈ calibration, side.acts lam' c.finalScore = true → side.acts lam c.finalScore = true := by
  unfold Side.nActed at h
  rw [List.countP_eq_length_filter, List.countP_eq_length_filter] at h
  have hsublist : (calibration.filter fun c => side.acts lam c.finalScore).Sublist
      (calibration.filter fun c => side.acts lam' c.finalScore) :=
    List.monotone_filter_right _ fun c hc => hsub _ hc
  have heq := hsublist.eq_of_length h.symm
  intro c hc hacts
  have hmem : c ∈ calibration.filter fun c => side.acts lam' c.finalScore :=
    List.mem_filter.mpr ⟨hc, hacts⟩
  rw [← heq] at hmem
  exact (List.mem_filter.mp hmem).2

theorem figures_iff (ucb : ℚ → ℕ → ℚ → ℚ) (delta : ℚ)
    (hsub : ∀ s, side.acts lam' s = true → side.acts lam s = true) :
    (rounded6 (clampUnit (side.regionUcb ucb calibration delta lam)) =
        rounded6 (clampUnit (side.regionUcb ucb calibration delta lam')) ∧
      side.nActed calibration lam = side.nActed calibration lam') ↔
    ∀ c ∈ calibration, side.acts lam c.finalScore = side.acts lam' c.finalScore := by
  constructor
  · intro h c hc
    rw [Bool.eq_iff_iff]
    exact ⟨acts_of_nActed hsub h.2 c hc, hsub _⟩
  · intro h
    obtain ⟨hacted, hrate⟩ := figures_congr h
    refine ⟨?_, hacted⟩
    unfold Side.regionUcb
    rw [hacted, hrate]

end Acted

section Collars

variable {ucb : ℚ → ℕ → ℚ → ℚ} {args : GateArguments} {calibration : List CalibrationRecord}
variable {epsilon node : ℚ} {nodes : List ℚ} {permit forbid : SideCalibration}

theorem gridNodes_sorted {gridSize : ℤ} (h : gridNodes gridSize = .ok nodes) :
    nodes.Pairwise (· ≥ ·) ∧ ∀ node ∈ nodes, 0 ≤ node ∧ node ≤ 1 := by
  by_cases hgrid : 2 ≤ gridSize
  · obtain ⟨nodes', hnodes, hsorted, hunit⟩ := gridNodes_ok hgrid
    obtain rfl := Except.ok.inj (h.symm.trans hnodes)
    exact ⟨hsorted, hunit⟩
  · -- one node divides by zero, fewer are none
    unfold gridNodes at h
    split at h
    · cases h
    · obtain rfl := Except.ok.inj h
      rw [Int.toNat_eq_zero.mpr (by omega)]
      exact ⟨.nil, by simp⟩

theorem mem_takeWhile_iff {p : ℚ → Bool} (hsorted : nodes.Pairwise (· ≥ ·)) (x : ℚ) :
    x ∈ nodes.takeWhile p ↔ x ∈ nodes ∧ ∀ y ∈ nodes, x ≤ y → p y = true := by
  induction nodes with
  | nil => simp
  | cons head rest ih =>
    obtain ⟨hhead, htail⟩ := List.pairwise_cons.mp hsorted
    by_cases hp : p head = true
    · rw [List.takeWhile_cons_of_pos hp, List.mem_cons, List.mem_cons, ih htail]
      constructor
      · rintro (rfl | ⟨hmem, hall⟩)
        · refine ⟨.inl rfl, fun y hy hle => ?_⟩
          rcases List.mem_cons.mp hy with rfl | hy
          · exact hp
          · rwa [le_antisymm (hhead y hy) hle]
        · exact ⟨.inr hmem, List.forall_mem_cons.mpr ⟨fun _ => hp, hall⟩⟩
      · rintro ⟨rfl | hmem, hall⟩
        · exact .inl rfl
        · exact .inr ⟨hmem, fun y hy => hall y (List.mem_cons_of_mem _ hy)⟩
    · rw [List.takeWhile_cons_of_neg hp]
      refine iff_of_false List.not_mem_nil fun ⟨hmem, hall⟩ => hp (hall head (List.mem_cons_self ..) ?_)
      rcases List.mem_cons.mp hmem with rfl | hmem
      · exact le_rfl
      · exact hhead x hmem

theorem collarPermit_of_le (hnode : 0 ≤ node) (h : epsilon ≤ node) :
    collarPermit epsilon node = node - epsilon := by
  unfold collarPermit
  rw [if_neg (not_lt.mpr hnode), if_pos (sub_nonneg.mpr h)]

theorem le_of_collarPermit (h : 0 ≤ collarPermit epsilon node) : 0 ≤ node ∧ epsilon ≤ node := by
  unfold collarPermit at h
  split at h
  · norm_num at h
  · split at h
    · exact ⟨by linarith, by linarith⟩
    · norm_num at h

theorem collarForbid_of_le (hnode : node ≤ 1) (h : node + epsilon ≤ 1) :
    collarForbid epsilon node = node + epsilon := by
  unfold collarForbid
  rw [if_neg (not_lt.mpr hnode), if_pos h]

theorem le_of_collarForbid (h : collarForbid epsilon node ≤ 1) : node ≤ 1 ∧ node + epsilon ≤ 1 := by
  unfold collarForbid at h
  split at h
  · norm_num at h
  · split at h
    · exact ⟨by linarith, by linarith⟩
    · norm_num at h

theorem permitCollar_iff (hepsilon : 0 ≤ epsilon) :
    (∀ c ∈ calibration, ¬ (node - epsilon < c.finalScore ∧ c.finalScore ≤ node)) ↔
      ∀ c ∈ calibration, permitSide.acts node c.finalScore = permitSide.acts (node - epsilon) c.finalScore := by
  refine forall₂_congr fun c _ => ?_
  rw [Bool.eq_iff_iff]
  simp only [permitSide, decide_eq_true_eq]
  constructor
  · exact fun h => ⟨fun hle => not_lt.mp fun hlt => h ⟨hlt, hle⟩, fun hle => by linarith⟩
  · exact fun h ⟨hlt, hle⟩ => absurd (h.mp hle) (not_le.mpr hlt)

theorem forbidCollar_iff (hepsilon : 0 ≤ epsilon) :
    (∀ c ∈ calibration, ¬ (node ≤ c.finalScore ∧ c.finalScore < node + epsilon)) ↔
      ∀ c ∈ calibration, forbidSide.acts node c.finalScore = forbidSide.acts (node + epsilon) c.finalScore := by
  refine forall₂_congr fun c _ => ?_
  rw [Bool.eq_iff_iff]
  simp only [forbidSide, decide_eq_true_eq]
  constructor
  · exact fun h => ⟨fun hle => not_lt.mp fun hlt => h ⟨hle, hlt⟩, fun hle => by linarith⟩
  · exact fun h ⟨hle, hlt⟩ => absurd (h.mp hle) (not_le.mpr hlt)

theorem calibrate_node {selective : Bool} {alpha delta : ℚ} {gridSize : ℤ}
    (h : calibrate ucb calibration alpha delta gridSize selective = .ok permit) :
    ∃ nodes, gridNodes gridSize = .ok nodes ∧
      ((permit = uncertified (-1) ∧ ∀ node, ¬ IsGreatest {x | x ∈ nodes ∧
          permitSide.within ucb calibration alpha delta selective x = true} node) ∨
        ∃ node, IsGreatest {x | x ∈ nodes ∧
          permitSide.within ucb calibration alpha delta selective x = true} node ∧ 0 ≤ node ∧
          permit = permitSide.calibrated ucb calibration delta node) := by
  obtain ⟨nodes, hnodes, h⟩ := Pipeline.bind_ok h
  obtain ⟨hsorted, hunit⟩ := gridNodes_sorted hnodes
  refine ⟨nodes, hnodes, ?_⟩
  cases hfound : nodes.find? (permitSide.within ucb calibration alpha delta selective) with
  | none =>
    simp only [hfound] at h
    exact .inl ⟨(Except.ok.inj h).symm, fun node hnode => List.find?_eq_none.mp hfound node hnode.1.1 hnode.1.2⟩
  | some node =>
    simp only [hfound] at h
    have hgreatest := find?_isGreatest hsorted hfound
    exact .inr ⟨node, hgreatest, (hunit node hgreatest.1.1).1, (Except.ok.inj h).symm⟩

theorem calibrateForbid_node {selective : Bool} {alpha delta : ℚ} {gridSize : ℤ}
    (h : calibrateForbid ucb calibration alpha delta gridSize selective = .ok forbid) :
    ∃ nodes, gridNodes gridSize = .ok nodes ∧
      ((forbid = uncertified 2 ∧ ∀ node, ¬ IsLeast {x | x ∈ nodes ∧ ∀ y ∈ nodes, x ≤ y →
          forbidSide.within ucb calibration alpha delta selective y = true} node) ∨
        ∃ node, IsLeast {x | x ∈ nodes ∧ ∀ y ∈ nodes, x ≤ y →
          forbidSide.within ucb calibration alpha delta selective y = true} node ∧ node ≤ 1 ∧
          forbid = forbidSide.calibrated ucb calibration delta node) := by
  obtain ⟨nodes, hnodes, h⟩ := Pipeline.bind_ok h
  obtain ⟨hsorted, hunit⟩ := gridNodes_sorted hnodes
  have hset : {x | x ∈ nodes ∧ ∀ y ∈ nodes, x ≤ y →
      forbidSide.within ucb calibration alpha delta selective y = true} =
        {x | x ∈ nodes.takeWhile (forbidSide.within ucb calibration alpha delta selective)} :=
    Set.ext fun x => (mem_takeWhile_iff hsorted x).symm
  refine ⟨nodes, hnodes, ?_⟩
  rw [hset]
  cases hfound : (nodes.takeWhile (forbidSide.within ucb calibration alpha delta selective)).getLast? with
  | none =>
    simp only [hfound] at h
    rw [List.getLast?_eq_none_iff] at hfound
    refine .inl ⟨(Except.ok.inj h).symm, fun node hnode => ?_⟩
    rw [hfound] at hnode
    exact List.not_mem_nil hnode.1
  | some node =>
    simp only [hfound] at h
    have hleast := getLast?_isLeast (hsorted.sublist (List.takeWhile_sublist _)) hfound
    exact .inr ⟨node, hleast, (hunit node (List.takeWhile_subset _ hleast.1)).2, (Except.ok.inj h).symm⟩

theorem permitCollarEmpty_iff (hepsilon : args.epsilon = .ok epsilon) (hnonneg : 0 ≤ epsilon)
    (hnodes : gridNodes args.gridSize = .ok nodes)
    (hnode : IsGreatest {x | x ∈ nodes ∧ permitSide.within ucb calibration args.alpha args.deltaPermit
      args.selective x = true} node) :
    PermitCollarEmpty ucb args calibration ↔ (epsilon ≤ node → ∀ c ∈ calibration,
      permitSide.acts node c.finalScore = permitSide.acts (node - epsilon) c.finalScore) := by
  rw [← permitCollar_iff hnonneg]
  refine ⟨fun h => h epsilon nodes node hepsilon hnodes hnode, fun h epsilon' nodes' node' he hn hg => ?_⟩
  obtain rfl := Except.ok.inj (hepsilon.symm.trans he)
  obtain rfl := Except.ok.inj (hnodes.symm.trans hn)
  rwa [hg.unique hnode]

theorem forbidCollarEmpty_iff (hepsilon : args.epsilon = .ok epsilon) (hnonneg : 0 ≤ epsilon)
    (hnodes : gridNodes args.gridSize = .ok nodes)
    (hnode : IsLeast {x | x ∈ nodes ∧ ∀ y ∈ nodes, x ≤ y → forbidSide.within ucb calibration
      args.forbidBudget args.deltaForbid args.selective y = true} node) :
    ForbidCollarEmpty ucb args calibration ↔ (node + epsilon ≤ 1 → ∀ c ∈ calibration,
      forbidSide.acts node c.finalScore = forbidSide.acts (node + epsilon) c.finalScore) := by
  rw [← forbidCollar_iff hnonneg]
  refine ⟨fun h => h epsilon nodes node hepsilon hnodes hnode, fun h epsilon' nodes' node' he hn hg => ?_⟩
  obtain rfl := Except.ok.inj (hepsilon.symm.trans he)
  obtain rfl := Except.ok.inj (hnodes.symm.trans hn)
  rwa [hg.unique hnode]

theorem permit_described_iff (ucb : ℚ → ℕ → ℚ → ℚ) (args : GateArguments) (n : ℕ)
    (forbid : SideCalibration) (hepsilon : args.epsilon = .ok epsilon) (hnonneg : 0 ≤ epsilon)
    (hpermit : calibrate ucb calibration args.alpha args.deltaPermit args.gridSize args.selective =
      .ok permit) :
    let gate := args.calibratedGate epsilon n permit forbid
    (gate.certified = true →
      gate.certificateTemplate.actedSetFalsePermitRate =
        rounded6 (clampUnit (permitSide.regionUcb ucb calibration args.deltaPermit gate.lambdaHat)) ∧
      gate.certificateTemplate.nActedPermit = permitSide.nActed calibration gate.lambdaHat) ↔
    PermitCollarEmpty ucb args calibration := by
  intro gate
  have hcertified : gate.certified = true ↔ 0 ≤ collarPermit epsilon permit.cutoffGrid :=
    decide_eq_true_iff
  obtain ⟨nodes, hnodes, ⟨rfl, hnone⟩ | ⟨node, hnode, hunit, rfl⟩⟩ := calibrate_node hpermit
  · refine iff_of_true (fun h => ?_) fun epsilon' nodes' node _ hn hg => ?_
    · exact absurd (le_of_collarPermit (hcertified.mp h)).1 (by norm_num [uncertified])
    · obtain rfl := Except.ok.inj (hnodes.symm.trans hn)
      exact absurd hg (hnone node)
  · rw [permitCollarEmpty_iff hepsilon hnonneg hnodes hnode]
    have hle : gate.certified = true ↔ epsilon ≤ node := by
      refine ⟨fun h => (le_of_collarPermit (hcertified.mp h)).2, fun h => hcertified.mpr ?_⟩
      exact (collarPermit_of_le hunit h).symm ▸ sub_nonneg.mpr h
    rw [hle]
    refine forall_congr' fun hin => ?_
    have hcutoff : gate.lambdaHat = node - epsilon := collarPermit_of_le hunit hin
    simp only [TwoSidedGate.certificateTemplate, hle.mpr hin, if_true, hcutoff]
    refine figures_iff ucb args.deltaPermit fun s hs => ?_
    simp only [permitSide, decide_eq_true_eq] at hs ⊢
    linarith

theorem forbid_described_iff (ucb : ℚ → ℕ → ℚ → ℚ) (args : GateArguments) (n : ℕ)
    (permit : SideCalibration) (hepsilon : args.epsilon = .ok epsilon) (hnonneg : 0 ≤ epsilon)
    (hforbid : calibrateForbid ucb calibration args.forbidBudget args.deltaForbid args.gridSize
      args.selective = .ok forbid) :
    let gate := args.calibratedGate epsilon n permit forbid
    (gate.forbidCertified = true →
      gate.certificateTemplate.actedSetFalseForbidRate =
        rounded6 (clampUnit (forbidSide.regionUcb ucb calibration args.deltaForbid gate.lambdaForbid)) ∧
      gate.certificateTemplate.nActedForbid = forbidSide.nActed calibration gate.lambdaForbid) ↔
    ForbidCollarEmpty ucb args calibration := by
  intro gate
  have hcertified : gate.forbidCertified = true ↔ collarForbid epsilon forbid.cutoffGrid ≤ 1 :=
    decide_eq_true_iff
  obtain ⟨nodes, hnodes, ⟨rfl, hnone⟩ | ⟨node, hnode, hunit, rfl⟩⟩ := calibrateForbid_node hforbid
  · refine iff_of_true (fun h => ?_) fun epsilon' nodes' node _ hn hg => ?_
    · exact absurd (le_of_collarForbid (hcertified.mp h)).1 (by norm_num [uncertified])
    · obtain rfl := Except.ok.inj (hnodes.symm.trans hn)
      exact absurd hg (hnone node)
  · rw [forbidCollarEmpty_iff hepsilon hnonneg hnodes hnode]
    have hle : gate.forbidCertified = true ↔ node + epsilon ≤ 1 := by
      refine ⟨fun h => (le_of_collarForbid (hcertified.mp h)).2, fun h => hcertified.mpr ?_⟩
      exact (collarForbid_of_le hunit h).symm ▸ h
    rw [hle]
    refine forall_congr' fun hin => ?_
    have hcutoff : gate.lambdaForbid = node + epsilon := collarForbid_of_le hunit hin
    simp only [TwoSidedGate.certificateTemplate, hle.mpr hin, if_true, hcutoff]
    refine figures_iff ucb args.deltaForbid fun s hs => ?_
    simp only [forbidSide, decide_eq_true_eq] at hs ⊢
    linarith

theorem region_within {n : ℕ} (hepsilon : args.epsilon = .ok epsilon) (hnonneg : 0 ≤ epsilon)
    (hpermit : calibrate ucb calibration args.alpha args.deltaPermit args.gridSize args.selective =
      .ok permit) (hempty : PermitCollarEmpty ucb args calibration) (hselective : args.selective = true)
    (hcertified : (args.calibratedGate epsilon n permit forbid).certified = true) :
    permitSide.regionUcb ucb calibration args.deltaPermit
      (args.calibratedGate epsilon n permit forbid).lambdaHat ≤ args.alpha := by
  have hcollar : 0 ≤ collarPermit epsilon permit.cutoffGrid := of_decide_eq_true hcertified
  obtain ⟨nodes, hnodes, ⟨rfl, -⟩ | ⟨node, hnode, hunit, rfl⟩⟩ := calibrate_node hpermit
  · exact absurd (le_of_collarPermit hcollar).1 (by norm_num [uncertified])
  · have hin : epsilon ≤ node := (le_of_collarPermit hcollar).2
    have hcutoff : (args.calibratedGate epsilon n
        (permitSide.calibrated ucb calibration args.deltaPermit node) forbid).lambdaHat = node - epsilon :=
      collarPermit_of_le hunit hin
    obtain ⟨hacted, hrate⟩ :=
      figures_congr ((permitCollarEmpty_iff hepsilon hnonneg hnodes hnode).mp hempty hin)
    have hwithin := hnode.1.2
    unfold Side.within SideCalibration.gated at hwithin
    rw [hselective, decide_eq_true_eq] at hwithin
    rw [hcutoff, Side.regionUcb, ← hacted, ← hrate]
    exact hwithin

theorem construct_nil {gate : TwoSidedGate} (hcalibration : args.calibration = some [])
    (h : args.construct ucb = .ok gate) : gate.enabled = false := by
  unfold GateArguments.construct at h
  obtain ⟨-, -, h⟩ := Pipeline.bind_ok h
  obtain ⟨epsilon, -, h⟩ := Pipeline.bind_ok h
  by_cases hneg : epsilon < 0
  · rw [if_pos hneg] at h
    cases h
  · rw [if_neg hneg] at h
    rw [hcalibration] at h
    rw [← Except.ok.inj h]
    rfl

end Collars

/-- The certificate of a calibrated gate describes the regions that the gate
acts on exactly if the collars hold no calibration record. -/
theorem describes_acted_iff (ucb : ℚ → ℕ → ℚ → ℚ) (args : GateArguments)
    (calibration : List CalibrationRecord) (gate : TwoSidedGate)
    (hcalibration : args.calibration = some calibration) (h : args.construct ucb = .ok gate)
    (henabled : gate.enabled = true) :
    DescribesActed ucb args calibration gate ↔
      PermitCollarEmpty ucb args calibration ∧ ForbidCollarEmpty ucb args calibration := by
  have hne : calibration ≠ [] := by
    rintro rfl
    rw [construct_nil hcalibration h] at henabled
    cases henabled
  obtain ⟨epsilon, permit, forbid, ⟨hepsilon, hnonneg⟩, hpermit, hforbid, hgate⟩ :=
    construct_ok hcalibration hne h
  subst hgate
  have hforbids : (_ → _) ↔ ForbidCollarEmpty ucb args calibration :=
    forbid_described_iff ucb args calibration.length permit hepsilon hnonneg hforbid
  have hpermits : (_ → _) ↔ PermitCollarEmpty ucb args calibration :=
    permit_described_iff ucb args calibration.length forbid hepsilon hnonneg hpermit
  constructor
  · exact fun h => ⟨hpermits.mp h.permit, hforbids.mp h.forbid⟩
  · rintro ⟨hempty, hempty'⟩
    exact ⟨hpermits.mpr hempty, hforbids.mpr hempty', fun hselective finalScore hkept =>
      region_within hepsilon hnonneg hpermit hempty hselective (apply_keeps rfl hkept).1⟩

theorem describes_acted_iff_sample :
    ∃ gate, (sampleArguments sampleRecords).construct sampleUcb = .ok gate ∧
      (DescribesActed sampleUcb (sampleArguments sampleRecords) sampleRecords gate ↔
        PermitCollarEmpty sampleUcb (sampleArguments sampleRecords) sampleRecords ∧
          ForbidCollarEmpty sampleUcb (sampleArguments sampleRecords) sampleRecords) := by
  obtain ⟨gate, hgate⟩ := @construct_returns (sampleArguments sampleRecords) sampleUcb
    (by decide) (by with_unfolding_all decide) _ rfl (by norm_num [sampleArguments])
  obtain ⟨_, _, _, -, -, -, hcalibrated⟩ := construct_ok rfl (List.cons_ne_nil _ _) hgate
  have henabled : gate.enabled = true := hcalibrated ▸ rfl
  exact ⟨gate, hgate, describes_acted_iff _ _ _ _ rfl hgate henabled⟩

def skewedRecords : List CalibrationRecord :=
  ⟨⟨2 / 10, by norm_num⟩, true⟩ :: List.replicate 29 ⟨⟨95 / 100, by norm_num⟩, false⟩

def selectiveArguments : GateArguments :=
  { sampleArguments skewedRecords with riskEstimand := txt "selective" }

/-- The budget is met with the twenty-nine safe records in the collar. Below it
is one record, an unsafe one, and PERMITs are kept there. -/
theorem acted_set_misdescribed :
    ∃ gate, selectiveArguments.construct sampleUcb = .ok gate ∧ gate.enabled = true ∧
      gate.certified = true ∧ (gate.apply .permit (2 / 10)).verdict = .permit ∧
      gate.certificateTemplate.nActedPermit = 30 ∧
      permitSide.nActed skewedRecords gate.lambdaHat = 1 ∧
      ¬ DescribesActed sampleUcb selectiveArguments skewedRecords gate := by
  obtain ⟨gate, hgate⟩ := @construct_returns selectiveArguments sampleUcb
    (by decide) (by with_unfolding_all decide) _ rfl (by norm_num [selectiveArguments, sampleArguments])
  have hfacts : (selectiveArguments.construct sampleUcb).map (fun gate => (gate.enabled, gate.certified,
      (gate.apply .permit (2 / 10)).verdict, gate.certificateTemplate.nActedPermit,
      permitSide.nActed skewedRecords gate.lambdaHat)) = .ok (true, true, .permit, 30, 1) := by
    with_unfolding_all decide
  rw [hgate] at hfacts
  obtain ⟨henabled, hcertified, hkept, hreported, hacted⟩ :
      gate.enabled = true ∧ gate.certified = true ∧ (gate.apply .permit (2 / 10)).verdict = .permit ∧
        gate.certificateTemplate.nActedPermit = 30 ∧
        permitSide.nActed skewedRecords gate.lambdaHat = 1 := by
    simpa only [Except.map, Except.ok.injEq, Prod.mk.injEq] using hfacts
  refine ⟨gate, hgate, henabled, hcertified, hkept, hreported, hacted, fun hdescribes => ?_⟩
  have hsame := (hdescribes.permit hcertified).2
  rw [hreported, hacted] at hsame
  cases hsame

end TexGovernance.Engine
