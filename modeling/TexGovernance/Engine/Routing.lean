import TexGovernance.Lib.PyDict
import TexGovernance.Lib.PyFloat
import TexGovernance.Lib.PyRepr
import Mathlib.Algebra.Order.Interval.Set.Instances
import Mathlib.Order.Basic

/-!
# Routing results (`engine/router.py`, `domain/finding.py`, `domain/verdict.py`)

The record every stage of the decision pipeline takes and rebuilds, with the
validators that run on each construction. `str.casefold` is a parameter.
-/

namespace TexGovernance.Engine
open PyStr PyDict PyFloat PyRepr

inductive Verdict where
  | permit
  | abstain
  | forbid
  deriving DecidableEq, Repr

def Verdict.caution : Verdict → ℕ
  | .permit => 0
  | .abstain => 1
  | .forbid => 2

instance : Preorder Verdict := Preorder.lift Verdict.caution

instance : DecidableLE Verdict := fun a b => inferInstanceAs (Decidable (a.caution ≤ b.caution))

inductive Severity where
  | info
  | warning
  | critical
  deriving DecidableEq, Repr

def severityScore : Severity → ℚ
  | .critical => 1
  | .warning => 55 / 100
  | .info => 20 / 100

def IsClean (s : Str) : Prop := strip s = s ∧ s ≠ []

theorem clean_nil : ∀ s ∈ ([] : List Str), IsClean s := fun _ h => nomatch h

theorem isClean_strip {s : Str} (h : strip s ≠ []) : IsClean (strip s) := ⟨strip_strip s, h⟩

theorem IsClean.strip_ne_nil {s : Str} (h : IsClean s) : strip s ≠ [] := by
  rw [h.1]
  exact h.2

theorem strip_append_ne_nil {s : Str} (t : Str) (h : strip s ≠ []) : strip (s ++ t) ≠ [] := by
  intro hnil
  apply h
  rw [strip_eq_nil_iff] at hnil ⊢
  exact fun c hc => hnil c (List.mem_append_left t hc)

/-- `validate_non_blank_text` behind `min_length=1` and `max_length`. -/
def cleanField (maxLength : ℕ) (value : Str) : Except PyErr { s : Str // IsClean s } :=
  if value = [] ∨ ¬ fitsField maxLength value then .error .valueError
  else if h : strip value = [] then .error .valueError
  else .ok ⟨strip value, isClean_strip h⟩

/-- `Finding`, without the matched span and the metadata. -/
structure Finding where
  source : { s : Str // IsClean s }
  ruleName : { s : Str // IsClean s }
  severity : Severity
  message : { s : Str // IsClean s }

def Finding.make (source ruleName : Str) (severity : Severity) (message : Str) :
    Except PyErr Finding := do
  let source ← cleanField 100 source
  let ruleName ← cleanField 150 ruleName
  let message ← cleanField 500 message
  .ok ⟨source, ruleName, severity, message⟩

structure AsiFinding where
  category : Str
  shortCode : Str
  deriving DecidableEq

section Normalize

variable (casefold : Str → Str)

def normalizeFrom : List Str → List Str → Except PyErr (List Str)
  | _, [] => .ok []
  | seen, item :: rest =>
    let candidate := strip item
    if candidate = [] then .error .valueError
    else if casefold candidate ∈ seen then normalizeFrom seen rest
    else (normalizeFrom (casefold candidate :: seen) rest).map (candidate :: ·)

def normalizeStringSequences (value : List Str) : Except PyErr (List Str) :=
  normalizeFrom casefold [] value

variable {casefold}

theorem normalizeFrom_clean {seen value out : List Str}
    (h : normalizeFrom casefold seen value = .ok out) : ∀ s ∈ out, IsClean s := by
  induction value generalizing seen out with
  | nil =>
    rw [← Except.ok.inj h]
    intro s hs
    cases hs
  | cons item rest ih =>
    unfold normalizeFrom at h
    simp only at h
    by_cases hblank : strip item = []
    · rw [if_pos hblank] at h
      cases h
    · rw [if_neg hblank] at h
      by_cases hseen : casefold (strip item) ∈ seen
      · rw [if_pos hseen] at h
        exact ih h
      · rw [if_neg hseen] at h
        cases hrest : normalizeFrom casefold (casefold (strip item) :: seen) rest with
        | error e =>
          rw [hrest] at h
          cases h
        | ok tail =>
          rw [hrest] at h
          rw [← Except.ok.inj h]
          intro s hs
          rcases List.mem_cons.mp hs with rfl | hs
          · exact isClean_strip hblank
          · exact ih hrest s hs

theorem normalizeStringSequences_clean {value out : List Str}
    (h : normalizeStringSequences casefold value = .ok out) : ∀ s ∈ out, IsClean s :=
  normalizeFrom_clean h

theorem normalizeFrom_returns (seen : List Str) {value : List Str}
    (h : ∀ s ∈ value, strip s ≠ []) : ∃ out, normalizeFrom casefold seen value = .ok out := by
  induction value generalizing seen with
  | nil => exact ⟨[], rfl⟩
  | cons item rest ih =>
    have hitem := h item (List.mem_cons_self ..)
    have hrest : ∀ s ∈ rest, strip s ≠ [] := fun s hs => h s (List.mem_cons_of_mem _ hs)
    unfold normalizeFrom
    simp only
    rw [if_neg hitem]
    by_cases hseen : casefold (strip item) ∈ seen
    · rw [if_pos hseen]
      exact ih seen hrest
    · rw [if_neg hseen]
      obtain ⟨out, hout⟩ := ih (casefold (strip item) :: seen) hrest
      rw [hout]
      exact ⟨strip item :: out, rfl⟩

end Normalize

/-- `RoutingResult`. Scores are validated to lie between 0 and 1, which is
their type here. -/
structure RoutingResult where
  verdict : Verdict
  confidence : UnitScore
  finalScore : UnitScore
  reasons : List Str
  uncertaintyFlags : List Str
  findings : List Finding
  scores : Dict Str UnitScore
  asiFindings : List AsiFinding
  semanticDominanceOverrideFired : Bool
  reasons_clean : ∀ s ∈ reasons, IsClean s
  flags_clean : ∀ s ∈ uncertaintyFlags, IsClean s

def RoutingResult.make (casefold : Str → Str) (verdict : Verdict)
    (confidence finalScore : UnitScore) (reasons : List Str) (findings : List Finding)
    (scores : Dict Str UnitScore) (uncertaintyFlags : List Str) (asiFindings : List AsiFinding)
    (semanticDominanceOverrideFired : Bool) : Except PyErr RoutingResult :=
  match hr : normalizeStringSequences casefold reasons,
      hf : normalizeStringSequences casefold uncertaintyFlags with
  | .ok rs, .ok fs => .ok
    { verdict, confidence, finalScore, reasons := rs, uncertaintyFlags := fs, findings, scores,
      asiFindings, semanticDominanceOverrideFired,
      reasons_clean := normalizeStringSequences_clean hr
      flags_clean := normalizeStringSequences_clean hf }
  | _, _ => .error .valueError

section Make

variable {casefold : Str → Str} {verdict : Verdict} {confidence finalScore : UnitScore}
variable {reasons uncertaintyFlags : List Str} {findings : List Finding}
variable {scores : Dict Str UnitScore} {asiFindings : List AsiFinding} {fired : Bool}

theorem RoutingResult.make_fields {r : RoutingResult}
    (h : RoutingResult.make casefold verdict confidence finalScore reasons findings scores
      uncertaintyFlags asiFindings fired = .ok r) :
    r.verdict = verdict ∧ r.confidence = confidence ∧ r.finalScore = finalScore ∧
      r.scores = scores := by
  unfold RoutingResult.make at h
  split at h
  · rw [← Except.ok.inj h]
    exact ⟨rfl, rfl, rfl, rfl⟩
  · cases h

theorem RoutingResult.make_fired {r : RoutingResult}
    (h : RoutingResult.make casefold verdict confidence finalScore reasons findings scores
      uncertaintyFlags asiFindings fired = .ok r) :
    r.semanticDominanceOverrideFired = fired := by
  unfold RoutingResult.make at h
  split at h
  · rw [← Except.ok.inj h]
  · cases h

theorem RoutingResult.make_flags {r : RoutingResult}
    (h : RoutingResult.make casefold verdict confidence finalScore reasons findings scores
      uncertaintyFlags asiFindings fired = .ok r) :
    normalizeStringSequences casefold uncertaintyFlags = .ok r.uncertaintyFlags := by
  unfold RoutingResult.make at h
  split at h
  · rename_i hflags
    rw [← Except.ok.inj h]
    exact hflags
  · cases h

theorem RoutingResult.make_returns (hreasons : ∀ s ∈ reasons, strip s ≠ [])
    (hflags : ∀ s ∈ uncertaintyFlags, strip s ≠ []) :
    ∃ r, RoutingResult.make casefold verdict confidence finalScore reasons findings scores
      uncertaintyFlags asiFindings fired = .ok r := by
  obtain ⟨rs, hrs⟩ := normalizeFrom_returns [] hreasons
  obtain ⟨fs, hfs⟩ := normalizeFrom_returns [] hflags
  unfold RoutingResult.make
  split
  · exact ⟨_, rfl⟩
  · rename_i hno
    exact (hno rs fs hrs hfs).elim

end Make

structure Draft where
  reasons : List Str
  uncertaintyFlags : List Str
  findings : List Finding
  scores : Dict Str UnitScore

def RoutingResult.draft (base : RoutingResult) : Draft :=
  ⟨base.reasons, base.uncertaintyFlags, base.findings, base.scores⟩

def RoutingResult.rebuild (casefold : Str → Str) (base : RoutingResult) (verdict : Verdict)
    (d : Draft) : Except PyErr RoutingResult :=
  RoutingResult.make casefold verdict base.confidence base.finalScore d.reasons d.findings
    d.scores d.uncertaintyFlags base.asiFindings base.semanticDominanceOverrideFired

end TexGovernance.Engine
