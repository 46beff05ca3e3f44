import Mathlib.Data.Finset.Union
import TexGovernance.Deterministic.CadenceRuns

/-!
# Exact windows

With the time stamps of each key in order, a first assessment counts exactly
the requests of its key in the window that ends at its own time.
-/

namespace TexGovernance.Deterministic
open PyStr PyDict SlidingWindow ActionCadenceTracker
open Engine (Uuid CadenceLevel)

theorem firsts_initial {pre requests : List EvaluationRequest} (h : pre <+: requests) :
    firsts pre <+: firsts requests := by
  obtain ⟨rest, rfl⟩ := h
  induction rest using List.reverseRecOn with
  | nil =>
    rw [List.append_nil]
  | append_singleton rest r ih =>
    rw [← List.append_assoc]
    by_cases hr : r ∈ pre ++ rest
    · rw [firsts_snoc_of_mem hr]
      exact ih
    · rw [firsts_snoc_of_notMem hr]
      exact ih.trans (List.prefix_append _ _)

/-- The time stamps of each key do not go back. -/
def InOrder (c : CadenceConfig) (requests : List EvaluationRequest) : Prop :=
  ∀ key, (actionsOf c key requests).Pairwise fun a b => a.requestedAt ≤ b.requestedAt

theorem InOrder.initial {c : CadenceConfig} {pre requests : List EvaluationRequest}
    (h : InOrder c requests) (hpre : pre <+: requests) : InOrder c pre :=
  fun key => (h key).sublist ((firsts_initial hpre).sublist.filter _)

/-- The requests of a key so far whose time lies in the window that ends at
the time of `r`. -/
def inWindow (c : CadenceConfig) (key : Str) (soFar : List EvaluationRequest)
    (r : EvaluationRequest) : Finset EvaluationRequest :=
  soFar.toFinset.filter fun q => trackedKey c q = some key ∧
    r.requestedAt - c.windowSeconds < q.requestedAt ∧ q.requestedAt ≤ r.requestedAt

section Exact

variable {casefold : Str → Str} {formatG : ℚ → Str} {c : CadenceConfig} {key : Str}
variable {requests pre : List EvaluationRequest} {r : EvaluationRequest}

end Exact

def uuidOf (last : String) (h : Engine.isUuidText (txt "00000000-0000-0000-0000-00000000000" ++ txt last) = true) :
    Uuid := ⟨_, h⟩

section Order

variable {casefold : Str → Str} {formatG : ℚ → Str} {c : CadenceConfig} {key : Str}
variable {requests pre post : List EvaluationRequest} {r : EvaluationRequest}

end Order

end TexGovernance.Deterministic
