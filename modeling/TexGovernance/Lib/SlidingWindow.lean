import Mathlib.Data.List.Basic
import Mathlib.Data.List.DropRight
import Mathlib.Data.Set.Finite.Basic
import Mathlib.Data.Set.Finite.Lemmas

/-!
# Windows that are pruned from the left

A new entry first takes away the entries at the left end that are not after its horizon, then
goes to the right end. An entry is gone exactly if a later one has every entry up to it at or
before its horizon.
-/

namespace SlidingWindow

section Definitions

variable {α τ : Type} [LinearOrder τ] (time : α → τ) (horizon : τ → τ)

def prune (now : τ) (w : List α) : List α := w.dropWhile fun e => time e ≤ horizon now

def push (w : List α) (e : α) : List α := prune time horizon (time e) w ++ [e]

def window (es : List α) : List α := es.foldl (push time horizon) []

end Definitions

section Suffix

variable {α τ : Type} [LinearOrder τ] {time : α → τ} {horizon : τ → τ}

theorem window_snoc (es : List α) (e : α) :
    window time horizon (es ++ [e]) = push time horizon (window time horizon es) e :=
  List.foldl_concat ..

theorem window_suffix (time : α → τ) (horizon : τ → τ) (es : List α) : window time horizon es <:+ es := by
  induction es using List.reverseRecOn with
  | nil => exact List.suffix_rfl
  | append_singleton es e ih =>
    rw [window_snoc]
    have hdrop := (List.dropWhile_suffix fun x => decide (time x ≤ horizon (time e))).trans ih
    obtain ⟨gone, hgone⟩ := hdrop
    refine ⟨gone, ?_⟩
    unfold push prune
    rw [← List.append_assoc, hgone]

end Suffix

end SlidingWindow
