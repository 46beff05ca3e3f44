import Mathlib.Data.List.Basic
import Mathlib.Data.List.Induction
import Mathlib.Tactic.Common

/-!
# The steps of a run

What holds of every step of a run, read together with the steps before it, and what the steps
of a run emit. Both are followed along the run by adding its last step.
-/

namespace Runs

variable {α : Type}

/-- `P` of every step and the steps before it. -/
def AtEach (P : List α → α → Prop) (ops : List α) : Prop := ∀ before op rest, ops = before ++ op :: rest → P before op

variable {P Q : List α → α → Prop} {ops more : List α} {op : α}

theorem atEach_nil : AtEach P [] := by
  intro before op rest hsplit
  cases before with
  | nil => cases hsplit
  | cons first before => cases hsplit

theorem AtEach.of_append (h : AtEach P (ops ++ more)) : AtEach P ops := by
  intro before op rest hsplit
  refine h before op (rest ++ more) ?_
  rw [hsplit, List.append_assoc]
  rfl

theorem atEach_concat : AtEach P (ops ++ [op]) ↔ AtEach P ops ∧ P ops op := by
  constructor
  · intro h
    exact ⟨h.of_append, h ops op [] rfl⟩
  · intro h before op' rest hsplit
    induction rest using List.reverseRecOn with
    | nil =>
      obtain ⟨hops, hop⟩ := List.append_inj' hsplit rfl
      cases hop
      rw [← hops]
      exact h.2
    | append_singleton rest last _ =>
      rw [← List.cons_append, ← List.append_assoc] at hsplit
      obtain ⟨hops, -⟩ := List.append_inj' hsplit rfl
      exact h.1 before op' rest hops

theorem AtEach.mono (h : AtEach P ops) (himp : ∀ before op, P before op → Q before op) : AtEach Q ops :=
  fun before op rest hsplit => himp before op (h before op rest hsplit)

section Emitted

variable {σ ι ο : Type} (step : σ → ι → σ) (emit : σ → ι → Option ο)

def emitted (s : σ) : List ι → List ο
  | [] => []
  | i :: inputs => (emit s i).toList ++ emitted (step s i) inputs

theorem emitted_concat (s : σ) (inputs : List ι) (i : ι) :
    emitted step emit s (inputs ++ [i]) = emitted step emit s inputs ++ (emit (inputs.foldl step s) i).toList := by
  induction inputs generalizing s with
  | nil => simp [emitted]
  | cons first inputs ih => simp [emitted, ih]

end Emitted

end Runs

/-!
## Runs of a machine that serves keyed inputs

A machine answers inputs one after the other; each input has a key. The machine splits by key if
its state has a part for every key, and an input reads and changes only the part of its own key.
-/

namespace KeyedRuns

variable {σ κ ι ο π : Type} [DecidableEq κ]

section Runs

variable (step : σ → ι → ο × σ) (key : ι → κ)

def outputs (s : σ) : List ι → List (κ × ο)
  | [] => []
  | i :: rest => (key i, (step s i).1) :: outputs (step s i).2 rest

def received (k : κ) (outs : List (κ × ο)) : List ο :=
  (outs.filter fun out => out.1 = k).map Prod.snd

def inputsOf (k : κ) (inputs : List ι) : List ι := inputs.filter fun i => key i = k

end Runs

def localRun (localStep : π → ι → ο × π) (p : π) : List ι → List ο
  | [] => []
  | i :: rest => (localStep p i).1 :: localRun localStep (localStep p i).2 rest

structure Splits (step : σ → ι → ο × σ) (key : ι → κ) (inv : σ → Prop) (allowed : ι → Prop)
    (part : σ → κ → π) (localStep : π → ι → ο × π) : Prop where
  output : ∀ s i, inv s → allowed i → (step s i).1 = (localStep (part s (key i)) i).1
  own : ∀ s i, inv s → allowed i → part (step s i).2 (key i) = (localStep (part s (key i)) i).2
  others : ∀ s i k, inv s → allowed i → k ≠ key i → part (step s i).2 k = part s k
  keeps : ∀ s i, inv s → allowed i → inv (step s i).2

section Isolation

variable {step : σ → ι → ο × σ} {key : ι → κ} {inv : σ → Prop} {allowed : ι → Prop}
variable {part : σ → κ → π} {localStep : π → ι → ο × π}

theorem received_eq_localRun (h : Splits step key inv allowed part localStep) (k : κ) {s : σ}
    {inputs : List ι} (hs : inv s) (hinputs : ∀ i ∈ inputs, allowed i) :
    received k (outputs step key s inputs) = localRun localStep (part s k) (inputsOf key k inputs) := by
  induction inputs generalizing s with
  | nil => rfl
  | cons i rest ih =>
    have hi : allowed i := hinputs i (List.mem_cons_self ..)
    have hrest := ih (h.keeps s i hs hi) fun j hj => hinputs j (List.mem_cons_of_mem _ hj)
    unfold received inputsOf at hrest ⊢
    by_cases hk : key i = k
    · subst hk
      rw [h.own s i hs hi] at hrest
      simp only [outputs, List.filter_cons, decide_true, if_true, List.map_cons, localRun]
      rw [hrest, h.output s i hs hi]
    · rw [h.others s i k hs hi (Ne.symm hk)] at hrest
      simp only [outputs, List.filter_cons, hk, decide_false, Bool.false_eq_true, if_false]
      exact hrest

theorem inputsOf_inputsOf (k : κ) (inputs : List ι) :
    inputsOf key k (inputsOf key k inputs) = inputsOf key k inputs := by
  unfold inputsOf
  rw [List.filter_filter]
  simp only [Bool.and_self]

theorem received_isolated (h : Splits step key inv allowed part localStep) (k : κ) {s : σ}
    {inputs : List ι} (hs : inv s) (hinputs : ∀ i ∈ inputs, allowed i) :
    received k (outputs step key s inputs) =
      received k (outputs step key s (inputsOf key k inputs)) := by
  have halone : ∀ i ∈ inputsOf key k inputs, allowed i := fun i hi =>
    hinputs i (List.mem_of_mem_filter hi)
  rw [received_eq_localRun h k hs hinputs, received_eq_localRun h k hs halone, inputsOf_inputsOf]

end Isolation

end KeyedRuns

/-!
## Caches of a shared source

Owners keep copies of what a shared source holds. A value is live or dead; a copy that is live
must not outlive its source.
-/

namespace SharedCache

variable {ι κ ν : Type} (live : ν → Prop)

variable {live} {source source' : κ → Option ν} {copy copy' : ι → κ → Option ν}

end SharedCache
