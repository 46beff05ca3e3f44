import Mathlib.Data.List.Basic
import Mathlib.Order.Defs.Unbundled

/-!
# Pipelines of fallible stages

A stage takes a value and returns a value or raises. A pipeline runs its stages in order and stops
at the first that raises.
-/

namespace Pipeline

variable {ε α : Type}

abbrev Stage (ε α : Type) := α → Except ε α

def run : List (Stage ε α) → Stage ε α
  | [], x => .ok x
  | stage :: rest, x => stage x >>= run rest

def Respects (R : α → α → Prop) (stage : Stage ε α) : Prop :=
  ∀ x y, stage x = .ok y → R x y

def Keeps (P : α → Prop) (R : α → α → Prop) (stage : Stage ε α) : Prop :=
  ∀ x, P x → ∃ y, stage x = .ok y ∧ P y ∧ R x y

theorem bind_ok {β γ : Type} {x : Except ε β} {f : β → Except ε γ} {z : γ}
    (h : (x >>= f) = .ok z) : ∃ y, x = .ok y ∧ f y = .ok z := by
  cases x with
  | error e => cases h
  | ok y => exact ⟨y, rfl, h⟩

theorem map_ok {β γ : Type} {x : Except ε β} {f : β → γ} {z : γ} (h : x.map f = .ok z) :
    ∃ y, x = .ok y ∧ f y = z := by
  cases x with
  | error e => cases h
  | ok y => exact ⟨y, rfl, Except.ok.inj h⟩

theorem run_append (xs ys : List (Stage ε α)) (x : α) :
    run (xs ++ ys) x = run xs x >>= run ys := by
  induction xs generalizing x with
  | nil => rfl
  | cons stage rest ih =>
    change stage x >>= run (rest ++ ys) = (stage x >>= run rest) >>= run ys
    cases h : stage x with
    | error e => rfl
    | ok y => exact ih y

section Relation

variable {R : α → α → Prop} [Std.Refl R] [IsTrans α R]

theorem run_respects (stages : List (Stage ε α)) (h : ∀ stage ∈ stages, Respects R stage) :
    Respects R (run stages) := by
  induction stages with
  | nil =>
    intro x y hxy
    rw [← Except.ok.inj hxy]
    exact refl x
  | cons stage rest ih =>
    intro x z hxz
    obtain ⟨y, hxy, hyz⟩ := bind_ok hxz
    have hstage := h stage (List.mem_cons_self ..) x y hxy
    have hrest := ih (fun s hs => h s (List.mem_cons_of_mem _ hs)) y z hyz
    exact IsTrans.trans x y z hstage hrest

theorem run_keeps {P : α → Prop} (stages : List (Stage ε α))
    (h : ∀ stage ∈ stages, Keeps P R stage) : Keeps P R (run stages) := by
  induction stages with
  | nil =>
    intro x hx
    exact ⟨x, rfl, hx, refl x⟩
  | cons stage rest ih =>
    intro x hx
    obtain ⟨y, hxy, hy, hr⟩ := h stage (List.mem_cons_self ..) x hx
    obtain ⟨z, hyz, hz, hr'⟩ := ih (fun s hs => h s (List.mem_cons_of_mem _ hs)) y hy
    refine ⟨z, ?_, hz, IsTrans.trans x y z hr hr'⟩
    change stage x >>= run rest = .ok z
    rw [hxy]
    exact hyz

end Relation

theorem foldlM_returns {β : Type} (f : β → α → Except ε β) (xs : List α)
    (h : ∀ x ∈ xs, ∀ b, ∃ b', f b x = .ok b') (b : β) : ∃ out, xs.foldlM f b = .ok out := by
  induction xs generalizing b with
  | nil => exact ⟨b, rfl⟩
  | cons x rest ih =>
    obtain ⟨b', hb'⟩ := h x (List.mem_cons_self ..) b
    obtain ⟨out, hout⟩ := ih (fun y hy => h y (List.mem_cons_of_mem _ hy)) b'
    refine ⟨out, ?_⟩
    rw [List.foldlM_cons, hb']
    exact hout

end Pipeline
