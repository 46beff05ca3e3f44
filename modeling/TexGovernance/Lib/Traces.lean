import Mathlib.Data.List.Range
import Mathlib.Data.Nat.Find
import Mathlib.Data.Nat.Notation
import Mathlib.Logic.ExistsUnique

/-!
# Finite traces: loops over positions and the textbook LTLf semantics

The two loop shapes of monitors, a scan of a span of positions and the two-exit walk of an until
operator, are reduced to quantifiers over positions.
-/

namespace FiniteTrace

def span (lo hi : ℕ) : List ℕ := List.range' lo (hi - lo)

theorem mem_span (lo hi j : ℕ) : j ∈ span lo hi ↔ lo ≤ j ∧ j < hi := by
  simp only [span, List.mem_range'_1]
  omega

theorem span_eq_nil (lo hi : ℕ) (h : hi ≤ lo) : span lo hi = [] := by
  have h0 : hi - lo = 0 := by omega
  simp only [span, h0, List.range'_zero]

theorem span_cons (lo hi : ℕ) (h : lo < hi) : span lo hi = lo :: span (lo + 1) hi := by
  have h1 : hi - lo = (hi - (lo + 1)) + 1 := by omega
  simp only [span, h1, List.range'_succ]

theorem all_span (p : ℕ → Bool) (lo hi : ℕ) :
    (span lo hi).all p = true ↔ ∀ j, lo ≤ j → j < hi → p j = true := by
  simp only [List.all_eq_true, mem_span]
  exact ⟨fun h j h1 h2 => h j ⟨h1, h2⟩, fun h j hj => h j hj.1 hj.2⟩

theorem any_span (p : ℕ → Bool) (lo hi : ℕ) :
    (span lo hi).any p = true ↔ ∃ j, lo ≤ j ∧ j < hi ∧ p j = true := by
  simp only [List.any_eq_true, mem_span]
  exact ⟨fun ⟨j, hj, hp⟩ => ⟨j, hj.1, hj.2, hp⟩, fun ⟨j, h1, h2, hp⟩ => ⟨j, ⟨h1, h2⟩, hp⟩⟩

/-- Walk positions left to right: stop with `true` at the first position that
reaches the goal, with `false` at the first one that neither reaches it nor
keeps going, and with `rest` when the positions run out. -/
def untilWalk (goal keep : ℕ → Bool) (rest : Bool) : List ℕ → Bool
  | [] => rest
  | j :: js =>
    if goal j then true
    else if !keep j then false
    else untilWalk goal keep rest js

theorem untilWalk_span (goal keep : ℕ → Bool) (rest : Bool) (lo hi : ℕ) :
    untilWalk goal keep rest (span lo hi) = true ↔
      (∃ j, lo ≤ j ∧ j < hi ∧ goal j = true ∧ ∀ i, lo ≤ i → i < j → keep i = true) ∨
      (rest = true ∧ ∀ i, lo ≤ i → i < hi → keep i = true) := by
  -- induction on the length of the span; the head is either the goal, a
  -- dead end, or one more kept position
  induction hk : hi - lo generalizing lo with
  | zero =>
    rw [span_eq_nil lo hi (by omega)]
    simp only [untilWalk]
    constructor
    · intro h
      exact Or.inr ⟨h, fun i h1 h2 => absurd h2 (by omega)⟩
    · rintro (⟨j, h1, h2, -⟩ | ⟨h, -⟩)
      · omega
      · exact h
  | succ k ih =>
    have hlo : lo < hi := by omega
    rw [span_cons lo hi hlo]
    simp only [untilWalk]
    cases hg : goal lo with
    | true =>
      simp only [ite_true, true_iff]
      exact Or.inl ⟨lo, le_rfl, hlo, hg, fun i h1 h2 => absurd h2 (by omega)⟩
    | false =>
      cases hp : keep lo with
      | false =>
        simp only [Bool.false_eq_true, ite_false, Bool.not_false, ite_true, false_iff]
        rintro (⟨j, h1, h2, hj, hkeep⟩ | ⟨-, hkeep⟩)
        · rcases Nat.eq_or_lt_of_le h1 with h | h
          · rw [← h, hg] at hj
            exact Bool.noConfusion hj
          · rw [hkeep lo le_rfl h] at hp
            exact Bool.noConfusion hp
        · rw [hkeep lo le_rfl hlo] at hp
          exact Bool.noConfusion hp
      | true =>
        simp only [Bool.false_eq_true, ite_false, Bool.not_true]
        rw [ih (lo + 1) (by omega)]
        constructor
        · rintro (⟨j, h1, h2, hj, hkeep⟩ | ⟨hr, hkeep⟩)
          · refine Or.inl ⟨j, by omega, h2, hj, fun i hi1 hi2 => ?_⟩
            rcases Nat.eq_or_lt_of_le hi1 with h | h
            · rw [← h]
              exact hp
            · exact hkeep i h hi2
          · refine Or.inr ⟨hr, fun i hi1 hi2 => ?_⟩
            rcases Nat.eq_or_lt_of_le hi1 with h | h
            · rw [← h]
              exact hp
            · exact hkeep i h hi2
        · rintro (⟨j, h1, h2, hj, hkeep⟩ | ⟨hr, hkeep⟩)
          · rcases Nat.eq_or_lt_of_le h1 with h | h
            · rw [← h, hg] at hj
              exact Bool.noConfusion hj
            · exact Or.inl ⟨j, h, h2, hj, fun i hi1 hi2 => hkeep i (by omega) hi2⟩
          · exact Or.inr ⟨hr, fun i hi1 hi2 => hkeep i (by omega) hi2⟩

inductive Formula (α : Type) where
  | const (value : Bool)
  | atom (a : α)
  | not (arg : Formula α)
  | and (left right : Formula α)
  | or (left right : Formula α)
  | implies (left right : Formula α)
  | next (arg : Formula α)
  | globally (arg : Formula α)
  | eventually (arg : Formula α)
  | until (left right : Formula α)

/-- `Sat v n φ i`: the formula holds at position `i` of a trace of length `n`
whose atoms are valued by `v`. Next is strong: it needs a next position. -/
def Sat {α : Type} (v : ℕ → α → Prop) (n : ℕ) : Formula α → ℕ → Prop
  | .const b, _ => b = true
  | .atom a, i => v i a
  | .not φ, i => ¬ Sat v n φ i
  | .and φ ψ, i => Sat v n φ i ∧ Sat v n ψ i
  | .or φ ψ, i => Sat v n φ i ∨ Sat v n ψ i
  | .implies φ ψ, i => Sat v n φ i → Sat v n ψ i
  | .next φ, i => i + 1 < n ∧ Sat v n φ (i + 1)
  | .globally φ, i => ∀ j, i ≤ j → j < n → Sat v n φ j
  | .eventually φ, i => ∃ j, i ≤ j ∧ j < n ∧ Sat v n φ j
  | .until φ ψ, i =>
    ∃ j, i ≤ j ∧ j < n ∧ Sat v n ψ j ∧ ∀ k, i ≤ k → k < j → Sat v n φ k

end FiniteTrace

/-!
## Obligations with a deadline

The life of one bounded-response obligation: a false condition opens it, a true one closes it as
long as its deadline has not passed, and a sweep removes it afterwards.
-/

namespace Obligation

structure Token where
  started : ℕ
  deadline : ℕ
  deriving DecidableEq

structure Obs where
  value : Option Bool
  sweeps : Bool

def evaluate (window step : ℕ) (value : Option Bool) (token : Option Token) : Option Token :=
  match token, value with
  | none, some false => some ⟨step, step + window⟩
  | some tok, some true => if step ≤ tok.deadline then none else some tok
  | token, _ => token

def sweep (step : ℕ) (sweeps : Bool) (token : Option Token) : Option Token :=
  match token with
  | none => none
  | some tok => if sweeps ∧ tok.deadline < step then none else some tok

def next (window step : ℕ) (o : Obs) (token : Option Token) : Option Token :=
  sweep step o.sweeps (evaluate window step o.value token)

theorem evaluate_none (window step : ℕ) (token : Option Token) :
    evaluate window step none token = token := by
  cases token with
  | none => rfl
  | some tok => rfl

theorem evaluate_late {window step : ℕ} {value : Option Bool} {tok : Token}
    (hlate : tok.deadline < step) : evaluate window step value (some tok) = some tok := by
  match value with
  | none => rfl
  | some false => rfl
  | some true => exact if_neg (not_le.mpr hlate)

theorem of_evaluate_late {window step : ℕ} {value : Option Bool} {token : Option Token}
    {tok : Token} (h : evaluate window step value token = some tok) (hlate : tok.deadline < step) :
    token = some tok := by
  match token, value with
  | none, none => exact h
  | none, some true => exact h
  | none, some false =>
    -- a new obligation is not late
    rw [← Option.some.inj h] at hlate
    exact absurd hlate (by simp)
  | some tok', none => exact h
  | some tok', some false => exact h
  | some tok', some true =>
    have hkept : (if step ≤ tok'.deadline then none else some tok') = some tok := h
    split at hkept
    · cases hkept
    · exact hkept

theorem sweep_false (step : ℕ) (token : Option Token) : sweep step false token = token := by
  cases token with
  | none => rfl
  | some tok =>
    show (if false = true ∧ tok.deadline < step then none else some tok) = some tok
    rw [if_neg fun h => Bool.false_ne_true h.1]

section Run

variable (window : ℕ) (obs : ℕ → Obs)

def after : ℕ → Option Token
  | 0 => none
  | n + 1 => next window (n + 1) (obs n) (after n)

def Registers (n : ℕ) : Prop := after window obs n = none ∧ (obs n).value = some false

/-- Check `t` closes the obligation that check `n` opened, if it is still
open: the condition is true and the deadline has not passed. -/
def Discharges (n t : ℕ) : Prop := n < t ∧ t ≤ n + window ∧ (obs t).value = some true

/-- Check `t` escalates the obligation that check `n` opened, if it is still
open: the deadline has passed and the check sweeps. -/
def Escalates (n t : ℕ) : Prop := n < t ∧ n + window < t ∧ (obs t).sweeps = true

inductive Ending where
  | discharged (t : ℕ)
  | escalated (t : ℕ)
  | pending
  deriving DecidableEq

/-- The obligation that check `n` opened is open after every check up to and
without check `t`. -/
def OpenUntil (n t : ℕ) : Prop :=
  ∀ j, n < j → j ≤ t → after window obs j = some ⟨n + 1, n + 1 + window⟩

def EndsAs (n total : ℕ) : Ending → Prop
  | .discharged t => t < total ∧ Discharges window obs n t ∧
      (∀ j < t, ¬ Discharges window obs n j) ∧ OpenUntil window obs n t ∧
      after window obs (t + 1) = none
  | .escalated t => t < total ∧ Escalates window obs n t ∧
      (∀ j < t, ¬ Escalates window obs n j ∧ ¬ Discharges window obs n j) ∧
      OpenUntil window obs n t ∧ after window obs (t + 1) = none
  | .pending =>
      (∀ j < total, ¬ Escalates window obs n j ∧ ¬ Discharges window obs n j) ∧
      OpenUntil window obs n total

variable {window obs}

theorem after_registration {n : ℕ} (h : Registers window obs n) :
    after window obs (n + 1) = some ⟨n + 1, n + 1 + window⟩ := by
  have hstep : evaluate window (n + 1) (obs n).value (after window obs n) =
      some ⟨n + 1, n + 1 + window⟩ := by
    rw [h.1, h.2]
    rfl
  show sweep (n + 1) (obs n).sweeps (evaluate window (n + 1) (obs n).value _) = _
  rw [hstep]
  exact if_neg fun (hexpired : _ ∧ n + 1 + window < n + 1) => by omega

theorem registers_of_opens {n : ℕ} (hbefore : after window obs n = none)
    (hafter : after window obs (n + 1) ≠ none) : Registers window obs n := by
  refine ⟨hbefore, ?_⟩
  by_contra hvalue
  apply hafter
  have heval : evaluate window (n + 1) (obs n).value (after window obs n) = none := by
    rw [hbefore]
    match hv : (obs n).value with
    | none => rfl
    | some true => rfl
    | some false => exact absurd hv hvalue
  show sweep (n + 1) (obs n).sweeps (evaluate window (n + 1) (obs n).value _) = none
  rw [heval]
  rfl

theorem openUntil_of_no_end {n t : ℕ} (h : Registers window obs n)
    (hno : ∀ j < t, ¬ Escalates window obs n j ∧ ¬ Discharges window obs n j) :
    OpenUntil window obs n t := by
  intro j hj
  induction j with
  | zero => omega
  | succ j ih =>
    intro hjt
    rcases Nat.eq_or_lt_of_le (Nat.lt_succ_iff.mp hj) with rfl | hlt
    · exact after_registration h
    · have hopen := ih hlt (by omega)
      obtain ⟨hesc, hdis⟩ := hno j (by omega)
      have heval : evaluate window (j + 1) (obs j).value (after window obs j) =
          some ⟨n + 1, n + 1 + window⟩ := by
        rw [hopen]
        match hv : (obs j).value with
        | none => rfl
        | some false => rfl
        | some true =>
          exact if_neg fun (hle : j + 1 ≤ n + 1 + window) => hdis ⟨hlt, by omega, hv⟩
      show sweep (j + 1) (obs j).sweeps (evaluate window (j + 1) (obs j).value _) = _
      rw [heval]
      exact if_neg fun (hexpired : _ ∧ n + 1 + window < j + 1) =>
        hesc ⟨hlt, by omega, hexpired.1⟩

theorem after_discharge {n t : ℕ} (hopen : OpenUntil window obs n t)
    (h : Discharges window obs n t) : after window obs (t + 1) = none := by
  show sweep (t + 1) (obs t).sweeps (evaluate window (t + 1) (obs t).value _) = _
  rw [hopen t h.1 le_rfl, h.2.2]
  have hintime : t + 1 ≤ n + 1 + window := by
    have := h.2.1
    omega
  have hclosed : evaluate window (t + 1) (some true) (some ⟨n + 1, n + 1 + window⟩) = none :=
    if_pos hintime
  rw [hclosed]
  rfl

theorem after_escalation {n t : ℕ} (hopen : OpenUntil window obs n t)
    (h : Escalates window obs n t) : after window obs (t + 1) = none := by
  have hlate : n + 1 + window < t + 1 := by
    have := h.2.1
    omega
  have heval : evaluate window (t + 1) (obs t).value (after window obs t) =
      some ⟨n + 1, n + 1 + window⟩ := by
    rw [hopen t h.1 le_rfl]
    exact evaluate_late hlate
  show sweep (t + 1) (obs t).sweeps (evaluate window (t + 1) (obs t).value _) = _
  rw [heval]
  exact if_pos ⟨h.2.2, hlate⟩

theorem Discharges.lt_of_escalates {n t t' : ℕ} (h : Discharges window obs n t)
    (h' : Escalates window obs n t') : t < t' := by
  have := h.2.1
  have := h'.2.1
  omega

theorem exists_ending {n : ℕ} (total : ℕ) (h : Registers window obs n) :
    ∃ e, EndsAs window obs n total e := by
  classical
  by_cases hex : ∃ t, t < total ∧ (Escalates window obs n t ∨ Discharges window obs n t)
  · have hspec := Nat.find_spec hex
    have hmin : ∀ j < Nat.find hex, ¬ Escalates window obs n j ∧ ¬ Discharges window obs n j := by
      intro j hj
      have hnot := Nat.find_min hex hj
      have hjt : j < total := lt_trans hj hspec.1
      exact ⟨fun he => hnot ⟨hjt, .inl he⟩, fun hd => hnot ⟨hjt, .inr hd⟩⟩
    have hopen := openUntil_of_no_end h hmin
    rcases hspec.2 with hesc | hdis
    · exact ⟨.escalated (Nat.find hex), hspec.1, hesc, hmin, hopen, after_escalation hopen hesc⟩
    · exact ⟨.discharged (Nat.find hex), hspec.1, hdis, fun j hj => (hmin j hj).2, hopen,
        after_discharge hopen hdis⟩
  · have hno : ∀ j < total, ¬ Escalates window obs n j ∧ ¬ Discharges window obs n j :=
      fun j hj => ⟨fun he => hex ⟨j, hj, .inl he⟩, fun hd => hex ⟨j, hj, .inr hd⟩⟩
    exact ⟨.pending, hno, openUntil_of_no_end h hno⟩

theorem ending_unique {n total : ℕ} {e e' : Ending} (h : EndsAs window obs n total e)
    (h' : EndsAs window obs n total e') : e = e' := by
  cases e with
  | discharged t =>
    obtain ⟨htotal, hdis, hfirst, -, -⟩ := h
    cases e' with
    | discharged t' =>
      obtain ⟨-, hdis', hfirst', -, -⟩ := h'
      have hle : ¬ t < t' := fun hlt => hfirst' t hlt hdis
      have hge : ¬ t' < t := fun hlt => hfirst t' hlt hdis'
      rw [show t = t' by omega]
    | escalated t' => exact absurd hdis (h'.2.2.1 t (hdis.lt_of_escalates h'.2.1)).2
    | pending => exact absurd hdis (h'.1 t htotal).2
  | escalated t =>
    obtain ⟨htotal, hesc, hfirst, -, -⟩ := h
    cases e' with
    | discharged t' => exact absurd h'.2.1 (hfirst t' (h'.2.1.lt_of_escalates hesc)).2
    | escalated t' =>
      obtain ⟨-, hesc', hfirst', -, -⟩ := h'
      have hle : ¬ t < t' := fun hlt => (hfirst' t hlt).1 hesc
      have hge : ¬ t' < t := fun hlt => (hfirst t' hlt).1 hesc'
      rw [show t = t' by omega]
    | pending => exact absurd hesc (h'.1 t htotal).1
  | pending =>
    cases e' with
    | discharged t' => exact absurd h'.2.1 (h.1 t' h'.1).2
    | escalated t' => exact absurd h'.2.1 (h.1 t' h'.1).1
    | pending => rfl

theorem lifecycle {n : ℕ} (total : ℕ) (h : Registers window obs n) :
    ∃! e, EndsAs window obs n total e := by
  obtain ⟨e, he⟩ := exists_ending total h
  exact ⟨e, he, fun e' he' => ending_unique he' he⟩

end Run

end Obligation
