import TexGovernance.Lib.PyStr

/-!
# Reading a text piece by piece

A lexer is given by its first step: on a text it takes a piece off the front, with a token or
without one, or it refuses.
-/

namespace Lexing

variable {σ T : Type} (first : List σ → Option (Option T × List σ))

inductive Reads : List σ → List T → List σ → Prop where
  | stop (s) : Reads s [] s
  | skip {s s' ts rest} : first s = some (none, s') → Reads s' ts rest → Reads s ts rest
  | token {s s' t ts rest} : first s = some (some t, s') → Reads s' ts rest → Reads s (t :: ts) rest

structure Consumes : Prop where
  nothing : first [] = none
  takes : ∀ {s p s'}, first s = some (p, s') → ∃ piece, piece ≠ [] ∧ s = piece ++ s'

variable {first}

section Consumes

variable (hfirst : Consumes first)
include hfirst

theorem nil_iff {ts : List T} : Reads first [] ts [] ↔ ts = [] := by
  constructor
  · intro h
    cases h with
    | stop => rfl
    | skip hstep => rw [hfirst.nothing] at hstep; cases hstep
    | token hstep => rw [hfirst.nothing] at hstep; cases hstep
  · intro h
    rw [h]
    exact .stop []

theorem ne_nil_of_step {s s' : List σ} {p : Option T} (h : first s = some (p, s')) : s ≠ [] := by
  intro hs
  rw [hs, hfirst.nothing] at h
  cases h

theorem skip_iff {s s' : List σ} {ts : List T} (h : first s = some (none, s')) :
    Reads first s ts [] ↔ Reads first s' ts [] := by
  refine ⟨fun hread => ?_, fun hread => .skip h hread⟩
  cases hread with
  | stop => exact absurd rfl (ne_nil_of_step hfirst h)
  | skip hstep hrest =>
    rw [h] at hstep
    cases hstep
    exact hrest
  | token hstep =>
    rw [h] at hstep
    cases hstep

theorem token_iff {s s' : List σ} {t : T} {ts : List T} (h : first s = some (some t, s')) :
    Reads first s ts [] ↔ ∃ us, ts = t :: us ∧ Reads first s' us [] := by
  constructor
  · intro hread
    cases hread with
    | stop => exact absurd rfl (ne_nil_of_step hfirst h)
    | skip hstep =>
      rw [h] at hstep
      cases hstep
    | token hstep hrest =>
      rw [h] at hstep
      cases hstep
      exact ⟨_, rfl, hrest⟩
  · intro ⟨us, hts, hread⟩
    rw [hts]
    exact .token h hread

omit hfirst in
theorem refused {s : List σ} {ts : List T} (hs : s ≠ []) (h : first s = none) :
    ¬ Reads first s ts [] := by
  intro hread
  cases hread with
  | stop => exact hs rfl
  | skip hstep => rw [h] at hstep; cases hstep
  | token hstep => rw [h] at hstep; cases hstep

theorem whole_iff {s mid : List σ} {ts all : List T} (h : Reads first s ts mid) :
    Reads first s all [] ↔ ∃ us, all = ts ++ us ∧ Reads first mid us [] := by
  induction h generalizing all with
  | stop s => exact ⟨fun h => ⟨all, rfl, h⟩, fun ⟨us, heq, h⟩ => heq ▸ h⟩
  | skip hstep _ ih => rw [skip_iff hfirst hstep, ih]
  | @token s s' t ts rest hstep _ ih =>
    rw [token_iff hfirst hstep]
    constructor
    · intro ⟨us, hall, hread⟩
      obtain ⟨vs, rfl, hrest⟩ := ih.mp hread
      exact ⟨vs, hall, hrest⟩
    · intro ⟨vs, hall, hrest⟩
      exact ⟨ts ++ vs, hall, ih.mpr ⟨vs, rfl, hrest⟩⟩

theorem Reads.unique {s : List σ} {ts us : List T} (hts : Reads first s ts [])
    (hus : Reads first s us []) : ts = us := by
  obtain ⟨vs, rfl, hvs⟩ := (whole_iff hfirst hts).mp hus
  rw [(nil_iff hfirst).mp hvs, List.append_nil]

end Consumes

end Lexing

namespace PyStr

theorem mem_of_inRanges {rs : List (ℕ × ℕ)} {c : CodePoint} (h : inRanges rs c = true) :
    c.val ∈ rs.flatMap fun r => List.range' r.1 (r.2 + 1 - r.1) := by
  obtain ⟨r, hr, hc⟩ := List.any_eq_true.mp h
  rw [Bool.and_eq_true, decide_eq_true_eq, decide_eq_true_eq] at hc
  rw [List.mem_flatMap]
  refine ⟨r, hr, ?_⟩
  rw [List.mem_range'_1]
  omega

def Apart (rest : Str) : Prop := ∀ c ∈ rest.head?, isspace c = true

theorem Apart.ne {rest : Str} (h : Apart rest) {c : Char} (hc : isspace (cp c) = false) :
    rest.head? ≠ some (cp c) := by
  intro hhead
  rw [h _ hhead] at hc
  cases hc

theorem takeWhile_apart {p : CodePoint → Bool} (hp : ∀ c, isspace c = true → p c = false)
    {word rest : Str} (hword : ∀ c ∈ word, p c = true) (hrest : Apart rest) :
    (word ++ rest).takeWhile p = word := by
  rw [List.takeWhile_append_of_pos hword]
  cases rest with
  | nil => rw [List.takeWhile_nil, List.append_nil]
  | cons c rest =>
    have hc : p c = false := hp c (hrest c rfl)
    rw [List.takeWhile_cons_of_neg (by rw [hc]; decide), List.append_nil]

end PyStr
