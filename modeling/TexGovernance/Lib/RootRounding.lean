import TexGovernance.Lib.PyFloat
import Mathlib.Analysis.Real.Sqrt

/-!
# Rounding in an ordered field

Rounding to a number of places, half to even, of a number that need not be rational; `roundRoot`
of a rational number is that rounding of its real square root.
-/

namespace PyFloat

section Field

variable {K : Type*} [Field K] [LinearOrder K] [FloorRing K]

def roundHalfEvenIn (x : K) : ℤ :=
  let rest := x - ⌊x⌋
  if rest < 1 / 2 then ⌊x⌋
  else if 1 / 2 < rest then ⌊x⌋ + 1
  else if ⌊x⌋ % 2 = 0 then ⌊x⌋ else ⌊x⌋ + 1

def roundIn (digits : ℕ) (x : K) : ℚ := roundHalfEvenIn (x * 10 ^ digits) / 10 ^ digits

theorem roundIn_nonneg [IsStrictOrderedRing K] (digits : ℕ) {x : K} (h : 0 ≤ x) : 0 ≤ roundIn digits x := by
  have hscaled : 0 ≤ x * 10 ^ digits := by positivity
  have hfloor : 0 ≤ ⌊x * 10 ^ digits⌋ := Int.floor_nonneg.mpr hscaled
  have hround : 0 ≤ roundHalfEvenIn (x * 10 ^ digits) := by
    unfold roundHalfEvenIn
    simp only
    split_ifs <;> omega
  have hcast : (0 : ℚ) ≤ roundHalfEvenIn (x * 10 ^ digits) := by exact_mod_cast hround
  exact div_nonneg hcast (by positivity)

end Field

theorem roundHalfEvenIn_of_double {x : ℝ} {m : ℕ} (hlow : m ≤ 2 * x) (hhigh : 2 * x < m + 1) :
    roundHalfEvenIn x =
      if m % 2 = 0 then ((m / 2 : ℕ) : ℤ)
      else if (m : ℝ) = 2 * x ∧ m / 2 % 2 = 0 then ((m / 2 : ℕ) : ℤ) else ((m / 2 : ℕ) : ℤ) + 1 := by
  obtain ⟨half, rest, hrest, hm⟩ : ∃ half rest, rest < 2 ∧ m = 2 * half + rest :=
    ⟨m / 2, m % 2, Nat.mod_lt m two_pos, (Nat.div_add_mod m 2).symm⟩
  have hdiv : m / 2 = half := by omega
  have hmod : m % 2 = rest := by omega
  have hcast : (m : ℝ) = 2 * half + rest := by
    rw [hm]
    push_cast
    ring
  have hle : (rest : ℝ) ≤ 1 := by exact_mod_cast Nat.lt_succ_iff.mp hrest
  have hfloor : ⌊x⌋ = half := by
    have hpos : (0 : ℝ) ≤ rest := rest.cast_nonneg
    rw [Int.floor_eq_iff]
    push_cast
    constructor
    · linarith
    · linarith
  unfold roundHalfEvenIn
  simp only
  rw [hfloor, hdiv, hmod]
  push_cast
  obtain rfl | rfl : rest = 0 ∨ rest = 1 := by omega
  · -- an even double leaves less than a half
    have hlt : x - half < 1 / 2 := by
      push_cast at hcast
      linarith
    rw [if_pos hlt, if_pos rfl]
  · push_cast at hcast
    rw [if_neg (by linarith), if_neg one_ne_zero]
    by_cases htie : (m : ℝ) = 2 * x
    · rw [if_neg (by linarith)]
      simp only [htie, true_and]
      norm_cast
    · have hmore : 1 / 2 < x - half := by
        have hlt := lt_of_le_of_ne hlow htie
        linarith
      rw [if_pos hmore, if_neg fun h => htie h.1]

theorem roundRoot_eq {q : ℚ} (h : 0 ≤ q) (digits : ℕ) : roundRoot digits q = roundIn digits √(q : ℝ) := by
  set scaled : ℚ := 4 * q * 100 ^ digits with hscaled
  have hnonneg : 0 ≤ scaled := by positivity
  have hdouble : 2 * (√(q : ℝ) * 10 ^ digits) = √(scaled : ℝ) := by
    have hsquare : (scaled : ℝ) = (2 * (√(q : ℝ) * 10 ^ digits)) ^ 2 := by
      have hroot := Real.sq_sqrt (show (0 : ℝ) ≤ q by exact_mod_cast h)
      have hten : ((10 : ℝ) ^ digits) ^ 2 = 100 ^ digits := by
        rw [← pow_mul, mul_comm, pow_mul]
        norm_num
      rw [hscaled, mul_pow, mul_pow, hroot, hten]
      push_cast
      ring
    rw [hsquare, Real.sqrt_sq (by positivity)]
  set m := Nat.sqrt ⌊scaled⌋.toNat with hm
  have hwhole : ((⌊scaled⌋.toNat : ℕ) : ℤ) = ⌊scaled⌋ := Int.toNat_of_nonneg (Int.floor_nonneg.mpr hnonneg)
  have hwholeCast : ((⌊scaled⌋.toNat : ℕ) : ℚ) = ⌊scaled⌋ := by exact_mod_cast hwhole
  have hlow : (m : ℝ) ≤ 2 * (√(q : ℝ) * 10 ^ digits) := by
    rw [hdouble]
    refine Real.le_sqrt_of_sq_le ?_
    have hsqrt : ((m ^ 2 : ℕ) : ℚ) ≤ scaled := by
      have hfloor := Int.floor_le scaled
      have hle : ((m ^ 2 : ℕ) : ℚ) ≤ (⌊scaled⌋.toNat : ℕ) := by exact_mod_cast Nat.sqrt_le' _
      linarith
    exact_mod_cast hsqrt
  have hhigh : 2 * (√(q : ℝ) * 10 ^ digits) < m + 1 := by
    rw [hdouble, Real.sqrt_lt' (by positivity)]
    have hsqrt : scaled < (((m + 1) ^ 2 : ℕ) : ℚ) := by
      have hfloor := Int.lt_floor_add_one scaled
      have hlt : ((⌊scaled⌋.toNat : ℕ) : ℚ) + 1 ≤ (((m + 1) ^ 2 : ℕ) : ℚ) := by
        exact_mod_cast Nat.lt_succ_sqrt' ⌊scaled⌋.toNat
      linarith
    exact_mod_cast hsqrt
  have htie : (m : ℝ) = 2 * (√(q : ℝ) * 10 ^ digits) ↔ (m : ℚ) ^ 2 = scaled := by
    rw [hdouble, eq_comm, Real.sqrt_eq_iff_eq_sq (by exact_mod_cast hnonneg) m.cast_nonneg, eq_comm]
    norm_cast
  unfold roundRoot roundIn
  rw [roundHalfEvenIn_of_double hlow hhigh]
  simp only [htie, ← hscaled, ← hm]
  split_ifs <;> push_cast <;> rfl

end PyFloat
