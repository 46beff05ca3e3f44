import TexGovernance.Lib.PyStr
import Mathlib.Data.Rat.Floor
import Mathlib.Algebra.Order.Ring.Abs
import Mathlib.Order.Interval.Set.ProjIcc
import Mathlib.Tactic.Linarith
import Mathlib.Tactic.Positivity

/-!
# Python floats

A finite float is a rational number, and the modelled code never computes a
float that a proof depends on up to rounding: it compares, clamps and copies
them. Scores that a validator keeps between 0 and 1 carry that as their type.
-/

namespace PyFloat
open PyStr

/-- A float that `Field(ge=0.0, le=1.0)` admits. -/
abbrev UnitScore := Set.Icc (0 : ℚ) 1

instance rat_isOrderedRing : IsOrderedRing ℚ := inferInstance

theorem tenth_mem : (1 / 10 : ℚ) ∈ UnitScore := by norm_num

theorem fifth_mem : (2 / 10 : ℚ) ∈ UnitScore := by norm_num

theorem nineTenths_mem : (9 / 10 : ℚ) ∈ UnitScore := by norm_num

def clampUnit (x : ℚ) : UnitScore := Set.projIcc 0 1 zero_le_one x

def roundHalfEven (q : ℚ) : ℤ :=
  let rest := q - ⌊q⌋
  if rest < 1 / 2 then ⌊q⌋
  else if 1 / 2 < rest then ⌊q⌋ + 1
  else if ⌊q⌋ % 2 = 0 then ⌊q⌋ else ⌊q⌋ + 1

theorem roundHalfEven_bounds {q : ℚ} {n : ℕ} (h0 : 0 ≤ q) (hn : q ≤ n) :
    0 ≤ roundHalfEven q ∧ roundHalfEven q ≤ n := by
  have hfloor : 0 ≤ ⌊q⌋ := Int.floor_nonneg.mpr h0
  have hle : ⌊q⌋ ≤ n := by
    have hcast : (⌊q⌋ : ℚ) ≤ n := (Int.floor_le q).trans hn
    exact_mod_cast hcast
  -- at the upper end there is nothing to round up
  have hlast : ⌊q⌋ = n → q - ⌊q⌋ ≤ 0 := by
    intro heq
    rw [heq]
    push_cast
    linarith
  unfold roundHalfEven
  simp only
  split
  · exact ⟨hfloor, hle⟩
  · rename_i hhalf
    have hlt : ⌊q⌋ < n := by
      rcases lt_or_eq_of_le hle with hlt | heq
      · exact hlt
      · have hrest := hlast heq
        linarith
    split
    · exact ⟨by omega, by omega⟩
    · split
      · exact ⟨hfloor, hle⟩
      · exact ⟨by omega, by omega⟩

theorem roundHalfEven_unit {q : ℚ} (hq : q ∈ Set.Icc (0 : ℚ) 1) {n : ℕ} (hn : 0 < n) :
    (roundHalfEven (q * n) : ℚ) / n ∈ Set.Icc (0 : ℚ) 1 := by
  have hpos : (0 : ℚ) < n := by exact_mod_cast hn
  obtain ⟨h0, h1⟩ := roundHalfEven_bounds (mul_nonneg hq.1 hpos.le)
    (mul_le_of_le_one_left hpos.le hq.2)
  have h0' : (0 : ℚ) ≤ roundHalfEven (q * n) := by exact_mod_cast h0
  have h1' : (roundHalfEven (q * n) : ℚ) ≤ n := by exact_mod_cast h1
  exact ⟨div_nonneg h0' hpos.le, (div_le_one hpos).mpr h1'⟩

theorem abs_roundHalfEven_sub_le (q : ℚ) : |(roundHalfEven q : ℚ) - q| ≤ 1 / 2 := by
  have hle : (⌊q⌋ : ℚ) ≤ q := Int.floor_le q
  have hlt : q < ⌊q⌋ + 1 := Int.lt_floor_add_one q
  unfold roundHalfEven
  simp only
  split
  · rw [abs_le]
    constructor <;> linarith
  · split
    · push_cast
      rw [abs_le]
      constructor <;> linarith
    · split
      · rw [abs_le]
        constructor <;> linarith
      · push_cast
        rw [abs_le]
        constructor <;> linarith

theorem roundHalfEven_floor_cases (q : ℚ) :
    (roundHalfEven q = ⌊q⌋ ∧ q - ⌊q⌋ ≤ 1 / 2) ∨ (roundHalfEven q = ⌊q⌋ + 1 ∧ 1 / 2 ≤ q - ⌊q⌋) := by
  unfold roundHalfEven
  simp only
  split
  · rename_i hlow
    exact .inl ⟨rfl, hlow.le⟩
  · rename_i hlow
    split
    · rename_i hhigh
      exact .inr ⟨rfl, hhigh.le⟩
    · rename_i hhigh
      split
      · exact .inl ⟨rfl, not_lt.mp hhigh⟩
      · exact .inr ⟨rfl, not_lt.mp hlow⟩

theorem roundHalfEven_mono {p q : ℚ} (h : p ≤ q) : roundHalfEven p ≤ roundHalfEven q := by
  have hfloor : ⌊p⌋ ≤ ⌊q⌋ := Int.floor_le_floor h
  rcases eq_or_lt_of_le hfloor with heq | hlt
  · rcases eq_or_lt_of_le h with rfl | hpq
    · exact le_rfl
    · rcases roundHalfEven_floor_cases p with ⟨hp, _⟩ | ⟨hp, hhalf⟩
      · rcases roundHalfEven_floor_cases q with ⟨hq, _⟩ | ⟨hq, _⟩
        · omega
        · omega
      · have hsame : (⌊p⌋ : ℚ) = ⌊q⌋ := by rw [heq]
        rcases roundHalfEven_floor_cases q with ⟨_, hq⟩ | ⟨hq, _⟩
        · linarith
        · omega
  · rcases roundHalfEven_floor_cases p with ⟨hp, _⟩ | ⟨hp, _⟩
    all_goals rcases roundHalfEven_floor_cases q with ⟨hq, _⟩ | ⟨hq, _⟩
    all_goals omega

theorem roundHalfEven_add_even (q : ℚ) (k : ℤ) :
    roundHalfEven (q + (2 * k : ℤ)) = roundHalfEven q + 2 * k := by
  have hfloor : ⌊q + (2 * k : ℤ)⌋ = ⌊q⌋ + 2 * k := Int.floor_add_intCast q (2 * k)
  have hrest : q + (2 * k : ℤ) - (⌊q⌋ + 2 * k : ℤ) = q - ⌊q⌋ := by
    push_cast
    ring
  have hparity : (⌊q⌋ + 2 * k) % 2 = ⌊q⌋ % 2 := by omega
  unfold roundHalfEven
  simp only [hfloor]
  rw [hrest, hparity]
  split_ifs
  all_goals ring

/-- `round(x, digits)`. -/
def roundTo (digits : ℕ) (q : ℚ) : ℚ := roundHalfEven (q * 10 ^ digits) / 10 ^ digits

theorem abs_roundTo_sub_le (digits : ℕ) (q : ℚ) : |roundTo digits q - q| ≤ 1 / (2 * 10 ^ digits) := by
  have hpos : (0 : ℚ) < 10 ^ digits := by positivity
  have hscaled : roundTo digits q - q = ((roundHalfEven (q * 10 ^ digits) : ℚ) - q * 10 ^ digits) / 10 ^ digits := by
    unfold roundTo
    field_simp
  rw [hscaled, abs_div, abs_of_pos hpos, div_le_div_iff₀ hpos (by positivity)]
  have hhalf := abs_roundHalfEven_sub_le (q * 10 ^ digits)
  nlinarith

theorem roundTo_mono (digits : ℕ) {p q : ℚ} (h : p ≤ q) : roundTo digits p ≤ roundTo digits q := by
  have hpos : (0 : ℚ) < 10 ^ digits := by positivity
  have hscaled : roundHalfEven (p * 10 ^ digits) ≤ roundHalfEven (q * 10 ^ digits) :=
    roundHalfEven_mono (mul_le_mul_of_nonneg_right h hpos.le)
  exact div_le_div_of_nonneg_right (by exact_mod_cast hscaled) hpos.le

theorem roundTo_add_even (digits : ℕ) (q : ℚ) (k : ℤ) :
    roundTo digits (q + (2 * k : ℤ) / 10 ^ digits) = roundTo digits q + (2 * k : ℤ) / 10 ^ digits := by
  have hpos : (10 : ℚ) ^ digits ≠ 0 := by positivity
  have hscaled : (q + (2 * k : ℤ) / 10 ^ digits) * 10 ^ digits = q * 10 ^ digits + (2 * k : ℤ) := by
    field_simp
  unfold roundTo
  rw [hscaled, roundHalfEven_add_even]
  push_cast
  field_simp

theorem roundTo_min (digits : ℕ) (p q : ℚ) :
    roundTo digits (min p q) = min (roundTo digits p) (roundTo digits q) := by
  rcases le_total p q with h | h
  · rw [min_eq_left h, min_eq_left (roundTo_mono digits h)]
  · rw [min_eq_right h, min_eq_right (roundTo_mono digits h)]

/-- `round(q ** 0.5, digits)` of a number that is not negative: twice the scaled root is
between the whole number `m` and the next one. -/
def roundRoot (digits : ℕ) (q : ℚ) : ℚ :=
  let scaled := 4 * q * 100 ^ digits
  let m := Nat.sqrt ⌊scaled⌋.toNat
  let whole := m / 2
  let rounded :=
    if m % 2 = 0 then whole
    else if (m : ℚ) ^ 2 = scaled ∧ whole % 2 = 0 then whole else whole + 1
  rounded / 10 ^ digits

/-- The format `.1f` of a finite float. -/
def fixed1 (q : ℚ) : Str :=
  let n := (roundHalfEven (|q| * 10)).toNat
  let digits := Nat.toDigits 10 (n / 10) ++ '.' :: Nat.toDigits 10 (n % 10)
  (if q < 0 then '-' :: digits else digits).map cp

/-- The format `.3f` of a finite float, which is a rational number. -/
def fixed3 (q : ℚ) : Str :=
  let n := (roundHalfEven (|q| * 1000)).toNat
  let digits := Nat.toDigits 10 (n / 1000) ++ '.' :: (Nat.toDigits 10 (n % 1000)).leftpad 3 '0'
  (if q < 0 then '-' :: digits else digits).map cp

end PyFloat
