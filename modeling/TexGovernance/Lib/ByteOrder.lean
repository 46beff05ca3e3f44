import Mathlib.Tactic.IntervalCases

/-!
# Byte order

Words of a little endian machine and the bytes they are made of.
-/

namespace ByteOrder

abbrev Byte := BitVec 8

@[ext]
structure Four (α : Type) where
  at0 : α
  at1 : α
  at2 : α
  at3 : α
  deriving DecidableEq

namespace Four

variable {α β γ : Type}

def map (f : α → β) (x : Four α) : Four β := ⟨f x.at0, f x.at1, f x.at2, f x.at3⟩

theorem map_map (g : β → γ) (f : α → β) (x : Four α) : (x.map f).map g = x.map (g ∘ f) := rfl

@[simp] theorem map_id (x : Four α) : x.map id = x := rfl

theorem map_map_of_leftInverse {g : β → α} {f : α → β} (h : Function.LeftInverse g f) (x : Four α) :
    (x.map f).map g = x := by
  rw [map_map, h.comp_eq_id, map_id]

def fill (a : α) : Four α := ⟨a, a, a, a⟩

end Four

def le32 (b : Four Byte) : BitVec 32 := b.at3 ++ b.at2 ++ b.at1 ++ b.at0

def putLe32 (w : BitVec 32) : Four Byte :=
  ⟨w.extractLsb' 0 8, w.extractLsb' 8 8, w.extractLsb' 16 8, w.extractLsb' 24 8⟩

theorem low_append {n : ℕ} (hi : BitVec n) (lo : Byte) : (hi ++ lo).extractLsb' 0 8 = lo := by
  rw [BitVec.extractLsb'_append_eq_of_add_le (by decide), BitVec.extractLsb'_eq_self]

theorem high_append {n : ℕ} (hi : BitVec n) (lo : Byte) (k : ℕ) :
    (hi ++ lo).extractLsb' (8 + k) 8 = hi.extractLsb' k 8 := by
  rw [BitVec.extractLsb'_append_eq_of_le (by omega), Nat.add_sub_cancel_left]

theorem putLe32_le32 : Function.LeftInverse putLe32 le32 := by
  intro b
  refine Four.ext (low_append _ b.at0) ?_ ?_ ?_
  · exact (high_append _ b.at0 0).trans (low_append _ b.at1)
  · exact (high_append _ b.at0 8).trans ((high_append _ b.at1 0).trans (low_append _ b.at2))
  · exact (high_append _ b.at0 16).trans ((high_append _ b.at1 8).trans
      ((high_append b.at3 b.at2 0).trans BitVec.extractLsb'_eq_self))

theorem le32_injective : Function.Injective le32 := Function.LeftInverse.injective putLe32_le32

def swap16 (p : BitVec 16) : BitVec 16 := p.extractLsb' 0 8 ++ p.extractLsb' 8 8

@[simp] theorem swap16_swap16 (p : BitVec 16) : swap16 (swap16 p) = p := by
  have hlow : (swap16 p).extractLsb' 0 8 = p.extractLsb' 8 8 := low_append _ _
  have hhigh : (swap16 p).extractLsb' 8 8 = p.extractLsb' 0 8 :=
    (high_append (p.extractLsb' 0 8) _ 0).trans BitVec.extractLsb'_eq_self
  show (swap16 p).extractLsb' 0 8 ++ (swap16 p).extractLsb' 8 8 = p
  rw [hlow, hhigh]
  exact BitVec.extractLsb'_append_extractLsb'

theorem swap16_injective : Function.Injective swap16 :=
  Function.LeftInverse.injective (g := swap16) swap16_swap16

theorem swap16_eq_shifts (p : BitVec 16) :
    swap16 p = p <<< 8 &&& 0xff00#16 ||| p >>> 8 &&& 0x00ff#16 := by
  unfold swap16
  apply BitVec.eq_of_getLsbD_eq
  intro i hi
  simp only [BitVec.getLsbD_append, BitVec.getLsbD_extractLsb']
  interval_cases i <;> simp

end ByteOrder
