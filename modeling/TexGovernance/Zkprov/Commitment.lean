import TexGovernance.Lib.PyBytes
import TexGovernance.Lib.Sha2

/-!
# Merkle commitments over the BN254 field

The hashing of `zkprov/commitment.py`: leaves and nodes by Poseidon where the `poseidon-hash`
package is installed and by reduced SHA-256 where it is not, and the reading of a field element
from its text.
-/

namespace TexGovernance.Zkprov
open PyStr PyBytes PyCodec Sha256 Sha512

def bn254R : ℕ := 0x30644e72e131a029b85045b68181585d2833e84879b9709143e1f593f0000001

structure FieldElement where
  val : ℕ
  lt : val < bn254R
  deriving DecidableEq

/-- `int.from_bytes(bs, "big") % _BN254_R` -/
def reduce (bs : Bytes) : FieldElement :=
  ⟨fromBytesBig bs % bn254R, Nat.mod_lt _ (by decide)⟩

/-- `int.to_bytes(32, "big")` -/
def toBytes32 (x : ℤ) : Except PyErr Bytes :=
  if 0 ≤ x ∧ x < 2 ^ 256 then .ok (toBytesBig 32 x.toNat) else .error .overflowError

theorem toBytes32_field (x : FieldElement) : toBytes32 x.val = .ok (toBytesBig 32 x.val) := by
  have hR : bn254R < 2 ^ 256 := by decide
  have hlt := x.lt
  unfold toBytes32
  rw [if_pos ⟨by omega, by exact_mod_cast hlt.trans hR⟩, Int.toNat_natCast]

def returned {ε α : Type} (x : Except ε α) (h : ∃ v, x = .ok v) : α :=
  match x, h with
  | .ok v, _ => v

/-- An instance of `poseidon.Poseidon`: two field elements are always hashed,
and `int` of the result is a field element. -/
structure Poseidon where
  runHash : ℤ → ℤ → Except PyErr FieldElement
  accepts : ∀ a b : FieldElement, ∃ v, runHash a.val b.val = .ok v

def tagBytes (s : String) : Bytes := s.toList.map fun c => byte c.toNat

def h2LeafSha256 (record : Bytes) : FieldElement :=
  reduce (sha256 (tagBytes "tex/zkprov/leaf" ++ 0 :: record)).bytes

def h2NodeSha256 (left right : ℤ) : Except PyErr FieldElement := do
  let leftB ← toBytes32 left
  let rightB ← toBytes32 right
  return reduce (sha256 (tagBytes "tex/zkprov/node" ++ 0 :: leftB ++ rightB)).bytes

def domainTag : ℤ := (1 <<< 250) % bn254R

-- the package, where `_poseidon_bn254_t3` finds it
variable (poseidon : Option Poseidon)

def h2LeafPoseidon (record : Bytes) : FieldElement :=
  match poseidon with
  | none => h2LeafSha256 record
  | some p =>
    let digest := sha512 (tagBytes "tex/zkprov/leaf-poseidon" ++ 0 :: record)
    returned _ (p.accepts (reduce (digest.take 32)) (reduce (digest.drop 32)))

def h2NodePoseidon (left right : ℤ) : Except PyErr FieldElement :=
  match poseidon with
  | none => h2NodeSha256 left right
  | some p => p.runHash ((left + domainTag) % bn254R) right

def h2Node (left right : ℤ) : Except PyErr FieldElement := h2NodePoseidon poseidon left right

theorem h2Node_field (left right : FieldElement) : ∃ v, h2Node poseidon left.val right.val = .ok v := by
  unfold h2Node h2NodePoseidon
  cases poseidon with
  | none =>
    unfold h2NodeSha256
    rw [toBytes32_field, toBytes32_field]
    exact ⟨_, rfl⟩
  | some p =>
    have hpos : (0 : ℤ) < bn254R := by decide
    have hnonneg := Int.emod_nonneg (left.val + domainTag) hpos.ne'
    have hlt := Int.emod_lt_of_pos (left.val + domainTag) hpos
    obtain ⟨v, hv⟩ := p.accepts ⟨((left.val + domainTag) % bn254R).toNat, by omega⟩ right
    refine ⟨v, ?_⟩
    rwa [Int.toNat_of_nonneg hnonneg] at hv

/-- `_h2_node` on two field elements, where it does not raise. -/
def join (left right : FieldElement) : FieldElement := returned _ (h2Node_field poseidon left right)

def compress : List FieldElement → List FieldElement
  | left :: right :: rest => join poseidon left right :: compress rest
  | _ => []

def digit16? (c : CodePoint) : Option ℕ :=
  match decimal? c with
  | some d => some d
  | none => hexValue? c

/-- Digits with single underscores between them; `needed` says that a digit has
to come next. -/
def readDigits16 : Bool → ℕ → Str → Option ℕ
  | needed, acc, [] => if needed then none else some acc
  | needed, acc, c :: rest =>
    if c = cp '_' then if needed then none else readDigits16 true acc rest
    else match digit16? c with
      | some d => readDigits16 false (16 * acc + d) rest
      | none => none

def dropPrefix16 : Str → Str
  | z :: x :: rest =>
    if digit16? z = some 0 ∧ (x = cp 'x' ∨ x = cp 'X') then
      match rest with
      | u :: digits => if u = cp '_' then digits else rest
      | [] => []
    else z :: x :: rest
  | s => s

def intBase16 (s : Str) : Except PyErr ℤ :=
  let (negative, body) :=
    match strip s with
    | c :: rest =>
      if c = cp '-' then (true, rest) else if c = cp '+' then (false, rest) else (false, c :: rest)
    | [] => (false, [])
  match readDigits16 true 0 (dropPrefix16 body) with
  | some n => .ok (if negative then -n else n)
  | none => .error .valueError

end TexGovernance.Zkprov
