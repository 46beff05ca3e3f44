import Mathlib.Data.Set.Basic

/-!
# Ground programs with stratified negation

A ground program is a set of clauses over arbitrary atoms. Its perfect model is built level by
level; it is the one set that consists of what is derivable when negation is read in the set.
-/

namespace StratifiedLogic

variable {α : Type}

structure Clause (α : Type) where
  head : α
  pos : Set α
  neg : Set α

/-- What is derivable when a negated atom is read in `N`. -/
inductive Derived (P : Set (Clause α)) (N : Set α) : α → Prop
  | clause (c : Clause α) (hc : c ∈ P) (hpos : ∀ a ∈ c.pos, Derived P N a)
      (hneg : ∀ a ∈ c.neg, a ∉ N) : Derived P N c.head

def Stable (P : Set (Clause α)) (M : Set α) : Prop := ∀ a, a ∈ M ↔ Derived P M a

structure Stratified (P : Set (Clause α)) (level : α → ℕ) : Prop where
  pos : ∀ c ∈ P, ∀ a ∈ c.pos, level a ≤ level c.head
  neg : ∀ c ∈ P, ∀ a ∈ c.neg, level a < level c.head

/-- The least set that contains `below` and is closed under the clauses of
level `n`, with negation read in `below`. -/
inductive Layer (P : Set (Clause α)) (level : α → ℕ) (n : ℕ) (below : Set α) : α → Prop
  | lower (a : α) (ha : a ∈ below) : Layer P level n below a
  | clause (c : Clause α) (hc : c ∈ P) (hlevel : level c.head = n)
      (hpos : ∀ a ∈ c.pos, Layer P level n below a) (hneg : ∀ a ∈ c.neg, a ∉ below) :
      Layer P level n below c.head

/-- The atoms of the levels under `n`. -/
def upTo (P : Set (Clause α)) (level : α → ℕ) : ℕ → Set α
  | 0 => ∅
  | n + 1 => {a | Layer P level n (upTo P level n) a}

def perfect (P : Set (Clause α)) (level : α → ℕ) : Set α := {a | ∃ n, a ∈ upTo P level n}

variable {P : Set (Clause α)} {level : α → ℕ}

theorem upTo_mono {n m : ℕ} (h : n ≤ m) {a : α} (ha : a ∈ upTo P level n) : a ∈ upTo P level m := by
  induction h with
  | refl => exact ha
  | step _ ih => exact Layer.lower a ih

theorem upTo_of_level {n m : ℕ} {a : α} (ha : a ∈ upTo P level n) (h : level a < m) :
    a ∈ upTo P level m := by
  induction n with
  | zero => exact absurd ha (Set.notMem_empty a)
  | succ n ih =>
    have hlayer : Layer P level n (upTo P level n) a := ha
    cases hlayer with
    | lower _ hbelow => exact ih hbelow
    | clause c _ hlevel _ _ => exact upTo_mono (by omega) ha

theorem derived_of_upTo (h : Stratified P level) (n : ℕ) {a : α} (ha : a ∈ upTo P level n) :
    Derived P (perfect P level) a := by
  induction n generalizing a with
  | zero => exact absurd ha (Set.notMem_empty a)
  | succ n ih =>
    have hlayer : Layer P level n (upTo P level n) a := ha
    induction hlayer with
    | lower b hbelow => exact ih hbelow
    | clause c hc hlevel hpos hneg ihpos =>
      refine .clause c hc (fun b hb => ihpos b hb (hpos b hb)) fun b hb hmem => ?_
      obtain ⟨m, hm⟩ := hmem
      exact hneg b hb (upTo_of_level hm (hlevel ▸ h.neg c hc b hb))

theorem perfect_of_derived (h : Stratified P level) {a : α}
    (ha : Derived P (perfect P level) a) : a ∈ perfect P level := by
  induction ha with
  | clause c hc _ hneg ih =>
    refine ⟨level c.head + 1, Layer.clause c hc rfl (fun b hb => ?_) fun b hb hmem => ?_⟩
    · obtain ⟨m, hm⟩ := ih b hb
      exact upTo_of_level hm (Nat.lt_succ_of_le (h.pos c hc b hb))
    · exact hneg b hb ⟨_, hmem⟩

theorem perfect_stable (h : Stratified P level) : Stable P (perfect P level) := fun _ =>
  ⟨fun ⟨n, hn⟩ => derived_of_upTo h n hn, perfect_of_derived h⟩

theorem Derived.congr (h : Stratified P level) {M N : Set α} {n : ℕ}
    (hagree : ∀ a, level a < n → (a ∈ M ↔ a ∈ N)) {a : α} (ha : Derived P M a) (hlevel : level a ≤ n) :
    Derived P N a := by
  induction ha with
  | clause c hc _ hneg ih =>
    refine .clause c hc (fun b hb => ih b hb ((h.pos c hc b hb).trans hlevel)) fun b hb hmem => ?_
    exact hneg b hb ((hagree b ((h.neg c hc b hb).trans_le hlevel)).mpr hmem)

theorem Stable.unique (h : Stratified P level) {M N : Set α} (hM : Stable P M) (hN : Stable P N) :
    M = N := by
  have hagree : ∀ n a, level a < n → (a ∈ M ↔ a ∈ N) := by
    intro n
    induction n with
    | zero => exact fun a ha => absurd ha (Nat.not_lt_zero _)
    | succ n ih =>
      intro a ha
      have hle : level a ≤ n := Nat.le_of_lt_succ ha
      rw [hM a, hN a]
      exact ⟨fun hd => hd.congr h ih hle, fun hd => hd.congr h (fun b hb => (ih b hb).symm) hle⟩
  exact Set.ext fun a => hagree (level a + 1) a (Nat.lt_succ_self _)

theorem stable_iff_perfect (h : Stratified P level) {M : Set α} :
    Stable P M ↔ M = perfect P level := by
  constructor
  · intro hM
    exact hM.unique h (perfect_stable h)
  · intro hM
    rw [hM]
    exact perfect_stable h

end StratifiedLogic
