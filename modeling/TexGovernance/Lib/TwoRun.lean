import TexGovernance.Lib.PyDict
import Mathlib.Data.List.Forall2
import Mathlib.Data.Option.Basic

/-!
# Two runs over labelled values

An observer sees the content of a labelled value where its label is visible. Two runs are
compared by low equality: the labels agree, and so do the contents that are visible. What is
derived from others gets the join of their labels.
-/

namespace TwoRun
open PyDict

structure Labels (L : Type) where
  empty : L
  join : L → L → L
  visible : L → Prop
  visible_join : ∀ a b, visible (join a b) → visible a ∧ visible b

section LowEquality

variable {X L V : Type} (label : X → L) (value : X → V)

def LowEq (ls : Labels L) (x y : X) : Prop :=
  label x = label y ∧ (ls.visible (label x) → value x = value y)

def joinAll (ls : Labels L) (xs : List X) : L := xs.foldl (fun l x => ls.join l (label x)) ls.empty

variable {label value} {ls : Labels L}

theorem lowEq_of_eq {x y : X} (h : x = y) : LowEq label value ls x y := by
  rw [h]
  exact ⟨rfl, fun _ => rfl⟩

theorem visible_foldl {l : L} {xs : List X}
    (h : ls.visible (xs.foldl (fun l x => ls.join l (label x)) l)) :
    ls.visible l ∧ ∀ x ∈ xs, ls.visible (label x) := by
  induction xs generalizing l with
  | nil => exact ⟨h, fun _ hx => absurd hx List.not_mem_nil⟩
  | cons x xs ih =>
    obtain ⟨hjoin, hrest⟩ := ih h
    obtain ⟨hl, hx⟩ := ls.visible_join _ _ hjoin
    refine ⟨hl, fun y hy => ?_⟩
    rcases List.mem_cons.mp hy with rfl | hy
    · exact hx
    · exact hrest y hy

theorem joinAll_eq {xs ys : List X} (h : List.Forall₂ (LowEq label value ls) xs ys) :
    joinAll label ls xs = joinAll label ls ys := by
  have hlabels : xs.map label = ys.map label := by
    induction h with
    | nil => rfl
    | cons hxy _ ih => rw [List.map_cons, List.map_cons, hxy.1, ih]
  have hfold : ∀ zs : List X,
      joinAll label ls zs = (zs.map label).foldl ls.join ls.empty := fun zs => List.foldl_map.symm
  rw [hfold, hfold, hlabels]

theorem eq_of_visible_joinAll {xs ys : List X}
    (hext : ∀ x y, label x = label y → value x = value y → x = y)
    (h : List.Forall₂ (LowEq label value ls) xs ys) (hvisible : ls.visible (joinAll label ls xs)) :
    xs = ys := by
  have hall := (visible_foldl hvisible).2
  clear hvisible
  induction h with
  | nil => rfl
  | cons hxy _ ih =>
    have hhead := hext _ _ hxy.1 (hxy.2 (hall _ List.mem_cons_self))
    rw [hhead, ih fun z hz => hall z (List.mem_cons_of_mem _ hz)]

theorem lowEq_derived {xs ys : List X}
    (hext : ∀ x y, label x = label y → value x = value y → x = y)
    (h : List.Forall₂ (LowEq label value ls) xs ys) (f : List X → V) {x y : X}
    (hx : label x = joinAll label ls xs) (hy : label y = joinAll label ls ys)
    (hfx : value x = f xs) (hfy : value y = f ys) : LowEq label value ls x y := by
  refine ⟨by rw [hx, hy, joinAll_eq h], fun hvisible => ?_⟩
  rw [hx] at hvisible
  rw [hfx, hfy, eq_of_visible_joinAll hext h hvisible]

end LowEquality

section Dictionaries

variable {κ ν : Type} [DecidableEq κ]

def DictRel (R : ν → ν → Prop) (d e : Dict κ ν) : Prop := ∀ k, Option.Rel R (d.get? k) (e.get? k)

variable {R : ν → ν → Prop}

theorem dictRel_empty : DictRel R (Dict.empty : Dict κ ν) Dict.empty := fun _ => .none

theorem DictRel.set {d e : Dict κ ν} (h : DictRel R d e) (k : κ) {v w : ν} (hvw : R v w) :
    DictRel R (d.set k v) (e.set k w) := by
  intro k'
  rw [Dict.get?_set, Dict.get?_set]
  by_cases hk : k' = k
  · rw [if_pos hk, if_pos hk]
    exact .some hvw
  · rw [if_neg hk, if_neg hk]
    exact h k'

end Dictionaries

section Outcomes

variable {ε α β γ δ : Type}

inductive OutcomeRel (R : α → β → Prop) : Except ε α → Except ε β → Prop where
  | error (e : ε) : OutcomeRel R (.error e) (.error e)
  | ok {a : α} {b : β} (h : R a b) : OutcomeRel R (.ok a) (.ok b)

variable {R : α → β → Prop}

theorem OutcomeRel.of_eq {x y : Except ε α} (h : x = y) : OutcomeRel Eq x y := by
  subst h
  cases x with
  | error e => exact .error e
  | ok a => exact .ok rfl

theorem OutcomeRel.mono {S : α → β → Prop} {x : Except ε α} {y : Except ε β}
    (h : OutcomeRel R x y) (hRS : ∀ a b, R a b → S a b) : OutcomeRel S x y := by
  cases h with
  | error e => exact .error e
  | ok hab => exact .ok (hRS _ _ hab)

theorem OutcomeRel.map {S : γ → δ → Prop} {x : Except ε α} {y : Except ε β} {f : α → γ} {g : β → δ}
    (h : OutcomeRel R x y) (hfg : ∀ a b, R a b → S (f a) (g b)) :
    OutcomeRel S (x.map f) (y.map g) := by
  cases h with
  | error e => exact .error e
  | ok hab => exact .ok (hfg _ _ hab)

theorem OutcomeRel.bind {S : γ → δ → Prop} {x : Except ε α} {y : Except ε β}
    {f : α → Except ε γ} {g : β → Except ε δ} (h : OutcomeRel R x y)
    (hfg : ∀ a b, R a b → OutcomeRel S (f a) (g b)) : OutcomeRel S (x.bind f) (y.bind g) := by
  cases h with
  | error e => exact .error e
  | ok hab => exact hfg _ _ hab

theorem OutcomeRel.mapM {ι : Type} {f : ι → Except ε α} {g : ι → Except ε β}
    (h : ∀ i, OutcomeRel R (f i) (g i)) (is : List ι) :
    OutcomeRel (List.Forall₂ R) (is.mapM f) (is.mapM g) := by
  induction is with
  | nil => exact .ok .nil
  | cons i is ih =>
    rw [List.mapM_cons, List.mapM_cons]
    refine (h i).bind fun a b hab => ?_
    refine ih.bind fun as bs habs => ?_
    exact .ok (.cons hab habs)

end Outcomes

end TwoRun
