import Mathlib.Logic.Function.Basic
import Mathlib.Data.List.Induction
import Mathlib.Tactic.SplitIfs

/-!
# Reconciling a shared table

An owner holds keys in a table that others write as well. In a round it puts every key that it
wants under one value, then deletes the keys of its last round that it no longer wants.
-/

namespace Reconcile

variable {κ ν : Type} [DecidableEq κ]

def putAll (v : ν) (keys : List κ) (table : κ → Option ν) : κ → Option ν :=
  keys.foldl (fun t k => Function.update t k (some v)) table

def deleteFallen (owned wanted : List κ) (table : κ → Option ν) : κ → Option ν :=
  owned.foldl (fun t k => if k ∈ wanted then t else Function.update t k none) table

theorem putAll_apply (v : ν) (keys : List κ) (table : κ → Option ν) (k : κ) :
    putAll v keys table k = if k ∈ keys then some v else table k := by
  induction keys generalizing table with
  | nil => rfl
  | cons first rest ih =>
    show putAll v rest (Function.update table first (some v)) k = _
    rw [ih, Function.update_apply]
    simp only [List.mem_cons]
    grind

theorem deleteFallen_apply (owned wanted : List κ) (table : κ → Option ν) (k : κ) :
    deleteFallen owned wanted table k = if k ∈ owned ∧ k ∉ wanted then none else table k := by
  induction owned generalizing table with
  | nil => simp [deleteFallen]
  | cons first rest ih =>
    show deleteFallen rest wanted (if first ∈ wanted then table else Function.update table first none) k = _
    rw [ih]
    simp only [List.mem_cons]
    by_cases hk : k = first
    · subst hk
      by_cases hwanted : k ∈ wanted <;> simp [hwanted]
    · by_cases hwanted : first ∈ wanted <;> simp [hwanted, hk]

structure Shared (κ ν : Type) where
  owned : List κ
  table : κ → Option ν

def round (v : ν) (wanted : List κ) (s : Shared κ ν) : Shared κ ν :=
  ⟨wanted, deleteFallen s.owned wanted (putAll v wanted s.table)⟩

theorem round_table (v : ν) (wanted : List κ) (s : Shared κ ν) (k : κ) :
    (round v wanted s).table k =
      if k ∈ wanted then some v else if k ∈ s.owned then none else s.table k := by
  show deleteFallen s.owned wanted (putAll v wanted s.table) k = _
  rw [deleteFallen_apply, putAll_apply]
  by_cases hwanted : k ∈ wanted <;> simp [hwanted]

def rounds (v : ν) (start : κ → Option ν) (wants : List (List κ)) : Shared κ ν :=
  wants.foldl (fun s wanted => round v wanted s) ⟨[], start⟩

theorem rounds_concat (v : ν) (start : κ → Option ν) (wants : List (List κ)) (wanted : List κ) :
    rounds v start (wants ++ [wanted]) = round v wanted (rounds v start wants) := by
  simp [rounds]

theorem rounds_owned (v : ν) (start : κ → Option ν) (wants : List (List κ)) :
    (rounds v start wants).owned = wants.getLast?.getD [] := by
  induction wants using List.reverseRecOn with
  | nil => rfl
  | append_singleton wants wanted _ =>
    rw [rounds_concat]
    simp [round]

theorem rounds_table (v : ν) (start : κ → Option ν) (wants : List (List κ)) (k : κ) :
    (rounds v start wants).table k =
      if k ∈ wants.getLast?.getD [] then some v
      else if ∃ wanted ∈ wants, k ∈ wanted then none else start k := by
  induction wants using List.reverseRecOn with
  | nil => simp [rounds]
  | append_singleton wants wanted ih =>
    rw [rounds_concat, round_table, rounds_owned, ih]
    have hlast : k ∈ wants.getLast?.getD [] → ∃ w ∈ wants, k ∈ w := by
      intro hk
      cases hw : wants.getLast? with
      | none => simp [hw] at hk
      | some w =>
        refine ⟨w, List.mem_of_getLast? hw, ?_⟩
        simpa [hw] using hk
    simp only [List.getLast?_append, List.getLast?_singleton, Option.some_or, Option.getD_some,
      List.mem_append, List.mem_singleton, or_and_right, exists_or, exists_eq_left]
    by_cases hwanted : k ∈ wanted
    · simp [hwanted]
    · by_cases hk : k ∈ wants.getLast?.getD []
      · simp [hwanted, hk, hlast hk]
      · simp [hwanted, hk]

structure Settled (now ever : Prop) (v : ν) (before after : Option ν) : Prop where
  wanted : now → after = some v
  dropped : ¬now → ever → after = none
  untouched : ¬ever → after = before

theorem settled_congr {now now' ever ever' : Prop} (hnow : now ↔ now') (hever : ever ↔ ever') {v : ν}
    {before after : Option ν} (h : Settled now ever v before after) : Settled now' ever' v before after :=
  ⟨fun hn => h.wanted (hnow.mpr hn), fun hn he => h.dropped (mt hnow.mp hn) (hever.mpr he),
    fun he => h.untouched (mt hever.mp he)⟩

theorem Settled.eq_some_iff {now ever : Prop} {v : ν} {before after : Option ν}
    (h : Settled now ever v before after) : after = some v ↔ now ∨ before = some v ∧ ¬ever := by
  by_cases hnow : now
  · simp [h.wanted hnow, hnow]
  by_cases hever : ever
  · simp [h.dropped hnow hever, hnow, hever]
  · simp [h.untouched hever, hnow, hever]

theorem rounds_settled (v : ν) (start : κ → Option ν) (wants : List (List κ)) (k : κ) :
    Settled (k ∈ wants.getLast?.getD []) (∃ wanted ∈ wants, k ∈ wanted) v (start k)
      ((rounds v start wants).table k) where
  wanted hnow := by rw [rounds_table, if_pos hnow]
  dropped hnow hever := by rw [rounds_table, if_neg hnow, if_pos hever]
  untouched hever := by
    have hnow : k ∉ wants.getLast?.getD [] := by
      intro hk
      cases hlast : wants.getLast? with
      | none => simp [hlast] at hk
      | some wanted => exact hever ⟨wanted, List.mem_of_getLast? hlast, by simpa [hlast] using hk⟩
    rw [rounds_table, if_neg hnow, if_neg hever]

end Reconcile
