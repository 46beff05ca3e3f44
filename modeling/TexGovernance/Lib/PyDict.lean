import Mathlib.Data.List.Basic
import Mathlib.Data.List.Induction
import Mathlib.Data.List.Nodup

/-!
# Python dictionaries

An insertion-ordered dictionary: the items in the order of their first
insertion, with pairwise distinct keys. An assignment to a present key keeps
its place. The items are what iteration, `popitem` and `sorted` see.
-/

namespace PyDict

structure Dict (κ ν : Type) where
  items : List (κ × ν)
  nodup : (items.map Prod.fst).Nodup

namespace Dict

variable {κ ν : Type} [DecidableEq κ]

def empty : Dict κ ν := ⟨[], List.nodup_nil⟩

def keys (d : Dict κ ν) : List κ := d.items.map Prod.fst

def get? (d : Dict κ ν) (k : κ) : Option ν := d.items.lookup k

def pop (d : Dict κ ν) (k : κ) : Dict κ ν where
  items := d.items.filter fun e => e.1 ≠ k
  nodup := d.nodup.sublist (List.filter_sublist.map Prod.fst)

theorem map_fst_replace (items : List (κ × ν)) (k : κ) (v : ν) :
    (items.map fun e => if e.1 = k then (k, v) else e).map Prod.fst = items.map Prod.fst := by
  rw [List.map_map]
  refine List.map_congr_left fun e _ => ?_
  by_cases h : e.1 = k
  · rw [Function.comp_apply, if_pos h, h]
  · rw [Function.comp_apply, if_neg h]

def set (d : Dict κ ν) (k : κ) (v : ν) : Dict κ ν :=
  if h : k ∈ d.keys then
    ⟨d.items.map fun e => if e.1 = k then (k, v) else e, by
      rw [map_fst_replace]
      exact d.nodup⟩
  else
    ⟨d.items ++ [(k, v)], by
      rw [List.map_append, List.nodup_append]
      refine ⟨d.nodup, List.nodup_singleton _, ?_⟩
      intro a ha b hb hab
      rw [List.map_singleton, List.mem_singleton] at hb
      rw [hab, hb] at ha
      exact h ha⟩

/-- `OrderedDict.move_to_end(k)` on a key that is present. -/
def moveToEnd (d : Dict κ ν) (k : κ) : Dict κ ν :=
  match d.get? k with
  | none => d
  | some v => (d.pop k).set k v

/-- `OrderedDict.popitem(last=False)`, the dictionary it leaves. -/
def popFirst (d : Dict κ ν) : Dict κ ν where
  items := d.items.tail
  nodup := d.nodup.sublist ((List.tail_sublist _).map Prod.fst)

/-- A loop over the items that assigns `f` of each value, where it has one. -/
def collect {μ : Type} (f : ν → Option μ) (d : Dict κ ν) : Dict κ μ :=
  d.items.foldl (fun found e =>
    match f e.2 with
    | none => found
    | some v => found.set e.1 v) empty

def ofItems (items : List (κ × ν)) : Dict κ ν :=
  items.foldl (fun d e => d.set e.1 e.2) empty

theorem lookup_eq_some_iff (items : List (κ × ν)) (hnodup : (items.map Prod.fst).Nodup)
    (k : κ) (v : ν) : items.lookup k = some v ↔ (k, v) ∈ items := by
  induction items with
  | nil => simp
  | cons e rest ih =>
    obtain ⟨k', v'⟩ := e
    rw [List.map_cons, List.nodup_cons] at hnodup
    rw [List.lookup_cons]
    by_cases h : k = k'
    · subst h
      have hnot : (k, v) ∉ rest := fun hmem => hnodup.1 (List.mem_map.mpr ⟨(k, v), hmem, rfl⟩)
      simp [hnot, eq_comm]
    · have hbeq : (k == k') = false := by simpa using h
      rw [hbeq]
      simp [ih hnodup.2, h]

theorem get?_eq_some_iff (d : Dict κ ν) (k : κ) (v : ν) :
    d.get? k = some v ↔ (k, v) ∈ d.items :=
  lookup_eq_some_iff d.items d.nodup k v

theorem get?_eq_none_iff (d : Dict κ ν) (k : κ) : d.get? k = none ↔ k ∉ d.keys := by
  rw [Option.eq_none_iff_forall_not_mem]
  constructor
  · intro h hk
    obtain ⟨e, he, rfl⟩ := List.mem_map.mp hk
    exact h e.2 ((get?_eq_some_iff d e.1 e.2).mpr he)
  · intro h v hv
    exact h (List.mem_map.mpr ⟨(k, v), (get?_eq_some_iff d k v).mp hv, rfl⟩)

@[simp] theorem get?_pop (d : Dict κ ν) (k k' : κ) :
    (d.pop k).get? k' = if k' = k then none else d.get? k' := by
  ext v
  rw [get?_eq_some_iff]
  by_cases h : k' = k
  · simp [pop, h]
  · simp [pop, h, get?_eq_some_iff]

@[simp] theorem get?_set (d : Dict κ ν) (k k' : κ) (v : ν) :
    (d.set k v).get? k' = if k' = k then some v else d.get? k' := by
  ext w
  rw [get?_eq_some_iff]
  unfold set
  by_cases hk : k ∈ d.keys
  · obtain ⟨e, he, hek⟩ := List.mem_map.mp hk
    rw [dif_pos hk]
    by_cases h : k' = k
    · subst h
      rw [if_pos rfl, List.mem_map]
      constructor
      · rintro ⟨a, -, ha⟩
        by_cases hak : a.1 = k'
        · rw [if_pos hak] at ha
          rw [(Prod.mk.inj ha).2]
        · rw [if_neg hak] at ha
          exact absurd (by rw [ha]) hak
      · intro hw
        refine ⟨e, he, ?_⟩
        rw [if_pos hek, Option.some.inj hw]
    · rw [if_neg h, get?_eq_some_iff, List.mem_map]
      constructor
      · rintro ⟨a, ha, hb⟩
        by_cases hak : a.1 = k
        · rw [if_pos hak] at hb
          exact absurd (Prod.mk.inj hb).1.symm h
        · rw [if_neg hak] at hb
          rwa [← hb]
      · intro hmem
        exact ⟨(k', w), hmem, if_neg h⟩
  · rw [dif_neg hk, List.mem_append, List.mem_singleton, Prod.mk.injEq]
    by_cases h : k' = k
    · subst h
      have hnot : (k', w) ∉ d.items := fun hmem => hk (List.mem_map_of_mem hmem)
      simp [hnot, eq_comm]
    · simp [h, get?_eq_some_iff]

@[simp] theorem get?_moveToEnd (d : Dict κ ν) (k k' : κ) :
    (d.moveToEnd k).get? k' = d.get? k' := by
  unfold moveToEnd
  cases hk : d.get? k with
  | none => rfl
  | some v =>
    simp only [get?_set, get?_pop]
    by_cases h : k' = k
    · rw [if_pos h, h, hk]
    · rw [if_neg h, if_neg h]

theorem get?_of_get?_popFirst {d : Dict κ ν} {k : κ} {v : ν} (h : d.popFirst.get? k = some v) :
    d.get? k = some v := by
  rw [get?_eq_some_iff] at h ⊢
  exact List.mem_of_mem_tail h

theorem mem_keys_set (d : Dict κ ν) (k k' : κ) (v : ν) :
    k' ∈ (d.set k v).keys ↔ k' = k ∨ k' ∈ d.keys := by
  have h := get?_eq_none_iff (d.set k v) k'
  have h' := get?_eq_none_iff d k'
  rw [get?_set] at h
  by_cases hk : k' = k
  · rw [if_pos hk] at h
    simp only [reduceCtorEq, false_iff, not_not] at h
    exact ⟨fun _ => .inl hk, fun _ => h⟩
  · rw [if_neg hk, h'] at h
    simp only [hk, false_or]
    exact (not_iff_not.mp h).symm

theorem get?_collect {μ : Type} (f : ν → Option μ) (d : Dict κ ν) (k : κ) :
    (d.collect f).get? k = (d.get? k).bind f := by
  -- the fold from any dictionary that has no entry for `k` yet
  have hfold : ∀ (items : List (κ × ν)), (items.map Prod.fst).Nodup → ∀ found : Dict κ μ,
      (items.foldl (fun found e =>
        match f e.2 with
        | none => found
        | some v => found.set e.1 v) found).get? k =
        ((items.lookup k).bind f).or (found.get? k) := by
    intro items
    induction items with
    | nil =>
      intro _ found
      rfl
    | cons e items ih =>
      intro hnodup found
      obtain ⟨k', v⟩ := e
      rw [List.map_cons, List.nodup_cons] at hnodup
      rw [List.foldl_cons, ih hnodup.2, List.lookup_cons]
      by_cases hk : k = k'
      · subst hk
        have hlookup : items.lookup k = none := by
          rw [List.lookup_eq_none_iff]
          intro e he
          rw [bne_iff_ne]
          intro hke
          exact hnodup.1 (List.mem_map.mpr ⟨e, he, hke.symm⟩)
        rw [hlookup, beq_self_eq_true]
        cases hv : f v with
        | none => simp [hv]
        | some w => simp [hv]
      · rw [beq_false_of_ne hk]
        cases hv : f v with
        | none => rfl
        | some w => simp [hk]
  unfold collect
  rw [hfold d.items d.nodup]
  exact Option.or_none

theorem get?_ofItems (items : List (κ × ν)) (k : κ) :
    (ofItems items).get? k = items.reverse.lookup k := by
  unfold ofItems
  induction items using List.reverseRecOn with
  | nil => rfl
  | append_singleton items e ih =>
    obtain ⟨k', v⟩ := e
    rw [List.foldl_append, List.foldl_cons, List.foldl_nil, get?_set, ih, List.reverse_append,
      List.reverse_singleton, List.singleton_append, List.lookup_cons]
    by_cases h : k = k'
    · rw [if_pos h, h, beq_self_eq_true]
    · rw [if_neg h, beq_false_of_ne h]

theorem get?_ofItems_of_nodup {items : List (κ × ν)} (hnodup : (items.map Prod.fst).Nodup) {k : κ}
    {v : ν} (h : (k, v) ∈ items) : (ofItems items).get? k = some v := by
  rw [get?_ofItems, lookup_eq_some_iff]
  · exact List.mem_reverse.mpr h
  · rw [List.map_reverse, List.nodup_reverse]
    exact hnodup

theorem mem_of_get?_ofItems {items : List (κ × ν)} {k : κ} {v : ν}
    (h : (ofItems items).get? k = some v) : (k, v) ∈ items := by
  rw [get?_ofItems] at h
  obtain ⟨front, rest, hsplit, -⟩ := List.lookup_eq_some_iff.mp h
  rw [← List.mem_reverse, hsplit]
  exact List.mem_append_right _ List.mem_cons_self

theorem mem_keys_ofItems {items : List (κ × ν)} {k : κ} (h : k ∈ (ofItems items).keys) :
    k ∈ items.map Prod.fst := by
  by_contra hk
  refine (get?_eq_none_iff _ k).mp ?_ h
  rw [get?_ofItems, List.lookup_eq_none_iff]
  intro e he
  rw [bne_iff_ne]
  rintro rfl
  exact hk (List.mem_map_of_mem (List.mem_reverse.mp he))

theorem items_foldl_pop (keys : List κ) (d : Dict κ ν) :
    (keys.foldl pop d).items = d.items.filter fun item => item.1 ∉ keys := by
  induction keys generalizing d with
  | nil => simp
  | cons k keys ih =>
    rw [List.foldl_cons, ih]
    change List.filter _ (d.items.filter fun item => decide (item.1 ≠ k)) = _
    rw [List.filter_filter]
    refine List.filter_congr fun item _ => ?_
    simp only [List.mem_cons, not_or, Bool.decide_and, Bool.and_comm]

theorem length_pop_lt {d : Dict κ ν} {k : κ} (h : k ∈ d.keys) : (d.pop k).items.length < d.items.length := by
  obtain ⟨item, hitem, hkey⟩ := List.mem_map.mp h
  exact List.length_filter_lt_length_iff_exists.mpr ⟨item, hitem, by simp [hkey]⟩

theorem items_eq_nil_iff (d : Dict κ ν) : d.items = [] ↔ ∀ k, d.get? k = none := by
  constructor
  · intro h k
    unfold get?
    rw [h]
    rfl
  · intro h
    rw [List.eq_nil_iff_forall_not_mem]
    rintro ⟨k, v⟩ hmem
    rw [← get?_eq_some_iff, h k] at hmem
    cases hmem

end Dict

end PyDict
