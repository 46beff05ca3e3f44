import Mathlib.Data.List.Nodup

/-!
# Keeping the first item of each key

A loop over a list with a set of the keys seen so far keeps an item if its key is new.
-/

namespace KeepFirst

variable {α κ : Type} [DecidableEq κ] (key : α → κ)

def keepFirstFrom : List κ → List α → List α
  | _, [] => []
  | seen, x :: rest =>
    if key x ∈ seen then keepFirstFrom seen rest else x :: keepFirstFrom (key x :: seen) rest

def keepFirst (xs : List α) : List α := keepFirstFrom key [] xs

/-- Each key of `xs` is the key of an item of `ys`. -/
def Covers (xs ys : List α) : Prop := ∀ x ∈ xs, ∃ y ∈ ys, key y = key x

variable {key}

theorem Covers.of_subset {xs ys : List α} (h : xs ⊆ ys) : Covers key xs ys :=
  fun x hx => ⟨x, h hx, rfl⟩

theorem Covers.trans {xs ys zs : List α} (h : Covers key xs ys) (h' : Covers key ys zs) :
    Covers key xs zs := by
  intro x hx
  obtain ⟨y, hy, hyx⟩ := h x hx
  obtain ⟨z, hz, hzy⟩ := h' y hy
  exact ⟨z, hz, hzy.trans hyx⟩

theorem keepFirstFrom_cons (seen : List κ) (x : α) (rest : List α) : keepFirstFrom key seen (x :: rest) =
    if key x ∈ seen then keepFirstFrom key seen rest else x :: keepFirstFrom key (key x :: seen) rest :=
  rfl

theorem keepFirstFrom_subset (seen : List κ) (xs : List α) : keepFirstFrom key seen xs ⊆ xs := by
  induction xs generalizing seen with
  | nil => exact List.Subset.refl _
  | cons x rest ih =>
    rw [keepFirstFrom_cons]
    split
    · exact List.Subset.trans (ih seen) (List.subset_cons_self x rest)
    · exact List.cons_subset_cons x (ih _)

theorem keepFirstFrom_covers (seen : List κ) {xs : List α} {x : α} (hx : x ∈ xs) :
    key x ∈ seen ∨ ∃ y ∈ keepFirstFrom key seen xs, key y = key x := by
  induction xs generalizing seen with
  | nil => cases hx
  | cons first rest ih =>
    rw [keepFirstFrom_cons]
    by_cases hseen : key first ∈ seen
    · rw [if_pos hseen]
      rcases List.mem_cons.mp hx with rfl | hx
      · exact .inl hseen
      · exact ih seen hx
    · rw [if_neg hseen]
      rcases List.mem_cons.mp hx with rfl | hx
      · exact .inr ⟨x, List.mem_cons_self .., rfl⟩
      · rcases ih (key first :: seen) hx with hmem | ⟨y, hy, heq⟩
        · rcases List.mem_cons.mp hmem with hfirst | hmem
          · exact .inr ⟨first, List.mem_cons_self .., hfirst.symm⟩
          · exact .inl hmem
        · exact .inr ⟨y, List.mem_cons_of_mem _ hy, heq⟩

theorem keepFirstFrom_unseen (seen : List κ) {xs : List α} {x : α}
    (hx : x ∈ keepFirstFrom key seen xs) : key x ∉ seen := by
  induction xs generalizing seen with
  | nil => cases hx
  | cons first rest ih =>
    rw [keepFirstFrom_cons] at hx
    split at hx
    · exact ih seen hx
    · rename_i hnew
      rcases List.mem_cons.mp hx with rfl | hx
      · exact hnew
      · exact fun hmem => ih _ hx (List.mem_cons_of_mem _ hmem)

theorem keepFirstFrom_nodup (seen : List κ) (xs : List α) :
    ((keepFirstFrom key seen xs).map key).Nodup := by
  induction xs generalizing seen with
  | nil => exact List.nodup_nil
  | cons first rest ih =>
    rw [keepFirstFrom_cons]
    split
    · exact ih seen
    · rw [List.map_cons, List.nodup_cons]
      refine ⟨?_, ih _⟩
      intro hmem
      obtain ⟨y, hy, heq⟩ := List.mem_map.mp hmem
      apply keepFirstFrom_unseen _ hy
      rw [heq]
      exact List.mem_cons_self ..

theorem keepFirstFrom_of_nodup {seen : List κ} {xs : List α} (hnodup : (xs.map key).Nodup)
    (hnew : ∀ x ∈ xs, key x ∉ seen) : keepFirstFrom key seen xs = xs := by
  induction xs generalizing seen with
  | nil => rfl
  | cons first rest ih =>
    rw [List.map_cons, List.nodup_cons] at hnodup
    rw [keepFirstFrom_cons]
    rw [if_neg (hnew first (List.mem_cons_self ..)), ih hnodup.2]
    intro x hx hmem
    rcases List.mem_cons.mp hmem with heq | hmem
    · exact hnodup.1 (heq ▸ List.mem_map_of_mem hx)
    · exact hnew x (List.mem_cons_of_mem _ hx) hmem

theorem keepFirst_subset (xs : List α) : keepFirst key xs ⊆ xs := keepFirstFrom_subset [] xs

theorem keepFirst_covers (xs : List α) : Covers key xs (keepFirst key xs) := by
  intro x hx
  have hcovered : key x ∈ [] ∨ ∃ y ∈ keepFirst key xs, key y = key x := keepFirstFrom_covers [] hx
  rcases hcovered with hseen | hkept
  · cases hseen
  · exact hkept

theorem keepFirst_nodup (xs : List α) : ((keepFirst key xs).map key).Nodup :=
  keepFirstFrom_nodup [] xs

theorem keepFirst_of_nodup {xs : List α} (h : (xs.map key).Nodup) : keepFirst key xs = xs :=
  keepFirstFrom_of_nodup h fun _ _ hmem => nomatch hmem

end KeepFirst
