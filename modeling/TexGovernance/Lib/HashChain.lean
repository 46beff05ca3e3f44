import Mathlib.Data.List.Induction
import Mathlib.Data.Set.Function

/-!
# Hash chains

A chain hashes each item together with the digest of the item before it; the first item is hashed
with a fixed digest that no item gives, or with none. The tip is the last digest.
-/

namespace HashChain

section Fold

variable {κ δ : Type} (step : δ → κ → δ)

def pairsFrom : δ → List κ → List (δ × κ)
  | _, [] => []
  | previous, k :: items => (previous, k) :: pairsFrom (step previous k) items

theorem pairsFrom_append (start : δ) (items more : List κ) :
    pairsFrom step start (items ++ more) =
      pairsFrom step start items ++ pairsFrom step (items.foldl step start) more := by
  induction items generalizing start with
  | nil => rfl
  | cons k items ih => exact congrArg ((start, k) :: ·) (ih (step start k))

theorem mem_pairsFrom_concat (start : δ) (items : List κ) (k : κ) :
    (items.foldl step start, k) ∈ pairsFrom step start (items ++ [k]) := by
  rw [pairsFrom_append]
  exact List.mem_append_right _ (List.mem_cons_self ..)

theorem pairsFrom_subset_concat (start : δ) (items : List κ) (k : κ) :
    pairsFrom step start items ⊆ pairsFrom step start (items ++ [k]) := by
  rw [pairsFrom_append]
  exact List.subset_append_left _ _

theorem foldl_inj (start : δ) (items items' : List κ)
    (hinj : Set.InjOn (fun p : δ × κ => step p.1 p.2)
      {p | p ∈ pairsFrom step start items ∨ p ∈ pairsFrom step start items'})
    (hfresh : ∀ p, p ∈ pairsFrom step start items ∨ p ∈ pairsFrom step start items' → step p.1 p.2 ≠ start)
    (h : items.foldl step start = items'.foldl step start) : items = items' := by
  induction items using List.reverseRecOn generalizing items' with
  | nil =>
    cases items' using List.reverseRecOn with
    | nil => rfl
    | append_singleton items' k' =>
      simp only [List.foldl_append, List.foldl_cons, List.foldl_nil] at h
      exact absurd h.symm (hfresh _ (.inr (mem_pairsFrom_concat step start items' k')))
  | append_singleton items k ih =>
    cases items' using List.reverseRecOn with
    | nil =>
      simp only [List.foldl_append, List.foldl_cons, List.foldl_nil] at h
      exact absurd h (hfresh _ (.inl (mem_pairsFrom_concat step start items k)))
    | append_singleton items' k' =>
      simp only [List.foldl_append, List.foldl_cons, List.foldl_nil] at h
      have hpair := hinj (.inl (mem_pairsFrom_concat step start items k))
        (.inr (mem_pairsFrom_concat step start items' k')) h
      obtain ⟨hfold, hk⟩ := Prod.mk.inj hpair
      have hsub : ∀ p, p ∈ pairsFrom step start items ∨ p ∈ pairsFrom step start items' →
          p ∈ pairsFrom step start (items ++ [k]) ∨ p ∈ pairsFrom step start (items' ++ [k']) := by
        rintro p (hp | hp)
        · exact .inl (pairsFrom_subset_concat step start items k hp)
        · exact .inr (pairsFrom_subset_concat step start items' k' hp)
      rw [ih items' (hinj.mono hsub) (fun p hp => hfresh p (hsub p hp)) hfold, hk]

end Fold

variable {κ δ : Type} (link : Option δ → κ → δ)

def tipFrom (start : Option δ) (items : List κ) : Option δ :=
  items.foldl (fun previous k => some (link previous k)) start

def tip (items : List κ) : Option δ := tipFrom link none items

def linksFrom : Option δ → List κ → List (Option δ × κ)
  | _, [] => []
  | previous, k :: items => (previous, k) :: linksFrom (some (link previous k)) items

def links (items : List κ) : List (Option δ × κ) := linksFrom link none items

theorem tip_concat (items : List κ) (k : κ) :
    tip link (items ++ [k]) = some (link (tip link items) k) := by
  unfold tip tipFrom
  rw [List.foldl_append]
  rfl

theorem linksFrom_append (start : Option δ) (items more : List κ) :
    linksFrom link start (items ++ more) =
      linksFrom link start items ++ linksFrom link (tipFrom link start items) more := by
  induction items generalizing start with
  | nil => rfl
  | cons k items ih =>
    show (start, k) :: linksFrom link _ (items ++ more) = _
    rw [ih]
    rfl

theorem mem_links_concat (items : List κ) (k : κ) :
    (tip link items, k) ∈ links link (items ++ [k]) := by
  unfold links
  rw [linksFrom_append]
  exact List.mem_append_right _ (List.mem_cons_self ..)

theorem links_subset_concat (items : List κ) (k : κ) :
    links link items ⊆ links link (items ++ [k]) := by
  unfold links
  rw [linksFrom_append]
  exact List.subset_append_left _ _

theorem tip_eq_some {items : List κ} {d : δ} (h : tip link items = some d) :
    ∃ q ∈ links link items, d = link q.1 q.2 := by
  cases items using List.reverseRecOn with
  | nil => cases h
  | append_singleton items k =>
    rw [tip_concat] at h
    exact ⟨(tip link items, k), mem_links_concat link items k, (Option.some.inj h).symm⟩

theorem previous_mem_links (items : List κ) {p : Option δ × κ} (hp : p ∈ links link items) {d : δ}
    (hd : p.1 = some d) : ∃ q ∈ links link items, d = link q.1 q.2 := by
  induction items using List.reverseRecOn with
  | nil => cases hp
  | append_singleton items k ih =>
    have hsub := links_subset_concat link items k
    unfold links at hp
    rw [linksFrom_append, List.mem_append] at hp
    rcases hp with hp | hp
    · obtain ⟨q, hq, hdq⟩ := ih hp
      exact ⟨q, hsub hq, hdq⟩
    · rw [List.mem_singleton.mp hp] at hd
      obtain ⟨q, hq, hdq⟩ := tip_eq_some link hd
      exact ⟨q, hsub hq, hdq⟩

theorem previous_is_link (items : List κ) {p : Option δ × κ} (hp : p ∈ links link items) {d : δ}
    (hd : p.1 = some d) : ∃ q : Option δ × κ, d = link q.1 q.2 := by
  obtain ⟨q, -, hdq⟩ := previous_mem_links link items hp hd
  exact ⟨q, hdq⟩

theorem linksFrom_eq (start : Option δ) (items : List κ) :
    linksFrom link start items = pairsFrom (fun previous k => some (link previous k)) start items := by
  induction items generalizing start with
  | nil => rfl
  | cons k items ih => exact congrArg ((start, k) :: ·) (ih (some (link start k)))

theorem tip_inj (items items' : List κ)
    (hinj : Set.InjOn (fun p : Option δ × κ => link p.1 p.2)
      {p | p ∈ links link items ∨ p ∈ links link items'})
    (h : tip link items = tip link items') : items = items' := by
  unfold links at hinj
  simp only [linksFrom_eq] at hinj
  refine foldl_inj _ none items items' ?_ (fun p _ => Option.some_ne_none _) h
  exact fun p hp q hq heq => hinj hp hq (Option.some.inj heq)

end HashChain
