import TexGovernance.Lib.PyValue

/-!
# Canonical JSON without floats

A value without floats, whose integers have printable numerals, is determined up
to the order of its members by the text that `json.dumps` with sorted keys gives.
-/

namespace JsonCanon
open PyStr JsonLoads JsonText PyValue

mutual

def noFloats : JsonValue → Bool
  | .float _ => false
  | .arr items => noFloatItems items
  | .obj members => noFloatMembers members
  | _ => true

def noFloatItems : List JsonValue → Bool
  | [] => true
  | x :: xs => noFloats x && noFloatItems xs

def noFloatMembers : Members → Bool
  | [] => true
  | (_, x) :: xs => noFloats x && noFloatMembers xs

end

mutual

def nesting : JsonValue → ℕ
  | .arr items => nestingItems items + 1
  | .obj members => nestingMembers members + 1
  | _ => 0

def nestingItems : List JsonValue → ℕ
  | [] => 0
  | x :: xs => max (nesting x) (nestingItems xs)

def nestingMembers : Members → ℕ
  | [] => 0
  | (_, x) :: xs => max (nesting x) (nestingMembers xs)

end

mutual

theorem tame_of_noFloats : ∀ {v : JsonValue} {depth : ℕ}, noFloats v = true → shortInts v = true →
    nesting v ≤ depth → Tame depth v
  | .null, _, _, _, _ => .null
  | .bool _, _, _, _, _ => .bool _
  | .int _, _, _, hshort, _ => .int (of_decide_eq_true hshort)
  | .str _, _, _, _, _ => .str _
  | .float _, _, h, _, _ => nomatch h
  | .arr _, 0, _, _, hdepth => absurd hdepth (Nat.not_succ_le_zero _)
  | .arr _, _ + 1, h, hshort, hdepth =>
    .arr (tameItems_of_noFloats h hshort (Nat.le_of_succ_le_succ hdepth))
  | .obj _, 0, _, _, hdepth => absurd hdepth (Nat.not_succ_le_zero _)
  | .obj _, _ + 1, h, hshort, hdepth =>
    .obj (tameMembers_of_noFloats h hshort (Nat.le_of_succ_le_succ hdepth))

theorem tameItems_of_noFloats : ∀ {items : List JsonValue} {depth : ℕ}, noFloatItems items = true →
    shortItems items = true → nestingItems items ≤ depth → ∀ x ∈ items, Tame depth x
  | [], _, _, _, _ => fun _ hx => absurd hx List.not_mem_nil
  | x :: xs, _, h, hshort, hdepth => by
    obtain ⟨hx, hxs⟩ := Bool.and_eq_true_iff.mp h
    obtain ⟨hshortx, hshortxs⟩ := Bool.and_eq_true_iff.mp hshort
    exact List.forall_mem_cons.mpr ⟨tame_of_noFloats hx hshortx (le_of_max_le_left hdepth),
      tameItems_of_noFloats hxs hshortxs (le_of_max_le_right hdepth)⟩

theorem tameMembers_of_noFloats : ∀ {members : Members} {depth : ℕ}, noFloatMembers members = true →
    shortMembers members = true → nestingMembers members ≤ depth → ∀ m ∈ members, Tame depth m.2
  | [], _, _, _, _ => fun _ hx => absurd hx List.not_mem_nil
  | (k, x) :: xs, _, h, hshort, hdepth => by
    obtain ⟨hx, hxs⟩ := Bool.and_eq_true_iff.mp h
    obtain ⟨hshortx, hshortxs⟩ := Bool.and_eq_true_iff.mp hshort
    exact List.forall_mem_cons.mpr ⟨tame_of_noFloats hx hshortx (le_of_max_le_left hdepth),
      tameMembers_of_noFloats hxs hshortxs (le_of_max_le_right hdepth)⟩

end

theorem sortKeys_of_dumps {v w : JsonValue} (hv : noFloats v = true) (hw : noFloats w = true)
    (hshortv : shortInts v = true) (hshortw : shortInts w = true)
    (h : JsonText.dumps keepChars v = JsonText.dumps keepChars w) : sortKeys v = sortKeys w :=
  write_inj (tame_sortKeys (tame_of_noFloats hv hshortv (Nat.le_max_left _ (nesting w))))
    (tame_sortKeys (tame_of_noFloats hw hshortw (Nat.le_max_right (nesting v) _))) h

theorem eq_of_perm_of_names {α : Type} {xs ys : List (Str × α)} (h : xs.Perm ys)
    (hnames : xs.map Prod.fst = ys.map Prod.fst) (hnodup : (xs.map Prod.fst).Nodup) : xs = ys := by
  induction xs generalizing ys with
  | nil => exact h.nil_eq
  | cons x xs ih =>
    cases ys with
    | nil => cases hnames
    | cons y ys =>
      obtain ⟨hhead, htail⟩ := List.cons.inj hnames
      obtain ⟨hnot, hrest⟩ := List.nodup_cons.mp hnodup
      have hxy : x = y := by
        obtain heq | hmem := List.mem_cons.mp (h.mem_iff.mp List.mem_cons_self)
        · exact heq
        · exact absurd (htail ▸ List.mem_map_of_mem hmem) hnot
      subst hxy
      rw [ih h.cons_inv htail hrest]

theorem perm_of_sortKeys {xs ys : Members} (h : sortKeys (.obj xs) = sortKeys (.obj ys)) :
    (sortMembers xs).Perm (sortMembers ys) := by
  have hnames : byName (sortMembers xs) = byName (sortMembers ys) := by
    simpa only [sortKeys, JsonValue.obj.injEq] using h
  exact (byName_perm _).symm.trans (hnames ▸ byName_perm _)

theorem values_of_sortKeys (names : List Str) {xs ys : Members} (h : sortKeys (.obj xs) = sortKeys (.obj ys))
    (hxs : xs.map Prod.fst = names) (hys : ys.map Prod.fst = names) (hnodup : names.Nodup) :
    xs.map (fun m => sortKeys m.2) = ys.map fun m => sortKeys m.2 := by
  have hfst : ∀ zs : Members, (sortMembers zs).map Prod.fst = zs.map Prod.fst := fun zs => by
    rw [sortMembers_eq, List.map_map]
    rfl
  have hsnd : ∀ zs : Members, (sortMembers zs).map Prod.snd = zs.map fun m => sortKeys m.2 := fun zs => by
    rw [sortMembers_eq, List.map_map]
    rfl
  rw [← hsnd, ← hsnd, eq_of_perm_of_names (perm_of_sortKeys h) (by rw [hfst, hfst, hxs, hys])
    (by rw [hfst, hxs]; exact hnodup)]

end JsonCanon
