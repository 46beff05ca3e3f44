import Mathlib.Data.Nat.Basic
import Mathlib.Data.Set.Function
import Mathlib.Tactic.Ring

/-!
# Merkle trees with a power-of-two split

The tree hash of RFC 9162 over an arbitrary node function, split at powers of two, and the same
tree level by level, pairing neighbours and promoting an odd last digest (`pairUp`), as an
index-driven verifier walks it.
-/

namespace MerkleTree

def splitLoop : ℕ → ℕ → ℕ → ℕ
  | 0, k, _ => k
  | fuel + 1, k, n => if 2 * k < n then splitLoop fuel (2 * k) n else k

/-- The largest power of two below `n`, for `n ≥ 2`. -/
def splitPoint (n : ℕ) : ℕ := splitLoop n 1 n

theorem splitLoop_spec (fuel j n : ℕ) (hj : 2 ^ j < n) (hfuel : n ≤ 2 ^ (j + fuel)) :
    ∃ i, splitLoop fuel (2 ^ j) n = 2 ^ i ∧ 2 ^ i < n ∧ n ≤ 2 ^ (i + 1) := by
  induction fuel generalizing j with
  | zero =>
    rw [Nat.add_zero] at hfuel
    omega
  | succ fuel ih =>
    have hdouble : 2 * 2 ^ j = 2 ^ (j + 1) := by ring
    simp only [splitLoop, hdouble]
    by_cases h : 2 ^ (j + 1) < n
    · rw [if_pos h]
      exact ih (j + 1) h (by rw [Nat.add_right_comm]; exact hfuel)
    · rw [if_neg h]
      exact ⟨j, rfl, hj, by omega⟩

theorem splitPoint_spec (n : ℕ) (hn : 2 ≤ n) :
    ∃ i, splitPoint n = 2 ^ i ∧ 2 ^ i < n ∧ n ≤ 2 ^ (i + 1) := by
  have hfuel : n ≤ 2 ^ (0 + n) := by
    rw [Nat.zero_add]
    exact Nat.lt_two_pow_self.le
  exact splitLoop_spec n 0 n (by rw [pow_zero]; omega) hfuel

theorem splitPoint_lt (n : ℕ) (hn : 2 ≤ n) : splitPoint n < n := by
  obtain ⟨i, hi, hlt, -⟩ := splitPoint_spec n hn
  omega

theorem splitPoint_pos (n : ℕ) (hn : 2 ≤ n) : 0 < splitPoint n := by
  obtain ⟨i, hi, -, -⟩ := splitPoint_spec n hn
  rw [hi]
  exact Nat.two_pow_pos i

theorem pow_bounds_unique (a b n : ℕ) (ha : 2 ^ a < n) (ha' : n ≤ 2 ^ (a + 1))
    (hb : 2 ^ b < n) (hb' : n ≤ 2 ^ (b + 1)) : a = b := by
  have h1 : a < b + 1 := (Nat.pow_lt_pow_iff_right (by norm_num)).mp (ha.trans_le hb')
  have h2 : b < a + 1 := (Nat.pow_lt_pow_iff_right (by norm_num)).mp (hb.trans_le ha')
  omega

theorem splitPoint_half (n : ℕ) (hn : 3 ≤ n) :
    splitPoint n = 2 * splitPoint ((n + 1) / 2) := by
  obtain ⟨i, hi, hlt, hle⟩ := splitPoint_spec n (by omega)
  obtain ⟨j, hj, hlt', hle'⟩ := splitPoint_spec ((n + 1) / 2) (by omega)
  have e1 : 2 ^ (j + 1) = 2 * 2 ^ j := by ring
  have e2 : 2 ^ (j + 1 + 1) = 2 * 2 ^ (j + 1) := by ring
  have hij : i = j + 1 := pow_bounds_unique i (j + 1) n hlt hle (by omega) (by omega)
  rw [hi, hj, hij, e1]

section Levels

variable {δ : Type} (node : δ → δ → δ)

def pairUp : List δ → List δ
  | a :: b :: rest => node a b :: pairUp rest
  | [a] => [a]
  | [] => []

theorem pairUp_length (l : List δ) : (pairUp node l).length = (l.length + 1) / 2 := by
  match l with
  | [] => simp [pairUp]
  | [a] => simp [pairUp]
  | a :: b :: rest =>
    simp only [pairUp, List.length_cons, pairUp_length rest]
    omega

theorem pairUp_take (l : List δ) (j : ℕ) :
    (pairUp node l).take j = pairUp node (l.take (2 * j)) := by
  match l, j with
  | l, 0 => simp [pairUp]
  | [], _ + 1 => simp [pairUp]
  | [a], j + 1 => simp [pairUp, Nat.mul_add]
  | a :: b :: rest, j + 1 =>
    simp only [pairUp, Nat.mul_add, Nat.mul_one, List.take_succ_cons, pairUp_take rest j]

theorem pairUp_drop (l : List δ) (j : ℕ) :
    (pairUp node l).drop j = pairUp node (l.drop (2 * j)) := by
  match l, j with
  | l, 0 => simp
  | [], _ + 1 => simp [pairUp]
  | [a], j + 1 => simp [pairUp, Nat.mul_add]
  | a :: b :: rest, j + 1 =>
    simp only [pairUp, Nat.mul_add, Nat.mul_one, List.drop_succ_cons, pairUp_drop rest j]

theorem pairUp_getElem? (l : List δ) (j : ℕ) :
    (pairUp node l)[j]? =
      match l[2 * j]?, l[2 * j + 1]? with
      | some a, some b => some (node a b)
      | some a, none => some a
      | none, _ => none := by
  match l, j with
  | [], j => simp [pairUp]
  | [a], 0 => rfl
  | [a], j + 1 => simp [pairUp, Nat.mul_add]
  | a :: b :: rest, 0 => rfl
  | a :: b :: rest, j + 1 =>
    have e : 2 * (j + 1) = 2 * j + 1 + 1 := by omega
    simp only [pairUp, e, List.getElem?_cons_succ, pairUp_getElem? rest j]

theorem pairUp_append_even (l r : List δ) (h : l.length % 2 = 0) :
    pairUp node (l ++ r) = pairUp node l ++ pairUp node r := by
  match l with
  | [] => rfl
  | [a] => simp at h
  | a :: b :: rest =>
    have hrest : rest.length % 2 = 0 := by
      simp only [List.length_cons] at h
      omega
    simp only [pairUp, List.cons_append, pairUp_append_even rest r hrest]

def levelPairs : List δ → List (δ × δ)
  | a :: b :: rest => (a, b) :: levelPairs rest
  | _ => []

theorem levelPairs_append_even (l r : List δ) (h : l.length % 2 = 0) :
    levelPairs (l ++ r) = levelPairs l ++ levelPairs r := by
  match l with
  | [] => rfl
  | [a] => simp at h
  | a :: b :: rest =>
    have hrest : rest.length % 2 = 0 := by
      simp only [List.length_cons] at h
      omega
    simp only [levelPairs, List.cons_append, levelPairs_append_even rest r hrest]

theorem mem_levelPairs (l : List δ) (j : ℕ) (a b : δ) (ha : l[2 * j]? = some a)
    (hb : l[2 * j + 1]? = some b) : (a, b) ∈ levelPairs l := by
  match l, j with
  | [], j => simp at ha
  | [x], 0 => simp at hb
  | [x], j + 1 => simp [Nat.mul_add] at ha
  | x :: y :: rest, 0 =>
    simp only [Nat.mul_zero, List.getElem?_cons_zero, Option.some.injEq] at ha
    simp only [Nat.mul_zero, Nat.zero_add, List.getElem?_cons_succ, List.getElem?_cons_zero,
      Option.some.injEq] at hb
    rw [ha, hb]
    exact List.mem_cons_self ..
  | x :: y :: rest, j + 1 =>
    have e : 2 * (j + 1) = 2 * j + 1 + 1 := by omega
    simp only [e, List.getElem?_cons_succ] at ha hb
    exact List.mem_cons_of_mem _ (mem_levelPairs rest j a b ha hb)

/-- The sibling of position `i` on its level; the last digest of a level of
odd length has none. -/
def sibling (i : ℕ) (l : List δ) : List δ :=
  (if i % 2 = 1 then l[i - 1]? else l[i + 1]?).toList

theorem sibling_take (i k : ℕ) (l : List δ) (hi : i < k) (hk : k % 2 = 0) :
    sibling i (l.take k) = sibling i l := by
  unfold sibling
  by_cases h : i % 2 = 1
  · simp only [h, ite_true, List.getElem?_take]
    rw [if_pos (by omega)]
  · simp only [h, ite_false, List.getElem?_take]
    rw [if_pos (by omega)]

theorem sibling_drop (i k : ℕ) (l : List δ) (hi : k ≤ i) (hk : k % 2 = 0) :
    sibling (i - k) (l.drop k) = sibling i l := by
  unfold sibling
  have hpar : (i - k) % 2 = i % 2 := by omega
  rw [hpar]
  by_cases h : i % 2 = 1
  · have e : k + (i - k - 1) = i - 1 := by omega
    simp only [h, ite_true, List.getElem?_drop, e]
  · have e : k + (i - k + 1) = i + 1 := by omega
    simp only [h, ite_false, List.getElem?_drop, e]

end Levels

section Tree

variable {δ : Type} [Inhabited δ] (node : δ → δ → δ)

omit [Inhabited δ] in
theorem length_take_split (l : List δ) (h : 2 ≤ l.length) :
    (l.take (splitPoint l.length)).length = splitPoint l.length := by
  have hlt := splitPoint_lt l.length h
  rw [List.length_take]
  omega

omit [Inhabited δ] in
theorem halves_length_le (x y : δ) (rest : List δ) :
    ((x :: y :: rest).take (splitPoint (x :: y :: rest).length)).length ≤ (y :: rest).length ∧
      ((x :: y :: rest).drop (splitPoint (x :: y :: rest).length)).length ≤ (y :: rest).length := by
  have h : 2 ≤ (x :: y :: rest).length := by simp
  have hlt := splitPoint_lt _ h
  have hpos := splitPoint_pos _ h
  rw [length_take_split _ h, List.length_drop]
  simp only [List.length_cons] at hlt hpos ⊢
  omega

def mthFuel : ℕ → List δ → δ
  | 0, _ => default
  | _ + 1, [] => default
  | _ + 1, [x] => x
  | fuel + 1, x :: y :: rest =>
    let k := splitPoint (x :: y :: rest).length
    node (mthFuel fuel ((x :: y :: rest).take k)) (mthFuel fuel ((x :: y :: rest).drop k))

def mth (l : List δ) : δ := mthFuel node l.length l

omit [Inhabited δ] in
theorem fuel_irrelevant {α : Type} {F : ℕ → List δ → α} (hnil : ∀ f g, F f [] = F g [])
    (hone : ∀ f g x, F (f + 1) [x] = F (g + 1) [x])
    (hsplit : ∀ f g (l : List δ), 2 ≤ l.length →
      F f (l.take (splitPoint l.length)) = F g (l.take (splitPoint l.length)) →
      F f (l.drop (splitPoint l.length)) = F g (l.drop (splitPoint l.length)) →
      F (f + 1) l = F (g + 1) l)
    {f g : ℕ} {l : List δ} (hf : l.length ≤ f) (hg : l.length ≤ g) : F f l = F g l := by
  induction f generalizing g l with
  | zero =>
    rw [List.length_eq_zero_iff.mp (Nat.le_zero.mp hf)]
    exact hnil 0 g
  | succ f ih =>
    match l, g with
    | [], g => exact hnil _ g
    | [x], 0 => cases hg
    | [x], g + 1 => exact hone f g x
    | x :: y :: rest, 0 => cases hg
    | x :: y :: rest, g + 1 =>
      have h2 : 2 ≤ (x :: y :: rest).length := by simp
      have hlt := splitPoint_lt _ h2
      have hpos := splitPoint_pos _ h2
      have htake := length_take_split _ h2
      have hdrop : ((x :: y :: rest).drop (splitPoint (x :: y :: rest).length)).length =
          (x :: y :: rest).length - splitPoint (x :: y :: rest).length := List.length_drop
      exact hsplit f g _ h2 (ih (by omega) (by omega)) (ih (by omega) (by omega))

theorem mthFuel_eq (fuel : ℕ) (l : List δ) (h : l.length ≤ fuel) :
    mthFuel node fuel l = mth node l := by
  refine fuel_irrelevant (F := mthFuel node) (fun f g => ?_) (fun _ _ _ => rfl) ?_ h le_rfl
  · cases f <;> cases g <;> rfl
  · intro f g l h2 htake hdrop
    match l with
    | x :: y :: rest =>
      simp only [mthFuel]
      rw [htake, hdrop]

theorem mth_singleton (x : δ) : mth node [x] = x := rfl

theorem mth_split (l : List δ) (h : 2 ≤ l.length) :
    mth node l = node (mth node (l.take (splitPoint l.length)))
      (mth node (l.drop (splitPoint l.length))) := by
  match l with
  | x :: y :: rest =>
    obtain ⟨htake, hdrop⟩ := halves_length_le x y rest
    rw [← mthFuel_eq node _ _ htake, ← mthFuel_eq node _ _ hdrop]
    rfl

theorem mth_pairUp (l : List δ) : mth node (pairUp node l) = mth node l := by
  have key : ∀ n (l : List δ), l.length = n → mth node (pairUp node l) = mth node l := by
    intro n
    refine Nat.strongRecOn n (fun n ih => ?_)
    intro l hl
    by_cases h3 : 3 ≤ l.length
    · have hlen := pairUp_length node l
      have hhalf := splitPoint_half l.length h3
      have hlt := splitPoint_lt l.length (by omega)
      have hpos := splitPoint_pos ((l.length + 1) / 2) (by omega)
      rw [mth_split node (pairUp node l) (by omega), mth_split node l (by omega), hlen,
        pairUp_take, pairUp_drop, ← hhalf]
      rw [ih _ (by rw [List.length_take]; omega) _ rfl,
        ih _ (by rw [List.length_drop]; omega) _ rfl]
    · match l with
      | [] => rfl
      | [a] => rfl
      | [a, b] => rfl
      | _ :: _ :: _ :: _ => simp at h3
  exact key l.length l rfl

def pathFuel : ℕ → ℕ → List δ → List δ
  | 0, _, _ => []
  | _ + 1, _, [] => []
  | _ + 1, _, [_] => []
  | fuel + 1, i, x :: y :: rest =>
    let k := splitPoint (x :: y :: rest).length
    if i < k then
      pathFuel fuel i ((x :: y :: rest).take k) ++ [mth node ((x :: y :: rest).drop k)]
    else
      pathFuel fuel (i - k) ((x :: y :: rest).drop k) ++ [mth node ((x :: y :: rest).take k)]

def path (i : ℕ) (l : List δ) : List δ := pathFuel node l.length i l

theorem pathFuel_eq (fuel i : ℕ) (l : List δ) (h : l.length ≤ fuel) :
    pathFuel node fuel i l = path node i l := by
  have hall : (fun j => pathFuel node fuel j l) = fun j => pathFuel node l.length j l := by
    refine fuel_irrelevant (F := fun f l j => pathFuel node f j l) (fun f g => ?_)
      (fun _ _ _ => rfl) ?_ h le_rfl
    · cases f <;> cases g <;> rfl
    · intro f g l h2 htake hdrop
      match l with
      | x :: y :: rest =>
        funext j
        simp only [pathFuel]
        rw [congrFun htake, congrFun hdrop]
  exact congrFun hall i

theorem path_split (i : ℕ) (l : List δ) (h : 2 ≤ l.length) :
    path node i l =
      if i < splitPoint l.length then
        path node i (l.take (splitPoint l.length)) ++
          [mth node (l.drop (splitPoint l.length))]
      else
        path node (i - splitPoint l.length) (l.drop (splitPoint l.length)) ++
          [mth node (l.take (splitPoint l.length))] := by
  match l with
  | x :: y :: rest =>
    obtain ⟨htake, hdrop⟩ := halves_length_le x y rest
    rw [← pathFuel_eq node _ _ _ htake, ← pathFuel_eq node _ _ _ hdrop]
    rfl

theorem path_pairUp (i : ℕ) (l : List δ) (hi : i < l.length) (h2 : 2 ≤ l.length) :
    path node i l = sibling i l ++ path node (i / 2) (pairUp node l) := by
  have key : ∀ n i (l : List δ), l.length = n → i < n → 2 ≤ n →
      path node i l = sibling i l ++ path node (i / 2) (pairUp node l) := by
    intro n
    refine Nat.strongRecOn n (fun n ih => ?_)
    intro i l hl hi h2
    by_cases h3 : 3 ≤ n
    · have hlen := pairUp_length node l
      have hhalf := splitPoint_half l.length (by omega)
      have hlt := splitPoint_lt l.length (by omega)
      have hpos := splitPoint_pos ((l.length + 1) / 2) (by omega)
      have heven : splitPoint l.length % 2 = 0 := by omega
      rw [path_split node i l (by omega), path_split node (i / 2) (pairUp node l) (by omega),
        hlen, pairUp_take, pairUp_drop, ← hhalf, mth_pairUp, mth_pairUp]
      have hdiv : (i / 2 < splitPoint ((l.length + 1) / 2)) ↔ i < splitPoint l.length := by
        omega
      by_cases hik : i < splitPoint l.length
      · rw [if_pos hik, if_pos (hdiv.mpr hik),
          ih (l.take (splitPoint l.length)).length (by rw [List.length_take]; omega) i _ rfl
            (by rw [List.length_take]; omega) (by rw [List.length_take]; omega),
          sibling_take i _ l hik heven, List.append_assoc]
      · rw [if_neg hik, if_neg (fun h => hik (hdiv.mp h))]
        have hsub : i / 2 - splitPoint ((l.length + 1) / 2) = (i - splitPoint l.length) / 2 := by
          omega
        rw [hsub]
        by_cases hd : 2 ≤ l.length - splitPoint l.length
        · rw [ih (l.drop (splitPoint l.length)).length (by rw [List.length_drop]; omega)
              (i - splitPoint l.length) _ rfl (by rw [List.length_drop]; omega)
              (by rw [List.length_drop]; omega),
            sibling_drop i _ l (by omega) heven, List.append_assoc]
        · -- the right part is the odd last digest: no sibling on this level
          have hi' : i = splitPoint l.length := by omega
          have hone : (l.drop (splitPoint l.length)).length = 1 := by
            rw [List.length_drop]
            omega
          obtain ⟨x, hx⟩ := List.length_eq_one_iff.mp hone
          have hnone : sibling i l = [] := by
            have hpar : i % 2 ≠ 1 := by omega
            have hout : l[i + 1]? = none := List.getElem?_eq_none (by omega)
            simp only [sibling, hpar, ite_false, hout, Option.toList_none]
          rw [hnone, hx]
          rfl
    · match l with
      | [] => simp at hl; omega
      | [a] => simp at hl; omega
      | [a, b] =>
        have h01 : i = 0 ∨ i = 1 := by
          simp only [List.length_cons, List.length_nil] at hl
          omega
        rcases h01 with rfl | rfl <;> rfl
      | _ :: _ :: _ :: _ => simp at hl; omega
  exact key l.length i l rfl hi h2

theorem path_rightEdge (a : ℕ) (l : List δ) (ha : 0 < a) (hl : l.length = 2 * a + 1) :
    path node (2 * a) l = path node a (pairUp node l) := by
  have hlast : l[2 * a + 1]? = none := List.getElem?_eq_none (by omega)
  have hdiv : 2 * a / 2 = a := by omega
  rw [path_pairUp node (2 * a) l (by omega) (by omega), hdiv]
  simp [sibling, hlast]

def pairsFuel : ℕ → List δ → List (δ × δ)
  | 0, _ => []
  | _ + 1, [] => []
  | _ + 1, [_] => []
  | fuel + 1, x :: y :: rest =>
    let k := splitPoint (x :: y :: rest).length
    pairsFuel fuel ((x :: y :: rest).take k) ++ pairsFuel fuel ((x :: y :: rest).drop k) ++
      [(mth node ((x :: y :: rest).take k), mth node ((x :: y :: rest).drop k))]

def pairs (l : List δ) : List (δ × δ) := pairsFuel node l.length l

theorem pairsFuel_eq (fuel : ℕ) (l : List δ) (h : l.length ≤ fuel) :
    pairsFuel node fuel l = pairs node l := by
  refine fuel_irrelevant (F := pairsFuel node) (fun f g => ?_) (fun _ _ _ => rfl) ?_ h le_rfl
  · cases f <;> cases g <;> rfl
  · intro f g l h2 htake hdrop
    match l with
    | x :: y :: rest =>
      simp only [pairsFuel]
      rw [htake, hdrop]

theorem pairs_split (l : List δ) (h : 2 ≤ l.length) :
    pairs node l = pairs node (l.take (splitPoint l.length)) ++
      pairs node (l.drop (splitPoint l.length)) ++
      [(mth node (l.take (splitPoint l.length)), mth node (l.drop (splitPoint l.length)))] := by
  match l with
  | x :: y :: rest =>
    obtain ⟨htake, hdrop⟩ := halves_length_le x y rest
    rw [← pairsFuel_eq node _ _ htake, ← pairsFuel_eq node _ _ hdrop]
    rfl

theorem mem_pairs_iff (l : List δ) (p : δ × δ) :
    p ∈ pairs node l ↔ p ∈ levelPairs l ∨ p ∈ pairs node (pairUp node l) := by
  have key : ∀ n (l : List δ), l.length = n →
      (p ∈ pairs node l ↔ p ∈ levelPairs l ∨ p ∈ pairs node (pairUp node l)) := by
    intro n
    refine Nat.strongRecOn n (fun n ih => ?_)
    intro l hl
    by_cases h3 : 3 ≤ l.length
    · have hlen := pairUp_length node l
      have hhalf := splitPoint_half l.length h3
      have hlt := splitPoint_lt l.length (by omega)
      have hpos := splitPoint_pos ((l.length + 1) / 2) (by omega)
      have heven : splitPoint l.length % 2 = 0 := by omega
      have hlevel : levelPairs l = levelPairs (l.take (splitPoint l.length)) ++
          levelPairs (l.drop (splitPoint l.length)) := by
        rw [← levelPairs_append_even _ _ (by rw [length_take_split l (by omega)]; exact heven),
          List.take_append_drop]
      rw [pairs_split node l (by omega), pairs_split node (pairUp node l) (by omega), hlen,
        pairUp_take, pairUp_drop, ← hhalf, mth_pairUp, mth_pairUp, hlevel]
      have htake := ih (l.take (splitPoint l.length)).length (by rw [List.length_take]; omega)
        _ rfl
      have hdrop := ih (l.drop (splitPoint l.length)).length (by rw [List.length_drop]; omega)
        _ rfl
      simp only [List.mem_append, htake, hdrop, List.mem_singleton]
      rw [or_or_or_comm, or_assoc]
    · match l with
      | [] => simp [pairs, pairsFuel, levelPairs, pairUp]
      | [a] => simp [pairs, pairsFuel, levelPairs, pairUp]
      | [a, b] =>
        have h0 : pairs node [a, b] = [(a, b)] := rfl
        have h1 : pairs node (pairUp node [a, b]) = [] := rfl
        simp [h0, h1, levelPairs]
      | _ :: _ :: _ :: _ => simp at h3
  exact key l.length l rfl

theorem mth_inj (l r : List δ) (hlen : l.length = r.length) (hne : l ≠ [])
    (hinj : Set.InjOn (fun p : δ × δ => node p.1 p.2) {p | p ∈ pairs node l ∨ p ∈ pairs node r})
    (h : mth node l = mth node r) : l = r := by
  have key : ∀ n (l r : List δ), l.length = n → r.length = n → l ≠ [] →
      Set.InjOn (fun p : δ × δ => node p.1 p.2) {p | p ∈ pairs node l ∨ p ∈ pairs node r} →
      mth node l = mth node r → l = r := by
    intro n
    refine Nat.strongRecOn n (fun n ih => ?_)
    intro l r hl hr hne hinj h
    by_cases h2 : 2 ≤ n
    · have hlt := splitPoint_lt n h2
      have hpos := splitPoint_pos n h2
      have hsl := pairs_split node l (by omega)
      have hsr := pairs_split node r (by omega)
      rw [mth_split node l (by omega), mth_split node r (by omega)] at h
      rw [hl] at h hsl
      rw [hr] at h hsr
      have hmem : ∀ p, (p ∈ pairs node (l.take (splitPoint n)) ∨
          p ∈ pairs node (r.take (splitPoint n))) ∨
          (p ∈ pairs node (l.drop (splitPoint n)) ∨ p ∈ pairs node (r.drop (splitPoint n))) →
          p ∈ pairs node l ∨ p ∈ pairs node r := by
        intro p hp
        rw [hsl, hsr]
        simp only [List.mem_append]
        tauto
      have hml : (mth node (l.take (splitPoint n)), mth node (l.drop (splitPoint n))) ∈
          pairs node l := by
        rw [hsl]
        simp
      have hmr : (mth node (r.take (splitPoint n)), mth node (r.drop (splitPoint n))) ∈
          pairs node r := by
        rw [hsr]
        simp
      have hroot := hinj (Or.inl hml) (Or.inr hmr) h
      obtain ⟨hleft, hright⟩ := Prod.mk.inj hroot
      have htl : (l.take (splitPoint n)).length = splitPoint n := by
        rw [List.length_take]
        omega
      have htake := ih (splitPoint n) hlt _ _ htl (by rw [List.length_take]; omega)
        (fun h0 => by rw [h0] at htl; simp at htl; omega)
        (hinj.mono fun p hp => hmem p (Or.inl hp)) hleft
      have hdl : (l.drop (splitPoint n)).length = n - splitPoint n := by
        rw [List.length_drop, hl]
      have hdrop := ih (n - splitPoint n) (by omega) _ _ hdl (by rw [List.length_drop, hr])
        (fun h0 => by rw [h0] at hdl; simp at hdl; omega)
        (hinj.mono fun p hp => hmem p (Or.inr hp)) hright
      rw [← List.take_append_drop (splitPoint n) l, ← List.take_append_drop (splitPoint n) r,
        htake, hdrop]
    · match l, r with
      | [], _ => exact absurd rfl hne
      | [a], [b] => exact congrArg (fun x => [x]) h
      | [a], [] => simp at hl hr; omega
      | [a], _ :: _ :: _ => simp at hl hr; omega
      | _ :: _ :: _, _ => simp at hl; omega
  exact key l.length l r rfl hlen.symm hne hinj h

/-- The subproof recursion for a prefix of `m` digests; `whole` says that the
prefix is still all the verifier has been shown. -/
def subproofFuel : ℕ → ℕ → List δ → Bool → List δ
  | 0, _, _, _ => []
  | fuel + 1, m, l, whole =>
    if m = l.length then
      if whole then [] else [mth node l]
    else
      let k := splitPoint l.length
      if m ≤ k then subproofFuel fuel m (l.take k) whole ++ [mth node (l.drop k)]
      else subproofFuel fuel (m - k) (l.drop k) false ++ [mth node (l.take k)]

def subproof (m : ℕ) (l : List δ) (whole : Bool) : List δ := subproofFuel node l.length m l whole

theorem subproofFuel_eq (fuel m : ℕ) (l : List δ) (whole : Bool) (hm : 0 < m)
    (hml : m ≤ l.length) (h : l.length ≤ fuel) :
    subproofFuel node fuel m l whole = subproof node m l whole := by
  have key : ∀ n f g m (l : List δ) whole, l.length = n → 0 < m → m ≤ n → n ≤ f → n ≤ g →
      subproofFuel node f m l whole = subproofFuel node g m l whole := by
    intro n
    refine Nat.strongRecOn n (fun n ih => ?_)
    intro f g m l whole hl hm hmn hf hg
    match f, g with
    | 0, _ => omega
    | _ + 1, 0 => omega
    | f + 1, g + 1 =>
      simp only [subproofFuel]
      by_cases heq : m = l.length
      · rw [if_pos heq, if_pos heq]
      · rw [if_neg heq, if_neg heq]
        have h2 : 2 ≤ l.length := by omega
        have hlt := splitPoint_lt _ h2
        have hpos := splitPoint_pos _ h2
        by_cases hk : m ≤ splitPoint l.length
        · rw [if_pos hk, if_pos hk, ih _ (by omega) f g m _ whole (length_take_split l h2) hm hk
            (by omega) (by omega)]
        · rw [if_neg hk, if_neg hk, ih (l.length - splitPoint l.length) (by omega) f g _ _ false
            List.length_drop (by omega) (by omega) (by omega) (by omega)]
  exact key l.length fuel l.length m l whole rfl hm hml h le_rfl

theorem subproof_self (l : List δ) (whole : Bool) (h : l ≠ []) :
    subproof node l.length l whole = if whole then [] else [mth node l] := by
  match l with
  | x :: rest => simp [subproof, subproofFuel]

theorem subproof_split (m : ℕ) (l : List δ) (whole : Bool) (hm : 0 < m) (hml : m < l.length) :
    subproof node m l whole =
      if m ≤ splitPoint l.length then
        subproof node m (l.take (splitPoint l.length)) whole ++
          [mth node (l.drop (splitPoint l.length))]
      else
        subproof node (m - splitPoint l.length) (l.drop (splitPoint l.length)) false ++
          [mth node (l.take (splitPoint l.length))] := by
  have h2 : 2 ≤ l.length := by omega
  have hlt := splitPoint_lt _ h2
  have hpos := splitPoint_pos _ h2
  have hne : m ≠ l.length := by omega
  have htl := length_take_split l h2
  obtain ⟨fuel, hfuel⟩ : ∃ fuel, l.length = fuel + 1 := ⟨l.length - 1, by omega⟩
  have hstep : subproof node m l whole = subproofFuel node (fuel + 1) m l whole := by
    rw [subproof, hfuel]
  rw [hstep]
  simp only [subproofFuel, hne, ite_false]
  by_cases hk : m ≤ splitPoint l.length
  · rw [if_pos hk, if_pos hk, subproofFuel_eq node fuel m _ whole hm (by omega) (by omega)]
  · rw [if_neg hk, if_neg hk, subproofFuel_eq node fuel _ _ false (by omega)
      (by rw [List.length_drop]; omega) (by rw [List.length_drop]; omega)]

theorem subproof_even (m : ℕ) (l : List δ) (whole : Bool) (hm : 0 < m) (hml : m ≤ l.length)
    (heven : m % 2 = 0) :
    subproof node m l whole = subproof node (m / 2) (pairUp node l) whole := by
  have key : ∀ n m (l : List δ) whole, l.length = n → 0 < m → m ≤ n → m % 2 = 0 →
      subproof node m l whole = subproof node (m / 2) (pairUp node l) whole := by
    intro n
    refine Nat.strongRecOn n (fun n ih => ?_)
    intro m l whole hl hm hmn heven
    have hlen := pairUp_length node l
    by_cases heq : m = n
    · have hmid : m / 2 = (pairUp node l).length := by omega
      have hne : l ≠ [] := fun h0 => by rw [h0] at hl; simp at hl; omega
      have hne' : pairUp node l ≠ [] := fun h0 => by rw [h0] at hlen; simp at hlen; omega
      rw [hmid, subproof_self node _ whole hne', heq, ← hl, subproof_self node l whole hne,
        mth_pairUp]
    · have hhalf := splitPoint_half l.length (by omega)
      have hlt := splitPoint_lt l.length (by omega)
      have hpos := splitPoint_pos ((l.length + 1) / 2) (by omega)
      rw [subproof_split node m l whole hm (by omega),
        subproof_split node (m / 2) (pairUp node l) whole (by omega) (by omega), hlen,
        pairUp_take, pairUp_drop, ← hhalf, mth_pairUp, mth_pairUp]
      have hdiv : (m / 2 ≤ splitPoint ((l.length + 1) / 2)) ↔ m ≤ splitPoint l.length := by
        omega
      by_cases hk : m ≤ splitPoint l.length
      · rw [if_pos hk, if_pos (hdiv.mpr hk),
          ih _ (by omega) m _ whole (length_take_split l (by omega)) hm hk heven]
      · rw [if_neg hk, if_neg (fun h => hk (hdiv.mp h)),
          ih (l.length - splitPoint l.length) (by omega) _ _ false List.length_drop (by omega)
            (by omega) (by omega)]
        have hsub : (m - splitPoint l.length) / 2 = m / 2 - splitPoint ((l.length + 1) / 2) := by
          omega
        rw [hsub]
  exact key l.length m l whole rfl hm hml heven

theorem splitPoint_even_or_one (n : ℕ) (hn : 2 ≤ n) :
    splitPoint n % 2 = 0 ∨ (n = 2 ∧ splitPoint n = 1) := by
  by_cases h3 : 3 ≤ n
  · have := splitPoint_half n h3
    omega
  · have h2 : n = 2 := by omega
    subst h2
    exact Or.inr ⟨rfl, rfl⟩

theorem subproof_odd (m : ℕ) (l : List δ) (hodd : m % 2 = 1) (hml : m ≤ l.length)
    (hone : m = l.length → m = 1) :
    subproof node m l false = l.getD (m - 1) default :: path node (m - 1) l := by
  have key : ∀ n m (l : List δ), l.length = n → m % 2 = 1 → m ≤ n → (m = n → m = 1) →
      subproof node m l false = l.getD (m - 1) default :: path node (m - 1) l := by
    intro n
    refine Nat.strongRecOn n (fun n ih => ?_)
    intro m l hl hodd hmn hone
    by_cases heq : m = n
    · have h1 := hone heq
      have hl1 : l.length = 1 := by omega
      obtain ⟨x, rfl⟩ := List.length_eq_one_iff.mp hl1
      rw [h1]
      rfl
    · have h2 : 2 ≤ l.length := by omega
      have hlt := splitPoint_lt l.length h2
      have hpos := splitPoint_pos l.length h2
      have hpar := splitPoint_even_or_one l.length h2
      rw [subproof_split node m l false (by omega) (by omega), path_split node (m - 1) l h2]
      by_cases hk : m ≤ splitPoint l.length
      · rw [if_pos hk, if_pos (by omega),
          ih _ (by omega) m _ (length_take_split l h2) hodd hk (by omega)]
        simp only [List.getD_eq_getElem?_getD, List.getElem?_take]
        rw [if_pos (by omega), List.cons_append]
      · have he : m - 1 - splitPoint l.length = m - splitPoint l.length - 1 := by omega
        have he' : splitPoint l.length + (m - splitPoint l.length - 1) = m - 1 := by omega
        rw [if_neg hk, if_neg (by omega),
          ih (l.length - splitPoint l.length) (by omega) _ _ List.length_drop (by omega)
            (by omega) (by omega)]
        simp only [List.getD_eq_getElem?_getD, List.getElem?_drop, he, he', List.cons_append]
  exact key l.length m l rfl hodd hml hone

theorem subproof_one (l : List δ) (h : l ≠ []) : subproof node 1 l true = path node 0 l := by
  have key : ∀ n (l : List δ), l.length = n → 0 < n → subproof node 1 l true = path node 0 l := by
    intro n
    refine Nat.strongRecOn n (fun n ih => ?_)
    intro l hl hn
    by_cases h1 : n = 1
    · have hl1 : l.length = 1 := by omega
      obtain ⟨x, rfl⟩ := List.length_eq_one_iff.mp hl1
      rfl
    · have h2 : 2 ≤ l.length := by omega
      have hlt := splitPoint_lt l.length h2
      have hpos := splitPoint_pos l.length h2
      rw [subproof_split node 1 l true (by omega) (by omega), path_split node 0 l h2,
        if_pos (by omega), if_pos hpos, ih _ (by omega) _ (length_take_split l h2) hpos]
  exact key l.length l rfl (List.length_pos_iff.mpr h)

theorem subproof_whole (m : ℕ) (l : List δ) (hodd : m % 2 = 1) (h3 : 3 ≤ m) (hml : m < l.length) :
    subproof node m l true = subproof node m l false := by
  have key : ∀ n m (l : List δ), l.length = n → m % 2 = 1 → 3 ≤ m → m < n →
      subproof node m l true = subproof node m l false := by
    intro n
    refine Nat.strongRecOn n (fun n ih => ?_)
    intro m l hl hodd h3 hmn
    have h2 : 2 ≤ l.length := by omega
    have hlt := splitPoint_lt l.length h2
    have hpar := splitPoint_even_or_one l.length h2
    rw [subproof_split node m l true (by omega) (by omega),
      subproof_split node m l false (by omega) (by omega)]
    by_cases hk : m ≤ splitPoint l.length
    · rw [if_pos hk, if_pos hk,
        ih _ (by omega) m _ (length_take_split l h2) hodd h3 (by omega)]
    · rw [if_neg hk, if_neg hk]
  exact key l.length m l rfl hodd h3 hml

end Tree

end MerkleTree
