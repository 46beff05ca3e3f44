import TexGovernance.Interchange.Note

/-!
# The verification walks, level by level

Each result is an induction on `sn` in which the walk is compared with one level of the tree at
a time.
-/

namespace TexGovernance.Interchange
open PyStr PyBytes Sha256 TexGovernance.Ecosystem

theorem stripZeros_fuel (a f g : ℕ) (hf : a ≤ f) (hg : a ≤ g) :
    stripZeros f a a = stripZeros g a a := by
  induction f generalizing a g with
  | zero =>
    have ha : a = 0 := by omega
    subst ha
    cases g with
    | zero => rfl
    | succ g => simp [stripZeros]
  | succ f ih =>
    cases g with
    | zero =>
      have ha : a = 0 := by omega
      subst ha
      simp [stripZeros]
    | succ g =>
      simp only [stripZeros]
      by_cases h : a ≠ 0 ∧ a % 2 = 0
      · rw [if_pos h, if_pos h]
        exact ih (a / 2) g (by omega) (by omega)
      · rw [if_neg h, if_neg h]

theorem advance_double (a : ℕ) (ha : 0 < a) : advance (2 * a) (2 * a) = advance a a := by
  have hstep : stripZeros (2 * a) (2 * a) (2 * a) = stripZeros a a a := by
    obtain ⟨f, hf⟩ : ∃ f, 2 * a = f + 1 := ⟨2 * a - 1, by omega⟩
    have hdiv : 2 * a / 2 = a := by omega
    have hcond : 2 * a ≠ 0 ∧ 2 * a % 2 = 0 := by omega
    have hone : stripZeros (2 * a) (2 * a) (2 * a) = stripZeros f a a := by
      nth_rewrite 1 [hf]
      simp only [stripZeros, if_pos hcond, hdiv]
    rw [hone]
    exact stripZeros_fuel a f a (by omega) le_rfl
  have heven : 2 * a % 2 = 0 := by omega
  simp only [advance, joinsLeft, heven, hstep]
  by_cases hodd : a % 2 = 1
  · have hstop : stripZeros a a a = (a, a) := by
      obtain ⟨f, rfl⟩ : ∃ f, a = f + 1 := ⟨a - 1, by omega⟩
      rw [stripZeros, if_neg (by omega)]
    simp [hodd, hstop]
  · have h0 : a % 2 = 0 := by omega
    simp [h0]

theorem advance_one (fn sn : ℕ) (h : fn % 2 = 1 ∨ fn ≠ sn) : advance fn sn = (fn / 2, sn / 2) := by
  unfold advance joinsLeft
  rcases h with h | h
  · simp [h]
  · by_cases hodd : fn % 2 = 1
    · simp [hodd]
    · have h0 : fn % 2 = 0 := by omega
      simp [h0, h]

theorem joinsLeft_self (a : ℕ) : joinsLeft a a = true := by
  simp [joinsLeft]

theorem joinsLeft_odd (fn sn : ℕ) (h : fn % 2 = 1) : joinsLeft fn sn = true := by
  simp [joinsLeft, h]

theorem joinsLeft_even (fn sn : ℕ) (h : fn % 2 = 0) (hne : fn ≠ sn) : joinsLeft fn sn = false := by
  simp [joinsLeft, h, hne]

theorem inclusionWalk_skip (a : ℕ) (ha : 0 < a) (r x : Digest) (path : List Digest) :
    inclusionWalk (2 * a) (2 * a) r path = some (0, x) ↔ inclusionWalk a a r path = some (0, x) := by
  cases path with
  | nil =>
    simp only [inclusionWalk, Option.some.injEq, Prod.mk.injEq]
    omega
  | cons p path =>
    have h1 : 2 * a ≠ 0 := by omega
    have h2 : a ≠ 0 := by omega
    simp only [inclusionWalk, if_neg h1, if_neg h2, advance_double a ha, joinsLeft_self]

theorem inclusionPairs_skip (a : ℕ) (ha : 0 < a) (r : Digest) (path : List Digest) :
    inclusionPairs (2 * a) (2 * a) r path = inclusionPairs a a r path := by
  cases path with
  | nil => rfl
  | cons p path =>
    have h1 : 2 * a ≠ 0 := by omega
    have h2 : a ≠ 0 := by omega
    simp only [inclusionPairs, if_neg h1, if_neg h2, advance_double a ha, joinsLeft_self]

theorem consistencyWalk_skip (a : ℕ) (ha : 0 < a) (fr sr x y : Digest) (path : List Digest) :
    consistencyWalk (2 * a) (2 * a) fr sr path = some (0, x, y) ↔
      consistencyWalk a a fr sr path = some (0, x, y) := by
  cases path with
  | nil =>
    simp only [consistencyWalk, Option.some.injEq, Prod.mk.injEq]
    omega
  | cons p path =>
    have h1 : 2 * a ≠ 0 := by omega
    have h2 : a ≠ 0 := by omega
    simp only [consistencyWalk, if_neg h1, if_neg h2, advance_double a ha, joinsLeft_self]

theorem firstRootPairs_skip (a : ℕ) (ha : 0 < a) (fr : Digest) (path : List Digest) :
    firstRootPairs (2 * a) (2 * a) fr path = firstRootPairs a a fr path := by
  cases path with
  | nil => rfl
  | cons p path =>
    have h1 : 2 * a ≠ 0 := by omega
    have h2 : a ≠ 0 := by omega
    simp only [firstRootPairs, if_neg h1, if_neg h2, advance_double a ha, joinsLeft_self]

theorem consistencyWalk_second (fn sn : ℕ) (fr sr : Digest) (path : List Digest) :
    (consistencyWalk fn sn fr sr path).map (fun s => (s.1, s.2.2)) =
      inclusionWalk fn sn sr path := by
  induction path generalizing fn sn fr sr with
  | nil => rfl
  | cons p path ih =>
    simp only [consistencyWalk, inclusionWalk]
    by_cases h : sn = 0
    · rw [if_pos h, if_pos h]
      rfl
    · rw [if_neg h, if_neg h]
      exact ih _ _ _ _

theorem cursor_cases (fn sn : ℕ) (h : fn ≤ sn) :
    sn = 0 ∨ (∃ a, 0 < a ∧ fn = 2 * a ∧ sn = 2 * a) ∨
      (sn ≠ 0 ∧ (fn % 2 = 1 ∨ (fn % 2 = 0 ∧ fn < sn))) := by
  by_cases h0 : sn = 0
  · exact Or.inl h0
  · by_cases hodd : fn % 2 = 1
    · exact Or.inr (Or.inr ⟨h0, Or.inl hodd⟩)
    · by_cases heq : fn = sn
      · exact Or.inr (Or.inl ⟨fn / 2, by omega, by omega, by omega⟩)
      · exact Or.inr (Or.inr ⟨h0, Or.inr ⟨by omega, by omega⟩⟩)

theorem injOn_pairUp (l : List Digest) (Q Q' : List (Digest × Digest))
    (hinj : Set.InjOn (fun p : Digest × Digest => node p.1 p.2)
      {p | p ∈ MerkleTree.pairs node l ∨ p ∈ Q}) (hsub : ∀ p ∈ Q', p ∈ Q) :
    Set.InjOn (fun p : Digest × Digest => node p.1 p.2)
      {p | p ∈ MerkleTree.pairs node (MerkleTree.pairUp node l) ∨ p ∈ Q'} := by
  refine hinj.mono ?_
  intro p hp
  rcases hp with hp | hp
  · exact Or.inl ((MerkleTree.mem_pairs_iff node l p).mpr (Or.inr hp))
  · exact Or.inr (hsub p hp)

theorem inclusionWalk_sound (n fn : ℕ) (r : Digest) (path l : List Digest)
    (hl : l.length = n + 1) (hfn : fn ≤ n)
    (hinj : Set.InjOn (fun p : Digest × Digest => node p.1 p.2)
      {p | p ∈ MerkleTree.pairs node l ∨ p ∈ inclusionPairs fn n r path})
    (hwalk : inclusionWalk fn n r path = some (0, MerkleTree.mth node l)) :
    l[fn]? = some r ∧ path = MerkleTree.path node fn l := by
  have key : ∀ n fn r (path l : List Digest), l.length = n + 1 → fn ≤ n →
      Set.InjOn (fun p : Digest × Digest => node p.1 p.2)
        {p | p ∈ MerkleTree.pairs node l ∨ p ∈ inclusionPairs fn n r path} →
      inclusionWalk fn n r path = some (0, MerkleTree.mth node l) →
      l[fn]? = some r ∧ path = MerkleTree.path node fn l := by
    intro n
    refine Nat.strongRecOn n (fun n ih => ?_)
    intro fn r path l hl hfn hinj hwalk
    have hlen := MerkleTree.pairUp_length node l
    rcases cursor_cases fn n hfn with h0 | ⟨a, ha, hfa, hna⟩ | ⟨hn0, hpos⟩
    · -- the root: nothing is left to fold
      subst h0
      have hfn0 : fn = 0 := by omega
      subst hfn0
      obtain ⟨x, rfl⟩ := List.length_eq_one_iff.mp hl
      cases path with
      | nil =>
        simp only [inclusionWalk, Option.some.injEq, Prod.mk.injEq, true_and] at hwalk
        rw [hwalk]
        exact ⟨rfl, rfl⟩
      | cons p path => simp [inclusionWalk] at hwalk
    · -- the right edge: the node is its own parent
      subst hfa
      subst hna
      have hup := (inclusionWalk_skip a ha r _ path).mp hwalk
      rw [← MerkleTree.mth_pairUp] at hup
      rw [inclusionPairs_skip a ha] at hinj
      have hinj' := injOn_pairUp l _ _ hinj fun _ hp => hp
      obtain ⟨hget, hpath⟩ := ih a (by omega) a r path _ (by omega) le_rfl hinj' hup
      have hlast : l[2 * a + 1]? = none := List.getElem?_eq_none (by omega)
      obtain ⟨y, hy⟩ : ∃ y, l[2 * a]? = some y := ⟨_, List.getElem?_eq_getElem (by omega)⟩
      rw [MerkleTree.pairUp_getElem?, hlast, hy] at hget
      refine ⟨by rw [hy]; exact hget, ?_⟩
      rw [MerkleTree.path_rightEdge node a l ha (by omega), hpath]
    · -- a sibling: one pair of the level is joined
      cases path with
      | nil => simp only [inclusionWalk, Option.some.injEq, Prod.mk.injEq] at hwalk; omega
      | cons p path =>
        have hadv : advance fn n = (fn / 2, n / 2) := advance_one fn n (by omega)
        simp only [inclusionWalk, if_neg hn0, hadv] at hwalk
        simp only [inclusionPairs, if_neg hn0, hadv] at hinj
        rw [← MerkleTree.mth_pairUp] at hwalk
        rcases hpos with hodd | ⟨heven, hlt⟩
        · rw [joinsLeft_odd fn n hodd] at hwalk hinj
          simp only [if_true] at hwalk hinj
          have hinj' := injOn_pairUp l _ _ hinj fun _ hq => List.mem_cons_of_mem _ hq
          obtain ⟨hget, hpath⟩ := ih (n / 2) (by omega) (fn / 2) _ path _ (by omega) (by omega)
            hinj' hwalk
          have e0 : 2 * (fn / 2) = fn - 1 := by omega
          have e1 : fn - 1 + 1 = fn := by omega
          obtain ⟨y, hy⟩ : ∃ y, l[fn - 1]? = some y := ⟨_, List.getElem?_eq_getElem (by omega)⟩
          obtain ⟨z, hz⟩ : ∃ z, l[fn]? = some z := ⟨_, List.getElem?_eq_getElem (by omega)⟩
          rw [MerkleTree.pairUp_getElem?, e0, e1, hy, hz] at hget
          have hmem : (y, z) ∈ MerkleTree.pairs node l := by
            rw [MerkleTree.mem_pairs_iff]
            exact Or.inl (MerkleTree.mem_levelPairs l (fn / 2) y z (by rw [e0]; exact hy)
              (by rw [e0, e1]; exact hz))
          have hpair : (y, z) = (p, r) :=
            hinj (Or.inl hmem) (Or.inr List.mem_cons_self) (Option.some.inj hget)
          obtain ⟨hyp, hzr⟩ := Prod.mk.inj hpair
          refine ⟨by rw [hz, hzr], ?_⟩
          rw [MerkleTree.path_pairUp node fn l (by omega) (by omega), ← hpath]
          simp [MerkleTree.sibling, hodd, hy, hyp]
        · rw [joinsLeft_even fn n heven (by omega)] at hwalk hinj
          simp only [Bool.false_eq_true, if_false] at hwalk hinj
          have hinj' := injOn_pairUp l _ _ hinj fun _ hq => List.mem_cons_of_mem _ hq
          obtain ⟨hget, hpath⟩ := ih (n / 2) (by omega) (fn / 2) _ path _ (by omega) (by omega)
            hinj' hwalk
          have e0 : 2 * (fn / 2) = fn := by omega
          have hne1 : ¬ fn % 2 = 1 := by omega
          obtain ⟨y, hy⟩ : ∃ y, l[fn]? = some y := ⟨_, List.getElem?_eq_getElem (by omega)⟩
          obtain ⟨z, hz⟩ : ∃ z, l[fn + 1]? = some z := ⟨_, List.getElem?_eq_getElem (by omega)⟩
          rw [MerkleTree.pairUp_getElem?, e0, hy, hz] at hget
          have hmem : (y, z) ∈ MerkleTree.pairs node l := by
            rw [MerkleTree.mem_pairs_iff]
            exact Or.inl (MerkleTree.mem_levelPairs l (fn / 2) y z (by rw [e0]; exact hy)
              (by rw [e0]; exact hz))
          have hpair : (y, z) = (r, p) :=
            hinj (Or.inl hmem) (Or.inr List.mem_cons_self) (Option.some.inj hget)
          obtain ⟨hyr, hzp⟩ := Prod.mk.inj hpair
          refine ⟨by rw [hy, hyr], ?_⟩
          rw [MerkleTree.path_pairUp node fn l (by omega) (by omega), ← hpath]
          simp [MerkleTree.sibling, hne1, hz, hzp]
  exact key n fn r path l hl hfn hinj hwalk

section Level

variable (l : List Digest) (fr : Digest)

theorem pairUp_take_snoc_even (fn : ℕ) (heven : fn % 2 = 0) (hfn : fn ≤ l.length) :
    MerkleTree.pairUp node (l.take fn ++ [fr]) =
      (MerkleTree.pairUp node l).take (fn / 2) ++ [fr] := by
  have e : 2 * (fn / 2) = fn := by omega
  rw [MerkleTree.pairUp_append_even node _ _ (by rw [List.length_take]; omega),
    MerkleTree.pairUp_take, e]
  rfl

theorem take_odd (fn : ℕ) (y : Digest) (hodd : fn % 2 = 1) (hy : l[fn - 1]? = some y) :
    l.take fn = l.take (2 * (fn / 2)) ++ [y] := by
  have e : fn = 2 * (fn / 2) + 1 := by omega
  have e' : fn - 1 = 2 * (fn / 2) := by omega
  rw [e'] at hy
  nth_rewrite 1 [e]
  rw [List.take_add_one, hy]
  rfl

theorem pairUp_take_snoc_odd (fn : ℕ) (y : Digest) (hodd : fn % 2 = 1) (hfn : fn ≤ l.length)
    (hy : l[fn - 1]? = some y) :
    MerkleTree.pairUp node (l.take fn ++ [fr]) =
      (MerkleTree.pairUp node l).take (fn / 2) ++ [node y fr] := by
  rw [take_odd l fn y hodd hy, List.append_assoc,
    MerkleTree.pairUp_append_even node _ _ (by rw [List.length_take]; omega),
    MerkleTree.pairUp_take]
  rfl

omit fr in
theorem levelPairs_take (k : ℕ) (hk : 2 * k ≤ l.length) (p : Digest × Digest)
    (hp : p ∈ MerkleTree.levelPairs (l.take (2 * k))) : p ∈ MerkleTree.levelPairs l := by
  have hlen : (l.take (2 * k)).length % 2 = 0 := by
    rw [List.length_take]
    omega
  rw [← List.take_append_drop (2 * k) l, MerkleTree.levelPairs_append_even _ _ hlen]
  exact List.mem_append_left _ hp

theorem levelPairs_snoc_even (fn : ℕ) (heven : fn % 2 = 0) (hfn : fn ≤ l.length)
    (p : Digest × Digest) (hp : p ∈ MerkleTree.levelPairs (l.take fn ++ [fr])) :
    p ∈ MerkleTree.levelPairs l := by
  have e : 2 * (fn / 2) = fn := by omega
  rw [MerkleTree.levelPairs_append_even _ _ (by rw [List.length_take]; omega)] at hp
  simp only [MerkleTree.levelPairs, List.append_nil] at hp
  exact levelPairs_take l (fn / 2) (by omega) p (by rw [e]; exact hp)

theorem levelPairs_snoc_odd (fn : ℕ) (y : Digest) (hodd : fn % 2 = 1) (hfn : fn ≤ l.length)
    (hy : l[fn - 1]? = some y) (p : Digest × Digest)
    (hp : p ∈ MerkleTree.levelPairs (l.take fn ++ [fr])) :
    p ∈ MerkleTree.levelPairs l ∨ p = (y, fr) := by
  rw [take_odd l fn y hodd hy, List.append_assoc,
    MerkleTree.levelPairs_append_even _ _ (by rw [List.length_take]; omega)] at hp
  simp only [List.singleton_append, MerkleTree.levelPairs, List.mem_append, List.mem_singleton]
    at hp
  rcases hp with hp | hp
  · exact Or.inl (levelPairs_take l (fn / 2) (by omega) p hp)
  · exact Or.inr hp

end Level

theorem consistencyWalk_path (n fn : ℕ) (fr x : Digest) (l : List Digest)
    (hl : l.length = n + 1) (hfn : fn ≤ n) (hx : l[fn]? = some x) :
    consistencyWalk fn n fr x (MerkleTree.path node fn l) =
      some (0, MerkleTree.mth node (l.take fn ++ [fr]), MerkleTree.mth node l) := by
  have key : ∀ n fn fr x (l : List Digest), l.length = n + 1 → fn ≤ n → l[fn]? = some x →
      consistencyWalk fn n fr x (MerkleTree.path node fn l) =
        some (0, MerkleTree.mth node (l.take fn ++ [fr]), MerkleTree.mth node l) := by
    intro n
    refine Nat.strongRecOn n (fun n ih => ?_)
    intro fn fr x l hl hfn hx
    have hlen := MerkleTree.pairUp_length node l
    rcases cursor_cases fn n hfn with h0 | ⟨a, ha, hfa, hna⟩ | ⟨hn0, hpos⟩
    · subst h0
      have hfn0 : fn = 0 := by omega
      subst hfn0
      obtain ⟨y, rfl⟩ := List.length_eq_one_iff.mp hl
      have hyx : y = x := Option.some.inj hx
      rw [hyx]
      rfl
    · subst hfa
      subst hna
      have hlast : l[2 * a + 1]? = none := List.getElem?_eq_none (by omega)
      have hdiv : 2 * a / 2 = a := by omega
      have hpath := MerkleTree.path_rightEdge node a l ha (by omega)
      have hget : (MerkleTree.pairUp node l)[a]? = some x := by
        rw [MerkleTree.pairUp_getElem?, hlast, hx]
      have hup := pairUp_take_snoc_even l fr (2 * a) (by omega) (by omega)
      rw [hdiv] at hup
      rw [hpath, consistencyWalk_skip a ha, ih a (by omega) a fr x _ (by omega) le_rfl hget,
        ← hup, MerkleTree.mth_pairUp, MerkleTree.mth_pairUp]
    · have hadv : advance fn n = (fn / 2, n / 2) := advance_one fn n (by omega)
      rw [MerkleTree.path_pairUp node fn l (by omega) (by omega)]
      rcases hpos with hodd | ⟨heven, hlt⟩
      · have e0 : 2 * (fn / 2) = fn - 1 := by omega
        have e1 : fn - 1 + 1 = fn := by omega
        obtain ⟨y, hy⟩ : ∃ y, l[fn - 1]? = some y := ⟨_, List.getElem?_eq_getElem (by omega)⟩
        have hget : (MerkleTree.pairUp node l)[fn / 2]? = some (node y x) := by
          rw [MerkleTree.pairUp_getElem?, e0, e1, hy, hx]
        have hsib : MerkleTree.sibling fn l = [y] := by
          simp [MerkleTree.sibling, hodd, hy]
        have hup := pairUp_take_snoc_odd l fr fn y hodd (by omega) hy
        rw [hsib, List.singleton_append]
        simp only [consistencyWalk, if_neg hn0, hadv, joinsLeft_odd fn n hodd, if_true]
        rw [ih (n / 2) (by omega) (fn / 2) (node y fr) (node y x) _ (by omega) (by omega) hget,
          ← hup, MerkleTree.mth_pairUp, MerkleTree.mth_pairUp]
      · have e0 : 2 * (fn / 2) = fn := by omega
        have hne1 : ¬ fn % 2 = 1 := by omega
        obtain ⟨z, hz⟩ : ∃ z, l[fn + 1]? = some z := ⟨_, List.getElem?_eq_getElem (by omega)⟩
        have hget : (MerkleTree.pairUp node l)[fn / 2]? = some (node x z) := by
          rw [MerkleTree.pairUp_getElem?, e0, hx, hz]
        have hsib : MerkleTree.sibling fn l = [z] := by
          simp [MerkleTree.sibling, hne1, hz]
        have hup := pairUp_take_snoc_even l fr fn heven (by omega)
        rw [hsib, List.singleton_append]
        simp only [consistencyWalk, if_neg hn0, hadv, joinsLeft_even fn n heven (by omega),
          Bool.false_eq_true, if_false]
        rw [ih (n / 2) (by omega) (fn / 2) fr (node x z) _ (by omega) (by omega) hget,
          ← hup, MerkleTree.mth_pairUp, MerkleTree.mth_pairUp]
  exact key n fn fr x l hl hfn hx

theorem firstRootPairs_path (n fn : ℕ) (fr : Digest) (l : List Digest)
    (hl : l.length = n + 1) (hfn : fn ≤ n) (p : Digest × Digest)
    (hp : p ∈ MerkleTree.pairs node (l.take fn ++ [fr])) :
    p ∈ MerkleTree.pairs node l ∨ p ∈ firstRootPairs fn n fr (MerkleTree.path node fn l) := by
  have key : ∀ n fn fr (l : List Digest), l.length = n + 1 → fn ≤ n →
      p ∈ MerkleTree.pairs node (l.take fn ++ [fr]) →
      p ∈ MerkleTree.pairs node l ∨
        p ∈ firstRootPairs fn n fr (MerkleTree.path node fn l) := by
    intro n
    refine Nat.strongRecOn n (fun n ih => ?_)
    intro fn fr l hl hfn hp
    have hlen := MerkleTree.pairUp_length node l
    rw [MerkleTree.mem_pairs_iff] at hp
    rw [MerkleTree.mem_pairs_iff node l]
    rcases cursor_cases fn n hfn with h0 | ⟨a, ha, hfa, hna⟩ | ⟨hn0, hpos⟩
    · subst h0
      have hfn0 : fn = 0 := by omega
      subst hfn0
      rcases hp with hp | hp
      · cases hp
      · cases hp
    · subst hfa
      subst hna
      have hlast : l[2 * a + 1]? = none := List.getElem?_eq_none (by omega)
      have hdiv : 2 * a / 2 = a := by omega
      have hpath := MerkleTree.path_rightEdge node a l ha (by omega)
      rcases hp with hp | hp
      · exact Or.inl (Or.inl (levelPairs_snoc_even l fr (2 * a) (by omega) (by omega) p hp))
      · rw [pairUp_take_snoc_even l fr (2 * a) (by omega) (by omega), hdiv] at hp
        rw [hpath, firstRootPairs_skip a ha]
        rcases ih a (by omega) a fr _ (by omega) le_rfl hp with h | h
        · exact Or.inl (Or.inr h)
        · exact Or.inr h
    · have hadv : advance fn n = (fn / 2, n / 2) := advance_one fn n (by omega)
      rw [MerkleTree.path_pairUp node fn l (by omega) (by omega)]
      rcases hpos with hodd | ⟨heven, hlt⟩
      · obtain ⟨y, hy⟩ : ∃ y, l[fn - 1]? = some y := ⟨_, List.getElem?_eq_getElem (by omega)⟩
        have hsib : MerkleTree.sibling fn l = [y] := by
          simp [MerkleTree.sibling, hodd, hy]
        rw [hsib, List.singleton_append]
        simp only [firstRootPairs, if_neg hn0, hadv, joinsLeft_odd fn n hodd, if_true,
          List.mem_cons]
        rcases hp with hp | hp
        · rcases levelPairs_snoc_odd l fr fn y hodd (by omega) hy p hp with h | h
          · exact Or.inl (Or.inl h)
          · exact Or.inr (Or.inl h)
        · rw [pairUp_take_snoc_odd l fr fn y hodd (by omega) hy] at hp
          rcases ih (n / 2) (by omega) (fn / 2) _ _ (by omega) (by omega) hp with h | h
          · exact Or.inl (Or.inr h)
          · exact Or.inr (Or.inr h)
      · have hne1 : ¬ fn % 2 = 1 := by omega
        obtain ⟨z, hz⟩ : ∃ z, l[fn + 1]? = some z := ⟨_, List.getElem?_eq_getElem (by omega)⟩
        have hsib : MerkleTree.sibling fn l = [z] := by
          simp [MerkleTree.sibling, hne1, hz]
        rw [hsib, List.singleton_append]
        simp only [firstRootPairs, if_neg hn0, hadv, joinsLeft_even fn n heven (by omega),
          Bool.false_eq_true, if_false]
        rcases hp with hp | hp
        · exact Or.inl (Or.inl (levelPairs_snoc_even l fr fn heven (by omega) p hp))
        · rw [pairUp_take_snoc_even l fr fn heven (by omega)] at hp
          rcases ih (n / 2) (by omega) (fn / 2) _ _ (by omega) (by omega) hp with h | h
          · exact Or.inl (Or.inr h)
          · exact Or.inr h
  exact key n fn fr l hl hfn hp

end TexGovernance.Interchange
