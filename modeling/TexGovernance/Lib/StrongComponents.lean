import TexGovernance.Lib.Tarjan
import Mathlib.Logic.Relation

/-!
# Components are strongly connected

The finished nodes above an open node can be reached from it, and each of them leads to a node
below it on the stack, no lower than the open node's bound.
-/

namespace Tarjan
open PyDict Relation

variable {α : Type} [DecidableEq α]

section Connected

variable (succ : α → List α)

def Reach : α → α → Prop := ReflTransGen fun x y => y ∈ succ x

structure Link (s : State α) (n : α) (fin : List α) : Prop where
  low_le : s.low n ≤ s.idx n
  low : ∃ w ∈ s.stack, s.idx w = s.low n ∧ Reach succ n w
  down : ∀ z ∈ fin, Reach succ n z
  up : ∀ z ∈ fin, ∃ w ∈ s.stack, s.idx w < s.idx z ∧ s.low n ≤ s.idx w ∧ Reach succ z w

def Linked (s : State α) : List (α × List α) → List α → Prop
  | [], stack => stack = []
  | (n, _) :: frames, stack => ∃ fin below, stack = fin ++ n :: below ∧ Link succ s n fin ∧
      (∀ parent ∈ frames.head?, Reach succ parent.1 n) ∧ Linked s frames below

def StronglyConnected (component : List α) : Prop :=
  ∀ x ∈ component, ∀ y ∈ component, Reach succ x y

structure SearchInv (nodes : List α) (base : ℕ) (s : State α) : Prop where
  inv : Inv succ nodes base s
  linked : Linked succ s s.frames s.stack
  strong : ∀ c ∈ s.sccs, StronglyConnected succ c

variable {succ} {nodes : List α} {base : ℕ} {s t : State α}

theorem reach_edge {x y : α} (h : y ∈ succ x) : Reach succ x y := .single h

theorem Linked.keep {frames : List (α × List α)} {stack : List α} (h : Linked succ s frames stack)
    (hsub : ∀ y ∈ stack, y ∈ s.stack) (hidx : ∀ y ∈ s.stack, t.idx y = s.idx y)
    (hlow : ∀ y ∈ stack, t.low y = s.low y)
    (hstack : ∀ y ∈ s.stack, ∀ z ∈ stack, s.idx y ≤ s.idx z → y ∈ t.stack) :
    Linked succ t frames stack := by
  induction frames generalizing stack with
  | nil => exact h
  | cons frame frames ih =>
    obtain ⟨fin, below, rfl, hlink, hparent, hbelow⟩ := h
    have hn : frame.1 ∈ fin ++ frame.1 :: below := by simp
    have hbelow_sub : ∀ y ∈ below, y ∈ fin ++ frame.1 :: below := fun y hy => by simp [hy]
    refine ⟨fin, below, rfl, ⟨?_, ?_, hlink.down, fun z hz => ?_⟩, hparent,
      ih hbelow (fun y hy => hsub y (hbelow_sub y hy)) (fun y hy => hlow y (hbelow_sub y hy))
        fun y hy z hz => hstack y hy z (hbelow_sub z hz)⟩
    · rw [hlow _ hn, hidx _ (hsub _ hn)]
      exact hlink.low_le
    · obtain ⟨w, hw, hwlow, hreach⟩ := hlink.low
      refine ⟨w, hstack w hw _ hn (hwlow ▸ hlink.low_le), ?_, hreach⟩
      rw [hidx w hw, hlow _ hn]
      exact hwlow
    · obtain ⟨w, hw, hlt, hle, hreach⟩ := hlink.up z hz
      have hzin : z ∈ fin ++ frame.1 :: below := List.mem_append_left _ hz
      refine ⟨w, hstack w hw z hzin hlt.le, ?_, ?_, hreach⟩
      · rw [hidx w hw, hidx z (hsub z hzin)]
        exact hlt
      · rw [hlow _ hn, hidx w hw]
        exact hle

theorem Link.frames {n : α} {fin : List α} (h : Link succ s n fin) (frames : List (α × List α)) :
    Link succ { s with frames := frames } n fin :=
  ⟨h.low_le, h.low, h.down, h.up⟩

theorem Linked.frames {frames : List (α × List α)} {stack : List α} (h : Linked succ s frames stack)
    (hsub : ∀ y ∈ stack, y ∈ s.stack) (frames' : List (α × List α)) :
    Linked succ { s with frames := frames' } frames stack :=
  h.keep hsub (fun _ _ => rfl) (fun _ _ => rfl) fun _ hy _ _ _ => hy

theorem Link.lower {n w : α} {fin : List α} (h : Link succ s n fin) (hw : w ∈ s.stack)
    (hreach : Reach succ n w) : Link succ (lowerTo s n (s.idx w)) n fin := by
  have hlow : (lowerTo s n (s.idx w)).low n = min (s.low n) (s.idx w) := by
    rw [lowerTo_low, if_pos rfl]
  refine ⟨?_, ?_, h.down, fun z hz => ?_⟩
  · rw [hlow]
    exact (Nat.min_le_left _ _).trans h.low_le
  · rw [hlow]
    rcases Nat.le_total (s.low n) (s.idx w) with hle | hle
    · rw [Nat.min_eq_left hle]
      exact h.low
    · rw [Nat.min_eq_right hle]
      exact ⟨w, hw, rfl, hreach⟩
  · obtain ⟨v, hv, hlt, hle, hreach'⟩ := h.up z hz
    refine ⟨v, hv, hlt, ?_, hreach'⟩
    rw [hlow]
    exact (Nat.min_le_left _ _).trans hle

theorem idx_lt_of_section (h : Inv succ nodes base s) {n : α} {fin below : List α}
    (hstack : s.stack = fin ++ n :: below) : ∀ y ∈ below, s.idx y < s.idx n := by
  have hsorted := h.sorted
  rw [hstack, List.pairwise_append, List.pairwise_cons] at hsorted
  exact hsorted.2.1.1

theorem notMem_section (h : Inv succ nodes base s) {n : α} {fin below : List α}
    (hstack : s.stack = fin ++ n :: below) : n ∉ fin ∧ n ∉ below := by
  have hnodup := (List.nodup_append.mp h.nodup).1
  rw [hstack, List.nodup_append, List.nodup_cons] at hnodup
  exact ⟨fun hn => hnodup.2.2 n hn n List.mem_cons_self rfl, hnodup.2.1.1⟩

theorem mem_below_of_idx_le (h : Inv succ nodes base s) {n y z : α} {fin below : List α}
    (hstack : s.stack = fin ++ n :: below) (hy : y ∈ s.stack) (hz : z ∈ below)
    (hle : s.idx y ≤ s.idx z) : y ∈ below := by
  have hsorted := h.sorted
  rw [hstack, List.pairwise_append, List.pairwise_cons] at hsorted
  rw [hstack, List.mem_append, List.mem_cons] at hy
  rcases hy with hy | rfl | hy
  · have hlt := hsorted.2.2 y hy z (List.mem_cons_of_mem _ hz)
    omega
  · have hlt := hsorted.2.1.1 z hz
    omega
  · exact hy

theorem linked_visit (h : Inv succ nodes base s) {frames : List (α × List α)} {x : α}
    (hx : ¬ s.Visited x) (hlinked : Linked succ s frames s.stack)
    (hparent : ∀ parent ∈ frames.head?, Reach succ parent.1 x) :
    Linked succ (visit succ { s with frames := frames } x)
      (visit succ { s with frames := frames } x).frames
      (visit succ { s with frames := frames } x).stack := by
  have hkept : ∀ y ∈ s.stack, y ≠ x := by
    rintro y hy rfl
    exact hx (h.visited_of_stack hy)
  refine ⟨[], s.stack, rfl, ⟨?_, ?_, fun z hz => absurd hz List.not_mem_nil,
    fun z hz => absurd hz List.not_mem_nil⟩, hparent, hlinked.keep (fun y hy => hy) (fun y hy => ?_)
    (fun y hy => ?_) fun y hy _ _ _ => List.mem_cons_of_mem _ hy⟩
  · rw [visit_low, visit_idx, if_pos rfl, if_pos rfl]
  · refine ⟨x, List.mem_cons_self, ?_, .refl⟩
    rw [visit_low, visit_idx, if_pos rfl, if_pos rfl]
  · rw [visit_idx, if_neg (hkept y hy)]
    rfl
  · rw [visit_low, if_neg (hkept y hy)]
    rfl

theorem searchInv_edge (hsucc : ∀ x ∈ nodes, ∀ y ∈ succ x, y ∈ nodes)
    (h : SearchInv succ nodes base s) {x y : α} {rest : List α} {frames : List (α × List α)}
    (hframes : s.frames = (x, y :: rest) :: frames) : SearchInv succ nodes base (step succ s) := by
  have hinv := inv_edge hsucc h.inv hframes
  have hlinked := h.linked
  have hlayout := h.inv.layout
  rw [hframes] at hlinked hlayout
  obtain ⟨_, _, -, hframe, -⟩ := hlayout
  have hedge : Reach succ x y := reach_edge (hframe.rest_succ y List.mem_cons_self)
  obtain ⟨fin, below, hstack, hlink, hparent, hbelow⟩ := hlinked
  have hnot := notMem_section h.inv hstack
  have hbelow_sub : ∀ z ∈ below, z ∈ s.stack := fun z hz => by simp [hstack, hz]
  refine ⟨hinv, ?_, ?_⟩
  · simp only [step, hframes]
    cases hy : s.indices.get? y with
    | none =>
      refine linked_visit h.inv (by simp [State.Visited, hy])
        ⟨fin, below, hstack, hlink, hparent, hbelow⟩ fun parent hp => ?_
      rw [List.head?_cons, Option.mem_some_iff] at hp
      exact hp ▸ hedge
    | some i =>
      dsimp only
      split
      · next hmem =>
        have hi : i = s.idx y := (idx_of_get? hy).symm
        subst hi
        refine ⟨fin, below, hstack, (hlink.frames _).lower hmem hedge, hparent, hbelow.keep hbelow_sub
          (fun _ _ => rfl) (fun z hz => ?_) fun z hz _ _ _ => hz⟩
        rw [lowerTo_low, if_neg]
        · rfl
        · rintro rfl
          exact hnot.2 hz
      · exact ⟨fin, below, hstack, hlink.frames _, hparent, hbelow.frames hbelow_sub _⟩
  · have hsccs : (step succ s).sccs = s.sccs := by
      simp only [step, hframes]
      split
      · rfl
      · split <;> rfl
    rw [hsccs]
    exact h.strong

theorem strong_component (h : Inv succ nodes base s) {x : α} {fin below : List α}
    (hstack : s.stack = fin ++ x :: below) (hlink : Link succ s x fin)
    (hroot : s.low x = s.idx x) : StronglyConnected succ (fin ++ [x]) := by
  have hup : ∀ k, ∀ z ∈ fin, s.idx z ≤ k → Reach succ z x := by
    intro k
    induction k with
    | zero =>
      intro z hz hk
      obtain ⟨w, -, hlt, -⟩ := hlink.up z hz
      omega
    | succ k ih =>
      intro z hz hk
      obtain ⟨w, hw, hlt, hle, hreach⟩ := hlink.up z hz
      rw [hstack, List.mem_append, List.mem_cons] at hw
      rcases hw with hw | rfl | hw
      · exact hreach.trans (ih w hw (by omega))
      · exact hreach
      · have hbelow := idx_lt_of_section h hstack w hw
        omega
  have hto : ∀ z ∈ fin ++ [x], Reach succ z x := by
    intro z hz
    rcases List.mem_append.mp hz with hz | hz
    · exact hup _ z hz le_rfl
    · rw [List.mem_singleton.mp hz]
      exact .refl
  have hfrom : ∀ z ∈ fin ++ [x], Reach succ x z := by
    intro z hz
    rcases List.mem_append.mp hz with hz | hz
    · exact hlink.down z hz
    · rw [List.mem_singleton.mp hz]
      exact .refl
  exact fun y hy z hz => (hto y hy).trans (hfrom z hz)

theorem link_merge {n x : α} {fin fin' : List α} (hx : Link succ s x fin)
    (hopen : s.low x < s.idx x) (hn : Link succ s n fin') (hreach : Reach succ n x)
    (hlow : s.low n ≤ s.low x) : Link succ s n (fin ++ x :: fin') := by
  refine ⟨hn.low_le, hn.low, fun z hz => ?_, fun z hz => ?_⟩
  · rcases List.mem_append.mp hz with hz | hz
    · exact hreach.trans (hx.down z hz)
    · rcases List.mem_cons.mp hz with rfl | hz
      · exact hreach
      · exact hn.down z hz
  · rcases List.mem_append.mp hz with hz | hz
    · obtain ⟨w, hw, hlt, hle, hup⟩ := hx.up z hz
      exact ⟨w, hw, hlt, hlow.trans hle, hup⟩
    · rcases List.mem_cons.mp hz with rfl | hz
      · obtain ⟨w, hw, hwlow, hup⟩ := hx.low
        exact ⟨w, hw, by omega, by omega, hup⟩
      · exact hn.up z hz

theorem lowerTo_low_of_le {n : α} {i : ℕ} (hle : s.low n ≤ i) (y : α) :
    (lowerTo s n i).low y = s.low y := by
  rw [lowerTo_low]
  split
  · next hy => rw [hy, Nat.min_eq_left hle]
  · rfl

theorem searchInv_leave (h : SearchInv succ nodes base s) {x : α} {frames : List (α × List α)}
    (hframes : s.frames = (x, []) :: frames) : SearchInv succ nodes base (step succ s) := by
  have hinv := inv_leave h.inv hframes
  have hlinked := h.linked
  rw [hframes] at hlinked
  obtain ⟨fin, below, hstack, hlink, hparent, hbelow⟩ := hlinked
  have hnot := notMem_section h.inv hstack
  have hsub : ∀ z ∈ below, z ∈ s.stack := fun z hz => by simp [hstack, hz]
  have hstep : step succ s = leave s x frames := by simp only [step, hframes]
  rw [hstep] at hinv ⊢
  by_cases hroot : s.low x = s.idx x
  · -- the component is popped; the bound of the frame below is lower already
    set popped : State α := { s with frames := frames, stack := below, sccs := s.sccs ++ [fin ++ [x]] }
      with hpopped
    have hpop : popComponent { s with frames := frames } x = popped :=
      popComponent_eq (s := { s with frames := frames }) hstack hnot.1
    have hstrong : ∀ c ∈ popped.sccs, StronglyConnected succ c := by
      intro c hc
      rcases List.mem_append.mp hc with hc | hc
      · exact h.strong c hc
      · rw [List.mem_singleton.mp hc]
        exact strong_component h.inv hstack hlink hroot
    have hkeep : Linked succ popped frames below := hbelow.keep hsub (fun _ _ => rfl) (fun _ _ => rfl)
      fun y hy z hz hle => mem_below_of_idx_le h.inv hstack hy hz hle
    have hleave : leave s x frames = frames.head?.elim popped fun f => lowerTo popped f.1 (s.low x) := by
      simp only [leave]
      rw [if_pos (show State.low { s with frames := frames } x = State.idx { s with frames := frames } x
        from hroot), hpop]
      cases frames <;> rfl
    rw [hleave] at hinv ⊢
    cases frames with
    | nil => exact ⟨hinv, hkeep, hstrong⟩
    | cons parent frames =>
      refine ⟨hinv, ?_, hstrong⟩
      obtain ⟨fin', below', hstack', hlink', hrest⟩ := hkeep
      have hmem : parent.1 ∈ below := by simp [hstack']
      have hle : popped.low parent.1 ≤ s.low x := by
        have hlt := idx_lt_of_section h.inv hstack parent.1 hmem
        have hlow : popped.low parent.1 ≤ popped.idx parent.1 := hlink'.low_le
        have hidx : popped.idx parent.1 = s.idx parent.1 := rfl
        omega
      have hall : Linked succ popped (parent :: frames) below := ⟨fin', below', hstack', hlink', hrest⟩
      exact hall.keep (fun _ hy => hy) (fun _ _ => rfl) (fun y _ => lowerTo_low_of_le hle y)
        fun _ hy _ _ _ => hy
  · -- the component stays open and the frame below takes over its section
    cases frames with
    | nil =>
      have hlayout := h.inv.layout
      rw [hframes] at hlayout
      obtain ⟨_, _, -, hframe, hbase, -⟩ := hlayout
      have hidx := hbase rfl
      have hle := hframe.base_le
      have hge := hframe.low_le
      omega
    | cons parent frames =>
      obtain ⟨n, rest⟩ := parent
      have hleave : leave s x ((n, rest) :: frames) =
          lowerTo { s with frames := (n, rest) :: frames } n (s.low x) := by
        simp only [leave]
        rw [if_neg (show ¬ State.low { s with frames := (n, rest) :: frames } x =
          State.idx { s with frames := (n, rest) :: frames } x from hroot)]
        rfl
      rw [hleave] at hinv ⊢
      refine ⟨hinv, ?_, h.strong⟩
      obtain ⟨fin', below', hstack', hlink', hparent', hbelow'⟩ := hbelow
      have hreach : Reach succ n x := hparent (n, rest) rfl
      obtain ⟨w, hw, hwlow, hup⟩ := hlink.low
      have hxn : x ≠ n := by
        rintro rfl
        exact hnot.2 (by simp [hstack'])
      have hfull : s.stack = (fin ++ x :: fin') ++ n :: below' := by simp [hstack, hstack']
      have hnot' := notMem_section h.inv hfull
      set lowered : State α := lowerTo { s with frames := (n, rest) :: frames } n (s.low x) with hlowered
      have hlow : ∀ y, y ≠ n → lowered.low y = s.low y := by
        intro y hy
        rw [hlowered, lowerTo_low, if_neg hy]
        rfl
      have hn : Link succ lowered n fin' := by
        have hlower := (hlink'.frames ((n, rest) :: frames)).lower hw (hreach.trans hup)
        have hidx : State.idx { s with frames := (n, rest) :: frames } w = s.low x := hwlow
        rw [hidx] at hlower
        exact hlower
      have hx : Link succ lowered x fin :=
        ⟨hlow x hxn ▸ hlink.low_le, ⟨w, hw, by rw [hlow x hxn]; exact hwlow, hup⟩, hlink.down,
          fun z hz => by rw [hlow x hxn]; exact hlink.up z hz⟩
      have hopen : lowered.low x < lowered.idx x := by
        have hidx : lowered.idx x = s.idx x := rfl
        have hle := hlink.low_le
        rw [hlow x hxn, hidx]
        omega
      have hle : lowered.low n ≤ lowered.low x := by
        rw [hlow x hxn, hlowered, lowerTo_low, if_pos rfl]
        exact Nat.min_le_right _ _
      refine ⟨fin ++ x :: fin', below', hfull, link_merge hx hopen hn hreach hle, hparent',
        hbelow'.keep (fun y hy => by simp [hfull, hy]) (fun _ _ => rfl) (fun y hy => hlow y ?_)
        fun _ hy _ _ _ => hy⟩
      rintro rfl
      exact hnot'.2 hy

theorem searchInv_step (hsucc : ∀ x ∈ nodes, ∀ y ∈ succ x, y ∈ nodes)
    (h : SearchInv succ nodes base s) : SearchInv succ nodes base (step succ s) := by
  match hframes : s.frames with
  | [] =>
    rw [step, hframes]
    exact h
  | (x, y :: rest) :: frames => exact searchInv_edge hsucc h hframes
  | (x, []) :: frames => exact searchInv_leave h hframes

theorem searchInv_drain (hsucc : ∀ x ∈ nodes, ∀ y ∈ succ x, y ∈ nodes) (fuel : ℕ)
    (h : SearchInv succ nodes base s) : SearchInv succ nodes base (drain succ fuel s) := by
  induction fuel generalizing s with
  | zero => exact h
  | succ fuel ih =>
    rw [drain]
    split
    · exact h
    · exact ih (searchInv_step hsucc h)

def Rests (succ : α → List α) (nodes : List α) (s : State α) : Prop :=
  (∃ base, SearchInv succ nodes base s) ∧ s.frames = []

theorem rests_searchFrom (hnodes : nodes.Nodup) (hsucc : ∀ x ∈ nodes, ∀ y ∈ succ x, y ∈ nodes)
    (h : Rests succ nodes s) {x : α} (hnode : x ∈ nodes) :
    Rests succ nodes (searchFrom succ nodes s x) := by
  obtain ⟨⟨base, hinv⟩, hframes⟩ := h
  by_cases hx : s.Visited x
  · have hskip : searchFrom succ nodes s x = s := if_pos hx
    rw [hskip]
    exact ⟨⟨base, hinv⟩, hframes⟩
  · have hsearch : searchFrom succ nodes s x =
        drain succ (searchFuel succ nodes) (visit succ s x) := if_neg hx
    rw [hsearch]
    have hlinked := hinv.linked
    rw [hframes] at hlinked
    have heq : visit succ s x = visit succ { s with frames := [] } x := by
      rw [← hframes]
    obtain ⟨-, hframes'⟩ := inv_search hnodes hsucc hinv.inv hframes hnode hx
    have hbase := inv_restart hinv.inv hframes
    have hvisit : SearchInv succ nodes s.index (visit succ s x) := by
      refine ⟨?_, ?_, hinv.strong⟩
      · exact inv_first hbase hframes hnode hx
      · rw [heq]
        exact linked_visit hbase hx hlinked fun parent hp => by cases hp
    exact ⟨⟨s.index, searchInv_drain hsucc _ hvisit⟩, hframes'⟩

theorem components_strong (hnodes : nodes.Nodup) (hsucc : ∀ x ∈ nodes, ∀ y ∈ succ x, y ∈ nodes) :
    ∀ c ∈ components succ nodes, StronglyConnected succ c := by
  have hall : ∀ (starts : List α) (s : State α), (∀ x ∈ starts, x ∈ nodes) → Rests succ nodes s →
      Rests succ nodes (starts.foldl (searchFrom succ nodes) s) := by
    intro starts
    induction starts with
    | nil => exact fun _ _ h => h
    | cons x starts ih =>
      intro s hstarts h
      exact ih _ (fun y hy => hstarts y (List.mem_cons_of_mem _ hy))
        (rests_searchFrom hnodes hsucc h (hstarts x List.mem_cons_self))
  have hstart : Rests succ nodes (State.start : State α) := by
    have hsettled : Settled succ nodes (State.start : State α) := settled_start succ
    obtain ⟨⟨base, hinv⟩, hframes⟩ := hsettled
    exact ⟨⟨base, hinv, rfl, fun c hc => absurd hc List.not_mem_nil⟩, hframes⟩
  obtain ⟨⟨base, hinv⟩, -⟩ := hall nodes State.start (fun x hx => hx) hstart
  exact hinv.strong

omit [DecidableEq α] in
theorem Ordered.reach {sccs : List (List α)} (h : Ordered succ sccs) {earlier later : List (List α)}
    {c : List α} (hsplit : sccs = earlier ++ c :: later) {x y : α}
    (hx : x ∈ earlier.flatten ∨ x ∈ c) (hreach : Reach succ x y) :
    y ∈ earlier.flatten ∨ y ∈ c := by
  induction hreach with
  | refl => exact hx
  | tail _ hedge ih =>
    rcases ih with hmem | hmem
    · obtain ⟨d, hd, hin⟩ := List.mem_flatten.mp hmem
      obtain ⟨e₁, e₂, rfl⟩ := List.append_of_mem hd
      have hstep := h e₁ d (e₂ ++ c :: later) (by simp [hsplit]) _ hin _ hedge
      left
      rw [List.flatten_append, List.flatten_cons]
      rcases hstep with hstep | hstep
      · exact List.mem_append_left _ hstep
      · exact List.mem_append_right _ (List.mem_append_left _ hstep)
    · exact h earlier c later hsplit _ hmem _ hedge

theorem mem_component_iff (hnodes : nodes.Nodup) (hsucc : ∀ x ∈ nodes, ∀ y ∈ succ x, y ∈ nodes)
    {c : List α} (hc : c ∈ components succ nodes) {x y : α} (hx : x ∈ c) :
    y ∈ c ↔ Reach succ x y ∧ Reach succ y x := by
  constructor
  · intro hy
    have hstrong := components_strong hnodes hsucc c hc
    exact ⟨hstrong x hx y hy, hstrong y hy x hx⟩
  · intro ⟨hto, hfrom⟩
    obtain ⟨hnodup, -, -, hordered⟩ := components_spec hnodes hsucc
    obtain ⟨earlier, later, hsplit⟩ := List.append_of_mem hc
    rcases hordered.reach hsplit (.inr hx) hto with hy | hy
    · -- the earlier component is closed, so it would hold both nodes
      obtain ⟨d, hd, hin⟩ := List.mem_flatten.mp hy
      obtain ⟨e₁, e₂, rfl⟩ := List.append_of_mem hd
      have hsplit' : components succ nodes = e₁ ++ d :: (e₂ ++ c :: later) := by simp [hsplit]
      have hback := hordered.reach hsplit' (.inr hin) hfrom
      rw [hsplit, List.flatten_append, List.nodup_append] at hnodup
      have hxearly : x ∈ (e₁ ++ d :: e₂).flatten := by
        rw [List.flatten_append, List.flatten_cons]
        rcases hback with hback | hback
        · exact List.mem_append_left _ hback
        · exact List.mem_append_right _ (List.mem_append_left _ hback)
      exact absurd rfl (hnodup.2.2 x hxearly x (by simp [hx]))
    · exact hy

end Connected

end Tarjan
