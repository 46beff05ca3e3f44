import TexGovernance.Lib.PyDict
import Mathlib.Algebra.BigOperators.Group.Finset.Basic
import Mathlib.Algebra.GroupWithZero.Nat
import Mathlib.Algebra.Order.BigOperators.Group.Finset
import Mathlib.Data.List.Nodup

/-!
# Components in dependency order

The iterative form of Tarjan's algorithm, with an explicit stack of frames.
The components it finds partition the nodes, and the successors of a component
lie in it or in a component found before.
-/

namespace Tarjan
open PyDict

variable {α : Type} [DecidableEq α]

/-- The top of `stack` and of `frames` is the head. A frame holds a node and
the successors that are still to be looked at. -/
structure State (α : Type) where
  index : ℕ
  stack : List α
  indices : Dict α ℕ
  lowlinks : Dict α ℕ
  sccs : List (List α)
  frames : List (α × List α)

namespace State

def start : State α := ⟨0, [], Dict.empty, Dict.empty, [], []⟩

def idx (s : State α) (x : α) : ℕ := (s.indices.get? x).getD 0

def low (s : State α) (x : α) : ℕ := (s.lowlinks.get? x).getD 0

def done (s : State α) : List α := s.sccs.flatten

end State

section Algorithm

variable (succ : α → List α)

def visit (s : State α) (x : α) : State α :=
  { s with
    index := s.index + 1
    stack := x :: s.stack
    indices := s.indices.set x s.index
    lowlinks := s.lowlinks.set x s.index
    frames := (x, succ x) :: s.frames }

def lowerTo (s : State α) (x : α) (i : ℕ) : State α :=
  { s with lowlinks := s.lowlinks.set x (min (s.low x) i) }

def popComponent (s : State α) (x : α) : State α :=
  { s with
    stack := (s.stack.dropWhile (· ≠ x)).tail
    sccs := s.sccs ++ [s.stack.takeWhile (· ≠ x) ++ [x]] }

def leave (s : State α) (x : α) (frames : List (α × List α)) : State α :=
  let s := { s with frames := frames }
  let popped := if s.low x = s.idx x then popComponent s x else s
  match frames with
  | [] => popped
  | (parent, _) :: _ => lowerTo popped parent (s.low x)

def step (s : State α) : State α :=
  match s.frames with
  | [] => s
  | (x, y :: rest) :: frames =>
    let s := { s with frames := (x, rest) :: frames }
    match s.indices.get? y with
    | none => visit succ s y
    | some i => if y ∈ s.stack then lowerTo s x i else s
  | (x, []) :: frames => leave s x frames

def drain : ℕ → State α → State α
  | 0, s => s
  | fuel + 1, s => if s.frames.isEmpty then s else drain fuel (step succ s)

def searchFuel (nodes : List α) : ℕ := (nodes.map fun x => (succ x).length + 1).sum

def searchFrom (nodes : List α) (s : State α) (x : α) : State α :=
  if (s.indices.get? x).isSome then s
  else drain succ (searchFuel succ nodes) (visit succ s x)

def components (nodes : List α) : List (List α) :=
  (nodes.foldl (searchFrom succ nodes) State.start).sccs

def State.Visited (s : State α) (x : α) : Prop := (s.indices.get? x).isSome

/-- The bound of `n` accounts for the edge to `y`. -/
def Explored (s : State α) (n y : α) : Prop :=
  s.Visited y ∧ (y ∈ s.stack → s.low n ≤ s.idx y)

/-- A node that is being searched: `fin` are the finished nodes above it on the
stack. -/
structure Frame (base : ℕ) (s : State α) (n : α) (rest fin : List α) : Prop where
  visited : s.Visited n
  rest_succ : ∀ y ∈ rest, y ∈ succ n
  seen : ∀ y ∈ succ n, y ∈ rest ∨ Explored s n y
  finished : ∀ x ∈ fin, ∀ y ∈ succ x, Explored s n y
  base_le : base ≤ s.low n
  low_le : s.low n ≤ s.idx n

def Layout (base : ℕ) (s : State α) : List (α × List α) → List α → Prop
  | [], stack => stack = []
  | (n, rest) :: frames, stack => ∃ fin below, stack = fin ++ n :: below ∧
      Frame succ base s n rest fin ∧ (frames = [] → s.idx n = base) ∧ Layout base s frames below

def Ordered (sccs : List (List α)) : Prop :=
  ∀ earlier c later, sccs = earlier ++ c :: later →
    ∀ x ∈ c, ∀ y ∈ succ x, y ∈ earlier.flatten ∨ y ∈ c

structure Inv (nodes : List α) (base : ℕ) (s : State α) : Prop where
  visited_iff : ∀ x, s.Visited x ↔ x ∈ s.stack ∨ x ∈ s.done
  visited_nodes : ∀ x, s.Visited x → x ∈ nodes
  nodup : (s.stack ++ s.done).Nodup
  sorted : s.stack.Pairwise fun a b => s.idx b < s.idx a
  bounded : ∀ x ∈ s.stack, s.idx x < s.index
  based : ∀ x ∈ s.stack, base ≤ s.idx x
  base_le : base ≤ s.index
  ordered : Ordered succ s.sccs
  nonempty : [] ∉ s.sccs
  layout : Layout succ base s s.frames s.stack

structure Later (base : ℕ) (s s' : State α) : Prop where
  visited : ∀ y, s.Visited y → s'.Visited y
  idx : ∀ y, s.Visited y → s'.idx y = s.idx y
  stack : ∀ y, s.Visited y → y ∈ s'.stack → y ∈ s.stack
  low : ∀ y, s.Visited y → s'.low y ≤ s.low y
  base_le : ∀ y, s.Visited y → base ≤ s.low y → base ≤ s'.low y

variable {succ} {nodes : List α} {base : ℕ} {s s' : State α}

theorem Explored.later {n y : α} (h : Explored s n y) (hn : s.Visited n) (hl : Later base s s') :
    Explored s' n y := by
  refine ⟨hl.visited y h.1, fun hy => ?_⟩
  rw [hl.idx y h.1]
  exact (hl.low n hn).trans (h.2 (hl.stack y h.1 hy))

theorem Frame.later {n : α} {rest fin : List α} (h : Frame succ base s n rest fin)
    (hl : Later base s s') : Frame succ base s' n rest fin where
  visited := hl.visited n h.visited
  rest_succ := h.rest_succ
  seen := fun y hy => (h.seen y hy).imp id fun he => he.later h.visited hl
  finished := fun x hx y hy => (h.finished x hx y hy).later h.visited hl
  base_le := hl.base_le n h.visited h.base_le
  low_le := by
    rw [hl.idx n h.visited]
    exact (hl.low n h.visited).trans h.low_le

theorem Frame.consume {n y : α} {rest fin : List α} (h : Frame succ base s n (y :: rest) fin)
    (hy : Explored s n y) : Frame succ base s n rest fin where
  visited := h.visited
  rest_succ := fun z hz => h.rest_succ z (List.mem_cons_of_mem _ hz)
  seen := by
    intro z hz
    rcases h.seen z hz with hmem | hexp
    · rcases List.mem_cons.mp hmem with rfl | hmem
      · exact Or.inr hy
      · exact Or.inl hmem
    · exact Or.inr hexp
  finished := h.finished
  base_le := h.base_le
  low_le := h.low_le

theorem Layout.later (hl : Later base s s') (frames : List (α × List α)) (stack : List α)
    (h : Layout succ base s frames stack) : Layout succ base s' frames stack := by
  induction frames generalizing stack with
  | nil => exact h
  | cons frame frames ih =>
    obtain ⟨fin, below, hstack, hframe, hbase, hbelow⟩ := h
    refine ⟨fin, below, hstack, hframe.later hl, fun hnil => ?_, ih below hbelow⟩
    rw [hl.idx _ hframe.visited]
    exact hbase hnil

omit [DecidableEq α] in
theorem Ordered.snoc {sccs : List (List α)} {c : List α} (h : Ordered succ sccs)
    (hc : ∀ x ∈ c, ∀ y ∈ succ x, y ∈ sccs.flatten ∨ y ∈ c) : Ordered succ (sccs ++ [c]) := by
  intro earlier d later hsplit
  rcases List.eq_nil_or_concat later with rfl | ⟨later, e, rfl⟩
  · obtain ⟨rfl, hd⟩ := List.append_inj' hsplit rfl
    obtain rfl : c = d := by simpa using hd
    exact hc
  · rw [List.concat_eq_append, ← List.cons_append, ← List.append_assoc] at hsplit
    obtain ⟨rfl, -⟩ := List.append_inj' hsplit rfl
    exact h earlier d later rfl

theorem visit_visited_iff (s : State α) (x y : α) :
    (visit succ s x).Visited y ↔ y = x ∨ s.Visited y := by
  by_cases h : y = x
  · subst h
    simp [visit, State.Visited]
  · simp [visit, State.Visited, h]

theorem visit_idx (s : State α) (x y : α) :
    (visit succ s x).idx y = if y = x then s.index else s.idx y := by
  by_cases h : y = x
  · subst h
    simp [visit, State.idx]
  · simp [visit, State.idx, h]

theorem visit_low (s : State α) (x y : α) :
    (visit succ s x).low y = if y = x then s.index else s.low y := by
  by_cases h : y = x
  · subst h
    simp [visit, State.low]
  · simp [visit, State.low, h]

theorem visit_idx_of_visited {x y : α} (hx : ¬ s.Visited x) (hy : s.Visited y) :
    (visit succ s x).idx y = s.idx y := by
  rw [visit_idx, if_neg]
  rintro rfl
  exact hx hy

variable {x : α}

theorem later_visit (hx : ¬ s.Visited x) : Later base s (visit succ s x) where
  visited := fun y hy => (visit_visited_iff s x y).mpr (Or.inr hy)
  idx := fun y hy => visit_idx_of_visited hx hy
  stack := by
    intro y hy hmem
    rcases List.mem_cons.mp hmem with rfl | hmem
    · exact absurd hy hx
    · exact hmem
  low := by
    intro y hy
    rw [visit_low, if_neg]
    rintro rfl
    exact hx hy
  base_le := by
    intro y hy hle
    rw [visit_low, if_neg]
    · exact hle
    · rintro rfl
      exact hx hy

theorem Inv.visited_of_stack (h : Inv succ nodes base s) (hx : x ∈ s.stack) : s.Visited x :=
  (h.visited_iff x).mpr (Or.inl hx)

variable {frames : List (α × List α)}

theorem inv_visit (h : Inv succ nodes base s)
    (hx : ¬ s.Visited x) (hnode : x ∈ nodes) (hbase : frames = [] → s.index = base)
    (hlayout : Layout succ base (visit succ { s with frames := frames } x) frames s.stack) :
    Inv succ nodes base (visit succ { s with frames := frames } x) := by
  set t := visit succ { s with frames := frames } x with ht
  have hidx : ∀ y ∈ s.stack, t.idx y = s.idx y := fun y hy =>
    visit_idx_of_visited (s := { s with frames := frames }) hx (h.visited_of_stack hy)
  have hself : t.idx x = s.index := by
    rw [ht, visit_idx, if_pos rfl]
  have hstack : t.stack = x :: s.stack := rfl
  have hdone : t.done = s.done := rfl
  have hnot : x ∉ s.stack ∧ x ∉ s.done := by
    rw [h.visited_iff] at hx
    exact not_or.mp hx
  refine ⟨?_, ?_, ?_, ?_, ?_, ?_, ?_, h.ordered, h.nonempty, ?_⟩
  · intro y
    rw [ht, visit_visited_iff, ← ht, hstack, hdone, List.mem_cons, or_assoc]
    exact or_congr_right (h.visited_iff y)
  · intro y hy
    rcases (visit_visited_iff _ x y).mp hy with rfl | hy
    · exact hnode
    · exact h.visited_nodes y hy
  · rw [hstack, hdone, List.cons_append, List.nodup_cons, List.mem_append]
    exact ⟨not_or.mpr hnot, h.nodup⟩
  · rw [hstack, List.pairwise_cons]
    refine ⟨fun y hy => ?_, h.sorted.imp_of_mem ?_⟩
    · rw [hidx y hy, hself]
      exact h.bounded y hy
    · intro a b ha hb hab
      rw [hidx a ha, hidx b hb]
      exact hab
  · intro y hy
    change t.idx y < s.index + 1
    rcases List.mem_cons.mp hy with rfl | hy
    · omega
    · have hlt := h.bounded y hy
      have heq := hidx y hy
      omega
  · intro y hy
    rcases List.mem_cons.mp hy with rfl | hy
    · rw [hself]
      exact h.base_le
    · rw [hidx y hy]
      exact h.based y hy
  · exact h.base_le.trans (Nat.le_succ _)
  · refine ⟨[], s.stack, rfl, ?_, ?_, hlayout⟩
    · have hlow : t.low x = s.index := by
        rw [ht, visit_low, if_pos rfl]
      exact ⟨(visit_visited_iff _ x x).mpr (Or.inl rfl), fun y hy => hy, fun y hy => Or.inl hy,
        fun y hy => absurd hy List.not_mem_nil, hlow ▸ h.base_le, by rw [hlow, hself]⟩
    · intro hnil
      rw [hself]
      exact hbase hnil

theorem lowerTo_low (s : State α) (x y : α) (i : ℕ) :
    (lowerTo s x i).low y = if y = x then min (s.low x) i else s.low y := by
  by_cases h : y = x
  · subst h
    simp [lowerTo, State.low]
  · simp [lowerTo, State.low, h]

theorem later_lowerTo {i : ℕ} (hi : base ≤ i) : Later base s (lowerTo s x i) where
  visited := fun y hy => hy
  idx := fun y hy => rfl
  stack := fun y hy hmem => hmem
  low := by
    intro y hy
    rw [lowerTo_low]
    split
    · next h => exact h ▸ Nat.min_le_left _ _
    · exact le_rfl
  base_le := by
    intro y hy hle
    rw [lowerTo_low]
    split
    · next h => exact Nat.le_min.mpr ⟨h ▸ hle, hi⟩
    · exact hle

theorem Inv.relayout (h : Inv succ nodes base s) (frames : List (α × List α)) (lowlinks : Dict α ℕ)
    (hlayout : Layout succ base { s with frames := frames, lowlinks := lowlinks } frames s.stack) :
    Inv succ nodes base { s with frames := frames, lowlinks := lowlinks } :=
  ⟨h.visited_iff, h.visited_nodes, h.nodup, h.sorted, h.bounded, h.based, h.base_le, h.ordered,
    h.nonempty, hlayout⟩

theorem frames_later (frames : List (α × List α)) : Later base s { s with frames := frames } :=
  ⟨fun _ hy => hy, fun _ _ => rfl, fun _ _ hmem => hmem, fun _ _ => le_rfl, fun _ _ hle => hle⟩

theorem Later.trans {s'' : State α} (h : Later base s s') (h' : Later base s' s'') :
    Later base s s'' where
  visited := fun y hy => h'.visited y (h.visited y hy)
  idx := fun y hy => (h'.idx y (h.visited y hy)).trans (h.idx y hy)
  stack := fun y hy hmem => h.stack y hy (h'.stack y (h.visited y hy) hmem)
  low := fun y hy => (h'.low y (h.visited y hy)).trans (h.low y hy)
  base_le := fun y hy hle => h'.base_le y (h.visited y hy) (h.base_le y hy hle)

theorem idx_of_get? {i : ℕ} (h : s.indices.get? x = some i) : s.idx x = i := by
  simp [State.idx, h]

theorem inv_edge (hsucc : ∀ x ∈ nodes, ∀ y ∈ succ x, y ∈ nodes) (h : Inv succ nodes base s)
    {x y : α} {rest : List α}
    (hframes : s.frames = (x, y :: rest) :: frames) : Inv succ nodes base (step succ s) := by
  have hlayout := h.layout
  rw [hframes] at hlayout
  obtain ⟨fin, below, hstack, hframe, hbase, hbelow⟩ := hlayout
  have hxs : x ∈ s.stack := by simp [hstack]
  simp only [step, hframes]
  cases hy : s.indices.get? y with
  | none =>
    have hnew : ¬ s.Visited y := by simp [State.Visited, hy]
    have hnode : y ∈ nodes :=
      hsucc x (h.visited_nodes x hframe.visited) y (hframe.rest_succ y List.mem_cons_self)
    have hl : Later base s (visit succ { s with frames := (x, rest) :: frames } y) :=
      (frames_later _).trans (later_visit hnew)
    refine inv_visit h hnew hnode (fun hnil => by simp at hnil) ?_
    refine ⟨fin, below, hstack, (hframe.later hl).consume ?_, fun hnil => ?_,
      hbelow.later hl frames below⟩
    · refine ⟨(visit_visited_iff _ y y).mpr (Or.inl rfl), fun _ => ?_⟩
      have hlow := (hl.low x hframe.visited).trans hframe.low_le
      have hlt := h.bounded x hxs
      rw [visit_idx, if_pos rfl]
      change _ ≤ s.index
      omega
    · rw [hl.idx x hframe.visited]
      exact hbase hnil
  | some i =>
    have hvisited : s.Visited y := by simp [State.Visited, hy]
    by_cases hmem : y ∈ s.stack
    · have hi : base ≤ i := by
        rw [← idx_of_get? hy]
        exact h.based y hmem
      dsimp only
      rw [if_pos hmem]
      have hl : Later base s (lowerTo { s with frames := (x, rest) :: frames } x i) :=
        (frames_later _).trans (later_lowerTo hi)
      refine h.relayout _ _ ⟨fin, below, hstack, (hframe.later hl).consume ?_, hbase,
        hbelow.later hl frames below⟩
      refine ⟨hvisited, fun _ => ?_⟩
      rw [lowerTo_low, if_pos rfl]
      change _ ≤ s.idx y
      rw [idx_of_get? hy]
      exact Nat.min_le_right _ _
    · dsimp only
      rw [if_neg hmem]
      have hl : Later base s { s with frames := (x, rest) :: frames } := frames_later _
      exact h.relayout _ s.lowlinks ⟨fin, below, hstack,
        (hframe.later hl).consume ⟨hvisited, fun hy => absurd hy hmem⟩, hbase,
        hbelow.later hl frames below⟩

theorem layout_merge {n x : α} {rest fin below : List α}
    (hlow : s.low n ≤ s.low x) (hx : Frame succ base s x [] fin)
    (h : Layout succ base s ((n, rest) :: frames) below) :
    Layout succ base s ((n, rest) :: frames) (fin ++ x :: below) := by
  obtain ⟨fin', below', rfl, hframe, hbase, hbelow⟩ := h
  refine ⟨fin ++ x :: fin', below', by simp, ⟨hframe.visited, hframe.rest_succ, hframe.seen, ?_,
    hframe.base_le, hframe.low_le⟩, hbase, hbelow⟩
  have hexp : ∀ y, Explored s x y → Explored s n y := fun y hy =>
    ⟨hy.1, fun hmem => hlow.trans (hy.2 hmem)⟩
  intro z hz y hy
  rcases List.mem_append.mp hz with hz | hz
  · exact hexp y (hx.finished z hz y hy)
  · rcases List.mem_cons.mp hz with rfl | hz
    · rcases hx.seen y hy with hnil | hy
      · exact absurd hnil List.not_mem_nil
      · exact hexp y hy
    · exact hframe.finished z hz y hy

theorem component_closed (h : Inv succ nodes base s) {fin below : List α}
    (hstack : s.stack = fin ++ x :: below) (hx : Frame succ base s x [] fin)
    (hroot : s.low x = s.idx x) :
    ∀ z ∈ fin ++ [x], ∀ y ∈ succ z, y ∈ s.done ∨ y ∈ fin ++ [x] := by
  have habove : ∀ y, Explored s x y → y ∈ s.done ∨ y ∈ fin ++ [x] := by
    intro y hy
    rcases (h.visited_iff y).mp hy.1 with hmem | hdone
    · right
      have hle := hy.2 hmem
      rw [hroot] at hle
      have hsorted := h.sorted
      rw [hstack, List.pairwise_append, List.pairwise_cons] at hsorted
      rw [hstack] at hmem
      rcases List.mem_append.mp hmem with hfin | hcons
      · exact List.mem_append_left _ hfin
      · rcases List.mem_cons.mp hcons with rfl | hbelow
        · simp
        · have hlt := hsorted.2.1.1 y hbelow
          omega
    · exact Or.inl hdone
  intro z hz y hy
  rcases List.mem_append.mp hz with hz | hz
  · exact habove y (hx.finished z hz y hy)
  · obtain rfl : z = x := by simpa using hz
    rcases hx.seen y hy with hnil | hexp
    · exact absurd hnil List.not_mem_nil
    · exact habove y hexp

theorem popComponent_eq {fin below : List α} (hstack : s.stack = fin ++ x :: below) (hx : x ∉ fin) :
    popComponent s x = { s with stack := below, sccs := s.sccs ++ [fin ++ [x]] } := by
  have hne : ∀ y ∈ fin, decide (y ≠ x) = true := by
    intro y hy
    rw [decide_eq_true_iff]
    rintro rfl
    exact hx hy
  have htake : s.stack.takeWhile (· ≠ x) = fin := by
    rw [hstack, List.takeWhile_append_of_pos hne]
    simp
  have hdrop : s.stack.dropWhile (· ≠ x) = x :: below := by
    rw [hstack, List.dropWhile_append_of_pos hne]
    simp
  rw [popComponent, htake, hdrop, List.tail_cons]

theorem inv_pop (h : Inv succ nodes base s) {fin below : List α}
    (hstack : s.stack = fin ++ x :: below)
    (hx : Frame succ base s x [] fin) (hroot : s.low x = s.idx x)
    (hbelow : Layout succ base s frames below) :
    Inv succ nodes base { s with stack := below, sccs := s.sccs ++ [fin ++ [x]], frames := frames } := by
  set t : State α := { s with stack := below, sccs := s.sccs ++ [fin ++ [x]], frames := frames } with ht
  have hdone : t.done = s.done ++ (fin ++ [x]) := by
    simp [ht, State.done]
  have hperm : (s.stack ++ s.done).Perm (t.stack ++ t.done) := by
    rw [hdone, hstack]
    change (fin ++ x :: below ++ s.done).Perm (below ++ (s.done ++ (fin ++ [x])))
    have hleft : fin ++ x :: below ++ s.done = (fin ++ [x]) ++ (below ++ s.done) := by simp
    have hright : below ++ (s.done ++ (fin ++ [x])) = (below ++ s.done) ++ (fin ++ [x]) := by simp
    rw [hleft, hright]
    exact List.perm_append_comm
  have hsub : ∀ y ∈ below, y ∈ s.stack := fun y hy => by simp [hstack, hy]
  have hl : Later base s t :=
    ⟨fun _ hy => hy, fun _ _ => rfl, fun y _ hy => hsub y hy, fun _ _ => le_rfl,
      fun _ _ hle => hle⟩
  refine ⟨?_, h.visited_nodes, hperm.nodup_iff.mp h.nodup, ?_, fun y hy => h.bounded y (hsub y hy),
    fun y hy => h.based y (hsub y hy), h.base_le, ?_, ?_, hbelow.later hl frames below⟩
  · intro y
    have hmem := hperm.mem_iff (a := y)
    rw [List.mem_append, List.mem_append] at hmem
    exact (h.visited_iff y).trans hmem
  · have hsorted := h.sorted
    rw [hstack, List.pairwise_append, List.pairwise_cons] at hsorted
    exact hsorted.2.1.2
  · exact h.ordered.snoc (component_closed h hstack hx hroot)
  · simp [ht, h.nonempty]

theorem inv_leave (h : Inv succ nodes base s)
    (hframes : s.frames = (x, []) :: frames) : Inv succ nodes base (step succ s) := by
  have hlayout := h.layout
  rw [hframes] at hlayout
  obtain ⟨fin, below, hstack, hframe, hbase, hbelow⟩ := hlayout
  have hfin : x ∉ fin := by
    have hnodup := (List.nodup_append.mp h.nodup).1
    rw [hstack, List.nodup_append] at hnodup
    intro hmem
    exact hnodup.2.2 x hmem x List.mem_cons_self rfl
  simp only [step, hframes, leave]
  by_cases hroot : s.low x = s.idx x
  · rw [if_pos (show State.low { s with frames := frames } x = State.idx { s with frames := frames } x
      from hroot), popComponent_eq (s := { s with frames := frames }) hstack hfin]
    have hpop := inv_pop h hstack hframe hroot hbelow
    cases frames with
    | nil => exact hpop
    | cons parent frames =>
      exact hpop.relayout _ _ (hpop.layout.later (later_lowerTo hframe.base_le) _ _)
  · rw [if_neg (show ¬ State.low { s with frames := frames } x =
      State.idx { s with frames := frames } x from hroot)]
    cases frames with
    | nil =>
      have hidx := hbase rfl
      have hle := hframe.base_le
      have hge := hframe.low_le
      omega
    | cons parent frames =>
      obtain ⟨n, rest⟩ := parent
      have hl : Later base s (lowerTo { s with frames := (n, rest) :: frames } n (s.low x)) :=
        (frames_later _).trans (later_lowerTo hframe.base_le)
      have hlow : (lowerTo { s with frames := (n, rest) :: frames } n (s.low x)).low n ≤
          (lowerTo { s with frames := (n, rest) :: frames } n (s.low x)).low x := by
        rw [lowerTo_low, if_pos rfl, lowerTo_low]
        split
        · exact le_rfl
        · exact Nat.min_le_right _ _
      have hmerged := layout_merge hlow (hframe.later hl) (hbelow.later hl _ _)
      rw [← hstack] at hmerged
      exact h.relayout _ _ hmerged

theorem inv_step (hsucc : ∀ x ∈ nodes, ∀ y ∈ succ x, y ∈ nodes) (h : Inv succ nodes base s) :
    Inv succ nodes base (step succ s) := by
  match hframes : s.frames with
  | [] =>
    rw [step, hframes]
    exact h
  | (x, y :: rest) :: frames => exact inv_edge hsucc h hframes
  | (x, []) :: frames => exact inv_leave h hframes

section Work

variable (succ nodes)

def pending (indices : Dict α ℕ) : ℕ :=
  ∑ x ∈ nodes.toFinset with indices.get? x = none, ((succ x).length + 1)

def work (s : State α) : ℕ :=
  pending succ nodes s.indices + (s.frames.map fun f => f.2.length + 1).sum

end Work

variable (succ) in
theorem pending_set {indices : Dict α ℕ} (i : ℕ) (hnode : x ∈ nodes) (hx : indices.get? x = none) :
    (succ x).length + 1 + pending succ nodes (indices.set x i) = pending succ nodes indices := by
  have herase : (nodes.toFinset.filter fun y => (indices.set x i).get? y = none) =
      (nodes.toFinset.filter fun y => indices.get? y = none).erase x := by
    ext y
    by_cases hy : y = x
    · simp [hy]
    · simp [hy]
  rw [pending, herase, pending]
  exact Finset.add_sum_erase _ (fun y => (succ y).length + 1) (by simp [hnode, hx])

theorem leave_indices (s : State α) (x : α) (frames : List (α × List α)) :
    (leave s x frames).indices = s.indices := by
  cases frames <;>
    simp only [leave, lowerTo, popComponent, apply_ite State.indices, ite_self]

theorem leave_frames (s : State α) (x : α) (frames : List (α × List α)) :
    (leave s x frames).frames = frames := by
  cases frames <;>
    simp only [leave, lowerTo, popComponent, apply_ite State.frames, ite_self]

theorem work_step (hsucc : ∀ x ∈ nodes, ∀ y ∈ succ x, y ∈ nodes) (h : Inv succ nodes base s)
    (hframes : s.frames ≠ []) : work succ nodes (step succ s) < work succ nodes s := by
  match hs : s.frames with
  | [] => exact absurd hs hframes
  | (x, y :: rest) :: frames =>
    have hlayout := h.layout
    rw [hs] at hlayout
    obtain ⟨fin, below, hstack, hframe, -, -⟩ := hlayout
    simp only [step, hs]
    cases hy : s.indices.get? y with
    | none =>
      have hnode : y ∈ nodes :=
        hsucc x (h.visited_nodes x hframe.visited) y (hframe.rest_succ y List.mem_cons_self)
      have hpending := pending_set succ s.index hnode hy
      simp only [work, visit, hs, List.map_cons, List.sum_cons, List.length_cons]
      omega
    | some i =>
      dsimp only
      split <;>
        · simp only [work, lowerTo, hs, List.map_cons, List.sum_cons, List.length_cons]
          omega
  | (x, []) :: frames =>
    simp only [step, hs, work, leave_indices, leave_frames, List.map_cons, List.sum_cons,
      List.length_nil]
    omega

theorem inv_drain (hsucc : ∀ x ∈ nodes, ∀ y ∈ succ x, y ∈ nodes) (fuel : ℕ)
    (h : Inv succ nodes base s) (hfuel : work succ nodes s ≤ fuel) :
    Inv succ nodes base (drain succ fuel s) ∧ (drain succ fuel s).frames = [] := by
  induction fuel generalizing s with
  | zero =>
    refine ⟨h, ?_⟩
    match hs : s.frames with
    | [] => rfl
    | f :: frames =>
      simp only [work, hs, List.map_cons, List.sum_cons] at hfuel
      omega
  | succ fuel ih =>
    rw [drain]
    split
    · next hnil => exact ⟨h, List.isEmpty_iff.mp hnil⟩
    · next hne =>
      have hlt := work_step hsucc h fun hnil => hne (List.isEmpty_iff.mpr hnil)
      exact ih (inv_step hsucc h) (by omega)

theorem visited_step (hx : s.Visited x) : (step succ s).Visited x := by
  match hs : s.frames with
  | [] =>
    rw [step, hs]
    exact hx
  | (n, y :: rest) :: frames =>
    simp only [step, hs]
    split
    · exact (visit_visited_iff _ y x).mpr (Or.inr hx)
    · split <;> exact hx
  | (n, []) :: frames =>
    simp only [step, hs, State.Visited, leave_indices]
    exact hx

theorem visited_drain (fuel : ℕ) (hx : s.Visited x) : (drain succ fuel s).Visited x := by
  induction fuel generalizing s with
  | zero => exact hx
  | succ fuel ih =>
    rw [drain]
    split
    · exact hx
    · exact ih (visited_step hx)

theorem inv_restart (h : Inv succ nodes base s) (hframes : s.frames = []) :
    Inv succ nodes s.index s := by
  have hlayout := h.layout
  rw [hframes] at hlayout
  have hstack : s.stack = [] := hlayout
  exact ⟨h.visited_iff, h.visited_nodes, h.nodup, h.sorted, h.bounded, by simp [hstack], le_rfl,
    h.ordered, h.nonempty, by rw [hframes]; exact hstack⟩

theorem inv_first (h : Inv succ nodes s.index s) (hframes : s.frames = [])
    (hnode : x ∈ nodes) (hx : ¬ s.Visited x) : Inv succ nodes s.index (visit succ s x) := by
  have hlayout := h.layout
  rw [hframes] at hlayout
  have heq : visit succ s x = visit succ { s with frames := [] } x := by
    rw [← hframes]
  rw [heq]
  exact inv_visit h hx hnode (fun _ => rfl) hlayout

theorem inv_search (hnodes : nodes.Nodup) (hsucc : ∀ x ∈ nodes, ∀ y ∈ succ x, y ∈ nodes)
    (h : Inv succ nodes base s) (hframes : s.frames = []) (hnode : x ∈ nodes)
    (hx : ¬ s.Visited x) :
    Inv succ nodes s.index (drain succ (searchFuel succ nodes) (visit succ s x)) ∧
      (drain succ (searchFuel succ nodes) (visit succ s x)).frames = [] := by
  refine inv_drain hsucc _ (inv_first (inv_restart h hframes) hframes hnode hx) ?_
  have hpending := pending_set succ s.index hnode (by simpa [State.Visited] using hx)
  have hall : pending succ nodes s.indices ≤ searchFuel succ nodes := by
    rw [searchFuel, ← List.sum_toFinset _ hnodes]
    exact Finset.sum_le_sum_of_subset (Finset.filter_subset _ _)
  simp only [work, visit, hframes, List.map_cons, List.map_nil, List.sum_cons, List.sum_nil]
  omega

def Settled (succ : α → List α) (nodes : List α) (s : State α) : Prop :=
  (∃ base, Inv succ nodes base s) ∧ s.frames = []

variable (succ) in
theorem settled_start : Settled succ nodes (State.start : State α) := by
  refine ⟨⟨0, ?_, ?_, List.nodup_nil, List.Pairwise.nil, ?_, ?_, le_rfl, ?_, List.not_mem_nil, rfl⟩, rfl⟩
  · intro x
    simp [State.Visited, State.start, State.done, Dict.get?, Dict.empty]
  · intro x hx
    simp [State.Visited, State.start, Dict.get?, Dict.empty] at hx
  · intro x hx
    exact absurd hx List.not_mem_nil
  · intro x hx
    exact absurd hx List.not_mem_nil
  · intro earlier c later hsplit
    simp [State.start] at hsplit

theorem settled_searchFrom (hnodes : nodes.Nodup) (hsucc : ∀ x ∈ nodes, ∀ y ∈ succ x, y ∈ nodes)
    (h : Settled succ nodes s) (hnode : x ∈ nodes) :
    Settled succ nodes (searchFrom succ nodes s x) ∧ (searchFrom succ nodes s x).Visited x ∧
      ∀ y, s.Visited y → (searchFrom succ nodes s x).Visited y := by
  obtain ⟨⟨base, hinv⟩, hframes⟩ := h
  by_cases hx : s.Visited x
  · have hskip : searchFrom succ nodes s x = s := if_pos hx
    rw [hskip]
    exact ⟨⟨⟨base, hinv⟩, hframes⟩, hx, fun y hy => hy⟩
  · have hsearch : searchFrom succ nodes s x =
        drain succ (searchFuel succ nodes) (visit succ s x) := if_neg hx
    rw [hsearch]
    obtain ⟨hinv', hframes'⟩ := inv_search hnodes hsucc hinv hframes hnode hx
    exact ⟨⟨⟨s.index, hinv'⟩, hframes'⟩, visited_drain _ ((visit_visited_iff s x x).mpr (Or.inl rfl)),
      fun y hy => visited_drain _ ((visit_visited_iff s x y).mpr (Or.inr hy))⟩

theorem settled_searches (hnodes : nodes.Nodup) (hsucc : ∀ x ∈ nodes, ∀ y ∈ succ x, y ∈ nodes)
    (starts : List α) (hstarts : ∀ x ∈ starts, x ∈ nodes) (h : Settled succ nodes s) :
    Settled succ nodes (starts.foldl (searchFrom succ nodes) s) ∧
      ∀ x, s.Visited x ∨ x ∈ starts → (starts.foldl (searchFrom succ nodes) s).Visited x := by
  induction starts generalizing s with
  | nil => exact ⟨h, fun x hx => hx.resolve_right List.not_mem_nil⟩
  | cons x starts ih =>
    obtain ⟨hsettled, hself, hkept⟩ :=
      settled_searchFrom hnodes hsucc h (hstarts x List.mem_cons_self)
    obtain ⟨hend, hvisited⟩ :=
      ih (fun y hy => hstarts y (List.mem_cons_of_mem _ hy)) hsettled
    refine ⟨hend, fun y hy => hvisited y ?_⟩
    rcases hy with hy | hy
    · exact Or.inl (hkept y hy)
    · rcases List.mem_cons.mp hy with rfl | hy
      · exact Or.inl hself
      · exact Or.inr hy

theorem components_spec (hnodes : nodes.Nodup) (hsucc : ∀ x ∈ nodes, ∀ y ∈ succ x, y ∈ nodes) :
    (components succ nodes).flatten.Nodup ∧ (∀ x, x ∈ (components succ nodes).flatten ↔ x ∈ nodes) ∧
      [] ∉ components succ nodes ∧ Ordered succ (components succ nodes) := by
  obtain ⟨⟨⟨base, hinv⟩, hframes⟩, hvisited⟩ :=
    settled_searches hnodes hsucc nodes (fun x hx => hx) (settled_start succ)
  have hlayout := hinv.layout
  rw [hframes] at hlayout
  have hstack : (nodes.foldl (searchFrom succ nodes) State.start).stack = [] := hlayout
  have hnodup := hinv.nodup
  have hiff := hinv.visited_iff
  rw [hstack, List.nil_append] at hnodup
  simp only [hstack, List.not_mem_nil, false_or] at hiff
  refine ⟨hnodup, fun x => ⟨fun hx => ?_, fun hx => ?_⟩, hinv.nonempty, hinv.ordered⟩
  · exact hinv.visited_nodes x ((hiff x).mpr hx)
  · exact (hiff x).mp (hvisited x (Or.inr hx))

end Algorithm

end Tarjan
