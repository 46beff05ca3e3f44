import TexGovernance.Lib.PyDict
import Mathlib.Algebra.BigOperators.Group.Finset.Basic
import Mathlib.Logic.Relation

/-!
# Searches in a finite graph

The backward search goes breadth first and keeps, for each node it meets, the edge towards the
start; it finds a nearest node that is sought, with a shortest walk. The closure is the depth
first search that collects what is reachable.
-/

namespace GraphSearch
open PyDict

variable {α κ : Type}

/-- A walk along `edge`, with the nodes it leaves and the edges it takes. -/
inductive Walk (edge : α → κ → α → Prop) : α → List (α × κ) → α → Prop where
  | nil (x : α) : Walk edge x [] x
  | cons {x y z : α} {k : κ} {ps : List (α × κ)} (h : edge x k y) (rest : Walk edge y ps z) :
      Walk edge x ((x, k) :: ps) z

variable [DecidableEq α]

structure Search (α κ : Type) where
  queue : List α
  visited : List α
  next : Dict α (α × κ)

section Backward

variable (sought : α → Bool) (preds : α → List (α × κ)) (start : α)

/-- A node that leads to `current` is queued when it is met first. -/
def visit (current : α) (st : Search α κ) (p : α × κ) : Search α κ :=
  if p.1 ∈ st.visited then st
  else ⟨st.queue ++ [p.1], st.visited ++ [p.1], st.next.set p.1 (current, p.2)⟩

def expand (current : α) (st : Search α κ) : Search α κ := (preds current).foldl (visit current) st

/-- The loop; the answer is `none` only without fuel. -/
def search : ℕ → Search α κ → Option (Option α × Dict α (α × κ))
  | 0, _ => none
  | fuel + 1, st =>
    match st.queue with
    | [] => some (none, st.next)
    | current :: rest =>
      if sought current then some (some current, st.next)
      else search fuel (expand preds current { st with queue := rest })

def initial : Search α κ := ⟨[start], [start], Dict.empty⟩

/-- The nodes from `x` to the start along the kept edges, at most `guard + 1`
of them. -/
def trail (next : Dict α (α × κ)) : ℕ → α → List (α × Option κ)
  | guard, x =>
    match next.get? x with
    | none => [(x, none)]
    | some (y, k) =>
      if x = start then [(x, some k)]
      else (x, some k) ::
        match guard with
        | 0 => []
        | guard + 1 => trail next guard y

structure Expanded (current : α) (ps : List (α × κ)) (st st' : Search α κ) (fresh : List α) : Prop where
  queue : st'.queue = st.queue ++ fresh
  visited : st'.visited = st.visited ++ fresh
  nodup : fresh.Nodup
  unseen : ∀ x ∈ fresh, x ∉ st.visited
  kept : ∀ x ∈ fresh, ∃ k, (x, k) ∈ ps ∧ st'.next.get? x = some (current, k)
  others : ∀ x, x ∉ fresh → st'.next.get? x = st.next.get? x
  covered : ∀ p ∈ ps, p.1 ∈ st.visited ∨ p.1 ∈ fresh

theorem visit_expanded (current : α) (ps : List (α × κ)) (st : Search α κ) :
    ∃ fresh, Expanded current ps st (ps.foldl (visit current) st) fresh := by
  induction ps generalizing st with
  | nil =>
    refine ⟨[], ?_, ?_, List.nodup_nil, ?_, ?_, fun _ _ => rfl, ?_⟩
    · exact (List.append_nil _).symm
    · exact (List.append_nil _).symm
    · exact fun x hx => absurd hx List.not_mem_nil
    · exact fun x hx => absurd hx List.not_mem_nil
    · exact fun p hp => absurd hp List.not_mem_nil
  | cons p ps ih =>
    rw [List.foldl_cons]
    by_cases hp : p.1 ∈ st.visited
    · have hsame : visit current st p = st := if_pos hp
      rw [hsame]
      obtain ⟨fresh, h⟩ := ih st
      refine ⟨fresh, h.queue, h.visited, h.nodup, h.unseen, fun x hx => ?_, h.others, fun q hq => ?_⟩
      · obtain ⟨k, hk, hget⟩ := h.kept x hx
        exact ⟨k, List.mem_cons_of_mem _ hk, hget⟩
      · rcases List.mem_cons.mp hq with rfl | hq
        · exact .inl hp
        · exact h.covered q hq
    · have hnew : visit current st p =
          ⟨st.queue ++ [p.1], st.visited ++ [p.1], st.next.set p.1 (current, p.2)⟩ := if_neg hp
      rw [hnew]
      obtain ⟨fresh, h⟩ := ih ⟨st.queue ++ [p.1], st.visited ++ [p.1], st.next.set p.1 (current, p.2)⟩
      have hunseen : ∀ x ∈ fresh, x ∉ st.visited ∧ x ≠ p.1 := by
        intro x hx
        have hx := h.unseen x hx
        rw [List.mem_append, List.mem_singleton, not_or] at hx
        exact hx
      have hpfresh : p.1 ∉ fresh := fun hmem => (hunseen p.1 hmem).2 rfl
      refine ⟨p.1 :: fresh, ?_, ?_, List.nodup_cons.mpr ⟨hpfresh, h.nodup⟩, ?_, ?_, ?_, ?_⟩
      · rw [h.queue, List.append_assoc, List.singleton_append]
      · rw [h.visited, List.append_assoc, List.singleton_append]
      · intro x hx
        rcases List.mem_cons.mp hx with rfl | hx
        · exact hp
        · exact (hunseen x hx).1
      · intro x hx
        rcases List.mem_cons.mp hx with rfl | hx
        · refine ⟨p.2, List.mem_cons_self, ?_⟩
          rw [h.others _ hpfresh, Dict.get?_set, if_pos rfl]
        · obtain ⟨k, hk, hget⟩ := h.kept x hx
          exact ⟨k, List.mem_cons_of_mem _ hk, hget⟩
      · intro x hx
        rw [List.mem_cons, not_or] at hx
        rw [h.others x hx.2, Dict.get?_set, if_neg hx.1]
      · intro q hq
        rcases List.mem_cons.mp hq with rfl | hq
        · exact .inr List.mem_cons_self
        · rcases h.covered q hq with hq | hq
          · rcases List.mem_append.mp hq with hq | hq
            · exact .inl hq
            · rw [List.mem_singleton] at hq
              rw [hq]
              exact .inr List.mem_cons_self
          · exact .inr (List.mem_cons_of_mem _ hq)

/-- `depth` is the number of kept edges from a node to the start. The queue is
ordered by it and spans at most two values, which is what makes the first node
found a nearest one. -/
structure SearchInv (depth : α → ℕ) (st : Search α κ) : Prop where
  nodup : st.visited.Nodup
  queued : ∀ x ∈ st.queue, x ∈ st.visited
  queue_nodup : st.queue.Nodup
  start_visited : start ∈ st.visited
  start_depth : depth start = 0
  start_next : st.next.get? start = none
  kept : ∀ x ∈ st.visited, x ≠ start → ∃ y k, st.next.get? x = some (y, k) ∧ y ∈ st.visited ∧
    (x, k) ∈ preds y ∧ depth x = depth y + 1
  ordered : st.queue.Pairwise fun x y => depth x ≤ depth y
  close : ∀ x ∈ st.queue, ∀ y ∈ st.queue, depth y ≤ depth x + 1
  older : ∀ y ∈ st.visited, y ∉ st.queue → ∀ x ∈ st.queue, depth y ≤ depth x
  done : ∀ y ∈ st.visited, y ∉ st.queue → sought y = false ∧
    ∀ p ∈ preds y, p.1 ∈ st.visited ∧ depth p.1 ≤ depth y + 1
  bounded : ∀ x ∈ st.visited, depth x < st.visited.length

variable {sought preds start}

theorem searchInv_initial : SearchInv sought preds start (fun _ => 0) (initial start) := by
  have honly : ∀ x ∈ [start], x = start := fun x hx => List.mem_singleton.mp hx
  refine ⟨List.nodup_singleton _, fun _ hx => hx, List.nodup_singleton _, List.mem_singleton_self _,
    rfl, rfl, ?_, List.pairwise_singleton _ _, fun _ _ _ _ => Nat.zero_le _,
    fun _ _ _ _ _ => le_rfl, ?_, fun _ _ => Nat.one_pos⟩
  · intro x hx hne
    exact absurd (honly x hx) hne
  · intro y hy hnot
    exact absurd hy hnot

theorem SearchInv.expand {depth : α → ℕ} {current : α} {rest : List α} (st : Search α κ)
    (h : SearchInv sought preds start depth { st with queue := current :: rest })
    (hsought : sought current = false) :
    ∃ depth', SearchInv sought preds start depth'
      (GraphSearch.expand preds current { st with queue := rest }) := by
  obtain ⟨fresh, hexp⟩ := visit_expanded current (preds current) { st with queue := rest }
  unfold GraphSearch.expand
  generalize (preds current).foldl (visit current) { st with queue := rest } = st' at hexp ⊢
  have hqueue : st'.queue = rest ++ fresh := hexp.queue
  have hvisited : st'.visited = st.visited ++ fresh := hexp.visited
  have hunseen : ∀ x ∈ fresh, x ∉ st.visited := hexp.unseen
  have hcurrent : current ∈ st.visited := h.queued current List.mem_cons_self
  have hrest : ∀ x ∈ rest, x ∈ st.visited := fun x hx => h.queued x (List.mem_cons_of_mem _ hx)
  have hnotin : current ∉ rest := (List.nodup_cons.mp h.queue_nodup).1
  have hle : ∀ x ∈ rest, depth current ≤ depth x := (List.pairwise_cons.mp h.ordered).1
  have hclose : ∀ x ∈ rest, depth x ≤ depth current + 1 := fun x hx =>
    h.close current List.mem_cons_self x (List.mem_cons_of_mem _ hx)
  -- the fresh nodes are one edge behind the current one
  let depth' : α → ℕ := fun x => if x ∈ fresh then depth current + 1 else depth x
  have hnew : ∀ x ∈ fresh, depth' x = depth current + 1 := fun x hx => if_pos hx
  have hold : ∀ x ∈ st.visited, depth' x = depth x := fun x hx =>
    if_neg fun hmem => hunseen x hmem hx
  refine ⟨depth', ?_, ?_, ?_, ?_, ?_, ?_, ?_, ?_, ?_, ?_, ?_, ?_⟩
  · rw [hvisited, List.nodup_append]
    refine ⟨h.nodup, hexp.nodup, fun a ha b hb hab => ?_⟩
    rw [hab] at ha
    exact hunseen b hb ha
  · intro x hx
    rw [hqueue, List.mem_append] at hx
    rw [hvisited, List.mem_append]
    exact hx.imp (hrest x) id
  · rw [hqueue, List.nodup_append]
    refine ⟨(List.nodup_cons.mp h.queue_nodup).2, hexp.nodup, fun a ha b hb hab => ?_⟩
    rw [hab] at ha
    exact hunseen b hb (hrest b ha)
  · rw [hvisited, List.mem_append]
    exact .inl h.start_visited
  · rw [hold start h.start_visited]
    exact h.start_depth
  · rw [hexp.others start fun hmem => hunseen start hmem h.start_visited]
    exact h.start_next
  · intro x hx hne
    rw [hvisited, List.mem_append] at hx
    rcases hx with hx | hx
    · obtain ⟨y, k, hget, hy, hedge, hdepth⟩ := h.kept x hx hne
      refine ⟨y, k, ?_, ?_, hedge, ?_⟩
      · rw [hexp.others x fun hmem => hunseen x hmem hx]
        exact hget
      · rw [hvisited, List.mem_append]
        exact .inl hy
      · rw [hold x hx, hold y hy]
        exact hdepth
    · obtain ⟨k, hedge, hget⟩ := hexp.kept x hx
      refine ⟨current, k, hget, ?_, hedge, ?_⟩
      · rw [hvisited, List.mem_append]
        exact .inl hcurrent
      · rw [hnew x hx, hold current hcurrent]
  · rw [hqueue, List.pairwise_append]
    refine ⟨?_, ?_, fun x hx y hy => ?_⟩
    · refine (List.pairwise_cons.mp h.ordered).2.imp_of_mem fun {x y} hx hy hxy => ?_
      rw [hold x (hrest x hx), hold y (hrest y hy)]
      exact hxy
    · refine List.pairwise_of_forall_mem_list fun x hx y hy => ?_
      rw [hnew x hx, hnew y hy]
    · rw [hold x (hrest x hx), hnew y hy]
      exact hclose x hx
  · intro x hx y hy
    rw [hqueue, List.mem_append] at hx hy
    rcases hx with hx | hx
    · rw [hold x (hrest x hx)]
      rcases hy with hy | hy
      · rw [hold y (hrest y hy)]
        exact h.close x (List.mem_cons_of_mem _ hx) y (List.mem_cons_of_mem _ hy)
      · rw [hnew y hy]
        exact Nat.succ_le_succ (hle x hx)
    · rw [hnew x hx]
      rcases hy with hy | hy
      · rw [hold y (hrest y hy)]
        exact (hclose y hy).trans (Nat.le_succ _)
      · rw [hnew y hy]
        exact Nat.le_succ _
  · intro y hy hyq x hx
    rw [hqueue, List.mem_append, not_or] at hyq
    rw [hvisited, List.mem_append] at hy
    have hy : y ∈ st.visited := hy.resolve_right hyq.2
    -- the current node and the nodes done before it come before the whole queue
    have hycurrent : depth y ≤ depth current := by
      by_cases heq : y = current
      · rw [heq]
      · have hnot : y ∉ current :: rest := by
          rw [List.mem_cons, not_or]
          exact ⟨heq, hyq.1⟩
        exact h.older y hy hnot current List.mem_cons_self
    rw [hold y hy]
    rw [hqueue, List.mem_append] at hx
    rcases hx with hx | hx
    · rw [hold x (hrest x hx)]
      exact hycurrent.trans (hle x hx)
    · rw [hnew x hx]
      exact hycurrent.trans (Nat.le_succ _)
  · intro y hy hyq
    rw [hqueue, List.mem_append, not_or] at hyq
    rw [hvisited, List.mem_append] at hy
    have hy : y ∈ st.visited := hy.resolve_right hyq.2
    by_cases heq : y = current
    · subst heq
      refine ⟨hsought, fun p hp => ?_⟩
      rw [hvisited, List.mem_append, hold y hy]
      rcases hexp.covered p hp with hpv | hpf
      · have hpv : p.1 ∈ st.visited := hpv
        refine ⟨.inl hpv, ?_⟩
        rw [hold p.1 hpv]
        by_cases hpq : p.1 ∈ y :: rest
        · exact h.close y List.mem_cons_self p.1 hpq
        · exact (h.older p.1 hpv hpq y List.mem_cons_self).trans (Nat.le_succ _)
      · exact ⟨.inr hpf, le_of_eq (hnew p.1 hpf)⟩
    · have hnot : y ∉ current :: rest := by
        rw [List.mem_cons, not_or]
        exact ⟨heq, hyq.1⟩
      obtain ⟨hns, hpreds⟩ := h.done y hy hnot
      refine ⟨hns, fun p hp => ?_⟩
      obtain ⟨hpv, hpd⟩ := hpreds p hp
      rw [hvisited, List.mem_append, hold y hy, hold p.1 hpv]
      exact ⟨.inl hpv, hpd⟩
  · intro x hx
    rw [hvisited, List.mem_append] at hx
    rw [hvisited, List.length_append]
    rcases hx with hx | hx
    · rw [hold x hx]
      exact (h.bounded x hx).trans_le (Nat.le_add_right _ _)
    · have hpos : 0 < fresh.length := List.length_pos_of_mem hx
      have hbound : depth current < st.visited.length := h.bounded current hcurrent
      rw [hnew x hx]
      omega

theorem SearchInv.walk {depth : α → ℕ} {st : Search α κ} (h : SearchInv sought preds start depth st)
    {x : α} {ps : List (α × κ)} (hwalk : Walk (fun a k b => (a, k) ∈ preds b) x ps start) :
    (x ∈ st.visited ∧ depth x ≤ ps.length) ∨ ∃ q ∈ st.queue, depth q < ps.length := by
  generalize hz : start = z at hwalk
  induction hwalk with
  | nil z =>
    subst hz
    exact .inl ⟨h.start_visited, le_of_eq h.start_depth⟩
  | @cons x y z k ps hedge _ ih =>
    rw [List.length_cons]
    rcases ih hz with ⟨hy, hdepth⟩ | ⟨q, hq, hdepth⟩
    · by_cases hyq : y ∈ st.queue
      · exact .inr ⟨y, hyq, Nat.lt_succ_of_le hdepth⟩
      · obtain ⟨hx, hxy⟩ := (h.done y hy hyq).2 (x, k) hedge
        exact .inl ⟨hx, hxy.trans (Nat.succ_le_succ hdepth)⟩
    · exact .inr ⟨q, hq, hdepth.trans (Nat.lt_succ_self _)⟩

theorem SearchInv.trail {depth : α → ℕ} {st : Search α κ} (h : SearchInv sought preds start depth st)
    {x : α} (hx : x ∈ st.visited) :
    ∃ ps, Walk (fun a k b => (a, k) ∈ preds b) x ps start ∧ ps.length = depth x ∧
      ∀ guard, depth x ≤ guard → GraphSearch.trail start st.next guard x =
        ps.map (fun p => (p.1, some p.2)) ++ [(start, none)] := by
  -- the kept edges bring the depth down to the start
  generalize hn : depth x = n
  induction n generalizing x with
  | zero =>
    have hstart : x = start := by
      by_contra hne
      obtain ⟨y, k, -, -, -, hdepth⟩ := h.kept x hx hne
      omega
    subst hstart
    refine ⟨[], .nil x, rfl, fun guard _ => ?_⟩
    unfold GraphSearch.trail
    rw [h.start_next]
    rfl
  | succ n ih =>
    have hne : x ≠ start := by
      intro heq
      rw [heq, h.start_depth] at hn
      cases hn
    obtain ⟨y, k, hget, hy, hedge, hdepth⟩ := h.kept x hx hne
    obtain ⟨ps, hwalk, hlen, htrail⟩ := ih hy (by omega)
    refine ⟨(x, k) :: ps, .cons hedge hwalk, by rw [List.length_cons, hlen], fun guard hguard => ?_⟩
    cases guard with
    | zero => cases hguard
    | succ guard =>
      unfold GraphSearch.trail
      rw [hget]
      simp only [if_neg hne, htrail guard (Nat.le_of_succ_le_succ hguard)]
      rfl

theorem search_runs {nodes : List α} (hpreds : ∀ y ∈ nodes, ∀ p ∈ preds y, p.1 ∈ nodes) {fuel : ℕ}
    {depth : α → ℕ} {st : Search α κ} (h : SearchInv sought preds start depth st)
    (hnodes : ∀ x ∈ st.visited, x ∈ nodes)
    (hfuel : nodes.length + st.queue.length < fuel + st.visited.length) :
    ∃ result depth' st', search sought preds fuel st = some (result, st'.next) ∧
      SearchInv sought preds start depth' st' ∧ (∀ x ∈ st'.visited, x ∈ nodes) ∧
      ((result = none ∧ st'.queue = []) ∨
        ∃ x rest, result = some x ∧ st'.queue = x :: rest ∧ sought x = true) := by
  induction fuel generalizing depth st with
  | zero =>
    have hle : st.visited.length ≤ nodes.length :=
      (h.nodup.subperm hnodes).length_le
    omega
  | succ fuel ih =>
    obtain ⟨queue, visited, next⟩ := st
    cases queue with
    | nil => exact ⟨none, depth, _, rfl, h, hnodes, .inl ⟨rfl, rfl⟩⟩
    | cons current rest =>
      simp only [search]
      cases hsought : sought current with
      | true => exact ⟨some current, depth, ⟨current :: rest, visited, next⟩, rfl, h, hnodes,
          .inr ⟨current, rest, rfl, rfl, hsought⟩⟩
      | false =>
        simp only [Bool.false_eq_true, if_false]
        obtain ⟨depth', hinv⟩ := SearchInv.expand ⟨current :: rest, visited, next⟩ h hsought
        obtain ⟨fresh, hexp⟩ := visit_expanded current (preds current) ⟨rest, visited, next⟩
        have hqueue : (expand preds current ⟨rest, visited, next⟩).queue = rest ++ fresh := hexp.queue
        have hvisited : (expand preds current ⟨rest, visited, next⟩).visited = visited ++ fresh :=
          hexp.visited
        refine ih hinv ?_ ?_
        · intro x hx
          rw [hvisited, List.mem_append] at hx
          rcases hx with hx | hx
          · exact hnodes x hx
          · obtain ⟨k, hk, -⟩ := hexp.kept x hx
            exact hpreds current (hnodes current (h.queued current List.mem_cons_self)) (x, k) hk
        · rw [hqueue, hvisited, List.length_append, List.length_append]
          simp only [List.length_cons] at hfuel
          omega

theorem search_exact (sought : α → Bool) {nodes : List α} (hpreds : ∀ y ∈ nodes, ∀ p ∈ preds y, p.1 ∈ nodes)
    (hstart : start ∈ nodes) :
    (∃ next, search sought preds (nodes.length + 1) (initial start) = some (none, next) ∧
      ∀ x ps, Walk (fun a k b => (a, k) ∈ preds b) x ps start → sought x = false) ∨
    ∃ x next ps, search sought preds (nodes.length + 1) (initial start) = some (some x, next) ∧
      sought x = true ∧ x ∈ nodes ∧ Walk (fun a k b => (a, k) ∈ preds b) x ps start ∧
      (∀ y qs, sought y = true → Walk (fun a k b => (a, k) ∈ preds b) y qs start →
        ps.length ≤ qs.length) ∧
      ∀ guard, nodes.length ≤ guard →
        trail start next guard x = ps.map (fun p => (p.1, some p.2)) ++ [(start, none)] := by
  have honly : ∀ x ∈ (initial start : Search α κ).visited, x ∈ nodes := by
    intro x hx
    rw [List.mem_singleton.mp hx]
    exact hstart
  obtain ⟨result, depth, st, hsearch, h, hnodes, hend⟩ := search_runs hpreds searchInv_initial honly
    (by simp only [initial, List.length_singleton]; omega : _ < nodes.length + 1 + _)
  rcases hend with ⟨rfl, hempty⟩ | ⟨x, rest, rfl, hqueue, hsought⟩
  · refine .inl ⟨st.next, hsearch, fun x ps hwalk => ?_⟩
    have hnot : ∀ q, q ∉ st.queue := by
      intro q hq
      rw [hempty] at hq
      cases hq
    rcases h.walk hwalk with ⟨hx, -⟩ | ⟨q, hq, -⟩
    · exact (h.done x hx (hnot x)).1
    · exact absurd hq (hnot q)
  · have hmem : x ∈ st.queue := by
      rw [hqueue]
      exact List.mem_cons_self
    have hx : x ∈ st.visited := h.queued x hmem
    have hbound : depth x < nodes.length :=
      (h.bounded x hx).trans_le (h.nodup.subperm hnodes).length_le
    have hfirst : ∀ q ∈ st.queue, depth x ≤ depth q := by
      intro q hq
      have hordered := h.ordered
      rw [hqueue] at hq hordered
      rcases List.mem_cons.mp hq with rfl | hq
      · exact le_rfl
      · exact (List.pairwise_cons.mp hordered).1 q hq
    obtain ⟨ps, hwalk, hlen, htrail⟩ := h.trail hx
    refine .inr ⟨x, st.next, ps, hsearch, hsought, hnodes x hx, hwalk, fun y qs hy hqs => ?_,
      fun guard hguard => htrail guard (hbound.le.trans hguard)⟩
    rw [hlen]
    rcases h.walk hqs with ⟨hyv, hdepth⟩ | ⟨q, hq, hdepth⟩
    · by_cases hyq : y ∈ st.queue
      · exact (hfirst y hyq).trans hdepth
      · rw [(h.done y hyv hyq).1] at hy
        cases hy
    · exact (hfirst q hq).trans hdepth.le

end Backward

section Closure

variable (succ : α → List α)

/-- The nodes reachable from the stack; the answer is `none` only without
fuel. The top of the stack is its head. -/
def closure : ℕ → List α → List α → Option (List α)
  | 0, _, _ => none
  | _ + 1, [], visited => some visited
  | fuel + 1, current :: rest, visited =>
    if current ∈ visited then closure fuel rest visited
    else closure fuel ((succ current).reverse ++ rest) (visited ++ [current])

def pending (nodes : Finset α) (visited : List α) : ℕ :=
  ∑ x ∈ nodes.filter (· ∉ visited), (succ x).length

variable {succ}

theorem pending_visit {nodes : Finset α} {visited : List α} {x : α} (hx : x ∈ nodes)
    (hnew : x ∉ visited) :
    pending succ nodes visited = (succ x).length + pending succ nodes (visited ++ [x]) := by
  have hmem : x ∈ nodes.filter (· ∉ visited) := Finset.mem_filter.mpr ⟨hx, hnew⟩
  have herase : nodes.filter (· ∉ visited ++ [x]) = (nodes.filter (· ∉ visited)).erase x := by
    ext y
    simp only [Finset.mem_filter, Finset.mem_erase, List.mem_append, List.mem_singleton, not_or]
    exact ⟨fun ⟨h1, h2, h3⟩ => ⟨h3, h1, h2⟩, fun ⟨h3, h1, h2⟩ => ⟨h1, h2, h3⟩⟩
  unfold pending
  rw [herase, Finset.add_sum_erase _ (fun x => (succ x).length) hmem]

structure ClosureInv (succ : α → List α) (start : α) (stack visited : List α) : Prop where
  begun : start ∈ visited ∨ start ∈ stack
  reachable : ∀ x, x ∈ visited ∨ x ∈ stack → Relation.ReflTransGen (fun a b => b ∈ succ a) start x
  followed : ∀ x ∈ visited, ∀ y ∈ succ x, y ∈ visited ∨ y ∈ stack

theorem closure_exact {nodes : Finset α} (hsucc : ∀ x ∈ nodes, ∀ y ∈ succ x, y ∈ nodes) {start : α}
    {fuel : ℕ} {stack visited : List α} (h : ClosureInv succ start stack visited)
    (hnodes : ∀ x ∈ stack, x ∈ nodes)
    (hfuel : stack.length + pending succ nodes visited < fuel) :
    ∃ result, closure succ fuel stack visited = some result ∧
      ∀ x, x ∈ result ↔ Relation.ReflTransGen (fun a b => b ∈ succ a) start x := by
  induction fuel generalizing stack visited with
  | zero => cases hfuel
  | succ fuel ih =>
    cases stack with
    | nil =>
      refine ⟨visited, rfl, fun x => ⟨fun hx => h.reachable x (.inl hx), fun hx => ?_⟩⟩
      have hmem : ∀ y, y ∈ visited ∨ y ∈ [] → y ∈ visited := fun y hy =>
        hy.resolve_right List.not_mem_nil
      induction hx with
      | refl => exact hmem _ h.begun
      | tail _ hedge ih => exact hmem _ (h.followed _ ih _ hedge)
    | cons current rest =>
      unfold closure
      rw [List.length_cons] at hfuel
      have hrest : ∀ x ∈ rest, x ∈ nodes := fun x hx => hnodes x (List.mem_cons_of_mem _ hx)
      by_cases hseen : current ∈ visited
      · rw [if_pos hseen]
        have hkeep : ∀ y, y ∈ visited ∨ y ∈ current :: rest → y ∈ visited ∨ y ∈ rest := by
          intro y hy
          rcases hy with hy | hy
          · exact .inl hy
          · rcases List.mem_cons.mp hy with rfl | hy
            · exact .inl hseen
            · exact .inr hy
        refine ih ⟨hkeep _ h.begun, fun x hx => ?_, fun x hx y hy => hkeep y (h.followed x hx y hy)⟩
          hrest (by omega)
        exact h.reachable x (hx.imp_right (List.mem_cons_of_mem _))
      · rw [if_neg hseen]
        have hcurrent : current ∈ nodes := hnodes current List.mem_cons_self
        have hpending : pending succ nodes visited = _ := pending_visit hcurrent hseen
        have hkeep : ∀ y, y ∈ visited ∨ y ∈ current :: rest →
            y ∈ visited ++ [current] ∨ y ∈ (succ current).reverse ++ rest := by
          intro y hy
          rw [List.mem_append, List.mem_singleton, List.mem_append]
          rcases hy with hy | hy
          · exact .inl (.inl hy)
          · rcases List.mem_cons.mp hy with rfl | hy
            · exact .inl (.inr rfl)
            · exact .inr (.inr hy)
        have hreach := h.reachable current (.inr List.mem_cons_self)
        refine ih ⟨hkeep _ h.begun, fun x hx => ?_, fun x hx y hy => ?_⟩ (fun x hx => ?_) ?_
        · rw [List.mem_append, List.mem_singleton, List.mem_append, List.mem_reverse] at hx
          rcases hx with (hx | rfl) | hx | hx
          · exact h.reachable x (.inl hx)
          · exact hreach
          · exact hreach.tail hx
          · exact h.reachable x (.inr (List.mem_cons_of_mem _ hx))
        · rw [List.mem_append, List.mem_singleton] at hx
          rcases hx with hx | rfl
          · exact hkeep y (h.followed x hx y hy)
          · exact .inr (List.mem_append_left _ (List.mem_reverse.mpr hy))
        · rw [List.mem_append, List.mem_reverse] at hx
          exact hx.elim (hsucc current hcurrent x) (hrest x)
        · rw [List.length_append, List.length_reverse]
          omega

end Closure

end GraphSearch
