import TexGovernance.Lib.PyDict
import TexGovernance.Lib.PyJson

/-!
# Inherited states of spawned agents

`resolve_effective_state` (`institutional/subagent_inheritance.py`).
-/

namespace TexGovernance.Institutional
open PyStr PyDict PyJson

abbrev Restrictiveness := Dict Str ℤ

def canonicalRestrictiveness : Restrictiveness :=
  Dict.ofItems [(txt "active", 0), (txt "credited", 0), (txt "warning", 1), (txt "fined", 2),
    (txt "suspended", 3)]

structure InheritedState where
  actorEntityId : Str
  directState : Str
  effectiveState : Str
  inheritedFrom : Option Str
  chainLength : ℕ
  deriving DecidableEq

/-- The graph as `get_entity_at` reads it at one time. -/
abbrev EntityReader := Str → Option (List (Str × PyObj))

section Walk

variable (entityAt : EntityReader) (states : Dict Str Str) (order : Restrictiveness)

def spawnerOf (id : Str) : Option Str :=
  match entityAt id with
  | none => none
  | some attrs =>
    match attrs.lookup (txt "spawned_by") with
    | some (.str parent) => if parent = [] then none else some parent
    | _ => none

/-- `order.get(state, 0)`. -/
def score (state : Str) : ℤ := (order.get? state).getD 0

def stateOf (id : Str) : Str := (states.get? id).getD (txt "active")

structure Walk where
  visited : List Str
  bestState : Str
  bestScore : ℤ
  inheritedFrom : Option Str
  chainLength : ℕ
  current : Str

def Walk.visit (w : Walk) (parent : Str) : Walk :=
  let met := { w with visited := w.visited ++ [parent], chainLength := w.chainLength + 1, current := parent }
  let parentState := stateOf states parent
  if w.bestScore < score order parentState then
    { met with bestState := parentState, bestScore := score order parentState, inheritedFrom := some parent }
  else met

def walk : ℕ → Walk → Walk
  | 0, w => w
  | rounds + 1, w =>
    match spawnerOf entityAt w.current with
    | none => w
    | some parent => if parent ∈ w.visited then w else walk rounds (w.visit states order parent)

end Walk

def orderOf (restrictiveness : Option Restrictiveness) : Restrictiveness :=
  match restrictiveness with
  | none => canonicalRestrictiveness
  | some order => if order.items = [] then canonicalRestrictiveness else order

def startWalk (order : Restrictiveness) (actor directState : Str) : Walk :=
  ⟨[actor], directState, score order directState, none, 0, actor⟩

def resolveEffectiveState (entityAt : EntityReader) (actorEntityId directState : Str)
    (institutionalStates : Dict Str Str) (maxDepth : ℕ) (restrictiveness : Option Restrictiveness) :
    InheritedState :=
  let order := orderOf restrictiveness
  let w := walk entityAt institutionalStates order maxDepth (startWalk order actorEntityId directState)
  ⟨actorEntityId, directState, w.bestState, w.inheritedFrom, w.chainLength⟩

section Chain

variable (entityAt : EntityReader)

def up : ℕ → Str → Option Str
  | 0, id => some id
  | k + 1, id => (spawnerOf entityAt id).bind (up k)

def chain : ℕ → List Str → Str → List Str
  | 0, _, _ => []
  | rounds + 1, visited, current =>
    match spawnerOf entityAt current with
    | none => []
    | some parent => if parent ∈ visited then [] else parent :: chain rounds (visited ++ [parent]) parent

variable {entityAt} {states : Dict Str Str} {order : Restrictiveness}

theorem chain_succ (rounds : ℕ) (visited : List Str) (current : Str) :
    chain entityAt (rounds + 1) visited current = match spawnerOf entityAt current with
      | none => []
      | some parent =>
        if parent ∈ visited then [] else parent :: chain entityAt rounds (visited ++ [parent]) parent := rfl

theorem walk_eq (entityAt : EntityReader) (states : Dict Str Str) (order : Restrictiveness) (rounds : ℕ)
    (w : Walk) : walk entityAt states order rounds w =
      (chain entityAt rounds w.visited w.current).foldl (Walk.visit states order) w := by
  induction rounds generalizing w with
  | zero => rfl
  | succ rounds ih =>
    rw [chain_succ]
    unfold walk
    cases spawnerOf entityAt w.current with
    | none => rfl
    | some parent =>
      by_cases hseen : parent ∈ w.visited
      · simp only [if_pos hseen, List.foldl_nil]
      · have hvisited : (w.visit states order parent).visited = w.visited ++ [parent] := by
          unfold Walk.visit
          simp only
          split <;> rfl
        have hcurrent : (w.visit states order parent).current = parent := by
          unfold Walk.visit
          simp only
          split <;> rfl
        simp only [if_neg hseen, List.foldl_cons]
        rw [ih, hvisited, hcurrent]

theorem up_succ' (k : ℕ) (id : Str) : up entityAt (k + 1) id = (spawnerOf entityAt id).bind (up entityAt k) := rfl

theorem up_succ (k : ℕ) (id : Str) : up entityAt (k + 1) id = (up entityAt k id).bind (spawnerOf entityAt) := by
  induction k generalizing id with
  | zero => exact Option.bind_fun_some _
  | succ k ih =>
    rw [up_succ', up_succ', Option.bind_assoc]
    congr 1
    funext parent
    exact ih parent

theorem up_add (i j : ℕ) (id : Str) :
    up entityAt (i + j) id = (up entityAt i id).bind (up entityAt j) := by
  induction j with
  | zero => exact (Option.bind_fun_some _).symm
  | succ j ih =>
    rw [← Nat.add_assoc, up_succ, ih, Option.bind_assoc]
    congr 1
    funext a
    exact (up_succ j a).symm

theorem up_of_mem_chain {rounds : ℕ} {visited : List Str} {current a : Str}
    (h : a ∈ chain entityAt rounds visited current) : ∃ k, 0 < k ∧ k ≤ rounds ∧ up entityAt k current = some a := by
  induction rounds generalizing visited current with
  | zero => cases h
  | succ rounds ih =>
    rw [chain_succ] at h
    cases hspawner : spawnerOf entityAt current with
    | none =>
      rw [hspawner] at h
      cases h
    | some parent =>
      rw [hspawner] at h
      simp only at h
      split at h
      · cases h
      · rcases List.mem_cons.mp h with rfl | h
        · exact ⟨1, Nat.one_pos, by omega, (Option.bind_fun_some _).trans hspawner⟩
        · obtain ⟨k, -, hle, hk⟩ := ih h
          exact ⟨k + 1, Nat.succ_pos k, by omega, by rw [up_succ', hspawner, Option.bind_some, hk]⟩

theorem mem_chain_of_up {rounds : ℕ} {visited : List Str} {current : Str} (hcurrent : current ∈ visited)
    (hclosed : ∀ v ∈ visited, v ≠ current → ∀ q, spawnerOf entityAt v = some q → q ∈ visited) {k : ℕ}
    (hk : k ≤ rounds) {a : Str} (ha : up entityAt k current = some a) :
    a ∈ visited ∨ a ∈ chain entityAt rounds visited current := by
  induction rounds generalizing visited current k with
  | zero =>
    obtain rfl := Nat.le_zero.mp hk
    rw [← Option.some.inj ha]
    exact .inl hcurrent
  | succ rounds ih =>
    cases k with
    | zero =>
      rw [← Option.some.inj ha]
      exact .inl hcurrent
    | succ k =>
      rw [up_succ'] at ha
      rw [chain_succ]
      cases hspawner : spawnerOf entityAt current with
      | none =>
        rw [hspawner] at ha
        cases ha
      | some parent =>
        rw [hspawner, Option.bind_some] at ha
        simp only
        by_cases hseen : parent ∈ visited
        · have hall : ∀ v ∈ visited, ∀ q, spawnerOf entityAt v = some q → q ∈ visited := by
            intro v hv q hq
            by_cases hv' : v = current
            · rw [hv', hspawner] at hq
              rw [← Option.some.inj hq]
              exact hseen
            · exact hclosed v hv hv' q hq
          have hstay : ∀ m v b, v ∈ visited → up entityAt m v = some b → b ∈ visited := by
            intro m
            induction m with
            | zero =>
              intro v b hv hb
              rw [← Option.some.inj hb]
              exact hv
            | succ m ihm =>
              intro v b hv hb
              rw [up] at hb
              obtain ⟨q, hq, hb⟩ := Option.bind_eq_some_iff.mp hb
              exact ihm q b (hall v hv q hq) hb
          exact .inl (hstay k parent a hseen ha)
        · rw [if_neg hseen]
          have hnext := ih (show parent ∈ visited ++ [parent] by simp) ?_ (by omega : k ≤ rounds) ha
          · rcases hnext with hv | hc
            · rcases List.mem_append.mp hv with hv | hv
              · exact .inl hv
              · rw [List.mem_singleton.mp hv]
                exact .inr List.mem_cons_self
            · exact .inr (List.mem_cons_of_mem _ hc)
          · intro v hv hne q hq
            rcases List.mem_append.mp hv with hv | hv
            · by_cases hv' : v = current
              · rw [hv', hspawner] at hq
                rw [← Option.some.inj hq]
                simp
              · exact List.mem_append_left _ (hclosed v hv hv' q hq)
            · exact absurd (List.mem_singleton.mp hv) hne

end Chain

section Resolution

variable {entityAt : EntityReader} {states : Dict Str Str} {order : Restrictiveness}

structure Kept (states : Dict Str Str) (order : Restrictiveness) (w w' : Walk) (met : List Str) : Prop where
  scored : w'.bestScore = score order w'.bestState
  grows : w.bestScore ≤ w'.bestScore
  bounds : ∀ a ∈ met, score order (stateOf states a) ≤ w'.bestScore
  origin : (w'.bestState = w.bestState ∧ w'.inheritedFrom = w.inheritedFrom) ∨
    ∃ a ∈ met, w'.inheritedFrom = some a ∧ w'.bestState = stateOf states a

theorem kept_visit (states : Dict Str Str) {w : Walk} (h : w.bestScore = score order w.bestState) (parent : Str) :
    Kept states order w (w.visit states order parent) [parent] := by
  unfold Walk.visit
  simp only
  split
  · rename_i hlt
    exact ⟨rfl, hlt.le, List.forall_mem_singleton.mpr le_rfl, .inr ⟨parent, List.mem_singleton_self _, rfl, rfl⟩⟩
  · rename_i hle
    exact ⟨h, le_rfl, List.forall_mem_singleton.mpr (not_lt.mp hle), .inl ⟨rfl, rfl⟩⟩

theorem kept_foldl (states : Dict Str Str) (met : List Str) {w : Walk} (h : w.bestScore = score order w.bestState) :
    Kept states order w (met.foldl (Walk.visit states order) w) met := by
  induction met generalizing w with
  | nil => exact ⟨h, le_rfl, fun _ ha => absurd ha List.not_mem_nil, .inl ⟨rfl, rfl⟩⟩
  | cons parent met ih =>
    have hfirst := kept_visit states h parent
    have hrest := ih hfirst.scored
    refine ⟨hrest.scored, hfirst.grows.trans hrest.grows, List.forall_mem_cons.mpr ⟨?_, hrest.bounds⟩, ?_⟩
    · exact (hfirst.bounds parent (List.mem_singleton_self _)).trans hrest.grows
    · rcases hrest.origin with ⟨hstate, hfrom⟩ | ⟨a, ha, hfrom, hstate⟩
      · rcases hfirst.origin with ⟨hstate', hfrom'⟩ | ⟨a, ha, hfrom', hstate'⟩
        · exact .inl ⟨hstate.trans hstate', hfrom.trans hfrom'⟩
        · refine .inr ⟨a, ?_, hfrom.trans hfrom', hstate.trans hstate'⟩
          rw [List.mem_singleton.mp ha]
          exact List.mem_cons_self
      · exact .inr ⟨a, List.mem_cons_of_mem _ ha, hfrom, hstate⟩

variable (entityAt states) (maxDepth : ℕ) (restrictiveness : Option Restrictiveness)

/-- The resolution for an actor under its own state. -/
def resolved (id : Str) : InheritedState :=
  resolveEffectiveState entityAt id (stateOf states id) states maxDepth restrictiveness

def restricts (state : Str) : ℤ := score (orderOf restrictiveness) state

/-- What a resolution says of the actors up to its depth. -/
structure Resolves (id : Str) : Prop where
  bounds : ∀ k a, k ≤ maxDepth → up entityAt k id = some a →
    restricts restrictiveness (stateOf states a) ≤
      restricts restrictiveness (resolved entityAt states maxDepth restrictiveness id).effectiveState
  attained : ∃ k a, k ≤ maxDepth ∧ up entityAt k id = some a ∧
    (resolved entityAt states maxDepth restrictiveness id).effectiveState = stateOf states a
  inherited : ∀ a, (resolved entityAt states maxDepth restrictiveness id).inheritedFrom = some a →
    (∃ k, 0 < k ∧ k ≤ maxDepth ∧ up entityAt k id = some a) ∧
      (resolved entityAt states maxDepth restrictiveness id).effectiveState = stateOf states a

theorem resolves (id : Str) : Resolves entityAt states maxDepth restrictiveness id := by
  have hkept := kept_foldl states (chain entityAt maxDepth [id] id)
    (rfl : (startWalk (orderOf restrictiveness) id (stateOf states id)).bestScore = _)
  have hwalk := walk_eq entityAt states (orderOf restrictiveness) maxDepth
    (startWalk (orderOf restrictiveness) id (stateOf states id))
  change walk _ _ _ _ _ = List.foldl _ _ (chain entityAt maxDepth [id] id) at hwalk
  rw [← hwalk] at hkept
  refine ⟨fun k a hk ha => ?_, ?_, fun a ha => ?_⟩
  · refine le_of_le_of_eq ?_ hkept.scored
    rcases mem_chain_of_up (List.mem_singleton_self id)
      (fun v hv hne => absurd (List.mem_singleton.mp hv) hne) hk ha with hself | hmet
    · rw [List.mem_singleton.mp hself]
      exact hkept.grows
    · exact hkept.bounds a hmet
  · rcases hkept.origin with ⟨hstate, -⟩ | ⟨a, ha, -, hstate⟩
    · exact ⟨0, id, Nat.zero_le _, rfl, hstate⟩
    · obtain ⟨k, -, hk, hup⟩ := up_of_mem_chain ha
      exact ⟨k, a, hk, hup, hstate⟩
  · have ha : (walk entityAt states (orderOf restrictiveness) maxDepth
        (startWalk (orderOf restrictiveness) id (stateOf states id))).inheritedFrom = some a := ha
    rcases hkept.origin with ⟨-, hfrom⟩ | ⟨b, hb, hfrom, hstate⟩
    · rw [hfrom] at ha
      cases ha
    · rw [hfrom] at ha
      cases ha
      exact ⟨up_of_mem_chain hb, hstate⟩

theorem up_below {i m : ℕ} {id a : Str} (h : up entityAt m id = some a) (hi : i ≤ m) :
    up entityAt i id ≠ none := by
  intro hnone
  rw [← Nat.add_sub_cancel' hi, up_add, hnone] at h
  cases h

theorem up_of_repeat {i j : ℕ} {id : Str} (hij : i < j) (hj : j ≤ maxDepth + 1)
    (hsame : up entityAt i id = up entityAt j id) (m : ℕ) {a : Str} (ha : up entityAt m id = some a) :
    ∃ m', m' ≤ maxDepth ∧ up entityAt m' id = some a := by
  induction m using Nat.strong_induction_on with
  | _ m ih =>
    by_cases hm : m ≤ maxDepth
    · exact ⟨m, hm, ha⟩
    · -- one turn less around the cycle
      refine ih (i + (m - j)) (by omega) ?_
      rw [up_add, hsame, ← up_add, Nat.add_sub_cancel' (by omega)]
      exact ha

theorem restricts_of_reached {id a : Str} {k : ℕ} (ha : up entityAt k id = some a)
    (hreach : ∀ m b, up entityAt m id = some b → ∃ m', m' ≤ maxDepth ∧ up entityAt m' id = some b) :
    restricts restrictiveness (resolved entityAt states maxDepth restrictiveness a).effectiveState ≤
      restricts restrictiveness (resolved entityAt states maxDepth restrictiveness id).effectiveState := by
  obtain ⟨j, b, -, hb, hstate⟩ := (resolves entityAt states maxDepth restrictiveness a).attained
  have hup : up entityAt (k + j) id = some b := by
    rw [up_add, ha, Option.bind_some, hb]
  obtain ⟨m', hm', hb'⟩ := hreach _ _ hup
  rw [hstate]
  exact (resolves entityAt states maxDepth restrictiveness id).bounds m' b hm' hb'

/-- No actor is restricted less than a spawner of it at any distance, if the
walk reaches the end of its chain or the point where the chain repeats itself;
in any chain it is restricted by each spawner up to the depth; and the state
that is inherited is that of the spawner that is named. -/
theorem sanctions_inherited (id : Str) :
    (∀ k a, up entityAt k id = some a →
      (up entityAt (maxDepth + 1) id = none ∨
        ∃ i j, i < j ∧ j ≤ maxDepth + 1 ∧ up entityAt i id = up entityAt j id) →
      restricts restrictiveness (resolved entityAt states maxDepth restrictiveness a).effectiveState ≤
        restricts restrictiveness (resolved entityAt states maxDepth restrictiveness id).effectiveState) ∧
    Resolves entityAt states maxDepth restrictiveness id := by
  refine ⟨fun k a ha hend => ?_, resolves entityAt states maxDepth restrictiveness id⟩
  refine restricts_of_reached entityAt states maxDepth restrictiveness ha fun m b hb => ?_
  rcases hend with hnone | ⟨i, j, hij, hj, hsame⟩
  · refine ⟨m, ?_, hb⟩
    by_contra hm
    exact up_below entityAt hb (by omega) hnone
  · exact up_of_repeat entityAt maxDepth hij hj hsame m hb

end Resolution

/-- Each actor is spawned by the one whose name is a letter shorter. -/
def lineage : EntityReader := fun id => some [(txt "spawned_by", .str id.tail)]

def actorAt (length : ℕ) : Str := List.replicate length (cp 'a')

def rootSuspended : Dict Str Str := Dict.ofItems [(actorAt 1, txt "suspended")]

theorem sanctions_inherited_sample :
    restricts none (resolved lineage rootSuspended 32 none (actorAt 2)).effectiveState ≤
      restricts none (resolved lineage rootSuspended 32 none (actorAt 3)).effectiveState :=
  (sanctions_inherited lineage rootSuspended 32 none (actorAt 3)).1 1 (actorAt 2) (by decide) (.inl (by decide))

/-- The spawner is suspended through its 32nd ancestor, the one it spawns walks
as far and stays active. -/
theorem long_chain_escapes :
    spawnerOf lineage (actorAt 34) = some (actorAt 33) ∧
    (resolved lineage rootSuspended 32 none (actorAt 33)).effectiveState = txt "suspended" ∧
    (resolved lineage rootSuspended 32 none (actorAt 34)).effectiveState = txt "active" ∧
    restricts none (txt "active") < restricts none (txt "suspended") := by
  decide

end TexGovernance.Institutional
