import TexGovernance.Institutional.SemanticDigest
import Mathlib.Data.List.Perm.Basic

/-!
# What a semantic digest identifies

Two values agree if they are one value but for the order of the members of a
mapping and the rounding of floats to thousandths. Manifests of one digest are
the same regime up to that.
-/

namespace TexGovernance.Institutional
open PyStr PyBytes PyCodec PyRepr PyDict PyFloat PyValue JsonLoads JsonText JsonCanon
open Sha256 (sha256)

section Agreement

variable (thousandfold : ℚ → Option ℚ)

def count? : ManifestValue → Option ℤ
  | .int z => some z
  | .float q => (milli thousandfold q).toOption
  | _ => none

mutual

inductive Agrees : ManifestValue → ManifestValue → Prop where
  | null : Agrees .null .null
  | bool (b : Bool) : Agrees (.bool b) (.bool b)
  | str (s : Str) : Agrees (.str s) (.str s)
  | number {v w : ManifestValue} {z : ℤ} (hv : count? thousandfold v = some z)
      (hw : count? thousandfold w = some z) : Agrees v w
  | list {xs ys : List ManifestValue} (h : AgreesItems xs ys) : Agrees (.list xs) (.list ys)
  | dict {xs ys zs : List (Str × ManifestValue)} (hperm : zs.Perm ys) (h : AgreesMembers xs zs) :
      Agrees (.dict xs) (.dict ys)

inductive AgreesItems : List ManifestValue → List ManifestValue → Prop where
  | nil : AgreesItems [] []
  | cons {v w : ManifestValue} {xs ys : List ManifestValue} (h : Agrees v w) (hrest : AgreesItems xs ys) :
      AgreesItems (v :: xs) (w :: ys)

inductive AgreesMembers : List (Str × ManifestValue) → List (Str × ManifestValue) → Prop where
  | nil : AgreesMembers [] []
  | cons {k : Str} {v w : ManifestValue} {xs ys : List (Str × ManifestValue)} (h : Agrees v w)
      (hrest : AgreesMembers xs ys) : AgreesMembers ((k, v) :: xs) ((k, w) :: ys)

end

def SameMapping (d e : Option (Dict Str ManifestValue)) : Prop :=
  Agrees thousandfold (.dict (itemsOf d)) (.dict (itemsOf e))

structure SameTransition (t u : LegalTransition) : Prop where
  edgeKey : t.edgeKey = u.edgeKey
  ruleId : t.ruleId = u.ruleId
  fromState : t.fromState = u.fromState
  toState : t.toState = u.toState
  triggeredBy : t.triggeredBy = u.triggeredBy
  sanction : t.effectiveSanctionId = u.effectiveSanctionId
  restorativePath : t.restorativePathId = u.restorativePathId
  timing : (itemsOf t.timing).Perm (itemsOf u.timing)
  metadata : SameMapping thousandfold t.metadata u.metadata

structure SameSanction (s r : Sanction) : Prop where
  sanctionId : s.sanctionId = r.sanctionId
  description : s.description = r.description
  costToActor : milli thousandfold s.costToActor = milli thousandfold r.costToActor
  costToSystem : milli thousandfold s.costToSystem = milli thousandfold r.costToSystem
  enforcementAction : s.enforcementAction = r.enforcementAction
  tier : s.tier.getD 0 = r.tier.getD 0
  fineRate : milliOrZero thousandfold s.fineRate = milliOrZero thousandfold r.fineRate
  fineFloor : milliOrZero thousandfold s.fineFloor = milliOrZero thousandfold r.fineFloor
  durationRounds : s.durationRounds.getD 0 = r.durationRounds.getD 0

structure SamePath (p q : RestorativePath) : Prop where
  pathId : p.pathId = q.pathId
  description : p.description = q.description
  restorativeEventKinds : p.restorativeEventKinds = q.restorativeEventKinds
  targetLegalStateId : p.targetLegalStateId = q.targetLegalStateId
  restorationKind : p.restorationKind = q.restorationKind
  condition : SameMapping thousandfold p.condition q.condition

structure SameRegime (g h : GovernanceGraph) : Prop where
  schemaVersion : g.schemaVersion = h.schemaVersion
  graphId : g.graphId = h.graphId
  version : g.version = h.version
  interpreterName : g.interpreterName = h.interpreterName
  interpreterVersion : g.interpreterVersion = h.interpreterVersion
  states : g.states = h.states
  transitions : List.Forall₂ (SameTransition thousandfold) g.transitions h.transitions
  sanctions : List.Forall₂ (SameSanction thousandfold) g.sanctions h.sanctions
  restorativePaths : List.Forall₂ (SamePath thousandfold) g.restorativePaths h.restorativePaths
  policySurface : SameMapping thousandfold g.policySurface h.policySurface
  policyProgram : SameMapping thousandfold g.policyProgram h.policyProgram
  contracts : SameMapping thousandfold g.contracts h.contracts

end Agreement

section Coercion

variable {thousandfold : ℚ → Option ℚ}

theorem milli_toOption {q : ℚ} {z : ℤ} (h : milli thousandfold q = .ok z) :
    (milli thousandfold q).toOption = some z := by
  rw [h]
  rfl

theorem sorted_perm (members : Members) :
    (byName (sortMembers (byName members))).Perm (sortMembers members) := by
  have hinner : (sortMembers (byName members)).Perm (sortMembers members) := by
    rw [sortMembers_eq, sortMembers_eq]
    exact (byName_perm members).map _
  exact (byName_perm _).trans hinner

theorem coerceJsonable_shape {w : ManifestValue} {b : JsonValue} (h : coerceJsonable thousandfold w = .ok b) :
    match sortKeys b with
    | .null => w = .null
    | .bool x => w = .bool x
    | .str s => w = .str s
    | .int z => count? thousandfold w = some z
    | .float _ => False
    | .arr items => ∃ ys bs, w = .list ys ∧ coerceItems thousandfold ys = .ok bs ∧ sortItems bs = items
    | .obj members => ∃ ys bs, w = .dict ys ∧ coerceMembers thousandfold ys = .ok bs ∧
        (sortMembers bs).Perm members := by
  cases w with
  | null =>
    obtain rfl := Except.ok.inj h
    rfl
  | bool x =>
    obtain rfl := Except.ok.inj h
    rfl
  | int z =>
    obtain rfl := Except.ok.inj h
    rfl
  | str s =>
    obtain rfl := Except.ok.inj h
    rfl
  | float q =>
    obtain ⟨z, hz, rfl⟩ := Pipeline.map_ok h
    exact milli_toOption hz
  | list ys =>
    obtain ⟨bs, hbs, rfl⟩ := Pipeline.map_ok h
    exact ⟨ys, bs, rfl, hbs, rfl⟩
  | dict ys =>
    obtain ⟨bs, hbs, rfl⟩ := Pipeline.map_ok h
    exact ⟨ys, bs, rfl, hbs, (sorted_perm bs).symm⟩

def BecameMember (thousandfold : ℚ → Option ℚ) (m : Str × ManifestValue) (c : Str × JsonValue) : Prop :=
  m.1 = c.1 ∧ ∃ b, coerceJsonable thousandfold m.2 = .ok b ∧ sortKeys b = c.2

theorem forall₂_coerceMembers {ys : List (Str × ManifestValue)} {bs : Members}
    (h : coerceMembers thousandfold ys = .ok bs) :
    List.Forall₂ (BecameMember thousandfold) ys (sortMembers bs) := by
  induction ys generalizing bs with
  | nil =>
    obtain rfl := Except.ok.inj h
    exact .nil
  | cons m rest ih =>
    obtain ⟨b, hb, h⟩ := Pipeline.bind_ok h
    obtain ⟨others, hothers, h⟩ := Pipeline.bind_ok h
    obtain rfl := Except.ok.inj h
    exact .cons ⟨rfl, b, hb, rfl⟩ (ih hothers)

theorem reorder_members {ys : List (Str × ManifestValue)} {as bs : Members}
    (hys : coerceMembers thousandfold ys = .ok bs) (hperm : (sortMembers bs).Perm (sortMembers as)) :
    ∃ zs, zs.Perm ys ∧ List.Forall₂ (BecameMember thousandfold) zs (sortMembers as) := by
  obtain ⟨zs, hzs, hperm⟩ := List.perm_comp_forall₂ hperm.symm (forall₂_coerceMembers hys).flip
  exact ⟨zs, hperm, hzs.flip⟩

mutual

theorem agrees_of_sortKeys : ∀ {v w : ManifestValue} {a b : JsonValue},
    coerceJsonable thousandfold v = .ok a → coerceJsonable thousandfold w = .ok b →
    sortKeys a = sortKeys b → Agrees thousandfold v w
  | .null, w, a, b, hv, hw, h => by
    obtain rfl := Except.ok.inj hv
    have hshape := coerceJsonable_shape hw
    rw [← h] at hshape
    rw [show w = .null from hshape]
    exact .null
  | .bool x, w, a, b, hv, hw, h => by
    obtain rfl := Except.ok.inj hv
    have hshape := coerceJsonable_shape hw
    rw [← h] at hshape
    rw [show w = .bool x from hshape]
    exact .bool x
  | .str s, w, a, b, hv, hw, h => by
    obtain rfl := Except.ok.inj hv
    have hshape := coerceJsonable_shape hw
    rw [← h] at hshape
    rw [show w = .str s from hshape]
    exact .str s
  | .int z, w, a, b, hv, hw, h => by
    obtain rfl := Except.ok.inj hv
    have hshape := coerceJsonable_shape hw
    rw [← h] at hshape
    exact .number rfl hshape
  | .float q, w, a, b, hv, hw, h => by
    obtain ⟨z, hz, rfl⟩ := Pipeline.map_ok hv
    have hshape := coerceJsonable_shape hw
    rw [← h] at hshape
    exact .number (milli_toOption hz) hshape
  | .list xs, w, a, b, hv, hw, h => by
    obtain ⟨as, has, rfl⟩ := Pipeline.map_ok hv
    have hshape := coerceJsonable_shape hw
    rw [← h] at hshape
    obtain ⟨ys, bs, rfl, hbs, hsame⟩ := hshape
    exact .list (agreesItems_of_sortItems has hbs hsame.symm)
  | .dict xs, w, a, b, hv, hw, h => by
    obtain ⟨as, has, rfl⟩ := Pipeline.map_ok hv
    have hshape := coerceJsonable_shape hw
    rw [← h] at hshape
    obtain ⟨ys, bs, rfl, hbs, hperm⟩ := hshape
    obtain ⟨zs, hzs, hbecame⟩ := reorder_members hbs (hperm.trans (sorted_perm as))
    exact .dict hzs (agreesMembers_of_forall₂ has hbecame)

theorem agreesItems_of_sortItems : ∀ {xs ys : List ManifestValue} {as bs : List JsonValue},
    coerceItems thousandfold xs = .ok as → coerceItems thousandfold ys = .ok bs →
    sortItems as = sortItems bs → AgreesItems thousandfold xs ys
  | [], ys, as, bs, hx, hy, h => by
    obtain rfl := Except.ok.inj hx
    cases ys with
    | nil => exact .nil
    | cons w ys =>
      obtain ⟨b, hb, hy⟩ := Pipeline.bind_ok hy
      obtain ⟨bs, hbs, hy⟩ := Pipeline.bind_ok hy
      obtain rfl := Except.ok.inj hy
      cases h
  | v :: xs, ys, as, bs, hx, hy, h => by
    obtain ⟨a, ha, hx⟩ := Pipeline.bind_ok hx
    obtain ⟨as, has, hx⟩ := Pipeline.bind_ok hx
    obtain rfl := Except.ok.inj hx
    cases ys with
    | nil =>
      obtain rfl := Except.ok.inj hy
      cases h
    | cons w ys =>
      obtain ⟨b, hb, hy⟩ := Pipeline.bind_ok hy
      obtain ⟨bs, hbs, hy⟩ := Pipeline.bind_ok hy
      obtain rfl := Except.ok.inj hy
      obtain ⟨hfirst, hrest⟩ := List.cons.inj h
      exact .cons (agrees_of_sortKeys ha hb hfirst) (agreesItems_of_sortItems has hbs hrest)

theorem agreesMembers_of_forall₂ : ∀ {xs zs : List (Str × ManifestValue)} {as : Members},
    coerceMembers thousandfold xs = .ok as → List.Forall₂ (BecameMember thousandfold) zs (sortMembers as) →
    AgreesMembers thousandfold xs zs
  | [], zs, as, hx, hz => by
    obtain rfl := Except.ok.inj hx
    cases hz
    exact .nil
  | (k, v) :: xs, zs, as, hx, hz => by
    obtain ⟨a, ha, hx⟩ := Pipeline.bind_ok hx
    obtain ⟨as, has, hx⟩ := Pipeline.bind_ok hx
    obtain rfl := Except.ok.inj hx
    cases hz with
    | @cons z _ zs _ hfirst hrest =>
      obtain ⟨k', w⟩ := z
      obtain ⟨hk, b, hb, hsame⟩ := hfirst
      obtain rfl : k' = k := hk
      exact .cons (agrees_of_sortKeys ha hb hsame.symm) (agreesMembers_of_forall₂ has hrest)

end

theorem sameMapping_of_sortKeys {d e : Option (Dict Str ManifestValue)} {a b : JsonValue}
    (hd : coerceMapping thousandfold d = .ok a) (he : coerceMapping thousandfold e = .ok b)
    (h : sortKeys a = sortKeys b) : SameMapping thousandfold d e :=
  agrees_of_sortKeys hd he h

theorem sortItems_eq (items : List JsonValue) : sortItems items = items.map sortKeys := by
  induction items with
  | nil => rfl
  | cons x rest ih => rw [sortItems, List.map_cons, ih]

theorem forall₂_of_sortItems {α : Type} {entry : α → Except Raised JsonValue} {xs ys : List α}
    {as bs : List JsonValue} (hx : xs.mapM entry = .ok as) (hy : ys.mapM entry = .ok bs)
    (h : sortItems as = sortItems bs) :
    List.Forall₂ (fun x y => ∃ a b, entry x = .ok a ∧ entry y = .ok b ∧ sortKeys a = sortKeys b) xs ys := by
  have hall := (mapM_ok_iff entry xs as).mp hx
  have hall' := (mapM_ok_iff entry ys bs).mp hy
  clear hx hy
  rw [sortItems_eq, sortItems_eq] at h
  induction hall generalizing ys bs with
  | nil =>
    obtain rfl := List.map_eq_nil_iff.mp h.symm
    cases hall'
    exact .nil
  | @cons x a xs as ha _ ih =>
    cases hall' with
    | nil => cases h
    | @cons y b ys bs hb hrest =>
      obtain ⟨hfirst, hothers⟩ := List.cons.inj h
      exact .cons ⟨a, b, ha, hb, hfirst⟩ (ih hothers hrest)

def stateNames : List Str := [txt "state_id", txt "description", txt "predicate_ltl"]

def sanctionNames : List Str := [txt "sanction_id", txt "description", txt "cost_to_actor_x1000",
  txt "cost_to_system_x1000", txt "enforcement_action", txt "tier", txt "fine_rate_x1000",
  txt "fine_floor_x1000", txt "duration_rounds"]

def pathNames : List Str := [txt "path_id", txt "description", txt "restorative_event_kinds",
  txt "target_legal_state_id", txt "restoration_kind", txt "condition"]

def transitionNames : List Str := [txt "edge_key", txt "rule_id", txt "from_state", txt "to_state",
  txt "triggered_by", txt "sanction_id", txt "restorative_path_id", txt "timing", txt "metadata"]

def regimeNames : List Str := [txt "schema_version", txt "graph_id", txt "version",
  txt "interpreter", txt "states", txt "transitions", txt "sanctions", txt "restorative_paths",
  txt "policy_surface", txt "policy_program", txt "contracts"]

def interpreterNames : List Str := [txt "name", txt "version"]

theorem names_nodup : ∀ names ∈ [stateNames, sanctionNames, pathNames, transitionNames, regimeNames,
    interpreterNames], names.Nodup := by
  decide

theorem stateEntry_inj {s r : LegalState} (h : sortKeys (stateEntry s) = sortKeys (stateEntry r)) : s = r := by
  have hvalues := values_of_sortKeys stateNames h rfl rfl (names_nodup _ (by simp))
  simp only [List.map_cons, List.map_nil, sortKeys, List.cons.injEq, JsonValue.str.injEq, and_true] at hvalues
  obtain ⟨hid, hdescription, hpredicate⟩ := hvalues
  cases s
  cases r
  simp_all

theorem perm_of_timingEntry {d e : Option (Dict Str ℤ)}
    (h : sortKeys (timingEntry d) = sortKeys (timingEntry e)) : (itemsOf d).Perm (itemsOf e) := by
  have hperm := perm_of_sortKeys h
  have hsorted : ∀ items : List (Str × ℤ), sortMembers (items.map fun m => (m.1, .int m.2)) =
      items.map fun m => (m.1, JsonValue.int m.2) := fun items => by
    rw [sortMembers_eq, List.map_map]
    rfl
  rw [hsorted, hsorted] at hperm
  have hinj : Function.Injective fun m : Str × ℤ => (m.1, JsonValue.int m.2) := by
    rintro ⟨k, z⟩ ⟨k', z'⟩ hsame
    obtain ⟨hk, hz⟩ := Prod.mk.inj hsame
    exact Prod.ext hk (JsonValue.int.inj hz)
  exact (List.map_perm_map_iff hinj).mp hperm

theorem sameSanction_of_entries {s r : Sanction} {a b : JsonValue}
    (hs : sanctionEntry thousandfold s = .ok a) (hr : sanctionEntry thousandfold r = .ok b)
    (h : sortKeys a = sortKeys b) : SameSanction thousandfold s r := by
  obtain ⟨costToActor, hactor, hs⟩ := Pipeline.bind_ok hs
  obtain ⟨costToSystem, hsystem, hs⟩ := Pipeline.bind_ok hs
  obtain ⟨fineRate, hrate, hs⟩ := Pipeline.bind_ok hs
  obtain ⟨fineFloor, hfloor, hs⟩ := Pipeline.bind_ok hs
  obtain ⟨costToActor', hactor', hr⟩ := Pipeline.bind_ok hr
  obtain ⟨costToSystem', hsystem', hr⟩ := Pipeline.bind_ok hr
  obtain ⟨fineRate', hrate', hr⟩ := Pipeline.bind_ok hr
  obtain ⟨fineFloor', hfloor', hr⟩ := Pipeline.bind_ok hr
  obtain rfl := Except.ok.inj hs
  obtain rfl := Except.ok.inj hr
  have hvalues := values_of_sortKeys sanctionNames h rfl rfl (names_nodup _ (by simp))
  simp only [List.map_cons, List.map_nil, sortKeys, List.cons.injEq, JsonValue.str.injEq,
    JsonValue.int.injEq, and_true] at hvalues
  obtain ⟨hid, hdescription, rfl, rfl, haction, htier, rfl, rfl, hduration⟩ := hvalues
  exact
    { sanctionId := hid
      description := hdescription
      costToActor := hactor.trans hactor'.symm
      costToSystem := hsystem.trans hsystem'.symm
      enforcementAction := haction
      tier := htier
      fineRate := hrate.trans hrate'.symm
      fineFloor := hfloor.trans hfloor'.symm
      durationRounds := hduration }

theorem samePath_of_entries {p q : RestorativePath} {a b : JsonValue}
    (hp : pathEntry thousandfold p = .ok a) (hq : pathEntry thousandfold q = .ok b)
    (h : sortKeys a = sortKeys b) : SamePath thousandfold p q := by
  obtain ⟨condition, hcondition, hp⟩ := Pipeline.bind_ok hp
  obtain ⟨condition', hcondition', hq⟩ := Pipeline.bind_ok hq
  obtain rfl := Except.ok.inj hp
  obtain rfl := Except.ok.inj hq
  have hvalues := values_of_sortKeys pathNames h rfl rfl (names_nodup _ (by simp))
  simp only [List.map_cons, List.map_nil, sortKeys, List.cons.injEq, JsonValue.str.injEq,
    JsonValue.arr.injEq, sortItems_eq, List.map_map, and_true] at hvalues
  obtain ⟨hid, hdescription, hkinds, htarget, hkind, hsame⟩ := hvalues
  have hinj : Function.Injective (sortKeys ∘ JsonValue.str) := fun _ _ => JsonValue.str.inj
  exact
    { pathId := hid
      description := hdescription
      restorativeEventKinds := List.map_injective_iff.mpr hinj hkinds
      targetLegalStateId := htarget
      restorationKind := hkind
      condition := sameMapping_of_sortKeys hcondition hcondition' hsame }

theorem eq_of_getD_nil {x y : Option Str} (hx : x ≠ some []) (hy : y ≠ some []) (h : x.getD [] = y.getD []) :
    x = y := by
  cases x with
  | none =>
    cases y with
    | none => rfl
    | some t => exact absurd (congrArg some h.symm) hy
  | some s =>
    cases y with
    | none => exact absurd (congrArg some h) hx
    | some t => exact congrArg some h

theorem sameTransition_of_entries {t u : LegalTransition} {a b : JsonValue} (hnamed : t.Named)
    (hnamed' : u.Named) (ht : transitionEntry thousandfold t = .ok a)
    (hu : transitionEntry thousandfold u = .ok b) (h : sortKeys a = sortKeys b) :
    SameTransition thousandfold t u := by
  obtain ⟨sanctionId, heffective, ht⟩ := Pipeline.bind_ok ht
  obtain ⟨sanctionId', heffective', hu⟩ := Pipeline.bind_ok hu
  have heffective := mapError_ok heffective
  have heffective' := mapError_ok heffective'
  obtain ⟨metadata, hmetadata, ht⟩ := Pipeline.bind_ok ht
  obtain ⟨metadata', hmetadata', hu⟩ := Pipeline.bind_ok hu
  obtain rfl := Except.ok.inj ht
  obtain rfl := Except.ok.inj hu
  have hvalues := values_of_sortKeys transitionNames h rfl rfl (names_nodup _ (by simp))
  simp only [List.map_cons, List.map_nil, sortKeys, List.cons.injEq, JsonValue.str.injEq, and_true] at hvalues
  obtain ⟨hkey, hrule, hfrom, hto, htrigger, hsanction, hrestorative, htiming, hsame⟩ := hvalues
  exact
    { edgeKey := hkey
      ruleId := hrule
      fromState := hfrom
      toState := hto
      triggeredBy := htrigger
      sanction := by
        have hne : sanctionId ≠ some [] := fun hnil => hnamed.1 (hnil ▸ heffective)
        have hne' : sanctionId' ≠ some [] := fun hnil => hnamed'.1 (hnil ▸ heffective')
        rw [heffective, heffective', eq_of_getD_nil hne hne' hsanction]
      restorativePath := eq_of_getD_nil hnamed.2 hnamed'.2 hrestorative
      timing := perm_of_timingEntry htiming
      metadata := sameMapping_of_sortKeys hmetadata hmetadata' hsame }

theorem sortKeys_of_canonicalJson {v w : JsonValue} {text : Str} (hv : canonicalJson v = .ok text)
    (hw : canonicalJson w = .ok text) : sortKeys v = sortKeys w := by
  obtain ⟨hfloats, hshort, hv⟩ := canonicalJson_ok hv
  obtain ⟨hfloats', hshort', hw⟩ := canonicalJson_ok hw
  exact sortKeys_of_dumps hfloats hfloats' hshort hshort' (hv.trans hw.symm)

theorem states_of_sortItems {xs ys : List LegalState}
    (h : sortItems (xs.map stateEntry) = sortItems (ys.map stateEntry)) : xs = ys := by
  rw [sortItems_eq, sortItems_eq, List.map_map, List.map_map] at h
  exact List.map_injective_iff.mpr (fun _ _ => stateEntry_inj) h

theorem sameTransitions {xs ys : List LegalTransition} (hx : ∀ t ∈ xs, t.Named) (hy : ∀ t ∈ ys, t.Named)
    (h : List.Forall₂ (fun t u => ∃ a b, transitionEntry thousandfold t = .ok a ∧
      transitionEntry thousandfold u = .ok b ∧ sortKeys a = sortKeys b) xs ys) :
    List.Forall₂ (SameTransition thousandfold) xs ys := by
  induction h with
  | nil => exact .nil
  | cons hfirst _ ih =>
    obtain ⟨hnamed, hx⟩ := List.forall_mem_cons.mp hx
    obtain ⟨hnamed', hy⟩ := List.forall_mem_cons.mp hy
    obtain ⟨a, b, ht, hu, hsorted⟩ := hfirst
    exact .cons (sameTransition_of_entries hnamed hnamed' ht hu hsorted) (ih hx hy)

theorem sameRegime_of_sortKeys {g h : GovernanceGraph} {a b : JsonValue} (hg : ∀ t ∈ g.transitions, t.Named)
    (hh : ∀ t ∈ h.transitions, t.Named) (ha : semanticDigestInput thousandfold g = .ok a)
    (hb : semanticDigestInput thousandfold h = .ok b) (hsame : sortKeys a = sortKeys b) :
    SameRegime thousandfold g h := by
  obtain ⟨transitions, htransitions, ha⟩ := Pipeline.bind_ok ha
  obtain ⟨sanctions, hsanctions, ha⟩ := Pipeline.bind_ok ha
  obtain ⟨paths, hpaths, ha⟩ := Pipeline.bind_ok ha
  obtain ⟨surface, hsurface, ha⟩ := Pipeline.bind_ok ha
  obtain ⟨program, hprogram, ha⟩ := Pipeline.bind_ok ha
  obtain ⟨contracts, hcontracts, ha⟩ := Pipeline.bind_ok ha
  obtain ⟨transitions', htransitions', hb⟩ := Pipeline.bind_ok hb
  obtain ⟨sanctions', hsanctions', hb⟩ := Pipeline.bind_ok hb
  obtain ⟨paths', hpaths', hb⟩ := Pipeline.bind_ok hb
  obtain ⟨surface', hsurface', hb⟩ := Pipeline.bind_ok hb
  obtain ⟨program', hprogram', hb⟩ := Pipeline.bind_ok hb
  obtain ⟨contracts', hcontracts', hb⟩ := Pipeline.bind_ok hb
  obtain rfl := Except.ok.inj ha
  obtain rfl := Except.ok.inj hb
  have hvalues := values_of_sortKeys regimeNames hsame rfl rfl (names_nodup _ (by simp))
  simp only [List.map_cons, List.map_nil, List.cons.injEq, and_true] at hvalues
  obtain ⟨hschema, hid, hversion, hinterpreter, hstates, hedges, hlevies, hroutes, hsurfaces, hprograms,
    hcontract⟩ := hvalues
  have hnames := values_of_sortKeys interpreterNames hinterpreter rfl rfl (names_nodup _ (by simp))
  simp only [List.map_cons, List.map_nil, sortKeys, List.cons.injEq, JsonValue.str.injEq, and_true] at hnames
  simp only [sortKeys, JsonValue.str.injEq, JsonValue.arr.injEq] at hschema hid hversion hstates hedges hlevies hroutes
  exact
    { schemaVersion := hschema
      graphId := hid
      version := hversion
      interpreterName := hnames.1
      interpreterVersion := hnames.2
      states := states_of_sortItems hstates
      transitions := sameTransitions hg hh (forall₂_of_sortItems htransitions htransitions' hedges)
      sanctions := by
        apply (forall₂_of_sortItems hsanctions hsanctions' hlevies).imp
        intro s r h
        obtain ⟨_, _, hs, hr, hsorted⟩ := h
        exact sameSanction_of_entries hs hr hsorted
      restorativePaths := by
        apply (forall₂_of_sortItems hpaths hpaths' hroutes).imp
        intro p q h
        obtain ⟨_, _, hp, hq, hsorted⟩ := h
        exact samePath_of_entries hp hq hsorted
      policySurface := sameMapping_of_sortKeys hsurface hsurface' hsurfaces
      policyProgram := sameMapping_of_sortKeys hprogram hprogram' hprograms
      contracts := sameMapping_of_sortKeys hcontracts hcontracts' hcontract }

/-- The bytes that the digest of a manifest is the hash of. -/
def digestedBytes (thousandfold : ℚ → Option ℚ) (g : GovernanceGraph) : Except Raised Bytes := do
  let content ← canonicalContent thousandfold g
  raising (utf8Encode content)

/-- Two manifests of one digest are of one regime, if their contents do not collide. -/
theorem same_regime_of_digest (thousandfold : ℚ → Option ℚ) (source source' g h : GovernanceGraph)
    (hg : source.load thousandfold = .ok g) (hh : source'.load thousandfold = .ok h)
    (hsha : Set.InjOn sha256 {bytes | digestedBytes thousandfold g = .ok bytes ∨
      digestedBytes thousandfold h = .ok bytes})
    (hdigest : g.manifestSemanticSha256 = h.manifestSemanticSha256) : SameRegime thousandfold g h := by
  have hg := loaded hg
  have hh := loaded hh
  obtain ⟨content, hcontent, hhash⟩ := Pipeline.bind_ok hg.digest
  obtain ⟨content', hcontent', hhash'⟩ := Pipeline.bind_ok hh.digest
  obtain ⟨bytes, hbytes, hhex⟩ := sha256Hex_ok hhash
  obtain ⟨bytes', hbytes', hhex'⟩ := sha256Hex_ok hhash'
  have hmem : digestedBytes thousandfold g = .ok bytes := by
    rw [digestedBytes, hcontent]
    exact congrArg raising hbytes
  have hmem' : digestedBytes thousandfold h = .ok bytes' := by
    rw [digestedBytes, hcontent']
    exact congrArg raising hbytes'
  have hsame : bytes = bytes' := by
    refine hsha (.inl hmem) (.inr hmem') (Sha256.Digest.ext_bytes _ _ (hex_inj _ _ ?_))
    rw [← hhex, ← hhex', hdigest]
  subst hsame
  obtain rfl : content = content' := utf8Encode_inj _ _ _ hbytes hbytes'
  obtain ⟨input, hinput, hcanonical⟩ := Pipeline.bind_ok hcontent
  obtain ⟨input', hinput', hcanonical'⟩ := Pipeline.bind_ok hcontent'
  exact sameRegime_of_sortKeys (fun _ => hg.named) (fun _ => hh.named) hinput hinput'
    (sortKeys_of_canonicalJson hcanonical hcanonical')

theorem load_of_digestedBytes {g : GovernanceGraph} {bytes : Bytes} {us vs : List Unit}
    (hsanctions : g.sanctions.mapM checkSanction = .ok us)
    (hpaths : g.restorativePaths.mapM checkPath = .ok vs) (htopology : validateTopology g = .ok ())
    (hbytes : digestedBytes thousandfold g = .ok bytes) :
    g.load thousandfold = .ok { g with manifestSemanticSha256 := hex (sha256 bytes).bytes } := by
  obtain ⟨content, hcontent, hencode⟩ := Pipeline.bind_ok hbytes
  have hdigest : semanticDigest thousandfold g = .ok (hex (sha256 bytes).bytes) := by
    rw [semanticDigest, hcontent]
    change (raising (utf8Encode content) >>= fun bytes => pure (hex (sha256 bytes).bytes)) = _
    rw [hencode]
    rfl
  unfold GovernanceGraph.load
  rw [hsanctions, hpaths, htopology, hdigest]
  rfl

end Coercion

/-- The product with 1000 of floats small enough to have it exactly. -/
def exactThousandfold (q : ℚ) : Option ℚ := some (q * 1000)

def noticeManifest (costToSystem : ℚ) (tier : Option ℤ) (limit : ManifestValue) : GovernanceGraph where
  graphId := txt "cournot"
  version := txt "1"
  states := [⟨txt "active", [], []⟩, ⟨txt "warning", [], []⟩]
  transitions := [
    { fromState := txt "active"
      toState := txt "warning"
      triggeredBy := txt "probable_violation"
      edgeKey := txt "P2:active->warning"
      ruleId := txt "P2"
      sanctionId := some (txt "notice")
      restorativePathId := none
      timing := none
      sanctionOnViolation := none
      preconditionLtl := []
      metadata := none }]
  sanctions := [
    { sanctionId := txt "notice"
      description := []
      costToActor := 0
      costToSystem
      enforcementAction := txt "warning"
      tier
      fineRate := none
      fineFloor := none
      durationRounds := none }]
  restorativePaths := []
  manifestSemanticSha256 := []
  schemaVersion := txt "v1"
  interpreterName := txt "tex.institutional.oracle_controller"
  interpreterVersion := txt "1.0.0"
  policySurface := some ⟨[(txt "limit", limit)], List.nodup_singleton _⟩
  policyProgram := none
  contracts := none

def wholeLimit : GovernanceGraph := noticeManifest 0 none (.int 500)

def halfLimit : GovernanceGraph := noticeManifest (1 / 4096) (some 0) (.float (1 / 2))

set_option maxRecDepth 4000 in
theorem one_content : canonicalContent exactThousandfold halfLimit =
      canonicalContent exactThousandfold wholeLimit ∧
    (digestedBytes exactThousandfold wholeLimit).isOk = true ∧
    (wholeLimit.sanctions.mapM checkSanction = .ok [()] ∧ validateTopology wholeLimit = .ok ()) ∧
    halfLimit.sanctions.mapM checkSanction = .ok [()] ∧ validateTopology halfLimit = .ok () := by
  with_unfolding_all decide

theorem one_digest : ∃ digest,
    wholeLimit.load exactThousandfold = .ok { wholeLimit with manifestSemanticSha256 := digest } ∧
    halfLimit.load exactThousandfold = .ok { halfLimit with manifestSemanticSha256 := digest } := by
  obtain ⟨hcontent, hok, ⟨hsanctions, htopology⟩, hsanctions', htopology'⟩ := one_content
  cases hbytes : digestedBytes exactThousandfold wholeLimit with
  | error e =>
    rw [hbytes] at hok
    cases hok
  | ok bytes =>
    have hbytes' : digestedBytes exactThousandfold halfLimit = .ok bytes := by
      rw [digestedBytes, hcontent]
      exact hbytes
    have hpaths : ([] : List RestorativePath).mapM checkPath = .ok [] := rfl
    exact ⟨hex (sha256 bytes).bytes,
      load_of_digestedBytes hsanctions hpaths htopology hbytes,
      load_of_digestedBytes hsanctions' hpaths htopology' hbytes'⟩

/-- Two manifests of one digest with other costs, other tiers and other limits. -/
theorem regime_changed_under_digest : ∃ g h,
    wholeLimit.load exactThousandfold = .ok g ∧ halfLimit.load exactThousandfold = .ok h ∧
    g.manifestSemanticSha256 = h.manifestSemanticSha256 ∧ g.sanctions ≠ h.sanctions ∧
    g.policySurface.map (fun d => d.items) ≠ h.policySurface.map fun d => d.items := by
  obtain ⟨digest, hwhole, hhalf⟩ := one_digest
  have hsanctions : wholeLimit.sanctions ≠ halfLimit.sanctions := fun hsame => by
    have htier := congrArg (fun sanctions => sanctions.map fun s => s.tier) hsame
    cases htier
  refine ⟨_, _, hwhole, hhalf, rfl, hsanctions, fun hsame => ?_⟩
  cases hsame

theorem same_regime_of_digest_sample : ∃ g h, wholeLimit.load exactThousandfold = .ok g ∧
    halfLimit.load exactThousandfold = .ok h ∧ SameRegime exactThousandfold g h := by
  obtain ⟨digest, hwhole, hhalf⟩ := one_digest
  have hbytes : digestedBytes exactThousandfold halfLimit = digestedBytes exactThousandfold wholeLimit := by
    rw [digestedBytes, one_content.1, digestedBytes]
  refine ⟨_, _, hwhole, hhalf, same_regime_of_digest _ _ _ _ _ hwhole hhalf ?_ rfl⟩
  rintro a ha b hb -
  have ha : digestedBytes exactThousandfold wholeLimit = .ok a := ha.elim id fun h => hbytes ▸ h
  have hb : digestedBytes exactThousandfold wholeLimit = .ok b := hb.elim id fun h => hbytes ▸ h
  exact Except.ok.inj (ha.symm.trans hb)

end TexGovernance.Institutional
