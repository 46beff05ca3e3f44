import TexGovernance.Engine.ContractBridge

/-!
# Keys of the session memory

`IfcEngine._session_key` joins the tenant, the agent and the session with bars and escapes none of
them.
-/

namespace TexGovernance.Ifc
open PyStr
open Engine (Uuid)

/-- `AgentRuntimeIdentity`, as far as the key reads it; the validator refuses
a blank tenant. -/
structure AgentRuntimeIdentity where
  agentId : Option Uuid
  externalAgentId : Option Str
  agentName : Option Str
  tenantId : Str
  tenantId_ne : tenantId ≠ []

structure KeyedRequest where
  sessionId : Option Str
  agentIdentity : Option AgentRuntimeIdentity

/-- A text that `if text` lets through. -/
def truthy (s : Option Str) : Option Str := s.filter (· ≠ [])

inductive AgentRef where
  | agentId (id : Uuid)
  | externalAgentId (id : Str)
  | agentName (name : Str)
  deriving DecidableEq

def AgentRef.text : AgentRef → Str
  | .agentId id => id.text
  | .externalAgentId id => id
  | .agentName name => name

def AgentRuntimeIdentity.agent (i : AgentRuntimeIdentity) : Option AgentRef :=
  match i.agentId with
  | some id => some (.agentId id)
  | none =>
    match truthy i.externalAgentId with
    | some id => some (.externalAgentId id)
    | none => (truthy i.agentName).map .agentName

namespace KeyedRequest

def parts (i : AgentRuntimeIdentity) (sessionId : Option Str) : List Str :=
  i.tenantId :: (i.agent.map AgentRef.text).toList ++ (truthy sessionId).toList

def bar : CodePoint := cp '|'

def sessionKey (r : KeyedRequest) : Str :=
  match r.agentIdentity with
  | none =>
    match truthy r.sessionId with
    | some s => txt "session:" ++ s
    | none => []
  | some i => [bar].intercalate (parts i r.sessionId)

/-- Tenant, agent and session of a request. -/
def triple (r : KeyedRequest) : Option (Str × Option AgentRef) × Option Str :=
  (r.agentIdentity.map fun i => (i.tenantId, i.agent), truthy r.sessionId)

def keyParts (r : KeyedRequest) : List Str :=
  match r.agentIdentity with
  | none => (truthy r.sessionId).toList.map (txt "session:" ++ ·)
  | some i => parts i r.sessionId

/-- The parts, each cut at its bars. -/
def pieces (r : KeyedRequest) : List Str := r.keyParts.flatMap (·.splitOn bar)

theorem sessionKey_eq (r : KeyedRequest) : r.sessionKey = [bar].intercalate r.keyParts := by
  unfold sessionKey keyParts
  cases r.agentIdentity with
  | some i => rfl
  | none =>
    cases truthy r.sessionId with
    | some s => simp
    | none => rfl

theorem splitOn_intercalate_parts (x : CodePoint) {texts : List Str} (h : texts ≠ []) :
    ([x].intercalate texts).splitOn x = texts.flatMap (·.splitOn x) := by
  induction texts with
  | nil => exact absurd rfl h
  | cons text texts ih =>
    cases texts with
    | nil => simp
    | cons next texts =>
      have hjoin : [x].intercalate (text :: next :: texts) =
          text ++ x :: [x].intercalate (next :: texts) := by simp
      rw [hjoin, List.splitOn_append_cons_self, ih (List.cons_ne_nil _ _)]
      simp only [List.flatMap_cons]

theorem keyParts_ne (r : KeyedRequest) : ∀ text ∈ r.keyParts.head?, text ≠ [] := by
  intro text htext
  unfold keyParts at htext
  cases hid : r.agentIdentity with
  | some i =>
    rw [hid] at htext
    rw [← Option.some.inj htext]
    exact i.tenantId_ne
  | none =>
    rw [hid] at htext
    cases hs : truthy r.sessionId with
    | none =>
      rw [hs] at htext
      cases htext
    | some s =>
      rw [hs] at htext
      rw [← Option.some.inj htext]
      exact List.cons_ne_nil _ _

theorem sessionKey_eq_nil_iff_keyParts (r : KeyedRequest) : r.sessionKey = [] ↔ r.keyParts = [] := by
  rw [sessionKey_eq]
  refine ⟨fun h => ?_, fun h => by rw [h]; rfl⟩
  cases hparts : r.keyParts with
  | nil => rfl
  | cons text texts =>
    have hne := keyParts_ne r text (by rw [hparts]; rfl)
    rw [hparts] at h
    cases texts with
    | nil =>
      rw [List.intercalate_singleton] at h
      exact absurd h hne
    | cons next texts =>
      have hjoin : [bar].intercalate (text :: next :: texts) =
          text ++ bar :: [bar].intercalate (next :: texts) := by simp
      rw [hjoin] at h
      exact absurd (List.append_eq_nil_iff.mp h).1 hne

theorem sessionKey_eq_nil_iff (r : KeyedRequest) :
    r.sessionKey = [] ↔ r.agentIdentity = none ∧ truthy r.sessionId = none := by
  rw [sessionKey_eq_nil_iff_keyParts]
  unfold keyParts
  cases r.agentIdentity with
  | some i => simp [parts]
  | none =>
    cases truthy r.sessionId with
    | some s => simp
    | none => simp

theorem pieces_eq (r : KeyedRequest) :
    r.pieces = if r.sessionKey = [] then [] else r.sessionKey.splitOn bar := by
  split
  · rename_i hnil
    unfold pieces
    rw [(sessionKey_eq_nil_iff_keyParts r).mp hnil]
    rfl
  · rename_i hne
    rw [sessionKey_eq, splitOn_intercalate_parts bar fun hnil =>
      hne ((sessionKey_eq_nil_iff_keyParts r).mpr hnil)]
    rfl

theorem sessionKey_eq_iff (r r' : KeyedRequest) :
    r.sessionKey = r'.sessionKey ↔ r.pieces = r'.pieces := by
  refine ⟨fun h => by rw [pieces_eq, pieces_eq, h], fun h => ?_⟩
  have hback : ∀ s : KeyedRequest, [bar].intercalate s.pieces = s.sessionKey := by
    intro s
    rw [pieces_eq]
    split
    · rename_i hnil
      rw [hnil]
      rfl
    · exact List.intercalate_splitOn bar
  rw [← hback r, ← hback r', h]

theorem pieces_of_no_bar {r : KeyedRequest} (h : ∀ text ∈ r.keyParts, bar ∉ text) :
    r.pieces = r.keyParts := by
  unfold pieces
  have hone : ∀ text ∈ r.keyParts, text.splitOn bar = [text] := fun text htext =>
    List.splitOn_eq_singleton (h text htext)
  rw [List.flatMap_congr hone]
  simp

/-- The keys of two requests tell their triples apart just when the pieces do;
where no part has a bar, the pieces are the parts. -/
theorem session_key_separates_iff (r r' : KeyedRequest) :
    (((r.triple ≠ r'.triple → r.sessionKey ≠ r'.sessionKey) ∧
        (r.sessionKey = [] ↔ r.agentIdentity = none ∧ truthy r.sessionId = none)) ↔
      (r.triple ≠ r'.triple → r.pieces ≠ r'.pieces)) ∧
    ((∀ text ∈ r.keyParts, bar ∉ text) → r.pieces = r.keyParts) := by
  refine ⟨?_, pieces_of_no_bar⟩
  rw [ne_eq, ne_eq, ne_eq, sessionKey_eq_iff]
  exact and_iff_left (sessionKey_eq_nil_iff r)

def botOfAcme : KeyedRequest :=
  ⟨some (txt "s1"), some ⟨none, some (txt "bot"), none, txt "acme", by decide⟩⟩

def agentOfSubtenant : KeyedRequest :=
  ⟨none, some ⟨none, some (txt "s1"), none, txt "acme|bot", by decide⟩⟩

theorem session_key_separates_sample :
    (∀ text ∈ botOfAcme.keyParts, bar ∉ text) ∧ botOfAcme.pieces = botOfAcme.keyParts := by
  have h : ∀ text ∈ botOfAcme.keyParts, bar ∉ text := by decide
  exact ⟨h, (session_key_separates_iff botOfAcme agentOfSubtenant).2 h⟩

/-- Another tenant, another agent, no session: the same key. -/
theorem tenants_share_session_key :
    botOfAcme.triple ≠ agentOfSubtenant.triple ∧ botOfAcme.sessionKey = agentOfSubtenant.sessionKey ∧
      botOfAcme.sessionKey = txt "acme|bot|s1" := by
  decide

end KeyedRequest

end TexGovernance.Ifc
