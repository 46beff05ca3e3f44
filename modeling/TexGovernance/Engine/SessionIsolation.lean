import TexGovernance.Engine.ContractFlags
import TexGovernance.Lib.Runs

/-!
# Isolation of sessions in the registry

While the sessions fit the capacity of their `SessionEnforcerRegistry`, it splits by session key:
an evaluation reads and writes the enforcer of its own key only.
-/

namespace TexGovernance.Engine
open PyStr PyDict Contracts KeyedRuns

def Call.sessionKey (call : Call) : Str :=
  SessionEnforcerRegistry.sessionKeyFor call.request.agentId call.request.sessionId

def noSession : Str := txt "_no_session"

/-- The two session ids of one agent that get the same key. -/
def SameAgentSentinel (p q : Option Uuid × Option Str) : Prop :=
  p.1 ≠ none ∧ p.1 = q.1 ∧
    ((p.2 = none ∧ q.2 = some noSession) ∨ (p.2 = some noSession ∧ q.2 = none))

theorem isUuidText_parts {s : Str} (h : isUuidText s = true) :
    s.length = 36 ∧ ∀ e ∈ s.zipIdx,
      (if e.2 ∈ [8, 13, 18, 23] then e.1 = cp '-' else isLowerHex e.1) := by
  unfold isUuidText at h
  rw [Bool.and_eq_true, decide_eq_true_eq, List.all_eq_true] at h
  refine ⟨h.1, fun e he => ?_⟩
  simpa using h.2 e he

theorem Uuid.length_text (id : Uuid) : id.text.length = 36 := (isUuidText_parts id.isUuidText).1

theorem Uuid.head_isLowerHex (id : Uuid) : ∃ c rest, id.text = c :: rest ∧ isLowerHex c = true := by
  have hparts := isUuidText_parts id.isUuidText
  cases htext : id.text with
  | nil =>
    rw [htext] at hparts
    exact absurd hparts.1 (by decide)
  | cons c rest =>
    rw [htext, List.zipIdx_cons] at hparts
    exact ⟨c, rest, rfl, hparts.2 (c, 0) (List.mem_cons_self ..)⟩

theorem Uuid.ext_text {id id' : Uuid} (h : id.text = id'.text) : id = id' := by
  obtain ⟨text, _⟩ := id
  obtain ⟨text', _⟩ := id'
  simp only at h
  subst h
  rfl

theorem uuid_ne_underscore (id : Uuid) (s t : Str) : id.text ++ s ≠ cp '_' :: t := by
  obtain ⟨c, rest, htext, hhex⟩ := id.head_isLowerHex
  rw [htext, List.cons_append]
  intro h
  rw [(List.cons.inj h).1] at hhex
  exact absurd hhex (by decide)

theorem sessionKeyFor_anonymous (s : Str) :
    SessionEnforcerRegistry.sessionKeyFor none (some s) = txt "_anonymous::" ++ s := rfl

theorem sessionKeyFor_agent (id : Uuid) (session : Option Str) :
    SessionEnforcerRegistry.sessionKeyFor (some id) session =
      id.text ++ (txt "::" ++ session.getD noSession) := by
  rw [← List.append_assoc]
  rfl

theorem sessionKeyFor_injective_iff (p q : Option Uuid × Option Str) :
    (p ≠ q → SessionEnforcerRegistry.sessionKeyFor p.1 p.2 ≠
      SessionEnforcerRegistry.sessionKeyFor q.1 q.2) ↔ ¬ SameAgentSentinel p q := by
  obtain ⟨agent, session⟩ := p
  obtain ⟨agent', session'⟩ := q
  constructor
  · rintro hdistinct ⟨hagent, hsame, hsessions⟩
    simp only at hagent hsame hsessions hdistinct
    subst hsame
    obtain ⟨id, rfl⟩ := Option.ne_none_iff_exists'.mp hagent
    rcases hsessions with ⟨rfl, rfl⟩ | ⟨rfl, rfl⟩
    · exact hdistinct (by simp) rfl
    · exact hdistinct (by simp) rfl
  · intro hno hne hkey
    simp only at hkey
    match agent, agent' with
    | none, none =>
      match session, session' with
      | none, none => exact hne rfl
      | none, some s =>
        rw [sessionKeyFor_anonymous] at hkey
        exact absurd (List.cons.inj (List.cons.inj hkey).2).1 (by decide)
      | some s, none =>
        rw [sessionKeyFor_anonymous] at hkey
        exact absurd (List.cons.inj (List.cons.inj hkey).2).1 (by decide)
      | some s, some s' =>
        rw [sessionKeyFor_anonymous, sessionKeyFor_anonymous] at hkey
        exact hne (by rw [List.append_cancel_left hkey])
    | some id, none =>
      rw [sessionKeyFor_agent] at hkey
      match session' with
      | none => exact uuid_ne_underscore id _ _ hkey
      | some s => exact uuid_ne_underscore id _ _ hkey
    | none, some id =>
      rw [sessionKeyFor_agent] at hkey
      match session with
      | none => exact uuid_ne_underscore id _ _ hkey.symm
      | some s => exact uuid_ne_underscore id _ _ hkey.symm
    | some id, some id' =>
      rw [sessionKeyFor_agent, sessionKeyFor_agent] at hkey
      obtain ⟨htext, hrest⟩ := List.append_inj hkey (by rw [id.length_text, id'.length_text])
      obtain rfl := Uuid.ext_text htext
      have hsession := List.append_cancel_left hrest
      match session, session' with
      | none, none => exact hne rfl
      | none, some s =>
        exact hno ⟨Option.some_ne_none _, rfl, .inl ⟨rfl, congrArg some hsession.symm⟩⟩
      | some s, none =>
        exact hno ⟨Option.some_ne_none _, rfl, .inr ⟨congrArg some hsession, rfl⟩⟩
      | some s, some s' => exact hne (by rw [show s = s' from hsession])

section Sessions

variable (compare : PyVal → Op → Option Str → Except PyErr Bool)
variable (repr : Str → Str) (format3 : ℚ → Str)

def sessionStep (contracts : List BehavioralContract) (session : Option LiveEnforcer)
    (call : Call) : Except PyErr ContractEvaluationOutcome × Option LiveEnforcer :=
  let run (live : LiveEnforcer) :=
    let (outcome, live) := checkRequest compare repr format3 live (checkOfRequest call.request none)
      (some call.sessionKey) 0
    (outcome, some live)
  match session with
  | some live => run live
  | none =>
    match ContractEnforcer.make contracts with
    | .error e => (.error e, none)
    | .ok enforcer => run ⟨enforcer, initialState⟩

def ServesKeys (contracts : List BehavioralContract) (capacity : ℕ) (keys : List Str) (b : Bridge) :
    Prop :=
  ∃ r, b.registry = some r ∧ r.contracts = contracts ∧ r.capacity = capacity ∧
    ∀ key, r.enforcers.get? key ≠ none → key ∈ keys

def sessionPart (b : Bridge) (key : Str) : Option LiveEnforcer :=
  b.registry.bind fun r => r.enforcers.get? key

def PlainCall (keys : List Str) (call : Call) : Prop :=
  call.actionLedger = none ∧ call.sessionKey ∈ keys

variable {compare repr format3}

theorem items_length_le {ν : Type} {d : Dict Str ν} {keys : List Str}
    (h : ∀ key, d.get? key ≠ none → key ∈ keys) : d.items.length ≤ keys.length := by
  have hsub : d.keys ⊆ keys := by
    intro key hkey
    apply h
    rw [ne_eq, Dict.get?_eq_none_iff, not_not]
    exact hkey
  have hle := (List.subperm_of_subset d.nodup hsub).length_le
  rw [List.length_map] at hle
  exact hle

variable (compare) in
theorem resolveSession_plain {r : SessionEnforcerRegistry} {call : Call}
    (hledger : call.actionLedger = none) :
    resolveSession compare r call = (r.getOrCreate call.sessionKey).map fun lr => (lr.1, 0, lr.2) := by
  unfold resolveSession
  rw [hledger]
  show (r.getOrCreate call.sessionKey >>= _) = _
  cases r.getOrCreate call.sessionKey with
  | error e => rfl
  | ok lr => rfl

theorem evict_nothing {r : SessionEnforcerRegistry} {key : Str} {live : LiveEnforcer}
    {primeState : Dict Str ReplayState} {keys : List Str} (hcapacity : keys.length ≤ r.capacity)
    (hkey : key ∈ keys) (hkeys : ∀ key, r.enforcers.get? key ≠ none → key ∈ keys) :
    SessionEnforcerRegistry.evict
        (({ r with enforcers := r.enforcers.set key live, primeState := primeState } :
          SessionEnforcerRegistry).enforcers.items.length - r.capacity)
        { r with enforcers := r.enforcers.set key live, primeState := primeState } =
      { r with enforcers := r.enforcers.set key live, primeState := primeState } := by
  have hle : (r.enforcers.set key live).items.length ≤ keys.length := by
    apply items_length_le
    intro key' hkey'
    rw [Dict.get?_set] at hkey'
    split at hkey'
    · rename_i heq
      rw [heq]
      exact hkey
    · exact hkeys key' hkey'
  have hzero : (r.enforcers.set key live).items.length - r.capacity = 0 := by omega
  simp only [hzero]
  rfl

variable (compare repr format3) in
theorem evaluate_session {b : Bridge} {r : SessionEnforcerRegistry} {keys : List Str} {call : Call}
    (hregistry : b.registry = some r) (hcapacity : keys.length ≤ r.capacity)
    (hkeys : ∀ key, r.enforcers.get? key ≠ none → key ∈ keys) (hcall : PlainCall keys call) :
    (evaluateContractsForRequest compare repr format3 b call).1 =
        (sessionStep compare repr format3 r.contracts (r.enforcers.get? call.sessionKey) call).1 ∧
      ∃ r', (evaluateContractsForRequest compare repr format3 b call).2.registry = some r' ∧
        r'.contracts = r.contracts ∧ r'.capacity = r.capacity ∧
        ∀ key, r'.enforcers.get? key = if key = call.sessionKey then
          (sessionStep compare repr format3 r.contracts (r.enforcers.get? call.sessionKey) call).2
          else r.enforcers.get? key := by
  have hresolve := resolveSession_plain compare (r := r) hcall.1
  have hname : SessionEnforcerRegistry.sessionKeyFor call.request.agentId call.request.sessionId =
      call.sessionKey := rfl
  unfold evaluateContractsForRequest sessionStep
  simp only [hregistry, hresolve, hname]
  unfold SessionEnforcerRegistry.getOrCreate
  cases hget : r.enforcers.get? call.sessionKey with
  | some live =>
    refine ⟨rfl, _, rfl, rfl, rfl, ?_⟩
    intro key
    simp only [SessionEnforcerRegistry.writeBack, Dict.get?_set, Dict.get?_moveToEnd]
  | none =>
    cases hmake : ContractEnforcer.make r.contracts with
    | error e =>
      refine ⟨rfl, r, hregistry, rfl, rfl, ?_⟩
      intro key
      split
      · rename_i heq
        rw [heq, hget]
      · rfl
    | ok enforcer =>
      simp only [bind, Except.bind, Except.map, evict_nothing hcapacity hcall.2 hkeys]
      refine ⟨trivial, _, rfl, rfl, rfl, ?_⟩
      intro key
      simp only [SessionEnforcerRegistry.writeBack, Dict.get?_set]
      split
      · rfl
      · rfl

theorem sessions_split {contracts : List BehavioralContract} {capacity : ℕ} {keys : List Str}
    (hcapacity : keys.length ≤ capacity) :
    Splits (evaluateContractsForRequest compare repr format3) Call.sessionKey
      (ServesKeys contracts capacity keys) (PlainCall keys) sessionPart
      (sessionStep compare repr format3 contracts) := by
  have hpart : ∀ {b : Bridge} {r : SessionEnforcerRegistry}, b.registry = some r →
      sessionPart b = r.enforcers.get? := by
    intro b r hregistry
    unfold sessionPart
    rw [hregistry]
    rfl
  constructor
  · rintro b call ⟨r, hregistry, rfl, rfl, hkeys⟩ hcall
    rw [hpart hregistry]
    exact (evaluate_session compare repr format3 hregistry hcapacity hkeys hcall).1
  · rintro b call ⟨r, hregistry, rfl, rfl, hkeys⟩ hcall
    obtain ⟨-, r', hregistry', -, -, hget⟩ :=
      evaluate_session compare repr format3 hregistry hcapacity hkeys hcall
    rw [hpart hregistry, hpart hregistry', hget, if_pos rfl]
  · rintro b call key ⟨r, hregistry, rfl, rfl, hkeys⟩ hcall hne
    obtain ⟨-, r', hregistry', -, -, hget⟩ :=
      evaluate_session compare repr format3 hregistry hcapacity hkeys hcall
    rw [hpart hregistry, hpart hregistry', hget, if_neg hne]
  · rintro b call ⟨r, hregistry, rfl, rfl, hkeys⟩ hcall
    obtain ⟨-, r', hregistry', hcontracts, hcap, hget⟩ :=
      evaluate_session compare repr format3 hregistry hcapacity hkeys hcall
    refine ⟨r', hregistry', hcontracts, hcap, ?_⟩
    intro key hkey
    rw [hget] at hkey
    split at hkey
    · rename_i heq
      rw [heq]
      exact hcall.2
    · exact hkeys key hkey

end Sessions

/-- However requests of several sessions are interleaved, as long as their
keys fit the capacity and there is no ledger to replay, each key receives the
outcomes that its requests get alone; and the keys tell all sessions apart but
one pair for every agent. -/
theorem sessions_isolated (compare : PyVal → Op → Option Str → Except PyErr Bool)
    (repr : Str → Str) (format3 : ℚ → Str) :
    (∀ (b : Bridge) (r : SessionEnforcerRegistry), b.registry = some r →
      r.enforcers = Dict.empty → ∀ calls : List Call,
      (∀ call ∈ calls, call.actionLedger = none) →
      (calls.map Call.sessionKey).dedup.length ≤ r.capacity → ∀ key,
      received key (outputs (evaluateContractsForRequest compare repr format3) Call.sessionKey b
          calls) =
        received key (outputs (evaluateContractsForRequest compare repr format3) Call.sessionKey b
          (inputsOf Call.sessionKey key calls))) ∧
    ∀ p q : Option Uuid × Option Str,
      (p ≠ q → SessionEnforcerRegistry.sessionKeyFor p.1 p.2 ≠
        SessionEnforcerRegistry.sessionKeyFor q.1 q.2) ↔ ¬ SameAgentSentinel p q := by
  refine ⟨?_, sessionKeyFor_injective_iff⟩
  intro b r hregistry hempty calls hplain hcapacity key
  have hserves : ServesKeys r.contracts r.capacity (calls.map Call.sessionKey).dedup b := by
    refine ⟨r, hregistry, rfl, rfl, ?_⟩
    intro key' hkey'
    rw [hempty] at hkey'
    exact absurd rfl hkey'
  apply received_isolated (sessions_split hcapacity) key hserves
  intro call hcall
  exact ⟨hplain call hcall, List.mem_dedup.mpr (List.mem_map_of_mem hcall)⟩

def twoSessions : Bridge :=
  ⟨none, some { tolerantRegistry with capacity := 2, capacity_pos := by decide }⟩

def otherSessionCall : Call :=
  { sampleCall with request := { sampleCall.request with
      sessionId := some (txt "s")
      sessionId_clean := by
        intro s hs
        rw [← Option.some.inj hs]
        exact ⟨by decide, by decide⟩ } }

theorem sessions_isolated_sample :
    received sampleCall.sessionKey (outputs
        (evaluateContractsForRequest noMatch quoted PyFloat.fixed3) Call.sessionKey twoSessions
        [sampleCall, otherSessionCall, sampleCall]) =
      received sampleCall.sessionKey (outputs
        (evaluateContractsForRequest noMatch quoted PyFloat.fixed3) Call.sessionKey twoSessions
        (inputsOf Call.sessionKey sampleCall.sessionKey
          [sampleCall, otherSessionCall, sampleCall])) := by
  apply (sessions_isolated noMatch quoted PyFloat.fixed3).1 twoSessions _ rfl rfl
  · simp [sampleCall, otherSessionCall]
  · decide

/-- An agent's requests without a session id and those with the id
`_no_session` share one enforcer. -/
theorem no_session_id_collides :
    ∃ p q : Option Uuid × Option Str, p ≠ q ∧ (∀ s, q.2 = some s → IsClean s) ∧
      SessionEnforcerRegistry.sessionKeyFor p.1 p.2 =
        SessionEnforcerRegistry.sessionKeyFor q.1 q.2 := by
  refine ⟨(some sampleCall.request.requestId, none),
    (some sampleCall.request.requestId, some noSession), by simp, ?_, rfl⟩
  intro s hs
  rw [← Option.some.inj hs]
  exact ⟨by decide, by decide⟩

end TexGovernance.Engine
