import TexGovernance.Camel.Interpreter

/-!
# Two runs of one plan

Two fresh interpreters with the same policies, tools and quarantined model run one plan over two
untrusted environments that agree on what the user said. Their states stay related node by node.
-/

namespace TexGovernance.Camel
open PyStr PyDict PyJson PyRepr TwoRun

def capLabels : Labels CapabilitySet where
  empty := .empty
  join := .join
  visible c := c.level ≠ .untrusted
  visible_join a b h := by
    rw [← CapabilityLevel.le_user_iff, CapabilitySet.level_join_le_iff] at h
    exact ⟨(CapabilityLevel.le_user_iff _).mp h.1, (CapabilityLevel.le_user_iff _).mp h.2⟩

abbrev CapEq {Obj : Type} (v w : CapValue Obj) : Prop := LowEq CapValue.caps CapValue.value capLabels v w

/-- A key of the untrusted environment that `Read("user", ..)` can look up. -/
def OfSourceUser (k : Str) : Prop := k = txt "user" ∨ txt "user:" <+: k

structure EnvAgree (e f : Dict Str Str) : Prop where
  keys : ∀ k, k ∈ e.keys ↔ k ∈ f.keys
  user : ∀ k, OfSourceUser k → e.get? k = f.get? k

def RawTools {Obj : Type} (impls : Dict Str (ToolFn Obj)) : Prop :=
  ∀ tool impl, impls.get? tool = some impl → ∀ args, ∃ v, impl args = .raw v

/-- Every tool returns raw values that `str` can render. -/
def TextTools {Obj : Type} (tupleText : List Obj → Except PyErr Str)
    (impls : Dict Str (ToolFn Obj)) : Prop :=
  ∀ tool impl, impls.get? tool = some impl →
    ∀ args, ∃ v text, impl args = .raw v ∧ inputText tupleText v = .ok text

section Relation

variable {Obj : Type} (tupleText : List Obj → Except PyErr Str)

/-- `str` succeeds on both values or fails in the same way. -/
def SameRendering (v w : CapValue Obj) : Prop :=
  OutcomeRel (fun _ _ => True) (inputText tupleText v.value) (inputText tupleText w.value)

def ValueRel (v w : CapValue Obj) : Prop := CapEq v w ∧ SameRendering tupleText v w

structure CallRel (c d : ToolCall Obj) : Prop where
  tool : c.tool = d.tool
  policy : c.policy = d.policy
  args : List.Forall₂ CapEq c.args d.args
  passed : List.Forall₂ (fun caps maxLevel => caps.level ≤ maxLevel) (c.args.map CapValue.caps)
    c.policy.maxArgLevels

structure StateRel (s t : RunState Obj) : Prop where
  env : DictRel (ValueRel tupleText) s.env t.env
  calls : List.Forall₂ CallRel s.calls t.calls
  entries : s.entries = t.entries
  finalValue : Option.Rel CapEq s.finalValue t.finalValue
  halted : s.halted = t.halted
  haltReason : s.haltReason = t.haltReason

theorem stateRel_start : StateRel tupleText (RunState.start : RunState Obj) .start :=
  ⟨dictRel_empty, .nil, rfl, .none, rfl, rfl⟩

end Relation

variable {Obj : Type} {tupleText : List Obj → Except PyErr Str}

theorem valueRel_of_eq {v w : CapValue Obj} (h : v = w) : ValueRel tupleText v w := by
  subst h
  exact ⟨lowEq_of_eq rfl, (OutcomeRel.of_eq rfl).mono fun _ _ _ => trivial⟩

theorem capValue_ext (v w : CapValue Obj) (hcaps : v.caps = w.caps) (hvalue : v.value = w.value) :
    v = w := by
  cases v
  cases w
  cases hcaps
  cases hvalue
  rfl

theorem capEq_derived {args args' : List (CapValue Obj)} (h : List.Forall₂ CapEq args args')
    (f : List (CapValue Obj) → RawValue Obj) :
    CapEq (CapValue.derived (f args) args) (CapValue.derived (f args') args') :=
  lowEq_derived capValue_ext h f rfl rfl rfl rfl

theorem capEq_of_valueRel {vs ws : List (CapValue Obj)}
    (h : List.Forall₂ (ValueRel tupleText) vs ws) : List.Forall₂ CapEq vs ws :=
  h.imp fun _ _ hvw => hvw.1

theorem map_caps_eq {vs ws : List (CapValue Obj)} (h : List.Forall₂ CapEq vs ws) :
    vs.map CapValue.caps = ws.map CapValue.caps := by
  induction h with
  | nil => rfl
  | cons hvw _ ih => rw [List.map_cons, List.map_cons, hvw.1, ih]

theorem entryFor_eq {v w : CapValue Obj} (h : CapEq v w) (i : ℕ) (op : Str)
    (target note : Option Str) : entryFor i op target note v = entryFor i op target note w := by
  unfold entryFor CapValue.level
  rw [h.1]

theorem readKey_user (key : Option Str) : OfSourceUser (readKey (txt "user") key) := by
  unfold readKey
  cases key with
  | none => exact .inl rfl
  | some k =>
    simp only
    split
    · exact .inl rfl
    · refine .inr ⟨k, ?_⟩
      rfl

theorem EnvAgree.isSome_eq {e f : Dict Str Str} (h : EnvAgree e f) (k : Str) :
    (e.get? k).isSome = (f.get? k).isSome := by
  have he := Dict.get?_eq_none_iff e k
  have hf := Dict.get?_eq_none_iff f k
  rw [h.keys k, ← hf] at he
  cases hek : e.get? k with
  | none =>
    rw [he.mp hek]
  | some v =>
    cases hfk : f.get? k with
    | none =>
      rw [he.mpr hfk] at hek
      cases hek
    | some w => rfl

theorem EnvAgree.readRaw_isSome {e f : Dict Str Str} (h : EnvAgree e f) (source : Str)
    (key : Option Str) : (readRaw e source key).isSome = (readRaw f source key).isSome := by
  have hkey := h.isSome_eq (readKey source key)
  have hsource := h.isSome_eq source
  unfold readRaw
  cases he : e.get? (readKey source key) with
  | some v =>
    cases hf : f.get? (readKey source key) with
    | some w => rfl
    | none =>
      rw [he, hf] at hkey
      cases hkey
  | none =>
    cases hf : f.get? (readKey source key) with
    | some w =>
      rw [he, hf] at hkey
      cases hkey
    | none =>
      simp only
      split
      · exact hsource
      · rfl

theorem EnvAgree.readRaw_user {e f : Dict Str Str} (h : EnvAgree e f) (key : Option Str) :
    readRaw e (txt "user") key = readRaw f (txt "user") key := by
  unfold readRaw
  rw [h.user _ (readKey_user key), h.user _ (.inl rfl)]

theorem EnvAgree.setdefaultPrompt {e f : Dict Str Str} (h : EnvAgree e f) (p q : Str) :
    EnvAgree (setdefaultPrompt e p) (setdefaultPrompt f q) := by
  have hprompt := h.isSome_eq (txt "user_prompt")
  have hother : ∀ k, OfSourceUser k → k ≠ txt "user_prompt" := by
    intro k hk heq
    subst heq
    rcases hk with hk | hk
    · exact absurd hk (by decide)
    · exact absurd hk (by decide)
  unfold Camel.setdefaultPrompt
  cases he : e.get? (txt "user_prompt") with
  | some v =>
    cases hf : f.get? (txt "user_prompt") with
    | some w => exact h
    | none =>
      rw [he, hf] at hprompt
      cases hprompt
  | none =>
    cases hf : f.get? (txt "user_prompt") with
    | some w =>
      rw [he, hf] at hprompt
      cases hprompt
    | none =>
      refine ⟨fun k => ?_, fun k hk => ?_⟩
      · rw [Dict.mem_keys_set, Dict.mem_keys_set, h.keys k]
      · rw [Dict.get?_set, Dict.get?_set, if_neg (hother k hk), if_neg (hother k hk)]
        exact h.user k hk

structure Twins (tupleText : List Obj → Except PyErr Str) (c d : CamelInterpreter Obj) : Prop where
  toolPolicies : c.toolPolicies = d.toolPolicies
  toolImpls : c.toolImpls = d.toolImpls
  qLlm : c.qLlm = d.qLlm
  untrustedEnv : EnvAgree c.untrustedEnv d.untrustedEnv
  textTools : TextTools tupleText c.toolImpls

section Nodes

variable (repr : Str → Str) {c d : CamelInterpreter Obj} {s t : RunState Obj}

theorem evalExpr_rel {e f : Dict Str Str} {env env' : Dict Str (CapValue Obj)} (hread : EnvAgree e f)
    (henv : DictRel (ValueRel tupleText) env env') (expr : Expr) :
    OutcomeRel (ValueRel tupleText) (evalExpr repr e env expr) (evalExpr repr f env' expr) := by
  cases expr with
  | literal l => exact .ok (valueRel_of_eq rfl)
  | var name =>
    have hname := henv name.text
    simp only [evalExpr]
    generalize env.get? name.text = x at hname ⊢
    generalize env'.get? name.text = y at hname ⊢
    cases hname with
    | none => exact .error _
    | some hvw => exact .ok hvw
  | read source key =>
    simp only [evalExpr]
    by_cases huser : source.text = txt "user"
    · have hraw := hread.readRaw_user key.text
      rw [← huser] at hraw
      rw [hraw]
      refine (OutcomeRel.of_eq rfl).mono fun v w hvw => ?_
      exact valueRel_of_eq hvw
    · have hsome := hread.readRaw_isSome source.text key.text
      simp only [if_neg huser]
      cases he : readRaw e source.text key.text with
      | none =>
        cases hf : readRaw f source.text key.text with
        | none => exact .error _
        | some w =>
          rw [he, hf] at hsome
          cases hsome
      | some v =>
        cases hf : readRaw f source.text key.text with
        | none =>
          rw [he, hf] at hsome
          cases hsome
        | some w => exact .ok ⟨⟨rfl, fun hvisible => absurd rfl hvisible⟩, .ok trivial⟩

theorem wrapResult_rel {impl : ToolFn Obj} {args args' : List (CapValue Obj)}
    (htext : ∀ args, ∃ v text, impl args = .raw v ∧ inputText tupleText v = .ok text)
    (hargs : List.Forall₂ CapEq args args') :
    ValueRel tupleText (wrapResult (impl args) args) (wrapResult (impl args') args') := by
  choose value text hraw hrender using htext
  simp only [hraw, wrapResult]
  refine ⟨capEq_derived hargs value, ?_⟩
  unfold SameRendering CapValue.derived
  rw [hrender, hrender]
  exact .ok trivial

theorem callTool_rel (h : Twins tupleText c d) (hst : StateRel tupleText s t) (i : ℕ) (tool : Str)
    (resultVar : Option Str) {args args' : List (CapValue Obj)}
    (hargs : List.Forall₂ CapEq args args') :
    StateRel tupleText (callTool repr c i tool resultVar args s).1
        (callTool repr d i tool resultVar args' t).1 ∧
      (callTool repr c i tool resultVar args s).2 = (callTool repr d i tool resultVar args' t).2 := by
  have hpolicy : c.toolPolicies.policyFor tool args.length =
      d.toolPolicies.policyFor tool args'.length := by rw [h.toolPolicies, hargs.length_eq]
  unfold callTool
  simp only
  rw [← hpolicy, ← map_caps_eq hargs, ← h.toolImpls]
  cases hcheck : (c.toolPolicies.policyFor tool args.length).check repr (args.map CapValue.caps) with
  | error reason => exact ⟨hst, rfl⟩
  | ok _ =>
    cases himpl : c.toolImpls.get? tool with
    | none => exact ⟨hst, rfl⟩
    | some impl =>
      have hresult := wrapResult_rel (h.textTools tool impl himpl) hargs
      simp only
      refine ⟨⟨?_, ?_, hst.entries, hst.finalValue, hst.halted, hst.haltReason⟩, ?_⟩
      · cases resultVar with
        | none => exact hst.env
        | some name => exact hst.env.set name hresult
      · refine List.rel_append hst.calls (.cons ?_ .nil)
        exact ⟨rfl, rfl, hargs, ToolPolicy.check_ok repr hcheck⟩
      · exact entryFor_eq hresult.1 _ _ _ _

theorem qllmInput_rel (h : Twins tupleText c d) {env env' : Dict Str (CapValue Obj)}
    (henv : DictRel (ValueRel tupleText) env env') (ref : FieldText 64) :
    OutcomeRel (fun a b => CapEq a.1 b.1 ∧ inputText tupleText a.1.value = .ok a.2 ∧
        inputText tupleText b.1.value = .ok b.2)
      (qllmInput repr tupleText c env ref) (qllmInput repr tupleText d env' ref) := by
  unfold qllmInput
  refine (evalExpr_rel repr h.untrustedEnv henv (.var ref)).bind fun v w hvw => ?_
  have hrender := hvw.2
  unfold SameRendering at hrender
  cases hv : inputText tupleText v.value with
  | error e =>
    rw [hv] at hrender
    cases hw : inputText tupleText w.value with
    | error e' =>
      rw [hw] at hrender
      cases hrender
      exact .error _
    | ok b =>
      rw [hw] at hrender
      cases hrender
  | ok a =>
    rw [hv] at hrender
    cases hw : inputText tupleText w.value with
    | error e' =>
      rw [hw] at hrender
      cases hrender
    | ok b => exact .ok ⟨hvw.1, hv, hw⟩

def textOf (tupleText : List Obj → Except PyErr Str) (v : CapValue Obj) : Str :=
  match inputText tupleText v.value with
  | .ok text => text
  | .error _ => []

theorem textOf_eq {v : CapValue Obj} {text : Str} (h : inputText tupleText v.value = .ok text) :
    textOf tupleText v = text := by
  unfold textOf
  rw [h]

theorem qllmInputs_split {read read' : List (CapValue Obj × Str)}
    (h : List.Forall₂ (fun a b => CapEq a.1 b.1 ∧ inputText tupleText a.1.value = .ok a.2 ∧
      inputText tupleText b.1.value = .ok b.2) read read') :
    List.Forall₂ CapEq (read.map Prod.fst) (read'.map Prod.fst) ∧
      read.map Prod.snd = (read.map Prod.fst).map (textOf tupleText) ∧
      read'.map Prod.snd = (read'.map Prod.fst).map (textOf tupleText) := by
  induction h with
  | nil => exact ⟨.nil, rfl, rfl⟩
  | cons hab _ ih =>
    obtain ⟨hrel, htexts, htexts'⟩ := ih
    refine ⟨.cons hab.1 hrel, ?_, ?_⟩
    · rw [List.map_cons, htexts, List.map_cons, List.map_cons, textOf_eq hab.2.1]
    · rw [List.map_cons, htexts', List.map_cons, List.map_cons, textOf_eq hab.2.2]

theorem step_rel (h : Twins tupleText c d) (hst : StateRel tupleText s t) (i : ℕ) (node : PlanNode) :
    StateRel tupleText (step repr tupleText c i node s).1 (step repr tupleText d i node t).1 ∧
      OutcomeRel (fun a b => Option.Rel CapEq a.1 b.1 ∧ a.2 = b.2)
        (step repr tupleText c i node s).2 (step repr tupleText d i node t).2 := by
  cases node with
  | assign name expr =>
    have hexpr := evalExpr_rel repr h.untrustedEnv hst.env expr
    simp only [step]
    generalize evalExpr repr c.untrustedEnv s.env expr = x at hexpr ⊢
    generalize evalExpr repr d.untrustedEnv t.env expr = y at hexpr ⊢
    cases hexpr with
    | error e => exact ⟨hst, .error e⟩
    | ok hvw =>
      refine ⟨⟨hst.env.set name.text hvw, hst.calls, hst.entries, hst.finalValue, hst.halted,
        hst.haltReason⟩, ?_⟩
      have hentry := entryFor_eq hvw.1 i (txt "Assign") (some name.text) none
      simp only
      refine (OutcomeRel.of_eq hentry).map fun a b hab => ?_
      exact ⟨.none, hab⟩
  | call tool args resultVar =>
    have hargs := OutcomeRel.mapM (evalExpr_rel repr h.untrustedEnv hst.env) args
    simp only [step]
    generalize args.mapM (evalExpr repr c.untrustedEnv s.env) = x at hargs ⊢
    generalize args.mapM (evalExpr repr d.untrustedEnv t.env) = y at hargs ⊢
    cases hargs with
    | error e => exact ⟨hst, .error e⟩
    | ok hvalues =>
      obtain ⟨hstate, hentry⟩ := callTool_rel repr h hst i tool.text resultVar.text
        (capEq_of_valueRel hvalues)
      refine ⟨hstate, (OutcomeRel.of_eq hentry).map fun a b hab => ?_⟩
      exact ⟨.none, hab⟩
  | qllm query inputs resultVar =>
    have hinputs := OutcomeRel.mapM (qllmInput_rel repr h hst.env) inputs
    simp only [step]
    generalize inputs.mapM (qllmInput repr tupleText c s.env) = x at hinputs ⊢
    generalize inputs.mapM (qllmInput repr tupleText d t.env) = y at hinputs ⊢
    cases hinputs with
    | error e => exact ⟨hst, .error e⟩
    | ok hread =>
      obtain ⟨hvalues, htexts, htexts'⟩ := qllmInputs_split hread
      -- the answer is a function of the tagged inputs
      have hanswer := capEq_derived hvalues fun vs =>
        .str (c.qLlm query.text (vs.map (textOf tupleText)))
      rw [← htexts, ← htexts', h.qLlm] at hanswer
      simp only [h.qLlm]
      refine ⟨⟨hst.env.set resultVar.text ⟨hanswer, .ok trivial⟩, hst.calls, hst.entries,
        hst.finalValue, hst.halted, hst.haltReason⟩, ?_⟩
      have hentry := entryFor_eq hanswer i (txt "QLLM") (some resultVar.text)
        (some (txt "query_len=" ++ natText query.text.length))
      refine (OutcomeRel.of_eq hentry).map fun a b hab => ?_
      exact ⟨.none, hab⟩
  | return_ expr =>
    have hexpr := evalExpr_rel repr h.untrustedEnv hst.env expr
    simp only [step]
    generalize evalExpr repr c.untrustedEnv s.env expr = x at hexpr ⊢
    generalize evalExpr repr d.untrustedEnv t.env expr = y at hexpr ⊢
    cases hexpr with
    | error e => exact ⟨hst, .error e⟩
    | ok hvw =>
      have hentry := entryFor_eq hvw.1 i (txt "Return") none none
      simp only
      refine ⟨hst, (OutcomeRel.of_eq hentry).map fun a b hab => ?_⟩
      exact ⟨.some hvw.1, hab⟩

theorem runNodes_rel (h : Twins tupleText c d) (i : ℕ) (nodes : List PlanNode)
    (hst : StateRel tupleText s t) :
    StateRel tupleText (runNodes repr tupleText c i nodes s).1
        (runNodes repr tupleText d i nodes t).1 ∧
      (runNodes repr tupleText c i nodes s).2 = (runNodes repr tupleText d i nodes t).2 := by
  induction nodes generalizing i s t with
  | nil => exact ⟨hst, rfl⟩
  | cons node rest ih =>
    obtain ⟨hstep, hout⟩ := step_rel repr h hst i node
    simp only [runNodes]
    generalize step repr tupleText c i node s = x at hstep hout ⊢
    generalize step repr tupleText d i node t = y at hstep hout ⊢
    obtain ⟨s', x⟩ := x
    obtain ⟨t', y⟩ := y
    cases hout with
    | error e =>
      cases e with
      | python e => exact ⟨hstep, rfl⟩
      | interpreter message =>
        simp only
        cases haltEntry i node message with
        | error e => exact ⟨hstep, rfl⟩
        | ok entry =>
          refine ⟨⟨hstep.env, hstep.calls, ?_, .some (lowEq_of_eq rfl), rfl, rfl⟩, rfl⟩
          simp only
          rw [hstep.entries]
    | @ok a b hab =>
      have hentries : s'.entries ++ [a.2] = t'.entries ++ [b.2] := by rw [hstep.entries, hab.2]
      have hstate : StateRel tupleText
          { s' with finalValue := a.1, entries := s'.entries ++ [a.2] }
          { t' with finalValue := b.1, entries := t'.entries ++ [b.2] } :=
        ⟨hstep.env, hstep.calls, hentries, hab.1, hstep.halted, hstep.haltReason⟩
      simp only
      split
      · exact ⟨hstate, rfl⟩
      · exact ih (i + 1) hstate

theorem execute_rel (h : Twins tupleText c d) (plan : Plan) (p q : Str) :
    StateRel tupleText (c.execute repr tupleText plan p).1 (d.execute repr tupleText plan q).1 ∧
      (c.execute repr tupleText plan p).2 = (d.execute repr tupleText plan q).2 := by
  have htwins : Twins tupleText
      { c with untrustedEnv := setdefaultPrompt c.untrustedEnv p }
      { d with untrustedEnv := setdefaultPrompt d.untrustedEnv q } :=
    ⟨h.toolPolicies, h.toolImpls, h.qLlm, h.untrustedEnv.setdefaultPrompt p q, h.textTools⟩
  exact runNodes_rel repr htwins 0 plan.nodes (stateRel_start tupleText)

theorem finalValue_caps (hst : StateRel tupleText s t) :
    (s.finalValue.getD ⟨.none, .empty⟩).caps = (t.finalValue.getD ⟨.none, .empty⟩).caps := by
  have hfinal := hst.finalValue
  generalize s.finalValue = x at hfinal ⊢
  generalize t.finalValue = y at hfinal ⊢
  cases hfinal with
  | none => rfl
  | some hvw => exact hvw.1

theorem run_trace_eq (h : Twins tupleText c d) (plan : Plan) (p q : Str) :
    (c.run repr tupleText plan p).map Prod.snd = (d.run repr tupleText plan q).map Prod.snd := by
  obtain ⟨hst, hout⟩ := execute_rel repr h plan p q
  unfold CamelInterpreter.run
  cases plan.validateStructure with
  | error text => rfl
  | ok _ =>
    simp only
    rw [← hout, CapValue.level, CapValue.level, ← finalValue_caps hst, ← hst.entries, ← hst.halted,
      ← hst.haltReason]
    cases (c.execute repr tupleText plan p).2 with
    | error e => rfl
    | ok _ =>
      generalize ExecutionTrace.make _ = trace
      cases trace with
      | error e => rfl
      | ok _ => rfl

theorem CallRel.arg_eq {a b : ToolCall Obj} (h : CallRel a b) {i : ℕ} {maxLevel : CapabilityLevel}
    (hi : a.policy.maxArgLevels[i]? = some maxLevel) (hmax : maxLevel ≤ .user) :
    ∃ v, a.args[i]? = some v ∧ b.args[i]? = some v := by
  obtain ⟨hlt, rfl⟩ := List.getElem?_eq_some_iff.mp hi
  have hlen := h.passed.length_eq
  rw [List.length_map] at hlen
  have hlt' : i < a.args.length := by omega
  have hpassed := h.passed.get (by rw [List.length_map]; exact hlt') hlt
  have hargs := h.args.get hlt' (by rw [← h.args.length_eq]; exact hlt')
  simp only [List.get_eq_getElem, List.getElem_map] at hpassed hargs
  have hvisible := (CapabilityLevel.le_user_iff _).mp (hpassed.trans hmax)
  have heq := capValue_ext _ _ hargs.1 (hargs.2 hvisible)
  exact ⟨a.args[i], List.getElem?_eq_getElem hlt', by rw [List.getElem?_eq_getElem, heq]⟩

end Nodes

/-- Noninterference of the whole interpreter: the trace, what is not UNTRUSTED
and every argument that a policy holds to USER are the same in both runs. -/
theorem run_noninterference (repr : Str → Str) (tupleText : List Obj → Except PyErr Str)
    (policies : ToolPolicyRegistry) (impls : Dict Str (ToolFn Obj)) (qLlm : Option QuarantinedLLM)
    (e f : Dict Str Str) (c d : CamelInterpreter Obj) (plan : Plan) (p q : Str)
    (hc : CamelInterpreter.make policies impls qLlm e = .ok c)
    (hd : CamelInterpreter.make policies impls qLlm f = .ok d)
    (htools : TextTools tupleText impls) (henv : EnvAgree e f) :
    (c.run repr tupleText plan p).map Prod.snd = (d.run repr tupleText plan q).map Prod.snd ∧
      (∀ name, Option.Rel (fun v w => v.caps = w.caps ∧ (v.level ≠ .untrusted → v.value = w.value))
        ((c.execute repr tupleText plan p).1.env.get? name)
        ((d.execute repr tupleText plan q).1.env.get? name)) ∧
      List.Forall₂ (fun a b => a.tool = b.tool ∧ a.policy = b.policy ∧
          ∀ (i : ℕ) (maxLevel : CapabilityLevel), a.policy.maxArgLevels[i]? = some maxLevel →
            maxLevel ≤ .user → ∃ v, a.args[i]? = some v ∧ b.args[i]? = some v)
        (c.execute repr tupleText plan p).1.calls (d.execute repr tupleText plan q).1.calls := by
  have htwins : Twins tupleText c d := by
    unfold CamelInterpreter.make at hc hd
    by_cases hfrozen : policies.isFrozen = true
    · rw [dif_pos hfrozen] at hc hd
      cases hc
      cases hd
      exact ⟨rfl, rfl, rfl, henv, htools⟩
    · rw [dif_neg hfrozen] at hc
      cases hc
  obtain ⟨hst, -⟩ := execute_rel repr htwins plan p q
  refine ⟨run_trace_eq repr htwins plan p q, fun name => ?_, ?_⟩
  · have hname := hst.env name
    generalize (c.execute repr tupleText plan p).1.env.get? name = x at hname ⊢
    generalize (d.execute repr tupleText plan q).1.env.get? name = y at hname ⊢
    cases hname with
    | none => exact .none
    | some hvw => exact .some hvw.1
  · exact hst.calls.imp fun a b hab => ⟨hab.tool, hab.policy, fun i maxLevel => hab.arg_eq⟩

def asciiRepr : Str → Str := PyRepr.repr (inRanges [(0x20, 0x7e)])

/-- `str` of the one tuple that holds nothing. -/
def unitText : List Empty → Except PyErr Str := fun _ => .ok (txt "()")

def field {n : ℕ} (s : String) (h : txt s ≠ [] ∧ (txt s).length ≤ n) : FieldText n :=
  ⟨txt s, h.1, h.2, plain_txt s⟩

def noKey {n : ℕ} : OptionalText n := ⟨none, fun _ h => absurd h (Option.not_mem_none _)⟩

def docEnv (text : Str) : Dict Str Str :=
  (Dict.empty.set (txt "user:to") (txt "bob")).set (txt "doc") text

theorem docEnv_agree (s t : Str) : EnvAgree (docEnv s) (docEnv t) := by
  refine ⟨fun k => ?_, fun k hk => ?_⟩
  · unfold docEnv
    simp only [Dict.mem_keys_set]
  · have hdoc : k ≠ txt "doc" := by
      intro h
      subst h
      rcases hk with hk | hk
      · exact absurd hk (by decide)
      · exact absurd hk (by decide)
    unfold docEnv
    simp only [Dict.get?_set, if_neg hdoc]

def strArg {Obj : Type} (v : CapValue Obj) : Str :=
  match v.value with
  | .str s => s
  | _ => []

/-- `send(to, body)`, where only the body may be untrusted. -/
def sendPolicies : ToolPolicyRegistry :=
  ⟨Dict.empty.set (txt "send") ⟨txt "send", [.user, .untrusted], []⟩, true⟩

theorem sendPolicies_frozen : sendPolicies.isFrozen = true := rfl

def sendTools : Dict Str (ToolFn Empty) :=
  Dict.empty.set (txt "send") fun args => .raw (.str (args.flatMap strArg))

def sendPlan : Plan :=
  ⟨[.call (field "send" (by decide))
      [.read (field "user" (by decide)) ⟨some (txt "to"), by decide⟩,
        .read (field "doc" (by decide)) noKey]
      ⟨some (txt "sent"), by decide⟩,
    .return_ (.var (field "sent" (by decide)))]⟩

def sendInterpreter (text : Str) : CamelInterpreter Empty :=
  ⟨sendPolicies, sendTools, stubQuarantinedLLM, docEnv text, sendPolicies_frozen⟩

theorem run_noninterference_send :
    TextTools unitText sendTools ∧ EnvAgree (docEnv (txt "hello")) (docEnv (txt "obey me")) ∧
      ((sendInterpreter (txt "hello")).run asciiRepr unitText sendPlan []).map Prod.snd =
        ((sendInterpreter (txt "obey me")).run asciiRepr unitText sendPlan []).map Prod.snd := by
  have htools : TextTools unitText sendTools := by
    intro tool impl h args
    unfold sendTools at h
    rw [Dict.get?_set] at h
    split at h
    · cases h
      exact ⟨_, _, rfl, rfl⟩
    · cases h
  exact ⟨htools, docEnv_agree _ _,
    (run_noninterference asciiRepr unitText sendPolicies sendTools none (docEnv (txt "hello"))
      (docEnv (txt "obey me")) (sendInterpreter (txt "hello")) (sendInterpreter (txt "obey me"))
      sendPlan [] [] rfl rfl htools (docEnv_agree _ _)).1⟩

/-- Measures a document: the document `x` gets a number of 4301 digits. -/
def measure : ToolFn Empty := fun args =>
  .raw (.int (if args.flatMap strArg = txt "x" then Int.ofNat (10 ^ 4300) else 7))

def measurePolicies : ToolPolicyRegistry :=
  ⟨Dict.empty.set (txt "measure") ⟨txt "measure", [.untrusted], []⟩, true⟩

def measureTools : Dict Str (ToolFn Empty) := Dict.empty.set (txt "measure") measure

/-- Measure the document, ask about the number, and return nothing. -/
def measurePlan : Plan :=
  ⟨[.call (field "measure" (by decide)) [.read (field "doc" (by decide)) noKey]
      ⟨some (txt "n"), by decide⟩,
    .qllm (field "is it large?" (by decide)) [field "n" (by decide)] (field "answer" (by decide)),
    .return_ (.literal .none)]⟩

def measureInterpreter (text : Str) : CamelInterpreter Empty :=
  ⟨measurePolicies, measureTools, stubQuarantinedLLM, docEnv text, rfl⟩

set_option maxRecDepth 20000 in
/-- `str` refuses more than 4300 digits, and this error is not one that halts
the plan: one of the two runs leaves no trace at all. -/
theorem run_raises_on_long_integer :
    CamelInterpreter.make measurePolicies measureTools none (docEnv (txt "y")) =
        .ok (measureInterpreter (txt "y")) ∧
      CamelInterpreter.make measurePolicies measureTools none (docEnv (txt "x")) =
        .ok (measureInterpreter (txt "x")) ∧
      RawTools measureTools ∧ EnvAgree (docEnv (txt "y")) (docEnv (txt "x")) ∧
      ((measureInterpreter (txt "y")).run asciiRepr unitText measurePlan []).map Prod.snd ≠
        ((measureInterpreter (txt "x")).run asciiRepr unitText measurePlan []).map Prod.snd := by
  refine ⟨rfl, rfl, ?_, docEnv_agree _ _, ?_⟩
  · intro tool impl h args
    unfold measureTools at h
    rw [Dict.get?_set] at h
    split at h
    · cases h
      exact ⟨_, rfl⟩
    · cases h
  · have hok : ((measureInterpreter (txt "y")).run asciiRepr unitText measurePlan []).isOk = true := by
      decide
    have hraises : ((measureInterpreter (txt "x")).run asciiRepr unitText measurePlan []).isOk =
        false := by decide
    generalize (measureInterpreter (txt "y")).run asciiRepr unitText measurePlan [] = a at hok ⊢
    generalize (measureInterpreter (txt "x")).run asciiRepr unitText measurePlan [] = b at hraises ⊢
    intro heq
    cases a with
    | error e => cases hok
    | ok r =>
      cases b with
      | error e => cases heq
      | ok r' => cases hraises

end TexGovernance.Camel
