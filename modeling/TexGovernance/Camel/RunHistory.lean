import TexGovernance.Camel.CapabilityFlow

/-!
# Several runs of one interpreter

`run` writes the user prompt into the environment of the interpreter with
`setdefault`, so the first prompt that gets past the check of the plan stays
there for good.
-/

namespace TexGovernance.Camel
open PyStr PyDict PyJson PyRepr

variable {Obj : Type} (repr : Str → Str) (tupleText : List Obj → Except PyErr Str)

/-- A call of `run` with the interpreter that it leaves behind: an invalid plan
raises before the prompt is injected, any other outcome comes after it. -/
def CamelInterpreter.call (camel : CamelInterpreter Obj) (plan : Plan) (userPrompt : Str) :
    Except RunError (CapValue Obj × ExecutionTrace) × CamelInterpreter Obj :=
  (camel.run repr tupleText plan userPrompt,
    match plan.validateStructure with
    | .error _ => camel
    | .ok _ => camel.withPrompt userPrompt)

def CamelInterpreter.afterCalls (camel : CamelInterpreter Obj) (history : List (Plan × Str)) :
    CamelInterpreter Obj :=
  history.foldl (fun c earlier => (c.call repr tupleText earlier.1 earlier.2).2) camel

def firstPrompt (history : List (Plan × Str)) : Option Str :=
  (history.find? fun earlier => earlier.1.validateStructure.isOk).map Prod.snd

theorem get?_setdefaultPrompt (env : Dict Str Str) (p k : Str) :
    (setdefaultPrompt env p).get? k =
      if k = txt "user_prompt" then some ((env.get? (txt "user_prompt")).getD p) else env.get? k := by
  unfold setdefaultPrompt
  cases h : env.get? (txt "user_prompt") with
  | some v =>
    by_cases hk : k = txt "user_prompt"
    · rw [if_pos hk, hk, h]
      rfl
    · rw [if_neg hk]
  | none => rw [Dict.get?_set, Option.getD_none]

theorem setdefaultPrompt_of_some {env : Dict Str Str} {v : Str}
    (h : env.get? (txt "user_prompt") = some v) (p : Str) : setdefaultPrompt env p = env := by
  unfold setdefaultPrompt
  rw [h]

namespace CamelInterpreter

variable {repr tupleText}

@[simp] theorem withPrompt_withPrompt (camel : CamelInterpreter Obj) (p q : Str) :
    (camel.withPrompt p).withPrompt q = camel.withPrompt p := by
  have hset : (setdefaultPrompt camel.untrustedEnv p).get? (txt "user_prompt") =
      some ((camel.untrustedEnv.get? (txt "user_prompt")).getD p) := by
    rw [get?_setdefaultPrompt, if_pos rfl]
  unfold withPrompt
  rw [setdefaultPrompt_of_some hset]

theorem withPrompt_of_some {camel : CamelInterpreter Obj} {v : Str}
    (h : camel.untrustedEnv.get? (txt "user_prompt") = some v) (p : Str) :
    camel.withPrompt p = camel := by
  unfold withPrompt
  rw [setdefaultPrompt_of_some h]

theorem run_congr {c d : CamelInterpreter Obj} {p q : Str} (h : c.withPrompt p = d.withPrompt q)
    (plan : Plan) : c.run repr tupleText plan p = d.run repr tupleText plan q := by
  have hexecute : c.execute repr tupleText plan p = d.execute repr tupleText plan q :=
    congrArg (fun camel => runNodes repr tupleText camel 0 plan.nodes .start) h
  unfold run
  rw [hexecute]

theorem afterCalls_withPrompt (camel : CamelInterpreter Obj) (p : Str) (history : List (Plan × Str)) :
    (camel.withPrompt p).afterCalls repr tupleText history = camel.withPrompt p := by
  induction history with
  | nil => rfl
  | cons earlier rest ih =>
    have hcall : ((camel.withPrompt p).call repr tupleText earlier.1 earlier.2).2 =
        camel.withPrompt p := by
      unfold call
      cases earlier.1.validateStructure with
      | error _ => rfl
      | ok _ => exact withPrompt_withPrompt camel p earlier.2
    unfold afterCalls at ih ⊢
    rw [List.foldl_cons, hcall]
    exact ih

theorem afterCalls_eq (camel : CamelInterpreter Obj) (history : List (Plan × Str)) :
    camel.afterCalls repr tupleText history =
      match firstPrompt history with
      | some p => camel.withPrompt p
      | none => camel := by
  induction history with
  | nil => rfl
  | cons earlier rest ih =>
    unfold firstPrompt at ih ⊢
    cases hvalid : earlier.1.validateStructure with
    | error text =>
      rw [List.find?_cons_of_neg (by simp [hvalid, Except.isOk, Except.toBool]), ← ih]
      unfold afterCalls call
      rw [List.foldl_cons, hvalid]
    | ok _ =>
      rw [List.find?_cons_of_pos (by simp [hvalid, Except.isOk, Except.toBool])]
      have hcall : (camel.call repr tupleText earlier.1 earlier.2).2 = camel.withPrompt earlier.2 := by
        unfold call
        rw [hvalid]
      have hrest := @afterCalls_withPrompt _ repr tupleText camel earlier.2 rest
      unfold afterCalls at hrest ⊢
      rw [List.foldl_cons, hcall, hrest]
      rfl

theorem run_afterCalls (camel : CamelInterpreter Obj) (history : List (Plan × Str)) (plan : Plan)
    (prompt : Str) :
    (camel.afterCalls repr tupleText history).run repr tupleText plan prompt =
      camel.run repr tupleText plan ((firstPrompt history).getD prompt) := by
  rw [afterCalls_eq]
  cases firstPrompt history with
  | none => rfl
  | some p => exact run_congr (withPrompt_withPrompt camel p prompt) plan

end CamelInterpreter

/-- The lookup key of the read is the key of the prompt. -/
def Expr.readsPrompt : Expr → Bool
  | .read source key => readKey source.text key.text = txt "user_prompt"
  | _ => false

def Plan.readsPrompt (plan : Plan) : Bool :=
  plan.nodes.any fun node => node.exprs.any Expr.readsPrompt

def AgreeButPrompt (e f : Dict Str Str) : Prop := ∀ k, k ≠ txt "user_prompt" → e.get? k = f.get? k

section Nodes

variable {repr tupleText} {e f : Dict Str Str}

theorem readRaw_agree (h : AgreeButPrompt e f) {source : Str} {key : Option Str}
    (hkey : readKey source key ≠ txt "user_prompt") : readRaw e source key = readRaw f source key := by
  have hsource : key = none → e.get? source = f.get? source := by
    intro hnone
    subst hnone
    exact h source hkey
  unfold readRaw
  rw [h _ hkey]
  split
  · rfl
  · split
    · next hnone => exact hsource hnone
    · rfl

theorem evalExpr_agree (h : AgreeButPrompt e f) (env : Dict Str (CapValue Obj)) {expr : Expr}
    (hexpr : expr.readsPrompt = false) : evalExpr repr e env expr = evalExpr repr f env expr := by
  cases expr with
  | literal l => rfl
  | var name => rfl
  | read source key =>
    simp only [evalExpr, readRaw_agree h (of_decide_eq_false hexpr)]

theorem mapM_evalExpr_agree (h : AgreeButPrompt e f) (env : Dict Str (CapValue Obj))
    {exprs : List Expr} (hexprs : exprs.any Expr.readsPrompt = false) :
    exprs.mapM (evalExpr repr e env) = exprs.mapM (evalExpr repr f env) := by
  induction exprs with
  | nil => rfl
  | cons expr rest ih =>
    rw [List.any_cons, Bool.or_eq_false_iff] at hexprs
    rw [List.mapM_cons, List.mapM_cons, evalExpr_agree h env hexprs.1, ih hexprs.2]

variable {c d : CamelInterpreter Obj}

structure SameButPrompt (c d : CamelInterpreter Obj) : Prop where
  toolPolicies : c.toolPolicies = d.toolPolicies
  toolImpls : c.toolImpls = d.toolImpls
  qLlm : c.qLlm = d.qLlm
  untrustedEnv : AgreeButPrompt c.untrustedEnv d.untrustedEnv

theorem step_agree (h : SameButPrompt c d) (i : ℕ) {node : PlanNode}
    (hnode : node.exprs.any Expr.readsPrompt = false) (s : RunState Obj) :
    step repr tupleText c i node s = step repr tupleText d i node s := by
  cases node with
  | assign name expr =>
    have hexpr : evalExpr repr c.untrustedEnv s.env expr = evalExpr repr d.untrustedEnv s.env expr :=
      evalExpr_agree h.untrustedEnv s.env (by simpa [PlanNode.exprs] using hnode)
    simp only [step, hexpr]
  | call tool args resultVar =>
    have hargs : args.mapM (evalExpr repr c.untrustedEnv s.env) =
        args.mapM (evalExpr repr d.untrustedEnv s.env) :=
      mapM_evalExpr_agree h.untrustedEnv s.env hnode
    have hcall : ∀ values, callTool repr c i tool.text resultVar.text values s =
        callTool repr d i tool.text resultVar.text values s := by
      intro values
      unfold callTool
      rw [h.toolPolicies, h.toolImpls]
    simp only [step, hargs, hcall]
  | qllm query inputs resultVar =>
    have hinput : qllmInput repr tupleText c s.env = qllmInput repr tupleText d s.env := rfl
    simp only [step, hinput, h.qLlm]
  | return_ expr =>
    have hexpr : evalExpr repr c.untrustedEnv s.env expr = evalExpr repr d.untrustedEnv s.env expr :=
      evalExpr_agree h.untrustedEnv s.env (by simpa [PlanNode.exprs] using hnode)
    simp only [step, hexpr]

theorem runNodes_agree (h : SameButPrompt c d) (i : ℕ) {nodes : List PlanNode}
    (hnodes : nodes.any (fun node => node.exprs.any Expr.readsPrompt) = false) (s : RunState Obj) :
    runNodes repr tupleText c i nodes s = runNodes repr tupleText d i nodes s := by
  induction nodes generalizing i s with
  | nil => rfl
  | cons node rest ih =>
    rw [List.any_cons, Bool.or_eq_false_iff] at hnodes
    have hrest := fun s => ih (i + 1) hnodes.2 s
    simp only [runNodes, step_agree h i hnodes.1 s, hrest]

theorem run_of_not_readsPrompt (camel : CamelInterpreter Obj) {plan : Plan}
    (hplan : plan.readsPrompt = false) (p q : Str) :
    camel.run repr tupleText plan p = camel.run repr tupleText plan q := by
  have hsame : SameButPrompt (camel.withPrompt p) (camel.withPrompt q) := by
    refine ⟨rfl, rfl, rfl, fun k hk => ?_⟩
    unfold CamelInterpreter.withPrompt
    simp only [get?_setdefaultPrompt, if_neg hk]
  have hexecute : camel.execute repr tupleText plan p = camel.execute repr tupleText plan q :=
    runNodes_agree hsame 0 hplan .start
  unfold CamelInterpreter.run
  rw [hexecute]

end Nodes

def PromptKept (camel : CamelInterpreter Obj) (history : List (Plan × Str)) (prompt : Str) : Prop :=
  (camel.untrustedEnv.get? (txt "user_prompt")).isSome ∨ ∀ p ∈ firstPrompt history, p = prompt

def promptRead : Expr := .read (field "user_prompt" (by decide)) noKey

def promptPlan : Plan := ⟨[.return_ promptRead]⟩

def promptValue (p : Str) : CapValue Obj := .untrusted (.str p) (txt "user_prompt")

variable {repr tupleText}

theorem run_promptPlan {camel : CamelInterpreter Obj}
    (h : camel.untrustedEnv.get? (txt "user_prompt") = none) (p : Str) :
    (camel.run repr tupleText promptPlan p).map (·.1.value) = .ok (.str p) := by
  have hvalid : promptPlan.validateStructure = .ok () := rfl
  have hread : readRaw (setdefaultPrompt camel.untrustedEnv p) (txt "user_prompt") none = some p := by
    unfold readRaw readKey
    rw [get?_setdefaultPrompt, if_pos rfl, h]
    rfl
  have hother : txt "user_prompt" ≠ txt "user" := by decide
  have hexpr : ∀ env : Dict Str (CapValue Obj), evalExpr repr (camel.withPrompt p).untrustedEnv env promptRead =
      .ok (promptValue p) := by
    intro env
    have hfield : readRaw (setdefaultPrompt camel.untrustedEnv p)
        (field (n := 128) "user_prompt" (by decide)).text (noKey (n := 128)).text = some p := hread
    simp only [promptRead, evalExpr, CamelInterpreter.withPrompt, hfield]
    exact if_neg hother
  have hentry : ∃ entry, entryFor 0 (txt "Return") none none (promptValue p : CapValue Obj) =
      .ok entry := ⟨_, rfl⟩
  obtain ⟨entry, hentry⟩ := hentry
  have hexecute : camel.execute repr tupleText promptPlan p =
      ({ RunState.start with finalValue := some (promptValue p), entries := [entry] }, .ok ()) := by
    change runNodes repr tupleText (camel.withPrompt p) 0 [.return_ promptRead] .start = _
    simp only [runNodes, step, hexpr, hentry]
    rfl
  unfold CamelInterpreter.run
  rw [hvalid, hexecute]
  rfl

variable (repr tupleText)

/-- Runs are independent of the earlier ones exactly when the prompt that these
left is the one that the run would inject; a plan that does not look it up is
not concerned. -/
theorem runs_independent_iff (camel : CamelInterpreter Obj) (history : List (Plan × Str))
    (prompt : Str) :
    ((∀ plan, (camel.afterCalls repr tupleText history).run repr tupleText plan prompt =
        camel.run repr tupleText plan prompt) ↔ PromptKept camel history prompt) ∧
      ∀ plan, plan.readsPrompt = false →
        (camel.afterCalls repr tupleText history).run repr tupleText plan prompt =
          camel.run repr tupleText plan prompt := by
  refine ⟨?_, fun plan hplan => ?_⟩
  · simp only [CamelInterpreter.run_afterCalls]
    unfold PromptKept
    cases hprompt : camel.untrustedEnv.get? (txt "user_prompt") with
    | some v =>
      have hinjected : ∀ p, camel.withPrompt p = camel := CamelInterpreter.withPrompt_of_some hprompt
      refine iff_of_true (fun plan => CamelInterpreter.run_congr ?_ plan) (.inl rfl)
      rw [hinjected, hinjected]
    | none =>
      cases hfirst : firstPrompt history with
      | none => simp
      | some p =>
        constructor
        · intro hruns
          have hvalue := @run_promptPlan _ repr tupleText camel hprompt p
          have hplan := hruns promptPlan
          rw [Option.getD_some] at hplan
          rw [hplan, run_promptPlan hprompt] at hvalue
          refine .inr fun q hq => ?_
          rw [← Option.some.inj hq]
          cases hvalue
          rfl
        · intro hkept plan
          have hsame : p = prompt := by simpa using hkept
          rw [Option.getD_some, hsame]
  · rw [CamelInterpreter.run_afterCalls]
    exact run_of_not_readsPrompt camel hplan _ _

/-- The second user's run returns the first user's prompt. -/
theorem runs_share_prompt :
    ¬∀ (history : List (Plan × Str)) (plan : Plan) (prompt : Str),
      (receiptInterpreter.afterCalls asciiRepr unitText history).run asciiRepr unitText plan prompt =
        receiptInterpreter.run asciiRepr unitText plan prompt := by
  intro h
  have hnone : receiptInterpreter.untrustedEnv.get? (txt "user_prompt") = none := by decide
  have hrun := h [(promptPlan, txt "alice")] promptPlan (txt "bob")
  rw [CamelInterpreter.run_afterCalls] at hrun
  have halice := @run_promptPlan _ asciiRepr unitText receiptInterpreter hnone (txt "alice")
  have hbob := @run_promptPlan _ asciiRepr unitText receiptInterpreter hnone (txt "bob")
  rw [← hrun] at hbob
  have hfirst : (firstPrompt [(promptPlan, txt "alice")]).getD (txt "bob") = txt "alice" := rfl
  rw [hfirst, halice] at hbob
  cases hbob

end TexGovernance.Camel
