import TexGovernance.Camel.Noninterference

/-!
# What a value depends on

A plan is straight-line code, so the reads behind each of its values can be told from its text.
-/

namespace TexGovernance.Camel
open PyStr PyDict PyRepr

namespace PlanNode

def exprs : PlanNode → List Expr
  | .assign _ expr => [expr]
  | .call _ args _ => args
  | .qllm _ inputs _ => inputs.map .var
  | .return_ expr => [expr]

def target : PlanNode → Option Str
  | .assign name _ => some name.text
  | .call _ _ resultVar => resultVar.text
  | .qllm _ _ resultVar => some resultVar.text
  | .return_ _ => none

end PlanNode

def exprReads (reads : Dict Str (List Str)) : Expr → List Str
  | .literal _ => []
  | .var name => (reads.get? name.text).getD []
  | .read source _ => [source.text]

def nodeReads (reads : Dict Str (List Str)) (node : PlanNode) : Dict Str (List Str) :=
  match node.target with
  | some name => reads.set name (node.exprs.flatMap (exprReads reads))
  | none => reads

/-- The sources of the reads behind the value of the first `Return`. -/
def returnReads : Dict Str (List Str) → List PlanNode → List Str
  | _, [] => []
  | reads, node :: rest =>
    if node.isReturn then node.exprs.flatMap (exprReads reads)
    else returnReads (nodeReads reads node) rest

def Plan.finalReads (plan : Plan) : List Str := returnReads Dict.empty plan.nodes

def readCap (source : Str) : Capability :=
  if source = txt "user" then .user (txt "user") else .untrusted source

variable {Obj : Type}

def Carries (inputs : List (CapValue Obj)) (result : CapValue Obj) : Prop :=
  ∀ v ∈ inputs, v.caps.items ⊆ result.caps.items

def KeepsArgs (impl : ToolFn Obj) (args : List (CapValue Obj)) : Prop :=
  ∀ value, impl args = .tagged value → Carries args value

theorem untrusted_iff (c : CapabilitySet) :
    c.level = .untrusted ↔ ∃ cap ∈ c.items, cap.level = .untrusted := by
  have hle := c.level_le_iff .user
  simp only [CapabilityLevel.le_user_iff] at hle
  rw [← not_iff_not, ← ne_eq, hle]
  simp

theorem Carries.untrusted {inputs : List (CapValue Obj)} {result : CapValue Obj}
    (h : Carries inputs result) {v : CapValue Obj} (hv : v ∈ inputs) (hlevel : v.level = .untrusted) :
    result.level = .untrusted := by
  obtain ⟨cap, hcap, hcaplevel⟩ := (untrusted_iff v.caps).mp hlevel
  exact (untrusted_iff result.caps).mpr ⟨cap, h v hv hcap, hcaplevel⟩

theorem foldl_join_items (start : CapabilitySet) (values : List (CapValue Obj)) :
    (values.foldl (fun merged v => merged.join v.caps) start).items =
      start.items ++ values.flatMap (fun v => v.caps.items) := by
  induction values generalizing start with
  | nil => simp
  | cons v values ih =>
    rw [List.foldl_cons, ih, List.flatMap_cons]
    exact List.append_assoc _ _ _

theorem carries_derived (value : RawValue Obj) (inputs : List (CapValue Obj)) :
    Carries inputs (.derived value inputs) := by
  intro v hv cap hcap
  unfold CapValue.derived
  simp only [foldl_join_items]
  exact List.mem_append_right _ (List.mem_flatMap.mpr ⟨v, hv, hcap⟩)

theorem carries_wrapResult_iff (impl : ToolFn Obj) (args : List (CapValue Obj)) :
    Carries args (wrapResult (impl args) args) ↔ KeepsArgs impl args := by
  unfold KeepsArgs wrapResult
  cases himpl : impl args with
  | raw value => simp [carries_derived]
  | tagged value => simp

section Steps

variable (repr : Str → Str) (tupleText : List Obj → Except PyErr Str)

def Produces (camel : CamelInterpreter Obj) (node : PlanNode) (inputs : List (CapValue Obj))
    (result : CapValue Obj) : Prop :=
  match node with
  | .assign _ _ => inputs = [result]
  | .call tool _ _ =>
    ∃ impl, camel.toolImpls.get? tool.text = some impl ∧ result = wrapResult (impl inputs) inputs
  | .qllm _ _ _ => ∃ text, result = .derived (.str text) inputs
  | .return_ _ => inputs = [result]

def bindTarget (env : Dict Str (CapValue Obj)) (target : Option Str) (result : CapValue Obj) :
    Dict Str (CapValue Obj) :=
  match target with
  | some name => env.set name result
  | none => env

structure Completed (Obj : Type) where
  node : PlanNode
  before : RunState Obj
  after : RunState Obj

/-- The nodes of the loop that complete, from number `i` on. -/
def completedNodes (camel : CamelInterpreter Obj) :
    ℕ → List PlanNode → RunState Obj → List (Completed Obj)
  | _, [], _ => []
  | i, node :: rest, s =>
    match step repr tupleText camel i node s with
    | (s', .ok (value, entry)) =>
      let s' := { s' with finalValue := value, entries := s'.entries ++ [entry] }
      ⟨node, s, s'⟩ :: if node.isReturn then [] else completedNodes camel (i + 1) rest s'
    | (_, .error _) => []

def inputsOf (camel : CamelInterpreter Obj) (node : PlanNode) (s : RunState Obj) :
    Except RunError (List (CapValue Obj)) :=
  node.exprs.mapM (evalExpr repr camel.untrustedEnv s.env)

/-- What a completed node binds carries every capability of its inputs, and is
UNTRUSTED if one of them is. -/
def KeepsInputs (camel : CamelInterpreter Obj) (c : Completed Obj) : Prop :=
  ∀ name ∈ c.node.target, ∃ inputs result, inputsOf repr camel c.node c.before = .ok inputs ∧
    c.after.env.get? name = some result ∧ Carries inputs result ∧
    ((∃ v ∈ inputs, v.level = .untrusted) → result.level = .untrusted)

def ToolKeepsArgs (camel : CamelInterpreter Obj) (c : Completed Obj) : Prop :=
  match c.node with
  | .call tool _ resultVar =>
    resultVar.text ≠ none → ∀ impl, camel.toolImpls.get? tool.text = some impl →
      ∀ args, inputsOf repr camel c.node c.before = .ok args → KeepsArgs impl args
  | _ => True

variable {repr} {tupleText} {camel : CamelInterpreter Obj} {i : ℕ} {node : PlanNode}
  {s s' : RunState Obj} {value : Option (CapValue Obj)} {entry : TraceEntry}

theorem Except.map_eq_ok {ε α β : Type} {f : α → β} {x : Except ε α} {y : β}
    (h : x.map f = .ok y) : ∃ a, x = .ok a ∧ f a = y := by
  cases x with
  | error e => cases h
  | ok a => exact ⟨a, rfl, Except.ok.inj h⟩

theorem qllmInputs_values {env : Dict Str (CapValue Obj)} {inputs : List (FieldText 64)}
    {read : List (CapValue Obj × Str)} (h : inputs.mapM (qllmInput repr tupleText camel env) = .ok read) :
    (inputs.map Expr.var).mapM (evalExpr repr camel.untrustedEnv env) = .ok (read.map Prod.fst) := by
  rw [mapM_ok_iff] at h ⊢
  rw [List.forall₂_map_left_iff, List.forall₂_map_right_iff]
  refine h.imp fun ref r href => ?_
  unfold qllmInput at href
  cases hv : evalExpr repr camel.untrustedEnv env (.var ref) with
  | error e =>
    rw [hv] at href
    cases href
  | ok v =>
    rw [hv] at href
    simp only [bind, Except.bind] at href
    cases htext : inputText tupleText v.value with
    | error e =>
      rw [htext] at href
      cases href
    | ok text =>
      rw [htext] at href
      cases href
      rfl

theorem callTool_ok {tool : Str} {resultVar : Option Str} {args : List (CapValue Obj)}
    (h : callTool repr camel i tool resultVar args s = (s', .ok entry)) :
    ∃ impl, camel.toolImpls.get? tool = some impl ∧
      s'.env = bindTarget s.env resultVar (wrapResult (impl args) args) := by
  unfold callTool at h
  simp only at h
  split at h
  · cases h
  · split at h
    · cases h
    · next impl himpl =>
      refine ⟨impl, himpl, ?_⟩
      have hstate := (Prod.mk.inj h).1
      subst hstate
      cases resultVar with
      | none => rfl
      | some name => rfl

theorem step_ok (h : step repr tupleText camel i node s = (s', .ok (value, entry))) :
    ∃ inputs result, inputsOf repr camel node s = .ok inputs ∧ Produces camel node inputs result ∧
      s'.env = bindTarget s.env node.target result ∧
      value = if node.isReturn then some result else none := by
  cases node with
  | assign name expr =>
    simp only [step] at h
    cases hexpr : evalExpr repr camel.untrustedEnv s.env expr with
    | error e =>
      rw [hexpr] at h
      cases h
    | ok v =>
      rw [hexpr] at h
      simp only [Prod.mk.injEq] at h
      obtain ⟨a, ha, hvalue⟩ := Except.map_eq_ok h.2
      refine ⟨[v], v, ?_, rfl, ?_, (Prod.mk.inj hvalue).1.symm⟩
      · exact (mapM_ok_iff _ _ _).mpr (.cons hexpr .nil)
      · rw [← h.1]
        rfl
  | call tool args resultVar =>
    simp only [step] at h
    cases hargs : args.mapM (evalExpr repr camel.untrustedEnv s.env) with
    | error e =>
      rw [hargs] at h
      cases h
    | ok values =>
      rw [hargs] at h
      simp only [Prod.mk.injEq] at h
      obtain ⟨a, ha, hvalue⟩ := Except.map_eq_ok h.2
      obtain ⟨impl, himpl, henv⟩ := callTool_ok (Prod.ext h.1 ha)
      exact ⟨values, _, hargs, ⟨impl, himpl, rfl⟩, henv, (Prod.mk.inj hvalue).1.symm⟩
  | qllm query inputs resultVar =>
    simp only [step] at h
    cases hread : inputs.mapM (qllmInput repr tupleText camel s.env) with
    | error e =>
      rw [hread] at h
      cases h
    | ok read =>
      rw [hread] at h
      simp only [Prod.mk.injEq] at h
      obtain ⟨a, ha, hvalue⟩ := Except.map_eq_ok h.2
      refine ⟨_, .derived (.str (camel.qLlm query.text (read.map Prod.snd))) _,
        qllmInputs_values hread, ⟨_, rfl⟩, ?_, (Prod.mk.inj hvalue).1.symm⟩
      rw [← h.1]
      rfl
  | return_ expr =>
    simp only [step] at h
    cases hexpr : evalExpr repr camel.untrustedEnv s.env expr with
    | error e =>
      rw [hexpr] at h
      cases h
    | ok v =>
      rw [hexpr] at h
      simp only [Prod.mk.injEq] at h
      obtain ⟨a, ha, hvalue⟩ := Except.map_eq_ok h.2
      refine ⟨[v], v, ?_, rfl, ?_, (Prod.mk.inj hvalue).1.symm⟩
      · exact (mapM_ok_iff _ _ _).mpr (.cons hexpr .nil)
      · rw [← h.1]
        rfl

theorem produces_carries {inputs : List (CapValue Obj)} {result : CapValue Obj}
    (h : Produces camel node inputs result)
    (htool : ∀ tool args resultVar, node = .call tool args resultVar →
      ∀ impl, camel.toolImpls.get? tool.text = some impl → KeepsArgs impl inputs) :
    Carries inputs result := by
  have hsame : Carries [result] result := by
    intro v hv
    rw [List.mem_singleton.mp hv]
    exact List.Subset.refl _
  cases node with
  | assign name expr =>
    rw [show inputs = [result] from h]
    exact hsame
  | call tool args resultVar =>
    obtain ⟨impl, himpl, hresult⟩ := h
    rw [hresult]
    exact (carries_wrapResult_iff impl inputs).mpr (htool tool args resultVar rfl impl himpl)
  | qllm query refs resultVar =>
    obtain ⟨text, hresult⟩ := h
    rw [hresult]
    exact carries_derived _ _
  | return_ expr =>
    rw [show inputs = [result] from h]
    exact hsame

theorem step_keepsInputs_iff (h : step repr tupleText camel i node s = (s', .ok (value, entry)))
    {after : RunState Obj} (hafter : after.env = s'.env) :
    KeepsInputs repr camel ⟨node, s, after⟩ ↔ ToolKeepsArgs repr camel ⟨node, s, after⟩ := by
  obtain ⟨inputs, result, hinputs, hproduces, henv, -⟩ := step_ok h
  unfold KeepsInputs ToolKeepsArgs
  simp only [hinputs, hafter, henv, Except.ok.injEq]
  constructor
  · intro hkeeps
    cases node with
    | assign name expr => trivial
    | qllm query refs resultVar => trivial
    | return_ expr => trivial
    | call tool args resultVar =>
      intro hbound impl himpl args' hargs
      obtain ⟨name, hname⟩ := Option.ne_none_iff_exists'.mp hbound
      obtain ⟨_, found, rfl, hfound, hcarries, -⟩ := hkeeps name hname
      obtain ⟨impl', himpl', hresult⟩ := hproduces
      rw [himpl] at himpl'
      cases himpl'
      rw [← hargs]
      simp only [bindTarget, PlanNode.target, hname, Dict.get?_set, if_true,
        Option.some.injEq] at hfound
      rw [← hfound, hresult] at hcarries
      exact (carries_wrapResult_iff impl _).mp hcarries
  · intro htool name hname
    have hcarries : Carries inputs result := by
      refine produces_carries hproduces fun tool args resultVar hnode impl himpl => ?_
      subst hnode
      have hbound : resultVar.text ≠ none := by
        intro hnone
        simp only [PlanNode.target, hnone] at hname
        cases hname
      exact htool hbound impl himpl inputs rfl
    refine ⟨inputs, result, rfl, ?_, hcarries, ?_⟩
    · rw [Option.mem_def.mp hname]
      simp [bindTarget]
    · rintro ⟨v, hv, hlevel⟩
      exact hcarries.untrusted hv hlevel

def ReadsCarried (reads : Dict Str (List Str)) (env : Dict Str (CapValue Obj)) : Prop :=
  ∀ name v, env.get? name = some v →
    ∀ source ∈ (reads.get? name).getD [], readCap source ∈ v.caps.items

theorem readsCarried_empty : ReadsCarried Dict.empty (Dict.empty : Dict Str (CapValue Obj)) := by
  intro name v h
  cases h

theorem evalExpr_reads {untrustedEnv : Dict Str Str} {reads : Dict Str (List Str)}
    {env : Dict Str (CapValue Obj)} (hreads : ReadsCarried reads env) {expr : Expr} {v : CapValue Obj}
    (h : evalExpr repr untrustedEnv env expr = .ok v) :
    ∀ source ∈ exprReads reads expr, readCap source ∈ v.caps.items := by
  intro source hsource
  cases expr with
  | literal l => cases hsource
  | var name =>
    simp only [evalExpr] at h
    cases hname : env.get? name.text with
    | none =>
      rw [hname] at h
      cases h
    | some w =>
      rw [hname] at h
      cases h
      exact hreads name.text v hname source hsource
  | read readSource key =>
    rw [exprReads, List.mem_singleton] at hsource
    subst hsource
    simp only [evalExpr] at h
    unfold readCap
    split at h
    · cases h
    · split at h
      · next huser =>
        cases h
        rw [if_pos huser]
        exact List.mem_singleton_self _
      · next huser =>
        cases h
        rw [if_neg huser]
        exact List.mem_singleton_self _

theorem inputs_reads {reads : Dict Str (List Str)} (hreads : ReadsCarried reads s.env)
    {inputs : List (CapValue Obj)} (hinputs : inputsOf repr camel node s = .ok inputs)
    {result : CapValue Obj} (hcarries : Carries inputs result) :
    ∀ source ∈ node.exprs.flatMap (exprReads reads), readCap source ∈ result.caps.items := by
  intro source hsource
  obtain ⟨expr, hexpr, hread⟩ := List.mem_flatMap.mp hsource
  obtain ⟨v, hv⟩ := ok_of_mapM_ok hinputs hexpr
  have hmem : v ∈ inputs := (mem_mapM_ok hinputs v).mpr ⟨expr, hexpr, hv⟩
  exact hcarries v hmem (evalExpr_reads hreads hv source hread)

theorem step_reads (h : step repr tupleText camel i node s = (s', .ok (value, entry)))
    {after : RunState Obj} (hafter : after.env = s'.env)
    (hkeeps : KeepsInputs repr camel ⟨node, s, after⟩) {reads : Dict Str (List Str)}
    (hreads : ReadsCarried reads s.env) : ReadsCarried (nodeReads reads node) after.env := by
  obtain ⟨inputs, result, hinputs, -, henv, -⟩ := step_ok h
  intro name v hv
  unfold KeepsInputs at hkeeps
  simp only [hinputs, Except.ok.injEq] at hkeeps
  rw [hafter, henv] at hv hkeeps
  unfold nodeReads
  cases htarget : node.target with
  | none =>
    rw [htarget] at hv
    exact hreads name v hv
  | some bound =>
    rw [htarget] at hv hkeeps
    simp only [bindTarget, Dict.get?_set] at hv hkeeps ⊢
    obtain ⟨_, found, rfl, hfound, hcarries, -⟩ := hkeeps bound rfl
    rw [if_pos rfl] at hfound
    cases hfound
    by_cases hname : name = bound
    · rw [if_pos hname] at hv ⊢
      cases hv
      exact inputs_reads hreads hinputs hcarries
    · rw [if_neg hname] at hv ⊢
      exact hreads name v hv

theorem mem_completedNodes {nodes : List PlanNode} {c : Completed Obj}
    (h : c ∈ completedNodes repr tupleText camel i nodes s) :
    ∃ j r s', step repr tupleText camel j c.node c.before = (s', .ok r) ∧ c.after.env = s'.env := by
  induction nodes generalizing i s with
  | nil => cases h
  | cons node rest ih =>
    unfold completedNodes at h
    split at h
    · next s' value entry hstep =>
      rcases List.mem_cons.mp h with rfl | h
      · exact ⟨i, _, s', hstep, rfl⟩
      · split at h
        · cases h
        · exact ih h
    · cases h

theorem completed_keepsInputs_iff {nodes : List PlanNode} {c : Completed Obj}
    (h : c ∈ completedNodes repr tupleText camel i nodes s) :
    KeepsInputs repr camel c ↔ ToolKeepsArgs repr camel c := by
  obtain ⟨j, r, s', hstep, hafter⟩ := mem_completedNodes h
  exact step_keepsInputs_iff hstep hafter

theorem runNodes_reads {nodes : List PlanNode} {reads : Dict Str (List Str)}
    (hkeeps : ∀ c ∈ completedNodes repr tupleText camel i nodes s, KeepsInputs repr camel c)
    (hreads : ReadsCarried reads s.env)
    (hok : (runNodes repr tupleText camel i nodes s).2 = .ok ()) :
    ∀ source ∈ returnReads reads nodes, ∃ v,
      (runNodes repr tupleText camel i nodes s).1.finalValue = some v ∧
        (v = haltValue ∨ readCap source ∈ v.caps.items) := by
  induction nodes generalizing i s reads with
  | nil =>
    intro source hsource
    cases hsource
  | cons node rest ih =>
    intro source hsource
    unfold runNodes at hok ⊢
    unfold completedNodes at hkeeps
    unfold returnReads at hsource
    split at hok
    · next s' value entry hstep =>
      rw [hstep] at hkeeps
      simp only at hok ⊢
      by_cases hreturn : node.isReturn
      · rw [if_pos hreturn] at hsource
        rw [if_pos hreturn]
        obtain ⟨inputs, result, hinputs, hproduces, -, hvalue⟩ := step_ok hstep
        rw [if_pos hreturn] at hvalue
        refine ⟨result, hvalue, .inr ?_⟩
        refine inputs_reads hreads hinputs (produces_carries hproduces ?_) source hsource
        intro tool args resultVar hnode
        rw [hnode] at hreturn
        cases hreturn
      · rw [if_neg hreturn] at hsource hok
        rw [if_neg hreturn]
        simp only [if_neg hreturn, List.forall_mem_cons] at hkeeps
        exact ih hkeeps.2 (step_reads hstep rfl hkeeps.1 hreads) hok source hsource
    · next s' message hstep =>
      cases hentry : haltEntry i node message with
      | error e =>
        rw [hentry] at hok
        cases hok
      | ok entry => exact ⟨_, rfl, .inl rfl⟩
    · cases hok

end Steps

def CamelInterpreter.withPrompt (camel : CamelInterpreter Obj) (userPrompt : Str) :
    CamelInterpreter Obj :=
  { camel with untrustedEnv := setdefaultPrompt camel.untrustedEnv userPrompt }

/-- The nodes of a run that complete. -/
def CamelInterpreter.completed (repr : Str → Str) (tupleText : List Obj → Except PyErr Str)
    (camel : CamelInterpreter Obj) (plan : Plan) (userPrompt : Str) : List (Completed Obj) :=
  completedNodes repr tupleText (camel.withPrompt userPrompt) 0 plan.nodes .start

theorem run_ok_finalValue {repr : Str → Str} {tupleText : List Obj → Except PyErr Str}
    {camel : CamelInterpreter Obj} {plan : Plan} {userPrompt : Str} {value : CapValue Obj}
    {trace : ExecutionTrace} (h : camel.run repr tupleText plan userPrompt = .ok (value, trace)) :
    (camel.execute repr tupleText plan userPrompt).2 = .ok () ∧
      value = (camel.execute repr tupleText plan userPrompt).1.finalValue.getD ⟨.none, .empty⟩ := by
  unfold CamelInterpreter.run at h
  cases hvalid : plan.validateStructure with
  | error text =>
    rw [hvalid] at h
    cases h
  | ok _ =>
    rw [hvalid] at h
    simp only at h
    cases hout : (camel.execute repr tupleText plan userPrompt).2 with
    | error e =>
      rw [hout] at h
      cases h
    | ok _ =>
      rw [hout] at h
      simp only [bind, Except.bind] at h
      split at h
      · cases h
      · cases h
        exact ⟨rfl, rfl⟩

theorem readCap_untrusted {source : Str} (h : source ≠ txt "user") :
    (readCap source).level = .untrusted := by
  unfold readCap
  rw [if_neg h]
  rfl

/-- Capabilities are kept through a whole run exactly when every tool that was
invoked for a variable kept those of its arguments. -/
theorem run_keeps_capabilities_iff (repr : Str → Str) (tupleText : List Obj → Except PyErr Str)
    (camel : CamelInterpreter Obj) (plan : Plan) (userPrompt : Str) :
    ((∀ c ∈ camel.completed repr tupleText plan userPrompt,
          KeepsInputs repr (camel.withPrompt userPrompt) c) ∧
        ∀ value trace, camel.run repr tupleText plan userPrompt = .ok (value, trace) →
          (∃ source ∈ plan.finalReads, source ≠ txt "user") → value.level = .untrusted) ↔
      ∀ c ∈ camel.completed repr tupleText plan userPrompt,
        ToolKeepsArgs repr (camel.withPrompt userPrompt) c := by
  have hnode : ∀ c ∈ camel.completed repr tupleText plan userPrompt,
      (KeepsInputs repr (camel.withPrompt userPrompt) c ↔
        ToolKeepsArgs repr (camel.withPrompt userPrompt) c) :=
    fun c hc => completed_keepsInputs_iff hc
  constructor
  · rintro ⟨hkeeps, -⟩ c hc
    exact (hnode c hc).mp (hkeeps c hc)
  · intro htools
    have hkeeps : ∀ c ∈ camel.completed repr tupleText plan userPrompt,
        KeepsInputs repr (camel.withPrompt userPrompt) c :=
      fun c hc => (hnode c hc).mpr (htools c hc)
    refine ⟨hkeeps, fun value trace hrun hread => ?_⟩
    obtain ⟨source, hsource, hother⟩ := hread
    obtain ⟨hok, hvalue⟩ := run_ok_finalValue hrun
    obtain ⟨v, hfinal, hv⟩ := runNodes_reads hkeeps readsCarried_empty hok source hsource
    have hfinal' : (camel.execute repr tupleText plan userPrompt).1.finalValue = some v := hfinal
    rw [hfinal', Option.getD_some] at hvalue
    rw [hvalue]
    rcases hv with rfl | hcap
    · rfl
    · exact (untrusted_iff v.caps).mpr ⟨_, hcap, readCap_untrusted hother⟩

def receipt : ToolFn Empty := fun _ => .tagged (.trusted (.str (txt "sent")) (txt "system"))

def receiptInterpreter : CamelInterpreter Empty :=
  ⟨sendPolicies, Dict.empty.set (txt "send") receipt, stubQuarantinedLLM, docEnv (txt "hello"),
    sendPolicies_frozen⟩

/-- The body of `sendPlan` is UNTRUSTED, but what it returns is TRUSTED. -/
theorem run_drops_capabilities :
    ¬((∀ c ∈ receiptInterpreter.completed asciiRepr unitText sendPlan [],
          KeepsInputs asciiRepr (receiptInterpreter.withPrompt []) c) ∧
        ∀ value trace, receiptInterpreter.run asciiRepr unitText sendPlan [] = .ok (value, trace) →
          (∃ source ∈ sendPlan.finalReads, source ≠ txt "user") → value.level = .untrusted) := by
  rintro ⟨-, hfinal⟩
  have hlevel : (receiptInterpreter.run asciiRepr unitText sendPlan []).map (·.1.level) =
      .ok .trusted := by decide
  obtain ⟨⟨value, trace⟩, hrun, htrusted⟩ := Except.map_eq_ok hlevel
  have huntrusted := hfinal value trace hrun ⟨txt "doc", by decide, by decide⟩
  rw [show value.level = .trusted from htrusted] at huntrusted
  cases huntrusted

end TexGovernance.Camel
