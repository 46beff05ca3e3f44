import Mathlib.Tactic.Linarith
import TexGovernance.Kernel.SyscallGate

/-!
# The rate limit of the gate

The times kept for a capability are, but for some that have left every window from now on, the
times of all calls that passed layer 3 under it.
-/

namespace TexGovernance.Kernel
open PyStr PyDict PyJson

variable {Constraint Env Input : Type} {caps : CapabilitySet Constraint} {window : ℚ}
variable {layers : Layers Constraint Env Input}

theorem dropWhile_dropWhile_append {p q : ℚ → Bool} (hpq : ∀ t, p t = true → q t = true) (ts us : List ℚ) :
    (ts.dropWhile p ++ us).dropWhile q = (ts ++ us).dropWhile q := by
  induction ts with
  | nil => rfl
  | cons t ts ih =>
    rw [List.dropWhile_cons]
    split
    · rename_i hp
      rw [ih, List.cons_append, List.dropWhile_cons, if_pos (hpq t hp)]
    · rfl

theorem expired_mono {now later : ℚ} (h : now ≤ later) (t : ℚ) (ht : expired window now t = true) :
    expired window later t = true := by
  have hwindow : window < now - t := of_decide_eq_true ht
  exact decide_eq_true (by linarith)

theorem dropWhile_expired {ts : List ℚ} (hsorted : ts.Pairwise (· ≤ ·)) (now : ℚ) :
    ts.dropWhile (expired window now) = ts.filter fun t => now - window ≤ t := by
  induction ts with
  | nil => rfl
  | cons t ts ih =>
    obtain ⟨hhead, htail⟩ := List.pairwise_cons.mp hsorted
    rw [List.dropWhile_cons]
    by_cases hexpired : expired window now t = true
    · have hwindow : window < now - t := of_decide_eq_true hexpired
      rw [if_pos hexpired, ih htail, List.filter_cons_of_neg]
      exact fun hle => absurd (of_decide_eq_true hle) (by linarith)
    · have hwindow : ¬ window < now - t := fun h => hexpired (decide_eq_true h)
      rw [if_neg hexpired]
      refine (List.filter_eq_self.mpr fun u hu => decide_eq_true ?_).symm
      have hle : t ≤ u := by
        rcases List.mem_cons.mp hu with rfl | hu
        · exact le_rfl
        · exact hhead u hu
      linarith

def kept (window : ℚ) (cap : McpCapability Constraint) (now : ℚ) (state : RateState) : List ℚ :=
  (bucket state cap.capabilityId).dropWhile (expired window now)

theorem layer3_passes_iff (cap : McpCapability Constraint) (now : ℚ) (state : RateState) :
    (layer3RateLimit window cap now state).1 = .ok none ↔
      ¬ cap.rateLimitPerMinute ≤ (kept window cap now state).length := by
  unfold layer3RateLimit kept
  simp only
  split
  · rename_i hfull
    refine ⟨fun h => ?_, fun h => absurd hfull h⟩
    cases hreason : rateReason window cap
        ((bucket state cap.capabilityId).dropWhile (expired window now)).length with
    | error e =>
      rw [hreason] at h
      cases h
    | ok reason =>
      rw [hreason] at h
      cases h
  · rename_i hroom
    exact ⟨fun _ => hroom, fun _ => rfl⟩

theorem bucket_layer3 (cap : McpCapability Constraint) (now : ℚ) (state : RateState) (id : Str) :
    bucket (layer3RateLimit window cap now state).2 id =
      if id = cap.capabilityId then
        if cap.rateLimitPerMinute ≤ (kept window cap now state).length then kept window cap now state
        else kept window cap now state ++ [now]
      else bucket state id := by
  unfold layer3RateLimit kept
  simp only
  by_cases hid : id = cap.capabilityId
  · rw [if_pos hid]
    split
    · simp [bucket, hid]
    · simp [bucket, hid]
  · rw [if_neg hid]
    split
    · simp [bucket, hid]
    · simp [bucket, hid]

theorem check_state (call : GateCall Env Input) (state : RateState) :
    (check caps window layers call state).2 =
      match under caps layers call with
      | none => state
      | some cap => (layer3RateLimit window cap call.monotonic state).2 := by
  unfold check under
  cases screen caps layers call with
  | error e => rfl
  | ok result =>
    cases result with
    | inr answer => rfl
    | inl cap =>
      simp only
      obtain ⟨answer, next⟩ := layer3RateLimit window cap call.monotonic state
      cases answer with
      | error e => rfl
      | ok reason =>
        cases reason with
        | none => rfl
        | some reason => rfl

theorem under_mem {call : GateCall Env Input} {cap : McpCapability Constraint}
    (h : under caps layers call = some cap) : cap ∈ caps.capabilities := by
  have hchoose : ∀ candidates failures, choose caps layers call candidates failures = .ok (.inl cap) →
      cap ∈ candidates := by
    intro candidates
    induction candidates with
    | nil => exact fun failures hc => by cases hc
    | cons first rest ih =>
      intro failures hc
      unfold choose at hc
      cases hfailure : constraintFailure caps layers call first with
      | error e =>
        rw [hfailure] at hc
        cases hc
      | ok failure =>
        rw [hfailure] at hc
        cases failure with
        | none =>
          cases hc
          exact List.mem_cons_self
        | some failure => exact List.mem_cons_of_mem _ (ih _ hc)
  have hscreen : screen caps layers call = .ok (.inl cap) := by
    unfold under at h
    cases hscreen : screen caps layers call with
    | error e =>
      rw [hscreen] at h
      cases h
    | ok result =>
      rw [hscreen] at h
      cases result with
      | inl other =>
        cases h
        rfl
      | inr answer => cases h
  have hdeny : ∀ layer reason, (do return Sum.inr (← deny caps layers call layer reason) :
      Except PyErr (McpCapability Constraint ⊕ Bool × Option Str)) ≠ .ok (.inl cap) := by
    intro layer reason hd
    cases hdeny : deny caps layers call layer reason with
    | error e =>
      rw [hdeny] at hd
      cases hd
    | ok answer =>
      rw [hdeny] at hd
      cases hd
  unfold screen at hscreen
  cases hschema : layers.schema call.env call.toolName call.toolInput with
  | error e =>
    rw [hschema] at hscreen
    cases hscreen
  | ok reason =>
    rw [hschema] at hscreen
    cases reason with
    | some reason => exact absurd hscreen (hdeny _ _)
    | none =>
      by_cases hempty : (caps.findFor call.toolName).isEmpty = true
      · simp only [bind, Except.bind, if_pos hempty] at hscreen
        exact absurd hscreen (hdeny _ _)
      · simp only [bind, Except.bind, if_neg hempty] at hscreen
        cases hc : choose caps layers call (caps.findFor call.toolName) [] with
        | error e =>
          rw [hc] at hscreen
          cases hscreen
        | ok chosen =>
          rw [hc] at hscreen
          cases chosen with
          | inl other =>
            cases hscreen
            exact List.mem_of_mem_filter (hchoose _ _ hc)
          | inr failures => exact absurd hscreen (hdeny _ _)

def times (id : Str) (ps : List (Str × ℚ)) : List ℚ := (ps.filter fun p => p.1 = id).map Prod.snd

theorem times_append (id : Str) (ps qs : List (Str × ℚ)) : times id (ps ++ qs) = times id ps ++ times id qs := by
  unfold times
  rw [List.filter_append, List.map_append]

theorem run_snoc (calls : List (GateCall Env Input)) (call : GateCall Env Input) :
    runCalls caps window layers (calls ++ [call]) =
      (check caps window layers call (runCalls caps window layers calls)).2 := List.foldl_concat ..

theorem passes_snoc (calls : List (GateCall Env Input)) (call : GateCall Env Input) :
    passes caps window layers Dict.empty (calls ++ [call]) =
      passes caps window layers Dict.empty calls ++
        passed caps window layers call (runCalls caps window layers calls) := by
  have hfrom : ∀ state, passes caps window layers state (calls ++ [call]) =
      passes caps window layers state calls ++ passed caps window layers call
        (calls.foldl (fun state call => (check caps window layers call state).2) state) := by
    induction calls with
    | nil => exact fun state => List.append_nil _
    | cons first rest ih =>
      intro state
      rw [List.cons_append, passes, ih, ← List.append_assoc]
      rfl
  exact hfrom Dict.empty

theorem times_passed (call : GateCall Env Input) (state : RateState) (id : Str) :
    times id (passed caps window layers call state) =
      match under caps layers call with
      | none => []
      | some cap =>
        if id = cap.capabilityId ∧ ¬ cap.rateLimitPerMinute ≤ (kept window cap call.monotonic state).length
        then [call.monotonic] else [] := by
  unfold passed
  cases under caps layers call with
  | none => rfl
  | some cap =>
    simp only
    by_cases hpass : (layer3RateLimit window cap call.monotonic state).1 = .ok none
    · rw [if_pos hpass]
      rw [layer3_passes_iff] at hpass
      by_cases hid : id = cap.capabilityId
      · rw [if_pos ⟨hid, hpass⟩]
        simp [times, hid]
      · rw [if_neg fun h => hid h.1]
        simp [times, Ne.symm hid]
    · rw [if_neg hpass]
      rw [layer3_passes_iff] at hpass
      rw [if_neg fun h => hpass h.2]
      rfl

structure Follows (window : ℚ) (state : RateState) (ps : List (Str × ℚ)) (clock : ℚ → Prop) : Prop where
  window : ∀ id now us, clock now →
    (bucket state id ++ us).dropWhile (expired window now) =
      (times id ps ++ us).dropWhile (expired window now)
  sorted : ∀ id, (times id ps).Pairwise (· ≤ ·)
  past : ∀ id, ∀ t ∈ times id ps, ∀ now, clock now → t ≤ now

/-- How many calls passed under `id` in a closed interval. -/
def passedWithin (id : Str) (ps : List (Str × ℚ)) (a b : ℚ) : ℕ :=
  (times id ps).countP fun t => a ≤ t ∧ t ≤ b

theorem Follows.length_kept {state : RateState} {ps : List (Str × ℚ)} {clock : ℚ → Prop}
    (h : Follows window state ps clock) (cap : McpCapability Constraint) {now : ℚ} (hnow : clock now) :
    (kept window cap now state).length = passedWithin cap.capabilityId ps (now - window) now := by
  have hall := h.window cap.capabilityId now [] hnow
  rw [List.append_nil, List.append_nil, dropWhile_expired (h.sorted _)] at hall
  unfold kept passedWithin
  rw [hall, ← List.countP_eq_length_filter]
  refine List.countP_congr fun t ht => ?_
  simp [h.past _ t ht now hnow]

theorem Follows.step {state : RateState} {ps : List (Str × ℚ)} {clock : ℚ → Prop}
    (h : Follows window state ps clock) (caps : CapabilitySet Constraint)
    (layers : Layers Constraint Env Input) (call : GateCall Env Input) (hnow : clock call.monotonic) :
    Follows window (check caps window layers call state).2 (ps ++ passed caps window layers call state)
      fun now => clock now ∧ call.monotonic ≤ now := by
  have hnew : ∀ id, ∀ t ∈ times id (passed caps window layers call state), t = call.monotonic := by
    intro id t ht
    rw [times_passed] at ht
    cases hunder : under caps layers call with
    | none =>
      rw [hunder] at ht
      cases ht
    | some cap =>
      rw [hunder] at ht
      simp only at ht
      split at ht
      · exact List.mem_singleton.mp ht
      · cases ht
  refine ⟨fun id now us hclock => ?_, fun id => ?_, fun id t ht now hclock => ?_⟩
  · rw [times_append, List.append_assoc, ← h.window id now _ hclock.1, check_state, times_passed]
    cases under caps layers call with
    | none => rfl
    | some cap =>
      simp only
      rw [bucket_layer3]
      by_cases hid : id = cap.capabilityId
      · have hdrop : ∀ vs, (kept window cap call.monotonic state ++ vs).dropWhile (expired window now) =
            (bucket state id ++ vs).dropWhile (expired window now) := by
          intro vs
          rw [hid]
          exact dropWhile_dropWhile_append (fun t => expired_mono hclock.2 t) _ _
        rw [if_pos hid]
        by_cases hfull : cap.rateLimitPerMinute ≤ (kept window cap call.monotonic state).length
        · rw [if_pos hfull, if_neg fun hpass => hpass.2 hfull, hdrop, List.nil_append]
        · rw [if_neg hfull, if_pos ⟨hid, hfull⟩, List.append_assoc, hdrop]
      · rw [if_neg hid, if_neg fun hpass => hid hpass.1, List.nil_append]
  · rw [times_append, List.pairwise_append]
    refine ⟨h.sorted id, List.pairwise_of_forall_mem_list fun t ht u hu => ?_, fun t ht u hu => ?_⟩
    · rw [hnew id t ht, hnew id u hu]
    · rw [hnew id u hu]
      exact h.past id t ht _ hnow
  · rw [times_append, List.mem_append] at ht
    rcases ht with ht | ht
    · exact h.past id t ht now hclock.1
    · rw [hnew id t ht]
      exact hclock.2

theorem follows_run (caps : CapabilitySet Constraint) (window : ℚ) (layers : Layers Constraint Env Input)
    (calls : List (GateCall Env Input)) (hclock : (calls.map GateCall.monotonic).Pairwise (· ≤ ·)) :
    Follows window (runCalls caps window layers calls) (passes caps window layers Dict.empty calls)
      fun now => ∀ call ∈ calls, call.monotonic ≤ now := by
  induction calls using List.reverseRecOn with
  | nil => exact ⟨fun _ _ _ _ => rfl, fun _ => List.Pairwise.nil, fun _ _ ht => absurd ht List.not_mem_nil⟩
  | append_singleton calls call ih =>
    rw [List.map_append, List.pairwise_append] at hclock
    obtain ⟨hcalls, -, hlast⟩ := hclock
    have hnow : ∀ earlier ∈ calls, earlier.monotonic ≤ call.monotonic := fun earlier hmem =>
      hlast _ (List.mem_map_of_mem hmem) _ (List.mem_singleton_self _)
    have hstep := (ih hcalls).step caps layers call hnow
    rw [run_snoc, passes_snoc]
    refine ⟨fun id now us hafter => hstep.window id now us ?_, hstep.sorted, fun id t ht now hafter =>
      hstep.past id t ht now ?_⟩
    · exact List.forall_mem_append.mp hafter |>.imp_right fun hone => hone call (List.mem_singleton_self _)
    · exact List.forall_mem_append.mp hafter |>.imp_right fun hone => hone call (List.mem_singleton_self _)

def underId (caps : CapabilitySet Constraint) (layers : Layers Constraint Env Input) (id : Str)
    (call : GateCall Env Input) : Bool := (under caps layers call).any fun cap => cap.capabilityId = id

theorem bucket_run_filter (calls : List (GateCall Env Input)) (id : Str) :
    bucket (runCalls caps window layers calls) id =
      bucket (runCalls caps window layers (calls.filter (underId caps layers id))) id := by
  induction calls using List.reverseRecOn with
  | nil => rfl
  | append_singleton calls call ih =>
    rw [run_snoc, check_state, List.filter_append, List.filter_singleton]
    unfold underId at ih ⊢
    cases hunder : under caps layers call with
    | none =>
      simp only [Option.any_none, cond_false, List.append_nil]
      exact ih
    | some cap =>
      simp only [Option.any_some]
      by_cases hid : cap.capabilityId = id
      · rw [decide_eq_true hid, cond_true, run_snoc, check_state, hunder]
        simp only
        subst hid
        rw [bucket_layer3, bucket_layer3, if_pos rfl, if_pos rfl]
        unfold kept
        rw [ih]
      · rw [decide_eq_false hid, cond_false, List.append_nil, bucket_layer3, if_neg (Ne.symm hid)]
        exact ih

theorem check_congr {call : GateCall Env Input} {cap : McpCapability Constraint}
    (hunder : under caps layers call = some cap) {state state' : RateState}
    (h : bucket state cap.capabilityId = bucket state' cap.capabilityId) :
    (check caps window layers call state).1 = (check caps window layers call state').1 := by
  have hlayer : (layer3RateLimit window cap call.monotonic state).1 =
      (layer3RateLimit window cap call.monotonic state').1 := by
    unfold layer3RateLimit
    simp only [h]
    split
    · rfl
    · rfl
  have hread : ∀ s, (check caps window layers call s).1 =
      match (layer3RateLimit window cap call.monotonic s).1 with
      | .error e => .error e
      | .ok (some reason) => deny caps layers call (txt "layer3") reason
      | .ok none => afterRateLimit caps layers call := by
    intro s
    unfold under at hunder
    unfold check
    cases hscreen : screen caps layers call with
    | error e =>
      rw [hscreen] at hunder
      cases hunder
    | ok result =>
      rw [hscreen] at hunder
      cases result with
      | inr answer => cases hunder
      | inl other =>
        cases hunder
        simp only
        obtain ⟨answer, next⟩ := layer3RateLimit window cap call.monotonic s
        cases answer with
        | error e => rfl
        | ok reason =>
          cases reason with
          | none => rfl
          | some reason => rfl
  rw [hread, hread, hlayer]

theorem window_limit (hids : (caps.capabilities.map McpCapability.capabilityId).Nodup)
    {cap : McpCapability Constraint} (hcap : cap ∈ caps.capabilities) (a : ℚ)
    (calls : List (GateCall Env Input)) (hclock : (calls.map GateCall.monotonic).Pairwise (· ≤ ·)) :
    passedWithin cap.capabilityId (passes caps window layers Dict.empty calls) a (a + window) ≤
      cap.rateLimitPerMinute.toNat := by
  induction calls using List.reverseRecOn with
  | nil => exact Nat.zero_le _
  | append_singleton calls call ih =>
    rw [List.map_append, List.pairwise_append] at hclock
    obtain ⟨hcalls, -, hlast⟩ := hclock
    have hfollows := follows_run caps window layers calls hcalls
    have hnow : ∀ earlier ∈ calls, earlier.monotonic ≤ call.monotonic := fun earlier hmem =>
      hlast _ (List.mem_map_of_mem hmem) _ (List.mem_singleton_self _)
    have hbefore := ih hcalls
    unfold passedWithin at hbefore ⊢
    rw [passes_snoc, times_append, List.countP_append, times_passed]
    cases hunder : under caps layers call with
    | none => exact hbefore
    | some other =>
      simp only
      by_cases hpass : cap.capabilityId = other.capabilityId ∧ ¬ other.rateLimitPerMinute ≤
          (kept window other call.monotonic (runCalls caps window layers calls)).length
      · obtain ⟨hid, hroom⟩ := hpass
        have hsame : cap = other := List.inj_on_of_nodup_map hids hcap (under_mem hunder) hid
        subst hsame
        rw [if_pos ⟨rfl, hroom⟩, List.countP_singleton]
        rw [hfollows.length_kept cap hnow] at hroom
        split
        · rename_i hin
          obtain ⟨hlow, hhigh⟩ := of_decide_eq_true hin
          -- what the interval has of earlier calls lies in the window that ends now
          have hsub : (times cap.capabilityId (passes caps window layers Dict.empty calls)).countP
                (fun t => a ≤ t ∧ t ≤ a + window) ≤
              passedWithin cap.capabilityId (passes caps window layers Dict.empty calls)
                (call.monotonic - window) call.monotonic := by
            refine List.countP_mono_left fun t ht hwithin => decide_eq_true ?_
            obtain ⟨hfrom, -⟩ := of_decide_eq_true hwithin
            exact ⟨by linarith, hfollows.past _ t ht _ hnow⟩
          omega
        · exact hbefore
      · rw [if_neg hpass]
        exact hbefore

/-- With a clock that never goes back, no closed interval as long as the window
has more passed calls of a capability than its limit; a call is refused just
when as many have passed in the window that ends now; and its answer is what it
would be without the calls under other capabilities. -/
theorem rate_limit_exact (caps : CapabilitySet Constraint) (window : ℚ) (layers : Layers Constraint Env Input)
    (hids : (caps.capabilities.map McpCapability.capabilityId).Nodup) (calls : List (GateCall Env Input))
    (hclock : (calls.map GateCall.monotonic).Pairwise (· ≤ ·)) :
    (∀ cap ∈ caps.capabilities, ∀ a,
      passedWithin cap.capabilityId (passes caps window layers Dict.empty calls) a (a + window) ≤
        cap.rateLimitPerMinute.toNat) ∧
    ∀ pre call post cap, calls = pre ++ call :: post → under caps layers call = some cap →
      (refuses window cap call (runCalls caps window layers pre) ↔
        cap.rateLimitPerMinute ≤ passedWithin cap.capabilityId (passes caps window layers Dict.empty pre)
          (call.monotonic - window) call.monotonic) ∧
      (check caps window layers call (runCalls caps window layers pre)).1 =
        (check caps window layers call
          (runCalls caps window layers (pre.filter (underId caps layers cap.capabilityId)))).1 := by
  refine ⟨fun cap hcap a => window_limit hids hcap a calls hclock, ?_⟩
  intro pre call post cap hcalls hunder
  subst hcalls
  rw [List.map_append, List.pairwise_append] at hclock
  obtain ⟨hpre, -, hlast⟩ := hclock
  have hnow : ∀ earlier ∈ pre, earlier.monotonic ≤ call.monotonic := fun earlier hmem =>
    hlast _ (List.mem_map_of_mem hmem) _ List.mem_cons_self
  refine ⟨?_, check_congr hunder (bucket_run_filter pre cap.capabilityId)⟩
  unfold refuses
  rw [ne_eq, layer3_passes_iff, not_not, (follows_run caps window layers pre hpre).length_kept cap hnow]

def openLayers : Layers Unit Unit Unit where
  schema _ _ _ := .ok none
  parameterConstraints _ _ _ := .ok none
  prefilter _ _ := .ok none
  semanticGate _ _ _ := .ok none
  constitutional _ _ _ _ := .ok none
  recordAudit _ _ _ _ _ _ _ := .ok ()

def fetchCap : McpCapability Unit := ⟨txt "c1", txt "fetch", (), txt "agent", 100, txt "Classic", 2⟩

def fetchCaps : CapabilitySet Unit where
  capabilities := [fetchCap]
  agentIdentity := txt "agent"
  trustTier := txt "AiNative"
  revokedCapabilityIds := []

def fetchAt (t : ℚ) : GateCall Unit Unit := ⟨txt "fetch", (), 0, t, ()⟩

theorem rate_limit_sample :
    passedWithin fetchCap.capabilityId
      (passes fetchCaps 60 openLayers Dict.empty [fetchAt 0, fetchAt 0, fetchAt 60]) 0 (0 + 60) ≤
        fetchCap.rateLimitPerMinute.toNat :=
  (rate_limit_exact fetchCaps 60 openLayers (by decide) [fetchAt 0, fetchAt 0, fetchAt 60]
    (by decide)).1 fetchCap (List.mem_singleton_self _) 0

end TexGovernance.Kernel
