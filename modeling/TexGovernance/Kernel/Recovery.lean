import TexGovernance.Kernel.OrigDst

/-!
# Recovery of the original destination

Sockets connect, fail, are established and are closed in any order, and the proxy
looks up the source of a flow at any time. Nothing cleans the two maps when a
connect fails or a flow is closed.
-/

namespace TexGovernance.Kernel
open ByteOrder NetIp

inductive Socket where
  | idle
  | connecting (dst : Endpoint) (redirected : Bool)
  | established (dst : Endpoint) (redirected : Bool) (src : Endpoint)
  deriving DecidableEq

structure Host where
  maps : Maps
  socket : BitVec 64 → Socket

inductive Event where
  | warm (cache : BpfMap DstKey (BitVec 8)) (cache6 : BpfMap Dst6Key (BitVec 8))
  | connect (cookie : BitVec 64) (dst : Endpoint)
  | fail (cookie : BitVec 64)
  | established (cookie : BitVec 64) (src : Endpoint)
  | close (cookie : BitVec 64)
  | lookup (req : OrigDstReq)

def Host.setSocket (s : Host) (cookie : BitVec 64) (k : Socket) : Host :=
  { s with socket := Function.update s.socket cookie k }

def Event.Possible (s : Host) : Event → Prop
  | .connect cookie _ => s.socket cookie = .idle
  | .fail cookie => ∃ dst redirected, s.socket cookie = .connecting dst redirected
  | .established cookie src => src.port ≠ 0 ∧
    (∃ dst redirected, s.socket cookie = .connecting dst redirected) ∧
      ∀ other dst redirected, s.socket other ≠ .established dst redirected src
  | .close cookie => ∃ dst redirected src, s.socket cookie = .established dst redirected src
  | _ => True

def Socket.establish (src : Endpoint) : Socket → Socket
  | .connecting dst redirected => .established dst redirected src
  | k => k

def Event.apply (s : Host) : Event → Host
  | .warm cache cache6 => { s with maps := { s.maps with verdictCache := cache, verdictCache6 := cache6 } }
  | .connect cookie dst =>
    let r := Kernel.connect s.maps cookie dst
    let k := if r.ret = 0 then .idle else .connecting dst (r.ctx ≠ connectCall cookie dst)
    { s with maps := r.maps }.setSocket cookie k
  | .fail cookie => s.setSocket cookie .idle
  | .established cookie src =>
    { s with maps := texSockOps s.maps (establishedCall cookie src) }.setSocket cookie
      ((s.socket cookie).establish src)
  | .close cookie => s.setSocket cookie .idle
  | .lookup _ => s

/-- A host when the hooks are attached. -/
def Host.start (cfg : Option TexConfig) (cache : BpfMap DstKey (BitVec 8))
    (cache6 : BpfMap Dst6Key (BitVec 8)) : Host :=
  ⟨⟨cfg, cache, cache6, fun _ => none, fun _ => none⟩, fun _ => .idle⟩

def run (s : Host) (events : List Event) : Host := events.foldl Event.apply s

/-- Every event of a run meets the condition in the state in which it happens. -/
def Along (P : Host → Event → Prop) (s : Host) (events : List Event) : Prop :=
  ∀ before ev after, events = before ++ ev :: after → P (run s before) ev

def Recovers (s : Host) : Prop :=
  ∀ cookie dst redirected src, s.socket cookie = .established dst redirected src →
    ∀ req : OrigDstReq, req.AsksFor src →
      lookupOrigDst s.maps.srcToOrig req = if redirected then answerFor dst else notFound

def Event.Fresh (s : Host) : Event → Prop
  | .established cookie src => ∀ dst, s.socket cookie = .connecting dst false →
    s.maps.origDst cookie = none ∧ s.maps.srcToOrig (keyOf src) = none
  | _ => True

def Accounted (m : Maps) (cookie : BitVec 64) : Socket → Prop
  | .connecting dst true => m.origDst cookie = some (valOf dst)
  | .established dst true src => m.srcToOrig (keyOf src) = some (valOf dst)
  | .established _ false src => m.srcToOrig (keyOf src) = none
  | _ => True

def Tracked (s : Host) : Prop := ∀ cookie, Accounted s.maps cookie (s.socket cookie)

theorem Tracked.recovers {s : Host} (h : Tracked s) : Recovers s := by
  intro cookie dst redirected src hsocket req hreq
  obtain ⟨hmiss, hhit⟩ := lookupOrigDst_eq hreq s.maps.srcToOrig
  have haccount := h cookie
  rw [hsocket] at haccount
  cases redirected with
  | true => exact hhit dst haccount
  | false => exact hmiss haccount

theorem tracked_start (cfg : Option TexConfig) (cache : BpfMap DstKey (BitVec 8))
    (cache6 : BpfMap Dst6Key (BitVec 8)) : Tracked (Host.start cfg cache cache6) :=
  fun _ => trivial

section Steps

variable {s : Host} {cookie : BitVec 64}

theorem apply_established {dst : Endpoint} {redirected : Bool} (src : Endpoint)
    (h : s.socket cookie = .connecting dst redirected) :
    Event.apply s (.established cookie src) =
      Host.setSocket { s with maps := texSockOps s.maps (establishedCall cookie src) } cookie
        (.established dst redirected src) := by
  unfold Event.apply
  simp only [h, Socket.establish]

theorem tracked_set {m : Maps} {k : Socket} (hthis : Accounted m cookie k)
    (hother : ∀ other ≠ cookie, Accounted m other (s.socket other)) :
    Tracked (Host.setSocket { s with maps := m } cookie k) :=
  (Function.forall_update_iff s.socket fun c => Accounted m c).mpr ⟨hthis, hother⟩

theorem tracked_idle (h : Tracked s) : Tracked (s.setSocket cookie .idle) :=
  tracked_set trivial fun other _ => h other

theorem accounted_origDst {m : Maps} {other : BitVec 64} {k : Socket} (hne : other ≠ cookie)
    (v : Option OrigDstVal) (h : Accounted m other k) :
    Accounted { m with origDst := Function.update m.origDst cookie v } other k := by
  cases k with
  | idle => trivial
  | connecting dst redirected =>
    cases redirected with
    | true => exact (Function.update_of_ne hne ..).trans h
    | false => trivial
  | established dst redirected src =>
    cases redirected with
    | true => exact h
    | false => exact h

theorem accounted_srcToOrig {m : Maps} {other : BitVec 64} {k : Socket} {src : Endpoint}
    (v : Option OrigDstVal) (h : Accounted m other k)
    (hne : ∀ dst redirected, k ≠ .established dst redirected src) :
    Accounted { m with srcToOrig := Function.update m.srcToOrig (keyOf src) v } other k := by
  cases k with
  | idle => trivial
  | connecting dst redirected =>
    cases redirected with
    | true => exact h
    | false => trivial
  | established dst redirected src' =>
    have hkey : keyOf src' ≠ keyOf src := by
      intro hsame
      rw [keyOf_injective hsame] at hne
      exact hne dst redirected rfl
    cases redirected with
    | true => exact (Function.update_of_ne hkey ..).trans h
    | false => exact (Function.update_of_ne hkey ..).trans h

theorem tracked_connect (h : Tracked s) (dst : Endpoint) :
    Tracked (Event.apply s (.connect cookie dst)) := by
  have hother : ∀ other ≠ cookie, Accounted s.maps other (s.socket other) := fun other _ => h other
  unfold Event.apply
  simp only
  cases connect_connected s.maps cookie dst with
  | denied hret hmaps =>
    rw [hret, hmaps, if_pos rfl]
    exact tracked_idle h
  | direct hret hctx hmaps _ =>
    have hkept : decide (connectCall cookie dst ≠ connectCall cookie dst) = false := by simp
    rw [hret, hctx, hmaps, if_neg one_ne_zero, hkept]
    exact tracked_set trivial hother
  | redirected hret hctx hmaps =>
    rw [hret, hmaps, if_neg one_ne_zero, decide_eq_true hctx]
    refine tracked_set (Function.update_self ..) fun other hne => ?_
    exact accounted_origDst hne _ (hother other hne)

theorem tracked_established (h : Tracked s) {src : Endpoint}
    (hpossible : Event.Possible s (.established cookie src))
    (hfresh : Event.Fresh s (.established cookie src)) :
    Tracked (Event.apply s (.established cookie src)) := by
  obtain ⟨-, ⟨dst, redirected, hsocket⟩, hlive⟩ := hpossible
  have haccount := h cookie
  rw [hsocket] at haccount
  rw [apply_established src hsocket, texSockOps_established]
  cases redirected with
  | false =>
    obtain ⟨hstash, hentry⟩ := hfresh dst hsocket
    simp only [hstash]
    exact tracked_set hentry fun other _ => h other
  | true =>
    have hstash : s.maps.origDst cookie = some (valOf dst) := haccount
    simp only [hstash]
    refine tracked_set (Function.update_self ..) fun other hne => ?_
    have hsrc := accounted_srcToOrig (some (valOf dst)) (h other) fun d r => hlive other d r
    exact accounted_origDst hne none hsrc

theorem tracked_step (h : Tracked s) {ev : Event} (hpossible : ev.Possible s) (hfresh : ev.Fresh s) :
    Tracked (ev.apply s) := by
  cases ev with
  | warm cache cache6 =>
    intro c
    have haccount := h c
    change Accounted _ c (s.socket c)
    cases hk : s.socket c with
    | idle => trivial
    | connecting dst redirected =>
      rw [hk] at haccount
      exact haccount
    | established dst redirected src =>
      rw [hk] at haccount
      cases redirected with
      | true => exact haccount
      | false => exact haccount
  | connect cookie dst => exact tracked_connect h dst
  | fail cookie => exact tracked_idle h
  | established cookie src => exact tracked_established h hpossible hfresh
  | close cookie => exact tracked_idle h
  | lookup req => exact h

def requestFor (src : Endpoint) : OrigDstReq :=
  ⟨string src.ip, src.port.toNat, match src.ip with
    | .four _ => 4
    | .sixteen _ => 6⟩

theorem requestFor_asksFor {src : Endpoint} (h : src.port ≠ 0) : (requestFor src).AsksFor src := by
  refine ⟨h, parseIP_string src.ip, rfl, ?_⟩
  unfold requestFor
  cases src.ip with
  | four b => rfl
  | sixteen b => rfl

theorem fresh_of_recovers {ev : Event} (hpossible : ev.Possible s) (h : Recovers (ev.apply s)) :
    ev.Fresh s := by
  cases ev with
  | established cookie src =>
    intro dst hsocket
    obtain ⟨hport, -, -⟩ := hpossible
    have hnow : (Event.apply s (.established cookie src)).socket cookie = .established dst false src := by
      rw [apply_established src hsocket]
      exact Function.update_self ..
    have hnothing := h cookie dst false src hnow (requestFor src) (requestFor_asksFor hport)
    have hkey : (texSockOps s.maps (establishedCall cookie src)).srcToOrig (keyOf src) = none := by
      by_contra hsome
      exact lookupOrigDst_found (requestFor_asksFor hport) hsome hnothing
    rw [texSockOps_established] at hkey
    cases hstash : s.maps.origDst cookie with
    | none =>
      simp only [hstash] at hkey
      exact ⟨rfl, hkey⟩
    | some val =>
      simp only [hstash] at hkey
      rw [BpfMap.update_self] at hkey
      cases hkey
  | warm cache cache6 => trivial
  | connect cookie dst => trivial
  | fail cookie => trivial
  | close cookie => trivial
  | lookup req => trivial

end Steps

theorem run_concat (s : Host) (events : List Event) (ev : Event) :
    run s (events ++ [ev]) = ev.apply (run s events) := by
  unfold run
  rw [List.foldl_append]
  rfl

section Runs

variable (cfg : Option TexConfig) (cache : BpfMap DstKey (BitVec 8)) (cache6 : BpfMap Dst6Key (BitVec 8))

/-- Destinations are recovered throughout a run exactly if every flow that was not
redirected is established where nothing was left. -/
theorem recovery_iff (events : List Event)
    (hpossible : Along Event.Possible (Host.start cfg cache cache6) events) :
    (∀ before after, events = before ++ after → Recovers (run (Host.start cfg cache cache6) before)) ↔
      Along Event.Fresh (Host.start cfg cache cache6) events := by
  constructor
  · intro h before ev after hsplit
    refine fresh_of_recovers (hpossible before ev after hsplit) ?_
    rw [← run_concat]
    exact h (before ++ [ev]) after (by rw [hsplit, List.append_assoc]; rfl)
  · intro hfresh before
    -- the induction is on the events so far; what is tracked carries it
    have htracked : ∀ after, events = before ++ after →
        Tracked (run (Host.start cfg cache cache6) before) := by
      induction before using List.reverseRecOn with
      | nil => exact fun _ _ => tracked_start cfg cache cache6
      | append_singleton before ev ih =>
        intro after hsplit
        have hsplit' : events = before ++ ev :: after := by rw [hsplit, List.append_assoc]; rfl
        rw [run_concat]
        exact tracked_step (ih (ev :: after) hsplit') (hpossible before ev after hsplit')
          (hfresh before ev after hsplit')
    exact fun after hsplit => (htracked after hsplit).recovers

end Runs

@[simp] theorem along_nil (P : Host → Event → Prop) (s : Host) : Along P s [] := by
  intro before e after hsplit
  simp at hsplit

@[simp] theorem along_cons (P : Host → Event → Prop) (s : Host) (ev : Event) (rest : List Event) :
    Along P s (ev :: rest) ↔ P s ev ∧ Along P (ev.apply s) rest := by
  constructor
  · intro h
    refine ⟨h [] ev rest rfl, fun before e after hsplit => ?_⟩
    exact h (ev :: before) e after (by rw [hsplit]; rfl)
  · intro ⟨hfirst, hrest⟩ before e after hsplit
    cases before with
    | nil =>
      obtain ⟨rfl, -⟩ := List.cons.inj hsplit
      exact hfirst
    | cons first before =>
      obtain ⟨rfl, hsplit'⟩ := List.cons.inj hsplit
      exact hrest before e after hsplit'

def Event.cookie : Event → Option (BitVec 64)
  | .connect cookie _ => some cookie
  | .fail cookie => some cookie
  | .established cookie _ => some cookie
  | .close cookie => some cookie
  | _ => none

theorem apply_other (s : Host) {ev : Event} {other : BitVec 64} (h : ev.cookie ≠ some other) :
    (ev.apply s).socket other = s.socket other := by
  cases ev with
  | warm => rfl
  | lookup => rfl
  | _ => exact Function.update_of_ne (fun heq => h (congrArg some heq.symm)) ..

/-- An address outside, the proxy, and a source. -/
def outside : Endpoint := ⟨.four ⟨192, 0, 2, 1⟩, 443⟩

def proxyEndpoint : Endpoint := ⟨.four ⟨127, 0, 0, 1⟩, 8088⟩

def source : Endpoint := ⟨.four ⟨127, 0, 0, 1⟩, 40000⟩

def localHost : Host := Host.start (some (localProxy 0)) (fun _ => none) fun _ => none

def Socket.source : Socket → Option Endpoint
  | .established _ _ src => some src
  | _ => none

def TwoSockets (s : Host) : Prop := ∀ other, other ≠ 1 → other ≠ 2 → s.socket other = .idle

theorem twoSockets_run (events : List Event)
    (hcookie : ∀ ev ∈ events, ev.cookie = some 1 ∨ ev.cookie = some 2) :
    TwoSockets (run localHost events) := by
  induction events using List.reverseRecOn with
  | nil => exact fun _ _ _ => rfl
  | append_singleton events ev ih =>
    have hearlier := ih fun e he => hcookie e (List.mem_append_left _ he)
    intro other h1 h2
    have hother : ev.cookie ≠ some other := by
      intro heq
      rcases hcookie ev (List.mem_append_right _ (List.mem_singleton_self ev)) with hc | hc
      · exact h1 (Option.some.inj (heq.symm.trans hc))
      · exact h2 (Option.some.inj (heq.symm.trans hc))
    rw [run_concat, apply_other _ hother]
    exact hearlier other h1 h2

theorem TwoSockets.possible {s : Host} (h : TwoSockets s) {cookie : BitVec 64} {src : Endpoint}
    (dst : Endpoint) (redirected : Bool) (hport : src.port ≠ 0) (hsocket : s.socket cookie = .connecting dst redirected)
    (h1 : (s.socket 1).source ≠ some src) (h2 : (s.socket 2).source ≠ some src) :
    Event.Possible s (.established cookie src) := by
  refine ⟨hport, ⟨dst, redirected, hsocket⟩, fun other d r hlive => ?_⟩
  have hsource : (s.socket other).source = some src := by rw [hlive, Socket.source]
  by_cases hone : other = 1
  · exact h1 (hone ▸ hsource)
  · by_cases htwo : other = 2
    · exact h2 (htwo ▸ hsource)
    · rw [h other hone htwo] at hlive
      cases hlive

attribute [local simp] Event.cookie

theorem first_possible : Along Event.Possible localHost [.connect 1 outside, .established 1 source] := by
  have htwo := twoSockets_run [.connect 1 outside] (by simp)
  rw [along_cons, along_cons]
  refine ⟨rfl, htwo.possible outside true ?_ ?_ ?_ ?_, along_nil _ _⟩
  all_goals decide

theorem recovery_of_one_flow : Recovers (run localHost [.connect 1 outside, .established 1 source]) := by
  refine (recovery_iff _ _ _ [.connect 1 outside, .established 1 source] first_possible).mpr ?_ _ []
    (List.append_nil _).symm
  rw [along_cons, along_cons]
  refine ⟨trivial, fun dst hconnecting => ?_, along_nil _ _⟩
  have hsocket : (Event.apply localHost (.connect 1 outside)).socket 1 = .connecting outside true := by
    decide
  cases hsocket.symm.trans hconnecting

/-- A source port is used again, by a flow to the proxy itself. -/
def reusedSource : List Event :=
  [.connect 1 outside, .established 1 source, .close 1, .connect 2 proxyEndpoint, .established 2 source]

def failedConnect : List Event :=
  [.connect 1 outside, .fail 1, .connect 1 proxyEndpoint, .established 1 source]

theorem reusedSource_possible : Along Event.Possible localHost reusedSource := by
  have hone := twoSockets_run [.connect 1 outside] (by simp)
  have htwo := twoSockets_run [.connect 1 outside, .established 1 source, .close 1,
    .connect 2 proxyEndpoint] (by simp)
  unfold reusedSource
  rw [along_cons, along_cons, along_cons, along_cons, along_cons]
  refine ⟨rfl, hone.possible outside true ?_ ?_ ?_ ?_, ⟨outside, true, source, ?_⟩, rfl,
    htwo.possible proxyEndpoint false ?_ ?_ ?_ ?_, along_nil _ _⟩
  all_goals decide

theorem failedConnect_possible : Along Event.Possible localHost failedConnect := by
  have htwo := twoSockets_run [.connect 1 outside, .fail 1, .connect 1 proxyEndpoint]
    (by simp)
  unfold failedConnect
  rw [along_cons, along_cons, along_cons, along_cons]
  refine ⟨rfl, ⟨outside, true, ?_⟩, rfl, htwo.possible proxyEndpoint false ?_ ?_ ?_ ?_, along_nil _ _⟩
  all_goals decide

theorem not_recovers {s : Host} {cookie : BitVec 64} {dst src other : Endpoint}
    (hsocket : s.socket cookie = .established dst false src) (hport : src.port ≠ 0)
    (hanswer : lookupOrigDst s.maps.srcToOrig (requestFor src) = answerFor other) : ¬Recovers s := by
  intro h
  have hnothing := h cookie dst false src hsocket (requestFor src) (requestFor_asksFor hport)
  exact (answerFor_spec other).2.2 (hanswer.symm.trans hnothing)

/-- The proxy is told the destination of another connect. -/
theorem stale_destination_answered :
    Along Event.Possible localHost reusedSource ∧ Along Event.Possible localHost failedConnect ∧
      lookupOrigDst (run localHost reusedSource).maps.srcToOrig (requestFor source) = answerFor outside ∧
      lookupOrigDst (run localHost failedConnect).maps.srcToOrig (requestFor source) = answerFor outside ∧
      ¬Recovers (run localHost reusedSource) ∧ ¬Recovers (run localHost failedConnect) := by
  have hreused : lookupOrigDst (run localHost reusedSource).maps.srcToOrig (requestFor source) =
      answerFor outside := by decide
  have hfailed : lookupOrigDst (run localHost failedConnect).maps.srcToOrig (requestFor source) =
      answerFor outside := by decide
  have hsecond : (run localHost reusedSource).socket 2 = .established proxyEndpoint false source := by
    decide
  have hfirst : (run localHost failedConnect).socket 1 = .established proxyEndpoint false source := by
    decide
  exact ⟨reusedSource_possible, failedConnect_possible, hreused, hfailed,
    not_recovers hsecond (by decide) hreused, not_recovers hfirst (by decide) hfailed⟩

end TexGovernance.Kernel
