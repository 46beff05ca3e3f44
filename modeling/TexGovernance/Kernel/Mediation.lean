import Mathlib.Logic.Function.Basic
import TexGovernance.Lib.ByteOrder

/-!
# The egress hooks and complete mediation

The programs of `pep/kernel/bpf/tex_redirect.bpf.c`. Addresses and ports are in network order
unless said otherwise; a word is read by a little endian machine. The maps are below their
capacity; the padding of a key is zero throughout and left out.
-/

namespace TexGovernance.Kernel
open ByteOrder

def afInet : BitVec 32 := 2

def afInet6 : BitVec 32 := 10

def sockStream : BitVec 32 := 1

def sockDgram : BitVec 32 := 2

def texForbid : BitVec 8 := 2

/-- `tex_config`; the address of a version 6 proxy is four words. -/
structure TexConfig where
  proxyIp4 : BitVec 32
  proxyPort : BitVec 16
  udpProxyPort : BitVec 16
  proxyIp6 : Four (BitVec 32)
  allowDns : BitVec 8

structure DstKey where
  ip4 : BitVec 32
  port : BitVec 16
  deriving DecidableEq

structure Dst6Key where
  ip6 : Four (BitVec 32)
  port : BitVec 16
  deriving DecidableEq

structure OrigDstVal where
  ip : Four (BitVec 32)
  port : BitVec 16
  family : BitVec 8
  deriving DecidableEq

structure SrcKey where
  family : BitVec 8
  srcIp : Four (BitVec 32)
  srcPort : BitVec 16
  deriving DecidableEq

/-- What `bpf_map_lookup_elem` finds. -/
abbrev BpfMap (κ ν : Type) := κ → Option ν

namespace BpfMap

variable {κ ν : Type} [DecidableEq κ]

def update (m : BpfMap κ ν) (k : κ) (v : ν) : BpfMap κ ν := Function.update m k (some v)

def delete (m : BpfMap κ ν) (k : κ) : BpfMap κ ν := Function.update m k none

@[simp] theorem update_self (m : BpfMap κ ν) (k : κ) (v : ν) : m.update k v k = some v :=
  Function.update_self ..

end BpfMap

structure Maps where
  texCfg : Option TexConfig
  verdictCache : BpfMap DstKey (BitVec 8)
  verdictCache6 : BpfMap Dst6Key (BitVec 8)
  origDst : BpfMap (BitVec 64) OrigDstVal
  srcToOrig : BpfMap SrcKey OrigDstVal

/-- `bpf_sock`; its port is in host order. -/
structure BpfSock where
  srcIp4 : BitVec 32
  srcIp6 : Four (BitVec 32)
  srcPort : BitVec 32
  deriving DecidableEq

/-- `bpf_sock_addr`, with what `bpf_get_socket_cookie` returns for it. -/
structure BpfSockAddr where
  userFamily : BitVec 32
  userIp4 : BitVec 32
  userIp6 : Four (BitVec 32)
  userPort : BitVec 32
  type : BitVec 32
  sk : Option BpfSock
  cookie : BitVec 64
  deriving DecidableEq

def BpfSockAddr.port (ctx : BpfSockAddr) : BitVec 16 := ctx.userPort.setWidth 16

structure HookResult where
  ret : ℕ
  ctx : BpfSockAddr
  maps : Maps

structure Family (A : Type) where
  af : BitVec 32
  tag : BitVec 8
  dst : BpfSockAddr → A
  proxy : TexConfig → A
  verdict : Maps → A → BitVec 16 → Option (BitVec 8)
  source : BpfSock → A
  words : A → Four (BitVec 32)
  rewrite : BpfSockAddr → A → BitVec 16 → BpfSockAddr
  dst_rewrite : ∀ ctx a port, dst (rewrite ctx a port) = a
  port_rewrite : ∀ ctx a port, (rewrite ctx a port).userPort = port.setWidth 32

def v4 : Family (BitVec 32) where
  af := afInet
  tag := 4
  dst ctx := ctx.userIp4
  proxy cfg := cfg.proxyIp4
  verdict m ip port := m.verdictCache ⟨ip, port⟩
  source sk := sk.srcIp4
  words ip := ⟨ip, 0, 0, 0⟩
  rewrite ctx ip port := { ctx with userIp4 := ip, userPort := port.setWidth 32 }
  dst_rewrite _ _ _ := rfl
  port_rewrite _ _ _ := rfl

def v6 : Family (Four (BitVec 32)) where
  af := afInet6
  tag := 6
  dst ctx := ctx.userIp6
  proxy cfg := cfg.proxyIp6
  verdict m ip port := m.verdictCache6 ⟨ip, port⟩
  source sk := sk.srcIp6
  words ip := ip
  rewrite ctx ip port := { ctx with userIp6 := ip, userPort := port.setWidth 32 }
  dst_rewrite _ _ _ := rfl
  port_rewrite _ _ _ := rfl

variable {A : Type} [DecidableEq A] (fam : Family A)

def ToProxy (cfg : TexConfig) (ctx : BpfSockAddr) : Prop :=
  fam.dst ctx = fam.proxy cfg ∧ (ctx.port = cfg.proxyPort ∨ ctx.port = cfg.udpProxyPort)

instance (cfg : TexConfig) (ctx : BpfSockAddr) : Decidable (ToProxy fam cfg ctx) :=
  inferInstanceAs (Decidable (_ ∧ _))

def Forbidden (m : Maps) (ctx : BpfSockAddr) : Prop :=
  fam.verdict m (fam.dst ctx) ctx.port = some texForbid

instance (m : Maps) (ctx : BpfSockAddr) : Decidable (Forbidden fam m ctx) :=
  inferInstanceAs (Decidable (_ = _))

def DnsAllowed (cfg : TexConfig) (ctx : BpfSockAddr) : Prop :=
  cfg.allowDns ≠ 0 ∧ ctx.port = swap16 53

instance (cfg : TexConfig) (ctx : BpfSockAddr) : Decidable (DnsAllowed cfg ctx) :=
  inferInstanceAs (Decidable (_ ∧ _))

def origDstVal (ctx : BpfSockAddr) : OrigDstVal := ⟨fam.words (fam.dst ctx), ctx.port, fam.tag⟩

def stashBySource (ctx : BpfSockAddr) (m : Maps) : Maps :=
  match ctx.sk with
  | none => m
  | some sk =>
    if sk.srcPort = 0 then m
    else { m with
      srcToOrig := m.srcToOrig.update
        ⟨fam.tag, fam.words (fam.source sk), swap16 (sk.srcPort.setWidth 16)⟩ (origDstVal fam ctx) }

def stashByCookie (ctx : BpfSockAddr) (m : Maps) : Maps :=
  { m with origDst := m.origDst.update ctx.cookie (origDstVal fam ctx) }

/-- `connect` of one family. -/
def connectHook (m : Maps) (ctx : BpfSockAddr) : HookResult :=
  if ctx.userFamily ≠ fam.af then ⟨1, ctx, m⟩
  else match m.texCfg with
  | none => ⟨0, ctx, m⟩
  | some cfg =>
    if ToProxy fam cfg ctx then ⟨1, ctx, m⟩
    else if Forbidden fam m ctx then ⟨0, ctx, m⟩
    else if ctx.type = sockDgram then
      if cfg.udpProxyPort = 0 then ⟨0, ctx, m⟩
      else ⟨1, fam.rewrite ctx (fam.proxy cfg) cfg.udpProxyPort, stashBySource fam ctx m⟩
    else ⟨1, fam.rewrite ctx (fam.proxy cfg) cfg.proxyPort, stashByCookie fam ctx m⟩

/-- `sendmsg` of one family, with the port that the datagram is sent on to. -/
def sendmsgHook (target : TexConfig → BitVec 16) (m : Maps) (ctx : BpfSockAddr) : HookResult :=
  if ctx.userFamily ≠ fam.af then ⟨1, ctx, m⟩
  else match m.texCfg with
  | none => ⟨0, ctx, m⟩
  | some cfg =>
    if ToProxy fam cfg ctx then ⟨1, ctx, m⟩
    else if Forbidden fam m ctx then ⟨0, ctx, m⟩
    else if DnsAllowed cfg ctx then ⟨1, ctx, m⟩
    else if cfg.udpProxyPort = 0 then ⟨0, ctx, m⟩
    else ⟨1, fam.rewrite ctx (fam.proxy cfg) (target cfg), stashBySource fam ctx m⟩

def texConnect4 : Maps → BpfSockAddr → HookResult := connectHook v4

def texConnect6 : Maps → BpfSockAddr → HookResult := connectHook v6

def texSendmsg4 : Maps → BpfSockAddr → HookResult := sendmsgHook v4 TexConfig.udpProxyPort

def texSendmsg6 : Maps → BpfSockAddr → HookResult := sendmsgHook v6 TexConfig.proxyPort

end TexGovernance.Kernel

namespace TexGovernance.Kernel
open ByteOrder

section Hooks

variable {A : Type} (fam : Family A)

theorem rewrite_ne {cfg : TexConfig} {ctx : BpfSockAddr} {port : BitVec 16}
    (hport : port = cfg.proxyPort ∨ port = cfg.udpProxyPort) (h : ¬ToProxy fam cfg ctx) :
    fam.rewrite ctx (fam.proxy cfg) port ≠ ctx := by
  intro hsame
  have hdst : fam.dst ctx = fam.proxy cfg := by
    rw [← fam.dst_rewrite ctx (fam.proxy cfg) port, hsame]
  have hwritten : ctx.port = port := by
    unfold BpfSockAddr.port
    rw [← hsame, fam.port_rewrite]
    simp
  exact h ⟨hdst, hwritten ▸ hport⟩

/-- What a hook may do with a call, where `datagram` tells whether it sends
datagrams and `exempt` what may pass. -/
structure Mediated (datagram : Prop) (exempt : TexConfig → Prop) (m : Maps) (ctx : BpfSockAddr)
    (r : HookResult) : Prop where
  unconfigured : m.texCfg = none → r.ret = 0
  forbidden : ∀ cfg ∈ m.texCfg, ¬ToProxy fam cfg ctx → Forbidden fam m ctx → r.ret = 0
  noUdpProxy : ∀ cfg ∈ m.texCfg, datagram → cfg.udpProxyPort = 0 → ¬ToProxy fam cfg ctx →
    ¬exempt cfg → r.ret = 0
  outcome : r.ret = 0 ∨ r.ret = 1 ∧ ∃ cfg ∈ m.texCfg,
    r.ctx = ctx ∧ (ToProxy fam cfg ctx ∨ exempt cfg) ∨
    r.ctx = fam.rewrite ctx (fam.proxy cfg) cfg.udpProxyPort ∧ datagram ∨
    r.ctx = fam.rewrite ctx (fam.proxy cfg) cfg.proxyPort ∧ ¬datagram

section Cases

variable {fam} {datagram : Prop} {exempt : TexConfig → Prop} {m : Maps} {ctx : BpfSockAddr}
  {r : HookResult} {cfg : TexConfig}

theorem Mediated.of_denied (h : r.ret = 0) : Mediated fam datagram exempt m ctx r :=
  ⟨fun _ => h, fun _ _ _ _ => h, fun _ _ _ _ _ _ => h, .inl h⟩

theorem Mediated.of_left (hcfg : m.texCfg = some cfg) (maps : Maps)
    (h : ToProxy fam cfg ctx ∨ exempt cfg ∧ ¬Forbidden fam m ctx) :
    Mediated fam datagram exempt m ctx ⟨1, ctx, maps⟩ where
  unconfigured hnone := by simp [hcfg] at hnone
  forbidden cfg' hcfg' hproxy hforbidden := by
    obtain rfl : cfg = cfg' := Option.some.inj (hcfg.symm.trans hcfg')
    exact absurd hforbidden (h.resolve_left hproxy).2
  noUdpProxy cfg' hcfg' _ _ hproxy hexempt := by
    obtain rfl : cfg = cfg' := Option.some.inj (hcfg.symm.trans hcfg')
    exact absurd (h.resolve_left hproxy).1 hexempt
  outcome := .inr ⟨rfl, cfg, hcfg, .inl ⟨rfl, h.imp_right And.left⟩⟩

theorem mediated_sent_iff (hcfg : m.texCfg = some cfg) (maps : Maps) {port : BitVec 16}
    (hport : port = cfg.proxyPort ∨ port = cfg.udpProxyPort) (hproxy : ¬ToProxy fam cfg ctx)
    (hforbidden : ¬Forbidden fam m ctx) (hudp : datagram → cfg.udpProxyPort ≠ 0) :
    Mediated fam datagram exempt m ctx ⟨1, fam.rewrite ctx (fam.proxy cfg) port, maps⟩ ↔
      (datagram → port = cfg.udpProxyPort) ∧ (¬datagram → port = cfg.proxyPort) := by
  have hsame : ∀ other, fam.rewrite ctx (fam.proxy cfg) port = fam.rewrite ctx (fam.proxy cfg) other →
      port = other := by
    intro other h
    have hwritten := congrArg BpfSockAddr.port h
    unfold BpfSockAddr.port at hwritten
    rw [fam.port_rewrite, fam.port_rewrite] at hwritten
    simpa using hwritten
  constructor
  · intro h
    rcases h.outcome with hdenied | ⟨-, cfg', hcfg', hleft | ⟨hsent, hkind⟩ | ⟨hsent, hkind⟩⟩
    · cases hdenied
    · exact absurd hleft.1 (rewrite_ne fam hport hproxy)
    · obtain rfl : cfg = cfg' := Option.some.inj (hcfg.symm.trans hcfg')
      exact ⟨fun _ => hsame _ hsent, fun hnot => absurd hkind hnot⟩
    · obtain rfl : cfg = cfg' := Option.some.inj (hcfg.symm.trans hcfg')
      exact ⟨fun hd => absurd hd hkind, fun _ => hsame _ hsent⟩
  · intro ⟨hdatagram, hstream⟩
    refine ⟨by simp [hcfg], fun cfg' hcfg' _ hf => absurd hf hforbidden, ?_, ?_⟩
    · intro cfg' hcfg' hd hzero _ _
      obtain rfl : cfg = cfg' := Option.some.inj (hcfg.symm.trans hcfg')
      exact absurd hzero (hudp hd)
    · refine .inr ⟨rfl, cfg, hcfg, .inr ?_⟩
      by_cases hd : datagram
      · exact .inl ⟨by rw [hdatagram hd], hd⟩
      · exact .inr ⟨by rw [hstream hd], hd⟩

end Cases

variable [DecidableEq A]

theorem connectHook_mediated (m : Maps) (ctx : BpfSockAddr) (h : ctx.userFamily = fam.af) :
    Mediated fam (ctx.type = sockDgram) (fun _ => False) m ctx (connectHook fam m ctx) := by
  unfold connectHook
  rw [if_neg (not_not.mpr h)]
  cases hcfg : m.texCfg with
  | none => exact Mediated.of_denied rfl
  | some cfg =>
    by_cases hproxy : ToProxy fam cfg ctx
    · simp only [if_pos hproxy]
      exact Mediated.of_left hcfg m (.inl hproxy)
    simp only [if_neg hproxy]
    by_cases hforbidden : Forbidden fam m ctx
    · rw [if_pos hforbidden]
      exact Mediated.of_denied rfl
    rw [if_neg hforbidden]
    by_cases hdatagram : ctx.type = sockDgram
    · rw [if_pos hdatagram]
      by_cases hudp : cfg.udpProxyPort = 0
      · rw [if_pos hudp]
        exact Mediated.of_denied rfl
      · rw [if_neg hudp]
        exact (mediated_sent_iff hcfg _ (.inr rfl) hproxy hforbidden fun _ => hudp).mpr
          ⟨fun _ => rfl, fun hnot => absurd hdatagram hnot⟩
    · rw [if_neg hdatagram]
      exact (mediated_sent_iff hcfg _ (.inl rfl) hproxy hforbidden fun hd => absurd hd hdatagram).mpr
        ⟨fun hd => absurd hd hdatagram, fun _ => rfl⟩

def Misdirected (target : TexConfig → BitVec 16) (m : Maps) (ctx : BpfSockAddr) : Prop :=
  ∃ cfg ∈ m.texCfg, ¬ToProxy fam cfg ctx ∧ ¬Forbidden fam m ctx ∧ ¬DnsAllowed cfg ctx ∧
    cfg.udpProxyPort ≠ 0 ∧ target cfg ≠ cfg.udpProxyPort

theorem sendmsgHook_mediated_iff {target : TexConfig → BitVec 16} (m : Maps) (ctx : BpfSockAddr)
    (h : ctx.userFamily = fam.af)
    (htarget : ∀ cfg, target cfg = cfg.proxyPort ∨ target cfg = cfg.udpProxyPort) :
    Mediated fam True (fun cfg => DnsAllowed cfg ctx) m ctx (sendmsgHook fam target m ctx) ↔
      ¬Misdirected fam target m ctx := by
  unfold sendmsgHook Misdirected
  rw [if_neg (not_not.mpr h)]
  cases hcfg : m.texCfg with
  | none => exact iff_of_true (Mediated.of_denied rfl) (by simp)
  | some cfg =>
    simp only [Option.mem_some_iff, exists_eq_left']
    by_cases hproxy : ToProxy fam cfg ctx
    · rw [if_pos hproxy]
      exact iff_of_true (Mediated.of_left hcfg m (.inl hproxy)) fun hmis => hmis.1 hproxy
    rw [if_neg hproxy]
    by_cases hforbidden : Forbidden fam m ctx
    · rw [if_pos hforbidden]
      exact iff_of_true (Mediated.of_denied rfl) fun hmis => hmis.2.1 hforbidden
    rw [if_neg hforbidden]
    by_cases hdns : DnsAllowed cfg ctx
    · rw [if_pos hdns]
      exact iff_of_true (Mediated.of_left hcfg m (.inr ⟨hdns, hforbidden⟩)) fun hmis => hmis.2.2.1 hdns
    rw [if_neg hdns]
    by_cases hudp : cfg.udpProxyPort = 0
    · rw [if_pos hudp]
      exact iff_of_true (Mediated.of_denied rfl) fun hmis => hmis.2.2.2.1 hudp
    rw [if_neg hudp, mediated_sent_iff hcfg _ (htarget cfg) hproxy hforbidden fun _ => hudp]
    constructor
    · intro ⟨hport, _⟩ hmis
      exact hmis.2.2.2.2 (hport trivial)
    · intro hnot
      refine ⟨fun _ => ?_, fun hd => absurd trivial hd⟩
      by_contra hport
      exact hnot ⟨hproxy, hforbidden, hdns, hudp, hport⟩

inductive Decision where
  | deny
  | leave
  | redirect (port : BitVec 16)
  deriving DecidableEq

def decisionOf (ctx : BpfSockAddr) (r : HookResult) : Decision :=
  if r.ret = 0 then .deny
  else if r.ctx = ctx then .leave
  else .redirect r.ctx.port

omit [DecidableEq A] in
theorem decisionOf_rewrite {cfg : TexConfig} {ctx : BpfSockAddr} {port : BitVec 16} (m : Maps)
    (hport : port = cfg.proxyPort ∨ port = cfg.udpProxyPort) (h : ¬ToProxy fam cfg ctx) :
    decisionOf ctx ⟨1, fam.rewrite ctx (fam.proxy cfg) port, m⟩ = .redirect port := by
  unfold decisionOf BpfSockAddr.port
  rw [if_neg one_ne_zero, if_neg (rewrite_ne fam hport h), fam.port_rewrite]
  simp

theorem connectHook_decision (m : Maps) (ctx : BpfSockAddr) (h : ctx.userFamily = fam.af) :
    decisionOf ctx (connectHook fam m ctx) =
      match m.texCfg with
      | none => .deny
      | some cfg =>
        if ToProxy fam cfg ctx then .leave
        else if Forbidden fam m ctx then .deny
        else if ctx.type = sockDgram then
          if cfg.udpProxyPort = 0 then .deny else .redirect cfg.udpProxyPort
        else .redirect cfg.proxyPort := by
  unfold connectHook
  rw [if_neg (not_not.mpr h)]
  cases m.texCfg with
  | none => rfl
  | some cfg =>
    by_cases hproxy : ToProxy fam cfg ctx
    · simp [hproxy, decisionOf]
    · simp only [if_neg hproxy]
      split
      · rfl
      · split
        · split
          · rfl
          · exact decisionOf_rewrite fam _ (.inr rfl) hproxy
        · exact decisionOf_rewrite fam _ (.inl rfl) hproxy

theorem sendmsgHook_decision {target : TexConfig → BitVec 16} (m : Maps) (ctx : BpfSockAddr)
    (h : ctx.userFamily = fam.af)
    (htarget : ∀ cfg, target cfg = cfg.proxyPort ∨ target cfg = cfg.udpProxyPort) :
    decisionOf ctx (sendmsgHook fam target m ctx) =
      match m.texCfg with
      | none => .deny
      | some cfg =>
        if ToProxy fam cfg ctx then .leave
        else if Forbidden fam m ctx then .deny
        else if DnsAllowed cfg ctx then .leave
        else if cfg.udpProxyPort = 0 then .deny else .redirect (target cfg) := by
  unfold sendmsgHook
  rw [if_neg (not_not.mpr h)]
  cases m.texCfg with
  | none => rfl
  | some cfg =>
    by_cases hproxy : ToProxy fam cfg ctx
    · simp [hproxy, decisionOf]
    · simp only [if_neg hproxy]
      split
      · rfl
      · split
        · simp [decisionOf]
        · split
          · rfl
          · exact decisionOf_rewrite fam _ (htarget cfg) hproxy

end Hooks

structure Corresponding (m : Maps) (c4 c6 : BpfSockAddr) : Prop where
  type : c4.type = c6.type
  port : c4.port = c6.port
  proxy : ∀ cfg ∈ m.texCfg, c4.userIp4 = cfg.proxyIp4 ↔ c6.userIp6 = cfg.proxyIp6
  forbidden : Forbidden v4 m c4 ↔ Forbidden v6 m c6

theorem Corresponding.toProxy {m : Maps} {c4 c6 : BpfSockAddr} (h : Corresponding m c4 c6)
    {cfg : TexConfig} (hcfg : m.texCfg = some cfg) : ToProxy v4 cfg c4 ↔ ToProxy v6 cfg c6 := by
  unfold ToProxy
  rw [h.port]
  exact and_congr_left fun _ => h.proxy cfg hcfg

theorem Corresponding.dnsAllowed {m : Maps} {c4 c6 : BpfSockAddr} (h : Corresponding m c4 c6)
    (cfg : TexConfig) : DnsAllowed cfg c4 ↔ DnsAllowed cfg c6 := by
  unfold DnsAllowed
  rw [h.port]

theorem connect_agree {m : Maps} {c4 c6 : BpfSockAddr} (h4 : c4.userFamily = afInet)
    (h6 : c6.userFamily = afInet6) (h : Corresponding m c4 c6) :
    decisionOf c4 (texConnect4 m c4) = decisionOf c6 (texConnect6 m c6) := by
  unfold texConnect4 texConnect6
  rw [connectHook_decision v4 m c4 h4, connectHook_decision v6 m c6 h6]
  cases hcfg : m.texCfg with
  | none => rfl
  | some cfg => simp only [h.toProxy hcfg, h.forbidden, h.type]

theorem sendmsg_agree {m : Maps} {c4 c6 : BpfSockAddr} (h4 : c4.userFamily = afInet)
    (h6 : c6.userFamily = afInet6) (h : Corresponding m c4 c6)
    (hport : ¬Misdirected v6 TexConfig.proxyPort m c6) :
    decisionOf c4 (texSendmsg4 m c4) = decisionOf c6 (texSendmsg6 m c6) := by
  unfold texSendmsg4 texSendmsg6
  rw [sendmsgHook_decision v4 m c4 h4 fun _ => .inr rfl,
    sendmsgHook_decision v6 m c6 h6 fun _ => .inl rfl]
  cases hcfg : m.texCfg with
  | none => rfl
  | some cfg =>
    simp only [h.toProxy hcfg, h.forbidden, h.dnsAllowed cfg]
    by_cases hsame : cfg.proxyPort = cfg.udpProxyPort
    · rw [hsame]
    · split
      · rfl
      · next hproxy =>
        split
        · rfl
        · next hforbidden =>
          split
          · rfl
          · next hdns =>
            split
            · rfl
            · next hudp => exact absurd ⟨cfg, hcfg, hproxy, hforbidden, hdns, hudp, hsame⟩ hport

structure CompleteMediation (m : Maps) (c4 c6 : BpfSockAddr) : Prop where
  connect4 : Mediated v4 (c4.type = sockDgram) (fun _ => False) m c4 (texConnect4 m c4)
  connect6 : Mediated v6 (c6.type = sockDgram) (fun _ => False) m c6 (texConnect6 m c6)
  sendmsg4 : Mediated v4 True (fun cfg => DnsAllowed cfg c4) m c4 (texSendmsg4 m c4)
  sendmsg6 : Mediated v6 True (fun cfg => DnsAllowed cfg c6) m c6 (texSendmsg6 m c6)
  connectAgree : Corresponding m c4 c6 →
    decisionOf c4 (texConnect4 m c4) = decisionOf c6 (texConnect6 m c6)
  sendmsgAgree : Corresponding m c4 c6 →
    decisionOf c4 (texSendmsg4 m c4) = decisionOf c6 (texSendmsg6 m c6)

/-- All calls are mediated but a datagram of version 6 that is sent on while the
proxy has a port of its own for datagrams. -/
theorem complete_mediation_iff (m : Maps) (c4 c6 : BpfSockAddr) (h4 : c4.userFamily = afInet)
    (h6 : c6.userFamily = afInet6) :
    CompleteMediation m c4 c6 ↔ ¬Misdirected v6 TexConfig.proxyPort m c6 := by
  have hsendmsg6 : Mediated v6 True (fun cfg => DnsAllowed cfg c6) m c6 (texSendmsg6 m c6) ↔
      ¬Misdirected v6 TexConfig.proxyPort m c6 :=
    sendmsgHook_mediated_iff v6 m c6 h6 fun _ => .inl rfl
  constructor
  · intro h
    exact hsendmsg6.mp h.sendmsg6
  · intro hport
    refine ⟨connectHook_mediated v4 m c4 h4, connectHook_mediated v6 m c6 h6, ?_, hsendmsg6.mpr hport,
      connect_agree h4 h6, fun h => sendmsg_agree h4 h6 h hport⟩
    refine (sendmsgHook_mediated_iff v4 m c4 h4 fun _ => .inr rfl).mpr ?_
    intro ⟨cfg, _, _, _, _, _, hne⟩
    exact hne rfl

def loopback4 : BitVec 32 := le32 ⟨127, 0, 0, 1⟩

/-- `::1`. -/
def loopback6 : Four (BitVec 32) := ⟨0, 0, 0, le32 ⟨0, 0, 0, 1⟩⟩

def localProxy (udpProxyPort : BitVec 16) : TexConfig where
  proxyIp4 := loopback4
  proxyPort := swap16 8088
  udpProxyPort := swap16 udpProxyPort
  proxyIp6 := loopback6
  allowDns := 0

def startMaps (cfg : TexConfig) : Maps :=
  ⟨some cfg, fun _ => none, fun _ => none, fun _ => none, fun _ => none⟩

def quic4 : BpfSockAddr :=
  ⟨afInet, le32 ⟨192, 0, 2, 1⟩, Four.fill 0, (swap16 443).setWidth 32, sockDgram, none, 0⟩

def quic6 : BpfSockAddr :=
  ⟨afInet6, 0, ⟨le32 ⟨0x20, 0x01, 0x0d, 0xb8⟩, 0, 0, le32 ⟨0, 0, 0, 1⟩⟩, (swap16 443).setWidth 32,
    sockDgram, none, 0⟩

theorem complete_mediation_without_udp : CompleteMediation (startMaps (localProxy 0)) quic4 quic6 := by
  refine (complete_mediation_iff (startMaps (localProxy 0)) quic4 quic6 rfl rfl).mpr ?_
  intro ⟨cfg, hcfg, _, _, _, hudp, _⟩
  obtain rfl : localProxy 0 = cfg := Option.some.inj hcfg
  exact hudp (by decide)

/-- With a UDP proxy at port 8089, a datagram of version 4 goes there and one of
version 6 goes to the TCP port 8088. -/
theorem quic_datagram_misdirected :
    ¬CompleteMediation (startMaps (localProxy 8089)) quic4 quic6 ∧
      (texSendmsg4 (startMaps (localProxy 8089)) quic4).ctx =
        { quic4 with userIp4 := loopback4, userPort := (swap16 8089).setWidth 32 } ∧
      (texSendmsg6 (startMaps (localProxy 8089)) quic6).ctx =
        { quic6 with userIp6 := loopback6, userPort := (swap16 8088).setWidth 32 } := by
  have hsent : texSendmsg6 (startMaps (localProxy 8089)) quic6 =
      ⟨1, v6.rewrite quic6 loopback6 (swap16 8088), startMaps (localProxy 8089)⟩ := by
    unfold texSendmsg6 sendmsgHook
    rfl
  refine ⟨fun h => ?_, by decide, by decide⟩
  have hcfg : (startMaps (localProxy 8089)).texCfg = some (localProxy 8089) := rfl
  have hmediated := h.sendmsg6
  rw [hsent] at hmediated
  have hport := (mediated_sent_iff hcfg _ (.inl rfl) (by decide) (by decide)
    fun _ => by decide).mp hmediated
  exact absurd (hport.1 trivial) (by decide)

end TexGovernance.Kernel
