import TexGovernance.Kernel.Mediation
import TexGovernance.Lib.NetIp

/-!
# Original destinations

`tex_sock_ops` keys the destination that a `connect` hook left under the socket
cookie by the source of the flow, and `lookupOrigDst` of `pep/kernel/agent/main.go`
finds it there for the proxy. An endpoint is an address and a port as numbers and
bytes; the words of the kernel and of the maps are made from it.
-/

namespace TexGovernance.Kernel
open ByteOrder NetIp

def htons (p : BitVec 16) : BitVec 16 := p <<< 8 &&& 0xff00 ||| p >>> 8 &&& 0x00ff

theorem htons_eq (p : BitVec 16) : htons p = swap16 p := (swap16_eq_shifts p).symm

def ipToBE (ip : Ip) : BitVec 32 :=
  match to4 ip with
  | none => 0
  | some b => le32 b

def ip6ToBE (ip : Ip) : Four (BitVec 32) := (to16 ip).map le32

def u32ToIP4 (v : BitVec 32) : Ip := .four (putLe32 v)

def words6ToIP (w : Four (BitVec 32)) : Ip := .sixteen (w.map putLe32)

structure Endpoint where
  ip : Ip
  port : BitVec 16
  deriving DecidableEq

/-- The call that connects a stream socket, as the hook of its family sees it. The
fields of the other family are zero; a stream does not look at `sk`. -/
def connectCall (cookie : BitVec 64) (dst : Endpoint) : BpfSockAddr :=
  match dst.ip with
  | .four b => ⟨afInet, le32 b, Four.fill 0, (swap16 dst.port).setWidth 32, sockStream, none, cookie⟩
  | .sixteen b => ⟨afInet6, 0, b.map le32, (swap16 dst.port).setWidth 32, sockStream, none, cookie⟩

def connect (m : Maps) (cookie : BitVec 64) (dst : Endpoint) : HookResult :=
  match dst.ip with
  | .four _ => texConnect4 m (connectCall cookie dst)
  | .sixteen _ => texConnect6 m (connectCall cookie dst)

def valOf (dst : Endpoint) : OrigDstVal :=
  match dst.ip with
  | .four b => ⟨⟨le32 b, 0, 0, 0⟩, swap16 dst.port, 4⟩
  | .sixteen b => ⟨b.map le32, swap16 dst.port, 6⟩

def AtProxy (m : Maps) (dst : Endpoint) : Prop :=
  ∃ cfg ∈ m.texCfg, (swap16 dst.port = cfg.proxyPort ∨ swap16 dst.port = cfg.udpProxyPort) ∧
    match dst.ip with
    | .four b => le32 b = cfg.proxyIp4
    | .sixteen b => b.map le32 = cfg.proxyIp6

/-- What a `connect` of a stream does: it is refused, it goes to the proxy anyway, or
it is sent there and its destination is stashed. -/
inductive Connected (m : Maps) (cookie : BitVec 64) (dst : Endpoint) (r : HookResult) : Prop where
  | denied (hret : r.ret = 0) (hmaps : r.maps = m)
  | direct (hret : r.ret = 1) (hctx : r.ctx = connectCall cookie dst) (hmaps : r.maps = m)
      (hproxy : AtProxy m dst)
  | redirected (hret : r.ret = 1) (hctx : r.ctx ≠ connectCall cookie dst)
      (hmaps : r.maps = { m with origDst := m.origDst.update cookie (valOf dst) })

section Connect

variable {A : Type} [DecidableEq A] (fam : Family A)

theorem connectHook_connected {m : Maps} {cookie : BitVec 64} {dst : Endpoint}
    (hfamily : (connectCall cookie dst).userFamily = fam.af)
    (htype : (connectCall cookie dst).type = sockStream)
    (hcookie : (connectCall cookie dst).cookie = cookie)
    (hval : origDstVal fam (connectCall cookie dst) = valOf dst)
    (hproxy : ∀ cfg ∈ m.texCfg, ToProxy fam cfg (connectCall cookie dst) → AtProxy m dst) :
    Connected m cookie dst (connectHook fam m (connectCall cookie dst)) := by
  unfold connectHook
  rw [if_neg (not_not.mpr hfamily)]
  cases hcfg : m.texCfg with
  | none => exact .denied rfl rfl
  | some cfg =>
    simp only
    by_cases hto : ToProxy fam cfg (connectCall cookie dst)
    · rw [if_pos hto]
      exact .direct rfl rfl rfl (hproxy cfg hcfg hto)
    rw [if_neg hto]
    by_cases hforbidden : Forbidden fam m (connectCall cookie dst)
    · rw [if_pos hforbidden]
      exact .denied rfl rfl
    have hstream : ¬(connectCall cookie dst).type = sockDgram := by
      rw [htype]
      decide
    rw [if_neg hforbidden, if_neg hstream]
    refine .redirected rfl (rewrite_ne fam (.inl rfl) hto) ?_
    simp only [stashByCookie, hcookie, hval]

end Connect

theorem port_connectCall (cookie : BitVec 64) (dst : Endpoint) :
    (connectCall cookie dst).port = swap16 dst.port := by
  unfold BpfSockAddr.port connectCall
  cases dst.ip <;> simp

theorem connect_connected (m : Maps) (cookie : BitVec 64) (dst : Endpoint) :
    Connected m cookie dst (connect m cookie dst) := by
  have hport := port_connectCall cookie dst
  unfold connect
  cases hip : dst.ip with
  | four b =>
    have hcall : connectCall cookie dst =
        ⟨afInet, le32 b, Four.fill 0, (swap16 dst.port).setWidth 32, sockStream, none, cookie⟩ := by
      rw [connectCall, hip]
    refine connectHook_connected v4 (by rw [hcall]; rfl) (by rw [hcall]) (by rw [hcall]) ?_ ?_
    · rw [origDstVal, hport, valOf, hip, hcall]
      rfl
    · intro cfg hcfg hto
      rw [ToProxy, hport, hcall] at hto
      refine ⟨cfg, hcfg, hto.2, ?_⟩
      rw [hip]
      exact hto.1
  | sixteen b =>
    have hcall : connectCall cookie dst =
        ⟨afInet6, 0, b.map le32, (swap16 dst.port).setWidth 32, sockStream, none, cookie⟩ := by
      rw [connectCall, hip]
    refine connectHook_connected v6 (by rw [hcall]; rfl) (by rw [hcall]) (by rw [hcall]) ?_ ?_
    · rw [origDstVal, hport, valOf, hip, hcall]
      rfl
    · intro cfg hcfg hto
      rw [ToProxy, hport, hcall] at hto
      refine ⟨cfg, hcfg, hto.2, ?_⟩
      rw [hip]
      exact hto.1

/-- `BPF_SOCK_OPS_ACTIVE_ESTABLISHED_CB`. -/
def activeEstablishedCb : BitVec 32 := 4

/-- `bpf_sock_ops`, with what `bpf_get_socket_cookie` returns for it; the local port
is in host order. -/
structure BpfSockOps where
  op : BitVec 32
  family : BitVec 32
  localIp4 : BitVec 32
  localIp6 : Four (BitVec 32)
  localPort : BitVec 32
  cookie : BitVec 64

def texSockOps (m : Maps) (skops : BpfSockOps) : Maps :=
  if skops.op ≠ activeEstablishedCb then m
  else match m.origDst skops.cookie with
  | none => m
  | some val =>
    let srcPort := swap16 (skops.localPort.setWidth 16)
    let sk : SrcKey :=
      if skops.family = afInet6 then ⟨6, skops.localIp6, srcPort⟩
      else ⟨4, ⟨skops.localIp4, 0, 0, 0⟩, srcPort⟩
    { m with
      srcToOrig := m.srcToOrig.update sk val
      origDst := m.origDst.delete skops.cookie }

/-- The callback of a socket that is connected from `src`. -/
def establishedCall (cookie : BitVec 64) (src : Endpoint) : BpfSockOps :=
  match src.ip with
  | .four b => ⟨activeEstablishedCb, afInet, le32 b, Four.fill 0, src.port.setWidth 32, cookie⟩
  | .sixteen b => ⟨activeEstablishedCb, afInet6, 0, b.map le32, src.port.setWidth 32, cookie⟩

def keyOf (src : Endpoint) : SrcKey :=
  match src.ip with
  | .four b => ⟨4, ⟨le32 b, 0, 0, 0⟩, swap16 src.port⟩
  | .sixteen b => ⟨6, b.map le32, swap16 src.port⟩

theorem keyOf_injective : Function.Injective keyOf := by
  intro ⟨ip, port⟩ ⟨ip', port'⟩ h
  have hwords : Function.Injective (Four.map le32) :=
    Function.LeftInverse.injective (g := Four.map putLe32) (Four.map_map_of_leftInverse putLe32_le32)
  have hport : port = port' := by
    refine swap16_injective ?_
    cases ip <;> cases ip' <;> exact congrArg SrcKey.srcPort h
  subst hport
  cases ip with
  | four b =>
    cases ip' with
    | four b' =>
      have hword : le32 b = le32 b' := congrArg (fun k => k.srcIp.at0) h
      rw [le32_injective hword]
    | sixteen b' =>
      have hfamily : (4 : BitVec 8) = 6 := congrArg SrcKey.family h
      exact absurd hfamily (by decide)
  | sixteen b =>
    cases ip' with
    | four b' =>
      have hfamily : (6 : BitVec 8) = 4 := congrArg SrcKey.family h
      exact absurd hfamily (by decide)
    | sixteen b' =>
      have hword : b.map le32 = b'.map le32 := congrArg SrcKey.srcIp h
      rw [hwords hword]

theorem texSockOps_established (m : Maps) (cookie : BitVec 64) (src : Endpoint) :
    texSockOps m (establishedCall cookie src) =
      match m.origDst cookie with
      | none => m
      | some val => { m with
        srcToOrig := m.srcToOrig.update (keyOf src) val
        origDst := m.origDst.delete cookie } := by
  obtain ⟨ip, port⟩ := src
  have hport : (port.setWidth 32).setWidth 16 = port := by simp
  cases ip with
  | four b =>
    unfold texSockOps establishedCall keyOf
    simp only [hport]
    rfl
  | sixteen b =>
    unfold texSockOps establishedCall keyOf
    simp only [hport]
    rfl

structure OrigDstReq where
  srcIp : Text
  srcPort : ℤ
  family : ℤ

structure OrigDstResp where
  ip : Text
  port : ℤ
  error : Text
  deriving DecidableEq

def notFound : OrigDstResp := ⟨[], 0, ['n', 'o', 't', '_', 'f', 'o', 'u', 'n', 'd']⟩

def srcKeyOf (req : OrigDstReq) : Option SrcKey :=
  if req.srcPort < 1 ∨ 65535 < req.srcPort then none
  else match parseIP req.srcIp with
  | none => none
  | some ip =>
    let srcPort := htons (BitVec.ofInt 16 req.srcPort)
    if req.family = 6 then some ⟨6, ip6ToBE ip, srcPort⟩
    else match to4 ip with
    | none => none
    | some _ => some ⟨4, ⟨ipToBE ip, 0, 0, 0⟩, srcPort⟩

def lookupOrigDst (m : BpfMap SrcKey OrigDstVal) (req : OrigDstReq) : OrigDstResp :=
  match srcKeyOf req with
  | none => notFound
  | some k =>
    match m k with
    | none => notFound
    | some val =>
      let dstIP := if val.family = 6 then words6ToIP val.ip else u32ToIP4 val.ip.at0
      ⟨string dstIP, (htons val.port).toNat, []⟩

/-- The proxy asks for the flow from `src`, whose port is bound. -/
def OrigDstReq.AsksFor (req : OrigDstReq) (src : Endpoint) : Prop :=
  src.port ≠ 0 ∧ parseIP req.srcIp = some (.sixteen (to16 src.ip)) ∧ req.srcPort = src.port.toNat ∧
    match src.ip with
    | .four _ => req.family = 4
    | .sixteen _ => req.family = 6

theorem srcKeyOf_asksFor {req : OrigDstReq} {src : Endpoint} (h : req.AsksFor src) :
    srcKeyOf req = some (keyOf src) := by
  obtain ⟨ip, port⟩ := src
  obtain ⟨hbound, hparse, hport, hfamily⟩ := h
  have hlow : 0 < port.toNat := by
    refine Nat.pos_of_ne_zero fun hzero => hbound ?_
    exact BitVec.eq_of_toNat_eq hzero
  have hhigh := port.isLt
  have hrange : ¬(req.srcPort < 1 ∨ 65535 < req.srcPort) := by
    rw [hport]
    simp only
    omega
  have hword : BitVec.ofInt 16 req.srcPort = port := by
    rw [hport]
    simp
  unfold srcKeyOf keyOf
  rw [if_neg hrange, hparse, hword, htons_eq]
  cases ip with
  | four b =>
    have hfour : ¬req.family = 6 := by
      rw [show req.family = 4 from hfamily]
      decide
    have hto4 : to4 (.sixteen (mapped b)) = some b := if_pos rfl
    simp only [to16, if_neg hfour, hto4, ipToBE]
  | sixteen b =>
    simp only [if_pos (show req.family = 6 from hfamily)]
    rfl

def answerFor (dst : Endpoint) : OrigDstResp := ⟨string dst.ip, dst.port.toNat, []⟩

theorem lookupOrigDst_eq {req : OrigDstReq} {src : Endpoint} (h : req.AsksFor src)
    (m : BpfMap SrcKey OrigDstVal) :
    (m (keyOf src) = none → lookupOrigDst m req = notFound) ∧
      ∀ dst, m (keyOf src) = some (valOf dst) → lookupOrigDst m req = answerFor dst := by
  unfold lookupOrigDst
  rw [srcKeyOf_asksFor h]
  constructor
  · intro hnone
    simp only [hnone]
  · intro ⟨ip, port⟩ hsome
    cases ip with
    | four b =>
      simp only [hsome, valOf, answerFor, htons_eq, swap16_swap16, u32ToIP4, putLe32_le32 b]
      rfl
    | sixteen b =>
      simp only [hsome, valOf, answerFor, htons_eq, swap16_swap16, words6ToIP,
        Four.map_map_of_leftInverse putLe32_le32]
      rfl

theorem answerFor_spec (dst : Endpoint) :
    parseIP (answerFor dst).ip = some (.sixteen (to16 dst.ip)) ∧
      (answerFor dst).port = dst.port.toNat ∧ answerFor dst ≠ notFound := by
  refine ⟨parseIP_string dst.ip, rfl, fun h => ?_⟩
  have herror : [] = notFound.error := congrArg OrigDstResp.error h
  exact absurd herror (by decide)

theorem lookupOrigDst_found {req : OrigDstReq} {src : Endpoint} (h : req.AsksFor src)
    {m : BpfMap SrcKey OrigDstVal} (hsome : m (keyOf src) ≠ none) : lookupOrigDst m req ≠ notFound := by
  obtain ⟨val, hval⟩ := Option.ne_none_iff_exists'.mp hsome
  unfold lookupOrigDst
  rw [srcKeyOf_asksFor h]
  simp only [hval]
  intro heq
  have herror : [] = notFound.error := congrArg OrigDstResp.error heq
  exact absurd herror (by decide)

end TexGovernance.Kernel
