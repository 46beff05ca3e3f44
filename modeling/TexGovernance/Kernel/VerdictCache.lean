import TexGovernance.Kernel.OrigDst
import TexGovernance.Lib.Reconcile
import Mathlib.Data.List.Basic

/-!
# Warming the verdict caches

The loop of `pep/kernel/agent/main.go` that fetches the forbid set of the decision
point and reconciles both verdict caches with it, and what the `connect` hooks then
refuse. The maps are below their capacity and a `Put` or `Delete` succeeds.
-/

namespace TexGovernance.Kernel
open ByteOrder NetIp Reconcile

structure ForbidDst where
  ip : Text
  port : BitVec 16

def verdictForbid : BitVec 8 := 2

structure NextKeys where
  next4 : List DstKey
  next6 : List Dst6Key

def addKeys (next : NextKeys) (d : ForbidDst) : NextKeys :=
  match parseIP d.ip with
  | none => next
  | some ip =>
    match to4 ip with
    | some _ =>
      ⟨next.next4.insert ⟨ipToBE ip, htons d.port⟩, next.next6.insert ⟨ip6ToBE ip, htons d.port⟩⟩
    | none => ⟨next.next4, next.next6.insert ⟨ip6ToBE ip, htons d.port⟩⟩

def nextKeys (set : List ForbidDst) : NextKeys := set.foldl addKeys ⟨[], []⟩

structure Agent where
  warmed4 : List DstKey
  warmed6 : List Dst6Key
  maps : Maps

/-- One tick; `none` is a fetch that failed. -/
def warm (s : Agent) : Option (List ForbidDst) → Agent
  | none => s
  | some set =>
    let next := nextKeys set
    { warmed4 := next.next4
      warmed6 := next.next6
      maps := { s.maps with
        verdictCache := deleteFallen s.warmed4 next.next4 (putAll verdictForbid next.next4 s.maps.verdictCache)
        verdictCache6 :=
          deleteFallen s.warmed6 next.next6 (putAll verdictForbid next.next6 s.maps.verdictCache6) } }

def warmTicks (start : Maps) (ticks : List (Option (List ForbidDst))) : Agent :=
  ticks.foldl warm ⟨[], [], start⟩

def key4 (b : Four Byte) (port : BitVec 16) : DstKey := ⟨le32 b, swap16 port⟩

def key6 (b : Four (Four Byte)) (port : BitVec 16) : Dst6Key := ⟨b.map le32, swap16 port⟩

theorem key4_inj {b b' : Four Byte} {port port' : BitVec 16} :
    key4 b port = key4 b' port' ↔ b = b' ∧ port = port' := by
  simp [key4, le32_injective.eq_iff, swap16_injective.eq_iff]

theorem key6_inj {b b' : Four (Four Byte)} {port port' : BitVec 16} :
    key6 b port = key6 b' port' ↔ b = b' ∧ port = port' := by
  have hleft : Function.LeftInverse (Four.map putLe32) (Four.map le32) :=
    Four.map_map_of_leftInverse putLe32_le32
  simp [key6, hleft.injective.eq_iff, swap16_injective.eq_iff]

def Lists4 (set : List ForbidDst) (b : Four Byte) (port : BitVec 16) : Prop :=
  ∃ d ∈ set, d.port = port ∧ ∃ ip ∈ parseIP d.ip, to4 ip = some b

def Lists6 (set : List ForbidDst) (b : Four (Four Byte)) (port : BitVec 16) : Prop :=
  ∃ d ∈ set, d.port = port ∧ ∃ ip ∈ parseIP d.ip, to4 ip = none ∧ to16 ip = b

def Names4 (set : List ForbidDst) (k : DstKey) : Prop := ∃ b port, Lists4 set b port ∧ k = key4 b port

def Names6 (set : List ForbidDst) (k : Dst6Key) : Prop :=
  (∃ b port, Lists4 set b port ∧ k = key6 (mapped b) port) ∨
    ∃ b port, Lists6 set b port ∧ k = key6 b port

theorem to16_of_to4 {ip : Ip} {b : Four Byte} (h : to4 ip = some b) : to16 ip = mapped b := by
  cases ip with
  | four c =>
    obtain rfl : c = b := Option.some.inj h
    rfl
  | sixteen c =>
    simp only [to4] at h
    split at h
    · next hmapped =>
      obtain rfl : c.at3 = b := Option.some.inj h
      exact hmapped
    · cases h

theorem to4_of_to16 {ip : Ip} {b : Four Byte} (h : to16 ip = mapped b) : to4 ip = some b := by
  cases ip with
  | four c =>
    have hat : (mapped c).at3 = (mapped b).at3 := congrArg Four.at3 h
    exact congrArg some hat
  | sixteen c =>
    obtain rfl : c = mapped b := h
    simp [to4, mapped]

theorem ipToBE_of_to4 {ip : Ip} {b : Four Byte} (h : to4 ip = some b) : ipToBE ip = le32 b := by
  simp [ipToBE, h]

theorem addKeys_spec (next : NextKeys) (d : ForbidDst) :
    (∀ k, k ∈ (addKeys next d).next4 ↔ k ∈ next.next4 ∨ Names4 [d] k) ∧
      ∀ k, k ∈ (addKeys next d).next6 ↔ k ∈ next.next6 ∨ Names6 [d] k := by
  unfold addKeys Names4 Names6 Lists4 Lists6
  cases hip : parseIP d.ip with
  | none => simp [hip]
  | some ip =>
    cases h4 : to4 ip with
    | none => simp [hip, h4, ip6ToBE, htons_eq, key6, or_comm]
    | some b =>
      simp [hip, h4, ip6ToBE, htons_eq, key4, key6, ipToBE_of_to4 h4, to16_of_to4 h4, or_comm]

theorem names4_cons (d : ForbidDst) (set : List ForbidDst) (k : DstKey) :
    Names4 (d :: set) k ↔ Names4 [d] k ∨ Names4 set k := by
  simp only [Names4, Lists4, List.mem_cons, List.not_mem_nil, or_false, or_and_right, exists_or,
    exists_eq_left]

theorem names6_cons (d : ForbidDst) (set : List ForbidDst) (k : Dst6Key) :
    Names6 (d :: set) k ↔ Names6 [d] k ∨ Names6 set k := by
  simp only [Names6, Lists4, Lists6, List.mem_cons, List.not_mem_nil, or_false, or_and_right,
    exists_or, exists_eq_left]
  exact or_or_or_comm

theorem foldl_addKeys (set : List ForbidDst) (next : NextKeys) :
    (∀ k, k ∈ (set.foldl addKeys next).next4 ↔ k ∈ next.next4 ∨ Names4 set k) ∧
      ∀ k, k ∈ (set.foldl addKeys next).next6 ↔ k ∈ next.next6 ∨ Names6 set k := by
  induction set generalizing next with
  | nil => simp [Names4, Names6, Lists4, Lists6]
  | cons d set ih =>
    have hfirst := addKeys_spec next d
    have hrest := ih (addKeys next d)
    refine ⟨fun k => ?_, fun k => ?_⟩
    · rw [List.foldl_cons, hrest.1, hfirst.1, or_assoc, ← names4_cons]
    · rw [List.foldl_cons, hrest.2, hfirst.2, or_assoc, ← names6_cons]

theorem mem_next4 (set : List ForbidDst) (k : DstKey) : k ∈ (nextKeys set).next4 ↔ Names4 set k := by
  have h := (foldl_addKeys set ⟨[], []⟩).1 k
  simpa [nextKeys] using h

theorem mem_next6 (set : List ForbidDst) (k : Dst6Key) : k ∈ (nextKeys set).next6 ↔ Names6 set k := by
  have h := (foldl_addKeys set ⟨[], []⟩).2 k
  simpa [nextKeys] using h

/-- The sets that were fetched, oldest first. -/
def fetched (ticks : List (Option (List ForbidDst))) : List (List ForbidDst) := ticks.reduceOption

/-- The last set that was fetched; none counts as empty. -/
def lastFetched (ticks : List (Option (List ForbidDst))) : List ForbidDst :=
  (fetched ticks).getLast?.getD []

theorem foldl_warm (sets : List (List ForbidDst)) (s : Agent) :
    let after := sets.foldl (fun s set => warm s (some set)) s
    (⟨after.warmed4, after.maps.verdictCache⟩ : Shared DstKey (BitVec 8)) =
        (sets.map fun set => (nextKeys set).next4).foldl
          (fun s wanted => round verdictForbid wanted s) ⟨s.warmed4, s.maps.verdictCache⟩ ∧
      (⟨after.warmed6, after.maps.verdictCache6⟩ : Shared Dst6Key (BitVec 8)) =
        (sets.map fun set => (nextKeys set).next6).foldl
          (fun s wanted => round verdictForbid wanted s) ⟨s.warmed6, s.maps.verdictCache6⟩ ∧
      after.maps.texCfg = s.maps.texCfg := by
  induction sets generalizing s with
  | nil => exact ⟨rfl, rfl, rfl⟩
  | cons set sets ih => exact ih (warm s (some set))

theorem warmTicks_fetched (start : Maps) (ticks : List (Option (List ForbidDst))) :
    warmTicks start ticks =
      (fetched ticks).foldl (fun s set => warm s (some set)) ⟨[], [], start⟩ := by
  unfold warmTicks fetched
  generalize (⟨[], [], start⟩ : Agent) = s
  induction ticks generalizing s with
  | nil => rfl
  | cons tick ticks ih =>
    cases tick with
    | none => exact ih s
    | some set => exact ih (warm s (some set))

theorem last_map {κ : Type} (f : List ForbidDst → List κ) (hnil : f [] = [])
    (sets : List (List ForbidDst)) :
    (sets.map f).getLast?.getD [] = f (sets.getLast?.getD []) := by
  rw [List.getLast?_map]
  cases sets.getLast? with
  | none => exact hnil.symm
  | some set => rfl

section Run

variable (start : Maps) (ticks : List (Option (List ForbidDst)))

theorem mem_warmed4 (k : DstKey) : k ∈ (warmTicks start ticks).warmed4 ↔ Names4 (lastFetched ticks) k := by
  have hrun := (foldl_warm (fetched ticks) ⟨[], [], start⟩).1
  rw [← warmTicks_fetched] at hrun
  have howned := (congrArg Shared.owned hrun).trans (rounds_owned ..)
  rw [last_map _ rfl] at howned
  rw [show (warmTicks start ticks).warmed4 = _ from howned]
  exact mem_next4 _ k

theorem mem_warmed6 (k : Dst6Key) :
    k ∈ (warmTicks start ticks).warmed6 ↔ Names6 (lastFetched ticks) k := by
  have hrun := (foldl_warm (fetched ticks) ⟨[], [], start⟩).2.1
  rw [← warmTicks_fetched] at hrun
  have howned := (congrArg Shared.owned hrun).trans (rounds_owned ..)
  rw [last_map _ rfl] at howned
  rw [show (warmTicks start ticks).warmed6 = _ from howned]
  exact mem_next6 _ k

theorem verdictCache_after (k : DstKey) :
    Settled (Names4 (lastFetched ticks) k) (∃ set ∈ fetched ticks, Names4 set k) verdictForbid
      (start.verdictCache k) ((warmTicks start ticks).maps.verdictCache k) := by
  have hrun := (foldl_warm (fetched ticks) ⟨[], [], start⟩).1
  rw [← warmTicks_fetched] at hrun
  rw [show (warmTicks start ticks).maps.verdictCache = _ from congrArg Shared.table hrun]
  refine settled_congr ?_ ?_ (rounds_settled ..)
  · rw [last_map _ rfl]
    exact mem_next4 _ k
  · simp [mem_next4]

theorem verdictCache6_after (k : Dst6Key) :
    Settled (Names6 (lastFetched ticks) k) (∃ set ∈ fetched ticks, Names6 set k) verdictForbid
      (start.verdictCache6 k) ((warmTicks start ticks).maps.verdictCache6 k) := by
  have hrun := (foldl_warm (fetched ticks) ⟨[], [], start⟩).2.1
  rw [← warmTicks_fetched] at hrun
  rw [show (warmTicks start ticks).maps.verdictCache6 = _ from congrArg Shared.table hrun]
  refine settled_congr ?_ ?_ (rounds_settled ..)
  · rw [last_map _ rfl]
    exact mem_next6 _ k
  · simp [mem_next6]

theorem texCfg_after : (warmTicks start ticks).maps.texCfg = start.texCfg := by
  rw [warmTicks_fetched]
  exact (foldl_warm (fetched ticks) ⟨[], [], start⟩).2.2

end Run

/-- The set has the destination; a version 4 address and its mapped form are one. -/
def Listed (set : List ForbidDst) (dst : Endpoint) : Prop :=
  ∃ d ∈ set, d.port = dst.port ∧ ∃ ip ∈ parseIP d.ip, to16 ip = to16 dst.ip

def verdictAt (m : Maps) (dst : Endpoint) : Option (BitVec 8) :=
  match dst.ip with
  | .four b => m.verdictCache (key4 b dst.port)
  | .sixteen b => m.verdictCache6 (key6 b dst.port)

theorem listed_four (set : List ForbidDst) (b : Four Byte) (port : BitVec 16) :
    Names4 set (key4 b port) ↔ Listed set ⟨.four b, port⟩ := by
  constructor
  · intro ⟨b', port', ⟨d, hd, hport, ip, hip, h4⟩, hkey⟩
    obtain ⟨rfl, rfl⟩ := key4_inj.mp hkey
    exact ⟨d, hd, hport, ip, hip, to16_of_to4 h4⟩
  · intro ⟨d, hd, hport, ip, hip, h16⟩
    exact ⟨b, port, ⟨d, hd, hport, ip, hip, to4_of_to16 h16⟩, rfl⟩

theorem listed_sixteen (set : List ForbidDst) (b : Four (Four Byte)) (port : BitVec 16) :
    Names6 set (key6 b port) ↔ Listed set ⟨.sixteen b, port⟩ := by
  constructor
  · intro h
    obtain ⟨b', port', ⟨d, hd, hport, ip, hip, h4⟩, hkey⟩ | ⟨b', port', ⟨d, hd, hport, ip, hip, -, h16⟩, hkey⟩ := h
    · obtain ⟨rfl, rfl⟩ := key6_inj.mp hkey
      exact ⟨d, hd, hport, ip, hip, to16_of_to4 h4⟩
    · obtain ⟨rfl, rfl⟩ := key6_inj.mp hkey
      exact ⟨d, hd, hport, ip, hip, h16⟩
  · intro ⟨d, hd, hport, ip, hip, h16⟩
    cases h4 : to4 ip with
    | none => exact .inr ⟨b, port, ⟨d, hd, hport, ip, hip, h4, h16⟩, rfl⟩
    | some b' =>
      refine .inl ⟨b', port, ⟨d, hd, hport, ip, hip, h4⟩, ?_⟩
      have hmapped : b = mapped b' := h16.symm.trans (to16_of_to4 h4)
      rw [hmapped]

theorem verdictAt_after (start : Maps) (ticks : List (Option (List ForbidDst))) (dst : Endpoint) :
    Settled (Listed (lastFetched ticks) dst) (∃ set ∈ fetched ticks, Listed set dst) verdictForbid
      (verdictAt start dst) (verdictAt (warmTicks start ticks).maps dst) := by
  obtain ⟨ip, port⟩ := dst
  cases ip with
  | four b =>
    refine settled_congr (listed_four _ b port) ?_ (verdictCache_after start ticks (key4 b port))
    simp only [listed_four]
  | sixteen b =>
    refine settled_congr (listed_sixteen _ b port) ?_ (verdictCache6_after start ticks (key6 b port))
    simp only [listed_sixteen]

def dial (type : BitVec 32) (sk : Option BpfSock) (cookie : BitVec 64) (dst : Endpoint) : BpfSockAddr :=
  { connectCall cookie dst with type := type, sk := sk }

def connectAs (m : Maps) (type : BitVec 32) (sk : Option BpfSock) (cookie : BitVec 64) (dst : Endpoint) :
    HookResult :=
  match dst.ip with
  | .four _ => texConnect4 m (dial type sk cookie dst)
  | .sixteen _ => texConnect6 m (dial type sk cookie dst)

theorem connectHook_refused {A : Type} [DecidableEq A] (fam : Family A) (m : Maps) (ctx : BpfSockAddr)
    (h : ctx.userFamily = fam.af) :
    (connectHook fam m ctx).ret = 0 ↔ ∀ cfg ∈ m.texCfg, ¬ToProxy fam cfg ctx ∧
      (Forbidden fam m ctx ∨ ctx.type = sockDgram ∧ cfg.udpProxyPort = 0) := by
  unfold connectHook
  rw [if_neg (not_not.mpr h)]
  cases m.texCfg with
  | none => simp
  | some cfg =>
    simp only [Option.mem_some_iff, forall_eq']
    by_cases hproxy : ToProxy fam cfg ctx
    · simp [hproxy]
    by_cases hforbidden : Forbidden fam m ctx
    · simp [hproxy, hforbidden]
    by_cases htype : ctx.type = sockDgram
    · simp only [if_neg hproxy, if_neg hforbidden, if_pos htype]
      split
      · next hudp => simp [hproxy, htype, hudp]
      · next hudp =>
        exact iff_of_false one_ne_zero fun h => hudp (h.2.resolve_left hforbidden).2
    · simp [hproxy, hforbidden, htype]

theorem connectAs_refused (m : Maps) (type : BitVec 32) (sk : Option BpfSock) (cookie : BitVec 64)
    (dst : Endpoint) :
    (connectAs m type sk cookie dst).ret = 0 ↔ ¬AtProxy m dst ∧ ∀ cfg ∈ m.texCfg,
      verdictAt m dst = some verdictForbid ∨ type = sockDgram ∧ cfg.udpProxyPort = 0 := by
  have hport : (dial type sk cookie dst).port = swap16 dst.port := port_connectCall cookie dst
  have hhook {A : Type} [DecidableEq A] (fam : Family A)
      (hfamily : (dial type sk cookie dst).userFamily = fam.af)
      (hproxy : AtProxy m dst ↔ ∃ cfg ∈ m.texCfg, ToProxy fam cfg (dial type sk cookie dst))
      (hforbidden : Forbidden fam m (dial type sk cookie dst) ↔ verdictAt m dst = some verdictForbid) :
      (connectHook fam m (dial type sk cookie dst)).ret = 0 ↔ ¬AtProxy m dst ∧ ∀ cfg ∈ m.texCfg,
        verdictAt m dst = some verdictForbid ∨ type = sockDgram ∧ cfg.udpProxyPort = 0 := by
    rw [connectHook_refused fam m _ hfamily, hproxy, hforbidden]
    cases m.texCfg <;> simp [dial]
  obtain ⟨ip, port⟩ := dst
  cases ip with
  | four b =>
    refine hhook v4 rfl ?_ ?_
    · simp only [AtProxy, ToProxy, hport]
      exact exists_congr fun cfg => and_congr_right fun _ => and_comm
    · rw [Forbidden, hport]
      rfl
  | sixteen b =>
    refine hhook v6 rfl ?_ ?_
    · simp only [AtProxy, ToProxy, hport]
      exact exists_congr fun cfg => and_congr_right fun _ => and_comm
    · rw [Forbidden, hport]
      rfl

structure Reconciled (start : Maps) (ticks : List (Option (List ForbidDst))) (s : Agent) : Prop where
  installed4 : ∀ k, k ∈ s.warmed4 ↔ Names4 (lastFetched ticks) k
  installed6 : ∀ k, k ∈ s.warmed6 ↔ Names6 (lastFetched ticks) k
  cache4 : ∀ k, Settled (k ∈ s.warmed4) (∃ set ∈ fetched ticks, Names4 set k) verdictForbid
    (start.verdictCache k) (s.maps.verdictCache k)
  cache6 : ∀ k, Settled (k ∈ s.warmed6) (∃ set ∈ fetched ticks, Names6 set k) verdictForbid
    (start.verdictCache6 k) (s.maps.verdictCache6 k)
  failed : (warm s none).maps = s.maps
  refused : ∀ type sk cookie dst, (connectAs s.maps type sk cookie dst).ret = 0 ↔
    ¬AtProxy start dst ∧ ∀ cfg ∈ start.texCfg,
      Listed (lastFetched ticks) dst ∨
      verdictAt start dst = some verdictForbid ∧ (∀ set ∈ fetched ticks, ¬Listed set dst) ∨
      type = sockDgram ∧ cfg.udpProxyPort = 0

/-- After any ticks the caches forbid what the last fetched set has, next to what the
agent never installed, and the hooks refuse that and nothing else, but for the proxy
and for datagrams without a proxy. -/
theorem verdict_cache_reconciled (start : Maps) (ticks : List (Option (List ForbidDst))) :
    Reconciled start ticks (warmTicks start ticks) where
  installed4 := mem_warmed4 start ticks
  installed6 := mem_warmed6 start ticks
  cache4 k := settled_congr (mem_warmed4 start ticks k).symm .rfl (verdictCache_after start ticks k)
  cache6 k := settled_congr (mem_warmed6 start ticks k).symm .rfl (verdictCache6_after start ticks k)
  failed := rfl
  refused type sk cookie dst := by
    have hat : AtProxy (warmTicks start ticks).maps dst ↔ AtProxy start dst := by
      unfold AtProxy
      rw [texCfg_after]
    have hverdict : verdictAt (warmTicks start ticks).maps dst = some verdictForbid ↔
        Listed (lastFetched ticks) dst ∨
          verdictAt start dst = some verdictForbid ∧ ∀ set ∈ fetched ticks, ¬Listed set dst :=
      (verdictAt_after start ticks dst).eq_some_iff.trans (by simp)
    rw [connectAs_refused, hat, texCfg_after, hverdict]
    simp only [or_assoc]

/-- A set that has the proxy itself does not make the hooks refuse it. -/
theorem listed_proxy_not_refused :
    let set : List ForbidDst := [⟨"127.0.0.1".toList, 8088⟩]
    let proxy : Endpoint := ⟨.four ⟨127, 0, 0, 1⟩, 8088⟩
    Listed (lastFetched [some set]) proxy ∧
      (connectAs (warmTicks (startMaps (localProxy 0)) [some set]).maps sockStream none 0 proxy).ret = 1 := by
  refine ⟨⟨_, List.mem_singleton_self _, rfl, .sixteen (mapped ⟨127, 0, 0, 1⟩), ?_, rfl⟩, ?_⟩
  · exact parseIP_dotted ⟨127, 0, 0, 1⟩
  · unfold connectAs texConnect4 connectHook
    rw [texCfg_after]
    rfl

end TexGovernance.Kernel
