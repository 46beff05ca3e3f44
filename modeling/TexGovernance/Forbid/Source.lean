import TexGovernance.Forbid.Destination
import TexGovernance.Lib.PyDict
import TexGovernance.Lib.PyJson

/-!
# The forbid source

`ForbidSource` of `governance/forbid_source.py`. Its methods hold one lock, so a
method, or each insertion of a method that inserts several times, is one step.
Times are of any type that can be added and compared; the clock is given read by
read.
-/

namespace TexGovernance.Forbid
open PyStr CaseFold PyDict

structure ForbidEntry (T : Type) where
  host : Str
  port : ℤ
  tenant : Option Str
  reason : Str
  decisionId : Option Str
  addedAt : T
  ttlSeconds : Option T

structure Key where
  host : Str
  port : ℤ
  tenant : Option Str
  deriving DecidableEq

/-- What a source is constructed with and what it takes from its surroundings. A
resolver that raises gives nothing; `ipVersion` is `ip_address(..).version`. -/
structure Config (T : Type) where
  fold : CaseFolding
  clock : ℕ → T
  defaultTtlSeconds : T
  maxEntries : ℤ
  resolver : Str → Option (List Str)
  ipVersion : Str → Option ℕ

structure ForbidSource (T : Type) where
  entries : Dict Key (ForbidEntry T)
  epoch : ℕ
  clockReads : ℕ

/-- The argument `ttl_seconds`: left out, `None`, or a number. -/
inductive TtlArg (T : Type) where
  | useDefault
  | permanent
  | seconds (t : T)

variable {T : Type} [Add T] [LE T] [DecidableLE T]

namespace ForbidEntry

def expiresAt (e : ForbidEntry T) : Option T := e.ttlSeconds.map fun ttl => e.addedAt + ttl

def isExpired (e : ForbidEntry T) (now : T) : Bool :=
  match e.expiresAt with
  | none => false
  | some exp => exp ≤ now

end ForbidEntry

def normTenant (fold : CaseFolding) : Option Str → Option Str
  | none => none
  | some tenant => orNone (fold.clean tenant)

/-- `_key`. -/
def keyOf (fold : CaseFolding) (host : Str) (port : ℤ) (tenant : Option Str) : Key :=
  ⟨fold.clean host, port, normTenant fold tenant⟩

def ForbidEntry.key (fold : CaseFolding) (e : ForbidEntry T) : Key := keyOf fold e.host e.port e.tenant

variable (p : Config T)

def upsert (s : ForbidSource T) (e : ForbidEntry T) : ForbidSource T :=
  { s with entries := (s.entries.pop (e.key p.fold)).set (e.key p.fold) e, epoch := s.epoch + 1 }

/-- The loop of `_enforce_cap` over a snapshot of the items. -/
def evictOldest : List (Key × ForbidEntry T) → ForbidSource T → ForbidSource T
  | [], s => s
  | (key, e) :: rest, s =>
    if (s.entries.items.length : ℤ) ≤ p.maxEntries then s
    else match e.ttlSeconds with
      | none => evictOldest rest s
      | some _ => evictOldest rest { s with entries := s.entries.pop key, epoch := s.epoch + 1 }

def enforceCap (s : ForbidSource T) : ForbidSource T :=
  if (s.entries.items.length : ℤ) ≤ p.maxEntries then s else evictOldest p s.entries.items s

/-- The arguments of `add`. -/
structure AddArgs (T : Type) where
  host : Str
  port : ℤ
  tenant : Option Str
  reason : Str
  decisionId : Option Str
  ttlSeconds : TtlArg T

def ttlOf : TtlArg T → Option T
  | .useDefault => some p.defaultTtlSeconds
  | .permanent => none
  | .seconds t => some t

/-- The entry that `add` makes of its arguments, if it accepts them. -/
def entryOfArgs (now : T) (a : AddArgs T) : Option (ForbidEntry T) :=
  if strip a.host = [] then none
  else (validPort a.port).map fun port =>
    ⟨strip a.host, port, a.tenant, a.reason, a.decisionId, now, ttlOf p a.ttlSeconds⟩

def add (a : AddArgs T) (s : ForbidSource T) : Bool × ForbidSource T :=
  match entryOfArgs p (p.clock s.clockReads) a with
  | none => (false, s)
  | some e => (true, enforceCap p (upsert p { s with clockReads := s.clockReads + 1 } e))

/-- `add_host` with the ports of the call. -/
def addHost (a : AddArgs T) : List ℤ → ForbidSource T → ℕ × ForbidSource T
  | [], s => (0, s)
  | port :: ports, s =>
    let (accepted, s) := add p { a with port := port } s
    let (added, s) := addHost a ports s
    (if accepted then added + 1 else added, s)

def defaultPorts : List ℤ := [443]

/-- The arguments of `feed_from_decision`. -/
structure FeedArgs where
  actionType : Option Str
  recipient : Option Str
  tenant : Option Str
  decisionId : Option Str
  reason : Str
  env : Str

/-- What `feed_from_decision` hands to `add_host`. -/
def fedArgs (f : FeedArgs) (host : Str) : AddArgs T :=
  ⟨host, 443, normTenant p.fold f.tenant, f.reason, f.decisionId, .useDefault⟩

def fedHost (f : FeedArgs) : Option Str :=
  networkDestinationForForbid p.fold f.actionType f.recipient (autofeedExtraActions p.fold f.env)

def feedFromDecision (f : FeedArgs) (s : ForbidSource T) : ℕ × ForbidSource T :=
  match fedHost p f with
  | none => (0, s)
  | some host => addHost p (fedArgs p f host) defaultPorts s

/-- The arguments of `revoke`. -/
structure RevokeArgs where
  host : Str
  port : Option ℤ
  tenant : Option Str

/-- `revoke` removes the entry under this key. -/
def RevokeArgs.Matches (fold : CaseFolding) (r : RevokeArgs) (k : Key) : Prop :=
  fold.clean r.host ≠ [] ∧ k.host = fold.clean r.host ∧ (∀ port ∈ r.port, k.port = port) ∧
    (r.tenant ≠ none → k.tenant = normTenant fold r.tenant)

instance (fold : CaseFolding) (r : RevokeArgs) (k : Key) : Decidable (r.Matches fold k) :=
  inferInstanceAs (Decidable (_ ∧ _ ∧ (∀ port ∈ r.port, k.port = port) ∧ _))

def deleteAll (keys : List Key) (s : ForbidSource T) : ForbidSource T :=
  { s with
    entries := keys.foldl Dict.pop s.entries
    epoch := if keys = [] then s.epoch else s.epoch + 1 }

def revoke (r : RevokeArgs) (s : ForbidSource T) : ℕ × ForbidSource T :=
  let matching := s.entries.keys.filter fun k => r.Matches p.fold k
  (matching.length, deleteAll matching s)

def pruneExpired (now : T) (s : ForbidSource T) : ForbidSource T :=
  deleteAll ((s.entries.items.filter fun item => item.2.isExpired now).map Prod.fst) s

def maxEmitted : ℕ := 4096

def resolveIpv4 (host : Str) : List Str :=
  match p.ipVersion host with
  | some version => if version = 4 then [host] else []
  | none =>
    match p.resolver host with
    | none => []
    | some addresses => addresses.filter fun addr => p.ipVersion addr = some 4

/-- The filter of `for_tenant`: the tenant is compared as it was stored. -/
def emittedFor (tid : Str) (e : ForbidEntry T) : Bool :=
  match e.tenant with
  | none => true
  | some tenant => p.fold.clean tenant = tid

/-- The loops of `for_tenant` over the destinations, up to the emission cap. -/
def emit : List (Str × ℤ) → List (Str × ℤ) → List (Str × ℤ)
  | [], out => out
  | d :: rest, out =>
    if d ∈ out then emit rest out
    else if maxEmitted ≤ (out ++ [d]).length then out ++ [d]
    else emit rest (out ++ [d])

def destinationLe (a b : Str × ℤ) : Bool :=
  if a.1 = b.1 then a.2 ≤ b.2 else PyJson.strLe a.1 b.1

def destinations (e : ForbidEntry T) : List (Str × ℤ) :=
  (resolveIpv4 p e.host).map fun ip => (ip, e.port)

def emittedSet (tenant : Option Str) (s : ForbidSource T) : List (Str × ℤ) :=
  let tid := p.fold.clean (tenant.getD [])
  let visible := (s.entries.items.map Prod.snd).filter (emittedFor p tid)
  (emit (visible.flatMap (destinations p)) []).insertionSort fun a b => destinationLe a b = true

def refreshed (s : ForbidSource T) : ForbidSource T :=
  pruneExpired (p.clock s.clockReads) { s with clockReads := s.clockReads + 1 }

def forTenant (tenant : Option Str) (s : ForbidSource T) : List (Str × ℤ) × ForbidSource T :=
  (emittedSet p tenant (refreshed p s), refreshed p s)

/-- `len(source)`. -/
def size (s : ForbidSource T) : ℕ × ForbidSource T :=
  ((refreshed p s).entries.items.length, refreshed p s)

/-- `ForbidSource(entries, ..)`. -/
def make (seeds : List (ForbidEntry T)) : ForbidSource T :=
  seeds.foldl (upsert p) ⟨Dict.empty, 0, 0⟩

end TexGovernance.Forbid

namespace TexGovernance.Forbid
open PyStr CaseFold PyDict

variable {T : Type}

abbrev Item (T : Type) := Key × ForbidEntry T

def Item.hasTtl (item : Item T) : Bool := item.2.ttlSeconds.isSome

/-- The first `n` items with a lifetime left out. -/
def dropOldest : ℕ → List (Item T) → List (Item T)
  | 0, items => items
  | _ + 1, [] => []
  | n + 1, item :: rest =>
    if item.hasTtl then dropOldest n rest else item :: dropOldest (n + 1) rest

theorem mem_dropOldest {n : ℕ} {items : List (Item T)} (hnodup : (items.map Prod.fst).Nodup)
    (item : Item T) : item ∈ dropOldest n items ↔
      item ∈ items ∧ item ∉ (items.filter Item.hasTtl).take n := by
  induction items generalizing n with
  | nil =>
    cases n with
    | zero => simp [dropOldest]
    | succ n => simp [dropOldest]
  | cons first rest ih =>
    obtain ⟨hfirst, hrest⟩ := List.nodup_cons.mp hnodup
    have hnot : first ∉ rest := fun h => hfirst (List.mem_map_of_mem h)
    cases n with
    | zero => simp [dropOldest]
    | succ n =>
      unfold dropOldest
      by_cases httl : first.hasTtl = true
      · rw [if_pos httl, ih hrest, List.filter_cons_of_pos httl, List.take_succ_cons,
          List.mem_cons, List.mem_cons]
        constructor
        · rintro ⟨hmem, hkeep⟩
          refine ⟨.inr hmem, ?_⟩
          rintro (rfl | hgone)
          · exact hnot hmem
          · exact hkeep hgone
        · rintro ⟨hmem, hkeep⟩
          exact ⟨hmem.resolve_left fun h => hkeep (.inl h), fun h => hkeep (.inr h)⟩
      · rw [if_neg httl, List.mem_cons, ih hrest, List.filter_cons_of_neg httl, List.mem_cons]
        constructor
        · rintro (rfl | ⟨hmem, hkeep⟩)
          · refine ⟨.inl rfl, fun h => httl ?_⟩
            exact (List.mem_filter.mp (List.mem_of_mem_take h)).2
          · exact ⟨.inr hmem, hkeep⟩
        · rintro ⟨rfl | hmem, hkeep⟩
          · exact .inl rfl
          · exact .inr ⟨hmem, hkeep⟩

theorem length_dropOldest (n : ℕ) (items : List (Item T)) :
    (dropOldest n items).length + min n (items.filter Item.hasTtl).length = items.length := by
  induction items generalizing n with
  | nil =>
    cases n with
    | zero => simp [dropOldest]
    | succ n => simp [dropOldest]
  | cons item rest ih =>
    cases n with
    | zero => simp [dropOldest]
    | succ n =>
      unfold dropOldest
      by_cases httl : item.hasTtl = true
      · have hrest := ih n
        rw [if_pos httl, List.filter_cons_of_pos httl, List.length_cons, List.length_cons]
        omega
      · have hrest := ih (n + 1)
        rw [if_neg httl, List.filter_cons_of_neg httl, List.length_cons, List.length_cons]
        omega

theorem permanent_dropOldest (n : ℕ) (items : List (Item T)) :
    (dropOldest n items).filter (fun item => !item.hasTtl) =
      items.filter fun item => !item.hasTtl := by
  induction items generalizing n with
  | nil =>
    cases n with
    | zero => rfl
    | succ n => rfl
  | cons item rest ih =>
    cases n with
    | zero => rfl
    | succ n =>
      unfold dropOldest
      by_cases httl : item.hasTtl = true
      · rw [if_pos httl, ih n, List.filter_cons_of_neg (by simp [httl])]
      · rw [if_neg httl, List.filter_cons_of_pos (by simp [httl]),
          List.filter_cons_of_pos (by simp [httl]), ih (n + 1)]

section Loop

variable (p : Config T)

def excess (items : List (Item T)) : ℕ := ((items.length : ℤ) - p.maxEntries).toNat

theorem pop_items {s : ForbidSource T} {kept rest : List (Item T)} {key : Key} {e : ForbidEntry T}
    (h : s.entries.items = kept ++ (key, e) :: rest) :
    (s.entries.pop key).items = kept ++ rest := by
  have hnodup := s.entries.nodup
  rw [h, List.map_append, List.map_cons, List.nodup_append] at hnodup
  obtain ⟨-, hrest, hdisjoint⟩ := hnodup
  have hbefore : ∀ item ∈ kept, decide (item.1 ≠ key) = true := by
    intro item hitem
    rw [decide_eq_true_eq]
    exact hdisjoint _ (List.mem_map_of_mem hitem) key List.mem_cons_self
  have hafter : ∀ item ∈ rest, decide (item.1 ≠ key) = true := by
    intro item hitem
    rw [decide_eq_true_eq]
    intro hkey
    exact (List.nodup_cons.mp hrest).1 (List.mem_map.mpr ⟨item, hitem, hkey⟩)
  unfold Dict.pop
  simp only
  rw [h, List.filter_append, List.filter_cons_of_neg (by simp), List.filter_eq_self.mpr hbefore,
    List.filter_eq_self.mpr hafter]

theorem evictOldest_spec (snapshot : List (Item T)) :
    ∀ (kept : List (Item T)) (s : ForbidSource T), s.entries.items = kept ++ snapshot →
      (evictOldest p snapshot s).entries.items =
          kept ++ dropOldest (excess p (kept ++ snapshot)) snapshot ∧
        (evictOldest p snapshot s).epoch = s.epoch +
          min (excess p (kept ++ snapshot)) (snapshot.filter Item.hasTtl).length ∧
        (evictOldest p snapshot s).clockReads = s.clockReads := by
  induction snapshot with
  | nil =>
    intro kept s h
    cases hn : excess p (kept ++ []) with
    | zero => exact ⟨h, by simp [evictOldest], rfl⟩
    | succ n => exact ⟨h, by simp [evictOldest], rfl⟩
  | cons item rest ih =>
    obtain ⟨key, e⟩ := item
    intro kept s h
    unfold evictOldest
    by_cases hfits : (s.entries.items.length : ℤ) ≤ p.maxEntries
    · have hzero : excess p (kept ++ (key, e) :: rest) = 0 := by
        unfold excess
        rw [← h]
        omega
      rw [if_pos hfits, hzero]
      exact ⟨h, by simp, rfl⟩
    · rw [if_neg hfits]
      obtain ⟨n, hn⟩ : ∃ n, excess p (kept ++ (key, e) :: rest) = n + 1 := by
        refine Nat.exists_eq_succ_of_ne_zero ?_
        unfold excess
        rw [← h]
        omega
      cases httl : e.ttlSeconds with
      | none =>
        have hpermanent : ¬Item.hasTtl (key, e) = true := by simp [Item.hasTtl, httl]
        have hassoc : kept ++ (key, e) :: rest = kept ++ [(key, e)] ++ rest := by simp
        obtain ⟨hitems, hepoch, hreads⟩ := ih (kept ++ [(key, e)]) s (h.trans hassoc)
        rw [← hassoc, hn] at hitems hepoch
        rw [hn, dropOldest, if_neg hpermanent, List.filter_cons_of_neg hpermanent]
        exact ⟨by rw [hitems, List.append_assoc, List.singleton_append], hepoch, hreads⟩
      | some t =>
        have hmortal : Item.hasTtl (key, e) = true := by simp [Item.hasTtl, httl]
        obtain ⟨hitems, hepoch, hreads⟩ :=
          ih kept { s with entries := s.entries.pop key, epoch := s.epoch + 1 } (pop_items h)
        have hless : excess p (kept ++ rest) = n := by
          unfold excess at hn ⊢
          rw [List.length_append, List.length_cons] at hn
          rw [List.length_append]
          omega
        rw [hless] at hitems hepoch
        rw [hn, dropOldest, if_pos hmortal, List.filter_cons_of_pos hmortal, List.length_cons]
        refine ⟨hitems, ?_, hreads⟩
        simp only at hepoch ⊢
        rw [hepoch]
        omega

theorem enforceCap_spec (s : ForbidSource T) :
    (enforceCap p s).entries.items = dropOldest (excess p s.entries.items) s.entries.items ∧
      (enforceCap p s).epoch = s.epoch +
        min (excess p s.entries.items) (s.entries.items.filter Item.hasTtl).length ∧
      (enforceCap p s).clockReads = s.clockReads := by
  unfold enforceCap
  split
  · next hfits =>
    have hzero : excess p s.entries.items = 0 := by
      unfold excess
      omega
    rw [hzero]
    exact ⟨by rw [dropOldest], by simp, rfl⟩
  · exact evictOldest_spec p s.entries.items [] s rfl

end Loop

end TexGovernance.Forbid

namespace TexGovernance.Forbid
open PyStr CaseFold PyDict

variable {T : Type} (p : Config T)

/-- The items once `e` is stored, before the cap is enforced. -/
def inserted (s : ForbidSource T) (e : ForbidEntry T) : List (Item T) :=
  (s.entries.items.filter fun item => item.1 ≠ e.key p.fold) ++ [(e.key p.fold, e)]

theorem upsert_items (s : ForbidSource T) (e : ForbidEntry T) :
    (upsert p s e).entries.items = inserted p s e := by
  have hnew : e.key p.fold ∉ (s.entries.pop (e.key p.fold)).keys := by
    rw [← Dict.get?_eq_none_iff, Dict.get?_pop, if_pos rfl]
  unfold upsert Dict.set
  simp only
  rw [dif_neg hnew]
  rfl

theorem inserted_nodup (s : ForbidSource T) (e : ForbidEntry T) :
    ((inserted p s e).map Prod.fst).Nodup := by
  rw [← upsert_items]
  exact (upsert p s e).entries.nodup

def evictees (items : List (Item T)) : List (Item T) :=
  (items.filter Item.hasTtl).take (excess p items)

structure Inserts (s s' : ForbidSource T) (e : ForbidEntry T) : Prop where
  items : s'.entries.items = dropOldest (excess p (inserted p s e)) (inserted p s e)
  epoch : s'.epoch = s.epoch + 1 + (evictees p (inserted p s e)).length
  clockReads : s'.clockReads = s.clockReads + 1

theorem add_inserts {a : AddArgs T} {s : ForbidSource T} {e : ForbidEntry T}
    (h : entryOfArgs p (p.clock s.clockReads) a = some e) :
    (add p a s).1 = true ∧ Inserts p s (add p a s).2 e := by
  obtain ⟨hitems, hepoch, hreads⟩ :=
    enforceCap_spec p (upsert p { s with clockReads := s.clockReads + 1 } e)
  rw [upsert_items] at hitems hepoch
  unfold add
  rw [h]
  refine ⟨rfl, hitems, ?_, hreads⟩
  rw [evictees, List.length_take]
  exact hepoch

theorem add_refused {a : AddArgs T} {s : ForbidSource T}
    (h : entryOfArgs p (p.clock s.clockReads) a = none) : add p a s = (false, s) := by
  unfold add
  rw [h]

structure Deletes (s s' : ForbidSource T) (gone : Key → ForbidEntry T → Prop) : Prop where
  mem : ∀ k e, (k, e) ∈ s'.entries.items ↔ (k, e) ∈ s.entries.items ∧ ¬gone k e
  epoch : s'.epoch = s.epoch ∧ s'.entries.items = s.entries.items ∨
    s'.epoch = s.epoch + 1 ∧ ∃ k e, (k, e) ∈ s.entries.items ∧ gone k e

theorem deleteAll_deletes {keys : List Key} {s : ForbidSource T} {gone : Key → ForbidEntry T → Prop}
    (hkeys : ∀ k e, (k, e) ∈ s.entries.items → (k ∈ keys ↔ gone k e))
    (hsub : ∀ k ∈ keys, ∃ e, (k, e) ∈ s.entries.items) : Deletes s (deleteAll keys s) gone := by
  constructor
  · intro k e
    change (k, e) ∈ (keys.foldl Dict.pop s.entries).items ↔ _
    rw [Dict.items_foldl_pop, List.mem_filter, decide_eq_true_eq]
    exact and_congr_right fun hmem => not_congr (hkeys k e hmem)
  · unfold deleteAll
    cases keys with
    | nil => exact .inl ⟨rfl, rfl⟩
    | cons k keys =>
      obtain ⟨e, he⟩ := hsub k List.mem_cons_self
      refine .inr ⟨?_, k, e, he, (hkeys k e he).mp List.mem_cons_self⟩
      simp only [if_neg (List.cons_ne_nil k keys)]

theorem revoke_deletes (r : RevokeArgs) (s : ForbidSource T) :
    Deletes s (revoke p r s).2 fun k _ => r.Matches p.fold k := by
  refine deleteAll_deletes (fun k e hmem => ?_) fun k hk => ?_
  · rw [List.mem_filter, decide_eq_true_eq]
    exact and_iff_right (List.mem_map_of_mem hmem)
  · obtain ⟨item, hitem, rfl⟩ := List.mem_map.mp (List.mem_of_mem_filter hk)
    exact ⟨item.2, hitem⟩

variable [Add T] [LE T] [DecidableLE T]

theorem refreshed_deletes (s : ForbidSource T) :
    Deletes s (refreshed p s) fun _ e => e.isExpired (p.clock s.clockReads) = true := by
  have hprune : Deletes { s with clockReads := s.clockReads + 1 } (refreshed p s)
      fun _ e => e.isExpired (p.clock s.clockReads) = true := by
    refine deleteAll_deletes ?_ ?_
    · intro k e hmem
      rw [List.mem_map]
      constructor
      · rintro ⟨item, hitem, rfl⟩
        obtain ⟨hstored, hexpired⟩ := List.mem_filter.mp hitem
        have hsame : item.2 = e :=
          Option.some.inj (((Dict.get?_eq_some_iff s.entries item.1 item.2).mpr hstored).symm.trans
            ((Dict.get?_eq_some_iff s.entries item.1 e).mpr hmem))
        rw [← hsame]
        exact hexpired
      · intro hexpired
        exact ⟨(k, e), List.mem_filter.mpr ⟨hmem, hexpired⟩, rfl⟩
    · intro k hk
      obtain ⟨item, hitem, rfl⟩ := List.mem_map.mp hk
      exact ⟨item.2, List.mem_of_mem_filter hitem⟩
  exact ⟨hprune.mem, hprune.epoch⟩

inductive Op (T : Type) where
  | add (a : AddArgs T)
  | revoke (r : RevokeArgs)
  | read

def Op.apply (s : ForbidSource T) : Op T → ForbidSource T
  | .add a => (Forbid.add p a s).2
  | .revoke r => (Forbid.revoke p r s).2
  | .read => refreshed p s

def run (s : ForbidSource T) (ops : List (Op T)) : ForbidSource T := ops.foldl (Op.apply p) s

inductive Call (T : Type) where
  | add (a : AddArgs T)
  | addHost (a : AddArgs T) (ports : List ℤ)
  | feedFromDecision (f : FeedArgs)
  | revoke (r : RevokeArgs)
  | forTenant (tenant : Option Str)
  | size

def Call.apply (s : ForbidSource T) : Call T → ForbidSource T
  | .add a => (Forbid.add p a s).2
  | .addHost a ports => (Forbid.addHost p a ports s).2
  | .feedFromDecision f => (Forbid.feedFromDecision p f s).2
  | .revoke r => (Forbid.revoke p r s).2
  | .forTenant tenant => (Forbid.forTenant p tenant s).2
  | .size => (Forbid.size p s).2

def Call.ops : Call T → List (Op T)
  | .add a => [.add a]
  | .addHost a ports => ports.map fun port => .add { a with port := port }
  | .feedFromDecision f =>
    match fedHost p f with
    | none => []
    | some host => defaultPorts.map fun port => .add { fedArgs p f host with port := port }
  | .revoke r => [.revoke r]
  | .forTenant _ => [.read]
  | .size => [.read]

theorem addHost_eq_run (a : AddArgs T) (ports : List ℤ) :
    ∀ s, (addHost p a ports s).2 = run p s (ports.map fun port => .add { a with port := port }) := by
  induction ports with
  | nil => exact fun s => rfl
  | cons port ports ih => exact fun s => ih (add p { a with port := port } s).2

theorem Call.apply_eq_run (s : ForbidSource T) (c : Call T) : c.apply p s = run p s (c.ops p) := by
  cases c with
  | addHost a ports => exact addHost_eq_run p a ports s
  | feedFromDecision f =>
    unfold Call.apply Forbid.feedFromDecision Call.ops
    simp only
    cases fedHost p f with
    | none => rfl
    | some host => exact addHost_eq_run p (fedArgs p f host) defaultPorts s
  | _ => rfl

def runCalls (s : ForbidSource T) (calls : List (Call T)) : ForbidSource T :=
  calls.foldl (Call.apply p) s

theorem run_append (s : ForbidSource T) (ops more : List (Op T)) :
    run p s (ops ++ more) = run p (run p s ops) more := List.foldl_append

theorem run_concat (s : ForbidSource T) (ops : List (Op T)) (op : Op T) :
    run p s (ops ++ [op]) = op.apply p (run p s ops) := by
  rw [run_append]
  rfl

theorem runCalls_eq_run (calls : List (Call T)) :
    ∀ s, runCalls p s calls = run p s (calls.flatMap (Call.ops p)) := by
  induction calls with
  | nil => exact fun s => rfl
  | cons c calls ih =>
    intro s
    rw [List.flatMap_cons, run_append, ← c.apply_eq_run]
    exact ih (c.apply p s)

end TexGovernance.Forbid
