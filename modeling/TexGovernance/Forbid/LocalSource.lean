import TexGovernance.Forbid.Destination
import TexGovernance.Lib.PyDict

/-!
# The local forbid source

`LocalForbidSource` of `governance/local_forbid_source.py`: the pairs of an agent and a path
that the local enforcement point denies. Times are of any type that can be subtracted and
compared; the clock is given read by read.
-/

namespace TexGovernance.Forbid.Local
open PyStr CaseFold PyDict

structure LocalForbidEntry (T : Type) where
  agentId : Str
  path : Str
  tenant : Option Str
  addedAt : T
  ttlSeconds : Option T

structure LocalKey where
  agentId : Str
  path : Str
  tenant : Option Str
  deriving DecidableEq

structure LocalConfig (T : Type) where
  fold : CaseFolding
  clock : ℕ → T
  defaultTtlSeconds : T
  maxEntries : ℤ

structure LocalForbidSource (T : Type) where
  entries : Dict LocalKey (LocalForbidEntry T)
  epoch : ℕ
  clockReads : ℕ

inductive TtlArg (T : Type) where
  | useDefault
  | permanent
  | seconds (t : T)

variable {T : Type}

def LocalForbidSource.fresh : LocalForbidSource T := ⟨.empty, 0, 0⟩

/-- `_norm_tenant`. -/
def normTenant : Option Str → Option Str
  | none => none
  | some tenant => orNone (strip tenant)

/-- `_key`. -/
def keyOf (agentId path : Str) (tenant : Option Str) : LocalKey := ⟨strip agentId, strip path, normTenant tenant⟩

def LocalForbidEntry.key (e : LocalForbidEntry T) : LocalKey := keyOf e.agentId e.path e.tenant

def localActionTypes : List Str :=
  [txt "delete", txt "unlink", txt "remove", txt "rm", txt "destroy", txt "destructive", txt "truncate",
    txt "overwrite", txt "modify", txt "write", txt "rename", txt "move", txt "exec", txt "execute", txt "run",
    txt "file_delete", txt "file_write", txt "file_modify", txt "local_action"]

def isLocalActionType (fold : CaseFolding) (actionType : Option Str) : Bool :=
  match actionType with
  | none => false
  | some actionType => actionType ≠ [] ∧ fold.clean actionType ∈ localActionTypes

variable (p : LocalConfig T)

def LocalForbidEntry.hasTtl (e : LocalForbidEntry T) : Bool := e.ttlSeconds.isSome

def upsert (s : LocalForbidSource T) (e : LocalForbidEntry T) : LocalForbidSource T :=
  { s with entries := (s.entries.pop e.key).set e.key e, epoch := s.epoch + 1 }

/-- The loop of `_enforce_cap`. A turn takes one entry, so there are no more turns than
entries. -/
def evict : ℕ → Dict LocalKey (LocalForbidEntry T) → Dict LocalKey (LocalForbidEntry T)
  | 0, entries => entries
  | turns + 1, entries =>
    if (entries.items.length : ℤ) ≤ p.maxEntries then entries
    else match entries.items.find? fun item => item.2.hasTtl with
      | none => entries
      | some item => evict turns (entries.pop item.1)

def enforceCap (s : LocalForbidSource T) : LocalForbidSource T :=
  { s with entries := evict p s.entries.items.length s.entries }

/-- The arguments of `add`. -/
structure AddArgs (T : Type) where
  agentId : Str
  path : Str
  tenant : Option Str
  ttlSeconds : TtlArg T

def ttlOf : TtlArg T → Option T
  | .useDefault => some p.defaultTtlSeconds
  | .permanent => none
  | .seconds t => some t

/-- The entry that `add` makes of its arguments, if it accepts them. -/
def entryOfArgs (now : T) (a : AddArgs T) : Option (LocalForbidEntry T) :=
  if strip a.agentId = [] ∨ strip a.path = [] then none
  else some ⟨strip a.agentId, strip a.path, normTenant a.tenant, now, ttlOf p a.ttlSeconds⟩

def add (a : AddArgs T) (s : LocalForbidSource T) : Bool × LocalForbidSource T :=
  match entryOfArgs p (p.clock s.clockReads) a with
  | none => (false, s)
  | some e => (true, enforceCap p (upsert { s with clockReads := s.clockReads + 1 } e))

/-- The arguments of `feed_from_decision`. -/
structure FeedArgs where
  actionType : Option Str
  recipient : Option Str
  agentId : Option Str
  tenant : Option Str

/-- What `feed_from_decision` hands to `add`. -/
def fedArgs (f : FeedArgs) : Option (AddArgs T) :=
  if isLocalActionType p.fold f.actionType = false then none
  else match f.recipient, f.agentId with
    | some recipient, some agentId =>
      if recipient = [] ∨ agentId = [] then none else some ⟨agentId, recipient, f.tenant, .useDefault⟩
    | _, _ => none

def feedFromDecision (f : FeedArgs) (s : LocalForbidSource T) : ℕ × LocalForbidSource T :=
  match fedArgs p f with
  | none => (0, s)
  | some a =>
    let (accepted, s) := add p a s
    (if accepted then 1 else 0, s)

/-- The pairs of `TEX_LOCAL_FORBID_SET`: the words that hold `=`, cut at the first one. -/
def seeds (raw : Str) : List (Str × Str) :=
  ((splitWords (raw.map fun c => if c = cp ',' then cp ' ' else c)).filter fun word => cp '=' ∈ word).map
    fun word =>
      let agentId := word.takeWhile fun c => c ≠ cp '='
      (agentId, word.drop (agentId.length + 1))

def addSeeds (tenant : Option Str) : List (Str × Str) → LocalForbidSource T → ℕ × LocalForbidSource T
  | [], s => (0, s)
  | seed :: rest, s =>
    let (accepted, s) := add p ⟨seed.1, seed.2, tenant, .permanent⟩ s
    let (added, s) := addSeeds tenant rest s
    (if accepted then added + 1 else added, s)

/-- `from_env`, with what the environment holds at the call. -/
def fromEnv (raw : Str) (tenant : Option Str) (s : LocalForbidSource T) : ℕ × LocalForbidSource T :=
  addSeeds p tenant (seeds raw) s

structure RevokeArgs where
  agentId : Str
  path : Str
  tenant : Option Str

def RevokeArgs.key (r : RevokeArgs) : LocalKey := keyOf r.agentId r.path r.tenant

def revoke (r : RevokeArgs) (s : LocalForbidSource T) : ℕ × LocalForbidSource T :=
  match s.entries.get? r.key with
  | none => (0, s)
  | some _ => (1, { s with entries := s.entries.pop r.key, epoch := s.epoch + 1 })

variable [Sub T] [LE T] [DecidableLE T]

def LocalForbidEntry.expired (e : LocalForbidEntry T) (now : T) : Bool :=
  match e.ttlSeconds with
  | none => false
  | some ttl => ttl ≤ now - e.addedAt

/-- The first half of `_live`: the read of the clock and the removal of what has expired. -/
def refreshed (s : LocalForbidSource T) : LocalForbidSource T :=
  let now := p.clock s.clockReads
  let dead := (s.entries.items.filter fun item => item.2.expired now).map Prod.fst
  { entries := dead.foldl Dict.pop s.entries
    epoch := if dead = [] then s.epoch else s.epoch + 1
    clockReads := s.clockReads + 1 }

def listedFor (norm : Option Str) (e : LocalForbidEntry T) : Bool := e.tenant = none ∨ e.tenant = norm

structure ResponseSet where
  forbid : List (Str × Str)
  epoch : ℕ
  tenant : Str
  deriving DecidableEq

def responseOf (tenant : Option Str) (s : LocalForbidSource T) : ResponseSet where
  forbid := ((s.entries.items.map Prod.snd).filter (listedFor (normTenant tenant))).map fun e =>
    (e.agentId, e.path)
  epoch := s.epoch
  tenant := (normTenant tenant).getD []

def responseSet (tenant : Option Str) (s : LocalForbidSource T) : ResponseSet × LocalForbidSource T :=
  (responseOf tenant (refreshed p s), refreshed p s)

inductive LocalOp (T : Type) where
  | add (a : AddArgs T)
  | revoke (r : RevokeArgs)
  | read (tenant : Option Str)

def LocalOp.apply (s : LocalForbidSource T) : LocalOp T → LocalForbidSource T
  | .add a => (Local.add p a s).2
  | .revoke r => (Local.revoke r s).2
  | .read tenant => (responseSet p tenant s).2

def run (s : LocalForbidSource T) (ops : List (LocalOp T)) : LocalForbidSource T := ops.foldl (LocalOp.apply p) s

inductive LocalCall (T : Type) where
  | add (a : AddArgs T)
  | feedFromDecision (f : FeedArgs)
  | revoke (r : RevokeArgs)
  | fromEnv (raw : Str) (tenant : Option Str)
  | responseSet (tenant : Option Str)

def LocalCall.apply (s : LocalForbidSource T) : LocalCall T → LocalForbidSource T
  | .add a => (Local.add p a s).2
  | .feedFromDecision f => (Local.feedFromDecision p f s).2
  | .revoke r => (Local.revoke r s).2
  | .fromEnv raw tenant => (Local.fromEnv p raw tenant s).2
  | .responseSet tenant => (Local.responseSet p tenant s).2

def LocalCall.ops : LocalCall T → List (LocalOp T)
  | .add a => [.add a]
  | .feedFromDecision f => ((fedArgs p f).map LocalOp.add).toList
  | .revoke r => [.revoke r]
  | .fromEnv raw tenant => (seeds raw).map fun seed => .add ⟨seed.1, seed.2, tenant, .permanent⟩
  | .responseSet tenant => [.read tenant]

theorem addSeeds_eq_run (tenant : Option Str) (pairs : List (Str × Str)) (s : LocalForbidSource T) :
    (addSeeds p tenant pairs s).2 =
      run p s (pairs.map fun seed => .add ⟨seed.1, seed.2, tenant, .permanent⟩) := by
  induction pairs generalizing s with
  | nil => rfl
  | cons seed rest ih => exact ih (add p ⟨seed.1, seed.2, tenant, .permanent⟩ s).2

theorem LocalCall.apply_eq_run (s : LocalForbidSource T) (c : LocalCall T) : c.apply p s = run p s (c.ops p) := by
  cases c with
  | feedFromDecision f =>
    unfold LocalCall.apply Local.feedFromDecision LocalCall.ops
    simp only
    cases fedArgs p f with
    | none => rfl
    | some a => rfl
  | fromEnv raw tenant => exact addSeeds_eq_run p tenant (seeds raw) s
  | _ => rfl

def runCalls (s : LocalForbidSource T) (calls : List (LocalCall T)) : LocalForbidSource T :=
  calls.foldl (LocalCall.apply p) s

theorem run_append (s : LocalForbidSource T) (ops more : List (LocalOp T)) :
    run p s (ops ++ more) = run p (run p s ops) more := List.foldl_append

theorem run_concat (s : LocalForbidSource T) (ops : List (LocalOp T)) (op : LocalOp T) :
    run p s (ops ++ [op]) = op.apply p (run p s ops) := by
  rw [run_append]
  rfl

theorem runCalls_eq_run (calls : List (LocalCall T)) (s : LocalForbidSource T) :
    runCalls p s calls = run p s (calls.flatMap (LocalCall.ops p)) := by
  induction calls generalizing s with
  | nil => rfl
  | cons c calls ih =>
    rw [List.flatMap_cons, run_append, ← c.apply_eq_run]
    exact ih (c.apply p s)

end TexGovernance.Forbid.Local
