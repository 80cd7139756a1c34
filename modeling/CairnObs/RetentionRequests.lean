import CairnObs.LogRetention
import CairnObs.GuardedRuns

/-! The requests that write or read the floors, as programs of store calls: PUT and DELETE of an
agent's configuration, and previews and deletions by age. -/
namespace CairnObs.LogRetention

open GoText Authz Agents GuardedRuns

/-- The columns of `logs` that a deletion reads. -/
structure LogRecord where
  host : Text
  service : Text
  timestamp : ℤ
  deriving DecidableEq

structure World where
  agents : AgentTable
  logs : List LogRecord
  now : ℤ

/-! ### The store calls -/

/-- The override that `Get` answers with, if it finds the agent. -/
def desiredOverride (agents : AgentTable) (tenantID host : Text) : Option ConfigOverride :=
  match agents.lookup (tenantID, host) with
  | some (some o) => some o.override
  | _ => none

def writeOverride (agents : AgentTable) (tenantID host : Text) (o : Option StoredOverride) :
    AgentTable :=
  if (tenantID, host) ∈ agents then agents.insert (tenantID, host) o else agents

def setOverride (agents : AgentTable) (tenantID host : Text) (o : StoredOverride) : AgentTable :=
  writeOverride agents tenantID host (some o)

def clearOverride (agents : AgentTable) (tenantID host : Text) : AgentTable :=
  writeOverride agents tenantID host none

/-- `timestamp < cutoff AND (host, service) IN (targets)`. -/
def olderThan (cutoff : ℤ) (targets : List HostService) (record : LogRecord) : Bool :=
  decide (record.timestamp < cutoff ∧ ⟨record.host, record.service⟩ ∈ targets)

def deleteOlderThan (logs : List LogRecord) (cutoff : ℤ) (targets : List HostService) :
    List LogRecord :=
  logs.filter (fun record => !olderThan cutoff targets record)

/-! ### The handlers -/

inductive Request
  | setConfig (host : Text) (o : ConfigOverride)
  | clearConfig (host : Text)
  | preview (olderThanHours : ℤ) (targets : List HostService)
  | delete (olderThanHours : ℤ) (targets : List HostService)

/-- What a handler does next, with what it has read. In `partition` this is no store call but
the reading of the clock after `FloorsByHost`. -/
inductive Phase
  | idle
  | putExtraPaths (identity : Identity) (tenantID host : Text) (o : StoredOverride)
  | putDays (tenantID host : Text) (o : StoredOverride)
  | putServices (tenantID host : Text) (o : StoredOverride)
  | putWrite (tenantID host : Text) (o : StoredOverride)
  | clear (tenantID host : Text)
  | floors (deletes : Bool) (cutoff : ℤ) (targets : List HostService)
  | partition (deletes : Bool) (cutoff : ℤ) (targets : List HostService)
      (floors : AList (fun _ : Text => HostFloor))
  | count (deletes : Bool) (cutoff : ℤ) (allowed : List HostService)
  | deleteRows (cutoff : ℤ) (allowed : List HostService)

def roleForFloorCheck : Option Identity → Role
  | some i => i.role
  | none => .owner

/-- `handleSetConfig` from the check of the retention days on. -/
def afterExtraPaths (identity : Option Identity) (tenantID host : Text) (o : StoredOverride) :
    Phase :=
  match identity with
  | some i =>
    if i.role.satisfies .owner then .putWrite tenantID host o else .putDays tenantID host o
  | none => .putWrite tenantID host o

def startSetConfig (identity : Option Identity) (host : Text) (o : ConfigOverride) : Phase :=
  if h : validateOverride o = none then
    match identity with
    | some i =>
      if i.role.satisfies .admin then afterExtraPaths identity (requestTenant identity) host ⟨o, h⟩
      else .putExtraPaths i (requestTenant identity) host ⟨o, h⟩
    | none => afterExtraPaths none (requestTenant none) host ⟨o, h⟩
  else .idle

/-- Preview and delete up to the reading of the floors, which an owner skips. -/
def startDeletion (deletes : Bool) (identity : Option Identity) (now olderThanHours : ℤ)
    (targets : List HostService) : Phase :=
  match decodeDeletionRequest olderThanHours targets with
  | none => .idle
  | some targets =>
    -- without an authorizer everyone counts as an owner
    if roleForFloorCheck identity = .owner then .count deletes (cutoffAt now olderThanHours) targets
    else .floors deletes (cutoffAt now olderThanHours) targets

def start (authorizer : Option (Option Identity)) (now : ℤ) : Request → Phase
  | .setConfig host o =>
    match requireRole authorizer .editor with
    | .pass identity => startSetConfig identity host o
    | _ => .idle
  | .clearConfig host =>
    match requireRole authorizer .editor with
    | .pass identity => .clear (requestTenant identity) host
    | _ => .idle
  | .preview olderThanHours targets =>
    match requireRole authorizer .admin with
    | .pass identity => startDeletion false identity now olderThanHours targets
    | _ => .idle
  | .delete olderThanHours targets =>
    match requireRole authorizer .admin with
    | .pass identity => startDeletion true identity now olderThanHours targets
    | _ => .idle

/-- What the outside contributes to a store call: whether it fails, and the rows of
`FloorsByHost` in the order in which they come. -/
structure Env where
  fails : Bool
  rows : List (Text × HostFloor)

/-- What the `current...` helpers of the handler work with: a `Get` that fails reads as no
override. -/
def currentOverride (env : Env) (agents : AgentTable) (tenantID host : Text) :
    Option ConfigOverride :=
  if env.fails then none else desiredOverride agents tenantID host

def currentExtraFilePaths (current : Option ConfigOverride) : List Text :=
  match current with
  | some o => o.extraFilePaths
  | none => []

def currentLogRetentionDays (current : Option ConfigOverride) : Option ℤ :=
  match current with
  | some o => o.logRetentionDays
  | none => none

def currentServiceLogRetentionDays (current : Option ConfigOverride) : AList (fun _ : Text => ℤ) :=
  match current with
  | some o => o.serviceLogRetentionDays
  | none => ∅

/-- A target list that is empty ends the request. -/
def countPhase (deletes : Bool) (cutoff : ℤ) (allowed : List HostService) : Phase :=
  if allowed = [] then .idle else .count deletes cutoff allowed

/-- One store call, and what the handler makes of its answer. -/
def call (env : Env) (w : World) : Phase → World × Phase
  | .idle => (w, .idle)
  | .putExtraPaths identity tenantID host o =>
    let current := currentExtraFilePaths (currentOverride env w.agents tenantID host)
    (w, if changesExtraFilePaths current o.override.extraFilePaths then .idle
      else afterExtraPaths (some identity) tenantID host o)
  | .putDays tenantID host o =>
    let current := currentLogRetentionDays (currentOverride env w.agents tenantID host)
    (w, if changesLogRetentionDays current o.override.logRetentionDays then .idle
      else .putServices tenantID host o)
  | .putServices tenantID host o =>
    let current := currentServiceLogRetentionDays (currentOverride env w.agents tenantID host)
    (w, if changesServiceLogRetentionDays current o.override.serviceLogRetentionDays then .idle
      else .putWrite tenantID host o)
  | .putWrite tenantID host o =>
    (if env.fails then w else { w with agents := setOverride w.agents tenantID host o }, .idle)
  -- whatever the override holds, floors included
  | .clear tenantID host =>
    (if env.fails then w else { w with agents := clearOverride w.agents tenantID host }, .idle)
  | .floors deletes cutoff targets =>
    (w, if env.fails then .idle else .partition deletes cutoff targets (floorsByHost env.rows))
  | .partition deletes cutoff targets floors =>
    (w, countPhase deletes cutoff (partitionTargets floors w.now cutoff targets).1)
  | .count deletes cutoff allowed =>
    (w, if env.fails || !deletes then .idle else .deleteRows cutoff allowed)
  | .deleteRows cutoff allowed =>
    (if env.fails then w else { w with logs := deleteOlderThan w.logs cutoff allowed }, .idle)

/-- The rows are those of the table, in some order. -/
def answers (env : Env) (w : World) : Phase → Bool
  | .floors _ _ _ => env.fails || decide (env.rows.Perm (floorRows w.agents))
  | _ => true

structure System (ρ : Type*) where
  world : World
  phases : ρ → Phase

inductive Action (ρ : Type*)
  | request (r : ρ) (authorizer : Option (Option Identity)) (req : Request)
  | call (r : ρ) (env : Env)
  | tick (now : ℤ)
  | ingest (record : LogRecord)

variable {ρ : Type*} [DecidableEq ρ]

/-- The clock does not go back. -/
def step (s : System ρ) : Action ρ → Option (System ρ)
  | .request r authorizer req =>
    match s.phases r with
    | .idle =>
      some { s with phases := Function.update s.phases r (start authorizer s.world.now req) }
    | _ => none
  | .call r env =>
    if answers env s.world (s.phases r) then
      let next := call env s.world (s.phases r)
      some ⟨next.1, Function.update s.phases r next.2⟩
    else none
  | .tick now =>
    if s.world.now ≤ now then some { s with world := { s.world with now := now } } else none
  | .ingest record =>
    some { s with world := { s.world with logs := record :: s.world.logs } }

/-- What a step can do. -/
theorem step_cases {s t : System ρ} {a : Action ρ} (h : step s a = some t) :
    (∃ r authorizer req, a = .request r authorizer req ∧
        t = ⟨s.world, Function.update s.phases r (start authorizer s.world.now req)⟩) ∨
      (∃ r env, a = .call r env ∧ answers env s.world (s.phases r) = true ∧
        t = ⟨(call env s.world (s.phases r)).1,
          Function.update s.phases r (call env s.world (s.phases r)).2⟩) ∨
      (∃ now, s.world.now ≤ now ∧ t = ⟨{ s.world with now := now }, s.phases⟩) ∨
      ∃ record, t = ⟨{ s.world with logs := record :: s.world.logs }, s.phases⟩ := by
  cases a with
  | request r authorizer req =>
    simp only [step] at h
    split at h
    · exact .inl ⟨r, authorizer, req, rfl, (Option.some.inj h).symm⟩
    · cases h
  | call r env =>
    simp only [step] at h
    split_ifs at h with hanswers
    exact .inr (.inl ⟨r, env, rfl, hanswers, (Option.some.inj h).symm⟩)
  | tick now =>
    simp only [step] at h
    split_ifs at h with hle
    exact .inr (.inr (.inl ⟨now, hle, (Option.some.inj h).symm⟩))
  | ingest record => exact .inr (.inr (.inr ⟨record, (Option.some.inj h).symm⟩))

/-- The next store call of a request that no other request runs beside. -/
def serve (env : Env) (x : World × Phase) : World × Phase := call env x.1 x.2

theorem serve_idle (env : Env) (w : World) (n : ℕ) : (serve env)^[n] (w, .idle) = (w, .idle) :=
  Function.iterate_fixed rfl n

/-- An editor of the default tenant. -/
def eve : Identity := ⟨"default".toList, "eve".toList, .editor⟩

def webEditor : Option (Option Identity) := some (some eve)

end CairnObs.LogRetention
