import CairnObs.GuardedRuns

/-! `Consumer.Run` of `ingest/consumer` on one partition of the topic. -/
namespace CairnObs.Ingest

structure Header where
  key : String
  value : String

/-- A `kafka.Message`; `ν` is the type of its payload. -/
structure Message (ν : Type*) where
  offset : ℕ
  value : ν
  headers : List Header

structure Record (ρ : Type*) where
  tenantID : String
  record : ρ

def tenantIDHeaderKey : String := "tenant_id"

def tenantIDFromHeaders : List Header → String
  | [] => ""
  | h :: hs => if h.key = tenantIDHeaderKey then h.value else tenantIDFromHeaders hs

/-- What the broker keeps of a partition. -/
structure Partition (ν : Type*) where
  messages : List (Message ν)
  increasing : messages.Pairwise (fun a b => a.offset < b.offset)

/-- The next message `FetchMessage` returns. -/
def Partition.fetch {ν : Type*} (log : Partition ν) (position : ℕ) : Option (Message ν) :=
  log.messages.find? (fun m => decide (position ≤ m.offset))

/-- Where the main goroutine is: at the select, before `WriteBatch`, or between a
successful `WriteBatch` and the commit. `returning` is set in the last flush of `Run`. -/
inductive Phase
  | select
  | writing (returning : Bool)
  | committing (returning : Bool)
  | returned
  deriving DecidableEq, Repr

/-- A `WriteBatch` call that returned nil, with the messages its records came from. -/
structure Batch (ν ρ : Type*) where
  records : List (Record ρ)
  messages : List (Message ν)

/-- The consumer and the group's committed position. `writes` is the history of the
successful `WriteBatch` calls; `writeFailed` says that one has failed since the start of
this process. Neither is read by a step. -/
structure State (ν ρ : Type*) where
  phase : Phase
  position : ℕ
  fetched : Option (Message ν)
  records : List (Record ρ)
  pending : List (Message ν)
  committed : ℕ
  writes : List (Batch ν ρ)
  writeFailed : Bool

inductive Action
  | fetch
  | receive (commitOk : Bool)
  | tick
  | done
  | fetchError
  | writeBatch (ok : Bool)
  | commitMessages (ok : Bool)
  | restart

section Steps

variable {ν ρ : Type*} (unmarshal : ν → Option ρ) (batchMaxSize : ℤ) (log : Partition ν)

def commitMessages (committed : ℕ) (ms : List (Message ν)) : ℕ :=
  ms.foldl (fun c m => max c (m.offset+1)) committed

/-- `flush` up to its first effect. -/
def flush (returning : Bool) (s : State ν ρ) : State ν ρ :=
  if s.records = [] then { s with phase := if returning then .returned else .select }
  else { s with phase := .writing returning }

/-- The end of `flush`, which clears both buffers whatever happened. -/
def endFlush (returning : Bool) (s : State ν ρ) : State ν ρ :=
  { s with
    records := []
    pending := []
    phase := if returning then .returned else .select }

/-- The last case of the select. -/
def receive (m : Message ν) (commitOk : Bool) (s : State ν ρ) : State ν ρ :=
  match unmarshal m.value with
  | none =>
    -- The poison message is committed at once, over whatever is still buffered.
    { s with
      fetched := none
      committed := if commitOk then commitMessages s.committed [m] else s.committed }
  | some rec =>
    let s' := { s with
      fetched := none
      records := s.records ++ [⟨tenantIDFromHeaders m.headers, rec⟩]
      pending := s.pending ++ [m] }
    if (s'.records.length : ℤ) ≥ batchMaxSize then flush false s' else s'

/-- A new process: what was in memory is gone and fetching resumes at the committed
position. -/
def restart (s : State ν ρ) : State ν ρ :=
  { s with
    phase := .select
    position := s.committed
    fetched := none
    records := []
    pending := []
    writeFailed := false }

/-- One step of the fetching goroutine (`fetch`, at most one message ahead), of the main
one, or a crash at any point followed by a restart. -/
def step (s : State ν ρ) : Action → Option (State ν ρ)
  | .fetch =>
    match s.fetched, log.fetch s.position with
    | none, some m => some { s with fetched := some m, position := m.offset+1 }
    | _, _ => none
  | .receive commitOk =>
    match s.phase, s.fetched with
    | .select, some m => some (receive unmarshal batchMaxSize m commitOk s)
    | _, _ => none
  | .tick => if s.phase = .select then some (flush false s) else none
  | .done => if s.phase = .select then some (flush true s) else none
  | .fetchError => if s.phase = .select then some (flush true s) else none
  | .writeBatch ok =>
    match s.phase with
    | .writing returning =>
      if ok then
        some { s with
          phase := .committing returning
          writes := s.writes ++ [⟨s.records, s.pending⟩] }
      -- The error is logged; the messages of the batch are neither kept nor committed.
      else some { endFlush returning s with writeFailed := true }
    | _ => none
  | .commitMessages ok =>
    match s.phase with
    | .committing returning =>
      some (endFlush returning
        { s with committed := if ok then commitMessages s.committed s.pending else s.committed })
    | _ => none
  | .restart => some (restart s)

end Steps

/-- A consumer group that has not committed anything yet. -/
def initial {ν ρ : Type*} : State ν ρ :=
  { phase := .select, position := 0, fetched := none, records := [], pending := []
    committed := 0, writes := [], writeFailed := false }

end CairnObs.Ingest
