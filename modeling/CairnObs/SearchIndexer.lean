import CairnObs.GuardedRuns

/-! The indexer of `search`: one `consume_partition` task for each partition, the registry
of Tantivy indexes with its commit ticker, and the offset file. -/
namespace CairnObs.Search

/-- The two fields of a `LogRecord` that are indexed. -/
structure LogRecord where
  recordID : String
  message : String
  deriving DecidableEq

/-- A record of the topic; `ν` is the type of its payload. -/
structure TopicRecord (ν : Type*) where
  offset : ℕ
  value : Option ν
  headers : List (String × String)

structure Partition (ν : Type*) where
  records : List (TopicRecord ν)
  increasing : records.Pairwise (fun a b => a.offset < b.offset)

def Partition.since {ν : Type*} (log : Partition ν) (offset : ℕ) : List (TopicRecord ν) :=
  log.records.filter (fun r => decide (offset ≤ r.offset))

def tenantIDHeaderKey : String := "tenant_id"

def tenantIDFromHeaders (headers : List (String × String)) : String :=
  (headers.lookup tenantIDHeaderKey).getD ""

/-! ### One Tantivy index -/

/-- The operations a writer buffers. -/
inductive WriterOp
  | deleteTerm (recordID : String)
  | addDocument (doc : LogRecord)
  deriving DecidableEq

def WriterOp.key : WriterOp → String
  | .deleteTerm id => id
  | .addDocument doc => doc.recordID

def applyOp (docs : List LogRecord) : WriterOp → List LogRecord
  | .deleteTerm id => docs.filter (fun d => d.recordID != id)
  | .addDocument doc => docs ++ [doc]

/-- What is on disk, and what the writer holds in memory until the next commit. -/
structure SearchIndex where
  committed : List LogRecord
  buffer : List WriterOp

def SearchIndex.applied (ix : SearchIndex) : List LogRecord := ix.buffer.foldl applyOp ix.committed

/-- Delete-then-add. When `add_document` fails the delete has been buffered already. -/
def SearchIndex.upsert (doc : LogRecord) (addOk : Bool) (ix : SearchIndex) : SearchIndex :=
  { ix with
    buffer := ix.buffer ++ .deleteTerm doc.recordID ::
      (if addOk then [.addDocument doc] else []) }

def SearchIndex.commit (ix : SearchIndex) : SearchIndex := ⟨ix.applied, []⟩

def SearchIndex.crash (ix : SearchIndex) : SearchIndex := { ix with buffer := [] }

/-! ### The registry -/

def isAsciiLowercase (c : Char) : Bool := decide ('a' ≤ c ∧ c ≤ 'z')

def isAsciiDigit (c : Char) : Bool := decide ('0' ≤ c ∧ c ≤ '9')

def validateTenantID (tenantID : String) : Bool :=
  (match tenantID.toList with
    | [] => false
    | c :: cs => isAsciiLowercase c &&
        cs.all (fun c => isAsciiLowercase c || isAsciiDigit c || c == '-' || c == '_')) &&
    decide (tenantID.utf8ByteSize ≤ 63)

/-- `IndexRegistry::resolve`, with the tenants opened so far before and after it. -/
def resolve (opened : List String) (tenantID : String) (openOk : Bool) : Option (List String) :=
  if tenantID = "" then some opened
  else if tenantID ∈ opened then some opened
  else if validateTenantID tenantID && openOk then some (tenantID :: opened)
  else none

/-! ### The process -/

/-- A `consume_partition` task: the next offset, what is left of the fetched batch, and
whether a batch is being processed. -/
structure Task (ν : Type*) where
  offset : ℕ
  batch : List (TopicRecord ν)
  inBatch : Bool

/-- `indexes` and `persisted` are on disk, except for the index buffers. `routed` is history:
the tenant whose index the record was routed to when its task last came to it. -/
structure State (ν : Type*) where
  indexes : String → SearchIndex
  opened : List String
  active : Option (List String)
  tasks : ℕ → Task ν
  offsets : ℕ → ℕ
  persisted : ℕ → ℕ
  routed : ℕ → ℕ → Option String

inductive Action
  | fetch (p n : ℕ)
  | process (p : ℕ) (openOk addOk : Bool)
  | finish (p : ℕ) (persistOk : Bool)
  | commit (tenantID : String)
  | refresh (tenants : List String)
  | crash

section Steps

variable {ν : Type*} (decode : ν → Option LogRecord) (log : ℕ → Partition ν)

/-- The record as far as `consume_partition` gets before it asks for the tenant. -/
def indexable (r : TopicRecord ν) : Option LogRecord :=
  (r.value.bind decode).filter (fun rec => rec.recordID != "")

/-- The active-tenant gate. -/
def admitted (active : Option (List String)) (tenantID : String) : Bool :=
  if tenantID = "" then true
  else match active with
    | none => true
    | some tenants => tenants.contains tenantID

/-- Where a record goes: its document, its tenant and the tenants opened by then. -/
def route (opened : List String) (active : Option (List String)) (openOk : Bool)
    (r : TopicRecord ν) : Option (LogRecord × String × List String) :=
  (indexable decode r).bind (fun rec =>
    let tenantID := tenantIDFromHeaders r.headers
    if admitted active tenantID then
      (resolve opened tenantID openOk).map (fun opened' => (rec, tenantID, opened'))
    else none)

/-- One turn of the loop over the fetched batch. -/
def processRecord (p : ℕ) (r : TopicRecord ν) (rest : List (TopicRecord ν))
    (openOk addOk : Bool) (s : State ν) : State ν :=
  -- The task moves past the record whether or not it is indexed.
  let s' := { s with tasks := Function.update s.tasks p ⟨r.offset+1, rest, true⟩ }
  match route decode s.opened s.active openOk r with
  | none =>
    { s' with
      routed := Function.update s.routed p (Function.update (s.routed p) r.offset none) }
  | some (rec, tenantID, opened') =>
    { s' with
      opened := opened'
      indexes := Function.update s.indexes tenantID ((s.indexes tenantID).upsert rec addOk)
      routed := Function.update s.routed p (Function.update (s.routed p) r.offset tenantID) }

/-- After the batch: `set`, then `persist`, which writes the offsets of all partitions. -/
def finishBatch (p : ℕ) (persistOk : Bool) (s : State ν) : State ν :=
  let offsets' := Function.update s.offsets p (s.tasks p).offset
  { s with
    tasks := Function.update s.tasks p ⟨(s.tasks p).offset, [], false⟩
    offsets := offsets'
    persisted := if persistOk then offsets' else s.persisted }

/-- A crash and the restart after it, which reloads the offset file. -/
def crash (s : State ν) : State ν :=
  { s with
    indexes := fun t => (s.indexes t).crash
    opened := []
    tasks := fun p => ⟨s.persisted p, [], false⟩
    offsets := s.persisted }

def isOpen (s : State ν) (tenantID : String) : Bool := tenantID == "" || s.opened.contains tenantID

/-- `commit_all` when no index fails. -/
def commitAll (s : State ν) : State ν :=
  { s with
    indexes := fun t => if isOpen s t then (s.indexes t).commit else s.indexes t }

/-- One atomic step. A tick of `commit_all` is a `commit` of each index that is open and
does not fail, in any order and with other steps in between. -/
def step (s : State ν) : Action → Option (State ν)
  | .fetch p n =>
    let batch := ((log p).since (s.tasks p).offset).take n
    if (s.tasks p).inBatch = false ∧ batch ≠ [] then
      some { s with tasks := Function.update s.tasks p ⟨(s.tasks p).offset, batch, true⟩ }
    else none
  | .process p openOk addOk =>
    match (s.tasks p).batch with
    | [] => none
    | r :: rest => some (processRecord decode p r rest openOk addOk s)
  | .finish p persistOk =>
    if (s.tasks p).inBatch = true ∧ (s.tasks p).batch = [] then some (finishBatch p persistOk s)
    else none
  | .commit t =>
    if isOpen s t then
      some { s with indexes := Function.update s.indexes t (s.indexes t).commit }
    else none
  | .refresh tenants => some { s with active := s.active.map (fun _ => tenants) }
  | .crash => some (crash s)

end Steps

/-- Empty indexes and no offset file. `active` is `none` when no tracker is configured. -/
def initial {ν : Type*} (active : Option (List String)) : State ν :=
  { indexes := fun _ => ⟨[], []⟩, opened := [], active := active
    tasks := fun _ => ⟨0, [], false⟩, offsets := fun _ => 0, persisted := fun _ => 0
    routed := fun _ _ => none }

end CairnObs.Search
