import CairnObs.Authz
import CairnObs.Jsonb
import CairnObs.SeparatedFields

/-! `enterprise/internal/audit`: entries, the row hash, the columns of `audit_log`, and
`Store.Append` with the three adapters that call it. -/
namespace CairnObs.Audit

open GoText PgColumns Authz

inductive Source
  | api
  | web
  | cli
  | alerting
  deriving DecidableEq, Repr

def Source.text : Source → Text
  | .api => "api".toList
  | .web => "web".toList
  | .cli => "cli".toList
  | .alerting => "alerting".toList

inductive EventType
  | query
  | roleChange
  | grantChange
  | ssoConfigChange
  | secretReveal
  | aiInteraction
  | agentCommand
  deriving DecidableEq, Repr

def EventType.text : EventType → Text
  | .query => "query".toList
  | .roleChange => "role_change".toList
  | .grantChange => "grant_change".toList
  | .ssoConfigChange => "sso_config_change".toList
  | .secretReveal => "secret_reveal".toList
  | .aiInteraction => "ai_interaction".toList
  | .agentCommand => "agent_command".toList

inductive Status
  | success
  | error
  deriving DecidableEq, Repr

def Status.text : Status → Text
  | .success => "success".toList
  | .error => "error".toList

/-- What a caller supplies; `detail` is a `json.RawMessage`. -/
structure Entry where
  tenantID : Text
  userID : Option Text
  source : Source
  eventType : EventType
  queryText : Option Text
  rowCount : Option ℤ
  durationMS : Option ℤ
  status : Status
  errorMessage : Option Text
  detail : Text
  deriving DecidableEq

/-! ### The row hash -/

def deref : Option Text → Text
  | none => []
  | some s => s

def intToStr : Option ℤ → Text
  | none => []
  | some n => decimal n

/-- The fields that `computeHash` writes, in its order. -/
def hashedFields (prevHash : Option Text) (e : Entry) : List Text :=
  [deref prevHash, e.tenantID, deref e.userID, e.source.text, e.eventType.text,
    deref e.queryText, intToStr e.rowCount, intToStr e.durationMS, e.status.text,
    deref e.errorMessage, e.detail]

def computeHash (sha256 : List UInt8 → List UInt8) (prevHash : Option Text) (e : Entry) : Text :=
  encodeToString (sha256 (utf8 (SeparatedFields.terminated nul (hashedFields prevHash e))))

theorem nul_not_mem_computeHash (sha256 : List UInt8 → List UInt8) (prevHash : Option Text)
    (e : Entry) : nul ∉ computeHash sha256 prevHash e := nul_not_mem_encodeToString _

/-! ### The table -/

/-- The columns of `audit_log` that `Append` fills from the entry. The JSONB value of
`detail` is represented by the text it is selected as. -/
structure Columns where
  tenantID : ColumnText
  userID : Option Uuid
  source : Source
  eventType : EventType
  queryText : Option ColumnText
  rowCount : Option ℤ
  durationMS : Option ℤ
  status : Status
  errorMessage : Option ColumnText
  detail : ColumnText
  deriving DecidableEq

structure Row where
  id : ℕ
  columns : Columns
  prevHash : Option ColumnText
  rowHash : ColumnText
  createdAt : ℤ
  deriving DecidableEq

/-- The parameters of the INSERT, each refused or taken by its column. -/
def Columns.ofEntry (e : Entry) : Option Columns := do
  let tenantID ← textColumn e.tenantID
  let userID ← nullable uuidColumn e.userID
  let queryText ← nullable textColumn e.queryText
  let rowCount ← nullable int4Column e.rowCount
  let durationMS ← nullable int4Column e.durationMS
  let errorMessage ← nullable textColumn e.errorMessage
  let detail ← Jsonb.jsonbColumn e.detail
  some ⟨tenantID, userID, e.source, e.eventType, queryText, rowCount, durationMS, e.status,
    errorMessage, detail⟩

/-- The entry a SELECT scans the columns into. -/
def Columns.entry (c : Columns) : Entry where
  tenantID := c.tenantID.text
  userID := c.userID.map uuidOut
  source := c.source
  eventType := c.eventType
  queryText := c.queryText.map ColumnText.text
  rowCount := c.rowCount
  durationMS := c.durationMS
  status := c.status
  errorMessage := c.errorMessage.map ColumnText.text
  detail := c.detail.text

/-- `audit_log` in id order, with the last id its sequence has given out. -/
structure Table where
  rows : List Row
  lastID : ℕ
  increasing : rows.Pairwise (fun a b => a.id < b.id)
  bounded : ∀ r ∈ rows, r.id ≤ lastID

def emptyTable : Table := ⟨[], 0, List.Pairwise.nil, by simp⟩

/-- An INSERT draws the next id. -/
def Table.insert (db : Table) (row : ℕ → Row) (hid : (row (db.lastID+1)).id = db.lastID+1) :
    Table where
  rows := db.rows ++ [row (db.lastID+1)]
  lastID := db.lastID+1
  increasing := by
    refine List.pairwise_append.mpr ⟨db.increasing, List.pairwise_singleton _ _, ?_⟩
    intro a ha b hb
    rw [List.mem_singleton.mp hb, hid]
    exact Nat.lt_succ_of_le (db.bounded a ha)
  bounded := by
    intro r hr
    rcases List.mem_append.mp hr with hr | hr
    · exact Nat.le_succ_of_le (db.bounded r hr)
    · rw [List.mem_singleton.mp hr, hid]

/-- `Append` hashes an empty detail as an empty object. -/
def Entry.withDetail (e : Entry) : Entry :=
  if e.detail = [] then { e with detail := "{}".toList } else e

section Append
variable (sha256 : List UInt8 → List UInt8)

/-- The row that `Append` inserts behind `prevHash`. -/
def newRow (prevHash : Option ColumnText) (now : ℤ) (e : Entry) (columns : Columns) (id : ℕ) :
    Row where
  id := id
  columns := columns
  prevHash := prevHash
  rowHash := ⟨computeHash sha256 (prevHash.map ColumnText.text) e, nul_not_mem_computeHash _ _ _⟩
  createdAt := now

/-- `SELECT row_hash FROM audit_log ORDER BY id DESC LIMIT 1`. -/
def lastHash (rows : List Row) : Option ColumnText := rows.getLast?.map Row.rowHash

/-- `Append` of one caller alone. A parameter that its column refuses fails the INSERT
before an id is drawn. -/
def append (db : Table) (now : ℤ) (e : Entry) : Table :=
  match Columns.ofEntry e.withDetail with
  | some columns => db.insert (newRow sha256 (lastHash db.rows) now e.withDetail columns) rfl
  | none => db

end Append

/-! ### The adapters -/

/-- The user id of an attributable entry; an identity without a tenant is refused. -/
def tenantIdentity (identity : Option Identity) : Option (Text × Option Text) :=
  match identity with
  | none => none
  | some id =>
    if id.tenantID = [] then none
    else some (id.tenantID, if id.userID = [] then none else some id.userID)

structure QueryAuditEntry where
  query : Text
  rowCount : ℤ
  durationNS : ℤ
  success : Bool
  error : Text

/-- `QueryAPILogger.LogQuery`. -/
def logQuery (source : Source) (identity : Option Identity) (q : QueryAuditEntry) : Option Entry :=
  (tenantIdentity identity).map (fun id =>
    { tenantID := id.1
      userID := id.2
      source := source
      eventType := .query
      queryText := some q.query
      rowCount := some q.rowCount
      durationMS := some (q.durationNS.tdiv 1000000)
      status := if q.success then .success else .error
      errorMessage := if q.success then none else some q.error
      detail := [] })

structure CommandLogEntry where
  host : Text
  command : Text

def agentCommandDetail (c : CommandLogEntry) : Jsonb.Object :=
  [("host".toList, .str c.host), ("command".toList, .str c.command)]

/-- `AgentCommandLogger.LogCommand`. -/
def logCommand (source : Source) (identity : Option Identity) (c : CommandLogEntry) :
    Option Entry :=
  (tenantIdentity identity).map (fun id =>
    { tenantID := id.1
      userID := id.2
      source := source
      eventType := .agentCommand
      queryText := none
      rowCount := none
      durationMS := none
      status := .success
      errorMessage := none
      detail := Jsonb.marshal (agentCommandDetail c) })

structure InteractionEntry where
  operation : Text
  input : Text
  output : Text
  confidence : Text
  accepted : Bool
  edited : Bool
  finalQuery : Text

def aiInteractionDetail (i : InteractionEntry) : Jsonb.Object :=
  [("operation".toList, .str i.operation), ("input".toList, .str i.input),
    ("output".toList, .str i.output)] ++
  (if i.confidence = [] then [] else [("confidence".toList, .str i.confidence)]) ++
  [("accepted".toList, .bool i.accepted), ("edited".toList, .bool i.edited)]

/-- `AIInteractionLogger.LogInteraction`. -/
def logInteraction (source : Source) (identity : Option Identity) (i : InteractionEntry) :
    Option Entry :=
  (tenantIdentity identity).map (fun id =>
    { tenantID := id.1
      userID := id.2
      source := source
      eventType := .aiInteraction
      queryText := if i.finalQuery = [] then none else some i.finalQuery
      rowCount := none
      durationMS := none
      status := .success
      errorMessage := none
      detail := Jsonb.marshal (aiInteractionDetail i) })

/-- A call of one of the adapters. -/
inductive LogCall
  | query (source : Source) (identity : Option Identity) (entry : QueryAuditEntry)
  | command (source : Source) (identity : Option Identity) (entry : CommandLogEntry)
  | interaction (source : Source) (identity : Option Identity) (entry : InteractionEntry)

/-- The entry the adapter hands to `Append`; none when it refuses the call. -/
def LogCall.entry : LogCall → Option Entry
  | .query source identity q => logQuery source identity q
  | .command source identity c => logCommand source identity c
  | .interaction source identity i => logInteraction source identity i

/-- A call at the time `now`. -/
def logCall (sha256 : List UInt8 → List UInt8) (db : Table) (call : ℤ × LogCall) : Table :=
  match call.2.entry with
  | some e => append sha256 db call.1 e
  | none => db

def logAll (sha256 : List UInt8 → List UInt8) (calls : List (ℤ × LogCall)) : Table :=
  calls.foldl (logCall sha256) emptyTable

end CairnObs.Audit
