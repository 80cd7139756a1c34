import CairnObs.AlertTransition
import CairnObs.GuardedRuns

/-! The delivery workers of `alerting/internal/delivery` on a shared `delivery_log`. -/
namespace CairnObs.Delivery
open CairnObs.Alerting (EventType)

inductive Status
  | pending | sent | failed | retrying
  deriving DecidableEq, Repr

def Status.terminal : Status → Bool
  | .sent | .failed => true
  | .pending | .retrying => false

/-- A row of `delivery_log`. -/
structure DeliveryRow (ι : Type*) where
  ruleID : ι
  eventType : EventType
  status : Status
  attemptCount : ℕ
  maxAttempts : ℕ
  nextAttemptAt : Option ℤ
  lastAttemptAt : Option ℤ
  lastError : Option String
  responseStatus : Option ℕ
  createdAt : ℤ

/-- The WHERE clause of the claim. -/
def DeliveryRow.due {ι : Type*} (now : ℤ) (row : DeliveryRow ι) : Bool :=
  (row.status == .pending || row.status == .retrying) &&
    (match row.nextAttemptAt with
      | none => true
      | some t => decide (t ≤ now))

/-- `claimedDelivery`: what the claim's RETURNING hands to the worker. -/
structure ClaimedDelivery where
  id : ℕ
  attemptCount : ℕ
  maxAttempts : ℕ

/-- How one `attempt` ended. Only the last two have issued a POST. -/
inductive AttemptResult
  | targetLookup (err : String)
  | invalidURL (err : String)
  | badRequest (err : String)
  | transport (err : String)
  | response (statusCode : ℕ)

def AttemptResult.posted : AttemptResult → Bool
  | .transport _ | .response _ => true
  | _ => false

/-- The worker has got a 2xx. An answer that is lost counts as a failure, even if the target took
the POST. -/
def AttemptResult.accepted : AttemptResult → Bool
  | .response code => decide (200 ≤ code ∧ code < 300)
  | _ => false

/-- The status code and the text that `attempt` passes to `fail`. -/
def AttemptResult.failure : AttemptResult → ℕ × String
  | .targetLookup err => (0, "looking up notification target: " ++ err)
  | .invalidURL err => (0, "webhook_url no longer valid: " ++ err)
  | .badRequest err => (0, "building request: " ++ err)
  | .transport err => (0, err)
  | .response code => (code, "non-2xx response: " ++ toString code)

def nullIfZero (n : ℕ) : Option ℕ := if n = 0 then none else some n

def markSent {ι : Type*} (statusCode : ℕ) (row : DeliveryRow ι) : DeliveryRow ι :=
  { row with
    status := .sent
    attemptCount := row.attemptCount+1
    responseStatus := some statusCode }

/-- `1<<uint(nextAttempt)` seconds in int64 arithmetic, at most an hour. -/
def backoff (nextAttempt : ℕ) : ℤ :=
  let b := wrapInt64 (wrapInt64 (2^nextAttempt)*second)
  if b > 3600*second then 3600*second else b

/-- The decision is taken on the counts of the claim, the count is raised in the row. -/
def fail {ι : Type*} (dbNow : ℤ) (c : ClaimedDelivery) (statusCode : ℕ) (errMsg : String)
    (row : DeliveryRow ι) : DeliveryRow ι :=
  let nextAttempt := c.attemptCount+1
  if nextAttempt ≥ c.maxAttempts then
    { row with
      status := .failed
      attemptCount := row.attemptCount+1
      responseStatus := nullIfZero statusCode
      lastError := some errMsg }
  else
    { row with
      status := .retrying
      attemptCount := row.attemptCount+1
      responseStatus := nullIfZero statusCode
      lastError := some errMsg
      nextAttemptAt := some (dbNow+backoff nextAttempt) }

/-- The UPDATE an attempt ends with. -/
def outcomeUpdate {ι : Type*} (dbNow : ℤ) (c : ClaimedDelivery) (res : AttemptResult)
    (row : DeliveryRow ι) : DeliveryRow ι :=
  match res with
  | .response code =>
    if 200 ≤ code ∧ code < 300 then markSent code row
    else fail dbNow c res.failure.1 res.failure.2 row
  | _ => fail dbNow c res.failure.1 res.failure.2 row

/-- A worker inside `processDue`: the claimed rows it has not come to yet, and the one
whose attempt has ended without its outcome being written. -/
structure Worker where
  todo : List ClaimedDelivery
  current : Option (ClaimedDelivery × AttemptResult)

def Worker.idle : Worker := ⟨[], none⟩

/-- The rows between their claim and the write of their outcome. -/
def Worker.held (v : Worker) : List ClaimedDelivery := (v.current.map Prod.fst).toList ++ v.todo

/-- The table and the workers. `recorded` (one entry for each outcome written) and
`delivered` (one for each 2xx that a worker got) are history; no step reads them. -/
structure System (ι : Type*) where
  rows : ℕ → Option (DeliveryRow ι)
  nextID : ℕ
  workers : ℕ → Worker
  recorded : List ℕ
  delivered : List ℕ

inductive Action (ι : Type*)
  | insert (ruleID : ι) (eventType : EventType) (now : ℤ)
  | claim (w : ℕ) (now : ℤ) (picked scanned : List ℕ)
  | attempt (w : ℕ) (res : AttemptResult)
  | record (w : ℕ) (dbNow : ℤ)
  | lose (w : ℕ)
  | stop (w : ℕ)

section Steps

variable {ι : Type*}

/-- The outbox INSERT of `ApplyTransition` with the column defaults. -/
def insertRow (r : ι) (ev : EventType) (now : ℤ) (s : System ι) : System ι :=
  { s with
    rows := Function.update s.rows s.nextID (some
      { ruleID := r, eventType := ev, status := .pending, attemptCount := 0, maxAttempts := 5
        nextAttemptAt := some now, lastAttemptAt := none, lastError := none
        responseStatus := none, createdAt := now })
    nextID := s.nextID+1 }

def claimedOf (s : System ι) (id : ℕ) : Option ClaimedDelivery :=
  (s.rows id).map (fun row => ⟨id, row.attemptCount, row.maxAttempts⟩)

/-- The UPDATE of the claim: it touches `last_attempt_at` and nothing else. -/
def claimRows (w : ℕ) (now : ℤ) (picked scanned : List ℕ) (s : System ι) : System ι :=
  { s with
    rows := fun id =>
      if id ∈ picked then (s.rows id).map (fun row => { row with lastAttemptAt := some now })
      else s.rows id
    workers := Function.update s.workers w ⟨scanned.filterMap (claimedOf s), none⟩ }

def recordOutcome (w : ℕ) (dbNow : ℤ) (c : ClaimedDelivery) (res : AttemptResult)
    (s : System ι) : System ι :=
  { s with
    rows := Function.update s.rows c.id ((s.rows c.id).map (outcomeUpdate dbNow c res))
    workers := Function.update s.workers w ⟨(s.workers w).todo, none⟩
    recorded := s.recorded ++ [c.id] }

def beginAttempt (w : ℕ) (c : ClaimedDelivery) (cs : List ClaimedDelivery)
    (res : AttemptResult) (s : System ι) : System ι :=
  { s with
    workers := Function.update s.workers w ⟨cs, some (c, res)⟩
    delivered := if res.accepted then s.delivered ++ [c.id] else s.delivered }

def setWorker (w : ℕ) (v : Worker) (s : System ι) : System ι :=
  { s with workers := Function.update s.workers w v }

/-- One atomic step. The claim's SELECT skips locked rows, takes at most 50, and its
RETURNING promises no order, so any list of due rows can be what an idle worker picks; a
row that fails to scan is dropped. `lose` is an outcome whose UPDATE fails (the worker
logs it and goes on), `stop` a worker that dies. -/
def step (s : System ι) : Action ι → Option (System ι)
  | .insert r ev now => some (insertRow r ev now s)
  | .claim w now picked scanned =>
    if (s.workers w).todo = [] ∧ (s.workers w).current.isNone ∧ picked.Nodup ∧
        picked.length ≤ 50 ∧ scanned.Sublist picked ∧
        ∀ id ∈ picked, (s.rows id).any (DeliveryRow.due now) then
      some (claimRows w now picked scanned s)
    else none
  | .attempt w res =>
    match (s.workers w).current, (s.workers w).todo with
    | none, c :: cs => some (beginAttempt w c cs res s)
    | _, _ => none
  | .record w dbNow =>
    ((s.workers w).current).map (fun x => recordOutcome w dbNow x.1 x.2 s)
  | .lose w => some (setWorker w ⟨(s.workers w).todo, none⟩ s)
  | .stop w => some (setWorker w Worker.idle s)

def emptySystem : System ι :=
  { rows := fun _ => none, nextID := 1, workers := fun _ => Worker.idle, recorded := []
    delivered := [] }

def System.status (s : System ι) (id : ℕ) : Option Status := (s.rows id).map DeliveryRow.status

end Steps

end CairnObs.Delivery
