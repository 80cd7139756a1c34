import CairnObs.Authz
import CairnObs.PgColumns
import CairnObs.TableOps

/-! `api/dashboards`: dashboards, panels and grants, and the statements of the store on them.
Panels and grants have no tenant of their own but a dashboard. -/
namespace CairnObs.Dashboards

open GoText PgColumns Authz TableOps

/-! ### Documents -/

/-- A panel as it is in JSON. An absent `viz_config` is empty. -/
structure Panel where
  id : Text
  dashboardID : Text
  title : Text
  query : Text
  queryLanguage : Text
  vizType : Text
  vizConfig : Text
  positionX : ℤ
  positionY : ℤ
  width : ℤ
  height : ℤ
  earliestOverride : Option Text
  latestOverride : Option Text
  sortOrder : ℤ
  createdAt : ℤ
  updatedAt : ℤ
  deriving DecidableEq

structure Dashboard where
  id : Text
  tenantID : Text
  name : Text
  description : Text
  defaultEarliest : Text
  defaultLatest : Text
  createdBy : Text
  createdAt : ℤ
  updatedAt : ℤ
  panels : List Panel
  deriving DecidableEq

structure Permission where
  userID : Text
  role : Role
  grantedBy : Text
  createdAt : ℤ
  deriving DecidableEq

/-! ### Tables -/

structure DashboardRow where
  id : Uuid
  tenantID : Text
  name : Text
  description : Text
  defaultEarliest : Text
  defaultLatest : Text
  createdBy : Text
  createdAt : ℤ
  updatedAt : ℤ
  deriving DecidableEq

structure PanelRow where
  id : Uuid
  dashboardID : Uuid
  title : Text
  query : Text
  queryLanguage : Text
  vizType : Text
  vizConfig : Text
  positionX : ℤ
  positionY : ℤ
  width : ℤ
  height : ℤ
  earliestOverride : Option Text
  latestOverride : Option Text
  sortOrder : ℤ
  createdAt : ℤ
  updatedAt : ℤ
  deriving DecidableEq

/-- A row of `dashboard_permissions`, without its id, which is new for each grant and which
nothing reads. -/
structure PermissionRow where
  dashboardID : Uuid
  userID : Uuid
  role : Role
  grantedBy : Uuid
  createdAt : ℤ
  deriving DecidableEq

@[ext]
structure Tables where
  users : List Uuid
  tenants : List Text
  dashboards : List DashboardRow
  panels : List PanelRow
  permissions : List PermissionRow

def Tables.dashboardIDs (t : Tables) : List Uuid := t.dashboards.map (fun d => d.id)

def Tables.panelIDs (t : Tables) : List Uuid := t.panels.map (fun p => p.id)

/-- The constraints of the schema that the statements rest on: the key of `dashboards`, and
the references to it. -/
structure Tables.Valid (t : Tables) : Prop where
  dashboard_key : t.dashboardIDs.Nodup
  panel_dashboard : ∀ p ∈ t.panels, p.dashboardID ∈ t.dashboardIDs
  permission_dashboard : ∀ p ∈ t.permissions, p.dashboardID ∈ t.dashboardIDs

def DB : Type := { t : Tables // t.Valid }

/-- What is not decided here: how `%q` quotes a text, what a JSONB column returns for a JSON
text, and the text of the error when an INSERT is refused. -/
structure Formats where
  quote : Text → Text
  jsonb : Text → Option Text
  dashboardError : Dashboard → Text
  panelError : Panel → Text

/-- The new ids and the time of a request. -/
structure Env where
  ids : ℕ → Uuid
  now : ℤ

inductive StoreErr
  | notFound
  | other
  deriving DecidableEq

/-! ### Documents and rows -/

def PanelRow.toPanel (p : PanelRow) : Panel where
  id := uuidOut p.id
  dashboardID := uuidOut p.dashboardID
  title := p.title
  query := p.query
  queryLanguage := p.queryLanguage
  vizType := p.vizType
  vizConfig := p.vizConfig
  positionX := p.positionX
  positionY := p.positionY
  width := p.width
  height := p.height
  earliestOverride := p.earliestOverride
  latestOverride := p.latestOverride
  sortOrder := p.sortOrder
  createdAt := p.createdAt
  updatedAt := p.updatedAt

def DashboardRow.toDashboard (d : DashboardRow) (panels : List PanelRow) : Dashboard where
  id := uuidOut d.id
  tenantID := d.tenantID
  name := d.name
  description := d.description
  defaultEarliest := d.defaultEarliest
  defaultLatest := d.defaultLatest
  createdBy := d.createdBy
  createdAt := d.createdAt
  updatedAt := d.updatedAt
  panels := panels.map PanelRow.toPanel

def PermissionRow.toPermission (p : PermissionRow) : Permission :=
  ⟨uuidOut p.userID, p.role, uuidOut p.grantedBy, p.createdAt⟩

def textsAccepted (texts : List Text) : Bool := texts.all (fun t => decide (nul ∉ t))

def intsAccepted (ints : List ℤ) : Bool := ints.all (fun n => (int4Column n).isSome)

/-- The row that an INSERT makes, if the columns take the values. -/
def dashboardRow (id : Uuid) (now : ℤ) (d : Dashboard) : Option DashboardRow :=
  if textsAccepted [d.tenantID, d.name, d.description, d.defaultEarliest, d.defaultLatest,
      d.createdBy] then
    some ⟨id, d.tenantID, d.name, d.description, d.defaultEarliest, d.defaultLatest, d.createdBy,
      now, now⟩
  else none

/-- The CHECK on `viz_type` allows what `validatePanel` allows. -/
def panelRow (f : Formats) (id dashboardID : Uuid) (now : ℤ) (p : Panel) : Option PanelRow :=
  if textsAccepted ([p.title, p.query, p.queryLanguage, p.vizType] ++ p.earliestOverride.toList ++
        p.latestOverride.toList) &&
      intsAccepted [p.positionX, p.positionY, p.width, p.height, p.sortOrder] then
    (f.jsonb p.vizConfig).map (fun vizConfig =>
      { id := id
        dashboardID := dashboardID
        title := p.title
        query := p.query
        queryLanguage := p.queryLanguage
        vizType := p.vizType
        vizConfig := vizConfig
        positionX := p.positionX
        positionY := p.positionY
        width := p.width
        height := p.height
        earliestOverride := p.earliestOverride
        latestOverride := p.latestOverride
        sortOrder := p.sortOrder
        createdAt := now
        updatedAt := now })
  else none

/-! ### Validation and defaults -/

def vizTypes : List Text :=
  ["table".toList, "line".toList, "bar".toList, "single_stat".toList, "top_n".toList,
    "heatmap".toList]

/-- `validatePanel`, which also fills in an absent `viz_config`. -/
def validatePanel (f : Formats) (p : Panel) : Except Text Panel :=
  if p.query = [] then .error "query must not be empty".toList
  else if p.queryLanguage = "sql".toList then
    .error ("raw-SQL panels are not supported -- dashboards only support pipe-syntax queries, " ++
      "since the dashboard time-range picker is injected as leading query terms").toList
  else if p.vizType ∉ vizTypes then
    .error ("viz_type must be one of table, line, bar, single_stat, top_n, heatmap, got ".toList ++
      f.quote p.vizType)
  else if p.vizConfig = [] then .ok { p with vizConfig := ['\x7b', '\x7d'] }
  else .ok p

def orDefault (default text : Text) : Text := if text = [] then default else text

def Dashboard.withRange (d : Dashboard) : Dashboard :=
  { d with
    defaultEarliest := orDefault "-1h".toList d.defaultEarliest
    defaultLatest := orDefault "now".toList d.defaultLatest }

/-! ### Dashboards in the store -/

def selectDashboard (t : Tables) (tenantID : Text) (id : Uuid) : Option DashboardRow :=
  t.dashboards.find? (fun d => decide (d.id = id ∧ d.tenantID = tenantID))

/-- The parameters of the queries that look a dashboard up in a tenant. -/
def dashboardKey (tenantID id : Text) : Except StoreErr Uuid :=
  match uuidColumn id with
  | some u => if nul ∈ tenantID then .error .other else .ok u
  | none => .error .other

def orNotFound {α : Type} : Option α → Except StoreErr α
  | some a => .ok a
  | none => .error .notFound

/-- Rows that tie come as they stand in the table here; PostgreSQL leaves their order open. -/
def listPanels (t : Tables) (id : Uuid) : List PanelRow :=
  sortBy [(fun p => p.sortOrder, false), (fun p => p.createdAt, false)]
    (t.panels.filter (fun p => decide (p.dashboardID = id)))

def getDashboard (t : Tables) (tenantID id : Text) :
    Except StoreErr (DashboardRow × List PanelRow) := do
  let u ← dashboardKey tenantID id
  let d ← orNotFound (selectDashboard t tenantID u)
  .ok (d, listPanels t u)

def listDashboards (t : Tables) (tenantID : Text) : Except StoreErr (List DashboardRow) :=
  if nul ∈ tenantID then .error .other
  else
    .ok (sortBy [(fun d => d.createdAt, true)]
      (t.dashboards.filter (fun d => decide (d.tenantID = tenantID))))

/-- An INSERT into `dashboards`, with the key and the reference to `tenants`. -/
def insertDashboard (t : Tables) (row : DashboardRow) : Option Tables :=
  if row.id ∈ t.dashboardIDs ∨ row.tenantID ∉ t.tenants then none
  else some { t with dashboards := t.dashboards ++ [row] }

/-- `CreateDashboard`; the ids and the time come back in the document. -/
def createDashboard (env : Env) (t : Tables) (d : Dashboard) :
    Except StoreErr (Tables × Dashboard) :=
  let d := { d.withRange with
    id := uuidOut (env.ids 0)
    tenantID := orDefault "default".toList d.tenantID
    createdBy := orDefault "anonymous".toList d.createdBy }
  match (dashboardRow (env.ids 0) env.now d).bind (insertDashboard t) with
  | some t' => .ok (t', { d with createdAt := env.now, updatedAt := env.now })
  | none => .error .other

def updateRow (env : Env) (d : Dashboard) (row : DashboardRow) : DashboardRow :=
  { row with
    name := d.name
    description := d.description
    defaultEarliest := d.defaultEarliest
    defaultLatest := d.defaultLatest
    updatedAt := env.now }

def updateDashboard (env : Env) (t : Tables) (tenantID : Text) (d : Dashboard) :
    Except StoreErr (Tables × Dashboard) := do
  let d := d.withRange
  let u ← dashboardKey tenantID d.id
  if !textsAccepted [d.name, d.description, d.defaultEarliest, d.defaultLatest] then .error .other
  else do
    let row ← orNotFound (selectDashboard t tenantID u)
    let dashboards := t.dashboards.map (fun r =>
      if r.id = u ∧ r.tenantID = tenantID then updateRow env d r else r)
    .ok ({ t with dashboards := dashboards },
      { d with
        tenantID := row.tenantID
        createdBy := row.createdBy
        createdAt := row.createdAt
        updatedAt := env.now })

/-- A DELETE of a dashboard; the rows that refer to it go with it. -/
def withoutDashboard (tenantID : Text) (u : Uuid) (t : Tables) : Tables :=
  { t with
    dashboards := t.dashboards.filter (fun d => decide (¬ (d.id = u ∧ d.tenantID = tenantID)))
    panels := t.panels.filter (fun p => decide (p.dashboardID ≠ u))
    permissions := t.permissions.filter (fun p => decide (p.dashboardID ≠ u)) }

def deleteDashboard (t : Tables) (tenantID id : Text) : Except StoreErr Tables := do
  let u ← dashboardKey tenantID id
  let _ ← orNotFound (selectDashboard t tenantID u)
  .ok (withoutDashboard tenantID u t)

/-! ### Panels in the store -/

/-- `dashboardTenantMatches`, with the id it has looked up. -/
def dashboardTenantMatches (t : Tables) (tenantID dashboardID : Text) : Except StoreErr Uuid := do
  let u ← dashboardKey tenantID dashboardID
  let _ ← orNotFound (selectDashboard t tenantID u)
  .ok u

def insertPanel (t : Tables) (row : PanelRow) : Option Tables :=
  -- the key, and the reference to `dashboards`
  if row.id ∈ t.panelIDs ∨ row.dashboardID ∉ t.dashboardIDs then none
  else some { t with panels := t.panels ++ [row] }

def addPanel (f : Formats) (env : Env) (t : Tables) (tenantID dashboardID : Text) (p : Panel) :
    Except StoreErr (Tables × Panel) :=
  match validatePanel f p with
  | .error _ => .error .other
  | .ok p => do
    let u ← dashboardTenantMatches t tenantID dashboardID
    match (panelRow f (env.ids 0) u env.now p).bind (insertPanel t) with
    | some t' =>
      .ok (t', { p with
        id := uuidOut (env.ids 0)
        dashboardID := dashboardID
        createdAt := env.now
        updatedAt := env.now })
    | none => .error .other

/-- `WHERE id = ... AND dashboard_id = ...`. -/
def panelMatches (id dashboardID : Uuid) (p : PanelRow) : Bool :=
  decide (p.id = id ∧ p.dashboardID = dashboardID)

def updatePanel (f : Formats) (env : Env) (t : Tables) (tenantID : Text) (p : Panel) :
    Except StoreErr (Tables × Panel) :=
  match validatePanel f p with
  | .error _ => .error .other
  | .ok p => do
    let u ← dashboardTenantMatches t tenantID p.dashboardID
    match uuidColumn p.id with
    | none => .error .other
    | some id =>
      match panelRow f id u env.now p with
      | none => .error .other
      | some row =>
        if t.panels.any (panelMatches id u) then
          let panels := t.panels.map (fun r =>
            if panelMatches id u r then { row with createdAt := r.createdAt } else r)
          .ok ({ t with panels := panels }, p)
        else .error .notFound

def deletePanel (t : Tables) (tenantID dashboardID panelID : Text) : Except StoreErr Tables := do
  let u ← dashboardTenantMatches t tenantID dashboardID
  match uuidColumn panelID with
  | none => .error .other
  | some id =>
    if t.panels.any (panelMatches id u) then
      .ok { t with panels := t.panels.filter (fun p => !panelMatches id u p) }
    else .error .notFound

/-! ### Import -/

/-- The loop over the panels, in the transaction; `k` counts the ids that are used up. -/
def importPanels (f : Formats) (env : Env) (dashboardID : Uuid) :
    ℕ → Tables → List Panel → Except Text (Tables × List Panel)
  | _, t, [] => .ok (t, [])
  | k, t, p :: ps =>
    match validatePanel f p with
    | .error e => .error ("panel ".toList ++ f.quote p.title ++ ": ".toList ++ e)
    | .ok p =>
      match (panelRow f (env.ids k) dashboardID env.now p).bind (insertPanel t) with
      | some t' => do
        let (t'', out) ← importPanels f env dashboardID (k+1) t' ps
        .ok (t'', { p with
          id := uuidOut (env.ids k)
          dashboardID := uuidOut dashboardID
          createdAt := env.now
          updatedAt := env.now } :: out)
      | none => .error (f.panelError p)

def importDashboard (f : Formats) (env : Env) (t : Tables) (tenantID : Text) (d : Dashboard) :
    Except Text (Tables × Dashboard) :=
  let out := { d.withRange with
    id := uuidOut (env.ids 0)
    tenantID := tenantID
    createdBy := orDefault "anonymous".toList d.createdBy
    createdAt := env.now
    updatedAt := env.now
    panels := [] }
  match (dashboardRow (env.ids 0) env.now out).bind (insertDashboard t) with
  | some t' => do
    let (t'', panels) ← importPanels f env (env.ids 0) 1 t' d.panels
    .ok (t'', { out with panels := panels })
  | none => .error (f.dashboardError out)

/-! ### Grants -/

def selectPermission (t : Tables) (dashboardID userID : Uuid) : Option PermissionRow :=
  t.permissions.find? (fun p => decide (p.dashboardID = dashboardID ∧ p.userID = userID))

/-- The role of a grant, if there is one; a user id that is no UUID has none. -/
def grantedRole (t : Tables) (dashboardID : Uuid) (userID : Text) : Option Role := do
  let u ← uuidColumn userID
  let p ← selectPermission t dashboardID u
  some p.role

def validGrantRole (role : Role) : Bool := decide (role = .viewer ∨ role = .editor)

def setPermission (env : Env) (t : Tables) (dashboardID : Uuid) (userID : Text) (role : Role)
    (grantedBy : Text) : Except StoreErr Tables :=
  if !validGrantRole role || grantedBy = [] then .error .other
  else
    match uuidColumn userID, uuidColumn grantedBy with
    | some u, some g =>
      if u ∉ t.users ∨ g ∉ t.users ∨ dashboardID ∉ t.dashboardIDs then .error .other
      -- ON CONFLICT DO UPDATE
      else if (selectPermission t dashboardID u).isSome then
        .ok { t with
          permissions := t.permissions.map (fun p =>
            if p.dashboardID = dashboardID ∧ p.userID = u then
              { p with role := role, grantedBy := g }
            else p) }
      else .ok { t with permissions := t.permissions ++ [⟨dashboardID, u, role, g, env.now⟩] }
    | _, _ => .error .other

def revokePermission (t : Tables) (dashboardID : Uuid) (userID : Text) : Except StoreErr Tables :=
  match uuidColumn userID with
  | some u =>
    .ok { t with
      permissions := t.permissions.filter (fun p =>
        decide (¬ (p.dashboardID = dashboardID ∧ p.userID = u))) }
  | none => .error .other

def listPermissions (t : Tables) (dashboardID : Uuid) : List PermissionRow :=
  sortBy [(fun p => p.createdAt, false)]
    (t.permissions.filter (fun p => decide (p.dashboardID = dashboardID)))

end CairnObs.Dashboards
