import CairnObs.Dashboards

/-! The handlers of `api/dashboards`. A handler stops at the first thing that is wrong, with the
tables as they were. -/
namespace CairnObs.Dashboards

open GoText PgColumns Authz

inductive Body
  | none
  | error (message : Text)
  | dashboard (d : Dashboard)
  | dashboards (ds : List Dashboard)
  | panel (p : Panel)
  | permissions (ps : List Permission)
  deriving DecidableEq

structure Response where
  status : ℕ
  body : Body
  deriving DecidableEq

/-- A body that does not decode comes with the decoder's message. -/
abbrev Decoded (α : Type) := Except Text α

inductive Request
  | create (body : Decoded Dashboard)
  | list
  | get (id : Text)
  | exportDashboard (id : Text)
  | importDashboard (body : Decoded Dashboard)
  | update (id : Text) (body : Decoded Dashboard)
  | delete (id : Text)
  | addPanel (id : Text) (body : Decoded Panel)
  | updatePanel (id panelID : Text) (body : Decoded Panel)
  | deletePanel (id panelID : Text)
  | listPermissions (id : Text)
  | setPermission (id userID : Text) (role : Decoded Text)
  | revokePermission (id userID : Text)

/-- The role floor of the route. -/
def Request.minRole : Request → Role
  | .list | .get _ | .exportDashboard _ => .viewer
  | _ => .editor

/-- How many rows the request may insert that get a new id. -/
def Request.newIDs : Request → ℕ
  | .create _ | .addPanel _ _ => 1
  -- the dashboard, then its panels
  | .importDashboard (.ok d) => 1 + d.panels.length
  | _ => 0

/-- The parts of a `Handler` besides the store. `authorizer` is what the authorizer answers to
the request at hand, if there is one; `permissions` says whether there is a permission store. -/
structure Handler where
  formats : Formats
  authorizer : Option (Option Identity)
  permissions : Bool

def errorResponse (status : ℕ) (message : Text) : Response := ⟨status, .error message⟩

def storeErrResponse (action : Text) : StoreErr → Response
  | .notFound => errorResponse 404 "not found".toList
  | .other => errorResponse 500 (action ++ " failed".toList)

def orStoreErr {α : Type} (action : Text) : Except StoreErr α → Except Response α
  | .ok a => .ok a
  | .error e => .error (storeErrResponse action e)

/-- Errors that the handler does not tell apart. -/
def orFailed {α : Type} (action : Text) : Except StoreErr α → Except Response α
  | .ok a => .ok a
  | .error _ => .error (storeErrResponse action .other)

def decodeJSON {α : Type} : Decoded α → Except Response α
  | .ok a => .ok a
  | .error e => .error (errorResponse 400 ("invalid JSON body: ".toList ++ e))

def orBadRequest {α : Type} : Except Text α → Except Response α
  | .ok a => .ok a
  | .error e => .error (errorResponse 400 e)

def require (condition : Bool) (otherwise : Response) : Except Response Unit :=
  if condition then .ok () else .error otherwise

section Handlers
variable (h : Handler)

def canManageGrants (identity : Option Identity) (d : DashboardRow) : Bool :=
  match h.authorizer, identity with
  | none, _ => true
  | some _, none => false
  | some _, some i => i.role.satisfies .admin || decide (i.userID ≠ [] ∧ i.userID = d.createdBy)

def canEditDashboard (t : Tables) (identity : Option Identity) (d : DashboardRow) : Bool :=
  match h.authorizer, identity with
  | none, _ => true
  | some _, none => false
  | some _, some i =>
    -- an admin, the author, or someone with a grant
    i.role.satisfies .admin || decide (i.userID ≠ [] ∧ i.userID = d.createdBy) ||
      h.permissions && (grantedRole t d.id i.userID).any (fun role => role.satisfies .editor)

def createdBy : Option Identity → Text
  | some i => i.userID
  | none => []

def forbidden : Response := errorResponse 403 "forbidden".toList

def nameGiven (d : Dashboard) : Except Response Unit :=
  require (decide (d.name ≠ [])) (errorResponse 400 "name must not be empty".toList)

/-- The dashboard of the path, if the caller may edit it. -/
def editable (t : Tables) (identity : Option Identity) (id : Text) :
    Except Response DashboardRow := do
  let (d, _) ← orStoreErr "fetching dashboard".toList (getDashboard t (requestTenant identity) id)
  require (canEditDashboard h t identity d) forbidden
  .ok d

/-- The dashboard of the path, if the caller may manage its grants and there are any. -/
def manageable (t : Tables) (identity : Option Identity) (id : Text) :
    Except Response DashboardRow := do
  let (d, _) ← orStoreErr "fetching dashboard".toList (getDashboard t (requestTenant identity) id)
  require (canManageGrants h identity d) forbidden
  require h.permissions (errorResponse 501
    "dashboard permission grants are not available on this deployment".toList)
  .ok d

variable (env : Env) (t : Tables) (identity : Option Identity)

def handleCreate (body : Decoded Dashboard) : Except Response (Tables × Response) := do
  let d ← decodeJSON body
  nameGiven d
  let (t', d) ← orFailed "creating dashboard".toList (createDashboard env t
    { d with tenantID := requestTenant identity, createdBy := createdBy identity })
  .ok (t', ⟨201, .dashboard d⟩)

def handleList : Except Response (Tables × Response) := do
  let rows ← orFailed "listing dashboards".toList (listDashboards t (requestTenant identity))
  .ok (t, ⟨200, .dashboards (rows.map (fun d => d.toDashboard []))⟩)

def handleGet (id : Text) : Except Response (Tables × Response) := do
  let (d, panels) ← orStoreErr "fetching dashboard".toList
    (getDashboard t (requestTenant identity) id)
  .ok (t, ⟨200, .dashboard (d.toDashboard panels)⟩)

def handleImport (body : Decoded Dashboard) : Except Response (Tables × Response) := do
  let d ← decodeJSON body
  nameGiven d
  let (t', d) ← orBadRequest (importDashboard h.formats env t (requestTenant identity)
    { d with createdBy := createdBy identity })
  .ok (t', ⟨201, .dashboard d⟩)

def handleUpdate (id : Text) (body : Decoded Dashboard) : Except Response (Tables × Response) := do
  let d ← decodeJSON body
  nameGiven d
  let _ ← editable h t identity id
  let (t', d) ← orStoreErr "updating dashboard".toList
    (updateDashboard env t (requestTenant identity) { d with id := id })
  .ok (t', ⟨200, .dashboard d⟩)

def handleDelete (id : Text) : Except Response (Tables × Response) := do
  let _ ← editable h t identity id
  let t' ← orStoreErr "deleting dashboard".toList (deleteDashboard t (requestTenant identity) id)
  .ok (t', ⟨204, .none⟩)

def handleAddPanel (id : Text) (body : Decoded Panel) : Except Response (Tables × Response) := do
  let p ← decodeJSON body
  let p ← orBadRequest (validatePanel h.formats p)
  let _ ← editable h t identity id
  let (t', p) ← orStoreErr "adding panel".toList
    (addPanel h.formats env t (requestTenant identity) id p)
  .ok (t', ⟨201, .panel p⟩)

def handleUpdatePanel (id panelID : Text) (body : Decoded Panel) :
    Except Response (Tables × Response) := do
  let p ← decodeJSON body
  let p ← orBadRequest (validatePanel h.formats p)
  let _ ← editable h t identity id
  let (t', p) ← orStoreErr "updating panel".toList
    (updatePanel h.formats env t (requestTenant identity)
      { p with id := panelID, dashboardID := id })
  .ok (t', ⟨200, .panel p⟩)

def handleDeletePanel (id panelID : Text) : Except Response (Tables × Response) := do
  let _ ← editable h t identity id
  let t' ← orStoreErr "deleting panel".toList (deletePanel t (requestTenant identity) id panelID)
  .ok (t', ⟨204, .none⟩)

def handleListPermissions (id : Text) : Except Response (Tables × Response) := do
  let d ← manageable h t identity id
  .ok (t, ⟨200, .permissions ((listPermissions t d.id).map PermissionRow.toPermission)⟩)

def handleSetPermission (id userID : Text) (role : Decoded Text) :
    Except Response (Tables × Response) := do
  let d ← manageable h t identity id
  let role ← decodeJSON role
  require (validGrantRole (Role.ofText role))
    (errorResponse 400 "role must be \"viewer\" or \"editor\"".toList)
  let t' ← orFailed "granting permission".toList
    (setPermission env t d.id userID (Role.ofText role) (createdBy identity))
  .ok (t', ⟨204, .none⟩)

def handleRevokePermission (id userID : Text) : Except Response (Tables × Response) := do
  let d ← manageable h t identity id
  let t' ← orFailed "revoking permission".toList (revokePermission t d.id userID)
  .ok (t', ⟨204, .none⟩)

def dispatch : Request → Except Response (Tables × Response)
  | .create body => handleCreate env t identity body
  | .list => handleList t identity
  | .get id => handleGet t identity id
  | .exportDashboard id => handleGet t identity id
  | .importDashboard body => handleImport h env t identity body
  | .update id body => handleUpdate h env t identity id body
  | .delete id => handleDelete h t identity id
  | .addPanel id body => handleAddPanel h env t identity id body
  | .updatePanel id panelID body => handleUpdatePanel h env t identity id panelID body
  | .deletePanel id panelID => handleDeletePanel h t identity id panelID
  | .listPermissions id => handleListPermissions h t identity id
  | .setPermission id userID role => handleSetPermission h env t identity id userID role
  | .revokePermission id userID => handleRevokePermission h t identity id userID

end Handlers

/-- A request behind its role floor. -/
def serve (h : Handler) (env : Env) (t : Tables) (req : Request) : Tables × Response :=
  match requireRole h.authorizer req.minRole with
  | .unauthorized => (t, errorResponse 401 "unauthorized".toList)
  | .forbidden => (t, errorResponse 403 "forbidden".toList)
  | .pass identity =>
    match dispatch h env t identity req with
    | .ok result => result
    | .error response => (t, response)

end CairnObs.Dashboards
