import CairnObs.DashboardRequests
import CairnObs.DashboardWrites
import CairnObs.ProjectedRuns

/-! Tenants do not see each other's dashboards and do not touch them: what callers of one tenant
are answered depends on its own rows only, and the rows of the others stay as they are. -/
namespace CairnObs.Dashboards

open GoText PgColumns Authz KeyedRows Fallible

/-! ### Handlers -/

variable {α : Type} {t : Tables}

theorem orStoreErr_eq_mapError (action : Text) (x : Except StoreErr α) :
    orStoreErr action x = x.mapError (storeErrResponse action) := by
  cases x <;> rfl

theorem orFailed_eq_mapError (action : Text) (x : Except StoreErr α) :
    orFailed action x = x.mapError (fun _ => storeErrResponse action .other) := by
  cases x <;> rfl

theorem orBadRequest_eq_mapError (x : Except Text α) :
    orBadRequest x = x.mapError (errorResponse 400) := by
  cases x <;> rfl

section Lift
variable {tenantID : Text} {t : Tables} {ρ : Type} [HasTables ρ]
  {op : Tables → Except StoreErr ρ} (hop : Isolated tenantID t op)
include hop

theorem Isolated.orStoreErr (action : Text) :
    Isolated tenantID t (fun t => Dashboards.orStoreErr action (op t)) := by
  simp only [orStoreErr_eq_mapError]
  exact hop.mapError _

theorem Isolated.orFailed (action : Text) :
    Isolated tenantID t (fun t => Dashboards.orFailed action (op t)) := by
  simp only [orFailed_eq_mapError]
  exact hop.mapError _

end Lift

theorem Isolated.orBadRequest {tenantID : Text} {ρ : Type} [HasTables ρ]
    {op : Tables → Except Text ρ} (hop : Isolated tenantID t op) :
    Isolated tenantID t (fun t => Dashboards.orBadRequest (op t)) := by
  simp only [orBadRequest_eq_mapError]
  exact hop.mapError _

theorem orStoreErr_eq_ok {action : Text} {x : Except StoreErr α} {a : α}
    (h : orStoreErr action x = .ok a) : x = .ok a := by
  cases x with
  | error e => cases h
  | ok b => exact congrArg _ (Except.ok.inj h)

theorem orDefault_requestTenant (identity : Option Identity) (default : Text) :
    orDefault default (requestTenant identity) = requestTenant identity :=
  if_neg (requestTenant_ne_nil identity)

section Handlers
variable (h : Handler) (env : Env) {t : Tables} (identity : Option Identity)

theorem canEditDashboard_restrict {d : DashboardRow}
    (hd : d.id ∈ ownIDs (requestTenant identity) t) :
    canEditDashboard h (restrict (requestTenant identity) t) identity d =
      canEditDashboard h t identity d := by
  unfold canEditDashboard
  simp only [grantedRole_restrict hd]

theorem editable_restrict (id : Text) :
    editable h (restrict (requestTenant identity) t) identity id = editable h t identity id := by
  unfold editable
  rw [getDashboard_restrict]
  refine bind_congr_of_ok (fun found hfound => ?_)
  have hown := getDashboard_eq_ok (orStoreErr_eq_ok hfound)
  simp only [canEditDashboard_restrict h identity hown]

theorem manageable_restrict (id : Text) :
    manageable h (restrict (requestTenant identity) t) identity id =
      manageable h t identity id := by
  unfold manageable
  rw [getDashboard_restrict]

theorem getDashboard_of_manageable {id : Text} {d : DashboardRow}
    (hd : manageable h t identity id = .ok d) :
    ∃ panels, getDashboard t (requestTenant identity) id = .ok (d, panels) := by
  obtain ⟨found, hfound, hd⟩ := bind_eq_ok.mp hd
  obtain ⟨_, -, hd⟩ := bind_eq_ok.mp hd
  obtain ⟨_, -, hd⟩ := bind_eq_ok.mp hd
  obtain rfl := Except.ok.inj hd
  exact ⟨_, orStoreErr_eq_ok hfound⟩

theorem manageable_eq_ok {id : Text} {d : DashboardRow} (hd : manageable h t identity id = .ok d) :
    d.id ∈ ownIDs (requestTenant identity) t := by
  obtain ⟨_, hfound⟩ := getDashboard_of_manageable h identity hd
  exact getDashboard_eq_ok hfound

variable (hvalid : t.Valid)
include hvalid

theorem handleList_isolated :
    Isolated (requestTenant identity) t (fun t => handleList t identity) :=
  .read (congrArg _ listDashboards_restrict) (fun _ _ => .done hvalid _)

theorem handleGet_isolated (id : Text) :
    Isolated (requestTenant identity) t (fun t => handleGet t identity id) :=
  .read (congrArg _ (getDashboard_restrict id)) (fun _ _ => .done hvalid _)

theorem handleUpdate_isolated (id : Text) (body : Decoded Dashboard) :
    Isolated (requestTenant identity) t (fun t => handleUpdate h env t identity id body) := by
  unfold handleUpdate
  refine .read rfl (fun d _ => .read rfl (fun _ _ => ?_))
  refine .read (editable_restrict h identity id) (fun _ _ => ?_)
  exact .answer (fun r => ⟨200, .dashboard r.2⟩)
    ((updateDashboard_isolated env hvalid _).orStoreErr _) (fun _ => rfl) (fun _ _ => rfl)

theorem handleDelete_isolated (id : Text) :
    Isolated (requestTenant identity) t (fun t => handleDelete h t identity id) := by
  unfold handleDelete
  refine .read (editable_restrict h identity id) (fun _ _ => ?_)
  exact .answer (fun _ => ⟨204, .none⟩)
    ((deleteDashboard_isolated hvalid id).orStoreErr _) (fun _ => rfl) (fun _ _ => rfl)

theorem handleUpdatePanel_isolated (id panelID : Text) (body : Decoded Panel) :
    Isolated (requestTenant identity) t
      (fun t => handleUpdatePanel h env t identity id panelID body) := by
  unfold handleUpdatePanel
  refine .read rfl (fun _ _ => .read rfl (fun p _ => ?_))
  refine .read (editable_restrict h identity id) (fun _ _ => ?_)
  exact .answer (fun r => ⟨200, .panel r.2⟩)
    ((updatePanel_isolated h.formats env hvalid _).orStoreErr _) (fun _ => rfl) (fun _ _ => rfl)

theorem handleDeletePanel_isolated (id panelID : Text) :
    Isolated (requestTenant identity) t (fun t => handleDeletePanel h t identity id panelID) := by
  unfold handleDeletePanel
  refine .read (editable_restrict h identity id) (fun _ _ => ?_)
  exact .answer (fun _ => ⟨204, .none⟩)
    ((deletePanel_isolated hvalid id panelID).orStoreErr _) (fun _ => rfl) (fun _ _ => rfl)

theorem handleListPermissions_isolated (id : Text) :
    Isolated (requestTenant identity) t (fun t => handleListPermissions h t identity id) := by
  unfold handleListPermissions
  refine .read (manageable_restrict h identity id) (fun d hd => ?_)
  have hown := manageable_eq_ok h identity hd
  exact .write (by rw [listPermissions_restrict hown]; rfl) (.refl hvalid)

theorem handleSetPermission_isolated (id userID : Text) (role : Decoded Text) :
    Isolated (requestTenant identity) t
      (fun t => handleSetPermission h env t identity id userID role) := by
  unfold handleSetPermission
  refine .read (manageable_restrict h identity id) (fun d hd => ?_)
  refine .read rfl (fun role _ => .read rfl (fun _ _ => ?_))
  have hown := manageable_eq_ok h identity hd
  exact .answer (fun _ => ⟨204, .none⟩)
    ((setPermission_isolated env hvalid hown userID _ _).orFailed _) (fun _ => rfl) (fun _ _ => rfl)

theorem handleRevokePermission_isolated (id userID : Text) :
    Isolated (requestTenant identity) t
      (fun t => handleRevokePermission h t identity id userID) := by
  unfold handleRevokePermission
  refine .read (manageable_restrict h identity id) (fun d hd => ?_)
  have hown := manageable_eq_ok h identity hd
  exact .answer (fun _ => ⟨204, .none⟩)
    ((revokePermission_isolated hvalid hown userID).orFailed _) (fun _ => rfl) (fun _ _ => rfl)

theorem handleCreate_isolated (hfresh : Fresh env 1 t) (body : Decoded Dashboard) :
    Isolated (requestTenant identity) t (fun t => handleCreate env t identity body) := by
  unfold handleCreate
  refine .read rfl (fun d _ => .read rfl (fun _ _ => ?_))
  exact .answer (fun r => ⟨201, .dashboard r.2⟩)
    ((createDashboard_isolated env hvalid hfresh _ (orDefault_requestTenant identity _)).orFailed _)
    (fun _ => rfl) (fun _ _ => rfl)

theorem handleImport_isolated (body : Decoded Dashboard)
    (hfresh : Fresh env (Request.importDashboard body).newIDs t) :
    Isolated (requestTenant identity) t (fun t => handleImport h env t identity body) := by
  unfold handleImport
  cases body with
  | error e => exact .fail _
  | ok d =>
    refine .read rfl (fun _ hd => .read rfl (fun _ _ => ?_))
    obtain rfl := Except.ok.inj hd
    refine .answer (fun r => ⟨201, .dashboard r.2⟩)
      (.orBadRequest ?_) (fun _ => rfl) (fun _ _ => rfl)
    exact importDashboard_isolated h.formats env hvalid _ hfresh

theorem handleAddPanel_isolated (hfresh : Fresh env 1 t) (id : Text) (body : Decoded Panel) :
    Isolated (requestTenant identity) t (fun t => handleAddPanel h env t identity id body) := by
  unfold handleAddPanel
  refine .read rfl (fun _ _ => .read rfl (fun p _ => ?_))
  refine .read (editable_restrict h identity id) (fun _ _ => ?_)
  exact .answer (fun r => ⟨201, .panel r.2⟩)
    ((addPanel_isolated h.formats env hvalid hfresh id p).orStoreErr _) (fun _ => rfl)
    (fun _ _ => rfl)

theorem dispatch_isolated (req : Request) (hfresh : Fresh env req.newIDs t) :
    Isolated (requestTenant identity) t (fun t => dispatch h env t identity req) := by
  cases req with
  | create body => exact handleCreate_isolated env identity hvalid hfresh body
  | list => exact handleList_isolated identity hvalid
  | get id => exact handleGet_isolated identity hvalid id
  | exportDashboard id => exact handleGet_isolated identity hvalid id
  | importDashboard body => exact handleImport_isolated h env identity hvalid body hfresh
  | update id body => exact handleUpdate_isolated h env identity hvalid id body
  | delete id => exact handleDelete_isolated h identity hvalid id
  | addPanel id body => exact handleAddPanel_isolated h env identity hvalid hfresh id body
  | updatePanel id panelID body =>
    exact handleUpdatePanel_isolated h env identity hvalid id panelID body
  | deletePanel id panelID => exact handleDeletePanel_isolated h identity hvalid id panelID
  | listPermissions id => exact handleListPermissions_isolated h identity hvalid id
  | setPermission id userID role =>
    exact handleSetPermission_isolated h env identity hvalid id userID role
  | revokePermission id userID => exact handleRevokePermission_isolated h identity hvalid id userID

end Handlers

theorem serve_isolated (h : Handler) (env : Env) {i : Identity}
    (hauthorizer : h.authorizer = some (some i)) (hvalid : t.Valid) (req : Request)
    (hfresh : Fresh env req.newIDs t) :
    serve h env (restrict (requestTenant (some i)) t) req =
        (restrict (requestTenant (some i)) (serve h env t req).1, (serve h env t req).2) ∧
      Confined (requestTenant (some i)) t (serve h env t req).1 := by
  have hdispatch := dispatch_isolated h env (some i) hvalid req hfresh
  unfold serve
  rw [hauthorizer]
  cases hrole : i.role.satisfies req.minRole with
  | false =>
    -- behind the role floor nothing is read or written
    simp only [requireRole, hrole]
    exact ⟨rfl, .refl hvalid⟩
  | true =>
    simp only [requireRole, hrole, if_true]
    rw [hdispatch.restricted]
    cases hresult : dispatch h env t (some i) req with
    | error response => exact ⟨rfl, .refl hvalid⟩
    | ok result => exact ⟨rfl, hdispatch.confined result hresult⟩

/-! ### Runs -/

/-- A request with the identity that the authorizer gives its caller. -/
structure Call where
  identity : Identity
  env : Env
  request : Request

def answer (f : Formats) (permissions : Bool) (t : Tables) (c : Call) : Tables × Response :=
  serve ⟨f, some (some c.identity), permissions⟩ c.env t c.request

/-- A call by a caller of the tenant, for which new ids are new. -/
def CallOf (tenantID : Text) (t : Tables) (c : Call) : Prop :=
  requestTenant (some c.identity) = tenantID ∧ Fresh c.env c.request.newIDs t

section Runs
variable (f : Formats) (permissions : Bool) {tenantID : Text}

theorem answer_confined {c : Call} (hvalid : t.Valid) (hcall : CallOf tenantID t c) :
    Confined tenantID t (answer f permissions t c).1 := by
  obtain ⟨rfl, hfresh⟩ := hcall
  exact (serve_isolated ⟨f, some (some c.identity), permissions⟩ c.env rfl hvalid _ hfresh).2

theorem answer_restrict {c : Call} (hvalid : t.Valid) (hcall : CallOf tenantID t c) :
    answer f permissions (restrict tenantID t) c =
      (restrict tenantID (answer f permissions t c).1, (answer f permissions t c).2) := by
  obtain ⟨rfl, hfresh⟩ := hcall
  exact (serve_isolated ⟨f, some (some c.identity), permissions⟩ c.env rfl hvalid _ hfresh).1

open ProjectedRuns

/-- Two databases with the same users, in which the tenant exists or not and has the same
dashboards, panels and grants: callers of the tenant get the same answers, and do not change
what the other tenants have. -/
theorem tenants_isolated (db db' : DB) (hagree : restrict tenantID db.1 = restrict tenantID db'.1)
    (calls : List Call) (hcalls : Along (answer f permissions) (CallOf tenantID) db.1 calls)
    (hcalls' : Along (answer f permissions) (CallOf tenantID) db'.1 calls) :
    outputs (answer f permissions) db.1 calls = outputs (answer f permissions) db'.1 calls ∧
      others tenantID (final (answer f permissions) db.1 calls) = others tenantID db.1 ∧
      others tenantID (final (answer f permissions) db'.1 calls) = others tenantID db'.1 := by
  have hinv (t : Tables) (c : Call) (ht : t.Valid) (hc : CallOf tenantID t c) :
      (answer f permissions t c).1.Valid := (answer_confined f permissions ht hc).valid
  have hcomm (t : Tables) (c : Call) (ht : t.Valid) (hc : CallOf tenantID t c) :=
    answer_restrict f permissions ht hc
  have hframe (t : Tables) (c : Call) (ht : t.Valid) (hc : CallOf tenantID t c) :
      others tenantID (answer f permissions t c).1 = others tenantID t :=
    (answer_confined f permissions ht hc).others
  refine ⟨?_, ?_, ?_⟩
  · exact outputs_eq_of_project_eq hinv hcomm db.2 db'.2 hagree hcalls hcalls'
  · exact final_frame hinv hframe db.2 hcalls
  · exact final_frame hinv hframe db'.2 hcalls'

end Runs

/-! ### Two tenants -/

section Example

def tenantA : Text := "tenant-a".toList

def tenantB : Text := "tenant-b".toList

def exampleRow (id : Uuid) (tenantID : Text) : DashboardRow :=
  ⟨id, tenantID, "cpu".toList, [], "-1h".toList, "now".toList, uuidOut 7, 0, 0⟩

/-- Two users, and a dashboard of each tenant. -/
def bothTenants : DB :=
  ⟨⟨[7, 8], [tenantA, tenantB], [exampleRow 1 tenantA, exampleRow 2 tenantB], [],
    [⟨2, 8, .viewer, 7, 0⟩]⟩, ⟨by decide, by decide, by decide⟩⟩

def oneTenant : DB :=
  ⟨⟨[7, 8], [tenantA], [exampleRow 1 tenantA], [], []⟩, ⟨by decide, by decide, by decide⟩⟩

def oneUser : DB :=
  ⟨⟨[7], [tenantA], [exampleRow 1 tenantA], [], []⟩, ⟨by decide, by decide, by decide⟩⟩

def exampleFormats : Formats := ⟨id, some, fun _ => [], fun _ => []⟩

/-- A request by an admin of tenant A. -/
def adminCall (request : Request) : Call :=
  ⟨⟨tenantA, uuidOut 7, .admin⟩, ⟨fun k => 100 + BitVec.ofNat 128 k, 5⟩, request⟩

def newDashboard : Dashboard := (exampleRow 2 tenantB).toDashboard []

/-- The admin asks for the other tenant's dashboard, then sends one under its id and tenant. -/
theorem adminCalls_isolated :
    let calls := [adminCall (.get (uuidOut 2)), adminCall (.create (.ok newDashboard))]
    ProjectedRuns.outputs (answer exampleFormats true) bothTenants.1 calls =
        ProjectedRuns.outputs (answer exampleFormats true) oneTenant.1 calls ∧
      others tenantA (ProjectedRuns.final (answer exampleFormats true) bothTenants.1 calls) =
        others tenantA bothTenants.1 ∧
      others tenantA (ProjectedRuns.final (answer exampleFormats true) oneTenant.1 calls) =
        others tenantA oneTenant.1 := by
  refine tenants_isolated exampleFormats true bothTenants oneTenant rfl _ ?_ ?_
  · exact ⟨⟨rfl, by decide, by decide, by decide⟩,
      ⟨rfl, by decide +kernel, by decide +kernel, by decide +kernel⟩, trivial⟩
  · exact ⟨⟨rfl, by decide, by decide, by decide⟩,
      ⟨rfl, by decide +kernel, by decide +kernel, by decide +kernel⟩, trivial⟩

/-- Whether a user can be given a grant also depends on the table of users, which all tenants
share. -/
theorem grant_depends_on_users :
    let calls := [adminCall (.setPermission (uuidOut 1) (uuidOut 8) (.ok "viewer".toList))]
    (restrict tenantA oneTenant.1).dashboards = (restrict tenantA oneUser.1).dashboards ∧
      (restrict tenantA oneTenant.1).panels = (restrict tenantA oneUser.1).panels ∧
      (restrict tenantA oneTenant.1).permissions = (restrict tenantA oneUser.1).permissions ∧
      ProjectedRuns.Along (answer exampleFormats true) (CallOf tenantA) oneTenant.1 calls ∧
      ProjectedRuns.Along (answer exampleFormats true) (CallOf tenantA) oneUser.1 calls ∧
      ProjectedRuns.outputs (answer exampleFormats true) oneTenant.1 calls ≠
        ProjectedRuns.outputs (answer exampleFormats true) oneUser.1 calls := by
  refine ⟨rfl, rfl, rfl, ?_, ?_, by decide +kernel⟩
  · exact ⟨⟨rfl, by decide, by decide, by decide⟩, trivial⟩
  · exact ⟨⟨rfl, by decide, by decide, by decide⟩, trivial⟩

end Example

end CairnObs.Dashboards
