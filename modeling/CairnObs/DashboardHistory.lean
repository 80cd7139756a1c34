import CairnObs.DashboardIsolation
import CairnObs.GuardedRuns
import CairnObs.RbacStore

/-! What callers were told happened to dashboards, kept beside the tables: after any history it
says who created a dashboard and which grant is the latest. -/
namespace CairnObs.Dashboards

open GoText PgColumns Authz Fallible GuardedRuns

/-! ### History -/

inductive Event
  | created (dashboardID : Uuid) (creator : Text)
  | granted (dashboardID userID : Uuid) (role : Role)
  | revoked (dashboardID userID : Uuid)
  | deleted (dashboardID : Uuid)
  deriving DecidableEq

/-- What a request has done, by its answer. -/
def event (c : Call) (r : Response) : Option Event :=
  match c.request, r with
  | .create _, ⟨201, .dashboard d⟩ | .importDashboard _, ⟨201, .dashboard d⟩ =>
    (uuidColumn d.id).map (fun u => .created u c.identity.userID)
  | .setPermission id userID (.ok role), ⟨204, _⟩ => do
    let d ← uuidColumn id
    let u ← uuidColumn userID
    some (.granted d u (Role.ofText role))
  | .revokePermission id userID, ⟨204, _⟩ => do
    let d ← uuidColumn id
    let u ← uuidColumn userID
    some (.revoked d u)
  | .delete id, ⟨204, _⟩ => (uuidColumn id).map .deleted
  | _, _ => none

/-- Who created the dashboard. The latest event is the first. -/
def creatorOf (d : Uuid) : List Event → Option Text
  | [] => none
  | .created d' creator :: log => if d' = d then some creator else creatorOf d log
  | _ :: log => creatorOf d log

/-- The role that the latest grant to the user gave, unless it was revoked since. The grants on
a dashboard go with it. -/
def latestGrant (d u : Uuid) : List Event → Option Role
  | [] => none
  | .granted d' u' role :: log => if d' = d ∧ u' = u then some role else latestGrant d u log
  | .revoked d' u' :: log => if d' = d ∧ u' = u then none else latestGrant d u log
  | .deleted d' :: log => if d' = d then none else latestGrant d u log
  | .created _ _ :: log => latestGrant d u log

/-! ### The system -/

/-- The tables of `rbacstore` and of the dashboards, which share users and tenants. -/
structure State where
  rbac : RbacStore.DB
  dashboards : List DashboardRow
  panels : List PanelRow
  permissions : List PermissionRow
  log : List Event

def State.tables (s : State) : Tables :=
  ⟨s.rbac.users, s.rbac.tenants.keys, s.dashboards, s.panels, s.permissions⟩

def State.tenantRole (s : State) (tenantID : Text) (u : Uuid) : Option Role :=
  s.rbac.members.lookup (tenantID, u)

inductive Op
  | newUser (u : Uuid)
  | setMembership (tenantID userID : Text) (role : Role)
  | deleteMembership (tenantID userID : Text)
  | transferOwner (tenantID owner newOwnerUserID : Text) (downgradeRole : Role)
  | call (c : Call)

/-- The steps of `enterprise-api`, which has a permission store. -/
def step (f : Formats) (s : State) : Op → Option State
  | .newUser u => some { s with rbac := { s.rbac with users := u :: s.rbac.users } }
  | .setMembership tenantID userID role =>
    (RbacStore.setMembership s.rbac tenantID userID role).map (fun db => { s with rbac := db })
  | .deleteMembership tenantID userID =>
    (RbacStore.deleteMembership s.rbac tenantID userID).map (fun db => { s with rbac := db })
  | .transferOwner tenantID owner newOwnerUserID downgradeRole =>
    (RbacStore.transferOwnerTx s.rbac tenantID owner newOwnerUserID downgradeRole).map
      (fun db => { s with rbac := db })
  | .call c =>
    -- no request changes users or tenants
    let (t, r) := answer f true s.tables c
    some ⟨s.rbac, t.dashboards, t.panels, t.permissions, (event c r).toList ++ s.log⟩

/-- No dashboards yet. -/
def State.Blank (s : State) : Prop := s.dashboards = [] ∧ s.permissions = [] ∧ s.log = []

/-! ### What requests do to dashboards and grants -/

/-- The columns that decide about access. -/
def DashboardRow.access (d : DashboardRow) : Uuid × Text × Text := (d.id, d.tenantID, d.createdBy)

def grantOn (t : Tables) (d u : Uuid) : Option Role :=
  (selectPermission t d u).map (fun p => p.role)

/-- A dashboard that someone has created. -/
structure Created (t t' : Tables) (row : DashboardRow) (creator : Text) : Prop where
  isNew : row.id ∉ t.dashboardIDs
  tenant : nul ∉ row.tenantID
  creator : row.createdBy = orDefault "anonymous".toList creator
  dashboards : t'.dashboards = t.dashboards ++ [row]
  permissions : t'.permissions = t.permissions

/-- What an event says of the tables before and after. -/
inductive Effect (t t' : Tables) : Option Event → Prop
  | quiet (hdashboards : t'.dashboards.map DashboardRow.access =
        t.dashboards.map DashboardRow.access) (hpermissions : t'.permissions = t.permissions) :
      Effect t t' none
  | created (row : DashboardRow) (creator : Text) (h : Created t t' row creator) :
      Effect t t' (some (.created row.id creator))
  | granted (d u : Uuid) (role : Role) (hrole : validGrantRole role = true)
      (hdashboards : t'.dashboards = t.dashboards)
      (hgrant : ∀ d' u', grantOn t' d' u' =
        if d = d' ∧ u = u' then some role else grantOn t d' u') :
      Effect t t' (some (.granted d u role))
  | revoked (d u : Uuid) (hdashboards : t'.dashboards = t.dashboards)
      (hgrant : ∀ d' u', grantOn t' d' u' = if d = d' ∧ u = u' then none else grantOn t d' u') :
      Effect t t' (some (.revoked d u))
  | deleted (d : Uuid) (hdashboards : t'.dashboards.Sublist t.dashboards)
      (hgrant : ∀ d' u', grantOn t' d' u' = if d = d' then none else grantOn t d' u') :
      Effect t t' (some (.deleted d))

theorem Effect.refl (t : Tables) : Effect t t none := .quiet rfl rfl

variable {d : Uuid} {userID id : Text}

section Store
variable {f : Formats} {env : Env} {t t' : Tables} {tenantID : Text}

theorem insertPanel_access {row : PanelRow} (h : insertPanel t row = some t') :
    t'.dashboards = t.dashboards ∧ t'.permissions = t.permissions := by
  unfold insertPanel at h
  split_ifs at h
  obtain rfl := Option.some.inj h
  exact ⟨rfl, rfl⟩

theorem addPanel_access {dashboardID : Text} {p p' : Panel}
    (h : addPanel f env t tenantID dashboardID p = .ok (t', p')) :
    t'.dashboards = t.dashboards ∧ t'.permissions = t.permissions := by
  obtain ⟨q, u, row, -, -, -, hinsert⟩ := addPanel_eq_ok h
  exact insertPanel_access hinsert

theorem updatePanel_access {p p' : Panel} (h : updatePanel f env t tenantID p = .ok (t', p')) :
    t'.dashboards = t.dashboards ∧ t'.permissions = t.permissions := by
  obtain ⟨q, u, id, row, -, -, -, rfl⟩ := updatePanel_eq_ok h
  exact ⟨rfl, rfl⟩

theorem deletePanel_access {dashboardID panelID : Text}
    (h : deletePanel t tenantID dashboardID panelID = .ok t') :
    t'.dashboards = t.dashboards ∧ t'.permissions = t.permissions := by
  obtain ⟨keep, rfl⟩ := deletePanel_eq_ok h
  exact ⟨rfl, rfl⟩

theorem importPanels_access {k : ℕ} {ps ps' : List Panel}
    (h : importPanels f env d k t ps = .ok (t', ps')) :
    t'.dashboards = t.dashboards ∧ t'.permissions = t.permissions := by
  induction ps generalizing k t ps' with
  | nil =>
    obtain ⟨rfl, -⟩ := Prod.mk.inj (Except.ok.inj h)
    exact ⟨rfl, rfl⟩
  | cons p ps ih =>
    obtain ⟨q, row, t₁, out, -, -, hinsert, hrest⟩ := importPanels_cons_eq_ok h
    obtain ⟨hdashboards, hpermissions⟩ := insertPanel_access hinsert
    obtain ⟨hdashboards', hpermissions'⟩ := ih hrest
    exact ⟨hdashboards'.trans hdashboards, hpermissions'.trans hpermissions⟩

theorem updateDashboard_access {d d' : Dashboard}
    (h : updateDashboard env t tenantID d = .ok (t', d')) :
    t'.dashboards.map DashboardRow.access = t.dashboards.map DashboardRow.access ∧
      t'.permissions = t.permissions := by
  obtain ⟨u, -, rfl⟩ := updateDashboard_eq_ok h
  refine ⟨?_, rfl⟩
  simp only [List.map_map]
  refine List.map_congr_left (fun r _ => ?_)
  by_cases hr : r.id = u ∧ r.tenantID = tenantID
  · simp only [Function.comp_apply, if_pos hr]
    rfl
  · simp only [Function.comp_apply, if_neg hr]

theorem insertDashboard_access {id : Uuid} {d : Dashboard} {row : DashboardRow} {creator : Text}
    (hcreator : d.createdBy = orDefault "anonymous".toList creator)
    (hrow : dashboardRow id env.now d = some row) (h : insertDashboard t row = some t') :
    row.id = id ∧ Created t t' row creator := by
  unfold dashboardRow at hrow
  split_ifs at hrow with htexts
  obtain rfl := Option.some.inj hrow
  unfold insertDashboard at h
  split_ifs at h with hkey
  obtain rfl := Option.some.inj h
  have htenant : decide (nul ∉ d.tenantID) = true :=
    List.all_eq_true.mp htexts d.tenantID List.mem_cons_self
  exact ⟨rfl, fun hmem => hkey (.inl hmem), of_decide_eq_true htenant, hcreator, rfl, rfl⟩

theorem createDashboard_access {d d' : Dashboard} (h : createDashboard env t d = .ok (t', d')) :
    ∃ row : DashboardRow, d'.id = uuidOut row.id ∧ Created t t' row d.createdBy := by
  obtain ⟨row, hrow, hinsert, hid⟩ := createDashboard_eq_ok h
  obtain ⟨hsame, hcreated⟩ := insertDashboard_access rfl hrow hinsert
  exact ⟨row, hsame ▸ hid, hcreated⟩

theorem importDashboard_access {d d' : Dashboard}
    (h : importDashboard f env t tenantID d = .ok (t', d')) :
    ∃ row : DashboardRow, d'.id = uuidOut row.id ∧ Created t t' row d.createdBy := by
  obtain ⟨row, t₁, panels, hrow, hinsert, hpanels, hid⟩ := importDashboard_eq_ok h
  obtain ⟨hsame, hcreated⟩ := insertDashboard_access rfl hrow hinsert
  obtain ⟨hdashboards, hpermissions⟩ := importPanels_access hpanels
  exact ⟨row, hsame ▸ hid, hcreated.isNew, hcreated.tenant, hcreated.creator,
    hdashboards.trans hcreated.dashboards, hpermissions.trans hcreated.permissions⟩

theorem grantOn_eq_find (t : Tables) (d u : Uuid) :
    grantOn t d u =
      (t.permissions.find? (fun p => decide (p.dashboardID = d ∧ p.userID = u))).map
        (fun p => p.role) := rfl

theorem regrant_keys (d u g : Uuid) (role : Role) (p : PermissionRow) :
    (regrant d u g role p).dashboardID = p.dashboardID ∧
      (regrant d u g role p).userID = p.userID := by
  unfold regrant
  split_ifs with hp
  · exact ⟨rfl, rfl⟩
  · exact ⟨rfl, rfl⟩

theorem grantOn_regrant {u g : Uuid} {role : Role}
    (ht' : t'.permissions = t.permissions.map (regrant d u g role)) (d' u' : Uuid) :
    grantOn t' d' u' =
      if d = d' ∧ u = u' then (grantOn t d' u').map (fun _ => role) else grantOn t d' u' := by
  have hkey : (fun p => decide (p.dashboardID = d' ∧ p.userID = u')) ∘ regrant d u g role =
      (fun p => decide (p.dashboardID = d' ∧ p.userID = u')) := by
    funext p
    obtain ⟨hdashboard, huser⟩ := regrant_keys d u g role p
    simp only [Function.comp_apply, hdashboard, huser]
  rw [grantOn_eq_find, ht', List.find?_map, hkey, grantOn_eq_find]
  cases hp : t.permissions.find? (fun p => decide (p.dashboardID = d' ∧ p.userID = u')) with
  | none => simp
  | some p =>
    have hkeys := List.find?_some hp
    obtain ⟨rfl, rfl⟩ := of_decide_eq_true hkeys
    by_cases hsame : d = p.dashboardID ∧ u = p.userID
    · obtain ⟨rfl, rfl⟩ := hsame
      simp [regrant]
    · have hother : ¬ (p.dashboardID = d ∧ p.userID = u) :=
        fun h => hsame ⟨h.1.symm, h.2.symm⟩
      simp [regrant, hother, hsame]

theorem grantOn_setPermission {grantedBy : Text} {role : Role}
    (h : setPermission env t d userID role grantedBy = .ok t') :
    ∃ u, uuidColumn userID = some u ∧ validGrantRole role = true ∧ t'.dashboards = t.dashboards ∧
      ∀ d' u', grantOn t' d' u' = if d = d' ∧ u = u' then some role else grantOn t d' u' := by
  obtain ⟨u, g, hu, hrole, rfl⟩ := setPermission_eq_ok h
  refine ⟨u, hu, hrole, rfl, fun d' u' => ?_⟩
  by_cases hold : (selectPermission t d u).isSome
  · obtain ⟨p, hp⟩ := Option.isSome_iff_exists.mp hold
    rw [grantOn_regrant (t := t) (if_pos hold)]
    by_cases hsame : d = d' ∧ u = u'
    · obtain ⟨rfl, rfl⟩ := hsame
      rw [if_pos ⟨rfl, rfl⟩, if_pos ⟨rfl, rfl⟩, grantOn, hp]
      rfl
    · rw [if_neg hsame, if_neg hsame]
  · have hnone : selectPermission t d u = none := Option.not_isSome_iff_eq_none.mp hold
    rw [grantOn_eq_find, if_neg hold, List.find?_append]
    by_cases hsame : d = d' ∧ u = u'
    · obtain ⟨rfl, rfl⟩ := hsame
      rw [show t.permissions.find? (fun p => decide (p.dashboardID = d ∧ p.userID = u)) = none
        from hnone]
      simp
    · rw [if_neg hsame, List.find?_cons_of_neg (by simpa using hsame), List.find?_nil,
        Option.or_none]
      rfl

/-- The rows that a DELETE leaves. -/
theorem grantOn_filter {gone : PermissionRow → Bool}
    (ht' : t'.permissions = t.permissions.filter (fun p => !gone p)) {u : Uuid}
    (hgone : ∀ p ∈ t.permissions, p.dashboardID = d → p.userID = u → gone p = false) :
    grantOn t' d u = grantOn t d u := by
  rw [grantOn_eq_find, grantOn_eq_find, ht', List.find?_filter]
  congr 1
  refine List.find?_congr (fun p hp => ?_)
  by_cases hkey : p.dashboardID = d ∧ p.userID = u
  · simp [hkey, hgone p hp hkey.1 hkey.2]
  · simp [hkey]

theorem grantOn_filter_gone {gone : PermissionRow → Bool}
    (ht' : t'.permissions = t.permissions.filter (fun p => !gone p)) {u : Uuid}
    (hgone : ∀ p ∈ t.permissions, p.dashboardID = d → p.userID = u → gone p = true) :
    grantOn t' d u = none := by
  rw [grantOn_eq_find, ht', Option.map_eq_none_iff, List.find?_eq_none]
  intro p hp
  obtain ⟨hp, hkept⟩ := List.mem_filter.mp hp
  intro hkey
  obtain ⟨hd, hu⟩ := of_decide_eq_true hkey
  rw [hgone p hp hd hu] at hkept
  cases hkept

theorem grantOn_revokePermission (h : revokePermission t d userID = .ok t') :
    ∃ u, uuidColumn userID = some u ∧ t'.dashboards = t.dashboards ∧
      ∀ d' u', grantOn t' d' u' = if d = d' ∧ u = u' then none else grantOn t d' u' := by
  obtain ⟨u, hu, rfl⟩ := revokePermission_eq_ok h
  refine ⟨u, hu, rfl, fun d' u' => ?_⟩
  by_cases hsame : d = d' ∧ u = u'
  · obtain ⟨rfl, rfl⟩ := hsame
    rw [if_pos ⟨rfl, rfl⟩, grantOn_filter_gone rfl]
    intro p _ hd hu
    exact decide_eq_true ⟨hd, hu⟩
  · rw [if_neg hsame, grantOn_filter rfl]
    intro p _ hd hu
    exact decide_eq_false (fun h => hsame ⟨h.1.symm.trans hd, h.2.symm.trans hu⟩)

theorem deleteDashboard_access (h : deleteDashboard t tenantID id = .ok t') :
    ∃ d, uuidColumn id = some d ∧ t'.dashboards.Sublist t.dashboards ∧
      ∀ d' u', grantOn t' d' u' = if d = d' then none else grantOn t d' u' := by
  obtain ⟨d, hd, rfl⟩ := deleteDashboard_eq_ok h
  refine ⟨d, hd, List.filter_sublist, fun d' u' => ?_⟩
  have hrows : (withoutDashboard tenantID d t).permissions = t.permissions.filter
      (fun p => !decide (p.dashboardID = d)) := by
    simp only [← decide_not]
    rfl
  by_cases hsame : d = d'
  · subst hsame
    rw [if_pos rfl, grantOn_filter_gone hrows]
    intro p _ hd _
    exact decide_eq_true hd
  · rw [if_neg hsame, grantOn_filter hrows]
    intro p _ hd _
    exact decide_eq_false (fun h => hsame (h.symm.trans hd))

end Store

/-! ### Errors -/

/-- An error is the client's or the server's. -/
def Fails {α : Type} (x : Except Response α) : Prop := ∀ r, x = .error r → 400 ≤ r.status

section Fails
variable {α β : Type}

theorem fails_ok (a : α) : Fails (.ok a) := nofun

theorem Fails.bind {x : Except Response α} {next : α → Except Response β} (hx : Fails x)
    (hnext : ∀ a, Fails (next a)) : Fails (x >>= next) := by
  intro r hr
  cases x with
  | error e => exact hx r (congrArg _ (Except.error.inj hr))
  | ok a => exact hnext a r hr

theorem fails_orStoreErr (action : Text) (x : Except StoreErr α) : Fails (orStoreErr action x) := by
  intro r hr
  cases x with
  | ok a => cases hr
  | error e =>
    obtain rfl := Except.error.inj hr
    cases e with
    | notFound => exact (by decide : 400 ≤ 404)
    | other => exact (by decide : 400 ≤ 500)

theorem fails_orFailed (action : Text) (x : Except StoreErr α) : Fails (orFailed action x) := by
  intro r hr
  cases x with
  | ok a => cases hr
  | error e =>
    obtain rfl := Except.error.inj hr
    exact (by decide : 400 ≤ 500)

theorem fails_decodeJSON (x : Decoded α) : Fails (decodeJSON x) := by
  intro r hr
  cases x with
  | ok a => cases hr
  | error e =>
    obtain rfl := Except.error.inj hr
    exact le_refl 400

theorem fails_orBadRequest (x : Except Text α) : Fails (orBadRequest x) := by
  intro r hr
  cases x with
  | ok a => cases hr
  | error e =>
    obtain rfl := Except.error.inj hr
    exact le_refl 400

theorem fails_require (condition : Bool) {otherwise : Response} (h : 400 ≤ otherwise.status) :
    Fails (require condition otherwise) := by
  intro r hr
  cases condition with
  | true => cases hr
  | false =>
    obtain rfl := Except.error.inj hr
    exact h

end Fails

section Handlers
variable (h : Handler) (env : Env) (t : Tables) (identity : Option Identity)

theorem fails_nameGiven (d : Dashboard) : Fails (nameGiven d) := fails_require _ (le_refl 400)

theorem fails_editable (id : Text) : Fails (editable h t identity id) := by
  refine (fails_orStoreErr _ _).bind (fun found => ?_)
  refine (fails_require _ (by decide : 400 ≤ 403)).bind (fun _ => ?_)
  exact fails_ok _

theorem fails_manageable (id : Text) : Fails (manageable h t identity id) := by
  refine (fails_orStoreErr _ _).bind (fun found => ?_)
  refine (fails_require _ (by decide : 400 ≤ 403)).bind (fun _ => ?_)
  refine (fails_require _ (by decide : 400 ≤ 501)).bind (fun _ => ?_)
  exact fails_ok _

theorem fails_dispatch (req : Request) : Fails (dispatch h env t identity req) := by
  cases req with
  | create body =>
    refine (fails_decodeJSON body).bind (fun d => (fails_nameGiven d).bind (fun _ => ?_))
    exact (fails_orFailed _ _).bind (fun _ => fails_ok _)
  | list => exact (fails_orFailed _ _).bind (fun _ => fails_ok _)
  | get id | exportDashboard id => exact (fails_orStoreErr _ _).bind (fun _ => fails_ok _)
  | importDashboard body =>
    refine (fails_decodeJSON body).bind (fun d => (fails_nameGiven d).bind (fun _ => ?_))
    exact (fails_orBadRequest _).bind (fun _ => fails_ok _)
  | update id body =>
    refine (fails_decodeJSON body).bind (fun d => (fails_nameGiven d).bind (fun _ => ?_))
    refine (fails_editable h t identity id).bind (fun _ => ?_)
    exact (fails_orStoreErr _ _).bind (fun _ => fails_ok _)
  | delete id =>
    refine (fails_editable h t identity id).bind (fun _ => ?_)
    exact (fails_orStoreErr _ _).bind (fun _ => fails_ok _)
  | addPanel id body | updatePanel id panelID body =>
    refine (fails_decodeJSON body).bind (fun p => (fails_orBadRequest _).bind (fun p' => ?_))
    refine (fails_editable h t identity id).bind (fun _ => ?_)
    exact (fails_orStoreErr _ _).bind (fun _ => fails_ok _)
  | deletePanel id panelID =>
    refine (fails_editable h t identity id).bind (fun _ => ?_)
    exact (fails_orStoreErr _ _).bind (fun _ => fails_ok _)
  | listPermissions id => exact (fails_manageable h t identity id).bind (fun _ => fails_ok _)
  | setPermission id userID role =>
    refine (fails_manageable h t identity id).bind (fun d => ?_)
    refine (fails_decodeJSON role).bind (fun role' => ?_)
    refine (fails_require _ (le_refl 400)).bind (fun _ => ?_)
    exact (fails_orFailed _ _).bind (fun _ => fails_ok _)
  | revokePermission id userID =>
    refine (fails_manageable h t identity id).bind (fun d => ?_)
    exact (fails_orFailed _ _).bind (fun _ => fails_ok _)

end Handlers

/-- A request that fails has done nothing. -/
theorem event_of_failed (c : Call) {r : Response} (h : 400 ≤ r.status) : event c r = none := by
  have hcreated : ¬ 400 ≤ 201 := by decide
  have hdone : ¬ 400 ≤ 204 := by decide
  unfold event
  split
  · exact absurd h hcreated
  · exact absurd h hcreated
  · exact absurd h hdone
  · exact absurd h hdone
  · exact absurd h hdone
  · rfl

/-! ### Effects -/

section Effects
variable {h : Handler} {env : Env} {t t' : Tables} {i : Identity} {r : Response}

theorem orFailed_eq_ok {α : Type} {action : Text} {x : Except StoreErr α} {a : α}
    (h : orFailed action x = .ok a) : x = .ok a := by
  cases x with
  | error e => cases h
  | ok b => exact congrArg _ (Except.ok.inj h)

theorem orBadRequest_eq_ok {α : Type} {x : Except Text α} {a : α}
    (h : orBadRequest x = .ok a) : x = .ok a := by
  cases x with
  | error e => cases h
  | ok b => exact congrArg _ (Except.ok.inj h)

theorem uuidColumn_of_manageable {identity : Option Identity} {d : DashboardRow}
    (hd : manageable h t identity id = .ok d) : uuidColumn id = some d.id := by
  obtain ⟨_, hfound⟩ := getDashboard_of_manageable h identity hd
  obtain ⟨u, hu, hfound⟩ := bind_eq_ok.mp hfound
  obtain ⟨d', hd', hfound⟩ := bind_eq_ok.mp hfound
  obtain ⟨rfl, -⟩ := Prod.mk.inj (Except.ok.inj hfound)
  rw [(selectDashboard_eq_some (orNotFound_eq_ok hd')).1]
  exact (uuidColumn_of_dashboardKey hu).1

/-- What a request that succeeds has done. -/
inductive Served (h : Handler) (env : Env) (t : Tables) (identity : Option Identity) :
    Request → Tables → Response → Prop
  | read {req : Request} {r : Response} (hevent : ∀ i, event ⟨i, env, req⟩ r = none) :
      Served h env t identity req t r
  | created {body : Decoded Dashboard} {d d' : Dashboard} {t' : Tables} (hname : d.name ≠ [])
      (hwrite : createDashboard env t { d with
        tenantID := requestTenant identity
        createdBy := createdBy identity } = .ok (t', d')) :
      Served h env t identity (.create body) t' ⟨201, .dashboard d'⟩
  | imported {body : Decoded Dashboard} {d d' : Dashboard} {t' : Tables} (hname : d.name ≠ [])
      (hwrite : importDashboard h.formats env t (requestTenant identity)
        { d with createdBy := createdBy identity } = .ok (t', d')) :
      Served h env t identity (.importDashboard body) t' ⟨201, .dashboard d'⟩
  | updated {id : Text} {body : Decoded Dashboard} {d d' : Dashboard} {t' : Tables}
      (hname : d.name ≠ [])
      (hwrite : updateDashboard env t (requestTenant identity) { d with id := id } = .ok (t', d')) :
      Served h env t identity (.update id body) t' ⟨200, .dashboard d'⟩
  | deleted {id : Text} {t' : Tables}
      (hwrite : deleteDashboard t (requestTenant identity) id = .ok t') :
      Served h env t identity (.delete id) t' ⟨204, .none⟩
  | panelAdded {id : Text} {body : Decoded Panel} {p p' : Panel} {t' : Tables}
      (hwrite : addPanel h.formats env t (requestTenant identity) id p = .ok (t', p')) :
      Served h env t identity (.addPanel id body) t' ⟨201, .panel p'⟩
  | panelUpdated {id panelID : Text} {body : Decoded Panel} {p p' : Panel} {t' : Tables}
      (hwrite : updatePanel h.formats env t (requestTenant identity) p = .ok (t', p')) :
      Served h env t identity (.updatePanel id panelID body) t' ⟨200, .panel p'⟩
  | panelDeleted {id panelID : Text} {t' : Tables}
      (hwrite : deletePanel t (requestTenant identity) id panelID = .ok t') :
      Served h env t identity (.deletePanel id panelID) t' ⟨204, .none⟩
  | granted {id userID role : Text} {d : Uuid} {t' : Tables} (hid : uuidColumn id = some d)
      (hwrite : setPermission env t d userID (Role.ofText role) (createdBy identity) = .ok t') :
      Served h env t identity (.setPermission id userID (.ok role)) t' ⟨204, .none⟩
  | revoked {id userID : Text} {d : Uuid} {t' : Tables} (hid : uuidColumn id = some d)
      (hwrite : revokePermission t d userID = .ok t') :
      Served h env t identity (.revokePermission id userID) t' ⟨204, .none⟩

theorem name_of_nameGiven {d : Dashboard} {x : Unit} (hd : nameGiven d = .ok x) : d.name ≠ [] := by
  unfold nameGiven require at hd
  split_ifs at hd with hname
  exact of_decide_eq_true hname

theorem dispatch_served {identity : Option Identity} {req : Request}
    (hok : dispatch h env t identity req = .ok (t', r)) : Served h env t identity req t' r := by
  cases req with
  | list | get id | exportDashboard id | listPermissions id =>
    obtain ⟨_, -, hok⟩ := bind_eq_ok.mp hok
    cases hok
    exact .read (fun _ => rfl)
  | create body =>
    obtain ⟨d, -, hok⟩ := bind_eq_ok.mp hok
    obtain ⟨_, hname, hok⟩ := bind_eq_ok.mp hok
    obtain ⟨⟨t₁, d₁⟩, hcreate, hok⟩ := bind_eq_ok.mp hok
    cases hok
    exact .created (name_of_nameGiven hname) (orFailed_eq_ok hcreate)
  | importDashboard body =>
    obtain ⟨d, -, hok⟩ := bind_eq_ok.mp hok
    obtain ⟨_, hname, hok⟩ := bind_eq_ok.mp hok
    obtain ⟨⟨t₁, d₁⟩, himport, hok⟩ := bind_eq_ok.mp hok
    cases hok
    exact .imported (name_of_nameGiven hname) (orBadRequest_eq_ok himport)
  | update id body =>
    obtain ⟨d, -, hok⟩ := bind_eq_ok.mp hok
    obtain ⟨_, hname, hok⟩ := bind_eq_ok.mp hok
    obtain ⟨_, -, hok⟩ := bind_eq_ok.mp hok
    obtain ⟨⟨t₁, d₁⟩, hupdate, hok⟩ := bind_eq_ok.mp hok
    cases hok
    exact .updated (name_of_nameGiven hname) (orStoreErr_eq_ok hupdate)
  | delete id =>
    obtain ⟨_, -, hok⟩ := bind_eq_ok.mp hok
    obtain ⟨t₁, hdelete, hok⟩ := bind_eq_ok.mp hok
    cases hok
    exact .deleted (orStoreErr_eq_ok hdelete)
  | addPanel id body =>
    obtain ⟨p, -, hok⟩ := bind_eq_ok.mp hok
    obtain ⟨_, -, hok⟩ := bind_eq_ok.mp hok
    obtain ⟨_, -, hok⟩ := bind_eq_ok.mp hok
    obtain ⟨⟨t₁, p₁⟩, hadd, hok⟩ := bind_eq_ok.mp hok
    cases hok
    exact .panelAdded (orStoreErr_eq_ok hadd)
  | updatePanel id panelID body =>
    obtain ⟨p, -, hok⟩ := bind_eq_ok.mp hok
    obtain ⟨_, -, hok⟩ := bind_eq_ok.mp hok
    obtain ⟨_, -, hok⟩ := bind_eq_ok.mp hok
    obtain ⟨⟨t₁, p₁⟩, hupdate, hok⟩ := bind_eq_ok.mp hok
    cases hok
    exact .panelUpdated (orStoreErr_eq_ok hupdate)
  | deletePanel id panelID =>
    obtain ⟨_, -, hok⟩ := bind_eq_ok.mp hok
    obtain ⟨t₁, hdelete, hok⟩ := bind_eq_ok.mp hok
    cases hok
    exact .panelDeleted (orStoreErr_eq_ok hdelete)
  | setPermission id userID role =>
    obtain ⟨d, hd, hok⟩ := bind_eq_ok.mp hok
    obtain ⟨role', hrole, hok⟩ := bind_eq_ok.mp hok
    obtain ⟨_, -, hok⟩ := bind_eq_ok.mp hok
    obtain ⟨t₁, hset, hok⟩ := bind_eq_ok.mp hok
    cases hok
    cases role with
    | error e => cases hrole
    | ok role =>
      cases hrole
      exact .granted (uuidColumn_of_manageable hd) (orFailed_eq_ok hset)
  | revokePermission id userID =>
    obtain ⟨d, hd, hok⟩ := bind_eq_ok.mp hok
    obtain ⟨t₁, hrevoke, hok⟩ := bind_eq_ok.mp hok
    cases hok
    exact .revoked (uuidColumn_of_manageable hd) (orFailed_eq_ok hrevoke)

theorem dispatch_effect {req : Request} (hok : dispatch h env t (some i) req = .ok (t', r)) :
    Effect t t' (event ⟨i, env, req⟩ r) := by
  cases dispatch_served hok with
  | read hevent =>
    rw [hevent]
    exact .refl t
  | created hname hwrite =>
    obtain ⟨row, hid, hrow⟩ := createDashboard_access hwrite
    simp only [event, hid, uuidColumn_uuidOut, Option.map_some]
    exact .created row i.userID hrow
  | imported hname hwrite =>
    obtain ⟨row, hid, hrow⟩ := importDashboard_access hwrite
    simp only [event, hid, uuidColumn_uuidOut, Option.map_some]
    exact .created row i.userID hrow
  | updated hname hwrite =>
    obtain ⟨hdashboards, hpermissions⟩ := updateDashboard_access hwrite
    exact .quiet hdashboards hpermissions
  | deleted hwrite =>
    obtain ⟨d, hd, hdashboards, hgrant⟩ := deleteDashboard_access hwrite
    simp only [event, hd, Option.map_some]
    exact .deleted d hdashboards hgrant
  | panelAdded hwrite =>
    obtain ⟨hdashboards, hpermissions⟩ := addPanel_access hwrite
    exact .quiet (congrArg _ hdashboards) hpermissions
  | panelUpdated hwrite =>
    obtain ⟨hdashboards, hpermissions⟩ := updatePanel_access hwrite
    exact .quiet (congrArg _ hdashboards) hpermissions
  | panelDeleted hwrite =>
    obtain ⟨hdashboards, hpermissions⟩ := deletePanel_access hwrite
    exact .quiet (congrArg _ hdashboards) hpermissions
  | @granted id userID role d t' hid hwrite =>
    obtain ⟨u, hu, hvalid, hdashboards, hgrant⟩ := grantOn_setPermission hwrite
    have hevent : event ⟨i, env, .setPermission id userID (.ok role)⟩ ⟨204, .none⟩ =
        some (.granted d u (Role.ofText role)) := by
      simp only [event, hid, hu]
      rfl
    rw [hevent]
    exact .granted d u _ hvalid hdashboards hgrant
  | @revoked id userID d t' hid hwrite =>
    obtain ⟨u, hu, hdashboards, hgrant⟩ := grantOn_revokePermission hwrite
    have hevent : event ⟨i, env, .revokePermission id userID⟩ ⟨204, .none⟩ =
        some (.revoked d u) := by
      simp only [event, hid, hu]
      rfl
    rw [hevent]
    exact .revoked d u hdashboards hgrant

end Effects

section Answers
variable (f : Formats) (permissions : Bool)

theorem answer_effect (t : Tables) (c : Call) :
    Effect t (answer f permissions t c).1 (event c (answer f permissions t c).2) := by
  obtain ⟨i, env, req⟩ := c
  by_cases hfloor : i.role.satisfies req.minRole = true
  · cases hdispatch : dispatch ⟨f, some (some i), permissions⟩ env t (some i) req with
    | ok result =>
      have hanswer : answer f permissions t ⟨i, env, req⟩ = result := by
        simp only [answer, serve, requireRole, hfloor, if_true, hdispatch]
      rw [hanswer]
      exact dispatch_effect hdispatch
    | error response =>
      have hanswer : answer f permissions t ⟨i, env, req⟩ = (t, response) := by
        simp only [answer, serve, requireRole, hfloor, if_true, hdispatch]
      rw [hanswer, event_of_failed _ (fails_dispatch _ _ _ _ _ _ hdispatch)]
      exact .refl t
  · have hanswer : answer f permissions t ⟨i, env, req⟩ = (t, forbidden) := by
      simp only [answer, serve, requireRole, hfloor]
      rfl
    rw [hanswer, event_of_failed _ (by decide : 400 ≤ 403)]
    exact .refl t

end Answers

/-! ### The tables and the history -/

/-- The tables are what the history says. -/
structure Recorded (t : Tables) (log : List Event) : Prop where
  keys : t.dashboardIDs.Nodup
  tenant : ∀ row ∈ t.dashboards, nul ∉ row.tenantID
  creator : ∀ row ∈ t.dashboards, ∃ text, creatorOf row.id log = some text ∧
    row.createdBy = orDefault "anonymous".toList text
  grant : ∀ d u, grantOn t d u = latestGrant d u log
  grantRole : ∀ d u role, latestGrant d u log = some role → validGrantRole role = true

section Recorded
variable {t t' : Tables} {log : List Event}

theorem recorded_blank (hdashboards : t.dashboards = []) (hpermissions : t.permissions = []) :
    Recorded t [] := by
  refine ⟨?_, ?_, ?_, ?_, nofun⟩
  · simp [Tables.dashboardIDs, hdashboards]
  · simp [hdashboards]
  · simp [hdashboards]
  · intro d u
    simp [grantOn, selectPermission, hpermissions, latestGrant]

/-- What the columns of access tell of all rows. -/
theorem forall_access {P : Uuid × Text × Text → Prop}
    (haccess : t'.dashboards.map DashboardRow.access = t.dashboards.map DashboardRow.access)
    (h : ∀ row ∈ t.dashboards, P row.access) : ∀ row ∈ t'.dashboards, P row.access := by
  intro row hrow
  have hmem : row.access ∈ t.dashboards.map DashboardRow.access :=
    haccess ▸ List.mem_map_of_mem hrow
  obtain ⟨row', hrow', heq⟩ := List.mem_map.mp hmem
  exact heq ▸ h row' hrow'

theorem dashboardIDs_eq_access (t : Tables) :
    t.dashboardIDs = (t.dashboards.map DashboardRow.access).map Prod.fst := by
  rw [List.map_map]
  rfl

/-- Nothing else of the tables is recorded. -/
theorem Recorded.quiet (h : Recorded t log)
    (haccess : t'.dashboards.map DashboardRow.access = t.dashboards.map DashboardRow.access)
    (hpermissions : t'.permissions = t.permissions) : Recorded t' log := by
  refine ⟨?_, ?_, ?_, ?_, h.grantRole⟩
  · rw [dashboardIDs_eq_access, haccess, ← dashboardIDs_eq_access]
    exact h.keys
  · exact forall_access (P := fun a => nul ∉ a.2.1) haccess h.tenant
  · exact forall_access (P := fun a => ∃ text, creatorOf a.1 log = some text ∧
      a.2.2 = orDefault "anonymous".toList text) haccess h.creator
  · intro d u
    rw [grantOn, selectPermission, hpermissions]
    exact h.grant d u

/-- An event about grants, which may take dashboards with them. -/
theorem Recorded.of_sublist {log' : List Event} (h : Recorded t log)
    (hdashboards : t'.dashboards.Sublist t.dashboards)
    (hcreator : ∀ d, creatorOf d log' = creatorOf d log)
    (hgrant : ∀ d u, grantOn t' d u = latestGrant d u log')
    (hrole : ∀ d u role, latestGrant d u log' = some role → validGrantRole role = true) :
    Recorded t' log' := by
  refine ⟨h.keys.sublist (hdashboards.map _), ?_, ?_, hgrant, hrole⟩
  · exact fun row hrow => h.tenant row (hdashboards.subset hrow)
  · intro row hrow
    rw [hcreator]
    exact h.creator row (hdashboards.subset hrow)

theorem Recorded.created {row : DashboardRow} {text : Text} (h : Recorded t log)
    (hcreated : Created t t' row text) : Recorded t' (.created row.id text :: log) := by
  have hother : ∀ row' ∈ t.dashboards, row.id ≠ row'.id := by
    intro row' hrow' heq
    exact hcreated.isNew (heq ▸ List.mem_map_of_mem hrow')
  refine ⟨?_, ?_, ?_, ?_, h.grantRole⟩
  · rw [Tables.dashboardIDs, hcreated.dashboards, List.map_append, List.map_singleton,
      List.nodup_append]
    refine ⟨h.keys, List.nodup_singleton _, ?_⟩
    intro id hid id' hid' heq
    rw [List.mem_singleton.mp hid'] at heq
    exact hcreated.isNew (heq ▸ hid)
  · rw [hcreated.dashboards, List.forall_mem_append, List.forall_mem_singleton]
    exact ⟨h.tenant, hcreated.tenant⟩
  · rw [hcreated.dashboards, List.forall_mem_append, List.forall_mem_singleton]
    refine ⟨fun row' hrow' => ?_, text, if_pos rfl, hcreated.creator⟩
    have hlog : creatorOf row'.id (.created row.id text :: log) = creatorOf row'.id log :=
      if_neg (hother row' hrow')
    rw [hlog]
    exact h.creator row' hrow'
  · intro d u
    rw [grantOn, selectPermission, hcreated.permissions]
    exact h.grant d u

theorem Recorded.effect {e : Option Event} (h : Recorded t log) (heffect : Effect t t' e) :
    Recorded t' (e.toList ++ log) := by
  cases heffect with
  | quiet haccess hpermissions => exact h.quiet haccess hpermissions
  | created row text hcreated => exact h.created hcreated
  | granted d u role hrole hdashboards hgrant =>
    refine h.of_sublist (hdashboards ▸ .refl _) (fun _ => rfl) (fun d' u' => ?_)
      (fun d' u' role' hlatest => ?_)
    · rw [hgrant, h.grant]
      rfl
    · change (if d = d' ∧ u = u' then some role else latestGrant d' u' log) = some role' at hlatest
      split_ifs at hlatest
      · exact Option.some.inj hlatest ▸ hrole
      · exact h.grantRole d' u' role' hlatest
  | revoked d u hdashboards hgrant =>
    refine h.of_sublist (hdashboards ▸ .refl _) (fun _ => rfl) (fun d' u' => ?_)
      (fun d' u' role' hlatest => ?_)
    · rw [hgrant, h.grant]
      rfl
    · change (if d = d' ∧ u = u' then none else latestGrant d' u' log) = some role' at hlatest
      split_ifs at hlatest
      exact h.grantRole d' u' role' hlatest
  | deleted d hdashboards hgrant =>
    refine h.of_sublist hdashboards (fun _ => rfl) (fun d' u' => ?_)
      (fun d' u' role' hlatest => ?_)
    · rw [hgrant, h.grant]
      rfl
    · change (if d = d' then none else latestGrant d' u' log) = some role' at hlatest
      split_ifs at hlatest
      exact h.grantRole d' u' role' hlatest

end Recorded

section Runs
variable {f : Formats} {s s' : State}

theorem recorded_of_step {op : Op} (h : Recorded s.tables s.log)
    (hstep : step f s op = some s') : Recorded s'.tables s'.log := by
  cases op with
  | newUser u =>
    obtain rfl := Option.some.inj hstep
    exact h.quiet rfl rfl
  | setMembership | deleteMembership | transferOwner =>
    obtain ⟨db, -, rfl⟩ := Option.map_eq_some_iff.mp hstep
    exact h.quiet rfl rfl
  | call c =>
    obtain rfl := Option.some.inj hstep
    exact (h.effect (answer_effect f true s.tables c)).quiet rfl rfl

theorem recorded_of_run {s₀ : State} (hblank : s₀.Blank) {ops : List Op}
    (hrun : run (step f) s₀ ops = some s) : Recorded s.tables s.log := by
  have hstart : Recorded s₀.tables s₀.log := by
    rw [hblank.2.2]
    exact recorded_blank hblank.1 hblank.2.1
  exact run_invariant (I := fun s => Recorded s.tables s.log)
    (fun _ _ _ hs hstep => recorded_of_step hs hstep) hstart hrun

end Runs

end CairnObs.Dashboards
