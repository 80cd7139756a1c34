import CairnObs.Dashboards
import CairnObs.Fallible
import CairnObs.KeyedRows

/-! The rows of one tenant, and of the others. The statements of the store, for a tenant, act on
its own rows as they would if there were no others, and leave the others alone. -/
namespace CairnObs.Dashboards

open GoText PgColumns Authz TableOps KeyedRows Fallible

/-! ### The rows of a tenant -/

def ownDashboards (tenantID : Text) (t : Tables) : List DashboardRow :=
  rowsWhere (fun d => d.tenantID) (fun id => decide (id = tenantID)) t.dashboards

def otherDashboards (tenantID : Text) (t : Tables) : List DashboardRow :=
  rowsWhere (fun d => d.tenantID) (fun id => decide (id ≠ tenantID)) t.dashboards

def ownIDs (tenantID : Text) (t : Tables) : List Uuid :=
  (ownDashboards tenantID t).map (fun d => d.id)

def otherIDs (tenantID : Text) (t : Tables) : List Uuid :=
  (otherDashboards tenantID t).map (fun d => d.id)

def isOwn (tenantID : Text) (t : Tables) (u : Uuid) : Bool := decide (u ∈ ownIDs tenantID t)

def isOther (tenantID : Text) (t : Tables) (u : Uuid) : Bool := decide (u ∈ otherIDs tenantID t)

/-- The users, and of the rest what belongs to the tenant. -/
def restrict (tenantID : Text) (t : Tables) : Tables where
  users := t.users
  tenants := if tenantID ∈ t.tenants then [tenantID] else []
  dashboards := ownDashboards tenantID t
  panels := rowsWhere (fun p => p.dashboardID) (isOwn tenantID t) t.panels
  permissions :=
    rowsWhere (fun p => p.dashboardID) (isOwn tenantID t) t.permissions

/-- The rows that belong to the dashboards of other tenants. -/
@[ext]
structure OtherRows where
  dashboards : List DashboardRow
  panels : List PanelRow
  permissions : List PermissionRow

def others (tenantID : Text) (t : Tables) : OtherRows where
  dashboards := otherDashboards tenantID t
  panels := rowsWhere (fun p => p.dashboardID) (isOther tenantID t) t.panels
  permissions :=
    rowsWhere (fun p => p.dashboardID) (isOther tenantID t) t.permissions

variable {tenantID : Text} {t : Tables} {u : Uuid}

theorem restrict_users : (restrict tenantID t).users = t.users := rfl

theorem restrict_dashboards : (restrict tenantID t).dashboards =
    rowsWhere (fun d => d.tenantID) (fun id => decide (id = tenantID)) t.dashboards := rfl

theorem restrict_panels : (restrict tenantID t).panels =
    rowsWhere (fun p => p.dashboardID) (isOwn tenantID t) t.panels := rfl

theorem restrict_permissions : (restrict tenantID t).permissions =
    rowsWhere (fun p => p.dashboardID) (isOwn tenantID t) t.permissions :=
  rfl

theorem mem_ownIDs :
    u ∈ ownIDs tenantID t ↔ ∃ d ∈ t.dashboards, d.tenantID = tenantID ∧ d.id = u := by
  simp [ownIDs, ownDashboards, mem_rowsWhere, and_assoc]

theorem mem_otherIDs :
    u ∈ otherIDs tenantID t ↔ ∃ d ∈ t.dashboards, d.tenantID ≠ tenantID ∧ d.id = u := by
  simp [otherIDs, otherDashboards, mem_rowsWhere, and_assoc]

theorem dashboardIDs_of_ownIDs (h : u ∈ ownIDs tenantID t) : u ∈ t.dashboardIDs := by
  obtain ⟨d, hd, -, rfl⟩ := mem_ownIDs.mp h
  exact List.mem_map_of_mem hd

/-- A dashboard has one tenant. -/
theorem not_mem_otherIDs (hvalid : t.Valid) (h : u ∈ ownIDs tenantID t) :
    u ∉ otherIDs tenantID t := by
  intro hother
  obtain ⟨d, hd, htenant, hid⟩ := mem_ownIDs.mp h
  obtain ⟨d', hd', htenant', hid'⟩ := mem_otherIDs.mp hother
  -- the key has one row for the id
  have heq : d = d' :=
    List.inj_on_of_nodup_map hvalid.dashboard_key hd hd' (hid.trans hid'.symm)
  exact htenant' (heq ▸ htenant)

/-- What a write for a tenant may do to the tables. -/
structure Confined (tenantID : Text) (t t' : Tables) : Prop where
  others : others tenantID t' = others tenantID t
  valid : t'.Valid

theorem Confined.refl (hvalid : t.Valid) : Confined tenantID t t := ⟨rfl, hvalid⟩

theorem Confined.trans {t' t'' : Tables} (h₁ : Confined tenantID t t')
    (h₂ : Confined tenantID t' t'') : Confined tenantID t t'' :=
  ⟨h₂.others.trans h₁.others, h₂.valid⟩

/-! ### Reading -/

theorem selectDashboard_eq_some {d : DashboardRow} (h : selectDashboard t tenantID u = some d) :
    d.id = u ∧ u ∈ ownIDs tenantID t := by
  have hkey := List.find?_some h
  obtain ⟨hid, htenant⟩ := of_decide_eq_true hkey
  exact ⟨hid, mem_ownIDs.mpr ⟨d, List.mem_of_find?_eq_some h, htenant, hid⟩⟩

theorem selectDashboard_restrict :
    selectDashboard (restrict tenantID t) tenantID u = selectDashboard t tenantID u := by
  rw [selectDashboard, restrict_dashboards, find?_rowsWhere, selectDashboard]
  intro d hd
  exact decide_eq_true (of_decide_eq_true hd).2

theorem listPanels_restrict (hu : u ∈ ownIDs tenantID t) :
    listPanels (restrict tenantID t) u = listPanels t u := by
  rw [listPanels, restrict_panels, filter_rowsWhere, listPanels]
  intro p hp
  rw [of_decide_eq_true hp]
  exact decide_eq_true hu

theorem anyPanel_restrict (hu : u ∈ ownIDs tenantID t) (id : Uuid) :
    (restrict tenantID t).panels.any (panelMatches id u) = t.panels.any (panelMatches id u) := by
  rw [restrict_panels, any_rowsWhere]
  intro p hp
  rw [(of_decide_eq_true hp).2]
  exact decide_eq_true hu

theorem orNotFound_eq_ok {α : Type} {o : Option α} {a : α} (h : orNotFound o = .ok a) :
    o = some a := by
  cases o with
  | none => cases h
  | some b => exact congrArg some (Except.ok.inj h)

theorem getDashboard_restrict (id : Text) :
    getDashboard (restrict tenantID t) tenantID id = getDashboard t tenantID id := by
  unfold getDashboard
  refine bind_congr_of_ok (fun u _ => ?_)
  rw [selectDashboard_restrict]
  refine bind_congr_of_ok (fun d hd => ?_)
  rw [listPanels_restrict (selectDashboard_eq_some (orNotFound_eq_ok hd)).2]

theorem getDashboard_eq_ok {id : Text} {d : DashboardRow} {panels : List PanelRow}
    (h : getDashboard t tenantID id = .ok (d, panels)) : d.id ∈ ownIDs tenantID t := by
  obtain ⟨u, -, h⟩ := bind_eq_ok.mp h
  obtain ⟨d', hd, h⟩ := bind_eq_ok.mp h
  obtain ⟨rfl, -⟩ := Prod.mk.inj (Except.ok.inj h)
  obtain ⟨rfl, hown⟩ := selectDashboard_eq_some (orNotFound_eq_ok hd)
  exact hown

theorem listDashboards_restrict :
    listDashboards (restrict tenantID t) tenantID = listDashboards t tenantID := by
  have hrows : (restrict tenantID t).dashboards.filter (fun d => decide (d.tenantID = tenantID)) =
      t.dashboards.filter (fun d => decide (d.tenantID = tenantID)) :=
    filter_rowsWhere (fun d hd => hd)
  rw [listDashboards, listDashboards, hrows]

theorem dashboardTenantMatches_restrict (id : Text) :
    dashboardTenantMatches (restrict tenantID t) tenantID id =
      dashboardTenantMatches t tenantID id := by
  unfold dashboardTenantMatches
  simp only [selectDashboard_restrict]

theorem dashboardTenantMatches_eq_ok {id : Text}
    (h : dashboardTenantMatches t tenantID id = .ok u) : u ∈ ownIDs tenantID t := by
  obtain ⟨v, -, h⟩ := bind_eq_ok.mp h
  obtain ⟨d, hd, h⟩ := bind_eq_ok.mp h
  obtain rfl := Except.ok.inj h
  exact (selectDashboard_eq_some (orNotFound_eq_ok hd)).2

theorem selectPermission_restrict (hu : u ∈ ownIDs tenantID t) (v : Uuid) :
    selectPermission (restrict tenantID t) u v = selectPermission t u v := by
  rw [selectPermission, restrict_permissions, find?_rowsWhere, selectPermission]
  intro p hp
  rw [(of_decide_eq_true hp).1]
  exact decide_eq_true hu

theorem grantedRole_restrict (hu : u ∈ ownIDs tenantID t) (userID : Text) :
    grantedRole (restrict tenantID t) u userID = grantedRole t u userID := by
  unfold grantedRole
  simp only [selectPermission_restrict hu]

theorem listPermissions_restrict (hu : u ∈ ownIDs tenantID t) :
    listPermissions (restrict tenantID t) u = listPermissions t u := by
  rw [listPermissions, restrict_permissions, filter_rowsWhere, listPermissions]
  intro p hp
  rw [of_decide_eq_true hp]
  exact decide_eq_true hu

/-! ### Operations -/

/-- What an operation returns: the tables, perhaps with something else. -/
class HasTables (ρ : Type) where
  tables : ρ → Tables
  mapTables : (Tables → Tables) → ρ → ρ
  tables_map : ∀ g r, tables (mapTables g r) = g (tables r)

open HasTables

instance : HasTables Tables := ⟨id, id, fun _ _ => rfl⟩

instance {β : Type} : HasTables (Tables × β) := ⟨Prod.fst, fun g r => (g r.1, r.2), fun _ _ => rfl⟩

/-- An operation does on the rows of the tenant what it does on the tables, with the same
outcome, and what it does is confined to the tenant. -/
structure Isolated {ε ρ : Type} [HasTables ρ] (tenantID : Text) (t : Tables)
    (op : Tables → Except ε ρ) : Prop where
  restricted : op (restrict tenantID t) = (op t).map (mapTables (restrict tenantID))
  confined : ∀ r, op t = .ok r → Confined tenantID t (tables r)

namespace Isolated
variable {ε ε' γ β ρ : Type} [HasTables ρ]

theorem fail (e : ε) : Isolated tenantID t (fun _ => (.error e : Except ε ρ)) where
  restricted := rfl
  confined _ h := nomatch h

theorem write {change : Tables → ρ}
    (hchange : change (restrict tenantID t) = mapTables (restrict tenantID) (change t))
    (hconfined : Confined tenantID t (tables (change t))) :
    Isolated tenantID t (fun t => (.ok (change t) : Except ε ρ)) where
  restricted := by rw [hchange]; rfl
  confined r h := by
    obtain rfl := Except.ok.inj h
    exact hconfined

/-- Nothing is written. -/
theorem done (hvalid : t.Valid) (b : β) :
    Isolated tenantID t (fun t => (.ok (t, b) : Except ε (Tables × β))) :=
  .write rfl (.refl hvalid)

/-- First something that only looks at the rows of the tenant. -/
theorem read {look : Tables → Except ε γ} {next : γ → Tables → Except ε ρ}
    (hlook : look (restrict tenantID t) = look t)
    (hnext : ∀ c, look t = .ok c → Isolated tenantID t (next c)) :
    Isolated tenantID t (fun t => look t >>= fun c => next c t) := by
  cases hc : look t with
  | error e =>
    constructor
    · simp only [hlook, hc]; rfl
    · simp only [hc]; exact fun _ h => nomatch h
  | ok c =>
    constructor
    · simp only [hlook, hc]; exact (hnext c hc).restricted
    · simp only [hc]; exact (hnext c hc).confined

theorem ite {condition : Tables → Prop} [DecidablePred condition] {yes no : Tables → Except ε ρ}
    (hcondition : condition (restrict tenantID t) ↔ condition t) (hyes : Isolated tenantID t yes)
    (hno : Isolated tenantID t no) :
    Isolated tenantID t (fun t => if condition t then yes t else no t) := by
  by_cases h : condition t
  · constructor
    · simp only [hcondition, h, if_true]; exact hyes.restricted
    · simp only [h, if_true]; exact hyes.confined
  · constructor
    · simp only [hcondition, h, if_false]; exact hno.restricted
    · simp only [h, if_false]; exact hno.confined

/-- An INSERT that may be refused, and what comes after it. -/
theorem insertThen {insert : Tables → Option Tables} {next : Tables → Except ε ρ} {e : ε}
    (hinsert : insert (restrict tenantID t) = (insert t).map (restrict tenantID))
    (hconfined : ∀ t', insert t = some t' → Confined tenantID t t')
    (hnext : ∀ t', insert t = some t' → Isolated tenantID t' next) :
    Isolated tenantID t (fun t =>
      match insert t with
      | some t' => next t'
      | none => .error e) := by
  cases ht : insert t with
  | none =>
    constructor
    · simp only [hinsert, ht]; rfl
    · simp only [ht]; exact fun _ h => nomatch h
  | some t' =>
    constructor
    · simp only [hinsert, ht]; exact (hnext t' ht).restricted
    · simp only [ht]
      intro r h
      exact (hconfined t' ht).trans ((hnext t' ht).confined r h)

/-- An answer made from what the operation returned. -/
theorem answer {op : Tables → Except ε ρ} {next : ρ → Except ε (Tables × β)} (g : ρ → β)
    (hop : Isolated tenantID t op) (hnext : ∀ r, next r = .ok (tables r, g r))
    (hg : ∀ F r, g (mapTables F r) = g r) : Isolated tenantID t (fun t => op t >>= next) := by
  obtain rfl : next = fun r => .ok (tables r, g r) := funext hnext
  cases hr : op t with
  | error e =>
    constructor
    · simp only [hop.restricted, hr]; rfl
    · simp only [hr]; exact fun _ h => nomatch h
  | ok r =>
    constructor
    · simp only [hop.restricted, hr]
      exact congrArg Except.ok (Prod.ext (tables_map _ r) (hg _ r))
    · simp only [hr]
      intro r' h
      obtain rfl := Except.ok.inj h
      exact hop.confined r hr

theorem mapError {op : Tables → Except ε ρ} (g : ε → ε') (hop : Isolated tenantID t op) :
    Isolated tenantID t (fun t => (op t).mapError g) := by
  cases hr : op t with
  | error e =>
    constructor
    · simp only [hop.restricted, hr]; rfl
    · simp only [hr]; exact fun _ h => nomatch h
  | ok r =>
    constructor
    · simp only [hop.restricted, hr]; rfl
    · simp only [hr]
      intro r' h
      obtain rfl := Except.ok.inj h
      exact hop.confined r hr

end Isolated

end CairnObs.Dashboards
