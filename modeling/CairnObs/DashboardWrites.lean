import CairnObs.DashboardRows

/-! Every write of the store, for a tenant, is isolated, and what it has done when it succeeds. -/
namespace CairnObs.Dashboards

open GoText PgColumns Authz TableOps Fallible KeyedRows

variable {tenantID : Text} {t : Tables} {u : Uuid}

/-- The first `n` ids are new, and are different. -/
structure Fresh (env : Env) (n : ℕ) (t : Tables) : Prop where
  distinct : ∀ j < n, ∀ k < n, env.ids j = env.ids k → j = k
  dashboards : ∀ k < n, env.ids k ∉ t.dashboardIDs
  panels : ∀ k < n, env.ids k ∉ t.panelIDs

variable {v id : Uuid} {p : Panel} {now : ℤ} {d : Dashboard}

theorem ne_of_isOther (hvalid : t.Valid) (hu : u ∈ ownIDs tenantID t)
    (hv : isOther tenantID t v = true) : v ≠ u := by
  rintro rfl
  exact not_mem_otherIDs hvalid hu (of_decide_eq_true hv)

/-! ### Panels and grants -/

section ActsOn
variable {α : Type} {key : α → Uuid} (hvalid : t.Valid) (hu : u ∈ ownIDs tenantID t)
include hvalid

theorem insert_actsOn {x : α} (hx : key x ∈ ownIDs tenantID t) :
    ActsOn key (isOwn tenantID t) (isOther tenantID t) (fun l => l ++ [x]) :=
  .insert (decide_eq_true hx) (decide_eq_false (not_mem_otherIDs hvalid hx))

include hu

/-- Only rows of the dashboard are changed. -/
theorem update_actsOn {g : α → α} (hkey : ∀ x, key (g x) = key x) (hg : ∀ x, key x ≠ u → g x = x) :
    ActsOn key (isOwn tenantID t) (isOther tenantID t) (fun l => l.map g) :=
  .update hkey (fun x hx => hg x (ne_of_isOther hvalid hu hx))

/-- Only rows of the dashboard are deleted. -/
theorem delete_actsOn {keep : α → Bool} (hkeep : ∀ x, key x ≠ u → keep x = true) :
    ActsOn key (isOwn tenantID t) (isOther tenantID t) (fun l => l.filter keep) :=
  .delete (fun x hx => hkeep x (ne_of_isOther hvalid hu hx))

end ActsOn

section Panels
variable {change : List PanelRow → List PanelRow}
  (hact : ActsOn (fun p : PanelRow => p.dashboardID) (isOwn tenantID t) (isOther tenantID t) change)
include hact

theorem restrict_changePanels : { restrict tenantID t with
      panels := change (restrict tenantID t).panels } =
    restrict tenantID { t with panels := change t.panels } :=
  congrArg (fun panels => { restrict tenantID t with panels := panels })
    (hact.own_rows t.panels).symm

theorem confined_changePanels (hvalid : t.Valid) :
    Confined tenantID t { t with panels := change t.panels } where
  others := congrArg (fun panels => { others tenantID t with panels := panels })
    (hact.other_rows t.panels)
  valid := by
    refine ⟨hvalid.dashboard_key, ?_, hvalid.permission_dashboard⟩
    intro p hp
    rcases hact.keys _ p hp with hown | ⟨q, hq, hkey⟩
    · exact dashboardIDs_of_ownIDs (of_decide_eq_true hown)
    · exact hkey ▸ hvalid.panel_dashboard q hq

end Panels

section Permissions
variable {change : List PermissionRow → List PermissionRow}
  (hact : ActsOn (fun p : PermissionRow => p.dashboardID) (isOwn tenantID t) (isOther tenantID t)
    change)
include hact

theorem restrict_changePermissions : { restrict tenantID t with
      permissions := change (restrict tenantID t).permissions } =
    restrict tenantID { t with permissions := change t.permissions } :=
  congrArg (fun permissions => { restrict tenantID t with permissions := permissions })
    (hact.own_rows t.permissions).symm

theorem confined_changePermissions (hvalid : t.Valid) :
    Confined tenantID t { t with permissions := change t.permissions } where
  others := congrArg (fun permissions => { others tenantID t with permissions := permissions })
    (hact.other_rows t.permissions)
  valid := by
    refine ⟨hvalid.dashboard_key, hvalid.panel_dashboard, ?_⟩
    intro p hp
    rcases hact.keys _ p hp with hown | ⟨q, hq, hkey⟩
    · exact dashboardIDs_of_ownIDs (of_decide_eq_true hown)
    · exact hkey ▸ hvalid.permission_dashboard q hq

end Permissions

theorem restrict_panelIDs (h : v ∉ t.panelIDs) : v ∉ (restrict tenantID t).panelIDs := by
  intro hv
  obtain ⟨p, hp, rfl⟩ := List.mem_map.mp hv
  exact h (List.mem_map_of_mem (mem_rowsWhere.mp hp).1)

variable {row : PanelRow} {d' : Dashboard}

theorem insertPanel_of_fresh (hid : row.id ∉ t.panelIDs)
    (hdashboard : row.dashboardID ∈ t.dashboardIDs) :
    insertPanel t row = some { t with panels := t.panels ++ [row] } :=
  if_neg (not_or.mpr ⟨hid, not_not.mpr hdashboard⟩)

theorem insertPanel_restrict (hvalid : t.Valid) (hown : row.dashboardID ∈ ownIDs tenantID t)
    (hid : row.id ∉ t.panelIDs) :
    insertPanel (restrict tenantID t) row = (insertPanel t row).map (restrict tenantID) := by
  rw [insertPanel_of_fresh hid (dashboardIDs_of_ownIDs hown),
    insertPanel_of_fresh (restrict_panelIDs hid) hown]
  exact congrArg some (restrict_changePanels (insert_actsOn hvalid hown))

theorem panelRow_keys {f : Formats} (h : panelRow f id u now p = some row) :
    row.id = id ∧ row.dashboardID = u := by
  unfold panelRow at h
  split at h
  · obtain ⟨vizConfig, -, rfl⟩ := Option.map_eq_some_iff.mp h
    exact ⟨rfl, rfl⟩
  · cases h

/-- A panel goes in, then something is done with the new tables. -/
theorem insertPanelThen {ε ρ : Type} [HasTables ρ] {f : Formats} {next : Tables → Except ε ρ}
    {e : ε} (hvalid : t.Valid) (hown : u ∈ ownIDs tenantID t) (hid : id ∉ t.panelIDs)
    (hnext : ∀ row, row.id = id → Confined tenantID t { t with panels := t.panels ++ [row] } →
      Isolated tenantID { t with panels := t.panels ++ [row] } next) :
    Isolated tenantID t (fun t =>
      match (panelRow f id u now p).bind (insertPanel t) with
      | some t' => next t'
      | none => .error e) := by
  cases hrow : panelRow f id u now p with
  | none => exact .fail e
  | some row =>
    obtain ⟨rfl, rfl⟩ := panelRow_keys hrow
    have hinsert := insertPanel_of_fresh hid (dashboardIDs_of_ownIDs hown)
    have hact := insert_actsOn hvalid hown
    refine .insertThen (insertPanel_restrict hvalid hown hid) (fun t' ht' => ?_) (fun t' ht' => ?_)
    · obtain rfl := Option.some.inj (hinsert.symm.trans ht')
      exact confined_changePanels hact hvalid
    · obtain rfl := Option.some.inj (hinsert.symm.trans ht')
      exact hnext row rfl (confined_changePanels hact hvalid)

section Store
variable (f : Formats) (env : Env) (hvalid : t.Valid)
include hvalid

theorem addPanel_isolated (hfresh : Fresh env 1 t) (id : Text) (p : Panel) :
    Isolated tenantID t (fun t => addPanel f env t tenantID id p) := by
  unfold addPanel
  cases validatePanel f p with
  | error e => exact .fail _
  | ok p =>
    refine .read (dashboardTenantMatches_restrict id) (fun u hu => ?_)
    exact insertPanelThen hvalid (dashboardTenantMatches_eq_ok hu) (hfresh.panels 0 Nat.one_pos)
      (fun row _ hconfined => .done hconfined.valid _)

theorem updatePanel_isolated (p : Panel) :
    Isolated tenantID t (fun t => updatePanel f env t tenantID p) := by
  unfold updatePanel
  cases validatePanel f p with
  | error e => exact .fail _
  | ok p =>
    refine .read (dashboardTenantMatches_restrict _) (fun u hu => ?_)
    have hown := dashboardTenantMatches_eq_ok hu
    cases uuidColumn p.id with
    | none => exact .fail _
    | some id =>
      dsimp only
      cases hrow : panelRow f id u env.now p with
      | none => exact .fail _
      | some row =>
        have hact := update_actsOn (g := fun r : PanelRow =>
            if panelMatches id u r = true then { row with createdAt := r.createdAt } else r)
          hvalid hown
          (fun r => by
            split_ifs with hmatch
            · exact (panelRow_keys hrow).2.trans (of_decide_eq_true hmatch).2.symm
            · rfl)
          (fun r hr => if_neg (fun hmatch => hr (of_decide_eq_true hmatch).2))
        refine .ite (by rw [anyPanel_restrict hown]) ?_ (.fail _)
        exact .write (congrArg (fun t => (t, p)) (restrict_changePanels hact))
          (confined_changePanels hact hvalid)

theorem deletePanel_isolated (dashboardID panelID : Text) :
    Isolated tenantID t (fun t => deletePanel t tenantID dashboardID panelID) := by
  unfold deletePanel
  refine .read (dashboardTenantMatches_restrict _) (fun u hu => ?_)
  have hown := dashboardTenantMatches_eq_ok hu
  cases uuidColumn panelID with
  | none => exact .fail _
  | some id =>
    have hkeep (r : PanelRow) (hr : r.dashboardID ≠ u) : (!panelMatches id u r) = true := by
      rw [Bool.not_eq_true', panelMatches, decide_eq_false_iff_not]
      exact fun hmatch => hr hmatch.2
    have hact := delete_actsOn hvalid hown hkeep
    refine .ite (by rw [anyPanel_restrict hown]) ?_ (.fail _)
    exact .write (restrict_changePanels hact) (confined_changePanels hact hvalid)

/-! ### Grants -/

theorem setPermission_isolated (hu : u ∈ ownIDs tenantID t) (userID : Text) (role : Role)
    (grantedBy : Text) :
    Isolated tenantID t (fun t => setPermission env t u userID role grantedBy) := by
  unfold setPermission
  refine .ite Iff.rfl (.fail _) ?_
  cases uuidColumn userID with
  | none => exact .fail _
  | some v =>
    cases uuidColumn grantedBy with
    | none => exact .fail _
    | some g =>
      refine .ite ?_ (.fail _) ?_
      · -- the references: the users are everyone's, the dashboard is the tenant's
        have hown : u ∈ (restrict tenantID t).dashboardIDs := hu
        simp only [hown, dashboardIDs_of_ownIDs hu, restrict_users]
      · refine .ite (by rw [selectPermission_restrict hu]) ?_ ?_
        · have hact := update_actsOn (g := fun r : PermissionRow =>
              if r.dashboardID = u ∧ r.userID = v then { r with role := role, grantedBy := g }
              else r)
            hvalid hu (fun r => by split_ifs <;> rfl)
            (fun r hr => if_neg (fun hmatch => hr hmatch.1))
          exact .write (restrict_changePermissions hact) (confined_changePermissions hact hvalid)
        · have hown : PermissionRow.dashboardID ⟨u, v, role, g, env.now⟩ ∈ ownIDs tenantID t := hu
          have hact := insert_actsOn hvalid hown
          exact .write (restrict_changePermissions hact) (confined_changePermissions hact hvalid)

theorem revokePermission_isolated (hu : u ∈ ownIDs tenantID t) (userID : Text) :
    Isolated tenantID t (fun t => revokePermission t u userID) := by
  unfold revokePermission
  cases uuidColumn userID with
  | none => exact .fail _
  | some v =>
    have hkeep (r : PermissionRow) (hr : r.dashboardID ≠ u) :
        decide (¬ (r.dashboardID = u ∧ r.userID = v)) = true :=
      decide_eq_true (fun hmatch => hr hmatch.1)
    have hact := delete_actsOn hvalid hu hkeep
    exact .write (restrict_changePermissions hact) (confined_changePermissions hact hvalid)

end Store

/-! ### Dashboards -/

section InsertDashboard
variable {row : DashboardRow} (hvalid : t.Valid) (htenant : row.tenantID = tenantID)
  (hid : row.id ∉ t.dashboardIDs)
include htenant

theorem ownDashboards_insert :
    ownDashboards tenantID { t with dashboards := t.dashboards ++ [row] } =
      ownDashboards tenantID t ++ [row] := rowsWhere_concat_of_pos (decide_eq_true htenant)

theorem otherDashboards_insert :
    otherDashboards tenantID { t with dashboards := t.dashboards ++ [row] } =
      otherDashboards tenantID t := rowsWhere_concat_of_neg (by simp [htenant])

theorem isOther_insert :
    isOther tenantID { t with dashboards := t.dashboards ++ [row] } = isOther tenantID t := by
  funext v
  rw [isOther, otherIDs, otherDashboards_insert htenant]
  rfl

theorem isOwn_insert (hv : v ≠ row.id) :
    isOwn tenantID { t with dashboards := t.dashboards ++ [row] } v = isOwn tenantID t v := by
  rw [isOwn, ownIDs, ownDashboards_insert htenant]
  simp [isOwn, ownIDs, hv]

include hvalid hid

theorem restrict_insertDashboard :
    { restrict tenantID t with dashboards := (restrict tenantID t).dashboards ++ [row] } =
      restrict tenantID { t with dashboards := t.dashboards ++ [row] } := by
  -- no panel and no grant is of the new dashboard yet
  have hne {v : Uuid} (hv : v ∈ t.dashboardIDs) : v ≠ row.id := fun heq => hid (heq ▸ hv)
  refine Tables.ext rfl rfl (ownDashboards_insert htenant).symm ?_ ?_
  · exact rowsWhere_congr (fun p hp =>
      (isOwn_insert htenant (hne (hvalid.panel_dashboard p hp))).symm)
  · exact rowsWhere_congr (fun p hp =>
      (isOwn_insert htenant (hne (hvalid.permission_dashboard p hp))).symm)

theorem confined_insertDashboard :
    Confined tenantID t { t with dashboards := t.dashboards ++ [row] } where
  others := by
    rw [others, others, otherDashboards_insert htenant, isOther_insert htenant]
  valid := by
    have hids : Tables.dashboardIDs { t with dashboards := t.dashboards ++ [row] } =
        t.dashboardIDs ++ [row.id] := List.map_append
    refine ⟨?_, fun p hp => ?_, fun p hp => ?_⟩
    · rw [hids]
      exact List.nodup_append_comm.mp (List.nodup_cons.mpr ⟨hid, hvalid.dashboard_key⟩)
    · rw [hids]; exact List.mem_append_left _ (hvalid.panel_dashboard p hp)
    · rw [hids]; exact List.mem_append_left _ (hvalid.permission_dashboard p hp)

theorem insertDashboard_restrict :
    insertDashboard (restrict tenantID t) row =
      (insertDashboard t row).map (restrict tenantID) := by
  -- the key and the reference refuse the row in both tables, or in neither
  have hid' : row.id ∉ (restrict tenantID t).dashboardIDs :=
    fun h => hid (dashboardIDs_of_ownIDs h)
  have htenants : row.tenantID ∈ (restrict tenantID t).tenants ↔ row.tenantID ∈ t.tenants := by
    rw [htenant, restrict]
    split_ifs with h <;> simp [h]
  unfold insertDashboard
  simp only [hid, hid', htenants, false_or]
  split_ifs
  · exact congrArg some (restrict_insertDashboard hvalid htenant hid)
  · rfl

end InsertDashboard

theorem dashboardRow_keys {row : DashboardRow} (h : dashboardRow id now d = some row) :
    row.id = id ∧ row.tenantID = d.tenantID := by
  unfold dashboardRow at h
  split_ifs at h
  obtain rfl := Option.some.inj h
  exact ⟨rfl, rfl⟩

/-- A dashboard goes in, then something is done with the new tables. -/
theorem insertDashboardThen {ε ρ : Type} [HasTables ρ] {next : Tables → Except ε ρ} {e : ε}
    (hvalid : t.Valid) (htenant : d.tenantID = tenantID) (hid : id ∉ t.dashboardIDs)
    (hnext : ∀ row, row.id = id → row.tenantID = tenantID →
      Confined tenantID t { t with dashboards := t.dashboards ++ [row] } →
      Isolated tenantID { t with dashboards := t.dashboards ++ [row] } next) :
    Isolated tenantID t (fun t =>
      match (dashboardRow id now d).bind (insertDashboard t) with
      | some t' => next t'
      | none => .error e) := by
  cases hrow : dashboardRow id now d with
  | none => exact .fail e
  | some row =>
    obtain ⟨rfl, hkey⟩ := dashboardRow_keys hrow
    have hown := hkey.trans htenant
    have hconfined := confined_insertDashboard hvalid hown hid
    have hinsert {t' : Tables} (ht' : insertDashboard t row = some t') :
        t' = { t with dashboards := t.dashboards ++ [row] } := by
      unfold insertDashboard at ht'
      split_ifs at ht'
      exact (Option.some.inj ht').symm
    refine .insertThen (insertDashboard_restrict hvalid hown hid) (fun t' ht' => ?_)
      (fun t' ht' => ?_)
    · exact hinsert ht' ▸ hconfined
    · exact hinsert ht' ▸ hnext row rfl hown hconfined

section UpdateDashboard
variable {g : DashboardRow → DashboardRow} (hid : ∀ d, (g d).id = d.id)
  (htenant : ∀ d, (g d).tenantID = d.tenantID) (hother : ∀ d, d.tenantID ≠ tenantID → g d = d)
include htenant

theorem ownDashboards_update (t : Tables) :
    ownDashboards tenantID { t with dashboards := t.dashboards.map g } =
      (ownDashboards tenantID t).map g := rowsWhere_map htenant

include hid

theorem isOwn_update (t : Tables) :
    isOwn tenantID { t with dashboards := t.dashboards.map g } = isOwn tenantID t := by
  have hids : ownIDs tenantID { t with dashboards := t.dashboards.map g } = ownIDs tenantID t := by
    rw [ownIDs, ownDashboards_update htenant, List.map_map]
    exact List.map_congr_left (fun d _ => hid d)
  funext v
  rw [isOwn, hids, isOwn]

theorem restrict_updateDashboard :
    { restrict tenantID t with dashboards := (restrict tenantID t).dashboards.map g } =
      restrict tenantID { t with dashboards := t.dashboards.map g } := by
  have hown : isOwn tenantID t = isOwn tenantID { t with dashboards := t.dashboards.map g } :=
    (isOwn_update hid htenant t).symm
  exact Tables.ext rfl rfl (ownDashboards_update htenant t).symm
    (congrArg (fun own => rowsWhere _ own t.panels) hown)
    (congrArg (fun own => rowsWhere _ own t.permissions) hown)

include hother

theorem confined_updateDashboard (hvalid : t.Valid) :
    Confined tenantID t { t with dashboards := t.dashboards.map g } where
  others := by
    have hdashboards : otherDashboards tenantID { t with dashboards := t.dashboards.map g } =
        otherDashboards tenantID t :=
      rowsWhere_map_of_frame htenant (fun d hd => hother d (of_decide_eq_true hd))
    have hids : isOther tenantID { t with dashboards := t.dashboards.map g } =
        isOther tenantID t := by
      funext v
      rw [isOther, otherIDs, hdashboards]
      rfl
    rw [others, others, hdashboards, hids]
  valid := by
    have hids : Tables.dashboardIDs { t with dashboards := t.dashboards.map g } =
        t.dashboardIDs := by
      rw [Tables.dashboardIDs, List.map_map]
      exact List.map_congr_left (fun d _ => hid d)
    exact ⟨hids ▸ hvalid.dashboard_key, hids ▸ hvalid.panel_dashboard,
      hids ▸ hvalid.permission_dashboard⟩

end UpdateDashboard

section DeleteDashboard

theorem isOwn_delete (hv : v ≠ u) :
    isOwn tenantID (withoutDashboard tenantID u t) v = isOwn tenantID t v := by
  refine decide_eq_decide.mpr ?_
  rw [mem_ownIDs, mem_ownIDs]
  constructor
  · rintro ⟨d, hd, htenant, hid⟩
    exact ⟨d, (List.mem_filter.mp hd).1, htenant, hid⟩
  · rintro ⟨d, hd, htenant, hid⟩
    refine ⟨d, List.mem_filter.mpr ⟨hd, decide_eq_true ?_⟩, htenant, hid⟩
    exact fun hmatch => hv (hid.symm.trans hmatch.1)

theorem rowsWhere_isOwn_delete {α : Type} {key : α → Uuid} {l : List α} :
    (rowsWhere key (isOwn tenantID t) l).filter (fun x => decide (key x ≠ u)) =
      rowsWhere key (isOwn tenantID (withoutDashboard tenantID u t))
        (l.filter (fun x => decide (key x ≠ u))) := by
  rw [← rowsWhere_filter]
  exact rowsWhere_congr (fun x hx =>
    (isOwn_delete (of_decide_eq_true (List.mem_filter.mp hx).2)).symm)

theorem ownDashboards_delete : ownDashboards tenantID (withoutDashboard tenantID u t) =
    (ownDashboards tenantID t).filter
      (fun d => decide (¬ (d.id = u ∧ d.tenantID = tenantID))) := rowsWhere_filter _

theorem restrict_deleteDashboard : withoutDashboard tenantID u (restrict tenantID t) =
    restrict tenantID (withoutDashboard tenantID u t) :=
  Tables.ext rfl rfl ownDashboards_delete.symm rowsWhere_isOwn_delete rowsWhere_isOwn_delete

theorem confined_deleteDashboard (hvalid : t.Valid) (hu : u ∈ ownIDs tenantID t) :
    Confined tenantID t (withoutDashboard tenantID u t) where
  others := by
    have hdashboards : otherDashboards tenantID (withoutDashboard tenantID u t) =
        otherDashboards tenantID t :=
      rowsWhere_filter_of_frame (fun d hd =>
        decide_eq_true (fun hmatch => of_decide_eq_true hd hmatch.2))
    have hids : isOther tenantID (withoutDashboard tenantID u t) = isOther tenantID t := by
      funext v
      rw [isOther, otherIDs, hdashboards]
      rfl
    rw [others, others, hdashboards, hids]
    exact OtherRows.ext rfl
      (rowsWhere_filter_of_frame (fun p hp => decide_eq_true (ne_of_isOther hvalid hu hp)))
      (rowsWhere_filter_of_frame (fun p hp => decide_eq_true (ne_of_isOther hvalid hu hp)))
  valid := by
    -- the other dashboards are still there for what refers to them
    have hids {v : Uuid} (hv : v ∈ t.dashboardIDs) (hne : v ≠ u) :
        v ∈ (withoutDashboard tenantID u t).dashboardIDs := by
      obtain ⟨d, hd, rfl⟩ := List.mem_map.mp hv
      exact List.mem_map_of_mem (List.mem_filter.mpr
        ⟨hd, decide_eq_true (fun hmatch => hne hmatch.1)⟩)
    refine ⟨hvalid.dashboard_key.sublist (List.filter_sublist.map _),
      fun p hp => ?_, fun p hp => ?_⟩
    · obtain ⟨hp, hne⟩ := List.mem_filter.mp hp
      exact hids (hvalid.panel_dashboard p hp) (of_decide_eq_true hne)
    · obtain ⟨hp, hne⟩ := List.mem_filter.mp hp
      exact hids (hvalid.permission_dashboard p hp) (of_decide_eq_true hne)

end DeleteDashboard

section Store
variable (f : Formats) (env : Env) (hvalid : t.Valid)
include hvalid

theorem updateDashboard_isolated (d : Dashboard) :
    Isolated tenantID t (fun t => updateDashboard env t tenantID d) := by
  unfold updateDashboard
  refine .read rfl (fun u _ => .ite Iff.rfl (.fail _) ?_)
  refine .read (congrArg orNotFound selectDashboard_restrict) (fun row _ => ?_)
  have hid (r : DashboardRow) : (if r.id = u ∧ r.tenantID = tenantID then
      updateRow env d.withRange r else r).id = r.id := by split_ifs <;> rfl
  have htenant (r : DashboardRow) : (if r.id = u ∧ r.tenantID = tenantID then
      updateRow env d.withRange r else r).tenantID = r.tenantID := by split_ifs <;> rfl
  exact .write (congrArg (fun t => (t, _)) (restrict_updateDashboard hid htenant))
    (confined_updateDashboard hid htenant
      (fun r hr => if_neg (fun hmatch => hr hmatch.2)) hvalid)

theorem deleteDashboard_isolated (id : Text) :
    Isolated tenantID t (fun t => deleteDashboard t tenantID id) := by
  unfold deleteDashboard
  refine .read rfl (fun u _ => ?_)
  refine .read (congrArg orNotFound selectDashboard_restrict) (fun row hrow => ?_)
  have hown := (selectDashboard_eq_some (orNotFound_eq_ok hrow)).2
  exact .write restrict_deleteDashboard (confined_deleteDashboard hvalid hown)

theorem createDashboard_isolated (hfresh : Fresh env 1 t) (d : Dashboard)
    (htenant : orDefault "default".toList d.tenantID = tenantID) :
    Isolated tenantID t (fun t => createDashboard env t d) :=
  insertDashboardThen hvalid htenant (hfresh.dashboards 0 Nat.one_pos)
    (fun _ _ _ hconfined => .done hconfined.valid _)

/-- By induction on the panels: the ids that are left stay new. -/
theorem importPanels_isolated {n : ℕ} (hids : ∀ j < n, ∀ k < n, env.ids j = env.ids k → j = k)
    (ps : List Panel) (k : ℕ) (hn : k + ps.length ≤ n) (hu : u ∈ ownIDs tenantID t)
    (hfresh : ∀ j, k ≤ j → j < n → env.ids j ∉ t.panelIDs) :
    Isolated tenantID t (fun t => importPanels f env u k t ps) := by
  induction ps generalizing k t with
  | nil => exact .done hvalid []
  | cons p ps ih =>
    rw [List.length_cons] at hn
    simp only [importPanels]
    cases validatePanel f p with
    | error e => exact .fail _
    | ok p =>
      refine insertPanelThen hvalid hu (hfresh k le_rfl (by omega)) (fun row hid hconfined => ?_)
      refine .answer (fun r => _ :: r.2) (ih hconfined.valid (k+1) (by omega) hu ?_) (fun _ => rfl)
        (fun _ _ => rfl)
      -- an id in the table is an old one or the one just used
      intro j hj hjn hmem
      rw [Tables.panelIDs, List.map_append, List.mem_append] at hmem
      rcases hmem with hmem | hmem
      · exact hfresh j (by omega) hjn hmem
      · have heq := hids j hjn k (by omega) ((List.mem_singleton.mp hmem).trans hid)
        omega

theorem importDashboard_isolated (d : Dashboard) (hfresh : Fresh env (1 + d.panels.length) t) :
    Isolated tenantID t (fun t => importDashboard f env t tenantID d) := by
  unfold importDashboard
  refine insertDashboardThen hvalid rfl (hfresh.dashboards 0 (by omega))
    (fun row hid htenant hconfined => ?_)
  have hown : env.ids 0 ∈ ownIDs tenantID { t with dashboards := t.dashboards ++ [row] } :=
    mem_ownIDs.mpr ⟨row, List.mem_append_right _ (List.mem_singleton.mpr rfl), htenant, hid⟩
  have hpanels := importPanels_isolated f env hconfined.valid hfresh.distinct d.panels 1 le_rfl hown
    (fun j _ hj => hfresh.panels j hj)
  exact .answer _ hpanels (fun _ => rfl) (fun _ _ => rfl)

end Store

/-! ### What a write has found and done, when it succeeds -/

section Specs
variable {f : Formats} {env : Env} {t' : Tables}

theorem uuidColumn_of_dashboardKey {id : Text} (h : dashboardKey tenantID id = .ok u) :
    uuidColumn id = some u ∧ nul ∉ tenantID := by
  unfold dashboardKey at h
  cases hid : uuidColumn id with
  | none => simp only [hid] at h; cases h
  | some v =>
    simp only [hid] at h
    split_ifs at h with hnul
    exact ⟨congrArg some (Except.ok.inj h), hnul⟩

theorem createDashboard_eq_ok (h : createDashboard env t d = .ok (t', d')) :
    ∃ row, dashboardRow (env.ids 0) env.now { d.withRange with
        id := uuidOut (env.ids 0)
        tenantID := orDefault "default".toList d.tenantID
        createdBy := orDefault "anonymous".toList d.createdBy } = some row ∧
      insertDashboard t row = some t' ∧ d'.id = uuidOut (env.ids 0) := by
  simp only [createDashboard] at h
  split at h
  case h_1 t₁ hinsert =>
    obtain ⟨rfl, rfl⟩ := Prod.mk.inj (Except.ok.inj h)
    obtain ⟨row, hrow, hinsert⟩ := Option.bind_eq_some_iff.mp hinsert
    exact ⟨row, hrow, hinsert, rfl⟩
  case h_2 => cases h

theorem updateDashboard_eq_ok (h : updateDashboard env t tenantID d = .ok (t', d')) :
    ∃ u, textsAccepted [d.name, d.description, d.withRange.defaultEarliest,
        d.withRange.defaultLatest] = true ∧
      t' = { t with dashboards := t.dashboards.map (fun r =>
        if r.id = u ∧ r.tenantID = tenantID then updateRow env d.withRange r else r) } := by
  obtain ⟨u, -, h⟩ := bind_eq_ok.mp h
  split_ifs at h with htexts
  obtain ⟨row, -, h⟩ := bind_eq_ok.mp h
  obtain ⟨rfl, -⟩ := Prod.mk.inj (Except.ok.inj h)
  rw [Bool.not_eq_true', Bool.not_eq_false] at htexts
  exact ⟨u, htexts, rfl⟩

theorem deleteDashboard_eq_ok {id : Text} (h : deleteDashboard t tenantID id = .ok t') :
    ∃ d, uuidColumn id = some d ∧ t' = withoutDashboard tenantID d t := by
  obtain ⟨d, hd, h⟩ := bind_eq_ok.mp h
  obtain ⟨_, -, h⟩ := bind_eq_ok.mp h
  exact ⟨d, (uuidColumn_of_dashboardKey hd).1, (Except.ok.inj h).symm⟩

theorem addPanel_eq_ok {dashboardID : Text} {p' : Panel}
    (h : addPanel f env t tenantID dashboardID p = .ok (t', p')) :
    ∃ q u row, validatePanel f p = .ok q ∧ dashboardTenantMatches t tenantID dashboardID = .ok u ∧
      panelRow f (env.ids 0) u env.now q = some row ∧ insertPanel t row = some t' := by
  unfold addPanel at h
  cases hp : validatePanel f p with
  | error e => rw [hp] at h; cases h
  | ok q =>
    rw [hp] at h
    obtain ⟨u, hu, h⟩ := bind_eq_ok.mp h
    cases hinsert : (panelRow f (env.ids 0) u env.now q).bind (insertPanel t) with
    | none => simp only [hinsert] at h; cases h
    | some t₁ =>
      simp only [hinsert] at h
      obtain ⟨rfl, -⟩ := Prod.mk.inj (Except.ok.inj h)
      obtain ⟨row, hrow, hinsert⟩ := Option.bind_eq_some_iff.mp hinsert
      exact ⟨q, u, row, rfl, hu, hrow, hinsert⟩

theorem updatePanel_eq_ok {p' : Panel} (h : updatePanel f env t tenantID p = .ok (t', p')) :
    ∃ q u id row, validatePanel f p = .ok q ∧
      dashboardTenantMatches t tenantID q.dashboardID = .ok u ∧
      panelRow f id u env.now q = some row ∧
      t' = { t with panels := t.panels.map (fun r =>
        if panelMatches id u r then { row with createdAt := r.createdAt } else r) } := by
  unfold updatePanel at h
  cases hp : validatePanel f p with
  | error e => rw [hp] at h; cases h
  | ok q =>
    rw [hp] at h
    obtain ⟨u, hu, h⟩ := bind_eq_ok.mp h
    cases hid : uuidColumn q.id with
    | none => simp only [hid] at h; cases h
    | some id =>
      simp only [hid] at h
      cases hrow : panelRow f id u env.now q with
      | none => simp only [hrow] at h; cases h
      | some row =>
        simp only [hrow] at h
        split_ifs at h
        obtain ⟨rfl, -⟩ := Prod.mk.inj (Except.ok.inj h)
        exact ⟨q, u, id, row, rfl, hu, hrow, rfl⟩

theorem deletePanel_eq_ok {dashboardID panelID : Text}
    (h : deletePanel t tenantID dashboardID panelID = .ok t') :
    ∃ keep, t' = { t with panels := t.panels.filter keep } := by
  obtain ⟨u, -, h⟩ := bind_eq_ok.mp h
  cases hid : uuidColumn panelID with
  | none => simp only [hid] at h; cases h
  | some id =>
    simp only [hid] at h
    split_ifs at h
    exact ⟨_, (Except.ok.inj h).symm⟩

theorem importPanels_cons_eq_ok {d : Uuid} {k : ℕ} {ps ps' : List Panel}
    (h : importPanels f env d k t (p :: ps) = .ok (t', ps')) :
    ∃ q row t₁ out, validatePanel f p = .ok q ∧ panelRow f (env.ids k) d env.now q = some row ∧
      insertPanel t row = some t₁ ∧ importPanels f env d (k+1) t₁ ps = .ok (t', out) := by
  unfold importPanels at h
  cases hp : validatePanel f p with
  | error e => rw [hp] at h; cases h
  | ok q =>
    simp only [hp] at h
    cases hinsert : (panelRow f (env.ids k) d env.now q).bind (insertPanel t) with
    | none => simp only [hinsert] at h; cases h
    | some t₁ =>
      simp only [hinsert] at h
      obtain ⟨⟨t₂, out⟩, hrest, h⟩ := bind_eq_ok.mp h
      obtain ⟨rfl, -⟩ := Prod.mk.inj (Except.ok.inj h)
      obtain ⟨row, hrow, hinsert⟩ := Option.bind_eq_some_iff.mp hinsert
      exact ⟨q, row, t₁, out, rfl, hrow, hinsert, hrest⟩

theorem importDashboard_eq_ok (h : importDashboard f env t tenantID d = .ok (t', d')) :
    ∃ row t₁ panels, dashboardRow (env.ids 0) env.now { d.withRange with
        id := uuidOut (env.ids 0)
        tenantID := tenantID
        createdBy := orDefault "anonymous".toList d.createdBy
        createdAt := env.now
        updatedAt := env.now
        panels := [] } = some row ∧
      insertDashboard t row = some t₁ ∧
      importPanels f env (env.ids 0) 1 t₁ d.panels = .ok (t', panels) ∧
      d'.id = uuidOut (env.ids 0) := by
  simp only [importDashboard] at h
  split at h
  case h_1 t₁ hinsert =>
    obtain ⟨⟨t₂, panels⟩, hpanels, h⟩ := bind_eq_ok.mp h
    obtain ⟨rfl, rfl⟩ := Prod.mk.inj (Except.ok.inj h)
    obtain ⟨row, hrow, hinsert⟩ := Option.bind_eq_some_iff.mp hinsert
    exact ⟨row, t₁, panels, hrow, hinsert, hpanels, rfl⟩
  case h_2 => cases h

/-- The row that ON CONFLICT DO UPDATE leaves. -/
def regrant (d u g : Uuid) (role : Role) (p : PermissionRow) : PermissionRow :=
  if p.dashboardID = d ∧ p.userID = u then { p with role := role, grantedBy := g } else p

theorem setPermission_eq_ok {d : Uuid} {userID grantedBy : Text} {role : Role}
    (h : setPermission env t d userID role grantedBy = .ok t') :
    ∃ u g, uuidColumn userID = some u ∧ validGrantRole role = true ∧
      t' = { t with permissions :=
        if (selectPermission t d u).isSome then t.permissions.map (regrant d u g role)
        else t.permissions ++ [⟨d, u, role, g, env.now⟩] } := by
  unfold setPermission at h
  split_ifs at h with hrefused
  have hrole : validGrantRole role = true := by
    cases hvalid : validGrantRole role with
    | true => rfl
    | false => exact absurd (by rw [hvalid]; rfl) hrefused
  cases hu : uuidColumn userID with
  | none => simp only [hu] at h; cases h
  | some u =>
    cases hg : uuidColumn grantedBy with
    | none => simp only [hu, hg] at h; cases h
    | some g =>
      simp only [hu, hg] at h
      split_ifs at h with hkeys hold
      · exact ⟨u, g, rfl, hrole, by rw [if_pos hold]; exact (Except.ok.inj h).symm⟩
      · exact ⟨u, g, rfl, hrole, by rw [if_neg hold]; exact (Except.ok.inj h).symm⟩

theorem revokePermission_eq_ok {d : Uuid} {userID : Text}
    (h : revokePermission t d userID = .ok t') :
    ∃ u, uuidColumn userID = some u ∧
      t' = { t with permissions := t.permissions.filter (fun p =>
        !decide (p.dashboardID = d ∧ p.userID = u)) } := by
  unfold revokePermission at h
  cases hu : uuidColumn userID with
  | none => simp only [hu] at h; cases h
  | some u =>
    simp only [hu, decide_not] at h
    exact ⟨u, rfl, (Except.ok.inj h).symm⟩

end Specs

end CairnObs.Dashboards
