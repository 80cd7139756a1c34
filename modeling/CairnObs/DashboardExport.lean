import CairnObs.Arrangements
import CairnObs.DashboardHistory

/-! Export and import of dashboards. Panels are listed by `sort_order` and `created_at`, and rows
that tie may come in any order; an import has one `now()` for all its panels. -/
namespace CairnObs.Dashboards

open GoText PgColumns Authz TableOps Fallible Arrangements

/-! ### Exported documents -/

def panelOrder : List ((PanelRow → ℤ) × Bool) :=
  [(fun p => p.sortOrder, false), (fun p => p.createdAt, false)]

def panelsOf (t : Tables) (u : Uuid) : List PanelRow :=
  t.panels.filter (fun p => decide (p.dashboardID = u))

/-- The document that an export may return. -/
structure Exports (t : Tables) (tenantID id : Text) (doc : Dashboard) : Prop where
  exists_rows : ∃ u row panels, dashboardKey tenantID id = .ok u ∧
    selectDashboard t tenantID u = some row ∧ Arranged panelOrder (panelsOf t u) panels ∧
    doc = row.toDashboard panels

variable {doc d d' : Dashboard} {t : Tables} {p : Panel} {identity : Option Identity}
  {default text : Text} {row : DashboardRow} {k : ℕ}

/-- The handler lists tied rows in the order of the table. -/
theorem exports_of_handleGet {t' : Tables} {id : Text} {status : ℕ}
    (h : handleGet t identity id = .ok (t', ⟨status, .dashboard doc⟩)) :
    Exports t (requestTenant identity) id doc := by
  obtain ⟨⟨row, panels⟩, hget, h⟩ := bind_eq_ok.mp h
  cases h
  obtain ⟨u, hu, hget⟩ := bind_eq_ok.mp (orStoreErr_eq_ok hget)
  obtain ⟨row', hrow, hget⟩ := bind_eq_ok.mp hget
  cases hget
  exact ⟨u, row, _, hu, orNotFound_eq_ok hrow, arranged_sortBy _ _, rfl⟩

/-- What is left of a panel without its ids and timestamps. -/
def Panel.content (p : Panel) : Panel :=
  { p with id := [], dashboardID := [], createdAt := 0, updatedAt := 0 }

def PanelRow.content (p : PanelRow) : Panel := p.toPanel.content

/-- The same name, description and range, and the same panels in the same order. -/
structure SameContent (d d' : Dashboard) : Prop where
  name : d'.name = d.name
  description : d'.description = d.description
  defaultEarliest : d'.defaultEarliest = d.defaultEarliest
  defaultLatest : d'.defaultLatest = d.defaultLatest
  panels : d'.panels.map Panel.content = d.panels.map Panel.content

/-! ### The way of a document -/

/-- `encoding/json` on documents: the length of the text that it writes for one and how deep its
objects and arrays are nested, and how it writes a `viz_config`. -/
structure Codec where
  size : Dashboard → ℕ
  nesting : Dashboard → ℕ
  wire : Text → Text

def maxBodyBytes : ℕ := 1024 * 1024

/-- The limit of the decoder. -/
def maxNestingDepth : ℕ := 10000

def Panel.sent (wire : Text → Text) (p : Panel) : Panel := { p with vizConfig := wire p.vizConfig }

def Dashboard.sent (wire : Text → Text) (d : Dashboard) : Dashboard :=
  { d with panels := d.panels.map (Panel.sent wire) }

/-- What an import finds in the body, when the body is an exported document. -/
def Codec.receive (codec : Codec) (doc : Dashboard) : Decoded Dashboard :=
  if maxBodyBytes < codec.size doc then .error "http: request body too large".toList
  else if maxNestingDepth < codec.nesting doc then .error "exceeded max depth".toList
  else .ok (doc.sent codec.wire)

def Codec.Fits (codec : Codec) (doc : Dashboard) : Prop :=
  codec.size doc ≤ maxBodyBytes ∧ codec.nesting doc ≤ maxNestingDepth

variable {codec : Codec}

theorem receive_of_fits (h : codec.Fits doc) : codec.receive doc = .ok (doc.sent codec.wire) :=
  (if_neg (not_lt.mpr h.1)).trans (if_neg (not_lt.mpr h.2))

theorem fits_of_receive (h : codec.receive doc = .ok d) : codec.Fits doc := by
  unfold Codec.receive at h
  split_ifs at h with hsize hnesting
  exact ⟨not_lt.mp hsize, not_lt.mp hnesting⟩

/-- A value that comes from a JSONB column is taken by it again as the same value. -/
def KeepsJson (f : Formats) (wire : Text → Text) : Prop :=
  ∀ text value, f.jsonb text = some value → wire value ≠ [] ∧ f.jsonb (wire value) = some value

/-! ### Stored rows -/

/-- What a panel has passed when it is stored. -/
structure StoredPanel (f : Formats) (p : PanelRow) : Prop where
  query : p.query ≠ []
  queryLanguage : p.queryLanguage ≠ "sql".toList
  vizType : p.vizType ∈ vizTypes
  texts : textsAccepted ([p.title, p.query, p.queryLanguage, p.vizType] ++
    p.earliestOverride.toList ++ p.latestOverride.toList) = true
  ints : intsAccepted [p.positionX, p.positionY, p.width, p.height, p.sortOrder] = true
  vizConfig : ∃ text, f.jsonb text = some p.vizConfig

structure StoredDashboard (d : DashboardRow) : Prop where
  name : d.name ≠ []
  earliest : d.defaultEarliest ≠ []
  latest : d.defaultLatest ≠ []
  texts : textsAccepted [d.name, d.description, d.defaultEarliest, d.defaultLatest] = true

structure Stored (f : Formats) (t : Tables) : Prop where
  dashboards : ∀ d ∈ t.dashboards, StoredDashboard d
  panels : ∀ p ∈ t.panels, StoredPanel f p
  references : ∀ p ∈ t.panels, p.dashboardID ∈ t.dashboardIDs

section Rows
variable {f : Formats} {env : Env} {t t' : Tables} {tenantID : Text} {u : Uuid}

theorem validatePanel_eq_ok {q : Panel} (h : validatePanel f p = .ok q) :
    q.query ≠ [] ∧ q.queryLanguage ≠ "sql".toList ∧ q.vizType ∈ vizTypes := by
  unfold validatePanel at h
  split_ifs at h with hquery hlanguage htype hconfig
  · cases h
    exact ⟨hquery, hlanguage, htype⟩
  · cases h
    exact ⟨hquery, hlanguage, htype⟩

theorem storedPanel_of_panelRow {id : Uuid} {now : ℤ} {q : Panel} {row : PanelRow}
    (hp : validatePanel f p = .ok q) (h : panelRow f id u now q = some row) :
    StoredPanel f row := by
  obtain ⟨hquery, hlanguage, htype⟩ := validatePanel_eq_ok hp
  unfold panelRow at h
  split_ifs at h with haccepted
  obtain ⟨value, hvalue, rfl⟩ := Option.map_eq_some_iff.mp h
  obtain ⟨htexts, hints⟩ := Bool.and_eq_true_iff.mp haccepted
  exact ⟨hquery, hlanguage, htype, htexts, hints, q.vizConfig, hvalue⟩

theorem orDefault_ne_nil (h : default ≠ []) : orDefault default text ≠ [] := by
  unfold orDefault
  split_ifs with hempty
  · exact h
  · exact hempty

theorem withRange_ne_nil (d : Dashboard) :
    d.withRange.defaultEarliest ≠ [] ∧ d.withRange.defaultLatest ≠ [] :=
  ⟨orDefault_ne_nil (by decide), orDefault_ne_nil (by decide)⟩

theorem storedDashboard_of_dashboardRow {id : Uuid} {now : ℤ} (h : dashboardRow id now d = some row)
    (hname : d.name ≠ []) (hrange : d.defaultEarliest ≠ [] ∧ d.defaultLatest ≠ []) :
    StoredDashboard row := by
  unfold dashboardRow at h
  split_ifs at h with htexts
  obtain rfl := Option.some.inj h
  refine ⟨hname, hrange.1, hrange.2, ?_⟩
  simp only [textsAccepted, List.all_cons, Bool.and_eq_true] at htexts ⊢
  obtain ⟨-, hname, hdescription, hearliest, hlatest, -⟩ := htexts
  exact ⟨hname, hdescription, hearliest, hlatest, rfl⟩

/-! ### Writes keep rows stored -/

theorem Stored.insertDashboard (ht : Stored f t) (hrow : StoredDashboard row)
    (h : insertDashboard t row = some t') : Stored f t' := by
  unfold Dashboards.insertDashboard at h
  split_ifs at h
  obtain rfl := Option.some.inj h
  refine ⟨fun d hd => ?_, ht.panels, fun p hp => ?_⟩
  · rcases List.mem_append.mp hd with hd | hd
    · exact ht.dashboards d hd
    · obtain rfl := List.mem_singleton.mp hd
      exact hrow
  · obtain ⟨d, hd, hid⟩ := List.mem_map.mp (ht.references p hp)
    exact List.mem_map.mpr ⟨d, List.mem_append_left _ hd, hid⟩

theorem Stored.changePanels {panels : List PanelRow} (ht : Stored f t)
    (h : ∀ p ∈ panels, StoredPanel f p ∧ p.dashboardID ∈ t.dashboardIDs) :
    Stored f { t with panels := panels } :=
  ⟨ht.dashboards, fun p hp => (h p hp).1, fun p hp => (h p hp).2⟩

theorem Stored.insertPanel {row : PanelRow} (ht : Stored f t) (hrow : StoredPanel f row)
    (h : insertPanel t row = some t') : Stored f t' := by
  unfold Dashboards.insertPanel at h
  split_ifs at h with hkeys
  obtain rfl := Option.some.inj h
  apply ht.changePanels
  intro p hp
  rcases List.mem_append.mp hp with hp | hp
  · exact ⟨ht.panels p hp, ht.references p hp⟩
  · obtain rfl := List.mem_singleton.mp hp
    exact ⟨hrow, not_not.mp (not_or.mp hkeys).2⟩

theorem Stored.createDashboard (ht : Stored f t) (h : createDashboard env t d = .ok (t', d'))
    (hname : d.name ≠ []) : Stored f t' := by
  obtain ⟨row, hrow, hinsert, -⟩ := createDashboard_eq_ok h
  exact ht.insertDashboard
    (storedDashboard_of_dashboardRow hrow hname (withRange_ne_nil d)) hinsert

theorem Stored.updateDashboard (ht : Stored f t)
    (h : updateDashboard env t tenantID d = .ok (t', d')) (hname : d.name ≠ []) : Stored f t' := by
  obtain ⟨u, htexts, rfl⟩ := updateDashboard_eq_ok h
  refine ⟨fun r hr => ?_, ht.panels, fun p hp => ?_⟩
  · obtain ⟨old, hold, rfl⟩ := List.mem_map.mp hr
    split_ifs
    · obtain ⟨hearliest, hlatest⟩ := withRange_ne_nil d
      exact ⟨hname, hearliest, hlatest, htexts⟩
    · exact ht.dashboards old hold
  · obtain ⟨r, hr, hid⟩ := List.mem_map.mp (ht.references p hp)
    refine List.mem_map.mpr ⟨_, List.mem_map_of_mem hr, ?_⟩
    split_ifs
    · exact hid
    · exact hid

theorem Stored.deleteDashboard {id : Text} (ht : Stored f t)
    (h : deleteDashboard t tenantID id = .ok t') : Stored f t' := by
  obtain ⟨u, -, rfl⟩ := deleteDashboard_eq_ok h
  refine ⟨fun d hd => ht.dashboards d (List.mem_filter.mp hd).1,
    fun p hp => ht.panels p (List.mem_filter.mp hp).1, fun p hp => ?_⟩
  -- A panel stays with its dashboard, which has another id.
  obtain ⟨hp, hother⟩ := List.mem_filter.mp hp
  obtain ⟨d, hd, hid⟩ := List.mem_map.mp (ht.references p hp)
  refine List.mem_map.mpr ⟨d, List.mem_filter.mpr ⟨hd, ?_⟩, hid⟩
  apply decide_eq_true
  rintro ⟨hsame, -⟩
  exact of_decide_eq_true hother (hid.symm.trans hsame)

theorem Stored.addPanel {id : Text} {p' : Panel} (ht : Stored f t)
    (h : addPanel f env t tenantID id p = .ok (t', p')) : Stored f t' := by
  obtain ⟨q, u, row, hp, -, hrow, hinsert⟩ := addPanel_eq_ok h
  exact ht.insertPanel (storedPanel_of_panelRow hp hrow) hinsert

theorem Stored.updatePanel {p' : Panel} (ht : Stored f t)
    (h : updatePanel f env t tenantID p = .ok (t', p')) : Stored f t' := by
  obtain ⟨q, u, id, row, hp, hu, hrow, rfl⟩ := updatePanel_eq_ok h
  have hstored := storedPanel_of_panelRow hp hrow
  have hdashboard : row.dashboardID ∈ t.dashboardIDs := by
    rw [(panelRow_keys hrow).2]
    exact dashboardIDs_of_ownIDs (dashboardTenantMatches_eq_ok hu)
  apply ht.changePanels
  intro r hr
  obtain ⟨old, hold, rfl⟩ := List.mem_map.mp hr
  split_ifs
  -- All that the new row keeps of the old one is its time.
  · exact ⟨⟨hstored.query, hstored.queryLanguage, hstored.vizType, hstored.texts, hstored.ints,
      hstored.vizConfig⟩, hdashboard⟩
  · exact ⟨ht.panels old hold, ht.references old hold⟩

theorem Stored.deletePanel {id panelID : Text} (ht : Stored f t)
    (h : deletePanel t tenantID id panelID = .ok t') : Stored f t' := by
  obtain ⟨keep, rfl⟩ := deletePanel_eq_ok h
  apply ht.changePanels
  intro p hp
  have hold := (List.mem_filter.mp hp).1
  exact ⟨ht.panels p hold, ht.references p hold⟩

theorem Stored.importPanels {ps ps' : List Panel} (ht : Stored f t)
    (h : importPanels f env u k t ps = .ok (t', ps')) : Stored f t' := by
  induction ps generalizing k t ps' with
  | nil =>
    obtain ⟨rfl, -⟩ := Prod.mk.inj (Except.ok.inj h)
    exact ht
  | cons p ps ih =>
    obtain ⟨q, row, t₁, out, hp, hrow, hinsert, hrest⟩ := importPanels_cons_eq_ok h
    exact ih (ht.insertPanel (storedPanel_of_panelRow hp hrow) hinsert) hrest

theorem Stored.importDashboard (ht : Stored f t)
    (h : importDashboard f env t tenantID d = .ok (t', d')) (hname : d.name ≠ []) :
    Stored f t' := by
  obtain ⟨row, t₁, panels, hrow, hinsert, hpanels, -⟩ := importDashboard_eq_ok h
  have hstored := storedDashboard_of_dashboardRow hrow hname (withRange_ne_nil d)
  exact (ht.insertDashboard hstored hinsert).importPanels hpanels

theorem Stored.setPermission {d : Uuid} {userID grantedBy : Text} {role : Role} (ht : Stored f t)
    (h : setPermission env t d userID role grantedBy = .ok t') : Stored f t' := by
  obtain ⟨u, g, -, -, rfl⟩ := setPermission_eq_ok h
  exact ⟨ht.dashboards, ht.panels, ht.references⟩

theorem Stored.revokePermission {d : Uuid} {userID : Text} (ht : Stored f t)
    (h : revokePermission t d userID = .ok t') : Stored f t' := by
  obtain ⟨u, -, rfl⟩ := revokePermission_eq_ok h
  exact ⟨ht.dashboards, ht.panels, ht.references⟩

end Rows

/-! ### Requests keep rows stored -/

section Requests
variable {h : Handler} {env : Env} {t t' : Tables} {identity : Option Identity} {r : Response}

theorem Stored.dispatch {req : Request} (ht : Stored h.formats t)
    (hok : dispatch h env t identity req = .ok (t', r)) : Stored h.formats t' := by
  cases dispatch_served hok with
  | read => exact ht
  | created hname hwrite => exact ht.createDashboard hwrite hname
  | imported hname hwrite => exact ht.importDashboard hwrite hname
  | updated hname hwrite => exact ht.updateDashboard hwrite hname
  | deleted hwrite => exact ht.deleteDashboard hwrite
  | panelAdded hwrite => exact ht.addPanel hwrite
  | panelUpdated hwrite => exact ht.updatePanel hwrite
  | panelDeleted hwrite => exact ht.deletePanel hwrite
  | granted hid hwrite => exact ht.setPermission hwrite
  | revoked hid hwrite => exact ht.revokePermission hwrite

theorem Stored.serve {req : Request} (ht : Stored h.formats t) :
    Stored h.formats (serve h env t req).1 := by
  unfold Dashboards.serve
  cases requireRole h.authorizer req.minRole with
  | unauthorized => exact ht
  | forbidden => exact ht
  | pass identity =>
    dsimp only
    cases hok : Dashboards.dispatch h env t identity req with
    | error response => exact ht
    | ok result => exact ht.dispatch hok

end Requests

/-- A request, and what the authorizer answers to it, if there is one. -/
structure Arrival where
  authorizer : Option (Option Identity)
  env : Env
  request : Request

def arrive (f : Formats) (permissions : Bool) (t : Tables) (a : Arrival) : Tables × Response :=
  serve ⟨f, a.authorizer, permissions⟩ a.env t a.request

open ProjectedRuns in
/-- The rows that requests lead to, when there are none at first. -/
theorem stored_of_run {f : Formats} {permissions : Bool} (ht : Stored f t)
    (arrivals : List Arrival) :
    Stored f (final (arrive f permissions) t arrivals) := by
  induction arrivals generalizing t with
  | nil => exact ht
  | cons a arrivals ih => exact ih (ht.serve (h := ⟨f, a.authorizer, permissions⟩))

theorem stored_of_blank {f : Formats} (hdashboards : t.dashboards = []) (hpanels : t.panels = []) :
    Stored f t := by
  refine ⟨fun d hd => ?_, fun p hp => ?_, fun p hp => ?_⟩
  · rw [hdashboards] at hd
    cases hd
  · rw [hpanels] at hp
    cases hp
  · rw [hpanels] at hp
    cases hp

/-! ### Imports of stored rows -/

section Import
variable {f : Formats} {wire : Text → Text} {env : Env} {t : Tables} {u : Uuid}

/-- The row that the import of a panel makes. -/
def importedRow (env : Env) (u : Uuid) (k : ℕ) (p : PanelRow) : PanelRow :=
  { p with id := env.ids k, dashboardID := u, createdAt := env.now, updatedAt := env.now }

theorem validatePanel_sent {p : PanelRow} (hp : StoredPanel f p) (hwire : wire p.vizConfig ≠ []) :
    validatePanel f (p.toPanel.sent wire) = .ok (p.toPanel.sent wire) :=
  (if_neg hp.query).trans ((if_neg hp.queryLanguage).trans
    ((if_neg (not_not.mpr hp.vizType)).trans (if_neg hwire)))

theorem panelRow_sent {p : PanelRow} (hp : StoredPanel f p)
    (hjson : f.jsonb (wire p.vizConfig) = some p.vizConfig) :
    panelRow f (env.ids k) u env.now (p.toPanel.sent wire) = some (importedRow env u k p) := by
  have haccepted := Bool.and_eq_true_iff.mpr ⟨hp.texts, hp.ints⟩
  refine (if_pos haccepted).trans ?_
  show (f.jsonb (wire p.vizConfig)).map _ = _
  rw [hjson]
  rfl

/-- The panels go in behind the others, one after the other. -/
theorem importPanels_sent (hwire : KeepsJson f wire) {n : ℕ}
    (hdistinct : ∀ j < n, ∀ k < n, env.ids j = env.ids k → j = k) {ps : List PanelRow}
    (hps : ∀ p ∈ ps, StoredPanel f p) (hu : u ∈ t.dashboardIDs) (hk : k + ps.length ≤ n)
    (hnew : ∀ j, k ≤ j → j < n → env.ids j ∉ t.panelIDs) :
    ∃ rows out, importPanels f env u k t ((ps.map PanelRow.toPanel).map (Panel.sent wire)) =
        .ok ({ t with panels := t.panels ++ rows }, out) ∧
      rows.map PanelRow.content = ps.map PanelRow.content ∧
      ∀ row ∈ rows, row.dashboardID = u ∧ row.createdAt = env.now := by
  induction ps generalizing k t with
  | nil =>
    refine ⟨[], [], ?_, rfl, fun row hrow => by cases hrow⟩
    rw [List.append_nil]
    rfl
  | cons p ps ih =>
    have hp := hps p List.mem_cons_self
    obtain ⟨text, htext⟩ := hp.vizConfig
    obtain ⟨hfilled, hjson⟩ := hwire text _ htext
    rw [List.length_cons] at hk
    -- The id of this panel is new, and those of the others are new beside it.
    have hinsert : insertPanel t (importedRow env u k p) =
        some { t with panels := t.panels ++ [importedRow env u k p] } :=
      insertPanel_of_fresh (hnew k le_rfl (by omega)) hu
    have hnew' : ∀ j, k + 1 ≤ j → j < n →
        env.ids j ∉ Tables.panelIDs { t with panels := t.panels ++ [importedRow env u k p] } := by
      intro j hkj hj hmem
      obtain ⟨row, hrow, hid⟩ := List.mem_map.mp hmem
      rcases List.mem_append.mp hrow with hrow | hrow
      · exact hnew j (by omega) hj (List.mem_map.mpr ⟨row, hrow, hid⟩)
      · obtain rfl := List.mem_singleton.mp hrow
        have hsame := hdistinct k (by omega) j hj hid
        omega
    obtain ⟨rows, out, himport, hcontent, hrows⟩ :=
      ih (t := { t with panels := t.panels ++ [importedRow env u k p] })
        (fun q hq => hps q (List.mem_cons_of_mem p hq)) hu (k := k + 1) (by omega) hnew'
    refine ⟨importedRow env u k p :: rows, { p.toPanel.sent wire with
      id := uuidOut (env.ids k)
      dashboardID := uuidOut u
      createdAt := env.now
      updatedAt := env.now } :: out, ?_, congrArg (p.content :: ·) hcontent, ?_⟩
    · simp only [List.map_cons, importPanels, validatePanel_sent hp hfilled,
        panelRow_sent hp hjson, Option.bind_some, hinsert]
      rw [himport, List.append_assoc]
      rfl
    · intro row hrow
      rcases List.mem_cons.mp hrow with rfl | hrow
      · exact ⟨rfl, rfl⟩
      · exact hrows row hrow

/-- Someone who gets through to the import, of a tenant that exists. -/
structure MayImport (h : Handler) (t : Tables) (identity : Option Identity) : Prop where
  passes : requireRole h.authorizer .editor = .pass identity
  tenant : requestTenant identity ∈ t.tenants
  tenantText : nul ∉ requestTenant identity
  userText : nul ∉ createdBy identity

/-- The row that the import of a dashboard makes. -/
def copiedRow (env : Env) (identity : Option Identity) (d : DashboardRow) : DashboardRow :=
  { d with
    id := env.ids 0
    tenantID := requestTenant identity
    createdBy := orDefault "anonymous".toList (createdBy identity)
    createdAt := env.now
    updatedAt := env.now }

/-- The document of the import, before its panels. -/
def copiedDocument (env : Env) (identity : Option Identity) (d : Dashboard) : Dashboard :=
  { d.withRange with
    id := uuidOut (env.ids 0)
    tenantID := requestTenant identity
    createdBy := orDefault "anonymous".toList (createdBy identity)
    createdAt := env.now
    updatedAt := env.now
    panels := [] }

variable {h : Handler} {codec : Codec} {identity : Option Identity} {row : DashboardRow}
  {panels : List PanelRow}

theorem orDefault_of_ne_nil (h : text ≠ []) : orDefault default text = text :=
  if_neg h

theorem orDefault_accepted (hdefault : nul ∉ default) (htext : nul ∉ text) :
    nul ∉ orDefault default text := by
  unfold orDefault
  split_ifs
  · exact hdefault
  · exact htext

theorem dashboardRow_sent (himport : MayImport h t identity) (hrow : StoredDashboard row) :
    dashboardRow (env.ids 0) env.now (copiedDocument env identity (row.toDashboard panels)) =
      some (copiedRow env identity row) := by
  have hearliest : (row.toDashboard panels).withRange.defaultEarliest = row.defaultEarliest :=
    orDefault_of_ne_nil hrow.earliest
  have hlatest : (row.toDashboard panels).withRange.defaultLatest = row.defaultLatest :=
    orDefault_of_ne_nil hrow.latest
  have hcreator : nul ∉ orDefault "anonymous".toList (createdBy identity) :=
    orDefault_accepted (by decide) himport.userText
  have htexts : textsAccepted [requestTenant identity, row.name, row.description,
      row.defaultEarliest, row.defaultLatest,
      orDefault "anonymous".toList (createdBy identity)] = true := by
    have hstored := hrow.texts
    simp only [textsAccepted, List.all_cons, List.all_nil, Bool.and_eq_true, decide_eq_true_eq]
      at hstored ⊢
    obtain ⟨hname, hdescription, hearliest, hlatest, -⟩ := hstored
    exact ⟨himport.tenantText, hname, hdescription, hearliest, hlatest, hcreator, trivial⟩
  simp only [dashboardRow, copiedDocument, hearliest, hlatest]
  exact if_pos htexts

theorem insertDashboard_copy (himport : MayImport h t identity) (hid : env.ids 0 ∉ t.dashboardIDs) :
    insertDashboard t (copiedRow env identity row) =
      some { t with dashboards := t.dashboards ++ [copiedRow env identity row] } :=
  if_neg (not_or.mpr ⟨hid, not_not.mpr himport.tenant⟩)

/-- The import of an exported document adds a row for the dashboard and one for each panel. -/
theorem import_sent (hwire : KeepsJson h.formats codec.wire) (himport : MayImport h t identity)
    (hrow : StoredDashboard row) (hpanels : ∀ p ∈ panels, StoredPanel h.formats p)
    (hfresh : Fresh env (1 + panels.length) t) (hfits : codec.Fits (row.toDashboard panels)) :
    ∃ rows created,
      serve h env t (.importDashboard (codec.receive (row.toDashboard panels))) =
        ({ t with
          dashboards := t.dashboards ++ [copiedRow env identity row]
          panels := t.panels ++ rows }, ⟨201, .dashboard created⟩) ∧
      created.id = uuidOut (env.ids 0) ∧ rows.map PanelRow.content = panels.map PanelRow.content ∧
      ∀ p ∈ rows, p.dashboardID = env.ids 0 ∧ p.createdAt = env.now := by
  -- The first id is the dashboard's; the panels refer to it.
  have hinsert : (dashboardRow (env.ids 0) env.now
      (copiedDocument env identity (row.toDashboard panels))).bind (insertDashboard t) =
        some { t with dashboards := t.dashboards ++ [copiedRow env identity row] } := by
    rw [dashboardRow_sent himport hrow, Option.bind_some]
    exact insertDashboard_copy himport (hfresh.dashboards 0 (by omega))
  have hnew : env.ids 0 ∈ Tables.dashboardIDs
      { t with dashboards := t.dashboards ++ [copiedRow env identity row] } :=
    List.mem_map.mpr ⟨_, List.mem_append_right _ List.mem_cons_self, rfl⟩
  obtain ⟨rows, out, hrows, hcontent, hkeys⟩ := importPanels_sent hwire hfresh.distinct hpanels
    hnew (le_refl _) (fun j _ hj => hfresh.panels j hj)
  refine ⟨rows, { copiedDocument env identity (row.toDashboard panels) with panels := out },
    ?_, rfl, hcontent, hkeys⟩
  have hstore : importDashboard h.formats env t (requestTenant identity)
      { (row.toDashboard panels).sent codec.wire with createdBy := createdBy identity } =
        .ok ({ t with
          dashboards := t.dashboards ++ [copiedRow env identity row]
          panels := t.panels ++ rows },
          { copiedDocument env identity (row.toDashboard panels) with panels := out }) := by
    unfold importDashboard
    dsimp only
    split
    case h_1 t₁ heq =>
      obtain rfl := Option.some.inj (heq.symm.trans hinsert)
      exact bind_eq_ok.mpr ⟨_, hrows, rfl⟩
    case h_2 heq => cases heq.symm.trans hinsert
  -- The checks of the handler around the store.
  have hname : nameGiven ((row.toDashboard panels).sent codec.wire) = .ok () :=
    if_pos (decide_eq_true hrow.name)
  have hdispatch : handleImport h env t identity (.ok ((row.toDashboard panels).sent codec.wire)) =
      .ok (_, _) := bind_eq_ok.mpr ⟨_, rfl, bind_eq_ok.mpr ⟨_, hname,
        bind_eq_ok.mpr ⟨_, congrArg orBadRequest hstore, rfl⟩⟩⟩
  rw [receive_of_fits hfits]
  simp only [serve, Request.minRole, himport.passes, dispatch, hdispatch]

theorem dashboardKey_uuidOut {tenantID : Text} (h : nul ∉ tenantID) :
    dashboardKey tenantID (uuidOut u) = .ok u := by
  simp only [dashboardKey, uuidColumn_uuidOut, if_neg h]

theorem selectDashboard_copy (hid : env.ids 0 ∉ t.dashboardIDs) :
    selectDashboard { t with
      dashboards := t.dashboards ++ [copiedRow env identity row]
      panels := panels } (requestTenant identity) (env.ids 0) =
        some (copiedRow env identity row) := by
  have hold : t.dashboards.find? (fun d =>
      decide (d.id = env.ids 0 ∧ d.tenantID = requestTenant identity)) = none := by
    apply List.find?_eq_none.mpr
    intro d hd hfound
    exact hid (List.mem_map.mpr ⟨d, hd, (of_decide_eq_true hfound).1⟩)
  unfold selectDashboard
  rw [List.find?_append, hold, Option.none_or]
  exact List.find?_cons_of_pos (decide_eq_true ⟨rfl, rfl⟩)

/-- The new id has no panels but the imported ones. -/
theorem panelsOf_copy {dashboards : List DashboardRow} {rows : List PanelRow}
    (href : ∀ p ∈ t.panels, p.dashboardID ∈ t.dashboardIDs) (hu : u ∉ t.dashboardIDs)
    (hrows : ∀ p ∈ rows, p.dashboardID = u) :
    panelsOf { t with dashboards := dashboards, panels := t.panels ++ rows } u = rows := by
  have hold : t.panels.filter (fun p => decide (p.dashboardID = u)) = [] := by
    apply List.filter_eq_nil_iff.mpr
    intro p hp hfound
    exact hu (of_decide_eq_true hfound ▸ href p hp)
  unfold panelsOf
  rw [List.filter_append, hold, List.nil_append]
  exact List.filter_eq_self.mpr (fun p hp => decide_eq_true (hrows p hp))

theorem exports_iff {tenantID id : Text} (hkey : dashboardKey tenantID id = .ok u)
    (hrow : selectDashboard t tenantID u = some row) :
    Exports t tenantID id doc ↔
      ∃ out, Arranged panelOrder (panelsOf t u) out ∧ doc = row.toDashboard out := by
  constructor
  · rintro ⟨u', row', out, hkey', hrow', hout, rfl⟩
    obtain rfl := Except.ok.inj (hkey.symm.trans hkey')
    obtain rfl := Option.some.inj (hrow.symm.trans hrow')
    exact ⟨out, hout, rfl⟩
  · rintro ⟨out, hout, rfl⟩
    exact ⟨u, row, out, hkey, hrow, hout, rfl⟩

end Import

/-! ### Export and import -/

theorem content_toDashboard (row : DashboardRow) (out : List PanelRow) :
    (row.toDashboard out).panels.map Panel.content = out.map PanelRow.content := List.map_map

theorem sameContent_copy {env : Env} {out out' : List PanelRow} :
    SameContent (row.toDashboard out) ((copiedRow env identity row).toDashboard out') ↔
      out'.map PanelRow.content = out.map PanelRow.content := by
  rw [← content_toDashboard row out, ← content_toDashboard (copiedRow env identity row) out']
  exact ⟨fun h => h.panels, fun h => ⟨rfl, rfl, rfl, rfl, h⟩⟩

/-- Imported, what is exported becomes a dashboard whose exports have the same content. -/
def RoundTrips (h : Handler) (codec : Codec) (env : Env) (t : Tables) (identity : Option Identity)
    (tenantID id : Text) : Prop :=
  ∀ doc, Exports t tenantID id doc → ∃ t' created,
    serve h env t (.importDashboard (codec.receive doc)) = (t', ⟨201, .dashboard created⟩) ∧
    (∃ doc', Exports t' (requestTenant identity) created.id doc') ∧
    ∀ doc', Exports t' (requestTenant identity) created.id doc' → SameContent doc doc'

/-- Panels that tie in the order have the same content. -/
def TiesEqual (panels : List PanelRow) : Prop :=
  ∀ p ∈ panels, ∀ q ∈ panels, p.sortOrder = q.sortOrder → p.content = q.content

theorem fits_of_imported {h : Handler} {env : Env} {t' : Tables} {created : Dashboard}
    (himport : MayImport h t identity)
    (hserve : serve h env t (.importDashboard (codec.receive doc)) =
      (t', ⟨201, .dashboard created⟩)) : codec.Fits doc := by
  cases hreceive : codec.receive doc with
  | ok d => exact fits_of_receive hreceive
  | error e =>
    simp only [serve, Request.minRole, himport.passes, dispatch, hreceive] at hserve
    cases hserve

section RoundTrip
variable {h : Handler} {codec : Codec} {env : Env} {t : Tables} {identity : Option Identity}
  {u : Uuid} {tenantID id : Text} {row : DashboardRow} {out : List PanelRow}
  (ht : Stored h.formats t) (hwire : KeepsJson h.formats codec.wire)
  (hkey : dashboardKey tenantID id = .ok u) (hrow : selectDashboard t tenantID u = some row)
  (himport : MayImport h t identity) (hfresh : Fresh env (1 + (panelsOf t u).length) t)
  (hout : Arranged panelOrder (panelsOf t u) out)
include ht hwire hrow himport hfresh hout

/-- The import of an exported document, and the exports after it. -/
theorem exports_after_import (hfits : codec.Fits (row.toDashboard out)) :
    ∃ t' created rows,
      serve h env t (.importDashboard (codec.receive (row.toDashboard out))) =
        (t', ⟨201, .dashboard created⟩) ∧
      rows.map PanelRow.content = out.map PanelRow.content ∧
      (∀ p ∈ rows, p.createdAt = env.now) ∧
      ∀ doc', Exports t' (requestTenant identity) created.id doc' ↔
        ∃ out', Arranged panelOrder rows out' ∧
          doc' = (copiedRow env identity row).toDashboard out' := by
  have hstored : StoredDashboard row :=
    ht.dashboards row (List.mem_of_find?_eq_some hrow)
  have hpanels : ∀ p ∈ out, StoredPanel h.formats p := by
    intro p hp
    exact ht.panels p (List.mem_filter.mp (hout.perm.subset hp)).1
  rw [← hout.perm.length_eq] at hfresh
  obtain ⟨rows, created, hserve, hid, hcontent, hkeys⟩ :=
    import_sent hwire himport hstored hpanels hfresh hfits
  have hnew : env.ids 0 ∉ t.dashboardIDs := hfresh.dashboards 0 (by omega)
  refine ⟨_, created, rows, hserve, hcontent, fun p hp => (hkeys p hp).2, fun doc' => ?_⟩
  rw [hid, exports_iff (dashboardKey_uuidOut himport.tenantText) (selectDashboard_copy hnew),
    panelsOf_copy ht.references hnew (fun p hp => (hkeys p hp).1)]

theorem sameContent_of_tiesEqual (hfits : codec.Fits (row.toDashboard out))
    (hties : TiesEqual (panelsOf t u)) :
    ∃ t' created,
      serve h env t (.importDashboard (codec.receive (row.toDashboard out))) =
        (t', ⟨201, .dashboard created⟩) ∧
      (∃ doc', Exports t' (requestTenant identity) created.id doc') ∧
      ∀ doc', Exports t' (requestTenant identity) created.id doc' →
        SameContent (row.toDashboard out) doc' := by
  obtain ⟨t', created, rows, hserve, hcontent, -, hexports⟩ :=
    exports_after_import ht hwire hrow himport hfresh hout hfits
  refine ⟨t', created, hserve, ⟨_, (hexports _).mpr ⟨_, arranged_sortBy _ _, rfl⟩⟩, ?_⟩
  intro doc' hdoc'
  obtain ⟨out', hout', rfl⟩ := (hexports doc').mp hdoc'
  -- Two sorted lists of the same contents differ in the order of ties at most.
  have hperm : (out.map PanelRow.content).Perm (out'.map PanelRow.content) := by
    rw [← hcontent]
    exact (hout'.perm.map _).symm
  have hsorted : out.Pairwise (fun p q => p.content.sortOrder ≤ q.content.sortOrder) :=
    hout.sorted.imp le_of_keyLe
  have hsorted' : out'.Pairwise (fun p q => p.content.sortOrder ≤ q.content.sortOrder) :=
    hout'.sorted.imp le_of_keyLe
  have hsame := map_eq_of_ties hperm hsorted hsorted'
    (fun p hp q hq => hties p (hout.perm.subset hp) q (hout.perm.subset hq))
  exact sameContent_copy.mpr hsame.symm

omit hout in
include hkey in
theorem tiesEqual_of_roundTrips (h : RoundTrips h codec env t identity tenantID id) :
    TiesEqual (panelsOf t u) := by
  have hsorted := arranged_sortBy panelOrder (panelsOf t u)
  obtain ⟨t', created, hserve, -, hsame⟩ := h _ ((exports_iff hkey hrow).mpr ⟨_, hsorted, rfl⟩)
  obtain ⟨t'', created', rows, hserve', hcontent, hnow, hexports⟩ := exports_after_import ht hwire
    hrow himport hfresh hsorted (fits_of_imported himport hserve)
  cases hserve.symm.trans hserve'
  -- All panels of the copy have one time, so nothing but the sort order orders them.
  have horder : ∀ out',
      Arranged [(fun p => Panel.sortOrder (PanelRow.content p), false)] rows out' →
      out'.map PanelRow.content =
        (sortBy panelOrder (panelsOf t u)).map PanelRow.content := by
    intro out' hout'
    have hany : Arranged panelOrder rows out' :=
      hout'.of_same_second (fun p hp q hq => (hnow p hp).trans (hnow q hq).symm)
    exact sameContent_copy.mp (hsame _ ((hexports _).mpr ⟨out', hany, rfl⟩))
  have hcopy {p : PanelRow} (hp : p ∈ panelsOf t u) : ∃ p' ∈ rows, p'.content = p.content := by
    have hmem : p.content ∈ rows.map PanelRow.content := by
      rw [hcontent]
      exact List.mem_map_of_mem (hsorted.perm.symm.subset hp)
    exact List.mem_map.mp hmem
  intro p hp q hq hkeys
  obtain ⟨p', hp', hpp'⟩ := hcopy hp
  obtain ⟨q', hq', hqq'⟩ := hcopy hq
  have hkeys' : p'.content.sortOrder = q'.content.sortOrder := by
    rw [hpp', hqq']
    exact hkeys
  rw [← hpp', ← hqq']
  exact eq_of_same_order horder hp' hq' hkeys'

end RoundTrip

open ProjectedRuns in
/-- A dashboard comes through export and import exactly when the decoder takes its document and
panels with one sort order do not differ. -/
theorem export_import_iff {f : Formats} {permissions : Bool} {t₀ t : Tables}
    (hdashboards : t₀.dashboards = []) (hpanels : t₀.panels = []) {arrivals : List Arrival}
    (hrun : final (arrive f permissions) t₀ arrivals = t) {codec : Codec}
    (hwire : KeepsJson f codec.wire) {tenantID id : Text} {u : Uuid} {row : DashboardRow}
    (hkey : dashboardKey tenantID id = .ok u) (hrow : selectDashboard t tenantID u = some row)
    {authorizer : Option (Option Identity)} {identity : Option Identity}
    (himport : MayImport ⟨f, authorizer, permissions⟩ t identity) {env : Env}
    (hfresh : Fresh env (1 + (panelsOf t u).length) t) :
    RoundTrips ⟨f, authorizer, permissions⟩ codec env t identity tenantID id ↔
      (∀ doc, Exports t tenantID id doc → codec.Fits doc) ∧ TiesEqual (panelsOf t u) := by
  have ht : Stored f t := hrun ▸ stored_of_run (stored_of_blank hdashboards hpanels) arrivals
  constructor
  · intro h
    refine ⟨fun doc hdoc => ?_, tiesEqual_of_roundTrips ht hwire hkey hrow himport hfresh h⟩
    obtain ⟨t', created, hserve, -⟩ := h doc hdoc
    exact fits_of_imported himport hserve
  · rintro ⟨hfits, hties⟩ doc hdoc
    obtain ⟨out, hout, rfl⟩ := (exports_iff hkey hrow).mp hdoc
    exact sameContent_of_tiesEqual ht hwire hrow himport hfresh hout (hfits _ hdoc) hties

/-! ### Two panels -/

section Example

def exportFormats : Formats :=
  ⟨id, fun text => if text = [] then none else some text, fun _ => [], fun _ => []⟩

def exportCodec : Codec := ⟨fun _ => 1000, fun _ => 4, id⟩

theorem exportCodec_keepsJson : KeepsJson exportFormats exportCodec.wire := by
  intro text value h
  have hvalue : value ≠ [] := by
    simp only [exportFormats] at h
    split_ifs at h with hempty
    obtain rfl := Option.some.inj h
    exact hempty
  exact ⟨hvalue, if_neg hvalue⟩

def titledPanel (title : Text) (sortOrder : ℤ) : Panel where
  id := []
  dashboardID := []
  title := title
  query := "service=api".toList
  queryLanguage := []
  vizType := "table".toList
  vizConfig := []
  positionX := 0
  positionY := 0
  width := 6
  height := 4
  earliestOverride := none
  latestOverride := none
  sortOrder := sortOrder
  createdAt := 0
  updatedAt := 0

/-- A request where there is no authorizer. -/
def openArrival (time : ℕ) (request : Request) : Arrival :=
  ⟨none, ⟨fun k => BitVec.ofNat 128 (100 * time + k), time⟩, request⟩

def emptyTables : Tables := ⟨[], ["default".toList], [], [], []⟩

/-- A dashboard, and then two panels. -/
def buildTwo (first second : ℤ) : List Arrival :=
  [openArrival 1 (.create (.ok newDashboard)),
    openArrival 2 (.addPanel (uuidOut 100) (.ok (titledPanel "errors".toList first))),
    openArrival 3 (.addPanel (uuidOut 100) (.ok (titledPanel "latency".toList second)))]

def builtTwo (first second : ℤ) : Tables :=
  ProjectedRuns.final (arrive exportFormats false) emptyTables (buildTwo first second)

theorem export_import_two :
    RoundTrips ⟨exportFormats, none, false⟩ exportCodec
      (openArrival 4 .list).env (builtTwo 0 1) none
      "default".toList (uuidOut 100) := by
  have hkey : dashboardKey "default".toList (uuidOut 100) = .ok 100 := by decide +kernel
  have hrun : ProjectedRuns.final (arrive exportFormats false) emptyTables (buildTwo 0 1) =
      builtTwo 0 1 := rfl
  have hsize : 1000 ≤ maxBodyBytes := by decide
  have hnesting : 4 ≤ maxNestingDepth := by decide
  refine (export_import_iff rfl rfl hrun exportCodec_keepsJson hkey rfl
    ⟨rfl, by decide +kernel, by decide, by decide⟩ ⟨?_, ?_, ?_⟩).mpr ⟨?_, ?_⟩
  -- the new ids
  · decide +kernel
  · decide +kernel
  · decide +kernel
  · exact fun doc _ => ⟨hsize, hnesting⟩
  · unfold TiesEqual
    decide +kernel

def tiedRow : DashboardRow :=
  ⟨100, "default".toList, "cpu".toList, [], "-1h".toList, "now".toList, "anonymous".toList, 1, 1⟩

/-- The panels in the order in which they were added. -/
def tiedDocument : Dashboard := tiedRow.toDashboard (builtTwo 0 0).panels

def importTied : Tables × Response :=
  serve ⟨exportFormats, none, false⟩ (openArrival 4 .list).env (builtTwo 0 0)
    (.importDashboard (exportCodec.receive tiedDocument))

def swappedDocument : Dashboard :=
  (copiedRow (openArrival 4 .list).env none tiedRow).toDashboard (panelsOf importTied.1 400).reverse

/-- Two panels with one sort order, which were added one after the other, come back the other way
round. -/
theorem export_import_swaps :
    Exports (builtTwo 0 0) "default".toList (uuidOut 100) tiedDocument ∧
      (∃ created, importTied.2 = ⟨201, .dashboard created⟩ ∧ created.id = uuidOut 400) ∧
      Exports importTied.1 "default".toList (uuidOut 400) swappedDocument ∧
      tiedDocument.panels.map Panel.title = ["errors".toList, "latency".toList] ∧
      swappedDocument.panels.map Panel.title = ["latency".toList, "errors".toList] := by
  have hsorted : Arranged panelOrder (panelsOf (builtTwo 0 0) 100) (builtTwo 0 0).panels :=
    ⟨by decide +kernel, by decide +kernel⟩
  have hswapped : Arranged panelOrder (panelsOf importTied.1 400)
      (panelsOf importTied.1 400).reverse := ⟨List.reverse_perm _, by decide +kernel⟩
  refine ⟨⟨100, tiedRow, _, ?_, ?_, hsorted, rfl⟩, ⟨_, rfl, ?_⟩,
    ⟨400, _, _, ?_, ?_, hswapped, rfl⟩, ?_, ?_⟩
  all_goals decide +kernel

end Example

end CairnObs.Dashboards
