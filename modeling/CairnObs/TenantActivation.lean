import CairnObs.RbacStore
import CairnObs.TenantProvision

/-! `enterprise-api -provision-tenant`: a tenant's rows, its database user and its status, over
runs that stop anywhere and are started again. -/
namespace CairnObs.TenantProvision

open GoText Attempts ClickHouse GuardedRuns RbacStore

structure World where
  db : DB
  clickhouse : Server

/-- What becomes of the steps of a run. A read answers or fails. -/
structure Run where
  displayName : Text
  getTenant : Bool
  createTenant : Outcome
  getDataSource : Bool
  createDataSource : Outcome
  fate : Fate
  persist : Outcome
  setStatus : Outcome

/-- A step that writes to Postgres. -/
def inDB (f : DB → Option DB) (w : World) : Option World :=
  (f w.db).map (fun db => ⟨db, w.clickhouse⟩)

/-- The name of the tenant row, the id by default. -/
def tenantName (r : Run) (tenantID : Text) : Text :=
  if r.displayName = [] then tenantID else r.displayName

def ensureTenant (r : Run) (tenantID : Text) (w : World) : World × Option Tenant :=
  if !r.getTenant then (w, none)
  else
    match getTenant w.db tenantID with
    | some tenant => (w, some tenant)
    | none =>
      match attempt r.createTenant
          (inDB (fun db => createTenant db tenantID (tenantName r tenantID))) w with
      | (w, true) => (w, some newTenant)
      | (w, false) => (w, none)

def ensureDataSource (r : Run) (tenantID : Text) (alreadyActive : Bool) (w : World) :
    World × Option DataSource :=
  if !r.getDataSource then (w, none)
  else
    match getDataSourceForTenant w.db tenantID with
    | some ds => (w, some ds)
    | none =>
      if alreadyActive then (w, none)
      else
        match attempt r.createDataSource (inDB (fun db => createDataSource db tenantID)) w with
        | (w, true) => (w, some ⟨tenantID, none, none⟩)
        | (w, false) => (w, none)

/-- From the provisioning of ClickHouse on. -/
def activate (r : Run) (tenantID : Text) (w : World) : World × Bool :=
  match provisionClickHouse r.fate tenantID w.clickhouse with
  | (s, none) => (⟨w.db, s⟩, false)
  | (s, some creds) =>
    attempts
      [(r.persist, inDB (fun db =>
          setDataSourceClickHouseCredentials db tenantID creds.username creds.password)),
        (r.setStatus, inDB (fun db => setTenantStatus db tenantID .active))] ⟨w.db, s⟩

/-- `runProvisionTenant` without the custom resource: the state it leaves, and whether it exits
with 0. -/
def runProvisionTenant (r : Run) (tenantID : Text) (w : World) : World × Bool :=
  match ensureTenant r tenantID w with
  | (w, none) => (w, false)
  | (w, some tenant) =>
    let alreadyActive := decide (tenant.status = .active)
    match ensureDataSource r tenantID alreadyActive w with
    | (w, none) => (w, false)
    | (w, some ds) =>
      if alreadyActive then (w, ds.clickhouseUsername.isSome && ds.clickhousePassword.isSome)
      else if ds.clickhouseUsername.isSome then (w, false)
      else activate r tenantID w

/-! ### The invariant -/

/-- What the rows of the tenant say is so on the server. -/
structure ActivationInv (tenantID : Text) (w : World) : Prop where
  grantsHeld : w.clickhouse.GrantsHeld
  credentials : ∀ ds, getDataSourceForTenant w.db tenantID = some ds →
    ds.clickhouseUsername = none ∨
      ∃ password, ds.clickhouseUsername = some (username tenantID) ∧
        ds.clickhousePassword = some password ∧
        Provisioned w.clickhouse (username tenantID) password tenantID
  active : tenantIsActive w.db tenantID = true →
    ∃ ds, getDataSourceForTenant w.db tenantID = some ds ∧ ds.clickhouseUsername.isSome = true

variable {w' : World} {ds : DataSource}

section Steps
variable {tenantID : Text} {r : Run} {w : World}

theorem inDB_eq_some {f : DB → Option DB} (h : inDB f w = some w') :
    ∃ db, f w.db = some db ∧ w' = ⟨db, w.clickhouse⟩ := by
  obtain ⟨db, hdb, rfl⟩ := Option.map_eq_some_iff.mp h
  exact ⟨db, hdb, rfl⟩

/-- The invariant is about the server, the row of the data source and the status. -/
theorem ActivationInv.congr (hw : ActivationInv tenantID w) (hserver : w'.clickhouse = w.clickhouse)
    (hds : getDataSourceForTenant w'.db tenantID = getDataSourceForTenant w.db tenantID)
    (hactive : tenantIsActive w'.db tenantID = tenantIsActive w.db tenantID) :
    ActivationInv tenantID w' := by
  refine ⟨?_, ?_, ?_⟩
  · rw [hserver]
    exact hw.grantsHeld
  · rw [hds, hserver]
    exact hw.credentials
  · rw [hds, hactive]
    exact hw.active

theorem tenantIsActive_created {db db' : DB} {name : Text}
    (h : createTenant db tenantID name = some db') : tenantIsActive db' tenantID = false := by
  obtain rfl := createTenant_eq_some h
  simp [tenantIsActive, getTenant, newTenant, AList.lookup_insert]

theorem ensureTenant_spec (r : Run) (tenantID : Text) (w : World) :
    (ensureTenant r tenantID w).1.clickhouse = w.clickhouse ∧
      (ensureTenant r tenantID w).1.db.dataSources = w.db.dataSources ∧
      tenantIsActive (ensureTenant r tenantID w).1.db tenantID = tenantIsActive w.db tenantID ∧
      ∀ tenant, (ensureTenant r tenantID w).2 = some tenant →
        decide (tenant.status = .active) = tenantIsActive w.db tenantID := by
  unfold ensureTenant
  split_ifs
  · exact ⟨rfl, rfl, rfl, nofun⟩
  · generalize tenantName r tenantID = name
    cases htenant : getTenant w.db tenantID with
    | some tenant =>
      refine ⟨rfl, rfl, rfl, fun tenant' h => ?_⟩
      cases h
      simp [tenantIsActive, htenant]
    | none =>
      have hinactive : tenantIsActive w.db tenantID = false := by simp [tenantIsActive, htenant]
      rw [hinactive]
      dsimp only
      have hcases := attempt_cases r.createTenant (inDB (fun db => createTenant db tenantID name)) w
      generalize attempt r.createTenant (inDB (fun db => createTenant db tenantID name)) w = x
        at hcases ⊢
      obtain ⟨w', b⟩ := x
      have hrows : w'.clickhouse = w.clickhouse ∧ w'.db.dataSources = w.db.dataSources ∧
          tenantIsActive w'.db tenantID = false := by
        rcases hcases with rfl | hcreated
        · exact ⟨rfl, rfl, hinactive⟩
        · obtain ⟨db, hdb, hw'⟩ := inDB_eq_some hcreated
          obtain rfl : w' = ⟨db, w.clickhouse⟩ := hw'
          refine ⟨rfl, ?_, tenantIsActive_created hdb⟩
          rw [createTenant_eq_some hdb]
      cases b with
      | false => exact ⟨hrows.1, hrows.2.1, hrows.2.2, nofun⟩
      | true =>
        refine ⟨hrows.1, hrows.2.1, hrows.2.2, fun tenant h => ?_⟩
        cases h
        rfl

theorem tenantIsActive_congr {db db' : DB} (h : db'.tenants = db.tenants) :
    tenantIsActive db' tenantID = tenantIsActive db tenantID := by
  rw [tenantIsActive, tenantIsActive, getTenant, getTenant, h]

theorem ensureDataSource_spec (r : Run) (tenantID : Text) (alreadyActive : Bool) (w : World) :
    (ensureDataSource r tenantID alreadyActive w).1.clickhouse = w.clickhouse ∧
      tenantIsActive (ensureDataSource r tenantID alreadyActive w).1.db tenantID =
        tenantIsActive w.db tenantID ∧
      (getDataSourceForTenant (ensureDataSource r tenantID alreadyActive w).1.db tenantID =
          getDataSourceForTenant w.db tenantID ∨
        alreadyActive = false ∧ getDataSourceForTenant w.db tenantID = none ∧
          getDataSourceForTenant (ensureDataSource r tenantID alreadyActive w).1.db tenantID =
            some ⟨tenantID, none, none⟩) ∧
      ∀ ds, (ensureDataSource r tenantID alreadyActive w).2 = some ds →
        getDataSourceForTenant (ensureDataSource r tenantID alreadyActive w).1.db tenantID =
          some ds := by
  unfold ensureDataSource
  by_cases hreads : (!r.getDataSource) = true
  · rw [if_pos hreads]
    exact ⟨rfl, rfl, .inl rfl, nofun⟩
  · rw [if_neg hreads]
    cases hds : getDataSourceForTenant w.db tenantID with
    | some ds =>
      refine ⟨rfl, rfl, .inl hds, fun ds' h => ?_⟩
      cases h
      exact hds
    | none =>
      cases alreadyActive with
      | true => exact ⟨rfl, rfl, .inl hds, nofun⟩
      | false =>
        have hcases := attempt_cases r.createDataSource
          (inDB (fun db => createDataSource db tenantID)) w
        have htaken := attempt_eq_true (o := r.createDataSource)
          (f := inDB (fun db => createDataSource db tenantID)) (s := w)
        rw [if_neg Bool.false_ne_true]
        generalize attempt r.createDataSource (inDB (fun db => createDataSource db tenantID)) w = x
          at hcases htaken ⊢
        obtain ⟨w', b⟩ := x
        have hcreated (h : inDB (fun db => createDataSource db tenantID) w = some w') :
            w'.clickhouse = w.clickhouse ∧
              tenantIsActive w'.db tenantID = tenantIsActive w.db tenantID ∧
              getDataSourceForTenant w'.db tenantID = some ⟨tenantID, none, none⟩ := by
          obtain ⟨db, hdb, hw'⟩ := inDB_eq_some h
          obtain ⟨hrow, htenants⟩ := getDataSourceForTenant_created hdb
          rw [hw']
          exact ⟨rfl, tenantIsActive_congr htenants, hrow⟩
        cases b with
        | false =>
          rcases hcases with hsame | htaken
          · obtain rfl : w' = w := hsame
            exact ⟨rfl, rfl, .inl hds, nofun⟩
          · obtain ⟨hserver, hactive, hrow⟩ := hcreated htaken
            exact ⟨hserver, hactive, .inr ⟨rfl, rfl, hrow⟩, nofun⟩
        | true =>
          obtain ⟨hserver, hactive, hrow⟩ := hcreated (htaken rfl)
          refine ⟨hserver, hactive, .inr ⟨rfl, rfl, hrow⟩, fun ds h => ?_⟩
          cases h
          exact hrow

/-- The credentials that were just returned are written to the row. -/
theorem persist_inv {s : Server} (hheld : s.GrantsHeld) {creds : Credentials}
    (hname : creds.username = username tenantID)
    (hprovisioned : Provisioned s (username tenantID) creds.password tenantID)
    (h : inDB (fun db => setDataSourceClickHouseCredentials db tenantID creds.username
      creds.password) ⟨w.db, s⟩ = some w') :
    ActivationInv tenantID w' ∧
      ∃ ds, getDataSourceForTenant w'.db tenantID = some ds ∧
        ds.clickhouseUsername.isSome = true := by
  obtain ⟨db, hdb, rfl⟩ := inDB_eq_some h
  obtain ⟨hrow, htenants⟩ := getDataSourceForTenant_set hdb
  refine ⟨⟨hheld, fun ds hds => .inr ?_, fun hactive => ?_⟩, _, hrow, rfl⟩
  · cases hrow.symm.trans hds
    exact ⟨creds.password, congrArg some hname, rfl, hprovisioned⟩
  · exact ⟨_, hrow, rfl⟩

theorem setStatus_inv (hw : ActivationInv tenantID w)
    (hds : getDataSourceForTenant w.db tenantID = some ds)
    (hsome : ds.clickhouseUsername.isSome = true)
    (h : inDB (fun db => setTenantStatus db tenantID .active) w = some w') :
    ActivationInv tenantID w' := by
  obtain ⟨db, hdb, rfl⟩ := inDB_eq_some h
  obtain ⟨t, -, rfl⟩ := setTenantStatus_eq_some hdb
  exact ⟨hw.grantsHeld, hw.credentials, fun _ => ⟨ds, hds, hsome⟩⟩

/-- From a data source without credentials. -/
theorem activate_inv (hw : ActivationInv tenantID w)
    (hds : getDataSourceForTenant w.db tenantID = some ds) (hnone : ds.clickhouseUsername = none)
    (hinactive : tenantIsActive w.db tenantID = false) :
    ActivationInv tenantID (activate r tenantID w).1 := by
  unfold activate
  have hheld : (provisionClickHouse r.fate tenantID w.clickhouse).1.GrantsHeld :=
    provisionClickHouse_grantsHeld hw.grantsHeld
  have hreturned (creds : Credentials)
      (h : (provisionClickHouse r.fate tenantID w.clickhouse).2 = some creds) :=
    provisioned_of_some hw.grantsHeld h
  generalize provisionClickHouse r.fate tenantID w.clickhouse = x at hheld hreturned ⊢
  obtain ⟨s, returned⟩ := x
  have hstart : ActivationInv tenantID ⟨w.db, s⟩ := by
    refine ⟨hheld, fun ds' hds' => .inl ?_, fun hactive => ?_⟩
    · rw [Option.some.inj (hds'.symm.trans hds), hnone]
    · cases hinactive.symm.trans hactive
  cases returned with
  | none => exact hstart
  | some creds =>
    obtain ⟨-, hname, hprovisioned⟩ := hreturned creds rfl
    have hpersist (w' : World) := @persist_inv w' tenantID w s hheld creds hname hprovisioned
    dsimp only
    rw [attempts_cons]
    have hfirst := attempt_preserves (o := r.persist) hstart (fun w' h => (hpersist w' h).1)
    split_ifs with hpersisted
    · obtain ⟨-, ds', hds', hsome⟩ := hpersist _ (attempt_eq_true hpersisted)
      rw [attempts_cons]
      have hsecond := attempt_preserves (o := r.setStatus) hfirst
        (fun _ h => setStatus_inv hfirst hds' hsome h)
      split_ifs
      · exact hsecond
      · exact hsecond
    · exact hfirst

/-- A run either stops with rows that say the same as before, or it goes on from a data source
without credentials. -/
theorem runProvisionTenant_cases (r : Run) (tenantID : Text) (w : World) :
    ((runProvisionTenant r tenantID w).1.clickhouse = w.clickhouse ∧
      tenantIsActive (runProvisionTenant r tenantID w).1.db tenantID =
        tenantIsActive w.db tenantID ∧
      (getDataSourceForTenant (runProvisionTenant r tenantID w).1.db tenantID =
          getDataSourceForTenant w.db tenantID ∨
        tenantIsActive w.db tenantID = false ∧ getDataSourceForTenant w.db tenantID = none ∧
          getDataSourceForTenant (runProvisionTenant r tenantID w).1.db tenantID =
            some ⟨tenantID, none, none⟩)) ∨
    ∃ w' ds, runProvisionTenant r tenantID w = activate r tenantID w' ∧
      w'.clickhouse = w.clickhouse ∧ tenantIsActive w.db tenantID = false ∧
      tenantIsActive w'.db tenantID = false ∧
      (getDataSourceForTenant w'.db tenantID = getDataSourceForTenant w.db tenantID ∨
        getDataSourceForTenant w.db tenantID = none) ∧
      getDataSourceForTenant w'.db tenantID = some ds ∧ ds.clickhouseUsername = none := by
  obtain ⟨hserver, hsources, hactive, htenant⟩ := ensureTenant_spec r tenantID w
  unfold runProvisionTenant
  generalize ensureTenant r tenantID w = x at hserver hsources hactive htenant ⊢
  obtain ⟨w₁, tenant?⟩ := x
  have hds₁ : getDataSourceForTenant w₁.db tenantID = getDataSourceForTenant w.db tenantID :=
    congrArg (List.find? _) hsources
  cases tenant? with
  | none => exact .inl ⟨hserver, hactive, .inl hds₁⟩
  | some tenant =>
    dsimp only
    rw [htenant tenant rfl]
    obtain ⟨hserver₂, hactive₂, hrow, hds⟩ :=
      ensureDataSource_spec r tenantID (tenantIsActive w.db tenantID) w₁
    generalize ensureDataSource r tenantID (tenantIsActive w.db tenantID) w₁ = x
      at hserver₂ hactive₂ hrow hds ⊢
    obtain ⟨w₂, ds?⟩ := x
    have hstops : w₂.clickhouse = w.clickhouse ∧
        tenantIsActive w₂.db tenantID = tenantIsActive w.db tenantID ∧
        (getDataSourceForTenant w₂.db tenantID = getDataSourceForTenant w.db tenantID ∨
          tenantIsActive w.db tenantID = false ∧ getDataSourceForTenant w.db tenantID = none ∧
            getDataSourceForTenant w₂.db tenantID = some ⟨tenantID, none, none⟩) := by
      rw [hds₁] at hrow
      exact ⟨hserver₂.trans hserver, hactive₂.trans hactive, hrow⟩
    cases ds? with
    | none => exact .inl hstops
    | some ds =>
      dsimp only
      split_ifs with halready husername
      · exact .inl hstops
      · exact .inl hstops
      · refine .inr ⟨w₂, ds, rfl, hstops.1, Bool.eq_false_of_not_eq_true halready, ?_, ?_,
          hds ds rfl, Option.not_isSome_iff_eq_none.mp husername⟩
        · rw [hstops.2.1]
          exact Bool.eq_false_of_not_eq_true halready
        · exact hstops.2.2.imp id (fun h => h.2.1)

theorem runProvisionTenant_inv (hw : ActivationInv tenantID w) :
    ActivationInv tenantID (runProvisionTenant r tenantID w).1 := by
  rcases runProvisionTenant_cases r tenantID w with ⟨hserver, hactive, hrow⟩ | hactivates
  · rcases hrow with hsame | ⟨hinactive, -, hnew⟩
    · exact hw.congr hserver hsame hactive
    · refine ⟨hserver ▸ hw.grantsHeld, fun ds hds => .inl ?_, fun h => ?_⟩
      · cases hnew.symm.trans hds
        rfl
      · cases hinactive.symm.trans (hactive.symm.trans h)
  · obtain ⟨w', ds, hrun, hserver, -, hinactive, -, hds, hnone⟩ := hactivates
    rw [hrun]
    have hw' : ActivationInv tenantID w' := by
      refine ⟨hserver ▸ hw.grantsHeld, fun ds' hds' => .inl ?_, fun h => ?_⟩
      · cases hds.symm.trans hds'
        exact hnone
      · cases hinactive.symm.trans h
    exact activate_inv hw' hds hnone hinactive

/-- Once the credentials are there, a run does not change the status. -/
theorem runProvisionTenant_of_persisted (hds : getDataSourceForTenant w.db tenantID = some ds)
    (hsome : ds.clickhouseUsername.isSome = true) :
    tenantIsActive (runProvisionTenant r tenantID w).1.db tenantID =
      tenantIsActive w.db tenantID := by
  rcases runProvisionTenant_cases r tenantID w with hstops | hactivates
  · exact hstops.2.1
  · obtain ⟨w', ds', -, -, -, -, hrow, hds', hnone⟩ := hactivates
    rcases hrow with hsame | hmissing
    · cases hds.symm.trans (hsame.symm.trans hds')
      rw [hnone] at hsome
      cases hsome
    · cases hds.symm.trans hmissing

end Steps

/-! ### Any number of runs -/

def provisionStep (tenantID : Text) (w : World) (r : Run) : Option World :=
  some (runProvisionTenant r tenantID w).1

/-- No step fails. -/
def Run.smooth (r : Run) : Prop :=
  r.getTenant = true ∧ r.createTenant = .done ∧ r.getDataSource = true ∧
    r.createDataSource = .done ∧ r.fate.createDatabase = .done ∧ r.fate.buf.isSome = true ∧
    r.fate.createUser = .done ∧ r.fate.grant = .done ∧ r.fate.revoke = .done ∧
    r.persist = .done ∧ r.setStatus = .done

def credentialsPersisted (w : World) (tenantID : Text) : Bool :=
  match getDataSourceForTenant w.db tenantID with
  | some ds => ds.clickhouseUsername.isSome
  | none => false

/-- An active tenant is provisioned, and one whose credentials are there can be resumed. -/
structure ActiveAndResumable (tenantID : Text) (w : World) : Prop where
  active : tenantIsActive w.db tenantID = true →
    ∃ ds user password, getDataSourceForTenant w.db tenantID = some ds ∧
      ds.clickhouseUsername = some user ∧ ds.clickhousePassword = some password ∧
      w.clickhouse.users.lookup user = some password ∧
      (user, .select, tenantID) ∈ w.clickhouse.grants ∧
      (user, .insert, tenantID) ∈ w.clickhouse.grants ∧
      (user, .select, system) ∉ w.clickhouse.grants
  resumable : credentialsPersisted w tenantID = true → ∀ r : Run, r.smooth →
    tenantIsActive (runProvisionTenant r tenantID w).1.db tenantID = true

theorem credentialsPersisted_iff {w : World} {tenantID : Text} :
    credentialsPersisted w tenantID = true ↔
      ∃ ds, getDataSourceForTenant w.db tenantID = some ds ∧
        ds.clickhouseUsername.isSome = true := by
  unfold credentialsPersisted
  cases getDataSourceForTenant w.db tenantID with
  | none => simp
  | some ds => simp

/-- A run in which nothing fails. -/
def smoothRun : Run where
  displayName := []
  getTenant := true
  createTenant := .done
  getDataSource := true
  createDataSource := .done
  fate := smooth
  persist := .done
  setStatus := .done

theorem smoothRun_smooth : smoothRun.smooth := by
  refine ⟨rfl, rfl, rfl, rfl, rfl, rfl, rfl, rfl, rfl, rfl, rfl⟩

theorem active_and_resumable_iff {tenantID : Text} {w₀ w : World}
    (htenant : tenantID ∉ w₀.db.tenants)
    (hsource : getDataSourceForTenant w₀.db tenantID = none) (hheld : w₀.clickhouse.GrantsHeld)
    {rs : List Run} (hrun : run (provisionStep tenantID) w₀ rs = some w) :
    ActiveAndResumable tenantID w ↔
      (credentialsPersisted w tenantID = true →
        tenantIsActive w.db tenantID = true ∧ tenantID ≠ system) := by
  have hstart : ActivationInv tenantID w₀ := by
    refine ⟨hheld, fun ds hds => ?_, fun hactive => ?_⟩
    · cases hsource.symm.trans hds
    · rw [tenantIsActive, getTenant, AList.lookup_eq_none.mpr htenant] at hactive
      cases hactive
  have hinv : ActivationInv tenantID w := by
    refine run_invariant (fun w r w' hw h => ?_) hstart hrun
    obtain rfl := Option.some.inj h
    exact runProvisionTenant_inv hw
  constructor
  · intro h hpersisted
    obtain ⟨ds, hds, hsome⟩ := credentialsPersisted_iff.mp hpersisted
    have hend := h.resumable hpersisted smoothRun smoothRun_smooth
    rw [runProvisionTenant_of_persisted hds hsome] at hend
    refine ⟨hend, fun hname => ?_⟩
    -- the revocation has taken the tenant's own SELECT
    obtain ⟨-, user, -, -, -, -, -, hselect, -, hrevoked⟩ := h.active hend
    exact hrevoked (hname ▸ hselect)
  · intro hcondition
    refine ⟨fun hactive => ?_, fun hpersisted r _ => ?_⟩
    · obtain ⟨ds, hds, hsome⟩ := hinv.active hactive
      have hne := (hcondition (credentialsPersisted_iff.mpr ⟨ds, hds, hsome⟩)).2
      rcases hinv.credentials ds hds with hnone | ⟨password, huser, hpassword, hprovisioned⟩
      · rw [hnone] at hsome
        cases hsome
      · have hgrants := hprovisioned.grants
        refine ⟨ds, username tenantID, password, hds, huser, hpassword, hprovisioned.lookup,
          (hgrants _ _).mpr ⟨rfl, fun h => hne h.2⟩, (hgrants _ _).mpr ⟨rfl, nofun⟩, ?_⟩
        exact fun hmem => ((hgrants _ _).mp hmem).2 ⟨rfl, rfl⟩
    · obtain ⟨ds, hds, hsome⟩ := credentialsPersisted_iff.mp hpersisted
      rw [runProvisionTenant_of_persisted hds hsome]
      exact (hcondition hpersisted).1

def emptyWorld : World := ⟨⟨[], ∅, ∅, []⟩, freshServer⟩

/-- The first run is cut off after `CREATE DATABASE`. -/
theorem acme_active_and_resumable :
    ∃ w, run (provisionStep "acme".toList) emptyWorld
        [{ smoothRun with fate := { smooth with createDatabase := .lost } }, smoothRun] = some w ∧
      tenantIsActive w.db "acme".toList = true ∧ ActiveAndResumable "acme".toList w := by
  have hrun : ∃ w, run (provisionStep "acme".toList) emptyWorld
      [{ smoothRun with fate := { smooth with createDatabase := .lost } }, smoothRun] = some w ∧
      tenantIsActive w.db "acme".toList = true := ⟨_, rfl, by decide +kernel⟩
  obtain ⟨w, hrun, hactive⟩ := hrun
  refine ⟨w, hrun, hactive, (active_and_resumable_iff ?_ rfl ?_ hrun).mpr ?_⟩
  · decide +kernel
  · exact fun g hg => absurd hg List.not_mem_nil
  · exact fun _ => ⟨hactive, by decide⟩

/-- A run that is cut off before the status is set: no later run sets it. -/
theorem acme_stuck :
    ∃ w, run (provisionStep "acme".toList) emptyWorld
        [{ smoothRun with setStatus := .refused }] = some w ∧
      credentialsPersisted w "acme".toList = true ∧
      tenantIsActive (runProvisionTenant smoothRun "acme".toList w).1.db "acme".toList = false :=
  ⟨_, rfl, by decide +kernel, by decide +kernel⟩

end CairnObs.TenantProvision
