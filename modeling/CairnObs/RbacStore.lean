import CairnObs.Authz
import CairnObs.PgColumns
import Mathlib.Data.List.AList

/-! `enterprise/internal/rbacstore`: tenants, memberships and data sources. A call that the
database refuses, or that affects no row where one is expected, answers `none`. -/
namespace CairnObs.RbacStore

open GoText PgColumns Authz

/-! ### The tables -/

inductive Status
  | provisioning
  | active
  | suspended
  | deprovisioning
  deriving DecidableEq, Repr

structure Tenant where
  status : Status
  ownerUserID : Option Uuid
  deriving DecidableEq

structure DataSource where
  tenantID : Text
  clickhouseUsername : Option Text
  clickhousePassword : Option Text
  deriving DecidableEq

/-- `users` holds the ids that the other tables may reference. -/
structure DB where
  users : List Uuid
  tenants : AList (fun _ : Text => Tenant)
  members : AList (fun _ : Text × Uuid => Role)
  dataSources : List DataSource

/-- The CHECK on `tenant_memberships.role`. -/
def roleAllowed : Role → Bool
  | .viewer | .editor | .admin | .owner => true
  | _ => false

/-! ### The store -/

def getTenant (db : DB) (id : Text) : Option Tenant := db.tenants.lookup id

/-- `Tenant.OwnerUserID`, empty for NULL. -/
def ownerText (t : Tenant) : Text :=
  match t.ownerUserID with
  | some u => uuidOut u
  | none => []

def tenantIsActive (db : DB) (id : Text) : Bool :=
  match getTenant db id with
  | some t => decide (t.status = .active)
  | none => false

def setTenantStatus (db : DB) (id : Text) (status : Status) : Option DB := do
  let t ← getTenant db id
  some { db with tenants := db.tenants.insert id { t with status := status } }

def setOwner (db : DB) (tenantID userID : Text) : Option DB := do
  let u ← uuidColumn userID
  let t ← getTenant db tenantID
  if u ∈ db.users then
    some { db with tenants := db.tenants.insert tenantID { t with ownerUserID := some u } }
  else none

def setMembership (db : DB) (tenantID userID : Text) (role : Role) : Option DB := do
  let u ← uuidColumn userID
  if tenantID ∈ db.tenants ∧ u ∈ db.users ∧ roleAllowed role then
    some { db with members := db.members.insert (tenantID, u) role }
  else none

/-- The transaction of `TransferOwner`. `owner` is what its `GetTenant` has read. -/
def transferOwnerTx (db : DB) (tenantID owner newOwnerUserID : Text) (downgradeRole : Role) :
    Option DB := do
  let db ← setMembership db tenantID owner downgradeRole
  let db ← setMembership db tenantID newOwnerUserID .owner
  setOwner db tenantID newOwnerUserID

/-- The DELETE of `RevokeMembership`. -/
def deleteMembership (db : DB) (tenantID userID : Text) : Option DB := do
  let u ← uuidColumn userID
  if (tenantID, u) ∈ db.members then
    some { db with members := db.members.erase (tenantID, u) }
  else none

/-- The rows of the user, whose order (by tenant) nothing depends on: a tenant has one at most. -/
def listMembershipsForUser (db : DB) (userID : Text) : Option (List (Text × Role)) :=
  (uuidColumn userID).map (fun u =>
    db.members.entries.filterMap (fun e => if e.1.2 = u then some (e.1.1, e.2) else none))

def listProvisionedDataSources (db : DB) : List DataSource :=
  db.dataSources.filter (fun ds =>
    tenantIsActive db ds.tenantID && ds.clickhouseUsername.isSome && ds.clickhousePassword.isSome)

def newTenant : Tenant := ⟨.provisioning, none⟩

def createTenant (db : DB) (id displayName : Text) : Option DB :=
  if id = [] ∨ displayName = [] ∨ nul ∈ id ∨ nul ∈ displayName ∨ id ∈ db.tenants then none
  else some { db with tenants := db.tenants.insert id newTenant }

def getDataSourceForTenant (db : DB) (tenantID : Text) : Option DataSource :=
  db.dataSources.find? (fun ds => decide (ds.tenantID = tenantID))

/-- Every row has the name `default`, so a tenant has one at most. -/
def createDataSource (db : DB) (tenantID : Text) : Option DB :=
  if tenantID ∈ db.tenants ∧ getDataSourceForTenant db tenantID = none then
    some { db with dataSources := db.dataSources ++ [⟨tenantID, none, none⟩] }
  else none

/-- The UPDATE of the row that was read for the tenant, its only one. -/
def setDataSourceClickHouseCredentials (db : DB) (tenantID username password : Text) : Option DB :=
  if getDataSourceForTenant db tenantID = none then none
  else some { db with
    dataSources := db.dataSources.map (fun ds =>
      if ds.tenantID = tenantID then ⟨tenantID, some username, some password⟩ else ds) }

/-! ### What the calls write -/

variable {db db' : DB} {tenantID : Text}

theorem createTenant_eq_some {id displayName : Text}
    (h : createTenant db id displayName = some db') :
    db' = { db with tenants := db.tenants.insert id newTenant } := by
  unfold createTenant at h
  split_ifs at h
  exact (Option.some.inj h).symm

theorem getDataSourceForTenant_created (h : createDataSource db tenantID = some db') :
    getDataSourceForTenant db' tenantID = some ⟨tenantID, none, none⟩ ∧
      db'.tenants = db.tenants := by
  unfold createDataSource at h
  split_ifs at h with hnew
  cases h
  refine ⟨?_, rfl⟩
  have hnone : db.dataSources.find? (fun ds => decide (ds.tenantID = tenantID)) = none := hnew.2
  simp [getDataSourceForTenant, List.find?_append, hnone]

theorem getDataSourceForTenant_set {username password : Text}
    (h : setDataSourceClickHouseCredentials db tenantID username password = some db') :
    getDataSourceForTenant db' tenantID = some ⟨tenantID, some username, some password⟩ ∧
      db'.tenants = db.tenants := by
  unfold setDataSourceClickHouseCredentials at h
  split_ifs at h with hsome
  cases h
  refine ⟨?_, rfl⟩
  obtain ⟨ds, hds⟩ := Option.ne_none_iff_exists'.mp hsome
  have htenant : ds.tenantID = tenantID := by simpa using List.find?_some hds
  rw [getDataSourceForTenant, List.find?_map]
  have hsame : (fun ds : DataSource => decide (ds.tenantID = tenantID)) ∘ (fun ds =>
      if ds.tenantID = tenantID then ⟨tenantID, some username, some password⟩ else ds) =
      fun ds => decide (ds.tenantID = tenantID) := by
    funext ds
    by_cases h : ds.tenantID = tenantID
    · simp [h]
    · simp [h]
  rw [hsame]
  rw [getDataSourceForTenant] at hds
  rw [hds, Option.map_some, if_pos htenant]

theorem setTenantStatus_eq_some {id : Text} {status : Status}
    (h : setTenantStatus db id status = some db') :
    ∃ t, getTenant db id = some t ∧
      db' = { db with tenants := db.tenants.insert id { t with status := status } } := by
  obtain ⟨t, ht, h⟩ := Option.bind_eq_some_iff.mp h
  exact ⟨t, ht, (Option.some.inj h).symm⟩

theorem setMembership_eq_some {userID : Text} {role : Role}
    (h : setMembership db tenantID userID role = some db') :
    ∃ u, uuidColumn userID = some u ∧
      db' = { db with members := db.members.insert (tenantID, u) role } := by
  obtain ⟨u, hu, h⟩ := Option.bind_eq_some_iff.mp h
  split_ifs at h
  exact ⟨u, hu, (Option.some.inj h).symm⟩

theorem setOwner_eq_some {userID : Text} (h : setOwner db tenantID userID = some db') :
    ∃ u t, uuidColumn userID = some u ∧ getTenant db tenantID = some t ∧
      db' = { db with
        tenants := db.tenants.insert tenantID { t with ownerUserID := some u } } := by
  obtain ⟨u, hu, h⟩ := Option.bind_eq_some_iff.mp h
  obtain ⟨t, ht, h⟩ := Option.bind_eq_some_iff.mp h
  split_ifs at h
  exact ⟨u, t, hu, ht, (Option.some.inj h).symm⟩

theorem deleteMembership_eq_some {userID : Text}
    (h : deleteMembership db tenantID userID = some db') :
    ∃ u, uuidColumn userID = some u ∧
      db' = { db with members := db.members.erase (tenantID, u) } := by
  obtain ⟨u, hu, h⟩ := Option.bind_eq_some_iff.mp h
  split_ifs at h
  exact ⟨u, hu, (Option.some.inj h).symm⟩

/-- The three statements of a transfer, as one write. -/
theorem transferOwnerTx_eq_some {owner newOwnerUserID : Text} {downgradeRole : Role}
    (h : transferOwnerTx db tenantID owner newOwnerUserID downgradeRole = some db') :
    ∃ u v t, uuidColumn owner = some u ∧ uuidColumn newOwnerUserID = some v ∧
      getTenant db tenantID = some t ∧
      db' = { db with
        members := (db.members.insert (tenantID, u) downgradeRole).insert (tenantID, v) .owner
        tenants := db.tenants.insert tenantID { t with ownerUserID := some v } } := by
  obtain ⟨db₁, h₁, h⟩ := Option.bind_eq_some_iff.mp h
  obtain ⟨db₂, h₂, h₃⟩ := Option.bind_eq_some_iff.mp h
  obtain ⟨u, hu, rfl⟩ := setMembership_eq_some h₁
  obtain ⟨v, hv, rfl⟩ := setMembership_eq_some h₂
  obtain ⟨w, t, hw, ht, rfl⟩ := setOwner_eq_some h₃
  obtain rfl : v = w := Option.some.inj (hv.symm.trans hw)
  exact ⟨u, v, t, hu, hv, ht, rfl⟩

end CairnObs.RbacStore
