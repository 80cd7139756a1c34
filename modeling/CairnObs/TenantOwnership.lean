import CairnObs.RbacStore
import CairnObs.GuardedRuns

/-! The owner of a tenant is stored twice: in a column of the tenant, and as the role of a
membership. When the two agree, under concurrent transfers, revocations and role changes. -/
namespace CairnObs.RbacStore

open GoText PgColumns Authz GuardedRuns

/-! ### The calls, step by step -/

/-- What a call does next, with the owner its `GetTenant` has read. -/
inductive Phase
  | idle
  | transfer (tenantID newOwnerUserID : Text) (downgradeRole : Role) (owner : Text)
  | revoke (tenantID userID : Text) (owner : Text)

structure System (ρ : Type*) where
  db : DB
  phases : ρ → Phase

inductive Action (ρ : Type*)
  | transferOwner (r : ρ) (tenantID newOwnerUserID : Text) (downgradeRole : Role)
  | revokeMembership (r : ρ) (tenantID userID : Text)
  | setMembership (tenantID userID : Text) (role : Role)
  | write (r : ρ) (fails : Bool)

/-- `TransferOwner` up to its transaction. -/
def startTransfer (db : DB) (tenantID newOwnerUserID : Text) (downgradeRole : Role) : Phase :=
  match getTenant db tenantID with
  | none => .idle
  | some t =>
    if ownerText t = [] then .idle
    else if ownerText t = newOwnerUserID then .idle
    else .transfer tenantID newOwnerUserID downgradeRole (ownerText t)

/-- `RevokeMembership` up to its DELETE. -/
def startRevoke (db : DB) (tenantID userID : Text) : Phase :=
  match getTenant db tenantID with
  | none => .idle
  -- the texts are compared, not the ids they stand for
  | some t => if ownerText t = userID then .idle else .revoke tenantID userID (ownerText t)

def Phase.write (db : DB) : Phase → Option DB
  | .idle => none
  | .transfer tenantID newOwnerUserID downgradeRole owner =>
    transferOwnerTx db tenantID owner newOwnerUserID downgradeRole
  | .revoke tenantID userID _ => deleteMembership db tenantID userID

section Steps
variable {ρ : Type*} [DecidableEq ρ]

/-- A write that fails or is refused leaves the tables as they are. -/
def step (s : System ρ) : Action ρ → Option (System ρ)
  | .transferOwner r tenantID newOwnerUserID downgradeRole =>
    match s.phases r with
    | .idle =>
      let phase := startTransfer s.db tenantID newOwnerUserID downgradeRole
      some { s with phases := Function.update s.phases r phase }
    | _ => none
  | .revokeMembership r tenantID userID =>
    match s.phases r with
    | .idle =>
      some { s with phases := Function.update s.phases r (startRevoke s.db tenantID userID) }
    | _ => none
  | .setMembership tenantID userID role =>
    some { s with db := (setMembership s.db tenantID userID role).getD s.db }
  | .write r fails =>
    let written := if fails then none else (s.phases r).write s.db
    some ⟨written.getD s.db, Function.update s.phases r .idle⟩

end Steps

/-! ### Consistent tenants -/

def ownerOf (db : DB) (tenantID : Text) : Option Uuid :=
  (getTenant db tenantID).bind (fun t => t.ownerUserID)

/-- The owner in the column has the role, and nobody else has it. -/
def Consistent (db : DB) (tenantID : Text) : Prop :=
  ∀ u, ownerOf db tenantID = some u →
    db.members.lookup (tenantID, u) = some .owner ∧
      ∀ v, v ≠ u → db.members.lookup (tenantID, v) ≠ some .owner

variable {db : DB} {tenantID : Text}

/-- A write to the membership of a user who is not the owner, if it does not give the role. -/
theorem consistent_of_member {members : AList (fun _ : Text × Uuid => Role)} {v : Uuid}
    (h : ∀ id, Consistent db id) (hv : ownerOf db tenantID ≠ some v)
    (hothers : ∀ k, k ≠ (tenantID, v) → members.lookup k = db.members.lookup k)
    (hrole : members.lookup (tenantID, v) ≠ some .owner) (id : Text) :
    Consistent { db with members := members } id := by
  intro u hu
  obtain ⟨howner, hunique⟩ := h id u hu
  refine ⟨?_, fun w hw => ?_⟩
  · rw [hothers (id, u) (fun heq => ?_)]
    · exact howner
    · obtain ⟨rfl, rfl⟩ := Prod.mk.inj heq
      exact hv hu
  · by_cases hk : (id, w) = (tenantID, v)
    · rw [hk]
      exact hrole
    · rw [hothers (id, w) hk]
      exact hunique w hw

/-- A transfer away from the owner in the column. -/
theorem consistent_of_transfer {t : Tenant} {u v : Uuid} {role : Role} (h : ∀ id, Consistent db id)
    (hu : ownerOf db tenantID = some u) (hrole : role ≠ .owner) (id : Text) :
    Consistent { db with
      members := (db.members.insert (tenantID, u) role).insert (tenantID, v) .owner
      tenants := db.tenants.insert tenantID { t with ownerUserID := some v } } id := by
  intro w hw
  by_cases hid : id = tenantID
  · subst hid
    have hvw : v = w := by
      simpa [ownerOf, getTenant, AList.lookup_insert] using hw
    subst hvw
    refine ⟨AList.lookup_insert _, fun x hx => ?_⟩
    rw [AList.lookup_insert_ne (fun heq => hx (Prod.mk.inj heq).2)]
    by_cases hxu : x = u
    · rw [hxu, AList.lookup_insert]
      exact fun heq => hrole (Option.some.inj heq)
    · rw [AList.lookup_insert_ne (fun heq => hxu (Prod.mk.inj heq).2)]
      exact (h id u hu).2 x hxu
  · -- the other tenants keep their rows
    have hmembers (x : Uuid) :
        ((db.members.insert (tenantID, u) role).insert (tenantID, v) .owner).lookup (id, x) =
          db.members.lookup (id, x) := by
      rw [AList.lookup_insert_ne (fun heq => hid (Prod.mk.inj heq).1),
        AList.lookup_insert_ne (fun heq => hid (Prod.mk.inj heq).1)]
    have hw' : ownerOf db id = some w := by
      simpa only [ownerOf, getTenant, AList.lookup_insert_ne hid] using hw
    obtain ⟨howner, hunique⟩ := h id w hw'
    exact ⟨(hmembers w).trans howner, fun x hx => (hmembers x).symm ▸ hunique x hx⟩

/-! ### The steps -/

/-- What a call has checked before it writes. -/
def Guarded : Phase → Prop
  | .idle => True
  | .transfer _ _ _ owner => owner ≠ []
  | .revoke _ userID owner => owner ≠ userID

/-- `owner` is what `GetTenant` would still read. -/
def OwnerIs (db : DB) (tenantID owner : Text) : Prop :=
  ∃ t, getTenant db tenantID = some t ∧ ownerText t = owner

/-- The write of a call comes before any other change of the owner. A transfer gives the old
owner a role below owner, and the id of a user to revoke is in the form that
`GetTenant` reads ids in. -/
def Unraced (db : DB) : Phase → Prop
  | .idle => True
  | .transfer tenantID _ downgradeRole owner => OwnerIs db tenantID owner ∧ downgradeRole ≠ .owner
  | .revoke tenantID userID owner =>
    OwnerIs db tenantID owner ∧ ∀ u, uuidColumn userID = some u → userID = uuidOut u

theorem guarded_startTransfer (db : DB) (tenantID newOwnerUserID : Text) (downgradeRole : Role) :
    Guarded (startTransfer db tenantID newOwnerUserID downgradeRole) := by
  unfold startTransfer
  split
  · trivial
  · split_ifs with hempty
    · trivial
    · trivial
    · exact hempty

theorem guarded_startRevoke (db : DB) (tenantID userID : Text) :
    Guarded (startRevoke db tenantID userID) := by
  unfold startRevoke
  split
  · trivial
  · split_ifs with howner
    · trivial
    · exact howner

/-- The text that was read, if it is not empty, is the id of the owner. -/
theorem OwnerIs.ownerOf {owner : Text} (h : OwnerIs db tenantID owner) (hne : owner ≠ []) :
    ∃ u, owner = uuidOut u ∧ ownerOf db tenantID = some u := by
  obtain ⟨t, ht, rfl⟩ := h
  unfold ownerText at hne ⊢
  cases hu : t.ownerUserID with
  | none => simp [hu] at hne
  | some u => exact ⟨u, rfl, by simp [RbacStore.ownerOf, ht, hu]⟩

theorem OwnerIs.ne_of_ownerOf {owner : Text} {u : Uuid} (h : OwnerIs db tenantID owner)
    (hne : owner ≠ uuidOut u) : RbacStore.ownerOf db tenantID ≠ some u := by
  obtain ⟨t, ht, rfl⟩ := h
  intro hu
  have ht' : t.ownerUserID = some u := by simpa [RbacStore.ownerOf, ht] using hu
  exact hne (by simp [ownerText, ht'])

theorem consistent_setMembership {db' : DB} {userID : Text} {role : Role}
    (h : ∀ id, Consistent db id) (hrole : role ≠ .owner)
    (huser : ∀ u, uuidColumn userID = some u → ownerOf db tenantID ≠ some u)
    (hset : setMembership db tenantID userID role = some db') (id : Text) : Consistent db' id := by
  obtain ⟨u, hu, rfl⟩ := setMembership_eq_some hset
  refine consistent_of_member h (huser u hu) (fun k hk => AList.lookup_insert_ne hk) ?_ id
  rw [AList.lookup_insert]
  exact fun heq => hrole (Option.some.inj heq)

theorem consistent_write {db' : DB} {p : Phase} (h : ∀ id, Consistent db id) (hguarded : Guarded p)
    (hunraced : Unraced db p) (hwrite : p.write db = some db') (id : Text) : Consistent db' id := by
  cases p with
  | idle => cases hwrite
  | transfer tenantID newOwnerUserID downgradeRole owner =>
    obtain ⟨howner, hrole⟩ := hunraced
    obtain ⟨u, hu, hcolumn⟩ := howner.ownerOf hguarded
    obtain ⟨w, v, t, hw, -, -, rfl⟩ := transferOwnerTx_eq_some hwrite
    rw [hu, uuidColumn_uuidOut] at hw
    obtain rfl := Option.some.inj hw
    exact consistent_of_transfer h hcolumn hrole id
  | revoke tenantID userID owner =>
    obtain ⟨howner, hcanonical⟩ := hunraced
    obtain ⟨u, hu, rfl⟩ := deleteMembership_eq_some hwrite
    have hne : owner ≠ uuidOut u := hcanonical u hu ▸ hguarded
    refine consistent_of_member h (howner.ne_of_ownerOf hne)
      (fun k hk => AList.lookup_erase_ne hk) ?_ id
    rw [AList.lookup_erase]
    exact fun heq => by cases heq

section Runs
variable {ρ : Type*}

/-- The condition on a step. `SetMembership` gives a role below owner, to someone who is not
the owner. -/
def SafeStep (s : System ρ) : Action ρ → Prop
  | .transferOwner _ _ _ _ => True
  | .revokeMembership _ _ _ => True
  | .setMembership tenantID userID role =>
    role ≠ .owner ∧ ∀ u, uuidColumn userID = some u → ownerOf s.db tenantID ≠ some u
  | .write r _ => Unraced s.db (s.phases r)

structure OwnershipInv (s : System ρ) : Prop where
  consistent : ∀ id, Consistent s.db id
  guarded : ∀ r, Guarded (s.phases r)

variable [DecidableEq ρ]

theorem consistent_getD {written : Option DB} (h : ∀ id, Consistent db id)
    (hwritten : ∀ db', written = some db' → ∀ id, Consistent db' id) (id : Text) :
    Consistent (written.getD db) id := by
  cases written with
  | none => exact h id
  | some db' => exact hwritten db' rfl id

theorem OwnershipInv.step {s t : System ρ} {a : Action ρ} (h : OwnershipInv s) (hC : SafeStep s a)
    (hstep : step s a = some t) : OwnershipInv t := by
  cases a with
  | transferOwner r tenantID newOwnerUserID downgradeRole =>
    simp only [RbacStore.step] at hstep
    split at hstep
    · obtain rfl := Option.some.inj hstep
      exact ⟨h.consistent, forall_update h.guarded (guarded_startTransfer _ _ _ _) r⟩
    · cases hstep
  | revokeMembership r tenantID userID =>
    simp only [RbacStore.step] at hstep
    split at hstep
    · obtain rfl := Option.some.inj hstep
      exact ⟨h.consistent, forall_update h.guarded (guarded_startRevoke _ _ _) r⟩
    · cases hstep
  | setMembership tenantID userID role =>
    obtain rfl := Option.some.inj hstep
    exact ⟨consistent_getD h.consistent
      (fun db' hset => consistent_setMembership h.consistent hC.1 hC.2 hset), h.guarded⟩
  | write r fails =>
    obtain rfl := Option.some.inj hstep
    refine ⟨consistent_getD h.consistent (fun db' hwrite => ?_),
      forall_update h.guarded (p := .idle) trivial r⟩
    split_ifs at hwrite
    exact consistent_write h.consistent (h.guarded r) hC hwrite

/-- Every tenant stays consistent in every run in which transfers and revocations write while
the owner they have read is still the owner, and role changes leave the owner alone. -/
theorem tenants_stay_consistent {s t : System ρ} {as : List (Action ρ)}
    (hs : ∀ id, Consistent s.db id) (hidle : ∀ r, s.phases r = .idle)
    (hC : Meets step SafeStep s as) (hrun : run step s as = some t) (id : Text) :
    Consistent t.db id := by
  have hstart : OwnershipInv s := ⟨hs, fun r => by rw [hidle r]; trivial⟩
  exact (run_preserves (fun _ _ _ h hC hstep => OwnershipInv.step h hC hstep) hstart hC
    hrun).consistent id

end Runs

/-! ### Two transfers -/

def acme : Text := "acme".toList

def acmeDB : DB where
  users := [1, 2, 3]
  tenants := AList.insert acme ⟨.active, some 1⟩ ∅
  members := AList.insert (acme, 1) .owner (AList.insert (acme, 2) .editor ∅)
  dataSources := []

theorem acmeDB_consistent (id : Text) : Consistent acmeDB id := by
  intro u hu
  obtain ⟨t, ht, htu⟩ := Option.bind_eq_some_iff.mp hu
  -- the tables have one tenant, with one owner
  have hrow : (⟨id, t⟩ : Sigma (fun _ : Text => Tenant)) ∈ [⟨acme, ⟨.active, some 1⟩⟩] :=
    AList.mem_lookup_iff.mp ht
  obtain ⟨rfl, heq⟩ := Sigma.mk.inj (List.mem_singleton.mp hrow)
  obtain rfl := eq_of_heq heq
  obtain rfl := Option.some.inj htu
  refine ⟨AList.lookup_insert _, fun v hv hrole => ?_⟩
  have hmember : (⟨(acme, v), .owner⟩ : Sigma (fun _ : Text × Uuid => Role)) ∈
      [⟨(acme, 1), .owner⟩, ⟨(acme, 2), .editor⟩] := AList.mem_lookup_iff.mp hrole
  exact hv (by simpa using hmember)

/-- A transfer to the second user, a revocation of the first one's membership afterwards. -/
def transferThenRevoke : List (Action Bool) :=
  [.transferOwner true acme (uuidOut 2) .admin, .write true false,
    .revokeMembership true acme (uuidOut 1), .write true false]

theorem transferThenRevoke_consistent :
    ∃ t, run step ⟨acmeDB, fun _ => .idle⟩ transferThenRevoke = some t ∧
      ownerOf t.db acme = some 2 ∧ ∀ id, Consistent t.db id := by
  have howner : (run step ⟨acmeDB, fun _ => .idle⟩ transferThenRevoke).map
      (fun t => ownerOf t.db acme) = some (some 2) := by decide +kernel
  have hC : Meets step SafeStep ⟨acmeDB, fun _ => .idle⟩ transferThenRevoke := by
    refine .cons trivial rfl (.cons ⟨⟨_, rfl, rfl⟩, by decide⟩ rfl (.cons trivial rfl
      (.cons ⟨⟨_, rfl, rfl⟩, fun u hu => ?_⟩ rfl trivial)))
    rw [uuidColumn_uuidOut] at hu
    rw [Option.some.inj hu]
  obtain ⟨t, ht, howner⟩ := Option.map_eq_some_iff.mp howner
  exact ⟨t, ht, howner, tenants_stay_consistent acmeDB_consistent (fun _ => rfl) hC ht⟩

/-- Two transfers read the same owner; the second one to write does not know of the first. -/
def racingTransfers : List (Action Bool) :=
  [.transferOwner true acme (uuidOut 2) .admin, .transferOwner false acme (uuidOut 3) .admin,
    .write true false, .write false false]

theorem racingTransfers_inconsistent :
    (∀ id, Consistent acmeDB id) ∧
      ∃ t, run step ⟨acmeDB, fun _ => .idle⟩ racingTransfers = some t ∧ ¬ Consistent t.db acme := by
  have hstate : (run step ⟨acmeDB, fun _ => .idle⟩ racingTransfers).map
      (fun t => (ownerOf t.db acme, t.db.members.lookup (acme, 2))) =
        some (some 3, some .owner) := by decide +kernel
  obtain ⟨t, ht, heq⟩ := Option.map_eq_some_iff.mp hstate
  obtain ⟨howner, hmember⟩ := Prod.mk.inj heq
  exact ⟨acmeDB_consistent, t, ht, fun h => (h 3 howner).2 2 (by decide) hmember⟩

end CairnObs.RbacStore
