import CairnObs.LocalAuth

/-! What admins may write. The handlers check the role of their target in one step and write in
a later one, and each of them has a check of its own. -/
namespace CairnObs.LocalAuth

open GoText PgColumns Authz GuardedRuns

/-! ### Records of the requests -/

/-- Who has made a request, and the role that its last read of a user found. -/
structure Note where
  caller : Option Identity
  seen : Option Role

def Note.isAdmin (n : Note) : Prop := ∃ i, n.caller = some i ∧ i.role = .admin

/-- The user that a phase reads. -/
def Phase.reads : Phase → Option Text
  | .deleteRead _ id | .resetRead _ id _ _ | .roleRead id _ => some id
  | _ => none

def Note.after (env : Env) (db : DB) (n : Note) (p : Phase) : Note :=
  match p.reads with
  | some id => ⟨n.caller, if env.fails then none else getUserByID db id⟩
  | none => n

section Notes
variable {ρ : Type*} [DecidableEq ρ]

def note (s : System ρ) (notes : ρ → Note) : Action ρ → ρ → Note
  | .request r identity _ _ => Function.update notes r ⟨identity, none⟩
  | .call r env => Function.update notes r ((notes r).after env s.db (s.phases r))

end Notes

/-! ### The roles an admin may act on -/

def IsLow (role : Option Role) : Prop := role = some .viewer ∨ role = some .editor

/-- The account that a write of the user management concerns is a viewer or an editor. -/
def ConcernsLow (db : DB) : Phase → Prop
  | .createWrite _ _ role => IsLow (some role)
  | .deleteWrite id _ _ | .resetWrite id _ =>
    ∀ u user, localUser db id = some (u, user) → IsLow (db.members.lookup u)
  | _ => True

/-- The CHECK on `tenant_memberships.role`. -/
def RolesValid (db : DB) : Prop := ∀ u role, db.members.lookup u = some role → validRole role = true

theorem isLow_of_valid {role : Role} (hvalid : validRole role = true)
    (hadmin : role ≠ .admin) (howner : role ≠ .owner) : IsLow (some role) := by
  cases role with
  | viewer => exact .inl rfl
  | editor => exact .inr rfl
  | admin => exact absurd rfl hadmin
  | owner => exact absurd rfl howner
  | service | other name => cases hvalid

theorem IsLow.ne {role r : Role} (h : IsLow (some role)) (hr : r = .admin ∨ r = .owner) :
    role ≠ r := by
  rintro rfl
  rcases h with h | h <;> rcases hr with rfl | rfl <;> cases h

/-! ### Members stay members -/

variable {db : DB} {id : Text} {identity : Identity} {n : Note}

theorem localUser_eq_some {u : Uuid} {user : User} :
    localUser db id = some (u, user) ↔
      uuidColumn id = some u ∧ db.users.lookup u = some user ∧ user.username.isSome = true := by
  simp only [localUser, Option.bind_eq_bind, Option.bind_eq_some_iff]
  constructor
  · rintro ⟨v, hv, found, hfound, h⟩
    split_ifs at h with hname
    cases h
    exact ⟨hv, hfound, hname⟩
  · rintro ⟨hu, huser, hname⟩
    exact ⟨u, hu, user, huser, if_pos hname⟩

/-- If the id is that of a local user, that user has a role. -/
def Enrolled (db : DB) (id : Text) : Prop :=
  ∀ u user, localUser db id = some (u, user) → u ∈ db.members

theorem enrolled_of_getUserByID {role : Role} (h : getUserByID db id = some role) :
    Enrolled db id := by
  intro u user hlocal
  simp only [getUserByID, hlocal, Option.bind_eq_bind, Option.bind_some] at h
  exact AList.lookup_isSome.mp (by rw [h]; rfl)

/-- What a write must keep: every local user of `db'` has a role there, or was a local user
whose role stays. -/
theorem Enrolled.of_frame {db' : DB} (h : Enrolled db id)
    (hframe : ∀ u user', db'.users.lookup u = some user' → user'.username.isSome = true →
      u ∈ db'.members ∨ (∃ user, db.users.lookup u = some user ∧ user.username.isSome = true) ∧
        (u ∈ db.members → u ∈ db'.members)) : Enrolled db' id := by
  intro u user' hlocal
  obtain ⟨hu, huser', hname'⟩ := localUser_eq_some.mp hlocal
  rcases hframe u user' huser' hname' with hmem | ⟨⟨user, huser, hname⟩, hkept⟩
  · exact hmem
  · exact hkept (h u user (localUser_eq_some.mpr ⟨hu, huser, hname⟩))

theorem Enrolled.deleteUser (h : Enrolled db id) (target : Text) :
    Enrolled (deleteUser db target) id := by
  unfold LocalAuth.deleteUser
  cases localUser db target with
  | none => exact h
  | some found =>
    refine h.of_frame fun u user' huser' hname' => ?_
    by_cases hu : u = found.1
    · subst hu
      rw [AList.lookup_erase] at huser'
      cases huser'
    · rw [AList.lookup_erase_ne hu] at huser'
      exact .inr ⟨⟨user', huser', hname'⟩, fun hmem => AList.mem_erase.mpr ⟨hu, hmem⟩⟩

theorem Enrolled.setRole (h : Enrolled db id) (target : Text) (role : Role) :
    Enrolled (setRole db target role) id := by
  unfold LocalAuth.setRole
  cases localUser db target with
  | none => exact h
  | some found =>
    show Enrolled (if found.1 ∈ db.members then _ else db) id
    split_ifs
    · refine h.of_frame fun u user' huser' hname' => ?_
      exact .inr ⟨⟨user', huser', hname'⟩, fun hmem => (AList.mem_insert _).mpr (.inr hmem)⟩
    · exact h

theorem Enrolled.setPasswordHash (h : Enrolled db id) (target hash : Text) :
    Enrolled (setPasswordHash db target hash) id := by
  unfold LocalAuth.setPasswordHash
  cases htarget : localUser db target with
  | none => exact h
  | some found =>
    obtain ⟨v, user⟩ := found
    obtain ⟨-, huser, hname⟩ := localUser_eq_some.mp htarget
    refine h.of_frame fun u user' huser' hname' => .inr ⟨?_, fun hmem => hmem⟩
    by_cases hu : u = v
    · subst hu
      exact ⟨user, huser, hname⟩
    · rw [AList.lookup_insert_ne hu] at huser'
      exact ⟨user', huser', hname'⟩

theorem Enrolled.createUser (h : Enrolled db id) (newID : Uuid) (username hash : Text)
    (role : Role) :
    Enrolled (createUser db newID username hash role) id := by
  unfold LocalAuth.createUser
  split_ifs
  · exact h
  · refine h.of_frame fun u user' huser' hname' => ?_
    by_cases hu : u = newID
    · exact .inl ((AList.mem_insert _).mpr (.inl hu))
    · rw [AList.lookup_insert_ne hu] at huser'
      exact .inr ⟨⟨user', huser', hname'⟩, fun hmem => (AList.mem_insert _).mpr (.inr hmem)⟩

/-! ### Roles stay valid -/

theorem RolesValid.deleteUser (h : RolesValid db) (id : Text) : RolesValid (deleteUser db id) := by
  unfold LocalAuth.deleteUser
  cases localUser db id with
  | none => exact h
  | some found =>
    intro u role hrole
    by_cases hu : u = found.1
    · subst hu
      have hnone : (db.members.erase found.1).lookup found.1 = none := AList.lookup_erase _ _
      rw [show (db.members.erase found.1).lookup found.1 = some role from hrole] at hnone
      cases hnone
    · exact h u role ((AList.lookup_erase_ne hu).symm.trans hrole)

theorem rolesValid_insert (h : RolesValid db) {role : Role} (hrole : validRole role = true)
    (v : Uuid) {u : Uuid} {r : Role} (hr : (db.members.insert v role).lookup u = some r) :
    validRole r = true := by
  by_cases hu : u = v
  · subst hu
    rw [AList.lookup_insert] at hr
    cases hr
    exact hrole
  · exact h u r ((AList.lookup_insert_ne hu).symm.trans hr)

theorem RolesValid.setRole (h : RolesValid db) (id : Text) {role : Role}
    (hrole : validRole role = true) : RolesValid (setRole db id role) := by
  unfold LocalAuth.setRole
  cases localUser db id with
  | none => exact h
  | some found =>
    show RolesValid (if found.1 ∈ db.members then _ else db)
    split_ifs
    · exact fun u r hr => rolesValid_insert h hrole found.1 hr
    · exact h

theorem RolesValid.createUser (h : RolesValid db) (newID : Uuid) (username hash : Text)
    {role : Role} (hrole : validRole role = true) :
    RolesValid (createUser db newID username hash role) := by
  unfold LocalAuth.createUser
  split_ifs
  · exact h
  · exact fun u r hr => rolesValid_insert h hrole newID hr

/-! ### The handlers -/

/-- What a handler knows, by its phase. Before its write it has found its target enrolled, and
an admin has found a viewer or an editor. -/
def Checked (db : DB) (n : Note) : Phase → Prop
  | .deleteRead identity _ | .resetRead identity _ _ _ => n.caller = some identity
  | .deleteCount id => Enrolled db id ∧ ¬ n.isAdmin
  | .deleteWrite id _ _ | .resetWrite id _ => Enrolled db id ∧ (n.isAdmin → IsLow n.seen)
  | .roleRead _ role | .roleCount _ role | .roleWrite _ role _ _ => validRole role = true
  | .createWrite _ _ role => validRole role = true ∧ (n.isAdmin → IsLow (some role))
  | _ => True

/-- An admin does not ask for the password of an admin, and no target of an admin becomes an
admin or an owner between the read and the write of a handler. -/
def Unpromoted (db : DB) (n : Note) : Phase → Prop
  | .resetRead identity id _ _ => identity.role = .admin → getUserByID db id ≠ some .admin
  | .deleteWrite id _ _ | .resetWrite id _ =>
    n.isAdmin → ∀ role, getUserByID db id = some role → role = .admin ∨ role = .owner →
      n.seen = some role
  | _ => True

theorem Note.isAdmin.role (h : n.isAdmin) (hcaller : n.caller = some identity) :
    identity.role = .admin := by
  obtain ⟨i, hi, hrole⟩ := h
  rw [hcaller] at hi
  cases hi
  exact hrole

theorem admitted_eq_some {identity : Option Identity} {minRole : Role} {i : Identity}
    (h : admitted identity minRole = some i) : identity = some i := by
  unfold admitted at h
  split at h
  · rename_i found hpass
    cases identity with
    | none => cases hpass
    | some j =>
      simp only [requireRole] at hpass
      split_ifs at hpass
      cases hpass
      exact h
  · cases h

/-- The check that creating and deleting a user share. -/
theorem isLow_of_allowed {role : Role}
    (h : ¬ (!identity.role.satisfies .owner && (role = .admin || role = .owner)) = true)
    (hvalid : validRole role = true) (hadmin : identity.role = .admin) : IsLow (some role) := by
  have hnot : identity.role.satisfies .owner = false := by
    rw [hadmin]
    rfl
  simp only [hnot, Bool.not_false, Bool.true_and, Bool.or_eq_true, decide_eq_true_eq, not_or] at h
  exact isLow_of_valid hvalid h.1 h.2

theorem checked_startCreate (identity : Identity) (username password role hash : Text) (db : DB) :
    Checked db ⟨some identity, none⟩ (startCreate identity username password role hash) := by
  simp only [startCreate]
  generalize (if role = [] then Role.editor else Role.ofText role) = role
  split_ifs with _ _ hvalid hforbidden
  · trivial
  · trivial
  · trivial
  · trivial
  · have hvalid : validRole role = true := by simpa using hvalid
    exact ⟨hvalid, fun hadmin => isLow_of_allowed hforbidden hvalid (hadmin.role rfl)⟩

/-- A request starts with what the role floor of its route has let through. -/
theorem checked_start (identity : Option Identity) (hash : Text) (req : Request) (db : DB) :
    Checked db ⟨identity, none⟩ (start identity hash req) := by
  cases req with
  | deleteUser id =>
    simp only [start]
    split
    · rename_i i hi
      unfold startDelete
      split_ifs
      · trivial
      · exact admitted_eq_some hi
    · trivial
  | setRole id role =>
    simp only [start]
    split
    · unfold startSetRole
      split_ifs with hvalid
      · exact hvalid
      · trivial
    · trivial
  | createUser username password role =>
    simp only [start]
    split
    · rename_i i hi
      rw [admitted_eq_some hi]
      exact checked_startCreate i username password role hash db
    · trivial
  | login username password =>
    simp only [start]
    split_ifs <;> trivial
  | resetPassword id password =>
    simp only [start]
    split
    · rename_i i hi
      unfold startReset
      split_ifs
      · trivial
      · exact admitted_eq_some hi
    · trivial
  | changeOwnPassword currentPassword newPassword =>
    simp only [start]
    split
    · unfold startChange
      split_ifs <;> trivial
    · trivial
  | logout tokenHash => trivial

theorem checked_afterDeleteRead {role : Role} (hrole : getUserByID db id = some role)
    (hvalid : validRole role = true) :
    Checked db ⟨some identity, some role⟩ (afterDeleteRead identity id role) := by
  unfold afterDeleteRead
  split_ifs with hforbidden howner
  · trivial
  · refine ⟨enrolled_of_getUserByID hrole, fun hadmin => ?_⟩
    exact (isLow_of_allowed hforbidden hvalid (hadmin.role rfl)).ne (.inr rfl) howner
  · exact ⟨enrolled_of_getUserByID hrole,
      fun hadmin => isLow_of_allowed hforbidden hvalid (hadmin.role rfl)⟩

/-- The reset refuses an admin only the password of an owner; that the target is no admin is
the condition. -/
theorem checked_afterResetRead {role : Role} (password hash : Text)
    (hrole : getUserByID db id = some role) (hvalid : validRole role = true)
    (hunpromoted : identity.role = .admin → getUserByID db id ≠ some .admin) :
    Checked db ⟨some identity, some role⟩ (afterResetRead identity id password hash role) := by
  unfold afterResetRead
  split_ifs with howner
  · trivial
  · trivial
  · refine ⟨enrolled_of_getUserByID hrole, fun hadmin => ?_⟩
    have hcaller : identity.role = .admin := hadmin.role rfl
    refine isLow_of_valid hvalid ?_ fun hrole' => howner ⟨hrole', by rw [hcaller]; rfl⟩
    rintro rfl
    exact hunpromoted hcaller hrole

section Steps
variable {comparePassword : Text → Text → Bool}

theorem Enrolled.storeCall (h : Enrolled db id) (env : Env) (p : Phase) :
    Enrolled (storeCall comparePassword env db p).1 id := by
  cases p with
  | deleteWrite target seen owners => exact h.deleteUser target
  | roleWrite target role seen owners => exact h.setRole target role
  | createWrite username hash role => exact h.createUser _ _ _ _
  | resetWrite target hash => exact h.setPasswordHash target hash
  | changeWrite target hash => exact h.setPasswordHash target hash
  | logoutWrite tokenHash => exact h
  | loginWrite u role hash =>
    simp only [LocalAuth.storeCall, createSession]
    split_ifs <;> exact h
  | _ =>
    rw [storeCall_db_of_read comparePassword env db rfl]
    exact h

/-- Only what is enrolled depends on the tables. -/
theorem Checked.storeCall {q : Phase} (h : Checked db n q) (env : Env) (p : Phase) :
    Checked (storeCall comparePassword env db p).1 n q := by
  cases q with
  | deleteCount id => exact ⟨h.1.storeCall env p, h.2⟩
  | deleteWrite id seen owners => exact ⟨h.1.storeCall env p, h.2⟩
  | resetWrite id hash => exact ⟨h.1.storeCall env p, h.2⟩
  | _ => exact h

theorem RolesValid.storeCall (h : RolesValid db) (env : Env) {p : Phase} (hp : Checked db n p) :
    RolesValid (storeCall comparePassword env db p).1 := by
  cases p with
  | deleteWrite id seen owners => exact h.deleteUser id
  | roleWrite id role seen owners => exact h.setRole id hp
  | createWrite username hash role => exact h.createUser _ _ _ hp.1
  | resetWrite id hash | changeWrite id hash =>
    simp only [LocalAuth.storeCall, LocalAuth.setPasswordHash]
    split <;> exact h
  | logoutWrite tokenHash => exact h
  | loginWrite u role hash =>
    simp only [LocalAuth.storeCall, createSession]
    split_ifs <;> exact h
  | _ =>
    rw [storeCall_db_of_read comparePassword env db rfl]
    exact h

theorem validRole_of_getUserByID (h : RolesValid db) {role : Role}
    (hrole : getUserByID db id = some role) : validRole role = true := by
  simp only [getUserByID, Option.bind_eq_bind, Option.bind_eq_some_iff] at hrole
  obtain ⟨found, -, hfound⟩ := hrole
  exact h found.1 role hfound

/-- The phase that a store call leads to, with what it has read. -/
theorem checked_storeCall (hroles : RolesValid db) {env : Env} (henv : env.fails = false)
    {p : Phase} (hp : Checked db n p) (hC : Unpromoted db n p) :
    Checked (storeCall comparePassword env db p).1 (n.after env db p)
      (storeCall comparePassword env db p).2 := by
  cases p with
  | deleteRead identity id =>
    have hn : n.after env db (.deleteRead identity id) = ⟨some identity, getUserByID db id⟩ := by
      simp only [Note.after, Phase.reads, henv, Bool.false_eq_true, if_false]
      rw [show n.caller = some identity from hp]
    rw [hn]
    simp only [LocalAuth.storeCall]
    cases hrole : getUserByID db id with
    | none => trivial
    | some role => exact checked_afterDeleteRead hrole (validRole_of_getUserByID hroles hrole)
  | deleteCount id =>
    simp only [LocalAuth.storeCall]
    split_ifs
    · trivial
    · exact ⟨hp.1, fun hadmin => absurd hadmin hp.2⟩
  | roleRead id role =>
    simp only [LocalAuth.storeCall]
    cases getUserByID db id with
    | none => trivial
    | some current =>
      show Checked db _ (afterRoleRead id role current)
      unfold afterRoleRead
      split_ifs <;> exact hp
  | roleCount id role =>
    simp only [LocalAuth.storeCall]
    split_ifs
    · trivial
    · exact hp
  | resetRead identity id password hash =>
    have hn : n.after env db (.resetRead identity id password hash) =
        ⟨some identity, getUserByID db id⟩ := by
      simp only [Note.after, Phase.reads, henv, Bool.false_eq_true, if_false]
      rw [show n.caller = some identity from hp]
    rw [hn]
    simp only [LocalAuth.storeCall]
    cases hrole : getUserByID db id with
    | none => trivial
    | some role =>
      exact checked_afterResetRead password hash hrole (validRole_of_getUserByID hroles hrole) hC
  | loginRead username password =>
    simp only [LocalAuth.storeCall]
    split
    · split_ifs <;> trivial
    · trivial
  | changeRead identity currentPassword hash =>
    simp only [LocalAuth.storeCall]
    split
    · split_ifs <;> trivial
    · trivial
  | _ => trivial

/-- A write that has been checked, of a target that has not been promoted since. -/
theorem concernsLow (hroles : RolesValid db) {p : Phase} (hp : Checked db n p)
    (hC : Unpromoted db n p) (hadmin : n.isAdmin) : ConcernsLow db p := by
  have htarget {id : Text} (henrolled : Enrolled db id) (hseen : IsLow n.seen)
      (hkept : ∀ role, getUserByID db id = some role → role = .admin ∨ role = .owner →
        n.seen = some role) :
      ∀ u user, localUser db id = some (u, user) → IsLow (db.members.lookup u) := by
    intro u user hlocal
    obtain ⟨role, hrole⟩ := Option.isSome_iff_exists.mp
      (AList.lookup_isSome.mpr (henrolled u user hlocal))
    have hget : getUserByID db id = some role := by
      simp only [getUserByID, hlocal, Option.bind_eq_bind, Option.bind_some]
      exact hrole
    rw [hrole]
    by_cases hhigh : role = .admin ∨ role = .owner
    · rw [hkept role hget hhigh] at hseen
      exact hseen
    · exact isLow_of_valid (hroles u role hrole) (fun h => hhigh (.inl h))
        (fun h => hhigh (.inr h))
  cases p with
  | createWrite username hash role => exact hp.2 hadmin
  | deleteWrite id seen owners => exact htarget hp.1 (hp.2 hadmin) (hC hadmin)
  | resetWrite id hash => exact htarget hp.1 (hp.2 hadmin) (hC hadmin)
  | _ => trivial

variable {ρ : Type*}

/-- The condition on a step. -/
def UnpromotedStep (x : System ρ × (ρ → Note)) : Action ρ → Prop
  | .request _ _ _ _ => True
  | .call r _ => Unpromoted x.1.db (x.2 r) (x.1.phases r)

/-- A store call that does not fail and that an admin has asked for writes to no other account
than that of a viewer or an editor. -/
def AdminWritesLow (x : System ρ × (ρ → Note)) : Action ρ → Prop
  | .request _ _ _ _ => True
  | .call r env => env.fails = false → (x.2 r).isAdmin → ConcernsLow x.1.db (x.1.phases r)

structure AdminInv (x : System ρ × (ρ → Note)) : Prop where
  roles : RolesValid x.1.db
  checked : ∀ r, Checked x.1.db (x.2 r) (x.1.phases r)

variable [DecidableEq ρ]

theorem AdminInv.step {x y : System ρ × (ρ → Note)} {a : Action ρ} (h : AdminInv x)
    (hC : UnpromotedStep x a) (hstep : noted (step comparePassword) note x a = some y) :
    AdminInv y := by
  obtain ⟨s, notes⟩ := x
  obtain ⟨t, notes'⟩ := y
  obtain ⟨hstep, hnote⟩ := noted_eq_some.mp hstep
  subst hnote
  cases a with
  | request r identity hash req =>
    simp only [LocalAuth.step] at hstep
    split at hstep
    · cases hstep
      exact ⟨h.roles, forall_update₂ h.checked (checked_start identity hash req s.db) r⟩
    · cases hstep
  | call r env =>
    simp only [LocalAuth.step] at hstep
    cases hfails : env.fails with
    | true =>
      rw [hfails] at hstep
      cases hstep
      exact ⟨h.roles, forall_update₂ h.checked (p := .idle) trivial r⟩
    | false =>
      rw [hfails] at hstep
      cases hstep
      exact ⟨h.roles.storeCall env (h.checked r),
        forall_update₂ (fun q => (h.checked q).storeCall env (s.phases r))
          (checked_storeCall h.roles hfails (h.checked r) hC) r⟩

/-- In every run whose steps meet the condition, an admin acts on viewers and editors only. -/
theorem admins_act_on_viewers_and_editors {s t : System ρ} {as : List (Action ρ)}
    (notes : ρ → Note) (hidle : ∀ r, s.phases r = .idle) (hroles : RolesValid s.db)
    (hrun : run (step comparePassword) s as = some t)
    (hC : Meets (noted (step comparePassword) note) UnpromotedStep (s, notes) as) :
    (∃ notes', run (noted (step comparePassword) note) (s, notes) as = some (t, notes')) ∧
      Meets (noted (step comparePassword) note) AdminWritesLow (s, notes) as := by
  refine ⟨exists_run_noted note hrun notes, ?_⟩
  have hstart : AdminInv (s, notes) := by
    refine ⟨hroles, fun r => ?_⟩
    rw [hidle r]
    trivial
  refine Meets.imp (fun _ _ _ h hC hstep => AdminInv.step h hC hstep) ?_ hstart hC
  intro x a hx hxC
  cases a with
  | request r identity hash req => trivial
  | call r env => exact fun _ hadmin => concernsLow hx.roles (hx.checked r) hxC hadmin

end Steps

/-! ### An admin and an owner -/

def adminID : Uuid := 3

def ownerID : Uuid := 4

def viewerID : Uuid := 5

def staff : DB where
  users := AList.insert adminID ⟨some "ada".toList, some "hash-a".toList⟩
    (AList.insert ownerID ⟨some "olga".toList, some "hash-b".toList⟩
      (AList.insert viewerID ⟨some "vera".toList, some "hash-c".toList⟩ ∅))
  members := AList.insert adminID .admin
    (AList.insert ownerID .owner (AList.insert viewerID .viewer ∅))
  sessions := []

def adminIdentity : Identity := ⟨"default".toList, uuidOut adminID, .admin⟩

def ownerIdentity : Identity := ⟨"default".toList, uuidOut ownerID, .owner⟩

def servingEnv : Env := ⟨false, 0, [], 0⟩

def noNotes (_ : Bool) : Note := ⟨none, none⟩

theorem staff_rolesValid : RolesValid staff := by
  intro u role h
  have hmem := AList.mem_lookup_iff.mp h
  have hentries : staff.members.entries =
      [⟨adminID, .admin⟩, ⟨ownerID, .owner⟩, ⟨viewerID, .viewer⟩] := by decide +kernel
  rw [hentries] at hmem
  simp only [List.mem_cons, List.not_mem_nil, or_false, Sigma.mk.injEq, heq_eq_eq] at hmem
  rcases hmem with ⟨-, rfl⟩ | ⟨-, rfl⟩ | ⟨-, rfl⟩ <;> rfl

/-- Ada sets a new password for Vera. -/
def adaResets : List (Action Bool) :=
  [.request true (some adminIdentity) "hash-d".toList
      (.resetPassword (uuidOut viewerID) "a new password".toList),
    .call true servingEnv, .call true servingEnv]

theorem adaResets_viewer :
    ∃ t notes', run (step (fun _ _ => true)) ⟨staff, fun _ => .idle⟩ adaResets = some t ∧
      run (noted (step (fun _ _ => true)) note) (⟨staff, fun _ => .idle⟩, noNotes) adaResets =
        some (t, notes') ∧
      Meets (noted (step (fun _ _ => true)) note) AdminWritesLow
        (⟨staff, fun _ => .idle⟩, noNotes) adaResets := by
  have hviewer : getUserByID staff (uuidOut viewerID) = some .viewer := by decide +kernel
  have hrun : ∃ t, run (step (fun _ _ => true)) ⟨staff, fun _ => .idle⟩ adaResets = some t :=
    ⟨_, rfl⟩
  obtain ⟨t, ht⟩ := hrun
  have hC : Meets (noted (step (fun _ _ => true)) note) UnpromotedStep
      (⟨staff, fun _ => .idle⟩, noNotes) adaResets := by
    refine .cons trivial rfl (.cons ?_ rfl (.cons ?_ rfl trivial))
    · intro _ hadmin
      rw [show getUserByID staff (uuidOut viewerID) = _ from hadmin] at hviewer
      cases hviewer
    · intro _ role hrole _
      exact hrole
  obtain ⟨⟨notes', hnoted⟩, hlow⟩ :=
    admins_act_on_viewers_and_editors noNotes (fun _ => rfl) staff_rolesValid ht hC
  exact ⟨t, notes', ht, hnoted, hlow⟩

/-- Ada deletes Vera, whom Olga makes an admin before the row is deleted. -/
def adaDeletesPromoted : List (Action Bool) :=
  [.request true (some adminIdentity) [] (.deleteUser (uuidOut viewerID)),
    .call true servingEnv,
    .request false (some ownerIdentity) [] (.setRole (uuidOut viewerID) "admin".toList),
    .call false servingEnv, .call false servingEnv]

/-- The viewer that the handler has read is an admin when it deletes the account. -/
theorem adaDeletesPromoted_deletes_admin :
    ∃ x y, run (noted (step (fun _ _ => true)) note) (⟨staff, fun _ => .idle⟩, noNotes)
        adaDeletesPromoted = some x ∧
      getUserByID x.1.db (uuidOut viewerID) = some .admin ∧
      ¬ AdminWritesLow x (.call true servingEnv) ∧
      step (fun _ _ => true) x.1 (.call true servingEnv) = some y ∧
      getUserByID y.db (uuidOut viewerID) = none := by
  refine ⟨_, _, rfl, by decide +kernel, fun hlow => ?_, rfl, by decide +kernel⟩
  have hlocal : localUser (setRole staff (uuidOut viewerID) .admin) (uuidOut viewerID) =
      some (viewerID, ⟨some "vera".toList, some "hash-c".toList⟩) := by decide +kernel
  have hadmin : (setRole staff (uuidOut viewerID) .admin).members.lookup viewerID =
      some .admin := by decide +kernel
  have hrole : IsLow ((setRole staff (uuidOut viewerID) .admin).members.lookup viewerID) :=
    hlow rfl ⟨adminIdentity, rfl, rfl⟩ viewerID _ hlocal
  rw [hadmin] at hrole
  exact hrole.ne (.inl rfl) rfl

end CairnObs.LocalAuth
