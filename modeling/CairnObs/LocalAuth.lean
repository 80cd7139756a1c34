import CairnObs.Authz
import CairnObs.PgColumns
import CairnObs.GuardedRuns
import Mathlib.Data.List.AList

/-! `api/localauth`: the store calls, and its handlers as programs of store calls. Each
store call is one atomic step; between two of them other requests may take theirs. -/
namespace CairnObs.LocalAuth

open GoText PgColumns Authz GuardedRuns

/-! ### The tables -/

/-- A row of `users`. A user that came in by SSO has neither a name nor a password hash. -/
structure User where
  username : Option Text
  passwordHash : Option Text
  deriving DecidableEq

/-- A row of `local_sessions`. `verifiedHash` is not a column: it records which password hash
the login that made the session has compared against. -/
structure Session where
  userID : Uuid
  role : Role
  tokenHash : Text
  expiresAt : ℤ
  verifiedHash : Text
  deriving DecidableEq

/-- `members` are the rows of `tenant_memberships` in the default tenant. -/
structure DB where
  users : AList (fun _ : Uuid => User)
  members : AList (fun _ : Uuid => Role)
  sessions : List Session

/-! ### The store -/

/-- The id of a local user, from the text of the path. -/
def localUser (db : DB) (id : Text) : Option (Uuid × User) := do
  let u ← uuidColumn id
  let user ← db.users.lookup u
  if user.username.isSome then some (u, user) else none

def getUserByID (db : DB) (id : Text) : Option Role := do
  let (u, _) ← localUser db id
  db.members.lookup u

def countUsersWithRole (db : DB) (role : Role) : ℕ :=
  db.members.entries.countP (fun m => decide (m.2 = role))

def deleteSessionsOf (u : Uuid) (sessions : List Session) : List Session :=
  sessions.filter (fun s => decide (s.userID ≠ u))

/-- Memberships and sessions go with the user. -/
def deleteUser (db : DB) (id : Text) : DB :=
  match localUser db id with
  | some (u, _) =>
    ⟨db.users.erase u, db.members.erase u, deleteSessionsOf u db.sessions⟩
  | none => db

def setRole (db : DB) (id : Text) (role : Role) : DB :=
  match localUser db id with
  | some (u, _) =>
    -- the UPDATE of no row rolls the transaction back
    if u ∈ db.members then
      { db with members := db.members.insert u role, sessions := deleteSessionsOf u db.sessions }
    else db
  | none => db

def setPasswordHash (db : DB) (id : Text) (hash : Text) : DB :=
  match localUser db id with
  | some (u, user) =>
    { db with
      users := db.users.insert u { user with passwordHash := some hash }
      sessions := deleteSessionsOf u db.sessions }
  | none => db

/-- The user with a name; names are unique. -/
def findUsername (db : DB) (username : Text) : Option (Uuid × User) :=
  (db.users.entries.find? (fun e => decide (e.2.username = some username))).map
    (fun e => (e.1, e.2))

/-- Both rows, or none of them when the name or the new id is taken. -/
def createUser (db : DB) (newID : Uuid) (username hash : Text) (role : Role) : DB :=
  if (findUsername db username).isSome ∨ newID ∈ db.users ∨ newID ∈ db.members then db
  else
    { db with
      users := db.users.insert newID ⟨some username, some hash⟩
      members := db.members.insert newID role }

def getUserForLogin (db : DB) (username : Text) : Option (Uuid × Role × Text) := do
  let (u, user) ← findUsername db username
  let role ← db.members.lookup u
  let hash ← user.passwordHash
  some (u, role, hash)

def getPasswordHashByID (db : DB) (id : Text) : Option Text := do
  let (_, user) ← localUser db id
  user.passwordHash

/-- `local_sessions.user_id` references `users`. -/
def createSession (db : DB) (s : Session) : DB :=
  if s.userID ∈ db.users then { db with sessions := s :: db.sessions } else db

def deleteSessionByHash (db : DB) (tokenHash : Text) : DB :=
  { db with sessions := db.sessions.filter (fun s => decide (s.tokenHash ≠ tokenHash)) }

/-! ### The handlers -/

inductive Request
  | deleteUser (id : Text)
  | setRole (id role : Text)
  | createUser (username password role : Text)
  | login (username password : Text)
  | resetPassword (id password : Text)
  | changeOwnPassword (currentPassword newPassword : Text)
  | logout (tokenHash : Text)

/-- Where a handler is, by the store call it makes next, with what it has read so far. -/
inductive Phase
  | idle
  | deleteRead (identity : Identity) (id : Text)
  | deleteCount (id : Text)
  | deleteWrite (id : Text) (seen : Role) (owners : ℕ)
  | roleRead (id : Text) (role : Role)
  | roleCount (id : Text) (role : Role)
  | roleWrite (id : Text) (role seen : Role) (owners : ℕ)
  | createWrite (username hash : Text) (role : Role)
  | loginRead (username password : Text)
  | loginWrite (u : Uuid) (role : Role) (hash : Text)
  | resetRead (identity : Identity) (id password hash : Text)
  | resetWrite (id hash : Text)
  | changeRead (identity : Identity) (currentPassword hash : Text)
  | changeWrite (id hash : Text)
  | logoutWrite (tokenHash : Text)

def validRole : Role → Bool
  | .viewer | .editor | .admin | .owner => true
  | _ => false

/-- The identity behind `RequireRole`; none when the request is refused. -/
def admitted (identity : Option Identity) (minRole : Role) : Option Identity :=
  match requireRole (some identity) minRole with
  | .pass i => i
  | _ => none

def shortPassword (password : Text) : Bool := decide ((utf8 password).length < 8)

def startDelete (identity : Identity) (id : Text) : Phase :=
  if id = identity.userID then .idle else .deleteRead identity id

def startSetRole (id role : Text) : Phase :=
  if validRole (Role.ofText role) then .roleRead id (Role.ofText role) else .idle

def startCreate (identity : Identity) (username password role hash : Text) : Phase :=
  let role := if role = [] then Role.editor else Role.ofText role
  if username = [] then .idle
  else if shortPassword password then .idle
  else if !validRole role then .idle
  else if !identity.role.satisfies .owner && (role = .admin || role = .owner) then .idle
  else .createWrite username hash role

def startReset (identity : Identity) (id password hash : Text) : Phase :=
  if id = identity.userID then .idle else .resetRead identity id password hash

def startChange (identity : Identity) (currentPassword newPassword hash : Text) : Phase :=
  if shortPassword newPassword then .idle else .changeRead identity currentPassword hash

/-- What a handler does before its first store call. `identity` is what the authorizer
answers, `hash` what `HashPassword` makes of a new password. -/
def start (identity : Option Identity) (hash : Text) : Request → Phase
  | .deleteUser id =>
    match admitted identity .admin with
    | some i => startDelete i id
    | none => .idle
  | .setRole id role =>
    match admitted identity .owner with
    | some _ => startSetRole id role
    | none => .idle
  | .createUser username password role =>
    match admitted identity .admin with
    | some i => startCreate i username password role hash
    | none => .idle
  | .login username password =>
    if username = [] ∨ password = [] then .idle else .loginRead username password
  | .resetPassword id password =>
    match admitted identity .admin with
    | some i => startReset i id password hash
    | none => .idle
  | .changeOwnPassword currentPassword newPassword =>
    match admitted identity .viewer with
    | some i => startChange i currentPassword newPassword hash
    | none => .idle
  | .logout tokenHash => .logoutWrite tokenHash

def afterDeleteRead (identity : Identity) (id : Text) (role : Role) : Phase :=
  if !identity.role.satisfies .owner && (role = .admin || role = .owner) then .idle
  -- only for an owner are the owners counted
  else if role = .owner then .deleteCount id
  else .deleteWrite id role 0

def afterRoleRead (id : Text) (role current : Role) : Phase :=
  if current = .owner ∧ role ≠ .owner then .roleCount id role else .roleWrite id role current 0

/-- Without a password in the request a random one is set. -/
def afterResetRead (identity : Identity) (id password hash : Text) (role : Role) : Phase :=
  if role = .owner ∧ identity.role.satisfies .owner = false then .idle
  else if password ≠ [] ∧ shortPassword password then .idle
  else .resetWrite id hash

/-- What the outside contributes to a store call: whether it fails, a new id, the hash of a
new token and the expiry of the session it is for. -/
structure Env where
  fails : Bool
  newID : Uuid
  tokenHash : Text
  expiresAt : ℤ

section Steps
variable (comparePassword : Text → Text → Bool)

/-- One store call and what the handler makes of its answer. -/
def storeCall (env : Env) (db : DB) : Phase → DB × Phase
  | .idle => (db, .idle)
  | .deleteRead identity id =>
    match getUserByID db id with
    | some role => (db, afterDeleteRead identity id role)
    | none => (db, .idle)
  | .deleteCount id =>
    let n := countUsersWithRole db .owner
    (db, if n ≤ 1 then .idle else .deleteWrite id .owner n)
  | .deleteWrite id _ _ => (deleteUser db id, .idle)
  | .roleRead id role =>
    match getUserByID db id with
    | some current => (db, afterRoleRead id role current)
    | none => (db, .idle)
  | .roleCount id role =>
    let n := countUsersWithRole db .owner
    (db, if n ≤ 1 then .idle else .roleWrite id role .owner n)
  | .roleWrite id role _ _ => (setRole db id role, .idle)
  | .createWrite username hash role => (createUser db env.newID username hash role, .idle)
  | .loginRead username password =>
    match getUserForLogin db username with
    | some (u, role, hash) =>
      (db, if comparePassword hash password then .loginWrite u role hash else .idle)
    | none => (db, .idle)
  | .loginWrite u role hash =>
    (createSession db ⟨u, role, env.tokenHash, env.expiresAt, hash⟩, .idle)
  | .resetRead identity id password hash =>
    match getUserByID db id with
    | some role => (db, afterResetRead identity id password hash role)
    | none => (db, .idle)
  | .resetWrite id hash => (setPasswordHash db id hash, .idle)
  | .changeRead identity currentPassword hash =>
    match getPasswordHashByID db identity.userID with
    | some current =>
      (db, if comparePassword current currentPassword then .changeWrite identity.userID hash
        else .idle)
    | none => (db, .idle)
  | .changeWrite id hash => (setPasswordHash db id hash, .idle)
  | .logoutWrite tokenHash => (deleteSessionByHash db tokenHash, .idle)

/-- Whether the next store call is an INSERT, an UPDATE or a DELETE. -/
def Phase.isWrite : Phase → Bool
  | .deleteWrite _ _ _ | .roleWrite _ _ _ _ | .createWrite _ _ _ | .loginWrite _ _ _
  | .resetWrite _ _ | .changeWrite _ _ | .logoutWrite _ => true
  | _ => false

theorem storeCall_db_of_read (env : Env) (db : DB) {p : Phase} (hp : p.isWrite = false) :
    (storeCall comparePassword env db p).1 = db := by
  cases p with
  | idle | deleteCount | roleCount => rfl
  | deleteRead | roleRead | loginRead | resetRead | changeRead =>
    simp only [storeCall]
    split <;> rfl
  | _ => cases hp

/-- The tables, and the requests that are being handled. -/
structure System (ρ : Type*) where
  db : DB
  phases : ρ → Phase

inductive Action (ρ : Type*)
  | request (r : ρ) (identity : Option Identity) (hash : Text) (req : Request)
  | call (r : ρ) (env : Env)

variable {ρ : Type*} [DecidableEq ρ]

/-- A failing store call leaves the tables as they are and ends the handler. -/
def step (s : System ρ) : Action ρ → Option (System ρ)
  | .request r identity hash req =>
    match s.phases r with
    | .idle => some { s with phases := Function.update s.phases r (start identity hash req) }
    | _ => none
  | .call r env =>
    if env.fails then some { s with phases := Function.update s.phases r .idle }
    else
      let next := storeCall comparePassword env s.db (s.phases r)
      some ⟨next.1, Function.update s.phases r next.2⟩

/-- What a step can do: start a handler, end one whose store call failed, or make a store
call. -/
theorem step_cases {s t : System ρ} {a : Action ρ} (h : step comparePassword s a = some t) :
    (∃ r identity hash req, a = .request r identity hash req ∧
        t = ⟨s.db, Function.update s.phases r (start identity hash req)⟩) ∨
      (∃ r env, a = .call r env ∧ t = ⟨s.db, Function.update s.phases r .idle⟩) ∨
      ∃ r env, a = .call r env ∧
        t = ⟨(storeCall comparePassword env s.db (s.phases r)).1,
          Function.update s.phases r (storeCall comparePassword env s.db (s.phases r)).2⟩ := by
  cases a with
  | request r identity hash req =>
    simp only [step] at h
    split at h
    · exact .inl ⟨r, identity, hash, req, rfl, (Option.some.inj h).symm⟩
    · cases h
  | call r env =>
    simp only [step] at h
    split_ifs at h
    · exact .inr (.inl ⟨r, env, rfl, (Option.some.inj h).symm⟩)
    · exact .inr (.inr ⟨r, env, rfl, (Option.some.inj h).symm⟩)

end Steps

end CairnObs.LocalAuth
