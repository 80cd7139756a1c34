import CairnObs.LocalAuth

/-! When sessions follow the role and the password of their user. A login reads both and
writes its session in a later step; the changes of a role or a password delete the sessions
that are there when they commit. -/
namespace CairnObs.LocalAuth

open GoText PgColumns Authz GuardedRuns

/-- The user of the session exists, has the session's role, and has the password hash that
the login of the session has compared against. -/
def Session.Current (db : DB) (s : Session) : Prop :=
  ∃ user, db.users.lookup s.userID = some user ∧ user.passwordHash = some s.verifiedHash ∧
    db.members.lookup s.userID = some s.role

/-- Every session that `GetSession` answers with at time `now`. -/
def SessionsCurrent (now : ℤ) (db : DB) : Prop :=
  ∀ s ∈ db.sessions, ¬ s.expiresAt < now → s.Current db

variable {db : DB} {now : ℤ}

theorem SessionsCurrent.later {later : ℤ} (h : SessionsCurrent now db) (hle : now ≤ later) :
    SessionsCurrent later db :=
  fun s hs hvalid => h s hs (fun hexpired => hvalid (hexpired.trans_le hle))

/-! ### The store calls -/

/-- A write to the rows of `u` keeps the sessions of the other users as they are; none of
`u` may be left. -/
theorem SessionsCurrent.of_others {db' : DB} {u : Uuid} (h : SessionsCurrent now db)
    (hsessions : ∀ s ∈ db'.sessions, s ∈ db.sessions ∧ (s.Current db → s.userID ≠ u))
    (husers : ∀ v, v ≠ u → db'.users.lookup v = db.users.lookup v)
    (hmembers : ∀ v, v ≠ u → db'.members.lookup v = db.members.lookup v) :
    SessionsCurrent now db' := by
  intro s hs hvalid
  obtain ⟨hold, hother⟩ := hsessions s hs
  have hcurrent := h s hold hvalid
  have hne := hother hcurrent
  obtain ⟨user, huser, hhash, hrole⟩ := hcurrent
  exact ⟨user, (husers _ hne).trans huser, hhash, (hmembers _ hne).trans hrole⟩

theorem mem_deleteSessionsOf {u : Uuid} {sessions : List Session} {s : Session}
    (h : s ∈ deleteSessionsOf u sessions) : s ∈ sessions ∧ s.userID ≠ u := by
  simpa [deleteSessionsOf] using h

/-- The same where the sessions of `u` are deleted with the write. -/
theorem SessionsCurrent.of_revoked {db' : DB} {u : Uuid} (h : SessionsCurrent now db)
    (hsessions : db'.sessions = deleteSessionsOf u db.sessions)
    (husers : ∀ v, v ≠ u → db'.users.lookup v = db.users.lookup v)
    (hmembers : ∀ v, v ≠ u → db'.members.lookup v = db.members.lookup v) :
    SessionsCurrent now db' := by
  refine h.of_others (fun s hs => ?_) husers hmembers
  rw [hsessions] at hs
  obtain ⟨hold, hne⟩ := mem_deleteSessionsOf hs
  exact ⟨hold, fun _ => hne⟩

theorem SessionsCurrent.deleteUser (h : SessionsCurrent now db) (id : Text) :
    SessionsCurrent now (deleteUser db id) := by
  unfold LocalAuth.deleteUser
  split
  · exact h.of_revoked rfl (fun v hv => AList.lookup_erase_ne hv)
      (fun v hv => AList.lookup_erase_ne hv)
  · exact h

theorem SessionsCurrent.setRole (h : SessionsCurrent now db) (id : Text) (role : Role) :
    SessionsCurrent now (setRole db id role) := by
  unfold LocalAuth.setRole
  split
  · split_ifs
    · exact h.of_revoked rfl (fun v _ => rfl) (fun v hv => AList.lookup_insert_ne hv)
    · exact h
  · exact h

theorem SessionsCurrent.setPasswordHash (h : SessionsCurrent now db) (id hash : Text) :
    SessionsCurrent now (setPasswordHash db id hash) := by
  unfold LocalAuth.setPasswordHash
  split
  · exact h.of_revoked rfl (fun v hv => AList.lookup_insert_ne hv) (fun v _ => rfl)
  · exact h

theorem SessionsCurrent.createUser (h : SessionsCurrent now db) (newID : Uuid)
    (username hash : Text) (role : Role) :
    SessionsCurrent now (createUser db newID username hash role) := by
  unfold LocalAuth.createUser
  split_ifs with htaken
  · exact h
  · -- a session of the new id would belong to a user that is not there yet
    have hnew : db.users.lookup newID = none :=
      AList.lookup_eq_none.mpr (fun hmem => htaken (.inr (.inl hmem)))
    refine h.of_others (fun s hs => ⟨hs, ?_⟩) (fun v hv => AList.lookup_insert_ne hv)
      (fun v hv => AList.lookup_insert_ne hv)
    rintro ⟨user, huser, -⟩ rfl
    rw [hnew] at huser
    cases huser

theorem SessionsCurrent.createSession (h : SessionsCurrent now db) {s : Session}
    (hs : s.userID ∈ db.users → s.Current db) : SessionsCurrent now (createSession db s) := by
  unfold LocalAuth.createSession
  split_ifs with huser
  · intro x hx hvalid
    obtain rfl | hx := List.mem_cons.mp hx
    · exact hs huser
    · exact h x hx hvalid
  · exact h

theorem SessionsCurrent.deleteSessionByHash (h : SessionsCurrent now db) (tokenHash : Text) :
    SessionsCurrent now (deleteSessionByHash db tokenHash) :=
  fun s hs => h s (List.mem_of_mem_filter hs)

/-! ### The handlers -/

/-- When a login writes its session, its user, if it is still there, still has the role and
the password hash that the login has read. -/
def LoginFresh (db : DB) : Phase → Prop
  | .loginWrite u role hash =>
    ∀ user, db.users.lookup u = some user →
      user.passwordHash = some hash ∧ db.members.lookup u = some role
  | _ => True

section Steps
variable {comparePassword : Text → Text → Bool}

theorem SessionsCurrent.storeCall (h : SessionsCurrent now db) (env : Env) {p : Phase}
    (hfresh : LoginFresh db p) : SessionsCurrent now (storeCall comparePassword env db p).1 := by
  cases p with
  | deleteWrite id seen owners => exact h.deleteUser id
  | roleWrite id role seen owners => exact h.setRole id role
  | createWrite username hash role => exact h.createUser _ _ _ _
  | resetWrite id hash => exact h.setPasswordHash id hash
  | changeWrite id hash => exact h.setPasswordHash id hash
  | logoutWrite tokenHash => exact h.deleteSessionByHash tokenHash
  | loginWrite u role hash =>
    refine h.createSession (fun hmem => ?_)
    obtain ⟨user, huser⟩ := Option.isSome_iff_exists.mp (AList.lookup_isSome.mpr hmem)
    exact ⟨user, huser, hfresh user huser⟩
  | _ =>
    rw [storeCall_db_of_read comparePassword env db rfl]
    exact h

variable {ρ : Type*}

/-- The condition on a step: if it is the write of a login, what the login has read still
holds. -/
def LoginFreshStep (s : System ρ) : Action ρ → Prop
  | .request _ _ _ _ => True
  | .call r _ => LoginFresh s.db (s.phases r)

variable [DecidableEq ρ]

theorem SessionsCurrent.step {s t : System ρ} {a : Action ρ} (h : SessionsCurrent now s.db)
    (hC : LoginFreshStep s a) (hstep : step comparePassword s a = some t) :
    SessionsCurrent now t.db := by
  obtain ⟨r, identity, hash, req, rfl, rfl⟩ | ⟨r, env, rfl, rfl⟩ | ⟨r, env, rfl, rfl⟩ :=
    step_cases comparePassword hstep
  · exact h
  · exact h
  · exact h.storeCall env hC

/-- Sessions that are current at `start` stay so, with the ones the logins add, in every run
in which each login writes what still holds; and then at every later time. -/
theorem sessions_stay_current {start now : ℤ} {s t : System ρ} {as : List (Action ρ)}
    (hle : start ≤ now) (hs : SessionsCurrent start s.db)
    (hC : Meets (step comparePassword) LoginFreshStep s as)
    (hrun : run (step comparePassword) s as = some t) : SessionsCurrent now t.db :=
  (run_preserves (I := fun s : System ρ => SessionsCurrent start s.db)
    (fun _ _ _ h hC hstep => h.step hC hstep) hs hC hrun).later hle

end Steps

/-! ### A login and a role change -/

def caraID : Uuid := 3

def caraAdmin : DB where
  users := AList.insert caraID ⟨some "cara".toList, some "hash-c".toList⟩ ∅
  members := AList.insert caraID .admin ∅
  sessions := []

def loginEnv : Env := ⟨false, 0, "token".toList, 100⟩

theorem caraAdmin_current : SessionsCurrent 0 caraAdmin := fun _ hs => absurd hs List.not_mem_nil

def caraLogin : List (Action Bool) :=
  [.request true none [] (.login "cara".toList "secret".toList), .call true loginEnv,
    .call true loginEnv]

theorem caraLogin_current :
    ∃ t, run (step (fun _ _ => true)) ⟨caraAdmin, fun _ => .idle⟩ caraLogin = some t ∧
      t.db.sessions = [⟨caraID, .admin, "token".toList, 100, "hash-c".toList⟩] ∧
      SessionsCurrent 50 t.db := by
  have hsessions : (run (step (fun _ _ => true)) ⟨caraAdmin, fun _ => .idle⟩ caraLogin).map
      (fun t => t.db.sessions) =
        some [⟨caraID, .admin, "token".toList, 100, "hash-c".toList⟩] := by decide +kernel
  have hC : Meets (step (fun _ _ => true)) LoginFreshStep ⟨caraAdmin, fun _ => .idle⟩
      caraLogin := by
    refine .cons trivial rfl (.cons trivial rfl (.cons ?_ rfl trivial))
    rintro user huser
    cases huser
    exact ⟨rfl, by decide +kernel⟩
  obtain ⟨t, ht, hlogin⟩ := Option.map_eq_some_iff.mp hsessions
  exact ⟨t, ht, hlogin, sessions_stay_current (by decide) caraAdmin_current hC ht⟩

/-- Between the two store calls of Cara's login, an owner makes Cara a viewer. -/
def loginDuringSetRole : List (Action Bool) :=
  [.request true none [] (.login "cara".toList "secret".toList), .call true loginEnv,
    .request false (some ⟨"default".toList, uuidOut 1, .owner⟩) []
      (.setRole (uuidOut caraID) "viewer".toList),
    .call false loginEnv, .call false loginEnv, .call true loginEnv]

theorem loginDuringSetRole_stale :
    SessionsCurrent 0 caraAdmin ∧
      ∃ t, run (step (fun _ _ => true)) ⟨caraAdmin, fun _ => .idle⟩ loginDuringSetRole = some t ∧
        ¬ SessionsCurrent 50 t.db := by
  have hstate : (run (step (fun _ _ => true)) ⟨caraAdmin, fun _ => .idle⟩ loginDuringSetRole).map
      (fun t => (t.db.sessions, t.db.members.lookup caraID)) =
        some ([⟨caraID, .admin, "token".toList, 100, "hash-c".toList⟩], some .viewer) := by
    decide +kernel
  obtain ⟨t, ht, hsessions⟩ := Option.map_eq_some_iff.mp hstate
  obtain ⟨hsession, hviewer⟩ := Prod.mk.inj hsessions
  refine ⟨caraAdmin_current, t, ht, fun hcurrent => ?_⟩
  obtain ⟨user, -, -, hadmin⟩ :=
    hcurrent _ (by rw [hsession]; exact List.mem_singleton_self _) (by decide)
  cases hviewer.symm.trans hadmin

end CairnObs.LocalAuth
