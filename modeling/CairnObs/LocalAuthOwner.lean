import CairnObs.LocalAuth

/-! When the default tenant keeps an owner. The handlers read the role of the target and the
number of owners, and write in a later step. -/
namespace CairnObs.LocalAuth

open GoText PgColumns Authz GuardedRuns

def HasOwner (db : DB) : Prop := ∃ u, db.members.lookup u = some .owner

/-! ### Owners in the table -/

/-- If only `u` has the role, it is counted once. -/
theorem countP_le_one {l : List (Sigma (fun _ : Uuid => Role))} (hl : l.NodupKeys) {u : Uuid}
    {role : Role} (h : ∀ e ∈ l, e.2 = role → e.1 = u) :
    l.countP (fun e => decide (e.2 = role)) ≤ 1 := by
  induction l with
  | nil => exact Nat.zero_le 1
  | cons e l ih =>
    obtain ⟨hfresh, hrest⟩ := List.nodupKeys_cons.mp hl
    have htail := ih hrest (fun x hx => h x (List.mem_cons_of_mem _ hx))
    by_cases he : e.2 = role
    · -- then no later entry has the role: it would have the key of `e`
      have hzero : l.countP (fun e => decide (e.2 = role)) = 0 := by
        rw [List.countP_eq_zero]
        intro x hx hrole
        have hkey : x.1 = e.1 :=
          (h x (List.mem_cons_of_mem _ hx) (of_decide_eq_true hrole)).trans
            (h e List.mem_cons_self he).symm
        exact hfresh (hkey ▸ List.mem_keys_of_mem hx)
      rw [List.countP_cons, hzero]
      split <;> omega
    · rw [List.countP_cons_of_neg (by simpa using he)]
      exact htail

variable {db : DB}

/-- Of two owners, one is not `u`. -/
theorem exists_other_owner (h : 1 < countUsersWithRole db .owner) (u : Uuid) :
    ∃ v, v ≠ u ∧ db.members.lookup v = some .owner := by
  by_contra hnone
  push Not at hnone
  refine absurd (countP_le_one db.members.nodupKeys (u := u) (fun e he hrole => ?_)) (not_le.mpr h)
  by_contra hne
  refine hnone e.1 hne (AList.mem_lookup_iff.mpr ?_)
  rw [← hrole]
  exact he

theorem getUserByID_eq {id : Text} {u : Uuid} {user : User} (h : localUser db id = some (u, user)) :
    getUserByID db id = db.members.lookup u := by
  simp [getUserByID, h]

/-- The role of `u` is set or removed; its own ownership does not carry the tenant. -/
theorem hasOwner_of_others {db' : DB} {u : Uuid} (h : HasOwner db)
    (hothers : ∀ v, v ≠ u → db'.members.lookup v = db.members.lookup v)
    (hu : db.members.lookup u = some .owner → 1 < countUsersWithRole db .owner) : HasOwner db' := by
  obtain ⟨w, hw⟩ := h
  by_cases hwu : w = u
  · subst hwu
    obtain ⟨v, hv, hvo⟩ := exists_other_owner (hu hw) w
    exact ⟨v, (hothers v hv).trans hvo⟩
  · exact ⟨w, (hothers w hwu).trans hw⟩

theorem HasOwner.deleteUser (h : HasOwner db) {id : Text}
    (hid : getUserByID db id = some .owner → 1 < countUsersWithRole db .owner) :
    HasOwner (deleteUser db id) := by
  unfold LocalAuth.deleteUser
  cases hlocal : localUser db id with
  | none => exact h
  | some found =>
    rw [getUserByID_eq hlocal] at hid
    exact hasOwner_of_others h (fun v hv => AList.lookup_erase_ne hv) hid

theorem HasOwner.setRole (h : HasOwner db) {id : Text} {role : Role}
    (hid : role ≠ .owner → getUserByID db id = some .owner → 1 < countUsersWithRole db .owner) :
    HasOwner (setRole db id role) := by
  unfold LocalAuth.setRole
  cases hlocal : localUser db id with
  | none => exact h
  | some found =>
    rw [getUserByID_eq hlocal] at hid
    show HasOwner (if found.1 ∈ db.members then _ else db)
    split_ifs
    · by_cases hrole : role = .owner
      · exact ⟨found.1, hrole ▸ AList.lookup_insert _⟩
      · exact hasOwner_of_others h (fun v hv => AList.lookup_insert_ne hv) (hid hrole)
    · exact h

theorem HasOwner.setPasswordHash (h : HasOwner db) (id hash : Text) :
    HasOwner (setPasswordHash db id hash) := by
  unfold LocalAuth.setPasswordHash
  split <;> exact h

theorem HasOwner.createUser (h : HasOwner db) (newID : Uuid) (username hash : Text) (role : Role) :
    HasOwner (createUser db newID username hash role) := by
  unfold LocalAuth.createUser
  split_ifs with htaken
  · exact h
  · have hnew : newID ∉ db.members := fun hmem => htaken (.inr (.inr hmem))
    refine hasOwner_of_others h (fun v hv => AList.lookup_insert_ne hv) (fun howner => ?_)
    rw [AList.lookup_eq_none.mpr hnew] at howner
    cases howner

/-! ### The handlers -/

/-- A handler that has read its target as an owner writes only after it has counted another
one. -/
def Guarded : Phase → Prop
  | .deleteWrite _ seen owners => seen = .owner → 1 < owners
  | .roleWrite _ role seen owners => role ≠ .owner → seen = .owner → 1 < owners
  | _ => True

/-- When a DELETE or a PUT takes the ownership of its target, the request has read that the
target is an owner, and the number of owners has not fallen since it was counted. -/
def Unraced (db : DB) : Phase → Prop
  | .deleteWrite id seen owners =>
    getUserByID db id = some .owner → seen = .owner ∧ owners ≤ countUsersWithRole db .owner
  | .roleWrite id role seen owners =>
    role ≠ .owner → getUserByID db id = some .owner →
      seen = .owner ∧ owners ≤ countUsersWithRole db .owner
  | _ => True

section Steps
variable {comparePassword : Text → Text → Bool}

/-- No request starts with the write of a DELETE or a PUT. -/
theorem guarded_start (identity : Option Identity) (hash : Text) (req : Request) :
    Guarded (start identity hash req) := by
  cases req with
  | deleteUser id =>
    simp only [start]
    split
    · unfold startDelete
      split_ifs <;> trivial
    · trivial
  | setRole id role =>
    simp only [start]
    split
    · unfold startSetRole
      split_ifs <;> trivial
    · trivial
  | createUser username password role =>
    simp only [start]
    split
    · simp only [startCreate]
      split_ifs <;> trivial
    · trivial
  | login username password =>
    simp only [start]
    split_ifs <;> trivial
  | resetPassword id password =>
    simp only [start]
    split
    · unfold startReset
      split_ifs <;> trivial
    · trivial
  | changeOwnPassword currentPassword newPassword =>
    simp only [start]
    split
    · unfold startChange
      split_ifs <;> trivial
    · trivial
  | logout tokenHash => trivial

theorem guarded_afterDeleteRead (identity : Identity) (id : Text) (role : Role) :
    Guarded (afterDeleteRead identity id role) := by
  unfold afterDeleteRead
  split_ifs with _ howner
  · trivial
  · trivial
  · exact fun hseen => absurd hseen howner

theorem guarded_afterRoleRead (id : Text) (role current : Role) :
    Guarded (afterRoleRead id role current) := by
  unfold afterRoleRead
  split_ifs with hdemotes
  · trivial
  · exact fun hrole hseen => absurd ⟨hseen, hrole⟩ hdemotes

theorem guarded_storeCall (env : Env) (db : DB) (p : Phase) :
    Guarded (storeCall comparePassword env db p).2 := by
  cases p with
  | deleteRead identity id =>
    simp only [storeCall]
    split
    · exact guarded_afterDeleteRead _ _ _
    · trivial
  | deleteCount id =>
    simp only [storeCall]
    split_ifs with hcount
    · trivial
    · exact fun _ => not_le.mp hcount
  | roleRead id role =>
    simp only [storeCall]
    split
    · exact guarded_afterRoleRead _ _ _
    · trivial
  | roleCount id role =>
    simp only [storeCall]
    split_ifs with hcount
    · trivial
    · exact fun _ _ => not_le.mp hcount
  | loginRead username password =>
    simp only [storeCall]
    split
    · split_ifs <;> trivial
    · trivial
  | resetRead identity id password hash =>
    simp only [storeCall]
    split
    · unfold afterResetRead
      split_ifs <;> trivial
    · trivial
  | changeRead identity currentPassword hash =>
    simp only [storeCall]
    split
    · split_ifs <;> trivial
    · trivial
  | _ => trivial

theorem HasOwner.storeCall (h : HasOwner db) (env : Env) {p : Phase} (hguarded : Guarded p)
    (hunraced : Unraced db p) : HasOwner (storeCall comparePassword env db p).1 := by
  cases p with
  | deleteWrite id seen owners =>
    refine h.deleteUser (fun howner => ?_)
    obtain ⟨hseen, hcount⟩ := hunraced howner
    exact (hguarded hseen).trans_le hcount
  | roleWrite id role seen owners =>
    refine h.setRole (fun hrole howner => ?_)
    obtain ⟨hseen, hcount⟩ := hunraced hrole howner
    exact (hguarded hrole hseen).trans_le hcount
  | createWrite username hash role => exact h.createUser _ _ _ _
  | resetWrite id hash => exact h.setPasswordHash id hash
  | changeWrite id hash => exact h.setPasswordHash id hash
  | logoutWrite tokenHash => exact h
  | loginWrite u role hash =>
    simp only [LocalAuth.storeCall, createSession]
    split_ifs <;> exact h
  | _ =>
    rw [storeCall_db_of_read comparePassword env db rfl]
    exact h

theorem unraced_start (db : DB) (identity : Option Identity) (hash : Text) (req : Request) :
    Unraced db (start identity hash req) := by
  cases req <;>
    simp only [start, startDelete, startSetRole, startCreate, startReset, startChange] <;>
    repeat' split
  all_goals trivial

/-- A call ends the handler, or it has read what still holds. -/
theorem storeCall_unraced (env : Env) (db : DB) (p : Phase) :
    (storeCall comparePassword env db p).2 = .idle ∨
      (storeCall comparePassword env db p).1 = db ∧
        Unraced db (storeCall comparePassword env db p).2 := by
  cases p with
  | deleteRead | roleRead | loginRead | resetRead | changeRead =>
    refine .inr ⟨storeCall_db_of_read _ _ _ rfl, ?_⟩
    simp only [storeCall, afterDeleteRead, afterRoleRead, afterResetRead]
    repeat' split
    all_goals first | trivial | exact fun h => by simp_all
  | deleteCount | roleCount =>
    refine .inr ⟨rfl, ?_⟩
    simp only [storeCall]
    split
    · trivial
    · simp [Unraced]
  | _ => exact .inl rfl

variable {ρ : Type*}

/-- The condition on a step: if it is the write of a DELETE or a PUT, it is not raced. -/
def UnracedStep (s : System ρ) : Action ρ → Prop
  | .request _ _ _ _ => True
  | .call r _ => Unraced s.db (s.phases r)

structure OwnerInv (s : System ρ) : Prop where
  hasOwner : HasOwner s.db
  guarded : ∀ r, Guarded (s.phases r)

variable [DecidableEq ρ]

theorem OwnerInv.step {s t : System ρ} {a : Action ρ} (h : OwnerInv s) (hC : UnracedStep s a)
    (hstep : step comparePassword s a = some t) : OwnerInv t := by
  obtain ⟨r, identity, hash, req, rfl, rfl⟩ | ⟨r, env, rfl, rfl⟩ | ⟨r, env, rfl, rfl⟩ :=
    step_cases comparePassword hstep
  · exact ⟨h.hasOwner, forall_update h.guarded (guarded_start _ _ _) r⟩
  · exact ⟨h.hasOwner, forall_update h.guarded (p := .idle) trivial r⟩
  · exact ⟨h.hasOwner.storeCall env (h.guarded r) hC,
      forall_update h.guarded (guarded_storeCall _ _ _) r⟩

/-- The default tenant keeps an owner in every run in which no DELETE and no PUT is raced
between its reads and its write. -/
theorem default_tenant_keeps_owner {s t : System ρ} {as : List (Action ρ)}
    (howner : HasOwner s.db) (hidle : ∀ r, s.phases r = .idle)
    (hC : Meets (step comparePassword) UnracedStep s as)
    (hrun : run (step comparePassword) s as = some t) : HasOwner t.db := by
  have hstart : OwnerInv s := ⟨howner, fun r => by rw [hidle r]; trivial⟩
  exact (run_preserves (fun _ _ _ h hC hstep => OwnerInv.step h hC hstep) hstart hC hrun).hasOwner

/-! ### One request at a time -/

def OneAtATime (s : System ρ) : Action ρ → Prop
  | .request _ _ _ _ => ∀ r, s.phases r = .idle
  | .call _ _ => True

structure SerialInv (s : System ρ) : Prop where
  owner : OwnerInv s
  alone : ∃ r, ∀ q, q ≠ r → s.phases q = .idle
  unraced : ∀ r, Unraced s.db (s.phases r)

theorem SerialInv.idle {s : System ρ} (h : SerialInv s) (q : ρ) :
    SerialInv ⟨s.db, Function.update s.phases q .idle⟩ := by
  obtain ⟨r, hr⟩ := h.alone
  refine ⟨⟨h.owner.hasOwner, forall_update h.owner.guarded (p := .idle) trivial q⟩,
    ⟨r, fun x hx => ?_⟩, forall_update h.unraced (p := .idle) trivial q⟩
  by_cases hxq : x = q <;> simp [hxq, hr x hx]

theorem SerialInv.step {s t : System ρ} {a : Action ρ} (h : SerialInv s) (hC : OneAtATime s a)
    (hstep : step comparePassword s a = some t) : SerialInv t := by
  have hunraced : UnracedStep s a := by
    cases a with
    | request => trivial
    | call r env => exact h.unraced r
  have howner := h.owner.step hunraced hstep
  obtain ⟨r, hr⟩ := h.alone
  obtain ⟨q, identity, hash, req, rfl, rfl⟩ | ⟨q, env, rfl, rfl⟩ | ⟨q, env, rfl, rfl⟩ :=
    step_cases comparePassword hstep
  · refine ⟨howner, ⟨q, fun x hx => ?_⟩, forall_update h.unraced (unraced_start _ _ _ _) q⟩
    exact (Function.update_of_ne hx _ _).trans (hC x)
  · exact h.idle q
  · by_cases hq : q = r
    · subst hq
      have hothers (x : ρ) (hx : x ≠ q) : Function.update s.phases q
          (storeCall comparePassword env s.db (s.phases q)).2 x = .idle :=
        (Function.update_of_ne hx _ _).trans (hr x hx)
      refine ⟨howner, ⟨q, hothers⟩, fun x => ?_⟩
      dsimp only
      by_cases hx : x = q
      · subst hx
        rw [Function.update_self]
        rcases storeCall_unraced env s.db (s.phases x) with hend | ⟨hdb, hread⟩
        · rw [hend]
          trivial
        · rwa [hdb]
      · rw [hothers x hx]
        trivial
    · -- a request that is not being handled makes no call
      rw [hr q hq]
      exact h.idle q

/-- The check for the last owner does its work while requests are served one at a time. -/
theorem one_at_a_time_keeps_owner [Nonempty ρ] {s t : System ρ} {as : List (Action ρ)}
    (howner : HasOwner s.db) (hidle : ∀ r, s.phases r = .idle)
    (hC : Meets (step comparePassword) OneAtATime s as)
    (hrun : run (step comparePassword) s as = some t) : HasOwner t.db := by
  have hstart : SerialInv s := by
    refine ⟨⟨howner, fun r => ?_⟩, ⟨Classical.arbitrary ρ, fun q _ => hidle q⟩, fun r => ?_⟩ <;>
      rw [hidle r] <;> trivial
  exact (run_preserves (fun _ _ _ h hC hstep => SerialInv.step h hC hstep) hstart hC
    hrun).owner.hasOwner

end Steps

/-! ### Two owners -/

def annID : Uuid := 1

def bobID : Uuid := 2

def twoOwners : DB where
  users := (AList.insert annID ⟨some "ann".toList, some "hash-a".toList⟩
    (AList.insert bobID ⟨some "bob".toList, some "hash-b".toList⟩ ∅))
  members := AList.insert annID .owner (AList.insert bobID .owner ∅)
  sessions := []

def annIdentity : Identity := ⟨"default".toList, uuidOut annID, .owner⟩

def bobIdentity : Identity := ⟨"default".toList, uuidOut bobID, .owner⟩

def quietEnv : Env := ⟨false, 0, [], 0⟩

theorem twoOwners_hasOwner : HasOwner twoOwners := ⟨annID, by decide +kernel⟩

/-- Ann deletes Bob, alone. -/
def annDeletesBob : List (Action Bool) :=
  [.request true (some annIdentity) [] (.deleteUser (uuidOut bobID)), .call true quietEnv,
    .call true quietEnv, .call true quietEnv]

theorem annDeletesBob_keeps_owner :
    ∃ t, run (step (fun _ _ => true)) ⟨twoOwners, fun _ => .idle⟩ annDeletesBob = some t ∧
      t.db.members.keys = [annID] ∧ HasOwner t.db := by
  have hkeys : (run (step (fun _ _ => true)) ⟨twoOwners, fun _ => .idle⟩ annDeletesBob).map
      (fun t => t.db.members.keys) = some [annID] := by decide +kernel
  have hC : Meets (step (fun _ _ => true)) UnracedStep ⟨twoOwners, fun _ => .idle⟩
      annDeletesBob :=
    .cons trivial rfl (.cons trivial rfl (.cons trivial rfl
      (.cons (fun _ => ⟨by decide +kernel, by decide +kernel⟩) rfl trivial)))
  obtain ⟨t, ht, hann⟩ := Option.map_eq_some_iff.mp hkeys
  exact ⟨t, ht, hann, default_tenant_keeps_owner twoOwners_hasOwner (fun _ => rfl) hC ht⟩

theorem annDeletesBob_one_at_a_time :
    ∃ t, run (step (fun _ _ => true)) ⟨twoOwners, fun _ => .idle⟩ annDeletesBob = some t ∧
      HasOwner t.db := by
  have hC : Meets (step (fun _ _ => true)) OneAtATime ⟨twoOwners, fun _ => .idle⟩
      annDeletesBob :=
    .cons (fun _ => rfl) rfl (.cons trivial rfl (.cons trivial rfl (.cons trivial rfl trivial)))
  exact ⟨_, rfl, one_at_a_time_keeps_owner twoOwners_hasOwner (fun _ => rfl) hC rfl⟩

/-- Ann and Bob delete each other: both count two owners before either is gone. -/
def mutualDelete : List (Action Bool) :=
  [.request true (some annIdentity) [] (.deleteUser (uuidOut bobID)),
    .request false (some bobIdentity) [] (.deleteUser (uuidOut annID)),
    .call true quietEnv, .call false quietEnv, .call true quietEnv, .call false quietEnv,
    .call true quietEnv, .call false quietEnv]

theorem mutualDelete_loses_owner :
    HasOwner twoOwners ∧
      ∃ t, run (step (fun _ _ => true)) ⟨twoOwners, fun _ => .idle⟩ mutualDelete = some t ∧
        ¬ HasOwner t.db := by
  have hkeys : (run (step (fun _ _ => true)) ⟨twoOwners, fun _ => .idle⟩ mutualDelete).map
      (fun t => t.db.members.keys) = some [] := by decide +kernel
  obtain ⟨t, ht, hempty⟩ := Option.map_eq_some_iff.mp hkeys
  refine ⟨twoOwners_hasOwner, t, ht, ?_⟩
  rintro ⟨u, hu⟩
  have hmem : u ∈ t.db.members.keys := AList.lookup_isSome.mp (by rw [hu]; rfl)
  rw [hempty] at hmem
  exact absurd hmem List.not_mem_nil

end CairnObs.LocalAuth
