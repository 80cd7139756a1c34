import CairnObs.DashboardHistory

/-! Who may edit a dashboard, and who may hand out grants on it, after any history. -/
namespace CairnObs.Dashboards

open GoText PgColumns Authz Fallible GuardedRuns

/-! ### Role checks -/

inductive Check
  | edit
  | manage
  deriving DecidableEq

/-- The dashboard of the path and what the handler asks about it. -/
def Request.check : Request → Option (Text × Check)
  | .update id _ | .delete id | .addPanel id _ | .updatePanel id _ _ | .deletePanel id _ =>
    some (id, .edit)
  | .listPermissions id | .setPermission id _ _ | .revokePermission id _ => some (id, .manage)
  | _ => none

/-- The body is what the handler wants to see before it asks who the caller is. -/
def Request.wellFormed (f : Formats) : Request → Bool
  | .update _ body => body.toOption.any (fun d => decide (d.name ≠ []))
  | .addPanel _ body | .updatePanel _ _ body =>
    body.toOption.any (fun p => (validatePanel f p).toOption.isSome)
  | _ => true

def statusOf : Except Response (Tables × Response) → ℕ
  | .ok (_, r) => r.status
  | .error r => r.status

variable {α : Type} {req : Request} {id : Text} {next : α → Except Response (Tables × Response)}

section Checks
variable (h : Handler) (env : Env) (t : Tables) (i : Identity)

theorem statusOf_orStoreErr {action : Text} {x : Except StoreErr α}
    (hnext : ∀ a, statusOf (next a) ≠ 403) : statusOf (orStoreErr action x >>= next) ≠ 403 := by
  cases x with
  | ok a => exact hnext a
  | error e =>
    cases e with
    | notFound => exact (by decide : 404 ≠ 403)
    | other => exact (by decide : 500 ≠ 403)

theorem statusOf_orFailed {action : Text} {x : Except StoreErr α}
    (hnext : ∀ a, statusOf (next a) ≠ 403) : statusOf (orFailed action x >>= next) ≠ 403 := by
  cases x with
  | ok a => exact hnext a
  | error e => exact (by decide : 500 ≠ 403)

theorem statusOf_decodeJSON {x : Decoded α} (hnext : ∀ a, statusOf (next a) ≠ 403) :
    statusOf (decodeJSON x >>= next) ≠ 403 := by
  cases x with
  | ok a => exact hnext a
  | error e => exact (by decide : 400 ≠ 403)

theorem statusOf_require {condition : Bool} {otherwise : Response}
    {next : Unit → Except Response (Tables × Response)} (hotherwise : otherwise.status ≠ 403)
    (hnext : ∀ a, statusOf (next a) ≠ 403) :
    statusOf (require condition otherwise >>= next) ≠ 403 := by
  cases condition with
  | true => exact hnext ()
  | false => exact hotherwise

theorem bind_of_ok {ε β : Type} {x : Except ε α} {a : α} {next : α → Except ε β} (hx : x = .ok a) :
    (x >>= next) = next a := by
  rw [hx]
  rfl

theorem orBadRequest_of_isSome {x : Except Text α} (hx : x.toOption.isSome = true) :
    ∃ a, orBadRequest x = .ok a := by
  cases x with
  | error e => cases hx
  | ok a => exact ⟨a, rfl⟩

/-- A request for an edit asks first whether the caller may. -/
theorem dispatch_edit (hcheck : req.check = some (id, .edit))
    (hform : req.wellFormed h.formats = true) :
    ∃ next, dispatch h env t (some i) req = editable h t (some i) id >>= next ∧
      ∀ d, statusOf (next d) ≠ 403 := by
  cases req with
  | update id' body =>
    obtain ⟨rfl, -⟩ := Prod.mk.inj (Option.some.inj hcheck)
    cases body with
    | error e => cases hform
    | ok d =>
      have hname : nameGiven d = .ok () := if_pos hform
      refine ⟨_, bind_of_ok hname, fun _ => ?_⟩
      exact statusOf_orStoreErr (fun _ => (by decide : 200 ≠ 403))
  | delete id' =>
    obtain ⟨rfl, -⟩ := Prod.mk.inj (Option.some.inj hcheck)
    exact ⟨_, rfl, fun _ => statusOf_orStoreErr (fun _ => (by decide : 204 ≠ 403))⟩
  | addPanel id' body =>
    obtain ⟨rfl, -⟩ := Prod.mk.inj (Option.some.inj hcheck)
    cases body with
    | error e => cases hform
    | ok p =>
      obtain ⟨p', hp'⟩ := orBadRequest_of_isSome hform
      refine ⟨_, bind_of_ok hp', fun _ => ?_⟩
      exact statusOf_orStoreErr (fun _ => (by decide : 201 ≠ 403))
  | updatePanel id' panelID body =>
    obtain ⟨rfl, -⟩ := Prod.mk.inj (Option.some.inj hcheck)
    cases body with
    | error e => cases hform
    | ok p =>
      obtain ⟨p', hp'⟩ := orBadRequest_of_isSome hform
      refine ⟨_, bind_of_ok hp', fun _ => ?_⟩
      exact statusOf_orStoreErr (fun _ => (by decide : 200 ≠ 403))
  | deletePanel id' panelID =>
    obtain ⟨rfl, -⟩ := Prod.mk.inj (Option.some.inj hcheck)
    exact ⟨_, rfl, fun _ => statusOf_orStoreErr (fun _ => (by decide : 204 ≠ 403))⟩
  | create | list | get | exportDashboard | importDashboard => cases hcheck
  | listPermissions | setPermission | revokePermission => cases hcheck

theorem dispatch_manage (hcheck : req.check = some (id, .manage)) :
    ∃ next, dispatch h env t (some i) req = manageable h t (some i) id >>= next ∧
      ∀ d, statusOf (next d) ≠ 403 := by
  cases req with
  | listPermissions id' =>
    obtain ⟨rfl, -⟩ := Prod.mk.inj (Option.some.inj hcheck)
    exact ⟨_, rfl, fun _ => (by decide : 200 ≠ 403)⟩
  | setPermission id' userID role =>
    obtain ⟨rfl, -⟩ := Prod.mk.inj (Option.some.inj hcheck)
    refine ⟨_, rfl, fun d => statusOf_decodeJSON (fun role' => ?_)⟩
    refine statusOf_require (by decide : 400 ≠ 403) (fun _ => ?_)
    exact statusOf_orFailed (fun _ => (by decide : 204 ≠ 403))
  | revokePermission id' userID =>
    obtain ⟨rfl, -⟩ := Prod.mk.inj (Option.some.inj hcheck)
    exact ⟨_, rfl, fun _ => statusOf_orFailed (fun _ => (by decide : 204 ≠ 403))⟩
  | create | list | get | exportDashboard | importDashboard => cases hcheck
  | update | delete | addPanel | updatePanel | deletePanel => cases hcheck

/-- Both kinds of request have the role floor of an editor. -/
theorem minRole_of_check {asked : Text × Check} (h : req.check = some asked) :
    req.minRole = .editor := by
  cases req with
  | list | get | exportDashboard => cases h
  | _ => rfl

end Checks

section Status
variable {f : Formats} {permissions : Bool} {env : Env} {t : Tables} {i : Identity}

/-- A request behind the floor and one more check. -/
theorem answer_status (hfloor : req.minRole = .editor) {gate : Except Response DashboardRow}
    {next : DashboardRow → Except Response (Tables × Response)}
    (hdispatch : dispatch ⟨f, some (some i), permissions⟩ env t (some i) req = gate >>= next)
    (hnext : ∀ d, statusOf (next d) ≠ 403) :
    (answer f permissions t ⟨i, env, req⟩).2.status ≠ 403 ↔
      i.role.satisfies .editor = true ∧ ∀ r, gate = .error r → r.status ≠ 403 := by
  by_cases hrole : i.role.satisfies .editor = true
  · have hanswer : (answer f permissions t ⟨i, env, req⟩).2.status = statusOf (gate >>= next) := by
      simp only [answer, serve, requireRole, hfloor, hrole, if_true, hdispatch]
      cases gate >>= next with
      | ok result => rfl
      | error r => rfl
    rw [hanswer]
    cases gate with
    | ok d => exact iff_of_true (hnext d) ⟨hrole, fun r hr => by cases hr⟩
    | error r =>
      refine ⟨fun h => ⟨hrole, fun r' hr' => ?_⟩, fun h => h.2 r rfl⟩
      rw [← Except.error.inj hr']
      exact h
  · have hanswer : (answer f permissions t ⟨i, env, req⟩).2.status = 403 := by
      simp only [answer, serve, requireRole, hfloor, hrole]
      rfl
    exact iff_of_false (fun h => h hanswer) (fun h => hrole h.1)

variable {log : List Event} {row : DashboardRow}

theorem getDashboard_of_row (h : Recorded t log) (hrow : row ∈ t.dashboards)
    (hid : uuidColumn id = some row.id) :
    getDashboard t row.tenantID id = .ok (row, listPanels t row.id) := by
  have hkey : dashboardKey row.tenantID id = .ok row.id := by
    simp only [dashboardKey, hid, if_neg (h.tenant row hrow)]
  have hselect : selectDashboard t row.tenantID row.id = some row := by
    cases hfound : selectDashboard t row.tenantID row.id with
    | none =>
      have hnot := List.find?_eq_none.mp hfound row hrow
      exact absurd (decide_eq_true ⟨rfl, rfl⟩) hnot
    | some row' =>
      have hsame : row'.id = row.id := (selectDashboard_eq_some hfound).1
      rw [List.inj_on_of_nodup_map h.keys (List.mem_of_find?_eq_some hfound) hrow hsame]
  rw [getDashboard, bind_of_ok hkey, hselect]
  rfl

theorem require_forbidden {condition : Bool} {next : Unit → Except Response DashboardRow}
    (hnext : ∀ r, next () = .error r → r.status ≠ 403) :
    (∀ r, (require condition forbidden >>= next) = .error r → r.status ≠ 403) ↔
      condition = true := by
  cases condition with
  | true => exact iff_of_true hnext rfl
  | false => exact iff_of_false (fun h => h forbidden rfl rfl) Bool.false_ne_true

variable (h : Recorded t log) (hrow : row ∈ t.dashboards)
  (htenant : requestTenant (some i) = row.tenantID)
include h hrow htenant

theorem answer_edit_status (hcheck : req.check = some (id, .edit)) (hform : req.wellFormed f = true)
    (hid : uuidColumn id = some row.id) :
    (answer f permissions t ⟨i, env, req⟩).2.status ≠ 403 ↔
      i.role.satisfies .editor = true ∧
        canEditDashboard ⟨f, some (some i), permissions⟩ t (some i) row = true := by
  obtain ⟨next, hdispatch, hnext⟩ :=
    dispatch_edit ⟨f, some (some i), permissions⟩ env t i hcheck hform
  have hget := getDashboard_of_row h hrow hid
  rw [answer_status (minRole_of_check hcheck) hdispatch hnext, editable, htenant, hget]
  exact and_congr_right (fun _ => require_forbidden nofun)

theorem answer_manage_status (hcheck : req.check = some (id, .manage))
    (hid : uuidColumn id = some row.id) :
    (answer f permissions t ⟨i, env, req⟩).2.status ≠ 403 ↔
      i.role.satisfies .editor = true ∧
        canManageGrants ⟨f, some (some i), permissions⟩ (some i) row = true := by
  obtain ⟨next, hdispatch, hnext⟩ := dispatch_manage ⟨f, some (some i), permissions⟩ env t i hcheck
  have hget := getDashboard_of_row h hrow hid
  rw [answer_status (minRole_of_check hcheck) hdispatch hnext, manageable, htenant, hget]
  refine and_congr_right (fun _ => require_forbidden (fun r hr => ?_))
  cases permissions with
  | true => cases hr
  | false =>
    obtain rfl := Except.error.inj hr
    exact (by decide : 501 ≠ 403)

end Status

/-! ### Who may edit, who may hand out grants -/

/-- The role that a caller needs without a grant. -/
def bar (created : Prop) [Decidable created] : Role := if created then .editor else .admin

theorem satisfies_editor_of_admin {role : Role} (h : role.satisfies .admin = true) :
    role.satisfies .editor = true := by
  cases role with
  | other name => simp [Role.satisfies, roleRank] at h
  | viewer | editor | service => exact absurd h (by decide)
  | admin | owner => decide

/-- An admin, an owner, or the editor who created the dashboard. -/
theorem reaches_bar_iff (role : Option Role) (created : Prop) [Decidable created] :
    role.any (fun r => r.satisfies (bar created)) = true ↔
      role = some .admin ∨ role = some .owner ∨ role = some .editor ∧ created := by
  by_cases hcreated : created
  · rw [bar, if_pos hcreated]
    cases role with
    | none => simp
    | some r =>
      cases r with
      | other name => simp [Role.satisfies, roleRank]
      | _ => simp [Role.satisfies, roleRank, hcreated]
  · rw [bar, if_neg hcreated]
    cases role with
    | none => simp
    | some r =>
      cases r with
      | other name => simp [Role.satisfies, roleRank]
      | _ => simp [Role.satisfies, roleRank, hcreated]

theorem uuidOut_ne_anonymous (u : Uuid) : uuidOut u ≠ "anonymous".toList := by
  intro h
  have hnone : uuidIn "anonymous".toList = none := by decide
  rw [← h, uuidIn_uuidOut] at hnone
  cases hnone

section Access
variable {f : Formats} {t : Tables} {log : List Event} {row : DashboardRow} {u : Uuid}
  {i : Identity} (h : Recorded t log)
include h

theorem Recorded.createdBy_iff (hrow : row ∈ t.dashboards) :
    uuidOut u = row.createdBy ↔ creatorOf row.id log = some (uuidOut u) := by
  obtain ⟨text, htext, hcreatedBy⟩ := h.creator row hrow
  rw [hcreatedBy, htext, Option.some_inj, orDefault]
  by_cases hnil : text = []
  · rw [if_pos hnil, hnil]
    exact iff_of_false (uuidOut_ne_anonymous u) (uuidOut_ne_nil u).symm
  · rw [if_neg hnil, eq_comm]

theorem Recorded.grantedRole_eq (d : Uuid) : grantedRole t d (uuidOut u) = latestGrant d u log := by
  rw [← h.grant, grantedRole, uuidColumn_uuidOut, grantOn, Option.map_eq_bind]
  rfl

theorem Recorded.latest_editor_iff (d : Uuid) :
    (latestGrant d u log).any (fun role => role.satisfies .editor) = true ↔
      latestGrant d u log = some .editor := by
  cases hlatest : latestGrant d u log with
  | none => simp
  | some role =>
    have hrole := of_decide_eq_true (h.grantRole d u role hlatest)
    obtain rfl | rfl := hrole
    · decide
    · decide

variable (hrow : row ∈ t.dashboards) (hu : i.userID = uuidOut u)
include hrow hu

theorem canManageGrants_iff :
    i.role.satisfies .editor = true ∧ canManageGrants ⟨f, some (some i), true⟩ (some i) row = true ↔
      i.role.satisfies (bar (creatorOf row.id log = some (uuidOut u))) = true := by
  have hcreated := h.createdBy_iff (u := u) hrow
  have hadmin := @satisfies_editor_of_admin i.role
  simp only [canManageGrants, hu, Bool.or_eq_true, decide_eq_true_eq, hcreated, ne_eq,
    uuidOut_ne_nil, not_false_eq_true, true_and]
  by_cases hown : creatorOf row.id log = some (uuidOut u)
  · simp [bar, hown]
  · simpa [bar, hown] using hadmin

theorem canEditDashboard_iff :
    i.role.satisfies .editor = true ∧
        canEditDashboard ⟨f, some (some i), true⟩ t (some i) row = true ↔
      i.role.satisfies (bar (creatorOf row.id log = some (uuidOut u))) = true ∨
        i.role.satisfies .editor = true ∧ latestGrant row.id u log = some .editor := by
  have hedit : canEditDashboard ⟨f, some (some i), true⟩ t (some i) row = true ↔
      canManageGrants ⟨f, some (some i), true⟩ (some i) row = true ∨
        latestGrant row.id u log = some .editor := by
    rw [← h.latest_editor_iff, ← h.grantedRole_eq, ← hu]
    simp [canEditDashboard, canManageGrants]
  rw [hedit, and_or_left, canManageGrants_iff h hrow hu]

end Access

/-- What a caller may do with a dashboard: edit it as an admin or owner, as the editor who
created it or by a grant, and hand out grants in the first two cases only. -/
structure Allowed (f : Formats) (s : State) (row : DashboardRow) (u : Uuid) (i : Identity) :
    Prop where
  edit : ∀ env (req : Request) id, req.check = some (id, .edit) → req.wellFormed f = true →
    uuidColumn id = some row.id →
      ((answer f true s.tables ⟨i, env, req⟩).2.status ≠ 403 ↔
        s.tenantRole row.tenantID u = some .admin ∨ s.tenantRole row.tenantID u = some .owner ∨
        s.tenantRole row.tenantID u = some .editor ∧ creatorOf row.id s.log = some (uuidOut u) ∨
        latestGrant row.id u s.log = some .editor)
  manage : ∀ env (req : Request) id, req.check = some (id, .manage) → uuidColumn id = some row.id →
    ((answer f true s.tables ⟨i, env, req⟩).2.status ≠ 403 ↔
      s.tenantRole row.tenantID u = some .admin ∨ s.tenantRole row.tenantID u = some .owner ∨
      s.tenantRole row.tenantID u = some .editor ∧ creatorOf row.id s.log = some (uuidOut u))

/-- The role of the session and the one in the tenant are on the same side of the bar, and there
is no grant to edit for someone below an editor. -/
def GrantUsable (s : State) (row : DashboardRow) (u : Uuid) (i : Identity) : Prop :=
  i.role.satisfies (bar (creatorOf row.id s.log = some (uuidOut u))) =
      (s.tenantRole row.tenantID u).any
        (fun r => r.satisfies (bar (creatorOf row.id s.log = some (uuidOut u)))) ∧
    ¬ (latestGrant row.id u s.log = some .editor ∧ i.role.satisfies .editor = false)

theorem bar_satisfies_editor {role : Role} {created : Prop} [Decidable created]
    (h : role.satisfies (bar created) = true) : role.satisfies .editor = true := by
  by_cases hcreated : created
  · rwa [bar, if_pos hcreated] at h
  · rw [bar, if_neg hcreated] at h
    exact satisfies_editor_of_admin h

theorem grants_only_add_iff {f : Formats} {s₀ s : State} (hblank : s₀.Blank) {ops : List Op}
    (hrun : run (step f) s₀ ops = some s) {row : DashboardRow} (hrow : row ∈ s.dashboards)
    {u : Uuid} {i : Identity} (hu : i.userID = uuidOut u)
    (htenant : requestTenant (some i) = row.tenantID) :
    Allowed f s row u i ↔ GrantUsable s row u i := by
  have h := recorded_of_run hblank hrun
  have hbar := reaches_bar_iff (s.tenantRole row.tenantID u)
    (creatorOf row.id s.log = some (uuidOut u))
  have heditor := @bar_satisfies_editor i.role (creatorOf row.id s.log = some (uuidOut u)) _
  have hmanage (env : Env) (req : Request) (id : Text) (hcheck : req.check = some (id, .manage))
      (hid : uuidColumn id = some row.id) :
      (answer f true s.tables ⟨i, env, req⟩).2.status ≠ 403 ↔
        i.role.satisfies (bar (creatorOf row.id s.log = some (uuidOut u))) = true :=
    (answer_manage_status h hrow htenant hcheck hid).trans (canManageGrants_iff h hrow hu)
  have hedit (env : Env) (req : Request) (id : Text) (hcheck : req.check = some (id, .edit))
      (hform : req.wellFormed f = true) (hid : uuidColumn id = some row.id) :
      (answer f true s.tables ⟨i, env, req⟩).2.status ≠ 403 ↔
        i.role.satisfies (bar (creatorOf row.id s.log = some (uuidOut u))) = true ∨
          i.role.satisfies .editor = true ∧ latestGrant row.id u s.log = some .editor :=
    (answer_edit_status h hrow htenant hcheck hform hid).trans (canEditDashboard_iff h hrow hu)
  constructor
  · intro hallowed
    -- a list of the grants and a deletion are enough to tell
    have hid := uuidColumn_uuidOut row.id
    have hlist := (hmanage ⟨fun _ => 0, 0⟩ (.listPermissions (uuidOut row.id)) _ rfl hid).symm.trans
      (hallowed.manage _ _ _ rfl hid)
    have hdelete := (hedit ⟨fun _ => 0, 0⟩ (.delete (uuidOut row.id)) _ rfl rfl hid).symm.trans
      (hallowed.edit _ _ _ rfl rfl hid)
    refine ⟨Bool.eq_iff_iff.mpr (hlist.trans hbar.symm), ?_⟩
    rintro ⟨hgrant, hbelow⟩
    obtain hreaches | ⟨hfloor, -⟩ := hdelete.mpr (.inr (.inr (.inr hgrant)))
    · exact absurd (heditor hreaches) (by rw [hbelow]; exact Bool.false_ne_true)
    · exact absurd hfloor (by rw [hbelow]; exact Bool.false_ne_true)
  · rintro ⟨hsame, husable⟩
    rw [← hsame] at hbar
    refine ⟨?_, ?_⟩
    · intro env req id hcheck hform hid
      have hgrant : i.role.satisfies .editor = true ∧ latestGrant row.id u s.log = some .editor ↔
          latestGrant row.id u s.log = some .editor := by
        refine ⟨And.right, fun hgrant => ⟨?_, hgrant⟩⟩
        by_contra hbelow
        exact husable ⟨hgrant, Bool.not_eq_true _ ▸ hbelow⟩
      rw [hedit env req id hcheck hform hid, hbar, hgrant, or_assoc, or_assoc]
    · intro env req id hcheck hid
      rw [hmanage env req id hcheck hid, hbar]

section Example

/-- A tenant of two users, before anything happens. -/
def twoUsers : State :=
  ⟨⟨[7, 8], (∅ : AList (fun _ : Text => RbacStore.Tenant)).insert tenantA RbacStore.newTenant, ∅,
    []⟩, [], [], [], []⟩

/-- The admin makes a dashboard and lets the other user, who has a role, edit it. -/
def sharing (role : Role) : List Op :=
  [.setMembership tenantA (uuidOut 7) .admin, .setMembership tenantA (uuidOut 8) role,
    .call (adminCall (.create (.ok newDashboard))),
    .call (adminCall (.setPermission (uuidOut 100) (uuidOut 8) (.ok "editor".toList)))]

def sharedRow : DashboardRow :=
  ⟨100, tenantA, "cpu".toList, [], "-1h".toList, "now".toList, uuidOut 7, 5, 5⟩

/-- An editor can use the grant, but not pass it on. -/
theorem shared_with_editor :
    ∃ s, run (step exampleFormats) twoUsers (sharing .editor) = some s ∧ sharedRow ∈ s.dashboards ∧
      latestGrant 100 8 s.log = some .editor ∧
      Allowed exampleFormats s sharedRow 8 ⟨tenantA, uuidOut 8, .editor⟩ := by
  have hrun : ∃ s, run (step exampleFormats) twoUsers (sharing .editor) = some s ∧
      sharedRow ∈ s.dashboards ∧ latestGrant 100 8 s.log = some .editor ∧
      GrantUsable s sharedRow 8 ⟨tenantA, uuidOut 8, .editor⟩ :=
    ⟨_, rfl, by decide +kernel, by decide +kernel, by decide +kernel, by decide +kernel⟩
  obtain ⟨s, hrun, hrow, hlatest, husable⟩ := hrun
  exact ⟨s, hrun, hrow, hlatest,
    (grants_only_add_iff ⟨rfl, rfl, rfl⟩ hrun hrow rfl rfl).mpr husable⟩

/-- A viewer cannot use it. -/
theorem shared_with_viewer :
    ∃ s, run (step exampleFormats) twoUsers (sharing .viewer) = some s ∧ sharedRow ∈ s.dashboards ∧
      s.tenantRole tenantA 8 = some .viewer ∧ latestGrant 100 8 s.log = some .editor ∧
      ¬ Allowed exampleFormats s sharedRow 8 ⟨tenantA, uuidOut 8, .viewer⟩ := by
  let env : Env := ⟨fun _ => 0, 0⟩
  have hrun : ∃ s, run (step exampleFormats) twoUsers (sharing .viewer) = some s ∧
      sharedRow ∈ s.dashboards ∧ s.tenantRole tenantA 8 = some .viewer ∧
      latestGrant 100 8 s.log = some .editor ∧
      (answer exampleFormats true s.tables
        ⟨⟨tenantA, uuidOut 8, .viewer⟩, env, .delete (uuidOut 100)⟩).2 = forbidden :=
    ⟨_, rfl, by decide +kernel, by decide +kernel, by decide +kernel, by decide +kernel⟩
  obtain ⟨s, hrun, hrow, hrole, hlatest, hrefused⟩ := hrun
  refine ⟨s, hrun, hrow, hrole, hlatest, fun hallowed => ?_⟩
  have hdelete := hallowed.edit env (.delete (uuidOut 100)) _ rfl rfl (uuidColumn_uuidOut 100)
  exact hdelete.mpr (.inr (.inr (.inr hlatest))) (congrArg Response.status hrefused)

end Example

end CairnObs.Dashboards
