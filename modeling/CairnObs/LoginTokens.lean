import CairnObs.GoTime
import CairnObs.RbacStore

/-! `enterprise/internal/session`: the three kinds of token that one key signs, and what each of
them is good for. Nobody else can sign, so a token is what was issued: its JSON object. -/
namespace CairnObs.LoginTokens

open GoText PgColumns Authz RbacStore

/-! ### JSON objects -/

inductive Value
  | str (t : Text)
  | num (n : ℤ)
  deriving DecidableEq

abbrev Payload := List (Text × Value)

/-- A member with `omitempty`. -/
def omitEmpty (key t : Text) : Payload := if t = [] then [] else [(key, .str t)]

/-- A string field of a struct that an object is decoded into: it is filled if its key is there.
`none` is an error. -/
def textField (p : Payload) (key : Text) : Option Text :=
  match p.lookup key with
  | none => some []
  | some (.str t) => some t
  | some (.num _) => none

/-- A `*jwt.NumericDate`. -/
def dateField (p : Payload) (key : Text) : Option (Option ℤ) :=
  match p.lookup key with
  | none => some none
  | some (.num n) => some (some n)
  | some (.str _) => none

/-! ### Claims -/

/-- `jwt.Claims`, as far as the tokens have them. -/
structure RegisteredClaims where
  subject : Text
  issuedAt : Option ℤ
  expiry : Option ℤ

/-- `jwt.NewNumericDate`, in whole seconds. -/
def numericDate (t : ℤ) : ℤ := t/second

def issued (subject : Text) (now ttl : ℤ) : RegisteredClaims :=
  ⟨subject, some (numericDate now), some (numericDate (now+ttl))⟩

def dateMember (key : Text) (date : Option ℤ) : Payload := date.toList.map (fun n => (key, .num n))

def RegisteredClaims.members (c : RegisteredClaims) : Payload :=
  omitEmpty "sub".toList c.subject ++ dateMember "exp".toList c.expiry ++
    dateMember "iat".toList c.issuedAt

def decodeRegistered (p : Payload) : Option RegisteredClaims := do
  let subject ← textField p "sub".toList
  let issuedAt ← dateField p "iat".toList
  let expiry ← dateField p "exp".toList
  some ⟨subject, issuedAt, expiry⟩

/-- `session.Claims`. -/
structure Claims where
  tenantID : Text
  userID : Text
  role : Text
  registered : RegisteredClaims

def Claims.payload (c : Claims) : Payload :=
  omitEmpty "tenant_id".toList c.tenantID ++ omitEmpty "user_id".toList c.userID ++
    [("role".toList, .str c.role)] ++ c.registered.members

def decodeClaims (p : Payload) : Option Claims := do
  let tenantID ← textField p "tenant_id".toList
  let userID ← textField p "user_id".toList
  let role ← textField p "role".toList
  let registered ← decodeRegistered p
  some ⟨tenantID, userID, role, registered⟩

structure PendingLoginClaims where
  userID : Text
  registered : RegisteredClaims

def PendingLoginClaims.payload (c : PendingLoginClaims) : Payload :=
  [("pending_user_id".toList, .str c.userID)] ++ c.registered.members

def decodePendingLogin (p : Payload) : Option PendingLoginClaims := do
  let userID ← textField p "pending_user_id".toList
  let registered ← decodeRegistered p
  some ⟨userID, registered⟩

/-! ### Issuing and validating -/

def humanSessionTTL : ℤ := 12*3600*second

def serviceTokenTTL : ℤ := 24*365*3600*second

def pendingLoginTTL : ℤ := 10*60*second

def issueUserSession (now : ℤ) (tenantID userID role : Text) : Payload :=
  Claims.payload ⟨tenantID, userID, role, issued userID now humanSessionTTL⟩

def issueServiceToken (now : ℤ) (subject : Text) : Payload :=
  Claims.payload ⟨[], [], "service".toList, issued subject now serviceTokenTTL⟩

def issuePendingLogin (now : ℤ) (userID : Text) : Payload :=
  PendingLoginClaims.payload ⟨userID, issued userID now pendingLoginTTL⟩

/-! `validAt c now` is `Claims.Validate(jwt.Expected{})` at `now`: the package compares the dates
of the claims with the clock. -/

section Validating
variable (validAt : RegisteredClaims → ℤ → Bool)

def validatePendingLogin (now : ℤ) (token : Payload) : Option Text := do
  let claims ← decodePendingLogin token
  if validAt claims.registered now ∧ claims.userID ≠ [] then some claims.userID else none

def validate (now : ℤ) (token : Payload) : Option Claims := do
  let claims ← decodeClaims token
  if validAt claims.registered now then some claims else none

/-! ### The handlers -/

structure AuthorizeResponse where
  tenantID : Text
  userID : Text
  role : Text

/-- `handleAuthorize`: the bearer token, and without one the session cookie. -/
def handleAuthorize (now : ℤ) (bearer cookie : Option Payload) : Option AuthorizeResponse := do
  let token ← bearer.or cookie
  let claims ← validate validAt now token
  some ⟨claims.tenantID, claims.userID, claims.role⟩

/-- `HTTPAuthorizer.Authorize`. -/
def authorize (now : ℤ) (bearer cookie : Option Payload) : Option Identity :=
  (handleAuthorize validAt now bearer cookie).map
    (fun r => ⟨r.tenantID, r.userID, Role.ofText r.role⟩)

/-- `handleSelectTenant` with the pending-login cookie and the `tenant_id` of a body that decodes;
the session that it issues. -/
def handleSelectTenant (now issueNow : ℤ) (cookie : Option Payload) (body : Option Text) (db : DB) :
    Option Payload := do
  let userID ← cookie.bind (validatePendingLogin validAt now)
  let tenantID ← body
  if tenantID = [] then none
  else
    let memberships ← listMembershipsForUser db userID
    let m ← memberships.find? (fun m => decide (m.1 = tenantID))
    some (issueUserSession issueNow tenantID userID m.2.text)

end Validating

/-! ### Keys -/

variable {key : Text} {bearer : Option Payload} {minRole : Role}

theorem lookup_eq_none_of_keys {p : Payload} {keys : List Text} (h : ∀ m ∈ p, m.1 ∈ keys)
    (hkey : key ∉ keys) : p.lookup key = none := by
  rw [List.lookup_eq_none_iff]
  intro m hm
  simp only [bne_iff_ne, ne_eq]
  rintro rfl
  exact hkey (h m hm)

theorem mem_omitEmpty {t : Text} {m : Text × Value} (h : m ∈ omitEmpty key t) : m.1 = key := by
  unfold omitEmpty at h
  split_ifs at h
  · cases h
  · rw [List.mem_singleton.mp h]

theorem mem_dateMember {date : Option ℤ} {m : Text × Value} (h : m ∈ dateMember key date) :
    m.1 = key := by
  obtain ⟨n, -, rfl⟩ := List.mem_map.mp h
  rfl

def registeredKeys : List Text := ["sub".toList, "exp".toList, "iat".toList]

theorem members_keys (c : RegisteredClaims) : ∀ m ∈ c.members, m.1 ∈ registeredKeys := by
  intro m hm
  simp only [RegisteredClaims.members, List.mem_append] at hm
  rcases hm with (hm | hm) | hm
  · rw [mem_omitEmpty hm]
    decide
  · rw [mem_dateMember hm]
    decide
  · rw [mem_dateMember hm]
    decide

/-- A session and a service token have no `pending_user_id`. -/
theorem claims_keys (c : Claims) :
    ∀ m ∈ c.payload,
      m.1 ∈ ["tenant_id".toList, "user_id".toList, "role".toList] ++ registeredKeys := by
  intro m hm
  simp only [Claims.payload, List.mem_append, List.mem_singleton] at hm
  rcases hm with ((hm | hm) | rfl) | hm
  · rw [mem_omitEmpty hm]
    decide
  · rw [mem_omitEmpty hm]
    decide
  · show "role".toList ∈ _
    decide
  · exact List.mem_append_right _ (members_keys c.registered m hm)

/-- A pending login has none of the keys of a session. -/
theorem pending_keys (c : PendingLoginClaims) :
    ∀ m ∈ c.payload, m.1 ∈ ["pending_user_id".toList] ++ registeredKeys := by
  intro m hm
  rcases List.mem_append.mp hm with hm | hm
  · rw [List.mem_singleton.mp hm]
    show "pending_user_id".toList ∈ _
    decide
  · exact List.mem_append_right _ (members_keys c.registered m hm)

/-! ### Kinds of token -/

/-- What a token was issued for. -/
inductive Kind
  | session (tenantID userID : Text) (role : Role) (human : roleAllowed role = true)
  | service (subject : Text)
  | pending (userID : Text)

def Kind.token (now : ℤ) : Kind → Payload
  | .session tenantID userID role _ => issueUserSession now tenantID userID role.text
  | .service subject => issueServiceToken now subject
  | .pending userID => issuePendingLogin now userID

variable {validAt : RegisteredClaims → ℤ → Bool}

theorem validatePendingLogin_claims (now : ℤ) (c : Claims) :
    validatePendingLogin validAt now c.payload = none := by
  have hlookup : c.payload.lookup "pending_user_id".toList = none :=
    lookup_eq_none_of_keys (claims_keys c) (by decide)
  have hfield : textField c.payload "pending_user_id".toList = some [] := by
    rw [textField, hlookup]
  rw [validatePendingLogin, decodePendingLogin, hfield]
  cases decodeRegistered c.payload with
  | none => rfl
  | some registered => simp

variable {now : ℤ} {cookie : Option Payload}

theorem validatePendingLogin_pending {issuedAt : ℤ} {userID u : Text}
    (h : validatePendingLogin validAt now (issuePendingLogin issuedAt userID) = some u) :
    u = userID := by
  have hfield : textField (issuePendingLogin issuedAt userID) "pending_user_id".toList =
      some userID := rfl
  cases hregistered : decodeRegistered (issuePendingLogin issuedAt userID) with
  | none => simp [validatePendingLogin, decodePendingLogin, hregistered] at h
  | some registered =>
    simp only [validatePendingLogin, decodePendingLogin, hfield, hregistered,
      Option.bind_eq_bind, Option.bind_some] at h
    split_ifs at h
    exact (Option.some.inj h).symm

/-- Only a pending login is accepted as one, for the user it was issued for. -/
theorem eq_pending_of_validatePendingLogin {k : Kind} {issuedAt : ℤ} {u : Text}
    (h : validatePendingLogin validAt now (k.token issuedAt) = some u) : k = .pending u := by
  cases k with
  | session tenantID userID role human =>
    cases (validatePendingLogin_claims now _).symm.trans h
  | service subject => cases (validatePendingLogin_claims now _).symm.trans h
  | pending userID => rw [validatePendingLogin_pending h]

/-- The role of a caller who presents a token. -/
theorem role_of_authorize {token : Payload} (htoken : bearer.or cookie = some token) {role : Text}
    (hrole : textField token "role".toList = some role) {identity : Identity}
    (h : authorize validAt now bearer cookie = some identity) :
    identity.role = Role.ofText role := by
  obtain ⟨response, hresponse, rfl⟩ := Option.map_eq_some_iff.mp h
  simp only [handleAuthorize, htoken, Option.bind_eq_bind, Option.bind_some,
    Option.bind_eq_some_iff] at hresponse
  obtain ⟨claims, hclaims, hresponse⟩ := hresponse
  obtain rfl := Option.some.inj hresponse
  simp only [validate, decodeClaims, hrole, Option.bind_eq_bind, Option.bind_some,
    Option.bind_eq_some_iff] at hclaims
  obtain ⟨claims', ⟨tenantID, -, userID, -, registered, -, hdecoded⟩, hvalid⟩ := hclaims
  obtain rfl := Option.some.inj hdecoded
  split_ifs at hvalid
  obtain rfl := Option.some.inj hvalid
  rfl

theorem requireRole_passes
    (h : (requireRole (some (authorize validAt now bearer cookie)) minRole).passes = true) :
    ∃ identity, authorize validAt now bearer cookie = some identity ∧
      identity.role.satisfies minRole = true := by
  cases hidentity : authorize validAt now bearer cookie with
  | none => rw [hidentity] at h; cases h
  | some identity =>
    rw [hidentity] at h
    refine ⟨identity, rfl, ?_⟩
    by_contra hnot
    simp [requireRole, hnot, Access.passes] at h

theorem requireRoleOrService_passes
    (h : (requireRoleOrService (some (authorize validAt now bearer cookie))
      minRole).passes = true) :
    ∃ identity, authorize validAt now bearer cookie = some identity ∧
      (identity.role = .service ∨ identity.role.satisfies minRole = true) := by
  cases hidentity : authorize validAt now bearer cookie with
  | none => rw [hidentity] at h; cases h
  | some identity =>
    rw [hidentity] at h
    refine ⟨identity, rfl, ?_⟩
    by_contra hnot
    simp [requireRoleOrService, hnot, Access.passes] at h

/-- An empty role satisfies nothing that a route asks of people, and neither does a machine. -/
theorem satisfies_human (hhuman : roleAllowed minRole = true) :
    (Role.ofText []).satisfies minRole = false ∧ Role.service.satisfies minRole = false := by
  cases minRole with
  | service | other => cases hhuman
  | _ => decide

/-- A session that `handleSelectTenant` issues. -/
theorem handleSelectTenant_eq_some {issueNow : ℤ} {body : Option Text} {db : DB} {session : Payload}
    (h : handleSelectTenant validAt now issueNow cookie body db = some session) :
    ∃ token userID tenantID role u, cookie = some token ∧
      validatePendingLogin validAt now token = some userID ∧
      session = issueUserSession issueNow tenantID userID role.text ∧
      uuidColumn userID = some u ∧ db.members.lookup (tenantID, u) = some role := by
  simp only [handleSelectTenant, Option.bind_eq_bind, Option.bind_eq_some_iff] at h
  obtain ⟨userID, ⟨token, hcookie, hpending⟩, tenantID, -, h⟩ := h
  split_ifs at h
  simp only [Option.bind_eq_some_iff] at h
  obtain ⟨memberships, hmemberships, m, hm, h⟩ := h
  obtain ⟨u, hu, rfl⟩ := Option.map_eq_some_iff.mp hmemberships
  have htenant : m.1 = tenantID := by simpa using List.find?_some hm
  obtain ⟨e, he, hrow⟩ := List.mem_filterMap.mp (List.mem_of_find?_eq_some hm)
  split_ifs at hrow with huser
  obtain rfl := Option.some.inj hrow
  refine ⟨token, userID, tenantID, e.2, u, hcookie, hpending, (Option.some.inj h).symm, hu, ?_⟩
  rw [← huser, ← htenant]
  exact AList.mem_lookup_iff.mpr he

/-- The kinds of token do not mix, whenever they were issued and are presented. -/
structure KindsApart (validAt : RegisteredClaims → ℤ → Bool) (k : Kind) (issuedAt now : ℤ) :
    Prop where
  accepted : ∀ u, validatePendingLogin validAt now (k.token issuedAt) = some u → k = .pending u
  pending : ∀ u, k = .pending u → ∀ bearer cookie, bearer.or cookie = some (k.token issuedAt) →
    ∀ minRole, roleAllowed minRole = true →
      (requireRole (some (authorize validAt now bearer cookie)) minRole).passes = false ∧
        (requireRoleOrService (some (authorize validAt now bearer cookie)) minRole).passes = false
  service : ∀ subject, k = .service subject →
    ∀ bearer cookie, bearer.or cookie = some (k.token issuedAt) →
      ∀ minRole, roleAllowed minRole = true →
        (requireRole (some (authorize validAt now bearer cookie)) minRole).passes = false
  selected : ∀ issueNow body db session,
    handleSelectTenant validAt now issueNow (some (k.token issuedAt)) body db = some session →
      ∃ userID tenantID role u, k = .pending userID ∧
        session = issueUserSession issueNow tenantID userID role.text ∧
        uuidColumn userID = some u ∧ db.members.lookup (tenantID, u) = some role

example : validatePendingLogin (fun _ _ => true) 0 (Kind.token 0 (.pending "ann".toList)) =
    some "ann".toList := by
  decide

end CairnObs.LoginTokens
