import CairnObs.GoText

/-! `api/authz`: roles, identities and the role floor of a route. -/
namespace CairnObs.Authz

open GoText

/-- `authz.Role` is a string; only five of its values have a meaning. -/
inductive Role
  | viewer
  | editor
  | admin
  | owner
  | service
  | other (name : Text)
  deriving DecidableEq, Repr

def Role.text : Role → Text
  | .viewer => "viewer".toList
  | .editor => "editor".toList
  | .admin => "admin".toList
  | .owner => "owner".toList
  | .service => "service".toList
  | .other name => name

/-- `authz.Role(s)`. -/
def Role.ofText (s : Text) : Role :=
  if s = "viewer".toList then .viewer
  else if s = "editor".toList then .editor
  else if s = "admin".toList then .admin
  else if s = "owner".toList then .owner
  else if s = "service".toList then .service
  else .other s

def roleRank : Role → ℕ
  | .viewer => 1
  | .editor => 2
  | .admin => 3
  | .owner => 4
  | _ => 0

def Role.satisfies (r required : Role) : Bool :=
  if required = .service ∨ r = .service then decide (r = required)
  else decide (roleRank required ≤ roleRank r)

theorem satisfies_owner_iff (r : Role) : r.satisfies .owner = true ↔ r = .owner := by
  cases r with
  | other name => simp [Role.satisfies, roleRank]
  | _ => decide

structure Identity where
  tenantID : Text
  userID : Text
  role : Role
  deriving DecidableEq, Repr

/-- How `RequireRole` leaves a request: refused, or passed on with the identity in its
context. A nil authorizer passes everything on, without an identity. -/
inductive Access
  | unauthorized
  | forbidden
  | pass (identity : Option Identity)
  deriving DecidableEq, Repr

/-- `RequireRole`; `authorizer` is none for the nil authorizer, else what it answers. -/
def requireRole (authorizer : Option (Option Identity)) (minRole : Role) : Access :=
  match authorizer with
  | none => .pass none
  | some none => .unauthorized
  | some (some identity) =>
    if identity.role.satisfies minRole then .pass (some identity) else .forbidden

/-- `RequireRoleOrService`. -/
def requireRoleOrService (authorizer : Option (Option Identity)) (minRole : Role) : Access :=
  match authorizer with
  | none => .pass none
  | some none => .unauthorized
  | some (some identity) =>
    if identity.role = .service ∨ identity.role.satisfies minRole then .pass (some identity)
    else .forbidden

def Access.passes : Access → Bool
  | .pass _ => true
  | _ => false

/-- The identity of a request that is passed on is the one that the authorizer answers. -/
theorem requireRole_pass {authorizer : Option (Option Identity)} {minRole : Role}
    {identity : Option Identity} (h : requireRole authorizer minRole = .pass identity) :
    authorizer.join = identity := by
  unfold requireRole at h
  split at h
  · cases h
    rfl
  · cases h
  · split_ifs at h
    cases h
    rfl

/-- `Handler.tenantID` of the API packages: the tenant of the identity in the context. -/
def requestTenant : Option Identity → Text
  | some i => if i.tenantID = [] then "default".toList else i.tenantID
  | none => "default".toList

theorem requestTenant_ne_nil (identity : Option Identity) : requestTenant identity ≠ [] := by
  cases identity with
  | none => decide
  | some i =>
    by_cases h : i.tenantID = []
    · have heq : requestTenant (some i) = "default".toList := if_pos h
      rw [heq]
      decide
    · have heq : requestTenant (some i) = i.tenantID := if_neg h
      rw [heq]
      exact h

end CairnObs.Authz
