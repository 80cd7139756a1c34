import CairnObs.GuardedRuns
import CairnObs.PgColumns
import Mathlib.Data.List.AList

/-! `UpsertUserBySSO`: which user a login gets, over any sequence of logins. The table is keyed by
the email, which is what the upsert conflicts on. -/
namespace CairnObs.SsoUsers

open GoText PgColumns GuardedRuns

structure UserRow where
  id : Uuid
  displayName : Text
  ssoSubject : Option Text
  deriving DecidableEq

abbrev Users := AList (fun _ : Text => UserRow)

/-- A call of `UpsertUserBySSO`, with the id that it generates and whether the statement fails. -/
structure Login where
  ssoSubject : Text
  email : Text
  displayName : Text
  newID : Uuid
  fails : Bool

def idTaken (users : Users) (id : Uuid) : Bool := users.entries.any (fun e => decide (e.2.id = id))

/-- Whether the statement runs and meets the constraints of the table. -/
def accepts (users : Users) (c : Login) : Bool :=
  decide (c.ssoSubject ≠ [] ∧ c.email ≠ []) && !c.fails &&
    decide (nul ∉ c.email ∧ nul ∉ c.displayName ∧ nul ∉ c.ssoSubject) &&
    ((users.lookup c.email).isSome || !idTaken users c.newID)

/-- The row that is inserted, or the one of the email with its new columns. -/
def upsertedRow (users : Users) (c : Login) : UserRow :=
  match users.lookup c.email with
  | some row => { row with displayName := c.displayName, ssoSubject := some c.ssoSubject }
  | none => ⟨c.newID, c.displayName, some c.ssoSubject⟩

def upsertUserBySSO (users : Users) (c : Login) : Option (Users × UserRow) :=
  if accepts users c then
    some (users.insert c.email (upsertedRow users c), upsertedRow users c)
  else none

/-! ### Any number of logins -/

/-- The table, and beside it which user each successful login was given. -/
abbrev Record := Users × List (Text × Uuid)

def login (x : Record) (c : Login) : Option Record :=
  match upsertUserBySSO x.1 c with
  | some (users, row) => some (users, (c.ssoSubject, row.id) :: x.2)
  | none => some x

/-- The user that a login is given is the one that its subject was always given, and is nobody
else's. -/
def GivenOwnUser (x : Record) (c : Login) : Prop :=
  ∀ users row, upsertUserBySSO x.1 c = some (users, row) →
    (∀ id, (c.ssoSubject, id) ∈ x.2 → id = row.id) ∧
    ∀ email before subject, x.1.lookup email = some before → before.id = row.id →
      before.ssoSubject = some subject → subject = c.ssoSubject

/-- The email of the login is that of its subject's row, if there is one, and of no other
subject's. -/
def OneEmail (x : Record) (c : Login) : Prop :=
  accepts x.1 c = true →
    (∀ row subject, x.1.lookup c.email = some row → row.ssoSubject = some subject →
      subject = c.ssoSubject) ∧
    ∀ email row, x.1.lookup email = some row → row.ssoSubject = some c.ssoSubject →
      email = c.email

structure LoginsInv (x : Record) : Prop where
  unique : ∀ email row email' row', x.1.lookup email = some row → x.1.lookup email' = some row' →
    row.id = row'.id → email = email'
  given : ∀ email row subject, x.1.lookup email = some row → row.ssoSubject = some subject →
    (subject, row.id) ∈ x.2
  kept : ∀ subject id, (subject, id) ∈ x.2 →
    ∃ email row, x.1.lookup email = some row ∧ row.id = id ∧ row.ssoSubject = some subject

theorem upsertedRow_ssoSubject (users : Users) (c : Login) :
    (upsertedRow users c).ssoSubject = some c.ssoSubject := by
  unfold upsertedRow
  split <;> rfl

variable {c : Login} {x : Record}

theorem upsertedRow_id {users : Users} {row : UserRow} (h : users.lookup c.email = some row) :
    (upsertedRow users c).id = row.id := by
  simp [upsertedRow, h]

/-- A row with another email has another id. -/
theorem email_of_upsertedRow_id (hx : LoginsInv x) (hc : accepts x.1 c = true) {email : Text}
    {row : UserRow} (hrow : x.1.lookup email = some row) (hid : row.id = (upsertedRow x.1 c).id) :
    email = c.email := by
  cases hold : x.1.lookup c.email with
  | some old => exact hx.unique _ _ _ _ hrow hold (hid.trans (upsertedRow_id hold))
  | none =>
    -- the id is new
    have hfree : idTaken x.1 c.newID = false := by
      simpa [accepts, hold] using (Bool.and_eq_true_iff.mp hc).2
    have hid' : row.id = c.newID := by simpa [upsertedRow, hold] using hid
    have hmem := AList.mem_lookup_iff.mp hrow
    have hany := List.any_eq_false.mp hfree _ hmem
    simp [hid'] at hany

theorem givenOwnUser_iff (hx : LoginsInv x) (c : Login) : GivenOwnUser x c ↔ OneEmail x c := by
  by_cases hc : accepts x.1 c = true
  · have hupsert : upsertUserBySSO x.1 c =
        some (x.1.insert c.email (upsertedRow x.1 c), upsertedRow x.1 c) := if_pos hc
    constructor
    · intro hgiven _
      obtain ⟨hsame, hnobody⟩ := hgiven _ _ hupsert
      refine ⟨fun row subject hrow => hnobody _ _ _ hrow (upsertedRow_id hrow).symm, ?_⟩
      intro email row hrow hsubject
      exact email_of_upsertedRow_id hx hc hrow (hsame _ (hx.given _ _ _ hrow hsubject))
    · intro hone users row h
      obtain ⟨hemail, hsubject⟩ := hone hc
      obtain ⟨-, rfl⟩ := Prod.mk.inj (Option.some.inj (hupsert.symm.trans h))
      constructor
      · intro id hid
        obtain ⟨email, old, hold, rfl, hs⟩ := hx.kept _ _ hid
        obtain rfl := hsubject _ _ hold hs
        exact (upsertedRow_id hold).symm
      · intro email before subject hbefore hid hs
        obtain rfl := email_of_upsertedRow_id hx hc hbefore hid
        exact hemail _ _ hbefore hs
  · have hrefused : upsertUserBySSO x.1 c = none := if_neg hc
    refine iff_of_true (fun users row h => ?_) (fun h => absurd h hc)
    cases hrefused.symm.trans h

theorem login_inv {y : Record} (hx : LoginsInv x) (hone : OneEmail x c) (h : login x c = some y) :
    LoginsInv y := by
  by_cases hc : accepts x.1 c = true
  · have hy : y = (x.1.insert c.email (upsertedRow x.1 c),
        (c.ssoSubject, (upsertedRow x.1 c).id) :: x.2) := by
      simpa [login, upsertUserBySSO, hc] using h.symm
    subst hy
    have hself : (x.1.insert c.email (upsertedRow x.1 c)).lookup c.email =
        some (upsertedRow x.1 c) := AList.lookup_insert _
    have hother {email : Text} (hne : email ≠ c.email) :
        (x.1.insert c.email (upsertedRow x.1 c)).lookup email = x.1.lookup email :=
      AList.lookup_insert_ne hne
    refine ⟨?_, ?_, ?_⟩
    · intro email row email' row' hrow hrow' hid
      dsimp only at hrow hrow'
      by_cases hemail : email = c.email
      · by_cases hemail' : email' = c.email
        · rw [hemail, hemail']
        · rw [hother hemail'] at hrow'
          rw [hemail, hself, Option.some.injEq] at hrow
          exact absurd (email_of_upsertedRow_id hx hc hrow' (hid.symm.trans (hrow ▸ rfl))) hemail'
      · rw [hother hemail] at hrow
        by_cases hemail' : email' = c.email
        · rw [hemail', hself, Option.some.injEq] at hrow'
          exact absurd (email_of_upsertedRow_id hx hc hrow (hid.trans (hrow' ▸ rfl))) hemail
        · rw [hother hemail'] at hrow'
          exact hx.unique _ _ _ _ hrow hrow' hid
    · intro email row subject hrow hsubject
      dsimp only at hrow
      by_cases hemail : email = c.email
      · rw [hemail, hself, Option.some.injEq] at hrow
        subst hrow
        rw [upsertedRow_ssoSubject, Option.some.injEq] at hsubject
        rw [hsubject]
        exact List.mem_cons_self
      · rw [hother hemail] at hrow
        exact List.mem_cons_of_mem _ (hx.given _ _ _ hrow hsubject)
    · intro subject id hid
      rcases List.mem_cons.mp hid with hnew | hold
      · obtain ⟨rfl, rfl⟩ := Prod.mk.inj hnew
        exact ⟨c.email, _, hself, rfl, upsertedRow_ssoSubject _ _⟩
      · obtain ⟨email, row, hrow, rfl, hsubject⟩ := hx.kept _ _ hold
        by_cases hemail : email = c.email
        · -- its subject is not overwritten by another one
          subst hemail
          obtain rfl := (hone hc).1 _ _ hrow hsubject
          exact ⟨c.email, _, hself, upsertedRow_id hrow, upsertedRow_ssoSubject _ _⟩
        · exact ⟨email, row, (hother hemail).trans hrow, rfl, hsubject⟩
  · have hy : y = x := by simpa [login, upsertUserBySSO, hc] using h.symm
    rw [hy]
    exact hx

theorem one_subject_one_user_iff {users : Users}
    (hunique : ∀ email row email' row', users.lookup email = some row →
      users.lookup email' = some row' → row.id = row'.id → email = email')
    (hnone : ∀ email row, users.lookup email = some row → row.ssoSubject = none)
    (cs : List Login) :
    Meets login GivenOwnUser (users, []) cs ↔ Meets login OneEmail (users, []) cs := by
  have hstart : LoginsInv (users, []) := by
    refine ⟨hunique, fun email row subject hrow hsubject => ?_, nofun⟩
    rw [hnone email row hrow] at hsubject
    cases hsubject
  exact meets_congr (fun _ _ _ hx hone h => login_inv hx hone h)
    (fun _ c hx => givenOwnUser_iff hx c) hstart

/-- A user who was created by an admin before the first login. -/
def invited : Users := AList.insert "ann@acme.test".toList ⟨1, "Ann".toList, none⟩ ∅

def loginAs (subject email : String) (newID : Uuid) : Login :=
  ⟨subject.toList, email.toList, email.toList, newID, false⟩

def annTwice : List Login :=
  [loginAs "ann" "ann@acme.test" 2, loginAs "bob" "bob@acme.test" 3,
    loginAs "ann" "ann@acme.test" 4]

/-- The condition, row by row. -/
theorem oneEmail_of_entries (h : ∀ e ∈ x.1.entries,
      (e.1 = c.email → e.2.ssoSubject = none ∨ e.2.ssoSubject = some c.ssoSubject) ∧
        (e.2.ssoSubject = some c.ssoSubject → e.1 = c.email)) : OneEmail x c := by
  refine fun _ => ⟨fun row subject hrow hsubject => ?_, fun email row hrow => ?_⟩
  · rcases (h _ (AList.mem_lookup_iff.mp hrow)).1 rfl with hnone | hsome
    · cases hsubject.symm.trans hnone
    · exact Option.some.inj (hsubject.symm.trans hsome)
  · exact (h _ (AList.mem_lookup_iff.mp hrow)).2

theorem annTwice_given_own_user : Meets login GivenOwnUser (invited, []) annTwice := by
  have hrow {email : Text} {row : UserRow} (h : invited.lookup email = some row) :
      email = "ann@acme.test".toList ∧ row = ⟨1, "Ann".toList, none⟩ := by
    by_cases hemail : email = "ann@acme.test".toList
    · rw [hemail, invited, AList.lookup_insert, Option.some.injEq] at h
      exact ⟨hemail, h.symm⟩
    · rw [invited, AList.lookup_insert_ne hemail] at h
      cases h
  refine (one_subject_one_user_iff ?_ ?_ annTwice).mpr ?_
  · intro email row email' row' h h' _
    rw [(hrow h).1, (hrow h').1]
  · intro email row h
    rw [(hrow h).2]
  · exact .cons (oneEmail_of_entries (by decide +kernel)) rfl
      (.cons (oneEmail_of_entries (by decide +kernel)) rfl
        (.cons (oneEmail_of_entries (by decide +kernel)) rfl trivial))

/-- The subject comes back with another email and is given another user; and the next subject is
given the first user. -/
theorem changed_email_given_other_user :
    ∃ x, run login (invited, []) [loginAs "ann" "ann@acme.test" 2,
        loginAs "ann" "ann@new.test" 3, loginAs "eve" "ann@acme.test" 4] = some x ∧
      x.2 = [("eve".toList, 1), ("ann".toList, 3), ("ann".toList, 1)] :=
  ⟨_, rfl, by decide +kernel⟩

end CairnObs.SsoUsers
