import CairnObs.GoText
import Mathlib.Data.List.AList

/-! Access control of a ClickHouse server: databases, users with their passwords, and what is
granted to them. A new user may read `system` until that is revoked. -/
namespace ClickHouse

open GoText

inductive Privilege
  | select
  | insert
  deriving DecidableEq, Repr

structure Server where
  databases : List Text
  users : AList (fun _ : Text => Text)
  grants : List (Text × Privilege × Text)

def system : Text := "system".toList

inductive Statement
  | createDatabase (database : Text)
  | createUser (user password : Text)
  | grant (database user : Text)
  | revokeSystem (user : Text)

def Server.apply (s : Server) : Statement → Option Server
  | .createDatabase database =>
    some { s with
      databases := if database ∈ s.databases then s.databases else database :: s.databases }
  | .createUser user password =>
    if user ∈ s.users then none
    else some { s with
      users := s.users.insert user password
      grants := (user, .select, system) :: s.grants }
  | .grant database user =>
    if user ∈ s.users then
      some { s with grants := (user, .select, database) :: (user, .insert, database) :: s.grants }
    else none
  | .revokeSystem user =>
    if user ∈ s.users then
      some { s with grants := s.grants.filter (fun g => decide (g ≠ (user, .select, system))) }
    else none

/-! ### Reading a statement -/

def backquote : Char := Char.ofNat 96

def backslash : Char := Char.ofNat 92

/-- A quoted text up to its closing quote. A quote in it is doubled or escaped. -/
def readQuoted (quote : Char) : Text → Option (Text × Text)
  | [] => none
  | [c] => if c = quote then some ([], []) else none
  | c :: d :: cs =>
    if c = quote then
      if d = quote then (readQuoted quote cs).map (fun r => (quote :: r.1, r.2))
      else some ([], d :: cs)
    else if c = backslash then (readQuoted quote cs).map (fun r => (d :: r.1, r.2))
    else (readQuoted quote (d :: cs)).map (fun r => (c :: r.1, r.2))

def createDatabaseHead : Text := "CREATE DATABASE IF NOT EXISTS `".toList

def createUserHead : Text := "CREATE USER `".toList

def identifiedBy : Text := " IDENTIFIED WITH plaintext_password BY '".toList

def grantHead : Text := "GRANT SELECT, INSERT ON `".toList

def grantTo : Text := ".* TO `".toList

def revokeHead : Text := "REVOKE SELECT ON system.* FROM `".toList

/-- The last part of a statement. -/
def atEnd {α : Type} (a : α) (rest : Text) : Option α := if rest = [] then some a else none

def parseCreateDatabase (sql : Text) : Option Statement := do
  let rest ← sql.dropPrefix? createDatabaseHead
  let (database, rest) ← readQuoted backquote rest
  atEnd (.createDatabase database) rest

def parseCreateUser (sql : Text) : Option Statement := do
  let rest ← sql.dropPrefix? createUserHead
  let (user, rest) ← readQuoted backquote rest
  let rest ← rest.dropPrefix? identifiedBy
  let (password, rest) ← readQuoted '\'' rest
  atEnd (.createUser user password) rest

def parseGrant (sql : Text) : Option Statement := do
  let rest ← sql.dropPrefix? grantHead
  let (database, rest) ← readQuoted backquote rest
  let rest ← rest.dropPrefix? grantTo
  let (user, rest) ← readQuoted backquote rest
  atEnd (.grant database user) rest

def parseRevoke (sql : Text) : Option Statement := do
  let rest ← sql.dropPrefix? revokeHead
  let (user, rest) ← readQuoted backquote rest
  atEnd (.revokeSystem user) rest

/-- The statements above; the server refuses what it cannot read. -/
def parse (sql : Text) : Option Statement :=
  (parseCreateDatabase sql).or ((parseCreateUser sql).or ((parseGrant sql).or (parseRevoke sql)))

def Server.exec (s : Server) (sql : Text) : Option Server := (parse sql).bind s.apply

/-! ### Texts that need no escape -/

/-- A text without quotes and backslashes is read as it is. -/
theorem readQuoted_plain {quote : Char} {text r : Text} (h : ∀ c ∈ text, c ≠ quote ∧ c ≠ backslash)
    (hrest : r.head? ≠ some quote) : readQuoted quote (text ++ quote :: r) = some (text, r) := by
  induction text with
  | nil =>
    cases r with
    | nil => simp [readQuoted]
    | cons d cs =>
      have hd : d ≠ quote := fun heq => hrest (congrArg some heq)
      simp [readQuoted, hd]
  | cons c text ih =>
    obtain ⟨hquote, hescape⟩ := h c List.mem_cons_self
    have hnext := ih (fun d hd => h d (List.mem_cons_of_mem _ hd))
    cases text with
    | nil =>
      rw [List.nil_append] at hnext
      simp [readQuoted, hquote, hescape, hnext]
    | cons d cs =>
      rw [List.cons_append] at hnext
      simp [readQuoted, hquote, hescape, hnext]

/-- No backquote and no backslash. -/
def PlainName (name : Text) : Prop := ∀ c ∈ name, c ≠ backquote ∧ c ≠ backslash

section Plain
variable {database user password : Text}

theorem parse_createDatabase (h : PlainName database) :
    parse (createDatabaseHead ++ database ++ [backquote]) = some (.createDatabase database) := by
  have hread := readQuoted_plain (r := []) h nofun
  have hparse : parseCreateDatabase (createDatabaseHead ++ database ++ [backquote]) =
      some (.createDatabase database) := by
    simp [parseCreateDatabase, List.append_assoc, dropPrefix?_append, hread, atEnd]
  rw [parse, hparse, Option.some_or]

theorem parse_createUser (h : PlainName user)
    (hpassword : ∀ c ∈ password, c ≠ '\'' ∧ c ≠ backslash) :
    parse (createUserHead ++ user ++ backquote :: identifiedBy ++ password ++ ['\'']) =
      some (.createUser user password) := by
  have hfirst : parseCreateDatabase
      (createUserHead ++ user ++ backquote :: identifiedBy ++ password ++ ['\'']) = none := rfl
  have hread := readQuoted_plain (r := identifiedBy ++ (password ++ ['\''])) h nofun
  have hread' := readQuoted_plain (r := []) hpassword nofun
  have hparse : parseCreateUser
      (createUserHead ++ user ++ backquote :: identifiedBy ++ password ++ ['\'']) =
      some (.createUser user password) := by
    simp [parseCreateUser, List.append_assoc, dropPrefix?_append, hread, hread', atEnd]
  rw [parse, hfirst, hparse, Option.none_or, Option.some_or]

theorem parse_grant (h : PlainName database) (huser : PlainName user) :
    parse (grantHead ++ database ++ backquote :: grantTo ++ user ++ [backquote]) =
      some (.grant database user) := by
  have hread := readQuoted_plain (r := grantTo ++ (user ++ [backquote])) h nofun
  have hread' := readQuoted_plain (r := []) huser nofun
  have hparse : parseGrant
      (grantHead ++ database ++ backquote :: grantTo ++ user ++ [backquote]) =
      some (.grant database user) := by
    simp [parseGrant, List.append_assoc, dropPrefix?_append, hread, hread', atEnd]
  have hfirst : parseCreateDatabase
      (grantHead ++ database ++ backquote :: grantTo ++ user ++ [backquote]) = none := rfl
  have hsecond : parseCreateUser
      (grantHead ++ database ++ backquote :: grantTo ++ user ++ [backquote]) = none := rfl
  rw [parse, hfirst, hsecond, hparse, Option.none_or, Option.none_or, Option.some_or]

theorem parse_revoke (h : PlainName user) :
    parse (revokeHead ++ user ++ [backquote]) = some (.revokeSystem user) := by
  have hread := readQuoted_plain (r := []) h nofun
  have hparse : parseRevoke (revokeHead ++ user ++ [backquote]) = some (.revokeSystem user) := by
    simp [parseRevoke, List.append_assoc, dropPrefix?_append, hread, atEnd]
  exact hparse

end Plain

/-! ### What a statement changes -/

def Statement.about : Statement → Option Text
  | .createDatabase _ => none
  | .createUser user _ | .grant _ user | .revokeSystem user => some user

/-- The server knows the same of a user as before. -/
structure SameUser (user : Text) (s t : Server) : Prop where
  lookup : t.users.lookup user = s.users.lookup user
  grants : ∀ p database, (user, p, database) ∈ t.grants ↔ (user, p, database) ∈ s.grants

theorem SameUser.refl (user : Text) (s : Server) : SameUser user s s := ⟨rfl, fun _ _ => Iff.rfl⟩

variable {s t : Server} {user : Text}

theorem SameUser.trans {r : Server} (h : SameUser user s t) (h' : SameUser user t r) :
    SameUser user s r :=
  ⟨h'.lookup.trans h.lookup, fun p database => (h'.grants p database).trans (h.grants p database)⟩

theorem SameUser.mem_iff (h : SameUser user s t) : user ∈ t.users ↔ user ∈ s.users := by
  rw [← AList.lookup_isSome, ← AList.lookup_isSome, h.lookup]

/-- A statement is about one user at most. -/
theorem sameUser_of_apply {st : Statement} (h : s.apply st = some t)
    (hother : st.about ≠ some user) :
    SameUser user s t := by
  cases st with
  | createDatabase database =>
    cases h
    exact ⟨rfl, fun _ _ => Iff.rfl⟩
  | createUser user' password =>
    have hne : user ≠ user' := fun heq => hother (congrArg some heq.symm)
    simp only [Server.apply] at h
    split_ifs at h
    cases h
    exact ⟨AList.lookup_insert_ne hne, fun _ _ => by simp [hne]⟩
  | grant database user' =>
    have hne : user ≠ user' := fun heq => hother (congrArg some heq.symm)
    simp only [Server.apply] at h
    split_ifs at h
    cases h
    exact ⟨rfl, fun _ _ => by simp [hne]⟩
  | revokeSystem user' =>
    have hne : user ≠ user' := fun heq => hother (congrArg some heq.symm)
    simp only [Server.apply] at h
    split_ifs at h
    cases h
    exact ⟨rfl, fun _ _ => by simp [hne]⟩

/-- Only users hold grants. -/
def Server.GrantsHeld (s : Server) : Prop := ∀ g ∈ s.grants, g.1 ∈ s.users

theorem Server.GrantsHeld.apply {st : Statement} (hs : s.GrantsHeld) (h : s.apply st = some t) :
    t.GrantsHeld := by
  cases st with
  | createDatabase database =>
    cases h
    exact hs
  | createUser user password =>
    simp only [Server.apply] at h
    split_ifs at h
    cases h
    rintro g hg
    refine (AList.mem_insert _).mpr ?_
    rcases List.mem_cons.mp hg with rfl | hg
    · exact .inl rfl
    · exact .inr (hs g hg)
  | grant database user =>
    simp only [Server.apply] at h
    split_ifs at h with huser
    cases h
    rintro g hg
    rcases List.mem_cons.mp hg with rfl | hg
    · exact huser
    · rcases List.mem_cons.mp hg with rfl | hg
      · exact huser
      · exact hs g hg
  | revokeSystem user =>
    simp only [Server.apply] at h
    split_ifs at h
    cases h
    exact fun g hg => hs g (List.mem_of_mem_filter hg)

/-- A user with its password who holds what `GRANT SELECT, INSERT` on the database and then
`REVOKE SELECT` on `system` leave, and nothing else. -/
structure Provisioned (s : Server) (user password database : Text) : Prop where
  lookup : s.users.lookup user = some password
  grants : ∀ p d, (user, p, d) ∈ s.grants ↔ d = database ∧ ¬ (p = .select ∧ d = system)

theorem Provisioned.of_sameUser {password database : Text}
    (h : Provisioned s user password database) (hsame : SameUser user s t) :
    Provisioned t user password database :=
  ⟨hsame.lookup.trans h.lookup, fun p d => (hsame.grants p d).trans (h.grants p d)⟩

/-- A new user, in this order. -/
theorem provisioned_of_apply {s₁ s₂ s₃ : Server} (hs : s.GrantsHeld) {password database : Text}
    (h₁ : s.apply (.createUser user password) = some s₁)
    (h₂ : s₁.apply (.grant database user) = some s₂)
    (h₃ : s₂.apply (.revokeSystem user) = some s₃) :
    Provisioned s₃ user password database := by
  simp only [Server.apply] at h₁ h₂ h₃
  split_ifs at h₁ with hnew
  cases h₁
  have huser : user ∈ s.users.insert user password := (AList.mem_insert _).mpr (.inl rfl)
  rw [if_pos huser] at h₂
  cases h₂
  rw [if_pos huser] at h₃
  cases h₃
  refine ⟨AList.lookup_insert _, fun p d => ?_⟩
  have hnone : (user, p, d) ∉ s.grants := fun hmem => hnew (hs _ hmem)
  cases p with
  | select =>
    simp [hnone]
    tauto
  | insert => simp [hnone]

end ClickHouse
