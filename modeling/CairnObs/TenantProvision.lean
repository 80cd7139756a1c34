import Mathlib.Data.Bool.AllAny
import CairnObs.Attempts
import CairnObs.ClickHouse
import CairnObs.GuardedRuns

/-! `enterprise/internal/tenantprovision`: the database and the user of a tenant, and what the
credentials that a call returns can reach. -/
namespace CairnObs.TenantProvision

open GoText Attempts ClickHouse GuardedRuns

/-! ### Names and passwords -/

def isLower (c : Char) : Bool := decide ('a' ≤ c ∧ c ≤ 'z')

/-- `^[a-z][a-z0-9_-]{0,62}$`. -/
def tenantIdentifier : Text → Bool
  | [] => false
  | c :: cs =>
    isLower c && decide (cs.length ≤ 62) &&
      cs.all (fun c => isLower c || c.isDigit || decide (c = '_') || decide (c = '-'))

def username (tenantID : Text) : Text := "tenant_".toList ++ tenantID

def urlAlphabet : Text :=
  "ABCDEFGHIJKLMNOPQRSTUVWXYZabcdefghijklmnopqrstuvwxyz0123456789-_".toList

def urlChar (n : ℕ) : Char := urlAlphabet.getD n 'A'

/-- `base64.RawURLEncoding.EncodeToString`. -/
def rawURLEncoding : List (Fin 256) → Text
  | [] => []
  | [a] => [urlChar (a/4), urlChar (a%4*16)]
  | [a, b] => [urlChar (a/4), urlChar (a%4*16+b/16), urlChar (b%16*4)]
  | a :: b :: c :: rest =>
    urlChar (a/4) :: urlChar (a%4*16+b/16) :: urlChar (b%16*4+c/64) :: urlChar (c%64) ::
      rawURLEncoding rest

/-- `rand.Read` may fail. -/
def generatePassword (buf : Option (List (Fin 256))) : Option Text := buf.map rawURLEncoding

def escapeSingleQuotes (s : Text) : Text :=
  s.flatMap (fun c => if c = '\'' then ['\'', '\''] else [c])

/-! ### The statements -/

def createDatabaseSQL (database : Text) : Text :=
  "CREATE DATABASE IF NOT EXISTS `".toList ++ database ++ "`".toList

def createUserSQL (user password : Text) : Text :=
  "CREATE USER `".toList ++ user ++ "` IDENTIFIED WITH plaintext_password BY '".toList ++
    escapeSingleQuotes password ++ "'".toList

def grantSQL (database user : Text) : Text :=
  "GRANT SELECT, INSERT ON `".toList ++ database ++ "`.* TO `".toList ++ user ++ "`".toList

def revokeSQL (user : Text) : Text :=
  "REVOKE SELECT ON system.* FROM `".toList ++ user ++ "`".toList

structure Credentials where
  username : Text
  password : Text
  deriving DecidableEq

/-- What becomes of the statements of a call. -/
structure Fate where
  createDatabase : Outcome
  buf : Option (List (Fin 256))
  createUser : Outcome
  grant : Outcome
  revoke : Outcome

def provisionClickHouse (fate : Fate) (tenantID : Text) (s : Server) :
    Server × Option Credentials :=
  if !tenantIdentifier tenantID then (s, none)
  else
    match attempt fate.createDatabase (fun s => s.exec (createDatabaseSQL tenantID)) s with
    | (s, false) => (s, none)
    | (s, true) =>
      match generatePassword fate.buf with
      | none => (s, none)
      | some password =>
        match attempts
            [(fate.createUser, fun s => s.exec (createUserSQL (username tenantID) password)),
              (fate.grant, fun s => s.exec (grantSQL tenantID (username tenantID))),
              (fate.revoke, fun s => s.exec (revokeSQL (username tenantID)))] s with
        | (s, true) => (s, some ⟨username tenantID, password⟩)
        | (s, false) => (s, none)

/-! ### The server reads the statements as they are meant -/

variable {tenantID : Text}

theorem plainName_of_tenantIdentifier (h : tenantIdentifier tenantID = true) :
    PlainName tenantID := by
  have hlower (c : Char) (hc : isLower c = true) : c ≠ backquote ∧ c ≠ backslash := by
    constructor
    · rintro rfl
      revert hc
      decide
    · rintro rfl
      revert hc
      decide
  cases tenantID with
  | nil => cases h
  | cons c cs =>
    simp only [tenantIdentifier, Bool.and_eq_true, List.all_eq_true] at h
    intro d hd
    rcases List.mem_cons.mp hd with rfl | hd
    · exact hlower d h.1.1
    · have hchar := h.2 d hd
      constructor
      · rintro rfl
        revert hchar
        decide
      · rintro rfl
        revert hchar
        decide

theorem plainName_username (h : PlainName tenantID) : PlainName (username tenantID) := by
  have htenant : PlainName "tenant_".toList := List.all_iff_forall_prop.mp (by decide)
  intro c hc
  rcases List.mem_append.mp hc with hc | hc
  · exact htenant c hc
  · exact h c hc

theorem urlChar_mem (n : ℕ) : urlChar n ∈ urlAlphabet := by
  rw [urlChar, List.getD_eq_getElem?_getD]
  cases h : urlAlphabet[n]? with
  | some c => exact List.mem_of_getElem? h
  | none => decide

theorem mem_urlAlphabet (bytes : List (Fin 256)) : ∀ c ∈ rawURLEncoding bytes, c ∈ urlAlphabet := by
  fun_induction rawURLEncoding bytes with
  | case1 => simp
  | case2 a => simp [urlChar_mem]
  | case3 a b => simp [urlChar_mem]
  | case4 a b c rest ih => simpa [urlChar_mem] using ih

variable {password : Text}

theorem plain_password {buf : Option (List (Fin 256))} (h : generatePassword buf = some password) :
    ∀ c ∈ password, c ≠ '\'' ∧ c ≠ backslash := by
  obtain ⟨bytes, -, rfl⟩ := Option.map_eq_some_iff.mp h
  intro c hc
  have hmem := mem_urlAlphabet bytes c hc
  constructor
  · rintro rfl
    revert hmem
    decide
  · rintro rfl
    revert hmem
    decide

theorem escapeSingleQuotes_eq_self (h : ∀ c ∈ password, c ≠ '\'' ∧ c ≠ backslash) :
    escapeSingleQuotes password = password := by
  induction password with
  | nil => rfl
  | cons c cs ih =>
    have hc := (h c List.mem_cons_self).1
    have hrest := ih (fun d hd => h d (List.mem_cons_of_mem _ hd))
    simp only [escapeSingleQuotes] at hrest
    simp [escapeSingleQuotes, hc, hrest]

section Read
variable {tenantID password : Text} (s : Server)

theorem exec_createDatabase (h : tenantIdentifier tenantID = true) :
    s.exec (createDatabaseSQL tenantID) = s.apply (.createDatabase tenantID) := by
  have hsql : createDatabaseSQL tenantID = createDatabaseHead ++ tenantID ++ [backquote] := rfl
  rw [Server.exec, hsql, parse_createDatabase (plainName_of_tenantIdentifier h),
    Option.bind_some]

theorem exec_createUser (h : tenantIdentifier tenantID = true)
    (hpassword : ∀ c ∈ password, c ≠ '\'' ∧ c ≠ backslash) :
    s.exec (createUserSQL (username tenantID) password) =
      s.apply (.createUser (username tenantID) password) := by
  have hname := plainName_username (plainName_of_tenantIdentifier h)
  have hsql : createUserSQL (username tenantID) password = createUserHead ++ username tenantID ++
      backquote :: identifiedBy ++ password ++ ['\''] := by
    have hend : "'".toList = ['\''] := rfl
    have hidentified : "` IDENTIFIED WITH plaintext_password BY '".toList =
        backquote :: identifiedBy := rfl
    unfold createUserSQL createUserHead
    rw [escapeSingleQuotes_eq_self hpassword, hidentified, hend]
  rw [Server.exec, hsql, parse_createUser hname hpassword, Option.bind_some]

theorem exec_grant (h : tenantIdentifier tenantID = true) :
    s.exec (grantSQL tenantID (username tenantID)) =
      s.apply (.grant tenantID (username tenantID)) := by
  have hname := plainName_of_tenantIdentifier h
  have hsql : grantSQL tenantID (username tenantID) =
      grantHead ++ tenantID ++ backquote :: grantTo ++ username tenantID ++ [backquote] := rfl
  rw [Server.exec, hsql, parse_grant hname (plainName_username hname), Option.bind_some]

theorem exec_revoke (h : tenantIdentifier tenantID = true) :
    s.exec (revokeSQL (username tenantID)) = s.apply (.revokeSystem (username tenantID)) := by
  have hsql : revokeSQL (username tenantID) =
      revokeHead ++ username tenantID ++ [backquote] := rfl
  rw [Server.exec, hsql, parse_revoke (plainName_username (plainName_of_tenantIdentifier h)),
    Option.bind_some]

end Read

/-! ### One call -/

section Call
variable {fate : Fate} {tenantID : Text} {s : Server}

theorem exists_password
    (h : ¬ (tenantIdentifier tenantID = false ∨ generatePassword fate.buf = none)) :
    tenantIdentifier tenantID = true ∧
      ∃ password, generatePassword fate.buf = some password := by
  push Not at h
  exact ⟨Bool.eq_true_of_not_eq_false h.1, Option.ne_none_iff_exists'.mp h.2⟩

/-- The call as far as the server is concerned: the tenant's own statements, up to where it
stops. -/
theorem provisionClickHouse_eq (h : tenantIdentifier tenantID = true)
    (hpassword : generatePassword fate.buf = some password) :
    provisionClickHouse fate tenantID s =
      let r := attempts
        [(fate.createDatabase, fun s => s.apply (.createDatabase tenantID)),
          (fate.createUser, fun s => s.apply (.createUser (username tenantID) password)),
          (fate.grant, fun s => s.apply (.grant tenantID (username tenantID))),
          (fate.revoke, fun s => s.apply (.revokeSystem (username tenantID)))] s
      (r.1, if r.2 then some ⟨username tenantID, password⟩ else none) := by
  have hplain := plain_password hpassword
  simp only [provisionClickHouse, h, Bool.not_true, Bool.false_eq_true, if_false, hpassword,
    exec_createDatabase _ h, exec_createUser _ h hplain, exec_grant _ h, exec_revoke _ h]
  rw [attempts_cons]
  generalize attempt fate.createDatabase (fun s => s.apply (.createDatabase tenantID)) s = r
  obtain ⟨s', b⟩ := r
  cases b with
  | false => rfl
  | true =>
    simp only [if_true]
    generalize attempts _ s' = r
    obtain ⟨s'', b⟩ := r
    cases b with
    | false => rfl
    | true => rfl

/-- Without a name and a password there is at most a database. -/
theorem provisionClickHouse_stops
    (h : tenantIdentifier tenantID = false ∨ generatePassword fate.buf = none) :
    (provisionClickHouse fate tenantID s).2 = none ∧
      ((provisionClickHouse fate tenantID s).1 = s ∨
        s.apply (.createDatabase tenantID) = some (provisionClickHouse fate tenantID s).1) := by
  cases hname : tenantIdentifier tenantID with
  | false => simp [provisionClickHouse, hname]
  | true =>
    have hpassword : generatePassword fate.buf = none :=
      h.resolve_left (by simp [hname])
    have hcases := attempt_cases fate.createDatabase
      (fun s => s.apply (.createDatabase tenantID)) s
    simp only [provisionClickHouse, hname, Bool.not_true, Bool.false_eq_true, if_false, hpassword,
      exec_createDatabase _ hname]
    generalize attempt fate.createDatabase (fun s => s.apply (.createDatabase tenantID)) s = r
      at hcases ⊢
    obtain ⟨s', b⟩ := r
    cases b with
    | false => exact ⟨rfl, hcases⟩
    | true => exact ⟨rfl, hcases⟩

/-- Whatever each of the statements keeps, a call keeps. -/
theorem provisionClickHouse_preserves {P : Server → Prop} (hs : P s)
    (hstep : ∀ st, st.about = none ∨ st.about = some (username tenantID) →
      ∀ s t, P s → s.apply st = some t → P t) : P (provisionClickHouse fate tenantID s).1 := by
  by_cases hstops : tenantIdentifier tenantID = false ∨ generatePassword fate.buf = none
  · rcases (provisionClickHouse_stops (s := s) hstops).2 with hsame | hcreated
    · rwa [hsame]
    · exact hstep _ (.inl rfl) s _ hs hcreated
  · obtain ⟨hname, password, hpassword⟩ := exists_password hstops
    rw [provisionClickHouse_eq hname hpassword]
    refine attempts_preserves (fun x hx => ?_) hs
    simp only [List.mem_cons, List.not_mem_nil, or_false] at hx
    rcases hx with rfl | rfl | rfl | rfl
    · exact hstep (.createDatabase tenantID) (.inl rfl)
    · exact hstep (.createUser (username tenantID) password) (.inr rfl)
    · exact hstep (.grant tenantID (username tenantID)) (.inr rfl)
    · exact hstep (.revokeSystem (username tenantID)) (.inr rfl)

theorem provisionClickHouse_grantsHeld (hs : s.GrantsHeld) :
    (provisionClickHouse fate tenantID s).1.GrantsHeld :=
  provisionClickHouse_preserves hs (fun _ _ _ _ hs h => hs.apply h)

theorem provisionClickHouse_sameUser {user : Text} (hne : user ≠ username tenantID) :
    SameUser user s (provisionClickHouse fate tenantID s).1 := by
  refine provisionClickHouse_preserves (P := SameUser user s) (.refl user s) ?_
  intro st habout s' t hs h
  refine hs.trans (sameUser_of_apply h fun heq => ?_)
  rcases habout with hnone | hsome
  · rw [hnone] at heq
    cases heq
  · exact hne (Option.some.inj (heq.symm.trans hsome))

/-- A user who exists is left alone, and nothing is returned. -/
theorem provisionClickHouse_of_mem (huser : username tenantID ∈ s.users) :
    SameUser (username tenantID) s (provisionClickHouse fate tenantID s).1 ∧
      (provisionClickHouse fate tenantID s).2 = none := by
  have hdatabase {t : Server} (h : s.apply (.createDatabase tenantID) = some t) :
      SameUser (username tenantID) s t := sameUser_of_apply h nofun
  by_cases hstops : tenantIdentifier tenantID = false ∨ generatePassword fate.buf = none
  · obtain ⟨hnone, hstate⟩ := provisionClickHouse_stops (s := s) hstops
    refine ⟨?_, hnone⟩
    rcases hstate with hsame | hcreated
    · rw [hsame]
      exact .refl _ s
    · exact hdatabase hcreated
  · obtain ⟨hname, password, hpassword⟩ := exists_password hstops
    rw [provisionClickHouse_eq hname hpassword, attempts_cons]
    have hfirst := attempt_preserves (o := fate.createDatabase)
      (f := fun s => s.apply (.createDatabase tenantID))
      (SameUser.refl (username tenantID) s) (fun _ => hdatabase)
    generalize attempt fate.createDatabase _ s = r at hfirst ⊢
    -- the second statement is refused wherever it is tried
    have hrefused : r.1.apply (.createUser (username tenantID) password) = none :=
      if_pos (hfirst.mem_iff.mpr huser)
    rw [attempts_cons, attempt_of_none hrefused]
    obtain ⟨s', b⟩ := r
    cases b with
    | false => exact ⟨hfirst, rfl⟩
    | true => exact ⟨hfirst, rfl⟩

/-- The credentials that are returned are those of a new user. -/
theorem provisioned_of_some (hs : s.GrantsHeld) {creds : Credentials}
    (h : (provisionClickHouse fate tenantID s).2 = some creds) :
    username tenantID ∉ s.users ∧ creds.username = username tenantID ∧
      Provisioned (provisionClickHouse fate tenantID s).1 (username tenantID) creds.password
        tenantID := by
  have hnew : username tenantID ∉ s.users := by
    intro huser
    rw [(provisionClickHouse_of_mem huser).2] at h
    cases h
  by_cases hstops : tenantIdentifier tenantID = false ∨ generatePassword fate.buf = none
  · rw [(provisionClickHouse_stops hstops).1] at h
    cases h
  · obtain ⟨hname, password, hpassword⟩ := exists_password hstops
    rw [provisionClickHouse_eq hname hpassword] at h ⊢
    dsimp only at h ⊢
    split_ifs at h with hall
    cases h
    refine ⟨hnew, rfl, ?_⟩
    have htaken := attempts_eq_true hall
    simp only [List.foldlM_cons, List.foldlM_nil, Option.bind_eq_bind,
      Option.bind_eq_some_iff] at htaken
    obtain ⟨s₁, h₁, s₂, h₂, s₃, h₃, s₄, h₄, hend⟩ := htaken
    obtain rfl := Option.some.inj hend
    exact provisioned_of_apply (hs.apply h₁) h₂ h₃ h₄

end Call

/-! ### Any number of calls -/

structure Call where
  tenantID : Text
  fate : Fate

/-- The server, and beside it what the calls have returned so far. -/
def serve (x : Server × List (Text × Credentials)) (c : Call) :
    Option (Server × List (Text × Credentials)) :=
  let r := provisionClickHouse c.fate c.tenantID x.1
  some (r.1, r.2.toList.map (fun creds => (c.tenantID, creds)) ++ x.2)

structure ServedInv (x : Server × List (Text × Credentials)) : Prop where
  grantsHeld : x.1.GrantsHeld
  username : ∀ r ∈ x.2, r.2.username = username r.1
  provisioned : ∀ r ∈ x.2, Provisioned x.1 (TenantProvision.username r.1) r.2.password r.1

theorem username_injective {t t' : Text} (h : username t = username t') : t = t' :=
  List.append_cancel_left h

/-- A user who is provisioned stays so, whichever tenant the next call is for. -/
theorem provisioned_call {s : Server} (h : Provisioned s (username tenantID) password tenantID)
    (c : Call) :
    Provisioned (provisionClickHouse c.fate c.tenantID s).1 (username tenantID) password
      tenantID := by
  by_cases hsame : tenantID = c.tenantID
  · subst hsame
    have huser : username c.tenantID ∈ s.users := by
      rw [← AList.lookup_isSome, h.lookup]
      rfl
    exact h.of_sameUser (provisionClickHouse_of_mem huser).1
  · exact h.of_sameUser (provisionClickHouse_sameUser fun heq => hsame (username_injective heq))

theorem serve_inv {x y : Server × List (Text × Credentials)} {c : Call} (hx : ServedInv x)
    (h : serve x c = some y) : ServedInv y := by
  obtain rfl := Option.some.inj h
  have hold := fun r hr => provisioned_call (hx.provisioned r hr) c
  cases hr : (provisionClickHouse c.fate c.tenantID x.1).2 with
  | none =>
    refine ⟨provisionClickHouse_grantsHeld hx.grantsHeld, ?_, ?_⟩
    · simpa [hr] using hx.username
    · simpa [hr] using hold
  | some creds =>
    obtain ⟨-, hname, hprovisioned⟩ := provisioned_of_some hx.grantsHeld hr
    refine ⟨provisionClickHouse_grantsHeld hx.grantsHeld, ?_, ?_⟩
    · simpa [hr] using ⟨hname, fun t creds => hx.username (t, creds)⟩
    · simpa [hr] using ⟨hprovisioned, fun t creds => hold (t, creds)⟩

/-- The credentials reach the database of the tenant and no other, and it is no database of the
server's own. -/
structure ReachesOnly (own : List Text) (s : Server) (tenantID : Text) (creds : Credentials) :
    Prop where
  user : s.users.lookup creds.username = some creds.password
  select : (creds.username, .select, tenantID) ∈ s.grants
  insert : (creds.username, .insert, tenantID) ∈ s.grants
  only : ∀ p database, (creds.username, p, database) ∈ s.grants →
    database = tenantID ∧ database ≠ system
  foreign : tenantID ∉ own

theorem returned_credentials_reach_only_iff {own : List Text} (hsystem : system ∈ own)
    {s₀ s : Server} (h₀ : s₀.GrantsHeld) {calls : List Call}
    {returned : List (Text × Credentials)}
    (hrun : run serve (s₀, []) calls = some (s, returned)) {tenantID : Text} {creds : Credentials}
    (hmem : (tenantID, creds) ∈ returned) :
    ReachesOnly own s tenantID creds ↔ tenantID ∉ own := by
  have hinv : ServedInv (s, returned) := by
    refine run_invariant (fun _ _ _ => serve_inv) ⟨h₀, ?_, ?_⟩ hrun
    · simp
    · simp
  obtain ⟨hlookup, hgrants⟩ := hinv.provisioned _ hmem
  have hname : creds.username = username tenantID := hinv.username _ hmem
  constructor
  · exact fun h => h.foreign
  · intro hforeign
    have hne : tenantID ≠ system := fun heq => hforeign (heq ▸ hsystem)
    rw [← hname] at hlookup hgrants
    refine ⟨hlookup, (hgrants _ _).mpr ⟨rfl, ?_⟩, (hgrants _ _).mpr ⟨rfl, nofun⟩, ?_, hforeign⟩
    · rintro ⟨-, heq⟩
      exact hne heq
    · intro p database hgrant
      obtain ⟨rfl, -⟩ := (hgrants p database).mp hgrant
      exact ⟨rfl, hne⟩

def serverDatabases : List Text :=
  [system, "default".toList, "information_schema".toList, "INFORMATION_SCHEMA".toList]

def freshServer : Server := ⟨serverDatabases, ∅, []⟩

/-- A call that nothing stops. -/
def smooth : Fate := ⟨.done, some (List.replicate 24 0), .done, .done, .done⟩

theorem acme_credentials_reach_only :
    ∃ s, run serve (freshServer, []) [⟨"acme".toList, smooth⟩] =
        some (s, [("acme".toList, ⟨"tenant_acme".toList, List.replicate 32 'A'⟩)]) ∧
      ReachesOnly serverDatabases s "acme".toList
        ⟨"tenant_acme".toList, List.replicate 32 'A'⟩ := by
  have hrun : ∃ s, run serve (freshServer, []) [⟨"acme".toList, smooth⟩] =
      some (s, [("acme".toList, ⟨"tenant_acme".toList, List.replicate 32 'A'⟩)]) := ⟨_, rfl⟩
  obtain ⟨s, hrun⟩ := hrun
  refine ⟨s, hrun, (returned_credentials_reach_only_iff ?_ ?_ hrun List.mem_cons_self).mpr ?_⟩
  · exact List.mem_cons_self
  · exact fun g hg => absurd hg List.not_mem_nil
  · decide

/-- A tenant with the name of the server's own database may write into it. -/
theorem system_credentials_reach_system :
    ∃ s creds, run serve (freshServer, []) [⟨system, smooth⟩] = some (s, [(system, creds)]) ∧
      (creds.username, .insert, system) ∈ s.grants ∧
      (creds.username, .select, system) ∉ s.grants :=
  ⟨_, _, rfl, by decide +kernel, by decide +kernel⟩

end CairnObs.TenantProvision
