import CairnObs.RbacStore
import CairnObs.GuardedRuns

/-! Which tenants `enterprise-api` serves. `chrunner` takes the active tenants from the store
once, when the process starts; `searchclient` asks the store in every call. -/
namespace CairnObs.EnterpriseApi

open GoText Authz RbacStore GuardedRuns Function

inductive Backend
  | clickhouse
  | search
  deriving DecidableEq

inductive Process
  | stopped
  | starting (sources : List DataSource)
  | running (runners : List Text)

/-- Where a call is. The next step of `checking` is `TenantIsActive`, that of `ready` the
statement or the search itself. -/
inductive Call
  | idle
  | checking (tenantID : Text)
  | ready (backend : Backend) (tenantID : Text)
  deriving DecidableEq

structure System (π ρ : Type*) where
  db : DB
  procs : π → Process
  calls : ρ → Call

inductive Action (π ρ : Type*)
  | setStatus (tenantID : Text) (status : Status)
  | addDataSource (ds : DataSource)
  | listSources (p : π)
  | connect (p : π) (ok : Bool)
  | stop (p : π)
  | runSQL (r : ρ) (p : π) (identity : Option Identity)
  | search (r : ρ) (p : π) (identity : Option Identity)
  | check (r : ρ) (fails : Bool)
  | execute (r : ρ)

/-- `chrunner.New`, with a connection for every source. -/
def newRegistry (sources : List DataSource) : List Text := sources.map (fun ds => ds.tenantID)

/-- `Registry.RunSQL` up to the statement. -/
def startRunSQL (runners : List Text) : Option Identity → Call
  | none => .idle
  | some i =>
    if i.tenantID = [] then .idle
    -- the status of the tenant is not looked at again
    else if i.tenantID ∈ runners then .ready .clickhouse i.tenantID
    else .idle

/-- `Client.Search` up to `TenantIsActive`. -/
def startSearch : Option Identity → Call
  | none => .idle
  | some i => if i.tenantID = [] then .idle else .checking i.tenantID

section Steps
variable {π ρ : Type*} [DecidableEq π] [DecidableEq ρ]

def step (s : System π ρ) : Action π ρ → Option (System π ρ)
  | .setStatus tenantID status =>
    some { s with db := (setTenantStatus s.db tenantID status).getD s.db }
  | .addDataSource ds => some { s with db := { s.db with dataSources := ds :: s.db.dataSources } }
  | .listSources p =>
    match s.procs p with
    | .stopped =>
      let sources := listProvisionedDataSources s.db
      some { s with procs := update s.procs p (.starting sources) }
    | _ => none
  | .connect p ok =>
    match s.procs p with
    | .starting sources =>
      let proc := if ok then Process.running (newRegistry sources) else .stopped
      some { s with procs := update s.procs p proc }
    | _ => none
  | .stop p => some { s with procs := update s.procs p .stopped }
  | .runSQL r p identity =>
    match s.procs p, s.calls r with
    | .running runners, .idle =>
      some { s with calls := update s.calls r (startRunSQL runners identity) }
    | _, _ => none
  | .search r p identity =>
    match s.procs p, s.calls r with
    | .running _, .idle => some { s with calls := update s.calls r (startSearch identity) }
    | _, _ => none
  | .check r fails =>
    match s.calls r with
    | .checking tenantID =>
      let next :=
        if !fails && tenantIsActive s.db tenantID then Call.ready .search tenantID else .idle
      some { s with calls := update s.calls r next }
    | _ => none
  | .execute r =>
    match s.calls r with
    | .ready _ _ => some { s with calls := update s.calls r .idle }
    | _ => none

end Steps

/-! ### The tenants of a process -/

variable {tenantID : Text}

section Serving
variable {π ρ : Type*}

def Process.Holds (tenantID : Text) : Process → Prop
  | .stopped => False
  | .starting sources => tenantID ∈ newRegistry sources
  | .running runners => tenantID ∈ runners

/-- The condition on a step: a tenant that a process has loaded does not leave `active`. -/
def KeepsActive (s : System π ρ) : Action π ρ → Prop
  | .setStatus tenantID status => status ≠ .active → ∀ p, ¬ (s.procs p).Holds tenantID
  | _ => True

/-- What is loaded is active. -/
def LoadedActive (s : System π ρ) : Prop :=
  ∀ p tenantID, (s.procs p).Holds tenantID → tenantIsActive s.db tenantID = true

theorem tenantIsActive_setTenantStatus {db : DB} {id : Text} {status : Status}
    (h : tenantIsActive db id = true) (hstatus : id = tenantID → status = .active) :
    tenantIsActive ((setTenantStatus db tenantID status).getD db) id = true := by
  cases ht : getTenant db tenantID with
  | none => simpa [setTenantStatus, ht] using h
  | some t =>
    have hset : (setTenantStatus db tenantID status).getD db =
        { db with tenants := db.tenants.insert tenantID { t with status := status } } := by
      simp [setTenantStatus, ht]
    rw [hset]
    by_cases hid : id = tenantID
    · subst hid
      simp [tenantIsActive, getTenant, AList.lookup_insert, hstatus rfl]
    · simpa [tenantIsActive, getTenant, AList.lookup_insert_ne hid] using h

theorem active_of_mem_listProvisionedDataSources {db : DB}
    (h : tenantID ∈ newRegistry (listProvisionedDataSources db)) :
    tenantIsActive db tenantID = true := by
  obtain ⟨ds, hds, rfl⟩ := List.mem_map.mp h
  have hall := (List.mem_filter.mp hds).2
  simp only [Bool.and_eq_true] at hall
  exact hall.1.1

/-- The action starts call `r`. -/
def Begins (r : ρ) : Action π ρ → Prop
  | .runSQL q _ _ => q = r
  | .search q _ _ => q = r
  | _ => False

/-! ### Steps -/

/-- What a process holds it held before, or the tenant is active. -/
def Loads (s : System π ρ) (p : π) (proc : Process) : Prop :=
  ∀ id, proc.Holds id → (s.procs p).Holds id ∨ tenantIsActive s.db id = true

/-- A call becomes ready where it starts, with a tenant that some process has loaded, or where
it finds the tenant active. -/
def Admits (s : System π ρ) (a : Action π ρ) (r : ρ) (c : Call) : Prop :=
  ∀ backend id, c = .ready backend id →
    (Begins r a ∧ backend = .clickhouse ∧ ∃ p, (s.procs p).Holds id) ∨
      (¬ Begins r a ∧ tenantIsActive s.db id = true)

theorem admits_idle (s : System π ρ) (a : Action π ρ) (r : ρ) : Admits s a r .idle :=
  fun _ _ h => nomatch h

variable {s t : System π ρ} {a : Action π ρ}

theorem admits_startRunSQL {p : π} {runners : List Text} (hp : s.procs p = .running runners) (r : ρ)
    (identity : Option Identity) :
    Admits s (.runSQL r p identity) r (startRunSQL runners identity) := by
  cases identity with
  | none => exact admits_idle s _ r
  | some i =>
    simp only [startRunSQL]
    split_ifs with hempty hmem
    · exact admits_idle s _ r
    · intro backend id h
      obtain ⟨rfl, rfl⟩ := Call.ready.inj h
      exact .inl ⟨rfl, rfl, p, by rw [hp]; exact hmem⟩
    · exact admits_idle s _ r

theorem admits_startSearch (s : System π ρ) (a : Action π ρ) (r : ρ) (identity : Option Identity) :
    Admits s a r (startSearch identity) := by
  cases identity with
  | none => exact admits_idle s _ r
  | some i =>
    simp only [startSearch]
    split_ifs <;> exact fun _ _ h => nomatch h

theorem admits_check (s : System π ρ) (r : ρ) (fails : Bool) (tenantID : Text) :
    Admits s (.check r fails) r
      (if !fails && tenantIsActive s.db tenantID then .ready .search tenantID else .idle) := by
  split_ifs with hactive
  · intro backend id h
    obtain ⟨rfl, rfl⟩ := Call.ready.inj h
    exact .inr ⟨fun hbegin => hbegin, (Bool.and_eq_true_iff.mp hactive).2⟩
  · exact admits_idle s _ r

variable [DecidableEq π] [DecidableEq ρ]

/-- A step changes the store, one process or one call. -/
theorem step_cases (hstep : step s a = some t) :
    (∃ tenantID status, a = .setStatus tenantID status ∧
        t = { s with db := (setTenantStatus s.db tenantID status).getD s.db }) ∨
      (∃ ds, t = { s with db := { s.db with dataSources := ds :: s.db.dataSources } }) ∨
      (∃ p proc, Loads s p proc ∧ t = { s with procs := update s.procs p proc }) ∨
      ∃ r c, Admits s a r c ∧ t = { s with calls := update s.calls r c } := by
  cases a with
  | setStatus tenantID status =>
    exact .inl ⟨tenantID, status, rfl, (Option.some.inj hstep).symm⟩
  | addDataSource ds => exact .inr (.inl ⟨ds, (Option.some.inj hstep).symm⟩)
  | stop p =>
    exact .inr (.inr (.inl ⟨p, .stopped, fun id hid => hid.elim, (Option.some.inj hstep).symm⟩))
  | listSources p =>
    simp only [step] at hstep
    split at hstep
    · exact .inr (.inr (.inl ⟨p, .starting (listProvisionedDataSources s.db),
        fun id hid => .inr (active_of_mem_listProvisionedDataSources hid),
        (Option.some.inj hstep).symm⟩))
    · cases hstep
  | connect p ok =>
    simp only [step] at hstep
    split at hstep
    · next sources hsources =>
      refine .inr (.inr (.inl ⟨p, _, fun id hid => ?_, (Option.some.inj hstep).symm⟩))
      cases ok with
      | true => exact .inl (by rw [hsources]; exact hid)
      | false => exact hid.elim
    · cases hstep
  | runSQL r p identity =>
    simp only [step] at hstep
    split at hstep
    · next runners hp _ =>
      exact .inr
        (.inr (.inr ⟨r, _, admits_startRunSQL hp r identity, (Option.some.inj hstep).symm⟩))
    · cases hstep
  | search r p identity =>
    simp only [step] at hstep
    split at hstep
    · exact .inr (.inr (.inr ⟨r, _, admits_startSearch s _ r identity,
        (Option.some.inj hstep).symm⟩))
    · cases hstep
  | check r fails =>
    simp only [step] at hstep
    split at hstep
    · exact .inr (.inr (.inr ⟨r, _, admits_check s r fails _, (Option.some.inj hstep).symm⟩))
    · cases hstep
  | execute r =>
    simp only [step] at hstep
    split at hstep
    · exact .inr (.inr (.inr ⟨r, _, admits_idle s _ r, (Option.some.inj hstep).symm⟩))
    · cases hstep

theorem LoadedActive.step (h : LoadedActive s) (hC : KeepsActive s a) (hstep : step s a = some t) :
    LoadedActive t := by
  obtain ⟨tenantID, status, rfl, rfl⟩ | ⟨ds, rfl⟩ | ⟨p, proc, hloads, rfl⟩ | ⟨r, c, -, rfl⟩ :=
    step_cases hstep
  · intro p id hid
    refine tenantIsActive_setTenantStatus (h p id hid) (fun heq => ?_)
    by_contra hstatus
    exact hC hstatus p (heq ▸ hid)
  · exact h
  · exact forall_update
      (P := fun proc : Process => ∀ id, proc.Holds id → tenantIsActive s.db id = true) h
      (fun id hid => (hloads id hid).elim (h p id) (fun hactive => hactive)) p
  · exact h

/-! ### One call -/

/-- The tenant is active at some moment from `s` on, over the actions `as`. -/
def ActiveDuring (s : System π ρ) (as : List (Action π ρ)) (tenantID : Text) : Prop :=
  ∃ before after u, as = before ++ after ∧ run step s before = some u ∧
    tenantIsActive u.db tenantID = true

theorem ready_of_step {r : ρ} {backend : Backend} (hstep : step s a = some t)
    (hready : t.calls r = .ready backend tenantID) :
    s.calls r = .ready backend tenantID ∨
      (Begins r a ∧ backend = .clickhouse ∧ t.db = s.db ∧ ∃ p, (s.procs p).Holds tenantID) ∨
      (¬ Begins r a ∧ tenantIsActive s.db tenantID = true) := by
  obtain ⟨id, status, rfl, rfl⟩ | ⟨ds, rfl⟩ | ⟨p, proc, -, rfl⟩ | ⟨q, c, hadmits, rfl⟩ :=
    step_cases hstep
  · exact .inl hready
  · exact .inl hready
  · exact .inl hready
  · dsimp only at hready
    by_cases hq : r = q
    · subst hq
      rw [update_self] at hready
      exact .inr ((hadmits backend tenantID hready).imp_left
        (fun ⟨hbegin, hbackend, hholds⟩ => ⟨hbegin, hbackend, rfl, hholds⟩))
    · rw [update_of_ne hq] at hready
      exact .inl hready

theorem idle_of_begins {r : ρ} (hbegin : Begins r a) (hstep : step s a = some t) :
    s.calls r = .idle := by
  cases a with
  | runSQL q p identity =>
    obtain rfl : q = r := hbegin
    simp only [step] at hstep
    split at hstep
    · next hidle => exact hidle
    · cases hstep
  | search q p identity =>
    obtain rfl : q = r := hbegin
    simp only [step] at hstep
    split at hstep
    · next hidle => exact hidle
    · cases hstep
  | _ => exact hbegin.elim

theorem ActiveDuring.cons {as : List (Action π ρ)} (hstep : step s a = some t)
    (h : ActiveDuring t as tenantID) : ActiveDuring s (a :: as) tenantID := by
  obtain ⟨before, after, u, rfl, hrun, hactive⟩ := h
  refine ⟨a :: before, after, u, rfl, ?_, hactive⟩
  rw [run_cons, hstep]
  exact hrun

/-- While no call starts at `r`, only a search becomes ready there, and then the tenant has
been active in the meantime. -/
theorem ready_of_run {u : System π ρ} {as : List (Action π ρ)} {r : ρ} {backend : Backend}
    (hrun : run step s as = some u) (hsame : ∀ a ∈ as, ¬ Begins r a)
    (hready : u.calls r = .ready backend tenantID) :
    s.calls r = .ready backend tenantID ∨ ActiveDuring s as tenantID := by
  induction as generalizing s with
  | nil =>
    obtain rfl := Option.some.inj hrun
    exact .inl hready
  | cons a as ih =>
    obtain ⟨t, ht, hrest⟩ := run_cons_some step hrun
    rcases ih hrest (fun b hb => hsame b (List.mem_cons_of_mem _ hb)) with hready' | hactive
    · rcases ready_of_step ht hready' with h | ⟨hbegin, -⟩ | ⟨-, hactive⟩
      · exact .inl h
      · exact absurd hbegin (hsame a List.mem_cons_self)
      · exact .inr ⟨[], a :: as, s, rfl, rfl, hactive⟩
    · exact .inr (hactive.cons ht)

/-- When a call is about to run its statement or its search, the tenant has been active since
the call started. For statements this needs that no tenant that a process has loaded has left
`active` before. -/
theorem only_active_tenants_served {s₀ s₁ s₂ s₃ : System π ρ} {earlier during : List (Action π ρ)}
    {a : Action π ρ} {r : ρ} {backend : Backend} {tenantID : Text}
    (hstopped : ∀ p, s₀.procs p = .stopped)
    (hC : backend = .clickhouse → Meets step KeepsActive s₀ earlier)
    (hearlier : run step s₀ earlier = some s₁) (hbegin : Begins r a)
    (hstep : step s₁ a = some s₂) (hduring : run step s₂ during = some s₃)
    (hsame : ∀ b ∈ during, ¬ Begins r b) (hready : s₃.calls r = .ready backend tenantID) :
    ActiveDuring s₂ during tenantID := by
  rcases ready_of_run hduring hsame hready with hready₂ | hactive
  · rcases ready_of_step hstep hready₂ with hready₁ | ⟨-, hsql, hdb, p, hholds⟩ | ⟨hother, -⟩
    · rw [idle_of_begins hbegin hstep] at hready₁
      cases hready₁
    · have hstart : LoadedActive s₀ := fun p id hid => by rw [hstopped p] at hid; exact hid.elim
      have hloaded := run_preserves (fun _ _ _ h hC hstep => LoadedActive.step h hC hstep) hstart
        (hC hsql) hearlier
      exact ⟨[], during, s₂, rfl, rfl, by rw [hdb]; exact hloaded p tenantID hholds⟩
    · exact absurd hbegin hother
  · exact hactive

end Serving

/-! ### A tenant that is suspended -/

def acmeID : Text := "acme".toList

def acmeStore : DB where
  users := []
  tenants := AList.insert acmeID ⟨.active, none⟩ ∅
  members := ∅
  dataSources := [⟨acmeID, some "acme".toList, some "secret".toList⟩]

def acmeCaller : Option Identity := some ⟨acmeID, "ann".toList, .viewer⟩

def acmeStart : System Unit Unit := ⟨acmeStore, fun _ => .stopped, fun _ => .idle⟩

def startProcess : List (Action Unit Unit) := [.listSources (), .connect () true]

theorem startProcess_serves :
    ∃ s₁ s₂, run step acmeStart startProcess = some s₁ ∧
      step s₁ (.runSQL () () acmeCaller) = some s₂ ∧ s₂.calls () = .ready .clickhouse acmeID ∧
      ActiveDuring s₂ [] acmeID := by
  have hC : Meets step KeepsActive acmeStart startProcess :=
    .cons trivial rfl (.cons trivial rfl trivial)
  have hstate : (run step acmeStart startProcess).bind (fun s₁ =>
      (step s₁ (.runSQL () () acmeCaller)).map (fun s₂ => s₂.calls ())) =
        some (.ready .clickhouse acmeID) := by decide +kernel
  have hbegin : Begins () (.runSQL () () acmeCaller : Action Unit Unit) := rfl
  obtain ⟨s₁, hs₁, hmap⟩ := Option.bind_eq_some_iff.mp hstate
  obtain ⟨s₂, hs₂, hready⟩ := Option.map_eq_some_iff.mp hmap
  exact ⟨s₁, s₂, hs₁, hs₂, hready, only_active_tenants_served (fun _ => rfl) (fun _ => hC) hs₁
    hbegin hs₂ rfl (fun b hb => absurd hb List.not_mem_nil) hready⟩

/-- Acme is suspended while the process is running. -/
theorem suspended_tenant_served :
    ∃ s₁ s₂, run step acmeStart (startProcess ++ [.setStatus acmeID .suspended]) = some s₁ ∧
      step s₁ (.runSQL () () acmeCaller) = some s₂ ∧ s₂.calls () = .ready .clickhouse acmeID ∧
      ¬ ActiveDuring s₂ [] acmeID := by
  refine ⟨_, _, rfl, rfl, by decide +kernel, ?_⟩
  rintro ⟨before, after, u, hsplit, hrun, hactive⟩
  obtain ⟨rfl, rfl⟩ := List.append_eq_nil_iff.mp hsplit.symm
  obtain rfl := Option.some.inj hrun
  revert hactive
  decide +kernel

end CairnObs.EnterpriseApi
