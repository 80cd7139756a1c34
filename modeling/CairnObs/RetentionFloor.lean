import CairnObs.RetentionRequests

/-! When the floor that an owner has set protects logs from everyone else. Requests of others
carry the retention days of an agent over unchanged, as long as they can read them. -/
namespace CairnObs.LogRetention

open GoText Authz Agents GuardedRuns

/-! ### The floor of a row -/

/-- What the row of an agent sets. -/
def floorOf (agents : AgentTable) (tenantID host : Text) : HostFloor :=
  match desiredOverride agents tenantID host with
  | some o => overrideFloor o
  | none => ⟨none, ∅⟩

/-- The same floors, whatever order the services are in. -/
structure SameFloor (a b : HostFloor) : Prop where
  default : a.defaultDays = b.defaultDays
  services : ∀ service, a.serviceDays.lookup service = b.serviceDays.lookup service

variable {a b : HostFloor} {tenantID : Text} {env : Env} {p : Phase} {identity : Identity}

theorem SameFloor.trans {c : HostFloor} (h₁ : SameFloor a b) (h₂ : SameFloor b c) : SameFloor a c :=
  ⟨h₁.default.trans h₂.default, fun service => (h₁.services service).trans (h₂.services service)⟩

theorem SameFloor.effective (h : SameFloor a b) (service : Text) :
    a.effective service = b.effective service := by
  rw [HostFloor.effective, HostFloor.effective, h.services service, h.default]

theorem isEmpty_iff_lookup (m : AList (fun _ : Text => ℤ)) :
    m.entries.isEmpty = true ↔ ∀ service, m.lookup service = none := by
  rw [List.isEmpty_iff]
  constructor
  · intro h service
    rw [AList.lookup, h]
    rfl
  · intro h
    refine List.eq_nil_iff_forall_not_mem.mpr (fun e he => ?_)
    have hlookup := AList.mem_lookup_iff.mpr he
    rw [Option.mem_def, h] at hlookup
    cases hlookup

theorem SameFloor.isSet (h : SameFloor a b) : a.isSet = b.isSet := by
  have hempty : a.serviceDays.entries.isEmpty = b.serviceDays.entries.isEmpty := by
    rw [Bool.eq_iff_iff, isEmpty_iff_lookup, isEmpty_iff_lookup]
    exact forall_congr' (fun service => by rw [h.services service])
  rw [HostFloor.isSet, HostFloor.isSet, h.default, hempty]

variable {agents : AgentTable} {host service : Text} {days : ℤ} {floor : Text → HostFloor}

theorem effective_valid (h : (floorOf agents tenantID host).effective service = some days) :
    retentionDaysValid days = true := by
  unfold floorOf desiredOverride at h
  split at h
  · next o ho =>
    split at ho
    · next stored hstored =>
      obtain rfl := Option.some.inj ho
      obtain ⟨hdays, hservices⟩ := validateOverride_retention stored.valid
      simp only [HostFloor.effective, overrideFloor] at h
      split at h
      · next d hd => exact hservices service days (hd.trans h)
      · exact hdays days h
    · cases ho
  · cases h

/-! ### What `FloorsByHost` reads -/

theorem mem_floorRows {hf : HostFloor} :
    (host, hf) ∈ floorRows agents ↔
      ∃ tenantID, floorOf agents tenantID host = hf ∧ hf.isSet = true := by
  constructor
  · intro h
    obtain ⟨e, he, hrow⟩ := List.mem_filterMap.mp h
    obtain ⟨⟨tenantID, host'⟩, stored⟩ := e
    have hlookup := AList.mem_lookup_iff.mpr he
    cases stored with
    | none => cases hrow
    | some o =>
      simp only [Option.ite_none_right_eq_some, Option.some.injEq, Prod.mk.injEq] at hrow
      obtain ⟨hset, rfl, rfl⟩ := hrow
      refine ⟨tenantID, ?_, hset⟩
      rw [floorOf, desiredOverride, Option.mem_def.mp hlookup]
  · rintro ⟨tenantID, rfl, hset⟩
    unfold floorOf desiredOverride at hset ⊢
    cases hlookup : agents.lookup (tenantID, host) with
    | none => simp [hlookup, HostFloor.isSet] at hset
    | some stored =>
      cases stored with
      | none => simp [hlookup, HostFloor.isSet] at hset
      | some o =>
        rw [hlookup] at hset
        refine List.mem_filterMap.mpr
          ⟨⟨(tenantID, host), some o⟩, AList.mem_lookup_iff.mp hlookup, ?_⟩
        simp only at hset
        simp [hset]

/-- `FloorsByHost` gives a floor of at least `days` days, in whatever order it reads the rows
that have the host. -/
def HasFloor (agents : AgentTable) (host service : Text) (days : ℤ) : Prop :=
  ∀ rows : List (Text × HostFloor), rows.Perm (floorRows agents) →
    ∃ n, effectiveFloor (floorsByHost rows) host service = some n ∧ days ≤ n

/-- The same, row by row: some row has a floor, and every row that has one protects the
service. -/
structure RowsProtect (floor : Text → HostFloor) (service : Text) (days : ℤ) : Prop where
  some_set : ∃ tenantID, (floor tenantID).isSet = true
  all_protect : ∀ tenantID, (floor tenantID).isSet = true →
    ∃ n, (floor tenantID).effective service = some n ∧ days ≤ n

theorem HasFloor.rowsProtect (h : HasFloor agents host service days) :
    RowsProtect (fun tenantID => floorOf agents tenantID host) service days := by
  constructor
  · obtain ⟨n, hn, -⟩ := h _ (List.Perm.refl _)
    unfold effectiveFloor at hn
    split at hn
    · next hf hlookup =>
      obtain ⟨tenantID, hfloor, hset⟩ := mem_floorRows.mp (mem_of_lookup_floorsByHost hlookup)
      exact ⟨tenantID, hfloor.symm ▸ hset⟩
    · cases hn
  · intro tenantID hset
    -- the row may come last
    obtain ⟨before, after, hsplit⟩ := List.append_of_mem (mem_floorRows.mpr ⟨tenantID, rfl, hset⟩)
    have hperm :
        (before ++ after ++ [(host, floorOf agents tenantID host)]).Perm (floorRows agents) := by
      rw [hsplit, List.append_assoc]
      exact List.Perm.append_left before List.perm_append_comm
    obtain ⟨n, hn, hle⟩ := h _ hperm
    rw [floorsByHost_concat, effectiveFloor, AList.lookup_insert] at hn
    exact ⟨n, hn, hle⟩

theorem RowsProtect.effectiveFloor {rows : List (Text × HostFloor)}
    (h : RowsProtect floor service days)
    (hsame : ∀ tenantID, SameFloor (floorOf agents tenantID host) (floor tenantID))
    (hrows : rows.Perm (floorRows agents)) :
    ∃ n, effectiveFloor (floorsByHost rows) host service = some n ∧ days ≤ n ∧
      retentionDaysValid n = true := by
  obtain ⟨tenantID, hset⟩ := h.some_set
  have hrow : (host, floorOf agents tenantID host) ∈ rows :=
    hrows.mem_iff.mpr (mem_floorRows.mpr ⟨tenantID, rfl, (hsame tenantID).isSet.trans hset⟩)
  obtain ⟨hf, hlookup⟩ := exists_lookup_floorsByHost ⟨_, hrow⟩
  obtain ⟨tenantID', rfl, hset'⟩ :=
    mem_floorRows.mp (hrows.mem_iff.mp (mem_of_lookup_floorsByHost hlookup))
  obtain ⟨n, hn, hle⟩ := h.all_protect tenantID' ((hsame tenantID').isSet.symm.trans hset')
  rw [← (hsame tenantID').effective service] at hn
  refine ⟨n, ?_, hle, effective_valid hn⟩
  rw [LogRetention.effectiveFloor, hlookup]
  exact hn

/-! ### Reading and writing a row -/

theorem sameFloor_of_unset {hf : HostFloor} (h : hf.isSet = false) : SameFloor ⟨none, ∅⟩ hf := by
  obtain ⟨hdays, hservices⟩ := Bool.or_eq_false_iff.mp h
  have hempty : hf.serviceDays.entries.isEmpty = true := by simpa using hservices
  refine ⟨(Option.not_isSome_iff_eq_none.mp (by simp [hdays])).symm, fun service => ?_⟩
  rw [(isEmpty_iff_lookup _).mp hempty service]
  rfl

/-- What a handler takes for the current floor is the floor of the row; a `Get` that fails may
only hide a row without one. -/
theorem sameFloor_current (h : (floorOf agents tenantID host).isSet = true → env.fails = false) :
    SameFloor ⟨currentLogRetentionDays (currentOverride env agents tenantID host),
      currentServiceLogRetentionDays (currentOverride env agents tenantID host)⟩
      (floorOf agents tenantID host) := by
  cases hfails : env.fails with
  | true =>
    have hunset : (floorOf agents tenantID host).isSet = false := by
      by_contra hset
      rw [h (by simpa using hset)] at hfails
      cases hfails
    rw [currentOverride, if_pos hfails]
    exact sameFloor_of_unset hunset
  | false =>
    rw [currentOverride, if_neg (by simp [hfails]), floorOf]
    cases desiredOverride agents tenantID host with
    | none => exact ⟨rfl, fun _ => rfl⟩
    | some o => exact ⟨rfl, fun _ => rfl⟩

def storedFloor : Option StoredOverride → HostFloor
  | some o => overrideFloor o.override
  | none => ⟨none, ∅⟩

theorem floorOf_insert (agents : AgentTable) (tenantID host : Text) (o : Option StoredOverride) :
    floorOf (agents.insert (tenantID, host) o) tenantID host = storedFloor o := by
  rw [floorOf, desiredOverride, AList.lookup_insert]
  cases o <;> rfl

/-- A write that carries the floor of its row over leaves all floors of the host as they are. -/
theorem sameFloor_writeOverride {target : Text} {o : Option StoredOverride}
    (hagents : ∀ id, SameFloor (floorOf agents id host) (floor id))
    (ho : target = host → SameFloor (storedFloor o) (floor tenantID)) (id : Text) :
    SameFloor (floorOf (writeOverride agents tenantID target o) id host) (floor id) := by
  unfold writeOverride
  split_ifs
  · by_cases hkey : (id, host) = (tenantID, target)
    · obtain ⟨rfl, rfl⟩ := Prod.mk.inj hkey
      rw [floorOf_insert]
      exact ho rfl
    · rw [floorOf, desiredOverride, AList.lookup_insert_ne hkey]
      exact hagents id
  · exact hagents id

/-! ### The requests of everyone else -/

/-- An authorizer is configured, and it knows the caller as no owner. -/
def BelowOwner (authorizer : Option (Option Identity)) : Prop :=
  ∃ answer, authorizer = some answer ∧ ∀ i, answer = some i → i.role ≠ .owner

/-- On an agent of the host whose override has a floor, the two readings of the floor in a PUT
do not fail, and no DELETE succeeds. -/
def KeepsFloor (host : Text) (env : Env) (agents : AgentTable) : Phase → Prop
  | .putDays tenantID target _ =>
    target = host → (floorOf agents tenantID host).isSet = true → env.fails = false
  | .putServices tenantID target _ =>
    target = host → (floorOf agents tenantID host).isSet = true → env.fails = false
  | .clear tenantID target =>
    target = host → env.fails = false → (floorOf agents tenantID host).isSet = false
  | _ => True

section Handlers
variable {floor : Text → HostFloor} {host service : Text} {days : ℤ}

/-- What the phases of the handlers know: a PUT has compared its body with the floor of the
row, and a deletion that may reach the service has a cutoff behind the floor. -/
def PhaseOK (floor : Text → HostFloor) (host service : Text) (days now : ℤ) : Phase → Prop
  | .putExtraPaths identity _ _ _ => identity.role ≠ .owner
  | .putServices tenantID target o =>
    target = host → o.override.logRetentionDays = (floor tenantID).defaultDays
  | .putWrite tenantID target o =>
    target = host → SameFloor (overrideFloor o.override) (floor tenantID)
  | .partition _ _ _ floors =>
    ∃ n, effectiveFloor floors host service = some n ∧ days ≤ n ∧ retentionDaysValid n = true
  | .count _ cutoff allowed => ⟨host, service⟩ ∈ allowed → cutoff ≤ now-days*dayLength
  | .deleteRows cutoff allowed => ⟨host, service⟩ ∈ allowed → cutoff ≤ now-days*dayLength
  | _ => True

theorem PhaseOK.later {now later : ℤ} (h : PhaseOK floor host service days now p)
    (hle : now ≤ later) : PhaseOK floor host service days later p := by
  cases p with
  | count deletes cutoff allowed => exact fun hmem => (h hmem).trans (by omega)
  | deleteRows cutoff allowed => exact fun hmem => (h hmem).trans (by omega)
  | _ => exact h

theorem requireRole_pass {authorizer : Option (Option Identity)} {minRole : Role}
    {identity : Option Identity} (hbelow : BelowOwner authorizer)
    (h : requireRole authorizer minRole = .pass identity) :
    ∃ i, identity = some i ∧ i.role ≠ .owner := by
  obtain ⟨answer, rfl, hrole⟩ := hbelow
  cases answer with
  | none => cases h
  | some i =>
    simp only [requireRole] at h
    split_ifs at h
    exact ⟨i, (Access.pass.inj h).symm, hrole i rfl⟩

theorem phaseOK_afterExtraPaths (h : identity.role ≠ .owner) (now : ℤ) (tenantID target : Text)
    (o : StoredOverride) :
    PhaseOK floor host service days now (afterExtraPaths (some identity) tenantID target o) := by
  have hrole : ¬ identity.role.satisfies .owner = true := fun hs =>
    h ((satisfies_owner_iff _).mp hs)
  rw [afterExtraPaths, if_neg hrole]
  trivial

theorem phaseOK_startSetConfig (h : identity.role ≠ .owner) (now : ℤ) (target : Text)
    (o : ConfigOverride) :
    PhaseOK floor host service days now (startSetConfig (some identity) target o) := by
  unfold startSetConfig
  split_ifs
  · simp only
    split_ifs
    · exact phaseOK_afterExtraPaths h _ _ _ _
    · exact h
  · trivial

/-- A deletion by someone else than an owner starts by reading the floors. -/
theorem phaseOK_startDeletion (h : identity.role ≠ .owner) (now : ℤ) (deletes : Bool)
    (olderThanHours : ℤ) (targets : List HostService) :
    PhaseOK floor host service days now
      (startDeletion deletes (some identity) now olderThanHours targets) := by
  unfold startDeletion
  split
  · trivial
  · rw [if_neg (show ¬ roleForFloorCheck (some identity) = .owner from h)]
    trivial

theorem phaseOK_start {authorizer : Option (Option Identity)} (hbelow : BelowOwner authorizer)
    (now : ℤ) (req : Request) : PhaseOK floor host service days now (start authorizer now req) := by
  cases req with
  | setConfig target o =>
    simp only [start]
    split
    · next identity hpass =>
      obtain ⟨i, rfl, hi⟩ := requireRole_pass hbelow hpass
      exact phaseOK_startSetConfig hi now target o
    · trivial
  | clearConfig target =>
    simp only [start]
    split <;> trivial
  | preview olderThanHours targets =>
    simp only [start]
    split
    · next identity hpass =>
      obtain ⟨i, rfl, hi⟩ := requireRole_pass hbelow hpass
      exact phaseOK_startDeletion hi now false olderThanHours targets
    · trivial
  | delete olderThanHours targets =>
    simp only [start]
    split
    · next identity hpass =>
      obtain ⟨i, rfl, hi⟩ := requireRole_pass hbelow hpass
      exact phaseOK_startDeletion hi now true olderThanHours targets
    · trivial

/-- A store call keeps the floors of the host. -/
theorem sameFloor_call {w : World} (hagents : ∀ id, SameFloor (floorOf w.agents id host) (floor id))
    (hp : PhaseOK floor host service days w.now p) (hkeeps : KeepsFloor host env w.agents p)
    (id : Text) : SameFloor (floorOf (call env w p).1.agents id host) (floor id) := by
  cases p with
  | putWrite tenantID target o =>
    simp only [call]
    split_ifs
    · exact hagents id
    · exact sameFloor_writeOverride (o := some o) hagents hp id
  | clear tenantID target =>
    simp only [call]
    split_ifs with hfails
    · exact hagents id
    · refine sameFloor_writeOverride hagents (fun htarget => ?_) id
      have hunset := hkeeps htarget (by simpa using hfails)
      exact (sameFloor_of_unset hunset).trans (hagents tenantID)
  | deleteRows cutoff allowed =>
    simp only [call]
    split_ifs <;> exact hagents id
  | _ => exact hagents id

theorem now_call (env : Env) (w : World) (p : Phase) : (call env w p).1.now = w.now := by
  cases p with
  | putWrite | clear | deleteRows =>
    simp only [call]
    split_ifs <;> rfl
  | _ => rfl

theorem phaseOK_call {w : World} (hprotect : RowsProtect floor service days)
    (hagents : ∀ id, SameFloor (floorOf w.agents id host) (floor id))
    (hp : PhaseOK floor host service days w.now p) (hkeeps : KeepsFloor host env w.agents p)
    (hanswers : answers env w p = true) :
    PhaseOK floor host service days w.now (call env w p).2 := by
  cases p with
  | putExtraPaths identity tenantID target o =>
    simp only [call]
    split_ifs
    · trivial
    · exact phaseOK_afterExtraPaths hp _ _ _ _
  | putDays tenantID target o =>
    simp only [call]
    split_ifs with hchanges
    · trivial
    · -- the body has the days of the row
      rintro rfl
      have hcurrent := (sameFloor_current (hkeeps rfl)).trans (hagents tenantID)
      exact (changesLogRetentionDays_eq_false (Bool.eq_false_of_not_eq_true hchanges)).trans
        hcurrent.default
  | putServices tenantID target o =>
    simp only [call]
    split_ifs with hchanges
    · trivial
    · rintro rfl
      have hcurrent := (sameFloor_current (hkeeps rfl)).trans (hagents tenantID)
      have hservices :=
        changesServiceLogRetentionDays_eq_false (Bool.eq_false_of_not_eq_true hchanges)
      exact ⟨hp rfl, fun service => (hservices service).trans (hcurrent.services service)⟩
  | floors deletes cutoff targets =>
    simp only [call]
    split_ifs with hfails
    · trivial
    · have hrows : env.rows.Perm (floorRows w.agents) := by
        simpa [answers, hfails] using hanswers
      exact hprotect.effectiveFloor hagents hrows
  | partition deletes cutoff targets floors =>
    simp only [call, countPhase]
    split_ifs
    · trivial
    · intro hmem
      obtain ⟨n, hn, hle, hvalid⟩ := hp
      have hcutoff := cutoff_le_of_allowed hmem hn (le_maxDurationDays hvalid)
      -- the floor that is read may be of more days than the one that is claimed
      have hday : 0 ≤ dayLength := by decide
      have hdays := mul_le_mul_of_nonneg_right hle hday
      omega
  | count deletes cutoff allowed =>
    simp only [call]
    split_ifs
    · trivial
    · exact hp
  | _ => trivial

end Handlers

/-! ### Runs -/

section Runs
variable {ρ : Type*}

/-- The condition on a step: requests come from callers below owner, and store calls keep the
floor of the host. -/
def Guarded (host : Text) (s : System ρ) : Action ρ → Prop
  | .request _ authorizer _ => BelowOwner authorizer
  | .call r env => KeepsFloor host env s.world.agents (s.phases r)
  | _ => True

structure FloorInv (floor : Text → HostFloor) (host service : Text) (days : ℤ) (s : System ρ) :
    Prop where
  agents : ∀ id, SameFloor (floorOf s.world.agents id host) (floor id)
  phases : ∀ r, PhaseOK floor host service days s.world.now (s.phases r)

variable [DecidableEq ρ]

theorem FloorInv.step {s t : System ρ} {a : Action ρ} (hprotect : RowsProtect floor service days)
    (h : FloorInv floor host service days s) (hC : Guarded host s a) (hstep : step s a = some t) :
    FloorInv floor host service days t := by
  obtain ⟨r, authorizer, req, rfl, rfl⟩ | ⟨r, env, rfl, hanswers, rfl⟩ | ⟨now, hle, rfl⟩ |
    ⟨record, rfl⟩ := step_cases hstep
  · exact ⟨h.agents, forall_update h.phases (phaseOK_start hC _ req) r⟩
  · refine ⟨sameFloor_call h.agents (h.phases r) hC, ?_⟩
    simp only [now_call]
    exact forall_update h.phases (phaseOK_call hprotect h.agents (h.phases r) hC hanswers) r
  · exact ⟨h.agents, fun r => (h.phases r).later hle⟩
  · exact ⟨h.agents, h.phases⟩

/-- A step deletes records of the service only behind the floor. -/
theorem FloorInv.deletes_old {s t : System ρ} {a : Action ρ}
    (h : FloorInv floor host service days s) (hstep : LogRetention.step s a = some t)
    {record : LogRecord} (hmem : record ∈ s.world.logs) (hhost : record.host = host)
    (hservice : record.service = service) (hgone : record ∉ t.world.logs) :
    days*dayLength < s.world.now-record.timestamp := by
  obtain ⟨r, authorizer, req, rfl, rfl⟩ | ⟨r, env, rfl, hanswers, rfl⟩ | ⟨now, hle, rfl⟩ |
    ⟨record', rfl⟩ := step_cases hstep
  · exact absurd hmem hgone
  · have hp := h.phases r
    cases hphase : s.phases r with
    | deleteRows cutoff allowed =>
      rw [hphase] at hp hgone
      simp only [call] at hgone
      split_ifs at hgone
      · exact absurd hmem hgone
      · have holder : olderThan cutoff allowed record = true := by
          by_contra hnot
          exact hgone (List.mem_filter.mpr ⟨hmem, by simpa using hnot⟩)
        obtain ⟨hbefore, htarget⟩ := of_decide_eq_true holder
        rw [hhost, hservice] at htarget
        have hcutoff := hp htarget
        omega
    | putWrite | clear =>
      rw [hphase] at hgone
      simp only [call] at hgone
      split_ifs at hgone <;> exact absurd hmem hgone
    | _ =>
      rw [hphase] at hgone
      exact absurd hmem hgone
  · exact absurd hmem hgone
  · exact absurd (List.mem_cons_of_mem _ hmem) hgone

/-- A floor of `days` days on a service: in every run of requests of callers below owner in
which no store call disturbs the floor, every record of the service is older than `days` days
when it is deleted. -/
theorem floor_protects_logs {host service : Text} {days : ℤ} {s₀ s t : System ρ}
    {as : List (Action ρ)} {a : Action ρ} (hfloor : HasFloor s₀.world.agents host service days)
    (hidle : ∀ r, s₀.phases r = .idle) (hC : Meets step (Guarded host) s₀ as)
    (hrun : run step s₀ as = some s) (hstep : step s a = some t) :
    ∀ record ∈ s.world.logs, record.host = host → record.service = service →
      record ∉ t.world.logs → days*dayLength < s.world.now-record.timestamp := by
  have hstart : FloorInv (fun id => floorOf s₀.world.agents id host) host service days s₀ :=
    ⟨fun _ => ⟨rfl, fun _ => rfl⟩, fun r => by rw [hidle r]; trivial⟩
  have hinv :=
    run_preserves (fun _ _ _ h hC hstep => h.step hfloor.rowsProtect hC hstep) hstart hC hrun
  intro record hmem hhost hservice hgone
  exact hinv.deletes_old hstep hmem hhost hservice hgone

end Runs

/-! ### A floor of thirty days -/

def webHost : Text := "web1".toList

def nginx : HostService := ⟨webHost, "nginx".toList⟩

def thirtyDays : ConfigOverride where
  batchMaxSize := none
  batchFlushIntervalMS := none
  heartbeatEnabled := none
  heartbeatIntervalMS := none
  journaldUnit := none
  extraFilePaths := []
  logRetentionDays := some 30
  serviceLogRetentionDays := ∅

def webAgents : AgentTable :=
  AList.insert ("default".toList, webHost) (some ⟨thirtyDays, by decide +kernel⟩) ∅

/-- A record that is `age` days old. -/
def nginxWorld (age : ℤ) : World := ⟨webAgents, [⟨webHost, "nginx".toList, -age*dayLength⟩], 0⟩

theorem webAgents_hasFloor : HasFloor webAgents webHost "nginx".toList 30 := by
  intro rows hrows
  have hrow : floorRows webAgents = [(webHost, overrideFloor thirtyDays)] := rfl
  rw [hrow, List.perm_singleton] at hrows
  rw [hrows]
  exact ⟨30, by decide +kernel, le_rfl⟩

def webAdmin : Option (Option Identity) := some (some ⟨"default".toList, "adam".toList, .admin⟩)

theorem webEditor_belowOwner : BelowOwner webEditor :=
  ⟨_, rfl, fun i hi => by rw [← Option.some.inj hi]; decide⟩

theorem webAdmin_belowOwner : BelowOwner webAdmin :=
  ⟨_, rfl, fun i hi => by rw [← Option.some.inj hi]; decide⟩

/-- A deletion of what is older than 31 days, up to its DELETE. -/
def adminDeletes : List (Action Bool) :=
  [.request true webAdmin (.delete (31*24) [nginx]),
    .call true ⟨false, [(webHost, overrideFloor thirtyDays)]⟩, .call true ⟨false, []⟩,
    .call true ⟨false, []⟩]

theorem adminDeletes_old :
    ∃ s t, run step ⟨nginxWorld 40, fun _ => .idle⟩ adminDeletes = some s ∧
      step s (.call true ⟨false, []⟩) = some t ∧ s.world.logs = (nginxWorld 40).logs ∧
      t.world.logs = [] ∧
      ∀ record ∈ s.world.logs, 30*dayLength < s.world.now-record.timestamp := by
  have hafter : ((run step ⟨nginxWorld 40, fun _ => .idle⟩ adminDeletes).bind
      (fun s => (step s (.call true ⟨false, []⟩)).map (fun t => (s.world.logs, t.world.logs)))) =
        some ((nginxWorld 40).logs, []) := by decide +kernel
  obtain ⟨s, hs, hmap⟩ := Option.bind_eq_some_iff.mp hafter
  obtain ⟨t, ht, hlogs⟩ := Option.map_eq_some_iff.mp hmap
  obtain ⟨hbefore, hempty⟩ := Prod.mk.inj hlogs
  have hC : Meets step (Guarded webHost) ⟨nginxWorld 40, fun _ => .idle⟩ adminDeletes :=
    .cons webAdmin_belowOwner rfl
      (.cons trivial rfl (.cons trivial rfl (.cons trivial rfl trivial)))
  refine ⟨s, t, hs, ht, hbefore, hempty, fun record hmem => ?_⟩
  have hrecord : record = ⟨webHost, "nginx".toList, -40*dayLength⟩ := by
    rw [hbefore] at hmem
    exact List.mem_singleton.mp hmem
  exact floor_protects_logs webAgents_hasFloor (fun _ => rfl) hC hs ht record hmem
    (by rw [hrecord]) (by rw [hrecord]) (by rw [hempty]; exact List.not_mem_nil)

/-- An editor clears the override of the agent, and the floor with it; then an admin deletes
what is older than a day, up to the DELETE. -/
def editorClears : List (Action Bool) :=
  [.request false webEditor (.clearConfig webHost), .call false ⟨false, []⟩,
    .request true webAdmin (.delete 24 [nginx]), .call true ⟨false, []⟩, .call true ⟨false, []⟩,
    .call true ⟨false, []⟩]

theorem editorClears_loses_logs :
    HasFloor webAgents webHost "nginx".toList 30 ∧
      (∀ r authorizer req, .request r authorizer req ∈ editorClears → BelowOwner authorizer) ∧
      ∃ s t, run step ⟨nginxWorld 2, fun _ => .idle⟩ editorClears = some s ∧
        step s (.call true ⟨false, []⟩) = some t ∧
        ∃ record ∈ s.world.logs, record.host = webHost ∧ record.service = "nginx".toList ∧
          record ∉ t.world.logs ∧ s.world.now-record.timestamp < 30*dayLength := by
  have hafter : ((run step ⟨nginxWorld 2, fun _ => .idle⟩ editorClears).bind
      (fun s => (step s (.call true ⟨false, []⟩)).map
        (fun t => (s.world.logs, s.world.now, t.world.logs)))) =
        some ((nginxWorld 2).logs, 0, []) := by decide +kernel
  obtain ⟨s, hs, hmap⟩ := Option.bind_eq_some_iff.mp hafter
  obtain ⟨t, ht, hlogs⟩ := Option.map_eq_some_iff.mp hmap
  obtain ⟨hbefore, hrest⟩ := Prod.mk.inj hlogs
  obtain ⟨hnow, hempty⟩ := Prod.mk.inj hrest
  refine ⟨webAgents_hasFloor, fun r authorizer req hmem => ?_, s, t, hs, ht,
    ⟨webHost, "nginx".toList, -2*dayLength⟩, ?_, rfl, rfl, ?_, ?_⟩
  · simp only [editorClears, List.mem_cons, Action.request.injEq, reduceCtorEq, List.not_mem_nil,
      or_false, false_or] at hmem
    rcases hmem with ⟨-, rfl, -⟩ | ⟨-, rfl, -⟩
    · exact webEditor_belowOwner
    · exact webAdmin_belowOwner
  · rw [hbefore]
    exact List.mem_singleton_self _
  · rw [hempty]
    exact List.not_mem_nil
  · rw [hnow]
    decide

end CairnObs.LogRetention
