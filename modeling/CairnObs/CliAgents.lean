import CairnObs.RetentionRequests

/-! `cairnobsctl agents config set`, and what it leaves of an agent's override. The server
replaces the whole override, so the command sends back what it has read. -/
namespace CairnObs.Cli

open GoText Authz Agents LogRetention GuardedRuns

/-! ### Flags -/

/-- `strconv.ParseInt(v, 10, 64)`. -/
def parseInt (v : Text) : Option ℤ :=
  let digits := match v with
    | '-' :: rest | '+' :: rest => rest
    | _ => v
  let n : ℤ := Nat.ofDigitChars 10 digits 0
  let n := if v.head? = some '-' then -n else n
  if digits ≠ [] ∧ digits.all Char.isDigit ∧ -2^63 ≤ n ∧ n < 2^63 then some n else none

/-- `strconv.ParseBool`. -/
def parseBool (v : Text) : Option Bool :=
  if v ∈ ["1".toList, "t".toList, "T".toList, "TRUE".toList, "true".toList, "True".toList] then
    some true
  else if v ∈ ["0".toList, "f".toList, "F".toList, "FALSE".toList, "false".toList,
      "False".toList] then some false
  else none

inductive Flag
  | batchMaxSize
  | batchFlushIntervalMS
  | heartbeatIntervalMS
  | heartbeatEnabled
  | journaldUnit
  deriving DecidableEq, Repr

def flagOf (arg : Text) : Option Flag :=
  if arg = "--batch-max-size".toList then some .batchMaxSize
  else if arg = "--batch-flush-interval-ms".toList then some .batchFlushIntervalMS
  else if arg = "--heartbeat-interval-ms".toList then some .heartbeatIntervalMS
  else if arg = "--heartbeat-enabled".toList then some .heartbeatEnabled
  else if arg = "--journald-unit".toList then some .journaldUnit
  else none

structure Flags where
  batchMaxSize : Option ℤ
  batchFlushIntervalMS : Option ℤ
  heartbeatIntervalMS : Option ℤ
  heartbeatEnabled : Option Bool
  journaldUnit : Option Text
  deriving DecidableEq

def noFlags : Flags := ⟨none, none, none, none, none⟩

inductive FlagError
  | unknownFlag (arg : Text)
  | missingValue (flag : Flag)
  | invalidValue (flag : Flag) (value : Text)
  deriving DecidableEq

def orInvalid {α : Type} (flag : Flag) (value : Text) : Option α → Except FlagError α
  | some a => .ok a
  | none => .error (.invalidValue flag value)

def readFlag (flag : Flag) (value : Text) (fs : Flags) : Except FlagError Flags :=
  match flag with
  | .batchMaxSize =>
    (orInvalid flag value (parseInt value)).map (fun n => { fs with batchMaxSize := some n })
  | .batchFlushIntervalMS =>
    (orInvalid flag value (parseInt value)).map
      (fun n => { fs with batchFlushIntervalMS := some n })
  | .heartbeatIntervalMS =>
    (orInvalid flag value (parseInt value)).map (fun n => { fs with heartbeatIntervalMS := some n })
  | .heartbeatEnabled =>
    (orInvalid flag value (parseBool value)).map (fun b => { fs with heartbeatEnabled := some b })
  | .journaldUnit => .ok { fs with journaldUnit := some value }

/-- The loop over the arguments; the last of several equal flags wins. -/
def parseFlags : Flags → List Text → Except FlagError Flags
  | fs, [] => .ok fs
  | _, [arg] =>
    match flagOf arg with
    | none => .error (.unknownFlag arg)
    | some flag => .error (.missingValue flag)
  | fs, arg :: value :: rest =>
    match flagOf arg with
    | none => .error (.unknownFlag arg)
    | some flag =>
      match readFlag flag value fs with
      | .error e => .error e
      | .ok fs' => parseFlags fs' rest

/-! ### What the command reads and sends -/

/-- What an agent has reported about itself. -/
structure Reported where
  sourceKind : Text
  sourceDetail : Text
  batchMaxSize : ℤ
  batchFlushIntervalMS : ℤ
  heartbeatEnabled : Bool
  heartbeatIntervalMS : ℤ

/-- `agentConfigOverride`, the command's own copy of `ConfigOverride`. -/
structure AgentConfigOverride where
  batchMaxSize : Option ℤ
  batchFlushIntervalMS : Option ℤ
  heartbeatEnabled : Option Bool
  heartbeatIntervalMS : Option ℤ
  journaldUnit : Option Text

/-- `agentInfo`. -/
structure AgentInfo where
  sourceKind : Text
  batchMaxSize : ℤ
  batchFlushIntervalMS : ℤ
  heartbeatEnabled : Bool
  heartbeatIntervalMS : ℤ
  desiredOverride : Option AgentConfigOverride

/-- The fields of the server's document that the command's copy has. -/
def readOverride (o : ConfigOverride) : AgentConfigOverride where
  batchMaxSize := o.batchMaxSize
  batchFlushIntervalMS := o.batchFlushIntervalMS
  heartbeatEnabled := o.heartbeatEnabled
  heartbeatIntervalMS := o.heartbeatIntervalMS
  journaldUnit := o.journaldUnit

def agentInfo (reported : Reported) (stored : Option ConfigOverride) : AgentInfo where
  sourceKind := reported.sourceKind
  batchMaxSize := reported.batchMaxSize
  batchFlushIntervalMS := reported.batchFlushIntervalMS
  heartbeatEnabled := reported.heartbeatEnabled
  heartbeatIntervalMS := reported.heartbeatIntervalMS
  desiredOverride := stored.map readOverride

/-- `mergeInt64` and `mergeBool`. -/
def mergeField {α : Type} (flag stored : Option α) (reported : α) : α :=
  match flag with
  | some v => v
  | none =>
    match stored with
    | some v => v
    | none => reported

def merged (flags : Flags) (current : AgentInfo) : AgentConfigOverride where
  batchMaxSize := some (mergeField flags.batchMaxSize
    (current.desiredOverride.bind (fun o => o.batchMaxSize)) current.batchMaxSize)
  batchFlushIntervalMS := some (mergeField flags.batchFlushIntervalMS
    (current.desiredOverride.bind (fun o => o.batchFlushIntervalMS)) current.batchFlushIntervalMS)
  heartbeatEnabled := some (mergeField flags.heartbeatEnabled
    (current.desiredOverride.bind (fun o => o.heartbeatEnabled)) current.heartbeatEnabled)
  heartbeatIntervalMS := some (mergeField flags.heartbeatIntervalMS
    (current.desiredOverride.bind (fun o => o.heartbeatIntervalMS)) current.heartbeatIntervalMS)
  -- sent to journald agents only, and empty by default
  journaldUnit :=
    if current.sourceKind = "journald".toList then
      some (mergeField flags.journaldUnit (current.desiredOverride.bind (fun o => o.journaldUnit))
        [])
    else none

/-- The body as the server decodes it: what the command does not know is absent. -/
def received (o : AgentConfigOverride) : ConfigOverride where
  batchMaxSize := o.batchMaxSize
  batchFlushIntervalMS := o.batchFlushIntervalMS
  heartbeatEnabled := o.heartbeatEnabled
  heartbeatIntervalMS := o.heartbeatIntervalMS
  journaldUnit := o.journaldUnit
  extraFilePaths := []
  logRetentionDays := none
  serviceLogRetentionDays := ∅

/-! ### The server -/

/-- The checks of `handleSetConfig` that only an owner is spared. -/
def keepsRetention (current : Option ConfigOverride) (o : ConfigOverride) : Bool :=
  !changesLogRetentionDays (currentLogRetentionDays current) o.logRetentionDays &&
    !changesServiceLogRetentionDays (currentServiceLogRetentionDays current)
      o.serviceLogRetentionDays

/-- The checks of `handleSetConfig` against the stored override. -/
def setConfigAllowed (identity : Option Identity) (current : Option ConfigOverride)
    (o : ConfigOverride) : Bool :=
  match identity with
  | none => true
  | some i =>
    (i.role.satisfies .admin ||
        !changesExtraFilePaths (currentExtraFilePaths current) o.extraFilePaths) &&
      (i.role.satisfies .owner || keepsRetention current o)

/-- `handleSetConfig` with nothing else writing in between; `none` is any other answer than
200. -/
def handleSetConfig (authorizer : Option (Option Identity)) (agents : AgentTable) (host : Text)
    (o : ConfigOverride) : Option AgentTable :=
  match requireRole authorizer .editor with
  | .pass identity =>
    if h : validateOverride o = none then
      if setConfigAllowed identity (desiredOverride agents (requestTenant identity) host) o ∧
          (requestTenant identity, host) ∈ agents then
        some (setOverride agents (requestTenant identity) host ⟨o, h⟩)
      else none
    else none
  | _ => none

/-- `cmdAgentsConfigSet`; `none` is an exit code other than 0. -/
def cmdAgentsConfigSet (authorizer : Option (Option Identity)) (agents : AgentTable)
    (reported : Reported) (host : Text) (flagArgs : List Text) : Option AgentTable :=
  match parseFlags noFlags flagArgs with
  | .error _ => none
  | .ok flags =>
    if flags = noFlags then none
    else
      match requireRole authorizer .viewer with
      | .pass identity =>
        if (requestTenant identity, host) ∈ agents then
          let stored := desiredOverride agents (requestTenant identity) host
          handleSetConfig authorizer agents host
            (received (merged flags (agentInfo reported stored)))
        else none
      | _ => none

/-! ### The handler as the store calls of a PUT -/

def written (w : World) (tenantID host : Text) (o : StoredOverride) : World :=
  { w with agents := setOverride w.agents tenantID host o }

section Serve
variable {env : Env} (w : World) (tenantID host : Text) (o : StoredOverride)

/-- A check that ends the request or lets it go on to the write. -/
theorem serve_check {w' : World} {p q : Phase} {c b : Bool} (n : ℕ)
    (hcall : call env w p = (w, if c then .idle else q))
    (hq : (serve env)^[n] (w, q) = (if b then w' else w, .idle)) :
    (serve env)^[n+1] (w, p) = (if !c && b then w' else w, .idle) := by
  rw [Function.iterate_succ_apply, serve, hcall]
  cases c with
  | true => exact serve_idle env w n
  | false => exact hq

variable (henv : env.fails = false)
include henv

theorem currentOverride_eq :
    currentOverride env w.agents tenantID host = desiredOverride w.agents tenantID host := by
  rw [currentOverride, henv]
  rfl

theorem serve_putWrite (n : ℕ) :
    (serve env)^[n+1] (w, .putWrite tenantID host o) = (written w tenantID host o, .idle) := by
  rw [Function.iterate_succ_apply, serve, call, henv]
  exact serve_idle env (written w tenantID host o) n

/-- What a caller may store, once the paths are checked. -/
theorem serve_afterExtraPaths (i : Identity) (n : ℕ) :
    (serve env)^[n+3] (w, afterExtraPaths (some i) tenantID host o) =
      (if i.role.satisfies .owner ||
          keepsRetention (currentOverride env w.agents tenantID host) o.override then
        written w tenantID host o else w, .idle) := by
  have hwrite := serve_putWrite w tenantID host o henv
  cases howner : i.role.satisfies .owner with
  | true =>
    simp only [afterExtraPaths, howner, if_true, Bool.true_or]
    exact hwrite (n+2)
  | false =>
    simp only [afterExtraPaths, howner, Bool.false_eq_true, if_false, Bool.false_or]
    have hservices := serve_check (b := true) w (p := .putServices tenantID host o) (n+1) rfl
      (hwrite n)
    have hdays := serve_check w (p := .putDays tenantID host o) (n+2) rfl hservices
    rw [Bool.and_true] at hdays
    exact hdays

/-- The checks of the handler one after the other, and the write. -/
theorem serve_startSetConfig (identity : Option Identity) {o : ConfigOverride}
    (hvalid : validateOverride o = none) :
    (serve env)^[4] (w, startSetConfig identity host o) =
      (if setConfigAllowed identity (desiredOverride w.agents (requestTenant identity) host) o then
        written w (requestTenant identity) host ⟨o, hvalid⟩ else w, .idle) := by
  rw [← currentOverride_eq w _ host henv]
  simp only [startSetConfig, dif_pos hvalid]
  cases identity with
  | none => exact serve_putWrite w _ host ⟨o, hvalid⟩ henv 3
  | some i =>
    have hrest := serve_afterExtraPaths w (requestTenant (some i)) host ⟨o, hvalid⟩ henv i
    cases hadmin : i.role.satisfies .admin with
    | true =>
      simp only [setConfigAllowed, hadmin, if_true, Bool.true_or, Bool.true_and]
      exact hrest 1
    | false =>
      simp only [setConfigAllowed, hadmin, Bool.false_eq_true, if_false, Bool.false_or]
      exact serve_check w 3 rfl (hrest 0)

end Serve

/-- The store calls of a PUT that no other request comes between do the same. -/
theorem serve_setConfig (w : World) (authorizer : Option (Option Identity)) (host : Text)
    (o : ConfigOverride) {env : Env} (henv : env.fails = false) :
    (serve env)^[4] (w, start authorizer w.now (.setConfig host o)) =
      ({ w with agents := (handleSetConfig authorizer w.agents host o).getD w.agents },
        .idle) := by
  cases hpass : requireRole authorizer .editor with
  | unauthorized | forbidden =>
    simp only [start, handleSetConfig, hpass]
    exact serve_idle _ w 4
  | pass identity =>
    simp only [start, handleSetConfig, hpass]
    by_cases hvalid : validateOverride o = none
    · rw [dif_pos hvalid, serve_startSetConfig w host henv identity hvalid]
      by_cases hagent : (requestTenant identity, host) ∈ w.agents
      · simp only [hagent, and_true, written]
        split_ifs <;> rfl
      · simp only [hagent, and_false, if_false, Option.getD_none, written, setOverride,
          writeOverride, ite_self]
    · rw [dif_neg hvalid, startSetConfig, dif_neg hvalid]
      exact serve_idle _ w 4

/-! ### What the command leaves of an override -/

/-- The unit that an agent reports, as an override would set it. -/
def Reported.unit (reported : Reported) : Option Text :=
  if reported.sourceKind = "journald".toList then
    if reported.sourceDetail = "(whole journal)".toList then some [] else some reported.sourceDetail
  else none

/-- A field has its new value if it was named, else its old one if it was set, and else at most
the one that the agent reports. -/
def FieldKept {α : Type} (flag before reported after : Option α) : Prop :=
  match flag.or before with
  | some v => after = some v
  | none => after = none ∨ after = reported

structure OnlyNamed (flags : Flags) (reported : Reported) (before : Option ConfigOverride)
    (after : ConfigOverride) : Prop where
  batchMaxSize : FieldKept flags.batchMaxSize (before.bind (fun o => o.batchMaxSize))
    (some reported.batchMaxSize) after.batchMaxSize
  batchFlushIntervalMS : FieldKept flags.batchFlushIntervalMS
    (before.bind (fun o => o.batchFlushIntervalMS)) (some reported.batchFlushIntervalMS)
    after.batchFlushIntervalMS
  heartbeatEnabled : FieldKept flags.heartbeatEnabled (before.bind (fun o => o.heartbeatEnabled))
    (some reported.heartbeatEnabled) after.heartbeatEnabled
  heartbeatIntervalMS : FieldKept flags.heartbeatIntervalMS
    (before.bind (fun o => o.heartbeatIntervalMS)) (some reported.heartbeatIntervalMS)
    after.heartbeatIntervalMS
  journaldUnit : FieldKept flags.journaldUnit (before.bind (fun o => o.journaldUnit))
    reported.unit after.journaldUnit
  extraFilePaths : after.extraFilePaths = currentExtraFilePaths before
  logRetentionDays : after.logRetentionDays = currentLogRetentionDays before
  serviceLogRetentionDays : ∀ service, after.serviceLogRetentionDays.lookup service =
    (currentServiceLogRetentionDays before).lookup service

/-- The stored override sets none of the fields that the command does not know, and the unit is
one that it sends on: that of a journald agent, which has no unit of its own unless one is
named or stored. -/
structure NothingUnknown (flags : Flags) (reported : Reported) (before : Option ConfigOverride) :
    Prop where
  extraFilePaths : currentExtraFilePaths before = []
  logRetentionDays : currentLogRetentionDays before = none
  serviceLogRetentionDays : ∀ service,
    (currentServiceLogRetentionDays before).lookup service = none
  unit : flags.journaldUnit.or (before.bind (fun o => o.journaldUnit)) = none →
    reported.sourceKind = "journald".toList → reported.unit = some []
  source : flags.journaldUnit.or (before.bind (fun o => o.journaldUnit)) ≠ none →
    reported.sourceKind = "journald".toList

theorem mergeField_eq {α : Type} (flag stored : Option α) (reported : α) :
    mergeField flag stored reported = (flag.or stored).getD reported := by
  cases flag with
  | some v => rfl
  | none =>
    cases stored with
    | some v => rfl
    | none => rfl

theorem fieldKept_merge {α : Type} (flag before : Option α) (reported : α) :
    FieldKept flag before (some reported) (some (mergeField flag before reported)) := by
  rw [mergeField_eq, FieldKept]
  cases flag.or before with
  | some v => rfl
  | none => exact .inr rfl

theorem bind_agentInfo {α : Type} (get : ConfigOverride → Option α)
    (get' : AgentConfigOverride → Option α) (h : ∀ o, get' (readOverride o) = get o)
    (stored : Option ConfigOverride) : (stored.map readOverride).bind get' = stored.bind get := by
  cases stored with
  | none => rfl
  | some o => exact h o

theorem fieldKept_unit_iff (flags : Flags) (reported : Reported) (before : Option ConfigOverride) :
    FieldKept flags.journaldUnit (before.bind (fun o => o.journaldUnit)) reported.unit
        (received (merged flags (agentInfo reported before))).journaldUnit ↔
      (flags.journaldUnit.or (before.bind (fun o => o.journaldUnit)) = none →
        reported.sourceKind = "journald".toList → reported.unit = some []) ∧
      (flags.journaldUnit.or (before.bind (fun o => o.journaldUnit)) ≠ none →
        reported.sourceKind = "journald".toList) := by
  have hstored : (agentInfo reported before).desiredOverride.bind (fun o => o.journaldUnit) =
      before.bind (fun o => o.journaldUnit) :=
    bind_agentInfo (fun o => o.journaldUnit) (fun o => o.journaldUnit) (fun _ => rfl) before
  have hkind : (agentInfo reported before).sourceKind = reported.sourceKind := rfl
  simp only [received, merged, hstored, hkind, mergeField_eq, FieldKept]
  by_cases hsource : reported.sourceKind = "journald".toList
  · rw [if_pos hsource]
    cases flags.journaldUnit.or (before.bind (fun o => o.journaldUnit)) with
    | some unit => simp [hsource]
    | none => simp [hsource, eq_comm]
  · rw [if_neg hsource]
    cases flags.journaldUnit.or (before.bind (fun o => o.journaldUnit)) with
    | some unit => exact ⟨nofun, fun h => absurd (h.2 nofun) hsource⟩
    | none =>
      exact iff_of_true (.inl rfl) ⟨fun _ h => absurd h hsource, fun h => absurd rfl h⟩

/-- A request that is answered with 200 has stored what it sent. -/
theorem handleSetConfig_eq_some {authorizer : Option (Option Identity)}
    {agents agents' : AgentTable} {host : Text} {o : ConfigOverride}
    (h : handleSetConfig authorizer agents host o = some agents') :
    desiredOverride agents' (requestTenant authorizer.join) host = some o := by
  unfold handleSetConfig at h
  split at h
  · rename_i identity hpass
    rw [requireRole_pass hpass]
    split_ifs at h with hvalid hallowed
    cases h
    have hlookup : (setOverride agents (requestTenant identity) host ⟨o, hvalid⟩).lookup
        (requestTenant identity, host) = some (some ⟨o, hvalid⟩) := by
      rw [setOverride, writeOverride, if_pos hallowed.2, AList.lookup_insert]
    rw [desiredOverride, hlookup]
  · cases h

/-- The command changes only what was named exactly if the override has nothing that the
command does not know. -/
theorem config_set_changes_only_named_iff {authorizer : Option (Option Identity)}
    {agents agents' : AgentTable} {reported : Reported} {host : Text} {flagArgs : List Text}
    {flags : Flags} (hflags : parseFlags noFlags flagArgs = .ok flags)
    (h : cmdAgentsConfigSet authorizer agents reported host flagArgs = some agents') :
    (∃ after, desiredOverride agents' (requestTenant authorizer.join) host = some after ∧
        OnlyNamed flags reported
          (desiredOverride agents (requestTenant authorizer.join) host) after) ↔
      NothingUnknown flags reported
        (desiredOverride agents (requestTenant authorizer.join) host) := by
  simp only [cmdAgentsConfigSet, hflags] at h
  split_ifs at h
  split at h
  · rename_i identity hpass
    rw [← requireRole_pass hpass] at h
    split_ifs at h
    generalize desiredOverride agents (requestTenant authorizer.join) host = before at h ⊢
    have hstored := handleSetConfig_eq_some h
    simp only [hstored, Option.some.injEq, exists_eq_left']
    have hunit := fieldKept_unit_iff flags reported before
    constructor
    · intro hnamed
      obtain ⟨hdetail, hsource⟩ := hunit.mp hnamed.journaldUnit
      exact ⟨hnamed.extraFilePaths.symm, hnamed.logRetentionDays.symm,
        fun service => (hnamed.serviceLogRetentionDays service).symm, hdetail, hsource⟩
    · intro hnothing
      have hkept {α : Type} (get : ConfigOverride → Option α)
          (get' : AgentConfigOverride → Option α) (hget : ∀ o, get' (readOverride o) = get o)
          (flag : Option α) (value : α) :
          FieldKept flag (before.bind get) (some value)
            (some (mergeField flag ((before.map readOverride).bind get') value)) := by
        rw [bind_agentInfo get get' hget]
        exact fieldKept_merge flag (before.bind get) value
      exact ⟨hkept (fun o => o.batchMaxSize) (fun o => o.batchMaxSize) (fun _ => rfl) _ _,
        hkept (fun o => o.batchFlushIntervalMS)
          (fun o => o.batchFlushIntervalMS) (fun _ => rfl) _ _,
        hkept (fun o => o.heartbeatEnabled) (fun o => o.heartbeatEnabled) (fun _ => rfl) _ _,
        hkept (fun o => o.heartbeatIntervalMS) (fun o => o.heartbeatIntervalMS) (fun _ => rfl) _ _,
        hunit.mpr ⟨hnothing.unit, hnothing.source⟩, hnothing.extraFilePaths.symm,
        hnothing.logRetentionDays.symm,
        fun service => (hnothing.serviceLogRetentionDays service).symm⟩
  · cases h

/-- An agent that tails a file and has the defaults of its flags. -/
def tailing : Reported where
  sourceKind := "file".toList
  sourceDetail := "/var/log/syslog".toList
  batchMaxSize := 500
  batchFlushIntervalMS := 2000
  heartbeatEnabled := false
  heartbeatIntervalMS := 30000

def webOverride (extraFilePaths : List Text) : ConfigOverride where
  batchMaxSize := none
  batchFlushIntervalMS := some 1000
  heartbeatEnabled := none
  heartbeatIntervalMS := none
  journaldUnit := none
  extraFilePaths := extraFilePaths
  logRetentionDays := none
  serviceLogRetentionDays := ∅

def webAgents (extraFilePaths : List Text)
    (h : validateOverride (webOverride extraFilePaths) = none) : AgentTable :=
  AList.insert ("default".toList, "web1".toList) (some ⟨webOverride extraFilePaths, h⟩) ∅

def biggerBatches : List Text := ["--batch-max-size".toList, "750".toList]

theorem biggerBatches_changes_only_named :
    ∃ agents', cmdAgentsConfigSet webEditor (webAgents [] (by decide +kernel)) tailing
        "web1".toList biggerBatches = some agents' ∧
      ∃ after, desiredOverride agents' "default".toList "web1".toList = some after ∧
        OnlyNamed { noFlags with batchMaxSize := some 750 }
          tailing (some (webOverride [])) after := by
  have hset : ∃ agents', cmdAgentsConfigSet webEditor (webAgents [] (by decide +kernel)) tailing
      "web1".toList biggerBatches = some agents' := Option.isSome_iff_exists.mp (by decide +kernel)
  obtain ⟨agents', hset⟩ := hset
  have hflags : parseFlags noFlags biggerBatches =
      .ok { noFlags with batchMaxSize := some 750 } := by decide +kernel
  refine ⟨agents', hset, (config_set_changes_only_named_iff hflags hset).mpr ?_⟩
  exact ⟨rfl, rfl, fun _ => rfl, fun _ h => absurd h (by decide +kernel), fun h => absurd rfl h⟩

/-- The extra path of the override is gone, although the command was only asked for bigger
batches. -/
theorem biggerBatches_drops_path :
    ∃ agents', cmdAgentsConfigSet webEditor
        (webAgents ["/var/log/app.log".toList] (by decide +kernel)) tailing "web1".toList
        biggerBatches = some agents' ∧
      currentExtraFilePaths (desiredOverride agents' "default".toList "web1".toList) = [] := by
  have hset : (cmdAgentsConfigSet webEditor
      (webAgents ["/var/log/app.log".toList] (by decide +kernel)) tailing "web1".toList
      biggerBatches).map (fun agents' => currentExtraFilePaths
        (desiredOverride agents' "default".toList "web1".toList)) = some [] := by decide +kernel
  exact Option.map_eq_some_iff.mp hset

end CairnObs.Cli
