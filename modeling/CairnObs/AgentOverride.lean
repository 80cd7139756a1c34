import CairnObs.AgentConfig
import CairnObs.GuardedRuns

/-! An agent under remote configuration: the override stored for it in `agents`, and what the
agent's process makes of it (`agent/cairnobs-agent`, `run_agent` and `apply_override`). -/
namespace CairnObs.AgentSync

open GoText Agents GuardedRuns

/-- `SourceConfig`; only the unit of journald can be overridden. -/
inductive Source
  | journald (unit : Option Text)
  | file (path : Text) (fromBeginning : Bool)
  | eventLog (channels : List Text)
  | etw (providers : List Text)
  deriving DecidableEq, Repr

/-- The settings of `agent.toml` that an override can change; intervals are in nanoseconds. -/
@[ext]
structure Settings where
  batchMaxSize : ℤ
  flushInterval : ℤ
  heartbeatEnabled : Bool
  heartbeatInterval : ℤ
  source : Source
  deriving DecidableEq, Repr

/-! ### The agent -/

/-- `Duration::from_millis`. -/
def fromMillis (ms : ℤ) : ℤ := ms * 1000000

def flushIntervalOf (o : ConfigOverride) : Option ℤ := o.batchFlushIntervalMS.map fromMillis

def heartbeatIntervalOf (o : ConfigOverride) : Option ℤ := o.heartbeatIntervalMS.map fromMillis

/-- The source that an override sets. An empty unit is no filter, and a source that is not
journald ignores the unit. -/
def Source.overridden : Source → ConfigOverride → Option Source
  | .journald _, o =>
    o.journaldUnit.map (fun unit => .journald (if unit = [] then none else some unit))
  | .file _ _, _ | .eventLog _, _ | .etw _, _ => none

/-- A field that the override does not set keeps its current value. -/
def applyOverride (s : Settings) (o : ConfigOverride) : Settings where
  batchMaxSize := o.batchMaxSize.getD s.batchMaxSize
  flushInterval := (flushIntervalOf o).getD s.flushInterval
  heartbeatEnabled := o.heartbeatEnabled.getD s.heartbeatEnabled
  heartbeatInterval := (heartbeatIntervalOf o).getD s.heartbeatInterval
  source := (s.source.overridden o).getD s.source

/-- The tasks of removed paths are stopped, then those of added paths are started. -/
def syncExtraFiles (current desired : Finset Text) : Finset Text :=
  (current \ (current \ desired)) ∪ (desired \ current)

theorem syncExtraFiles_eq (current desired : Finset Text) :
    syncExtraFiles current desired = desired := by
  ext path
  simp only [syncExtraFiles, Finset.mem_union, Finset.mem_sdiff]
  tauto

/-- What the process keeps: the settings in effect, the extra files it tails, and the version
of the override it applied last, empty before the first one. -/
structure Agent where
  settings : Settings
  extraFiles : Finset Text
  appliedVersion : Text
  deriving DecidableEq

def boot (toml : Settings) : Agent := ⟨toml, ∅, []⟩

/-- `desired_override` and `desired_override_version` of a row. -/
structure Desired where
  stored : StoredOverride
  version : Text

def Desired.paths (d : Desired) : Finset Text := d.stored.override.extraFilePaths.toFinset

/-- The arm for a response; `none` is `has_override = false`. -/
def receive (a : Agent) : Option Desired → Agent
  | none => a
  | some d =>
    if d.version ≠ a.appliedVersion then
      { settings := applyOverride a.settings d.stored.override
        extraFiles := syncExtraFiles a.extraFiles d.paths
        appliedVersion := d.version }
    else a

/-! ### The agent and its row -/

/-- `row` is the agent's row, if there is one, with the override in it. The last three fields
record the run: the versions given to edits, the overrides applied since the last restart, and
whether a check-in has succeeded since the last edit or restart. -/
structure State where
  row : Option (Option Desired)
  agent : Agent
  versions : List Text
  applied : List ConfigOverride
  synced : Bool

def State.desired (s : State) : Option Desired := s.row.join

inductive Action
  | put (o : StoredOverride) (version : Text)
  | delete
  | checkIn
  -- `reached` says whether the server has served the check-in that failed for the agent
  | checkInFailed (reached : Bool)
  | restart

def appliedAfter (s : State) : List ConfigOverride :=
  match s.desired with
  | none => s.applied
  | some d =>
    if d.version ≠ s.agent.appliedVersion then s.applied ++ [d.stored.override] else s.applied

/-- The upsert of a check-in leaves the override of a row as it is. -/
def upsert : Option (Option Desired) → Option (Option Desired)
  | none => some none
  | some d => some d

/-- Every edit has a version of its own. An edit without a row is `ErrNotFound`. -/
def step (toml : Settings) (s : State) : Action → Option State
  | .put o version =>
    if version = [] ∨ version ∈ s.versions then none
    else
      match s.row with
      | none => some s
      | some _ =>
        some { s with
          row := some (some ⟨o, version⟩)
          versions := version :: s.versions
          synced := false }
  | .delete =>
    match s.row with
    | none => some s
    | some _ => some { s with row := some none, synced := false }
  | .checkIn =>
    some { s with
      row := upsert s.row
      agent := receive s.agent s.desired
      applied := appliedAfter s
      synced := true }
  | .checkInFailed reached => some { s with row := if reached then upsert s.row else s.row }
  | .restart => some { s with agent := boot toml, applied := [], synced := false }

def initial (toml : Settings) : State := ⟨none, boot toml, [], [], false⟩

variable {toml : Settings} {s t : State}

/-- A PUT that changes anything stores an override with a version that is new. -/
theorem put_cases {o : StoredOverride} {version : Text}
    (h : step toml s (.put o version) = some t) :
    t = s ∨ version ≠ [] ∧ version ∉ s.versions ∧
      t = { s with
        row := some (some ⟨o, version⟩)
        versions := version :: s.versions
        synced := false } := by
  simp only [step] at h
  split_ifs at h with hfresh
  push Not at hfresh
  cases hrow : s.row with
  | none =>
    rw [hrow] at h
    exact .inl (Option.some.inj h).symm
  | some d =>
    rw [hrow] at h
    exact .inr ⟨hfresh.1, hfresh.2, (Option.some.inj h).symm⟩

theorem delete_cases (h : step toml s .delete = some t) :
    t = s ∨ t = { s with row := some none, synced := false } := by
  cases hrow : s.row with
  | none =>
    simp only [step, hrow] at h
    exact .inl (Option.some.inj h).symm
  | some d =>
    simp only [step, hrow] at h
    exact .inr (Option.some.inj h).symm

/-! ### What the agent should run -/

/-- The local configuration with the stored override laid over it. -/
def overlay (toml : Settings) : Option Desired → Settings
  | none => toml
  | some d =>
    { batchMaxSize := d.stored.override.batchMaxSize.getD toml.batchMaxSize
      flushInterval := (flushIntervalOf d.stored.override).getD toml.flushInterval
      heartbeatEnabled := d.stored.override.heartbeatEnabled.getD toml.heartbeatEnabled
      heartbeatInterval := (heartbeatIntervalOf d.stored.override).getD toml.heartbeatInterval
      source := (toml.source.overridden d.stored.override).getD toml.source }

def desiredPaths : Option Desired → Finset Text
  | none => ∅
  | some d => d.paths

def State.Converged (toml : Settings) (s : State) : Prop :=
  s.agent.settings = overlay toml s.desired ∧ s.agent.extraFiles = desiredPaths s.desired

/-! ### Fields set by overrides that are gone -/

variable {o : ConfigOverride} {applied : List ConfigOverride}

section LastSet
variable {β : Type} {f : ConfigOverride → Option β} {applied : List ConfigOverride}

/-- The value that the last of the overrides to set a field has given it. -/
def lastSet (f : ConfigOverride → Option β) (applied : List ConfigOverride) : Option β :=
  (applied.filterMap f).getLast?

theorem lastSet_append (f : ConfigOverride → Option β) (applied : List ConfigOverride)
    (o : ConfigOverride) : lastSet f (applied ++ [o]) = (f o).or (lastSet f applied) := by
  unfold lastSet
  rw [List.filterMap_append]
  cases hf : f o with
  | none => simp [hf]
  | some v => simp [hf]

theorem lastSet_of_getLast? (h : applied.getLast? = some o) {v : β} (hv : f o = some v) :
    lastSet f applied = some v := by
  obtain ⟨before, rfl⟩ := List.getLast?_eq_some_iff.mp h
  rw [lastSet_append, hv]
  rfl

/-- If overrides have set the field, the last of them to do so gave it its local value. -/
def LeftLocal (f : ConfigOverride → Option β) (localValue : β) (applied : List ConfigOverride) :
    Prop :=
  ∀ v ∈ lastSet f applied, v = localValue

theorem getD_lastSet {localValue : β} :
    (lastSet f applied).getD localValue = localValue ↔ LeftLocal f localValue applied := by
  unfold LeftLocal
  cases lastSet f applied with
  | none => simp
  | some v => simp

/-- A field after a list of overrides that all keep `P`. -/
theorem get_foldl {get : Settings → β} {P : Settings → Prop}
    (hP : ∀ s o, P s → P (applyOverride s o))
    (hget : ∀ s o, P s → get (applyOverride s o) = (f o).getD (get s)) (htoml : P toml)
    (applied : List ConfigOverride) :
    get (applied.foldl applyOverride toml) = (lastSet f applied).getD (get toml) := by
  have hboth : P (applied.foldl applyOverride toml) ∧
      get (applied.foldl applyOverride toml) = (lastSet f applied).getD (get toml) := by
    induction applied using List.reverseRecOn with
    | nil => exact ⟨htoml, rfl⟩
    | append_singleton applied o ih =>
      rw [List.foldl_append, List.foldl_cons, List.foldl_nil]
      refine ⟨hP _ o ih.1, ?_⟩
      rw [hget _ o ih.1, ih.2, lastSet_append]
      cases f o <;> rfl
  exact hboth.2

end LastSet

/-- Applying an override keeps the kind of the source. -/
theorem overridden_applyOverride (s : Settings) (o : ConfigOverride) :
    (applyOverride s o).source.overridden = s.source.overridden := by
  unfold applyOverride
  cases s.source with
  | journald unit =>
    cases hu : o.journaldUnit with
    | none => simp [Source.overridden, hu]
    | some u =>
      simp only [Source.overridden, hu]
      rfl
  | file path fromBeginning => rfl
  | eventLog channels => rfl
  | etw providers => rfl

/-- The settings after a list of overrides, field by field. -/
theorem foldl_applyOverride (toml : Settings) (applied : List ConfigOverride) :
    applied.foldl applyOverride toml =
      { batchMaxSize := (lastSet ConfigOverride.batchMaxSize applied).getD toml.batchMaxSize
        flushInterval := (lastSet flushIntervalOf applied).getD toml.flushInterval
        heartbeatEnabled :=
          (lastSet ConfigOverride.heartbeatEnabled applied).getD toml.heartbeatEnabled
        heartbeatInterval := (lastSet heartbeatIntervalOf applied).getD toml.heartbeatInterval
        source := (lastSet toml.source.overridden applied).getD toml.source } := by
  have hget {β : Type} (f : ConfigOverride → Option β) (get : Settings → β)
      (h : ∀ s o, get (applyOverride s o) = (f o).getD (get s)) :
      get (applied.foldl applyOverride toml) = (lastSet f applied).getD (get toml) :=
    get_foldl (P := fun _ => True) (fun _ _ _ => trivial) (fun s o _ => h s o) trivial applied
  ext1
  · exact hget ConfigOverride.batchMaxSize Settings.batchMaxSize (fun _ _ => rfl)
  · exact hget flushIntervalOf Settings.flushInterval (fun _ _ => rfl)
  · exact hget ConfigOverride.heartbeatEnabled Settings.heartbeatEnabled (fun _ _ => rfl)
  · exact hget heartbeatIntervalOf Settings.heartbeatInterval (fun _ _ => rfl)
  · -- what an override sets here depends on the kind of the source, which stays
    refine get_foldl (P := fun s => s.source.overridden = toml.source.overridden) ?_ ?_ rfl applied
    · intro s o hs
      exact (overridden_applyOverride s o).trans hs
    · intro s o hs
      rw [← hs]
      rfl

/-- Each field that `o` does not set has its local value after the overrides applied since the
last restart: none of them set it, or the last one to do so gave it that value. -/
structure NothingLeft (toml : Settings) (applied : List ConfigOverride) (o : ConfigOverride) :
    Prop where
  batchMaxSize : o.batchMaxSize = none →
    LeftLocal ConfigOverride.batchMaxSize toml.batchMaxSize applied
  flushInterval : flushIntervalOf o = none → LeftLocal flushIntervalOf toml.flushInterval applied
  heartbeatEnabled : o.heartbeatEnabled = none →
    LeftLocal ConfigOverride.heartbeatEnabled toml.heartbeatEnabled applied
  heartbeatInterval : heartbeatIntervalOf o = none →
    LeftLocal heartbeatIntervalOf toml.heartbeatInterval applied
  source : toml.source.overridden o = none →
    LeftLocal toml.source.overridden toml.source applied

/-- An override that sets nothing, for a row without one. -/
def noOverride : ConfigOverride := ⟨none, none, none, none, none, [], none, ∅⟩

theorem overridden_noOverride (source : Source) : source.overridden noOverride = none := by
  cases source <;> rfl

/-- The settings are those of the last override over `agent.toml`, exactly if nothing is left
by the ones before it. -/
theorem foldl_eq_applyOverride_iff (hlast : applied.getLast? = some o) :
    applied.foldl applyOverride toml = applyOverride toml o ↔ NothingLeft toml applied o := by
  have hfield {β : Type} (f : ConfigOverride → Option β) (localValue : β) :
      (lastSet f applied).getD localValue = (f o).getD localValue ↔
        (f o = none → LeftLocal f localValue applied) := by
    cases hf : f o with
    | none => simpa using getD_lastSet
    | some v => simp [lastSet_of_getLast? hlast hf]
  rw [foldl_applyOverride, applyOverride, Settings.mk.injEq]
  rw [hfield, hfield, hfield, hfield, hfield]
  constructor
  · rintro ⟨hbatch, hflush, henabled, hinterval, hsource⟩
    exact ⟨hbatch, hflush, henabled, hinterval, hsource⟩
  · rintro ⟨hbatch, hflush, henabled, hinterval, hsource⟩
    exact ⟨hbatch, hflush, henabled, hinterval, hsource⟩

theorem foldl_eq_local_iff :
    applied.foldl applyOverride toml = toml ↔ NothingLeft toml applied noOverride := by
  rw [foldl_applyOverride, Settings.ext_iff]
  simp only [getD_lastSet]
  constructor
  · rintro ⟨hbatch, hflush, henabled, hinterval, hsource⟩
    exact ⟨fun _ => hbatch, fun _ => hflush, fun _ => henabled, fun _ => hinterval,
      fun _ => hsource⟩
  · rintro ⟨hbatch, hflush, henabled, hinterval, hsource⟩
    exact ⟨hbatch rfl, hflush rfl, henabled rfl, hinterval rfl, hsource (overridden_noOverride _)⟩

/-- An override leaves nothing in the fields that it does not set. -/
theorem nothingLeft_append : NothingLeft toml (applied ++ [o]) o ↔ NothingLeft toml applied o := by
  have hfield {β : Type} (f : ConfigOverride → Option β) (localValue : β) :
      (f o = none → LeftLocal f localValue (applied ++ [o])) ↔
        (f o = none → LeftLocal f localValue applied) := by
    refine imp_congr_right fun hf => ?_
    rw [LeftLocal, lastSet_append, hf, Option.none_or]
    rfl
  constructor
  · rintro ⟨hbatch, hflush, henabled, hinterval, hsource⟩
    exact ⟨(hfield _ _).mp hbatch, (hfield _ _).mp hflush, (hfield _ _).mp henabled,
      (hfield _ _).mp hinterval, (hfield _ _).mp hsource⟩
  · rintro ⟨hbatch, hflush, henabled, hinterval, hsource⟩
    exact ⟨(hfield _ _).mpr hbatch, (hfield _ _).mpr hflush, (hfield _ _).mpr henabled,
      (hfield _ _).mpr hinterval, (hfield _ _).mpr hsource⟩

/-- The extra paths of the last override. -/
def extraFilesOf (applied : List ConfigOverride) : Finset Text :=
  (applied.getLast?.map (fun o => o.extraFilePaths.toFinset)).getD ∅

/-- A successful check-in finds nothing left of earlier overrides that the stored one does not
set again. -/
def CleanCheckIn (toml : Settings) (s : State) : Action → Prop
  | .checkIn =>
    match s.desired with
    | some d => NothingLeft toml s.applied d.stored.override
    | none => NothingLeft toml s.applied noOverride ∧ extraFilesOf s.applied = ∅
  | .put _ _ | .delete | .checkInFailed _ | .restart => True

/-- A process that has applied nothing yet is clean. -/
theorem cleanCheckIn_of_applied_nil (h : s.applied = []) (a : Action) : CleanCheckIn toml s a := by
  have hnothing (o : ConfigOverride) : NothingLeft toml s.applied o := by
    rw [h]
    constructor <;> exact fun _ _ hv => nomatch hv
  cases a with
  | checkIn =>
    rw [CleanCheckIn]
    cases s.desired with
    | none => exact ⟨hnothing noOverride, by rw [h]; rfl⟩
    | some d => exact hnothing d.stored.override
  | put o version => trivial
  | delete => trivial
  | checkInFailed reached => trivial
  | restart => trivial

/-! ### What holds in every run -/

/-- The agent is the result of the overrides it applied since its last restart, and a stored
version that it has applied is that of the last one of them. -/
structure Recorded (toml : Settings) (s : State) : Prop where
  settings : s.agent.settings = s.applied.foldl applyOverride toml
  extraFiles : s.agent.extraFiles = extraFilesOf s.applied
  versions : ∀ d ∈ s.desired, d.version ≠ [] ∧ d.version ∈ s.versions
  appliedVersion : s.agent.appliedVersion = [] ∨ s.agent.appliedVersion ∈ s.versions
  last : ∀ d ∈ s.desired, d.version = s.agent.appliedVersion →
    s.applied.getLast? = some d.stored.override

theorem recorded_initial (toml : Settings) : Recorded toml (initial toml) := by
  refine ⟨rfl, rfl, ?_, .inl rfl, ?_⟩ <;> simp [initial, State.desired]

theorem upsert_join (row : Option (Option Desired)) : (upsert row).join = row.join := by
  cases row <;> rfl

theorem receive_recorded (hs : Recorded toml s) :
    (receive s.agent s.desired).settings = (appliedAfter s).foldl applyOverride toml ∧
      (receive s.agent s.desired).extraFiles = extraFilesOf (appliedAfter s) := by
  unfold receive appliedAfter
  cases s.desired with
  | none => exact ⟨hs.settings, hs.extraFiles⟩
  | some d =>
    by_cases hv : d.version = s.agent.appliedVersion
    · simpa [hv] using ⟨hs.settings, hs.extraFiles⟩
    · simp [hv, hs.settings, syncExtraFiles_eq, extraFilesOf, Desired.paths]

theorem receive_appliedVersion (hs : Recorded toml s) :
    (receive s.agent s.desired).appliedVersion = [] ∨
      (receive s.agent s.desired).appliedVersion ∈ s.versions := by
  unfold receive
  cases hd : s.desired with
  | none => exact hs.appliedVersion
  | some d =>
    dsimp only
    split_ifs with hv
    · exact .inr (hs.versions d hd).2
    · exact hs.appliedVersion

/-- After a check-in the stored override is the one applied last. -/
theorem getLast?_appliedAfter (hs : Recorded toml s) {d : Desired} (hd : s.desired = some d) :
    (appliedAfter s).getLast? = some d.stored.override := by
  unfold appliedAfter
  rw [hd]
  by_cases hv : d.version = s.agent.appliedVersion
  · simpa [hv] using hs.last d hd hv
  · simp [hv]

theorem recorded_step {a : Action} (hs : Recorded toml s) (h : step toml s a = some t) :
    Recorded toml t := by
  cases a with
  | put o version =>
    rcases put_cases h with rfl | ⟨hne, hnew, rfl⟩
    · exact hs
    · refine ⟨hs.settings, hs.extraFiles, ?_, ?_, ?_⟩
      · rintro d hd
        cases hd
        exact ⟨hne, List.mem_cons_self⟩
      · exact hs.appliedVersion.imp_right (List.mem_cons_of_mem version)
      · -- a new version is not one that the agent has applied
        rintro d hd hv
        cases hd
        change version = s.agent.appliedVersion at hv
        rcases hs.appliedVersion with hnone | hused
        · exact absurd (hv.trans hnone) hne
        · exact absurd (hv ▸ hused) hnew
  | delete =>
    rcases delete_cases h with rfl | rfl
    · exact hs
    · refine ⟨hs.settings, hs.extraFiles, ?_, hs.appliedVersion, ?_⟩ <;> simp [State.desired]
  | checkIn =>
    cases h
    have hkept : (upsert s.row).join = s.desired := upsert_join s.row
    refine ⟨(receive_recorded hs).1, (receive_recorded hs).2, ?_, receive_appliedVersion hs, ?_⟩
    · intro d hd
      exact hs.versions d (hkept ▸ hd)
    · intro d hd _
      exact getLast?_appliedAfter hs (hkept ▸ hd)
  | checkInFailed reached =>
    cases h
    have hkept : (if reached then upsert s.row else s.row).join = s.desired := by
      cases reached
      · rfl
      · exact upsert_join s.row
    refine ⟨hs.settings, hs.extraFiles, ?_, hs.appliedVersion, ?_⟩
    · intro d hd
      exact hs.versions d (hkept ▸ hd)
    · intro d hd
      exact hs.last d (hkept ▸ hd)
  | restart =>
    cases h
    refine ⟨rfl, rfl, hs.versions, .inl rfl, ?_⟩
    intro d hd hv
    exact absurd hv (hs.versions d hd).1

/-! ### Convergence -/

/-- A check-in brings the agent to what is stored, exactly if nothing is left behind. -/
theorem converged_checkIn_iff (hs : Recorded toml s) (h : step toml s .checkIn = some t) :
    t.Converged toml ↔ CleanCheckIn toml s .checkIn := by
  cases h
  have hkept : (upsert s.row).join = s.desired := upsert_join s.row
  obtain ⟨hsettings, hextra⟩ := receive_recorded hs
  change (receive s.agent s.desired).settings = overlay toml (upsert s.row).join ∧
    (receive s.agent s.desired).extraFiles = desiredPaths (upsert s.row).join ↔ _
  rw [hkept, hsettings, hextra, CleanCheckIn]
  cases hd : s.desired with
  | none =>
    have hsame : appliedAfter s = s.applied := by simp [appliedAfter, hd]
    rw [hsame]
    exact and_congr foldl_eq_local_iff Iff.rfl
  | some d =>
    have hlast := getLast?_appliedAfter hs hd
    have hpaths : extraFilesOf (appliedAfter s) = desiredPaths (some d) := by
      rw [extraFilesOf, hlast]
      rfl
    rw [and_iff_left hpaths]
    refine (foldl_eq_applyOverride_iff hlast).trans ?_
    by_cases hv : d.version = s.agent.appliedVersion
    · simp [appliedAfter, hd, hv]
    · simp [appliedAfter, hd, hv, nothingLeft_append]

/-- The agent runs what is stored once it has checked in since the last edit or restart. -/
def State.Settled (toml : Settings) (s : State) : Prop := s.synced = true → s.Converged toml

theorem settled_step_iff {a : Action} (hs : Recorded toml s) (hsettled : s.Settled toml)
    (h : step toml s a = some t) : t.Settled toml ↔ CleanCheckIn toml s a := by
  cases a with
  | put o version =>
    refine iff_of_true ?_ trivial
    rcases put_cases h with rfl | ⟨-, -, rfl⟩
    · exact hsettled
    · exact nofun
  | delete =>
    refine iff_of_true ?_ trivial
    rcases delete_cases h with rfl | rfl
    · exact hsettled
    · exact nofun
  | checkIn =>
    have hsynced : t.synced = true := by
      cases h
      rfl
    rw [← converged_checkIn_iff hs h]
    exact forall_prop_of_true hsynced
  | checkInFailed reached =>
    refine iff_of_true ?_ trivial
    cases h
    cases reached
    · exact hsettled
    · intro hsynced
      have hthere := hsettled hsynced
      simp only [State.Converged, State.desired, if_true, upsert_join] at hthere ⊢
      exact hthere
  | restart =>
    refine iff_of_true ?_ trivial
    cases h
    exact nofun

/-- Whatever edits, check-ins and restarts happen, the agent runs its local configuration
overlaid with the stored override after each successful check-in, exactly if every such
check-in is clean. -/
theorem agent_converges_iff {toml : Settings} {actions : List Action} {t : State}
    (hr : run (step toml) (initial toml) actions = some t) :
    Throughout (step toml) (State.Settled toml) (initial toml) actions ↔
      Meets (step toml) (CleanCheckIn toml) (initial toml) actions :=
  throughout_iff_meets (fun _ _ _ hs h => recorded_step hs h)
    (fun _ _ _ hs hsettled h => settled_step_iff hs hsettled h)
    (recorded_initial toml) nofun hr

/-- The defaults of `agent.toml`, on a host with journald. -/
def defaultSettings : Settings := ⟨500, fromMillis 2000, true, fromMillis 60000, .journald none⟩

/-- An override of the batch size alone. -/
def batchOverride : StoredOverride where
  override := { noOverride with batchMaxSize := some 10 }
  valid := by decide +kernel

/-- One that sets the batch size too, and more. -/
def quietOverride : StoredOverride where
  override := { noOverride with batchMaxSize := some 20, heartbeatEnabled := some false }
  valid := by decide +kernel

/-- The override is seen twice and replaced by one that sets all it had set; that one is withdrawn
and the agent restarted. -/
def editedThenRestarted : List Action :=
  [.checkIn, .put batchOverride ['1'], .checkIn, .checkIn, .put quietOverride ['2'], .checkIn,
    .delete, .restart, .checkIn]

theorem agent_converges_restart :
    (run (step defaultSettings) (initial defaultSettings) (editedThenRestarted.take 6)).map
        (fun s => (s.applied.length, s.agent.settings.batchMaxSize)) = some (2, 20) ∧
      Throughout (step defaultSettings) (State.Settled defaultSettings) (initial defaultSettings)
        editedThenRestarted := by
  have hclean {o : ConfigOverride} (ho : o.batchMaxSize ≠ none) :
      NothingLeft defaultSettings [batchOverride.override] o := by
    refine ⟨fun hnone => absurd hnone ho, ?_, ?_, ?_, ?_⟩ <;> exact fun _ _ hv => nomatch hv
  refine ⟨rfl, (agent_converges_iff rfl).mpr ?_⟩
  refine .cons (cleanCheckIn_of_applied_nil rfl _) rfl (.cons trivial rfl ?_)
  refine .cons (cleanCheckIn_of_applied_nil rfl _) rfl ?_
  refine .cons (hclean nofun) rfl (.cons trivial rfl ?_)
  refine .cons (hclean nofun) rfl (.cons trivial rfl (.cons trivial rfl ?_))
  exact .cons (cleanCheckIn_of_applied_nil rfl _) rfl trivial

/-- The override is withdrawn and the agent, which is not restarted, keeps its batch size. -/
theorem deleted_override_stays :
    (run (step defaultSettings) (initial defaultSettings)
      [.checkIn, .put batchOverride ['1'], .checkIn, .delete, .checkIn]).map
        (fun s => (s.synced, s.desired.isNone, s.agent.settings.batchMaxSize)) =
      some (true, true, 10) ∧
    ¬ Throughout (step defaultSettings) (State.Settled defaultSettings) (initial defaultSettings)
      [.checkIn, .put batchOverride ['1'], .checkIn, .delete, .checkIn] := by
  refine ⟨rfl, fun h => ?_⟩
  have hbatch := congrArg Settings.batchMaxSize (h.last rfl rfl).1
  exact absurd hbatch (by decide +kernel)

end CairnObs.AgentSync
