import CairnObs.Authz
import Mathlib.Data.List.AList

/-! `api/agents`: the override of an agent's configuration, what makes one valid, and which
changes of it need a higher role than the route. -/
namespace CairnObs.Agents

open GoText Authz

/-- `ConfigOverride`; an absent field overrides nothing. -/
structure ConfigOverride where
  batchMaxSize : Option ℤ
  batchFlushIntervalMS : Option ℤ
  heartbeatEnabled : Option Bool
  heartbeatIntervalMS : Option ℤ
  journaldUnit : Option Text
  extraFilePaths : List Text
  logRetentionDays : Option ℤ
  serviceLogRetentionDays : AList (fun _ : Text => ℤ)

/-! ### Validation -/

inductive OverrideError
  | batchMaxSize
  | batchFlushIntervalMS
  | heartbeatIntervalMS
  | tooManyPaths
  | pathNotAbsolute
  | pathDotDot
  | pathNotCanonical (path cleaned : Text)
  | pathDenied (path : Text)
  | logRetentionDays
  | tooManyServices
  | serviceEmpty
  | serviceDays (service : Text)
  deriving DecidableEq

/-- `path.Clean` on a rooted path in which no `..` occurs. -/
def pathClean (p : Text) : Text :=
  '/' :: List.intercalate ['/']
    ((p.splitOn '/').filter (fun element => decide (element ≠ [] ∧ element ≠ ['.'])))

def extraFilePathDenylistPrefixes : List Text :=
  ["/etc/".toList, "/root/".toList, "/home/".toList, "/proc/".toList, "/sys/".toList,
    "/boot/".toList]

def extraFilePathDenylistSubstrings : List Text :=
  ["/.ssh/".toList, "/.gnupg/".toList, "/.aws/".toList, "/.kube/".toList]

def extraFilePathDenylistSuffixes : List Text :=
  ["-key.pem".toList, "id_rsa".toList, "id_ecdsa".toList, "id_ed25519".toList, "id_dsa".toList,
    "/shadow".toList, "/gshadow".toList]

def deniedPath (p : Text) : Bool :=
  extraFilePathDenylistPrefixes.any (fun dir => decide (p = dir.dropLast) || decide (dir <+: p)) ||
    extraFilePathDenylistSubstrings.any (fun part => decide (part <:+: p)) ||
    extraFilePathDenylistSuffixes.any (fun ending => decide (ending <:+ p))

def validateExtraFilePath (p : Text) : Option OverrideError :=
  if ¬ ['/'] <+: p then some .pathNotAbsolute
  else if "..".toList <:+: p then some .pathDotDot
  else if pathClean p ≠ p then some (.pathNotCanonical p (pathClean p))
  else if deniedPath p then some (.pathDenied p)
  else none

/-- A bound that an absent field meets. -/
def belowBound (bound : ℤ) : Option ℤ → Bool
  | some n => decide (n < bound)
  | none => false

def retentionDaysValid (days : ℤ) : Bool := decide (1 ≤ days ∧ days ≤ 3650)

/-- The loop over the services; the map yields them in any order, and so the first error. -/
def validateServices (services : AList (fun _ : Text => ℤ)) : Option OverrideError :=
  services.entries.findSome? (fun e =>
    if e.1 = [] then some .serviceEmpty
    else if !retentionDaysValid e.2 then some (.serviceDays e.1)
    else none)

def failsWith (err : OverrideError) (bad : Bool) : Option OverrideError :=
  if bad then some err else none

/-- The first check that fails. -/
def validateOverride (o : ConfigOverride) : Option OverrideError :=
  [failsWith .batchMaxSize (belowBound 1 o.batchMaxSize),
    failsWith .batchFlushIntervalMS (belowBound 100 o.batchFlushIntervalMS),
    failsWith .heartbeatIntervalMS (belowBound 5000 o.heartbeatIntervalMS),
    failsWith .tooManyPaths (decide (20 < o.extraFilePaths.length)),
    o.extraFilePaths.findSome? validateExtraFilePath,
    failsWith .logRetentionDays (o.logRetentionDays.any (fun days => !retentionDaysValid days)),
    failsWith .tooManyServices (decide (200 < o.serviceLogRetentionDays.entries.length)),
    validateServices o.serviceLogRetentionDays].findSome? id

/-- What `desired_override` can hold: every write has passed the validation. -/
structure StoredOverride where
  override : ConfigOverride
  valid : validateOverride override = none

theorem validateServices_eq_none {services : AList (fun _ : Text => ℤ)}
    (h : validateServices services = none) {service : Text} {days : ℤ}
    (hd : services.lookup service = some days) : retentionDaysValid days = true := by
  have hnone := List.findSome?_eq_none_iff.mp h _ (AList.mem_lookup_iff.mp hd)
  split_ifs at hnone with hempty hinvalid
  simpa using hinvalid

theorem validateOverride_retention {o : ConfigOverride} (h : validateOverride o = none) :
    (∀ days, o.logRetentionDays = some days → retentionDaysValid days = true) ∧
      ∀ service days, o.serviceLogRetentionDays.lookup service = some days →
        retentionDaysValid days = true := by
  have hall := List.findSome?_eq_none_iff.mp h
  refine ⟨fun days hd => ?_, fun service days hd => ?_⟩
  · have hdays := hall (failsWith .logRetentionDays
      (o.logRetentionDays.any (fun days => !retentionDaysValid days))) (by simp)
    simpa [failsWith, hd] using hdays
  · exact validateServices_eq_none (hall (validateServices o.serviceLogRetentionDays) (by simp)) hd

/-! ### Changes that need a higher role -/

/-- Whether a path is added. -/
def changesExtraFilePaths (current desired : List Text) : Bool :=
  desired.any (fun p => decide (p ∉ current))

def changesLogRetentionDays : Option ℤ → Option ℤ → Bool
  | none, none => false
  | some current, some desired => decide (current ≠ desired)
  | _, _ => true

def changesServiceLogRetentionDays (current desired : AList (fun _ : Text => ℤ)) : Bool :=
  decide (current.entries.length ≠ desired.entries.length) ||
    desired.entries.any (fun e => decide (current.lookup e.1 ≠ some e.2))

theorem changesLogRetentionDays_eq_false {current desired : Option ℤ}
    (h : changesLogRetentionDays current desired = false) : desired = current := by
  cases current with
  | none =>
    cases desired with
    | none => rfl
    | some days => cases h
  | some days =>
    cases desired with
    | none => cases h
    | some days' =>
      have hsame : days = days' := by simpa [changesLogRetentionDays] using h
      rw [hsame]

/-- Two maps of the same size, one inside the other, are the same map. -/
theorem changesServiceLogRetentionDays_eq_false {current desired : AList (fun _ : Text => ℤ)}
    (h : changesServiceLogRetentionDays current desired = false) (service : Text) :
    desired.lookup service = current.lookup service := by
  obtain ⟨hlength, hentries⟩ := Bool.or_eq_false_iff.mp h
  have hlength : current.entries.length = desired.entries.length := by simpa using hlength
  have hsubset : desired.entries ⊆ current.entries := by
    intro e he
    have hcurrent := (List.any_eq_false.mp hentries) e he
    exact AList.mem_lookup_iff.mp (by_contra fun hne => hcurrent (decide_eq_true hne))
  have hperm : desired.entries.Perm current.entries :=
    (List.subperm_of_subset desired.nodupKeys.nodup hsubset).perm_of_length_le hlength.le
  exact List.perm_dlookup service desired.nodupKeys hperm

end CairnObs.Agents
