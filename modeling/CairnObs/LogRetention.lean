import CairnObs.AgentConfig
import CairnObs.GoTime

/-! `api/logretention`: the floors that owners set on their agents, and which of the targets of
a deletion they protect. -/
namespace CairnObs.LogRetention

open GoText Authz Agents

def hour : ℤ := 3600*second

/-- `time.Duration(days) * 24 * time.Hour`, exactly. -/
def dayLength : ℤ := 24*hour

/-! ### Floors -/

structure HostFloor where
  defaultDays : Option ℤ
  serviceDays : AList (fun _ : Text => ℤ)

theorem HostFloor.eq_iff (a b : HostFloor) :
    a = b ↔ a.defaultDays = b.defaultDays ∧ a.serviceDays.entries = b.serviceDays.entries := by
  constructor
  · rintro rfl
    exact ⟨rfl, rfl⟩
  · rintro ⟨hdays, hservices⟩
    cases a
    cases b
    cases hdays
    cases AList.ext hservices
    rfl

instance : DecidableEq HostFloor := fun a b => decidable_of_iff _ (HostFloor.eq_iff a b).symm

def HostFloor.effective (hf : HostFloor) (service : Text) : Option ℤ :=
  match hf.serviceDays.lookup service with
  | some days => some days
  | none => hf.defaultDays

/-- Rows of `agents`, by tenant and host. -/
abbrev AgentTable := AList (fun _ : Text × Text => Option StoredOverride)

def overrideFloor (o : ConfigOverride) : HostFloor :=
  ⟨o.logRetentionDays, o.serviceLogRetentionDays⟩

/-- The WHERE of `FloorsByHost`: one of the two fields is there. An empty map is stored as an
absent field. -/
def HostFloor.isSet (hf : HostFloor) : Bool :=
  hf.defaultDays.isSome || !hf.serviceDays.entries.isEmpty

/-- The rows that the query of `FloorsByHost` answers with, of every tenant. -/
def floorRows (agents : AgentTable) : List (Text × HostFloor) :=
  agents.entries.filterMap (fun e =>
    match e.2 with
    | some o =>
      if (overrideFloor o.override).isSet then some (e.1.2, overrideFloor o.override) else none
    | none => none)

/-- The loop of `FloorsByHost` over the rows, which the query yields in any order. -/
def floorsByHost (rows : List (Text × HostFloor)) : AList (fun _ : Text => HostFloor) :=
  rows.foldl (fun floors row => floors.insert row.1 row.2) ∅

/-- The map's zero value has no floor. -/
def effectiveFloor (floors : AList (fun _ : Text => HostFloor)) (host service : Text) : Option ℤ :=
  match floors.lookup host with
  | some hf => hf.effective service
  | none => none

theorem floorsByHost_concat (rows : List (Text × HostFloor)) (row : Text × HostFloor) :
    floorsByHost (rows ++ [row]) = (floorsByHost rows).insert row.1 row.2 := by
  simp [floorsByHost, List.foldl_append]

theorem mem_of_lookup_floorsByHost {rows : List (Text × HostFloor)} {host : Text} {hf : HostFloor}
    (h : (floorsByHost rows).lookup host = some hf) : (host, hf) ∈ rows := by
  induction rows using List.reverseRecOn with
  | nil => cases h
  | append_singleton rows row ih =>
    obtain ⟨host', hf'⟩ := row
    rw [floorsByHost_concat] at h
    by_cases hhost : host = host'
    · subst hhost
      obtain rfl : hf' = hf := by simpa [AList.lookup_insert] using h
      exact List.mem_append_right _ (List.mem_singleton_self _)
    · rw [AList.lookup_insert_ne hhost] at h
      exact List.mem_append_left _ (ih h)

/-- Some row of the host is read, if there is one. -/
theorem exists_lookup_floorsByHost {rows : List (Text × HostFloor)} {host : Text}
    (h : ∃ hf, (host, hf) ∈ rows) : ∃ hf, (floorsByHost rows).lookup host = some hf := by
  induction rows using List.reverseRecOn with
  | nil => exact absurd h (by simp)
  | append_singleton rows row ih =>
    obtain ⟨host', hf'⟩ := row
    rw [floorsByHost_concat]
    by_cases hhost : host = host'
    · subst hhost
      exact ⟨hf', AList.lookup_insert _⟩
    · rw [AList.lookup_insert_ne hhost]
      obtain ⟨hf, hmem⟩ := h
      exact ih ⟨hf, by simpa [hhost] using hmem⟩

/-! ### Deletion requests -/

structure HostService where
  host : Text
  service : Text
  deriving DecidableEq

def maxOlderThanHours : ℤ := 10*365*24

def maxTargets : ℕ := 2000

/-- The targets without their repetitions, each in its first place. -/
def dedupTargets : List HostService → List HostService → List HostService
  | _, [] => []
  | seen, t :: ts => if t ∈ seen then dedupTargets seen ts else t :: dedupTargets (t :: seen) ts

def parseTargets (targets : List HostService) : Option (List HostService) :=
  if targets.any (fun t => decide (t.host = [] ∨ t.service = [])) then none
  else
    let out := dedupTargets [] targets
    if out.length = 0 ∨ maxTargets < out.length then none else some out

/-- The checks of `decodeDeletionRequest` on a body that decodes. -/
def decodeDeletionRequest (olderThanHours : ℤ) (targets : List HostService) :
    Option (List HostService) :=
  if olderThanHours < 1 ∨ maxOlderThanHours < olderThanHours then none else parseTargets targets

/-- `now.Add(-time.Duration(hours) * time.Hour)`. -/
def cutoffAt (now olderThanHours : ℤ) : ℤ :=
  now + wrapInt64 (wrapInt64 (-olderThanHours)*hour)

/-- `now.Add(-time.Duration(days) * 24 * time.Hour)`. -/
def protectedBoundary (now days : ℤ) : ℤ :=
  now + wrapInt64 (wrapInt64 (wrapInt64 (-days)*24)*hour)

/-- The days that protect a target, if its floor reaches behind the cutoff. -/
def protectedDays (floors : AList (fun _ : Text => HostFloor)) (now cutoff : ℤ) (t : HostService) :
    Option ℤ :=
  match effectiveFloor floors t.host t.service with
  | none => none
  | some days => if protectedBoundary now days < cutoff then some days else none

structure BlockedTarget where
  target : HostService
  protectedDays : ℤ

/-- The loop of `partitionTargets`, for a caller who is not an owner. -/
def partitionTargets (floors : AList (fun _ : Text => HostFloor)) (now cutoff : ℤ)
    (targets : List HostService) : List HostService × List BlockedTarget :=
  (targets.filter (fun t => (protectedDays floors now cutoff t).isNone),
    targets.filterMap (fun t => (protectedDays floors now cutoff t).map (fun days => ⟨t, days⟩)))

/-- The most days that fit into a `time.Duration`. -/
def maxDurationDays : ℤ := 106751

/-- Up to this many days the boundary is not too late, whatever becomes of a negative number. -/
theorem protectedBoundary_le {now days : ℤ} (h : days ≤ maxDurationDays) :
    protectedBoundary now days ≤ now-days*dayLength := by
  simp only [maxDurationDays] at h
  by_cases hlower : -maxDurationDays ≤ days
  · simp only [maxDurationDays] at hlower
    simp only [protectedBoundary, dayLength, hour, second]
    rw [wrapInt64_of_mem (n := -days) (by omega) (by omega),
      wrapInt64_of_mem (n := -days*24) (by omega) (by omega),
      wrapInt64_of_mem (by omega) (by omega)]
    linarith
  · have hmax := wrapInt64_le_maxDuration (wrapInt64 (wrapInt64 (-days)*24)*hour)
    simp only [maxDurationDays] at hlower
    simp only [maxDuration] at hmax
    simp only [protectedBoundary, dayLength, hour, second] at hmax ⊢
    omega

theorem le_maxDurationDays {days : ℤ} (h : retentionDaysValid days = true) :
    days ≤ maxDurationDays := by
  have hupper := (of_decide_eq_true h).2
  simp only [maxDurationDays]
  omega

/-- A target with a floor is allowed only if the cutoff is behind its protected days. -/
theorem cutoff_le_of_allowed {floors : AList (fun _ : Text => HostFloor)} {now cutoff days : ℤ}
    {targets : List HostService} {t : HostService}
    (h : t ∈ (partitionTargets floors now cutoff targets).1)
    (hfloor : effectiveFloor floors t.host t.service = some days)
    (hdays : days ≤ maxDurationDays) : cutoff ≤ now-days*dayLength := by
  have hnone := (List.mem_filter.mp h).2
  rw [Option.isNone_iff_eq_none, protectedDays, hfloor] at hnone
  by_contra hlt
  have hbefore := lt_of_le_of_lt (protectedBoundary_le hdays) (not_le.mp hlt)
  simp [hbefore] at hnone

end CairnObs.LogRetention
