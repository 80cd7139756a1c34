import CairnObs.RetentionRequests

/-! Which files an agent may be told to read. A caller below admin may keep the extra paths of
an agent but not add any; the stored paths are read in one step of the handler, and the override
is written in a later one. -/
namespace CairnObs.LogRetention

open GoText Authz Agents GuardedRuns

/-! ### Records of the requests -/

/-- Who has made a request, and the stored paths that its check has read. -/
structure PathNote where
  caller : Option Identity
  read : List Text

def PathNote.belowAdmin (n : PathNote) : Prop :=
  ∃ i, n.caller = some i ∧ i.role.satisfies .admin = false

def PathNote.after (env : Env) (agents : AgentTable) (n : PathNote) : Phase → PathNote
  | .putExtraPaths _ tenantID host _ =>
    ⟨n.caller, currentExtraFilePaths (currentOverride env agents tenantID host)⟩
  | _ => n

section Notes
variable {ρ : Type*} [DecidableEq ρ]

def pathNote (s : System ρ) (notes : ρ → PathNote) : Action ρ → ρ → PathNote
  | .request r authorizer _ => Function.update notes r ⟨authorizer.join, []⟩
  | .call r env => Function.update notes r ((notes r).after env s.world.agents (s.phases r))
  | .tick _ | .ingest _ => notes

end Notes

/-! ### The paths that are stored -/

def storedPaths (agents : AgentTable) (tenantID host : Text) : List Text :=
  currentExtraFilePaths (desiredOverride agents tenantID host)

/-- The override of a write has no path that is not stored. `SetOverride` stores nothing for an
agent without a row. -/
def AddsNoPath (agents : AgentTable) : Phase → Prop
  | .putWrite tenantID host o =>
    (tenantID, host) ∈ agents →
      ∀ path ∈ o.override.extraFilePaths, path ∈ storedPaths agents tenantID host
  | _ => True

/-- No path of the override that the request has read as stored has been removed since. -/
def PathsKept (agents : AgentTable) (n : PathNote) : Phase → Prop
  | .putWrite tenantID host o =>
    (tenantID, host) ∈ agents →
      ∀ path ∈ o.override.extraFilePaths, path ∈ n.read → path ∈ storedPaths agents tenantID host
  | _ => True

/-- What a request of a caller below admin has checked, from the check of its paths on. -/
def PathsChecked (n : PathNote) : Phase → Prop
  | .putExtraPaths identity _ _ _ => n.caller = some identity
  | .putDays _ _ o | .putServices _ _ o | .putWrite _ _ o =>
    n.belowAdmin → o.override.extraFilePaths ⊆ n.read
  | _ => True

theorem subset_of_not_changes {current desired : List Text}
    (h : changesExtraFilePaths current desired = false) : desired ⊆ current := by
  intro path hpath
  have hknown := List.any_eq_false.mp h path hpath
  exact by_contra fun hnew => hknown (decide_eq_true hnew)

/-! ### The handler -/

theorem pathsChecked_afterExtraPaths {n : PathNote} {o : StoredOverride}
    (h : n.belowAdmin → o.override.extraFilePaths ⊆ n.read) (identity : Option Identity)
    (tenantID host : Text) : PathsChecked n (afterExtraPaths identity tenantID host o) := by
  unfold afterExtraPaths
  split
  · split_ifs <;> exact h
  · exact h

theorem pathsChecked_startSetConfig (identity : Option Identity) (host : Text)
    (o : ConfigOverride) : PathsChecked ⟨identity, []⟩ (startSetConfig identity host o) := by
  unfold startSetConfig
  split_ifs with hvalid
  · cases identity with
    | none =>
      apply pathsChecked_afterExtraPaths
      rintro ⟨i, hi, -⟩
      cases hi
    | some i =>
      dsimp only
      split_ifs with hadmin
      · apply pathsChecked_afterExtraPaths
        rintro ⟨j, hj, hbelow⟩
        cases hj
        rw [hadmin] at hbelow
        cases hbelow
      · rfl
  · trivial

theorem pathsChecked_startDeletion (n : PathNote) (deletes : Bool) (identity : Option Identity)
    (now olderThanHours : ℤ) (targets : List HostService) :
    PathsChecked n (startDeletion deletes identity now olderThanHours targets) := by
  unfold startDeletion
  split
  · trivial
  · split_ifs <;> trivial

theorem pathsChecked_start (authorizer : Option (Option Identity)) (now : ℤ) (req : Request) :
    PathsChecked ⟨authorizer.join, []⟩ (start authorizer now req) := by
  cases req with
  | setConfig host o =>
    simp only [start]
    split
    · rename_i identity hpass
      rw [requireRole_pass hpass]
      exact pathsChecked_startSetConfig identity host o
    · trivial
  | clearConfig host =>
    simp only [start]
    split <;> trivial
  | preview olderThanHours targets | delete olderThanHours targets =>
    simp only [start]
    split
    · exact pathsChecked_startDeletion _ _ _ _ _ _
    · trivial

theorem pathsChecked_call {w : World} {n : PathNote} {p : Phase} (h : PathsChecked n p)
    (env : Env) : PathsChecked (n.after env w.agents p) (call env w p).2 := by
  cases p with
  | putExtraPaths identity tenantID host o =>
    simp only [call]
    split_ifs with hchanges
    · trivial
    · apply pathsChecked_afterExtraPaths
      intro _
      exact subset_of_not_changes (Bool.not_eq_true _ ▸ hchanges)
  | putDays tenantID host o =>
    simp only [call]
    split_ifs
    · trivial
    · exact h
  | putServices tenantID host o =>
    simp only [call]
    split_ifs
    · trivial
    · exact h
  | floors deletes cutoff targets =>
    simp only [call]
    split_ifs <;> trivial
  | partition deletes cutoff targets floors =>
    simp only [call, countPhase]
    split_ifs <;> trivial
  | count deletes cutoff allowed =>
    simp only [call]
    split_ifs <;> trivial
  | _ => trivial

/-! ### Runs -/

section Runs
variable {ρ : Type*}

/-- A write that a caller below admin has asked for stores no path that was not stored. -/
def EditorsAddNoPath (x : System ρ × (ρ → PathNote)) : Action ρ → Prop
  | .call r env =>
    env.fails = false → (x.2 r).belowAdmin → AddsNoPath x.1.world.agents (x.1.phases r)
  | _ => True

/-- The condition on a step. -/
def PathsKeptStep (x : System ρ × (ρ → PathNote)) : Action ρ → Prop
  | .call r env =>
    env.fails = false → (x.2 r).belowAdmin → PathsKept x.1.world.agents (x.2 r) (x.1.phases r)
  | _ => True

def PathsInv (x : System ρ × (ρ → PathNote)) : Prop := ∀ r, PathsChecked (x.2 r) (x.1.phases r)

/-- The paths of a checked request were all read as stored, so those that are missing at the
write are those that have been removed. -/
theorem pathsKeptStep_iff {x : System ρ × (ρ → PathNote)} (h : PathsInv x) (a : Action ρ) :
    PathsKeptStep x a ↔ EditorsAddNoPath x a := by
  cases a with
  | call r env =>
    refine imp_congr_right fun _ => imp_congr_right fun hbelow => ?_
    have hchecked := h r
    cases hphase : x.1.phases r with
    | putWrite tenantID host o =>
      rw [hphase] at hchecked
      refine imp_congr_right fun _ => forall_congr' fun path => imp_congr_right fun hpath => ?_
      exact ⟨fun hkept => hkept (hchecked hbelow hpath), fun hstored _ => hstored⟩
    | _ => exact Iff.rfl
  | _ => exact Iff.rfl

variable [DecidableEq ρ]

theorem PathsInv.step {x y : System ρ × (ρ → PathNote)} {a : Action ρ} (h : PathsInv x)
    (hstep : noted step pathNote x a = some y) : PathsInv y := by
  obtain ⟨s, notes⟩ := x
  obtain ⟨t, notes'⟩ := y
  obtain ⟨hstep, rfl⟩ := noted_eq_some.mp hstep
  cases a with
  | request r authorizer req =>
    simp only [LogRetention.step] at hstep
    split at hstep
    · cases hstep
      exact forall_update₂ h (pathsChecked_start authorizer s.world.now req) r
    · cases hstep
  | call r env =>
    simp only [LogRetention.step] at hstep
    split_ifs at hstep
    cases hstep
    exact forall_update₂ h (pathsChecked_call (h r) env) r
  | tick now =>
    simp only [LogRetention.step] at hstep
    split_ifs at hstep
    cases hstep
    exact h
  | ingest record =>
    cases hstep
    exact h

/-- In every run, callers below admin give an agent no new path exactly if no path is removed
between the check and the write of one of their requests that has it. -/
theorem editors_add_no_path_iff {s t : System ρ} {as : List (Action ρ)} (notes : ρ → PathNote)
    (hidle : ∀ r, s.phases r = .idle) (hrun : run step s as = some t) :
    (∃ notes', run (noted step pathNote) (s, notes) as = some (t, notes')) ∧
      (Meets (noted step pathNote) EditorsAddNoPath (s, notes) as ↔
        Meets (noted step pathNote) PathsKeptStep (s, notes) as) := by
  refine ⟨exists_run_noted pathNote hrun notes, ?_⟩
  have hstart : PathsInv (s, notes) := by
    intro r
    rw [hidle r]
    trivial
  exact meets_congr (fun _ _ _ h _ hstep => PathsInv.step h hstep)
    (fun _ a h => (pathsKeptStep_iff h a).symm) hstart

end Runs

/-! ### A file that is tailed -/

def dbHost : Text := "db1".toList

def appLog : Text := "/var/log/app.log".toList

def tailsApp : ConfigOverride where
  batchMaxSize := none
  batchFlushIntervalMS := none
  heartbeatEnabled := none
  heartbeatIntervalMS := none
  journaldUnit := none
  extraFilePaths := [appLog]
  logRetentionDays := none
  serviceLogRetentionDays := ∅

def tailedWorld : World where
  agents := AList.insert ("default".toList, dbHost) (some ⟨tailsApp, by decide +kernel⟩) ∅
  logs := []
  now := 0

def dbAdmin : Identity := ⟨"default".toList, "adam".toList, .admin⟩

def noPathNotes (_ : Bool) : PathNote := ⟨none, []⟩

def answered : Env := ⟨false, []⟩

/-- An editor sends the override back as it is. -/
def editorKeeps : List (Action Bool) :=
  [.request true webEditor (.setConfig dbHost tailsApp), .call true answered,
    .call true answered, .call true answered, .call true answered]

theorem editorKeeps_adds_no_path :
    ∃ t notes', run step ⟨tailedWorld, fun _ => .idle⟩ editorKeeps = some t ∧
      run (noted step pathNote) (⟨tailedWorld, fun _ => .idle⟩, noPathNotes) editorKeeps =
        some (t, notes') ∧
      Meets (noted step pathNote) EditorsAddNoPath (⟨tailedWorld, fun _ => .idle⟩, noPathNotes)
        editorKeeps := by
  have hrun : ∃ t, run step ⟨tailedWorld, fun _ => .idle⟩ editorKeeps = some t := ⟨_, rfl⟩
  obtain ⟨t, ht⟩ := hrun
  obtain ⟨⟨notes', hnoted⟩, hiff⟩ := editors_add_no_path_iff noPathNotes (fun _ => rfl) ht
  refine ⟨t, notes', ht, hnoted, hiff.mpr ?_⟩
  refine .cons trivial rfl (.cons (fun _ _ => trivial) rfl (.cons (fun _ _ => trivial) rfl
    (.cons (fun _ _ => trivial) rfl (.cons ?_ rfl trivial))))
  intro _ _ _ path hpath _
  have hstored : storedPaths tailedWorld.agents "default".toList dbHost = [appLog] := by
    decide +kernel
  exact hstored ▸ hpath

/-- While the editor's request is between its check and its write, an admin clears the override. -/
def adminClears : List (Action Bool) :=
  [.request true webEditor (.setConfig dbHost tailsApp), .call true answered,
    .request false (some (some dbAdmin)) (.clearConfig dbHost), .call false answered,
    .call true answered, .call true answered]

theorem adminClears_undone :
    ∃ x, run (noted step pathNote) (⟨tailedWorld, fun _ => .idle⟩, noPathNotes) adminClears =
        some x ∧
      storedPaths x.1.world.agents "default".toList dbHost = [] ∧
      ¬ EditorsAddNoPath x (.call true answered) := by
  refine ⟨_, rfl, by decide +kernel, fun hadds => ?_⟩
  have hmem : appLog ∈ storedPaths (clearOverride tailedWorld.agents "default".toList dbHost)
      "default".toList dbHost :=
    hadds rfl ⟨eve, rfl, rfl⟩ (by decide +kernel) appLog List.mem_cons_self
  exact absurd hmem (by decide +kernel)

end CairnObs.LogRetention
