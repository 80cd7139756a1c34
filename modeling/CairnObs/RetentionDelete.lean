import CairnObs.RetentionRequests

/-! One deletion by age from its request to its response: the targets of the response, the
statement that is sent, and the rows that are gone afterwards. -/
namespace CairnObs.LogRetention

open GoText Authz Agents GuardedRuns

/-! ### The statements -/

inductive Arg
  | time (t : ℤ)
  | text (s : Text)

def targetPlaceholders (cutoff : ℤ) (targets : List HostService) : Text × List Arg :=
  (List.intercalate ", ".toList (targets.map (fun _ => "(?, ?)".toList)),
    .time cutoff :: targets.flatMap (fun t => [.text t.host, .text t.service]))

def countHead : Text :=
  "SELECT count() FROM logs WHERE timestamp < ? AND (host, service) IN (".toList

def countTail : Text := ")".toList

def deleteHead : Text :=
  "ALTER TABLE logs DELETE WHERE timestamp < ? AND (host, service) IN (".toList

def deleteTail : Text := ") SETTINGS mutations_sync = 1".toList

/-- `fmt.Sprintf` on one of the two statements, with the arguments. -/
def statement (head tail : Text) (cutoff : ℤ) (targets : List HostService) : Text × List Arg :=
  let (ph, args) := targetPlaceholders cutoff targets
  (head ++ ph ++ tail, args)

/-- Pairs of placeholders and the texts that they stand for, and what comes after them. -/
def readTuples : List Arg → Text → Option (List HostService × Text)
  | .text host :: .text service :: args, text =>
    match text.dropPrefix? "(?, ?)".toList with
    | none => none
    | some rest =>
      if args.isEmpty then some ([⟨host, service⟩], rest)
      else
        match rest.dropPrefix? ", ".toList with
        | none => none
        | some rest =>
          (readTuples args rest).map (fun r => (⟨host, service⟩ :: r.1, r.2))
  | _, _ => none

/-- What the server makes of a statement: the time and the tuples of its condition. Each
placeholder takes the next argument. -/
def readStatement (head tail : Text) (stmt : Text × List Arg) : Option (ℤ × List HostService) :=
  match stmt.2, stmt.1.dropPrefix? head with
  | .time cutoff :: args, some rest =>
    match readTuples args rest with
    | some (targets, rest) => if rest = tail then some (cutoff, targets) else none
    | none => none
  | _, _ => none

/-! ### The handler -/

structure DeletionRequest where
  olderThanHours : ℤ
  targets : List HostService

structure DeleteResponse where
  deletedCount : ℕ
  cutoff : ℤ
  deletedTargets : List HostService
  blockedTargets : List BlockedTarget

/-- What the store calls of a request answer. -/
structure StoreAnswers where
  floors : Option (AList (fun _ : Text => HostFloor))
  countFails : Bool
  deleteFails : Bool

/-- `partitionTargets` with the shortcut for owners, which reads no floors. -/
def partitionFor (role : Role) (floors : Option (AList (fun _ : Text => HostFloor)))
    (now cutoff : ℤ) (targets : List HostService) :
    Option (List HostService × List BlockedTarget) :=
  if role = .owner then some (targets, [])
  else floors.map (fun floors => partitionTargets floors now cutoff targets)

section Handler
variable (bound : ℤ → ℤ)

/-- `CountOlderThan`; the driver sends the time `t` as `bound t`. -/
def countStmt (stmt : Text × List Arg) (logs : List LogRecord) : Option ℕ :=
  (readStatement countHead countTail stmt).map
    (fun r => (logs.filter (olderThan (bound r.1) r.2)).length)

def deleteStmt (stmt : Text × List Arg) (logs : List LogRecord) : Option (List LogRecord) :=
  (readStatement deleteHead deleteTail stmt).map (fun r => deleteOlderThan logs (bound r.1) r.2)

/-- `handleDelete` on a body that decodes, with the table before and after; `none` is any other
answer than 200. The clock is read for the cutoff and again for the floors. -/
def handleDelete (identity : Option Identity) (cutoffNow floorNow : ℤ) (answers : StoreAnswers)
    (logs : List LogRecord) (req : DeletionRequest) :
    Option (DeleteResponse × List LogRecord) :=
  match decodeDeletionRequest req.olderThanHours req.targets with
  | none => none
  | some targets =>
    let cutoff := cutoffAt cutoffNow req.olderThanHours
    match partitionFor (roleForFloorCheck identity) answers.floors floorNow cutoff targets with
    | none => none
    | some (allowed, blocked) =>
      if allowed = [] then some (⟨0, cutoff, allowed, blocked⟩, logs)
      else if answers.countFails || answers.deleteFails then none
      else
        match countStmt bound (statement countHead countTail cutoff allowed) logs,
            deleteStmt bound (statement deleteHead deleteTail cutoff allowed) logs with
        | some count, some logs' => some (⟨count, cutoff, allowed, blocked⟩, logs')
        | _, _ => none

end Handler

/-! ### Every statement is read as it is meant -/

theorem readTuples_placeholders (targets : List HostService) (hne : targets ≠ []) (tail : Text) :
    readTuples (targets.flatMap (fun t => [.text t.host, .text t.service]))
        (List.intercalate ", ".toList (targets.map (fun _ => "(?, ?)".toList)) ++ tail) =
      some (targets, tail) := by
  induction targets with
  | nil => exact absurd rfl hne
  | cons t ts ih =>
    cases ts with
    | nil =>
      simp only [List.map_cons, List.map_nil, List.intercalate_singleton, List.flatMap_cons,
        List.flatMap_nil, List.append_nil, readTuples, dropPrefix?_append]
      rfl
    | cons t' ts =>
      have hjoin : List.intercalate ", ".toList ((t :: t' :: ts).map (fun _ => "(?, ?)".toList)) ++
          tail = "(?, ?)".toList ++ (", ".toList ++ (List.intercalate ", ".toList
            ((t' :: ts).map (fun _ => "(?, ?)".toList)) ++ tail)) := by
        simp only [List.map_cons, List.intercalate_cons_cons, List.append_assoc]
      rw [hjoin, List.flatMap_cons, List.cons_append, List.cons_append, List.nil_append, readTuples,
        dropPrefix?_append]
      simp only [dropPrefix?_append, ih (List.cons_ne_nil _ _)]
      rfl

variable {targets : List HostService}

/-- The condition of the statement holds the cutoff and the targets, however many they are. -/
theorem readStatement_statement (head tail : Text) (cutoff : ℤ) (hne : targets ≠ []) :
    readStatement head tail (statement head tail cutoff targets) = some (cutoff, targets) := by
  have htuples := readTuples_placeholders targets hne tail
  simp only [statement, targetPlaceholders, readStatement, List.append_assoc,
    dropPrefix?_append, htuples, if_true]

/-! ### The targets of the response -/

theorem mem_dedupTargets {seen : List HostService} {t : HostService} :
    t ∈ dedupTargets seen targets ↔ t ∈ targets ∧ t ∉ seen := by
  induction targets generalizing seen with
  | nil => simp [dedupTargets]
  | cons t' ts ih =>
    by_cases hseen : t' ∈ seen
    · rw [dedupTargets, if_pos hseen, ih]
      constructor
      · rintro ⟨hmem, hnot⟩
        exact ⟨List.mem_cons_of_mem _ hmem, hnot⟩
      · rintro ⟨hmem, hnot⟩
        rcases List.mem_cons.mp hmem with rfl | hmem
        · exact absurd hseen hnot
        · exact ⟨hmem, hnot⟩
    · rw [dedupTargets, if_neg hseen, List.mem_cons, ih]
      by_cases heq : t = t'
      · simp [heq, hseen]
      · simp [heq]

theorem nodup_dedupTargets (seen targets : List HostService) :
    (dedupTargets seen targets).Nodup := by
  induction targets generalizing seen with
  | nil => exact List.nodup_nil
  | cons t ts ih =>
    rw [dedupTargets]
    split_ifs
    · exact ih seen
    · refine List.nodup_cons.mpr ⟨fun hmem => ?_, ih (t :: seen)⟩
      exact (mem_dedupTargets.mp hmem).2 List.mem_cons_self

theorem dedupTargets_sublist (seen targets : List HostService) :
    (dedupTargets seen targets).Sublist targets := by
  induction targets generalizing seen with
  | nil => exact List.Sublist.refl _
  | cons t ts ih =>
    rw [dedupTargets]
    split_ifs
    · exact (ih seen).cons t
    · exact (ih (t :: seen)).cons_cons t

theorem decodeDeletionRequest_eq_some {olderThanHours : ℤ} {out : List HostService}
    (h : decodeDeletionRequest olderThanHours targets = some out) :
    out = dedupTargets [] targets := by
  simp only [decodeDeletionRequest, parseTargets] at h
  split_ifs at h
  exact (Option.some.inj h).symm

/-- The allowed and the blocked targets are those of the request, each in one of the two lists
and both lists in the order of the request. -/
structure Partitions (targets allowed blocked : List HostService) : Prop where
  nodup : (allowed ++ blocked).Nodup
  mem_iff : ∀ t, t ∈ allowed ++ blocked ↔ t ∈ targets
  allowed_sublist : allowed.Sublist targets
  blocked_sublist : blocked.Sublist targets

/-- The blocked targets are those that are not allowed. -/
theorem map_target_blocked (floors : AList (fun _ : Text => HostFloor)) (now cutoff : ℤ)
    (targets : List HostService) :
    (partitionTargets floors now cutoff targets).2.map (fun b => b.target) =
      targets.filter (fun t => !(protectedDays floors now cutoff t).isNone) := by
  induction targets with
  | nil => rfl
  | cons t ts ih =>
    simp only [partitionTargets] at ih
    cases hdays : protectedDays floors now cutoff t with
    | none => simp [partitionTargets, hdays, ih]
    | some days => simp [partitionTargets, hdays, ih]

theorem partitions_filter (hnodup : targets.Nodup) (p : HostService → Bool) :
    Partitions targets (targets.filter p) (targets.filter (fun t => !p t)) := by
  refine ⟨?_, ?_, List.filter_sublist, List.filter_sublist⟩
  · refine List.nodup_append.mpr ⟨hnodup.filter p, hnodup.filter _, ?_⟩
    rintro t hp _ hnot rfl
    have h := (List.mem_filter.mp hnot).2
    rw [(List.mem_filter.mp hp).2] at h
    cases h
  · intro t
    cases hp : p t with
    | true => simp [hp]
    | false => simp [hp]

theorem partitions_partitionFor {role : Role} {floors : Option (AList (fun _ : Text => HostFloor))}
    {now cutoff : ℤ} {allowed : List HostService} {blocked : List BlockedTarget}
    (hnodup : targets.Nodup)
    (h : partitionFor role floors now cutoff targets = some (allowed, blocked)) :
    Partitions targets allowed (blocked.map (fun b => b.target)) := by
  unfold partitionFor at h
  split_ifs at h
  · cases h
    exact ⟨by simpa using hnodup, by simp, List.Sublist.refl _, List.nil_sublist _⟩
  · obtain ⟨floors, -, hpartition⟩ := Option.map_eq_some_iff.mp h
    have hblocked := map_target_blocked floors now cutoff targets
    rw [hpartition] at hblocked
    obtain rfl : (partitionTargets floors now cutoff targets).1 = allowed :=
      congrArg Prod.fst hpartition
    rw [hblocked]
    exact partitions_filter hnodup _

/-! ### The floors -/

/-- What a deletion leaves: the targets are partitioned, the rows that are gone are those of an
allowed target that are older than the cutoff as it was sent, and none of them is protected
from anyone but an owner. -/
structure DeletedExactly (bound : ℤ → ℤ) (identity : Option Identity) (floorNow : ℤ)
    (floors : Option (AList (fun _ : Text => HostFloor))) (logs : List LogRecord)
    (req : DeletionRequest) (response : DeleteResponse) (logs' : List LogRecord) : Prop where
  targets : Partitions req.targets response.deletedTargets
    (response.blockedTargets.map (fun b => b.target))
  rows : logs' = logs.filter (fun row => !decide (row.timestamp < bound response.cutoff ∧
    ⟨row.host, row.service⟩ ∈ response.deletedTargets))
  floors : ∀ i map, identity = some i → i.role ≠ .owner → floors = some map →
    ∀ row ∈ logs, row ∉ logs' → ∀ days, effectiveFloor map row.host row.service = some days →
      row.timestamp+days*dayLength ≤ floorNow

theorem deleteOlderThan_nil (logs : List LogRecord) (cutoff : ℤ) :
    deleteOlderThan logs cutoff [] = logs := by
  simp [deleteOlderThan, olderThan]

/-- The rows that a deletion removes. -/
theorem handleDelete_rows {bound : ℤ → ℤ} {identity : Option Identity} {cutoffNow floorNow : ℤ}
    {answers : StoreAnswers} {logs logs' : List LogRecord} {req : DeletionRequest}
    {response : DeleteResponse}
    (h : handleDelete bound identity cutoffNow floorNow answers logs req = some (response, logs')) :
    partitionFor (roleForFloorCheck identity) answers.floors floorNow response.cutoff
        (dedupTargets [] req.targets) =
      some (response.deletedTargets, response.blockedTargets) ∧
    logs' = deleteOlderThan logs (bound response.cutoff) response.deletedTargets := by
  cases hdecode : decodeDeletionRequest req.olderThanHours req.targets with
  | none => simp [handleDelete, hdecode] at h
  | some targets =>
    obtain rfl := decodeDeletionRequest_eq_some hdecode
    cases hpartition : partitionFor (roleForFloorCheck identity) answers.floors floorNow
        (cutoffAt cutoffNow req.olderThanHours) (dedupTargets [] req.targets) with
    | none => simp [handleDelete, hdecode, hpartition] at h
    | some parts =>
      obtain ⟨allowed, blocked⟩ := parts
      simp only [handleDelete, hdecode, hpartition] at h
      split_ifs at h with hnil
      · cases h
        subst hnil
        exact ⟨hpartition, (deleteOlderThan_nil logs _).symm⟩
      · simp only [countStmt, deleteStmt, readStatement_statement _ _ _ hnil, Option.map_some,
          Option.some.injEq, Prod.mk.injEq] at h
        obtain ⟨rfl, rfl⟩ := h
        exact ⟨hpartition, rfl⟩

theorem deletion_removes_exactly_old_allowed {bound : ℤ → ℤ} (hbound : ∀ t, bound t ≤ t)
    {identity : Option Identity} {cutoffNow floorNow : ℤ} {answers : StoreAnswers}
    {logs logs' : List LogRecord} {req : DeletionRequest} {response : DeleteResponse}
    (hfloors : ∀ map, answers.floors = some map → ∀ host service days,
      effectiveFloor map host service = some days → days ≤ maxDurationDays)
    (h : handleDelete bound identity cutoffNow floorNow answers logs req =
      some (response, logs')) :
    DeletedExactly bound identity floorNow answers.floors logs req response logs' := by
  obtain ⟨hpartition, hlogs⟩ := handleDelete_rows h
  have hdedup := partitions_partitionFor (nodup_dedupTargets [] req.targets) hpartition
  have hsublist := dedupTargets_sublist [] req.targets
  refine ⟨⟨hdedup.nodup, fun t => ?_, hdedup.allowed_sublist.trans hsublist,
    hdedup.blocked_sublist.trans hsublist⟩, hlogs, ?_⟩
  · rw [hdedup.mem_iff, mem_dedupTargets]
    simp
  · rintro i map rfl hrole hmap row hrow hgone days hdays
    have hold : row.timestamp < bound response.cutoff ∧
        ⟨row.host, row.service⟩ ∈ response.deletedTargets := by
      by_contra hkept
      exact hgone (hlogs ▸ List.mem_filter.mpr ⟨hrow, by simp [olderThan, hkept]⟩)
    rw [partitionFor, if_neg (show ¬ roleForFloorCheck (some i) = .owner from hrole), hmap,
      Option.map_some, Option.some.injEq] at hpartition
    have hcutoff := cutoff_le_of_allowed (t := ⟨row.host, row.service⟩)
      (by rw [hpartition]; exact hold.2) hdays (hfloors map hmap _ _ days hdays)
    have hsent := hbound response.cutoff
    have hrow := hold.1
    omega

/-- A driver that sends whole seconds. -/
def wholeSeconds (t : ℤ) : ℤ := t-t%second

def shopFloors (days : ℤ) : AList (fun _ : Text => HostFloor) :=
  AList.insert "shop".toList ⟨some days, AList.insert "web".toList 30 ∅⟩ ∅

theorem shopFloors_le {days n : ℤ} (h : days ≤ maxDurationDays) {host service : Text}
    (hn : effectiveFloor (shopFloors days) host service = some n) : n ≤ maxDurationDays := by
  by_cases hhost : host = "shop".toList
  · rw [effectiveFloor, shopFloors, hhost, AList.lookup_insert] at hn
    by_cases hservice : service = "web".toList
    · subst hservice
      simp only [HostFloor.effective, AList.lookup_insert] at hn
      cases hn
      decide
    · simp only [HostFloor.effective, AList.lookup_insert_ne hservice] at hn
      cases hn
      exact h
  · rw [effectiveFloor, shopFloors, AList.lookup_insert_ne hhost] at hn
    cases hn

/-- One record of each service, both ten days and an hour old at the time `11*dayLength`. -/
def shopLogs : List LogRecord :=
  [⟨"shop".toList, "web".toList, dayLength-hour⟩, ⟨"shop".toList, "db".toList, dayLength-hour⟩]

def shopRequest : DeletionRequest :=
  ⟨240, [⟨"shop".toList, "web".toList⟩, ⟨"shop".toList, "db".toList⟩,
    ⟨"shop".toList, "web".toList⟩]⟩

def shopAdmin : Identity := ⟨"default".toList, "adam".toList, .admin⟩

/-- The record of the service with the longer floor of its own is kept. -/
theorem shopRequest_removes_exactly_old_allowed :
    ∃ response, handleDelete wholeSeconds (some shopAdmin) (11*dayLength) (11*dayLength)
        ⟨some (shopFloors 7), false, false⟩ shopLogs shopRequest =
          some (response, [⟨"shop".toList, "web".toList, dayLength-hour⟩]) ∧
      DeletedExactly wholeSeconds (some shopAdmin) (11*dayLength) (some (shopFloors 7)) shopLogs
        shopRequest response [⟨"shop".toList, "web".toList, dayLength-hour⟩] := by
  have hsent (t : ℤ) : wholeSeconds t ≤ t := by
    have hmod := Int.emod_nonneg t (show second ≠ 0 by decide)
    simp only [wholeSeconds]
    omega
  have hdelete : ∃ response, handleDelete wholeSeconds (some shopAdmin) (11*dayLength)
      (11*dayLength) ⟨some (shopFloors 7), false, false⟩ shopLogs shopRequest =
        some (response, [⟨"shop".toList, "web".toList, dayLength-hour⟩]) := ⟨_, rfl⟩
  obtain ⟨response, hdelete⟩ := hdelete
  refine ⟨response, hdelete, deletion_removes_exactly_old_allowed hsent ?_ hdelete⟩
  intro map hmap host service days hdays
  obtain rfl := Option.some.inj hmap
  exact shopFloors_le (by decide) hdays

/-- A floor of more days than a duration holds: the boundary overflows into the future, and an
admin deletes what is ten days old. -/
theorem shopRequest_ignores_long_floor :
    ∃ response, handleDelete id (some shopAdmin) (11*dayLength) (11*dayLength)
        ⟨some (shopFloors 200000), false, false⟩ shopLogs shopRequest =
          some (response, [⟨"shop".toList, "web".toList, dayLength-hour⟩]) ∧
      effectiveFloor (shopFloors 200000) "shop".toList "db".toList = some 200000 ∧
      ¬ (dayLength-hour)+200000*dayLength ≤ 11*dayLength :=
  ⟨_, rfl, by decide +kernel, by decide +kernel⟩

/-! ### The handler as the store calls of a deletion -/

/-- What is left of the table by a deletion, if the driver sends times as they are. -/
def logsAfter (authorizer : Option (Option Identity)) (cutoffNow floorNow : ℤ)
    (answers : StoreAnswers) (logs : List LogRecord) (req : DeletionRequest) : List LogRecord :=
  match requireRole authorizer .admin with
  | .pass identity =>
    match handleDelete id identity cutoffNow floorNow answers logs req with
    | some (_, logs') => logs'
    | none => logs
  | _ => logs

theorem logsAfter_eq {authorizer : Option (Option Identity)} {identity : Option Identity}
    {cutoffNow floorNow : ℤ} {floors : AList (fun _ : Text => HostFloor)} {logs : List LogRecord}
    {req : DeletionRequest} {allowed : List HostService} {blocked : List BlockedTarget}
    (hpass : requireRole authorizer .admin = .pass identity)
    (hdecode : decodeDeletionRequest req.olderThanHours req.targets = some targets)
    (hpartition : partitionFor (roleForFloorCheck identity) (some floors) floorNow
      (cutoffAt cutoffNow req.olderThanHours) targets = some (allowed, blocked)) :
    logsAfter authorizer cutoffNow floorNow ⟨some floors, false, false⟩ logs req =
      deleteOlderThan logs (cutoffAt cutoffNow req.olderThanHours) allowed := by
  simp only [logsAfter, hpass, handleDelete, hdecode, hpartition]
  by_cases hnil : allowed = []
  · rw [if_pos hnil, hnil, deleteOlderThan_nil]
  · rw [if_neg hnil]
    simp only [countStmt, deleteStmt, readStatement_statement _ _ _ hnil, Option.map_some]
    rfl

/-- From the count on. -/
theorem serve_countPhase (w : World) (rows : List (Text × HostFloor)) (cutoff : ℤ)
    (allowed : List HostService) :
    (serve ⟨false, rows⟩)^[2] (w, countPhase true cutoff allowed) =
      ({ w with logs := deleteOlderThan w.logs cutoff allowed }, .idle) := by
  unfold countPhase
  split_ifs with hnil
  · rw [hnil, deleteOlderThan_nil]
    exact serve_idle _ w 2
  · rfl

/-- The store calls of a deletion that no other request comes between remove the same rows; the
clock may go on after the floors are read. -/
theorem serve_delete (w : World) (authorizer : Option (Option Identity)) (req : DeletionRequest)
    (rows : List (Text × HostFloor)) (floorNow : ℤ) :
    (serve ⟨false, rows⟩)^[3] ({ w with now := floorNow },
        (call ⟨false, rows⟩ w
          (start authorizer w.now (.delete req.olderThanHours req.targets))).2) =
      ({ w with
          now := floorNow
          logs := logsAfter authorizer w.now floorNow ⟨some (floorsByHost rows), false, false⟩
            w.logs req }, .idle) := by
  cases hpass : requireRole authorizer .admin with
  | unauthorized | forbidden =>
    simp only [start, hpass, logsAfter]
    exact serve_idle _ { w with now := floorNow } 3
  | pass identity =>
    simp only [start, hpass, startDeletion]
    cases hdecode : decodeDeletionRequest req.olderThanHours req.targets with
    | none =>
      simp only [logsAfter, hpass, handleDelete, hdecode]
      exact serve_idle _ { w with now := floorNow } 3
    | some targets =>
      by_cases howner : roleForFloorCheck identity = .owner
      · -- an owner's targets are counted at once
        rw [logsAfter_eq hpass hdecode (if_pos howner)]
        simp only [howner, if_true]
        rfl
      · rw [logsAfter_eq hpass hdecode (if_neg howner)]
        simp only [howner, if_false]
        exact serve_countPhase { w with now := floorNow } rows _ _

end CairnObs.LogRetention
