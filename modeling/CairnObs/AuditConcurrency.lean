import CairnObs.AuditLog
import CairnObs.GuardedRuns
import CairnObs.TableOps

/-! Any number of writers in `Append` and one `Checkpointer`, step by step. An `Append`
holds the advisory lock from the statement that takes it to the end of its transaction;
readers outside the transaction see committed rows only. -/
namespace CairnObs.Audit

open GoText PgColumns GuardedRuns

/-! ### Reads of the committed rows -/

/-- `ORDER BY id ASC`. -/
def orderByID (rows : List Row) : List Row := TableOps.sortBy [(Row.id, false)] rows

/-- The rows with ids in a range, in id order. -/
def rowsBetween (rows : List Row) (fromID toID : ℕ) : List Row :=
  (orderByID rows).filter (fun r => decide (fromID ≤ r.id ∧ r.id ≤ toID))

/-- `rowHashesFrom`: the hashes from an id on, and the highest id among them. -/
def rowHashesFrom (rows : List Row) (fromID : ℕ) : List Text × ℕ :=
  let found := (orderByID rows).filter (fun r => decide (fromID ≤ r.id))
  (found.map (fun r => r.rowHash.text), (found.getLast?.map Row.id).getD 0)

/-! ### Checkpoints -/

structure Checkpoint where
  fromID : ℕ
  toID : ℕ
  prevCheckpointHash : Text
  hash : Text
  createdAt : ℤ
  deriving DecidableEq

/-- The rolling hash of `Checkpointer.Run`. -/
def rollingHash (sha256 : List UInt8 → List UInt8) (prevHash : Text) (rowHashes : List Text) :
    Text :=
  encodeToString (sha256 (utf8 (prevHash ++ rowHashes.flatMap (fun rh => nul :: rh))))

def nextFromID : Option Checkpoint → ℕ
  | none => 1
  | some last => last.toID+1

def prevCheckpointHash : Option Checkpoint → Text
  | none => []
  | some last => last.hash

/-- What `Run` makes of the rows it has read; none when there is nothing new. -/
def nextCheckpoint (sha256 : List UInt8 → List UInt8) (last : Option Checkpoint) (now : ℤ)
    (rows : List Row) : Option Checkpoint :=
  let read := rowHashesFrom rows (nextFromID last)
  if read.1 = [] then none
  else some
    { fromID := nextFromID last
      toID := read.2
      prevCheckpointHash := prevCheckpointHash last
      hash := rollingHash sha256 (prevCheckpointHash last) read.1
      createdAt := now }

/-! ### The system -/

/-- Where a writer is in `Append`. A failed statement leaves the transaction to its rollback. -/
inductive Phase
  | idle
  | begun (e : Entry)
  | locked (e : Entry)
  | read (e : Entry) (prevHash : Option ColumnText)
  | inserted (row : Row)
  | failed

/-- The transaction has the advisory lock. -/
def Phase.holdsLock : Phase → Bool
  | .locked _ | .read _ _ | .inserted _ | .failed => true
  | _ => false

/-- Where the checkpointer is in `Run`: before it, behind `LastCheckpoint`, or before `Write`. -/
inductive RunPhase
  | idle
  | started (last : Option Checkpoint)
  | computed (cp : Checkpoint)

/-- `rows` are the committed rows in the order of their commits, `lastID` the last id that the
sequence has given out, `sink` the checkpoints written. -/
structure System (ω : Type*) where
  rows : List Row
  lastID : ℕ
  lock : Option ω
  writers : ω → Phase
  checkpointer : RunPhase
  sink : List Checkpoint

def System.initial (ω : Type*) : System ω := ⟨[], 0, none, fun _ => .idle, .idle, []⟩

inductive Action (ω : Type*)
  | begin (w : ω) (e : Entry)
  | lock (w : ω)
  | readPrev (w : ω)
  | insert (w : ω) (now : ℤ)
  | insertError (w : ω) (idDrawn : Bool)
  | commit (w : ω)
  | rollback (w : ω)
  | lastCheckpoint
  | readRows (now : ℤ)
  | writeCheckpoint
  | checkpointError

section Steps
variable {ω : Type*} [DecidableEq ω] (sha256 : List UInt8 → List UInt8)

def System.setWriter (s : System ω) (w : ω) (p : Phase) : System ω :=
  { s with writers := Function.update s.writers w p }

def step (s : System ω) : Action ω → Option (System ω)
  | .begin w e =>
    match s.writers w with
    | .idle => some (s.setWriter w (.begun e.withDetail))
    | _ => none
  | .lock w =>
    match s.writers w, s.lock with
    | .begun e, none => some { s.setWriter w (.locked e) with lock := some w }
    | _, _ => none
  | .readPrev w =>
    match s.writers w with
    | .locked e => some (s.setWriter w (.read e (lastHash (orderByID s.rows))))
    | _ => none
  | .insert w now =>
    match s.writers w with
    | .read e prevHash =>
      (Columns.ofEntry e).map (fun columns =>
        { s.setWriter w (.inserted (newRow sha256 prevHash now e columns (s.lastID+1))) with
          lastID := s.lastID+1 })
    | _ => none
  | .insertError w idDrawn =>
    match s.writers w with
    | .read _ _ =>
      some { s.setWriter w .failed with lastID := if idDrawn then s.lastID+1 else s.lastID }
    | _ => none
  | .commit w =>
    match s.writers w with
    | .inserted row => some { s.setWriter w .idle with rows := s.rows ++ [row], lock := none }
    | _ => none
  | .rollback w =>
    some { s.setWriter w .idle with lock := if (s.writers w).holdsLock then none else s.lock }
  | .lastCheckpoint =>
    match s.checkpointer with
    | .idle => some { s with checkpointer := .started s.sink.getLast? }
    | _ => none
  | .readRows now =>
    match s.checkpointer with
    | .started last =>
      match nextCheckpoint sha256 last now s.rows with
      | none => some { s with checkpointer := .idle }
      | some cp => some { s with checkpointer := .computed cp }
    | _ => none
  | .writeCheckpoint =>
    match s.checkpointer with
    | .computed cp => some { s with checkpointer := .idle, sink := s.sink ++ [cp] }
    | _ => none
  | .checkpointError => some { s with checkpointer := .idle }

end Steps

/-! ### The chain and its checkpoints -/

/-- Each row holds the hash of the row before it. -/
def Follows : Option ColumnText → List Row → Prop
  | _, [] => True
  | p, r :: rows => r.prevHash = p ∧ Follows (some r.rowHash) rows

variable {rows : List Row} {cp : Checkpoint} {cps : List Checkpoint} {last : Option Checkpoint}
  {p : Phase} {n : ℕ} {e : Entry}

theorem follows_append {p : Option ColumnText} {r : Row} :
    Follows p (rows ++ [r]) ↔ Follows p rows ∧ r.prevHash = (lastHash rows).or p := by
  induction rows generalizing p with
  | nil => simp [Follows, lastHash]
  | cons q rows ih =>
    have hlast : (lastHash rows).or (some q.rowHash) = (lastHash (q :: rows)).or p := by
      rw [lastHash, lastHash, List.getLast?_cons]
      cases rows.getLast? <;> rfl
    rw [List.cons_append, Follows, Follows, ih, hlast]
    exact and_assoc.symm

/-- Each checkpoint starts where the one before it has ended, and holds its hash. -/
def Contiguous : Option Checkpoint → List Checkpoint → Prop
  | _, [] => True
  | last, cp :: cps =>
    (cp.fromID = nextFromID last ∧ cp.fromID ≤ cp.toID ∧
      cp.prevCheckpointHash = prevCheckpointHash last) ∧ Contiguous (some cp) cps

theorem contiguous_append :
    Contiguous last (cps ++ [cp]) ↔
      Contiguous last cps ∧ Contiguous (cps.getLast?.or last) [cp] := by
  induction cps generalizing last with
  | nil => simp [Contiguous]
  | cons c cps ih =>
    have hlast : cps.getLast?.or (some c) = (c :: cps).getLast?.or last := by
      rw [List.getLast?_cons]
      cases cps.getLast? <;> rfl
    rw [List.cons_append, Contiguous, Contiguous, ih, hlast]
    exact and_assoc.symm

/-- The hash of the checkpoint is the SHA-256 of the hash before it and the hashes of these rows,
each behind a NUL. -/
def HashOf (sha256 : List UInt8 → List UInt8) (cp : Checkpoint) (rows : List Row) : Prop :=
  cp.hash = encodeToString
    (sha256 (utf8 (cp.prevCheckpointHash ++ rows.flatMap (fun r => nul :: r.rowHash.text))))

/-- The hash of the checkpoint is that of the committed rows in its range. -/
def Sealed (sha256 : List UInt8 → List UInt8) (rows : List Row) (cp : Checkpoint) : Prop :=
  HashOf sha256 cp (rowsBetween rows cp.fromID cp.toID)

/-- No row can be changed in its hash, left out, added or moved without a change of the
checkpoint's hash. -/
theorem HashOf.rowHashes {sha256 : List UInt8 → List UInt8} (hsha : Function.Injective sha256)
    {rows' : List Row} (h : HashOf sha256 cp rows) (h' : HashOf sha256 cp rows') :
    rows'.map Row.rowHash = rows.map Row.rowHash := by
  have htext := utf8_injective (hsha (encodeToString_injective (h'.symm.trans h)))
  have hfields := List.append_cancel_left htext
  simp only [← List.flatMap_map (fun r : Row => r.rowHash.text) (fun rh => nul :: rh)] at hfields
  have hnulFree (rows : List Row) : ∀ f ∈ rows.map (fun r => r.rowHash.text), nul ∉ f := by
    intro f hf
    obtain ⟨r, -, rfl⟩ := List.mem_map.mp hf
    exact r.rowHash.nulFree
  have htexts := SeparatedFields.flatMap_cons_inj (hnulFree rows') (hnulFree rows) hfields
  have hinjective : Function.Injective ColumnText.text := fun _ _ => ColumnText.ext
  refine hinjective.list_map ?_
  rw [List.map_map, List.map_map]
  exact htexts

theorem orderByID_eq (h : rows.Pairwise (fun a b => a.id < b.id)) : orderByID rows = rows := by
  refine List.Pairwise.insertionSort_eq (h.imp ?_)
  intro a b hab
  simp only [TableOps.keyLe, if_neg hab.ne, hab]
  simp

theorem rowsBetween_append {r : Row} (h : (rows ++ [r]).Pairwise (fun a b => a.id < b.id))
    {fromID toID : ℕ} (hr : toID < r.id) :
    rowsBetween (rows ++ [r]) fromID toID = rowsBetween rows fromID toID := by
  have hrows := (List.pairwise_append.mp h).1
  have hout : decide (fromID ≤ r.id ∧ r.id ≤ toID) = false := by
    rw [decide_eq_false_iff_not]
    omega
  rw [rowsBetween, rowsBetween, orderByID_eq h, orderByID_eq hrows, List.filter_append,
    List.filter_cons, hout]
  simp

/-- A new checkpoint covers all the rows from its first id on, up to a committed one. -/
theorem nextCheckpoint_spec {sha256 : List UInt8 → List UInt8} {now : ℤ}
    (hrows : rows.Pairwise (fun a b => a.id < b.id))
    (h : nextCheckpoint sha256 last now rows = some cp) :
    Contiguous last [cp] ∧ Sealed sha256 rows cp ∧ ∃ r ∈ rows, r.id = cp.toID := by
  simp only [nextCheckpoint, rowHashesFrom, orderByID_eq hrows, List.map_eq_nil_iff] at h
  split_ifs at h with hfound
  obtain ⟨init, r, hlast⟩ : ∃ init r,
      rows.filter (fun r => decide (nextFromID last ≤ r.id)) = init ++ [r] :=
    ⟨_, _, (List.dropLast_append_getLast hfound).symm⟩
  have hr := List.mem_filter.mp (hlast ▸ List.mem_append_right init List.mem_cons_self :
    r ∈ rows.filter (fun r => decide (nextFromID last ≤ r.id)))
  have hto : ∀ q ∈ rows, nextFromID last ≤ q.id → q.id ≤ r.id := by
    intro q hq hfrom
    have hmem : q ∈ init ++ [r] := hlast ▸ List.mem_filter.mpr ⟨hq, decide_eq_true hfrom⟩
    have hsorted : (init ++ [r]).Pairwise (fun a b => a.id < b.id) :=
      hlast ▸ hrows.sublist List.filter_sublist
    rcases List.mem_append.mp hmem with hq' | hq'
    · exact ((List.pairwise_append.mp hsorted).2.2 q hq' r List.mem_cons_self).le
    · rw [List.mem_singleton.mp hq']
  have hbetween : rowsBetween rows (nextFromID last) r.id =
      rows.filter (fun r => decide (nextFromID last ≤ r.id)) := by
    rw [rowsBetween, orderByID_eq hrows]
    apply List.filter_congr
    intro q hq
    rw [decide_eq_decide]
    exact ⟨fun hb => hb.1, fun hb => ⟨hb, hto q hq hb⟩⟩
  rw [hlast, List.getLast?_append] at h
  obtain rfl := Option.some.inj h
  refine ⟨⟨⟨rfl, of_decide_eq_true hr.2, rfl⟩, trivial⟩, ?_, r, hr.1, rfl⟩
  show rollingHash sha256 _ ((init ++ [r]).map _) = encodeToString (sha256 (utf8 (_ ++
    (rowsBetween rows (nextFromID last) r.id).flatMap _)))
  rw [hbetween, hlast, rollingHash, List.flatMap_map]

/-! ### The invariant -/

/-- What a writer has read is still so: nobody else commits while it holds the lock. -/
def Prepared (rows : List Row) (lastID : ℕ) : Phase → Prop
  | .read _ prevHash => prevHash = lastHash rows
  | .inserted row =>
    row.prevHash = lastHash rows ∧ (∀ r ∈ rows, r.id < row.id) ∧ 0 < row.id ∧ row.id ≤ lastID
  | _ => True

/-- What the checkpointer is about to write continues the sink. -/
def RunReady (sha256 : List UInt8 → List UInt8) (rows : List Row) (sink : List Checkpoint) :
    RunPhase → Prop
  | .idle => True
  | .started last => last = sink.getLast?
  | .computed cp =>
    Contiguous sink.getLast? [cp] ∧ Sealed sha256 rows cp ∧ ∃ r ∈ rows, r.id = cp.toID

structure Inv {ω : Type*} (sha256 : List UInt8 → List UInt8) (s : System ω) : Prop where
  increasing : s.rows.Pairwise (fun a b => a.id < b.id)
  bounded : ∀ r ∈ s.rows, 0 < r.id ∧ r.id ≤ s.lastID
  follows : Follows none s.rows
  exclusive : ∀ w, (s.writers w).holdsLock = true → s.lock = some w
  prepared : ∀ w, Prepared s.rows s.lastID (s.writers w)
  contiguous : Contiguous none s.sink
  sealed : ∀ cp ∈ s.sink, Sealed sha256 s.rows cp ∧ ∃ r ∈ s.rows, r.id = cp.toID
  running : RunReady sha256 s.rows s.sink s.checkpointer

section Invariant
variable {ω : Type*} {sha256 : List UInt8 → List UInt8}

theorem inv_initial : Inv sha256 (System.initial ω) where
  increasing := List.Pairwise.nil
  bounded := by simp [System.initial]
  follows := trivial
  exclusive := by simp [System.initial, Phase.holdsLock]
  prepared := fun _ => trivial
  contiguous := trivial
  sealed := by simp [System.initial]
  running := trivial

theorem Prepared.mono {m : ℕ} (hmn : m ≤ n) (h : Prepared rows m p) : Prepared rows n p := by
  cases p with
  | inserted row => exact ⟨h.1, h.2.1, h.2.2.1, h.2.2.2.trans hmn⟩
  | _ => exact h

variable {s : System ω} {w : ω}

/-- A writer behind its lock statement is alone there. -/
theorem Inv.alone (h : Inv sha256 s) (hw : (s.writers w).holdsLock = true) {v : ω} (hv : v ≠ w) :
    (s.writers v).holdsLock = false := by
  rw [Bool.eq_false_iff]
  intro hlock
  have hsame := (h.exclusive v hlock).symm.trans (h.exclusive w hw)
  exact hv (Option.some.inj hsame)

theorem Inv.checkpoint (h : Inv sha256 s) {c : RunPhase} {sink : List Checkpoint}
    (hsink : Contiguous none sink)
    (hsealed : ∀ cp ∈ sink, Sealed sha256 s.rows cp ∧ ∃ r ∈ s.rows, r.id = cp.toID)
    (hc : RunReady sha256 s.rows sink c) : Inv sha256 { s with checkpointer := c, sink := sink } :=
  ⟨h.increasing, h.bounded, h.follows, h.exclusive, h.prepared, hsink, hsealed, hc⟩

theorem Inv.readRows (h : Inv sha256 s) {now : ℤ} (hc : s.checkpointer = .started last)
    (hcp : nextCheckpoint sha256 last now s.rows = some cp) :
    Inv sha256 { s with checkpointer := .computed cp } := by
  obtain rfl : last = s.sink.getLast? := by
    have hrun := h.running
    rwa [hc] at hrun
  exact h.checkpoint h.contiguous h.sealed (nextCheckpoint_spec h.increasing hcp)

theorem Inv.writeCheckpoint (h : Inv sha256 s) (hc : s.checkpointer = .computed cp) :
    Inv sha256 { s with checkpointer := .idle, sink := s.sink ++ [cp] } := by
  obtain ⟨hnext, hcovers⟩ : RunReady sha256 s.rows s.sink (.computed cp) := hc ▸ h.running
  refine h.checkpoint (contiguous_append.mpr ⟨h.contiguous, by rwa [Option.or_none]⟩)
    (fun c hmem => ?_) trivial
  rcases List.mem_append.mp hmem with hmem | hmem
  · exact h.sealed c hmem
  · exact List.mem_singleton.mp hmem ▸ hcovers

variable [DecidableEq ω]

/-- A step of one writer that commits nothing. -/
theorem Inv.move (h : Inv sha256 s) {lastID : ℕ} {lock : Option ω} (hlastID : s.lastID ≤ lastID)
    (hp : Prepared s.rows lastID p) (hw : p.holdsLock = true → lock = some w)
    (hothers : ∀ v, v ≠ w → (s.writers v).holdsLock = true → lock = some v) :
    Inv sha256 { s.setWriter w p with lastID := lastID, lock := lock } where
  increasing := h.increasing
  bounded := fun r hr => ⟨(h.bounded r hr).1, (h.bounded r hr).2.trans hlastID⟩
  follows := h.follows
  exclusive := by
    intro v hv
    by_cases hvw : v = w
    · subst hvw
      exact hw (by simpa [System.setWriter] using hv)
    · exact hothers v hvw (by simpa [System.setWriter, hvw] using hv)
  prepared := by
    intro v
    by_cases hvw : v = w
    · subst hvw
      simpa [System.setWriter] using hp
    · simpa [System.setWriter, hvw] using (h.prepared v).mono hlastID
  contiguous := h.contiguous
  sealed := h.sealed
  running := h.running

theorem prepared_of_not_holdsLock (h : p.holdsLock = false) : Prepared rows n p := by
  cases p with
  | read e prevHash => exact absurd h (by simp [Phase.holdsLock])
  | inserted row => exact absurd h (by simp [Phase.holdsLock])
  | _ => trivial

theorem lt_of_committed {row : Row} (hrow : ∀ r ∈ rows, r.id < row.id) {toID : ℕ}
    (hto : ∃ r ∈ rows, r.id = toID) : toID < row.id := by
  obtain ⟨r, hr, rfl⟩ := hto
  exact hrow r hr

/-- A commit appends the row with the highest id, so no checkpoint sees it. -/
theorem Inv.commit (h : Inv sha256 s) {row : Row} (hw : s.writers w = .inserted row) :
    Inv sha256 { s.setWriter w .idle with rows := s.rows ++ [row], lock := none } := by
  have hlock : (s.writers w).holdsLock = true := by rw [hw]; rfl
  obtain ⟨hprev, hid, hbound⟩ : Prepared s.rows s.lastID (.inserted row) := hw ▸ h.prepared w
  have hincreasing : (s.rows ++ [row]).Pairwise (fun a b => a.id < b.id) :=
    List.pairwise_append.mpr ⟨h.increasing, List.pairwise_singleton _ _,
      fun a ha b hb => List.mem_singleton.mp hb ▸ hid a ha⟩
  have hsealed {cp : Checkpoint} (hcp : Sealed sha256 s.rows cp ∧ ∃ r ∈ s.rows, r.id = cp.toID) :
      Sealed sha256 (s.rows ++ [row]) cp ∧ ∃ r ∈ s.rows ++ [row], r.id = cp.toID := by
    obtain ⟨hhash, r, hr, hrid⟩ := hcp
    refine ⟨?_, r, List.mem_append_left _ hr, hrid⟩
    rw [Sealed, rowsBetween_append hincreasing (lt_of_committed hid ⟨r, hr, hrid⟩)]
    exact hhash
  have hidle (v : ω) : ((s.setWriter w .idle).writers v).holdsLock = false := by
    by_cases hvw : v = w
    · subst hvw
      simp [System.setWriter, Phase.holdsLock]
    · simpa [System.setWriter, hvw] using h.alone hlock hvw
  exact
    { increasing := hincreasing
      bounded := by
        intro r hr
        rcases List.mem_append.mp hr with hr | hr
        · exact h.bounded r hr
        · exact List.mem_singleton.mp hr ▸ hbound
      follows := follows_append.mpr ⟨h.follows, by rw [hprev, Option.or_none]⟩
      exclusive := fun v hv => absurd hv (by rw [hidle v]; exact Bool.false_ne_true)
      prepared := fun v => prepared_of_not_holdsLock (hidle v)
      contiguous := h.contiguous
      sealed := fun cp hcp => hsealed (h.sealed cp hcp)
      running := by
        have hrun := h.running
        show RunReady sha256 (s.rows ++ [row]) s.sink s.checkpointer
        cases hc : s.checkpointer with
        | idle => trivial
        | started last => rwa [hc] at hrun
        | computed cp =>
          rw [hc] at hrun
          exact ⟨hrun.1, hsealed hrun.2⟩ }

/-- A step of a writer that keeps the lock it holds. -/
theorem Inv.moveLocked (h : Inv sha256 s) {lastID : ℕ} (hw : (s.writers w).holdsLock = true)
    (hlastID : s.lastID ≤ lastID) (hp : Prepared s.rows lastID p) :
    Inv sha256 { s.setWriter w p with lastID := lastID } :=
  h.move hlastID hp (fun _ => h.exclusive w hw) (fun v _ hv => h.exclusive v hv)

/-- The lock is taken while nobody holds it. -/
theorem Inv.lock (h : Inv sha256 s) (hfree : s.lock = none) :
    Inv sha256 { s.setWriter w (.locked e) with lock := some w } := by
  refine h.move le_rfl trivial (fun _ => rfl) (fun v _ hv => ?_)
  rw [h.exclusive v hv] at hfree
  cases hfree

/-- The row hash that is read is that of the last commit, since ids grow with the commits. -/
theorem Inv.readPrev (h : Inv sha256 s) (hw : s.writers w = .locked e) :
    Inv sha256 (s.setWriter w (.read e (lastHash (orderByID s.rows)))) := by
  refine h.moveLocked (by rw [hw]; rfl) le_rfl ?_
  show lastHash (orderByID s.rows) = lastHash s.rows
  rw [orderByID_eq h.increasing]

theorem Inv.insert (h : Inv sha256 s) {prevHash : Option ColumnText}
    (hw : s.writers w = .read e prevHash) (now : ℤ) (columns : Columns) :
    Inv sha256 { s.setWriter w (.inserted (newRow sha256 prevHash now e columns (s.lastID+1))) with
      lastID := s.lastID+1 } := by
  have hprev : prevHash = lastHash s.rows := by
    have hread := h.prepared w
    rwa [hw] at hread
  exact h.moveLocked (by rw [hw]; rfl) (Nat.le_succ _)
    ⟨hprev, fun r hr => Nat.lt_succ_of_le (h.bounded r hr).2, Nat.succ_pos _, le_rfl⟩

/-- An id that the sequence has given out is lost. -/
theorem Inv.insertError (h : Inv sha256 s) {prevHash : Option ColumnText}
    (hw : s.writers w = .read e prevHash) (idDrawn : Bool) :
    Inv sha256 { s.setWriter w .failed with
      lastID := if idDrawn then s.lastID+1 else s.lastID } := by
  refine h.moveLocked (by rw [hw]; rfl) ?_ trivial
  split_ifs
  · exact Nat.le_succ _
  · exact le_rfl

theorem Inv.rollback (h : Inv sha256 s) (w : ω) :
    Inv sha256 { s.setWriter w .idle with
      lock := if (s.writers w).holdsLock then none else s.lock } := by
  refine h.move le_rfl trivial (fun hp => absurd hp Bool.false_ne_true) (fun v hvw hv => ?_)
  split_ifs with hlock
  · -- the lock was held by `w`, so by nobody else
    rw [h.alone hlock hvw] at hv
    exact absurd hv Bool.false_ne_true
  · exact h.exclusive v hv

/-- Every step keeps the invariant. -/
theorem Inv.step {t : System ω} {a : Action ω} (h : Inv sha256 s)
    (hstep : step sha256 s a = some t) :
    Inv sha256 t := by
  cases a with
  | begin w e =>
    simp only [Audit.step] at hstep
    split at hstep
    · obtain rfl := Option.some.inj hstep
      exact h.move le_rfl trivial (fun hp => absurd hp Bool.false_ne_true)
        (fun v _ hv => h.exclusive v hv)
    · cases hstep
  | lock w =>
    simp only [Audit.step] at hstep
    split at hstep
    · next hfree =>
      obtain rfl := Option.some.inj hstep
      exact h.lock hfree
    · cases hstep
  | readPrev w =>
    simp only [Audit.step] at hstep
    split at hstep
    · next hw =>
      obtain rfl := Option.some.inj hstep
      exact h.readPrev hw
    · cases hstep
  | insert w now =>
    simp only [Audit.step] at hstep
    split at hstep
    · next hw =>
      obtain ⟨columns, -, rfl⟩ := Option.map_eq_some_iff.mp hstep
      exact h.insert hw now columns
    · cases hstep
  | insertError w idDrawn =>
    simp only [Audit.step] at hstep
    split at hstep
    · next hw =>
      obtain rfl := Option.some.inj hstep
      exact h.insertError hw idDrawn
    · cases hstep
  | commit w =>
    simp only [Audit.step] at hstep
    split at hstep
    · next hw =>
      obtain rfl := Option.some.inj hstep
      exact h.commit hw
    · cases hstep
  | rollback w =>
    obtain rfl := Option.some.inj hstep
    exact h.rollback w
  | lastCheckpoint =>
    simp only [Audit.step] at hstep
    split at hstep
    · obtain rfl := Option.some.inj hstep
      exact h.checkpoint h.contiguous h.sealed rfl
    · cases hstep
  | readRows now =>
    simp only [Audit.step] at hstep
    split at hstep
    · next hc =>
      split at hstep
      · -- no row since the last checkpoint
        obtain rfl := Option.some.inj hstep
        exact h.checkpoint h.contiguous h.sealed trivial
      · next hcp =>
        obtain rfl := Option.some.inj hstep
        exact h.readRows hc hcp
    · cases hstep
  | writeCheckpoint =>
    simp only [Audit.step] at hstep
    split at hstep
    · next hc =>
      obtain rfl := Option.some.inj hstep
      exact h.writeCheckpoint hc
    · cases hstep
  | checkpointError =>
    obtain rfl := Option.some.inj hstep
    exact h.checkpoint h.contiguous h.sealed trivial

end Invariant

/-! ### Every run -/

theorem Contiguous.from_le_to (h : Contiguous last cps) :
    ∀ cp ∈ cps, nextFromID last ≤ cp.fromID ∧ cp.fromID ≤ cp.toID := by
  induction cps generalizing last with
  | nil => simp
  | cons c cps ih =>
    obtain ⟨⟨hfrom, hto, -⟩, hrest⟩ := h
    intro cp hcp
    rcases List.mem_cons.mp hcp with rfl | hcp
    · exact ⟨hfrom.ge, hto⟩
    · have hcp' := ih hrest cp hcp
      simp only [nextFromID] at hcp'
      omega

theorem Contiguous.disjoint (h : Contiguous last cps) :
    cps.Pairwise (fun a b => a.toID < b.fromID) := by
  induction cps generalizing last with
  | nil => exact List.Pairwise.nil
  | cons c cps ih =>
    refine List.Pairwise.cons (fun cp hcp => ?_) (ih h.2)
    exact (h.2.from_le_to cp hcp).1

/-- The ranges leave no gap. -/
theorem Contiguous.exists_range (h : Contiguous last cps) (hn : nextFromID last ≤ n)
    {final : Checkpoint} (hfinal : final ∈ cps.getLast?) (hle : n ≤ final.toID) :
    ∃ cp ∈ cps, cp.fromID ≤ n ∧ n ≤ cp.toID := by
  induction cps generalizing last with
  | nil => exact absurd hfinal (by simp)
  | cons c cps ih =>
    by_cases hc : n ≤ c.toID
    · exact ⟨c, List.mem_cons_self, h.1.1.trans_le hn, hc⟩
    · cases cps with
      | nil =>
        obtain rfl : c = final := by simpa using hfinal
        exact absurd hle hc
      | cons d cps =>
        rw [List.getLast?_cons_cons] at hfinal
        obtain ⟨cp, hcp, hrange⟩ := ih h.2 (not_le.mp hc) hfinal
        exact ⟨cp, List.mem_cons_of_mem _ hcp, hrange⟩

theorem eq_of_mem_ranges (hdisjoint : cps.Pairwise (fun a b => a.toID < b.fromID))
    {a b : Checkpoint} (ha : a ∈ cps) (hb : b ∈ cps) (han : a.fromID ≤ n ∧ n ≤ a.toID)
    (hbn : b.fromID ≤ n ∧ n ≤ b.toID) : a = b := by
  induction cps with
  | nil => exact absurd ha List.not_mem_nil
  | cons c cps ih =>
    obtain ⟨hc, hrest⟩ := List.pairwise_cons.mp hdisjoint
    rcases List.mem_cons.mp ha with rfl | ha'
    · rcases List.mem_cons.mp hb with rfl | hb'
      · rfl
      · have hab := hc b hb'
        omega
    · rcases List.mem_cons.mp hb with rfl | hb'
      · have hba := hc a ha'
        omega
      · exact ih hrest ha' hb'

section Runs
variable {ω : Type*} [DecidableEq ω] {sha256 : List UInt8 → List UInt8}

theorem inv_run {as : List (Action ω)} {s : System ω}
    (hrun : run (step sha256) (System.initial ω) as = some s) : Inv sha256 s :=
  run_invariant (fun _ _ _ h hstep => h.step hstep) inv_initial hrun

/-- In every reachable state the committed rows are one chain in id order, and the checkpoints
split the ids up to the last one into ranges that follow each other. The hash of each is made
from the hashes of the rows in its range, and without collisions of SHA-256 from no others. -/
theorem committed_chain_and_checkpoints {as : List (Action ω)} {s : System ω}
    (hrun : run (step sha256) (System.initial ω) as = some s) :
    (orderByID s.rows).Pairwise (fun a b => a.id < b.id) ∧ Follows none (orderByID s.rows) ∧
      Contiguous none s.sink ∧ s.sink.Pairwise (fun a b => a.toID < b.fromID) ∧
      (∀ cp ∈ s.sink, Sealed sha256 s.rows cp) ∧
      (Function.Injective sha256 → ∀ cp ∈ s.sink, ∀ rows, HashOf sha256 cp rows →
        rows.map Row.rowHash = (rowsBetween s.rows cp.fromID cp.toID).map Row.rowHash) ∧
      ∀ last ∈ s.sink.getLast?, ∀ r ∈ s.rows, r.id ≤ last.toID →
        ∃! cp, cp ∈ s.sink ∧ r ∈ rowsBetween s.rows cp.fromID cp.toID := by
  have h := inv_run hrun
  have horder := orderByID_eq h.increasing
  rw [horder]
  refine ⟨h.increasing, h.follows, h.contiguous, h.contiguous.disjoint,
    fun cp hcp => (h.sealed cp hcp).1, ?_, ?_⟩
  · intro hsha cp hcp rows hrows
    exact (h.sealed cp hcp).1.rowHashes hsha hrows
  intro last hlast r hr hle
  have hcovers (cp : Checkpoint) :
      r ∈ rowsBetween s.rows cp.fromID cp.toID ↔ cp.fromID ≤ r.id ∧ r.id ≤ cp.toID := by
    rw [rowsBetween, horder, List.mem_filter, decide_eq_true_eq]
    exact and_iff_right hr
  obtain ⟨cp, hcp, hrange⟩ := h.contiguous.exists_range (h.bounded r hr).1 hlast hle
  refine ⟨cp, ⟨hcp, (hcovers cp).mpr hrange⟩, ?_⟩
  rintro cp' ⟨hcp', hrange'⟩
  exact eq_of_mem_ranges h.contiguous.disjoint hcp' hcp ((hcovers cp').mp hrange') hrange

def acmeEntry : Entry where
  tenantID := "acme".toList
  userID := none
  source := .api
  eventType := .query
  queryText := some "level = error".toList
  rowCount := some 0
  durationMS := some 2
  status := .success
  errorMessage := none
  detail := []

/-- A writer that rolls back behind its INSERT, one that commits, and a checkpoint; then two rows
more and a checkpoint for both. -/
def auditRun (e : Entry) : List (Action Bool) :=
  [.begin true e, .begin false e, .lock true, .lastCheckpoint, .readPrev true, .insert true 0,
    .readRows 0, .rollback true, .lock false, .readPrev false, .insert false 1, .commit false,
    .lastCheckpoint, .readRows 2, .writeCheckpoint,
    .begin true e, .lock true, .readPrev true, .insert true 3, .commit true,
    .begin false e, .lock false, .readPrev false, .insert false 4, .commit false,
    .lastCheckpoint, .readRows 5, .writeCheckpoint]

theorem auditRun_chain_and_checkpoints :
    ∃ s, run (step id) (System.initial Bool) (auditRun acmeEntry) = some s ∧
      s.rows.map Row.id = [2, 3, 4] ∧
      s.sink.map (fun cp => (cp.fromID, cp.toID)) = [(1, 2), (3, 4)] ∧
      Follows none (orderByID s.rows) ∧ (∀ cp ∈ s.sink, Sealed id s.rows cp) ∧
      (∀ cp ∈ s.sink, ∀ rows, HashOf id cp rows →
        rows.map Row.rowHash = (rowsBetween s.rows cp.fromID cp.toID).map Row.rowHash) ∧
      ∀ last ∈ s.sink.getLast?, ∀ r ∈ s.rows, r.id ≤ last.toID →
        ∃! cp, cp ∈ s.sink ∧ r ∈ rowsBetween s.rows cp.fromID cp.toID := by
  have hids : (run (step id) (System.initial Bool) (auditRun acmeEntry)).map
      (fun s => (s.rows.map Row.id, s.sink.map (fun cp => (cp.fromID, cp.toID)))) =
        some ([2, 3, 4], [(1, 2), (3, 4)]) := by
    decide +kernel
  obtain ⟨s, hs, hids⟩ := Option.map_eq_some_iff.mp hids
  obtain ⟨hrows, hsink⟩ := Prod.mk.inj hids
  obtain ⟨-, hfollows, -, -, hsealed, hbinding, hcovered⟩ := committed_chain_and_checkpoints hs
  exact ⟨s, hs, hrows, hsink, hfollows, hsealed, hbinding Function.injective_id, hcovered⟩

end Runs

end CairnObs.Audit
