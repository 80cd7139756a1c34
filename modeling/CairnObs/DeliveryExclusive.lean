import CairnObs.DeliveryWorker

/-! Delivery workers that never work at the same time: what the steps do to the table, the
invariant that such runs keep, and the exclusivity it gives. -/
namespace CairnObs.Delivery
open GuardedRuns Function

variable {ι : Type*} {s t : System ι} {w id : ℕ} {now dbNow : ℤ} {res : AttemptResult}
  {row : DeliveryRow ι} {c : ClaimedDelivery} {picked scanned : List ℕ}

theorem step_claim (h : step s (.claim w now picked scanned) = some t) :
    (s.workers w).held = [] ∧ picked.Nodup ∧ scanned.Sublist picked ∧
      (∀ id ∈ picked, ∃ row, s.rows id = some row ∧ row.due now = true) ∧
      t = claimRows w now picked scanned s := by
  simp only [step] at h
  split at h
  · rename_i hg
    obtain ⟨htodo, hcur, hnodup, _, hsub, hdue⟩ := hg
    refine ⟨?_, hnodup, hsub, ?_, (Option.some.inj h).symm⟩
    · simp [Worker.held, htodo, Option.isNone_iff_eq_none.mp hcur]
    · simpa only [Option.any_eq_true] using hdue
  · cases h

theorem step_attempt (h : step s (.attempt w res) = some t) :
    ∃ c cs, s.workers w = ⟨c :: cs, none⟩ ∧ t = beginAttempt w c cs res s := by
  simp only [step] at h
  split at h
  · rename_i c cs hcur htodo
    refine ⟨c, cs, ?_, (Option.some.inj h).symm⟩
    rw [← hcur, ← htodo]
  · cases h

theorem step_record (h : step s (.record w dbNow) = some t) :
    ∃ c res, (s.workers w).current = some (c, res) ∧ t = recordOutcome w dbNow c res s := by
  simp only [step, Option.map_eq_some_iff] at h
  obtain ⟨⟨c, res⟩, hcur, rfl⟩ := h
  exact ⟨c, res, hcur, rfl⟩

/-- An outcome is written by `markSent` when the target accepted, by `fail` otherwise. -/
theorem outcomeUpdate_cases (dbNow : ℤ) (c : ClaimedDelivery) (res : AttemptResult)
    (row : DeliveryRow ι) :
    (res.accepted = true ∧ ∃ code, outcomeUpdate dbNow c res row = markSent code row) ∨
      (res.accepted = false ∧ ∃ code msg, outcomeUpdate dbNow c res row =
        fail dbNow c code msg row) := by
  cases res with
  | response code =>
    by_cases hcode : 200 ≤ code ∧ code < 300
    · exact .inl ⟨decide_eq_true hcode, code, if_pos hcode⟩
    · exact .inr ⟨decide_eq_false hcode, _, _, if_neg hcode⟩
  | targetLookup err => exact .inr ⟨rfl, _, _, rfl⟩
  | invalidURL err => exact .inr ⟨rfl, _, _, rfl⟩
  | badRequest err => exact .inr ⟨rfl, _, _, rfl⟩
  | transport err => exact .inr ⟨rfl, _, _, rfl⟩

theorem fail_spec (dbNow : ℤ) (c : ClaimedDelivery) (code : ℕ) (msg : String)
    (row : DeliveryRow ι) :
    (fail dbNow c code msg row).attemptCount = row.attemptCount+1 ∧
      (fail dbNow c code msg row).maxAttempts = row.maxAttempts ∧
      (fail dbNow c code msg row).ruleID = row.ruleID ∧
      (fail dbNow c code msg row).status ≠ .sent ∧
      ((fail dbNow c code msg row).status.terminal = false →
        c.attemptCount+1 < c.maxAttempts) := by
  simp only [fail]
  split
  · exact ⟨rfl, rfl, rfl, nofun, nofun⟩
  · rename_i h
    exact ⟨rfl, rfl, rfl, nofun, fun _ => not_le.mp h⟩

/-- An outcome raises the count and keeps the identity of the row; it leaves the row open
only when the claim saw another attempt coming. -/
theorem outcomeUpdate_spec (dbNow : ℤ) (c : ClaimedDelivery) (res : AttemptResult)
    (row : DeliveryRow ι) :
    (outcomeUpdate dbNow c res row).attemptCount = row.attemptCount+1 ∧
      (outcomeUpdate dbNow c res row).maxAttempts = row.maxAttempts ∧
      (outcomeUpdate dbNow c res row).ruleID = row.ruleID ∧
      ((outcomeUpdate dbNow c res row).status.terminal = false →
        c.attemptCount+1 < c.maxAttempts) := by
  rcases outcomeUpdate_cases dbNow c res row with ⟨_, code, heq⟩ | ⟨_, code, msg, heq⟩
  · rw [heq]
    exact ⟨rfl, rfl, rfl, nofun⟩
  · rw [heq]
    obtain ⟨hcount, hmax, hrule, _, hopen⟩ := fail_spec dbNow c code msg row
    exact ⟨hcount, hmax, hrule, hopen⟩

theorem DeliveryRow.due_not_terminal (h : row.due now = true) : row.status.terminal = false := by
  simp only [DeliveryRow.due, Bool.and_eq_true] at h
  cases hs : row.status <;> simp_all [Status.terminal]

/-- A claim that still says what the row says. -/
def Current (s : System ι) (c : ClaimedDelivery) : Prop :=
  ∃ row, s.rows c.id = some row ∧ row.status.terminal = false ∧
    row.attemptCount = c.attemptCount ∧ row.maxAttempts = c.maxAttempts

/-- What holds while no two workers are ever inside `processDue` together. -/
structure Tracked (s : System ι) : Prop where
  current : ∀ w, ∀ c ∈ (s.workers w).held, Current s c
  alone : ∀ w v, (s.workers w).held ≠ [] → (s.workers v).held ≠ [] → w = v
  nodup : ∀ w, ((s.workers w).held.map ClaimedDelivery.id).Nodup
  counts : ∀ id row, s.rows id = some row → row.attemptCount = s.recorded.count id
  bounded : ∀ id row, s.rows id = some row → row.attemptCount ≤ row.maxAttempts ∧
    (row.status.terminal = false → row.attemptCount < row.maxAttempts)
  fresh : ∀ id, s.nextID ≤ id → s.rows id = none ∧ id ∉ s.recorded

/-- A worker claims only while every other worker has recorded all it has claimed. -/
def Alone (s : System ι) : Action ι → Prop
  | .claim w _ _ _ => ∀ v, v ≠ w → (s.workers v).held = []
  | _ => True

theorem tracked_empty : Tracked (emptySystem : System ι) where
  current _ _ hd := absurd hd List.not_mem_nil
  alone _ _ h := absurd rfl h
  nodup _ := List.nodup_nil
  counts _ _ hrow := by cases hrow
  bounded _ _ hrow := by cases hrow
  fresh _ _ := ⟨rfl, List.not_mem_nil⟩

/-- The rows after an INSERT: the new one with the column defaults, and the old ones. -/
theorem insertRow_rows {r : ι} {ev : Alerting.EventType}
    (h : (insertRow r ev now s).rows id = some row) :
    (id = s.nextID ∧ row.attemptCount = 0 ∧ row.maxAttempts = 5) ∨ s.rows id = some row := by
  by_cases hid : id = s.nextID
  · subst hid
    simp only [insertRow, update_self, Option.some.injEq] at h
    subst h
    exact .inl ⟨rfl, rfl, rfl⟩
  · simp only [insertRow, update_of_ne hid] at h
    exact .inr h

theorem Tracked.insertRow (h : Tracked s) (r : ι) (ev : Alerting.EventType) (now : ℤ) :
    Tracked (insertRow r ev now s) where
  current w c hc := by
    obtain ⟨row, hrow, hcur⟩ := h.current w c hc
    have hid : c.id ≠ s.nextID := by
      intro hid
      rw [hid, (h.fresh _ le_rfl).1] at hrow
      cases hrow
    exact ⟨row, by simpa [Delivery.insertRow, update_of_ne hid] using hrow, hcur⟩
  alone := h.alone
  nodup := h.nodup
  counts id row hrow := by
    rcases insertRow_rows hrow with ⟨rfl, hcount, _⟩ | hold
    · rw [hcount]
      exact (List.count_eq_zero.mpr (h.fresh _ le_rfl).2).symm
    · exact h.counts id row hold
  bounded id row hrow := by
    rcases insertRow_rows hrow with ⟨_, hcount, hmax⟩ | hold
    · rw [hcount, hmax]
      exact ⟨Nat.zero_le 5, fun _ => Nat.zero_lt_succ 4⟩
    · exact h.bounded id row hold
  fresh id hid := by
    have hlt : s.nextID < id := hid
    simpa [Delivery.insertRow, update_of_ne hlt.ne'] using h.fresh id hlt.le

/-- The row a claim leaves behind: only `last_attempt_at` can differ. -/
theorem claimRows_rows {row' : DeliveryRow ι}
    (h : (claimRows w now picked scanned s).rows id = some row') :
    ∃ row, s.rows id = some row ∧ ∃ t, row' = { row with lastAttemptAt := t } := by
  simp only [claimRows] at h
  split at h
  · obtain ⟨row, hrow, rfl⟩ := Option.map_eq_some_iff.mp h
    exact ⟨row, hrow, _, rfl⟩
  · exact ⟨row', h, row'.lastAttemptAt, rfl⟩

theorem claimRows_rows_of_some (h : s.rows id = some row) (w : ℕ) (now : ℤ)
    (picked scanned : List ℕ) :
    ∃ t, (claimRows w now picked scanned s).rows id = some { row with lastAttemptAt := t } := by
  simp only [claimRows, h]
  split
  · exact ⟨_, rfl⟩
  · exact ⟨row.lastAttemptAt, rfl⟩

theorem Current.claimRows (h : Current s c) (w : ℕ) (now : ℤ) (picked scanned : List ℕ) :
    Current (claimRows w now picked scanned s) c := by
  obtain ⟨row, hrow, hcur⟩ := h
  obtain ⟨t, ht⟩ := claimRows_rows_of_some hrow w now picked scanned
  exact ⟨_, ht, hcur⟩

theorem held_claimRows (s : System ι) (w : ℕ) (now : ℤ) (picked scanned : List ℕ) :
    ((claimRows w now picked scanned s).workers w).held = scanned.filterMap (claimedOf s) := by
  simp [claimRows, Worker.held]

theorem claimedOf_id (h : claimedOf s id = some c) : c.id = id := by
  obtain ⟨row, _, rfl⟩ := Option.map_eq_some_iff.mp h
  rfl

theorem claimed_ids_sublist (s : System ι) (ids : List ℕ) :
    ((ids.filterMap (claimedOf s)).map ClaimedDelivery.id).Sublist ids := by
  induction ids with
  | nil => exact List.Sublist.slnil
  | cons id ids ih =>
    cases hc : claimedOf s id with
    | none =>
      rw [List.filterMap_cons_none hc]
      exact ih.cons id
    | some c =>
      rw [List.filterMap_cons_some hc, List.map_cons, claimedOf_id hc]
      exact ih.cons_cons id

theorem Tracked.claimRows (h : Tracked s) (hnodup : picked.Nodup) (hsub : scanned.Sublist picked)
    (hdue : ∀ id ∈ picked, ∃ row, s.rows id = some row ∧ row.due now = true)
    (halone : ∀ v, v ≠ w → (s.workers v).held = []) :
    Tracked (claimRows w now picked scanned s) := by
  have hother : ∀ v, v ≠ w → ((Delivery.claimRows w now picked scanned s).workers v).held = [] := by
    intro v hv
    simpa [Delivery.claimRows, update_of_ne hv] using halone v hv
  refine ⟨?_, ?_, ?_, ?_, ?_, ?_⟩
  · intro v c hc
    by_cases hv : v = w
    · subst hv
      rw [held_claimRows] at hc
      obtain ⟨id, hid, hcl⟩ := List.mem_filterMap.mp hc
      obtain ⟨row, hrow, rfl⟩ := Option.map_eq_some_iff.mp hcl
      obtain ⟨row', hrow', hd⟩ := hdue id (hsub.subset hid)
      cases hrow.symm.trans hrow'
      exact Current.claimRows ⟨row, hrow, DeliveryRow.due_not_terminal hd, rfl, rfl⟩ _ _ _ _
    · rw [hother v hv] at hc
      exact absurd hc List.not_mem_nil
  · intro v u hv hu
    by_cases hvw : v = w
    · by_cases huw : u = w
      · rw [hvw, huw]
      · exact absurd (hother u huw) hu
    · exact absurd (hother v hvw) hv
  · intro v
    by_cases hv : v = w
    · subst hv
      rw [held_claimRows]
      exact ((claimed_ids_sublist s scanned).trans hsub).nodup hnodup
    · rw [hother v hv]
      exact List.nodup_nil
  · intro id row' hrow'
    obtain ⟨row, hrow, t, rfl⟩ := claimRows_rows hrow'
    exact h.counts id row hrow
  · intro id row' hrow'
    obtain ⟨row, hrow, t, rfl⟩ := claimRows_rows hrow'
    exact h.bounded id row hrow
  · intro id hid
    obtain ⟨hnone, hrec⟩ := h.fresh id hid
    refine ⟨?_, hrec⟩
    simp [Delivery.claimRows, hnone]

/-- A step that leaves the table alone and only lets one worker hold less. -/
theorem Tracked.setWorker (h : Tracked s) {v : Worker} (hsub : v.held.Sublist (s.workers w).held) :
    Tracked (setWorker w v s) := by
  have hheld : ∀ u, ((Delivery.setWorker w v s).workers u).held.Sublist (s.workers u).held := by
    intro u
    by_cases hu : u = w
    · subst hu
      simpa [Delivery.setWorker] using hsub
    · simp [Delivery.setWorker, update_of_ne hu]
  refine ⟨fun u c hc => h.current u c ((hheld u).subset hc), ?_, ?_, h.counts, h.bounded, h.fresh⟩
  · intro u u' hu hu'
    refine h.alone u u' ?_ ?_
    · exact fun he => hu (List.sublist_nil.mp (he ▸ hheld u))
    · exact fun he => hu' (List.sublist_nil.mp (he ▸ hheld u'))
  · exact fun u => ((hheld u).map _).nodup (h.nodup u)

theorem held_current {v : Worker} (h : v.current = some (c, res)) : v.held = c :: v.todo := by
  simp [Worker.held, h]

/-- The rows an outcome does not concern. -/
theorem recordOutcome_rows_of_ne (h : id ≠ c.id) :
    (recordOutcome w dbNow c res s).rows id = s.rows id := by
  simp [recordOutcome, update_of_ne h]

theorem recordOutcome_rows_self (s : System ι) (w : ℕ) (dbNow : ℤ) (c : ClaimedDelivery)
    (res : AttemptResult) : (recordOutcome w dbNow c res s).rows c.id =
      (s.rows c.id).map (outcomeUpdate dbNow c res) := by
  simp [recordOutcome]

/-- The claim whose outcome is being written is held by nobody else, and only once. -/
theorem Tracked.held_ne (h : Tracked s) (hcur : (s.workers w).current = some (c, res)) {v : ℕ}
    {d : ClaimedDelivery}
    (hd : d ∈ ((Delivery.setWorker w ⟨(s.workers w).todo, none⟩ s).workers v).held) :
    d.id ≠ c.id := by
  have hheld := held_current hcur
  intro heq
  by_cases hv : v = w
  · subst hv
    have hn := h.nodup v
    rw [hheld, List.map_cons, List.nodup_cons] at hn
    simp only [Delivery.setWorker, update_self, Worker.held, Option.map_none,
      Option.toList_none, List.nil_append] at hd
    exact hn.1 (heq ▸ List.mem_map_of_mem hd)
  · simp only [Delivery.setWorker, update_of_ne hv] at hd
    exact hv (h.alone v w (List.ne_nil_of_mem hd) (by simp [hheld]))

/-- The rows after an outcome: the row of the claim, updated, and the others. -/
theorem recordOutcome_rows {row' : DeliveryRow ι} (hrow : s.rows c.id = some row)
    (h : (recordOutcome w dbNow c res s).rows id = some row') :
    (id = c.id ∧ row' = outcomeUpdate dbNow c res row) ∨ (id ≠ c.id ∧ s.rows id = some row') := by
  by_cases hid : id = c.id
  · subst hid
    rw [recordOutcome_rows_self, hrow] at h
    exact .inl ⟨rfl, (Option.some.inj h).symm⟩
  · rw [recordOutcome_rows_of_ne hid] at h
    exact .inr ⟨hid, h⟩

theorem Tracked.recordOutcome (h : Tracked s) (hcur : (s.workers w).current = some (c, res))
    (dbNow : ℤ) : Tracked (recordOutcome w dbNow c res s) := by
  have hheld : (s.workers w).held = c :: (s.workers w).todo := held_current hcur
  obtain ⟨row, hrow, hopen, hcount, hmax⟩ := h.current w c (by simp [hheld])
  -- The claim is current, so the count it decides on is the count of the row.
  have hlt : c.attemptCount < c.maxAttempts := by
    rw [← hcount, ← hmax]
    exact (h.bounded _ _ hrow).2 hopen
  have hdrop : Tracked (Delivery.setWorker w ⟨(s.workers w).todo, none⟩ s) := by
    refine h.setWorker ?_
    rw [hheld]
    simp [Worker.held]
  obtain ⟨hcount', hmax', _, hopen'⟩ := outcomeUpdate_spec dbNow c res row
  refine ⟨?_, hdrop.alone, hdrop.nodup, ?_, ?_, ?_⟩
  · intro v d hd
    obtain ⟨drow, hdrow, hd'⟩ := hdrop.current v d hd
    exact ⟨drow, by rwa [recordOutcome_rows_of_ne (h.held_ne hcur hd)], hd'⟩
  · intro id row' hrow'
    rcases recordOutcome_rows hrow hrow' with ⟨rfl, rfl⟩ | ⟨hid, hold⟩
    · rw [hcount', h.counts _ _ hrow]
      simp [Delivery.recordOutcome]
    · rw [h.counts _ _ hold]
      simp [Delivery.recordOutcome, Ne.symm hid]
  · intro id row' hrow'
    rcases recordOutcome_rows hrow hrow' with ⟨rfl, rfl⟩ | ⟨_, hold⟩
    · rw [hcount', hmax']
      refine ⟨by omega, fun ht => ?_⟩
      have := hopen' ht
      omega
    · exact h.bounded _ _ hold
  · intro id hid
    obtain ⟨hnone, hrec⟩ := h.fresh id hid
    have hne : id ≠ c.id := fun he => by simp [← he, hnone] at hrow
    rw [recordOutcome_rows_of_ne hne]
    simpa [Delivery.recordOutcome, hne] using And.intro hnone hrec

theorem Tracked.beginAttempt (h : Tracked s) {cs : List ClaimedDelivery}
    (hw : s.workers w = ⟨c :: cs, none⟩) (res : AttemptResult) :
    Tracked (beginAttempt w c cs res s) := by
  have hset : Tracked (Delivery.setWorker w ⟨cs, some (c, res)⟩ s) := by
    refine h.setWorker ?_
    rw [hw]
    simp [Worker.held]
  exact ⟨hset.current, hset.alone, hset.nodup, h.counts, h.bounded, h.fresh⟩

/-- Every step that meets `Alone` preserves the invariant. -/
theorem tracked_step (s : System ι) (a : Action ι) (t : System ι) (h : Tracked s)
    (halone : Alone s a) (hstep : step s a = some t) : Tracked t := by
  cases a with
  | insert r ev now =>
    cases hstep
    exact h.insertRow r ev now
  | claim w now picked scanned =>
    obtain ⟨_, hnodup, hsub, hdue, rfl⟩ := step_claim hstep
    exact h.claimRows hnodup hsub hdue halone
  | attempt w res =>
    obtain ⟨c, cs, hw, rfl⟩ := step_attempt hstep
    exact h.beginAttempt hw res
  | record w dbNow =>
    obtain ⟨c, res, hcur, rfl⟩ := step_record hstep
    exact h.recordOutcome hcur dbNow
  | lose w =>
    cases hstep
    exact h.setWorker (by simp [Worker.held])
  | stop w =>
    cases hstep
    exact h.setWorker (by simp [Worker.held, Worker.idle])

/-- A step that takes no row from another worker, moves no row out of `sent` or `failed`,
and issues no POST for such a row. -/
structure Exclusive (s : System ι) (a : Action ι) : Prop where
  claim : ∀ w now picked scanned, a = .claim w now picked scanned →
    ∀ id ∈ picked, ∀ v, v ≠ w → id ∉ (s.workers v).held.map ClaimedDelivery.id
  terminal : ∀ t, step s a = some t → ∀ id st, s.status id = some st → st.terminal = true →
    t.status id = some st
  post : ∀ w res c cs, a = .attempt w res → res.posted = true → s.workers w = ⟨c :: cs, none⟩ →
    ∃ st, s.status c.id = some st ∧ st.terminal = false

theorem status_claimRows (s : System ι) (w : ℕ) (now : ℤ) (picked scanned : List ℕ) (id : ℕ) :
    (claimRows w now picked scanned s).status id = s.status id := by
  simp only [System.status, claimRows]
  split
  · simp [Option.map_map, Function.comp_def]
  · rfl

theorem Tracked.status_current (h : Tracked s) (hc : c ∈ (s.workers w).held) :
    ∃ st, s.status c.id = some st ∧ st.terminal = false := by
  obtain ⟨row, hrow, hopen, _⟩ := h.current w c hc
  exact ⟨row.status, by simp [System.status, hrow], hopen⟩

theorem Tracked.not_terminal (h : Tracked s) (hc : c ∈ (s.workers w).held) {st : Status}
    (hst : s.status c.id = some st) : st.terminal = false := by
  obtain ⟨st', hst', hopen⟩ := h.status_current hc
  obtain rfl : st = st' := Option.some.inj (hst.symm.trans hst')
  exact hopen

theorem Tracked.status_terminal {a : Action ι} (h : Tracked s) (hstep : step s a = some t)
    {st : Status} (hst : s.status id = some st) (hterm : st.terminal = true) :
    t.status id = some st := by
  cases a with
  | insert r ev now =>
    cases hstep
    have hid : id ≠ s.nextID := by
      intro hid
      rw [System.status, hid, (h.fresh _ le_rfl).1] at hst
      cases hst
    simpa [System.status, Delivery.insertRow, update_of_ne hid] using hst
  | claim w now picked scanned =>
    obtain ⟨_, _, _, _, rfl⟩ := step_claim hstep
    rw [status_claimRows, hst]
  | attempt w res =>
    obtain ⟨c, cs, _, rfl⟩ := step_attempt hstep
    exact hst
  | record w dbNow =>
    obtain ⟨c, res, hcur, rfl⟩ := step_record hstep
    have hmem : c ∈ (s.workers w).held := by simp [held_current hcur]
    have hid : id ≠ c.id := by
      rintro rfl
      simp [h.not_terminal hmem hst] at hterm
    simpa [System.status, recordOutcome_rows_of_ne hid] using hst
  | lose w =>
    cases hstep
    exact hst
  | stop w =>
    cases hstep
    exact hst

theorem Tracked.exclusive {a : Action ι} (h : Tracked s) (halone : Alone s a) :
    Exclusive s a where
  claim w now picked scanned ha id _ v hv := by
    subst ha
    simp [halone v hv]
  terminal t hstep id st hst hterm := h.status_terminal hstep hst hterm
  post w res c cs _ _ hw := h.status_current (w := w) (by simp [hw, Worker.held])

/-- If no worker claims while another one still has claimed rows without an outcome, then
no row is ever claimed from under a worker, a terminal row keeps its status and gets no
POST, and `attempt_count` counts the recorded outcomes and stays within `max_attempts`. -/
theorem alone_run_exclusive {as : List (Action ι)} {s : System ι}
    (halone : Meets step Alone emptySystem as) (hrun : run step emptySystem as = some s) :
    Meets step Exclusive emptySystem as ∧
      ∀ id row, s.rows id = some row →
        row.attemptCount = s.recorded.count id ∧ row.attemptCount ≤ row.maxAttempts := by
  constructor
  · exact halone.imp tracked_step (fun s a h ha => h.exclusive ha) tracked_empty
  · intro id row hrow
    have h : Tracked s := run_preserves tracked_step tracked_empty halone hrun
    exact ⟨h.counts id row hrow, (h.bounded id row hrow).1⟩

/-- A row claimed, answered with a 500, claimed again once due and then accepted. -/
def retriedRun : List (Action Unit) :=
  [.insert () .firing 0, .claim 0 0 [1] [1], .attempt 0 (.response 500), .record 0 0,
    .claim 1 (2*second) [1] [1], .attempt 1 (.response 200), .record 1 (2*second)]

theorem alone_run_exclusive_retried :
    Meets step Alone emptySystem retriedRun ∧
      ∃ s, run step emptySystem retriedRun = some s ∧ s.status 1 = some .sent ∧
        Meets step Exclusive emptySystem retriedRun ∧
        ∀ id row, s.rows id = some row →
          row.attemptCount = s.recorded.count id ∧ row.attemptCount ≤ row.maxAttempts := by
  have hidle : ∀ v : ℕ, v ≠ 1 → (update (update (update
      (fun _ => Worker.idle) 0 ⟨[⟨1, 0, 5⟩], none⟩) 0 ⟨[], some (⟨1, 0, 5⟩, .response 500)⟩)
      0 ⟨[], none⟩ v).held = [] := by
    intro v _
    by_cases hv : v = 0
    · simp [hv, Worker.held]
    · simp [update_of_ne hv, Worker.held, Worker.idle]
  have hmeets : Meets step Alone emptySystem retriedRun := by
    exact .cons trivial rfl (.cons (fun v _ => rfl) rfl (.cons trivial rfl (.cons trivial rfl
      (.cons hidle rfl (.cons trivial rfl (.cons trivial rfl trivial))))))
  exact ⟨hmeets, _, rfl, rfl, alone_run_exclusive hmeets rfl⟩

/-- Two workers claim the same due row; the first is accepted. -/
def claimedTwice : List (Action Unit) :=
  [.insert () .firing 0, .claim 0 0 [1] [1], .claim 1 0 [1] [1], .attempt 0 (.response 200),
    .record 0 0]

/-- The claim leaves the row due: the second worker posts a row that is already `sent`
and turns it back into `retrying`. -/
theorem claimed_twice_not_exclusive :
    ∃ s₁ s₂ : System Unit, run step emptySystem claimedTwice = some s₁ ∧
      s₁.status 1 = some .sent ∧
      run step s₁ [.attempt 1 (.response 500), .record 1 0] = some s₂ ∧
      s₂.status 1 = some .retrying ∧
      ¬ Meets step Exclusive emptySystem
        (claimedTwice ++ [.attempt 1 (.response 500), .record 1 0]) := by
  refine ⟨_, _, rfl, rfl, rfl, rfl, fun h => ?_⟩
  obtain ⟨st, hst, hopen⟩ := (h.append_right rfl).1.post 1 (.response 500) ⟨1, 0, 5⟩ [] rfl rfl rfl
  cases hst
  cases hopen

end CairnObs.Delivery
