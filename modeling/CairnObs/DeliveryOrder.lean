import CairnObs.DeliveryExclusive

/-! The order in which the notifications of one rule succeed. -/
namespace CairnObs.Delivery
open GuardedRuns

variable {ι : Type*}

def System.ruleOf (s : System ι) (id : ℕ) : Option ι := (s.rows id).map DeliveryRow.ruleID

/-- The accepted notifications of one rule, in the order of their answers. -/
def System.deliveredOf [DecidableEq ι] (s : System ι) (r : ι) : List ℕ :=
  s.delivered.filter (fun id => s.ruleOf id == some r)

/-- One worker, every one of whose outcomes is written. -/
def Single (s : System ι) : Action ι → Prop
  | .insert _ _ _ => True
  | .claim w _ _ _ => w = 0
  | .attempt w _ => w = 0
  | .record w _ => w = 0
  | .lose _ => False
  | .stop w => w = 0 ∧ (s.workers 0).current = none

/-- A row is attempted only once every earlier row of its rule is `sent` or `failed`. -/
def InTurn (s : System ι) : Action ι → Prop
  | .attempt w _ => ∀ c cs, s.workers w = ⟨c :: cs, none⟩ →
      ∀ id, id < c.id → s.ruleOf id = s.ruleOf c.id →
        ∃ st, s.status id = some st ∧ st.terminal = true
  | _ => True

theorem outcomeUpdate_sent (dbNow : ℤ) (c : ClaimedDelivery) (res : AttemptResult)
    (row : DeliveryRow ι) :
    (outcomeUpdate dbNow c res row).status = .sent ↔ res.accepted = true := by
  rcases outcomeUpdate_cases dbNow c res row with ⟨hacc, code, heq⟩ | ⟨hacc, code, msg, heq⟩
  · rw [heq, hacc]
    exact ⟨fun _ => rfl, fun _ => rfl⟩
  · have hns := (fail_spec dbNow c code msg row).2.2.2.1
    rw [heq, hacc]
    exact ⟨fun hsent => absurd hsent hns, nofun⟩

variable {a : Action ι} {s t : System ι} {c : ClaimedDelivery} {id : ℕ} {res : AttemptResult}

/-- A row belongs to one rule for good. -/
theorem ruleOf_step (hstep : step s a = some t) (hid : id ≠ s.nextID) :
    t.ruleOf id = s.ruleOf id := by
  cases a with
  | insert r ev now =>
    cases hstep
    simp [System.ruleOf, insertRow, Function.update_of_ne hid]
  | claim w now picked scanned =>
    obtain ⟨_, _, _, _, rfl⟩ := step_claim hstep
    simp only [System.ruleOf, claimRows]
    split
    · simp [Option.map_map, Function.comp_def]
    · rfl
  | attempt w res =>
    obtain ⟨c, cs, _, rfl⟩ := step_attempt hstep
    rfl
  | record w dbNow =>
    obtain ⟨c, res, _, rfl⟩ := step_record hstep
    by_cases hc : id = c.id
    · subst hc
      have hrule : ∀ row : DeliveryRow ι, (outcomeUpdate dbNow c res row).ruleID = row.ruleID :=
        fun row => (outcomeUpdate_spec dbNow c res row).2.2.1
      simp [System.ruleOf, recordOutcome_rows_self, Option.map_map, Function.comp_def, hrule]
    · simp [System.ruleOf, recordOutcome_rows_of_ne hc]
  | lose w =>
    cases hstep
    rfl
  | stop w =>
    cases hstep
    rfl

/-- The row whose POST the single worker has seen accepted and not yet written. -/
def Accepting (s : System ι) (id : ℕ) : Prop :=
  ∃ c res, (s.workers 0).current = some (c, res) ∧ res.accepted = true ∧ c.id = id

/-- Under a single worker the target has accepted exactly the rows that are `sent`, and
the one that is about to be. -/
structure Ledger (s : System ι) : Prop where
  tracked : Tracked s
  others : ∀ v, v ≠ 0 → (s.workers v).held = []
  accepted : ∀ id, id ∈ s.delivered ↔ s.status id = some .sent ∨ Accepting s id

theorem Ledger.alone (h : Ledger s) (hone : Single s a) : Alone s a := by
  cases a with
  | claim w now picked scanned =>
    cases hone
    exact h.others
  | insert r ev now => trivial
  | attempt w res => trivial
  | record w dbNow => trivial
  | lose w => trivial
  | stop w => trivial

/-- Only worker 0 can come to hold anything. -/
theorem others_step (hone : Single s a) (hstep : step s a = some t) {v : ℕ} (hv : v ≠ 0) :
    t.workers v = s.workers v := by
  cases a with
  | insert r ev now =>
    cases hstep
    rfl
  | claim w now picked scanned =>
    cases hone
    obtain ⟨_, _, _, _, rfl⟩ := step_claim hstep
    exact Function.update_of_ne hv _ _
  | attempt w res =>
    cases hone
    obtain ⟨c, cs, _, rfl⟩ := step_attempt hstep
    exact Function.update_of_ne hv _ _
  | record w dbNow =>
    cases hone
    obtain ⟨c, res, _, rfl⟩ := step_record hstep
    exact Function.update_of_ne hv _ _
  | lose w => cases hone
  | stop w =>
    cases hone.1
    cases hstep
    exact Function.update_of_ne hv _ _

theorem accepting_of_none (h : (s.workers 0).current = none) (id : ℕ) : ¬ Accepting s id := by
  rintro ⟨c, res, hcur, _⟩
  rw [h] at hcur
  cases hcur

theorem accepting_iff (h : (s.workers 0).current = some (c, res)) (id : ℕ) :
    Accepting s id ↔ res.accepted = true ∧ c.id = id := by
  simp only [Accepting, h, Option.some.injEq, Prod.mk.injEq]
  constructor
  · rintro ⟨_, _, ⟨rfl, rfl⟩, hres⟩
    exact hres
  · exact fun hres => ⟨c, res, ⟨rfl, rfl⟩, hres⟩

theorem Ledger.delivered_iff (h : Ledger s) (hcur : (s.workers 0).current = none) (id : ℕ) :
    id ∈ s.delivered ↔ s.status id = some .sent := by
  rw [h.accepted, or_iff_left (accepting_of_none hcur id)]

theorem current_none_of_held {v : Worker} (h : v.held = []) : v.current = none := by
  cases hc : v.current with
  | none => rfl
  | some x => simp [Worker.held, hc] at h

/-- A row is not accepted twice: while it is held it is neither `sent` nor delivered. -/
theorem Ledger.not_delivered (h : Ledger s) (hc : c ∈ (s.workers 0).held)
    (hacc : ¬ Accepting s c.id) : c.id ∉ s.delivered := by
  rw [h.accepted]
  rintro (hsent | hacc')
  · cases h.tracked.not_terminal hc hsent
  · exact hacc hacc'

theorem Ledger.delivered_lt (h : Ledger s) (hid : id ∈ s.delivered) : id < s.nextID := by
  by_contra hge
  have hnone := (h.tracked.fresh id (not_lt.mp hge)).1
  rcases (h.accepted id).mp hid with hsent | ⟨c, res, hcur, _, rfl⟩
  · simp [System.status, hnone] at hsent
  · obtain ⟨st, hst, _⟩ := h.tracked.status_current (w := 0) (c := c) (by simp [held_current hcur])
    simp [System.status, hnone] at hst

theorem status_sent_insertRow (h : Tracked s) (r : ι) (ev : Alerting.EventType) (now : ℤ) (id : ℕ) :
    (insertRow r ev now s).status id = some .sent ↔ s.status id = some .sent := by
  by_cases hid : id = s.nextID
  · subst hid
    simp [System.status, insertRow, (h.fresh _ le_rfl).1]
  · simp [System.status, insertRow, Function.update_of_ne hid]

theorem Ledger.attempt (h : Ledger s) {cs : List ClaimedDelivery}
    (hw : s.workers 0 = ⟨c :: cs, none⟩) (res : AttemptResult) (id : ℕ) :
    id ∈ (beginAttempt 0 c cs res s).delivered ↔
      (beginAttempt 0 c cs res s).status id = some .sent ∨
        Accepting (beginAttempt 0 c cs res s) id := by
  have hold : id ∈ s.delivered ↔ s.status id = some .sent := h.delivered_iff (by rw [hw]) id
  have hcur : ((beginAttempt 0 c cs res s).workers 0).current = some (c, res) := by
    simp [beginAttempt]
  have hstatus : (beginAttempt 0 c cs res s).status id = s.status id := rfl
  rw [accepting_iff hcur, hstatus, ← hold]
  cases hres : res.accepted with
  | false => simp [beginAttempt, hres]
  | true => simp [beginAttempt, hres, eq_comm (a := c.id)]

theorem Ledger.record (h : Ledger s) (hcur : (s.workers 0).current = some (c, res)) (dbNow : ℤ)
    (id : ℕ) : id ∈ s.delivered ↔ (recordOutcome 0 dbNow c res s).status id = some .sent := by
  have hmem : c ∈ (s.workers 0).held := by simp [held_current hcur]
  rw [h.accepted, accepting_iff hcur]
  by_cases hid : id = c.id
  · subst hid
    obtain ⟨row, hrow, hopen, _⟩ := h.tracked.current 0 c hmem
    have hns : row.status ≠ .sent := by
      intro hsent
      simp [hsent, Status.terminal] at hopen
    simp [hns, System.status, recordOutcome_rows_self, hrow, outcomeUpdate_sent]
  · simp [System.status, recordOutcome_rows_of_ne hid, Ne.symm hid]

/-- Every step of a single worker preserves the ledger. -/
theorem ledger_step (s : System ι) (a : Action ι) (t : System ι) (h : Ledger s)
    (hone : Single s a) (hstep : step s a = some t) : Ledger t := by
  refine ⟨tracked_step s a t h.tracked (h.alone hone) hstep, ?_, ?_⟩
  · intro v hv
    rw [others_step hone hstep hv]
    exact h.others v hv
  · intro id
    cases a with
    | insert r ev now =>
      cases hstep
      rw [status_sent_insertRow h.tracked]
      exact h.accepted id
    | claim w now picked scanned =>
      cases hone
      obtain ⟨hheld, _, _, _, rfl⟩ := step_claim hstep
      have hnew : ((claimRows 0 now picked scanned s).workers 0).current = none := by
        simp [claimRows]
      rw [status_claimRows, or_iff_left (accepting_of_none hnew id)]
      exact h.delivered_iff (current_none_of_held hheld) id
    | attempt w res =>
      cases hone
      obtain ⟨c, cs, hw, rfl⟩ := step_attempt hstep
      exact h.attempt hw res id
    | record w dbNow =>
      -- The row that was about to be `sent` now is.
      cases hone
      obtain ⟨c, res, hcur, rfl⟩ := step_record hstep
      have hnew : ((recordOutcome 0 dbNow c res s).workers 0).current = none := by
        simp [recordOutcome]
      rw [or_iff_left (accepting_of_none hnew id)]
      exact h.record hcur dbNow id
    | lose w => cases hone
    | stop w =>
      obtain ⟨rfl, hnone⟩ := hone
      cases hstep
      have hnew : ((setWorker 0 Worker.idle s).workers 0).current = none := by
        simp [setWorker, Worker.idle]
      rw [or_iff_left (accepting_of_none hnew id)]
      exact h.delivered_iff hnone id

theorem ledger_empty : Ledger (emptySystem : System ι) := by
  refine ⟨tracked_empty, fun _ _ => rfl, fun id => ?_⟩
  rw [or_iff_left (accepting_of_none (s := (emptySystem : System ι)) rfl id)]
  simp [emptySystem, System.status]

theorem nodup_step (h : Ledger s) (hnodup : s.delivered.Nodup) (hone : Single s a)
    (hstep : step s a = some t) : t.delivered.Nodup := by
  cases a with
  | attempt w res =>
    cases hone
    obtain ⟨c, cs, hw, rfl⟩ := step_attempt hstep
    -- a row that is held and not being accepted was not accepted before
    have hnew : c.id ∉ s.delivered :=
      h.not_delivered (by simp [hw, Worker.held]) (accepting_of_none (by rw [hw]) c.id)
    simp only [beginAttempt]
    split
    · exact (List.nodup_append_comm.mp (List.nodup_cons.mpr ⟨hnew, hnodup⟩))
    · exact hnodup
  | claim w now picked scanned =>
    obtain ⟨-, -, -, -, rfl⟩ := step_claim hstep
    exact hnodup
  | record w dbNow =>
    obtain ⟨c, res, -, rfl⟩ := step_record hstep
    exact hnodup
  | insert | lose | stop =>
    cases hstep
    exact hnodup

/-- One worker that writes all its outcomes, in whatever order it takes the rows: it gets a 2xx for
each row at most once, and `sent` are just the rows it got one for, but for the one whose outcome
is not written yet. -/
theorem single_worker_succeeds_once {as : List (Action ι)} {s : System ι}
    (hone : Meets step Single emptySystem as) (hrun : run step emptySystem as = some s) :
    s.delivered.Nodup ∧ ∀ id, id ∈ s.delivered ↔ s.status id = some .sent ∨ Accepting s id := by
  have h := run_preserves (I := fun s : System ι => Ledger s ∧ s.delivered.Nodup)
    (fun _ _ _ h hone hstep => ⟨ledger_step _ _ _ h.1 hone hstep, nodup_step h.1 h.2 hone hstep⟩)
    ⟨ledger_empty, List.nodup_nil⟩ hone hrun
  exact ⟨h.2, h.1.accepted⟩

def postedRun : List (Action Unit) :=
  [.insert () .firing 0, .claim 0 0 [1] [1], .attempt 0 (.response 200)]

theorem single_worker_succeeds_once_posted :
    ∃ s, run step emptySystem postedRun = some s ∧ s.delivered = [1] ∧ Accepting s 1 := by
  have hone : Meets step Single emptySystem postedRun :=
    .cons trivial rfl (.cons rfl rfl (.cons rfl rfl trivial))
  refine ⟨_, rfl, rfl, ?_⟩
  exact (((single_worker_succeeds_once hone rfl).2 1).mp List.mem_cons_self).resolve_left nofun

/-- Behind an accepted row everything of its rule is settled, and each rule's accepted
rows come in the order of creation. -/
structure InOrder (s : System ι) : Prop where
  ledger : Ledger s
  earlier : ∀ id ∈ s.delivered, ∀ j, j < id → s.ruleOf j = s.ruleOf id →
    ∃ st, s.status j = some st ∧ st.terminal = true
  sorted : s.delivered.Pairwise (fun i j => s.ruleOf i = s.ruleOf j → i < j)

/-- A step that delivers nothing keeps the order: settled rows stay settled. -/
theorem InOrder.of_delivered_eq (h : InOrder s) (ht : Ledger t) (hstep : step s a = some t)
    (hdel : t.delivered = s.delivered) : InOrder t := by
  have hrule : ∀ id ∈ s.delivered, t.ruleOf id = s.ruleOf id := fun id hid =>
    ruleOf_step hstep (h.ledger.delivered_lt hid).ne
  refine ⟨ht, ?_, ?_⟩
  · rw [hdel]
    intro id hid j hj hr
    -- A row that is new has a later id than `j`, so `j` belonged to the rule before.
    rw [hrule id hid, ruleOf_step hstep (hj.trans (h.ledger.delivered_lt hid)).ne] at hr
    obtain ⟨st, hst, hterm⟩ := h.earlier id hid j hj hr
    exact ⟨st, h.ledger.tracked.status_terminal hstep hst hterm, hterm⟩
  · rw [hdel]
    refine h.sorted.imp_of_mem ?_
    intro i j hi hj hij hr
    rw [hrule i hi, hrule j hj] at hr
    exact hij hr

theorem InOrder.attempt (h : InOrder s) {cs : List ClaimedDelivery}
    (hw : s.workers 0 = ⟨c :: cs, none⟩) (hturn : ∀ id, id < c.id → s.ruleOf id = s.ruleOf c.id →
      ∃ st, s.status id = some st ∧ st.terminal = true) (ht : Ledger (beginAttempt 0 c cs res s)) :
    InOrder (beginAttempt 0 c cs res s) := by
  have hmem : c ∈ (s.workers 0).held := by simp [hw, Worker.held]
  have hnew : c.id ∉ s.delivered :=
    h.ledger.not_delivered hmem (accepting_of_none (by rw [hw]) c.id)
  -- A later row of the rule cannot have been accepted: this one would be settled.
  have hlast : ∀ id ∈ s.delivered, s.ruleOf id = s.ruleOf c.id → id < c.id := by
    intro id hid hr
    rcases lt_trichotomy id c.id with hlt | rfl | hgt
    · exact hlt
    · exact absurd hid hnew
    · obtain ⟨st, hst, hterm⟩ := h.earlier id hid c.id hgt hr.symm
      rw [h.ledger.tracked.not_terminal hmem hst] at hterm
      cases hterm
  cases hres : res.accepted with
  | false =>
    have hdel : (beginAttempt 0 c cs res s).delivered = s.delivered := by
      simp [beginAttempt, hres]
    exact ⟨ht, by rw [hdel]; exact h.earlier, by rw [hdel]; exact h.sorted⟩
  | true =>
    have hdel : (beginAttempt 0 c cs res s).delivered = s.delivered ++ [c.id] := by
      simp [beginAttempt, hres]
    refine ⟨ht, ?_, ?_⟩
    · rw [hdel]
      intro id hid
      rcases List.mem_append.mp hid with hid | hid
      · exact h.earlier id hid
      · cases List.mem_singleton.mp hid
        exact hturn
    · rw [hdel, List.pairwise_append]
      refine ⟨h.sorted, List.pairwise_singleton _ _, ?_⟩
      intro id hid j hj
      cases List.mem_singleton.mp hj
      exact hlast id hid

/-- Every step of a single worker that takes the rows of a rule in turn keeps the order. -/
theorem inOrder_step (s : System ι) (a : Action ι) (t : System ι) (h : InOrder s)
    (hC : Single s a ∧ InTurn s a) (hstep : step s a = some t) : InOrder t := by
  obtain ⟨hone, hturn⟩ := hC
  have ht : Ledger t := ledger_step s a t h.ledger hone hstep
  cases a with
  | attempt w res =>
    cases hone
    obtain ⟨c, cs, hw, rfl⟩ := step_attempt hstep
    exact h.attempt hw (hturn c cs hw) ht
  | insert r ev now => exact h.of_delivered_eq ht hstep (by cases hstep; rfl)
  | claim w now picked scanned =>
    exact h.of_delivered_eq ht hstep (by obtain ⟨_, _, _, _, rfl⟩ := step_claim hstep; rfl)
  | record w dbNow =>
    exact h.of_delivered_eq ht hstep (by obtain ⟨_, _, _, rfl⟩ := step_record hstep; rfl)
  | lose w => cases hone
  | stop w => exact h.of_delivered_eq ht hstep (by cases hstep; rfl)

theorem inOrder_empty : InOrder (emptySystem : System ι) :=
  ⟨ledger_empty, nofun, List.Pairwise.nil⟩

theorem getLast?_eq_some_iff_greatest {l : List ℕ} (h : l.Pairwise (· < ·)) {x : ℕ} :
    l.getLast? = some x ↔ x ∈ l ∧ ∀ y ∈ l, y ≤ x := by
  have hmax : ∀ {z}, l.getLast? = some z → z ∈ l ∧ ∀ y ∈ l, y ≤ z := by
    intro z hz
    obtain ⟨ys, rfl⟩ := List.getLast?_eq_some_iff.mp hz
    refine ⟨by simp, fun y hy => ?_⟩
    rcases List.mem_append.mp hy with hy | hy
    · exact ((List.pairwise_append.mp h).2.2 y hy z (List.mem_singleton_self z)).le
    · exact (List.mem_singleton.mp hy).le
  refine ⟨hmax, fun ⟨hx, hle⟩ => ?_⟩
  obtain ⟨z, hz⟩ : ∃ z, l.getLast? = some z := by
    rw [← Option.isSome_iff_exists, List.getLast?_isSome]
    exact List.ne_nil_of_mem hx
  have hzx := hle z (hmax hz).1
  have hxz := (hmax hz).2 x hx
  rw [hz, le_antisymm hzx hxz]

variable [DecidableEq ι]

theorem mem_deliveredOf {r : ι} :
    id ∈ s.deliveredOf r ↔ id ∈ s.delivered ∧ s.ruleOf id = some r := by
  simp [System.deliveredOf]

theorem InOrder.deliveredOf_sorted (h : InOrder s) (r : ι) :
    (s.deliveredOf r).Pairwise (· < ·) := by
  refine (h.sorted.filter _).imp_of_mem ?_
  intro i j hi hj hij
  exact hij ((mem_deliveredOf.mp hi).2.trans (mem_deliveredOf.mp hj).2.symm)

/-- Once the rows of a rule are all terminal, the accepted ones are the `sent` ones. -/
theorem Ledger.mem_deliveredOf_iff (h : Ledger s) {r : ι}
    (hdone : ∀ id, s.ruleOf id = some r → ∃ st, s.status id = some st ∧ st.terminal = true)
    (id : ℕ) :
    id ∈ s.deliveredOf r ↔ s.status id = some .sent ∧ s.ruleOf id = some r := by
  rw [mem_deliveredOf]
  refine and_congr_left fun hr => ?_
  rw [h.accepted, or_iff_left]
  rintro ⟨c, res, hcur, _, rfl⟩
  obtain ⟨st, hst, hterm⟩ := hdone c.id hr
  have hmem : c ∈ (s.workers 0).held := by simp [held_current hcur]
  rw [h.tracked.not_terminal hmem hst] at hterm
  cases hterm

/-- A single worker that takes the rows of each rule in turn delivers them in the order of
creation: once they are all terminal the last one accepted is the latest that did not
fail, and no row (so no `firing`) is accepted after a later one (the `resolved` of its
episode). -/
theorem in_turn_run_in_order {as : List (Action ι)} {s : System ι}
    (hone : Meets step Single emptySystem as) (hturn : Meets step InTurn emptySystem as)
    (hrun : run step emptySystem as = some s) (r : ι) :
    (s.deliveredOf r).Pairwise (· < ·) ∧
      ((∀ id, s.ruleOf id = some r → ∃ st, s.status id = some st ∧ st.terminal = true) →
        ∀ id, (s.deliveredOf r).getLast? = some id ↔
          s.ruleOf id = some r ∧ s.status id = some .sent ∧
            ∀ j, id < j → s.ruleOf j = some r → s.status j = some .failed) ∧
      ∀ f g, f < g → ¬ [g, f].Sublist (s.deliveredOf r) := by
  have h : InOrder s := run_preserves inOrder_step inOrder_empty (hone.and hturn) hrun
  have hsorted := h.deliveredOf_sorted r
  refine ⟨hsorted, ?_, ?_⟩
  · intro hdone id
    have hmem := h.ledger.mem_deliveredOf_iff hdone
    rw [getLast?_eq_some_iff_greatest hsorted]
    simp only [hmem]
    constructor
    · rintro ⟨⟨hsent, hr⟩, hmax⟩
      refine ⟨hr, hsent, fun j hj hrj => ?_⟩
      obtain ⟨st, hst, hterm⟩ := hdone j hrj
      have hns : st ≠ .sent := by
        rintro rfl
        exact absurd (hmax j ⟨hst, hrj⟩) (not_le.mpr hj)
      cases st <;> simp_all [Status.terminal]
    · rintro ⟨hr, hsent, hlater⟩
      refine ⟨⟨hsent, hr⟩, ?_⟩
      rintro j ⟨hj, hrj⟩
      by_contra hlt
      rw [hlater j (not_le.mp hlt) hrj] at hj
      cases hj
  · intro f g hfg hsub
    have hpair := hsorted.sublist hsub
    simp only [List.pairwise_cons, List.mem_singleton, forall_eq] at hpair
    exact absurd hpair.1 (not_lt.mpr hfg.le)

/-- The `firing` is refused once and retried before the `resolved` is attempted. -/
def retriedInTurn : List (Action Unit) :=
  [.insert () .firing 0, .claim 0 0 [1] [1], .attempt 0 (.response 500), .record 0 0,
    .insert () .resolved second, .claim 0 (2*second) [1, 2] [1, 2],
    .attempt 0 (.response 200), .record 0 (2*second),
    .attempt 0 (.response 200), .record 0 (2*second)]

theorem in_turn_run_in_order_retried :
    Meets step Single emptySystem retriedInTurn ∧ Meets step InTurn emptySystem retriedInTurn ∧
      ∃ s, run step emptySystem retriedInTurn = some s ∧ s.deliveredOf () = [1, 2] ∧
        (s.deliveredOf ()).Pairwise (· < ·) ∧
        ((∀ id, s.ruleOf id = some () → ∃ st, s.status id = some st ∧ st.terminal = true) →
          ∀ id, (s.deliveredOf ()).getLast? = some id ↔
            s.ruleOf id = some () ∧ s.status id = some .sent ∧
              ∀ j, id < j → s.ruleOf j = some () → s.status j = some .failed) ∧
        ∀ f g, f < g → ¬ [g, f].Sublist (s.deliveredOf ()) := by
  have hone : Meets step Single emptySystem retriedInTurn := by
    refine ⟨trivial, fun _ _ => ⟨rfl, fun _ _ => ⟨rfl, fun _ _ => ⟨rfl, fun _ _ => ⟨trivial,
      fun _ _ => ⟨rfl, fun _ _ => ⟨rfl, fun _ _ => ⟨rfl, fun _ _ => ⟨rfl, fun _ _ => ⟨rfl,
      fun _ _ => trivial⟩⟩⟩⟩⟩⟩⟩⟩⟩⟩
  have hturn : Meets step InTurn emptySystem retriedInTurn := by
    refine .cons trivial rfl (.cons trivial rfl (.cons ?_ rfl (.cons trivial rfl (.cons trivial rfl
      (.cons trivial rfl (.cons ?_ rfl (.cons trivial rfl (.cons ?_ rfl
        (.cons trivial rfl trivial)))))))))
    · intro c cs hw id hid hr
      cases hw
      interval_cases id
      cases hr
    · intro c cs hw id hid hr
      cases hw
      interval_cases id
      cases hr
    · intro c cs hw id hid hr
      cases hw
      interval_cases id
      · cases hr
      · exact ⟨.sent, rfl, rfl⟩
  exact ⟨hone, hturn, _, rfl, rfl, in_turn_run_in_order hone hturn rfl ()⟩

/-- The `resolved` becomes due while the `firing` waits for its retry. -/
def overtakenRun : List (Action Unit) :=
  [.insert () .firing 0, .claim 0 0 [1] [1], .attempt 0 (.response 500), .record 0 0,
    .insert () .resolved second, .claim 0 second [2] [2], .attempt 0 (.response 200),
    .record 0 second, .claim 0 (2*second) [1] [1], .attempt 0 (.response 200),
    .record 0 (2*second)]

/-- One worker and one failed POST are enough for the target to accept the `resolved`
first and to be left with the `firing`. -/
theorem overtaken_run_out_of_order :
    Meets step Single emptySystem overtakenRun ∧
      ∃ s, run step emptySystem overtakenRun = some s ∧
        (s.rows 1).map DeliveryRow.eventType = some .firing ∧
        (s.rows 2).map DeliveryRow.eventType = some .resolved ∧
        s.status 1 = some .sent ∧ s.status 2 = some .sent ∧
        s.deliveredOf () = [2, 1] ∧ ¬ (s.deliveredOf ()).Pairwise (· < ·) := by
  refine ⟨?_, _, rfl, rfl, rfl, rfl, rfl, rfl, by decide⟩
  exact ⟨trivial, fun _ _ => ⟨rfl, fun _ _ => ⟨rfl, fun _ _ => ⟨rfl, fun _ _ => ⟨trivial,
    fun _ _ => ⟨rfl, fun _ _ => ⟨rfl, fun _ _ => ⟨rfl, fun _ _ => ⟨rfl, fun _ _ => ⟨rfl,
    fun _ _ => ⟨rfl, fun _ _ => trivial⟩⟩⟩⟩⟩⟩⟩⟩⟩⟩⟩

end CairnObs.Delivery
