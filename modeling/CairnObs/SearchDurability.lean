import CairnObs.SearchIndexer

/-! Durability of the search indexer: which runs keep every consumed record in its index
across crashes. -/
namespace CairnObs.Search
open GuardedRuns Function

def Present (docs : List LogRecord) (recordID : String) : Prop :=
  ∃ d ∈ docs, d.recordID = recordID

variable {id : String}

theorem present_addDocument {docs : List LogRecord} {doc : LogRecord} :
    Present (applyOp docs (.addDocument doc)) id ↔ Present docs id ∨ doc.recordID = id := by
  simp [Present, applyOp, or_and_right, exists_or]

theorem present_deleteTerm {docs : List LogRecord} {id' : String} (h : id' ≠ id) :
    Present (applyOp docs (.deleteTerm id')) id ↔ Present docs id := by
  constructor
  · rintro ⟨d, hd, hid⟩
    exact ⟨d, List.mem_of_mem_filter hd, hid⟩
  · rintro ⟨d, hd, rfl⟩
    exact ⟨d, List.mem_filter.mpr ⟨hd, by simpa using Ne.symm h⟩, rfl⟩

/-- Operations on other keys neither add nor remove a document. -/
theorem present_foldl_of_ne {ops : List WriterOp} (h : ∀ op ∈ ops, op.key ≠ id)
    (docs : List LogRecord) : Present (ops.foldl applyOp docs) id ↔ Present docs id := by
  induction ops generalizing docs with
  | nil => rfl
  | cons op ops ih =>
    rw [List.foldl_cons, ih (fun o ho => h o (List.mem_cons_of_mem _ ho))]
    have hop : op.key ≠ id := h op List.mem_cons_self
    cases op with
    | deleteTerm id' => exact present_deleteTerm hop
    | addDocument doc => exact present_addDocument.trans (or_iff_left hop)

theorem SearchIndex.applied_upsert (ix : SearchIndex) (doc : LogRecord) :
    (ix.upsert doc true).applied =
      applyOp (applyOp ix.applied (.deleteTerm doc.recordID)) (.addDocument doc) := by
  simp [SearchIndex.upsert, SearchIndex.applied]

/-- A successful upsert puts its document in and loses no other key. -/
theorem SearchIndex.present_upsert {ix : SearchIndex} {doc : LogRecord} :
    Present (ix.upsert doc true).applied id ↔ Present ix.applied id ∨ doc.recordID = id := by
  rw [SearchIndex.applied_upsert, present_addDocument]
  by_cases hid : doc.recordID = id
  · simp [hid]
  · simp only [present_deleteTerm hid]

@[simp] theorem SearchIndex.applied_commit (ix : SearchIndex) :
    ix.commit.applied = ix.applied := rfl

variable {openOk : Bool} {t : String} {o p : ℕ}

theorem resolve_some {opened opened' : List String} (h : resolve opened t openOk = some opened') :
    opened ⊆ opened' ∧ (t = "" ∨ t ∈ opened') := by
  simp only [resolve] at h
  split at h
  · cases h
    exact ⟨List.Subset.refl _, .inl ‹_›⟩
  · split at h
    · cases h
      exact ⟨List.Subset.refl _, .inr ‹_›⟩
    · split at h
      · cases h
        exact ⟨List.subset_cons_self _ _, .inr List.mem_cons_self⟩
      · cases h

variable {ν : Type*} {r : TopicRecord ν} {s : State ν}

/-- The records from the one after the head of the batch on. -/
theorem since_succ {log : Partition ν} {l : List (TopicRecord ν)} (h : log.since o = r :: l) :
    log.since (r.offset+1) = l := by
  have hr : o ≤ r.offset := by
    have hmem : r ∈ log.since o := by simp [h]
    exact of_decide_eq_true (List.mem_filter.mp hmem).2
  have hinc : (r :: l).Pairwise (fun a b => a.offset < b.offset) := by
    rw [← h]
    exact log.increasing.filter _
  have hsub : log.since (r.offset+1) =
      (log.since o).filter (fun x => decide (r.offset+1 ≤ x.offset)) := by
    simp only [Partition.since, List.filter_filter]
    refine List.filter_congr fun x _ => ?_
    rw [← Bool.decide_and, decide_eq_decide]
    omega
  rw [hsub, h, List.filter_cons_of_neg (by simp), List.filter_eq_self]
  intro x hx
  exact decide_eq_true ((List.pairwise_cons.mp hinc).1 x hx)

theorem eq_head_of_lt {log : Partition ν} {x : TopicRecord ν} {l : List (TopicRecord ν)}
    (h : log.since o = r :: l) (hx : x ∈ log.records) (hlt : x.offset < r.offset+1) :
    x.offset < o ∨ x = r := by
  by_cases ho : o ≤ x.offset
  · right
    have hmem : x ∈ log.since o := List.mem_filter.mpr ⟨hx, decide_eq_true ho⟩
    have hinc := log.increasing.filter (fun r => decide (o ≤ r.offset))
    rw [h] at hmem
    rw [← Partition.since, h] at hinc
    rcases List.mem_cons.mp hmem with rfl | hmem
    · rfl
    · have := (List.pairwise_cons.mp hinc).1 x hmem
      omega
  · exact .inl (not_le.mp ho)

variable (decode : ν → Option LogRecord) (log : ℕ → Partition ν)

/-- The record counts as consumed and was routed to `t`, where its document belongs. -/
def RoutedTo (s : State ν) (p : ℕ) (r : TopicRecord ν) (rec : LogRecord) (t : String) : Prop :=
  r ∈ (log p).records ∧ indexable decode r = some rec ∧ s.routed p r.offset = some t

/-- Every routed record below the persisted offset of its partition is committed or will be
with the next `commit_all` of this process. -/
def Durable (s : State ν) : Prop :=
  ∀ p r rec t, RoutedTo decode log s p r rec t → r.offset < s.persisted p →
    Present (s.indexes t).committed rec.recordID ∨
      Present ((commitAll s).indexes t).committed rec.recordID

/-- Upserts do not fail, and the process crashes only while no index buffer holds an
operation for a routed record below the persisted offset of its partition. -/
def Safe (s : State ν) : Action → Prop
  | .process p openOk addOk => ∀ r rest, (s.tasks p).batch = r :: rest →
      (route decode s.opened s.active openOk r).isSome = true → addOk = true
  | .crash => ∀ p r rec t, RoutedTo decode log s p r rec t → r.offset < s.persisted p →
      ∀ op ∈ (s.indexes t).buffer, op.key ≠ rec.recordID
  | _ => True

structure Sound (s : State ν) : Prop where
  indexed : ∀ p r rec t, RoutedTo decode log s p r rec t → r.offset < (s.tasks p).offset →
    Present (s.indexes t).applied rec.recordID
  batch : ∀ p, (s.tasks p).batch <+: (log p).since (s.tasks p).offset
  offsets : ∀ p, s.offsets p ≤ (s.tasks p).offset
  persisted : ∀ p, s.persisted p ≤ (s.tasks p).offset
  opened : ∀ t, isOpen s t = false → (s.indexes t).buffer = []

variable {decode log}

theorem sound_initial (active : Option (List String)) : Sound decode log (initial active) where
  indexed _ _ _ _ h := nomatch h.2.2
  batch _ := List.nil_prefix
  offsets _ := le_rfl
  persisted _ := le_rfl
  opened _ _ := rfl

theorem Sound.fetch (h : Sound decode log s) (p n : ℕ) :
    Sound decode log { s with
      tasks := update s.tasks p
        ⟨(s.tasks p).offset, ((log p).since (s.tasks p).offset).take n, true⟩ } := by
  have hoff : ∀ q, (update s.tasks p
      ⟨(s.tasks p).offset, ((log p).since (s.tasks p).offset).take n, true⟩ q).offset =
        (s.tasks q).offset := by
    intro q
    by_cases hq : q = p
    · subst hq
      simp
    · simp [update_of_ne hq]
  refine ⟨?_, ?_, ?_, ?_, h.opened⟩
  · intro q r rec t hr hlt
    rw [hoff] at hlt
    exact h.indexed q r rec t hr hlt
  · intro q
    rw [hoff]
    by_cases hq : q = p
    · subst hq
      simpa using List.take_prefix _ _
    · simpa [update_of_ne hq] using h.batch q
  · exact fun q => (hoff q).symm ▸ h.offsets q
  · exact fun q => (hoff q).symm ▸ h.persisted q

/-- What moving a task past the head of its batch keeps. -/
theorem Sound.advance {t : State ν} (h : Sound decode log s) {rest : List (TopicRecord ν)}
    (hb : (s.tasks p).batch = r :: rest)
    (htasks : t.tasks = update s.tasks p ⟨r.offset+1, rest, true⟩)
    (hoffsets : t.offsets = s.offsets) (hpersisted : t.persisted = s.persisted)
    (hrouted : ∀ q o, q ≠ p ∨ o ≠ r.offset → t.routed q o = s.routed q o)
    (hkeep : ∀ u id, Present (s.indexes u).applied id → Present (t.indexes u).applied id)
    (hnew : ∀ rec u, indexable decode r = some rec → t.routed p r.offset = some u →
      Present (t.indexes u).applied rec.recordID)
    (hopened : ∀ u, isOpen t u = false → (t.indexes u).buffer = []) : Sound decode log t := by
  obtain ⟨l, hl⟩ := h.batch p
  rw [hb, List.cons_append] at hl
  have hle : (s.tasks p).offset ≤ r.offset := by
    have hmem : r ∈ (log p).since (s.tasks p).offset := by simp [← hl]
    exact of_decide_eq_true (List.mem_filter.mp hmem).2
  have hoff : ∀ q, (s.tasks q).offset ≤ (t.tasks q).offset := by
    intro q
    rw [htasks]
    by_cases hq : q = p
    · subst hq
      simpa using hle.trans (Nat.le_succ _)
    · simp [update_of_ne hq]
  refine ⟨?_, ?_, ?_, ?_, hopened⟩
  · intro q x rec u hx hlt
    obtain ⟨hmem, hrec, hu⟩ := hx
    rw [htasks] at hlt
    by_cases hq : q = p
    · subst hq
      simp only [update_self] at hlt
      -- Below the new offset are the records below the old one and the head of the batch.
      rcases eq_head_of_lt hl.symm hmem hlt with hold | rfl
      · rw [hrouted q x.offset (.inr (hold.trans_le hle).ne)] at hu
        exact hkeep u _ (h.indexed q x rec u ⟨hmem, hrec, hu⟩ hold)
      · exact hnew rec u hrec hu
    · rw [update_of_ne hq] at hlt
      rw [hrouted q x.offset (.inl hq)] at hu
      exact hkeep u _ (h.indexed q x rec u ⟨hmem, hrec, hu⟩ hlt)
  · intro q
    rw [htasks]
    by_cases hq : q = p
    · subst hq
      rw [update_self, since_succ hl.symm]
      exact List.prefix_append rest l
    · simpa [update_of_ne hq] using h.batch q
  · exact fun q => hoffsets ▸ (h.offsets q).trans (hoff q)
  · exact fun q => hpersisted ▸ (h.persisted q).trans (hoff q)

theorem update_routed_of_ne {f : ℕ → ℕ → Option String} {q o' : ℕ} {v : Option String}
    (h : q ≠ p ∨ o' ≠ o) : update f p (update (f p) o v) q o' = f q o' := by
  by_cases hq : q = p
  · subst hq
    rw [update_self, update_of_ne (h.resolve_left (by simp))]
  · rw [update_of_ne hq]

theorem route_some {opened opened' : List String} {active : Option (List String)} {rec : LogRecord}
    (h : route decode opened active openOk r = some (rec, t, opened')) :
    indexable decode r = some rec ∧ opened ⊆ opened' ∧ (t = "" ∨ t ∈ opened') := by
  simp only [route, Option.bind_eq_some_iff] at h
  obtain ⟨rec', hrec, h⟩ := h
  split at h
  · obtain ⟨opened'', hres, heq⟩ := Option.map_eq_some_iff.mp h
    cases heq
    exact ⟨hrec, resolve_some hres⟩
  · cases h

theorem present_update_upsert (indexes : String → SearchIndex) (t u : String)
    (rec : LogRecord) (id : String) :
    Present (update indexes t ((indexes t).upsert rec true) u).applied id ↔
      Present (indexes u).applied id ∨ u = t ∧ rec.recordID = id := by
  by_cases hu : u = t
  · subst hu
    simp [SearchIndex.present_upsert]
  · simp [hu]

theorem isOpen_eq_false : isOpen s t = false ↔ t ≠ "" ∧ t ∉ s.opened := by
  simp [isOpen]

theorem Sound.processRecord (h : Sound decode log s) {rest : List (TopicRecord ν)} {addOk : Bool}
    (hb : (s.tasks p).batch = r :: rest)
    (hadd : (route decode s.opened s.active openOk r).isSome = true → addOk = true) :
    Sound decode log (processRecord decode p r rest openOk addOk s) := by
  cases hroute : route decode s.opened s.active openOk r with
  | none =>
    simp only [Search.processRecord, hroute]
    refine h.advance hb rfl rfl rfl (fun q o hne => update_routed_of_ne hne)
      (fun _ _ hp => hp) (fun rec u _ hu => ?_) h.opened
    simp at hu
  | some x =>
    obtain ⟨rec, t, opened'⟩ := x
    cases hadd (by simp [hroute])
    obtain ⟨hrec, hsub, hopen⟩ := route_some hroute
    simp only [Search.processRecord, hroute]
    refine h.advance hb rfl rfl rfl (fun q o hne => update_routed_of_ne hne) ?_ ?_ ?_
    · exact fun u id hp => (present_update_upsert s.indexes t u rec id).mpr (.inl hp)
    · intro rec' u hrec' hu
      cases hrec.symm.trans hrec'
      simp only [update_self, Option.some.injEq] at hu
      exact (present_update_upsert s.indexes t u rec _).mpr (.inr ⟨hu.symm, rfl⟩)
    · intro u hu
      obtain ⟨hne, hnot⟩ := isOpen_eq_false.mp hu
      have hut : u ≠ t := by
        rintro rfl
        exact hopen.elim hne hnot
      have hbuf := h.opened u (isOpen_eq_false.mpr ⟨hne, fun hmem => hnot (hsub hmem)⟩)
      simpa [update_of_ne hut] using hbuf

theorem Sound.finishBatch (h : Sound decode log s) (p : ℕ) (persistOk : Bool)
    (hb : (s.tasks p).batch = []) : Sound decode log (finishBatch p persistOk s) := by
  have htasks : ∀ q, (s.tasks q).offset = ((Search.finishBatch p persistOk s).tasks q).offset ∧
      (s.tasks q).batch = ((Search.finishBatch p persistOk s).tasks q).batch := by
    intro q
    by_cases hq : q = p
    · subst hq
      simp [Search.finishBatch, hb]
    · simp [Search.finishBatch, update_of_ne hq]
  have hoffsets : ∀ q, update s.offsets p (s.tasks p).offset q ≤ (s.tasks q).offset := by
    intro q
    by_cases hq : q = p
    · subst hq
      simp
    · simpa [update_of_ne hq] using h.offsets q
  refine ⟨?_, ?_, ?_, ?_, h.opened⟩
  · intro q r rec t hr hlt
    rw [← (htasks q).1] at hlt
    exact h.indexed q r rec t hr hlt
  · intro q
    rw [← (htasks q).1, ← (htasks q).2]
    exact h.batch q
  · exact fun q => (htasks q).1 ▸ hoffsets q
  · intro q
    rw [← (htasks q).1]
    cases persistOk with
    | true => exact hoffsets q
    | false => exact h.persisted q

theorem Sound.commit (h : Sound decode log s) (t : String) :
    Sound decode log { s with indexes := update s.indexes t (s.indexes t).commit } := by
  have happlied : ∀ u, (update s.indexes t (s.indexes t).commit u).applied =
      (s.indexes u).applied := by
    intro u
    by_cases hu : u = t
    · subst hu
      simp
    · simp [update_of_ne hu]
  refine ⟨?_, h.batch, h.offsets, h.persisted, ?_⟩
  · intro p r rec u hr hlt
    rw [happlied]
    exact h.indexed p r rec u hr hlt
  · intro u hu
    by_cases hut : u = t
    · subst hut
      simp [SearchIndex.commit]
    · simpa [update_of_ne hut] using h.opened u hu

theorem Sound.crash (h : Sound decode log s) (hsafe : Safe decode log s .crash) :
    Sound decode log (crash s) where
  indexed p r rec t hr hlt := by
    -- The buffer is lost, but none of its operations is about this record.
    have happlied := h.indexed p r rec t hr (hlt.trans_le (h.persisted p))
    exact (present_foldl_of_ne (hsafe p r rec t hr hlt) _).mp happlied
  batch _ := List.nil_prefix
  offsets _ := le_rfl
  persisted _ := le_rfl
  opened _ _ := rfl

/-- Every step that meets `Safe` preserves the invariant. -/
theorem sound_step (s : State ν) (a : Action) (t : State ν) (h : Sound decode log s)
    (hsafe : Safe decode log s a) (hstep : step decode log s a = some t) : Sound decode log t := by
  cases a with
  | fetch p n =>
    simp only [step, Option.ite_none_right_eq_some, Option.some.injEq] at hstep
    exact hstep.2 ▸ h.fetch p n
  | process p openOk addOk =>
    simp only [step] at hstep
    split at hstep
    · cases hstep
    · rename_i r rest hb
      cases hstep
      exact h.processRecord hb (hsafe r rest hb)
  | finish p persistOk =>
    simp only [step, Option.ite_none_right_eq_some, Option.some.injEq] at hstep
    exact hstep.2 ▸ h.finishBatch p persistOk hstep.1.2
  | commit u =>
    simp only [step, Option.ite_none_right_eq_some, Option.some.injEq] at hstep
    exact hstep.2 ▸ h.commit u
  | refresh tenants =>
    cases hstep
    exact ⟨h.indexed, h.batch, h.offsets, h.persisted, h.opened⟩
  | crash =>
    cases hstep
    exact h.crash hsafe

/-- `commit_all` writes out everything the buffers hold. -/
theorem Sound.commitAll_committed (h : Sound decode log s) (t : String) :
    ((commitAll s).indexes t).committed = (s.indexes t).applied := by
  cases hopen : isOpen s t with
  | true => simp [commitAll, hopen, SearchIndex.commit]
  | false => simp [commitAll, hopen, SearchIndex.applied, h.opened t hopen]

theorem Sound.durable (h : Sound decode log s) : Durable decode log s := by
  intro p r rec t hr hlt
  right
  rw [h.commitAll_committed]
  exact h.indexed p r rec t hr (hlt.trans_le (h.persisted p))

variable (decode log)

/-- If no upsert fails and the process never crashes with an uncommitted operation for a
record below a persisted offset, no interleaving of the partitions, the commits and the
crashes leaves a consumed record out of its index. -/
theorem safe_run_durable {active : Option (List String)} {as : List Action} {s : State ν}
    (hsafe : Meets (step decode log) (Safe decode log) (initial active) as)
    (hrun : run (step decode log) (initial active) as = some s) : Durable decode log s :=
  (run_preserves sound_step (sound_initial active) hsafe hrun).durable

/-- Protobuf on the payload used below, field 7 (`record_id`) with the text `r`. -/
def decodeRecordID : List UInt8 → Option LogRecord
  | [58, 1, 114] => some ⟨"r", ""⟩
  | _ => none

/-- A topic with that one record in partition 0. -/
def oneRecord : ℕ → Partition (List UInt8)
  | 0 => ⟨[⟨0, some [58, 1, 114], []⟩], List.pairwise_singleton _ _⟩
  | _+1 => ⟨[], List.Pairwise.nil⟩

def committedThenCrash : List Action :=
  [.fetch 0 1, .process 0 true true, .finish 0 true, .commit "", .crash]

theorem safe_run_durable_committed :
    ∃ s, run (step decodeRecordID oneRecord) (initial none) committedThenCrash = some s ∧
      s.persisted 0 = 1 ∧ (s.indexes "").committed = [⟨"r", ""⟩] ∧
      Durable decodeRecordID oneRecord s := by
  suffices hsafe : Meets (step decodeRecordID oneRecord) (Safe decodeRecordID oneRecord)
      (initial none) committedThenCrash from
    ⟨_, rfl, rfl, rfl, safe_run_durable decodeRecordID oneRecord hsafe rfl⟩
  refine .cons trivial rfl (.cons (fun _ _ _ _ => rfl) rfl (.cons trivial rfl (.cons trivial rfl
    (.cons ?_ rfl trivial))))
  intro p r rec t _ _ op hop
  by_cases ht : t = ""
  · subst ht
    cases hop
  · change op ∈ (update (update (fun _ => (⟨[], []⟩ : SearchIndex)) "" _) ""
      _ t).buffer at hop
    rw [update_of_ne ht, update_of_ne ht] at hop
    cases hop

/-- The offset file is written, the Tantivy ticker has not fired yet. -/
def persistedThenCrash : List Action :=
  [.fetch 0 1, .process 0 true true, .finish 0 true, .crash]

/-- The record is in no index and, being below the persisted offset, is not fetched again. -/
theorem persisted_offset_skips_record :
    ∃ s, run (step decodeRecordID oneRecord) (initial none) persistedThenCrash = some s ∧
      ((oneRecord 0).since (s.tasks 0).offset) = [] ∧
      ¬ Durable decodeRecordID oneRecord s := by
  refine ⟨_, rfl, rfl, fun h => ?_⟩
  rcases h 0 ⟨0, some [58, 1, 114], []⟩ ⟨"r", ""⟩ "" ⟨List.mem_singleton_self _, rfl, rfl⟩
    (by decide) with ⟨d, hd, _⟩ | ⟨d, hd, _⟩
  · cases hd
  · cases hd

end CairnObs.Search
