import CairnObs.IngestConsumer

/-! At-least-once delivery of the ingest consumer: which runs acknowledge only what has
been written. -/
namespace CairnObs.Ingest
open GuardedRuns

variable {ν ρ : Type*} (unmarshal : ν → Option ρ) (batchMaxSize : ℤ) (log : Partition ν)

def recordOf (m : Message ν) : Option (Record ρ) :=
  (unmarshal m.value).map (fun rec => ⟨tenantIDFromHeaders m.headers, rec⟩)

/-- The message has been part of a `WriteBatch` call that returned success, with its own
record at its place in the batch. -/
def Written (s : State ν ρ) (m : Message ν) : Prop :=
  ∃ b ∈ s.writes, ∃ (i : ℕ) (rec : Record ρ), b.messages[i]? = some m ∧
    recordOf unmarshal m = some rec ∧ b.records[i]? = some rec

/-- No parseable message is acknowledged before it is written. -/
def AtLeastOnce (s : State ν ρ) : Prop :=
  ∀ m ∈ log.messages, m.offset < s.committed → (unmarshal m.value).isSome = true →
    Written unmarshal s m

/-- A commit succeeds only if no `WriteBatch` has failed since the process started, and
that of an unparseable message only if nothing is buffered. -/
def Safe (s : State ν ρ) : Action → Prop
  | .commitMessages true => s.writeFailed = false
  | .receive true => ∀ m, s.fetched = some m → unmarshal m.value = none →
      s.writeFailed = false ∧ s.records = []
  | _ => True

/-- What the loop keeps: buffers in step with each other and in offset order, and, as long
as no write has failed, every message behind the fetch position accounted for. -/
structure Sound (s : State ν ρ) : Prop where
  aligned : s.pending.map (recordOf unmarshal) = s.records.map some
  order : (s.pending ++ s.fetched.toList).Pairwise (fun a b => a.offset < b.offset)
  below : ∀ m ∈ s.pending ++ s.fetched.toList, m.offset < s.position
  atLeastOnce : AtLeastOnce unmarshal log s
  accounted : s.writeFailed = false → ∀ m ∈ log.messages, m.offset < s.position →
    (unmarshal m.value).isSome = true →
      Written unmarshal s m ∨ m ∈ s.pending ∨ s.fetched = some m
  written : ∀ r, s.phase = .committing r → ∀ m ∈ s.pending, Written unmarshal s m

theorem lt_commitMessages {x c : ℕ} {ms : List (Message ν)} :
    x < commitMessages c ms ↔ x < c ∨ ∃ m ∈ ms, x ≤ m.offset := by
  induction ms generalizing c with
  | nil => simp [commitMessages]
  | cons m ms ih =>
    have hc : commitMessages c (m :: ms) = commitMessages (max c (m.offset+1)) ms := rfl
    rw [hc, ih]
    simp only [lt_sup_iff, Order.lt_add_one_iff, List.mem_cons, exists_eq_or_imp, or_assoc]

variable {m : Message ν} {s : State ν ρ}

/-- `FetchMessage` skips nothing. -/
theorem fetch_spec {log : Partition ν} {position : ℕ} (h : log.fetch position = some m) :
    position ≤ m.offset ∧ ∀ m' ∈ log.messages, m'.offset < m.offset+1 →
      m'.offset < position ∨ m' = m := by
  obtain ⟨hm, as, bs, hlog, has⟩ := List.find?_eq_some_iff_append.mp h
  refine ⟨of_decide_eq_true hm, fun m' hm' hlt => ?_⟩
  have hinc := log.increasing
  rw [hlog] at hm' hinc
  rcases List.mem_append.mp hm' with hmem | hmem
  · have := has m' hmem
    left
    simpa using this
  · rcases List.mem_cons.mp hmem with rfl | hmem
    · exact .inr rfl
    · have hgt := (List.pairwise_cons.mp (List.pairwise_append.mp hinc).2.1).1 m' hmem
      omega

variable {unmarshal log}

/-- The written batch covers its messages. -/
theorem written_of_batch {b : Batch ν ρ} (hb : b ∈ s.writes)
    (haligned : b.messages.map (recordOf unmarshal) = b.records.map some) (hm : m ∈ b.messages) :
    Written unmarshal s m := by
  obtain ⟨i, hi⟩ := List.mem_iff_getElem?.mp hm
  have hrec : (b.records.map some)[i]? = some (recordOf unmarshal m) := by
    rw [← haligned, List.getElem?_map, hi, Option.map_some]
  rw [List.getElem?_map, Option.map_eq_some_iff] at hrec
  obtain ⟨rec, hget, hrec⟩ := hrec
  exact ⟨b, hb, i, rec, hi, hrec.symm, hget⟩

theorem Written.mono {t : State ν ρ} (h : s.writes ⊆ t.writes) (hm : Written unmarshal s m) :
    Written unmarshal t m := by
  obtain ⟨b, hb, hrest⟩ := hm
  exact ⟨b, h hb, hrest⟩

theorem sound_initial : Sound unmarshal log (initial : State ν ρ) where
  aligned := rfl
  order := List.Pairwise.nil
  below := nofun
  atLeastOnce _ _ h := absurd h (Nat.not_lt_zero _)
  accounted _ _ _ h := absurd h (Nat.not_lt_zero _)
  written := nofun

theorem Sound.flush (h : Sound unmarshal log s) (r : Bool) : Sound unmarshal log (flush r s) := by
  simp only [Ingest.flush]
  split
  · exact ⟨h.aligned, h.order, h.below, h.atLeastOnce, h.accounted, by cases r <;> nofun⟩
  · exact ⟨h.aligned, h.order, h.below, h.atLeastOnce, h.accounted, nofun⟩

theorem Sound.fetch (h : Sound unmarshal log s) (hnone : s.fetched = none)
    (hm : log.fetch s.position = some m) :
    Sound unmarshal log { s with fetched := some m, position := m.offset+1 } := by
  obtain ⟨hpos, hskip⟩ := fetch_spec hm
  have hbelow : ∀ p ∈ s.pending, p.offset < s.position := fun p hp =>
    h.below p (List.mem_append_left _ hp)
  have hpending : s.pending.Pairwise (fun a b => a.offset < b.offset) :=
    (List.pairwise_append.mp h.order).1
  refine ⟨h.aligned, ?_, ?_, h.atLeastOnce, ?_, h.written⟩
  · simp only [Option.toList_some]
    rw [List.pairwise_append]
    refine ⟨hpending, List.pairwise_singleton _ _, fun p hp m' hm' => ?_⟩
    cases List.mem_singleton.mp hm'
    exact (hbelow p hp).trans_le hpos
  · intro p hp
    rcases List.mem_append.mp hp with hp | hp
    · exact ((hbelow p hp).trans_le hpos).trans (Nat.lt_succ_self _)
    · simp only [Option.toList_some, List.mem_singleton] at hp
      rw [hp]
      exact Nat.lt_succ_self _
  · intro hok m' hm' hlt hparse
    rcases hskip m' hm' hlt with hold | rfl
    · rcases h.accounted hok m' hm' hold hparse with hw | hp | hf
      · exact .inl hw
      · exact .inr (.inl hp)
      · rw [hnone] at hf
        cases hf
    · exact .inr (.inr rfl)

/-- The buffered messages all come before the fetched one. -/
theorem Sound.pending_lt (h : Sound unmarshal log s) (hm : s.fetched = some m) :
    ∀ p ∈ s.pending, p.offset < m.offset := by
  intro p hp
  exact (List.pairwise_append.mp h.order).2.2 p hp m (by simp [hm])

theorem Sound.drop_fetched (h : Sound unmarshal log s) (hm : s.fetched = some m)
    (hbad : unmarshal m.value = none) : Sound unmarshal log { s with fetched := none } := by
  refine ⟨h.aligned, ?_, ?_, h.atLeastOnce, ?_, h.written⟩
  · simpa using (List.pairwise_append.mp h.order).1
  · intro p hp
    exact h.below p (List.mem_append_left _ (by simpa using hp))
  · intro hok m' hm' hlt hparse
    rcases h.accounted hok m' hm' hlt hparse with hw | hp | hf
    · exact .inl hw
    · exact .inr (.inl hp)
    · cases hm.symm.trans hf
      rw [hbad] at hparse
      cases hparse

/-- Committing an unparseable message with empty buffers acknowledges only messages that
are written already. -/
theorem Sound.commit_poison (h : Sound unmarshal log s) (hm : s.fetched = some m)
    (hbad : unmarshal m.value = none) (hok : s.writeFailed = false) (hempty : s.records = []) :
    AtLeastOnce unmarshal log { s with committed := commitMessages s.committed [m] } := by
  have hpending : s.pending = [] := by
    have := h.aligned
    rwa [hempty, List.map_nil, List.map_eq_nil_iff] at this
  have hpos : m.offset < s.position := h.below m (by simp [hm])
  intro m' hm' hlt hparse
  rcases lt_commitMessages.mp hlt with hold | ⟨p, hp, hle⟩
  · exact h.atLeastOnce m' hm' hold hparse
  · cases List.mem_singleton.mp hp
    rcases h.accounted hok m' hm' (hle.trans_lt hpos) hparse with hw | hp | hf
    · exact hw
    · rw [hpending] at hp
      cases hp
    · cases hm.symm.trans hf
      rw [hbad] at hparse
      cases hparse

/-- So does the commit after a write: what was fetched in between is newer than the batch. -/
theorem Sound.commit_pending (h : Sound unmarshal log s) (hok : s.writeFailed = false)
    (hw : ∀ p ∈ s.pending, Written unmarshal s p) :
    AtLeastOnce unmarshal log { s with committed := commitMessages s.committed s.pending } := by
  intro m hm hlt hparse
  rcases lt_commitMessages.mp hlt with hold | ⟨p, hp, hle⟩
  · exact h.atLeastOnce m hm hold hparse
  · -- `m` is at or before a buffered message, so the fetched one comes after both.
    have hpos : p.offset < s.position := h.below p (List.mem_append_left _ hp)
    rcases h.accounted hok m hm (hle.trans_lt hpos) hparse with hwm | hpm | hf
    · exact hwm
    · exact hw m hpm
    · exact absurd hle (not_le.mpr (h.pending_lt hf p hp))

theorem Sound.receive (h : Sound unmarshal log s) (hphase : s.phase = .select)
    (hm : s.fetched = some m) {ok : Bool} (hsafe : Safe unmarshal s (.receive ok)) :
    Sound unmarshal log (receive unmarshal batchMaxSize m ok s) := by
  cases hparse : unmarshal m.value with
  | none =>
    have hdrop := h.drop_fetched hm hparse
    simp only [Ingest.receive, hparse]
    cases ok with
    | false => exact hdrop
    | true =>
      obtain ⟨hok, hempty⟩ := hsafe m hm hparse
      exact { hdrop with atLeastOnce := h.commit_poison hm hparse hok hempty }
  | some rec =>
    have happend : Sound unmarshal log { s with
        fetched := none
        records := s.records ++ [⟨tenantIDFromHeaders m.headers, rec⟩]
        pending := s.pending ++ [m] } := by
      refine ⟨?_, ?_, ?_, h.atLeastOnce, ?_, ?_⟩
      · simp [h.aligned, recordOf, hparse]
      · simpa [hm] using h.order
      · simpa [hm] using h.below
      · intro hok m' hm' hlt hp
        rcases h.accounted hok m' hm' hlt hp with hw | hp | hf
        · exact .inl hw
        · exact .inr (.inl (List.mem_append_left _ hp))
        · cases hm.symm.trans hf
          exact .inr (.inl (by simp))
      · intro r hr
        rw [hphase] at hr
        cases hr
    simp only [Ingest.receive, hparse]
    split
    · exact happend.flush false
    · exact happend

theorem Sound.restart (h : Sound unmarshal log s) :
    Sound unmarshal log (restart s) where
  aligned := rfl
  order := List.Pairwise.nil
  below := nofun
  atLeastOnce := h.atLeastOnce
  accounted _ m hm hlt hparse := .inl (h.atLeastOnce m hm hlt hparse)
  written := nofun

/-- Clearing the buffers is sound once they are written or a failure is on record. -/
theorem Sound.endFlush (h : Sound unmarshal log s) (r : Bool)
    (hdone : s.writeFailed = false → ∀ p ∈ s.pending, Written unmarshal s p) :
    Sound unmarshal log (endFlush r s) := by
  refine ⟨rfl, ?_, ?_, h.atLeastOnce, ?_, ?_⟩
  · exact (List.pairwise_append.mp h.order).2.1
  · exact fun m hm => h.below m (List.mem_append_right _ (by simpa [Ingest.endFlush] using hm))
  · intro hok m hm hlt hparse
    rcases h.accounted hok m hm hlt hparse with hw | hp | hf
    · exact .inl hw
    · exact .inl (hdone hok m hp)
    · exact .inr (.inr hf)
  · intro r' hr'
    cases r <;> cases hr'

theorem Sound.writeBatch (h : Sound unmarshal log s) (r : Bool) :
    Sound unmarshal log { s with
      phase := .committing r, writes := s.writes ++ [⟨s.records, s.pending⟩] } := by
  have hmono : ∀ {m}, Written unmarshal s m → Written unmarshal { s with
      phase := .committing r, writes := s.writes ++ [⟨s.records, s.pending⟩] } m :=
    fun hw => hw.mono (List.subset_append_left _ _)
  refine ⟨h.aligned, h.order, h.below, ?_, ?_, ?_⟩
  · exact fun m hm hlt hparse => hmono (h.atLeastOnce m hm hlt hparse)
  · exact fun hok m hm hlt hparse => (h.accounted hok m hm hlt hparse).imp_left hmono
  · exact fun _ _ m hm => written_of_batch (b := ⟨s.records, s.pending⟩) (by simp) h.aligned hm

theorem Sound.fail (h : Sound unmarshal log s) (r : Bool) :
    Sound unmarshal log { Ingest.endFlush r s with writeFailed := true } := by
  have hfailed : Sound unmarshal log { s with writeFailed := true } :=
    ⟨h.aligned, h.order, h.below, h.atLeastOnce, nofun, h.written⟩
  exact hfailed.endFlush r nofun

/-- The buffers are cleared whether or not the commit went through: they are written. -/
theorem Sound.commitMessages (h : Sound unmarshal log s) {r ok : Bool}
    (hphase : s.phase = .committing r) (hsafe : Safe unmarshal s (.commitMessages ok)) :
    Sound unmarshal log (Ingest.endFlush r { s with
      committed := if ok then Ingest.commitMessages s.committed s.pending else s.committed }) := by
  have hw := h.written r hphase
  cases ok with
  | false => exact h.endFlush r (fun _ => hw)
  | true =>
    have hcommit : Sound unmarshal log
        { s with committed := Ingest.commitMessages s.committed s.pending } :=
      { h with atLeastOnce := h.commit_pending hsafe hw }
    exact hcommit.endFlush r (fun _ => hw)

/-- Every step that meets `Safe` preserves the invariant. -/
theorem sound_step (s : State ν ρ) (a : Action) (t : State ν ρ) (h : Sound unmarshal log s)
    (hsafe : Safe unmarshal s a) (hstep : step unmarshal batchMaxSize log s a = some t) :
    Sound unmarshal log t := by
  cases a with
  | fetch =>
    simp only [step] at hstep
    split at hstep
    · rename_i m hnone hm
      cases hstep
      exact h.fetch hnone hm
    · cases hstep
  | receive ok =>
    simp only [step] at hstep
    split at hstep
    · rename_i m hphase hm
      cases hstep
      exact h.receive batchMaxSize hphase hm hsafe
    · cases hstep
  | tick =>
    simp only [step, Option.ite_none_right_eq_some, Option.some.injEq] at hstep
    exact hstep.2 ▸ h.flush false
  | done =>
    simp only [step, Option.ite_none_right_eq_some, Option.some.injEq] at hstep
    exact hstep.2 ▸ h.flush true
  | fetchError =>
    simp only [step, Option.ite_none_right_eq_some, Option.some.injEq] at hstep
    exact hstep.2 ▸ h.flush true
  | writeBatch ok =>
    simp only [step] at hstep
    split at hstep
    · rename_i r _
      cases ok with
      | true =>
        cases hstep
        exact h.writeBatch r
      | false =>
        cases hstep
        exact h.fail r
    · cases hstep
  | commitMessages ok =>
    simp only [step] at hstep
    split at hstep
    · rename_i r hphase
      cases hstep
      exact h.commitMessages hphase hsafe
    · cases hstep
  | restart =>
    cases hstep
    exact h.restart

variable (unmarshal log)

/-- If no commit succeeds once a `WriteBatch` of the process has failed, and no unparseable
message is committed over buffered ones, then every acknowledged parseable message has been
written, whatever else happens and wherever the process crashes. -/
theorem safe_run_at_least_once {as : List Action} {s : State ν ρ}
    (hsafe : Meets (step unmarshal batchMaxSize log) (Safe unmarshal) initial as)
    (hrun : run (step unmarshal batchMaxSize log) initial as = some s) :
    AtLeastOnce unmarshal log s :=
  (run_preserves (sound_step batchMaxSize) sound_initial hsafe hrun).atLeastOnce

/-- Protobuf on the payloads used below: the empty one is a `LogRecord` with every field at
its default, and `0xff` breaks off inside a tag. -/
def unmarshalEmpty : List UInt8 → Option Unit
  | [] => some ()
  | _ :: _ => none

def twoMessages (first second : List UInt8) : Partition (List UInt8) where
  messages := [⟨0, first, []⟩, ⟨1, second, []⟩]
  increasing := by simp

/-- The first message is written and committed, the process crashes with the second one
in a batch that fails, and the next process writes it. -/
def redeliveredRun : List Action :=
  [.fetch, .receive true, .writeBatch true, .commitMessages true, .fetch, .receive true,
    .writeBatch false, .restart, .fetch, .receive true, .writeBatch true, .commitMessages true]

theorem safe_run_at_least_once_redelivered :
    ∃ s, run (step unmarshalEmpty 1 (twoMessages [] [])) initial redeliveredRun = some s ∧
      s.committed = 2 ∧ AtLeastOnce unmarshalEmpty (twoMessages [] []) s := by
  suffices hsafe : Meets (step unmarshalEmpty 1 (twoMessages [] [])) (Safe unmarshalEmpty) initial
      redeliveredRun from
    ⟨_, rfl, rfl, safe_run_at_least_once unmarshalEmpty 1 (twoMessages [] []) hsafe rfl⟩
  refine .cons trivial rfl (.cons ?_ rfl (.cons trivial rfl (.cons rfl rfl (.cons trivial rfl
    (.cons ?_ rfl (.cons trivial rfl (.cons trivial rfl (.cons trivial rfl (.cons ?_ rfl
      (.cons trivial rfl (.cons rfl rfl trivial)))))))))))
  -- Each received message parses, so its commit is not one of an unparseable one.
  all_goals
    intro m hm hbad
    cases hm
    cases hbad

/-- A batch fails and is dropped; the next one succeeds and its commit covers both. -/
def droppedBatchRun : List Action :=
  [.fetch, .receive true, .writeBatch false, .fetch, .receive true, .writeBatch true,
    .commitMessages true]

/-- A parsed message waits in the buffer while the unparseable one after it is committed. -/
def poisonRun : List Action := [.fetch, .receive true, .fetch, .receive true]

/-- Both ways to acknowledge a message that was never written; after either, a restart
does not fetch it again. -/
theorem dropped_batch_acknowledged :
    (∃ s, run (step unmarshalEmpty 1 (twoMessages [] [])) initial droppedBatchRun = some s ∧
      ¬ AtLeastOnce unmarshalEmpty (twoMessages [] []) s ∧
      (twoMessages [] []).fetch (restart s).position = none) ∧
    ∃ s, run (step unmarshalEmpty 2 (twoMessages [] [255])) initial poisonRun = some s ∧
      ¬ AtLeastOnce unmarshalEmpty (twoMessages [] [255]) s ∧
      (twoMessages [] [255]).fetch (restart s).position = none := by
  refine ⟨⟨_, rfl, fun h => ?_, rfl⟩, ⟨_, rfl, fun h => ?_, rfl⟩⟩
  · obtain ⟨b, hb, i, rec, hm, _⟩ := h ⟨0, [], []⟩ (List.mem_cons_self ..) (by decide) rfl
    cases List.mem_singleton.mp hb
    match i, hm with
    | 0, hm => cases hm
  · obtain ⟨b, hb, _⟩ := h ⟨0, [], []⟩ (List.mem_cons_self ..) (by decide) rfl
    cases hb

end CairnObs.Ingest
