import CairnObs.AgentBatcher

/-! What becomes of the records that are pushed into the agent's batcher, over all its calls and
over the hot reloads that replace it. -/
namespace CairnObs.AgentSync

open GuardedRuns RustVec

variable {ρ : Type} {mem : Memory}

inductive Call (ρ : Type)
  | push (record : ρ) (now : ℤ)
  | poll (now : ℤ)
  | flushAll (now : ℤ)
  | replace (maxSize : ℕ) (flushInterval now : ℤ)
  deriving DecidableEq

/-- The batcher, and the batches it has returned, each with the maximum at that time. -/
structure Ledger (ρ : Type) (mem : Memory) where
  batcher : Batcher ρ mem
  batches : List (ℕ × List ρ)

/-- What a call has returned is noted. -/
def Ledger.note (s : Ledger ρ mem) (batch : Option (List ρ)) : List (ℕ × List ρ) :=
  s.batches ++ (batch.map (fun b => (s.batcher.maxSize, b))).toList

/-- `none` is a panic or an abort. A replacement is the part of `apply_override` that deals with the
batcher. -/
def Ledger.step (s : Ledger ρ mem) : Call ρ → Option (Ledger ρ mem)
  | .push record now => (s.batcher.push now record).map (fun r => ⟨r.2, s.note r.1⟩)
  | .poll now => (s.batcher.pollTimeout now).map (fun r => ⟨r.2, s.note r.1⟩)
  | .flushAll now => (s.batcher.flushAll now).map (fun r => ⟨r.2, s.note r.1⟩)
  | .replace maxSize flushInterval now => do
    let r ← s.batcher.flushAll now
    let batcher ← Batcher.new ρ mem maxSize flushInterval now
    some ⟨batcher, s.note r.1⟩

/-- The record that a call pushes, if it does. -/
def Call.pushed : Call ρ → List ρ
  | .push record _ => [record]
  | .poll _ | .flushAll _ | .replace _ _ _ => []

variable {now : ℤ} {r : Option (List ρ) × Batcher ρ mem} {s : Ledger ρ mem} {records : List ρ}

/-- An override reaches the batcher as a replacement. -/
theorem Runtime.apply_batcher {s t : Runtime ρ mem} {o : Agents.ConfigOverride}
    (h : s.apply now o = some t) (batches : List (ℕ × List ρ)) :
    ∃ batches', Ledger.step ⟨s.batcher, batches⟩ (.replace t.settings.batchMaxSize.toNat
      t.settings.flushInterval now) = some ⟨t.batcher, batches'⟩ := by
  simp only [apply, interval_eq, Option.bind_eq_bind, Option.bind_some,
    Option.bind_eq_some_iff] at h
  obtain ⟨r, hflush, batcher, hnew, h⟩ := h
  obtain rfl := Option.some.inj h
  exact ⟨_, by rw [Ledger.step, Option.bind_eq_bind, hflush, Option.bind_some,
    Option.bind_eq_bind, hnew, Option.bind_some]⟩

/-! ### One call -/

variable {b : Batcher ρ mem} {drains : Bool}

/-- All that a drain does. -/
theorem Batcher.drainIf_cases (h : b.drainIf now drains = some r) :
    drains = false ∧ r = (none, b) ∨
    drains = true ∧ r.1 = some b.buf.items ∧ r.2.buf.items = [] ∧ r.2.maxSize = b.maxSize := by
  cases drains with
  | false => exact .inl ⟨rfl, (Option.some.inj h).symm⟩
  | true =>
    refine .inr ⟨rfl, ?_⟩
    obtain ⟨x, hdrain, rfl⟩ := Option.map_eq_some_iff.mp h
    obtain ⟨buf, hbuf, rfl⟩ := Option.map_eq_some_iff.mp hdrain
    exact ⟨rfl, (withCapacity_eq_some hbuf).1, rfl⟩

theorem Batcher.flushAll_items (h : b.flushAll now = some r) : r.2.buf.items = [] := by
  rcases drainIf_cases h with ⟨hempty, rfl⟩ | ⟨-, -, hitems, -⟩
  · simpa using hempty
  · exact hitems

/-- Nothing is lost, and the batches and the buffer keep to the maximum. -/
structure Ledger.Kept (records : List ρ) (s : Ledger ρ mem) : Prop where
  records : s.batches.flatMap Prod.snd ++ s.batcher.buf.items = records
  batches : ∀ x ∈ s.batches, x.2 ≠ [] ∧ x.2.length ≤ x.1
  buffer : s.batcher.buf.items.length < s.batcher.maxSize

/-- A drain of a buffer that may have become full, if what it returns is not empty. -/
theorem Ledger.Kept.drainIf {added : List ρ} (hs : s.Kept records)
    (hmax : b.maxSize = s.batcher.maxSize) (hitems : b.buf.items = s.batcher.buf.items ++ added)
    (hdrains : drains = true → b.buf.items ≠ [] ∧ b.buf.items.length ≤ b.maxSize)
    (hstays : drains = false → b.buf.items.length < b.maxSize) (h : b.drainIf now drains = some r) :
    Ledger.Kept (records ++ added) ⟨r.2, s.note r.1⟩ := by
  have hall : s.batches.flatMap Prod.snd ++ b.buf.items = records ++ added := by
    rw [hitems, ← List.append_assoc, hs.records]
  -- Either nothing leaves the buffer, or all of it as one batch.
  rcases Batcher.drainIf_cases h with ⟨rfl, rfl⟩ | ⟨rfl, hbatch, hempty, hsize⟩
  · refine ⟨?_, ?_, hstays rfl⟩
    · rw [note, Option.map_none, Option.toList_none, List.append_nil]
      exact hall
    · rw [note, Option.map_none, Option.toList_none, List.append_nil]
      exact hs.batches
  · obtain ⟨hne, hle⟩ := hdrains rfl
    refine ⟨?_, ?_, ?_⟩
    · rw [note, hbatch, hempty]
      simpa using hall
    · intro x hx
      rw [note, hbatch] at hx
      rcases List.mem_append.mp hx with hx | hx
      · exact hs.batches x hx
      · obtain rfl := List.mem_singleton.mp hx
        exact ⟨hne, hmax ▸ hle⟩
    · have hlen := hs.buffer
      show r.2.buf.items.length < r.2.maxSize
      rw [hempty, hsize, hmax, List.length_nil]
      omega

/-- A maximum is at least 1. -/
def Call.Positive : Call ρ → Prop
  | .replace maxSize _ _ => 1 ≤ maxSize
  | _ => True

theorem Ledger.Kept.flush (hs : s.Kept records) (hdrains : drains = true → s.batcher.buf.items ≠ [])
    (h : s.batcher.drainIf now drains = some r) : Ledger.Kept records ⟨r.2, s.note r.1⟩ := by
  have hkept := hs.drainIf rfl (List.append_nil _).symm
    (fun hd => ⟨hdrains hd, hs.buffer.le⟩) (fun _ => hs.buffer) h
  rwa [List.append_nil] at hkept

theorem ne_nil_of_isEmpty {l : List ρ} (h : (!l.isEmpty) = true) : l ≠ [] := by
  rintro rfl
  cases h

theorem Ledger.step_kept {t : Ledger ρ mem} (hs : s.Kept records) {c : Call ρ} (hc : c.Positive)
    (h : s.step c = some t) : t.Kept (records ++ c.pushed) := by
  cases c with
  | push record now =>
    obtain ⟨r, hpush, rfl⟩ := Option.map_eq_some_iff.mp h
    obtain ⟨buf, hbuf, hdrain⟩ := Option.bind_eq_some_iff.mp hpush
    have hitems := push_items hbuf
    have hlen : buf.items.length = s.batcher.buf.items.length+1 := by
      rw [hitems, List.length_append, List.length_singleton]
    have hroom := hs.buffer
    -- There was room for one record more; at the maximum the buffer is drained.
    refine hs.drainIf (b := { s.batcher with buf := buf }) rfl hitems ?_ ?_ hdrain
    · refine fun _ => ⟨?_, ?_⟩
      · show buf.items ≠ []
        rw [hitems]
        simp
      · show buf.items.length ≤ s.batcher.maxSize
        omega
    · exact fun hfew => Nat.not_le.mp (of_decide_eq_false hfew)
  | poll now =>
    obtain ⟨r, hpoll, rfl⟩ := Option.map_eq_some_iff.mp h
    rw [Call.pushed, List.append_nil]
    exact hs.flush (fun hd => ne_nil_of_isEmpty (Bool.and_eq_true_iff.mp hd).1) hpoll
  | flushAll now =>
    obtain ⟨r, hflush, rfl⟩ := Option.map_eq_some_iff.mp h
    rw [Call.pushed, List.append_nil]
    exact hs.flush ne_nil_of_isEmpty hflush
  | replace maxSize flushInterval now =>
    obtain ⟨r, hflush, h⟩ := Option.bind_eq_some_iff.mp h
    obtain ⟨b, hnew, h⟩ := Option.bind_eq_some_iff.mp h
    obtain rfl := Option.some.inj h
    rw [Call.pushed, List.append_nil]
    -- What the old batcher still held goes out first, so that the new one may start empty.
    have hflushed := hs.flush ne_nil_of_isEmpty hflush
    obtain ⟨buf, hbuf, rfl⟩ := Option.map_eq_some_iff.mp hnew
    have hempty := (withCapacity_eq_some hbuf).1
    refine ⟨?_, hflushed.batches, ?_⟩
    · have hrecords := hflushed.records
      dsimp only at hrecords ⊢
      rwa [Batcher.flushAll_items hflush, ← hempty] at hrecords
    · show buf.items.length < maxSize
      rw [hempty]
      exact hc

/-! ### Every sequence of calls -/

theorem Ledger.run_kept {t : Ledger ρ mem} (hs : s.Kept records) {calls : List (Call ρ)}
    (hcalls : ∀ c ∈ calls, c.Positive) (h : run Ledger.step s calls = some t) :
    t.Kept (records ++ calls.flatMap Call.pushed) := by
  induction calls generalizing s records with
  | nil =>
    cases h
    rwa [List.flatMap_nil, List.append_nil]
  | cons c calls ih =>
    obtain ⟨hc, hcalls⟩ := List.forall_mem_cons.mp hcalls
    obtain ⟨u, hu, hut⟩ := run_cons_some Ledger.step h
    have hkept := ih (step_kept hs hc hu) hcalls hut
    rwa [List.append_assoc, ← List.flatMap_cons] at hkept

/-- The allocator serves a new maximum. -/
def Call.Allocates (mem : Memory) : Call ρ → Prop
  | .replace maxSize _ _ => mem.Serves maxSize
  | _ => True

theorem Ledger.step_spec (hfirst : mem.Serves 4) (hs : s.batcher.Ready) (c : Call ρ) :
    ((∃ t, s.step c = some t) ↔ c.Allocates mem) ∧
      ∀ t, s.step c = some t → t.batcher.Ready := by
  have hcall {x : Option (Option (List ρ) × Batcher ρ mem)}
      (hx : ∃ r, x = some r ∧ r.2.Ready ∧ r.2.maxSize = s.batcher.maxSize) :
      (∃ t, x.map (fun r => (⟨r.2, s.note r.1⟩ : Ledger ρ mem)) = some t) ∧
        ∀ t, x.map (fun r => (⟨r.2, s.note r.1⟩ : Ledger ρ mem)) = some t → t.batcher.Ready := by
    obtain ⟨r, rfl, hready, -⟩ := hx
    refine ⟨⟨_, rfl⟩, fun t ht => ?_⟩
    obtain rfl := Option.some.inj ht
    exact hready
  cases c with
  -- Only a new buffer is allocated with a size that the caller chooses.
  | push record now =>
    obtain ⟨hexists, hready⟩ := hcall (Batcher.exists_push hfirst hs now record)
    exact ⟨iff_of_true hexists trivial, hready⟩
  | poll now | flushAll now =>
    obtain ⟨hexists, hready⟩ := hcall (Batcher.exists_drainIf hs.served (fun _ => hs) now)
    exact ⟨iff_of_true hexists trivial, hready⟩
  | replace maxSize flushInterval now =>
    have hflush : ∃ r, s.batcher.flushAll now = some r := by
      obtain ⟨r, hr, -⟩ := Batcher.exists_drainIf hs.served (fun _ => hs) now
      exact ⟨r, hr⟩
    obtain ⟨r, hflush⟩ := hflush
    have hstep : s.step (.replace maxSize flushInterval now) =
        (Batcher.new ρ mem maxSize flushInterval now).map (fun b => ⟨b, s.note r.1⟩) := by
      rw [step, Option.bind_eq_bind, hflush, Option.bind_some]
      cases Batcher.new ρ mem maxSize flushInterval now with
      | none => rfl
      | some b => rfl
    rw [hstep]
    constructor
    · simp only [Option.map_eq_some_iff, Batcher.new, Call.Allocates]
      rw [← @exists_withCapacity_iff ρ mem maxSize]
      constructor
      · rintro ⟨t, b, ⟨buf, hbuf, -⟩, -⟩
        exact ⟨buf, hbuf⟩
      · rintro ⟨buf, hbuf⟩
        exact ⟨_, _, ⟨buf, hbuf, rfl⟩, rfl⟩
    · intro t ht
      obtain ⟨b, hb, rfl⟩ := Option.map_eq_some_iff.mp ht
      exact (Batcher.new_ready hb).1

/-- The batches returned so far and the buffer are the records that were pushed, in their order;
no batch is empty or longer than the maximum in force, and the buffer is shorter than that. A
call fails only if the allocator does not serve a new maximum. -/
theorem batcher_keeps_records (hfirst : mem.Serves 4) {maxSize : ℕ} (hmax : 1 ≤ maxSize)
    {flushInterval start : ℤ} {b : Batcher ρ mem}
    (hnew : Batcher.new ρ mem maxSize flushInterval start = some b) {calls : List (Call ρ)}
    (hcalls : ∀ c ∈ calls, c.Positive) :
    (∀ t, run Ledger.step ⟨b, []⟩ calls = some t →
      t.batches.flatMap Prod.snd ++ t.batcher.buf.items = calls.flatMap Call.pushed ∧
      (∀ x ∈ t.batches, x.2 ≠ [] ∧ x.2.length ≤ x.1) ∧
      t.batcher.buf.items.length < t.batcher.maxSize) ∧
    ((∃ t, run Ledger.step ⟨b, []⟩ calls = some t) ↔ ∀ c ∈ calls, c.Allocates mem) := by
  obtain ⟨hready, hsize⟩ := Batcher.new_ready hnew
  obtain ⟨buf, hbuf, rfl⟩ := Option.map_eq_some_iff.mp hnew
  have hempty := (withCapacity_eq_some hbuf).1
  have hstart : Ledger.Kept [] (⟨⟨maxSize, flushInterval, buf, start⟩, []⟩ : Ledger ρ mem) := by
    refine ⟨hempty, fun x hx => absurd hx List.not_mem_nil, ?_⟩
    show buf.items.length < maxSize
    rw [hempty]
    exact hmax
  constructor
  · intro t ht
    have hkept := Ledger.run_kept hstart hcalls ht
    exact ⟨hkept.records, hkept.batches, hkept.buffer⟩
  · exact exists_run_iff (I := fun s : Ledger ρ mem => s.batcher.Ready)
      (fun s c t hs h => (Ledger.step_spec hfirst hs c).2 t h)
      (fun s c hs => (Ledger.step_spec hfirst hs c).1) hready calls

/-- A batcher for batches of two. -/
def pairBatcher : Batcher ℕ logRecords := ⟨2, 1000, ⟨[], 2, Nat.zero_le _, by decide⟩, 0⟩

/-- Two records make a batch, one is sent by a hot reload, and one waits for its time. -/
def reloadCalls : List (Call ℕ) :=
  [.push 1 0, .push 2 1, .push 3 2, .replace 500 2000 3, .push 4 4, .poll 5]

theorem reloadCalls_keep_records :
    ∃ t, run Ledger.step ⟨pairBatcher, []⟩ reloadCalls = some t ∧
      t.batches = [(2, [1, 2]), (2, [3])] ∧ t.batcher.buf.items = [4] ∧
      t.batches.flatMap Prod.snd ++ t.batcher.buf.items = reloadCalls.flatMap Call.pushed := by
  have hkeeps := @batcher_keeps_records ℕ logRecords (by decide) 2 (by decide) 1000 0
    pairBatcher (by rfl) reloadCalls (by simp [reloadCalls, Call.Positive])
  refine ⟨_, rfl, rfl, rfl, ?_⟩
  exact (hkeeps.1 _ rfl).1

end CairnObs.AgentSync
