import CairnObs.AgentOverride
import CairnObs.RustVec

/-! The agent's `Batcher`, and whether an override that the server has accepted can make the
agent panic. -/
namespace CairnObs.AgentSync

open GoText Agents GuardedRuns RustVec

/-! ### The batcher -/

structure Batcher (ρ : Type) (mem : Memory) where
  maxSize : ℕ
  flushInterval : ℤ
  buf : Vec ρ mem
  lastFlush : ℤ

variable {ρ : Type} {mem : Memory}

def Batcher.new (ρ : Type) (mem : Memory) (maxSize : ℕ) (flushInterval now : ℤ) :
    Option (Batcher ρ mem) :=
  (withCapacity ρ mem maxSize).map (fun buf => ⟨maxSize, flushInterval, buf, now⟩)

def Batcher.drain (b : Batcher ρ mem) (now : ℤ) : Option (List ρ × Batcher ρ mem) :=
  (withCapacity ρ mem b.maxSize).map
    (fun buf => (b.buf.items, { b with buf := buf, lastFlush := now }))

/-- A batch that is handed out, if the buffer is drained. -/
def Batcher.drainIf (b : Batcher ρ mem) (now : ℤ) (drains : Bool) :
    Option (Option (List ρ) × Batcher ρ mem) :=
  if drains then (b.drain now).map (fun r => (some r.1, r.2)) else some (none, b)

def Batcher.push (b : Batcher ρ mem) (now : ℤ) (record : ρ) :
    Option (Option (List ρ) × Batcher ρ mem) :=
  (b.buf.push record).bind (fun buf =>
    Batcher.drainIf { b with buf := buf } now (decide (b.maxSize ≤ buf.items.length)))

/-- `Instant::elapsed` is not negative. -/
def Batcher.pollTimeout (b : Batcher ρ mem) (now : ℤ) :
    Option (Option (List ρ) × Batcher ρ mem) :=
  b.drainIf now (!b.buf.items.isEmpty && decide (b.flushInterval ≤ max 0 (now-b.lastFlush)))

def Batcher.flushAll (b : Batcher ρ mem) (now : ℤ) : Option (Option (List ρ) × Batcher ρ mem) :=
  b.drainIf now (!b.buf.items.isEmpty)

/-! ### The agent -/

/-- `tokio::time::interval` panics on a period of zero. -/
def interval (period : ℤ) : Option ℤ := if period = 0 then none else some period

def minPeriod : ℤ := fromMillis 50

/-- What the loop of `run_agent` works with. -/
structure Runtime (ρ : Type) (mem : Memory) where
  settings : Settings
  extraFiles : Finset Text
  batcher : Batcher ρ mem
  ticker : ℤ
  heartbeatTicker : ℤ

/-- `apply_override`. -/
def Runtime.apply (s : Runtime ρ mem) (now : ℤ) (o : ConfigOverride) :
    Option (Runtime ρ mem) := do
  let settings := applyOverride s.settings o
  let _ ← s.batcher.flushAll now
  let batcher ← Batcher.new ρ mem settings.batchMaxSize.toNat settings.flushInterval now
  let ticker ← interval (max settings.flushInterval minPeriod)
  let heartbeatTicker ← interval (max settings.heartbeatInterval minPeriod)
  some ⟨settings, syncExtraFiles s.extraFiles o.extraFilePaths.toFinset, batcher, ticker,
    heartbeatTicker⟩

def isUint64 : Option ℤ → Bool
  | none => true
  | some n => decide (0 ≤ n ∧ n < 2^64)

/-- Whether the registry, which has these fields as `uint64`, can read the stored override. -/
def registryReads (o : ConfigOverride) : Bool :=
  isUint64 o.batchMaxSize && isUint64 o.batchFlushIntervalMS && isUint64 o.heartbeatIntervalMS

inductive Event (ρ : Type)
  | push (record : ρ) (now : ℤ)
  | poll (now : ℤ)
  | flush (now : ℤ)
  | deliver (o : StoredOverride) (now : ℤ)

/-- One arm of the loop; `none` is a panic or an abort. A check-in that the registry cannot
answer changes nothing. -/
def Runtime.step (s : Runtime ρ mem) : Event ρ → Option (Runtime ρ mem)
  | .push record now => (s.batcher.push now record).map (fun r => { s with batcher := r.2 })
  | .poll now => (s.batcher.pollTimeout now).map (fun r => { s with batcher := r.2 })
  | .flush now => (s.batcher.flushAll now).map (fun r => { s with batcher := r.2 })
  | .deliver o now => if registryReads o.override then s.apply now o.override else some s

/-! ### No panic -/

/-- Every batcher that was made: its buffer holds fewer records than it hands out at once, and
has room for them. -/
structure Batcher.Ready (b : Batcher ρ mem) : Prop where
  served : mem.Serves b.maxSize
  room : b.maxSize ≤ b.buf.capacity
  length : b.buf.items.length < max 1 b.maxSize

variable {b : Batcher ρ mem}

theorem Batcher.new_ready {maxSize : ℕ} {flushInterval now : ℤ}
    (h : Batcher.new ρ mem maxSize flushInterval now = some b) : b.Ready ∧ b.maxSize = maxSize := by
  obtain ⟨buf, hbuf, rfl⟩ := Option.map_eq_some_iff.mp h
  obtain ⟨hitems, hcapacity⟩ := withCapacity_eq_some hbuf
  refine ⟨⟨exists_withCapacity_iff.mp ⟨buf, hbuf⟩, hcapacity.ge, ?_⟩, rfl⟩
  simp [hitems]

/-- A drain allocates what the batcher was made with. -/
theorem Batcher.exists_drain (h : mem.Serves b.maxSize) (now : ℤ) :
    ∃ b', b.drain now = some (b.buf.items, b') ∧ b'.Ready ∧ b'.maxSize = b.maxSize := by
  obtain ⟨buf, hbuf⟩ := exists_withCapacity_iff.mpr h
  obtain ⟨hitems, hcapacity⟩ := withCapacity_eq_some hbuf
  refine ⟨{ b with buf := buf, lastFlush := now }, ?_, ⟨h, hcapacity.ge, ?_⟩, rfl⟩
  · rw [drain, hbuf, Option.map_some]
  · simp [hitems]

theorem Batcher.exists_drainIf (hserved : mem.Serves b.maxSize) {drains : Bool}
    (hready : drains = false → b.Ready) (now : ℤ) :
    ∃ r, b.drainIf now drains = some r ∧ r.2.Ready ∧ r.2.maxSize = b.maxSize := by
  cases drains with
  | false => exact ⟨(none, b), rfl, hready rfl, rfl⟩
  | true =>
    obtain ⟨b', hdrain, hb', hsize⟩ := exists_drain hserved now
    exact ⟨(some b.buf.items, b'), by rw [drainIf, if_pos rfl, hdrain, Option.map_some], hb', hsize⟩

theorem Batcher.exists_push (hfirst : mem.Serves 4) (hb : b.Ready) (now : ℤ) (record : ρ) :
    ∃ r, b.push now record = some r ∧ r.2.Ready ∧ r.2.maxSize = b.maxSize := by
  have hlength := hb.length
  have hroom := hb.room
  have hspace : b.buf.items.length < b.buf.capacity ∨ b.buf.capacity = 0 ∧ mem.Serves 4 := by
    by_cases hcapacity : b.buf.capacity = 0
    · exact .inr ⟨hcapacity, hfirst⟩
    · exact .inl (by omega)
  obtain ⟨buf, hbuf, hitems, hgrows⟩ := RustVec.exists_push record hspace
  have hfew (h : decide (b.maxSize ≤ buf.items.length) = false) :
      Batcher.Ready { b with buf := buf } := by
    refine ⟨hb.served, hroom.trans hgrows, ?_⟩
    have hlt := of_decide_eq_false h
    show buf.items.length < max 1 b.maxSize
    omega
  obtain ⟨r, hr, hready, hsize⟩ :=
    @exists_drainIf ρ mem { b with buf := buf } hb.served _ hfew now
  exact ⟨r, by rw [push, hbuf, Option.bind_some, hr], hready, hsize⟩

/-- The batcher was made for the settings in effect. -/
structure Runtime.Ready (s : Runtime ρ mem) : Prop where
  batcher : s.batcher.Ready
  maxSize : s.batcher.maxSize = s.settings.batchMaxSize.toNat

/-- The allocator serves the batch size of an override, if it sets one. -/
def Fits (mem : Memory) (o : ConfigOverride) : Prop :=
  ∀ n, o.batchMaxSize = some n → mem.Serves n.toNat

theorem interval_eq (period : ℤ) :
    interval (max period minPeriod) = some (max period minPeriod) := by
  refine if_neg ?_
  have hmin : 0 < minPeriod := by decide
  omega

theorem Runtime.apply_eq_some {s t : Runtime ρ mem} {now : ℤ} {o : ConfigOverride}
    (h : s.apply now o = some t) :
    t.Ready ∧ mem.Serves (applyOverride s.settings o).batchMaxSize.toNat := by
  simp only [apply, interval_eq, Option.bind_eq_bind, Option.bind_some,
    Option.bind_eq_some_iff] at h
  obtain ⟨-, -, batcher, hnew, h⟩ := h
  obtain rfl := Option.some.inj h
  obtain ⟨hready, hsize⟩ := Batcher.new_ready hnew
  exact ⟨⟨hready, hsize⟩, hsize ▸ hready.served⟩

theorem Runtime.exists_apply_iff {s : Runtime ρ mem} (hs : s.Ready) (now : ℤ)
    (o : ConfigOverride) : (∃ t, s.apply now o = some t) ↔ Fits mem o := by
  constructor
  · rintro ⟨t, ht⟩ n hn
    simpa [applyOverride, hn] using (apply_eq_some ht).2
  · intro hfits
    have hserved : mem.Serves (applyOverride s.settings o).batchMaxSize.toNat := by
      cases hn : o.batchMaxSize with
      | none => simpa [applyOverride, hn, ← hs.maxSize] using hs.batcher.served
      | some n => simpa [applyOverride, hn] using hfits n hn
    have hflush : ∃ r, s.batcher.flushAll now = some r := by
      obtain ⟨r, hr, -⟩ := Batcher.exists_drainIf hs.batcher.served (fun _ => hs.batcher) now
      exact ⟨r, hr⟩
    have hbuf : ∃ buf, withCapacity ρ mem (applyOverride s.settings o).batchMaxSize.toNat =
        some buf := exists_withCapacity_iff.mpr hserved
    obtain ⟨r, hflush⟩ := hflush
    obtain ⟨buf, hbuf⟩ := hbuf
    simp [apply, hflush, Batcher.new, hbuf, interval_eq]

/-- What an event asks of the agent. -/
def Event.Fits (mem : Memory) : Event ρ → Prop
  | .deliver o _ => registryReads o.override = true → AgentSync.Fits mem o.override
  | _ => True

theorem Runtime.step_spec (hfirst : mem.Serves 4) {s : Runtime ρ mem} (hs : s.Ready) (e : Event ρ) :
    ((∃ t, s.step e = some t) ↔ e.Fits mem) ∧ ∀ t, s.step e = some t → t.Ready := by
  have hbatcher {x : Option (Option (List ρ) × Batcher ρ mem)}
      (hx : ∃ r, x = some r ∧ r.2.Ready ∧ r.2.maxSize = s.batcher.maxSize) :
      (∃ t, x.map (fun r => { s with batcher := r.2 }) = some t) ∧
        ∀ t, x.map (fun r => { s with batcher := r.2 }) = some t → t.Ready := by
    obtain ⟨r, rfl, hready, hsize⟩ := hx
    refine ⟨⟨_, rfl⟩, fun t ht => ?_⟩
    obtain rfl := Option.some.inj ht
    exact ⟨hready, hsize.trans hs.maxSize⟩
  cases e with
  | push record now =>
    obtain ⟨hexists, hready⟩ := hbatcher (Batcher.exists_push hfirst hs.batcher now record)
    exact ⟨iff_of_true hexists trivial, hready⟩
  | poll now | flush now =>
    obtain ⟨hexists, hready⟩ :=
      hbatcher (Batcher.exists_drainIf hs.batcher.served (fun _ => hs.batcher) now)
    exact ⟨iff_of_true hexists trivial, hready⟩
  | deliver o now =>
    cases hreads : registryReads o.override with
    | false =>
      have hstep : s.step (.deliver o now) = some s := if_neg (by simp [hreads])
      refine ⟨iff_of_true ⟨s, hstep⟩ (fun h => absurd h (by simp [hreads])), fun t ht => ?_⟩
      obtain rfl := Option.some.inj (hstep.symm.trans ht)
      exact hs
    | true =>
      have hstep : s.step (.deliver o now) = s.apply now o.override := if_pos hreads
      rw [hstep]
      refine ⟨(exists_apply_iff hs now o.override).trans ?_, fun t ht => (apply_eq_some ht).1⟩
      exact ⟨fun h _ => h, fun h => h hreads⟩

/-- The Go type of these fields. -/
def Int64Fields (o : ConfigOverride) : Prop :=
  ∀ n, o.batchMaxSize = some n ∨ o.batchFlushIntervalMS = some n ∨ o.heartbeatIntervalMS = some n →
    n < 2^63

theorem isUint64_of_bound {bound : ℤ} (hbound : 0 ≤ bound) {field : Option ℤ}
    (hbelow : belowBound bound field = false) (h64 : ∀ n, field = some n → n < 2^63) :
    isUint64 field = true := by
  cases field with
  | none => rfl
  | some n =>
    have hge := of_decide_eq_false hbelow
    have hlt := h64 n rfl
    exact decide_eq_true ⟨by omega, by omega⟩

/-- The registry reads whatever the server has accepted. -/
theorem registryReads_of_valid {o : ConfigOverride} (hvalid : validateOverride o = none)
    (h64 : Int64Fields o) : registryReads o = true := by
  have hall := List.findSome?_eq_none_iff.mp hvalid
  have hfield (err : OverrideError) (bad : Bool)
      (hmem : failsWith err bad = none) : bad = false := by
    simpa [failsWith] using hmem
  have hsize := hfield _ _ (hall (failsWith .batchMaxSize (belowBound 1 o.batchMaxSize)) (by simp))
  have hflush := hfield _ _
    (hall (failsWith .batchFlushIntervalMS (belowBound 100 o.batchFlushIntervalMS)) (by simp))
  have hbeat := hfield _ _
    (hall (failsWith .heartbeatIntervalMS (belowBound 5000 o.heartbeatIntervalMS)) (by simp))
  rw [registryReads, isUint64_of_bound (by decide) hsize (fun n hn => h64 n (.inl hn)),
    isUint64_of_bound (by decide) hflush (fun n hn => h64 n (.inr (.inl hn))),
    isUint64_of_bound (by decide) hbeat (fun n hn => h64 n (.inr (.inr hn)))]
  rfl

theorem no_panic_iff (hfirst : mem.Serves 4) {s : Runtime ρ mem} (hs : s.Ready)
    {es : List (Event ρ)} (h64 : ∀ o now, .deliver o now ∈ es → Int64Fields o.override) :
    (∃ t, run Runtime.step s es = some t) ↔
      ∀ o now, .deliver o now ∈ es → Fits mem o.override := by
  have hrun := exists_run_iff (C := Event.Fits mem)
    (fun s e t hs h => (Runtime.step_spec hfirst hs e).2 t h)
    (fun s e hs => (Runtime.step_spec hfirst hs e).1) hs es
  rw [hrun]
  constructor
  · exact fun h o now hmem => h _ hmem (registryReads_of_valid o.valid (h64 o now hmem))
  · intro h e he
    cases e with
    | deliver o now => exact fun _ => h o now he
    | push | poll | flush => trivial

/-- `size_of::<LogRecord>()` is 160: a timestamp, a severity, four strings and a map. No
allocator serves more than this one. -/
def logRecords : Memory := ⟨160, isizeMax, le_refl _⟩

/-- An agent that has just started with its defaults. -/
def started : Runtime ℕ logRecords where
  settings := defaultSettings
  extraFiles := ∅
  batcher := ⟨500, fromMillis 2000, ⟨[], 500, Nat.zero_le _, by decide⟩, 0⟩
  ticker := fromMillis 2000
  heartbeatTicker := fromMillis 60000

theorem batchOverride_no_panic :
    ∃ t, run Runtime.step started [.push 7 1, .deliver batchOverride 2, .push 8 3, .poll 4] =
      some t := by
  have hdelivered {o : StoredOverride} {now : ℤ}
      (h : Event.deliver o now ∈
        [Event.push 7 1, .deliver batchOverride 2, .push 8 3, .poll 4]) : o = batchOverride := by
    simp at h
    exact h.1
  refine (no_panic_iff (by decide) ⟨⟨by decide, le_refl _, by decide⟩, rfl⟩ ?_).mpr ?_
  · intro o now h n hn
    obtain rfl := hdelivered h
    rcases hn with hn | hn | hn
    · cases hn
      decide
    · cases hn
    · cases hn
  · intro o now h n hn
    obtain rfl := hdelivered h
    cases hn
    decide

/-- The largest batch size that the server accepts. -/
def largestBatch : StoredOverride where
  override := { noOverride with batchMaxSize := some (2^63-1) }
  valid := by decide +kernel

theorem largestBatch_panics : run Runtime.step started [.deliver largestBatch 1] = none := by
  decide +kernel

end CairnObs.AgentSync
