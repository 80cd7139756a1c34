import CairnObs.QueryNarrowing

/-! The cost check `ai/costguard` makes of a compiled pipe plan, and how it answers to a
narrower window of time. -/
namespace CairnObs.QueryLang

inductive Level
  | ok | warn | reject
  deriving DecidableEq, Repr

def Level.rank : Level → ℕ
  | .ok => 0
  | .warn => 1
  | .reject => 2

instance : LE Level := ⟨fun a b => a.rank ≤ b.rank⟩

instance (a b : Level) : Decidable (a ≤ b) := inferInstanceAs (Decidable (a.rank ≤ b.rank))

def maxLevel (a b : Level) : Level := if a.rank < b.rank then b else a

structure Assessment where
  level : Level
  reasons : List String
  deriving DecidableEq, Repr

def maxReasonableSpan : ℤ := 90*24*3600*second

def unboundedAggregation : String :=
  "no time range filter, and this query aggregates -- every matching row across the " ++
    "table's entire history must be scanned to compute the aggregate, regardless of how " ++
    "small the output is"

def unboundedRows : String :=
  "no time range filter -- results are capped (explicitly, or by the default 100-row " ++
    "limit), but ClickHouse may still need to scan well beyond that many rows to find them " ++
    "without a time bound to narrow the search"

def textPrefiltered : String :=
  "the free-text search stage is bounded by the existing 5,000-record Tantivy prefilter " ++
    "cap regardless of time range, which partially limits how bad this is, but doesn't " ++
    "remove the underlying ClickHouse-side cost"

def longSpan : String :=
  "time range spans more than 90 days -- this may be slow depending on data volume"

/-- `plan.TimeRange` is set and one of its ends is. -/
def Plan.hasTimeBound (plan : Plan) : Bool :=
  plan.timeRange.any (fun r => r.from_ ≠ zeroTime || r.to_ ≠ zeroTime)

/-- The branch of a plan with a time bound: only one with both ends has a span. -/
def assessSpan (r : TimeRange) : Assessment :=
  if r.from_ ≠ zeroTime ∧ r.to_ ≠ zeroTime ∧ maxReasonableSpan < timeSub r.to_ r.from_ then
    ⟨maxLevel .ok .warn, [longSpan]⟩
  else ⟨.ok, []⟩

def assessUnbounded (plan : Plan) : Assessment :=
  let text := if plan.textSearch = [] then [] else [textPrefiltered]
  if plan.aggregation.isSome then ⟨.reject, unboundedAggregation :: text⟩
  else ⟨.warn, unboundedRows :: text⟩

/-- `Assess` of a plan without `RawSQL`. -/
def assessIR (plan : Plan) : Assessment :=
  if plan.hasTimeBound then assessSpan (plan.timeRange.getD ⟨zeroTime, zeroTime⟩)
  else assessUnbounded plan

/-! ### Windows -/

/-- The instants between two ends, either of which may be missing. -/
def window (lo hi : Option ℤ) : Set ℤ := {t | (∀ a ∈ lo, a ≤ t) ∧ ∀ b ∈ hi, t ≤ b}

/-- A window inside one with a lower end has a lower end, and not an earlier one unless it is
empty. -/
theorem window_subset_lower {lo hi hi' : Option ℤ} {a : ℤ}
    (h : window lo hi ⊆ window (some a) hi') :
    ∃ c, lo = some c ∧ ∀ b ∈ hi, c ≤ b → a ≤ c := by
  cases lo with
  | none =>
    -- Without a lower end the window reaches below `a`.
    exfalso
    have hmem : (hi.getD a ⊓ a)-1 ∈ window none hi := by
      refine ⟨by simp, ?_⟩
      intro b hb
      rw [Option.mem_def.mp hb, Option.getD_some]
      have hle : b ⊓ a ≤ b := inf_le_left
      omega
    have hle := (h hmem).1 a rfl
    have hinf : hi.getD a ⊓ a ≤ a := inf_le_right
    omega
  | some c =>
    refine ⟨c, rfl, ?_⟩
    intro b hb hcb
    have hmem : c ∈ window (some c) hi := by
      refine ⟨by simp, ?_⟩
      intro b' hb'
      rwa [← Option.mem_unique hb hb']
    exact (h hmem).1 a rfl

theorem window_subset_upper {lo lo' hi : Option ℤ} {b : ℤ}
    (h : window lo hi ⊆ window lo' (some b)) :
    ∃ d, hi = some d ∧ ∀ a ∈ lo, a ≤ d → d ≤ b := by
  cases hi with
  | none =>
    exfalso
    have hmem : (lo.getD b ⊔ b)+1 ∈ window lo none := by
      refine ⟨?_, by simp⟩
      intro a ha
      rw [Option.mem_def.mp ha, Option.getD_some]
      have hle : a ≤ a ⊔ b := le_sup_left
      omega
    have hle := (h hmem).2 b rfl
    have hsup : b ≤ lo.getD b ⊔ b := le_sup_right
    omega
  | some d =>
    refine ⟨d, rfl, ?_⟩
    intro a ha had
    have hmem : d ∈ window lo (some d) := by
      refine ⟨?_, by simp⟩
      intro a' ha'
      rwa [← Option.mem_unique ha ha']
    exact (h hmem).2 b rfl

/-! ### The level by the ends of the range -/

/-- An end of the range; `zeroTime` stands for none. -/
def Plan.end? (plan : Plan) (kind : BoundKind) : Option ℤ :=
  if plan.slot kind = zeroTime then none else some (plan.slot kind)

/-- The instants a plan asks for. -/
def Plan.window (plan : Plan) : Set ℤ :=
  QueryLang.window (plan.end? .earliest) (plan.end? .latest)

/-- The level of a plan with the given ends; `aggregates` is whether it does. -/
def levelOf (aggregates : Bool) : Option ℤ → Option ℤ → Level
  | none, none => if aggregates then .reject else .warn
  | some a, some b => if maxReasonableSpan < b-a then .warn else .ok
  | none, some _ | some _, none => .ok

/-- Saturation does not disturb the comparison with 90 days. -/
theorem maxReasonableSpan_lt_timeSub (t u : ℤ) :
    maxReasonableSpan < timeSub t u ↔ maxReasonableSpan < t-u := by
  have hlow : minDuration < maxReasonableSpan := by decide
  have hhigh : maxReasonableSpan < maxDuration := by decide
  unfold timeSub
  omega

theorem assessSpan_level (r : TimeRange) :
    (assessSpan r).level =
      if r.from_ ≠ zeroTime ∧ r.to_ ≠ zeroTime ∧ maxReasonableSpan < r.to_-r.from_ then .warn
      else .ok := by
  unfold assessSpan
  simp only [maxReasonableSpan_lt_timeSub]
  split_ifs <;> rfl

theorem assessIR_level (plan : Plan) :
    (assessIR plan).level =
      levelOf plan.aggregation.isSome (plan.end? .earliest) (plan.end? .latest) := by
  have hunbounded : (assessUnbounded plan).level =
      if plan.aggregation.isSome then .reject else .warn := by
    unfold assessUnbounded
    split_ifs <;> rfl
  unfold assessIR Plan.hasTimeBound Plan.end? Plan.slot
  cases hr : plan.timeRange with
  | none => simpa [levelOf] using hunbounded
  | some r =>
    have hspan := assessSpan_level r
    by_cases hfrom : r.from_ = zeroTime <;> by_cases hto : r.to_ = zeroTime
    · simpa [hfrom, hto, levelOf] using hunbounded
    · simpa [hfrom, hto, levelOf] using hspan
    · simpa [hfrom, hto, levelOf] using hspan
    · simpa [hfrom, hto, levelOf] using hspan

/-! ### Narrowing -/

/-- The pair that is assessed the wrong way round: an open range, which has no span, and a
part of it that is longer than 90 days. -/
def GainsSpan (p q : Plan) : Prop :=
  ((p.end? .earliest).isSome ↔ (p.end? .latest).isNone) ∧
    ∃ c ∈ q.end? .earliest, ∃ d ∈ q.end? .latest, maxReasonableSpan < d-c

/-- The same law over the ends alone. -/
theorem levelOf_le_iff {aggregates : Bool} {lo hi lo' hi' : Option ℤ}
    (hsub : window lo' hi' ⊆ window lo hi) :
    levelOf aggregates lo' hi' ≤ levelOf aggregates lo hi ↔
      ¬ ((lo.isSome ↔ hi.isNone) ∧ ∃ c ∈ lo', ∃ d ∈ hi', maxReasonableSpan < d-c) := by
  have hspan : (0 : ℤ) ≤ maxReasonableSpan := by decide
  -- Which ends the wider range has decides which ones the narrower must have.
  cases lo with
  | none =>
    cases hi with
    | none =>
      have hle : levelOf aggregates lo' hi' ≤ levelOf aggregates none none := by
        cases lo' <;> cases hi' <;> cases aggregates <;> simp only [levelOf] <;>
          (try split_ifs) <;> decide
      simpa using hle
    | some b =>
      obtain ⟨d, rfl, -⟩ := window_subset_upper hsub
      cases lo' with
      | none => simpa [levelOf] using show Level.ok ≤ Level.ok by decide
      | some c =>
        simp only [levelOf]
        split_ifs with hlong
        · simpa [hlong] using show ¬ Level.warn ≤ Level.ok by decide
        · simpa [hlong] using show Level.ok ≤ Level.ok by decide
  | some a =>
    obtain ⟨c, rfl, hac⟩ := window_subset_lower hsub
    cases hi with
    | none =>
      cases hi' with
      | none => simpa [levelOf] using show Level.ok ≤ Level.ok by decide
      | some d =>
        simp only [levelOf]
        split_ifs with hlong
        · simpa [hlong] using show ¬ Level.warn ≤ Level.ok by decide
        · simpa [hlong] using show Level.ok ≤ Level.ok by decide
    | some b =>
      obtain ⟨d, rfl, hdb⟩ := window_subset_upper hsub
      -- A window longer than 90 days is not empty, so both its ends lie inside.
      have hlonger : maxReasonableSpan < d-c → maxReasonableSpan < b-a := by
        intro hlong
        have hac' := hac d rfl (by omega)
        have hdb' := hdb c rfl (by omega)
        omega
      have hle : levelOf aggregates (some c) (some d) ≤ levelOf aggregates (some a) (some b) := by
        simp only [levelOf]
        split_ifs with hlong hlong'
        · decide
        · exact absurd (hlonger hlong) hlong'
        · decide
        · decide
      simpa using hle

/-- Narrowing the window of a plan does not raise its level, unless it closes an open range at
more than 90 days. -/
theorem assessIR_narrow_iff {p q : Plan} (hsame : q = { p with timeRange := q.timeRange })
    (hsub : q.window ⊆ p.window) :
    (assessIR q).level ≤ (assessIR p).level ↔ ¬ GainsSpan p q := by
  have hagg : q.aggregation = p.aggregation := by rw [hsame]
  rw [assessIR_level, assessIR_level, hagg]
  exact levelOf_le_iff hsub

/-- The plan of `earliest=-365d`, closed at `earliest=-365d latest=-1d`, for the epoch as now. -/
def openYear : Plan := { emptyPlan with timeRange := some ⟨-365*24*3600*second, zeroTime⟩ }

def closedYear : Plan :=
  { emptyPlan with timeRange := some ⟨-365*24*3600*second, -24*3600*second⟩ }

theorem closedYear_window_subset : closedYear.window ⊆ openYear.window := by
  have hopen : openYear.end? .latest = none := by decide +kernel
  rintro t ⟨hfrom, -⟩
  refine ⟨hfrom, ?_⟩
  intro b hb
  rw [hopen] at hb
  cases hb

/-- The plan of `timeout | stats count by host` over the days from the given one to yesterday. -/
def timeoutsSince (days : ℤ) : Plan :=
  { emptyPlan with
    textSearch := ["timeout"]
    aggregation := some ⟨[⟨.count, "", "count"⟩], ["host"]⟩
    timeRange := some ⟨-days*24*3600*second, -24*3600*second⟩ }

/-- A year of it narrowed to a month is no longer warned about. -/
theorem assessIR_year_to_month :
    compilePipe "timeout earliest=-365d latest=-1d | stats count by host" 0 =
      .ok (timeoutsSince 365) ∧
    compilePipe "timeout earliest=-30d latest=-1d | stats count by host" 0 =
      .ok (timeoutsSince 30) ∧
    (timeoutsSince 30).window ⊆ (timeoutsSince 365).window ∧
    (assessIR (timeoutsSince 30)).level ≤ (assessIR (timeoutsSince 365)).level ∧
    ¬ (assessIR (timeoutsSince 365)).level ≤ (assessIR (timeoutsSince 30)).level := by
  have hsub : (timeoutsSince 30).window ⊆ (timeoutsSince 365).window := by
    rintro t ⟨hfrom, hto⟩
    refine ⟨?_, hto⟩
    intro a ha
    have hmonth := hfrom (-30*24*3600*second) (by decide +kernel)
    have hyear : (timeoutsSince 365).end? .earliest = some (-365*24*3600*second) := by
      decide +kernel
    obtain rfl := Option.some.inj (hyear.symm.trans ha)
    exact le_trans (by decide) hmonth
  refine ⟨by decide +kernel, by decide +kernel, hsub,
    (assessIR_narrow_iff rfl hsub).mpr ?_, by decide +kernel⟩
  rintro ⟨hone, -⟩
  exact absurd hone (by decide +kernel)

/-- The narrower of the two queries is the one that is warned about. -/
theorem narrower_query_warned :
    compilePipe "earliest=-365d" 0 = .ok openYear ∧
    compilePipe "earliest=-365d latest=-1d" 0 = .ok closedYear ∧
    closedYear.window ⊆ openYear.window ∧
    ¬ (assessIR closedYear).level ≤ (assessIR openYear).level :=
  ⟨by decide +kernel, by decide +kernel, closedYear_window_subset, by decide +kernel⟩

end CairnObs.QueryLang
