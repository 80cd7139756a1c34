import CairnObs.AlertStore
import CairnObs.AlertNotify

/-! Evaluators that share the rules: which interleavings write what one evaluator alone
would write. -/
namespace CairnObs.Alerting
open GuardedRuns

/-- Agreement on the four columns a transition is computed from. -/
def SameFields (a b : AlertState) : Prop :=
  a.state = b.state ∧ a.conditionTrueSince = b.conditionTrueSince ∧
    a.firedAt = b.firedAt ∧ a.lastNotifiedAt = b.lastNotifiedAt

theorem transitionOf_congr {a b : AlertState} (h : SameFields a b) (τ : Timing) (now : ℤ)
    (holds : Bool) : transitionOf τ a now holds = transitionOf τ b now holds := by
  obtain ⟨h1, h2, h3, h4⟩ := h
  simp only [transitionOf, h1, h2, h3, h4]

variable {ι : Type*} [DecidableEq ι] (rules : ι → Rule) (batchSize : ℕ)

/-- A transition is written while the row still holds the columns it was computed from. -/
def Fresh (w : World ι) : Action ι → Prop
  | .finish i (.condition _ _ _ _) _ =>
    ∀ c, w.inFlight[i]? = some c → SameFields c.snapshot (w.rows c.ruleID).alert
  | _ => True

/-- The sequential execution that matches the rule's writes also ends in its row. -/
def Linear (w : World ι) : Prop :=
  ∀ r, ∃ es, w.writesOf r = seqStates (rules r).timing initialState es ∧
    w.rowsOf r = seqRows r (rules r).timing initialState es ∧
    (w.rows r).alert = stateAfter (rules r).timing initialState (es.map Prod.fst)

theorem linear_created (t₀ : ℤ) : Linear rules (created t₀ : World ι) :=
  fun _ => ⟨[], rfl, rfl, rfl⟩

variable {w : World ι}

/-- Writing back one more sequential step of rule `r` keeps every rule linear. -/
theorem linear_writeBack (h : Linear rules w) (r : ι) (e : Evaluation) (built : Bool) (dbNow : ℤ) :
    Linear rules (writeBack dbNow r (evalStep (rules r).timing (w.rows r).alert e).1 (outboxRows r e
      ((evalStep (rules r).timing (w.rows r).alert e).2.map Prod.snd) built) w) := by
  intro r'
  obtain ⟨es, hw, hl, hrow⟩ := h r'
  by_cases hr : r' = r
  · -- The sequential execution of this rule gets one more evaluation.
    subst hr
    refine ⟨es ++ [(e, built)], ?_, ?_, ?_⟩
    · rw [seqStates_snoc, ← hw, ← hrow]
      simp [World.writesOf, writeBack]
    · rw [seqRows_snoc, ← hl, ← hrow]
      simp only [World.rowsOf, writeBack, List.filter_append]
      congr 1
      rw [List.filter_eq_self]
      intro x hx
      simpa using outboxRows_ruleID hx
    · rw [List.map_append, List.map_singleton, stateAfter_snoc, ← hrow]
      simp [writeBack]
  · -- The other rules see neither the write nor the outbox rows.
    refine ⟨es, ?_, ?_, ?_⟩
    · simpa [World.writesOf, writeBack, Ne.symm hr] using hw
    · rw [← hl]
      simp only [World.rowsOf, writeBack, List.filter_append, List.append_right_eq_self]
      rw [List.filter_eq_nil_iff]
      intro x hx
      rw [outboxRows_ruleID hx]
      simpa using Ne.symm hr
    · simpa [writeBack, Function.update_of_ne hr] using hrow

/-- Every step that meets `Fresh` preserves linearity. -/
theorem linear_step (w : World ι) (a : Action ι) (w' : World ι) (h : Linear rules w)
    (hfresh : Fresh w a) (hstep : step rules batchSize w a = some w') : Linear rules w' := by
  cases a with
  | claim now picked =>
    simp only [step] at hstep
    split at hstep
    · cases hstep
      intro r
      obtain ⟨es, hw, hl, hrow⟩ := h r
      refine ⟨es, hw, hl, ?_⟩
      rw [← hrow]
      simp only [claimDueRules]
      split <;> rfl
    · cases hstep
  | abandon i =>
    simp only [step, Option.map_eq_some_iff] at hstep
    obtain ⟨c, _, rfl⟩ := hstep
    exact h
  | finish i e built =>
    simp only [step, Option.map_eq_some_iff] at hstep
    obtain ⟨c, hc, rfl⟩ := hstep
    have h' : Linear rules { w with inFlight := w.inFlight.eraseIdx i } := h
    cases e with
    | error m d =>
      have hwb := linear_writeBack rules h' c.ruleID (.error m d) built d
      simpa only [evaluateOne, evalStep, outboxRows] using hwb
    | condition now holds value dbNow =>
      have hwb := linear_writeBack rules h' c.ruleID (.condition now holds value dbNow) built dbNow
      simp only [evalStep, Option.map_map, Function.comp_def, Option.map_id'] at hwb
      simpa only [evaluateOne, transitionOf_congr (hfresh c hc)] using hwb

/-- Where every transition is written while its row still holds what it was computed
from, the evaluators do together what one of them would do alone. -/
theorem fresh_run_sequential (t₀ : ℤ) (as : List (Action ι)) (w : World ι)
    (hfresh : Meets (step rules batchSize) Fresh (created t₀) as)
    (hrun : run (step rules batchSize) (created t₀) as = some w) : Sequential rules w := by
  have h := run_preserves (linear_step rules batchSize) (linear_created rules t₀) hfresh hrun
  intro r
  obtain ⟨es, hw, hl, _⟩ := h r
  exact ⟨es, hw, hl⟩

/-- One rule, one minute of debounce, due every thirty seconds, no renotification. -/
def minuteRule : Unit → Rule := fun _ =>
  { timing := ⟨⟨60*second, by decide, by decide⟩, none⟩,
    evalIntervalSeconds := 30, enabled := true }

/-- The evaluation claimed at 60 s is still waiting for its query when the rule comes
due again at 90 s; both have read `pending` and both fire. -/
def overlappingRun : List (Action Unit) :=
  [.claim 0 [()], .finish 0 (.condition 0 true none 0) true,
    .claim (60*second) [()], .claim (90*second) [()],
    .finish 0 (.condition (100*second) true none (100*second)) true,
    .finish 0 (.condition (101*second) true none (101*second)) true]

/-- Two initial firing rows for one episode, and a sequence of states that no
sequential execution writes: a row that stays firing keeps its `fired_at`. -/
theorem overlapping_claims_not_sequential :
    ∃ w, run (step minuteRule 1000) (created 0) overlappingRun = some w ∧
      (w.rowsOf ()).map OutboxRow.eventType = [.firing, .firing] ∧
      ¬ Sequential minuteRule w := by
  refine ⟨_, rfl, rfl, ?_⟩
  intro h
  obtain ⟨es, hw, _⟩ := h ()
  have hlen : es.length = 3 := by
    rw [← length_seqStates (minuteRule ()).timing initialState es, ← hw]
    rfl
  obtain ⟨⟨e₁, _⟩, ⟨e₂, _⟩, ⟨e₃, _⟩, rfl⟩ := List.length_eq_three.mp hlen
  -- The second and the third state are both firing, with different `fired_at`.
  let τ := (minuteRule ()).timing
  let r₂ := (evalStep τ (evalStep τ initialState e₁).1 e₂).1
  have hc : Consistent r₂ :=
    stateAfter_consistent τ initialState initialState_consistent [e₁, e₂]
  have h₂ : _ = r₂ := congrArg (fun l => l.getD 1 initialState) hw
  have h₃ : _ = (evalStep τ r₂ e₃).1 := congrArg (fun l => l.getD 2 initialState) hw
  have hkeep := evalStep_firedAt τ r₂ hc e₃ (by rw [← h₂]; rfl) (by rw [← h₃]; rfl)
  rw [← h₃, ← h₂] at hkeep
  exact absurd hkeep (by decide)

def inTurnRun : List (Action Unit) :=
  [.claim 0 [()], .finish 0 (.condition 0 true none 0) true,
    .claim (60*second) [()], .finish 0 (.condition (61*second) true none (61*second)) true]

/-- The same rule evaluated without overlap meets the condition. -/
theorem fresh_run_sequential_in_turn :
    ∃ w, run (step minuteRule 1000) (created 0) inTurnRun = some w ∧ Sequential minuteRule w := by
  refine ⟨_, rfl, fresh_run_sequential minuteRule 1000 0 inTurnRun _ ?_ rfl⟩
  refine .cons trivial rfl (.cons ?_ rfl (.cons trivial rfl (.cons ?_ rfl trivial)))
  all_goals
    intro c h
    cases h
    exact ⟨rfl, rfl, rfl, rfl⟩

section Timely

def Evaluation.dbNow : Evaluation → ℤ
  | .condition _ _ _ d => d
  | .error _ d => d

/-- On a database clock that does not go back, every outcome is written before the
reservation its claim made runs out. -/
def Timely (w : World ι) : Action ι → Prop
  | .claim now _ => w.clock ≤ now
  | .finish i e _ => w.clock ≤ e.dbNow ∧ ∀ c, w.inFlight[i]? = some c → e.dbNow < c.reservedUntil
  | .abandon _ => True

/-- Reservations that still run belong to the rule's latest claim: there is at most one
for a rule, and nothing was written to the rule since. -/
structure Reserved (w : World ι) : Prop where
  latest : ∀ c ∈ w.inFlight, w.clock < c.reservedUntil →
    c.reservedUntil = (w.rows c.ruleID).nextEvalAt
  unwritten : ∀ c ∈ w.inFlight, w.clock < c.reservedUntil →
    SameFields c.snapshot (w.rows c.ruleID).alert
  exclusive : w.inFlight.Pairwise (fun c d => c.ruleID = d.ruleID →
    ¬ (w.clock < c.reservedUntil ∧ w.clock < d.reservedUntil))

omit [DecidableEq ι] in
theorem Reserved.eraseIdx (h : Reserved w) (i : ℕ) :
    Reserved { w with inFlight := w.inFlight.eraseIdx i } :=
  ⟨fun c hc => h.latest c (List.mem_of_mem_eraseIdx hc),
    fun c hc => h.unwritten c (List.mem_of_mem_eraseIdx hc),
    h.exclusive.sublist (List.eraseIdx_sublist w.inFlight i)⟩

omit [DecidableEq ι] in
/-- A running reservation is the only one of its rule. -/
theorem Reserved.alone (h : Reserved w) {i : ℕ} {c d : InFlight ι} (hc : w.inFlight[i]? = some c)
    (hrun : w.clock < c.reservedUntil) (hd : d ∈ w.inFlight.eraseIdx i)
    (hd' : w.clock < d.reservedUntil) : d.ruleID ≠ c.ruleID := by
  intro he
  obtain ⟨j, hj, hji, hjd⟩ := List.mem_eraseIdx_iff_getElem.mp hd
  obtain ⟨hi, hic⟩ := List.getElem?_eq_some_iff.mp hc
  have hp := List.pairwise_iff_getElem.mp h.exclusive
  rcases Nat.lt_or_gt_of_ne hji with hlt | hgt
  · exact hp j i hj hi hlt (by rw [hjd, hic, he]) ⟨by rwa [hjd], by rwa [hic]⟩
  · exact hp i j hi hj hgt (by rw [hjd, hic, he]) ⟨by rwa [hic], by rwa [hjd]⟩

theorem reserved_writeBack (h : Reserved w) {i : ℕ} {c : InFlight ι} (hc : w.inFlight[i]? = some c)
    (dbNow : ℤ) (hclock : w.clock ≤ dbNow) (hrun : dbNow < c.reservedUntil) (next : AlertState)
    (out : List (OutboxRow ι)) :
    Reserved (writeBack dbNow c.ruleID next out
      { w with inFlight := w.inFlight.eraseIdx i }) := by
  have he := h.eraseIdx i
  -- Any other running reservation is of another rule, whose row stays.
  have hrow (d : InFlight ι) (hd : d ∈ w.inFlight.eraseIdx i) (hd' : dbNow < d.reservedUntil) :
      Function.update w.rows c.ruleID { w.rows c.ruleID with alert := next } d.ruleID =
        w.rows d.ruleID :=
    Function.update_of_ne (h.alone hc (by omega) hd (by omega)) _ _
  refine ⟨?_, ?_, ?_⟩
  · intro d hd hd'
    change dbNow < d.reservedUntil at hd'
    simp only [writeBack, hrow d hd hd']
    exact h.latest d (List.mem_of_mem_eraseIdx hd) (by omega)
  · intro d hd hd'
    change dbNow < d.reservedUntil at hd'
    simp only [writeBack, hrow d hd hd']
    exact h.unwritten d (List.mem_of_mem_eraseIdx hd) (by omega)
  · refine he.exclusive.imp ?_
    intro d d' hex hrule hboth
    change dbNow < d.reservedUntil ∧ dbNow < d'.reservedUntil at hboth
    exact hex hrule ⟨by change w.clock < _; omega, by change w.clock < _; omega⟩

theorem reserved_claim (h : Reserved w) (now : ℤ) (picked : List ι) (hclock : w.clock ≤ now)
    (hnodup : picked.Nodup) (hdue : ∀ r ∈ picked, (w.rows r).nextEvalAt ≤ now) :
    Reserved (claimDueRules rules now picked w) := by
  -- A reservation of a picked rule has run out by now.
  have hold (c : InFlight ι) (hc : c ∈ w.inFlight) (hrun : now < c.reservedUntil) :
      c.ruleID ∉ picked := by
    intro hp
    have hl := h.latest c hc (by omega)
    have := hdue _ hp
    omega
  refine ⟨?_, ?_, ?_⟩
  · intro c hc hrun
    change now < c.reservedUntil at hrun
    rcases List.mem_append.mp hc with hc | hc
    · simp only [claimDueRules, hold c hc hrun, ↓reduceIte]
      exact h.latest c hc (by omega)
    · obtain ⟨r, hr, rfl⟩ := List.mem_map.mp hc
      simp [claimDueRules, hr]
  · intro c hc hrun
    change now < c.reservedUntil at hrun
    rcases List.mem_append.mp hc with hc | hc
    · simp only [claimDueRules, hold c hc hrun, ↓reduceIte]
      exact h.unwritten c hc (by omega)
    · obtain ⟨r, hr, rfl⟩ := List.mem_map.mp hc
      simp [claimDueRules, hr, SameFields]
  · simp only [claimDueRules]
    rw [List.pairwise_append]
    refine ⟨?_, ?_, ?_⟩
    · refine h.exclusive.imp ?_
      intro c d hex hrule hboth
      exact hex hrule ⟨by omega, by omega⟩
    · rw [List.pairwise_map]
      refine hnodup.imp ?_
      intro r r' hne hrule
      exact absurd hrule hne
    · intro c hc d hd hrule hboth
      obtain ⟨r, hr, rfl⟩ := List.mem_map.mp hd
      exact hold c hc hboth.1 (hrule ▸ hr)

theorem reserved_step (w : World ι) (a : Action ι) (w' : World ι) (h : Reserved w)
    (ht : Timely w a) (hstep : step rules batchSize w a = some w') : Reserved w' := by
  cases a with
  | claim now picked =>
    simp only [step] at hstep
    split at hstep
    · next hg =>
      cases hstep
      exact reserved_claim rules h now picked ht hg.1 (fun r hr => (hg.2.2 r hr).2)
    · cases hstep
  | abandon i =>
    simp only [step, Option.map_eq_some_iff] at hstep
    obtain ⟨c, _, rfl⟩ := hstep
    exact h.eraseIdx i
  | finish i e built =>
    simp only [step, Option.map_eq_some_iff] at hstep
    obtain ⟨c, hc, rfl⟩ := hstep
    cases e with
    | error m d => exact reserved_writeBack h hc d ht.1 (ht.2 c hc) _ _
    | condition now holds value dbNow =>
      exact reserved_writeBack h hc dbNow ht.1 (ht.2 c hc) _ _

omit [DecidableEq ι] in
theorem fresh_of_timely (w : World ι) (a : Action ι) (h : Reserved w) (ht : Timely w a) :
    Fresh w a := by
  cases a with
  | claim now picked => trivial
  | abandon i => trivial
  | finish i e built =>
    cases e with
    | error m d => trivial
    | condition now holds value dbNow =>
      intro c hc
      have hlt := ht.2 c hc
      have hle := ht.1
      exact h.unwritten c (List.mem_of_getElem? hc) (by omega)

/-- The reservation does its work when evaluations are shorter than the interval. -/
theorem timely_run_linear (t₀ : ℤ) (as : List (Action ι)) (w : World ι)
    (htimely : Meets (step rules batchSize) Timely (created t₀) as)
    (hrun : run (step rules batchSize) (created t₀) as = some w) : Linear rules w := by
  have hinit : Reserved (created t₀ : World ι) :=
    ⟨fun _ hc => by simp [created] at hc, fun _ hc => by simp [created] at hc, List.Pairwise.nil⟩
  have hfresh := htimely.imp (reserved_step rules batchSize) fresh_of_timely hinit
  exact run_preserves (linear_step rules batchSize) (linear_created rules t₀) hfresh hrun

theorem timely_run_linear_in_turn :
    ∃ w, run (step minuteRule 1000) (created 0) inTurnRun = some w ∧ Linear minuteRule w := by
  refine ⟨_, rfl, timely_run_linear minuteRule 1000 0 inTurnRun _ ?_ rfl⟩
  refine .cons (le_refl 0) rfl (.cons ⟨le_refl 0, ?_⟩ rfl
    (.cons (show 0 ≤ 60*second by decide) rfl
      (.cons ⟨show 60*second ≤ 61*second by decide, ?_⟩ rfl trivial)))
  all_goals
    intro c h
    cases h
    decide

end Timely

end CairnObs.Alerting
