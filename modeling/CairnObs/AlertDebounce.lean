import CairnObs.AlertTransition

/-! The debounce of an alert over whole histories of evaluations: what one evaluation can
do to a row, and from it when a row enters `firing`. -/
namespace CairnObs.Alerting

/-- The state decides which of the three timestamps are set. -/
structure Consistent (row : AlertState) : Prop where
  ok : row.state = .ok →
    row.conditionTrueSince = none ∧ row.firedAt = none ∧ row.lastNotifiedAt = none
  pending : row.state = .pending →
    row.conditionTrueSince.isSome ∧ row.firedAt = none ∧ row.lastNotifiedAt = none
  firing : row.state = .firing →
    row.conditionTrueSince.isSome ∧ row.firedAt.isSome ∧ row.lastNotifiedAt.isSome

/-- Everything a condition-true evaluation at `now` can do to a consistent row. -/
inductive TrueStep (τ : Timing) (row next : AlertState) (now : ℤ) :
    Option (ℤ × EventType) → Prop
  | enter (since : ℤ) (hrow : row.state ≠ .firing)
      (hsince : since = row.conditionTrueSince.getD now)
      (hdue : τ.forMinutes.ns ≤ timeSub now since)
      (hstate : next.state = .firing) (htrue : next.conditionTrueSince = some since)
      (hfired : next.firedAt = some now) (hlast : next.lastNotifiedAt = some now) :
      TrueStep τ row next now (some (now, .firing))
  | wait (since : ℤ) (hrow : row.state ≠ .firing)
      (hsince : since = row.conditionTrueSince.getD now)
      (hdue : ¬ τ.forMinutes.ns ≤ timeSub now since)
      (hstate : next.state = .pending) (htrue : next.conditionTrueSince = some since)
      (hfired : next.firedAt = none) (hlast : next.lastNotifiedAt = none) :
      TrueStep τ row next now none
  | renotify (r : Duration) (l : ℤ) (hrow : row.state = .firing)
      (hr : τ.renotifyInterval = some r) (hl : row.lastNotifiedAt = some l)
      (hdue : r.ns ≤ timeSub now l)
      (hstate : next.state = .firing) (htrue : next.conditionTrueSince = row.conditionTrueSince)
      (hfired : next.firedAt = row.firedAt) (hlast : next.lastNotifiedAt = some now) :
      TrueStep τ row next now (some (now, .firing))
  | quiet (hrow : row.state = .firing)
      (hdue : ∀ r l, τ.renotifyInterval = some r → row.lastNotifiedAt = some l →
        ¬ r.ns ≤ timeSub now l)
      (hstate : next.state = .firing) (htrue : next.conditionTrueSince = row.conditionTrueSince)
      (hfired : next.firedAt = row.firedAt) (hlast : next.lastNotifiedAt = row.lastNotifiedAt) :
      TrueStep τ row next now none

theorem timeSub_self (t : ℤ) : timeSub t t = 0 := by
  have h1 : minDuration ≤ 0 := by decide
  have h2 : 0 ≤ maxDuration := by decide
  unfold timeSub
  omega

section TrueStep

variable (τ : Timing) (row : AlertState) (now : ℤ) (value : Option Float) (dbNow : ℤ)

theorem evalStep_ok_true (hc : Consistent row) (hs : row.state = .ok) :
    TrueStep τ row (evalStep τ row (.condition now true value dbNow)).1 now
      (evalStep τ row (.condition now true value dbNow)).2 := by
  have hnone := (hc.ok hs).1
  -- The code compares the debounce with zero here: the condition has been true since `now`.
  by_cases hfor : τ.forMinutes.ns ≤ 0
  · simp only [evalStep, transitionOf, computeTransition, computeConditionTrue, hs, hfor,
      ↓reduceIte, fire, applyTransition, Option.map_some]
    exact .enter now (by simp [hs]) (by simp [hnone]) (by rwa [timeSub_self]) rfl rfl rfl rfl
  · simp only [evalStep, transitionOf, computeTransition, computeConditionTrue, hs, hfor,
      ↓reduceIte, applyTransition, Option.map_none]
    exact .wait now (by simp [hs]) (by simp [hnone]) (by rwa [timeSub_self]) rfl rfl rfl rfl

theorem evalStep_pending_true (hs : row.state = .pending) :
    TrueStep τ row (evalStep τ row (.condition now true value dbNow)).1 now
      (evalStep τ row (.condition now true value dbNow)).2 := by
  by_cases hfor : τ.forMinutes.ns ≤ timeSub now (row.conditionTrueSince.getD now)
  · simp only [evalStep, transitionOf, computeTransition, computeConditionTrue, hs, hfor,
      ↓reduceIte, fire, applyTransition, Option.map_some]
    exact .enter _ (by simp [hs]) rfl hfor rfl rfl rfl rfl
  · simp only [evalStep, transitionOf, computeTransition, computeConditionTrue, hs, hfor,
      ↓reduceIte, applyTransition, Option.map_none]
    exact .wait _ (by simp [hs]) rfl hfor rfl rfl rfl rfl

theorem evalStep_firing_true (hc : Consistent row) (hs : row.state = .firing) :
    TrueStep τ row (evalStep τ row (.condition now true value dbNow)).1 now
      (evalStep τ row (.condition now true value dbNow)).2 := by
  obtain ⟨l, hl⟩ := Option.isSome_iff_exists.mp (hc.firing hs).2.2
  cases hr : τ.renotifyInterval with
  | none =>
    simp only [evalStep, transitionOf, computeTransition, computeConditionTrue, renotifyDue,
      hs, hr, ↓reduceIte, Bool.false_eq_true, applyTransition, Option.map_none]
    exact .quiet hs (by simp [hr]) rfl rfl rfl rfl
  | some r =>
    by_cases hdue : r.ns ≤ timeSub now l
    · simp only [evalStep, transitionOf, computeTransition, computeConditionTrue, renotifyDue,
        hs, hr, hl, hdue, decide_true, ↓reduceIte, applyTransition, Option.map_some]
      exact .renotify r l hs hr hl hdue rfl rfl rfl rfl
    · simp only [evalStep, transitionOf, computeTransition, computeConditionTrue, renotifyDue,
        hs, hr, hl, hdue, decide_false, Bool.false_eq_true, ↓reduceIte, applyTransition,
        Option.map_none]
      refine .quiet hs ?_ rfl rfl rfl hl.symm
      intro r' l' hr' hl'
      obtain rfl : r = r' := Option.some.inj (hr.symm.trans hr')
      obtain rfl : l = l' := Option.some.inj (hl.symm.trans hl')
      exact hdue

/-- Every condition-true evaluation of a consistent row is one of the four steps. -/
theorem evalStep_true (hc : Consistent row) :
    ∃ next ev, evalStep τ row (.condition now true value dbNow) = (next, ev) ∧
      TrueStep τ row next now ev := by
  refine ⟨_, _, rfl, ?_⟩
  cases hs : row.state with
  | ok => exact evalStep_ok_true τ row now value dbNow hc hs
  | pending => exact evalStep_pending_true τ row now value dbNow hs
  | firing => exact evalStep_firing_true τ row now value dbNow hc hs

end TrueStep

/-- A condition-false evaluation clears everything, and tells only if the row was firing. -/
theorem evalStep_false (τ : Timing) (row : AlertState) (now : ℤ) (value : Option Float)
    (dbNow : ℤ) :
    let r := evalStep τ row (.condition now false value dbNow)
    r.1.state = .ok ∧ r.1.conditionTrueSince = none ∧ r.1.firedAt = none ∧
      r.1.lastNotifiedAt = none ∧
      r.2 = if row.state = .firing then some (now, .resolved) else none := by
  cases hs : row.state <;>
    simp [evalStep, transitionOf, computeTransition, computeConditionFalse, applyTransition, hs]

theorem evalStep_consistent (τ : Timing) (row : AlertState) (hc : Consistent row)
    (e : Evaluation) : Consistent (evalStep τ row e).1 := by
  cases e with
  | error m d => exact ⟨hc.ok, hc.pending, hc.firing⟩
  | condition now holds value dbNow =>
    cases holds with
    | false =>
      obtain ⟨hs, ht, hf, hl, _⟩ := evalStep_false τ row now value dbNow
      exact ⟨fun _ => ⟨ht, hf, hl⟩, by simp [hs], by simp [hs]⟩
    | true =>
      obtain ⟨next, ev, heq, h⟩ := evalStep_true τ row now value dbNow hc
      rw [heq]
      cases h with
      | enter since _ _ _ hstate htrue hfired hlast =>
        exact ⟨by simp_all, by simp_all, by simp_all⟩
      | wait since _ _ _ hstate htrue hfired hlast =>
        exact ⟨by simp_all, by simp_all, by simp_all⟩
      | renotify r l hrow _ _ _ hstate htrue hfired hlast =>
        have hrow' := hc.firing hrow
        exact ⟨by simp_all, by simp_all, by simp_all⟩
      | quiet hrow _ hstate htrue hfired hlast =>
        have hrow' := hc.firing hrow
        exact ⟨by simp_all, by simp_all, by simp_all⟩

theorem initialState_consistent : Consistent initialState :=
  ⟨fun _ => ⟨rfl, rfl, rfl⟩, fun h => (by cases h), fun h => (by cases h)⟩

theorem stateAfter_consistent (τ : Timing) (row : AlertState) (hc : Consistent row)
    (es : List Evaluation) : Consistent (stateAfter τ row es) := by
  induction es generalizing row with
  | nil => exact hc
  | cons e es ih => exact ih _ (evalStep_consistent τ row hc e)

def Evaluation.isFalse : Evaluation → Bool
  | .condition _ holds _ _ => !holds
  | .error _ _ => false

/-- The clock reading of a condition-true evaluation. -/
def Evaluation.trueAt : Evaluation → Option ℤ
  | .condition now true _ _ => some now
  | _ => none

/-- The evaluations after the most recent condition-false one, oldest first. -/
def sinceLastFalse (es : List Evaluation) : List Evaluation :=
  (es.reverse.takeWhile (fun e => !e.isFalse)).reverse

/-- When the condition was first seen true after the most recent condition-false
evaluation, or after the start. -/
def firstTrue (es : List Evaluation) : Option ℤ := (sinceLastFalse es).findSome? Evaluation.trueAt

theorem firstTrue_snoc_false (es : List Evaluation) (e : Evaluation) (he : e.isFalse = true) :
    firstTrue (es ++ [e]) = none := by
  simp [firstTrue, sinceLastFalse, he]

theorem firstTrue_snoc (es : List Evaluation) (e : Evaluation) (he : e.isFalse = false) :
    firstTrue (es ++ [e]) = (firstTrue es).or e.trueAt := by
  simp [firstTrue, sinceLastFalse, he, List.findSome?_append]

/-- The link between the row and the history: `condition_true_since` is the time the
condition was first seen true since it was last seen false. -/
theorem conditionTrueSince_eq_firstTrue (τ : Timing) (es : List Evaluation) :
    (stateAfter τ initialState es).conditionTrueSince = firstTrue es := by
  induction es using List.reverseRecOn with
  | nil => rfl
  | append_singleton es e ih =>
    rw [stateAfter_snoc]
    have hc := stateAfter_consistent τ initialState initialState_consistent es
    generalize stateAfter τ initialState es = row at ih hc ⊢
    cases e with
    | error m d =>
      rw [firstTrue_snoc es _ rfl]
      simpa [evalStep, recordError, Evaluation.trueAt] using ih
    | condition now holds value dbNow =>
      cases holds with
      | false =>
        rw [firstTrue_snoc_false es _ rfl]
        exact (evalStep_false τ row now value dbNow).2.1
      | true =>
        rw [firstTrue_snoc es _ rfl, ← ih]
        have hor :
            row.conditionTrueSince.or (some now) = some (row.conditionTrueSince.getD now) := by
          cases row.conditionTrueSince <;> rfl
        obtain ⟨next, ev, heq, h⟩ := evalStep_true τ row now value dbNow hc
        rw [heq]
        change next.conditionTrueSince = row.conditionTrueSince.or (some now)
        -- Outside `firing` the step keeps or sets since; inside it since is already set.
        cases h with
        | enter since _ hsince _ _ htrue _ _ => rw [htrue, hsince, hor]
        | wait since _ hsince _ _ htrue _ _ => rw [htrue, hsince, hor]
        | renotify r l hrow _ _ _ _ htrue _ _ =>
          obtain ⟨u, hu⟩ := Option.isSome_iff_exists.mp (hc.firing hrow).1
          rw [htrue, hu]
          rfl
        | quiet hrow _ _ htrue _ _ =>
          obtain ⟨u, hu⟩ := Option.isSome_iff_exists.mp (hc.firing hrow).1
          rw [htrue, hu]
          rfl

/-- A row enters `firing` exactly when the condition has been true for the debounce. -/
theorem enters_firing_iff (τ : Timing) (hfor : 0 ≤ τ.forMinutes.ns) (row : AlertState)
    (hc : Consistent row) (now : ℤ) (value : Option Float) (dbNow : ℤ) :
    (row.state ≠ .firing ∧ (evalStep τ row (.condition now true value dbNow)).1.state = .firing) ↔
    (row.state ≠ .firing ∧
      ∃ t₀, (evalStep τ row (.condition now true value dbNow)).1.conditionTrueSince = some t₀ ∧
        τ.forMinutes.ns ≤ now-t₀) := by
  obtain ⟨next, ev, heq, h⟩ := evalStep_true τ row now value dbNow hc
  rw [heq]
  -- `Time.Sub` saturates, which a debounce that is not negative cannot see.
  cases h with
  | enter since hrow hsince hdue hstate htrue hfired hlast =>
    rw [le_timeSub_iff_of_nonneg _ hfor] at hdue
    simp [hrow, hstate, htrue, hdue]
  | wait since hrow hsince hdue hstate htrue hfired hlast =>
    rw [le_timeSub_iff_of_nonneg _ hfor] at hdue
    simp only [not_le] at hdue
    simp [hstate, htrue, hdue]
  | renotify r l hrow _ _ _ _ _ _ _ => simp [hrow]
  | quiet hrow _ _ _ _ _ => simp [hrow]

theorem stateAfter_errors (τ : Timing) (row : AlertState) (errs : List (String × ℤ)) :
    let row' := stateAfter τ row (errs.map (fun e => .error e.1 e.2))
    row'.state = row.state ∧ row'.conditionTrueSince = row.conditionTrueSince ∧
      row'.firedAt = row.firedAt ∧ row'.lastNotifiedAt = row.lastNotifiedAt := by
  induction errs generalizing row with
  | nil => exact ⟨rfl, rfl, rfl, rfl⟩
  | cons e errs ih => exact ih (recordError e.2 e.1 row)

/-- The debounce over whole runs. -/
theorem debounce_correct (τ : Timing) (hfor : 0 ≤ τ.forMinutes.ns) (es : List Evaluation) :
    (∀ now value dbNow,
      ((stateAfter τ initialState es).state ≠ .firing ∧
        (stateAfter τ initialState (es ++ [.condition now true value dbNow])).state = .firing) ↔
      ((stateAfter τ initialState es).state ≠ .firing ∧
        ∃ t₀, firstTrue (es ++ [.condition now true value dbNow]) = some t₀ ∧
          τ.forMinutes.ns ≤ now-t₀)) ∧
    (∀ now value dbNow,
      let row := stateAfter τ initialState (es ++ [.condition now false value dbNow])
      row.state = .ok ∧ row.conditionTrueSince = none ∧ row.firedAt = none ∧
        row.lastNotifiedAt = none) ∧
    (∀ errs : List (String × ℤ),
      let row := stateAfter τ initialState es
      let row' := stateAfter τ initialState (es ++ errs.map (fun e => .error e.1 e.2))
      row'.state = row.state ∧ row'.conditionTrueSince = row.conditionTrueSince ∧
        row'.firedAt = row.firedAt ∧ row'.lastNotifiedAt = row.lastNotifiedAt) := by
  refine ⟨?_, ?_, ?_⟩
  · intro now value dbNow
    have hc := stateAfter_consistent τ initialState initialState_consistent es
    rw [← conditionTrueSince_eq_firstTrue τ, stateAfter_snoc]
    exact enters_firing_iff τ hfor _ hc now value dbNow
  · intro now value dbNow
    rw [stateAfter_snoc]
    obtain ⟨hs, ht, hf, hl, _⟩ := evalStep_false τ (stateAfter τ initialState es) now value dbNow
    exact ⟨hs, ht, hf, hl⟩
  · intro errs
    simp only [stateAfter_append]
    exact stateAfter_errors τ _ errs

def fiveMinutes : Timing :=
  { forMinutes := ⟨300*second, by decide, by decide⟩, renotifyInterval := none }

/-- True at 0 and, after an error, at exactly five minutes: the second one fires. -/
theorem debounce_correct_five_minutes :
    (stateAfter fiveMinutes initialState
      [.condition 0 true none 0, .error "timeout" 60]).state ≠ .firing ∧
    (stateAfter fiveMinutes initialState ([.condition 0 true none 0, .error "timeout" 60] ++
      [.condition (300*second) true none 300])).state = .firing :=
  ((debounce_correct fiveMinutes (by decide)
    [.condition 0 true none 0, .error "timeout" 60]).1 (300*second) none 300).mpr
      ⟨by decide, 0, by decide, by decide⟩

end CairnObs.Alerting
