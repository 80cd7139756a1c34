import CairnObs.AlertDebounce
import CairnObs.Fallible
import CairnObs.PgColumns

/-! Alert rules from the request to the durations the evaluator works with: `validateRule` of
`alerting/internal/httpapi`, the columns of `alert_rules`, and the two products of minutes in
`evaluateOne`. -/
namespace CairnObs.Alerting
open PgColumns

/-- `rulestore.Rule` as a request carries it; condition type and comparator are any strings. -/
structure RuleRequest where
  name : String
  query : String
  conditionType : String
  comparator : Option String
  thresholdValue : Option Float
  evalIntervalSeconds : ℤ
  forMinutes : ℤ
  renotifyIntervalMinutes : Option ℤ
  notificationTargetID : String

def validComparator (c : String) : Bool := ["gt", "gte", "lt", "lte", "eq", "ne"].contains c

def validateThreshold (r : RuleRequest) : Except String Unit :=
  if !(r.comparator.any validComparator) then
    .error "threshold rules require a valid comparator (gt, gte, lt, lte, eq, ne)"
  else if r.thresholdValue.isNone then .error "threshold rules require threshold_value"
  else .ok ()

/-- The minutes are not looked at. -/
def validateRule (r : RuleRequest) : Except String Unit :=
  if r.name = "" then .error "name must not be empty"
  else if r.query = "" then .error "query must not be empty"
  else if r.notificationTargetID = "" then .error "notification_target_id must not be empty"
  else if r.evalIntervalSeconds < 30 then .error "eval_interval_seconds must be at least 30"
  else if r.conditionType = "threshold" then validateThreshold r
  else if r.conditionType = "absence" then .ok ()
  else .error "condition_type must be \"threshold\" or \"absence\""

/-- The columns of `alert_rules` that hold a number of seconds or minutes. -/
structure RuleColumns where
  evalIntervalSeconds : ℤ
  forMinutes : ℤ
  renotifyIntervalMinutes : Option ℤ
  deriving DecidableEq

/-- The CHECK constraints of `alert_rules`; one on a NULL passes. -/
def checksPass (r : RuleRequest) : Bool :=
  (r.conditionType = "threshold" || r.conditionType = "absence") &&
    r.comparator.all validComparator && decide (30 ≤ r.evalIntervalSeconds)

/-- The INSERT of `Store.Create`. -/
def insertRule (r : RuleRequest) : Option RuleColumns :=
  if checksPass r then do
    let evalIntervalSeconds ← int4Column r.evalIntervalSeconds
    let forMinutes ← int4Column r.forMinutes
    let renotifyIntervalMinutes ← nullable int4Column r.renotifyIntervalMinutes
    some ⟨evalIntervalSeconds, forMinutes, renotifyIntervalMinutes⟩
  else none

/-- `handleCreateRule` after the body is decoded. -/
def handleCreateRule (r : RuleRequest) : Except String RuleColumns := do
  validateRule r
  match insertRule r with
  | some row => .ok row
  | none => .error "creating rule failed"

def minute : ℤ := 60*second

/-- The two durations of `evaluateOne`. -/
def RuleColumns.timing (row : RuleColumns) : Timing :=
  { forMinutes := .times row.forMinutes minute
    renotifyInterval := row.renotifyIntervalMinutes.map (fun m => .times m minute) }

/-! ### What is stored is what was asked for -/

theorem insertRule_eq_some {r : RuleRequest} {row : RuleColumns} (h : insertRule r = some row) :
    row = ⟨r.evalIntervalSeconds, r.forMinutes, r.renotifyIntervalMinutes⟩ := by
  unfold insertRule at h
  split at h
  · simp only [Option.bind_eq_bind, Option.bind_eq_some_iff] at h
    obtain ⟨secs, hsecs, mins, hmins, renotify, hrenotify, hrow⟩ := h
    have hs := (int4Column_eq_some.mp hsecs).2
    have hm := (int4Column_eq_some.mp hmins).2
    have hr : r.renotifyIntervalMinutes = renotify := by
      cases hopt : r.renotifyIntervalMinutes with
      | none =>
        rw [hopt, nullable_none] at hrenotify
        exact Option.some.inj hrenotify
      | some m =>
        rw [hopt] at hrenotify
        obtain ⟨n, hn, hsome⟩ := Option.map_eq_some_iff.mp hrenotify
        rw [← hsome, (int4Column_eq_some.mp hn).2]
    rw [← Option.some.inj hrow, hs, hm, hr]
  · cases h

theorem handleCreateRule_eq_ok {r : RuleRequest} {row : RuleColumns}
    (h : handleCreateRule r = .ok row) :
    row = ⟨r.evalIntervalSeconds, r.forMinutes, r.renotifyIntervalMinutes⟩ := by
  obtain ⟨_, -, hinsert⟩ := Fallible.bind_eq_ok.mp h
  split at hinsert
  · rename_i row' hrow'
    cases hinsert
    exact insertRule_eq_some hrow'
  · cases hinsert

/-! ### Minutes as a duration -/

/-- A count of minutes that a `time.Duration` holds and that does not go back in time. -/
def MinutesFit (m : ℤ) : Prop := 0 ≤ m ∧ m ≤ 153722867

instance (m : ℤ) : Decidable (MinutesFit m) := inferInstanceAs (Decidable (_ ∧ _))

/-- The duration is `m` minutes, and they are not negative. -/
def IsMinutes (d : Duration) (m : ℤ) : Prop := 0 ≤ d.ns ∧ d.ns = m*minute

theorem times_isMinutes_iff (m : ℤ) : IsMinutes (.times m minute) m ↔ MinutesFit m := by
  have hself := wrapInt64_eq_self_iff (n := m*minute)
  have hminute : minute = 60000000000 := by decide
  rw [hminute] at hself
  unfold IsMinutes MinutesFit
  simp only [Duration.times, hminute]
  constructor
  · rintro ⟨hpos, heq⟩
    have hfit := hself.mp heq
    rw [heq] at hpos
    omega
  · rintro ⟨hpos, hle⟩
    have heq := hself.mpr ⟨by omega, by omega⟩
    rw [heq]
    omega

/-! ### When the row was told last -/

/-- While a row is firing, `last_notified_at` is the time of the last event told, a firing. -/
structure LastTold (row : AlertState) (told : List (ℤ × EventType)) : Prop where
  firing : row.state = .firing →
    ∃ before l, told = before ++ [(l, .firing)] ∧ row.lastNotifiedAt = some l

variable {row : AlertState} {told : List (ℤ × EventType)} {τ : Timing}

theorem LastTold.of_told {t : ℤ} (h : row.lastNotifiedAt = some t) :
    LastTold row (told ++ [(t, .firing)]) :=
  ⟨fun _ => ⟨told, t, rfl, h⟩⟩

theorem LastTold.of_not_firing (h : row.state ≠ .firing) : LastTold row told :=
  ⟨fun hf => absurd hf h⟩

theorem LastTold.evalStep (h : LastTold row told) (hc : Consistent row) (e : Evaluation) :
    LastTold (evalStep τ row e).1 (told ++ (Alerting.evalStep τ row e).2.toList) := by
  cases e with
  | error m d =>
    refine ⟨fun hf => ?_⟩
    simpa [Alerting.evalStep, recordError] using h.firing hf
  | condition now holds value dbNow =>
    cases holds with
    | false =>
      apply LastTold.of_not_firing
      rw [(evalStep_false τ row now value dbNow).1]
      decide
    | true =>
      obtain ⟨next, ev, heq, hstep⟩ := evalStep_true τ row now value dbNow hc
      rw [heq]
      cases hstep with
      | enter _ _ _ _ _ _ _ hlast => exact .of_told hlast
      | wait _ _ _ _ hstate _ _ _ => exact .of_not_firing (by rw [hstate]; decide)
      | renotify _ _ _ _ _ _ _ _ _ hlast => exact .of_told hlast
      | quiet hrow _ _ _ _ hlast =>
        refine ⟨fun _ => ?_⟩
        obtain ⟨before, l, htold, hl⟩ := h.firing hrow
        exact ⟨before, l, by simp [htold], hlast.trans hl⟩

theorem lastTold_run (τ : Timing) (es : List Evaluation) :
    LastTold (stateAfter τ initialState es) (notifications τ initialState es) := by
  induction es using List.reverseRecOn with
  | nil => exact .of_not_firing (by simp [stateAfter, initialState])
  | append_singleton es e ih =>
    rw [stateAfter_snoc, notifications_snoc]
    exact ih.evalStep (stateAfter_consistent τ initialState initialState_consistent es) e

/-! ### Debounce and interval in minutes -/

/-- No run takes the row into `firing` before the condition has held for `m` minutes. -/
def Debounces (τ : Timing) (m : ℤ) : Prop :=
  ∀ es now value dbNow, (stateAfter τ initialState es).state ≠ .firing →
    (stateAfter τ initialState (es ++ [.condition now true value dbNow])).state = .firing →
    ∃ t₀, firstTrue (es ++ [.condition now true value dbNow]) = some t₀ ∧ m*minute ≤ now-t₀

/-- No run repeats a firing less than `m` minutes after the one before it. -/
def Paces (τ : Timing) (m : ℤ) : Prop :=
  ∀ es now value dbNow, (stateAfter τ initialState es).state = .firing →
    (evalStep τ (stateAfter τ initialState es) (.condition now true value dbNow)).2 =
      some (now, .firing) →
    ∃ before l, notifications τ initialState es = before ++ [(l, .firing)] ∧ m*minute ≤ now-l

theorem debounces_of_isMinutes {m : ℤ} (h : IsMinutes τ.forMinutes m) : Debounces τ m := by
  intro es now value dbNow hbefore hafter
  have hc := stateAfter_consistent τ initialState initialState_consistent es
  rw [stateAfter_snoc] at hafter
  obtain ⟨-, t₀, hsince, hdue⟩ :=
    (enters_firing_iff τ h.1 _ hc now value dbNow).mp ⟨hbefore, hafter⟩
  rw [← stateAfter_snoc, conditionTrueSince_eq_firstTrue] at hsince
  exact ⟨t₀, hsince, h.2 ▸ hdue⟩

theorem paces_of_isMinutes {m : ℤ} {d : Duration} (hτ : τ.renotifyInterval = some d)
    (h : IsMinutes d m) : Paces τ m := by
  intro es now value dbNow hfiring htold
  have hc := stateAfter_consistent τ initialState initialState_consistent es
  obtain ⟨before, l, hlist, hl⟩ := (lastTold_run τ es).firing hfiring
  obtain ⟨next, ev, heq, hstep⟩ :=
    evalStep_true τ (stateAfter τ initialState es) now value dbNow hc
  rw [heq] at htold
  cases hstep with
  | enter _ hrow _ _ _ _ _ _ => exact absurd hfiring hrow
  | wait _ hrow _ _ _ _ _ _ => exact absurd hfiring hrow
  | quiet _ _ _ _ _ _ => cases htold
  | renotify r l' _ hr hl' hdue _ _ _ _ =>
    obtain rfl : d = r := Option.some.inj (hτ.symm.trans hr)
    obtain rfl : l = l' := Option.some.inj (hl.symm.trans hl')
    rw [le_timeSub_iff_of_nonneg d h.1] at hdue
    exact ⟨before, l, hlist, h.2 ▸ hdue⟩

/-- The durations of a rule are the minutes it was given, and its runs keep to them. -/
structure Honoured (r : RuleRequest) (τ : Timing) : Prop where
  forMinutes : IsMinutes τ.forMinutes r.forMinutes
  renotify : ∀ m ∈ r.renotifyIntervalMinutes, ∃ d ∈ τ.renotifyInterval, IsMinutes d m
  debounces : Debounces τ r.forMinutes
  paces : ∀ m ∈ r.renotifyIntervalMinutes, Paces τ m

/-- A rule that was accepted and stored is honoured just if its minutes are not negative and
at most the 153722867 that a `time.Duration` holds. -/
theorem rule_honoured_iff {r : RuleRequest} {row : RuleColumns}
    (h : handleCreateRule r = .ok row) :
    Honoured r row.timing ↔
      MinutesFit r.forMinutes ∧ ∀ m ∈ r.renotifyIntervalMinutes, MinutesFit m := by
  have hrow := handleCreateRule_eq_ok h
  have hfor : row.timing.forMinutes = .times r.forMinutes minute := by rw [hrow]; rfl
  have hrenotify : ∀ m ∈ r.renotifyIntervalMinutes,
      row.timing.renotifyInterval = some (.times m minute) := by
    intro m hm
    rw [hrow]
    simp only [RuleColumns.timing, Option.mem_def.mp hm, Option.map_some]
  constructor
  · intro hh
    refine ⟨?_, fun m hm => ?_⟩
    · rw [← times_isMinutes_iff, ← hfor]
      exact hh.forMinutes
    · obtain ⟨d, hd, hmin⟩ := hh.renotify m hm
      rw [hrenotify m hm, Option.mem_some_iff] at hd
      rw [← times_isMinutes_iff, hd]
      exact hmin
  · rintro ⟨hfit, hfits⟩
    have hexact : IsMinutes row.timing.forMinutes r.forMinutes := by
      rw [hfor]
      exact (times_isMinutes_iff _).mpr hfit
    have hexacts : ∀ m ∈ r.renotifyIntervalMinutes, IsMinutes (.times m minute) m :=
      fun m hm => (times_isMinutes_iff m).mpr (hfits m hm)
    exact {
      forMinutes := hexact
      renotify := fun m hm => ⟨_, hrenotify m hm, hexacts m hm⟩
      debounces := debounces_of_isMinutes hexact
      paces := fun m hm => paces_of_isMinutes (hrenotify m hm) (hexacts m hm) }

/-- An absence rule with the given minutes. -/
def absenceRule (forMinutes : ℤ) (renotify : Option ℤ) : RuleRequest :=
  { name := "quiet", query := "service=api", conditionType := "absence", comparator := none
    thresholdValue := none, evalIntervalSeconds := 60, forMinutes := forMinutes
    renotifyIntervalMinutes := renotify, notificationTargetID := "t1" }

theorem rule_honoured_five_minutes :
    ∃ row, handleCreateRule (absenceRule 5 (some 60)) = .ok row ∧
      Honoured (absenceRule 5 (some 60)) row.timing := by
  have hcreate : handleCreateRule (absenceRule 5 (some 60)) = .ok ⟨60, 5, some 60⟩ := rfl
  exact ⟨_, hcreate, (rule_honoured_iff hcreate).mpr ⟨by decide, by decide⟩⟩

/-- With one minute more than fits the debounce comes out negative, so that the rule fires on
the first true evaluation. -/
theorem one_minute_too_many :
    ∃ row, handleCreateRule (absenceRule 153722868 (some (-1))) = .ok row ∧
      row.timing.forMinutes.ns < 0 ∧
      (stateAfter row.timing initialState [.condition 0 true none 0]).state = .firing ∧
      ¬ Honoured (absenceRule 153722868 (some (-1))) row.timing := by
  refine ⟨⟨60, 153722868, some (-1)⟩, rfl, by decide, by decide, fun h => ?_⟩
  exact absurd h.forMinutes.1 (by decide)

end CairnObs.Alerting
