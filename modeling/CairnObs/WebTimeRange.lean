import CairnObs.QueryPrefix
import CairnObs.SqlGuard
import CairnObs.WebTimes

/-! The time range that is written in front of a query, by the web client for a dashboard and
by the optimizer as its one suggestion. -/
namespace CairnObs.Web
open QueryLang

/-- `injectTimeRange` of `api.ts`. -/
def injectTimeRange (query earliest latest : List Char) (zone : Zone) : List Char :=
  let clauses := ["earliest=".toList ++ toQueryTimeValue zone earliest] ++
    if latest ≠ [] ∧ latest ≠ "now".toList then ["latest=".toList ++ toQueryTimeValue zone latest]
    else []
  [' '].intercalate clauses ++ ' ' :: query

/-- `suggestMechanicalFix` of `aiapi`; no suggestion is the empty text. -/
def suggestMechanicalFix (originalQuery : String) : Compiled → String
  | .rawSQL _ => ""
  | .plan plan => if plan.hasTimeBound then "" else "earliest=-1h " ++ originalQuery

/-! ### Clauses as text -/

theorem lexed_eq (v : List Char) : lexed ('=' :: v) = symbol .eq :: lexed v :=
  lexed_of_cons (c := '=') (show skipWhitespace ('=' :: v) = '=' :: v from rfl)

theorem lexed_earliest (v : List Char) :
    lexed ("earliest=".toList ++ v) = word "earliest" :: symbol .eq :: lexed v := by
  rw [← lexed_eq]
  exact lexed_of_cons (c := 'e') (show skipWhitespace _ = 'e' :: ("arliest=".toList ++ v) from rfl)

theorem lexed_latest (v : List Char) :
    lexed ("latest=".toList ++ v) = word "latest" :: symbol .eq :: lexed v := by
  rw [← lexed_eq]
  exact lexed_of_cons (c := 'l') (show skipWhitespace _ = 'l' :: ("atest=".toList ++ v) from rfl)

theorem lexed_space (cs : List Char) : lexed (' ' :: cs) = lexed cs := lexed_of_skip_eq rfl

variable {now : ℤ}

/-- A value, a space and what follows. -/
theorem lexed_value {t : ℤ} {v : List Char} (h : AcceptsTime now v t) (zone : Zone)
    (rest : List Char) :
    lexed (toQueryTimeValue zone v ++ ' ' :: rest) = lexed v ++ lexed rest := by
  obtain ⟨expr, hlex, -⟩ := h.lexemes
  obtain ⟨hvalue, htrim⟩ := toQueryTimeValue_accepted h zone
  have hclean : Clean (JsStd.trim v) := clean_of_unstopped (htrim ▸ hlex.unstopped)
  rw [hvalue, hclean.append (breaks_cons rfl (by decide) rest), htrim, lexed_space]

/-- The end of the range: a time, or none for an empty text and for `now`. -/
def EndsRange (now : ℤ) (latest : List Char) (t : ℤ) : Prop :=
  (latest = [] ∨ latest = "now".toList) ∧ t = zeroTime ∨ AcceptsTime now latest t

/-- Neither text is a time of the query language. -/
theorem acceptsTime_ne {t : ℤ} {v : List Char} (h : AcceptsTime now v t) :
    v ≠ [] ∧ v ≠ "now".toList := by
  obtain ⟨expr, hlex, -⟩ := h.lexemes
  constructor
  · rintro rfl
    rw [lexed_of_nil rfl] at hlex
    cases hlex
  · rintro rfl
    have hnow : lexed "now".toList = [word "now"] := by
      rw [lexed_of_cons rfl]
      exact congrArg _ (lexed_of_nil rfl)
    rw [hnow] at hlex
    generalize hls : [word "now"] = ls at hlex
    have hlen := congrArg List.length hls
    cases hlex with
    | absolute s => cases hls
    | unsigned unit hn => cases hlen
    | signed sign s unit hn => cases hlen

variable {earliest latest query : List Char} {language : Language}

theorem injectTimeRange_open {zone : Zone} (h : latest = [] ∨ latest = "now".toList) :
    injectTimeRange query earliest latest zone =
      "earliest=".toList ++ (toQueryTimeValue zone earliest ++ ' ' :: query) := by
  have hno : ¬ (latest ≠ [] ∧ latest ≠ "now".toList) := by
    rintro ⟨hnil, hnow⟩
    rcases h with h | h
    · exact hnil h
    · exact hnow h
  rw [injectTimeRange, if_neg hno, ← List.append_assoc, List.append_nil]
  exact congrArg (· ++ ' ' :: query) (List.append_nil _)

theorem injectTimeRange_closed {zone : Zone} (h : latest ≠ [] ∧ latest ≠ "now".toList) :
    injectTimeRange query earliest latest zone =
      "earliest=".toList ++ (toQueryTimeValue zone earliest ++ ' ' ::
        ("latest=".toList ++ (toQueryTimeValue zone latest ++ ' ' :: query))) := by
  have hjoin (a b c d : List Char) : [' '].intercalate ([a ++ b] ++ [c ++ d]) ++ ' ' :: query =
      a ++ (b ++ ' ' :: (c ++ (d ++ ' ' :: query))) := by
    simp [List.intercalate]
  rw [injectTimeRange, if_pos h]
  exact hjoin _ _ _ _

theorem injectTimeRange_start (query earliest latest : List Char) (zone : Zone) :
    ∃ rest, injectTimeRange query earliest latest zone = "earliest=".toList ++ rest := by
  by_cases h : latest = [] ∨ latest = "now".toList
  · exact ⟨_, injectTimeRange_open h⟩
  · exact ⟨_, injectTimeRange_closed (not_or.mp h)⟩

/-- The lexemes of the injected text, and the range its clauses set. -/
theorem injectTimeRange_lexed {te tl : ℤ} (he : AcceptsTime now earliest te)
    (hl : EndsRange now latest tl) (query : List Char) (zone : Zone) :
    ∃ (c : Clause now) (cs : List (Clause now)), rangeOf (c :: cs) = ⟨te, tl⟩ ∧
      lexed (injectTimeRange query earliest latest zone) =
        (c :: cs).flatMap Clause.lexemes ++ lexed query := by
  obtain ⟨c, hkind, htime, hlexemes⟩ := he.clause .earliest
  rcases hl with ⟨hlatest, rfl⟩ | hl
  · refine ⟨c, [], ?_, ?_⟩
    · rw [rangeOf, List.foldl_cons, List.foldl_nil, hkind, htime]
      rfl
    · rw [injectTimeRange_open hlatest, lexed_earliest, lexed_value he, List.flatMap_singleton,
        hlexemes]
      rfl
  · obtain ⟨d, hkind', htime', hlexemes'⟩ := hl.clause .latest
    refine ⟨c, [d], ?_, ?_⟩
    · rw [rangeOf, List.foldl_cons, List.foldl_cons, List.foldl_nil, hkind, htime, hkind', htime']
      rfl
    · rw [injectTimeRange_closed (acceptsTime_ne hl), lexed_earliest, lexed_value he, lexed_latest,
        lexed_value hl, List.flatMap_cons, List.flatMap_singleton, hlexemes, hlexemes',
        List.append_assoc]
      rfl

/-- A text that begins with such a clause is no SQL. -/
theorem isSQL_clause (h : language ≠ .sql) (rest : List Char) :
    isSQL ("earliest=".toList ++ rest) language = false := by
  cases language with
  | auto =>
    show looksLikeSQL _ = false
    rw [looksLikeSQL_eq]
    rfl
  | sql => exact absurd rfl h
  | spl => rfl

theorem compile_plan_iff {query : String} {plan : Plan} :
    compile query language now = .ok (.plan plan) ↔
      isSQL query.toList language = false ∧ compilePipe query now = .ok plan := by
  unfold compile
  split
  · rename_i hsql
    rw [hsql]
    refine iff_of_false ?_ (fun h => absurd h.1 (by decide))
    split <;> exact nofun
  · rename_i hsql
    rw [Bool.not_eq_true] at hsql
    cases compilePipe query now with
    | error e => simp
    | ok p => simp [hsql]

theorem not_sql (h : isSQL query language = false) : language ≠ .sql := by
  rintro rfl
  cases h

theorem accepts_hour (now : ℤ) : AcceptsTime now "-1h".toList (now-3600*second) :=
  ⟨.relative .minus 1 .h, [⟨.eof, "", 3⟩], by decide +kernel, rfl, rfl⟩

theorem suggestMechanicalFix_eq (zone : Zone) (query : String) {plan : Plan}
    (h : plan.hasTimeBound = false) : (suggestMechanicalFix query (.plan plan)).toList =
      injectTimeRange query.toList "-1h".toList [] zone := by
  rw [suggestMechanicalFix, h, if_neg Bool.false_ne_true, String.toList_append]
  rfl

/-- A time range in front of a query without one sets the range and leaves the rest of the plan
as it was, just if the query takes it. -/
theorem added_range_keeps_plan_iff {input : String} {language : Language} {now : ℤ} {plan : Plan}
    (h : compile input language now = .ok (.plan plan)) (hplan : plan.hasTimeBound = false) :
    (∀ (earliest latest : List Char) (zone : Zone) (te tl : ℤ), AcceptsTime now earliest te →
      EndsRange now latest tl →
      (compile (String.ofList (injectTimeRange input.toList earliest latest zone)) language now =
        .ok (.plan { plan with timeRange := some ⟨te, tl⟩ }) ↔ TakesBounds now input ⟨te, tl⟩)) ∧
    (compile (suggestMechanicalFix input (.plan plan)) language now =
        .ok (.plan { plan with timeRange := some ⟨now-3600*second, zeroTime⟩ }) ↔
      TakesBounds now input ⟨now-3600*second, zeroTime⟩) := by
  obtain ⟨hsql, hpipe⟩ := compile_plan_iff.mp h
  have hinject (earliest latest : List Char) (zone : Zone) (te tl : ℤ)
      (he : AcceptsTime now earliest te) (hl : EndsRange now latest tl) (text : String)
      (htext : text.toList = injectTimeRange input.toList earliest latest zone) :
      compile text language now = .ok (.plan { plan with timeRange := some ⟨te, tl⟩ }) ↔
        TakesBounds now input ⟨te, tl⟩ := by
    obtain ⟨c, cs, hrange, hlex⟩ := injectTimeRange_lexed he hl input.toList zone
    rw [← htext] at hlex
    have hstart : isSQL text.toList language = false := by
      obtain ⟨rest, hrest⟩ := injectTimeRange_start input.toList earliest latest zone
      rw [htext, hrest]
      exact isSQL_clause (not_sql hsql) rest
    rw [compile_plan_iff, ← hrange, ← compilePipe_clauses_iff hpipe hplan c cs hlex]
    exact and_iff_right hstart
  refine ⟨?_, ?_⟩
  · intro earliest latest zone te tl he hl
    exact hinject earliest latest zone te tl he hl _ String.toList_ofList
  · exact hinject _ [] (fun _ => 0) _ _ (accepts_hour now) (.inl ⟨.inl rfl, rfl⟩) _
      (suggestMechanicalFix_eq _ input hplan)

theorem added_range_keeps_error_count :
    ∃ plan, compile "level=error | stats count by host" .auto 0 = .ok (.plan plan) ∧
      plan.hasTimeBound = false ∧
      compile (suggestMechanicalFix "level=error | stats count by host" (.plan plan)) .auto 0 =
        .ok (.plan { plan with timeRange := some ⟨-3600*second, zeroTime⟩ }) := by
  refine ⟨⟨[], [⟨"level", .eq, "error"⟩], none, some ⟨[⟨.count, "", "count"⟩], ["host"]⟩, [], [],
    none⟩, by decide +kernel, by decide, ?_⟩
  refine (added_range_keeps_plan_iff (by decide +kernel) (by decide)).2.mpr ⟨by decide +kernel,
    ⟨by decide +kernel, by decide +kernel⟩, ?_⟩
  intro q hq kind _
  have hparse : parse "level=error | stats count by host" =
      .ok ⟨⟨[.comparison "level" .eq "error"], []⟩, [.statsStage [⟨.count, "", ""⟩] ["host"]]⟩ := by
    decide +kernel
  rw [hparse] at hq
  cases hq
  rfl

/-- Behind a clause a stage at the front is a row of words, and a leading `and` no word. -/
theorem leading_stage_lost :
    (∃ plan plan', compile "stats count" .auto 0 = .ok (.plan plan) ∧
      plan.hasTimeBound = false ∧ AcceptsTime 0 "-1h".toList (-3600*second) ∧
      compile (String.ofList (injectTimeRange "stats count".toList "-1h".toList "now".toList
        (fun _ => 0))) .auto 0 = .ok (.plan plan') ∧
      compile (suggestMechanicalFix "stats count" (.plan plan)) .auto 0 = .ok (.plan plan') ∧
      plan.aggregation = some ⟨[⟨.count, "", "count"⟩], []⟩ ∧ plan'.aggregation = none ∧
      plan'.textSearch = ["stats AND count"]) ∧
    ∃ plan plan', compile "and foo" .auto 0 = .ok (.plan plan) ∧ plan.hasTimeBound = false ∧
      compile (suggestMechanicalFix "and foo" (.plan plan)) .auto 0 = .ok (.plan plan') ∧
      plan.textSearch = ["and AND foo"] ∧ plan'.textSearch = ["foo"] := by
  refine ⟨⟨⟨[], [], none, some ⟨[⟨.count, "", "count"⟩], []⟩, [], [], none⟩,
    ⟨["stats AND count"], [], some ⟨-3600*second, zeroTime⟩, none, [], [], none⟩,
    by decide +kernel, by decide, ?_, by decide +kernel, by decide +kernel, rfl, rfl, rfl⟩,
    ⟨["and AND foo"], [], none, none, [], [], none⟩,
    ⟨["foo"], [], some ⟨-3600*second, zeroTime⟩, none, [], [], none⟩,
    by decide +kernel, by decide, by decide +kernel, rfl, rfl⟩
  have hhour := accepts_hour 0
  rw [zero_sub, ← neg_mul] at hhour
  exact hhour

end CairnObs.Web
