import CairnObs.SqlGuard
import CairnObs.WebTimeRange

/-! `normalizeQueryTimes` of the web client, which rewrites the times in a query that someone
typed. It finds them by a regular expression, in strings and in longer names too. -/
namespace CairnObs.Web
open QueryLang
open TextSearch hiding trim
open JsStd (trim)

/-! ### The pattern -/

/-- `[^\s|]`. -/
def isBare (c : Char) : Bool := !JsStd.isSpace c && c != '|'

/-- How long `(?::\d{2})?` is. -/
def secondsLength : List Char → ℕ
  | ':' :: a :: b :: _ => if isDigit a && isDigit b then 3 else 0
  | _ => 0

/-- How long `(?:\.\d+)?` is. -/
def fractionLength : List Char → ℕ
  | '.' :: cs => if (cs.takeWhile isDigit).isEmpty then 0 else (cs.takeWhile isDigit).length + 1
  | _ => 0

/-- How long `(?:[ ]\d{2}:\d{2}(?::\d{2})?(?:\.\d+)?)?` is. -/
def clockLength : List Char → ℕ
  | ' ' :: a :: b :: ':' :: c :: d :: cs =>
    if isDigit a && isDigit b && isDigit c && isDigit d then
      6 + secondsLength cs + fractionLength (cs.drop (secondsLength cs))
    else 0
  | _ => 0

/-- How long `"[^"]*"` is, for the quote `q`. -/
def quotedLength (q : Char) : List Char → Option ℕ
  | [] => none
  | c :: cs => if c = q ∧ q ∈ cs then some ((cs.takeWhile (· != q)).length + 2) else none

def bareLength (cs : List Char) : Option ℕ :=
  if (cs.takeWhile isBare).isEmpty then none
  else some ((cs.takeWhile isBare).length + clockLength (cs.dropWhile isBare))

def valueLength (cs : List Char) : Option ℕ :=
  (quotedLength '"' cs).or ((quotedLength '\'' cs).or (bareLength cs))

structure Clause where
  field : List Char
  value : List Char
  deriving DecidableEq

/-- `\b(earliest|latest)`. -/
def clauseField (prev : Option Char) (cs : List Char) : Option (List Char) :=
  if boundary prev cs.head? then
    ["earliest".toList, "latest".toList].find? (fun field => field.isPrefixOf cs)
  else none

/-- `timeClause` at a position. Blanks around the sign are skipped as far as they go: no value
begins with one. -/
def timeClause (prev : Option Char) (cs : List Char) : Option (ℕ × Clause) := do
  let field ← clauseField prev cs
  let afterSign ← skipChar '=' ((cs.drop field.length).dropWhile JsStd.isSpace)
  let text := afterSign.dropWhile JsStd.isSpace
  let n ← valueLength text
  some (cs.length - (text.drop n).length - 1, ⟨field, text.take n⟩)

/-! ### The rewriting -/

def rewriteClause (zone : Zone) (whole : List Char) (clause : Clause) : List Char :=
  if toQueryTimeValue zone clause.value = clause.value then whole
  else clause.field ++ '=' :: toQueryTimeValue zone clause.value

def normalizeQueryTimes (zone : Zone) (query : List Char) : List Char :=
  replaceAll timeClause (rewriteClause zone) none query

/-- The values of the clauses that the pattern finds. -/
def clauseValues (query : List Char) : List (List Char) :=
  (allMatches timeClause none query).map (fun x => x.2.value)

/-- The value without the quotes around it. -/
def content (v : List Char) : List Char := ((unwrap '"' v).or (unwrap '\'' v)).getD v

/-- Relative, with an offset, or a date without one, in quotes or not. -/
def timeLike (v : List Char) : Bool :=
  isRelative (content v) || hasExplicitOffset (content v) ||
    (naiveDateTime (trim (content v))).isSome

/-- The value does not look like a time, or it is relative and not in quotes, or in double quotes
and with an offset. -/
def Untouched (v : List Char) : Prop :=
  timeLike v = false ∨ isRelative v = true ∨ ∃ w, v = quote w ∧ hasExplicitOffset w = true

example : normalizeQueryTimes (fun _ => 0) "service=api earliest=2026-08-22 09:00 | head 5".toList =
    "service=api earliest=\"2026-08-22T09:00:00.000Z\" | head 5".toList := by decide +kernel

/-! ### Values have no blanks at their ends -/

theorem isSpace_of_isDigit {c : Char} (h : isDigit c = true) : JsStd.isSpace c = false := by
  by_contra hspace
  have houtside := trims_isSpace.outside c (Bool.not_eq_false _ ▸ hspace)
  simp only [isOutside, isIdentPart, h, Bool.or_true, Bool.true_or, Bool.not_true,
    Bool.false_and] at houtside
  cases houtside

theorem take_takeWhile (p : Char → Bool) (cs : List Char) (k : ℕ) :
    cs.take ((cs.takeWhile p).length + k) = cs.takeWhile p ++ (cs.dropWhile p).take k := by
  have htake : (cs.takeWhile p ++ cs.dropWhile p).take ((cs.takeWhile p).length + k) =
      cs.takeWhile p ++ (cs.dropWhile p).take k := List.take_length_add_append k
  rwa [List.takeWhile_append_dropWhile] at htake

/-- The last character, if there is one, is no blank. -/
def EndsFilled (cs : List Char) : Prop := ∀ c ∈ cs.getLast?, JsStd.isSpace c = false

theorem EndsFilled.append {pre post : List Char} (hpre : EndsFilled pre) (hpost : EndsFilled post) :
    EndsFilled (pre ++ post) := by
  intro c hc
  rw [List.getLast?_append] at hc
  cases hlast : post.getLast? with
  | none =>
    rw [hlast, Option.none_or] at hc
    exact hpre c hc
  | some d =>
    rw [hlast, Option.some_or] at hc
    exact hpost c (hlast ▸ hc)

variable {cs v : List Char}

theorem endsFilled_of_forall (h : ∀ c ∈ cs, JsStd.isSpace c = false) :
    EndsFilled cs := fun c hc => h c (List.mem_of_getLast? hc)

theorem endsFilled_seconds (cs : List Char) : EndsFilled (cs.take (secondsLength cs)) := by
  unfold secondsLength
  split
  · rename_i a b rest
    split_ifs with hdigits
    · obtain ⟨-, hb⟩ := Bool.and_eq_true_iff.mp hdigits
      intro c hc
      obtain rfl : b = c := Option.some.inj hc
      exact isSpace_of_isDigit hb
    · intro c hc
      cases hc
  · intro c hc
    cases hc

theorem endsFilled_fraction (cs : List Char) : EndsFilled (cs.take (fractionLength cs)) := by
  unfold fractionLength
  split
  · rename_i rest
    split_ifs
    · intro c hc
      cases hc
    · have htake := take_takeWhile isDigit rest 0
      rw [Nat.add_zero, List.take_zero, List.append_nil] at htake
      rw [List.take_succ_cons, htake]
      have hdot : EndsFilled ['.'] := by
        intro c hc
        obtain rfl : '.' = c := Option.some.inj hc
        rfl
      refine hdot.append (endsFilled_of_forall fun c hc => ?_)
      exact isSpace_of_isDigit (List.mem_takeWhile_imp hc)
  · intro c hc
    cases hc

theorem endsFilled_clock (cs : List Char) : EndsFilled (cs.take (clockLength cs)) := by
  unfold clockLength
  split
  · rename_i a b c d rest
    split_ifs with hdigits
    · have hminutes : EndsFilled [' ', a, b, ':', c, d] := by
        intro e he
        obtain rfl : d = e := Option.some.inj he
        exact isSpace_of_isDigit (Bool.and_eq_true_iff.mp hdigits).2
      have hsplit : (' ' :: a :: b :: ':' :: c :: d :: rest).take
          (6 + secondsLength rest + fractionLength (rest.drop (secondsLength rest))) =
          [' ', a, b, ':', c, d] ++ (rest.take (secondsLength rest) ++
            (rest.drop (secondsLength rest)).take
              (fractionLength (rest.drop (secondsLength rest)))) := by
        rw [← List.take_add, Nat.add_assoc, Nat.add_comm 6]
        rfl
      rw [hsplit]
      exact hminutes.append ((endsFilled_seconds rest).append (endsFilled_fraction _))
    · intro e he
      cases he
  · intro e he
    cases he

variable {q : Char} {n : ℕ}

/-- The text up to a quote that comes. -/
theorem take_quoted (h : q ∈ cs) :
    cs.take ((cs.takeWhile (· != q)).length + 1) = cs.takeWhile (· != q) ++ [q] := by
  rw [take_takeWhile]
  cases hdrop : cs.dropWhile (· != q) with
  | nil =>
    have hall := List.dropWhile_eq_nil_iff.mp hdrop q h
    rw [bne_self_eq_false] at hall
    cases hall
  | cons d rest =>
    have hd := List.head?_dropWhile_not (· != q) cs
    rw [hdrop] at hd
    obtain rfl : d = q := by simpa using hd
    rfl

theorem trim_quoted (hq : JsStd.isSpace q = false) (h : quotedLength q cs = some n) :
    trim (cs.take n) = cs.take n := by
  cases cs with
  | nil => cases h
  | cons c cs =>
    simp only [quotedLength] at h
    split_ifs at h with hquoted
    obtain ⟨rfl, hclosed⟩ := hquoted
    obtain rfl := Option.some.inj h
    rw [List.take_succ_cons, take_quoted hclosed]
    apply trim_eq_self
    · intro d hd
      obtain rfl : c = d := Option.some.inj hd
      exact hq
    · intro d hd
      rw [← List.cons_append, List.getLast?_concat] at hd
      obtain rfl : c = d := Option.some.inj hd
      exact hq

theorem trim_bare (h : bareLength cs = some n) : trim (cs.take n) = cs.take n := by
  have hbare {c : Char} (hc : c ∈ cs.takeWhile isBare) : JsStd.isSpace c = false := by
    have hbare := List.mem_takeWhile_imp hc
    exact (Bool.not_eq_true' _).mp (Bool.and_eq_true_iff.mp hbare).1
  unfold bareLength at h
  split_ifs at h with hrun
  obtain rfl := Option.some.inj h
  rw [take_takeWhile]
  apply trim_eq_self
  · intro c hc
    rw [List.head?_append_of_ne_nil _ (fun hnil => hrun (by rw [hnil]; rfl))] at hc
    exact hbare (List.mem_of_mem_head? hc)
  · exact (endsFilled_of_forall fun c hc => hbare hc).append (endsFilled_clock _)

theorem trim_value (h : valueLength cs = some n) : trim (cs.take n) = cs.take n := by
  rcases Option.or_eq_some_iff.mp h with h | ⟨-, h⟩
  · exact trim_quoted rfl h
  rcases Option.or_eq_some_iff.mp h with h | ⟨-, h⟩
  · exact trim_quoted rfl h
  · exact trim_bare h

theorem trim_clauseValue {query : List Char} (h : v ∈ clauseValues query) : trim v = v := by
  obtain ⟨x, hx, rfl⟩ := List.mem_map.mp h
  refine of_mem_allMatches (P := fun _ clause => trim clause.value = clause.value) ?_ hx
  intro prev c cs n clause hclause
  obtain ⟨field, -, hclause⟩ := Option.bind_eq_some_iff.mp hclause
  obtain ⟨afterSign, -, hclause⟩ := Option.bind_eq_some_iff.mp hclause
  obtain ⟨m, hm, hclause⟩ := Option.bind_eq_some_iff.mp hclause
  cases hclause
  exact trim_value hm

/-! ### Queries that keep their plan -/

theorem unwrap_eq_some {w : List Char} (h : unwrap q v = some w) : v = q :: (w ++ [q]) := by
  cases v with
  | nil => cases h
  | cons c rest =>
    simp only [unwrap] at h
    split_ifs at h with hquoted
    obtain ⟨rfl, hlast, -⟩ := hquoted
    obtain rfl := Option.some.inj h
    rw [List.dropLast_append_getLast? _ hlast]

/-- In double quotes, in single quotes, or taken as it is. -/
theorem content_cases (v : List Char) :
    v = quote (content v) ∨ v = '\'' :: (content v ++ ['\'']) ∨ content v = v := by
  unfold content
  cases hdouble : unwrap '"' v with
  | some w => exact .inl (unwrap_eq_some hdouble)
  | none =>
    cases hsingle : unwrap '\'' v with
    | some w => exact .inr (.inl (unwrap_eq_some hsingle))
    | none => exact .inr (.inr rfl)

theorem quote_injective : Function.Injective quote := by
  intro v w h
  exact List.append_cancel_right (List.cons.inj h).2

/-- What is put in double quotes has an offset: a date without one is converted to UTC. -/
theorem toQueryTimeValue_cases {zone : Zone} (htrim : trim v = v) :
    timeLike v = false ∧ toQueryTimeValue zone v = v ∨
    isRelative (content v) = true ∧ toQueryTimeValue zone v = content v ∨
    isRelative (content v) = false ∧ hasExplicitOffset (content v) = true ∧
      toQueryTimeValue zone v = quote (content v) ∨
    (naiveDateTime (trim (content v))).isSome = true ∧ isRelative (content v) = false ∧
      hasExplicitOffset (content v) = false ∧
      ∃ t, toQueryTimeValue zone v = quote (JsStd.toISOString t) := by
  by_cases hnil : v = []
  · subst hnil
    exact .inl ⟨by decide, rfl⟩
  have hvalue : toQueryTimeValue zone v =
      if isRelative (content v) then content v
      else if hasExplicitOffset (content v) then quote (content v)
      else (naiveToUTC zone (content v)).elim v quote := by
    simp only [toQueryTimeValue, htrim, if_neg hnil]
    rw [← content]
    cases naiveToUTC zone (content v) <;> rfl
  rw [hvalue]
  cases hrelative : isRelative (content v) with
  | true => exact .inr (.inl ⟨rfl, rfl⟩)
  | false =>
    cases hoffset : hasExplicitOffset (content v) with
    | true => exact .inr (.inr (.inl ⟨rfl, rfl, rfl⟩))
    | false =>
      cases hnaive : naiveDateTime (trim (content v)) with
      | none =>
        rw [naiveToUTC_of_none hnaive, timeLike, hrelative, hoffset, hnaive]
        exact .inl ⟨rfl, rfl⟩
      | some n =>
        rw [naiveToUTC, hnaive]
        exact .inr (.inr (.inr ⟨rfl, rfl, rfl, _, rfl⟩))

theorem content_quote (w : List Char) : content (quote w) = w ∨ content (quote w) = quote w := by
  rcases content_cases (quote w) with h | h | h
  · exact .inl (quote_injective h).symm
  · cases (List.cons.inj h).1
  · exact .inr h

/-- A relative value is not in quotes. -/
theorem content_of_isRelative (h : isRelative v = true) : content v = v := by
  rcases content_cases v with hquote | hquote | hsame
  · rw [hquote, isRelative_quote] at h
    cases h
  · rw [hquote] at h
    rcases isRelative_first h with h | h <;> exact absurd h (by decide)
  · exact hsame

theorem hasExplicitOffset_toISOString (t : ℤ) : hasExplicitOffset (JsStd.toISOString t) = true := by
  rw [JsStd.toISOString_eq, JsStd.CivilTime.text, hasExplicitOffset, List.reverse_append]
  rfl

theorem toQueryTimeValue_eq_self_iff {zone : Zone} (htrim : trim v = v) :
    toQueryTimeValue zone v = v ↔ Untouched v := by
  rcases @toQueryTimeValue_cases _ zone htrim with
    ⟨hnot, hself⟩ | ⟨hrel, hvalue⟩ | ⟨hrel, hoffset, hvalue⟩ | ⟨hnaive, hrel, hoffset, t, hvalue⟩
  · exact iff_of_true hself (.inl hnot)
  · -- A relative value loses its quotes.
    rw [hvalue]
    constructor
    · intro hsame
      exact .inr (.inl (hsame ▸ hrel))
    · rintro (hnot | hself | ⟨w, rfl, hw⟩)
      · simp [timeLike, hrel] at hnot
      · exact content_of_isRelative hself
      · rcases content_quote w with hcontent | hcontent
        · rw [hcontent] at hrel
          rw [hasExplicitOffset_of_isRelative hrel] at hw
          cases hw
        · exact hcontent
  · -- A value with an offset gets double quotes.
    rw [hvalue]
    constructor
    · intro hsame
      exact .inr (.inr ⟨_, hsame.symm, hoffset⟩)
    · rintro (hnot | hself | ⟨w, rfl, hw⟩)
      · simp [timeLike, hoffset] at hnot
      · rw [content_of_isRelative hself, hself] at hrel
        cases hrel
      · rcases content_quote w with hcontent | hcontent
        · rw [hcontent]
        · rw [hcontent, hasExplicitOffset_quote] at hoffset
          cases hoffset
  · -- A date without an offset is replaced by one with an offset.
    have hquoted {w : List Char} (hw : hasExplicitOffset w = true) : v ≠ quote w := by
      rintro rfl
      rcases content_quote w with hcontent | hcontent
      · rw [hcontent, hw] at hoffset
        cases hoffset
      · rw [hcontent, naiveDateTime_quote] at hnaive
        cases hnaive
    rw [hvalue]
    refine iff_of_false (hquoted (hasExplicitOffset_toISOString t)).symm ?_
    rintro (hnot | hself | ⟨w, hv, hw⟩)
    · simp [timeLike, hnaive] at hnot
    · rw [content_of_isRelative hself, hself] at hrel
      cases hrel
    · exact hquoted hw hv

/-- Among them are the times that the query language accepts. -/
theorem untouched_of_accepts {now t : ℤ} (htrim : trim v = v) (h : AcceptsTime now v t) :
    Untouched v :=
  (toQueryTimeValue_eq_self_iff htrim).mp ((toQueryTimeValue_accepted h (fun _ => 0)).1.trans htrim)

/-- A query is left as it is, if nothing behind `earliest=` and `latest=` is touched, in strings
and in longer names either. -/
theorem normalizeQueryTimes_eq_self {query : List Char} (h : ∀ v ∈ clauseValues query, Untouched v)
    (zone : Zone) : normalizeQueryTimes zone query = query := by
  apply replaceAll_eq_self
  intro x hx
  have hv : x.2.value ∈ clauseValues query := List.mem_map.mpr ⟨x, hx, rfl⟩
  exact if_pos ((toQueryTimeValue_eq_self_iff (trim_clauseValue hv)).mpr (h _ hv))

theorem normalizeQueryTimes_keeps_plan {query : String} {now : ℤ}
    (h : ∀ v ∈ clauseValues query.toList, Untouched v) (zone : Zone) (language : Language)
    (plan : Plan) (hplan : compile query language now = .ok (.plan plan)) :
    compile (String.ofList (normalizeQueryTimes zone query.toList)) language now =
      .ok (.plan plan) := by
  rw [normalizeQueryTimes_eq_self h zone, String.ofList_toList]
  exact hplan

theorem typed_times_keep_plan :
    compile (String.ofList (normalizeQueryTimes (fun _ => -360)
      "earliest=-1h job.latest=now x.latest=\"build-0000\" y.latest=unknown".toList)) .auto 0 =
        .ok (.plan ⟨[], [⟨"job.latest", .eq, "now"⟩, ⟨"x.latest", .eq, "build-0000"⟩,
          ⟨"y.latest", .eq, "unknown"⟩], some ⟨-3600*second, zeroTime⟩, none, [], [], none⟩) := by
  have hvalues : clauseValues
      "earliest=-1h job.latest=now x.latest=\"build-0000\" y.latest=unknown".toList =
        ["-1h".toList, "now".toList, quote "build-0000".toList, "unknown".toList] := by
    decide +kernel
  refine normalizeQueryTimes_keeps_plan ?_ _ _ _ (by decide +kernel)
  intro v hv
  rw [hvalues] at hv
  simp only [List.mem_cons, List.not_mem_nil, or_false] at hv
  rcases hv with rfl | rfl | rfl | rfl
  · exact untouched_of_accepts (by decide +kernel) (accepts_hour 0)
  · exact .inr (.inl rfl)
  · exact .inr (.inr ⟨_, rfl, rfl⟩)
  · exact .inl (by decide +kernel)

/-- A date in a phrase ends the phrase, one in a longer name is another value, and a number apart
from its unit looks like an offset. -/
theorem typed_times_change_plan :
    (∃ plan error, compile "\"earliest=2026-08-22 foo\"" .auto 0 = .ok (.plan plan) ∧
      compile (String.ofList (normalizeQueryTimes (fun _ => 0)
        "\"earliest=2026-08-22 foo\"".toList)) .auto 0 = .error error) ∧
    (∃ plan plan', compile "job.earliest=\"2026-08-22\"" .auto 0 = .ok (.plan plan) ∧
      compile (String.ofList (normalizeQueryTimes (fun _ => 0)
        "job.earliest=\"2026-08-22\"".toList)) .auto 0 = .ok (.plan plan') ∧
      plan.filters = [⟨"job.earliest", .eq, "2026-08-22"⟩] ∧
      plan'.filters = [⟨"job.earliest", .eq, "2026-08-22T00:00:00.000Z"⟩]) ∧
    ∃ plan error, compile "earliest=-1234 h" .auto 0 = .ok (.plan plan) ∧
      compile (String.ofList (normalizeQueryTimes (fun _ => 0) "earliest=-1234 h".toList)) .auto 0 =
        .error error := by
  refine ⟨⟨⟨["\"earliest=2026-08-22 foo\""], [], none, none, [], [], none⟩,
    .query (.parse (.unexpected ⟨.number, "2026", 11⟩)), by decide +kernel, by decide +kernel⟩,
    ⟨⟨[], [⟨"job.earliest", .eq, "2026-08-22"⟩], none, none, [], [], none⟩,
      ⟨[], [⟨"job.earliest", .eq, "2026-08-22T00:00:00.000Z"⟩], none, none, [], [], none⟩,
      by decide +kernel, by decide +kernel, rfl, rfl⟩,
    ⟨[], [], some ⟨-4442400*second, zeroTime⟩, none, [], [], none⟩,
    .query (.invalidTimestamp "-1234"), by decide +kernel, by decide +kernel⟩

end CairnObs.Web
