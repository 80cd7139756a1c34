import CairnObs.JsStd
import CairnObs.QueryClauses

/-! The times a user types, `querytime.ts` of the web client: how they are turned into what
the query language accepts, and that a time it accepts already is left alone. -/
namespace CairnObs.Web
open Fallible QueryLang
open JsStd (trim)

/-! ### Times without an offset -/

/-- The offset of the display zone from UTC in minutes, at an instant in milliseconds. -/
abbrev Zone := ℤ → ℤ

/-- `(\d{n})`. -/
def takeDigits (n : ℕ) (cs : List Char) : Option (ℕ × List Char) :=
  if (cs.take n).length = n ∧ (cs.take n).all isDigit then
    some (digitsValue (cs.take n), cs.drop n)
  else none

structure Naive where
  year : ℕ
  month : ℕ
  day : ℕ
  hour : ℕ
  min : ℕ
  sec : ℕ
  frac : List Char
  deriving DecidableEq

/-- `(?::(\d{2}))?`. -/
def naiveSeconds (cs : List Char) : ℕ × List Char :=
  match skipChar ':' cs with
  | none => (0, cs)
  | some rest => (takeDigits 2 rest).getD (0, cs)

/-- `(\.\d+)?$`, without the dot. -/
def naiveFraction (cs : List Char) : Option (List Char) :=
  if cs = [] then some []
  else match skipChar '.' cs with
    | none => none
    | some ds => if ds ≠ [] ∧ ds.all isDigit then some ds else none

/-- `(?:[T ](\d{2}):(\d{2})(?::(\d{2}))?(\.\d+)?)?$` behind a date. -/
def naiveClock (year month day : ℕ) : List Char → Option Naive
  | [] => some ⟨year, month, day, 0, 0, 0, []⟩
  | sep :: cs =>
    if sep = 'T' ∨ sep = ' ' then do
      let (hour, cs) ← takeDigits 2 cs
      let cs ← skipChar ':' cs
      let (min, cs) ← takeDigits 2 cs
      let frac ← naiveFraction (naiveSeconds cs).2
      some ⟨year, month, day, hour, min, (naiveSeconds cs).1, frac⟩
    else none

def naiveDateTime (cs : List Char) : Option Naive := do
  let (year, cs) ← takeDigits 4 cs
  let cs ← skipChar '-' cs
  let (month, cs) ← takeDigits 2 cs
  let cs ← skipChar '-' cs
  let (day, cs) ← takeDigits 2 cs
  naiveClock year month day cs

/-- `Math.round(parseFloat(frac) * 1000)`, with two roundings to a double. -/
def millis (frac : List Char) : ℕ :=
  if frac = [] then 0
  else
    let parsed := JsStd.nearestDouble (digitsValue frac) (10^frac.length)
    JsStd.round (JsStd.nearestDouble (1000*parsed.significand) (2^parsed.scale))

example : millis "5005".toList = 500 := by decide +kernel

def naiveToUTC (zone : Zone) (input : List Char) : Option (List Char) :=
  (naiveDateTime (trim input)).map fun n =>
    let asIfUTC := JsStd.dateUTC n.year (n.month-1) n.day n.hour n.min n.sec (millis n.frac)
    let firstPass := asIfUTC - zone asIfUTC*60000
    let secondPass := asIfUTC - zone firstPass*60000
    JsStd.toISOString secondPass

/-! ### Typed values -/

/-- `/(?:Z|[+-]\d{2}:?\d{2})$/`, read from the end. -/
def hasExplicitOffset (value : List Char) : Bool :=
  match value.reverse with
  | 'Z' :: _ => true
  | a :: b :: ':' :: c :: d :: sign :: _ =>
    isDigit a && isDigit b && isDigit c && isDigit d && (sign == '+' || sign == '-')
  | a :: b :: c :: d :: sign :: _ =>
    isDigit a && isDigit b && isDigit c && isDigit d && (sign == '+' || sign == '-')
  | _ => false

/-- The value is `now`, or matches `/^-\d+[smhdw]$/`. -/
def isRelative (value : List Char) : Bool :=
  value == "now".toList ||
    match value with
    | '-' :: rest =>
      !(rest.takeWhile isDigit).isEmpty &&
        match rest.dropWhile isDigit with
        | [unit] => ['s', 'm', 'h', 'd', 'w'].contains unit
        | _ => false
    | _ => false

/-- `/^"(.*)"$/` for the quote `q`. -/
def unwrap (q : Char) : List Char → Option (List Char)
  | [] => none
  | c :: rest =>
    if c = q ∧ rest.getLast? = some q ∧ rest.dropLast.all (fun d => !JsStd.isLineEnd d) then
      some rest.dropLast
    else none

/-- The value in quotes of the query language. -/
def quote (value : List Char) : List Char := '"' :: (value ++ ['"'])

def toQueryTimeValue (zone : Zone) (input : List Char) : List Char :=
  let raw := trim input
  if raw = [] then raw
  else
    let value := ((unwrap '"' raw).or (unwrap '\'' raw)).getD raw
    if isRelative value then value
    else if hasExplicitOffset value then quote value
    else match naiveToUTC zone value with
      | some utc => quote utc
      | none => raw

/-! ### What a time without an offset looks like -/

def isNaiveChar (c : Char) : Bool :=
  isDigit c || c == '-' || c == 'T' || c == ' ' || c == ':' || c == '.'

/-- Only characters of a date and a time, and a digit at the end unless there are none. -/
structure NaiveText (cs : List Char) : Prop where
  chars : ∀ c ∈ cs, isNaiveChar c = true
  last : ∀ c ∈ cs.getLast?, isDigit c = true

theorem NaiveText.nil : NaiveText [] := ⟨nofun, nofun⟩

variable {c : Char} {cs rest : List Char} {n : ℕ} {s : String} {t : ℤ}

theorem NaiveText.cons (hc : isNaiveChar c = true) (hne : cs ≠ []) (h : NaiveText cs) :
    NaiveText (c :: cs) := by
  refine ⟨?_, ?_⟩
  · intro d hd
    rcases List.mem_cons.mp hd with rfl | hd
    · exact hc
    · exact h.chars d hd
  · intro d hd
    rw [List.getLast?_cons_of_ne_nil hne] at hd
    exact h.last d hd

theorem NaiveText.digits {ds : List Char} (hds : ∀ c ∈ ds, isDigit c = true) (h : NaiveText cs) :
    NaiveText (ds ++ cs) := by
  refine ⟨?_, ?_⟩
  · intro c hc
    rcases List.mem_append.mp hc with hc | hc
    · simp [isNaiveChar, hds c hc]
    · exact h.chars c hc
  · intro c hc
    rw [List.getLast?_append] at hc
    cases hlast : cs.getLast? with
    | none =>
      rw [hlast, Option.none_or] at hc
      exact hds c (List.mem_of_getLast? hc)
    | some d =>
      rw [hlast, Option.some_or] at hc
      exact h.last c (hlast ▸ hc)

theorem takeDigits_split {v : ℕ} (h : takeDigits n cs = some (v, rest)) :
    ∃ ds, cs = ds ++ rest ∧ ds.length = n ∧ ∀ c ∈ ds, isDigit c = true := by
  unfold takeDigits at h
  split at h
  · rename_i hdigits
    cases h
    exact ⟨cs.take n, (List.take_append_drop n cs).symm, hdigits.1, List.all_eq_true.mp hdigits.2⟩
  · cases h

theorem skipChar_split (h : skipChar c cs = some rest) : cs = c :: rest := by
  cases cs with
  | nil => cases h
  | cons d cs =>
    simp only [skipChar] at h
    split at h
    · rename_i hd
      cases h
      rw [hd]
    · cases h

theorem naiveFraction_text {frac : List Char} (h : naiveFraction cs = some frac) :
    NaiveText cs := by
  unfold naiveFraction at h
  split at h
  · rename_i hnil
    rw [hnil]
    exact .nil
  · split at h
    · cases h
    · rename_i ds hds
      split at h
      · rename_i hdigits
        rw [skipChar_split hds]
        have htext := NaiveText.digits (List.all_eq_true.mp hdigits.2) .nil
        rw [List.append_nil] at htext
        exact .cons rfl hdigits.1 htext
      · cases h

theorem naiveSeconds_text (h : NaiveText (naiveSeconds cs).2) : NaiveText cs := by
  unfold naiveSeconds at h
  split at h
  · exact h
  · rename_i rest hrest
    rw [skipChar_split hrest] at h ⊢
    cases hds : takeDigits 2 rest with
    | none =>
      rw [hds] at h
      exact h
    | some x =>
      rw [hds] at h
      obtain ⟨ds, rfl, hlen, hdigits⟩ := takeDigits_split hds
      refine .cons rfl ?_ (.digits hdigits h)
      intro hnil
      rw [(List.append_eq_nil_iff.mp hnil).1] at hlen
      cases hlen

/-- Two digits or more, and what follows. -/
theorem takeDigits_text {v : ℕ} (h : takeDigits (n+1) cs = some (v, rest))
    (hrest : NaiveText rest) :
    NaiveText cs ∧ cs ≠ [] := by
  obtain ⟨ds, rfl, hlen, hdigits⟩ := takeDigits_split h
  refine ⟨.digits hdigits hrest, fun hnil => ?_⟩
  rw [(List.append_eq_nil_iff.mp hnil).1] at hlen
  cases hlen

theorem naiveClock_text {year month day : ℕ} {n : Naive}
    (h : naiveClock year month day cs = some n) :
    NaiveText cs := by
  cases cs with
  | nil => exact .nil
  | cons sep cs =>
    simp only [naiveClock] at h
    split at h
    · rename_i hsep
      obtain ⟨⟨hour, cs₁⟩, hhour, h⟩ := Option.bind_eq_some_iff.mp h
      obtain ⟨cs₂, hcolon, h⟩ := Option.bind_eq_some_iff.mp h
      obtain ⟨⟨min, cs₃⟩, hmin, h⟩ := Option.bind_eq_some_iff.mp h
      obtain ⟨frac, hfrac, -⟩ := Option.bind_eq_some_iff.mp h
      obtain ⟨hmintext, hne⟩ := takeDigits_text hmin (naiveSeconds_text (naiveFraction_text hfrac))
      have hcolontext : NaiveText cs₁ := by
        rw [show cs₁ = ':' :: cs₂ from skipChar_split hcolon]
        exact .cons rfl hne hmintext
      obtain ⟨htext, hne⟩ := takeDigits_text hhour hcolontext
      refine .cons ?_ hne htext
      rcases hsep with rfl | rfl <;> rfl
    · cases h

theorem naiveDateTime_text {n : Naive} (h : naiveDateTime cs = some n) :
    NaiveText cs ∧ ∃ ds rest, cs = ds ++ rest ∧ ds.length = 4 ∧ ∀ c ∈ ds, isDigit c = true := by
  obtain ⟨⟨year, cs₁⟩, hyear, h⟩ := Option.bind_eq_some_iff.mp h
  obtain ⟨cs₂, hdash, h⟩ := Option.bind_eq_some_iff.mp h
  obtain ⟨⟨month, cs₃⟩, hmonth, h⟩ := Option.bind_eq_some_iff.mp h
  obtain ⟨cs₄, hdash', h⟩ := Option.bind_eq_some_iff.mp h
  obtain ⟨⟨day, cs₅⟩, hday, h⟩ := Option.bind_eq_some_iff.mp h
  obtain ⟨hdaytext, hne⟩ := takeDigits_text hday (naiveClock_text h)
  have hmonthrest : NaiveText cs₃ := by
    rw [skipChar_split hdash']
    exact .cons rfl hne hdaytext
  obtain ⟨hmonthtext, hne⟩ := takeDigits_text hmonth hmonthrest
  have hyearrest : NaiveText cs₁ := by
    rw [skipChar_split hdash]
    exact .cons rfl hne hmonthtext
  obtain ⟨ds, hds⟩ := takeDigits_split hyear
  exact ⟨(takeDigits_text hyear hyearrest).1, ds, cs₁, hds⟩

/-! ### What RFC 3339 looks like -/

theorem getnum_suffix {fixed : Bool} (h : getnum fixed cs = some (n, rest)) : rest <:+ cs := by
  match cs with
  | [] => cases h
  | [a] =>
    simp only [getnum] at h
    split at h <;> cases h
    exact List.nil_suffix
  | a :: b :: cs =>
    simp only [getnum] at h
    split at h
    · cases h
      exact ⟨[a, b], rfl⟩
    · split at h <;> cases h
      exact List.suffix_cons a _

theorem inRange_suffix {lo hi : ℕ} {fixed : Bool}
    (h : inRange lo hi (getnum fixed cs) = some (n, rest)) : rest <:+ cs :=
  getnum_suffix (Option.filter_eq_some_iff.mp h).1

theorem parseFraction_suffix (cs : List Char) : (parseFraction cs).2 <:+ cs := by
  match cs with
  | [] => exact List.suffix_rfl
  | [c] => exact List.suffix_rfl
  | c :: d :: cs =>
    simp only [parseFraction]
    split
    · exact (List.dropWhile_suffix _).trans (List.suffix_cons c _)
    · exact List.suffix_rfl

theorem skipChar_suffix (h : skipChar c cs = some rest) : rest <:+ cs := by
  rw [skipChar_split h]
  exact List.suffix_cons c rest

/-- The year first, and an offset at the end. -/
theorem parseRFC3339_ends (h : parseRFC3339 s = some t) :
    (∃ n rest, getYear s.toList = some (n, rest)) ∧
      ∃ zone offset, zone <:+ s.toList ∧ parseZone zone = some (offset, []) := by
  obtain ⟨⟨year, c₁⟩, hyear, h⟩ := Option.bind_eq_some_iff.mp h
  obtain ⟨c₂, h₂, h⟩ := Option.bind_eq_some_iff.mp h
  obtain ⟨⟨month, c₃⟩, h₃, h⟩ := Option.bind_eq_some_iff.mp h
  obtain ⟨c₄, h₄, h⟩ := Option.bind_eq_some_iff.mp h
  obtain ⟨⟨day, c₅⟩, h₅, h⟩ := Option.bind_eq_some_iff.mp h
  obtain ⟨c₆, h₆, h⟩ := Option.bind_eq_some_iff.mp h
  obtain ⟨⟨hour, c₇⟩, h₇, h⟩ := Option.bind_eq_some_iff.mp h
  obtain ⟨c₈, h₈, h⟩ := Option.bind_eq_some_iff.mp h
  obtain ⟨⟨min, c₉⟩, h₉, h⟩ := Option.bind_eq_some_iff.mp h
  obtain ⟨c₁₀, h₁₀, h⟩ := Option.bind_eq_some_iff.mp h
  obtain ⟨⟨sec, c₁₁⟩, h₁₁, h⟩ := Option.bind_eq_some_iff.mp h
  obtain ⟨⟨offset, c₁₂⟩, hzone, h⟩ := Option.bind_eq_some_iff.mp h
  have hnil : c₁₂ = [] := by
    by_contra hne
    simp only [if_neg hne] at h
    cases h
  subst hnil
  refine ⟨⟨year, c₁, hyear⟩, _, offset, ?_, hzone⟩
  have hyear' : c₁ <:+ s.toList := by
    match hs : s.toList with
    | a :: b :: c :: d :: rest =>
      rw [hs] at hyear
      simp only [getYear] at hyear
      split at hyear <;> cases hyear
      exact ⟨[a, b, c, d], rfl⟩
    | [] | [_] | [_, _] | [_, _, _] =>
      rw [hs] at hyear
      cases hyear
  calc (parseFraction c₁₁).2 <:+ c₁₁ := parseFraction_suffix c₁₁
    _ <:+ c₁₀ := inRange_suffix h₁₁
    _ <:+ c₉ := skipChar_suffix h₁₀
    _ <:+ c₈ := inRange_suffix h₉
    _ <:+ c₇ := skipChar_suffix h₈
    _ <:+ c₆ := inRange_suffix h₇
    _ <:+ c₅ := skipChar_suffix h₆
    _ <:+ c₄ := inRange_suffix h₅
    _ <:+ c₃ := skipChar_suffix h₄
    _ <:+ c₂ := inRange_suffix h₃
    _ <:+ c₁ := skipChar_suffix h₂
    _ <:+ s.toList := hyear'

theorem getnum_true (h : getnum true cs = some (n, rest)) :
    ∃ a b, cs = a :: b :: rest ∧ isDigit a = true ∧ isDigit b = true := by
  rw [isDigit_eq]
  match cs with
  | [] => cases h
  | [a] =>
    simp only [getnum, Bool.not_true, Bool.and_false] at h
    cases h
  | a :: b :: cs =>
    simp only [getnum, Bool.not_true, Bool.and_false] at h
    split at h
    · rename_i hd
      cases h
      rw [Bool.and_eq_true] at hd
      exact ⟨a, b, rfl, hd.1, hd.2⟩
    · cases h

theorem parseZone_text {zone : List Char} {offset : ℤ} (h : parseZone zone = some (offset, [])) :
    zone = ['Z'] ∨ ∃ sign a b c d, zone = [sign, a, b, ':', c, d] ∧ (sign = '+' ∨ sign = '-') ∧
      isDigit a = true ∧ isDigit b = true ∧ isDigit c = true ∧ isDigit d = true := by
  unfold parseZone at h
  split at h
  · cases h
    exact .inl rfl
  · rename_i sign cs _
    obtain ⟨⟨hr, c₁⟩, hhr, h⟩ := Option.bind_eq_some_iff.mp h
    obtain ⟨c₂, hcolon, h⟩ := Option.bind_eq_some_iff.mp h
    obtain ⟨⟨mm, c₃⟩, hmm, h⟩ := Option.bind_eq_some_iff.mp h
    have hends : c₃ = [] ∧ (sign = '+' ∨ sign = '-') := by
      dsimp only at h
      by_cases hplus : sign = '+'
      · rw [if_pos hplus] at h
        cases h
        exact ⟨rfl, .inl hplus⟩
      · by_cases hminus : sign = '-'
        · rw [if_neg hplus, if_pos hminus] at h
          cases h
          exact ⟨rfl, .inr hminus⟩
        · rw [if_neg hplus, if_neg hminus] at h
          cases h
    obtain ⟨rfl, hsign⟩ := hends
    obtain ⟨a, b, rfl, ha, hb⟩ := getnum_true (Option.filter_eq_some_iff.mp hhr).1
    obtain ⟨c, d, rfl, hc, hd⟩ := getnum_true (Option.filter_eq_some_iff.mp hmm).1
    rw [show c₁ = _ from skipChar_split hcolon]
    exact .inr ⟨sign, a, b, c, d, rfl, hsign, ha, hb, hc, hd⟩
  · cases h

theorem hasExplicitOffset_of_parseRFC3339 (h : parseRFC3339 s = some t) :
    hasExplicitOffset s.toList = true := by
  obtain ⟨-, zone, offset, ⟨pre, hpre⟩, hzone⟩ := parseRFC3339_ends h
  rw [← hpre, hasExplicitOffset, List.reverse_append]
  rcases parseZone_text hzone with rfl | ⟨sign, a, b, c, d, rfl, hsign, ha, hb, hc, hd⟩
  · rfl
  · have hne : d ≠ 'Z' := by
      rintro rfl
      cases hd
    simp only [List.reverse_cons, List.reverse_nil, List.nil_append, List.cons_append]
    rcases hsign with rfl | rfl <;> simp [ha, hb, hc, hd]

theorem parseRFC3339_first (h : parseRFC3339 s = some t) :
    ∃ c cs, s.toList = c :: cs ∧ isDigit c = true := by
  obtain ⟨⟨n, rest, hyear⟩, -⟩ := parseRFC3339_ends h
  match hs : s.toList with
  | a :: b :: c :: d :: cs =>
    rw [hs] at hyear
    simp only [getYear] at hyear
    split at hyear
    · rename_i hall
      refine ⟨a, _, rfl, ?_⟩
      rw [isDigit_eq]
      exact List.all_eq_true.mp hall a List.mem_cons_self
    · cases hyear
  | [] | [_] | [_, _] | [_, _, _] =>
    rw [hs] at hyear
    cases hyear

/-! ### Times the query language accepts are left alone -/

theorem trims_blanks {blanks : List Char}
    (hspaces : ([' ', '\t', '\n', '\r'] : List Char).all blanks.contains = true)
    (hout : blanks.all isOutside = true) :
    Trims (fun c => blanks.contains c || decide ('\u2000' ≤ c ∧ c ≤ '\u200a')) where
  spaces c hc := by
    have hmem : c ∈ ([' ', '\t', '\n', '\r'] : List Char) := by
      simpa [QueryLang.isSpace, or_assoc] using hc
    exact Bool.or_eq_true_iff.mpr (.inl (List.all_eq_true.mp hspaces c hmem))
  outside c hc := by
    rcases Bool.or_eq_true_iff.mp hc with hc | hc
    · exact List.all_eq_true.mp hout c (List.contains_iff_mem.mp hc)
    · have hfrom : 8192 ≤ c.toNat := (of_decide_eq_true hc).1
      exact isOutside_of_large (by omega)

theorem trims_isSpace : Trims JsStd.isSpace := trims_blanks (by decide) (by decide)

theorem skipWhitespace_trim (cs : List Char) : skipWhitespace (trim cs) = trim cs := by
  cases h : trim cs with
  | nil => rfl
  | cons c rest =>
    have hc : JsStd.isSpace c = false := @TextSearch.trim_head _ cs JsStd.isSpace
      (by rw [show TextSearch.trim JsStd.isSpace cs = c :: rest from h]; rfl)
    have hspace : QueryLang.isSpace c ≠ true := by
      intro hspace
      rw [trims_isSpace.spaces c hspace] at hc
      cases hc
    exact List.dropWhile_cons_of_neg hspace

/-- No blanks follow the last token of a trimmed text. -/
theorem trim_no_blanks {pre post : List Char} (h : trim cs = pre ++ post)
    (hpost : ∀ c ∈ post, QueryLang.isSpace c = true) : post = [] := by
  cases hlast : post.getLast? with
  | none => exact List.getLast?_eq_none_iff.mp hlast
  | some c =>
    have hc : JsStd.isSpace c = false := @TextSearch.trim_getLast _ cs JsStd.isSpace (by
      rw [show TextSearch.trim JsStd.isSpace cs = pre ++ post from h, List.getLast?_append, hlast]
      rfl)
    rw [trims_isSpace.spaces c (hpost c (List.mem_of_getLast? hlast))] at hc
    cases hc

/-- A trimmed text that is one string is in quotes from end to end. -/
theorem quoted_text (h : lexed (trim cs) = [quoted s]) :
    ∃ mid, trim cs = quote mid ∧ lexString (mid ++ ['"']) = (.string, s.toList, []) := by
  cases htrim : trim cs with
  | nil =>
    rw [htrim, lexed_of_nil rfl] at h
    cases h
  | cons c rest =>
    have hskip := skipWhitespace_trim cs
    rw [htrim] at hskip h
    rw [lexed_of_cons hskip] at h
    obtain ⟨hstring, hafter⟩ := List.cons.inj h
    have hk : (scan c rest).1 = .string := congrArg Prod.fst hstring
    have hv : (scan c rest).2.1 = s.toList := by
      rw [show s = _ from (congrArg Prod.snd hstring).symm, String.toList_ofList]
    have hc : c = '"' := by
      have hscan := scanned_scan c rest
      generalize scan c rest = t at hk hscan
      cases hscan with
      | @one k _ hsym =>
        obtain rfl : k = .string := hk
        cases hsym
      | @two k _ _ hsym =>
        obtain rfl : k = .string := hk
        cases hsym
      | string hc => exact hc
      | number | ident | illegal => cases hk
    subst hc
    rw [scan_quote] at hk hv hafter
    obtain ⟨mid, hmid⟩ := lexString_closed (by rw [hk]; exact nofun)
    have hnil : (lexString rest).2.2 = [] := by
      refine @trim_no_blanks cs ('"' :: (mid ++ ['"'])) _ ?_ (spaces_of_lexed hafter)
      rw [htrim, List.cons_append, List.append_assoc]
      exact congrArg _ hmid
    rw [hnil] at hmid
    refine ⟨mid, by rw [hmid]; rfl, ?_⟩
    rw [← hmid]
    exact Prod.ext hk (Prod.ext hv hnil)

theorem unwrap_quote {q : Char} {mid value : List Char} (h : unwrap q (quote mid) = some value) :
    value = mid := by
  simp only [quote, unwrap, List.dropLast_concat] at h
  split at h
  · exact (Option.some.inj h).symm
  · cases h

theorem isRelative_first (h : isRelative (c :: cs) = true) : c = 'n' ∨ c = '-' := by
  rcases Bool.or_eq_true_iff.mp h with h | h
  · rw [beq_iff_eq] at h
    exact .inl (List.cons.inj h).1
  · split at h
    · rename_i heq
      exact .inr (List.cons.inj heq).1
    · cases h

theorem hasExplicitOffset_last (h : hasExplicitOffset cs = true) :
    ∃ c, cs.getLast? = some c ∧ (c = 'Z' ∨ isDigit c = true) := by
  unfold hasExplicitOffset at h
  rw [← List.head?_reverse]
  split at h
  · rename_i heq
    rw [heq]
    exact ⟨'Z', rfl, .inl rfl⟩
  · rename_i heq
    rw [heq]
    simp only [Bool.and_eq_true] at h
    exact ⟨_, rfl, .inr h.1.1.1.1⟩
  · rename_i heq
    rw [heq]
    simp only [Bool.and_eq_true] at h
    exact ⟨_, rfl, .inr h.1.1.1.1⟩
  · cases h

theorem isRelative_last (h : isRelative cs = true) :
    ∃ c, cs.getLast? = some c ∧ c ≠ 'Z' ∧ isDigit c = false := by
  rcases Bool.or_eq_true_iff.mp h with hnow | hback
  · rw [beq_iff_eq.mp hnow]
    exact ⟨'w', rfl, by decide, rfl⟩
  · clear h
    split at hback
    · rename_i rest
      have hunit := (Bool.and_eq_true_iff.mp hback).2
      split at hunit
      · rename_i unit hdrop
        have hletter : unit ≠ 'Z' ∧ isDigit unit = false := by
          simp only [List.contains_eq_mem, decide_eq_true_eq, List.mem_cons, List.not_mem_nil,
            or_false] at hunit
          rcases hunit with rfl | rfl | rfl | rfl | rfl <;> exact ⟨by decide, rfl⟩
        refine ⟨unit, ?_, hletter⟩
        rw [← List.takeWhile_append_dropWhile (p := isDigit) (l := rest), hdrop,
          ← List.cons_append, List.getLast?_concat]
      · cases hunit
    · cases hback

/-- No relative value ends in an offset. -/
theorem hasExplicitOffset_of_isRelative (h : isRelative cs = true) :
    hasExplicitOffset cs = false := by
  obtain ⟨c, hc, hletter, hdigit⟩ := isRelative_last h
  rw [Bool.eq_false_iff]
  intro hoffset
  obtain ⟨d, hd, hcase⟩ := hasExplicitOffset_last hoffset
  obtain rfl := Option.some.inj (hc.symm.trans hd)
  rcases hcase with hcase | hcase
  · exact hletter hcase
  · rw [hdigit] at hcase
    cases hcase

/-! Behind its quotes a value is no time of any of the kinds. -/

theorem getLast?_quote (v : List Char) : (quote v).getLast? = some '"' := by
  rw [quote, ← List.cons_append, List.getLast?_concat]

theorem isRelative_quote (v : List Char) : isRelative (quote v) = false := by
  rw [Bool.eq_false_iff]
  intro h
  rcases isRelative_first h with h | h <;> exact absurd h (by decide)

theorem hasExplicitOffset_quote (v : List Char) : hasExplicitOffset (quote v) = false := by
  rw [Bool.eq_false_iff]
  intro h
  obtain ⟨c, hc, hcase⟩ := hasExplicitOffset_last h
  rw [getLast?_quote] at hc
  cases hc
  rcases hcase with h | h <;> exact absurd h (by decide)

theorem naiveDateTime_quote (v : List Char) : naiveDateTime (trim (quote v)) = none := by
  rw [trim, TextSearch.trim_eq_self]
  · cases hn : naiveDateTime (quote v) with
    | none => rfl
    | some n => cases (naiveDateTime_text hn).1.chars '"' List.mem_cons_self
  · intro c hc
    cases hc
    rfl
  · intro c hc
    rw [getLast?_quote] at hc
    cases hc
    rfl

variable {zone : Zone} {v : List Char}

theorem naiveToUTC_of_none {input : List Char} (h : naiveDateTime (trim input) = none) :
    naiveToUTC zone input = none := by
  rw [naiveToUTC, h, Option.map_none]

theorem toQueryTimeValue_quoted {mid : List Char} (htrim : trim v = quote mid)
    (hmid : lexString (mid ++ ['"']) = (.string, s.toList, [])) (ht : parseRFC3339 s = some t) :
    toQueryTimeValue zone v = trim v := by
  have hraw : quote mid ≠ [] := nofun
  have hsingle : unwrap '\'' (quote mid) = none := rfl
  simp only [toQueryTimeValue, htrim, if_neg hraw, hsingle, Option.or_none]
  cases hvalue : unwrap '"' (quote mid) with
  | none =>
    rw [Option.getD_none, isRelative_quote, hasExplicitOffset_quote,
      naiveToUTC_of_none (naiveDateTime_quote mid)]
    rfl
  | some value =>
    obtain rfl := unwrap_quote hvalue
    rw [Option.getD_some]
    have hrel : isRelative value ≠ true := by
      intro h
      cases value with
      | nil => cases h
      | cons c cs =>
        have hcase := isRelative_first h
        have hquote : c ≠ '"' := by rcases hcase with rfl | rfl <;> decide
        have hslash : c ≠ '\\' := by rcases hcase with rfl | rfl <;> decide
        rw [List.cons_append, lexString_plain hquote hslash] at hmid
        have hs : s.toList = c :: (lexString (cs ++ ['"'])).2.1 := (congrArg (·.2.1) hmid).symm
        obtain ⟨d, ds, hd, hdigit⟩ := parseRFC3339_first ht
        rw [hs] at hd
        obtain ⟨rfl, -⟩ := List.cons.inj hd
        rcases hcase with rfl | rfl <;> cases hdigit
    rw [if_neg hrel]
    by_cases hoffset : hasExplicitOffset value = true
    · rw [if_pos hoffset]
    · have hnaive : naiveDateTime (trim value) = none := by
        cases hn : naiveDateTime (trim value) with
        | none => rfl
        | some n =>
          -- Without a backslash the value is the time itself, and that ends in an offset.
          have hslash : '\\' ∉ value := by
            intro hmem
            have htext := (naiveDateTime_text hn).1.chars _ (TextSearch.mem_trim hmem rfl)
            cases htext
          have hs := lexString_value hslash hmid
          have hends := hasExplicitOffset_of_parseRFC3339 ht
          rw [hs] at hends
          exact absurd hends hoffset
      rw [if_neg hoffset, naiveToUTC_of_none hnaive]

theorem toQueryTimeValue_relative {ls : List Lexeme} {unit : TimeUnit}
    (hlex : lexed (trim v) = ls ++ [word unit.text])
    (hfirst : ∀ l ∈ (lexed (trim v)).head?, l.1 ≠ .string ∧ l.1 ≠ .illegal) :
    toQueryTimeValue zone v = trim v := by
  obtain ⟨pre, post, htext, hpost⟩ := lexed_last_word hlex
  rw [trim_no_blanks htext hpost, List.append_nil] at htext
  obtain ⟨u, hu, hletter⟩ : ∃ u, unit.text.toList = [u] ∧ u ≠ 'Z' ∧ isDigit u = false := by
    cases unit <;> exact ⟨_, rfl, by decide, rfl⟩
  have hlast : (trim v).getLast? = some u := by rw [htext, hu, List.getLast?_concat]
  have hraw : trim v ≠ [] := by
    intro hnil
    rw [hnil] at hlast
    cases hlast
  have hquotes (q : Char) (hq : ∀ cs, (scan q cs).1 = .string ∨ (scan q cs).1 = .illegal) :
      unwrap q (trim v) = none := by
    cases htrim : trim v with
    | nil => rfl
    | cons c rest =>
      have hskip := skipWhitespace_trim v
      rw [htrim] at hskip hfirst
      rw [lexed_of_cons hskip] at hfirst
      have hc : c ≠ q := by
        rintro rfl
        have hkind := hfirst _ rfl
        rcases hq rest with h | h
        · exact hkind.1 h
        · exact hkind.2 h
      rw [unwrap, if_neg (fun h => hc h.1)]
  have hdouble : unwrap '"' (trim v) = none :=
    hquotes '"' fun cs => (lexString_cases cs)
  have hsingle : unwrap '\'' (trim v) = none :=
    hquotes '\'' fun cs => .inr (by rw [scan_outside rfl])
  have hoffset : hasExplicitOffset (trim v) ≠ true := by
    intro h
    obtain ⟨c, hc, hcase⟩ := hasExplicitOffset_last h
    rw [hlast] at hc
    cases hc
    rcases hcase with h | h
    · exact hletter.1 h
    · rw [hletter.2] at h
      cases h
  have hnaive : naiveDateTime (trim (trim v)) = none := by
    have htwice : trim (trim v) = trim v :=
      TextSearch.trim_eq_self (fun _ => TextSearch.trim_head) (fun _ => TextSearch.trim_getLast)
    rw [htwice]
    cases hn : naiveDateTime (trim v) with
    | none => rfl
    | some n =>
      have hdigit := (naiveDateTime_text hn).1.last u hlast
      rw [hletter.2] at hdigit
      cases hdigit
  simp only [toQueryTimeValue, if_neg hraw, hdouble, hsingle, Option.or_none, Option.getD_none]
  by_cases hrel : isRelative (trim v) = true
  · rw [if_pos hrel]
  · rw [if_neg hrel, if_neg hoffset, naiveToUTC_of_none hnaive]

/-- A time that the query language accepts is put into the query as it was typed. -/
theorem toQueryTimeValue_accepted {now : ℤ} (h : AcceptsTime now v t) (zone : Zone) :
    toQueryTimeValue zone v = trim v ∧ lexed (trim v) = lexed v := by
  obtain ⟨expr, hlex, ht⟩ := h.lexemes
  have htrim : lexed (trim v) = lexed v :=
    lexed_trim trims_isSpace (clean_of_unstopped hlex.unstopped)
  refine ⟨?_, htrim⟩
  generalize hls : lexed v = ls at hlex
  cases hlex with
  | absolute s =>
    obtain ⟨mid, hmid, hstring⟩ := quoted_text (htrim.trans hls)
    simp only [resolveTimeExpr] at ht
    split at ht
    · cases ht
    · exact toQueryTimeValue_quoted hmid hstring ‹_›
  | @unsigned number n unit hn =>
    refine @toQueryTimeValue_relative _ _ [(.number, number)] _ (htrim.trans hls) ?_
    rw [htrim, hls]
    rintro l hl
    cases hl
    exact ⟨nofun, nofun⟩
  | @signed number n sign text unit hn =>
    refine @toQueryTimeValue_relative _ _ [(sign.kind, text), (.number, number)] _
      (htrim.trans hls) ?_
    rw [htrim, hls]
    rintro l hl
    cases hl
    cases sign <;> exact ⟨nofun, nofun⟩

end CairnObs.Web
