import CairnObs.GoTimeFormat
import CairnObs.TextSearch

/-! What the web client uses of JavaScript's standard library: trimming a text, and dates in
milliseconds since the epoch. -/
namespace JsStd
open CairnObs

/-! ### Texts -/

/-- White space and line ends: what `\s` matches and `trim` removes. -/
def isSpace (c : Char) : Bool :=
  ['\t', '\n', '\x0b', '\x0c', '\r', ' ', '\u00a0', '\u1680', '\u2028', '\u2029',
    '\u202f', '\u205f', '\u3000', '\ufeff'].contains c || decide ('\u2000' ≤ c ∧ c ≤ '\u200a')

/-- Line ends, which a dot does not match. -/
def isLineEnd (c : Char) : Bool :=
  c == '\n' || c == '\r' || c == '\u2028' || c == '\u2029'

/-- `String.prototype.trim`. -/
def trim (cs : List Char) : List Char := TextSearch.trim isSpace cs

/-! ### Dates -/

/-- `Date.UTC`: months count from 0, every field may be out of its range, and a year below
100 is one of the twentieth century. -/
def dateUTC (year month day hour min sec ms : ℤ) : ℤ :=
  let year := if 0 ≤ year ∧ year ≤ 99 then 1900+year else year
  let days := unixDay (year+month/12) ((month%12).toNat+1) 1 + (day-1)
  (((days*24+hour)*60+min)*60+sec)*1000 + ms

/-- `significand/2^scale`. -/
structure Double where
  significand : ℕ
  scale : ℕ

/-- The quotient to the nearest integer, ties to the even one. -/
def roundEven (a b : ℕ) : ℕ :=
  if 2*(a%b) < b then a/b else if b < 2*(a%b) then a/b+1 else a/b+a/b%2

/-- The double nearest to `a/b`, for quotients below `2^53`: 53 bits, and no digit behind the
1074th. -/
def nearestDouble (a b : ℕ) : Double :=
  let scale := Nat.findGreatest (fun n => a*2^n < b*2^53) 1074
  ⟨roundEven (a*2^scale) b, scale⟩

/-- `Math.round`: halves go up. -/
def round (x : Double) : ℕ := (2*x.significand + 2^x.scale)/(2*2^x.scale)

/-- The year of `toISOString`. -/
def isoYear (year : ℤ) : List Char :=
  if 0 ≤ year ∧ year ≤ 9999 then pad 4 year.toNat
  else (if year < 0 then '-' else '+') :: pad 6 year.natAbs

/-- `Date.prototype.toISOString`. -/
def toISOString (t : ℤ) : List Char :=
  let secs := t/1000
  let (year, yday) := yearDay (secs/86400+unixEpochDays)
  let (month, day) := monthDay year 11 1 yday
  let clock := (secs%86400).toNat
  isoYear year ++ '-' :: pad 2 month ++ '-' :: pad 2 day ++ 'T' :: pad 2 (clock/3600) ++
    ':' :: pad 2 (clock/60%60) ++ ':' :: pad 2 (clock%60) ++ '.' :: pad 3 (t%1000).toNat ++ ['Z']

/-- The fields of an instant in UTC. -/
structure CivilTime where
  year : ℤ
  month : ℕ
  day : ℕ
  hour : ℕ
  min : ℕ
  sec : ℕ
  ms : ℕ
  deriving DecidableEq

/-- The fields that `toISOString` writes. -/
def civil (t : ℤ) : CivilTime :=
  let y := yearDay (t/1000/86400+unixEpochDays)
  let m := monthDay y.1 11 1 y.2
  let clock := (t/1000%86400).toNat
  ⟨y.1, m.1, m.2, clock/3600, clock/60%60, clock%60, (t%1000).toNat⟩

def CivilTime.text (c : CivilTime) : List Char :=
  isoYear c.year ++ '-' :: pad 2 c.month ++ '-' :: pad 2 c.day ++ 'T' :: pad 2 c.hour ++
    ':' :: pad 2 c.min ++ ':' :: pad 2 c.sec ++ '.' :: pad 3 c.ms ++ ['Z']

theorem toISOString_eq (t : ℤ) : toISOString t = (civil t).text := rfl

/-- The fields are a date of the calendar and a time of the day. -/
structure CivilTime.Valid (c : CivilTime) : Prop where
  month : 1 ≤ c.month ∧ c.month ≤ 12
  day : 1 ≤ c.day ∧ c.day ≤ daysIn c.month c.year
  hour : c.hour < 24
  min : c.min < 60
  sec : c.sec < 60
  ms : c.ms < 1000

def CivilTime.instant (c : CivilTime) : ℤ :=
  (((unixDay c.year c.month c.day*24+c.hour)*60+c.min)*60+c.sec)*1000+c.ms

theorem civil_spec (t : ℤ) : (civil t).Valid ∧ (civil t).instant = t := by
  set days := t/1000/86400 with hdays
  set y := yearDay (days+unixEpochDays) with hy
  set clock := (t/1000%86400).toNat with hclock
  obtain ⟨hsum, hlt⟩ := yearDay_spec (days+unixEpochDays)
  obtain ⟨m', d', heq, h1, h12, hd, hs⟩ := monthDay_spec y.1 11 (m := 1) (d := y.2) le_rfl
    (by simpa [daysBeforeMonth] using hlt)
  have hc : civil t =
      ⟨y.1, m', d'+1, clock/3600, clock/60%60, clock%60, (t%1000).toNat⟩ := by
    rw [civil, ← hdays, ← hy, ← hclock, heq]
  have hday : unixDay y.1 m' (d'+1) = days := by
    have hzero : daysBeforeMonth y.1 1 = 0 := rfl
    rw [← hy] at hsum
    unfold unixDay
    push_cast
    omega
  have hbound : clock < 86400 := by omega
  rw [hc]
  refine ⟨⟨⟨h1, h12⟩, ⟨Nat.succ_pos d', hd⟩, ?_, ?_, ?_, ?_⟩, ?_⟩
  · show clock/3600 < 24
    omega
  · show clock/60%60 < 60
    omega
  · show clock%60 < 60
    omega
  · show (t%1000).toNat < 1000
    omega
  · simp only [CivilTime.instant, hday]
    push_cast
    omega

/-- `Date.UTC` of a date of the calendar, for a year it does not move. -/
theorem dateUTC_eq {c : CivilTime} (hc : c.Valid) (hyear : 100 ≤ c.year) :
    dateUTC c.year (c.month-1) c.day c.hour c.min c.sec c.ms = c.instant := by
  obtain ⟨hm, hm'⟩ := hc.month
  have hquot : ((c.month : ℤ)-1)/12 = 0 := by omega
  have hmod : (((c.month : ℤ)-1)%12).toNat+1 = c.month := by omega
  have hyears : ¬ (0 ≤ c.year ∧ c.year ≤ 99) := by omega
  rw [dateUTC, if_neg hyears, hquot, hmod, Int.add_zero, CivilTime.instant]
  have hday : unixDay c.year c.month 1+((c.day : ℤ)-1) = unixDay c.year c.month c.day := by
    unfold unixDay
    omega
  rw [hday]

theorem isoYear_cases (y : ℤ) :
    0 ≤ y ∧ y ≤ 9999 ∧ isoYear y = pad 4 y.toNat ∨
    y < 0 ∧ isoYear y = '-' :: pad 6 y.natAbs ∨ 9999 < y ∧ isoYear y = '+' :: pad 6 y.natAbs := by
  unfold isoYear
  split_ifs with hrange hneg
  · exact .inl ⟨hrange.1, hrange.2, rfl⟩
  · exact .inr (.inl ⟨hneg, rfl⟩)
  · exact .inr (.inr ⟨by omega, rfl⟩)

theorem pad_ne_cons {width n : ℕ} {rest : List Char} {c : Char} (hc : c.isDigit = false) :
    pad width n ≠ c :: rest := by
  intro heq
  have hmem : c ∈ pad width n := heq ▸ List.mem_cons_self
  rw [pad_isDigit hmem] at hc
  cases hc

theorem isoYear_injective {y y' : ℤ} (h : isoYear y = isoYear y') : y = y' := by
  rcases isoYear_cases y with ⟨hy, -, htext⟩ | ⟨hy, htext⟩ | ⟨hy, htext⟩ <;>
  rcases isoYear_cases y' with ⟨hy', -, htext'⟩ | ⟨hy', htext'⟩ | ⟨hy', htext'⟩ <;>
  rw [htext, htext'] at h
  · have hnat := pad_injective h
    omega
  · exact absurd h (pad_ne_cons rfl)
  · exact absurd h (pad_ne_cons rfl)
  · exact absurd h.symm (pad_ne_cons rfl)
  · have hnat := pad_injective (List.cons.inj h).2
    omega
  · exact absurd (List.cons.inj h).1 (by decide)
  · exact absurd h.symm (pad_ne_cons rfl)
  · exact absurd (List.cons.inj h).1 (by decide)
  · have hnat := pad_injective (List.cons.inj h).2
    omega

/-- A separator and a field of fixed width at the end of two equal texts. -/
theorem field_inj {a b : List Char} {c : Char} {width m n : ℕ} (hwidth : 0 < width)
    (hm : m < 10^width) (hn : n < 10^width) (h : a ++ c :: pad width m = b ++ c :: pad width n) :
    a = b ∧ m = n := by
  obtain ⟨hab, hfield⟩ := List.append_inj' h (by
    rw [List.length_cons, List.length_cons, pad_length hwidth hm, pad_length hwidth hn])
  exact ⟨hab, pad_injective (List.cons.inj hfield).2⟩

theorem CivilTime.text_injective {c c' : CivilTime} (hc : c.Valid) (hc' : c'.Valid)
    (h : c.text = c'.text) : c = c' := by
  have hday {c : CivilTime} (hc : c.Valid) : c.day < 10^2 := by
    have hle : daysIn c.month c.year ≤ 31 := by
      unfold daysIn
      split <;> try split
      all_goals omega
    have hd := hc.day
    omega
  have hfields := And.intro hc.month hc'.month
  have hhours := And.intro hc.hour hc'.hour
  have hmins := And.intro hc.min hc'.min
  have hsecs := And.intro hc.sec hc'.sec
  obtain ⟨h, -⟩ := List.append_inj' h rfl
  obtain ⟨h, hms⟩ := field_inj (by decide) hc.ms hc'.ms h
  obtain ⟨h, hsec⟩ := field_inj (by decide) (by omega) (by omega) h
  obtain ⟨h, hmin⟩ := field_inj (by decide) (by omega) (by omega) h
  obtain ⟨h, hhour⟩ := field_inj (by decide) (by omega) (by omega) h
  obtain ⟨h, hday⟩ := field_inj (by decide) (hday hc) (hday hc') h
  obtain ⟨h, hmonth⟩ := field_inj (by decide) (by omega) (by omega) h
  have hyear := isoYear_injective h
  cases c
  cases c'
  simp_all

/-- A text of `toISOString` is that of one instant only. -/
theorem toISOString_injective {t t' : ℤ} (h : toISOString t = toISOString t') : t = t' := by
  obtain ⟨hvalid, ht⟩ := civil_spec t
  obtain ⟨hvalid', ht'⟩ := civil_spec t'
  rw [toISOString_eq, toISOString_eq] at h
  rw [← ht, ← ht', CivilTime.text_injective hvalid hvalid' h]

example : String.ofList (toISOString (dateUTC 2026 7 22 10 0 0 0)) =
    "2026-08-22T10:00:00.000Z" := by
  decide +kernel

end JsStd
