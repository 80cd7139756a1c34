import CairnObs.GoTime

/-! Reading and writing instants as Go's `time` package does: `time.Parse` for the layout
RFC3339, and `Format` for the layout of ClickHouse's DateTime64 literals. -/
namespace CairnObs

/-! ### The calendar -/

def isLeap (year : ℤ) : Bool := year % 4 == 0 && (year % 100 != 0 || year % 400 == 0)

def daysIn (month : ℕ) (year : ℤ) : ℕ :=
  match month with
  | 2 => if isLeap year then 29 else 28
  | 4 | 6 | 9 | 11 => 30
  | _ => 31

/-- From 1 January of the year 1 to 1 January of `year`. -/
def daysBeforeYear (year : ℤ) : ℤ :=
  365*(year-1) + (year-1)/4 - (year-1)/100 + (year-1)/400

def daysBeforeMonth (year : ℤ) : ℕ → ℕ
  | 0 => 0
  | 1 => 0
  | m+1 => daysBeforeMonth year m + daysIn m year

def unixEpochDays : ℤ := 719162

def unixDay (year : ℤ) (month day : ℕ) : ℤ :=
  daysBeforeYear year + daysBeforeMonth year month + (day-1) - unixEpochDays

/-- `time.Date` in UTC. -/
def dateUTC (year : ℤ) (month day hour min sec nsec : ℕ) : ℤ :=
  ((unixDay year month day*24+hour)*60+min)*60*second + sec*second + nsec

/-- The zero `time.Time`, which `IsZero` recognises. -/
def zeroTime : ℤ := dateUTC 1 1 1 0 0 0 0

/-- The year and the day of it (from 0) of a day counted from 1 January of the year 1. -/
def yearDay (days : ℤ) : ℤ × ℕ :=
  let n400 := days/146097
  let r400 := days%146097
  let n100 := min (r400/36524) 3
  let r100 := r400-n100*36524
  let n4 := r100/1461
  let r4 := r100%1461
  let n1 := min (r4/365) 3
  (400*n400+100*n100+4*n4+n1+1, (r4-n1*365).toNat)

/-- Month and day (both from 1) of the day `d` of a year; `fuel` counts the months left. -/
def monthDay (year : ℤ) : ℕ → ℕ → ℕ → ℕ × ℕ
  | 0, m, d => (m, d+1)
  | fuel+1, m, d =>
    if d < daysIn m year then (m, d+1) else monthDay year fuel (m+1) (d-daysIn m year)

theorem daysBeforeYear_split {a b c d : ℤ} (hb : 0 ≤ b ∧ b ≤ 3) (hc : 0 ≤ c ∧ c ≤ 24)
    (hd : 0 ≤ d ∧ d ≤ 3) :
    daysBeforeYear (400*a+100*b+4*c+d+1) = 146097*a+36524*b+1461*c+365*d := by
  unfold daysBeforeYear
  omega

theorem isLeap_split {a b c d : ℤ} (hb : 0 ≤ b ∧ b ≤ 3) (hc : 0 ≤ c ∧ c ≤ 24) (hd : 0 ≤ d ∧ d ≤ 3) :
    isLeap (400*a+100*b+4*c+d+1) = true ↔ d = 3 ∧ (c = 24 → b = 3) := by
  simp only [isLeap, Bool.and_eq_true, Bool.or_eq_true, beq_iff_eq, bne_iff_ne, ne_eq]
  omega

theorem daysBeforeMonth_thirteen (year : ℤ) :
    daysBeforeMonth year 13 = if isLeap year then 366 else 365 := by
  cases h : isLeap year <;> simp [daysBeforeMonth, daysIn, h]

/-- `yearDay` counts the days off the years before. -/
theorem yearDay_spec (days : ℤ) :
    daysBeforeYear (yearDay days).1 + (yearDay days).2 = days ∧
      (yearDay days).2 < daysBeforeMonth (yearDay days).1 13 := by
  set n400 := days/146097
  set r400 := days%146097
  set n100 := min (r400/36524) 3
  set r100 := r400-n100*36524
  set n4 := r100/1461
  set r4 := r100%1461
  set n1 := min (r4/365) 3
  have hb : 0 ≤ n100 ∧ n100 ≤ 3 := by omega
  have hc : 0 ≤ n4 ∧ n4 ≤ 24 := by omega
  have hd : 0 ≤ n1 ∧ n1 ≤ 3 := by omega
  have hyear : (yearDay days).1 = 400*n400+100*n100+4*n4+n1+1 := rfl
  have hday : ((yearDay days).2 : ℤ) = r4-n1*365 := Int.toNat_of_nonneg (by omega)
  constructor
  · rw [hyear, daysBeforeYear_split hb hc hd, hday]
    omega
  · rw [daysBeforeMonth_thirteen, hyear]
    have hleap := isLeap_split (a := n400) hb hc hd
    split
    · omega
    · -- The last day of four years is missing only at the end of a short century.
      rename_i h
      rw [hleap] at h
      omega

/-- `monthDay` counts the days off the months before. -/
theorem monthDay_spec (year : ℤ) (fuel : ℕ) {m d : ℕ} (hm : 1 ≤ m)
    (hd : daysBeforeMonth year m + d < daysBeforeMonth year (m+fuel+1)) :
    ∃ m' d', monthDay year fuel m d = (m', d'+1) ∧ 1 ≤ m' ∧ m' ≤ m+fuel ∧ d' < daysIn m' year ∧
      daysBeforeMonth year m' + d' = daysBeforeMonth year m + d := by
  have hnext :
      ∀ k, 1 ≤ k → daysBeforeMonth year (k+1) = daysBeforeMonth year k + daysIn k year := by
    intro k hk
    obtain ⟨k, rfl⟩ := Nat.exists_eq_add_of_le' hk
    rfl
  induction fuel generalizing m d with
  | zero =>
    rw [Nat.add_zero, hnext m hm] at hd
    exact ⟨m, d, rfl, hm, le_rfl, by omega, rfl⟩
  | succ fuel ih =>
    rw [monthDay]
    split
    · exact ⟨m, d, rfl, hm, Nat.le_add_right m _, ‹_›, rfl⟩
    · have hm' := hnext m hm
      have hsum : daysBeforeMonth year (m+1) + (d-daysIn m year) = daysBeforeMonth year m + d := by
        omega
      obtain ⟨m', d', heq, h1, hle, hlt, hs⟩ := ih (m := m+1) (d := d-daysIn m year) (by omega) (by
        rw [hsum, show m+1+fuel+1 = m+(fuel+1)+1 by omega]
        exact hd)
      exact ⟨m', d', heq, h1, by omega, hlt, hs.trans hsum⟩

/-! ### Format -/

def pad (width n : ℕ) : List Char :=
  let ds := Nat.toDigits 10 n
  List.replicate (width-ds.length) '0' ++ ds

def padYear (year : ℤ) : List Char :=
  if year < 0 then '-' :: pad 4 year.natAbs else pad 4 year.natAbs

/-- The layout's `.999999999`: no trailing zeros, and nothing at all for a whole second. -/
def fraction (nsec : ℕ) : List Char :=
  if nsec = 0 then [] else '.' :: ((pad 9 nsec).reverse.dropWhile (· == '0')).reverse

/-- `t.UTC().Format("2006-01-02 15:04:05.999999999")`. -/
def formatClickHouseDateTime64 (t : ℤ) : String :=
  let secs := t/second
  let (year, yday) := yearDay (secs/86400+unixEpochDays)
  let (month, day) := monthDay year 11 1 yday
  let clock := (secs%86400).toNat
  String.ofList (padYear year ++ '-' :: pad 2 month ++ '-' :: pad 2 day ++ ' ' ::
    pad 2 (clock/3600) ++ ':' :: pad 2 (clock/60%60) ++ ':' :: pad 2 (clock%60) ++
    fraction (t%second).toNat)

example : formatClickHouseDateTime64 (dateUTC 2026 8 12 20 17 40 223505000) =
    "2026-08-12 20:17:40.223505" := by decide

/-! ### Parse -/

def digitsValue (ds : List Char) : ℕ := Nat.ofDigitChars 10 ds 0

theorem pad_length {width n : ℕ} (hwidth : 0 < width) (h : n < 10^width) :
    (pad width n).length = width := by
  have hle : (Nat.toDigits 10 n).length ≤ width := Nat.toDigits_length 10 n width hwidth h
  rw [pad, List.length_append, List.length_replicate]
  omega

theorem digitsValue_pad (width n : ℕ) : digitsValue (pad width n) = n := by
  have hzeros (k : ℕ) : Nat.ofDigitChars 10 (List.replicate k '0') 0 = 0 := by
    induction k with
    | zero => rfl
    | succ k ih =>
      rw [List.replicate_succ, Nat.ofDigitChars_cons]
      exact ih
  rw [digitsValue, pad, Nat.ofDigitChars_append, hzeros, Nat.ofDigitChars_ten_toDigits]

theorem pad_injective {width m n : ℕ} (h : pad width m = pad width n) : m = n := by
  rw [← digitsValue_pad width m, h, digitsValue_pad]

theorem pad_isDigit {width n : ℕ} {c : Char} (hc : c ∈ pad width n) : c.isDigit = true := by
  rcases List.mem_append.mp hc with hc | hc
  · rw [List.eq_of_mem_replicate hc]
    rfl
  · exact Nat.isDigit_of_mem_toDigits (by decide) (by decide) hc

/-- Two digits, or one where the layout does not fix the width. -/
def getnum (fixed : Bool) : List Char → Option (ℕ × List Char)
  | a :: b :: rest =>
    if a.isDigit && b.isDigit then some (digitsValue [a, b], rest)
    else if a.isDigit && !fixed then some (digitsValue [a], b :: rest)
    else none
  | [a] => if a.isDigit && !fixed then some (digitsValue [a], []) else none
  | [] => none

def getYear : List Char → Option (ℕ × List Char)
  | a :: b :: c :: d :: rest =>
    if [a, b, c, d].all Char.isDigit then some (digitsValue [a, b, c, d], rest) else none
  | _ => none

def skipChar (c : Char) : List Char → Option (List Char)
  | [] => none
  | d :: rest => if d = c then some rest else none

/-- A number in a range, as the checks behind each `getnum` want it. -/
def inRange (lo hi : ℕ) (x : Option (ℕ × List Char)) : Option (ℕ × List Char) :=
  x.filter (fun y => decide (lo ≤ y.1 ∧ y.1 ≤ hi))

/-- The fraction that `Parse` takes behind the seconds although the layout has none; digits
past the ninth are dropped. -/
def parseFraction : List Char → ℕ × List Char
  | c :: d :: rest =>
    if (c == '.' || c == ',') && d.isDigit then
      let ds := ((d :: rest).takeWhile Char.isDigit).take 9
      (digitsValue ds*10^(9-ds.length), (d :: rest).dropWhile Char.isDigit)
    else (0, c :: d :: rest)
  | cs => (0, cs)

/-- `Z07:00`: the offset in seconds. Offsets of 24 hours and 60 minutes are let through. -/
def parseZone : List Char → Option (ℤ × List Char)
  | 'Z' :: rest => some (0, rest)
  | sign :: cs => do
    let (hr, cs₁) ← inRange 0 24 (getnum true cs)
    let cs₂ ← skipChar ':' cs₁
    let (mm, rest) ← inRange 0 60 (getnum true cs₂)
    if sign = '+' then some ((hr*60+mm)*60, rest)
    else if sign = '-' then some (-((hr*60+mm)*60), rest)
    else none
  | [] => none

/-- `time.Parse(time.RFC3339, s)`. -/
def parseRFC3339 (s : String) : Option ℤ := do
  let (year, cs) ← getYear s.toList
  let cs ← skipChar '-' cs
  let (month, cs) ← inRange 1 12 (getnum true cs)
  let cs ← skipChar '-' cs
  let (day, cs) ← inRange 1 (daysIn month year) (getnum true cs)
  let cs ← skipChar 'T' cs
  let (hour, cs) ← inRange 0 23 (getnum false cs)
  let cs ← skipChar ':' cs
  let (min, cs) ← inRange 0 59 (getnum true cs)
  let cs ← skipChar ':' cs
  let (sec, cs) ← inRange 0 59 (getnum true cs)
  let (nsec, cs) := parseFraction cs
  let (offset, cs) ← parseZone cs
  if cs = [] then some (dateUTC year month day hour min sec nsec - offset*second) else none

end CairnObs
