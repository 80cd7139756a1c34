import CairnObs.RustStr

/-! Durations in the settings of the agent, `parse_duration` of `config.rs`. -/
namespace CairnObs.AgentSettings
open RustStr

/-- Both errors quote the trimmed text. -/
inductive DurationError
  | number (s : List Char)
  | timeUnit (n : ℕ) (s : List Char)
  deriving DecidableEq

/-- The text of an error; `debug` is how Rust quotes a string. -/
def DurationError.text (debug : List Char → String) : DurationError → String
  | .number s => "expected a duration like \"30s\", \"5m\", or \"1h\", got " ++ debug s
  | .timeUnit n s =>
    "expected a time unit of s, m, or h after " ++ toString n ++ ", got " ++ debug s

/-- A product of `u64`. One that does not fit panics if overflow is checked, as in a debug
build, and else is cut to 64 bits. -/
def mulU64 (checked : Bool) (n k : ℕ) : Option ℕ :=
  if n*k < 2^64 then some (n*k) else if checked then none else some (n*k%2^64)

/-- The duration is in seconds; `none` is a panic. -/
def parseDuration (checked : Bool) (s : List Char) : Option (Except DurationError ℕ) := do
  let s := trim s
  let (num, suffix) ← splitAt s (byteLen s-1)
  match parseUnsigned (2^64) num with
  | none => some (.error (.number s))
  | some n =>
    if suffix = ['s'] then some (.ok n)
    else if suffix = ['m'] then (mulU64 checked n 60).map .ok
    else if suffix = ['h'] then (mulU64 checked n 3600).map .ok
    else some (.error (.timeUnit n s))

/-! ### What a text denotes -/

/-- The seconds of a unit. -/
def secondsOf (c : Char) : Option ℕ :=
  if c = 's' then some 1 else if c = 'm' then some 60 else if c = 'h' then some 3600 else none

/-- The text is a number of 64 bits and the letter of a unit, which has `k` seconds. -/
def Written (s : List Char) (n k : ℕ) : Prop :=
  ∃ sign digits c, trim s = sign ++ digits ++ [c] ∧ (sign = [] ∨ sign = ['+']) ∧ digits ≠ [] ∧
    (∀ d ∈ digits, d.isDigit = true) ∧ n = decimal 0 digits ∧ n < 2^64 ∧ secondsOf c = some k

def Denotes (s : List Char) (d : ℕ) : Prop := ∃ n k, Written s n k ∧ n*k < 2^64 ∧ d = n*k

/-- The text is read as what it denotes, and rejected if it denotes nothing. -/
def ReadExactly (checked : Bool) (s : List Char) : Prop :=
  ∃ r, parseDuration checked s = some r ∧ ∀ d, r = .ok d ↔ Denotes s d

/-- The last character is a single byte. -/
def EndsInByte (s : List Char) : Prop := ∀ c ∈ (trim s).getLast?, c.utf8Size = 1

/-- The product with the seconds of the unit fits. -/
def ProductFits (s : List Char) : Prop := ∀ n k, Written s n k → n*k < 2^64

/-! ### Reading -/

variable {c : Char} {s num : List Char} {k n : ℕ} {checked : Bool}

theorem written_concat_iff (hs : trim s = num ++ [c]) :
    Written s n k ↔ parseUnsigned (2^64) num = some n ∧ secondsOf c = some k := by
  rw [parseUnsigned_eq_some (by decide)]
  constructor
  · rintro ⟨sign, digits, c', hform, hsign, hne, hdigits, hn, hbound, hunit⟩
    rw [hs] at hform
    obtain ⟨rfl, hc⟩ := List.append_inj' hform rfl
    obtain rfl := List.singleton_inj.mp hc
    exact ⟨⟨sign, digits, rfl, hsign, hne, hdigits, hn, hbound⟩, hunit⟩
  · rintro ⟨⟨sign, digits, rfl, hsign, hne, hdigits, hn, hbound⟩, hunit⟩
    exact ⟨sign, digits, c, hs, hsign, hne, hdigits, hn, hbound, hunit⟩

theorem not_written_of_empty (hs : trim s = []) : ¬ Written s n k := by
  rintro ⟨sign, digits, c, hform, -⟩
  rw [hs] at hform
  exact absurd hform.symm (by simp)

theorem parseDuration_of_empty (checked : Bool) (hs : trim s = []) :
    parseDuration checked s = some (.error (.number [])) := by
  rw [parseDuration, hs]
  rfl

/-- The last byte is cut off within a character. -/
theorem parseDuration_of_wide (checked : Bool) (hs : trim s = num ++ [c]) (hc : c.utf8Size ≠ 1) :
    parseDuration checked s = none := by
  have hsplit := splitAt_last num c
  rw [if_neg hc] at hsplit
  rw [parseDuration, hs]
  simp only [hsplit]
  rfl

theorem secondsOf_eq_some (h : secondsOf c = some k) :
    c = 's' ∧ k = 1 ∨ c = 'm' ∧ k = 60 ∨ c = 'h' ∧ k = 3600 := by
  unfold secondsOf at h
  split_ifs at h with hs hm hh
  · exact .inl ⟨hs, (Option.some.inj h).symm⟩
  · exact .inr (.inl ⟨hm, (Option.some.inj h).symm⟩)
  · exact .inr (.inr ⟨hh, (Option.some.inj h).symm⟩)

theorem parseDuration_of_written (checked : Bool) (h : Written s n k) :
    parseDuration checked s = (mulU64 checked n k).map .ok := by
  obtain ⟨sign, digits, c, hform, -⟩ := id h
  obtain ⟨hread, hunit⟩ := (written_concat_iff hform).mp h
  have hsize : c.utf8Size = 1 := by
    rcases secondsOf_eq_some hunit with ⟨rfl, -⟩ | ⟨rfl, -⟩ | ⟨rfl, -⟩ <;> rfl
  have hsplit := splitAt_last (sign ++ digits) c
  rw [if_pos hsize] at hsplit
  rw [parseDuration, hform]
  simp only [hsplit, Option.bind_eq_bind, Option.bind_some, hread]
  rcases secondsOf_eq_some hunit with ⟨rfl, rfl⟩ | ⟨rfl, rfl⟩ | ⟨rfl, rfl⟩
  · have hfits : n*1 < 2^64 := by
      obtain ⟨-, -, -, -, -, -, -, -, hbound, -⟩ := h
      omega
    rw [if_pos rfl, mulU64, if_pos hfits, Nat.mul_one]
    rfl
  · rw [if_neg (by decide), if_pos rfl]
  · rw [if_neg (by decide), if_neg (by decide), if_pos rfl]

theorem parseDuration_of_not_written (checked : Bool) (hs : trim s = num ++ [c])
    (hc : c.utf8Size = 1) (h : ∀ n k, ¬ Written s n k) :
    ∃ e, parseDuration checked s = some (.error e) := by
  have hsplit := splitAt_last num c
  rw [if_pos hc] at hsplit
  rw [parseDuration, hs]
  simp only [hsplit, Option.bind_eq_bind, Option.bind_some]
  cases hread : parseUnsigned (2^64) num with
  | none => exact ⟨_, rfl⟩
  | some n =>
    have hunit : secondsOf c = none := by
      by_contra hne
      obtain ⟨k, hk⟩ := Option.ne_none_iff_exists'.mp hne
      exact h n k ((written_concat_iff hs).mpr ⟨hread, hk⟩)
    have hletter (d : Char) (hd : secondsOf d ≠ none) : [c] ≠ [d] := by
      rintro heq
      rw [← List.singleton_inj.mp heq] at hd
      exact hd hunit
    refine ⟨.timeUnit n (num ++ [c]), ?_⟩
    show (if [c] = ['s'] then _ else _) = _
    rw [if_neg (hletter 's' (by decide)), if_neg (hletter 'm' (by decide)),
      if_neg (hletter 'h' (by decide))]

/-! ### When reading is exact -/

theorem mulU64_of_fits (checked : Bool) (h : n*k < 2^64) :
    mulU64 checked n k = some (n*k) := if_pos h

/-- A product that does not fit panics, or is replaced by a smaller one. -/
theorem mulU64_of_overflow (checked : Bool) (h : 2^64 ≤ n*k) :
    mulU64 checked n k = none ∨ ∃ d, mulU64 checked n k = some d ∧ d < 2^64 := by
  rw [mulU64, if_neg (Nat.not_lt.mpr h)]
  cases checked with
  | true => exact .inl rfl
  | false => exact .inr ⟨n*k%2^64, rfl, Nat.mod_lt _ (by decide)⟩

theorem Written.unique {n' k' : ℕ} (h : Written s n k) (h' : Written s n' k') :
    n = n' ∧ k = k' := by
  obtain ⟨sign, digits, c, hform, -⟩ := id h
  obtain ⟨hread, hunit⟩ := (written_concat_iff hform).mp h
  obtain ⟨hread', hunit'⟩ := (written_concat_iff hform).mp h'
  exact ⟨Option.some.inj (hread.symm.trans hread'), Option.some.inj (hunit.symm.trans hunit')⟩

theorem readExactly_of_written (h : Written s n k) : ReadExactly checked s ↔ n*k < 2^64 := by
  have hdenotes {d : ℕ} : Denotes s d ↔ n*k < 2^64 ∧ d = n*k := by
    constructor
    · rintro ⟨n', k', h', hfits, rfl⟩
      obtain ⟨rfl, rfl⟩ := h.unique h'
      exact ⟨hfits, rfl⟩
    · rintro ⟨hfits, rfl⟩
      exact ⟨n, k, h, hfits, rfl⟩
  simp only [ReadExactly, parseDuration_of_written checked h, hdenotes]
  constructor
  · rintro ⟨r, hr, hexact⟩
    by_contra hover
    rcases mulU64_of_overflow checked (Nat.not_lt.mp hover) with hnone | ⟨d, hd, -⟩
    · rw [hnone] at hr
      cases hr
    · rw [hd] at hr
      exact hover ((hexact d).mp (Option.some.inj hr).symm).1
  · intro hfits
    refine ⟨.ok (n*k), by rw [mulU64_of_fits checked hfits, Option.map_some], fun d => ?_⟩
    rw [Except.ok.injEq, and_iff_right hfits, eq_comm]

theorem readExactly_of_error {e : DurationError}
    (hparse : parseDuration checked s = some (.error e)) (h : ∀ n k, ¬ Written s n k) :
    ReadExactly checked s := by
  refine ⟨.error e, hparse, fun d => iff_of_false nofun ?_⟩
  rintro ⟨n, k, hwritten, -⟩
  exact h n k hwritten

theorem not_readExactly_of_panic (h : parseDuration checked s = none) :
    ¬ ReadExactly checked s := by
  rintro ⟨r, hr, -⟩
  rw [h] at hr
  cases hr

/-- Exactly the texts that end in a byte, and whose product fits, are read as they should be. -/
theorem parse_duration_exact_iff (checked : Bool) (s : List Char) :
    ReadExactly checked s ↔ EndsInByte s ∧ ProductFits s := by
  rcases List.eq_nil_or_concat' (trim s) with hnil | ⟨num, c, hs⟩
  · have hnone (n k : ℕ) : ¬ Written s n k := not_written_of_empty hnil
    refine iff_of_true (readExactly_of_error (parseDuration_of_empty checked hnil) hnone) ⟨?_, ?_⟩
    · intro c hc
      rw [hnil] at hc
      cases hc
    · exact fun n k h => absurd h (hnone n k)
  · have hends : EndsInByte s ↔ c.utf8Size = 1 := by
      simp [EndsInByte, hs]
    rw [hends]
    by_cases hc : c.utf8Size = 1
    · rw [and_iff_right hc]
      by_cases hwritten : ∃ n k, Written s n k
      · obtain ⟨n, k, hwritten⟩ := hwritten
        rw [readExactly_of_written hwritten]
        constructor
        · intro hfits n' k' h'
          obtain ⟨rfl, rfl⟩ := hwritten.unique h'
          exact hfits
        · exact fun hfits => hfits n k hwritten
      · have hnone (n k : ℕ) : ¬ Written s n k := fun h => hwritten ⟨n, k, h⟩
        obtain ⟨e, he⟩ := parseDuration_of_not_written checked hs hc hnone
        exact iff_of_true (readExactly_of_error he hnone) (fun n k h => absurd h (hnone n k))
    -- `split_at` panics inside of a character.
    · have hpanic := not_readExactly_of_panic (parseDuration_of_wide checked hs hc)
      exact iff_of_false hpanic (fun h => hc h.1)

example : parseDuration true " 5m\n".toList = some (.ok 300) := by decide +kernel

theorem minutes_written : Written "307445734561825861m".toList 307445734561825861 60 :=
  (@written_concat_iff 'm' _ "307445734561825861".toList _ _ (by decide +kernel)).mpr
    ⟨by decide +kernel, rfl⟩

/-- A unit that is no byte makes the agent panic, and minutes that overflow make it panic or
take another duration. -/
theorem parse_duration_not_exact :
    parseDuration true "30é".toList = none ∧ ¬ ReadExactly true "30é".toList ∧
    parseDuration false "30é".toList = none ∧ ¬ ReadExactly false "30é".toList ∧
    parseDuration true "307445734561825861m".toList = none ∧
    ¬ ReadExactly true "307445734561825861m".toList ∧
    parseDuration false "307445734561825861m".toList = some (.ok 44) ∧
    ¬ ReadExactly false "307445734561825861m".toList := by
  have hwide (checked : Bool) : parseDuration checked "30é".toList = none := by
    cases checked <;> decide +kernel
  have hover (checked : Bool) : ¬ ReadExactly checked "307445734561825861m".toList :=
    fun h => absurd ((readExactly_of_written minutes_written).mp h) (by decide)
  exact ⟨hwide true, not_readExactly_of_panic (hwide true), hwide false,
    not_readExactly_of_panic (hwide false), by decide +kernel, hover true, by decide +kernel,
    hover false⟩

end CairnObs.AgentSettings
