import CairnObs.TextSearch

/-! Rust's `str` as a list of characters with their sizes in bytes. An operation that panics
answers `none`. -/
namespace RustStr

/-- `char::is_whitespace`. -/
def isWhitespace (c : Char) : Bool :=
  ['\t', '\n', '\x0b', '\x0c', '\r', ' ', '\u0085', '\u00a0', '\u1680', '\u2028',
    '\u2029', '\u202f', '\u205f', '\u3000'].contains c || decide ('\u2000' ≤ c ∧ c ≤ '\u200a')

/-- `str::trim`. -/
def trim (cs : List Char) : List Char := TextSearch.trim isWhitespace cs

/-- `str::len`. -/
def byteLen (cs : List Char) : ℕ := (cs.map Char.utf8Size).sum

/-- `str::split_at`, which panics within a character and behind the end. -/
def splitAt : List Char → ℕ → Option (List Char × List Char)
  | cs, 0 => some ([], cs)
  | [], _+1 => none
  | c :: cs, n+1 =>
    if c.utf8Size ≤ n+1 then (splitAt cs (n+1-c.utf8Size)).map (fun r => (c :: r.1, r.2)) else none

def digit (c : Char) : ℕ := c.toNat-48

/-- The number that digits write behind `acc`. -/
def decimal (acc : ℕ) (cs : List Char) : ℕ := cs.foldl (fun n c => n*10+digit c) acc

/-- The loop of `from_str_radix`, with its checked product and sum. -/
def parseDigits (bound : ℕ) : ℕ → List Char → Option ℕ
  | acc, [] => some acc
  | acc, c :: cs =>
    if c.isDigit ∧ acc*10 < bound ∧ acc*10+digit c < bound then
      parseDigits bound (acc*10+digit c) cs
    else none

/-- `from_str` of an unsigned type whose values are below `bound`. -/
def parseUnsigned (bound : ℕ) : List Char → Option ℕ
  | [] => none
  | '+' :: c :: cs => parseDigits bound 0 (c :: cs)
  | c :: cs => parseDigits bound 0 (c :: cs)

/-! ### Splitting -/

@[simp] theorem byteLen_nil : byteLen [] = 0 := rfl

@[simp] theorem byteLen_cons (c : Char) (cs : List Char) :
    byteLen (c :: cs) = c.utf8Size+byteLen cs := rfl

theorem byteLen_append (cs ds : List Char) : byteLen (cs ++ ds) = byteLen cs+byteLen ds := by
  rw [byteLen, List.map_append, List.sum_append]
  rfl

variable {cs : List Char} {n : ℕ}

theorem splitAt_cons {c : Char} (h : c.utf8Size ≤ n) :
    splitAt (c :: cs) n = (splitAt cs (n-c.utf8Size)).map (fun r => (c :: r.1, r.2)) := by
  cases n with
  | zero =>
    have hpos := c.utf8Size_pos
    omega
  | succ n => exact if_pos h

theorem splitAt_append (cs ds : List Char) (n : ℕ) :
    splitAt (cs ++ ds) (byteLen cs+n) = (splitAt ds n).map (fun r => (cs ++ r.1, r.2)) := by
  induction cs with
  | nil => simp
  | cons c cs ih =>
    have hrest : byteLen (c :: cs)+n-c.utf8Size = byteLen cs+n := by
      rw [byteLen_cons]
      omega
    rw [List.cons_append, splitAt_cons (by rw [byteLen_cons]; omega), hrest, ih, Option.map_map]
    rfl

/-- The last byte can be cut off just if it is a character. -/
theorem splitAt_last (cs : List Char) (c : Char) :
    splitAt (cs ++ [c]) (byteLen (cs ++ [c])-1) =
      if c.utf8Size = 1 then some (cs, [c]) else none := by
  have hpos := c.utf8Size_pos
  have hlen : byteLen (cs ++ [c])-1 = byteLen cs+(c.utf8Size-1) := by
    rw [byteLen_append, byteLen_cons, byteLen_nil]
    omega
  rw [hlen, splitAt_append]
  split_ifs with hone
  · rw [hone]
    simp [splitAt]
  · obtain ⟨n, hn⟩ : ∃ n, c.utf8Size-1 = n+1 := ⟨c.utf8Size-2, by omega⟩
    have hcut : splitAt [c] (n+1) = none := if_neg (by omega)
    rw [hn, hcut, Option.map_none]

/-! ### Numbers -/

theorem decimal_cons (acc : ℕ) (c : Char) (cs : List Char) :
    decimal acc (c :: cs) = decimal (acc*10+digit c) cs := by
  rw [decimal, List.foldl_cons, decimal]

theorem le_decimal (acc : ℕ) (cs : List Char) : acc ≤ decimal acc cs := by
  induction cs generalizing acc with
  | nil => exact le_rfl
  | cons c cs ih =>
    rw [decimal_cons]
    have hrest := ih (acc*10+digit c)
    omega

/-- The checks of the loop are one check of its result. -/
theorem parseDigits_eq_some {bound acc : ℕ} (hacc : acc < bound) :
    parseDigits bound acc cs = some n ↔
      (∀ c ∈ cs, c.isDigit = true) ∧ n = decimal acc cs ∧ n < bound := by
  induction cs generalizing acc with
  | nil =>
    constructor
    · intro h
      cases h
      exact ⟨fun c hc => absurd hc List.not_mem_nil, rfl, hacc⟩
    · rintro ⟨-, rfl, -⟩
      rfl
  | cons c cs ih =>
    rw [parseDigits, decimal_cons, List.forall_mem_cons]
    split_ifs with h
    · rw [ih h.2.2, and_iff_right h.1]
    · refine iff_of_false nofun ?_
      rintro ⟨⟨hc, -⟩, rfl, hbound⟩
      have hle := le_decimal (acc*10+digit c) cs
      exact h ⟨hc, by omega, by omega⟩

/-- What is read as a number: digits, behind a plus sign or on their own. -/
theorem parseUnsigned_eq_some {bound : ℕ} (hbound : 0 < bound) :
    parseUnsigned bound cs = some n ↔
      ∃ sign digits, cs = sign ++ digits ∧ (sign = [] ∨ sign = ['+']) ∧ digits ≠ [] ∧
        (∀ c ∈ digits, c.isDigit = true) ∧ n = decimal 0 digits ∧ n < bound := by
  have hplus : '+'.isDigit = false := rfl
  constructor
  · intro h
    unfold parseUnsigned at h
    split at h
    · cases h
    · rename_i c cs
      exact ⟨['+'], c :: cs, rfl, .inr rfl, List.cons_ne_nil c cs,
        (parseDigits_eq_some hbound).mp h⟩
    · rename_i c cs _
      exact ⟨[], c :: cs, rfl, .inl rfl, List.cons_ne_nil c cs, (parseDigits_eq_some hbound).mp h⟩
  · rintro ⟨sign, digits, rfl, hsign, hne, hread⟩
    obtain ⟨c, digits, rfl⟩ := List.exists_cons_of_ne_nil hne
    have hdigits := (parseDigits_eq_some hbound).mpr hread
    rcases hsign with rfl | rfl
    -- The first rule of the match is not for a digit.
    · have hc : c ≠ '+' := by
        rintro rfl
        have hdigit := hread.1 '+' List.mem_cons_self
        rw [hplus] at hdigit
        cases hdigit
      rw [List.nil_append, parseUnsigned]
      · exact hdigits
      · intro _ _ h
        exact absurd h hc
    · exact hdigits

theorem byteLen_of_isDigit (h : ∀ c ∈ cs, c.isDigit = true) : byteLen cs = cs.length := by
  induction cs with
  | nil => rfl
  | cons c cs ih =>
    obtain ⟨hc, hcs⟩ := List.forall_mem_cons.mp h
    have hsize : c.utf8Size = 1 := by
      have hle : c.val ≤ '9'.val := of_decide_eq_true (Bool.and_eq_true_iff.mp hc).2
      exact if_pos (UInt32.le_trans hle (by decide))
    rw [byteLen_cons, hsize, ih hcs, List.length_cons, Nat.add_comm]

/-- Digits alone. -/
theorem parseUnsigned_of_digits {bound : ℕ} (hbound : 0 < bound) (hne : cs ≠ [])
    (h : ∀ c ∈ cs, c.isDigit = true) :
    parseUnsigned bound cs = some n ↔ n = decimal 0 cs ∧ n < bound := by
  rw [parseUnsigned_eq_some hbound]
  constructor
  · rintro ⟨sign, digits, rfl, rfl | rfl, -, -, hn⟩
    · exact hn
    · have hplus := h '+' List.mem_cons_self
      cases hplus
  · intro hn
    exact ⟨[], cs, rfl, .inl rfl, hne, h, hn⟩

end RustStr
