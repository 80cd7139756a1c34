import Mathlib.Tactic

/-! Texts as bytes. A text is cut into the characters that UTF-8 has in it, and into single
bytes where it has none. -/
namespace Utf8

/-- What may follow a first byte: a range for each further byte, and the bits of the first one.
Long forms, surrogates and numbers past the last character are left out by these ranges. -/
def lead (a : UInt8) : Option (List (UInt8 × UInt8) × ℕ) :=
  if a < 0x80 then some ([], a.toNat)
  else if a < 0xC2 then none
  else if a ≤ 0xDF then some ([(0x80, 0xBF)], a.toNat-0xC0)
  else if a = 0xE0 then some ([(0xA0, 0xBF), (0x80, 0xBF)], 0)
  else if a = 0xED then some ([(0x80, 0x9F), (0x80, 0xBF)], 0xD)
  else if a ≤ 0xEF then some ([(0x80, 0xBF), (0x80, 0xBF)], a.toNat-0xE0)
  else if a = 0xF0 then some ([(0x90, 0xBF), (0x80, 0xBF), (0x80, 0xBF)], 0)
  else if a ≤ 0xF3 then some ([(0x80, 0xBF), (0x80, 0xBF), (0x80, 0xBF)], a.toNat-0xF0)
  else if a = 0xF4 then some ([(0x80, 0x8F), (0x80, 0xBF), (0x80, 0xBF)], 4)
  else none

/-- The further bytes of a character: its number, the bytes and what follows them. -/
def takeTails : List (UInt8 × UInt8) → ℕ → List UInt8 → Option (ℕ × List UInt8 × List UInt8)
  | [], v, bs => some (v, [], bs)
  | _ :: _, _, [] => none
  | (lo, hi) :: ranges, v, b :: bs =>
    if lo ≤ b ∧ b ≤ hi then
      (takeTails ranges (v*64+(b.toNat-0x80)) bs).map (fun r => (r.1, b :: r.2.1, r.2.2))
    else none

/-- The character at the start: its number, its bytes and what follows them. -/
def first : List UInt8 → Option (ℕ × List UInt8 × List UInt8)
  | [] => none
  | a :: bs => (lead a).bind (fun l =>
      (takeTails l.1 l.2 bs).map (fun r => (r.1, a :: r.2.1, r.2.2)))

/-- A character with its bytes, or a byte that belongs to none. -/
structure Rune where
  char? : Option Char
  bytes : List UInt8
  deriving DecidableEq

/-- A byte that is no character is read as the replacement character. -/
def Rune.value (r : Rune) : Char := r.char?.getD '\ufffd'

def decodeWith : ℕ → List UInt8 → List Rune
  | 0, _ => []
  | _+1, [] => []
  | n+1, b :: bs =>
    match first (b :: bs) with
    | some (v, bytes, rest) => ⟨some (Char.ofNat v), bytes⟩ :: decodeWith n rest
    | none => ⟨none, [b]⟩ :: decodeWith n bs

def decode (bs : List UInt8) : List Rune := decodeWith bs.length bs

/-- The whole text is UTF-8. -/
def valid (bs : List UInt8) : Bool := (decode bs).all (fun r => r.char?.isSome)

/-! ### The first character -/

variable {bs bytes rest : List UInt8} {v : ℕ} {hi lo : UInt8} {r : ℕ × List UInt8 × List UInt8}
  {ranges : List (UInt8 × UInt8)}

theorem takeTails_eq_some {w : ℕ} (h : takeTails ranges v bs = some (w, bytes, rest)) :
    bs = bytes ++ rest ∧ bytes.length = ranges.length := by
  induction ranges generalizing v bs bytes with
  | nil =>
    cases h
    exact ⟨rfl, rfl⟩
  | cons range ranges ih =>
    cases bs with
    | nil => cases h
    | cons b bs =>
      obtain ⟨lo, hi⟩ := range
      rw [takeTails] at h
      split_ifs at h
      obtain ⟨r, hr, heq⟩ := Option.map_eq_some_iff.mp h
      cases heq
      obtain ⟨hbs, hlen⟩ := ih hr
      exact ⟨by rw [hbs, List.cons_append], by rw [List.length_cons, List.length_cons, hlen]⟩

theorem first_eq_some (h : first bs = some (v, bytes, rest)) : bs = bytes ++ rest ∧ bytes ≠ [] := by
  cases bs with
  | nil => cases h
  | cons a bs =>
    obtain ⟨l, -, h⟩ := Option.bind_eq_some_iff.mp h
    obtain ⟨r, hr, heq⟩ := Option.map_eq_some_iff.mp h
    cases heq
    obtain ⟨hbs, -⟩ := takeTails_eq_some hr
    exact ⟨by rw [hbs, List.cons_append], List.cons_ne_nil _ _⟩

theorem takeTails_cons (h : takeTails ((lo, hi) :: ranges) v bs = some r) :
    ∃ b bs', bs = b :: bs' ∧ lo.toNat ≤ b.toNat ∧ b.toNat ≤ hi.toNat ∧
      ∃ r', takeTails ranges (v*64+(b.toNat-0x80)) bs' = some r' ∧ r.1 = r'.1 := by
  cases bs with
  | nil => cases h
  | cons b bs =>
    rw [takeTails] at h
    split_ifs at h with hb
    obtain ⟨r', hr', rfl⟩ := Option.map_eq_some_iff.mp h
    exact ⟨b, bs, rfl, hb.1, hb.2, r', hr', rfl⟩

theorem takeTails_nil (h : takeTails [] v bs = some r) : r.1 = v := by
  cases h
  rfl

theorem takeTails_one (h : takeTails [(lo, hi)] v bs = some r) :
    ∃ b : UInt8, lo.toNat ≤ b.toNat ∧ b.toNat ≤ hi.toNat ∧ r.1 = v*64+(b.toNat-0x80) := by
  obtain ⟨b, bs', -, hlo, hhi, r', hr', hnum⟩ := takeTails_cons h
  exact ⟨b, hlo, hhi, hnum.trans (takeTails_nil hr')⟩

theorem takeTails_more {range : UInt8 × UInt8}
    (h : takeTails ((lo, hi) :: range :: ranges) v bs = some r) :
    ∃ (b : UInt8) (bs' : List UInt8) (r' : ℕ × List UInt8 × List UInt8),
      lo.toNat ≤ b.toNat ∧ b.toNat ≤ hi.toNat ∧ r.1 = r'.1 ∧
      takeTails (range :: ranges) (v*64+(b.toNat-0x80)) bs' = some r' := by
  obtain ⟨b, bs', -, hlo, hhi, r', hr', hnum⟩ := takeTails_cons h
  exact ⟨b, bs', r', hlo, hhi, hnum, hr'⟩

/-- Three bytes. -/
theorem takeTails_two (h : takeTails [(lo, hi), (0x80, 0xBF)] v bs = some r) :
    ∃ b c : ℕ, lo.toNat ≤ b ∧ b ≤ hi.toNat ∧ c < 64 ∧ r.1 = (v*64+(b-0x80))*64+c := by
  obtain ⟨b, bs', r', hlo, hhi, hnum, h⟩ := takeTails_more h
  obtain ⟨c, hlo', hhi', hnum'⟩ := takeTails_one h
  simp only [UInt8.reduceToNat] at hlo' hhi'
  exact ⟨b.toNat, c.toNat-0x80, hlo, hhi, by omega, hnum.trans hnum'⟩

/-- Four bytes. -/
theorem takeTails_three (h : takeTails [(lo, hi), (0x80, 0xBF), (0x80, 0xBF)] v bs = some r) :
    ∃ b c d : ℕ, lo.toNat ≤ b ∧ b ≤ hi.toNat ∧ c < 64 ∧ d < 64 ∧
      r.1 = ((v*64+(b-0x80))*64+c)*64+d := by
  obtain ⟨b, bs', r', hlo, hhi, hnum, h⟩ := takeTails_more h
  obtain ⟨c, d, hlo', hhi', hd, hnum'⟩ := takeTails_two h
  simp only [UInt8.reduceToNat] at hlo' hhi'
  exact ⟨b.toNat, c-0x80, d, hlo, hhi, by omega, hd, hnum.trans hnum'⟩

/-- A character of several bytes is none of the first 128, and the number of a character. -/
theorem lead_number {a : UInt8} {l : List (UInt8 × UInt8) × ℕ} (hl : lead a = some l)
    (h : takeTails l.1 l.2 bs = some r) :
    (a.toNat < 0x80 ∧ l = ([], a.toNat)) ∨ (0x80 ≤ r.1 ∧ r.1.isValidChar) := by
  have hlt (x : UInt8) : (a < x) = (a.toNat < x.toNat) := rfl
  have hle (x : UInt8) : (a ≤ x) = (a.toNat ≤ x.toNat) := rfl
  have heq (x : UInt8) : (a = x) = (a.toNat = x.toNat) := by
    rw [UInt8.toNat_inj]
  unfold lead at hl
  simp only [hlt, hle, heq, UInt8.reduceToNat] at hl
  split_ifs at hl with h1 h2 h3 h4 h5 h6 h7 h8 h9
  · exact .inl ⟨h1, (Option.some.inj hl).symm⟩
  all_goals
    obtain rfl := Option.some.inj hl
    refine .inr ?_
  · obtain ⟨b, hlo, hhi, hnum⟩ := takeTails_one h
    simp only [UInt8.reduceToNat] at hlo hhi
    exact ⟨by omega, .inl (by omega)⟩
  · obtain ⟨b, c, hlo, hhi, hc, hnum⟩ := takeTails_two h
    simp only [UInt8.reduceToNat] at hlo hhi
    exact ⟨by omega, .inl (by omega)⟩
  · obtain ⟨b, c, hlo, hhi, hc, hnum⟩ := takeTails_two h
    simp only [UInt8.reduceToNat] at hlo hhi
    exact ⟨by omega, .inl (by omega)⟩
  · obtain ⟨b, c, hlo, hhi, hc, hnum⟩ := takeTails_two h
    simp only [UInt8.reduceToNat] at hlo hhi
    refine ⟨by omega, ?_⟩
    -- Below the surrogates, or above them.
    by_cases hbelow : a.toNat < 0xED
    · exact .inl (by omega)
    · exact .inr ⟨by omega, by omega⟩
  · obtain ⟨b, c, d, hlo, hhi, hc, hd, hnum⟩ := takeTails_three h
    simp only [UInt8.reduceToNat] at hlo hhi
    exact ⟨by omega, .inr ⟨by omega, by omega⟩⟩
  · obtain ⟨b, c, d, hlo, hhi, hc, hd, hnum⟩ := takeTails_three h
    simp only [UInt8.reduceToNat] at hlo hhi
    exact ⟨by omega, .inr ⟨by omega, by omega⟩⟩
  · obtain ⟨b, c, d, hlo, hhi, hc, hd, hnum⟩ := takeTails_three h
    simp only [UInt8.reduceToNat] at hlo hhi
    exact ⟨by omega, .inr ⟨by omega, by omega⟩⟩

/-! ### The whole text -/

theorem decodeWith_bytes {n : ℕ} (h : bs.length ≤ n) :
    (decodeWith n bs).flatMap Rune.bytes = bs ∧ ∀ r ∈ decodeWith n bs, r.bytes ≠ [] := by
  induction n generalizing bs with
  | zero =>
    obtain rfl := List.length_eq_zero_iff.mp (Nat.le_zero.mp h)
    exact ⟨rfl, fun r hr => absurd hr List.not_mem_nil⟩
  | succ n ih =>
    cases bs with
    | nil => exact ⟨rfl, fun r hr => absurd hr List.not_mem_nil⟩
    | cons b bs =>
      rw [List.length_cons] at h
      rw [decodeWith]
      cases hfirst : first (b :: bs) with
      | none =>
        have hshort : bs.length ≤ n := by omega
        obtain ⟨hbytes, hne⟩ := ih hshort
        refine ⟨by rw [List.flatMap_cons, hbytes]; rfl, List.forall_mem_cons.mpr ⟨?_, hne⟩⟩
        exact List.cons_ne_nil b []
      | some r =>
        obtain ⟨v, bytes, rest⟩ := r
        obtain ⟨hsplit, hbytes⟩ := first_eq_some hfirst
        have hlen := congrArg List.length hsplit
        have hpos := List.length_pos_iff.mpr hbytes
        rw [List.length_cons, List.length_append] at hlen
        have hshort : rest.length ≤ n := by omega
        obtain ⟨hrest, hne⟩ := ih hshort
        exact ⟨by rw [List.flatMap_cons, hrest, hsplit], List.forall_mem_cons.mpr ⟨hbytes, hne⟩⟩

theorem decode_bytes (bs : List UInt8) : (decode bs).flatMap Rune.bytes = bs :=
  (decodeWith_bytes le_rfl).1

theorem decode_bytes_ne_nil {r : Rune} (h : r ∈ decode bs) : r.bytes ≠ [] :=
  (decodeWith_bytes le_rfl).2 r h

/-- A character of the first 128 is its byte. -/
def Rune.Plain (r : Rune) : Prop :=
  r.value.toNat < 0x80 → r.bytes.map UInt8.toNat = [r.value.toNat]

theorem first_plain (h : first bs = some (v, bytes, rest)) :
    Rune.Plain ⟨some (Char.ofNat v), bytes⟩ := by
  cases bs with
  | nil => cases h
  | cons a bs =>
    obtain ⟨l, hl, h⟩ := Option.bind_eq_some_iff.mp h
    obtain ⟨r, hr, heq⟩ := Option.map_eq_some_iff.mp h
    cases heq
    intro hplain
    have hvalue (hvalid : r.1.isValidChar) :
        (Rune.value ⟨some (Char.ofNat r.1), a :: r.2.1⟩).toNat = r.1 := by
      show (Char.ofNat r.1).toNat = r.1
      rw [Char.ofNat, dif_pos hvalid]
      rfl
    rcases lead_number hl hr with ⟨ha, rfl⟩ | ⟨hlarge, hvalid⟩
    · cases hr
      rw [hvalue (.inl (by show a.toNat < _; omega))]
      rfl
    · rw [hvalue hvalid] at hplain
      omega

theorem decode_plain {r : Rune} (h : r ∈ decode bs) : r.Plain := by
  have hall (n : ℕ) : ∀ bs, ∀ r ∈ decodeWith n bs, r.Plain := by
    induction n with
    | zero => exact fun bs r hr => absurd hr List.not_mem_nil
    | succ n ih =>
      intro bs r hr
      cases bs with
      | nil => exact absurd hr List.not_mem_nil
      | cons b bs =>
        rw [decodeWith] at hr
        cases hfirst : first (b :: bs) with
        | none =>
          rw [hfirst] at hr
          rcases List.mem_cons.mp hr with rfl | hr
          · exact fun hplain => absurd hplain (show ¬ '\ufffd'.toNat < 0x80 by decide)
          · exact ih bs r hr
        | some x =>
          obtain ⟨v, bytes, rest⟩ := x
          rw [hfirst] at hr
          rcases List.mem_cons.mp hr with rfl | hr
          · exact first_plain hfirst
          · exact ih rest r hr
  exact hall bs.length bs r h

end Utf8
