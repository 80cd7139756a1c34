import CairnObs.WebTimes

/-! Wall-clock times in a display zone: how `time.ts` of the web client learns the offset of a
zone, and the two lookups of `naiveToUTC`. -/
namespace CairnObs.Web
open QueryLang
open JsStd hiding dateUTC

/-! ### The offset of a zone -/

/-- `/GMT([+-]\d{2}:\d{2})/` at the start of the text. -/
def atGmtOffset : List Char → Option (List Char)
  | 'G' :: 'M' :: 'T' :: sign :: a :: b :: ':' :: c :: d :: _ =>
    if (sign = '+' ∨ sign = '-') ∧ [a, b, c, d].all isDigit then some [sign, a, b, ':', c, d]
    else none
  | _ => none

/-- The first match in the text. -/
def findGmtOffset : List Char → Option (List Char)
  | [] => none
  | c :: cs => (atGmtOffset (c :: cs)).or (findGmtOffset cs)

/-- `name` is what the platform writes for the offset, if anything. -/
def offsetLabel (name : Option (List Char)) : List Char :=
  (findGmtOffset (name.getD [])).getD "+00:00".toList

/-- The minutes of a label that matches `/^([+-])(\d{2}):(\d{2})$/`. -/
def offsetMinutes : List Char → ℤ
  | [sign, a, b, ':', c, d] =>
    if (sign = '+' ∨ sign = '-') ∧ [a, b, c, d].all isDigit then
      (if sign = '-' then -1 else 1)*(digitsValue [a, b]*60+digitsValue [c, d])
    else 0
  | _ => 0

/-- What a platform writes as the `longOffset` of a whole number of minutes. -/
def longOffset (m : ℤ) : List Char :=
  if m = 0 then "GMT".toList
  else "GMT".toList ++ (if m < 0 then '-' else '+') :: pad 2 (m.natAbs/60) ++
    ':' :: pad 2 (m.natAbs%60)

theorem pad_two {n : ℕ} (h : n < 100) :
    ∃ a b, pad 2 n = [a, b] ∧ isDigit a = true ∧ isDigit b = true := by
  obtain ⟨a, b, hab⟩ := List.length_eq_two.mp (@pad_length 2 n (by decide) h)
  have hdigit : ∀ c ∈ pad 2 n, isDigit c = true := by
    rw [isDigit_eq]
    exact fun c hc => pad_isDigit hc
  rw [hab] at hdigit
  exact ⟨a, b, hab, hdigit a (by simp), hdigit b (by simp)⟩

/-- The label of the platform is read back as the offset. -/
theorem offsetMinutes_longOffset {m : ℤ} (h : m.natAbs < 6000) :
    offsetMinutes (offsetLabel (some (longOffset m))) = m := by
  by_cases hzero : m = 0
  · rw [hzero]
    decide
  · obtain ⟨a, b, hab, ha, hb⟩ := pad_two (n := m.natAbs/60) (by omega)
    obtain ⟨c, d, hcd, hc, hd⟩ := pad_two (n := m.natAbs%60) (by omega)
    have hhours := digitsValue_pad 2 (m.natAbs/60)
    have hmins := digitsValue_pad 2 (m.natAbs%60)
    rw [hab] at hhours
    rw [hcd] at hmins
    have hsign : (if m < 0 then '-' else '+') = '+' ∨ (if m < 0 then '-' else '+') = '-' := by
      split_ifs
      · exact .inr rfl
      · exact .inl rfl
    have hdigits : [a, b, c, d].all isDigit = true := by simp [ha, hb, hc, hd]
    have hlabel : offsetLabel (some (longOffset m)) =
        [if m < 0 then '-' else '+', a, b, ':', c, d] := by
      rw [longOffset, if_neg hzero, hab, hcd, offsetLabel]
      -- The pattern looks at the sign only to see that it is one.
      generalize (if m < 0 then '-' else '+') = sign at hsign
      have hfound : atGmtOffset ['G', 'M', 'T', sign, a, b, ':', c, d] =
          some [sign, a, b, ':', c, d] := if_pos ⟨hsign, hdigits⟩
      show ((atGmtOffset ['G', 'M', 'T', sign, a, b, ':', c, d]).or _).getD _ = _
      rw [hfound]
      rfl
    rw [hlabel, offsetMinutes, if_pos ⟨hsign, hdigits⟩, hhours, hmins]
    split_ifs with hneg hneg' hneg'
    · omega
    · exact absurd rfl hneg'
    · exact absurd hneg' (by decide)
    · omega

/-! ### Two lookups -/

/-- The offset changes at most once around `w`, from `p` to `q` at `c`. If some instant has the
wall-clock time `w`, then so has the one that the two lookups lead to. -/
theorem two_lookups {o : ℤ → ℤ} {w lo hi c p q : ℤ}
    (hchange : ∀ u, lo ≤ u → u ≤ hi → o u = if u < c then p else q) (hw : lo ≤ w ∧ w ≤ hi)
    (hnear : ∀ u, lo ≤ w-o u ∧ w-o u ≤ hi) {t : ℤ} (ht : t+o t = w) :
    w-o (w-o w)+o (w-o (w-o w)) = w := by
  have hfirst := hchange w hw.1 hw.2
  have hsecond := hchange (w-o w) (hnear w).1 (hnear w).2
  have hresult := hchange (w-o (w-o w)) (hnear (w-o w)).1 (hnear (w-o w)).2
  have hshown := hchange t (by have := hnear t; omega) (by have := hnear t; omega)
  -- The second lookup fails only where no instant has the time at all.
  by_cases hbefore : w < c
  · rw [if_pos hbefore] at hfirst
    rw [hfirst] at hsecond hresult ⊢
    by_cases hp : w-p < c
    · rw [if_pos hp] at hsecond
      rw [hsecond] at hresult ⊢
      omega
    · rw [if_neg hp] at hsecond
      rw [hsecond] at hresult ⊢
      split_ifs at hresult hshown <;> omega
  · rw [if_neg hbefore] at hfirst
    rw [hfirst] at hsecond hresult ⊢
    by_cases hq : w-q < c
    · rw [if_pos hq] at hsecond
      rw [hsecond] at hresult ⊢
      split_ifs at hresult hshown <;> omega
    · rw [if_neg hq] at hsecond
      rw [hsecond] at hresult ⊢
      omega

/-- A zone: whole minutes of at most 15 hours, and at most one change in any 48 hours. Instants
are in milliseconds. -/
structure DisplayZone where
  offset : ℤ → ℤ
  bounded : ∀ t, (offset t).natAbs ≤ 15*60
  settled : ∀ s t, s ≤ t → t < s+48*3600000 →
    ∃ c, ∀ u, s ≤ u → u ≤ t → offset u = if u < c then offset s else offset t

/-- The offset as the client learns it from the platform. -/
def DisplayZone.minutes (z : DisplayZone) : Zone :=
  fun t => offsetMinutes (offsetLabel (some (longOffset (z.offset t))))

theorem DisplayZone.minutes_eq (z : DisplayZone) (t : ℤ) : z.minutes t = z.offset t := by
  have hbound := z.bounded t
  exact offsetMinutes_longOffset (by omega)

/-- The date and time of day that a clock in the zone shows at an instant. -/
def DisplayZone.wallClock (z : DisplayZone) (t : ℤ) : CivilTime :=
  civil (t+z.offset t*60000)

/-- The date and time of day of a text without a fraction. -/
def Naive.civil (n : Naive) : CivilTime := ⟨n.year, n.month, n.day, n.hour, n.min, n.sec, 0⟩

theorem naiveToUTC_eq (z : DisplayZone) {input : List Char} {n : Naive}
    (hn : naiveDateTime (trim input) = some n) (hfrac : n.frac = []) {w : ℤ}
    (hw : JsStd.dateUTC n.year (n.month-1) n.day n.hour n.min n.sec 0 = w) :
    naiveToUTC z.minutes input =
      some (toISOString (w-z.offset (w-z.offset w*60000)*60000)) := by
  have hmillis : (millis n.frac : ℤ) = 0 := by
    rw [hfrac]
    rfl
  rw [naiveToUTC, hn, Option.map_some, hmillis, hw]
  simp only [z.minutes_eq]

/-- A wall-clock time that some instant has in the zone is resolved to such an instant. -/
theorem naive_to_utc_shows (z : DisplayZone) {input : List Char} {n : Naive}
    (hn : naiveDateTime (trim input) = some n) (hfrac : n.frac = [])
    (hyear : 1000 ≤ n.year) (hshown : ∃ t, z.wallClock t = n.civil) :
    (∃ t, naiveToUTC z.minutes input = some (toISOString t)) ∧
      ∀ t, naiveToUTC z.minutes input = some (toISOString t) → z.wallClock t = n.civil := by
  obtain ⟨t, ht⟩ := hshown
  set w := t+z.offset t*60000 with hwdef
  obtain ⟨hvalid, hinstant⟩ := civil_spec w
  have hcivil : civil w = n.civil := ht
  rw [hcivil] at hvalid hinstant
  have hw : JsStd.dateUTC n.year (n.month-1) n.day n.hour n.min n.sec 0 = w := by
    have hdate := JsStd.dateUTC_eq hvalid (show (100 : ℤ) ≤ n.year by omega)
    rw [hinstant] at hdate
    simpa only [Naive.civil, Nat.cast_zero] using hdate
  have hutc := naiveToUTC_eq z hn hfrac hw
  refine ⟨⟨_, hutc⟩, fun t' ht' => ?_⟩
  rw [hutc] at ht'
  rw [← toISOString_injective (Option.some.inj ht'), DisplayZone.wallClock]
  have hnear (u : ℤ) : w-15*3600000 ≤ w-z.offset u*60000 ∧ w-z.offset u*60000 ≤ w+15*3600000 := by
    have hbound := z.bounded u
    omega
  -- Both lookups stay within 15 hours of `w`, where the offset changes once at most.
  obtain ⟨c, hc⟩ := z.settled (w-15*3600000) (w+15*3600000) (by omega) (by omega)
  have htwo := @two_lookups (fun u => z.offset u*60000) w (w-15*3600000) (w+15*3600000) c
    (z.offset (w-15*3600000)*60000) (z.offset (w+15*3600000)*60000)
    (fun u hlo hhi => by
      show z.offset u*60000 = _
      rw [hc u hlo hhi]
      split_ifs <;> rfl)
    ⟨by omega, by omega⟩ hnear t rfl
  rw [htwo]
  exact hcivil

/-- A zone that changes its offset once. -/
def DisplayZone.changing (c p q : ℤ) (hp : p.natAbs ≤ 15*60) (hq : q.natAbs ≤ 15*60) :
    DisplayZone where
  offset t := if t < c then p else q
  bounded t := by
    split_ifs
    · exact hp
    · exact hq
  settled s t _ _ := by
    refine ⟨c, fun u hs ht => ?_⟩
    by_cases hu : u < c
    · rw [if_pos hu, if_pos hu, if_pos (by omega)]
    · rw [if_neg hu, if_neg hu, if_neg (by omega)]

/-- New York, where clocks go back an hour on 1 November 2026 at 6:00 UTC. -/
def newYork : DisplayZone :=
  .changing (JsStd.dateUTC 2026 10 1 6 0 0 0) (-240) (-300) (by decide) (by decide)

theorem newYork_repeated_hour :
    naiveToUTC newYork.minutes "2026-11-01 01:30".toList =
      some "2026-11-01T05:30:00.000Z".toList ∧
    ∀ t, naiveToUTC newYork.minutes "2026-11-01 01:30".toList = some (toISOString t) →
      newYork.wallClock t = ⟨2026, 11, 1, 1, 30, 0, 0⟩ := by
  refine ⟨by decide +kernel, ?_⟩
  exact (@naive_to_utc_shows newYork "2026-11-01 01:30".toList ⟨2026, 11, 1, 1, 30, 0, []⟩
    (by decide +kernel) rfl (by decide)
    ⟨JsStd.dateUTC 2026 10 1 5 30 0 0, by decide +kernel⟩).2

end CairnObs.Web
