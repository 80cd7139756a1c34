import CairnObs.QueryNarrowing

/-! Relative times: `earliest=-15m` and its kin, from the count the parser reads to the instant
`resolveTimeExpr` returns. -/
namespace CairnObs.QueryLang

/-- The instant a relative time names, over the integers. -/
def Sign.shift (now : ℤ) : Sign → ℤ → ℤ
  | .minus, d => now-d
  | .plus, d => now+d

/-- A relative time resolves to the instant it names or not at all, and one that goes back
never to an instant ahead of `now`. -/
def ResolvesExactly (sign : Sign) (n : ℕ) (unit : TimeUnit) : Prop :=
  ∀ now, ((∃ e, resolveTimeExpr now (.relative sign n unit) = .error e) ∨
      resolveTimeExpr now (.relative sign n unit) = .ok (sign.shift now (n*unit.duration))) ∧
    (sign = .minus → ∀ t, resolveTimeExpr now (.relative sign n unit) = .ok t → t ≤ now)

theorem TimeUnit.duration_pos (unit : TimeUnit) : 0 < unit.duration := by
  cases unit <;> decide

theorem TimeUnit.second_dvd_duration (unit : TimeUnit) : second ∣ unit.duration := by
  cases unit <;> decide

/-- A count of seconds is never 2^63 nanoseconds, the one value whose negation fits and which
itself does not. -/
theorem count_ne_two_pow (n : ℕ) (unit : TimeUnit) : (n*unit.duration : ℤ) ≠ 2^63 := by
  obtain ⟨k, hk⟩ := unit.second_dvd_duration
  intro h
  rw [hk] at h
  have hdvd : (second : ℤ) ∣ 2^63 := ⟨n*k, by rw [← h]; ring⟩
  exact absurd hdvd (by decide)

/-- The offset that is added to `now`. -/
def Sign.offset (n : ℕ) (unit : TimeUnit) : Sign → ℤ
  | .minus => wrapInt64 (-(n*unit.duration))
  | .plus => wrapInt64 (n*unit.duration)

theorem resolveTimeExpr_relative (now : ℤ) (sign : Sign) (n : ℕ) (unit : TimeUnit) :
    resolveTimeExpr now (.relative sign n unit) = .ok (now+sign.offset n unit) := by
  cases sign with
  | minus =>
    simp only [resolveTimeExpr, relativeOffset, Sign.offset]
    rw [wrapInt64_neg_wrapInt64]
  | plus => rfl

/-- The offset is the one asked for just if it fits into int64. -/
theorem shift_eq_iff (now : ℤ) (sign : Sign) (n : ℕ) (unit : TimeUnit) :
    now+sign.offset n unit = sign.shift now (n*unit.duration) ↔ n*unit.duration < 2^63 := by
  have hpos : (0 : ℤ) ≤ n*unit.duration :=
    mul_nonneg (Int.natCast_nonneg n) unit.duration_pos.le
  have hne := count_ne_two_pow n unit
  cases sign with
  | minus =>
    have hself := wrapInt64_eq_self_iff (n := -(n*unit.duration))
    simp only [Sign.offset, Sign.shift]
    constructor
    · intro h
      have hexact : wrapInt64 (-(n*unit.duration)) = -(n*unit.duration) := by linarith
      have hfit := hself.mp hexact
      omega
    · intro h
      rw [hself.mpr ⟨by omega, by omega⟩]
      ring
  | plus =>
    have hself := wrapInt64_eq_self_iff (n := n*unit.duration)
    simp only [Sign.offset, Sign.shift]
    constructor
    · intro h
      have hexact : wrapInt64 (n*unit.duration) = n*unit.duration := by linarith
      exact (hself.mp hexact).2
    · intro h
      rw [hself.mpr ⟨by omega, h⟩]

theorem resolvesExactly_iff (sign : Sign) (n : ℕ) (unit : TimeUnit) :
    ResolvesExactly sign n unit ↔ n*unit.duration < 2^63 := by
  have hpos : (0 : ℤ) ≤ n*unit.duration :=
    mul_nonneg (Int.natCast_nonneg n) unit.duration_pos.le
  constructor
  · intro h
    obtain ⟨⟨e, he⟩ | hok, -⟩ := h 0
    · rw [resolveTimeExpr_relative] at he
      cases he
    · rw [resolveTimeExpr_relative] at hok
      exact (shift_eq_iff 0 sign n unit).mp (Except.ok.inj hok)
  · intro h now
    have hshift := (shift_eq_iff now sign n unit).mpr h
    rw [resolveTimeExpr_relative, hshift]
    refine ⟨.inr rfl, ?_⟩
    rintro rfl t ht
    cases ht
    simp only [Sign.shift]
    omega

/-- Over every text of a query: its relative bounds resolve exactly, or are refused, just if
each of them is less than 2^63 nanoseconds long, which is a little over 292 years. -/
theorem relative_bounds_exact_iff (input : String) :
    (∀ q, parse input = .ok q → ∀ kind sign n unit,
      Term.timeBound kind (.relative sign n unit) ∈ q.terms → ResolvesExactly sign n unit) ↔
    ∀ q, parse input = .ok q → ∀ kind sign n unit,
      Term.timeBound kind (.relative sign n unit) ∈ q.terms →
        (n*unit.duration : ℤ) < 2^63 := by
  constructor
  · intro h q hq kind sign n unit hmem
    exact (resolvesExactly_iff sign n unit).mp (h q hq kind sign n unit hmem)
  · intro h q hq kind sign n unit hmem
    exact (resolvesExactly_iff sign n unit).mpr (h q hq kind sign n unit hmem)

/-- 15251 weeks back are read as an instant 292 years ahead. -/
theorem relative_bound_wraps :
    parse "earliest=-15251w" =
      .ok ⟨⟨[.timeBound .earliest (.relative .minus 15251 .w)], []⟩, []⟩ ∧
    resolveTimeExpr 0 (.relative .minus 15251 .w) = .ok 9222939273709551616 ∧
    ¬ ∀ q, parse "earliest=-15251w" = .ok q → ∀ kind sign n unit,
      Term.timeBound kind (.relative sign n unit) ∈ q.terms → ResolvesExactly sign n unit := by
  have hparse : parse "earliest=-15251w" =
      .ok ⟨⟨[.timeBound .earliest (.relative .minus 15251 .w)], []⟩, []⟩ := by decide +kernel
  refine ⟨hparse, by decide +kernel, fun h => ?_⟩
  have hexact := h _ hparse .earliest .minus 15251 .w (by decide)
  exact absurd ((resolvesExactly_iff .minus 15251 .w).mp hexact) (by decide)

end CairnObs.QueryLang
