import Mathlib.Tactic

/-! Steps of a program that is cut off at any point: a step is done, or it is refused, or it is
done and its answer is lost. Whatever stops the program, no later step is taken. -/
namespace Attempts

variable {σ : Type*}

inductive Outcome
  | done
  | refused
  | lost
  deriving DecidableEq, Repr

/-- The state after a step, and whether the program goes on. -/
def attempt (o : Outcome) (f : σ → Option σ) (s : σ) : σ × Bool :=
  match o with
  | .done =>
    match f s with
    | some s' => (s', true)
    | none => (s, false)
  | .refused => (s, false)
  | .lost => ((f s).getD s, false)

def attempts : List (Outcome × (σ → Option σ)) → σ → σ × Bool
  | [], s => (s, true)
  | (o, f) :: rest, s =>
    match attempt o f s with
    | (s', true) => attempts rest s'
    | (s', false) => (s', false)

theorem attempt_cases (o : Outcome) (f : σ → Option σ) (s : σ) :
    (attempt o f s).1 = s ∨ f s = some (attempt o f s).1 := by
  cases o with
  | refused => exact .inl rfl
  | done | lost =>
    cases h : f s with
    | none => simp [attempt, h]
    | some s' => simp [attempt, h]

variable {s : σ} {o : Outcome} {f : σ → Option σ}

theorem attempt_of_none (h : f s = none) : attempt o f s = (s, false) := by
  cases o with
  | refused => rfl
  | done | lost => simp [attempt, h]

theorem attempt_preserves {P : σ → Prop} (hs : P s) (hf : ∀ s', f s = some s' → P s') :
    P (attempt o f s).1 := by
  rcases attempt_cases o f s with hsame | htaken
  · rwa [hsame]
  · exact hf _ htaken

/-- A step after which the program goes on was taken. -/
theorem attempt_eq_true (h : (attempt o f s).2 = true) : f s = some (attempt o f s).1 := by
  cases o with
  | refused | lost => cases h
  | done =>
    cases hf : f s with
    | none => simp [attempt, hf] at h
    | some s' => simp [attempt, hf]

theorem attempts_cons (o : Outcome) (f : σ → Option σ) (rest : List (Outcome × (σ → Option σ)))
    (s : σ) :
    attempts ((o, f) :: rest) s =
      if (attempt o f s).2 then attempts rest (attempt o f s).1
      else ((attempt o f s).1, false) := by
  rw [attempts]
  generalize attempt o f s = r
  obtain ⟨s', b⟩ := r
  cases b with
  | true => rfl
  | false => rfl

/-- What every step preserves holds wherever the program stops. -/
theorem attempts_preserves {P : σ → Prop} {l : List (Outcome × (σ → Option σ))}
    (hl : ∀ x ∈ l, ∀ s s', P s → x.2 s = some s' → P s') (hs : P s) : P (attempts l s).1 := by
  induction l generalizing s with
  | nil => exact hs
  | cons x rest ih =>
    obtain ⟨o, f⟩ := x
    have hnext := attempt_preserves (o := o) hs (hl (o, f) List.mem_cons_self s · hs)
    rw [attempts_cons]
    split_ifs
    · exact ih (fun x hx => hl x (List.mem_cons_of_mem _ hx)) hnext
    · exact hnext

/-- A program that comes to its end has taken every step. -/
theorem attempts_eq_true {l : List (Outcome × (σ → Option σ))} (h : (attempts l s).2 = true) :
    l.foldlM (fun s x => x.2 s) s = some (attempts l s).1 := by
  induction l generalizing s with
  | nil => rfl
  | cons x rest ih =>
    obtain ⟨o, f⟩ := x
    rw [attempts_cons] at h ⊢
    split_ifs at h ⊢ with hgoes
    rw [List.foldlM_cons, show (o, f).2 s = _ from attempt_eq_true hgoes]
    exact ih h

end Attempts
