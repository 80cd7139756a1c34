import Mathlib.Tactic

/-! Runs of a deterministic system with outputs, seen through a projection of its states. If
steps commute with the projection, states that look the same give the same outputs. -/
namespace ProjectedRuns

variable {σ α ω : Type*} (step : σ → α → σ × ω)

def outputs : σ → List α → List ω
  | _, [] => []
  | s, a :: as => (step s a).2 :: outputs (step s a).1 as

def final : σ → List α → σ
  | s, [] => s
  | s, a :: as => final (step s a).1 as

/-- Every action meets `C` in the state it is taken from. -/
def Along (C : σ → α → Prop) : σ → List α → Prop
  | _, [] => True
  | s, a :: as => C s a ∧ Along C (step s a).1 as

variable {step} {C : σ → α → Prop} {I : σ → Prop}

variable {as : List α} {s : σ}

/-- What no step changes, no run changes. -/
theorem final_frame {β : Type*} {view : σ → β} (hinv : ∀ s a, I s → C s a → I (step s a).1)
    (hview : ∀ s a, I s → C s a → view (step s a).1 = view s) (hs : I s) (hC : Along step C s as) :
    view (final step s as) = view s := by
  induction as generalizing s with
  | nil => rfl
  | cons a as ih => exact (ih (hinv s a hs hC.1) hC.2).trans (hview s a hs hC.1)

/-- A run gives the outputs of the run from the projected state. -/
theorem outputs_project {project : σ → σ} (hinv : ∀ s a, I s → C s a → I (step s a).1)
    (hcomm : ∀ s a, I s → C s a → step (project s) a = (project (step s a).1, (step s a).2))
    (hs : I s) (hC : Along step C s as) : outputs step (project s) as = outputs step s as := by
  induction as generalizing s with
  | nil => rfl
  | cons a as ih =>
    rw [outputs, outputs, hcomm s a hs hC.1, ih (hinv s a hs hC.1) hC.2]

theorem outputs_eq_of_project_eq {project : σ → σ} (hinv : ∀ s a, I s → C s a → I (step s a).1)
    (hcomm : ∀ s a, I s → C s a → step (project s) a = (project (step s a).1, (step s a).2)) {t : σ}
    (hs : I s) (ht : I t) (hst : project s = project t) (hCs : Along step C s as)
    (hCt : Along step C t as) : outputs step s as = outputs step t as := by
  rw [← outputs_project hinv hcomm hs hCs, hst, outputs_project hinv hcomm ht hCt]

end ProjectedRuns
