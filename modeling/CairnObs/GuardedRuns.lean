import Mathlib.Tactic

/-! Runs of a guarded transition function. `step s a = none` says that the action
`a` is not enabled in `s`; a run is a list of actions, each enabled where it is taken. -/
namespace GuardedRuns

variable {σ α : Type*} (step : σ → α → Option σ)

def run : σ → List α → Option σ
  | s, [] => some s
  | s, a :: as => (step s a).bind (fun t => run t as)

/-- Every action of the run meets `C` in the state it is taken from. -/
def Meets (C : σ → α → Prop) : σ → List α → Prop
  | _, [] => True
  | s, a :: as => C s a ∧ ∀ t, step s a = some t → Meets C t as

@[simp] theorem run_nil (s : σ) : run step s [] = some s := rfl

theorem run_cons (s : σ) (a : α) (as : List α) :
    run step s (a :: as) = (step s a).bind (fun t => run step t as) := rfl

variable {as : List α} {s t u : σ} {C D : σ → α → Prop} {I : σ → Prop} {a : α}

theorem run_cons_some (h : run step s (a :: as) = some u) :
    ∃ t, step s a = some t ∧ run step t as = some u := by
  simpa only [run_cons, Option.bind_eq_some_iff] using h

variable {step}

/-- A run that meets `C`, action by action. -/
theorem Meets.cons (hC : C s a) (hstep : step s a = some t) (hrest : Meets step C t as) :
    Meets step C s (a :: as) := by
  refine ⟨hC, fun u hu => ?_⟩
  obtain rfl : t = u := Option.some.inj (hstep.symm.trans hu)
  exact hrest

/-- The invariant rule under a condition on the steps: what every step that meets
`C` preserves, every run whose steps all meet `C` preserves. -/
theorem run_preserves (hstep : ∀ s a t, I s → C s a → step s a = some t → I t) (hs : I s)
    (hC : Meets step C s as) (hr : run step s as = some t) : I t := by
  induction as generalizing s with
  | nil =>
    cases hr
    exact hs
  | cons a as ih =>
    obtain ⟨u, hu, hut⟩ := run_cons_some step hr
    exact ih (hstep s a u hs hC.1 hu) (hC.2 u hu) hut

/-- The invariant rule for steps under no condition. -/
theorem run_invariant (hstep : ∀ s a t, I s → step s a = some t → I t) (hs : I s)
    (hr : run step s as = some t) : I t := by
  induction as generalizing s with
  | nil =>
    cases hr
    exact hs
  | cons a as ih =>
    obtain ⟨u, hu, hut⟩ := run_cons_some step hr
    exact ih (hstep s a u hs hu) hut

/-- `I` holds in every state that the run passes through, the first and the last one with it. -/
def Throughout (step : σ → α → Option σ) (I : σ → Prop) : σ → List α → Prop
  | s, [] => I s
  | s, a :: as => I s ∧ ∀ t, step s a = some t → Throughout step I t as

theorem Throughout.last (h : Throughout step I s as) (hr : run step s as = some t) : I t := by
  induction as generalizing s with
  | nil =>
    cases hr
    exact h
  | cons a as ih =>
    obtain ⟨u, hu, hut⟩ := run_cons_some step hr
    exact ih (h.2 u hu) hut

/-- A step from a state with `I` leads to one exactly if it meets `C`; then a run stays in
`I` exactly if all its steps meet `C`. `J` may hold under no condition. -/
theorem throughout_iff_meets {J : σ → Prop} (hJ : ∀ s a t, J s → step s a = some t → J t)
    (hI : ∀ s a t, J s → I s → step s a = some t → (I t ↔ C s a)) (hs : J s) (hstart : I s)
    (hr : run step s as = some u) : Throughout step I s as ↔ Meets step C s as := by
  induction as generalizing s with
  | nil => exact iff_of_true hstart trivial
  | cons a as ih =>
    obtain ⟨t, ht, htu⟩ := run_cons_some step hr
    have hiff := hI s a t hs hstart ht
    have hJt := hJ s a t hs ht
    constructor
    · rintro ⟨-, hrest⟩
      have hthere := hrest t ht
      have hIt : I t := by
        cases as with
        | nil => exact hthere
        | cons b bs => exact hthere.1
      exact Meets.cons (hiff.mp hIt) ht ((ih hJt hIt htu).mp hthere)
    · rintro ⟨hC, hrest⟩
      have hIt : I t := hiff.mpr hC
      refine ⟨hstart, fun v hv => ?_⟩
      obtain rfl : t = v := Option.some.inj (ht.symm.trans hv)
      exact (ih hJt hIt htu).mpr (hrest t ht)

/-- The same with a stronger invariant `K` for the steps that meet `C`. -/
theorem throughout_iff_meets_of {K : σ → Prop} (hK : ∀ s, K s → I s)
    (hstep : ∀ s a t, K s → C s a → step s a = some t → K t)
    (hC : ∀ s a t, K s → step s a = some t → I t → C s a) (hs : K s) (hr : run step s as = some u) :
    Throughout step I s as ↔ Meets step C s as := by
  induction as generalizing s with
  | nil => exact iff_of_true (hK s hs) trivial
  | cons a as ih =>
    obtain ⟨t, ht, htu⟩ := run_cons_some step hr
    constructor
    · rintro ⟨-, hrest⟩
      have hthere := hrest t ht
      have hIt : I t := by
        cases as with
        | nil => exact hthere
        | cons b bs => exact hthere.1
      have hCa := hC s a t hs ht hIt
      exact Meets.cons hCa ht ((ih (hstep s a t hs hCa ht) htu).mp hthere)
    · rintro ⟨hCa, hrest⟩
      refine ⟨hK s hs, fun v hv => ?_⟩
      obtain rfl : t = v := Option.some.inj (ht.symm.trans hv)
      exact (ih (hstep s a t hs hCa ht) htu).mpr (hrest t ht)

/-- A condition on the steps that an invariant turns into another one. -/
theorem Meets.imp (hstep : ∀ s a t, I s → C s a → step s a = some t → I t)
    (himp : ∀ s a, I s → C s a → D s a) (hs : I s) (hC : Meets step C s as) :
    Meets step D s as := by
  induction as generalizing s with
  | nil => trivial
  | cons a as ih =>
    exact ⟨himp s a hs hC.1, fun t ht => ih (hstep s a t hs hC.1 ht) (hC.2 t ht)⟩

theorem Meets.and (hC : Meets step C s as) (hD : Meets step D s as) :
    Meets step (fun s a => C s a ∧ D s a) s as := by
  induction as generalizing s with
  | nil => trivial
  | cons a as ih => exact ⟨⟨hC.1, hD.1⟩, fun t ht => ih (hC.2 t ht) (hD.2 t ht)⟩

theorem Meets.append_right {bs : List α} (hC : Meets step C s (as ++ bs))
    (hr : run step s as = some t) : Meets step C t bs := by
  induction as generalizing s with
  | nil =>
    cases hr
    exact hC
  | cons a as ih =>
    obtain ⟨u, hu, hut⟩ := run_cons_some step hr
    exact ih (hC.2 u hu) hut

/-- One of many processes moves; what holds of all phases, and of its new one, holds of all. -/
theorem forall_update {ρ φ : Type*} [DecidableEq ρ] {P : φ → Prop} {phases : ρ → φ}
    (h : ∀ r, P (phases r)) {p : φ} (hp : P p) (r : ρ) : ∀ q, P (Function.update phases r p q) :=
  (Function.forall_update_iff phases (fun _ => P)).mpr ⟨hp, fun q _ => h q⟩

/-- The same for phases with a record of each process. -/
theorem forall_update₂ {ρ φ κ : Type*} [DecidableEq ρ] {P : κ → φ → Prop} {notes : ρ → κ}
    {phases : ρ → φ} (h : ∀ r, P (notes r) (phases r)) {n : κ} {p : φ} (hp : P n p) (r : ρ) :
    ∀ q, P (Function.update notes r n q) (Function.update phases r p q) := by
  intro q
  by_cases hq : q = r
  · subst hq
    rw [Function.update_self, Function.update_self]
    exact hp
  · rw [Function.update_of_ne hq, Function.update_of_ne hq]
    exact h q

/-- A step is enabled exactly under `C`; then a run is possible exactly if all its steps are
under `C`. -/
theorem exists_run_iff {C : α → Prop} (hI : ∀ s a t, I s → step s a = some t → I t)
    (hstep : ∀ s a, I s → ((∃ t, step s a = some t) ↔ C a)) (hs : I s) (as : List α) :
    (∃ t, run step s as = some t) ↔ ∀ a ∈ as, C a := by
  induction as generalizing s with
  | nil => exact iff_of_true ⟨s, rfl⟩ nofun
  | cons a as ih =>
    rw [List.forall_mem_cons, ← hstep s a hs]
    constructor
    · rintro ⟨u, hu⟩
      obtain ⟨t, ht, htu⟩ := run_cons_some step hu
      exact ⟨⟨t, ht⟩, (ih (hI s a t hs ht)).mp ⟨u, htu⟩⟩
    · rintro ⟨⟨t, ht⟩, hrest⟩
      obtain ⟨u, hu⟩ := (ih (hI s a t hs ht)).mpr hrest
      exact ⟨u, by rw [run_cons, ht, Option.bind_some, hu]⟩

/-- Two conditions that an invariant makes the same. The invariant may need them. -/
theorem meets_congr {J : σ → Prop} (hJ : ∀ s a t, J s → D s a → step s a = some t → J t)
    (h : ∀ s a, J s → (C s a ↔ D s a)) (hs : J s) : Meets step C s as ↔ Meets step D s as := by
  constructor
  · exact Meets.imp (fun s a t hs hC => hJ s a t hs ((h s a hs).mp hC))
      (fun s a hs => (h s a hs).mp) hs
  · exact Meets.imp hJ (fun s a hs => (h s a hs).mpr) hs

/-! ### Records -/

section Noted
variable {κ : Type*}

/-- The steps with a record beside the state. No step reads the record. -/
def noted (step : σ → α → Option σ) (note : σ → κ → α → κ) (x : σ × κ) (a : α) :
    Option (σ × κ) :=
  (step x.1 a).map (fun t => (t, note x.1 x.2 a))

theorem noted_eq_some {note : σ → κ → α → κ} {x y : σ × κ} :
    noted step note x a = some y ↔ step x.1 a = some y.1 ∧ note x.1 x.2 a = y.2 := by
  obtain ⟨t, k⟩ := y
  simp [noted, and_comm]

/-- Every run can be recorded. -/
theorem exists_run_noted (note : σ → κ → α → κ) (h : run step s as = some t) (k : κ) :
    ∃ k', run (noted step note) (s, k) as = some (t, k') := by
  induction as generalizing s k with
  | nil =>
    cases h
    exact ⟨k, rfl⟩
  | cons a as ih =>
    obtain ⟨u, hu, hut⟩ := run_cons_some step h
    obtain ⟨k', hk'⟩ := ih hut (note s k a)
    refine ⟨k', ?_⟩
    have hstep : noted step note (s, k) a = some (u, note s k a) := noted_eq_some.mpr ⟨hu, rfl⟩
    rw [run_cons, hstep]
    exact hk'

end Noted

end GuardedRuns
