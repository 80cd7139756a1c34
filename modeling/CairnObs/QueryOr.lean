import CairnObs.QueryPlanner

/-! Which searches are rejected for an `or`. The loop of `compileBoolExpr` looks at a term and
at the conjunction before it, so it sees one of the two sides of an `or`. -/
namespace CairnObs.QueryLang
open Fallible

/-- A term that does not go into the text search. -/
def Term.isStructured : Term → Bool
  | .comparison _ _ _ | .timeBound _ _ => true
  | .freeText _ => false

def Term.Resolves (now : ℤ) : Term → Prop
  | .timeBound _ expr => ∃ t, resolveTimeExpr now expr = .ok t
  | .comparison _ _ _ | .freeText _ => True

/-- Each conjunction with the terms on its two sides. -/
def BoolExpr.gaps (e : BoolExpr) : List (Term × Conj × Term) :=
  e.terms.zip (e.conjs.zip e.terms.tail)

variable {e : BoolExpr}

/-- Every term but the first one stands behind a gap. -/
theorem BoolExpr.joined_cons {t : Term} {ts : List Term} (h : e.terms = t :: ts) :
    e.joined = (none, t) :: e.gaps.map (fun g => (some g.2.1, g.2.2)) := by
  have hlen : (e.conjs.zip ts).length ≤ (t :: ts).length := by
    rw [List.length_zip, List.length_cons]
    omega
  have hgaps : e.gaps.map Prod.snd = e.conjs.zip ts := by
    rw [BoolExpr.gaps, h, List.tail_cons]
    exact List.map_snd_zip hlen
  have hmap : e.gaps.map (fun g => (some g.2.1, g.2.2)) =
      (e.conjs.zip ts).map (fun x => (some x.1, x.2)) := by
    rw [← hgaps, List.map_map]
    rfl
  rw [hmap, BoolExpr.joined, h, List.zip_cons_cons, List.zip_map_left]
  rfl

theorem BoolExpr.joined_nil (h : e.terms = []) : e.joined = [] ∧ e.gaps = [] := by
  simp [BoolExpr.joined, BoolExpr.gaps, h]

/-- An `or` is seen before a term exactly where a gap has it. -/
theorem BoolExpr.exists_or_joined (p : Term → Prop) :
    (∃ x ∈ e.joined, x.1 = some .or ∧ p x.2) ↔ ∃ g ∈ e.gaps, g.2.1 = .or ∧ p g.2.2 := by
  cases hterms : e.terms with
  | nil =>
    obtain ⟨hjoined, hgaps⟩ := BoolExpr.joined_nil hterms
    simp [hjoined, hgaps]
  | cons t ts =>
    rw [BoolExpr.joined_cons hterms]
    constructor
    · rintro ⟨x, hx, hor, hp⟩
      rcases List.mem_cons.mp hx with rfl | hx
      · cases hor
      · obtain ⟨g, hg, rfl⟩ := List.mem_map.mp hx
        exact ⟨g, hg, Option.some.inj hor, hp⟩
    · rintro ⟨g, hg, hor, hp⟩
      refine ⟨(some g.2.1, g.2.2), ?_, congrArg some hor, hp⟩
      exact List.mem_cons_of_mem _ (List.mem_map_of_mem hg)

theorem BoolExpr.mem_terms_of_joined {x : Option Conj × Term} (h : x ∈ e.joined) :
    x.2 ∈ e.terms := (List.of_mem_zip h).2

theorem compileTerm_error_iff {now : ℤ} {t : Term} (ht : t.Resolves now) (conj : Option Conj)
    (parts : List String) (plan : Plan) :
    (∃ err, compileTerm now conj t parts plan = .error err) ↔
      conj = some .or ∧ t.isStructured = true := by
  cases t with
  | freeText query => simp [compileTerm, Term.isStructured]
  | comparison field op value =>
    by_cases hor : conj = some .or <;> simp [compileTerm, Term.isStructured, hor]
  | timeBound kind expr =>
    obtain ⟨t, ht⟩ := ht
    by_cases hor : conj = some .or
    · simp [compileTerm, Term.isStructured, hor]
    · have hok : compileTerm now conj (.timeBound kind expr) parts plan = .ok (parts, { plan with
          timeRange := some (setBound kind t (plan.timeRange.getD ⟨zeroTime, zeroTime⟩)) }) := by
        simp only [compileTerm, applyTimeBound, ht, if_neg hor]
        rfl
      simp [hok, hor]

/-- The loop stops at the first structured term behind an `or`, and nowhere else. -/
theorem compileTerms_error_iff {now : ℤ} {ts : List (Option Conj × Term)}
    (hts : ∀ x ∈ ts, x.2.Resolves now) (parts : List String) (plan : Plan) :
    (∃ err, compileTerms now ts parts plan = .error err) ↔
      ∃ x ∈ ts, x.1 = some .or ∧ x.2.isStructured = true := by
  induction ts generalizing parts plan with
  | nil => simp [compileTerms]
  | cons x ts ih =>
    obtain ⟨conj, t⟩ := x
    have hhead := compileTerm_error_iff (hts (conj, t) List.mem_cons_self) conj parts plan
    have htail := ih (fun y hy => hts y (List.mem_cons_of_mem _ hy))
    cases hc : compileTerm now conj t parts plan with
    | error err =>
      have hbad := hhead.mp ⟨err, hc⟩
      have hfail : compileTerms now ((conj, t) :: ts) parts plan = .error err := by
        rw [compileTerms, hc]
        rfl
      exact ⟨fun _ => ⟨(conj, t), List.mem_cons_self, hbad⟩, fun _ => ⟨err, hfail⟩⟩
    | ok out =>
      have hgood : ¬ (conj = some .or ∧ t.isStructured = true) := by
        intro hbad
        obtain ⟨err, herr⟩ := hhead.mpr hbad
        rw [hc] at herr
        cases herr
      have hrest : compileTerms now ((conj, t) :: ts) parts plan =
          compileTerms now ts out.1 out.2 := by
        rw [compileTerms, hc]
        rfl
      rw [hrest, htail, List.exists_mem_cons_iff]
      exact (or_iff_right hgood).symm

/-- An `or` with a structured term on one of its sides. -/
def BoolExpr.HasStructuredOr (e : BoolExpr) : Prop :=
  ∃ g ∈ e.gaps, g.2.1 = .or ∧ (g.1.isStructured = true ∨ g.2.2.isStructured = true)

theorem compileBoolExpr_error_iff {now : ℤ} (he : ∀ t ∈ e.terms, t.Resolves now) (plan : Plan) :
    (∃ err, compileBoolExpr now e plan = .error err) ↔
      ∃ g ∈ e.gaps, g.2.1 = .or ∧ g.2.2.isStructured = true := by
  rw [← BoolExpr.exists_or_joined (fun t => t.isStructured = true)]
  exact compileTerms_error_iff (fun x hx => he x.2 (BoolExpr.mem_terms_of_joined hx)) [] plan

/-- A search is rejected exactly for its structured `or`s if one of them has the structured
term on its right side, or none has one on its left side. -/
theorem or_rejection_exact_iff {now : ℤ} {e : BoolExpr} (he : ∀ t ∈ e.terms, t.Resolves now)
    (plan : Plan) :
    ((∃ err, compileBoolExpr now e plan = .error err) ↔ e.HasStructuredOr) ↔
      (∃ g ∈ e.gaps, g.2.1 = .or ∧ g.2.2.isStructured = true) ∨
        ∀ g ∈ e.gaps, g.2.1 = .or → g.1.isStructured = false := by
  rw [compileBoolExpr_error_iff he]
  constructor
  · intro h
    by_cases hright : ∃ g ∈ e.gaps, g.2.1 = .or ∧ g.2.2.isStructured = true
    · exact .inl hright
    · right
      intro g hg hor
      by_contra hleft
      rw [Bool.not_eq_false] at hleft
      exact hright (h.mpr ⟨g, hg, hor, .inl hleft⟩)
  · rintro (hright | hleft)
    · refine iff_of_true hright ?_
      obtain ⟨g, hg, hor, hs⟩ := hright
      exact ⟨g, hg, hor, .inr hs⟩
    · constructor
      · rintro ⟨g, hg, hor, hs⟩
        exact ⟨g, hg, hor, .inr hs⟩
      · rintro ⟨g, hg, hor, hs | hs⟩
        · rw [hleft g hg hor] at hs
          cases hs
        · exact ⟨g, hg, hor, hs⟩

/-- The search `service=api or timeout`. -/
def filterOrText : BoolExpr := ⟨[.comparison "service" .eq "api", .freeText "timeout"], [.or]⟩

theorem or_rejection_exact_text_or_filter :
    let e : BoolExpr := ⟨[.freeText "timeout", .comparison "service" .eq "api"], [.or]⟩
    (∃ err, compileBoolExpr 0 e emptyPlan = .error err) ↔ e.HasStructuredOr :=
  (or_rejection_exact_iff (by simp [Term.Resolves]) emptyPlan).mpr
    (.inl ⟨_, List.mem_cons_self, rfl, rfl⟩)

/-- The parser reads it, and it is accepted, with the filter and the text both required. -/
theorem filter_or_text_accepted :
    parse "service=api or timeout" = .ok ⟨filterOrText, []⟩ ∧ filterOrText.HasStructuredOr ∧
      compileBoolExpr 0 filterOrText emptyPlan =
        .ok (["OR", "timeout"], { emptyPlan with filters := [⟨"service", .eq, "api"⟩] }) := by
  refine ⟨by decide +kernel, ⟨_, List.mem_cons_self, rfl, .inl rfl⟩, rfl⟩

end CairnObs.QueryLang
