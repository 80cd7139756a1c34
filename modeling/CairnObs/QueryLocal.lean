import CairnObs.QueryRoundTrip

/-! What a parsing function returns depends on nothing behind the next pipe, and not on
positions. -/
namespace CairnObs.QueryLang
open Fallible

/-! ### Texts that agree up to the next pipe -/

/-- No part of a query goes on over a pipe or the end of file, or over what the lexer could
not read. -/
def Kind.stops (k : Kind) : Bool := k == .pipe || k == .eof || k == .illegal

variable {k : Kind}

theorem stops_cases (h : k.stops = true) : k = .pipe ∨ k = .eof ∨ k = .illegal := by
  simpa [Kind.stops, or_assoc] using h

def Stops (r : List Token) : Prop := (cur r).kind.stops = true

/-- The same lexemes up to `r` and `r'`, which both stop. -/
inductive Alike (r r' : List Token) : List Token → List Token → Prop
  | done (hr : Stops r) (hr' : Stops r') : Alike r r' r r'
  | cons {t t' : Token} {ts ts' : List Token} (hlex : t.lexeme = t'.lexeme)
    (hgo : t.kind.stops = false) (h : Alike r r' ts ts') : Alike r r' (t :: ts) (t' :: ts')

variable {r r' ts ts' : List Token}

theorem Alike.step (h : Alike r r' ts ts') (hk : (cur ts).kind = k) (hgo : k.stops = false) :
    (cur ts').kind = k ∧ (cur ts').value = (cur ts).value ∧ Alike r r' ts.tail ts'.tail := by
  subst hk
  cases h with
  | done hr hr' =>
    rw [hr] at hgo
    cases hgo
  | cons hlex _ h => exact ⟨(congrArg Prod.fst hlex).symm, (congrArg Prod.snd hlex).symm, h⟩

/-- The same token follows on both sides, or nothing that can be read. -/
theorem Alike.views (h : Alike r r' ts ts') :
    (cur ts).kind.stops = true ∧ (cur ts').kind.stops = true ∨
      (cur ts').kind = (cur ts).kind ∧ (cur ts').value = (cur ts).value := by
  cases h with
  | done hr hr' => exact .inl ⟨hr, hr'⟩
  | cons hlex _ _ => exact .inr ⟨(congrArg Prod.fst hlex).symm, (congrArg Prod.snd hlex).symm⟩

/-- So a test that fails on all that stops comes out the same. -/
theorem Alike.test_iff (h : Alike r r' ts ts') {p : Kind → String → Prop}
    (hp : ∀ k v, k.stops = true → ¬ p k v) :
    p (cur ts').kind (cur ts').value ↔ p (cur ts).kind (cur ts).value := by
  rcases h.views with ⟨hs, hs'⟩ | ⟨hkind, hvalue⟩
  · exact iff_of_false (hp _ _ hs') (hp _ _ hs)
  · rw [hkind, hvalue]

theorem Alike.kind_iff (h : Alike r r' ts ts') (hk : k.stops = false) :
    (cur ts').kind = k ↔ (cur ts).kind = k := by
  refine h.test_iff (p := fun k' _ => k' = k) ?_
  rintro _ _ hs rfl
  rw [hs] at hk
  cases hk

theorem Alike.word_iff (h : Alike r r' ts ts') (w : String) :
    (cur ts').kind = .ident ∧ (cur ts').value = w ↔
      (cur ts).kind = .ident ∧ (cur ts).value = w := by
  refine h.test_iff (p := fun k v => k = .ident ∧ v = w) ?_
  rintro _ _ hs ⟨rfl, -⟩
  cases hs

theorem Alike.comparator_iff (h : Alike r r' ts ts') :
    isComparatorStart (cur ts').kind = true ↔ isComparatorStart (cur ts).kind = true := by
  refine h.test_iff (p := fun k _ => isComparatorStart k = true) ?_
  intro k _ hs
  rcases stops_cases hs with rfl | rfl | rfl <;> exact Bool.false_ne_true

/-! ### Functions that read one part -/

section Functions
variable {α : Type}

/-- What `f` reads from `ts`, it reads from `ts'`, and leaves as much of it. -/
def Follows (f : List Token → Except SyntaxError (α × List Token)) (r r' ts ts' : List Token) :
    Prop :=
  ∀ ⦃a : α⦄ ⦃s : List Token⦄, f ts = .ok (a, s) → ∃ s', f ts' = .ok (a, s') ∧ Alike r r' s s'

/-- `f` reads the same from texts that agree up to where it has to stop. -/
def Local (f : List Token → Except SyntaxError (α × List Token)) : Prop :=
  ∀ ⦃r r' ts ts' : List Token⦄, Alike r r' ts ts' → Follows f r r' ts ts'

end Functions

theorem parseComparator_local : Local parseComparator := by
  intro r r' ts ts' h op s hs
  unfold parseComparator at hs
  split at hs
  · rename_i op' hop
    cases hs
    have hgo : (cur ts).kind.stops = false := by
      by_contra hstop
      rcases stops_cases (Bool.not_eq_false _ ▸ hstop) with hk | hk | hk <;>
        rw [hk] at hop <;> cases hop
    obtain ⟨hkind, -, htail⟩ := h.step rfl hgo
    exact ⟨ts'.tail, by simp [parseComparator, hkind, hop], htail⟩
  · cases hs

theorem parseValue_local : Local parseValue := by
  intro r r' ts ts' h v s hs
  unfold parseValue at hs
  split at hs
  · obtain ⟨hkind, hvalue, htail⟩ := h.step ‹_› rfl
    cases hs
    exact ⟨ts'.tail, by simp [parseValue, hkind, hvalue], htail⟩
  · obtain ⟨hkind, hvalue, htail⟩ := h.step ‹_› rfl
    cases hs
    exact ⟨ts'.tail, by simp [parseValue, hkind, hvalue], htail⟩
  · obtain ⟨hkind, hvalue, htail⟩ := h.step ‹_› rfl
    cases hs
    exact ⟨ts'.tail, by simp [parseValue, hkind, hvalue], htail⟩
  · cases hs

theorem parseComparison_follows (h : Alike r r' ts ts') (hk : (cur ts).kind = .ident) :
    Follows parseComparison r r' ts ts' := by
  intro t s hs
  simp only [parseComparison, bind_eq_ok] at hs
  obtain ⟨⟨op, s₁⟩, hop, ⟨v, s₂⟩, hv, hs⟩ := hs
  cases hs
  obtain ⟨-, hvalue, htail⟩ := h.step hk rfl
  obtain ⟨s₁', hop', h₁⟩ := parseComparator_local htail hop
  obtain ⟨s₂', hv', h₂⟩ := parseValue_local h₁ hv
  exact ⟨s₂', bind_eq_ok.mpr ⟨_, hop', bind_eq_ok.mpr ⟨_, hv', by rw [hvalue]⟩⟩, h₂⟩

theorem expect_follows (h : Alike r r' ts ts') (hk : k.stops = false) {s : List Token}
    (hs : expect k ts = .ok s) : expect k ts' = .ok ts'.tail ∧ Alike r r' s ts'.tail := by
  obtain ⟨hkind, rfl⟩ := expect_ok hs
  obtain ⟨hkind', -, htail⟩ := h.step hkind hk
  exact ⟨by simp [expect, hkind'], htail⟩

/-- An optional sign, before an offset or a sort key. -/
theorem sign_follows {β : Type} {f : List Token → β × List Token} {minus plus none : β}
    (hf : ∀ us, f us = match (cur us).kind with
      | .minus => (minus, us.tail)
      | .plus => (plus, us.tail)
      | _ => (none, us)) (h : Alike r r' ts ts') :
    (f ts').1 = (f ts).1 ∧ Alike r r' (f ts).2 (f ts').2 := by
  by_cases hminus : (cur ts).kind = .minus
  · obtain ⟨hkind, -, htail⟩ := h.step hminus rfl
    simp [hf, hminus, hkind, htail]
  by_cases hplus : (cur ts).kind = .plus
  · obtain ⟨hkind, -, htail⟩ := h.step hplus rfl
    simp [hf, hplus, hkind, htail]
  · have hminus' := mt (h.kind_iff rfl).mp hminus
    have hplus' := mt (h.kind_iff rfl).mp hplus
    have hnone {us : List Token} (hm : (cur us).kind ≠ .minus) (hp : (cur us).kind ≠ .plus) :
        f us = (none, us) := by
      rw [hf]
      split
      · exact absurd ‹_› hm
      · exact absurd ‹_› hp
      · rfl
    rw [hnone hminus hplus, hnone hminus' hplus']
    exact ⟨rfl, h⟩

theorem parseOffset_local (sign : Sign) : Local (parseOffset sign) := by
  intro r r' ts ts' h e s hs
  unfold parseOffset at hs
  split at hs
  · cases hs
  rename_i hk
  obtain ⟨hkind, hvalue, htail⟩ := h.step (not_not.mp hk) rfl
  split at hs
  · cases hs
  rename_i n hn
  split at hs
  · cases hs
  rename_i unit hunit
  cases hs
  have hident : (next ts).kind = .ident := by
    by_contra hne
    rw [if_neg hne] at hunit
    cases hunit
  rw [if_pos hident] at hunit
  obtain ⟨hkind₁, hvalue₁, htail₁⟩ := htail.step hident rfl
  have hunit' : timeUnitOfText (next ts').value = some unit := by
    rw [next, hvalue₁]
    exact hunit
  have hident' : (next ts').kind = .ident := hkind₁
  exact ⟨ts'.tail.tail, by simp [parseOffset, hkind, hvalue, hn, hident', hunit'], htail₁⟩

theorem parseTimeExpr_local : Local parseTimeExpr := by
  intro r r' ts ts' h e s hs
  unfold parseTimeExpr at hs
  split at hs
  · rename_i hk
    cases hs
    obtain ⟨hkind, hvalue, htail⟩ := h.step hk rfl
    exact ⟨ts'.tail, by simp [parseTimeExpr, hkind, hvalue], htail⟩
  · rename_i hk
    obtain ⟨hsign, hrest⟩ := sign_follows (f := parseSign) (fun _ => rfl) h
    obtain ⟨s', hs', h₁⟩ := parseOffset_local _ hrest hs
    refine ⟨s', ?_, h₁⟩
    rw [parseTimeExpr, if_neg (mt (h.kind_iff rfl).mp hk), hsign]
    exact hs'

theorem parseTimeBound_follows (h : Alike r r' ts ts') (hk : (cur ts).kind = .ident)
    (kind : BoundKind) : Follows (parseTimeBound kind) r r' ts ts' := by
  intro t s hs
  simp only [parseTimeBound, bind_eq_ok] at hs
  obtain ⟨s₁, heq, ⟨e, s₂⟩, he, hs⟩ := hs
  cases hs
  obtain ⟨heq', h₁⟩ := expect_follows (h.step hk rfl).2.2 rfl heq
  obtain ⟨s₂', he', h₂⟩ := parseTimeExpr_local h₁ he
  exact ⟨s₂', bind_eq_ok.mpr ⟨_, heq', bind_eq_ok.mpr ⟨_, he', rfl⟩⟩, h₂⟩

theorem parseExplicitFreeText_follows (h : Alike r r' ts ts') (hk : (cur ts).kind = .ident) :
    Follows parseExplicitFreeText r r' ts ts' := by
  intro t s hs
  simp only [parseExplicitFreeText, bind_eq_ok] at hs
  obtain ⟨s₁, hcolon, hs⟩ := hs
  split at hs
  · rename_i hstring
    cases hs
    obtain ⟨hcolon', h₁⟩ := expect_follows (h.step hk rfl).2.2 rfl hcolon
    obtain ⟨hkind, hvalue, htail⟩ := h₁.step hstring rfl
    exact ⟨_, bind_eq_ok.mpr ⟨_, hcolon', by rw [if_pos hkind, hvalue]⟩, htail⟩
  · cases hs

theorem parseTerm_local : Local parseTerm := by
  intro r r' ts ts' h t s hs
  unfold parseTerm at hs
  split at hs
  · rename_i hk
    obtain ⟨hkind, hvalue, htail⟩ := h.step hk rfl
    have hcolon : (next ts').kind = .colon ↔ (next ts).kind = .colon := htail.kind_iff rfl
    have hcomp : isComparatorStart (next ts').kind = true ↔
        isComparatorStart (next ts).kind = true := htail.comparator_iff
    simp only [parseTerm, hkind, hvalue, hcolon, hcomp]
    split at hs
    · rename_i hv
      simp only [hv, if_true]
      exact parseTimeBound_follows h hk _ hs
    rename_i hv₁
    simp only [hv₁, if_false]
    split at hs
    · rename_i hv
      simp only [hv, if_true]
      exact parseTimeBound_follows h hk _ hs
    rename_i hv₂
    simp only [hv₂, if_false]
    split at hs
    · rename_i hv
      rw [if_pos hv]
      exact parseExplicitFreeText_follows h hk hs
    rename_i hv₃
    simp only [hv₃, if_false]
    split at hs
    · rename_i hc
      simp only [hc, if_true]
      exact parseComparison_follows h hk hs
    · rename_i hc
      cases hs
      rw [if_neg hc]
      exact ⟨_, rfl, htail⟩
  · rename_i hk
    obtain ⟨hkind, hvalue, htail⟩ := h.step hk rfl
    cases hs
    exact ⟨ts'.tail, by simp [parseTerm, hkind, hvalue], htail⟩
  · cases hs

theorem conjunction_follows (h : Alike r r' ts ts') :
    (conjunction ts = none → conjunction ts' = none) ∧
      ∀ ⦃c : Conj⦄ ⦃s : List Token⦄, conjunction ts = some (c, s) →
        ∃ s', conjunction ts' = some (c, s') ∧ Alike r r' s s' := by
  have hstart : (cur ts').kind = .ident ∨ (cur ts').kind = .string ↔
      (cur ts).kind = .ident ∨ (cur ts).kind = .string := or_congr (h.kind_iff rfl) (h.kind_iff rfl)
  simp only [conjunction, h.word_iff, hstart]
  split_ifs with hand hor hterm
  · refine ⟨False.elim, fun c s hs => ?_⟩
    cases hs
    exact ⟨_, rfl, (h.step hand.1 rfl).2.2⟩
  · refine ⟨False.elim, fun c s hs => ?_⟩
    cases hs
    exact ⟨_, rfl, (h.step hor.1 rfl).2.2⟩
  · refine ⟨False.elim, fun c s hs => ?_⟩
    cases hs
    exact ⟨_, rfl, h⟩
  · exact ⟨fun _ => rfl, fun c s hs => hs.elim⟩

theorem parseMoreTerms_local : Local parseMoreTerms := by
  intro r r' ts ts' h more s hs
  fun_induction parseMoreTerms ts generalizing ts' more s with
  | case1 ts hc =>
    cases hs
    exact ⟨ts', parseMoreTerms_of_none ((conjunction_follows h).1 hc), h⟩
  | case2 ts c ts₁ hc e ht => cases hs
  | case3 ts c ts₁ hc t ts₂ ht _ e hm ih => cases hs
  | case4 ts c ts₁ hc t ts₂ ht _ more' s' hm ih =>
    cases hs
    obtain ⟨u₁, hc', h₁⟩ := (conjunction_follows h).2 hc
    obtain ⟨u₂, ht', h₂⟩ := parseTerm_local h₁ ht
    obtain ⟨u, hm', h₃⟩ := ih h₂ hm
    exact ⟨u, parseMoreTerms_of_some hc' ht' hm', h₃⟩

theorem parseBoolExpr_local : Local parseBoolExpr := by
  intro r r' ts ts' h e s hs
  simp only [parseBoolExpr, bind_eq_ok] at hs
  obtain ⟨⟨t, s₁⟩, ht, ⟨more, s₂⟩, hm, hs⟩ := hs
  cases hs
  obtain ⟨s₁', ht', h₁⟩ := parseTerm_local h ht
  obtain ⟨s₂', hm', h₂⟩ := parseMoreTerms_local h₁ hm
  exact ⟨s₂', bind_eq_ok.mpr ⟨_, ht', bind_eq_ok.mpr ⟨_, hm', rfl⟩⟩, h₂⟩

theorem parseCommaList_local {α : Type} {item : List Token → Except SyntaxError (α × List Token)}
    {hitem : ∀ ts a r, item ts = .ok (a, r) → After r ts} (hlocal : Local item) :
    Local (parseCommaList item hitem) := by
  intro r r' ts ts' h as s hs
  fun_induction parseCommaList item hitem ts generalizing ts' as s with
  | case1 ts e hi => cases hs
  | case2 ts a ts₁ hi _ hc e hm ih => cases hs
  | case3 ts a ts₁ hi _ hc as' s' hm ih =>
    cases hs
    obtain ⟨u₁, hi', h₁⟩ := hlocal h hi
    obtain ⟨hc', -, htail⟩ := h₁.step hc rfl
    obtain ⟨u, hm', h₂⟩ := ih htail hm
    exact ⟨u, parseCommaList_more hi' hc' hm', h₂⟩
  | case4 ts a ts₁ hi _ hc =>
    cases hs
    obtain ⟨u₁, hi', h₁⟩ := hlocal h hi
    exact ⟨u₁, parseCommaList_last hi' (mt (h₁.kind_iff rfl).mp hc), h₁⟩

theorem parseFieldIdent_local : Local parseFieldIdent := by
  intro r r' ts ts' h f s hs
  unfold parseFieldIdent at hs
  split at hs
  · obtain ⟨hkind, hvalue, htail⟩ := h.step ‹_› rfl
    cases hs
    exact ⟨ts'.tail, by simp [parseFieldIdent, hkind, hvalue], htail⟩
  · cases hs

theorem parseAggField_local : Local parseAggField := by
  intro r r' ts ts' h f s hs
  unfold parseAggField at hs
  split at hs
  · rename_i hparen
    obtain ⟨hkind, -, htail⟩ := h.step hparen rfl
    split at hs
    · rename_i hk
      obtain ⟨s₁, hclose, hs⟩ := bind_eq_ok.mp hs
      cases hs
      obtain ⟨hkind₁, hvalue₁, htail₁⟩ := htail.step hk rfl
      obtain ⟨hclose', h₁⟩ := expect_follows htail₁ rfl hclose
      refine ⟨_, ?_, h₁⟩
      simp only [parseAggField, hkind, if_true, hkind₁]
      exact bind_eq_ok.mpr ⟨_, hclose', by rw [hvalue₁]⟩
    · rename_i hk
      obtain ⟨s₁, hclose, hs⟩ := bind_eq_ok.mp hs
      cases hs
      obtain ⟨hkind₁, -, htail₁⟩ := htail.step hk rfl
      obtain ⟨hclose', h₁⟩ := expect_follows htail₁ rfl hclose
      refine ⟨_, ?_, h₁⟩
      simp only [parseAggField, hkind, if_true, hkind₁]
      exact bind_eq_ok.mpr ⟨_, hclose', rfl⟩
    · obtain ⟨s₁, hclose, hs⟩ := bind_eq_ok.mp hs
      cases hs
      obtain ⟨hkind₁, -, -⟩ := htail.step (expect_ok hclose).1 rfl
      obtain ⟨hclose', h₁⟩ := expect_follows htail rfl hclose
      refine ⟨_, ?_, h₁⟩
      simp only [parseAggField, hkind, if_true, hkind₁]
      exact bind_eq_ok.mpr ⟨_, hclose', rfl⟩
  · rename_i hparen
    cases hs
    exact ⟨ts', by rw [parseAggField, if_neg (mt (h.kind_iff rfl).mp hparen)], h⟩

theorem parseAggAlias_local : Local parseAggAlias := by
  intro r r' ts ts' h f s hs
  unfold parseAggAlias at hs
  split at hs
  · rename_i has
    have has' := (h.word_iff "as").mpr has
    have htail := (h.step has.1 rfl).2.2
    split at hs
    · rename_i hk
      obtain ⟨hkind₁, hvalue₁, htail₁⟩ := htail.step hk rfl
      cases hs
      refine ⟨_, ?_, htail₁⟩
      simp only [parseAggAlias, if_pos has', next, hkind₁, if_true, hvalue₁]
    · cases hs
  · rename_i has
    cases hs
    exact ⟨ts', by rw [parseAggAlias, if_neg (mt (h.word_iff "as").mp has)], h⟩

theorem parseAggCall_local : Local parseAggCall := by
  intro r r' ts ts' h a s hs
  unfold parseAggCall at hs
  split at hs
  · cases hs
  rename_i hk
  obtain ⟨hkind, hvalue, htail⟩ := h.step (not_not.mp hk) rfl
  split at hs
  · cases hs
  rename_i func hfunc
  simp only [bind_eq_ok] at hs
  obtain ⟨⟨field, s₁⟩, hf, ⟨aliasName, s₂⟩, ha, hs⟩ := hs
  cases hs
  obtain ⟨s₁', hf', h₁⟩ := parseAggField_local htail hf
  obtain ⟨s₂', ha', h₂⟩ := parseAggAlias_local h₁ ha
  refine ⟨s₂', ?_, h₂⟩
  simp only [parseAggCall, hkind, ne_eq, not_true_eq_false, if_false, hvalue, hfunc]
  exact bind_eq_ok.mpr ⟨_, hf', bind_eq_ok.mpr ⟨_, ha', rfl⟩⟩

theorem parseSortField_local : Local parseSortField := by
  intro r r' ts ts' h f s hs
  obtain ⟨hsign, hrest⟩ := sign_follows (f := parseSortSign) (fun _ => rfl) h
  simp only [parseSortField] at hs ⊢
  split at hs
  · rename_i hk
    obtain ⟨hkind, hvalue, htail⟩ := hrest.step hk rfl
    cases hs
    exact ⟨_, by rw [if_pos hkind, hvalue, hsign], htail⟩
  · cases hs

theorem parseBy_local : Local parseBy := by
  intro r r' ts ts' h fs s hs
  unfold parseBy at hs
  split at hs
  · rename_i hby
    rw [parseBy, if_pos ((h.word_iff "by").mpr hby)]
    exact parseCommaList_local parseFieldIdent_local (h.step hby.1 rfl).2.2 hs
  · rename_i hby
    cases hs
    exact ⟨ts', by rw [parseBy, if_neg (mt (h.word_iff "by").mp hby)], h⟩

/-! ### Stages -/

theorem parseStatsStage_follows (h : Alike r r' ts.tail ts'.tail) :
    Follows parseStatsStage r r' ts ts' := by
  intro p s hs
  simp only [parseStatsStage, bind_eq_ok] at hs
  obtain ⟨⟨aggs, s₁⟩, ha, ⟨by_, s₂⟩, hb, hs⟩ := hs
  cases hs
  obtain ⟨s₁', ha', h₁⟩ := parseCommaList_local parseAggCall_local h ha
  obtain ⟨s₂', hb', h₂⟩ := parseBy_local h₁ hb
  exact ⟨s₂', bind_eq_ok.mpr ⟨_, ha', bind_eq_ok.mpr ⟨_, hb', rfl⟩⟩, h₂⟩

theorem parseSortStage_follows (h : Alike r r' ts.tail ts'.tail) :
    Follows parseSortStage r r' ts ts' := by
  intro p s hs
  simp only [parseSortStage, bind_eq_ok] at hs
  obtain ⟨⟨fields, s₁⟩, hf, hs⟩ := hs
  cases hs
  obtain ⟨s₁', hf', h₁⟩ := parseCommaList_local parseSortField_local h hf
  exact ⟨s₁', bind_eq_ok.mpr ⟨_, hf', rfl⟩, h₁⟩

theorem parseFieldsStage_follows (h : Alike r r' ts.tail ts'.tail) :
    Follows parseFieldsStage r r' ts ts' := by
  intro p s hs
  simp only [parseFieldsStage, bind_eq_ok] at hs
  obtain ⟨⟨fields, s₁⟩, hf, hs⟩ := hs
  cases hs
  obtain ⟨s₁', hf', h₁⟩ := parseCommaList_local parseFieldIdent_local h hf
  exact ⟨s₁', bind_eq_ok.mpr ⟨_, hf', rfl⟩, h₁⟩

theorem parseHeadTailStage_follows (h : Alike r r' ts.tail ts'.tail)
    (stage : Option ℕ → PipeStage) : Follows (parseHeadTailStage stage) r r' ts ts' := by
  intro p s hs
  unfold parseHeadTailStage at hs
  split at hs
  · rename_i hk
    obtain ⟨hkind, hvalue, htail⟩ := h.step hk rfl
    split at hs
    · cases hs
    · rename_i n hn
      cases hs
      refine ⟨_, ?_, htail⟩
      have hn' : atoi (next ts').value = some n := by
        rw [next, hvalue]
        exact hn
      have hkind' : (next ts').kind = .number := hkind
      rw [parseHeadTailStage, if_pos hkind', hn']
  · rename_i hk
    cases hs
    have hk' : (next ts').kind ≠ .number := mt (h.kind_iff rfl).mp hk
    exact ⟨_, by rw [parseHeadTailStage, if_neg hk'], h⟩

theorem parsePipeStage_local : Local parsePipeStage := by
  intro r r' ts ts' h p s hs
  unfold parsePipeStage at hs
  split at hs
  · cases hs
  rename_i hk
  obtain ⟨hkind, hvalue, htail⟩ := h.step (not_not.mp hk) rfl
  simp only [parsePipeStage, hkind, ne_eq, not_true_eq_false, if_false, hvalue]
  split at hs
  · rename_i hv
    obtain ⟨⟨e, s₁⟩, he, hs⟩ := bind_eq_ok.mp hs
    cases hs
    obtain ⟨s₁', he', h₁⟩ := parseBoolExpr_local htail he
    rw [if_pos hv]
    exact ⟨s₁', bind_eq_ok.mpr ⟨_, he', rfl⟩, h₁⟩
  rename_i hwhere
  rw [if_neg hwhere]
  split at hs
  · rw [if_pos ‹_›]
    exact parseStatsStage_follows htail hs
  rename_i hstats
  rw [if_neg hstats]
  split at hs
  · rw [if_pos ‹_›]
    exact parseSortStage_follows htail hs
  rename_i hsort
  rw [if_neg hsort]
  split at hs
  · rw [if_pos ‹_›]
    exact parseFieldsStage_follows htail hs
  rename_i hfields
  rw [if_neg hfields]
  split at hs
  · rw [if_pos ‹_›]
    exact parseHeadTailStage_follows htail _ hs
  rename_i hhead
  rw [if_neg hhead]
  split at hs
  · rw [if_pos ‹_›]
    exact parseHeadTailStage_follows htail _ hs
  · cases hs

theorem atPipeStageKeyword_iff (h : Alike r r' ts ts') :
    atPipeStageKeyword ts' = atPipeStageKeyword ts := by
  unfold atPipeStageKeyword
  by_cases hk : (cur ts).kind = .ident
  · obtain ⟨hkind, hvalue, htail⟩ := h.step hk rfl
    have hcomp : isComparatorStart (next ts').kind = true ↔
        isComparatorStart (next ts).kind = true := htail.comparator_iff
    simp only [hkind, hk, hvalue, hcomp]
  · have hk' := mt (h.kind_iff (k := .ident) rfl).mp hk
    rw [if_pos (Or.inl hk), if_pos (Or.inl hk')]

theorem parseStart_local : Local parseStart := by
  intro r r' ts ts' h q s hs
  unfold parseStart at hs ⊢
  rw [atPipeStageKeyword_iff h]
  split at hs
  · obtain ⟨⟨p, s₁⟩, hp, hs⟩ := bind_eq_ok.mp hs
    cases hs
    obtain ⟨s₁', hp', h₁⟩ := parsePipeStage_local h hp
    rw [if_pos ‹_›]
    exact ⟨s₁', bind_eq_ok.mpr ⟨_, hp', rfl⟩, h₁⟩
  · obtain ⟨⟨e, s₁⟩, he, hs⟩ := bind_eq_ok.mp hs
    cases hs
    obtain ⟨s₁', he', h₁⟩ := parseBoolExpr_local h he
    rw [if_neg ‹_›]
    exact ⟨s₁', bind_eq_ok.mpr ⟨_, he', rfl⟩, h₁⟩

end CairnObs.QueryLang
