import CairnObs.QueryPrefix
import CairnObs.QuerySql

/-! A comparison written behind a query: it joins the last search, and behind any other stage
the query is not read. -/
namespace CairnObs.QueryLang
open Fallible

/-! ### Terms in front of other tokens -/

variable {r ts us : List Token} {t : Token} {x : Term} {p : PipeStage} {part : List Lexeme}
  {q q' : Query} {k : Kind} {f : String} {plan : Plan} {now : ℤ}

theorem expect_cons (h : expect k ts = .ok r) (hk : k ≠ .eof) : ∃ t, ts = t :: r ∧ t.kind = k := by
  obtain ⟨hcur, rfl⟩ := expect_ok h
  obtain ⟨t, us, rfl⟩ := @cur_cons ts (by rw [hcur]; exact hk)
  exact ⟨t, rfl, hcur⟩

theorem expect_of_kind (h : t.kind = k) (r : List Token) :
    expect k (t :: r) = .ok r := if_pos h

theorem parseTimeBound_append {kind : BoundKind} (h : parseTimeBound kind (t :: us) = .ok (x, r)) :
    ∃ T, us = T ++ r ∧ ∀ r', parseTimeBound kind (t :: (T ++ r')) = .ok (x, r') := by
  simp only [parseTimeBound, bind_eq_ok] at h
  obtain ⟨ts₁, hexpect, ⟨expr, ts₂⟩, htime, h⟩ := h
  cases h
  obtain ⟨e, hus, he⟩ := expect_cons hexpect (by decide)
  obtain ⟨T, rfl, hT⟩ := parseTimeExpr_split htime
  refine ⟨e :: T, hus, fun r' => ?_⟩
  simp only [parseTimeBound, bind_eq_ok]
  exact ⟨T ++ r', expect_of_kind he _, _, parseTimeExpr_append hT r', rfl⟩

theorem parseExplicitFreeText_append (h : parseExplicitFreeText (t :: us) = .ok (x, r)) :
    ∃ u T, us = u :: T ++ r ∧ ∀ r', parseExplicitFreeText (t :: (u :: T ++ r')) = .ok (x, r') := by
  simp only [parseExplicitFreeText, bind_eq_ok] at h
  obtain ⟨ts₁, hexpect, h⟩ := h
  obtain ⟨e, hus, he⟩ := expect_cons hexpect (by decide)
  split at h
  · rename_i hstring
    cases h
    obtain ⟨s, rest, rfl⟩ := @cur_cons ts₁ (by rw [hstring]; decide)
    refine ⟨e, [s], hus, fun r' => ?_⟩
    simp only [parseExplicitFreeText, bind_eq_ok]
    exact ⟨s :: r', expect_of_kind he _, if_pos hstring⟩
  · cases h

theorem parseComparator_cons {op : Op} (h : parseComparator ts = .ok (op, r)) :
    ∃ t, ts = t :: r ∧ opOfKind t.kind = some op := by
  unfold parseComparator at h
  split at h
  · rename_i op' hop
    cases h
    obtain ⟨t, us, rfl⟩ := @cur_cons ts (opOfKind_ne_eof hop)
    exact ⟨t, rfl, hop⟩
  · cases h

theorem parseValue_cons {v : String} (h : parseValue ts = .ok (v, r)) :
    ∃ t, ts = t :: r ∧ ∀ r', parseValue (t :: r') = .ok (v, r') := by
  have hne : (cur ts).kind ≠ .eof := by
    intro heof
    rw [parseValue, heof] at h
    cases h
  obtain ⟨t, us, rfl⟩ := cur_cons hne
  refine ⟨t, ?_, fun r' => ?_⟩
  · unfold parseValue at h
    split at h <;> cases h <;> rfl
  · unfold parseValue at h ⊢
    rw [show cur (t :: r') = cur (t :: us) from rfl]
    split at h <;> cases h <;> rfl

theorem parseComparison_append (h : parseComparison (t :: us) = .ok (x, r)) :
    ∃ u T, us = u :: T ++ r ∧ ∀ r', parseComparison (t :: (u :: T ++ r')) = .ok (x, r') := by
  simp only [parseComparison, bind_eq_ok] at h
  obtain ⟨⟨op, ts₁⟩, hop, ⟨value, ts₂⟩, hvalue, h⟩ := h
  cases h
  obtain ⟨u, hus, hu⟩ := parseComparator_cons hop
  obtain ⟨s, rfl, hs⟩ := parseValue_cons hvalue
  refine ⟨u, [s], hus, fun r' => ?_⟩
  have hop' : parseComparator (u :: s :: r') = .ok (op, s :: r') := by
    rw [parseComparator, show opOfKind (cur (u :: s :: r')).kind = some op from hu]
    rfl
  simp only [parseComparison, bind_eq_ok]
  exact ⟨(op, s :: r'), hop', (value, r'), hs r', rfl⟩

/-- What follows a term: a token of the same kind as before, or a word. -/
def SameOrWord (r r' : List Token) : Prop :=
  (cur r').kind = (cur r).kind ∨ (cur r').kind = .ident

/-- A term is read whatever follows it, as long as that does not make a word the start of
something else. -/
theorem parseTerm_append (h : parseTerm ts = .ok (x, r)) :
    ∃ t T, ts = t :: T ++ r ∧
      ∀ r', SameOrWord r r' → parseTerm (t :: T ++ r') = .ok (x, r') := by
  have hkind := parseTerm_kind h
  have hne : (cur ts).kind ≠ .eof := by
    rcases hkind with hk | hk
    · rw [hk]
      decide
    · rw [hk]
      decide
  obtain ⟨t, us, rfl⟩ := cur_cons hne
  rcases hkind with hk | hk
  · have hk : t.kind = .ident := hk
    have hterm (us : List Token) : parseTerm (t :: us) =
        if t.value = "earliest" then parseTimeBound .earliest (t :: us)
        else if t.value = "latest" then parseTimeBound .latest (t :: us)
        else if t.value = "message" ∧ (cur us).kind = .colon then parseExplicitFreeText (t :: us)
        else if isComparatorStart (cur us).kind then parseComparison (t :: us)
        else .ok (.freeText t.value, us) := by
      rw [parseTerm, show (cur (t :: us)).kind = .ident from hk]
      rfl
    rw [hterm] at h
    split at h
    · rename_i hv
      obtain ⟨T, rfl, hT⟩ := parseTimeBound_append h
      refine ⟨t, T, rfl, fun r' _ => ?_⟩
      rw [List.cons_append, hterm, if_pos hv, hT]
    rename_i hearliest
    split at h
    · rename_i hv
      obtain ⟨T, rfl, hT⟩ := parseTimeBound_append h
      refine ⟨t, T, rfl, fun r' _ => ?_⟩
      rw [List.cons_append, hterm, if_neg hearliest, if_pos hv, hT]
    rename_i hlatest
    split at h
    · rename_i hv
      obtain ⟨u, T, rfl, hT⟩ := parseExplicitFreeText_append h
      refine ⟨t, u :: T, rfl, fun r' _ => ?_⟩
      have hcur : cur (u :: T ++ r') = cur (u :: T ++ r) := rfl
      rw [List.cons_append, hterm, if_neg hearliest, if_neg hlatest, hcur, if_pos hv, hT]
    rename_i hmessage
    split at h
    · rename_i hcomparator
      obtain ⟨u, T, rfl, hT⟩ := parseComparison_append h
      refine ⟨t, u :: T, rfl, fun r' _ => ?_⟩
      have hcur : cur (u :: T ++ r') = cur (u :: T ++ r) := rfl
      rw [List.cons_append, hterm, if_neg hearliest, if_neg hlatest, hcur, if_neg hmessage,
        if_pos hcomparator, hT]
    · rename_i hcomparator
      cases h
      refine ⟨t, [], rfl, fun r' hr' => ?_⟩
      have hmessage' : ¬ (t.value = "message" ∧ (cur r').kind = .colon) := by
        rintro ⟨hv, hcolon⟩
        rcases hr' with hr' | hr'
        · exact hmessage ⟨hv, hr' ▸ hcolon⟩
        · rw [hr'] at hcolon
          cases hcolon
      have hcomparator' : ¬ isComparatorStart (cur r').kind = true := by
        rcases hr' with hr' | hr'
        · rw [hr']
          exact hcomparator
        · rw [hr']
          decide
      rw [List.singleton_append, hterm, if_neg hearliest, if_neg hlatest, if_neg hmessage',
        if_neg hcomparator']
  · have hk : t.kind = .string := hk
    have hterm (us : List Token) : parseTerm (t :: us) = .ok (.freeText t.value, us) := by
      rw [parseTerm, show (cur (t :: us)).kind = .string from hk]
      rfl
    rw [hterm] at h
    cases h
    exact ⟨t, [], rfl, fun r' _ => hterm r'⟩

/-! ### Stages that take no strings -/

/-- The tokens of `ts` up to `r` are no strings. -/
def Skips (ts r : List Token) : Prop := ∃ T, ts = T ++ r ∧ ∀ t ∈ T, t.kind ≠ .string

theorem Skips.refl (ts : List Token) : Skips ts ts := ⟨[], rfl, nofun⟩

theorem Skips.trans (h : Skips ts us) (h' : Skips us r) : Skips ts r := by
  obtain ⟨T, rfl, hT⟩ := h
  obtain ⟨U, rfl, hU⟩ := h'
  refine ⟨T ++ U, (List.append_assoc _ _ _).symm, fun t ht => ?_⟩
  rcases List.mem_append.mp ht with ht | ht
  · exact hT t ht
  · exact hU t ht

theorem skips_tail (h : (cur ts).kind ≠ .string) : Skips ts ts.tail := by
  cases ts with
  | nil => exact .refl []
  | cons t ts =>
    refine ⟨[t], rfl, fun u hu => ?_⟩
    cases List.mem_singleton.mp hu
    exact h

theorem skips_expect (h : expect k ts = .ok r) (hk : k ≠ .string) : Skips ts r := by
  obtain ⟨hcur, rfl⟩ := expect_ok h
  exact skips_tail (by rw [hcur]; exact hk)

theorem skips_word (h : (cur ts).kind = .ident) : Skips ts ts.tail :=
  skips_tail (by rw [h]; exact nofun)

theorem skips_parseFieldIdent (h : parseFieldIdent ts = .ok (f, r)) : Skips ts r := by
  unfold parseFieldIdent at h
  split at h
  · cases h
    exact skips_word ‹_›
  · cases h

theorem skips_parseAggField (h : parseAggField ts = .ok (f, r)) : Skips ts r := by
  unfold parseAggField at h
  split at h
  · rename_i hk
    have hparen := @skips_tail ts (by rw [hk]; exact nofun)
    split at h
    · rename_i hident
      obtain ⟨us, hus, h⟩ := bind_eq_ok.mp h
      cases h
      exact (hparen.trans (skips_word hident)).trans (skips_expect hus nofun)
    · rename_i hstar
      obtain ⟨us, hus, h⟩ := bind_eq_ok.mp h
      cases h
      exact (hparen.trans (skips_tail (by rw [hstar]; exact nofun))).trans (skips_expect hus nofun)
    · obtain ⟨us, hus, h⟩ := bind_eq_ok.mp h
      cases h
      exact hparen.trans (skips_expect hus nofun)
  · cases h
    exact .refl _

theorem skips_parseAggAlias (h : parseAggAlias ts = .ok (f, r)) : Skips ts r := by
  unfold parseAggAlias at h
  split at h
  · rename_i hk
    split at h
    · rename_i hnext
      cases h
      exact (skips_word hk.1).trans (skips_word hnext)
    · cases h
  · cases h
    exact .refl _

theorem skips_parseAggCall {a : AggCall} (h : parseAggCall ts = .ok (a, r)) : Skips ts r := by
  unfold parseAggCall at h
  split at h
  · cases h
  · rename_i hk
    split at h
    · cases h
    · obtain ⟨⟨field, us⟩, hfield, h⟩ := bind_eq_ok.mp h
      obtain ⟨⟨name, vs⟩, halias, h⟩ := bind_eq_ok.mp h
      cases h
      exact ((skips_word (not_not.mp hk)).trans (skips_parseAggField hfield)).trans
        (skips_parseAggAlias halias)

theorem skips_parseSortField {f : SortField} (h : parseSortField ts = .ok (f, r)) : Skips ts r := by
  have hsign : Skips ts (parseSortSign ts).2 := by
    unfold parseSortSign
    split
    · rename_i hk
      exact skips_tail (by rw [hk]; exact nofun)
    · rename_i hk
      exact skips_tail (by rw [hk]; exact nofun)
    · exact .refl ts
  simp only [parseSortField] at h
  split at h
  · cases h
    exact hsign.trans (skips_word ‹_›)
  · cases h

theorem skips_parseCommaList {α : Type} {item : List Token → Except SyntaxError (α × List Token)}
    {hafter : ∀ ts a r, item ts = .ok (a, r) → After r ts}
    (hitem : ∀ {ts a r}, item ts = .ok (a, r) → Skips ts r) {as : List α}
    (h : parseCommaList item hafter ts = .ok (as, r)) : Skips ts r := by
  fun_induction parseCommaList item hafter ts generalizing as r with
  | case1 ts e he => cases h
  | case2 ts a ts₁ ha _ hk e hmore ih => cases h
  | case3 ts a ts₁ ha _ hk as' r' hmore ih =>
    cases h
    exact ((hitem ha).trans (skips_tail (by rw [hk]; decide))).trans (ih hmore)
  | case4 ts a ts₁ ha _ hk =>
    cases h
    exact hitem ha

theorem skips_parseBy {fs : List String} (h : parseBy ts = .ok (fs, r)) : Skips ts r := by
  unfold parseBy at h
  split at h
  · rename_i hk
    exact (skips_word hk.1).trans (skips_parseCommaList skips_parseFieldIdent h)
  · cases h
    exact .refl _

theorem skips_parseHeadTailStage {stage : Option ℕ → PipeStage} (hk : (cur ts).kind = .ident)
    (h : parseHeadTailStage stage ts = .ok (p, r)) : Skips ts r := by
  unfold parseHeadTailStage at h
  split at h
  · rename_i hnext
    split at h
    · cases h
    · cases h
      exact (skips_word hk).trans
        (skips_tail (by rw [show cur ts.tail = next ts from rfl, hnext]; exact nofun))
  · cases h
    exact skips_word hk

/-- Only `where` takes strings. -/
theorem skips_parsePipeStage (h : parsePipeStage ts = .ok (p, r))
    (hwhere : (cur ts).value ≠ "where") : Skips ts r := by
  unfold parsePipeStage at h
  split at h
  · cases h
  rename_i hk
  have hword := skips_word (not_not.mp hk)
  split at h
  · obtain ⟨⟨aggs, us⟩, haggs, h⟩ := bind_eq_ok.mp h
    obtain ⟨⟨by_, vs⟩, hby, h⟩ := bind_eq_ok.mp h
    cases h
    exact (hword.trans (skips_parseCommaList skips_parseAggCall haggs)).trans (skips_parseBy hby)
  split at h
  · obtain ⟨⟨fields, us⟩, hfields, h⟩ := bind_eq_ok.mp h
    cases h
    exact hword.trans (skips_parseCommaList skips_parseSortField hfields)
  split at h
  · obtain ⟨⟨fields, us⟩, hfields, h⟩ := bind_eq_ok.mp h
    cases h
    exact hword.trans (skips_parseCommaList skips_parseFieldIdent hfields)
  split at h
  · exact skips_parseHeadTailStage (not_not.mp hk) h
  split at h
  · exact skips_parseHeadTailStage (not_not.mp hk) h
  · cases h

/-! ### One more comparison -/

/-- `column="value"`. -/
def comparisonLexemes (column value : String) : List Lexeme :=
  [word column, symbol .eq, quoted value]

def comparisonTerm (column value : String) : Conj × Term := (.and, .comparison column .eq value)

/-- A conjunction is read off the first token. -/
theorem conjunction_append {ts₁ : List Token} {c : Conj} (h : conjunction ts = some (c, ts₁)) :
    ∃ t us, ts = t :: us ∧ ((ts₁ = us ∧ ∀ us', conjunction (t :: us') = some (c, us')) ∨
      (ts₁ = t :: us ∧ ∀ us', conjunction (t :: us') = some (c, t :: us'))) := by
  have hne : (cur ts).kind ≠ .eof := by
    intro heof
    simp [conjunction, heof] at h
  obtain ⟨t, us, rfl⟩ := cur_cons hne
  refine ⟨t, us, rfl, ?_⟩
  have hconj (us : List Token) : conjunction (t :: us) =
      if t.kind = .ident ∧ t.value = "and" then some (.and, us)
      else if t.kind = .ident ∧ t.value = "or" then some (.or, us)
      else if t.kind = .ident ∨ t.kind = .string then some (.and, t :: us) else none := rfl
  rw [hconj] at h
  simp only [hconj]
  split at h
  · cases h
    exact .inl ⟨rfl, fun us' => if_pos ‹_›⟩
  rename_i hand
  split at h
  · cases h
    exact .inl ⟨rfl, fun us' => by rw [if_neg hand, if_pos ‹_›]⟩
  rename_i hor
  split at h
  · cases h
    exact .inr ⟨rfl, fun us' => by rw [if_neg hand, if_neg hor, if_pos ‹_›]⟩
  · cases h

/-- Further terms are read behind those that are there. -/
theorem parseMoreTerms_append {more : List (Conj × Term)} (h : parseMoreTerms ts = .ok (more, r)) :
    ∃ T, ts = T ++ r ∧
      ∀ us b r', (cur us).kind = .ident → parseMoreTerms us = .ok (b, r') →
        parseMoreTerms (T ++ us) = .ok (more ++ b, r') := by
  fun_induction parseMoreTerms ts generalizing more r with
  | case1 ts hnone =>
    cases h
    exact ⟨[], rfl, fun us b r' _ hus => hus⟩
  | case2 ts c ts₁ hc e he => cases h
  | case3 ts c ts₁ hc t ts₂ ht _ e hmore ih => cases h
  | case4 ts c ts₁ hc t ts₂ ht _ more' r'' hmore ih =>
    cases h
    obtain ⟨T, rfl, hT⟩ := ih hmore
    obtain ⟨u, U, rfl, hterm⟩ := parseTerm_append ht
    have hread (us : List Token) (b : List (Conj × Term)) (r' : List Token)
        (hus : (cur us).kind = .ident) (hb : parseMoreTerms us = .ok (b, r')) :
        parseTerm (u :: U ++ (T ++ us)) = .ok (t, T ++ us) ∧
          parseMoreTerms (T ++ us) = .ok (more' ++ b, r') := by
      refine ⟨hterm _ ?_, hT us b r' hus hb⟩
      cases T with
      | nil => exact .inr hus
      | cons v T => exact .inl rfl
    obtain ⟨v, vs, hts, hcase⟩ := conjunction_append hc
    rcases hcase with ⟨hvs, hconj⟩ | ⟨hvs, hconj⟩
    · refine ⟨v :: u :: (U ++ T), by rw [hts, ← hvs]; simp, fun us b r' hus hb => ?_⟩
      obtain ⟨hfirst, hrest⟩ := hread us b r' hus hb
      refine @parseMoreTerms_of_some _ _ (u :: U ++ (T ++ us)) _ _ _ _ ?_ hfirst hrest
      have hcons : v :: u :: (U ++ T) ++ us = v :: (u :: U ++ (T ++ us)) := by simp
      rw [hcons, hconj]
    · obtain ⟨rfl, hus'⟩ := List.cons.inj hvs
      refine ⟨u :: (U ++ T), by rw [hts, ← hus']; simp, fun us b r' hus hb => ?_⟩
      obtain ⟨hfirst, hrest⟩ := hread us b r' hus hb
      refine @parseMoreTerms_of_some _ _ (u :: U ++ (T ++ us)) _ _ _ _ ?_ hfirst hrest
      have hcons : u :: (U ++ T) ++ us = u :: (U ++ (T ++ us)) := by simp
      rw [hcons, hconj]
      rfl

section Appended
variable {column value : String}

theorem parseMoreTerms_comparison (hcolumn : isTopLevel column = true) :
    Whole parseMoreTerms (comparisonLexemes column value) [comparisonTerm column value] := by
  have hmem : column ∈ topLevelFields := List.contains_iff_mem.mp hcolumn
  have hne {w : String} (hw : w ∉ topLevelFields) : column ≠ w := by
    rintro rfl
    exact hw hmem
  have hplain : Plain (comparisonLexemes column value) := by
    intro l hl
    cases hl
    have hand : word column ≠ word "and" :=
      fun h => hne (w := "and") (by decide) (congrArg Prod.snd h)
    have hor : word column ≠ word "or" := fun h => hne (w := "or") (by decide) (congrArg Prod.snd h)
    simp [isConjWord, hand, hor]
  have hconj := conjunction_of_plain hplain (.inl rfl)
  have hterm : parseTerm (bare (comparisonLexemes column value) ++ atEnd) =
      .ok (.comparison column .eq value, atEnd) := by
    have hearliest := hne (w := "earliest") (by decide)
    have hlatest := hne (w := "latest") (by decide)
    simp only [parseTerm, comparisonLexemes, bare, List.map_cons, word, cur, next, symbol]
    simp [hearliest, hlatest]
    rfl
  exact parseMoreTerms_of_some hconj hterm (parseMoreTerms_of_none rfl)

theorem Whole.append_comparison (hcolumn : isTopLevel column = true) {a : List (Conj × Term)}
    (h : Whole parseAndTerms part a) :
    Whole parseAndTerms (part ++ comparisonLexemes column value)
      (a ++ [comparisonTerm column value]) := by
  obtain ⟨t, ts₁, more, ht, hmore, rfl⟩ := parseAndTerms_iff.mp h
  obtain ⟨u, U, hU, hterm⟩ := parseTerm_append ht
  obtain ⟨T, rfl, hT⟩ := parseMoreTerms_append hmore
  have hnew := hT _ _ _ rfl (@parseMoreTerms_comparison column value hcolumn)
  have htokens : bare (part ++ comparisonLexemes column value) ++ atEnd =
      u :: U ++ (T ++ (bare (comparisonLexemes column value) ++ atEnd)) := by
    have hpart : bare part = u :: U ++ T := by
      refine (List.append_left_inj atEnd).mp ?_
      rw [hU, List.append_assoc]
    rw [bare, List.map_append, ← bare, ← bare, hpart]
    simp
  refine parseAndTerms_iff.mpr ⟨t, _, more ++ [comparisonTerm column value], ?_, hnew, rfl⟩
  rw [htokens]
  refine hterm _ ?_
  cases T with
  | nil => exact .inr rfl
  | cons v T => exact .inl rfl

/-- One more term behind the last. -/
def BoolExpr.withTerm (e : BoolExpr) (x : Term) : BoolExpr := ⟨e.terms ++ [x], e.conjs ++ [.and]⟩

theorem exprOf_concat (c : Conj) (t : Term) (more : List (Conj × Term)) (x : Term) :
    exprOf ((c, t) :: more ++ [(.and, x)]) = (exprOf ((c, t) :: more)).withTerm x := by
  simp [exprOf, BoolExpr.withTerm]

/-- The query with one more term in its last search, if it ends in one. -/
def Query.withTerm (q : Query) (x : Term) : Option Query :=
  match q.pipes.getLast? with
  | none => some ⟨q.base.withTerm x, []⟩
  | some (.whereStage e) => some ⟨q.base, q.pipes.dropLast ++ [.whereStage (e.withTerm x)]⟩
  | some _ => none

theorem Query.withTerm_concat {base : BoolExpr} {ps : List PipeStage} :
    Query.withTerm ⟨base, ps ++ [p]⟩ x = some q ↔
      ∃ e, p = .whereStage e ∧ q = ⟨base, ps ++ [.whereStage (e.withTerm x)]⟩ := by
  simp only [Query.withTerm, List.getLast?_concat, List.dropLast_concat]
  cases p with
  | whereStage e =>
    constructor
    · intro h
      cases h
      exact ⟨e, rfl, rfl⟩
    · rintro ⟨e', he, rfl⟩
      cases he
      rfl
  | statsStage aggs by_ | sortStage fields | fieldsStage fields | headStage n | tailStage n =>
    exact ⟨nofun, nofun⟩

theorem Query.withTerm_isSome :
    (q.withTerm x).isSome ↔ ∀ s ∈ q.pipes.getLast?, ∃ e, s = .whereStage e := by
  rw [Query.withTerm]
  cases q.pipes.getLast? with
  | none => simp
  | some s => cases s <;> simp

/-- A search with a comparison behind it. -/
theorem Whole.append_search (hcolumn : isTopLevel column = true) {a : List (Conj × Term)}
    (h : Whole parseAndTerms part a) {e : BoolExpr} :
    (∃ b, Whole parseAndTerms (part ++ comparisonLexemes column value) b ∧ e = exprOf b) ↔
      e = (exprOf a).withTerm (.comparison column .eq value) := by
  have hnew := @Whole.append_comparison part column value hcolumn a h
  obtain ⟨t, -, more, -, -, rfl⟩ := parseAndTerms_iff.mp h
  rw [← exprOf_concat]
  constructor
  · rintro ⟨b, hb, rfl⟩
    rw [hb.unique hnew]
    rfl
  · rintro rfl
    exact ⟨_, hnew, rfl⟩

/-- A stage with a comparison behind it: `where` takes it, the others do not. -/
theorem Whole.append_stage (hcolumn : isTopLevel column = true) (h : Whole parsePipeStage part p)
    {p' : PipeStage} :
    Whole parsePipeStage (part ++ comparisonLexemes column value) p' ↔
      ∃ e, p = .whereStage e ∧
        p' = .whereStage (e.withTerm (.comparison column .eq value)) := by
  obtain ⟨ls, rfl⟩ := whole_stage_keyword h
  rw [List.cons_append]
  by_cases hwhere : p.keyword = "where"
  · rw [hwhere] at h ⊢
    obtain ⟨a, ha, rfl⟩ := whole_where.mp h
    rw [whole_where]
    constructor
    · rintro ⟨b, hb, rfl⟩
      refine ⟨_, rfl, congrArg _ ?_⟩
      exact (ha.append_search hcolumn).mp ⟨b, hb, rfl⟩
    · rintro ⟨e, heq, rfl⟩
      cases heq
      obtain ⟨b, hb, he⟩ := (@Whole.append_search _ column value hcolumn _ ha _).mpr rfl
      exact ⟨b, hb, by rw [he]⟩
  · constructor
    · intro h'
      obtain ⟨T, hT, hstrings⟩ := skips_parsePipeStage h' hwhere
      have htokens := List.append_cancel_right hT
      refine absurd rfl (hstrings ⟨.string, value, 0⟩ ?_)
      rw [← htokens]
      simp [bare, comparisonLexemes, quoted]
    · rintro ⟨e, rfl, -⟩
      exact absurd rfl hwhere

theorem atPipeStageKeyword_append {l : Lexeme} {ls : List Lexeme} :
    atPipeStageKeyword (bare (l :: ls ++ comparisonLexemes column value) ++ atEnd) =
      atPipeStageKeyword (bare (l :: ls) ++ atEnd) := by
  cases ls with
  | nil => rfl
  | cons l' ls => rfl

theorem Whole.append_start (hcolumn : isTopLevel column = true) (h : Whole parseStart part q) :
    Whole parseStart (part ++ comparisonLexemes column value) q' ↔
      q.withTerm (.comparison column .eq value) = some q' := by
  cases part with
  | nil => cases h
  | cons l ls =>
    cases hstage : atPipeStageKeyword (bare (l :: ls) ++ atEnd) with
    | true =>
      obtain ⟨p, hp, rfl⟩ := (whole_start_stage hstage).mp h
      rw [whole_start_stage (atPipeStageKeyword_append.trans hstage)]
      simp only [hp.append_stage hcolumn]
      constructor
      · rintro ⟨p', ⟨e, rfl, rfl⟩, rfl⟩
        rfl
      · intro hq'
        cases p with
        | whereStage e =>
          cases hq'
          exact ⟨_, ⟨e, rfl, rfl⟩, rfl⟩
        | statsStage aggs by_ | sortStage fields | fieldsStage fields | headStage n | tailStage n =>
          cases hq'
    | false =>
      obtain ⟨a, ha, rfl⟩ := (whole_start_search hstage).mp h
      rw [whole_start_search (atPipeStageKeyword_append.trans hstage)]
      have hsearch := @Whole.append_search (l :: ls) column value hcolumn a ha
      constructor
      · rintro ⟨b, hb, rfl⟩
        rw [hsearch.mp ⟨b, hb, rfl⟩]
        rfl
      · intro hq'
        cases hq'
        obtain ⟨b, hb, he⟩ := hsearch.mpr rfl
        exact ⟨b, hb, by rw [he]⟩

theorem unstopped_comparison (column value : String) :
    Unstopped (comparisonLexemes column value) := by
  intro l hl
  simp only [comparisonLexemes, List.mem_cons, List.not_mem_nil, or_false] at hl
  rcases hl with rfl | rfl | rfl <;> rfl

theorem Unstopped.append {ls ls' : List Lexeme} (h : Unstopped ls) (h' : Unstopped ls') :
    Unstopped (ls ++ ls') := by
  intro l hl
  rcases List.mem_append.mp hl with hl | hl
  · exact h l hl
  · exact h' l hl

/-- A query with a comparison behind it is read just if it ends in a search. -/
theorem parse_appended_iff (hcolumn : isTopLevel column = true) {text text' : String}
    (h : parse text = .ok q)
    (hlex : lexed text'.toList = lexed text.toList ++ comparisonLexemes column value) :
    parse text' = .ok q' ↔ q.withTerm (.comparison column .eq value) = some q' := by
  obtain ⟨part, parts, q₀, ps, hseg, hstart, hps, rfl⟩ := parse_iff_segments.mp h
  have hext := unstopped_comparison column value
  rw [hseg.text, List.append_assoc] at hlex
  rcases List.eq_nil_or_concat' parts with rfl | ⟨init, last, rfl⟩
  · cases hps
    have hseg' : Segments (lexed text'.toList) (part ++ comparisonLexemes column value) [] :=
      ⟨by rw [hlex]; simp, hseg.first.append hext, nofun⟩
    rw [hseg'.parse_iff]
    simp only [List.append_nil, List.forall₂_nil_left_iff]
    constructor
    · rintro ⟨q₁, ps', hq₁, rfl, rfl⟩
      rw [List.append_nil]
      exact (hstart.append_start hcolumn).mp hq₁
    · intro hq'
      exact ⟨q', [], (hstart.append_start hcolumn).mpr hq', rfl, by rw [List.append_nil]⟩
  · have hseg' : Segments (lexed text'.toList) part
        (init ++ [last ++ comparisonLexemes column value]) := by
      refine ⟨by rw [hlex]; simp, hseg.first, fun p hp => ?_⟩
      rcases List.mem_append.mp hp with hp | hp
      · exact hseg.rest p (List.mem_append_left _ hp)
      · rw [List.mem_singleton.mp hp]
        exact (hseg.rest last (List.mem_append_right _ (List.mem_singleton_self _))).append hext
    obtain ⟨ps₁, ps₂, rfl, hinit, hlast⟩ := forall₂_append_left hps
    obtain ⟨p, rfl⟩ : ∃ p, ps₂ = [p] := by
      cases hlast with
      | cons _ hnil =>
        cases hnil
        exact ⟨_, rfl⟩
    obtain ⟨hp, -⟩ := List.forall₂_cons.mp hlast
    rw [hseg'.parse_iff, ← List.append_assoc, Query.withTerm_concat]
    constructor
    · rintro ⟨q₁, ps', hq₁, hps', rfl⟩
      obtain rfl := hq₁.unique hstart
      obtain ⟨ps₁', ps₂', rfl, hinit', hlast'⟩ := forall₂_append_left hps'
      obtain rfl := whole_all_unique hinit hinit'
      cases hlast' with
      | cons hp' hnil =>
        cases hnil
        obtain ⟨e, rfl, rfl⟩ := (hp.append_stage hcolumn).mp hp'
        exact ⟨e, rfl, by rw [List.append_assoc]⟩
    · rintro ⟨e, rfl, rfl⟩
      have hp' := (@Whole.append_stage _ _ column value hcolumn hp _).mpr ⟨e, rfl, rfl⟩
      exact ⟨q₀, _, hstart, List.rel_append hinit (.cons hp' .nil), by rw [List.append_assoc]⟩

end Appended

/-! ### The plan with one more filter -/

theorem joined_withTerm {e : BoolExpr} (he : e.terms.length = e.conjs.length+1) (x : Term) :
    (e.withTerm x).joined = e.joined ++ [(some .and, x)] := by
  have hlen : (none :: e.conjs.map some).length = e.terms.length := by simp [he]
  rw [BoolExpr.joined, BoolExpr.joined, BoolExpr.withTerm, List.map_append, ← List.cons_append,
    List.zip_append hlen]
  rfl

theorem compileBoolExpr_withTerm {e : BoolExpr} (he : e.terms.length = e.conjs.length+1)
    {parts : List String} {plan' : Plan} (h : compileBoolExpr now e plan = .ok (parts, plan'))
    (column value : String) :
    compileBoolExpr now (e.withTerm (.comparison column .eq value)) plan =
      .ok (parts, { plan' with filters := plan'.filters ++ [⟨column, .eq, value⟩] }) := by
  rw [compileBoolExpr] at h ⊢
  rw [joined_withTerm he, compileTerms_append, h]
  rfl

theorem compileStages_append {ps ps' : List PipeStage} {parts : List String} :
    compileStages now (ps ++ ps') parts plan =
      (compileStages now ps parts plan).bind (fun x => compileStages now ps' x.1 x.2) := by
  induction ps generalizing parts plan with
  | nil => rfl
  | cons p ps ih =>
    simp only [List.cons_append, compileStages]
    cases compileStage now p parts plan with
    | error e => rfl
    | ok y => exact ih

theorem compileQuery_withTerm {column value : String} (hq : q.WellFormed)
    (h : compileQuery now q = .ok plan)
    (hq' : q.withTerm (.comparison column .eq value) = some q') :
    compileQuery now q' =
      .ok { plan with filters := plan.filters ++ [⟨column, .eq, value⟩] } := by
  obtain ⟨base, pipes⟩ := q
  obtain ⟨⟨parts, plan₁⟩, hb, h⟩ := bind_eq_ok.mp h
  obtain ⟨⟨parts', plan₂⟩, hps, h⟩ := bind_eq_ok.mp h
  have hend {q' : Query} {x : List String × Plan}
      (hx : compileBoolExpr now q'.base emptyPlan = .ok x)
      (hpipes : compileStages now q'.pipes x.1 x.2 =
        .ok (parts', { plan₂ with filters := plan₂.filters ++ [⟨column, .eq, value⟩] })) :
      compileQuery now q' =
        .ok { plan with filters := plan.filters ++ [⟨column, .eq, value⟩] } := by
    refine bind_eq_ok.mpr ⟨x, hx, bind_eq_ok.mpr ⟨_, hpipes, ?_⟩⟩
    dsimp only at h ⊢
    split at h
    · rename_i hnil
      cases h
      rw [if_pos hnil]
    · rename_i hne
      cases h
      rw [if_neg hne]
  rcases List.eq_nil_or_concat' pipes with rfl | ⟨init, p, rfl⟩
  · cases hq'
    cases hps
    have hbase : base.terms.length = base.conjs.length+1 :=
      (hq.base.resolve_right fun hempty => hempty.2 rfl).conjs
    exact hend (compileBoolExpr_withTerm hbase hb column value) rfl
  · obtain ⟨e, rfl, rfl⟩ := Query.withTerm_concat.mp hq'
    have he : e.terms.length = e.conjs.length+1 :=
      (hq.pipes (.whereStage e) (List.mem_append_right _ (List.mem_singleton_self _))).conjs
    refine hend hb ?_
    rw [compileStages_append] at hps ⊢
    cases hinit : compileStages now init parts plan₁ with
    | error err =>
      rw [hinit] at hps
      cases hps
    | ok x =>
      rw [hinit] at hps
      have hlast : compileStages now [.whereStage e] x.1 x.2 = .ok (parts', plan₂) := hps
      obtain ⟨y, hwhere, hy⟩ := bind_eq_ok.mp hlast
      cases hy
      obtain ⟨⟨more, plan₃⟩, hexpr, hadd⟩ := bind_eq_ok.mp hwhere
      cases hadd
      have hnew := compileBoolExpr_withTerm he hexpr column value
      show compileStages now [_] x.1 x.2 = _
      exact bind_eq_ok.mpr ⟨_, bind_eq_ok.mpr ⟨_, hnew, rfl⟩, rfl⟩

end CairnObs.QueryLang
