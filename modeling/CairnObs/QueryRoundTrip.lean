import CairnObs.QueryStages
import CairnObs.QueryRender

/-! The parser reads back what the renderer prints, and returns nothing that could not have
been printed. -/
namespace CairnObs.QueryLang
open Fallible

/-- `p` reads `a` off the front of `ts` and leaves the tokens of `ls`. -/
def Reads {α : Type} (p : List Token → Except SyntaxError (α × List Token)) (ts : List Token)
    (a : α) (ls : List Lexeme) : Prop :=
  ∃ r, p ts = .ok (a, r) ∧ r.map Token.lexeme = ls

/-- What can follow a stage. -/
inductive Ends : List Lexeme → Prop
  | pipe (ls) : Ends (symbol .pipe :: ls)
  | eof : Ends [(.eof, "")]

variable {ls : List Lexeme} {ts r : List Token} {α : Type} {p : PipeStage} {q : Query}

theorem cur_of_lexemes {k : Kind} {v : String} (h : ts.map Token.lexeme = (k, v) :: ls) :
    (cur ts).kind = k ∧ (cur ts).value = v ∧ ts.tail.map Token.lexeme = ls := by
  cases ts with
  | nil => cases h
  | cons t l =>
    cases h
    exact ⟨rfl, rfl, rfl⟩

theorem Ends.cur_kind (h : Ends ls) (hts : ts.map Token.lexeme = ls) :
    (cur ts).kind = .pipe ∨ (cur ts).kind = .eof := by
  cases h with
  | pipe ls => exact .inl (cur_of_lexemes hts).1
  | eof => exact .inr (cur_of_lexemes hts).1

theorem expect_lexemes {k : Kind} {v : String} (h : ts.map Token.lexeme = (k, v) :: ls) :
    expect k ts = .ok ts.tail := by
  simp [expect, (cur_of_lexemes h).1]

/-! ### Terms -/

theorem atoi_numeral {n : ℕ} (h : n ≤ maxInt) :
    atoi (String.ofList (Nat.toDigits 10 n)) = some n := by
  have hp := printable_numeral n
  simp only [Printable, numeral, String.toList_ofList] at hp
  simp only [atoi, String.toList_ofList, Nat.ofDigitChars_ten_toDigits]
  rw [if_pos ⟨hp.1, hp.2, h⟩]

theorem timeUnitOfText_text (u : TimeUnit) : timeUnitOfText u.text = some u := by
  cases u <;> rfl

theorem opOfKind_kind (op : Op) : opOfKind op.kind = some op := by
  cases op <;> rfl

theorem isComparatorStart_kind (op : Op) : isComparatorStart op.kind = true := by
  cases op <;> rfl

theorem parseTimeExpr_lexemes {e : TimeExpr} (hwf : e.WellFormed)
    (h : ts.map Token.lexeme = e.lexemes ++ ls) : Reads parseTimeExpr ts e ls := by
  cases e with
  | absolute value =>
    obtain ⟨hk, hv, hrest⟩ := cur_of_lexemes h
    exact ⟨ts.tail, by simp [parseTimeExpr, hk, hv], hrest⟩
  | relative sign n unit =>
    obtain ⟨hk, _, hrest⟩ := cur_of_lexemes h
    obtain ⟨hnk, hnv, hrest⟩ := cur_of_lexemes hrest
    obtain ⟨huk, huv, hrest⟩ := cur_of_lexemes hrest
    -- The renderer prints the sign that the parser takes to be optional.
    have hsign : parseSign ts = (sign, ts.tail) := by
      cases sign <;> simp_all [parseSign, Sign.kind]
    have hns : (cur ts).kind ≠ .string := by
      rw [hk]
      cases sign <;> decide
    refine ⟨ts.tail.tail.tail, ?_, hrest⟩
    simp only [parseTimeExpr, hns, if_false, hsign, parseOffset, hnk, ne_eq, not_true_eq_false,
      hnv, atoi_numeral hwf, next, huk, if_true, huv, timeUnitOfText_text]

theorem parseTerm_comparison {field : String} {op : Op} {value : String}
    (hfield : field ≠ "earliest" ∧ field ≠ "latest")
    (h : ts.map Token.lexeme = (Term.comparison field op value).lexemes ++ ls) :
    Reads parseTerm ts (.comparison field op value) ls := by
  obtain ⟨hk, hv, hrest⟩ := cur_of_lexemes h
  obtain ⟨hok, _, hrest⟩ := cur_of_lexemes hrest
  obtain ⟨hvk, hvv, hrest⟩ := cur_of_lexemes hrest
  have hcolon : op.kind ≠ .colon := by cases op <;> exact nofun
  have hvalue : parseValue ts.tail.tail = .ok (value, ts.tail.tail.tail) := by
    simp [parseValue, hvk, hvv]
  refine ⟨ts.tail.tail.tail, ?_, hrest⟩
  simp only [parseTerm, hk, hv, hfield.1, hfield.2, next, hok, hcolon, and_false, if_false,
    isComparatorStart_kind, if_true, parseComparison, parseComparator, opOfKind_kind]
  exact bind_eq_ok.mpr ⟨_, rfl, bind_eq_ok.mpr ⟨_, hvalue, rfl⟩⟩

theorem parseTerm_lexemes {t : Term} (hwf : t.WellFormed)
    (h : ts.map Token.lexeme = t.lexemes ++ ls) : Reads parseTerm ts t ls := by
  cases t with
  | comparison field op value => exact parseTerm_comparison hwf.2 h
  | timeBound kind expr =>
    obtain ⟨hk, hv, hrest⟩ := cur_of_lexemes h
    obtain ⟨r, hexpr, hr⟩ := parseTimeExpr_lexemes hwf (cur_of_lexemes hrest).2.2
    have hbound : parseTimeBound kind ts = .ok (.timeBound kind expr, r) :=
      bind_eq_ok.mpr ⟨_, expect_lexemes hrest, bind_eq_ok.mpr ⟨_, hexpr, rfl⟩⟩
    refine ⟨r, ?_, hr⟩
    cases kind <;> simp [parseTerm, hk, hv, BoundKind.text, hbound]
  | freeText query =>
    obtain ⟨hk, hv, hrest⟩ := cur_of_lexemes h
    exact ⟨ts.tail, by simp [parseTerm, hk, hv], hrest⟩

theorem conjunction_lexemes {c : Conj} (h : ts.map Token.lexeme = word c.text :: ls) :
    conjunction ts = some (c, ts.tail) := by
  obtain ⟨hk, hv, _⟩ := cur_of_lexemes h
  cases c <;> simp [conjunction, hk, hv, Conj.text]

theorem parseMoreTerms_of_none (h : conjunction ts = none) : parseMoreTerms ts = .ok ([], ts) := by
  rw [parseMoreTerms]
  split
  · rfl
  · rename_i c ts₁ hc
    rw [h] at hc
    cases hc

variable {ts₁ : List Token} {e : BoolExpr} {item : List Token → Except SyntaxError (α × List Token)}
  {as : List α} {ps : List PipeStage}

theorem parseMoreTerms_of_some {ts₂ : List Token} {c : Conj} {t : Term} {more : List (Conj × Term)}
    (hc : conjunction ts = some (c, ts₁)) (ht : parseTerm ts₁ = .ok (t, ts₂))
    (hm : parseMoreTerms ts₂ = .ok (more, r)) : parseMoreTerms ts = .ok ((c, t) :: more, r) := by
  rw [parseMoreTerms]
  split
  · rename_i hc'
    rw [hc] at hc'
    cases hc'
  · rename_i c' ts₁' hc'
    rw [hc] at hc'
    cases hc'
    split
    · rename_i e ht'
      rw [ht] at ht'
      cases ht'
    · rename_i t' ts₂' ht'
      rw [ht] at ht'
      cases ht'
      simp only [hm]

theorem parseMoreTerms_lexemes {more : List (Conj × Term)} (hwf : ∀ x ∈ more, x.2.WellFormed)
    (hls : Ends ls) (h : ts.map Token.lexeme = moreLexemes more ++ ls) :
    Reads parseMoreTerms ts more ls := by
  induction more generalizing ts with
  | nil =>
    -- What ends a stage is no conjunction.
    refine ⟨ts, parseMoreTerms_of_none ?_, h⟩
    rcases hls.cur_kind h with hk | hk <;> simp [conjunction, hk]
  | cons x more ih =>
    obtain ⟨c, t⟩ := x
    simp only [moreLexemes, List.flatMap_cons, List.cons_append, List.append_assoc] at h
    obtain ⟨ts₂, ht, hts₂⟩ := parseTerm_lexemes (hwf _ List.mem_cons_self) (cur_of_lexemes h).2.2
    obtain ⟨r, hm, hr⟩ := ih (fun x hx => hwf x (List.mem_cons_of_mem _ hx)) hts₂
    exact ⟨r, parseMoreTerms_of_some (conjunction_lexemes h) ht hm, hr⟩

theorem parseBoolExpr_lexemes (hwf : e.WellFormed) (hls : Ends ls)
    (h : ts.map Token.lexeme = e.lexemes ++ ls) : Reads parseBoolExpr ts e ls := by
  obtain ⟨terms, conjs⟩ := e
  cases terms with
  | nil => exact absurd hwf.conjs (by simp)
  | cons t more =>
    have hlen : conjs.length = more.length := by simpa using hwf.conjs.symm
    rw [BoolExpr.lexemes, List.append_assoc] at h
    obtain ⟨ts₁, ht, hts₁⟩ := parseTerm_lexemes (hwf.terms t List.mem_cons_self) h
    have hmore : ∀ x ∈ conjs.zip more, x.2.WellFormed := fun x hx =>
      hwf.terms x.2 (List.mem_cons_of_mem _ (List.of_mem_zip hx).2)
    obtain ⟨r, hm, hr⟩ := parseMoreTerms_lexemes hmore hls hts₁
    refine ⟨r, bind_eq_ok.mpr ⟨_, ht, bind_eq_ok.mpr ⟨_, hm, ?_⟩⟩, hr⟩
    simp only [List.map_snd_zip hlen.ge, List.map_fst_zip hlen.le]

/-! ### Stages -/

/-- Neither another item nor an alias comes next. -/
structure ListEnds (ls : List Lexeme) : Prop where
  noComma : ∀ r : List Token, r.map Token.lexeme = ls → (cur r).kind ≠ .comma
  noAlias : ∀ r : List Token, r.map Token.lexeme = ls →
    ¬ ((cur r).kind = .ident ∧ (cur r).value = "as")

theorem Ends.listEnds (h : Ends ls) : ListEnds ls where
  noComma r hr := by rcases h.cur_kind hr with hk | hk <;> simp [hk]
  noAlias r hr := by rcases h.cur_kind hr with hk | hk <;> simp [hk]

theorem listEnds_by (ls : List Lexeme) : ListEnds (word "by" :: ls) where
  noComma r hr := by simp [(cur_of_lexemes hr).1]
  noAlias r hr := by simp [(cur_of_lexemes hr).2.1]

theorem parseCommaList_last {hitem : ∀ ts a r, item ts = .ok (a, r) → After r ts} {a : α}
    (h : item ts = .ok (a, r)) (hr : (cur r).kind ≠ .comma) :
    parseCommaList item hitem ts = .ok ([a], r) := by
  rw [parseCommaList]
  split
  · rename_i e he
    rw [h] at he
    cases he
  · rename_i a' r' ha
    rw [h] at ha
    cases ha
    simp only [hr, if_false]

theorem parseCommaList_more {hitem : ∀ ts a r, item ts = .ok (a, r) → After r ts} {a : α}
    (h : item ts = .ok (a, ts₁)) (hc : (cur ts₁).kind = .comma)
    (hrest : parseCommaList item hitem ts₁.tail = .ok (as, r)) :
    parseCommaList item hitem ts = .ok (a :: as, r) := by
  rw [parseCommaList]
  split
  · rename_i e he
    rw [h] at he
    cases he
  · rename_i a' r' ha
    rw [h] at ha
    cases ha
    simp only [hc, if_true, hrest]

/-- `hread` is asked for an item followed by a comma or by what ends the list. -/
theorem parseCommaList_lexemes {hitem : ∀ ts a r, item ts = .ok (a, r) → After r ts}
    {f : α → List Lexeme} (hne : as ≠ []) (hls : ListEnds ls)
    (hread : ∀ a ∈ as, ∀ ts ls', (ls' = ls ∨ ∃ l, ls' = symbol .comma :: l) →
      ts.map Token.lexeme = f a ++ ls' → Reads item ts a ls')
    (h : ts.map Token.lexeme = commaLexemes f as ++ ls) :
    Reads (parseCommaList item hitem) ts as ls := by
  induction as generalizing ts with
  | nil => exact absurd rfl hne
  | cons a as ih =>
    cases as with
    | nil =>
      obtain ⟨r, ha, hr⟩ := hread a List.mem_cons_self ts ls (.inl rfl) h
      exact ⟨r, parseCommaList_last ha (hls.noComma r hr), hr⟩
    | cons b bs =>
      rw [commaLexemes, List.append_assoc, List.cons_append] at h
      · obtain ⟨ts₁, ha, hts₁⟩ := hread a List.mem_cons_self ts _ (.inr ⟨_, rfl⟩) h
        obtain ⟨hk, _, hrest⟩ := cur_of_lexemes hts₁
        obtain ⟨r, hbs, hr⟩ := ih (List.cons_ne_nil b bs)
          (fun a ha => hread a (List.mem_cons_of_mem _ ha)) hrest
        exact ⟨r, parseCommaList_more ha hk hbs, hr⟩
      · exact List.cons_ne_nil b bs

theorem parseFieldIdent_lexemes {f : String} (h : ts.map Token.lexeme = [word f] ++ ls) :
    Reads parseFieldIdent ts f ls := by
  obtain ⟨hk, hv, hrest⟩ := cur_of_lexemes h
  exact ⟨ts.tail, by simp [parseFieldIdent, hk, hv], hrest⟩

theorem parseSortField_lexemes {f : SortField} (h : ts.map Token.lexeme = f.lexemes ++ ls) :
    Reads parseSortField ts f ls := by
  obtain ⟨field, desc⟩ := f
  obtain ⟨hsk, _, hrest⟩ := cur_of_lexemes h
  obtain ⟨hk, hv, hrest⟩ := cur_of_lexemes hrest
  refine ⟨ts.tail.tail, ?_, hrest⟩
  cases desc <;> simp_all [parseSortField, parseSortSign]

theorem parseAggField_lexemes {field : String} (h : ts.map Token.lexeme = symbol .lparen ::
      ((if field = "" then [] else [word field]) ++ symbol .rparen :: ls)) :
    Reads parseAggField ts field ls := by
  obtain ⟨hlk, _, hrest⟩ := cur_of_lexemes h
  by_cases hf : field = ""
  · subst hf
    simp only [if_true, List.nil_append] at hrest
    obtain ⟨hrk, _, hls⟩ := cur_of_lexemes hrest
    refine ⟨ts.tail.tail, ?_, hls⟩
    simp only [parseAggField, hlk, if_true, hrk]
    exact bind_eq_ok.mpr ⟨_, expect_lexemes hrest, rfl⟩
  · simp only [hf, if_false, List.singleton_append] at hrest
    obtain ⟨hk, hv, hrest⟩ := cur_of_lexemes hrest
    refine ⟨ts.tail.tail.tail, ?_, (cur_of_lexemes hrest).2.2⟩
    simp only [parseAggField, hlk, if_true, hk, hv]
    exact bind_eq_ok.mpr ⟨_, expect_lexemes hrest, rfl⟩

theorem parseAggAlias_lexemes {aliasName : String}
    (hls : ∀ r : List Token, r.map Token.lexeme = ls →
      ¬ ((cur r).kind = .ident ∧ (cur r).value = "as"))
    (h : ts.map Token.lexeme = (if aliasName = "" then [] else [word "as", word aliasName]) ++ ls) :
    Reads parseAggAlias ts aliasName ls := by
  by_cases ha : aliasName = ""
  · subst ha
    simp only [if_true, List.nil_append] at h
    exact ⟨ts, by simp only [parseAggAlias, hls ts h, if_false], h⟩
  · simp only [ha, if_false] at h
    obtain ⟨hak, hav, hrest⟩ := cur_of_lexemes h
    obtain ⟨hk, hv, hrest⟩ := cur_of_lexemes hrest
    refine ⟨ts.tail.tail, ?_, hrest⟩
    simp only [parseAggAlias, hak, hav, and_self, if_true, next, hk, hv]

theorem aggFuncOfText_text (func : AggFunc) : aggFuncOfText func.text = some func := by
  cases func <;> rfl

theorem parseAggCall_lexemes {a : AggCall} (hls : ∀ r : List Token, r.map Token.lexeme = ls →
      ¬ ((cur r).kind = .ident ∧ (cur r).value = "as"))
    (h : ts.map Token.lexeme = a.lexemes ++ ls) :
    Reads parseAggCall ts a ls := by
  obtain ⟨func, field, aliasName⟩ := a
  simp only [AggCall.lexemes, List.cons_append, List.append_assoc] at h
  obtain ⟨hk, hv, hrest⟩ := cur_of_lexemes h
  obtain ⟨ts₁, hf, hts₁⟩ := parseAggField_lexemes hrest
  obtain ⟨r, ha, hr⟩ := parseAggAlias_lexemes hls hts₁
  refine ⟨r, ?_, hr⟩
  simp only [parseAggCall, hk, ne_eq, not_true_eq_false, if_false, hv, aggFuncOfText_text]
  exact bind_eq_ok.mpr ⟨_, hf, bind_eq_ok.mpr ⟨_, ha, rfl⟩⟩

theorem parseWords_lexemes {fs : List String} (hne : fs ≠ []) (hls : ListEnds ls)
    (h : ts.map Token.lexeme = commaLexemes (fun f => [word f]) fs ++ ls) :
    Reads (parseCommaList parseFieldIdent (fun _ _ _ h => (parseFieldIdent_spec h).1)) ts fs ls :=
  parseCommaList_lexemes hne hls (fun _ _ _ _ _ h => parseFieldIdent_lexemes h) h

theorem parseBy_lexemes {by_ : List String} (hls : Ends ls)
    (h : ts.map Token.lexeme = byLexemes by_ ++ ls) : Reads parseBy ts by_ ls := by
  by_cases hby : by_ = []
  · subst hby
    simp only [byLexemes, if_true, List.nil_append] at h
    refine ⟨ts, ?_, h⟩
    rcases hls.cur_kind h with hk | hk <;> simp [parseBy, hk]
  · simp only [byLexemes, hby, if_false, List.cons_append] at h
    obtain ⟨hk, hv, hrest⟩ := cur_of_lexemes h
    obtain ⟨r, hp, hr⟩ := parseWords_lexemes hby hls.listEnds hrest
    exact ⟨r, by simp only [parseBy, hk, hv, and_self, if_true, hp], hr⟩

theorem listEnds_byLexemes (by_ : List String) (hls : Ends ls) :
    ListEnds (byLexemes by_ ++ ls) := by
  simp only [byLexemes]
  split
  · exact hls.listEnds
  · exact listEnds_by _

theorem parseStatsStage_lexemes {aggs : List AggCall} {by_ : List String} (hne : aggs ≠ [])
    (hls : Ends ls)
    (h : ts.tail.map Token.lexeme = commaLexemes AggCall.lexemes aggs ++ byLexemes by_ ++ ls) :
    Reads parseStatsStage ts (.statsStage aggs by_) ls := by
  rw [List.append_assoc] at h
  have hends := listEnds_byLexemes by_ hls
  have hread : ∀ a ∈ aggs, ∀ ts ls', (ls' = byLexemes by_ ++ ls ∨ ∃ l, ls' = symbol .comma :: l) →
      ts.map Token.lexeme = a.lexemes ++ ls' → Reads parseAggCall ts a ls' := by
    intro a _ ts ls' hls' hts
    refine parseAggCall_lexemes ?_ hts
    rcases hls' with rfl | ⟨l, rfl⟩
    · -- After the last aggregate a by-clause must not be taken for an alias.
      exact hends.noAlias
    · intro r hr
      simp [(cur_of_lexemes hr).1]
  obtain ⟨ts₁, ha, hts₁⟩ : Reads (parseCommaList parseAggCall
      (fun _ _ _ h => (parseAggCall_spec h).1)) ts.tail aggs (byLexemes by_ ++ ls) :=
    parseCommaList_lexemes hne hends hread h
  obtain ⟨r, hb, hr⟩ := parseBy_lexemes hls hts₁
  exact ⟨r, bind_eq_ok.mpr ⟨_, ha, bind_eq_ok.mpr ⟨_, hb, rfl⟩⟩, hr⟩

theorem parseHeadTailStage_lexemes (stage : Option ℕ → PipeStage) {n : Option ℕ}
    (hn : ∀ k ∈ n, k ≤ maxInt) (hls : Ends ls)
    (h : ts.tail.map Token.lexeme = countLexemes n ++ ls) :
    Reads (parseHeadTailStage stage) ts (stage n) ls := by
  cases n with
  | none =>
    have hk : (next ts).kind ≠ .number := by
      rcases hls.cur_kind h with hk | hk <;> simp [next, hk]
    exact ⟨ts.tail, by simp only [parseHeadTailStage, hk, if_false], h⟩
  | some k =>
    obtain ⟨hk, hv, hrest⟩ := cur_of_lexemes h
    refine ⟨ts.tail.tail, ?_, hrest⟩
    simp only [parseHeadTailStage, next, hk, if_true, hv, atoi_numeral (hn k rfl)]

theorem parsePipeStage_lexemes (hwf : p.WellFormed) (hne : p.Nonempty) (hls : Ends ls)
    (h : ts.map Token.lexeme = p.lexemes ++ ls) : Reads parsePipeStage ts p ls := by
  cases p with
  | whereStage expr =>
    obtain ⟨hk, hv, hrest⟩ := cur_of_lexemes h
    obtain ⟨r, he, hr⟩ := parseBoolExpr_lexemes hwf hls hrest
    refine ⟨r, ?_, hr⟩
    simp only [parsePipeStage, hk, hv, ne_eq, not_true_eq_false, if_false, if_true]
    exact bind_eq_ok.mpr ⟨_, he, rfl⟩
  | statsStage aggs by_ =>
    obtain ⟨hk, hv, hrest⟩ := cur_of_lexemes h
    obtain ⟨r, hs, hr⟩ := parseStatsStage_lexemes hne hls hrest
    exact ⟨r, by simp [parsePipeStage, hk, hv, hs], hr⟩
  | sortStage fields =>
    obtain ⟨hk, hv, hrest⟩ := cur_of_lexemes h
    obtain ⟨r, hf, hr⟩ : Reads (parseCommaList parseSortField
        (fun _ _ _ h => (parseSortField_spec h).1)) ts.tail fields ls :=
      parseCommaList_lexemes hne hls.listEnds (fun _ _ _ _ _ hts => parseSortField_lexemes hts)
        hrest
    have hs : parseSortStage ts = .ok (.sortStage fields, r) := bind_eq_ok.mpr ⟨_, hf, rfl⟩
    exact ⟨r, by simp [parsePipeStage, hk, hv, hs], hr⟩
  | fieldsStage fields =>
    obtain ⟨hk, hv, hrest⟩ := cur_of_lexemes h
    obtain ⟨r, hf, hr⟩ := parseWords_lexemes hne hls.listEnds hrest
    have hs : parseFieldsStage ts = .ok (.fieldsStage fields, r) := bind_eq_ok.mpr ⟨_, hf, rfl⟩
    exact ⟨r, by simp [parsePipeStage, hk, hv, hs], hr⟩
  | headStage n =>
    obtain ⟨hk, hv, hrest⟩ := cur_of_lexemes h
    obtain ⟨r, hs, hr⟩ := parseHeadTailStage_lexemes .headStage hwf hls hrest
    exact ⟨r, by simp [parsePipeStage, hk, hv, hs], hr⟩
  | tailStage n =>
    obtain ⟨hk, hv, hrest⟩ := cur_of_lexemes h
    obtain ⟨r, hs, hr⟩ := parseHeadTailStage_lexemes .tailStage hwf hls hrest
    exact ⟨r, by simp [parsePipeStage, hk, hv, hs], hr⟩

/-! ### Queries -/

theorem parsePipes_of_eof (h : (cur ts).kind ≠ .pipe) : parsePipes ts = .ok ([], ts) := by
  rw [parsePipes]
  simp only [h, if_false]

theorem parsePipes_of_pipe (h : (cur ts).kind = .pipe) (hp : parsePipeStage ts.tail = .ok (p, ts₁))
    (hps : parsePipes ts₁ = .ok (ps, r)) : parsePipes ts = .ok (p :: ps, r) := by
  rw [parsePipes]
  simp only [h, if_true]
  split
  · rename_i e he
    rw [hp] at he
    cases he
  · rename_i p' ts₁' hp'
    rw [hp] at hp'
    cases hp'
    simp only [hps]

theorem ends_pipesLexemes (ps : List PipeStage) : Ends (pipesLexemes ps ++ [(.eof, "")]) := by
  cases ps with
  | nil => exact .eof
  | cons p ps => exact .pipe _

theorem parsePipes_lexemes (hwf : ∀ p ∈ ps, p.WellFormed ∧ p.Nonempty)
    (h : ts.map Token.lexeme = pipesLexemes ps ++ [(.eof, "")]) :
    Reads parsePipes ts ps [(.eof, "")] := by
  induction ps generalizing ts with
  | nil =>
    have hk : (cur ts).kind = .eof := (cur_of_lexemes h).1
    exact ⟨ts, parsePipes_of_eof (by simp [hk]), h⟩
  | cons p ps ih =>
    simp only [pipesLexemes, List.flatMap_cons, List.cons_append, List.append_assoc] at h
    obtain ⟨hk, _, hrest⟩ := cur_of_lexemes h
    obtain ⟨hp, hne⟩ := hwf p List.mem_cons_self
    obtain ⟨ts₁, hstage, hts₁⟩ := parsePipeStage_lexemes hp hne (ends_pipesLexemes ps) hrest
    obtain ⟨r, hps, hr⟩ := ih (fun p hp => hwf p (List.mem_cons_of_mem _ hp)) hts₁
    exact ⟨r, parsePipes_of_pipe hk hstage hps, hr⟩

theorem parseQuery_of_reads (hstart : Reads parseStart ts q (pipesLexemes ps ++ [(.eof, "")]))
    (hwf : ∀ p ∈ ps, p.WellFormed ∧ p.Nonempty) :
    parseQuery ts = .ok { q with pipes := q.pipes ++ ps } := by
  obtain ⟨ts₁, hq, hts₁⟩ := hstart
  obtain ⟨r, hps, hr⟩ := parsePipes_lexemes hwf hts₁
  refine bind_eq_ok.mpr ⟨_, hq, bind_eq_ok.mpr ⟨_, hps, ?_⟩⟩
  simp only [(cur_of_lexemes hr).1, if_true]

/-- A list of lexemes that does not begin with a comparator. -/
def NoComparator (ls : List Lexeme) : Prop :=
  ∃ x l, ls = x :: l ∧ isComparatorStart x.1 = false

theorem NoComparator.append (h : NoComparator ls) (ls' : List Lexeme) :
    NoComparator (ls ++ ls') := by
  obtain ⟨x, l, rfl, hx⟩ := h
  exact ⟨x, l ++ ls', rfl, hx⟩

theorem Ends.noComparator (h : Ends ls) : NoComparator ls := by
  cases h with
  | pipe ls => exact ⟨_, _, rfl, rfl⟩
  | eof => exact ⟨_, _, rfl, rfl⟩

theorem noComparator_boolExpr (h : e.WellFormed) : NoComparator e.lexemes := by
  obtain ⟨terms, conjs⟩ := e
  cases terms with
  | nil => exact absurd h.conjs (by simp)
  | cons t ts =>
    refine NoComparator.append ?_ _
    cases t with
    | comparison field op value => exact ⟨_, _, rfl, rfl⟩
    | timeBound kind expr => exact ⟨_, _, rfl, rfl⟩
    | freeText query => exact ⟨_, _, rfl, rfl⟩

theorem noComparator_commaLexemes {f : α → List Lexeme} (hf : ∀ a, NoComparator (f a))
    (h : as ≠ []) :
    NoComparator (commaLexemes f as) := by
  cases as with
  | nil => exact absurd rfl h
  | cons a as =>
    cases as with
    | nil => exact hf a
    | cons b bs => exact (hf a).append _

theorem noComparator_sortField (f : SortField) : NoComparator f.lexemes :=
  ⟨_, _, rfl, by cases f.desc <;> rfl⟩

theorem noComparator_countLexemes (n : Option ℕ) (hls : Ends ls) :
    NoComparator (countLexemes n ++ ls) := by
  cases n with
  | none => exact hls.noComparator
  | some k => exact ⟨_, _, rfl, rfl⟩

/-- A printed stage is its keyword and then no comparator. -/
theorem stage_lexemes (hwf : p.WellFormed) (hne : p.Nonempty) (hls : Ends ls) :
    ∃ kw l, p.lexemes ++ ls = word kw :: l ∧ isPipeStageKeyword kw = true ∧ NoComparator l := by
  cases p with
  | whereStage expr =>
    exact ⟨"where", _, rfl, rfl, (noComparator_boolExpr hwf).append _⟩
  | statsStage aggs by_ =>
    refine ⟨"stats", _, rfl, rfl, NoComparator.append (NoComparator.append ?_ _) _⟩
    exact noComparator_commaLexemes (fun a => ⟨_, _, rfl, rfl⟩) hne
  | sortStage fields =>
    refine ⟨"sort", _, rfl, rfl, NoComparator.append ?_ _⟩
    exact noComparator_commaLexemes noComparator_sortField hne
  | fieldsStage fields =>
    refine ⟨"fields", _, rfl, rfl, NoComparator.append ?_ _⟩
    exact noComparator_commaLexemes (fun f => ⟨_, _, rfl, rfl⟩) hne
  | headStage n => exact ⟨"head", _, rfl, rfl, noComparator_countLexemes n hls⟩
  | tailStage n => exact ⟨"tail", _, rfl, rfl, noComparator_countLexemes n hls⟩

theorem atPipeStageKeyword_stage (hwf : p.WellFormed) (hne : p.Nonempty) (hls : Ends ls)
    (h : ts.map Token.lexeme = p.lexemes ++ ls) : atPipeStageKeyword ts = true := by
  obtain ⟨kw, _, hkw, hkey, x, l, rfl, hx⟩ := stage_lexemes hwf hne hls
  rw [hkw] at h
  obtain ⟨hk, hv, hrest⟩ := cur_of_lexemes h
  have hnext : (next ts).kind = x.1 := (cur_of_lexemes hrest).1
  simp [atPipeStageKeyword, hk, hv, hnext, hx, hkey]

/-- A printed base search is a comparison, a time bound or a quoted text first. -/
theorem atPipeStageKeyword_base (hwf : e.WellFormed) (h : ts.map Token.lexeme = e.lexemes ++ ls) :
    atPipeStageKeyword ts = false := by
  obtain ⟨terms, conjs⟩ := e
  cases terms with
  | nil => exact absurd hwf.conjs (by simp)
  | cons t more =>
    cases t with
    | comparison field op value =>
      obtain ⟨_, _, hrest⟩ := cur_of_lexemes h
      have hnext : (next ts).kind = op.kind := (cur_of_lexemes hrest).1
      simp [atPipeStageKeyword, hnext, isComparatorStart_kind]
    | timeBound kind expr =>
      obtain ⟨_, _, hrest⟩ := cur_of_lexemes h
      have hnext : (next ts).kind = .eq := (cur_of_lexemes hrest).1
      simp [atPipeStageKeyword, hnext, isComparatorStart]
    | freeText query => simp [atPipeStageKeyword, (cur_of_lexemes h).1]

theorem parseQuery_lexemes (hwf : q.WellFormed) (hne : ∀ p ∈ q.pipes, p.Nonempty)
    (h : ts.map Token.lexeme = q.lexemes ++ [(.eof, "")]) : parseQuery ts = .ok q := by
  have hpipes : ∀ p ∈ q.pipes, p.WellFormed ∧ p.Nonempty := fun p hp =>
    ⟨hwf.pipes p hp, hne p hp⟩
  obtain ⟨⟨terms, conjs⟩, pipes⟩ := q
  cases terms with
  | nil =>
    -- Without a base search there are no conjunctions either, and a stage comes first.
    obtain ⟨hbase, hstage⟩ := hwf.base.resolve_left (fun hb => by simpa using hb.conjs)
    obtain ⟨p, ps, rfl⟩ := List.exists_cons_of_ne_nil hstage
    cases hbase
    obtain ⟨hp, hpne⟩ := hpipes p List.mem_cons_self
    rw [Query.lexemes, List.append_assoc] at h
    have hends := ends_pipesLexemes ps
    obtain ⟨r, hr, hrest⟩ := parsePipeStage_lexemes hp hpne hends h
    have hstart : parseStart ts = .ok (⟨BoolExpr.empty, [p]⟩, r) := by
      simp only [parseStart, atPipeStageKeyword_stage hp hpne hends h, if_true]
      exact bind_eq_ok.mpr ⟨_, hr, rfl⟩
    exact parseQuery_of_reads ⟨r, hstart, hrest⟩
      (fun p hp => hpipes p (List.mem_cons_of_mem _ hp))
  | cons t more =>
    have hbase : (⟨t :: more, conjs⟩ : BoolExpr).WellFormed :=
      hwf.base.resolve_right (fun hempty => by simp [BoolExpr.empty] at hempty)
    rw [Query.lexemes, List.append_assoc] at h
    obtain ⟨r, hr, hrest⟩ := parseBoolExpr_lexemes hbase (ends_pipesLexemes pipes) h
    have hstart : parseStart ts = .ok (⟨⟨t :: more, conjs⟩, []⟩, r) := by
      simp only [parseStart, atPipeStageKeyword_base hbase h, Bool.false_eq_true, if_false]
      exact bind_eq_ok.mpr ⟨_, hr, rfl⟩
    exact parseQuery_of_reads ⟨r, hstart, hrest⟩ hpipes

/-! ### The lexer returns identifiers -/

theorem lexString_kind (cs : List Char) : (lexString cs).1 ≠ .ident := by
  intro hident
  rcases lexString_cases cs with h | h
  · cases hident.symm.trans h
  · cases hident.symm.trans h

theorem scan_ident_text {c : Char} {cs : List Char} (h : (scan c cs).1 = .ident) :
    isIdentText (String.ofList (scan c cs).2.1) = true := by
  have hs := scanned_scan c cs
  generalize scan c cs = t at h hs
  cases hs with
  | one hk =>
    cases h
    cases hk
  | two hk =>
    cases h
    cases hk
  | string => exact absurd h (lexString_kind cs)
  | number => cases h
  | ident hc =>
    have hpart : isIdentPart c = true := by simp [isIdentPart, hc]
    simp only [lexIdent, List.takeWhile_cons_of_pos hpart, isIdentText, String.toList_ofList, hc,
      Bool.true_and]
    exact List.all_takeWhile
  | illegal => cases h

theorem lexed_tokensFrom (n : ℕ) (cs : List Char) : Lexed (tokensFrom n cs) := by
  fun_induction tokensFrom n cs with
  | case1 cs h =>
    intro t ht hk
    cases List.mem_singleton.mp ht
    cases hk
  | case2 cs c rest h t ih =>
    intro u hu hk
    rcases List.mem_cons.mp hu with rfl | hu
    · exact scan_ident_text hk
    · exact ih u hu hk

/-- Every query that `Parse` returns is well formed and no list in it is empty. -/
theorem parse_ok_wellFormed {input : String} (h : parse input = .ok q) :
    q.WellFormed ∧ ∀ p ∈ q.pipes, p.Nonempty :=
  parseQuery_wellFormed (lexed_tokensFrom _ _) h

theorem parse_render_of_wellFormed (hwf : q.WellFormed) (hne : ∀ p ∈ q.pipes, p.Nonempty) :
    parse (render q) = .ok q :=
  parseQuery_lexemes hwf hne (tokens_render hwf)

/-- Rendering and parsing are inverse to each other on the well-formed queries whose
`stats`, `sort` and `fields` stages name something, and `Parse` returns no other queries. -/
theorem parse_render_round_trip :
    (∀ q : Query, q.WellFormed → (∀ p ∈ q.pipes, p.Nonempty) → parse (render q) = .ok q) ∧
      (∀ input q, parse input = .ok q → q.WellFormed ∧ ∀ p ∈ q.pipes, p.Nonempty) ∧
      ∀ input q, parse input = .ok q → parse (render q) = parse input := by
  refine ⟨fun q => parse_render_of_wellFormed, fun input q => parse_ok_wellFormed, ?_⟩
  intro input q h
  obtain ⟨hwf, hne⟩ := parse_ok_wellFormed h
  rw [parse_render_of_wellFormed hwf hne, h]

/-- `where>="500" or "say \"hi\"" | stats count() as n by host | sort -n | head 10`. -/
def busyHosts : Query :=
  ⟨⟨[.comparison "where" .gte "500", .freeText "say \"hi\""], [.or]⟩,
    [.statsStage [⟨.count, "", "n"⟩] ["host"], .sortStage [⟨"n", true⟩], .headStage (some 10)]⟩

theorem parse_render_busyHosts :
    busyHosts.WellFormed ∧ (∀ p ∈ busyHosts.pipes, p.Nonempty) ∧
      parse (render busyHosts) = .ok busyHosts := by
  have hwf : busyHosts.WellFormed := by decide
  have hne : ∀ p ∈ busyHosts.pipes, p.Nonempty := by decide
  exact ⟨hwf, hne, parse_render_round_trip.1 busyHosts hwf hne⟩

/-- A `sort` without fields meets every other condition, but no text parses to it. -/
theorem empty_sort_not_parsed :
    let q : Query := ⟨BoolExpr.empty, [.sortStage []]⟩
    q.WellFormed ∧ parse (render q) ≠ .ok q ∧ ∀ input, parse input ≠ .ok q := by
  have hnever : ∀ input, parse input ≠ .ok ⟨BoolExpr.empty, [.sortStage []]⟩ := by
    intro input h
    exact (parse_ok_wellFormed h).2 (.sortStage []) List.mem_cons_self rfl
  exact ⟨by decide, hnever _, hnever⟩

end CairnObs.QueryLang
