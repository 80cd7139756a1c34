import CairnObs.QueryText

/-! Whether the search reads the parts of a text search as they were meant. The planner
escapes the quotes of a phrase, but not its backslashes. -/
namespace CairnObs.QueryLang
open TantivyQuery (WordChars lex phraseTail phraseTail_quote phraseTail_escape phraseTail_plain
  ReadsAs IsBareWord EndsPiece)

/-! ### Phrases -/

/-- What `strings.ReplaceAll` makes of a phrase. -/
def escapeQuotes (cs : List Char) : List Char :=
  cs.flatMap (fun c => if c = '"' then ['\\', '"'] else [c])

@[simp] theorem escapeQuotes_nil : escapeQuotes [] = [] := rfl

@[simp] theorem escapeQuotes_quote (cs : List Char) :
    escapeQuotes ('"' :: cs) = '\\' :: '"' :: escapeQuotes cs := rfl

theorem escapeQuotes_cons {c : Char} (hc : c ≠ '"') (cs : List Char) :
    escapeQuotes (c :: cs) = c :: escapeQuotes cs := by
  simp [escapeQuotes, hc]

variable {s : String} {cs rest : List Char}

theorem textPiece_of_hasBlank (h : hasBlank s = true) :
    (textPiece s).toList = '"' :: (escapeQuotes s.toList ++ ['"']) := by
  unfold hasBlank at h
  simp [textPiece, h, escapeQuotes]

theorem textPiece_of_not_hasBlank (h : hasBlank s = false) : textPiece s = s := by
  unfold hasBlank at h
  simp [textPiece, h]

/-- Without backslashes only the quotes need escaping. -/
theorem escapeQuotes_eq_escape (h : '\\' ∉ cs) :
    escapeQuotes cs = EscapedQuote.escape '"' '\\' cs := by
  induction cs with
  | nil => rfl
  | cons c cs ih =>
    have hc : c ≠ '\\' := fun hc => h (hc ▸ List.mem_cons_self)
    have ih := ih (fun hm => h (List.mem_cons_of_mem _ hm))
    by_cases hq : c = '"'
    · subst hq
      simp [EscapedQuote.escape, ih]
    · simp [EscapedQuote.escape, escapeQuotes_cons hq, ih, hq, hc]

/-- How a phrase is read that starts with a backslash: an escaped quote of the planner ends
it, any other character stands for itself. -/
theorem phraseTail_backslash {v r : List Char}
    (h : phraseTail (escapeQuotes ('\\' :: cs) ++ '"' :: rest) = some (v, r)) :
    (cs = [] ∧ ∃ v', v = '"' :: v') ∨ (∃ cs', cs = '"' :: cs' ∧ v = ['\\']) ∨
      ∃ c cs' v', cs = c :: cs' ∧ v = c :: v' ∧
        phraseTail (escapeQuotes cs' ++ '"' :: rest) = some (v', r) := by
  rw [escapeQuotes_cons (by decide)] at h
  cases cs with
  | nil =>
    rw [escapeQuotes_nil, List.cons_append, List.nil_append, phraseTail_escape] at h
    obtain ⟨x, -, hx⟩ := Option.map_eq_some_iff.mp h
    cases hx
    exact .inl ⟨rfl, x.1, rfl⟩
  | cons c cs =>
    by_cases hq : c = '"'
    · subst hq
      rw [escapeQuotes_quote, List.cons_append, List.cons_append, phraseTail_escape,
        List.cons_append, phraseTail_quote] at h
      cases h
      exact .inr (.inl ⟨cs, rfl, rfl⟩)
    · rw [escapeQuotes_cons hq, List.cons_append, List.cons_append, phraseTail_escape] at h
      obtain ⟨x, hx, hv⟩ := Option.map_eq_some_iff.mp h
      cases hv
      exact .inr (.inr ⟨c, cs, x.1, rfl, rfl, hx⟩)

theorem phraseTail_cons {c : Char} (hc : c ≠ '\\') {v r : List Char}
    (h : phraseTail (escapeQuotes (c :: cs) ++ '"' :: rest) = some (v, r)) :
    ∃ v', v = c :: v' ∧ phraseTail (escapeQuotes cs ++ '"' :: rest) = some (v', r) := by
  have hstep : phraseTail (escapeQuotes (c :: cs) ++ '"' :: rest) =
      (phraseTail (escapeQuotes cs ++ '"' :: rest)).map (fun x => (c :: x.1, x.2)) := by
    by_cases hq : c = '"'
    · subst hq
      rw [escapeQuotes_quote, List.cons_append, List.cons_append, phraseTail_escape]
    · rw [escapeQuotes_cons hq, List.cons_append, phraseTail_plain hq hc]
  rw [hstep] at h
  obtain ⟨x, hx, hv⟩ := Option.map_eq_some_iff.mp h
  cases hv
  exact ⟨x.1, rfl, hx⟩

/-- Backslashes that have been swallowed cannot be made up for by what follows. -/
theorem phraseTail_ne_replicate (k : ℕ) (cs rest r : List Char) :
    phraseTail (escapeQuotes cs ++ '"' :: rest) ≠ some (List.replicate (k+1) '\\' ++ cs, r) := by
  induction hn : cs.length using Nat.strong_induction_on generalizing k cs with
  | _ n ih =>
    intro h
    cases cs with
    | nil =>
      rw [escapeQuotes_nil, List.nil_append, phraseTail_quote] at h
      cases h
    | cons c cs =>
      by_cases hc : c = '\\'
      · subst hc
        rcases phraseTail_backslash h with
          ⟨-, v', hv⟩ | ⟨cs', rfl, hv⟩ | ⟨d, cs', v', rfl, hv, hrest⟩
        · cases hv
        · have hlen := congrArg List.length hv
          simp only [List.length_append, List.length_replicate, List.length_cons,
            List.length_nil] at hlen
          omega
        · obtain ⟨rfl, htail⟩ := List.cons.inj hv
          have hmore : v' = List.replicate (k+1+1) '\\' ++ cs' := by
            rw [← htail, List.replicate_succ', List.replicate_succ']
            simp
          rw [hmore] at hrest
          exact ih cs'.length (by simp at hn; omega) (k+1) cs' rfl hrest
      · obtain ⟨v', hv, -⟩ := phraseTail_cons hc h
        exact hc (List.cons.inj hv).1.symm

/-- A phrase that is read as itself, in front of whatever rest, has no backslash. -/
theorem not_mem_of_phraseTail_self {r : List Char}
    (h : phraseTail (escapeQuotes cs ++ '"' :: rest) = some (cs, r)) : '\\' ∉ cs := by
  induction cs with
  | nil => simp
  | cons c cs ih =>
    by_cases hc : c = '\\'
    · subst hc
      rcases phraseTail_backslash h with ⟨-, v', hv⟩ | ⟨cs', rfl, hv⟩ | ⟨d, cs', v', rfl, hv, hrest⟩
      · cases hv
      · cases hv
      · obtain ⟨rfl, rfl⟩ := List.cons.inj hv
        exact absurd hrest (phraseTail_ne_replicate 0 cs' rest r)
    · obtain ⟨v', hv, hrest⟩ := phraseTail_cons hc h
      obtain ⟨-, rfl⟩ := List.cons.inj hv
      intro hm
      rcases List.mem_cons.mp hm with hm | hm
      · exact hc hm.symm
      · exact ih hrest hm

theorem phraseTail_of_not_mem (h : '\\' ∉ cs) (rest : List Char) :
    phraseTail (escapeQuotes cs ++ '"' :: rest) = some (cs, rest) := by
  rw [escapeQuotes_eq_escape h, TantivyQuery.phraseTail_escaped]

/-! ### Parts -/

variable {W : WordChars}

/-- The search reads this text as it was meant. -/
def Legible (W : WordChars) (s : String) : Prop :=
  if hasBlank s then '\\' ∉ s.toList else IsBareWord W s.toList

theorem lex_phrase_piece (hs : hasBlank s = true) (rest : List Char) :
    lex W ((textPiece s).toList ++ rest) =
      (phraseTail (escapeQuotes s.toList ++ '"' :: rest)).bind
        (fun x => (lex W x.2).map (.phrase x.1 :: ·)) := by
  rw [textPiece_of_hasBlank hs, List.cons_append, TantivyQuery.lex_quote, List.append_assoc,
    List.singleton_append]

theorem Legible.reads (h : Legible W s) :
    ReadsAs W (textPiece s).toList (TextPart.text s).token := by
  unfold Legible at h
  cases hs : hasBlank s with
  | true =>
    rw [if_pos hs] at h
    intro rest _
    rw [lex_phrase_piece hs, phraseTail_of_not_mem h]
    simp [TextPart.token, hs]
  | false =>
    rw [if_neg (by simp [hs])] at h
    rw [textPiece_of_not_hasBlank hs]
    simpa [TextPart.token, hs] using h.readsAs

/-- A text that is read as meant once, in front of some rest, is legible. -/
theorem legible_of_lex {ts : List TantivyQuery.Token}
    (h : lex W ((textPiece s).toList ++ rest) = some ((TextPart.text s).token :: ts)) :
    Legible W s := by
  unfold Legible
  cases hs : hasBlank s with
  | true =>
    rw [if_pos rfl]
    rw [lex_phrase_piece hs] at h
    obtain ⟨⟨v, r⟩, hv, h⟩ := Option.bind_eq_some_iff.mp h
    obtain ⟨us, -, heq⟩ := Option.map_eq_some_iff.mp h
    have hvs : v = s.toList := by
      have := (List.cons.inj heq).1
      simpa [TextPart.token, hs] using this
    rw [hvs] at hv
    exact not_mem_of_phraseTail_self hv
  | false =>
    rw [if_neg (by simp)]
    have hword : TantivyQuery.Token.word s.toList ∈ (TextPart.text s).token :: ts := by
      simp [TextPart.token, hs]
    exact TantivyQuery.isBareWord_of_lexFrom (p := .between) trivial h hword

theorem reads_op (conj : Conj) :
    ReadsAs W (TextPart.op conj).written.toList (TextPart.op conj).token := by
  cases conj with
  | and => exact TantivyQuery.reads_and
  | or => exact TantivyQuery.reads_or

/-- The string of a text search gives the parts of the query back exactly if each of its
texts is legible. -/
theorem lex_textParts_iff {ps : List TextPart} :
    lex W ([' '].intercalate (ps.map (fun p => p.written.toList))) = some (ps.map TextPart.token) ↔
      ∀ s, TextPart.text s ∈ ps → Legible W s := by
  have hone : ∀ p ∈ ps, ∀ rest ts, EndsPiece rest → lex W (p.written.toList ++ rest) =
      some (p.token :: ts) → ReadsAs W p.written.toList p.token := by
    intro p _ rest ts _ h
    cases p with
    | op conj => exact reads_op conj
    | text s => exact (legible_of_lex h).reads
  constructor
  · intro h s hs
    have hreads := TantivyQuery.reads_of_lex_joined hone h _ hs
    have hlex := hreads [] TantivyQuery.ends_nil
    exact legible_of_lex hlex
  · intro h
    apply TantivyQuery.lex_joined
    intro p hp
    cases p with
    | op conj => exact reads_op conj
    | text s => exact (h s hp).reads

/-- A text with a blank becomes one phrase that says the text exactly if it has no backslash,
and the search of a query splits into the parts that were written exactly if this holds of all
its texts with a blank and the other ones are bare words. -/
theorem phrases_intact_iff (W : WordChars) :
    (∀ s, hasBlank s = true →
      (lex W (textPiece s).toList = some [.phrase s.toList] ↔ '\\' ∉ s.toList)) ∧
    ∀ (now : ℤ) (q : Query) (plan : Plan), q.WellFormed → compileQuery now q = .ok plan →
      ∀ query ∈ plan.textSearch,
        (lex W query.toList = some (q.textParts.map TextPart.token) ↔
          ∀ s, Term.freeText s ∈ q.terms → Legible W s) := by
  constructor
  · intro s hs
    have htoken : (TextPart.text s).token = .phrase s.toList := by simp [TextPart.token, hs]
    have hlegible : Legible W s ↔ '\\' ∉ s.toList := by rw [Legible, if_pos hs]
    have hpiece : lex W (textPiece s).toList = lex W ((textPiece s).toList ++ []) := by
      rw [List.append_nil]
    rw [← hlegible, hpiece, ← htoken]
    constructor
    · exact legible_of_lex
    · intro h
      exact h.reads [] TantivyQuery.ends_nil
  · intro now q plan hq h query hquery
    rw [mem_textSearch h hquery, lex_textParts_iff]
    exact forall_congr' fun s => imp_congr_left (mem_query_textParts hq)

/-- A search for two texts. -/
def twoTexts (s t : String) : Query := ⟨⟨[.freeText s, .freeText t], [.and]⟩, []⟩

theorem phrases_intact_quote :
    lex .plain (textPiece "say \"hi\"").toList = some [.phrase "say \"hi\"".toList] ∧
    ∃ plan, compileQuery 0 (twoTexts "say \"hi\"" "timeout") = .ok plan ∧
      ∀ query ∈ plan.textSearch, lex .plain query.toList =
        some [.phrase "say \"hi\"".toList, .and, .word "timeout".toList] := by
  refine ⟨((phrases_intact_iff .plain).1 _ (by decide)).mpr (by decide), _, rfl, ?_⟩
  intro query hquery
  refine ((phrases_intact_iff .plain).2 0 (twoTexts "say \"hi\"" "timeout") _ (by decide) rfl query
    hquery).mpr ?_
  intro s hs
  have hcases : s = "say \"hi\"" ∨ s = "timeout" := by simpa [twoTexts, Query.terms] using hs
  rcases hcases with rfl | rfl
  · exact (if_pos (by decide)).mpr (by decide)
  · exact (if_neg (by decide)).mpr (by decide)

/-- A phrase that ends with a backslash has no end: the closing quote is read as a part of it,
and with it the operator and the next phrase up to its opening quote. -/
theorem backslash_breaks_phrase :
    hasBlank "disk C:\\" = true ∧ lex .plain (textPiece "disk C:\\").toList = none ∧
    parse "\"disk C:\\\\\" \"is full\"" = .ok (twoTexts "disk C:\\" "is full") ∧
    ∃ plan, compileQuery 0 (twoTexts "disk C:\\" "is full") = .ok plan ∧
      plan.textSearch = ["\"disk C:\\\" AND \"is full\""] ∧
      lex .plain "\"disk C:\\\" AND \"is full\"".toList = none := by
  refine ⟨by decide, by decide +kernel, by decide +kernel,
    _, rfl, by decide +kernel, by decide +kernel⟩

end CairnObs.QueryLang
