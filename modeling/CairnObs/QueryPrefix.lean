import CairnObs.CostGuard
import CairnObs.QueryClauses
import CairnObs.QueryText

/-! Time bounds written in front of a query: when the rest of the query means what it did. -/
namespace CairnObs.QueryLang
open Fallible

/-! ### Conjunctions at the front -/

def leadingConjs (ls : List Lexeme) : List Lexeme := ls.takeWhile isConjWord

/-- The conjunctions at the front are `and`s, in pairs of a word and the conjunction behind it. -/
structure Paired (ls : List Lexeme) : Prop where
  ands : ∀ l ∈ leadingConjs ls, l = word "and"
  even : (leadingConjs ls).length % 2 = 0

inductive Opening : List Lexeme → Prop
  | plain {ls : List Lexeme} (h : Plain ls) : Opening ls
  | pair {ls : List Lexeme} (h : Opening ls) : Opening (word "and" :: word "and" :: ls)

/-- A word at the front turns into a conjunction when a term is put before it. -/
inductive Misread : List Lexeme → Prop
  | or (ls : List Lexeme) : Misread (word "or" :: ls)
  | single {ls : List Lexeme} (h : Plain ls) : Misread (word "and" :: ls)
  | andOr (ls : List Lexeme) : Misread (word "and" :: word "or" :: ls)
  | pair {ls : List Lexeme} (h : Misread ls) : Misread (word "and" :: word "and" :: ls)

variable {ls part : List Lexeme} {plan plan' : Plan} {q : Query} {now : ℤ} {parts' : List String}
  {ps : List PipeStage} {parts : List (List Lexeme)} {input : String}

theorem leadingConjs_of_plain (h : Plain ls) : leadingConjs ls = [] := by
  cases ls with
  | nil => rfl
  | cons l ls => exact List.takeWhile_cons_of_neg (by simp [h l rfl])

theorem Opening.paired (h : Opening ls) : Paired ls := by
  induction h with
  | @plain ls h =>
    have hnil := leadingConjs_of_plain h
    exact ⟨by rw [hnil]; exact nofun, by rw [hnil]; rfl⟩
  | @pair ls h ih =>
    have hconjs : leadingConjs (word "and" :: word "and" :: ls) =
        word "and" :: word "and" :: leadingConjs ls := rfl
    refine ⟨?_, ?_⟩
    · rw [hconjs]
      intro l hl
      rcases List.mem_cons.mp hl with rfl | hl
      · rfl
      · rcases List.mem_cons.mp hl with rfl | hl
        · rfl
        · exact ih.ands l hl
    · have heven := ih.even
      rw [hconjs, List.length_cons, List.length_cons]
      omega

theorem Misread.not_paired (h : Misread ls) : ¬ Paired ls := by
  induction h with
  | or ls =>
    intro h
    exact absurd (h.ands (word "or") List.mem_cons_self) (by decide)
  | @single ls hplain =>
    intro h
    have heven := h.even
    have hconjs : leadingConjs (word "and" :: ls) = word "and" :: leadingConjs ls := rfl
    rw [hconjs, leadingConjs_of_plain hplain] at heven
    cases heven
  | andOr ls =>
    intro h
    exact absurd (h.ands (word "or") (List.mem_cons_of_mem _ List.mem_cons_self)) (by decide)
  | @pair ls _ ih =>
    intro h
    have hconjs : leadingConjs (word "and" :: word "and" :: ls) =
        word "and" :: word "and" :: leadingConjs ls := rfl
    have hands := h.ands
    have heven := h.even
    rw [hconjs] at hands heven
    refine ih ⟨fun l hl => hands l (by simp [hl]), ?_⟩
    rw [List.length_cons, List.length_cons] at heven
    omega

theorem plain_or_conj (ls : List Lexeme) :
    Plain ls ∨ (∃ ls', ls = word "and" :: ls') ∨ ∃ ls', ls = word "or" :: ls' := by
  cases ls with
  | nil => exact .inl nofun
  | cons l ls =>
    by_cases hand : l = word "and"
    · exact .inr (.inl ⟨ls, by rw [hand]⟩)
    · by_cases hor : l = word "or"
      · exact .inr (.inr ⟨ls, by rw [hor]⟩)
      · refine .inl fun l' hl' => ?_
        cases hl'
        simp [isConjWord, hand, hor]

theorem opening_or_misread (ls : List Lexeme) : Opening ls ∨ Misread ls := by
  induction hlen : ls.length using Nat.strong_induction_on generalizing ls with
  | _ n ih =>
    rcases plain_or_conj ls with h | ⟨ls, rfl⟩ | ⟨ls, rfl⟩
    · exact .inl (.plain h)
    · rcases plain_or_conj ls with h | ⟨ls, rfl⟩ | ⟨ls, rfl⟩
      · exact .inr (.single h)
      · have hlt : ls.length < n := by
          rw [← hlen, List.length_cons, List.length_cons]
          omega
        exact (ih _ hlt ls rfl).imp .pair .pair
      · exact .inr (.andOr ls)
    · exact .inr (.or ls)

theorem and_mem : "and" ∉ ["earliest", "latest", "message"] := by decide

theorem or_mem : "or" ∉ ["earliest", "latest", "message"] := by decide

variable {a : List (Conj × Term)} {p : PipeStage}

/-- Such a search is read behind another term as it is read alone. -/
theorem Opening.more (h : Opening ls) (ha : Whole parseAndTerms ls a) :
    Whole parseMoreTerms ls a := by
  induction h generalizing a with
  | plain h => exact whole_more_of_plain h ha
  | @pair ls _ ih =>
    obtain ⟨more, hmore, rfl⟩ := (whole_and_word and_mem rfl).mp ha
    have hrest := whole_more_and.mp hmore
    exact whole_more_and.mpr
      ((whole_and_word and_mem hrest.no_comparator).mpr ⟨more, ih hrest, rfl⟩)

/-! ### The text search as it is spelled -/

def spelled (ps : List TextPart) : List Char := ps.flatMap (fun p => p.written.toList ++ [' '])

theorem spelled_append (ps ps' : List TextPart) : spelled (ps ++ ps') = spelled ps ++ spelled ps' :=
  List.flatMap_append

theorem intercalate_append_blank {xs : List (List Char)} (h : xs ≠ []) :
    [' '].intercalate xs ++ [' '] = xs.flatMap (· ++ [' ']) := by
  induction xs with
  | nil => exact absurd rfl h
  | cons x xs ih =>
    cases xs with
    | nil => simp [List.intercalate]
    | cons y xs =>
      have hrest := ih (List.cons_ne_nil y xs)
      rw [List.flatMap_cons, ← hrest]
      simp [List.intercalate]

theorem spelled_of_textSearch {q' : Query} (h : compileQuery now q = .ok plan)
    (h' : compileQuery now q' = .ok plan') (htext : plan.textSearch = plan'.textSearch) :
    spelled q.textParts = spelled q'.textParts := by
  rw [compileQuery_textSearch h, compileQuery_textSearch h'] at htext
  have hchars {ps : List TextPart} (hne : ps ≠ []) :
      (String.intercalate " " (ps.map TextPart.written)).toList ++ [' '] = spelled ps := by
    rw [String.toList_intercalate, List.map_map, spelled]
    refine (intercalate_append_blank (by simpa using hne)).trans ?_
    rw [List.flatMap_map]
    rfl
  by_cases hq : q.textParts = []
  · by_cases hq' : q'.textParts = []
    · rw [hq, hq']
    · rw [if_pos hq, if_neg hq'] at htext
      cases htext
  · by_cases hq' : q'.textParts = []
    · rw [if_neg hq, if_pos hq'] at htext
      cases htext
    · rw [if_neg hq, if_neg hq'] at htext
      rw [← hchars hq, ← hchars hq', (List.cons.inj htext).1]

/-- Two searches that part ways are spelled differently if the first characters there differ. -/
theorem spelled_ne {ps : List TextPart} {p p' : TextPart} {xs xs' : List TextPart}
    (hxs : ps ++ [p] <+: xs) (hxs' : ps ++ [p'] <+: xs')
    (hne : (p.written.toList ++ [' ']).head? ≠ (p'.written.toList ++ [' ']).head?) :
    spelled xs ≠ spelled xs' := by
  obtain ⟨ys, rfl⟩ := hxs
  obtain ⟨ys', rfl⟩ := hxs'
  intro h
  simp only [List.append_assoc, spelled_append, List.append_cancel_left_eq] at h
  have hhead := congrArg List.head? h
  have hfirst (p : TextPart) (ys : List TextPart) :
      (spelled [p] ++ spelled ys).head? = (p.written.toList ++ [' ']).head? := by
    have hone : spelled [p] = p.written.toList ++ [' '] := by simp [spelled]
    rw [hone, List.head?_append]
    cases p.written.toList <;> rfl
  rw [hfirst, hfirst] at hhead
  exact hne hhead

/-! ### The texts of terms behind other texts -/

def conjoined (a : List (Conj × Term)) : List (Option Conj × Term) :=
  a.map (fun x => (some x.1, x.2))

theorem map_snd_conjoined (a : List (Conj × Term)) :
    (conjoined a).map Prod.snd = a.map Prod.snd := List.map_map

theorem prefix_addPart (conj : Option Conj) (t : Term) (ps : List TextPart) :
    ps <+: addPart conj t ps := by
  cases t with
  | comparison field op value => exact List.prefix_rfl
  | timeBound kind expr => exact List.prefix_rfl
  | freeText s =>
    simp only [addPart]
    split_ifs <;> exact List.prefix_append _ _

theorem prefix_textPartsFrom (ps : List TextPart) (ts : List (Option Conj × Term)) :
    ps <+: textPartsFrom ps ts := by
  induction ts generalizing ps with
  | nil => exact List.prefix_rfl
  | cons x ts ih => exact (prefix_addPart x.1 x.2 ps).trans (ih _)

theorem prefix_first (c : Conj) (t : Term) (more : List (Conj × Term)) (ps : List TextPart) :
    addPart (some c) t ps <+: textPartsFrom ps (conjoined ((c, t) :: more)) :=
  prefix_textPartsFrom _ _

theorem addPart_and (w : String) (ps : List TextPart) :
    addPart (some .and) (.freeText w) ps =
      (ps ++ if ps = [] then [] else [.op .and]) ++ [.text w] := by
  by_cases hps : ps = []
  · simp [addPart, hps]
  · simp [addPart, hps]

/-- What comes later takes as much room behind more texts, or more. -/
theorem spelled_length_textPartsFrom {ps ps' : List TextPart} {k : ℕ} (hne : ps ≠ [])
    (hk : (spelled ps').length + k ≤ (spelled ps).length) (ts : List (Option Conj × Term)) :
    (spelled (textPartsFrom ps' ts)).length + k ≤ (spelled (textPartsFrom ps ts)).length := by
  induction ts generalizing ps ps' with
  | nil => exact hk
  | cons x ts ih =>
    obtain ⟨conj, t⟩ := x
    refine ih (fun hnil => ?_) ?_
    · have hprefix := prefix_addPart conj t ps
      rw [hnil] at hprefix
      exact hne (List.prefix_nil.mp hprefix)
    · cases t with
      | comparison field op value => exact hk
      | timeBound kind expr => exact hk
      | freeText s =>
        simp only [addPart, if_pos hne]
        by_cases hor : conj = some .or
        · simp only [if_pos hor, spelled_append, List.length_append]
          omega
        · by_cases hps' : ps' = []
          · simp only [if_neg hor, hps', ne_eq, not_true_eq_false, if_false, spelled_append,
              List.length_append]
            rw [hps'] at hk
            simp only [spelled, List.flatMap_nil, List.flatMap_cons, List.length_append,
              List.length_nil] at hk ⊢
            omega
          · simp only [if_neg hor, if_pos hps', spelled_append, List.length_append]
            omega

/-- A conjunction that has become of a word is missing from the search. -/
theorem Misread.texts_ne (h : Misread ls) {b : List (Conj × Term)} (ha : Whole parseAndTerms ls a)
    (hb : Whole parseMoreTerms ls b) (hor : ∀ x ∈ b, x.1 = .or → ∃ s, x.2 = .freeText s)
    (ps : List TextPart) :
    spelled (textPartsFrom ps (conjoined a)) ≠ spelled (textPartsFrom ps (conjoined b)) := by
  induction h generalizing a b ps with
  | or ls =>
    obtain ⟨t, more, hrest, rfl⟩ := whole_more_or.mp hb
    obtain ⟨more', -, rfl⟩ := (whole_and_word or_mem hrest.no_comparator).mp ha
    obtain ⟨s, rfl⟩ := hor _ List.mem_cons_self rfl
    have ha' := prefix_first .and (.freeText "or") more' ps
    have hb' : ps ++ [.op .or] <+: textPartsFrom ps (conjoined ((.or, .freeText s) :: more)) :=
      List.IsPrefix.trans ⟨[.text s], by simp [addPart]⟩ (prefix_first .or (.freeText s) more ps)
    rw [addPart_and] at ha'
    by_cases hps : ps = []
    · rw [if_pos hps, List.append_nil] at ha'
      exact spelled_ne ha' hb' (by decide)
    · rw [if_neg hps] at ha'
      exact spelled_ne ((List.prefix_append _ _).trans ha') hb' (by decide)
  | @single ls hplain =>
    have hrest := whole_more_and.mp hb
    obtain ⟨more, hmore, rfl⟩ := (whole_and_word and_mem hrest.no_comparator).mp ha
    obtain rfl := hmore.unique (whole_more_of_plain hplain hrest)
    have hlonger := @spelled_length_textPartsFrom
      (addPart (some .and) (.freeText "and") ps) ps 1
      (by rw [addPart_and]; exact List.append_ne_nil_of_right_ne_nil _ (List.cons_ne_nil _ _))
      (by
        rw [addPart_and, spelled_append, spelled_append, List.length_append, List.length_append]
        have htext : (spelled [.text "and"]).length = 4 := by decide
        omega)
      (conjoined more)
    intro heq
    have hlen := congrArg List.length heq
    have hfirst : textPartsFrom ps (conjoined ((.and, .freeText "and") :: more)) =
      textPartsFrom (addPart (some .and) (.freeText "and") ps) (conjoined more) := rfl
    rw [hfirst] at hlen
    omega
  | andOr ls =>
    obtain ⟨more, hmore, rfl⟩ := (whole_and_word and_mem rfl).mp ha
    obtain ⟨t, more', hrest, rfl⟩ := whole_more_or.mp hmore
    obtain ⟨more'', -, rfl⟩ :=
      (whole_and_word or_mem hrest.no_comparator).mp (whole_more_and.mp hb)
    have hword (w : String) (ts : List (Conj × Term)) :
        (ps ++ if ps = [] then [] else [.op .and]) ++ [.text w] <+:
          textPartsFrom ps (conjoined ((.and, .freeText w) :: ts)) := by
      rw [← addPart_and]
      exact prefix_first .and (.freeText w) ts ps
    exact spelled_ne (hword "and" _) (hword "or" _) (by decide)
  | @pair ls _ ih =>
    obtain ⟨more, hmore, rfl⟩ := (whole_and_word and_mem rfl).mp ha
    have hrest := whole_more_and.mp hmore
    obtain ⟨more', hmore', rfl⟩ :=
      (whole_and_word and_mem hrest.no_comparator).mp (whole_more_and.mp hb)
    exact ih hrest hmore' (fun x hx => hor x (List.mem_cons_of_mem _ hx)) _

/-! ### A stage at the front -/

theorem joined_exprOf (t : Term) (more : List (Conj × Term)) :
    (exprOf ((.and, t) :: more)).joined = (none, t) :: conjoined more := by
  simp only [BoolExpr.joined, exprOf, conjoined, List.map_cons, List.tail_cons,
    List.zip_cons_cons, List.map_map]
  rw [List.zip_map']
  rfl

theorem textParts_exprOf (ha : Whole parseAndTerms ls a) :
    (exprOf a).textParts = textPartsFrom [] (conjoined a) := by
  obtain ⟨t, -, more, -, -, rfl⟩ := parseAndTerms_iff.mp ha
  rw [BoolExpr.textParts, joined_exprOf]
  cases t with
  | comparison field op value => rfl
  | timeBound kind expr => rfl
  | freeText query => rfl

/-- Only `where` has texts. -/
theorem whole_stage_texts {kw : String} (h : Whole parsePipeStage (word kw :: ls) p) :
    p.textParts = [] ∨
      kw = "where" ∧ ∃ a, Whole parseAndTerms ls a ∧ p = .whereStage (exprOf a) := by
  obtain ⟨ls', hls⟩ := whole_stage_keyword h
  have hkw : kw = p.keyword := congrArg Prod.snd (List.cons.inj hls).1
  cases p with
  | whereStage e =>
    obtain rfl : kw = "where" := hkw
    exact .inr ⟨rfl, whole_where.mp h⟩
  | statsStage aggs by_ | sortStage fields | fieldsStage fields | headStage n | tailStage n =>
    exact .inl rfl

/-- A stage that is read as words leaves its keyword among them. -/
theorem stage_texts_ne {kw : String} (hkw : isPipeStageKeyword kw = true)
    (hls : isComparatorStart (cur (bare ls ++ atEnd)).kind = false) {b : List (Conj × Term)}
    (hp : Whole parsePipeStage (word kw :: ls) p) (hb : Whole parseMoreTerms (word kw :: ls) b) :
    spelled p.textParts ≠ spelled (textPartsFrom [] (conjoined b)) := by
  have hword : kw ∉ ["earliest", "latest", "message"] ∧ isConjWord (word kw) = false := by
    simp only [isPipeStageKeyword, Bool.or_eq_true, beq_iff_eq] at hkw
    rcases hkw with ((((rfl | rfl) | rfl) | rfl) | rfl) | rfl <;> exact ⟨by decide, by decide⟩
  have hplain : Plain (word kw :: ls) := by
    intro l hl
    cases hl
    exact hword.2
  have hconj : conjunction (bare (word kw :: ls) ++ atEnd) =
      some (.and, bare (word kw :: ls) ++ atEnd) := conjunction_of_plain hplain (.inl rfl)
  obtain ⟨more, hmore, rfl⟩ := (whole_and_word hword.1 hls).mp ((parseMoreTerms_and hconj).mp hb)
  have hfirst := prefix_first .and (.freeText kw) more []
  rcases whole_stage_texts hp with hnil | ⟨rfl, a, ha, rfl⟩
  · rw [hnil]
    obtain ⟨rest, hrest⟩ := hfirst
    rw [← hrest, spelled_append]
    intro hspelled
    have hempty := (List.append_eq_nil_iff.mp hspelled.symm).1
    simp [spelled, addPart] at hempty
  · rw [show PipeStage.textParts (.whereStage (exprOf a)) = (exprOf a).textParts from rfl,
      textParts_exprOf ha]
    rcases plain_or_conj ls with hls | ⟨ls', rfl⟩ | ⟨ls', rfl⟩
    · obtain rfl := (whole_more_of_plain hls ha).unique hmore
      have hlonger := @spelled_length_textPartsFrom [.text "where"] [] 1
        (List.cons_ne_nil _ _) (by decide) (conjoined a)
      intro heq
      have hlen := congrArg List.length heq
      have hsplit : textPartsFrom [] (conjoined ((.and, .freeText "where") :: a)) =
        textPartsFrom [.text "where"] (conjoined a) := rfl
      rw [hsplit] at hlen
      omega
    · have hrest := whole_more_and.mp hmore
      obtain ⟨more', -, rfl⟩ := (whole_and_word and_mem hrest.no_comparator).mp ha
      exact @spelled_ne [] _ _ _ _ (prefix_first .and (.freeText "and") more' []) hfirst (by decide)
    · obtain ⟨t, rest, hrest, rfl⟩ := whole_more_or.mp hmore
      obtain ⟨more', -, rfl⟩ := (whole_and_word or_mem hrest.no_comparator).mp ha
      exact @spelled_ne [] _ _ _ _ (prefix_first .and (.freeText "or") more' []) hfirst (by decide)

/-! ### Plans -/

def TimeRange.bound (r : TimeRange) : BoundKind → ℤ
  | .earliest => r.from_
  | .latest => r.to_

/-- The time range a plan starts from has no part in what a term adds, nor in whether it can. -/
theorem compileTerm_retime {conj : Option Conj} {t : Term} {parts : List String}
    (h : compileTerm now conj t parts plan = .ok (parts', plan')) (r : TimeRange) :
    ∃ r', compileTerm now conj t parts { plan with timeRange := some r } =
      .ok (parts', { plan' with timeRange := some r' }) := by
  cases t with
  | comparison field op value =>
    simp only [compileTerm] at h ⊢
    split at h
    · cases h
    · rename_i hor
      cases h
      exact ⟨r, if_neg hor⟩
  | timeBound kind expr =>
    simp only [compileTerm] at h ⊢
    split at h
    · cases h
    · rename_i hor
      obtain ⟨plan₁, happly, h⟩ := bind_eq_ok.mp h
      obtain ⟨t, ht, hset⟩ := bind_eq_ok.mp happly
      cases hset
      cases h
      refine ⟨setBound kind t r, ?_⟩
      rw [if_neg hor, applyTimeBound, ht]
      rfl
  | freeText query =>
    cases h
    exact ⟨r, rfl⟩

theorem compileTerms_retime {ts : List (Option Conj × Term)} {parts : List String}
    (h : compileTerms now ts parts plan = .ok (parts', plan')) (r : TimeRange) :
    ∃ r', compileTerms now ts parts { plan with timeRange := some r } =
      .ok (parts', { plan' with timeRange := some r' }) := by
  induction ts generalizing parts plan r with
  | nil =>
    cases h
    exact ⟨r, rfl⟩
  | cons x ts ih =>
    obtain ⟨⟨parts₁, plan₁⟩, hx, hts⟩ := bind_eq_ok.mp h
    obtain ⟨r₁, hr₁⟩ := compileTerm_retime hx r
    obtain ⟨r₂, hr₂⟩ := ih hts r₁
    exact ⟨r₂, bind_eq_ok.mpr ⟨_, hr₁, hr₂⟩⟩

theorem compileStage_retime {parts : List String}
    (h : compileStage now p parts plan = .ok (parts', plan')) (r : TimeRange) :
    ∃ r', compileStage now p parts { plan with timeRange := some r } =
      .ok (parts', { plan' with timeRange := some r' }) := by
  cases p with
  | whereStage e =>
    obtain ⟨⟨more, plan₁⟩, he, h⟩ := bind_eq_ok.mp h
    cases h
    obtain ⟨r₁, hr₁⟩ := compileTerms_retime he r
    exact ⟨r₁, bind_eq_ok.mpr ⟨_, hr₁, rfl⟩⟩
  | statsStage aggs by_ =>
    obtain ⟨agg, hagg, h⟩ := bind_eq_ok.mp h
    cases h
    exact ⟨r, bind_eq_ok.mpr ⟨_, hagg, rfl⟩⟩
  | sortStage fields | fieldsStage fields | headStage n | tailStage n =>
    cases h
    exact ⟨r, rfl⟩

theorem compileStages_retime {parts : List String}
    (h : compileStages now ps parts plan = .ok (parts', plan')) (r : TimeRange) :
    ∃ r', compileStages now ps parts { plan with timeRange := some r } =
      .ok (parts', { plan' with timeRange := some r' }) := by
  induction ps generalizing parts plan r with
  | nil =>
    cases h
    exact ⟨r, rfl⟩
  | cons p ps ih =>
    obtain ⟨⟨parts₁, plan₁⟩, hp, hps⟩ := bind_eq_ok.mp h
    obtain ⟨r₁, hr₁⟩ := compileStage_retime hp r
    obtain ⟨r₂, hr₂⟩ := ih hps r₁
    exact ⟨r₂, bind_eq_ok.mpr ⟨_, hr₁, hr₂⟩⟩

theorem compileTerms_append {ts us : List (Option Conj × Term)} {parts : List String} :
    compileTerms now (ts ++ us) parts plan =
      (compileTerms now ts parts plan).bind (fun x => compileTerms now us x.1 x.2) := by
  induction ts generalizing parts plan with
  | nil => rfl
  | cons x ts ih =>
    obtain ⟨conj, t⟩ := x
    simp only [List.cons_append, compileTerms]
    cases compileTerm now conj t parts plan with
    | error e => rfl
    | ok y => exact ih

/-- An `and` in front of the first term changes nothing. -/
theorem compileBoolExpr_exprOf (now : ℤ) (t : Term) (more : List (Conj × Term)) (plan : Plan) :
    compileBoolExpr now (exprOf ((.and, t) :: more)) plan =
      compileTerms now (conjoined ((.and, t) :: more)) [] plan := by
  have hfirst (parts : List String) :
      compileTerm now none t parts plan = compileTerm now (some .and) t parts plan := by
    cases t with
    | comparison field op value => rfl
    | timeBound kind expr => rfl
    | freeText query => rfl
  rw [compileBoolExpr, joined_exprOf]
  simp only [compileTerms, conjoined, List.map_cons, hfirst]

section Clauses
/-- The time range that clauses set. -/
def rangeOf (cs : List (Clause now)) : TimeRange :=
  cs.foldl (fun r c => setBound c.kind c.time r) ⟨zeroTime, zeroTime⟩

theorem compileTerm_clause (c : Clause now) (parts : List String) (plan : Plan) :
    compileTerm now (some .and) c.term.2 parts plan = .ok (parts, { plan with
      timeRange := some (setBound c.kind c.time (plan.timeRange.getD ⟨zeroTime, zeroTime⟩)) }) := by
  simp only [Clause.term, compileTerm, applyTimeBound, c.resolves]
  rfl

theorem compileTerms_clauses (cs : List (Clause now)) (parts : List String) (plan : Plan)
    (r : TimeRange) :
    compileTerms now (conjoined (cs.map Clause.term)) parts { plan with timeRange := some r } =
      .ok (parts, { plan with
        timeRange := some (cs.foldl (fun r c => setBound c.kind c.time r) r) }) := by
  induction cs generalizing r with
  | nil => rfl
  | cons c cs ih => exact bind_eq_ok.mpr ⟨_, compileTerm_clause c parts _, ih _⟩

theorem compileTerms_rangeOf (c : Clause now) (cs : List (Clause now)) :
    compileTerms now (conjoined ((c :: cs).map Clause.term)) [] emptyPlan =
      .ok ([], { emptyPlan with timeRange := some (rangeOf (c :: cs)) }) :=
  bind_eq_ok.mpr ⟨_, compileTerm_clause c [] emptyPlan, compileTerms_clauses cs [] emptyPlan _⟩

/-- A search behind the clauses adds to the plan what it adds alone. -/
theorem compileQuery_behind (c : Clause now) (cs : List (Clause now)) {t : Term}
    {more : List (Conj × Term)} (h : compileQuery now ⟨exprOf ((.and, t) :: more), ps⟩ = .ok plan) :
    ∃ r, compileQuery now ⟨exprOf ((c :: cs).map Clause.term ++ (.and, t) :: more), ps⟩ =
      .ok { plan with timeRange := some r } := by
  obtain ⟨⟨parts, plan₁⟩, hb, h⟩ := bind_eq_ok.mp h
  obtain ⟨⟨parts', plan₂⟩, hps, h⟩ := bind_eq_ok.mp h
  rw [compileBoolExpr_exprOf] at hb
  obtain ⟨r₁, hr₁⟩ := compileTerms_retime hb (rangeOf (c :: cs))
  obtain ⟨r₂, hr₂⟩ := compileStages_retime hps r₁
  have hbase : compileBoolExpr now (exprOf ((c :: cs).map Clause.term ++ (.and, t) :: more))
      emptyPlan = .ok (parts, { plan₁ with timeRange := some r₁ }) := by
    have hexpr := compileBoolExpr_exprOf now c.term.2 (cs.map Clause.term ++ (.and, t) :: more)
      emptyPlan
    refine hexpr.trans ?_
    have hsplit : conjoined ((.and, c.term.2) :: (cs.map Clause.term ++ (.and, t) :: more)) =
        conjoined ((c :: cs).map Clause.term) ++ conjoined ((.and, t) :: more) := by
      rw [conjoined, conjoined, conjoined, ← List.map_append]
      rfl
    rw [hsplit, compileTerms_append, compileTerms_rangeOf]
    exact hr₁
  refine ⟨r₂, bind_eq_ok.mpr ⟨_, hbase, bind_eq_ok.mpr ⟨_, hr₂, ?_⟩⟩⟩
  dsimp only at h ⊢
  split at h
  · rename_i hnil
    cases h
    rw [if_pos hnil]
  · rename_i hne
    cases h
    rw [if_neg hne]

/-- A query that takes bounds `r` in front: it begins with a search, it does not begin with a
conjunction that a term in front would make one, and a bound that `r` sets is not set again. -/
structure TakesBounds (now : ℤ) (input : String) (r : TimeRange) : Prop where
  search : atPipeStageKeyword (tokens input) = false
  paired : Paired (lexed input.toList)
  unset :
    ∀ q, parse input = .ok q → ∀ kind, r.bound kind ≠ zeroTime → boundsOf now kind q.terms = []

theorem leadingConjs_segments (h : Segments ls part parts) :
    leadingConjs ls = leadingConjs part := by
  rw [h.text, leadingConjs, leadingConjs]
  cases parts with
  | nil => simp
  | cons p parts =>
    rw [List.takeWhile_append]
    split
    · rename_i hall
      have heq := (List.takeWhile_prefix isConjWord).eq_of_length hall
      rw [heq]
      simp [isConjWord, symbol, word]
    · rfl

theorem Segments.clauses (cs : List (Clause now)) (h : Segments ls part parts) :
    Segments (cs.flatMap Clause.lexemes ++ ls) (cs.flatMap Clause.lexemes ++ part) parts := by
  refine ⟨by rw [h.text, List.append_assoc], ?_, h.rest⟩
  intro l hl
  rcases List.mem_append.mp hl with hl | hl
  · obtain ⟨c, -, hl⟩ := List.mem_flatMap.mp hl
    rcases List.mem_cons.mp hl with rfl | hl
    · rfl
    · rcases List.mem_cons.mp hl with rfl | hl
      · rfl
      · exact c.isTime.unstopped l hl
  · exact h.first l hl

theorem atPipeStageKeyword_part (h : Segments (lexed input.toList) part parts) :
    atPipeStageKeyword (tokens input) = atPipeStageKeyword (bare part ++ atEnd) := by
  have hlex := tokensFrom_lexed input.toList.length input.toList
  rw [h.text, List.append_assoc] at hlex
  obtain ⟨T, r, hT, hpart, hr⟩ := List.map_eq_append_iff.mp hlex
  have hstops : Stops r := by
    cases parts with
    | nil =>
      rw [Stops, (cur_of_lexemes hr).1]
      rfl
    | cons p parts =>
      rw [Stops, (cur_of_lexemes hr).1]
      rfl
  have halike : Alike r atEnd (T ++ r) (bare part ++ atEnd) :=
    alike_of_part (by rw [bare_lexemes, hpart]) (hpart ▸ h.first) hstops stops_atEnd
  rw [tokens, hT]
  exact (atPipeStageKeyword_iff halike).symm

theorem whole_start_search (hsearch : atPipeStageKeyword (bare part ++ atEnd) = false) :
    Whole parseStart part q ↔ ∃ a, Whole parseAndTerms part a ∧ q = ⟨exprOf a, []⟩ := by
  rw [Whole, parseStart, if_neg (by rw [hsearch]; exact Bool.false_ne_true)]
  exact whole_boolExpr (Query.mk · [])

theorem whole_start_stage (hstage : atPipeStageKeyword (bare part ++ atEnd) = true) :
    Whole parseStart part q ↔ ∃ p, Whole parsePipeStage part p ∧ q = ⟨BoolExpr.empty, [p]⟩ := by
  rw [Whole, parseStart, if_pos hstage, bind_eq_ok]
  constructor
  · rintro ⟨⟨p, r⟩, hp, h⟩
    cases h
    exact ⟨p, hp, rfl⟩
  · rintro ⟨p, hp, rfl⟩
    exact ⟨(p, atEnd), hp, rfl⟩

theorem keyword_of_atPipeStageKeyword (h : atPipeStageKeyword (bare part ++ atEnd) = true) :
    ∃ kw ls, part = word kw :: ls ∧ isPipeStageKeyword kw = true ∧
      isComparatorStart (cur (bare ls ++ atEnd)).kind = false := by
  unfold atPipeStageKeyword at h
  split at h
  · cases h
  · rename_i hcond
    rw [not_or, not_not, Bool.not_eq_true] at hcond
    cases part with
    | nil => cases hcond.1
    | cons l ls =>
      have hl : l = word l.2 := Prod.ext hcond.1 rfl
      exact ⟨l.2, ls, by rw [← hl], h, hcond.2⟩

theorem whole_all_unique {α : Type} {f : List Token → Except SyntaxError (α × List Token)}
    {as bs : List α} (ha : List.Forall₂ (Whole f) parts as) (hb : List.Forall₂ (Whole f) parts bs) :
    as = bs := by
  induction ha generalizing bs with
  | nil =>
    cases hb
    rfl
  | cons h _ ih =>
    cases hb with
    | cons h' hb => rw [h.unique h', ih hb]

theorem slot_of_unbounded (h : plan.hasTimeBound = false) (kind : BoundKind) :
    plan.slot kind = zeroTime := by
  unfold Plan.hasTimeBound at h
  unfold Plan.slot
  cases hr : plan.timeRange with
  | none => cases kind <;> rfl
  | some r =>
    rw [hr] at h
    simp at h
    cases kind
    · exact h.1
    · exact h.2

/-- A structured term has no `or` in front. -/
theorem compileTerms_or {ts : List (Conj × Term)} {parts : List String} {x : List String × Plan}
    (h : compileTerms now (conjoined ts) parts plan = .ok x) :
    ∀ y ∈ ts, y.1 = .or → ∃ s, y.2 = .freeText s := by
  induction ts generalizing parts plan with
  | nil => exact nofun
  | cons y ts ih =>
    obtain ⟨⟨parts₁, plan₁⟩, hy, hts⟩ := bind_eq_ok.mp h
    intro z hz hor
    rcases List.mem_cons.mp hz with rfl | hz
    · obtain ⟨c, t⟩ := z
      obtain rfl : c = .or := hor
      cases t with
      | comparison field op value => cases hy
      | timeBound kind expr => cases hy
      | freeText s => exact ⟨s, rfl⟩
    · exact ih hts z hz hor

theorem compilePipe_eq_ok : compilePipe input now = .ok plan ↔
    ∃ q, parse input = .ok q ∧ compileQuery now q = .ok plan := by
  unfold compilePipe
  cases parse input with
  | error e => simp
  | ok q => simp

theorem parse_clauses_iff (c : Clause now) (cs : List (Clause now)) {input' : String}
    (hseg : Segments (lexed input.toList) part parts)
    (hps : List.Forall₂ (Whole parsePipeStage) parts ps)
    (hlex : lexed input'.toList = (c :: cs).flatMap Clause.lexemes ++ lexed input.toList) :
    parse input' = .ok q ↔ ∃ more, Whole parseMoreTerms part more ∧
      q = ⟨exprOf ((c :: cs).map Clause.term ++ more), ps⟩ := by
  have hseg' := hseg.clauses (c :: cs)
  rw [← hlex] at hseg'
  rw [hseg'.parse_iff]
  constructor
  · rintro ⟨q₀, ps', hstart, hps', rfl⟩
    obtain rfl := whole_all_unique hps hps'
    obtain ⟨more, hmore, rfl⟩ := (whole_start_clauses c cs).mp hstart
    exact ⟨more, hmore, rfl⟩
  · rintro ⟨more, hmore, rfl⟩
    exact ⟨_, ps, (whole_start_clauses c cs).mpr ⟨more, hmore, rfl⟩, hps, rfl⟩

/-- Clauses have no texts. -/
theorem textParts_clauses (c : Clause now) (cs : List (Clause now)) (more : List (Conj × Term)) :
    (exprOf ((c :: cs).map Clause.term ++ more)).textParts =
      textPartsFrom [] (conjoined more) := by
  have hrest (cs : List (Clause now)) :
      textPartsFrom [] (conjoined (cs.map Clause.term ++ more)) =
        textPartsFrom [] (conjoined more) := by
    induction cs with
    | nil => rfl
    | cons c cs ih => exact ih
  have hjoined := joined_exprOf c.term.2 (cs.map Clause.term ++ more)
  exact (congrArg (textPartsFrom []) hjoined).trans (hrest cs)

/-- If the text search is the same behind the clauses, then every word has kept its part. -/
theorem search_of_same_text (c : Clause now) (cs : List (Clause now)) {q₀ : Query}
    {more : List (Conj × Term)} (hstart : Whole parseStart part q₀)
    (hmore : Whole parseMoreTerms part more)
    (h : compileQuery now ⟨q₀.base, q₀.pipes ++ ps⟩ = .ok plan)
    (h' : compileQuery now ⟨exprOf ((c :: cs).map Clause.term ++ more), ps⟩ = .ok plan')
    (htext : plan.textSearch = plan'.textSearch) :
    atPipeStageKeyword (bare part ++ atEnd) = false ∧ Opening part := by
  have hspelled := spelled_of_textSearch h h' htext
  simp only [Query.textParts, textParts_clauses, List.flatMap_append, spelled_append,
    ← List.append_assoc, List.append_cancel_right_eq] at hspelled
  have hor : ∀ x ∈ more, x.1 = .or → ∃ s, x.2 = .freeText s := by
    obtain ⟨x, hbase, -⟩ := bind_eq_ok.mp h'
    have hexpr := compileBoolExpr_exprOf now c.term.2 (cs.map Clause.term ++ more) emptyPlan
    have hall := compileTerms_or (hexpr.symm.trans hbase)
    intro y hy
    exact hall y (List.mem_cons_of_mem _ (List.mem_append_right _ hy))
  cases hstage : atPipeStageKeyword (bare part ++ atEnd) with
  | true =>
    obtain ⟨p, hp, rfl⟩ := (whole_start_stage hstage).mp hstart
    obtain ⟨kw, ls, rfl, hkw, hls⟩ := keyword_of_atPipeStageKeyword hstage
    rw [show spelled BoolExpr.empty.textParts = [] from rfl, List.nil_append,
      List.flatMap_singleton] at hspelled
    exact absurd hspelled (stage_texts_ne hkw hls hp hmore)
  | false =>
    obtain ⟨a, ha, rfl⟩ := (whole_start_search hstage).mp hstart
    refine ⟨rfl, (opening_or_misread part).resolve_right fun hmis => ?_⟩
    refine hmis.texts_ne ha hmore hor [] ?_
    rw [← textParts_exprOf ha]
    rw [List.flatMap_nil, show spelled [] = [] from rfl, List.append_nil] at hspelled
    exact hspelled

theorem slot_some (plan : Plan) (r : TimeRange) (kind : BoundKind) :
    Plan.slot { plan with timeRange := some r } kind = r.bound kind := by
  cases kind <;> rfl

/-- Bounds that end in an unset slot leave one alone only if there are none. -/
theorem lastOr_eq_iff {z t : ℤ} {ts : List ℤ} (hts : lastOr z ts = z) :
    lastOr t ts = t ↔ (t ≠ z → ts = []) := by
  cases ts using List.reverseRecOn with
  | nil => exact iff_of_true rfl (fun _ => rfl)
  | append_singleton xs x =>
    simp only [lastOr, List.getLast?_concat, Option.getD_some] at hts ⊢
    rw [hts]
    constructor
    · intro hz hne
      exact absurd hz.symm hne
    · intro h
      by_contra hne
      have hnil := h (fun heq => hne heq.symm)
      simp at hnil

/-- Time bounds in front of a query set the time range and nothing else just if the query takes
them. -/
theorem compilePipe_clauses_iff {input' : String} (h : compilePipe input now = .ok plan)
    (hplan : plan.hasTimeBound = false) (c : Clause now) (cs : List (Clause now))
    (hlex : lexed input'.toList = (c :: cs).flatMap Clause.lexemes ++ lexed input.toList) :
    compilePipe input' now = .ok { plan with timeRange := some (rangeOf (c :: cs)) } ↔
      TakesBounds now input (rangeOf (c :: cs)) := by
  obtain ⟨q, hparse, hcompile⟩ := compilePipe_eq_ok.mp h
  obtain ⟨part, parts, q₀, ps, hseg, hstart, hps, rfl⟩ := parse_iff_segments.mp hparse
  have hstage := atPipeStageKeyword_part hseg
  have hconjs := leadingConjs_segments hseg
  have hparse' {q : Query} := parse_clauses_iff (q := q) c cs hseg hps hlex
  -- Behind a search that keeps its words the bounds of both are in the plan.
  have hbehind (hsearch : atPipeStageKeyword (bare part ++ atEnd) = false)
      (hopening : Opening part) :
      ∃ r, compilePipe input' now = .ok { plan with timeRange := some r } ∧ ∀ kind,
        r.bound kind = lastOr ((rangeOf (c :: cs)).bound kind)
          (boundsOf now kind (Query.terms ⟨q₀.base, q₀.pipes ++ ps⟩)) := by
    obtain ⟨a, ha, rfl⟩ := (whole_start_search hsearch).mp hstart
    have hparsed := hparse'.mpr ⟨a, hopening.more ha, rfl⟩
    obtain ⟨t, -, more, -, -, rfl⟩ := parseAndTerms_iff.mp ha
    obtain ⟨r, hr⟩ := compileQuery_behind c cs hcompile
    refine ⟨r, compilePipe_eq_ok.mpr ⟨_, hparsed, hr⟩, fun kind => ?_⟩
    have hslots := (compileQuery_collected (parse_ok_wellFormed hparsed).1 hr).slots kind
    have hrange := (compileTerms_collected (compileTerms_rangeOf c cs)).slots kind
    have hterms : Query.terms ⟨exprOf ((c :: cs).map Clause.term ++ (.and, t) :: more), ps⟩ =
        ((c :: cs).map Clause.term).map Prod.snd ++
          Query.terms ⟨exprOf ((.and, t) :: more), ps⟩ := by
      simp [Query.terms, exprOf]
    rw [slot_some, hterms, boundsOf, List.flatMap_append, lastOr_append] at hslots
    rw [slot_some, map_snd_conjoined] at hrange
    rw [hslots, hrange]
    rfl
  have hbounds (kind : BoundKind) : lastOr zeroTime
      (boundsOf now kind (Query.terms ⟨q₀.base, q₀.pipes ++ ps⟩)) = zeroTime := by
    have hslot := (compileQuery_collected (parse_ok_wellFormed hparse).1 hcompile).slots kind
    rw [slot_of_unbounded hplan kind] at hslot
    cases kind with
    | earliest => exact hslot.symm
    | latest => exact hslot.symm
  constructor
  · intro hcompile'
    obtain ⟨q', hq', hplan'⟩ := compilePipe_eq_ok.mp hcompile'
    obtain ⟨more, hmore, rfl⟩ := hparse'.mp hq'
    obtain ⟨hsearch, hopening⟩ := search_of_same_text c cs hstart hmore hcompile hplan' rfl
    obtain ⟨r, hr, hslots⟩ := hbehind hsearch hopening
    obtain rfl : rangeOf (c :: cs) = r := by
      have heq := congrArg Plan.timeRange (Except.ok.inj (hcompile'.symm.trans hr))
      exact Option.some.inj heq
    refine ⟨hstage.trans hsearch, ?_, ?_⟩
    · have hpaired := hopening.paired
      exact ⟨by rw [hconjs]; exact hpaired.ands, by rw [hconjs]; exact hpaired.even⟩
    · intro q hq kind
      rw [hparse] at hq
      cases hq
      exact (lastOr_eq_iff (hbounds kind)).mp (hslots kind).symm
  · intro htakes
    have hpaired : Paired part :=
      ⟨hconjs ▸ htakes.paired.ands, hconjs ▸ htakes.paired.even⟩
    have hopening := (opening_or_misread part).resolve_right fun hmis => hmis.not_paired hpaired
    obtain ⟨r, hr, hslots⟩ := hbehind (hstage.symm.trans htakes.search) hopening
    have hsame (kind : BoundKind) : r.bound kind = (rangeOf (c :: cs)).bound kind := by
      rw [hslots kind, (lastOr_eq_iff (hbounds kind)).mpr (htakes.unset _ hparse kind)]
    obtain rfl : r = rangeOf (c :: cs) := by
      have hfrom := hsame .earliest
      have hto := hsame .latest
      cases r
      exact congrArg₂ TimeRange.mk hfrom hto
    exact hr

end Clauses

end CairnObs.QueryLang
