import CairnObs.QueryStatement
import CairnObs.SqlPieces

/-! The text that `buildSQL` writes is read as the tokens of the plan's statement. -/
namespace CairnObs.QueryLang
open SqlLexer (SqlToken Lexes Separates Trails isWord lexes_intercalate lexes_operator lexes_symbol
  lexes_word separates_punct separates_space trails_nil)

/-! ### The pieces `buildSQL` writes -/

/-- A name that the lexer of the query language lets through. -/
def isName (s : String) : Bool := s.toList.all isIdentPart

theorem ne_of_isIdentPart {c : Char} (h : isIdentPart c = true) (d : Char)
    (hd : isIdentPart d = false) : c ≠ d := by
  intro he
  rw [he, hd] at h
  cases h

theorem lexes_quoteIdent (name : String) (h : isName name = true) :
    Lexes (quoteIdent name).toList [.ident name] := by
  have hpart : ∀ c ∈ name.toList, isIdentPart c = true := by simpa [isName] using h
  -- no backtick is there to be doubled
  have hsame :
      name.toList.flatMap (fun c => if c = '`' then ['`', '`'] else [c]) = name.toList := by
    conv_rhs => rw [← List.flatMap_singleton' name.toList]
    apply List.flatMap_congr
    intro c hc
    rw [if_neg (ne_of_isIdentPart (hpart c hc) '`' rfl)]
  have hlexes := SqlLexer.lexes_ident name (fun c hc =>
    ⟨ne_of_isIdentPart (hpart c hc) '`' rfl, ne_of_isIdentPart (hpart c hc) '\\' rfl⟩)
  simpa [quoteIdent, hsame] using hlexes

theorem lexes_quoteLiteral (s : String) : Lexes (quoteLiteral s).toList [.literal s] := by
  simpa [quoteLiteral] using SqlLexer.lexes_literal s

theorem isName_of_isTopLevel {field : String} (h : isTopLevel field = true) :
    isName field = true := by
  simp only [isTopLevel, List.contains_eq_mem, decide_eq_true_eq] at h
  revert field
  decide

theorem lexes_columnExpr (field : String) :
    Lexes (columnExpr field).toList (columnOf field).tokens := by
  by_cases h : isTopLevel field = true
  · simpa [columnExpr, columnOf, h, Expr.tokens] using
      lexes_quoteIdent field (isName_of_isTopLevel h)
  · have hword : Lexes "attributes".toList [.word "attributes"] := lexes_word (by decide)
    have hopen : Separates ['['] [.symbol "["] :=
      separates_punct (by decide) (by decide) (by decide)
    have hclose : Separates [']'] [.symbol "]"] :=
      separates_punct (by decide) (by decide) (by decide)
    have := (hword.separated hopen (lexes_quoteLiteral field)).append hclose.trails
    simpa [columnExpr, columnOf, h, Expr.tokens] using this

theorem separates_open : Separates ['('] [.symbol "("] :=
  separates_punct (by decide) (by decide) (by decide)

theorem separates_close : Separates [')'] [.symbol ")"] :=
  separates_punct (by decide) (by decide) (by decide)

variable {ts : List (SqlToken String)} {cs : List Char}

/-- A function's name with an argument in brackets. -/
theorem lexes_call (name : String) (hname : isWord name = true) {arg : List Char}
    (harg : Lexes arg ts) :
    Lexes (name.toList ++ '(' :: arg ++ [')'])
      ([.word name, .symbol "("] ++ ts ++ [.symbol ")"]) := by
  have := ((lexes_word hname).separated separates_open harg).append separates_close.trails
  simpa using this

theorem lexes_opText (op : Op) : Lexes op.text.toList [.symbol op.text] := by
  cases op with
  | eq => exact lexes_symbol (c := '=') (by decide) (by decide)
  | neq => exact lexes_operator (c := '!') (d := '=') (by decide) (by decide)
  | gt => exact lexes_symbol (c := '>') (by decide) (by decide)
  | gte => exact lexes_operator (c := '>') (d := '=') (by decide) (by decide)
  | lt => exact lexes_symbol (c := '<') (by decide) (by decide)
  | lte => exact lexes_operator (c := '<') (d := '=') (by decide) (by decide)

/-- An operand, a comparison and a value with blanks between them. -/
theorem lexes_comparison {e v : List Char} {us : List (SqlToken String)} (he : Lexes e ts) (op : Op)
    (hv : Lexes v us) :
    Lexes (e ++ ' ' :: op.text.toList ++ ' ' :: v) (ts ++ [.symbol op.text] ++ us) := by
  have := (he.separated separates_space (lexes_opText op)).separated
    separates_space hv
  simpa using this

theorem isUnsignedLiteral_cases (h : isUnsignedLiteral cs = true) :
    ∃ ds, ds ≠ [] ∧ (∀ d ∈ ds, d.isDigit = true) ∧
      (cs = ds ∨ ∃ es, (∀ e ∈ es, e.isDigit = true) ∧ cs = ds ++ '.' :: es) := by
  have hsplit := List.takeWhile_append_dropWhile (p := isDigit) (l := cs)
  unfold isUnsignedLiteral at h
  simp only [Bool.and_eq_true, Bool.not_eq_true', List.isEmpty_eq_false_iff] at h
  refine ⟨cs.takeWhile isDigit, h.1, ?_, ?_⟩
  · intro d hd
    rw [← isDigit_eq]
    exact List.all_eq_true.mp List.all_takeWhile d hd
  · have hrest := h.2
    split at hrest
    · rename_i hnil
      left
      rw [hnil, List.append_nil] at hsplit
      exact hsplit.symm
    · rename_i d rest hdot
      right
      refine ⟨d :: rest, ?_, ?_⟩
      · rw [isDigit_eq] at hrest
        simpa using hrest
      · rw [hdot] at hsplit
        exact hsplit.symm
    · cases hrest

theorem isUnsignedLiteral_head (h : isUnsignedLiteral cs = true) :
    ∃ c rest, cs = c :: rest ∧ c.isDigit = true := by
  obtain ⟨ds, hne, hds, hcs⟩ := isUnsignedLiteral_cases h
  obtain ⟨d, ds, rfl⟩ := List.exists_cons_of_ne_nil hne
  have hd := hds d List.mem_cons_self
  rcases hcs with rfl | ⟨es, _, rfl⟩
  · exact ⟨d, ds, rfl, hd⟩
  · exact ⟨d, ds ++ '.' :: es, rfl, hd⟩

theorem lexes_unsigned (h : isUnsignedLiteral cs = true) :
    Lexes cs [.number (String.ofList cs)] := by
  obtain ⟨c, rest, hcons, hc⟩ := isUnsignedLiteral_head h
  obtain ⟨ds, hne, hds, hcs⟩ := isUnsignedLiteral_cases h
  apply SqlLexer.lexes_number (by simp [hcons])
  · intro rest hrest
    rcases hcs with rfl | ⟨es, hes, rfl⟩
    · exact SqlLexer.number_digits hne hds hrest
    · exact SqlLexer.number_fraction hne hds hes hrest
  · simpa [hcons] using hc

theorem lexes_numeric {s : String} (h : isNumericLiteral s = true) :
    Lexes s.toList
      (Value.number (splitSign s).1 (String.ofList (splitSign s).2)).tokens := by
  unfold isNumericLiteral splitSign at *
  split at h
  · rename_i cs hs
    obtain ⟨c, rest, rfl, hc⟩ := isUnsignedLiteral_head h
    rw [hs]
    exact (lexes_unsigned h).minus hc
  · exact lexes_unsigned h

theorem lexes_buildComparisonSQL (f : FilterPredicate) :
    Lexes (buildComparisonSQL f).toList (comparisonOf f).tokens := by
  unfold buildComparisonSQL comparisonOf
  split
  · rename_i h
    simp only [Bool.and_eq_true] at h
    have hcall := lexes_call "toFloat64OrZero" (by decide) (lexes_columnExpr f.field)
    have := lexes_comparison hcall f.op (lexes_numeric h.2)
    simpa [Cond.tokens, Expr.tokens] using this
  · have := lexes_comparison (lexes_columnExpr f.field) f.op (lexes_quoteLiteral f.value)
    simpa [Cond.tokens, Value.tokens] using this

theorem lexes_aggExpr (f : Aggregate) : Lexes (aggExpr f).toList (aggregateOf f).tokens := by
  have hupper : isWord f.func.upper = true := by cases f.func <;> decide
  unfold aggExpr aggregateOf
  split
  · have hcount : Lexes "count".toList [.word "count"] := lexes_word (by decide)
    exact hcount.append (separates_open.append separates_close).trails
  · split
    · simpa [Expr.tokens] using lexes_call f.func.upper hupper (lexes_columnExpr f.field)
    · have hcast := lexes_call "toFloat64OrZero" (by decide) (lexes_columnExpr f.field)
      simpa [Expr.tokens] using lexes_call f.func.upper hupper hcast

/-- A keyword with blanks around it. -/
theorem separates_keyword {w : String} (h : isWord w = true) :
    Separates (' ' :: w.toList ++ [' ']) [.word w] :=
  separates_space.between (lexes_word h) separates_space

theorem separates_commaSpace : Separates [',', ' '] [.symbol ","] :=
  (separates_punct (c := ',') (by decide) (by decide) (by decide)).append
    separates_space

theorem lexes_item {e name : String} (he : Lexes e.toList ts) (hname : isName name = true) :
    Lexes (e ++ " AS " ++ quoteIdent name).toList (ts ++ [.word "AS", .ident name]) := by
  have := he.separated (separates_keyword (w := "AS") (by decide)) (lexes_quoteIdent name hname)
  simpa using this

/-- The names of the output columns can be written as identifiers. -/
structure Plan.Named (plan : Plan) : Prop where
  fields : ∀ f ∈ plan.fields, isName f = true
  groupBy : ∀ agg ∈ plan.aggregation, ∀ g ∈ agg.groupBy, isName g = true
  aliases : ∀ agg ∈ plan.aggregation, ∀ f ∈ agg.funcs, isName f.aliasName = true

theorem forall₂_map {γ : Type*} (xs : List γ) {f : γ → List Char} {g : γ → List (SqlToken String)}
    (h : ∀ x ∈ xs, Lexes (f x) (g x)) : List.Forall₂ Lexes (xs.map f) (xs.map g) := by
  rw [List.forall₂_map_left_iff, List.forall₂_map_right_iff, List.forall₂_same]
  exact h

variable {plan : Plan}

theorem lexes_selectClause (h : plan.Named) :
    Lexes (selectClause plan).toList (selectTokens (selectOf plan)) := by
  unfold selectClause selectOf
  cases hagg : plan.aggregation with
  | some agg =>
    have hgroup := forall₂_map agg.groupBy
      (f := fun g => (columnExpr g ++ " AS " ++ quoteIdent g).toList)
      (g := fun g => itemTokens (columnOf g, g))
      (fun g hg => lexes_item (lexes_columnExpr g) (h.groupBy agg hagg g hg))
    have hfuncs := forall₂_map agg.funcs
      (f := fun f => (aggExpr f ++ " AS " ++ quoteIdent f.aliasName).toList)
      (g := fun f => itemTokens (aggregateOf f, f.aliasName))
      (fun f hf => lexes_item (lexes_aggExpr f) (h.aliases agg hagg f hf))
    have := lexes_intercalate separates_commaSpace (List.rel_append hgroup hfuncs)
    simpa [selectTokens, commaSeparated, Function.comp_def] using this
  | none =>
    by_cases hfields : plan.fields = []
    · simpa [hfields, selectTokens] using lexes_symbol (c := '*') (by decide) (by decide)
    · have hitems := forall₂_map plan.fields
        (f := fun f => (columnExpr f ++ " AS " ++ quoteIdent f).toList)
        (g := fun f => itemTokens (columnOf f, f))
        (fun f hf => lexes_item (lexes_columnExpr f) (h.fields f hf))
      have := lexes_intercalate separates_commaSpace hitems
      simpa [hfields, selectTokens, commaSeparated, Function.comp_def] using this

/-- A clause is written when there is something in it. -/
theorem trails_clause {kw ss : List Char} (keywords : List String) {separator : SqlToken String}
    (hkw : Separates kw (keywords.map SqlToken.word)) (hs : Separates ss [separator])
    {css : List (List Char)} {tss : List (List (SqlToken String))}
    (h : List.Forall₂ Lexes css tss) :
    Trails (if css = [] then [] else kw ++ ss.intercalate css)
      (clauseTokens keywords tss separator) := by
  have hnil : css = [] ↔ tss = [] := by
    cases h <;> simp
  unfold clauseTokens
  by_cases hcss : css = []
  · rw [if_pos hcss, if_pos (hnil.mp hcss)]
    exact trails_nil
  · rw [if_neg hcss, if_neg (fun ht => hcss (hnil.mpr ht))]
    exact hkw.lexes (lexes_intercalate hs h)

/-! ### The whole statement -/

theorem lexes_recordIn (ids : List String) :
    Lexes ("record_id IN (" ++ String.intercalate "," (ids.map quoteLiteral) ++ ")").toList
      (Cond.recordIn ids).tokens := by
  have hcomma : Separates [','] [.symbol ","] :=
    separates_punct (by decide) (by decide) (by decide)
  have hopen : Separates (" IN (".toList) [.word "IN", .symbol "("] :=
    (separates_keyword (w := "IN") (by decide)).append separates_open
  have hids := lexes_intercalate hcomma (forall₂_map ids
    (f := fun id => (quoteLiteral id).toList) (g := fun id => [.literal id])
    (fun id _ => lexes_quoteLiteral id))
  have hword : Lexes "record_id".toList [.word "record_id"] := lexes_word (by decide)
  have := (hword.separated hopen hids).append separates_close.trails
  simpa [Cond.tokens, commaSeparated, Function.comp_def] using this

theorem lexes_bound (op : Op) (t : ℤ) :
    Lexes ("`timestamp` " ++ op.text ++ " " ++ quoteLiteral (formatClickHouseDateTime64 t)).toList
      (Cond.compare (.column "timestamp") op
        (.literal (formatClickHouseDateTime64 t))).tokens := by
  have hcolumn : Lexes "`timestamp`".toList [.ident "timestamp"] :=
    lexes_quoteIdent "timestamp" (by decide)
  have := lexes_comparison hcolumn op (lexes_quoteLiteral (formatClickHouseDateTime64 t))
  simpa [Cond.tokens, Expr.tokens, Value.tokens] using this

theorem lexes_boundConds (r : TimeRange) :
    List.Forall₂ Lexes ((boundConds r).map String.toList) ((boundCondsOf r).map Cond.tokens) := by
  have hfrom := lexes_bound .gte r.from_
  have hto := lexes_bound .lte r.to_
  unfold boundConds boundCondsOf
  rw [List.map_append, List.map_append]
  apply List.rel_append
  · split
    · exact .nil
    · exact .cons hfrom .nil
  · split
    · exact .nil
    · exact .cons hto .nil

theorem lexes_whereConds (plan : Plan) (ids : List String) :
    List.Forall₂ Lexes ((whereConds plan ids).map String.toList)
      ((condsOf plan ids).map Cond.tokens) := by
  unfold whereConds condsOf
  simp only [List.map_append]
  apply List.rel_append
  · apply List.rel_append
    · split
      · exact .cons (lexes_recordIn ids) .nil
      · exact .nil
    · rw [List.map_map, List.map_map]
      exact forall₂_map plan.filters (fun f _ => lexes_buildComparisonSQL f)
  · cases plan.timeRange with
    | none => exact .nil
    | some r => exact lexes_boundConds r

theorem Cond.tokens_ne_nil (c : Cond String) : c.tokens ≠ [] := by
  cases c <;> simp [Cond.tokens]

theorem buildWhereClause_toList (plan : Plan) (ids : List String) :
    (buildWhereClause plan ids).toList =
      " AND ".toList.intercalate ((whereConds plan ids).map String.toList) := by
  simp [buildWhereClause]

/-- The clause is empty only if there is no condition. -/
theorem buildWhereClause_eq_empty {ids : List String} (h : buildWhereClause plan ids = "") :
    whereConds plan ids = [] := by
  have hlexes := lexes_intercalate (separates_keyword (w := "AND") (by decide))
    (lexes_whereConds plan ids)
  have hempty := buildWhereClause_toList plan ids
  rw [h] at hempty
  -- An empty text has no tokens, and every condition has some.
  have htokens := (hempty ▸ hlexes : Lexes "".toList _).tokens_eq
  rw [show "".toList = [] from rfl, SqlLexer.tokens, SqlLexer.tokens_nil] at htokens
  cases hconds : condsOf plan ids with
  | nil =>
    have hforall := lexes_whereConds plan ids
    rw [hconds] at hforall
    simpa using hforall
  | cons c cs =>
    rw [hconds] at htokens
    cases cs with
    | nil => exact absurd (by simpa using htokens.symm) c.tokens_ne_nil
    | cons d ds => simp [List.intercalate_cons_cons] at htokens

theorem trails_where (plan : Plan) (ids : List String) :
    Trails (if buildWhereClause plan ids ≠ "" then " WHERE " ++ buildWhereClause plan ids
        else "").toList
      (clauseTokens ["WHERE"] ((condsOf plan ids).map Cond.tokens) (.word "AND")) := by
  have := trails_clause ["WHERE"] (separates_keyword (w := "WHERE") (by decide))
    (separates_keyword (w := "AND") (by decide)) (lexes_whereConds plan ids)
  convert this using 1
  by_cases h : buildWhereClause plan ids = ""
  · simp [h, buildWhereClause_eq_empty h]
  · have hne : whereConds plan ids ≠ [] := by
      intro hnil
      exact h (by simp [buildWhereClause, hnil])
    simp [h, hne, buildWhereClause_toList]

theorem separates_by {w : String} (h : isWord w = true) :
    Separates (' ' :: w.toList ++ " BY ".toList) [.word w, .word "BY"] :=
  (separates_space.between (lexes_word h)
    (separates_keyword (w := "BY") (by decide)) :)

theorem trails_groupBy (plan : Plan) :
    Trails (groupByClause plan).toList
      (clauseTokens ["GROUP", "BY"] ((groupByOf plan).map Expr.tokens) (.symbol ",")) := by
  unfold groupByClause groupByOf
  cases plan.aggregation with
  | none => exact trails_nil
  | some agg =>
    have hcolumns := forall₂_map agg.groupBy (f := fun g => (columnExpr g).toList)
      (g := fun g => (columnOf g).tokens) (fun g _ => lexes_columnExpr g)
    have := trails_clause ["GROUP", "BY"] (separates_by (w := "GROUP") (by decide))
      separates_commaSpace hcolumns
    by_cases hnil : agg.groupBy = []
    · simpa [hnil] using this
    · simpa [hnil, Function.comp_def] using this

theorem lexes_sortColumnExpr (h : plan.Named) (field : String) :
    Lexes (sortColumnExpr plan field).toList (sortColumnOf plan field).tokens := by
  unfold sortColumnExpr sortColumnOf
  cases hagg : plan.aggregation with
  | none => exact lexes_columnExpr field
  | some agg =>
    by_cases hany : agg.funcs.any (fun f => f.aliasName == field) = true
    · obtain ⟨f, hf, hname⟩ := List.any_eq_true.mp hany
      have hname : f.aliasName = field := by simpa using hname
      have := h.aliases agg hagg f hf
      rw [hname] at this
      simpa only [hany, if_true, Expr.tokens] using lexes_quoteIdent field this
    · simpa [hany] using lexes_columnExpr field

theorem lexes_direction (desc : Bool) :
    Lexes (if desc then "DESC" else "ASC").toList [.word (if desc then "DESC" else "ASC")] := by
  cases desc <;> exact lexes_word (by decide)

theorem lexes_sortField (h : plan.Named) (s : SortField) :
    Lexes (sortColumnExpr plan s.field ++ " " ++ (if s.desc then "DESC" else "ASC")).toList
      (orderTokens (sortColumnOf plan s.field, s.desc)) := by
  have := (lexes_sortColumnExpr h s.field).separated separates_space
    (lexes_direction s.desc)
  simpa [orderTokens] using this

theorem lexes_timestamp (desc : Bool) :
    Lexes ("`timestamp` " ++ (if desc then "DESC" else "ASC")).toList
      (orderTokens (.column "timestamp", desc)) := by
  have := (lexes_quoteIdent "timestamp" (by decide)).separated separates_space
    (lexes_direction desc)
  cases desc <;> exact this

theorem trails_orderBy (h : plan.Named) :
    Trails (orderByClause plan).toList
      (clauseTokens ["ORDER", "BY"] ((orderByOf plan).map orderTokens) (.symbol ",")) := by
  have hclause {css : List (List Char)} {tss : List (List (SqlToken String))}
      (hcss : List.Forall₂ Lexes css tss) :=
    trails_clause ["ORDER", "BY"] (separates_by (w := "ORDER") (by decide))
      separates_commaSpace hcss
  have hkeys := forall₂_map plan.sort
    (f := fun s =>
      (sortColumnExpr plan s.field ++ " " ++ (if s.desc then "DESC" else "ASC")).toList)
    (g := fun s => orderTokens (sortColumnOf plan s.field, s.desc))
    (fun s _ => lexes_sortField h s)
  unfold orderByClause orderByOf
  by_cases hsort : plan.sort = []
  · rw [if_neg (not_not.mpr hsort), if_neg (not_not.mpr hsort)]
    split
    · simpa using hclause (.cons (lexes_timestamp false) .nil)
    · split
      · simpa using hclause (.cons (lexes_timestamp true) .nil)
      · exact trails_nil
  · rw [if_pos hsort, if_pos hsort]
    simpa [hsort, Function.comp_def] using hclause hkeys

theorem lexes_nat (n : ℕ) : Lexes (toString n).toList [.number (toString n)] := by
  have hdigits : ∀ c ∈ (toString n).toList, c.isDigit = true := by
    intro c hc
    have hc : c ∈ Nat.toDigits 10 n := by simpa using hc
    exact Nat.isDigit_of_mem_toDigits (by decide) (by decide) hc
  have hne : (toString n).toList ≠ [] := by simp
  have hlexes := SqlLexer.lexes_number hne
    (fun rest hrest => SqlLexer.number_digits hne hdigits hrest)
    (fun c hc => hdigits c (List.mem_of_mem_head? hc))
  rwa [String.ofList_toList] at hlexes

theorem trails_limit (plan : Plan) :
    Trails (limitClause plan).toList (limitTokens (limitOf plan)) := by
  have hlimit (n : ℕ) :
      Trails (" LIMIT " ++ toString n).toList [.word "LIMIT", .number (toString n)] := by
    have := (separates_keyword (w := "LIMIT") (by decide)).lexes (lexes_nat n)
    rwa [String.toList_append]
  unfold limitClause limitOf
  cases plan.limit with
  | some l => exact hlimit l.n
  | none =>
    by_cases hagg : plan.aggregation = none
    · simpa [hagg, limitTokens] using hlimit defaultRowLimit
    · simpa [hagg, limitTokens] using trails_nil

/-- `buildSQL` writes the statement of the plan and nothing else. -/
theorem tokens_buildSQL (h : plan.Named) (ids : List String) :
    SqlLexer.tokens (buildSQL plan ids).toList = (stmtOf plan ids).tokens := by
  have hselect : Lexes "SELECT".toList [.word "SELECT"] := lexes_word (by decide)
  have hfrom : Trails " FROM logs".toList [.word "FROM", .word "logs"] :=
    (separates_keyword (w := "FROM") (by decide)).lexes
      (lexes_word (w := "logs") (by decide))
  have hhead := (hselect.separated separates_space (lexes_selectClause h)).append hfrom
  have hall := (((hhead.append (trails_where plan ids)).append (trails_groupBy plan)).append
    (trails_orderBy h)).append (trails_limit plan)
  rw [show "SELECT".toList ++ [' '] = "SELECT ".toList from rfl] at hall
  simp only [← String.toList_append, List.append_nil] at hall
  exact hall.tokens_eq

end CairnObs.QueryLang
