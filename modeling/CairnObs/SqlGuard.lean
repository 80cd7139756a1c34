import Mathlib.Data.Bool.AllAny
import CairnObs.GoStrings
import CairnObs.QueryPlanner
import CairnObs.SqlSpacing

/-! Queries in SQL: how `planner.Compile` tells them from pipe queries, which ones its guard
lets through, and what ClickHouse reads in those. -/
namespace CairnObs.QueryLang
open GoStrings SqlLexer TextSearch

/-! ### The guard -/

/-- Any other text in its place counts as `spl`. -/
inductive Language
  | auto | sql | spl
  deriving DecidableEq, Repr

inductive SqlError
  | empty | manyStatements | notSelect | keyword | tableFunction
  deriving DecidableEq, Repr

def SqlError.text : SqlError → String
  | .empty => "query must not be empty"
  | .manyStatements => "only a single statement is allowed"
  | .notSelect => "only SELECT queries are allowed"
  | .keyword => "query contains a disallowed keyword"
  | .tableFunction => "query contains a disallowed table function"

def looksLikeSQL (query : List Char) : Bool :=
  (fields (trimSpace query)).head?.any (equalFold · "SELECT".toList)

theorem looksLikeSQL_eq (query : List Char) :
    looksLikeSQL query = equalFold (firstField query) "SELECT".toList := by
  rw [looksLikeSQL, fields_trimSpace_head]
  split
  · rename_i hnil
    rw [hnil]
    rfl
  · rfl

/-- The words of `disallowedKeyword`. -/
def blockedKeywords : List String :=
  ["insert", "update", "delete", "alter", "drop", "truncate", "create", "grant", "revoke", "attach",
    "detach", "rename", "kill", "optimize", "system", "set", "exchange", "watch"]

/-- The functions of `disallowedTableFunction`. -/
def blockedFunctions : List String :=
  ["url", "remote", "remoteSecure", "mysql", "postgresql", "s3", "s3Cluster", "hdfs", "hdfsCluster",
    "file", "odbc", "jdbc", "executable", "cluster", "clusterAllReplicas", "azureBlobStorage",
    "deltaLake", "iceberg", "hudi", "redis", "mongodb"]

/-- `\s`, which is not all the white space there is. -/
def isPatternSpace (c : Char) : Bool :=
  c == '\t' || c == '\n' || c == '\x0c' || c == '\r' || c == ' '

/-- The text starts with the name, in any case. -/
def startsFolded (name cs : List Char) : Bool := equalFold (cs.take name.length) name

/-- `(?i)\b(insert|update|…)\b` at a position. -/
def disallowedKeyword (prev : Option Char) (cs : List Char) : Bool :=
  blockedKeywords.any (fun k =>
    boundary prev cs.head? && startsFolded k.toList cs &&
      boundary (lastOf prev (cs.take k.toList.length)) (cs.drop k.toList.length).head?)

/-- `(?i)\b(url|remote|…)\s*\(` at a position. -/
def disallowedTableFunction (prev : Option Char) (cs : List Char) : Bool :=
  blockedFunctions.any (fun f =>
    boundary prev cs.head? && startsFolded f.toList cs &&
      ((cs.drop f.toList.length).dropWhile isPatternSpace).head? == some '(')

/-- The query without the semicolon at its end, as the guard reads it and `RawSQL` has it. -/
def statement (query : List Char) : List Char :=
  trimSpace (trimSuffix (trimSpace query) [';'])

def validateSelectOnly (sql : List Char) : Except SqlError Unit :=
  if trimSpace sql = [] then .error .empty
  else if statement sql = [] then .error .empty
  else if ';' ∈ statement sql then .error .manyStatements
  else if (fields (statement sql)).head?.map (List.map upper) ≠ some "SELECT".toList then
    .error .notSelect
  else if search disallowedKeyword none (statement sql) then .error .keyword
  else if search disallowedTableFunction none (statement sql) then .error .tableFunction
  else .ok ()

/-- `ir.Plan`: its field `RawSQL`, or else the other fields. -/
inductive Compiled
  | rawSQL (sql : String)
  | plan (plan : Plan)
  deriving DecidableEq

inductive CompileError
  | sql (e : SqlError)
  | query (e : QueryError)
  deriving DecidableEq

def isSQL (query : List Char) (language : Language) : Bool :=
  match language with
  | .auto => looksLikeSQL query
  | .sql => true
  | .spl => false

/-- `planner.Compile`. -/
def compile (query : String) (language : Language) (now : ℤ) : Except CompileError Compiled :=
  if isSQL query.toList language then
    match validateSelectOnly query.toList with
    | .error e => .error (.sql e)
    | .ok _ => .ok (.rawSQL (String.ofList (statement query.toList)))
  else
    match compilePipe query now with
    | .error e => .error (.query e)
    | .ok plan => .ok (.plan plan)

/-! ### What ClickHouse reads -/

/-- Names are compared without case, as the guard does. -/
def sameName (name w : String) : Bool :=
  decide (name.toList.map Char.toLower = w.toList.map Char.toLower)

/-- The name a token writes, bare or quoted. -/
def SqlToken.name? : SqlToken String → Option String
  | .word w | .ident w => some w
  | _ => none

def names (token : SqlToken String) (name : String) : Bool :=
  (SqlToken.name? token).any (sameName name)

/-- The token is the keyword, not in quotes. -/
def isWordOf (token : SqlToken String) (keyword : String) : Bool :=
  match token with
  | .word w => sameName keyword w
  | _ => false

/-- The text calls the function: its name, and a parenthesis behind it. -/
def Calls (sql : List Char) (function : String) : Prop :=
  ∃ x ∈ neighbours (SqlLexer.tokens sql), names x.1 function = true ∧ x.2 = .symbol "("

/-- One SELECT statement, without the calls and the keywords that the guard is there for. -/
structure ReadOnly (sql : List Char) : Prop where
  single : .symbol ";" ∉ SqlLexer.tokens sql
  select : ∃ w, (SqlLexer.tokens sql).head? = some (.word w) ∧ sameName "select" w = true
  functions : ∀ f ∈ blockedFunctions, ¬ Calls sql f
  keywords : ∀ k ∈ blockedKeywords, ∀ token ∈ SqlLexer.tokens sql, isWordOf token k = false

/-- The token follows a word character without a boundary. That happens behind a number that
begins with its dot, and behind `\G`. -/
def Glued (p : Piece) : Prop := p.prev.any isWordChar = true

/-- A call the pattern does not see: the name is in quotes or follows a word character, or
something that is no `\s` stands between it and the parenthesis, such as a comment or a blank of
Unicode. -/
def Veiled (name paren : Piece) : Prop :=
  (∃ w, name.token = .ident w) ∨ Glued name ∨ ∃ c ∈ paren.gap, isPatternSpace c = false

instance (p : Piece) : Decidable (Glued p) := inferInstanceAs (Decidable (_ = true))

instance (name paren : Piece) : Decidable (Veiled name paren) :=
  decidable_of_iff ((match name.token with | .ident _ => true | _ => false) = true ∨
    Glued name ∨ paren.gap.any (fun c => !isPatternSpace c) = true) <| by
    unfold Veiled
    cases name.token <;> simp

/-- No function of the list is called that way, no keyword follows a word character, and the
first letter is no long s, whose capital is the letter S. -/
structure Unveiled (sql : List Char) : Prop where
  first : sql.head? ≠ some '\u017f'
  functions : ∀ f ∈ blockedFunctions, ∀ x ∈ neighbours (spaced sql),
    names x.1.token f = true → x.2.token = .symbol "(" → ¬ Veiled x.1 x.2
  keywords : ∀ k ∈ blockedKeywords, ∀ p ∈ spaced sql, isWordOf p.token k = true → ¬ Glued p

/-! ### What the guard has seen to -/

/-- A text that `validateSelectOnly` lets through. -/
structure Passed (sql : List Char) : Prop where
  first : ∀ c, sql.head? = some c → GoStrings.isSpace c = false
  semicolon : ';' ∉ sql
  select : (fields sql).head?.map (List.map upper) = some "SELECT".toList
  keyword : search disallowedKeyword none sql = false
  function : search disallowedTableFunction none sql = false

theorem passed_of_validate {query : List Char} (h : validateSelectOnly query = .ok ()) :
    Passed (statement query) := by
  unfold validateSelectOnly at h
  split_ifs at h with hempty hnone hsemicolon hselect hkeyword hfunction
  exact ⟨fun c => trim_head, hsemicolon, not_not.mp hselect,
    Bool.not_eq_true _ ▸ hkeyword, Bool.not_eq_true _ ▸ hfunction⟩

theorem passed_of_compile {query sql : String} {language : Language} {now : ℤ}
    (h : compile query language now = .ok (.rawSQL sql)) :
    sql.toList = statement query.toList ∧ Passed (statement query.toList) := by
  unfold compile at h
  split at h
  · split at h
    · cases h
    · rename_i hvalid
      have hsql := Compiled.rawSQL.inj (Except.ok.inj h)
      exact ⟨by rw [← hsql, String.toList_ofList], passed_of_validate hvalid⟩
  · split at h
    · cases h
    · cases h

variable {c : Char} {p : Piece}

theorem letter_of_upper {d : Char} (h : upper c = d) (hd : 'A' ≤ d ∧ d ≤ 'Z') (hI : d ≠ 'I')
    (hs : c ≠ '\u017f') : SqlLexer.isWordStart c = true ∧ c.toLower = d.toLower := by
  have hi : c ≠ '\u0131' := by
    rintro rfl
    exact hI h.symm
  obtain ⟨hletter, hlower⟩ := upper_letter h hd hs hi
  refine ⟨Bool.and_eq_true_iff.mpr ⟨?_, ?_⟩, hlower⟩
  · simp only [isWordChar, Bool.or_eq_true, decide_eq_true_eq]
    rcases hletter with hletter | hletter
    · exact .inl (.inl (.inr hletter))
    · exact .inl (.inr hletter)
  · rw [Bool.not_eq_true', ← Bool.not_eq_true, Char.isDigit, Bool.and_eq_true, decide_eq_true_eq,
      decide_eq_true_eq]
    rintro ⟨-, hnine⟩
    rcases hletter with hletter | hletter
    · exact absurd (Char.le_trans hletter.1 hnine) (by decide)
    · exact absurd (Char.le_trans hletter.1 hnine) (by decide)

/-- The first field is the word SELECT, up to case and the long s. -/
theorem select_letters {w : List Char} (h : w.map upper = "SELECT".toList)
    (hs : w.head? ≠ some '\u017f') :
    (∀ c ∈ w, SqlLexer.isWordStart c = true) ∧ w.map Char.toLower = "select".toList := by
  have hlong {c d : Char} (h : upper c = d) (hd : d ≠ 'S') : c ≠ '\u017f' := by
    rintro rfl
    exact hd h.symm
  have hlist : w.map upper = ['S', 'E', 'L', 'E', 'C', 'T'] := h
  simp only [List.map_eq_cons_iff, List.map_eq_nil_iff] at hlist
  obtain ⟨s, -, rfl, hS, e, -, rfl, hE, l, -, rfl, hL, e', -, rfl, hE', c, -, rfl, hC, t, -, rfl,
    hT, rfl⟩ := hlist
  have hS := letter_of_upper hS (by decide) (by decide) (fun he => hs (congrArg some he))
  have hE := letter_of_upper hE (by decide) (by decide) (hlong hE (by decide))
  have hL := letter_of_upper hL (by decide) (by decide) (hlong hL (by decide))
  have hE' := letter_of_upper hE' (by decide) (by decide) (hlong hE' (by decide))
  have hC := letter_of_upper hC (by decide) (by decide) (hlong hC (by decide))
  have hT := letter_of_upper hT (by decide) (by decide) (hlong hT (by decide))
  constructor
  · simp [hS.1, hE.1, hL.1, hE'.1, hC.1, hT.1]
  · simp only [List.map_cons, List.map_nil, hS.2, hE.2, hL.2, hE'.2, hC.2, hT.2]
    decide

variable {sql : List Char}

theorem Passed.first_field (h : Passed sql) :
    (sql.takeWhile (fun c => !GoStrings.isSpace c)).map upper = "SELECT".toList := by
  have hselect := h.select
  cases sql with
  | nil => exact absurd hselect (by decide)
  | cons c sql =>
    rw [fields_head (h.first c rfl)] at hselect
    exact Option.some.inj hselect

theorem not_isNameChar_of_isSpace (h : GoStrings.isSpace c = true) : isNameChar c = false := by
  by_contra hname
  rw [Bool.not_eq_false, isNameChar, Bool.or_eq_true, beq_iff_eq] at hname
  have hrange : 36 ≤ c.toNat ∧ c.toNat ≤ 122 := by
    rcases hname with hname | rfl
    · have := range_of_isWordChar hname
      omega
    · decide
  rcases Bool.or_eq_true_iff.mp h with h | h
  · have hout : ['\t', '\n', '\x0b', '\x0c', '\r', ' ', '\u0085', '\u00a0', '\u1680', '\u2028',
        '\u2029', '\u202f', '\u205f', '\u3000'].all
          (fun d => decide (¬ (36 ≤ d.toNat ∧ d.toNat ≤ 122))) = true := by decide
    exact of_decide_eq_true (List.all_eq_true.mp hout c (List.contains_iff_mem.mp h)) hrange
  · have hfrom : 8192 ≤ c.toNat := (of_decide_eq_true h).1
    omega

theorem Passed.tokens_select (h : Passed sql) (hs : sql.head? ≠ some '\u017f') :
    ∃ w, (SqlLexer.tokens sql).head? = some (.word w) ∧ sameName "select" w = true := by
  have hsplit := List.takeWhile_append_dropWhile (p := fun c => !GoStrings.isSpace c) (l := sql)
  have hfield := h.first_field
  generalize hw : sql.takeWhile (fun c => !GoStrings.isSpace c) = w at hsplit hfield
  cases w with
  | nil => exact absurd hfield (by decide)
  | cons c w =>
    rw [← hsplit, List.cons_append, List.head?_cons] at hs
    obtain ⟨hletters, hlower⟩ := select_letters hfield hs
    have hc := hletters c List.mem_cons_self
    -- A space ends the word for the lexer as well.
    have hword : sql.takeWhile isNameChar = c :: w := by
      rw [← hsplit, List.takeWhile_append_of_pos, List.append_right_eq_self]
      · cases hrest : sql.dropWhile (fun d => !GoStrings.isSpace d) with
        | nil => rfl
        | cons d rest =>
          have hd := List.head?_dropWhile_not (fun d => !GoStrings.isSpace d) sql
          rw [hrest] at hd
          apply List.takeWhile_cons_of_neg
          rw [not_isNameChar_of_isSpace (by simpa using hd)]
          exact Bool.false_ne_true
      · intro d hd
        simp [isNameChar, (Bool.and_eq_true_iff.mp (hletters d hd)).1]
    rw [← hsplit, List.cons_append] at hword ⊢
    refine ⟨String.ofList (c :: w), ?_, ?_⟩
    · rw [SqlLexer.tokens, tokens_ink (isInk_of_isWordChar (Bool.and_eq_true_iff.mp hc).1),
        SqlLexer.scan_word hc, wordToken, hword]
      rfl
    · have htext : (String.ofList (c :: w)).toList = c :: w := String.toList_ofList
      unfold sameName
      rw [htext, hlower]
      decide

/-- A long s is no letter of a word, but a symbol of its own. -/
theorem select_needs_letter (h : ∃ w, (SqlLexer.tokens sql).head? = some (.word w)) :
    sql.head? ≠ some '\u017f' := by
  intro hs
  obtain ⟨w, hw⟩ := h
  cases sql with
  | nil => cases hs
  | cons c sql =>
    cases hs
    rw [SqlLexer.tokens, tokens_ink rfl] at hw
    cases hw

theorem mem_spaced (h : p ∈ spaced sql) : ∃ pre raw post, Stands none sql p pre raw post := by
  obtain ⟨l, r, hlr⟩ := List.append_of_mem h
  obtain ⟨pre, raw, post, -, -, -, hstands, -⟩ := stands_of_pieces hlr
  exact ⟨pre, raw, post, hstands⟩

theorem mem_tokens {token : SqlToken String} :
    token ∈ SqlLexer.tokens sql ↔ ∃ p ∈ spaced sql, p.token = token := by
  rw [← spaced_tokens, List.mem_map]

theorem Passed.single (h : Passed sql) : .symbol ";" ∉ SqlLexer.tokens sql := by
  intro hmem
  obtain ⟨p, hp, htoken⟩ := mem_tokens.mp hmem
  obtain ⟨pre, raw, post, hstands⟩ := mem_spaced hp
  have hraw : raw = [';'] := hstands.reads.symbol _ htoken
  apply h.semicolon
  rw [hstands.text, hraw]
  simp

theorem isWordChar_of_toLower (h : isWordChar c.toLower = true) : isWordChar c = true := by
  by_cases hupper : 'A' ≤ c ∧ c ≤ 'Z'
  · simp [isWordChar, hupper]
  · rwa [show c.toLower = c from dif_neg hupper] at h

theorem fold_of_isWordChar (h : isWordChar c = true) : fold c = c.toLower := by
  unfold fold
  rw [if_neg, if_neg]
  · rintro rfl
    exact absurd h (by decide)
  · rintro rfl
    exact absurd h (by decide)

/-- The names of the lists, in lower case and as they are. -/
def plainName (name : String) : Bool :=
  name.toList.all (fun c => isWordChar c && isWordChar c.toLower)

/-- The pattern takes a word of the lexer for the name that is the same without case. -/
theorem startsFolded_of_sameName {name w : String} (hname : plainName name = true)
    (h : sameName name w = true) (post : List Char) :
    w.toList.length = name.toList.length ∧ (∀ c ∈ w.toList, isWordChar c = true) ∧
      startsFolded name.toList (w.toList ++ post) = true := by
  have hlower := of_decide_eq_true h
  simp only [plainName, List.all_eq_true, Bool.and_eq_true] at hname
  have hlength : w.toList.length = name.toList.length := by
    have := congrArg List.length hlower
    simpa using this.symm
  have hw : ∀ c ∈ w.toList, isWordChar c = true := by
    intro c hc
    have hmem : c.toLower ∈ name.toList.map Char.toLower :=
      hlower ▸ List.mem_map_of_mem hc
    obtain ⟨d, hd, hdc⟩ := List.mem_map.mp hmem
    exact isWordChar_of_toLower (hdc ▸ (hname d hd).2)
  refine ⟨hlength, hw, ?_⟩
  unfold startsFolded equalFold
  rw [← hlength, List.take_left, List.map_congr_left (fun c hc => fold_of_isWordChar (hw c hc)),
    List.map_congr_left (fun c hc => fold_of_isWordChar (hname c hc).1), hlower]
  exact beq_self_eq_true _

/-- Where a word stands on its own, there are boundaries around it. -/
theorem boundaries {pre raw post : List Char} (h : Stands none sql p pre raw post)
    (hraw : ∀ c ∈ raw, isWordChar c = true) (hpost : post.head?.any isWordChar = false)
    (hplain : ¬ Glued p) :
    boundary (lastOf none (pre ++ p.gap)) (raw ++ post).head? = true ∧
      boundary (lastOf (lastOf none (pre ++ p.gap)) raw) post.head? = true := by
  have hbefore : (lastOf none (pre ++ p.gap)).any isWordChar = false := by
    rw [← h.prev]
    exact Bool.not_eq_true _ ▸ hplain
  have hlast : (lastOf (lastOf none (pre ++ p.gap)) raw).any isWordChar = true := by
    cases hd : lastOf (lastOf none (pre ++ p.gap)) raw with
    | none => simp [lastOf, List.getLast?_eq_none_iff.not.mpr h.nonempty] at hd
    | some d => exact hraw d (lastOf_mem h.nonempty hd)
  obtain ⟨c, raw, rfl⟩ := List.exists_cons_of_ne_nil h.nonempty
  have hfirst : ((c :: raw) ++ post).head?.any isWordChar = true := hraw c List.mem_cons_self
  exact ⟨by rw [boundary, hbefore, hfirst]; rfl, by rw [boundary, hlast, hpost]; rfl⟩

theorem Passed.glued (h : Passed sql) {k : String} (hk : k ∈ blockedKeywords) (hp : p ∈ spaced sql)
    (hword : isWordOf p.token k = true) : Glued p := by
  by_contra hplain
  obtain ⟨w, hw, hsame⟩ : ∃ w, p.token = .word w ∧ sameName k w = true := by
    cases htoken : p.token with
    | word w => exact ⟨w, rfl, by rwa [htoken] at hword⟩
    | symbol _ | ident _ | literal _ | number _ | bad =>
      rw [htoken] at hword
      cases hword
  obtain ⟨pre, raw, post, hstands⟩ := mem_spaced hp
  obtain ⟨rfl, hpost⟩ := hstands.reads.word w hw
  have hname : ∀ k ∈ blockedKeywords, plainName k = true := by decide
  obtain ⟨hlength, hchars, hstarts⟩ := startsFolded_of_sameName (hname k hk) hsame post
  obtain ⟨hbefore, hbehind⟩ := boundaries hstands hchars hpost hplain
  have hfound : search disallowedKeyword none sql = true := by
    rw [hstands.text, List.append_assoc]
    apply search_of_split
    refine List.any_eq_true.mpr ⟨k, hk, ?_⟩
    rw [← hlength, List.take_left, List.drop_left, hbefore, hstarts, hbehind]
    rfl
  rw [h.keyword] at hfound
  cases hfound

/-- A blocked function is called where the pattern does not look, or not at all. -/
theorem Passed.veiled (h : Passed sql) {f : String} (hf : f ∈ blockedFunctions) {q : Piece}
    (hpq : (p, q) ∈ neighbours (spaced sql)) (hname : names p.token f = true)
    (hq : q.token = .symbol "(") : Veiled p q := by
  by_contra hplain
  obtain ⟨l, r, hlr⟩ := mem_neighbours hpq
  obtain ⟨pre, raw, post, m, prev, after, hstands, hrest⟩ := stands_of_pieces hlr
  obtain ⟨hbare, hplain⟩ := not_or.mp hplain
  obtain ⟨hplain, hgap⟩ := not_or.mp hplain
  obtain ⟨w, hw, hsame⟩ : ∃ w, p.token = .word w ∧ sameName f w = true := by
    cases hp : p.token with
    | word w =>
      rw [hp] at hname
      exact ⟨w, rfl, hname⟩
    | ident w => exact absurd ⟨w, hp⟩ hbare
    | symbol _ | literal _ | number _ | bad =>
      rw [hp] at hname
      cases hname
  obtain ⟨rfl, hpost⟩ := hstands.reads.word w hw
  have hfunction : ∀ f ∈ blockedFunctions, plainName f = true := by decide
  obtain ⟨hlength, hchars, hstarts⟩ := startsFolded_of_sameName (hfunction f hf) hsame post
  obtain ⟨hbefore, -⟩ := boundaries hstands hchars hpost hplain
  -- The parenthesis is the next token of the rest, so only its gap lies between.
  obtain ⟨raw, post', -, -, hparen, -⟩ := first_piece hrest.symm
  have hafter : (post.dropWhile isPatternSpace).head? = some '(' := by
    rw [hparen.text, List.nil_append, List.append_assoc, hparen.reads.symbol _ hq,
      List.dropWhile_append_of_pos (by simpa using hgap)]
    rfl
  have hfound : search disallowedTableFunction none sql = true := by
    rw [hstands.text, List.append_assoc]
    apply search_of_split
    refine List.any_eq_true.mpr ⟨f, hf, ?_⟩
    rw [← hlength, List.drop_left, hbefore, hstarts, hafter]
    rfl
  rw [h.function] at hfound
  cases hfound
 
theorem calls_iff {f : String} : Calls sql f ↔
    ∃ x ∈ neighbours (spaced sql), names x.1.token f = true ∧ x.2.token = .symbol "(" := by
  unfold Calls
  rw [← spaced_tokens, neighbours_map]
  constructor
  · rintro ⟨x, hx, hname, hparen⟩
    obtain ⟨y, hy, rfl⟩ := List.mem_map.mp hx
    exact ⟨y, hy, hname, hparen⟩
  · rintro ⟨y, hy, hname, hparen⟩
    exact ⟨_, List.mem_map.mpr ⟨y, hy, rfl⟩, hname, hparen⟩

theorem readOnly_iff_unveiled (h : Passed sql) : ReadOnly sql ↔ Unveiled sql := by
  constructor
  · intro hread
    refine ⟨select_needs_letter ?_, ?_, ?_⟩
    · obtain ⟨w, hw, -⟩ := hread.select
      exact ⟨w, hw⟩
    · intro f hf x hx hname hparen _
      exact hread.functions f hf (calls_iff.mpr ⟨x, hx, hname, hparen⟩)
    · intro k hk p hp hword _
      rw [hread.keywords k hk p.token (mem_tokens.mpr ⟨p, hp, rfl⟩)] at hword
      cases hword
  · intro hopen
    refine ⟨h.single, h.tokens_select hopen.first, ?_, ?_⟩
    · intro f hf hcalls
      obtain ⟨x, hx, hname, hparen⟩ := calls_iff.mp hcalls
      exact hopen.functions f hf x hx hname hparen (h.veiled hf hx hname hparen)
    · intro k hk token htoken
      obtain ⟨p, hp, rfl⟩ := mem_tokens.mp htoken
      by_contra hword
      rw [Bool.not_eq_false] at hword
      exact hopen.keywords k hk p hp hword (h.glued hk hp hword)

def commentedCall : String :=
  "SELECT * FROM url/**/('http://169.254.169.254/latest/meta-data/', 'LineAsString', 's String')"

def quotedCall : String := "SELECT * FROM `file`('/etc/passwd', 'LineAsString')"

end CairnObs.QueryLang
