import CairnObs.EscapedQuote
import CairnObs.TextSearch

/-! The lexical rules of ClickHouse: the white space of Unicode, comments that nest, quoted
literals and identifiers with backslash escapes and doubled quotes, here-documents, words,
numbers and operators. -/
namespace SqlLexer
open EscapedQuote TextSearch

/-- A token; `α` is the type of what names, literals and numbers carry. -/
inductive SqlToken (α : Type*)
  | word (text : String)
  | symbol (text : String)
  | ident (name : α)
  | literal (text : α)
  | number (text : α)
  | bad
  deriving DecidableEq, Repr

variable {α β : Type*}

def SqlToken.map (f : α → β) : SqlToken α → SqlToken β
  | .word text => .word text
  | .symbol text => .symbol text
  | .ident name => .ident (f name)
  | .literal text => .literal (f text)
  | .number text => .number (f text)
  | .bad => .bad

/-- What a name, a literal or a number carries. -/
def SqlToken.text? : SqlToken α → Option α
  | .ident x | .literal x | .number x => some x
  | .word _ | .symbol _ | .bad => none

/-- What the token before says of a dot or a digit: behind a dot, as in `x.1.1`, there is no
fraction, and behind an operand a dot is one by itself. -/
inductive Before
  | dot | operand | other
  deriving DecidableEq

def SqlToken.before : SqlToken α → Before
  | .symbol text =>
    if text = "." then .dot else if text = ")" ∨ text = "]" then .operand else .other
  | .word _ | .ident _ | .number _ => .operand
  | .literal _ | .bad => .other

/-! ### White space and comments -/

def blanks : List Char :=
  [' ', '\t', '\n', '\r', '\x0b', '\x0c', '\u0085', '\u00a0', '\u180e',
    '\u2028', '\u2029', '\u202f', '\u205f', '\u2060', '\u3000', '\ufeff']

/-- The white space that is skipped, with that of Unicode. -/
def isBlank (c : Char) : Bool := blanks.contains c || decide ('\u2000' ≤ c ∧ c ≤ '\u200d')

/-- In a block comment it counts how many are open around it. -/
inductive SkipMode
  | code | line | block (depth : ℕ)

/-- The characters `pre` come before what was split off. -/
def behind (pre : List Char) (r : List Char × List Char) : List Char × List Char :=
  (pre ++ r.1, r.2)

@[simp] theorem behind_fst (pre : List Char) (r : List Char × List Char) :
    (behind pre r).1 = pre ++ r.1 := rfl

@[simp] theorem behind_snd (pre : List Char) (r : List Char × List Char) :
    (behind pre r).2 = r.2 := rfl

/-- White space and comments in front of a text, and what follows them. A hash starts a comment
only before a blank or a mark. -/
def splitBlank : SkipMode → List Char → List Char × List Char
  | _, [] => ([], [])
  | .line, c :: cs => behind [c] (splitBlank (if c = '\n' then .code else .line) cs)
  | .block 0, '*' :: '/' :: cs => behind ['*', '/'] (splitBlank .code cs)
  | .block (depth+1), '*' :: '/' :: cs => behind ['*', '/'] (splitBlank (.block depth) cs)
  | .block depth, '/' :: '*' :: cs => behind ['/', '*'] (splitBlank (.block (depth+1)) cs)
  | .block depth, c :: cs => behind [c] (splitBlank (.block depth) cs)
  | .code, '-' :: '-' :: cs => behind ['-', '-'] (splitBlank .line cs)
  | .code, '#' :: ' ' :: cs => behind ['#', ' '] (splitBlank .line cs)
  | .code, '#' :: '!' :: cs => behind ['#', '!'] (splitBlank .line cs)
  | .code, '/' :: '/' :: cs => behind ['/', '/'] (splitBlank .line cs)
  | .code, '/' :: '*' :: cs => behind ['/', '*'] (splitBlank (.block 0) cs)
  | .code, c :: cs => if isBlank c then behind [c] (splitBlank .code cs) else ([], c :: cs)

theorem splitBlank_append (mode : SkipMode) (cs : List Char) :
    (splitBlank mode cs).1 ++ (splitBlank mode cs).2 = cs := by
  fun_induction splitBlank mode cs <;> simp_all

def skipBlank (cs : List Char) : List Char := (splitBlank .code cs).2

theorem skipBlank_suffix (cs : List Char) : skipBlank cs <:+ cs :=
  ⟨_, splitBlank_append .code cs⟩

/-! ### Quoted texts -/

/-- What a backslash makes of the character behind it. -/
def unescape (c : Char) : List Char :=
  match c with
  | 'n' => ['\n']
  | 't' => ['\t']
  | 'r' => ['\r']
  | '0' => ['\x00']
  | '\\' | '\'' | '`' | '"' | '/' => [c]
  | _ => ['\\', c]

/-- The text behind an opening quote `q`, decoded, and what follows the closing one. -/
def quoted (q : Char) : List Char → Option (List Char × List Char)
  | [] => none
  | [c] => if c = q then some ([], []) else none
  | c :: d :: rest =>
    if c = '\\' then (quoted q rest).map (fun x => (unescape d ++ x.1, x.2))
    else if c = q then
      if d = q then (quoted q rest).map (fun x => (q :: x.1, x.2)) else some ([], d :: rest)
    else (quoted q (d :: rest)).map (fun x => (c :: x.1, x.2))

/-- The text up to the next `tag`, and what follows that. -/
def splitAtTag (tag : List Char) : List Char → Option (List Char × List Char)
  | [] => none
  | c :: cs =>
    if tag.isPrefixOf (c :: cs) then some ([], (c :: cs).drop tag.length)
    else (splitAtTag tag cs).map (fun x => (c :: x.1, x.2))

/-- A here-document `$tag$…$tag$` behind its first `$`. -/
def heredoc (cs : List Char) : Option (List Char × List Char) :=
  (splitAtTag ['$'] cs).bind (fun x => splitAtTag ('$' :: (x.1 ++ ['$'])) x.2)

/-- An unterminated quote takes the rest of the input with it. -/
def quotedToken (make : String → SqlToken String) (x : Option (List Char × List Char)) :
    SqlToken String × List Char :=
  match x with
  | none => (.bad, [])
  | some (text, rest) => (make (String.ofList text), rest)

/-! ### Words and numbers -/

/-- What comes in `cs` before `rest`. -/
def upTo (cs rest : List Char) : List Char := cs.take (cs.length - rest.length)

def isNameChar (c : Char) : Bool := isWordChar c || c == '$'

def wordToken (cs : List Char) : SqlToken String × List Char :=
  (.word (String.ofList (cs.takeWhile isNameChar)), cs.dropWhile isNameChar)

/-- A dollar sign that opens no here-document begins a word or stands alone. -/
def dollarToken (cs : List Char) : SqlToken String × List Char :=
  match heredoc cs with
  | some (text, rest) => (.literal (String.ofList text), rest)
  | none => if cs.head?.any isWordChar then wordToken ('$' :: cs) else (.symbol "$", cs)

def isHexDigit (c : Char) : Bool :=
  c.isDigit || decide ('a' ≤ c ∧ c ≤ 'f') || decide ('A' ≤ c ∧ c ≤ 'F')

/-- The digits of a number in the base. -/
def isDigitOf (hex : Bool) (c : Char) : Bool := if hex then isHexDigit c else c.isDigit

/-- What follows the digits `p`, with underscores between them. -/
def skipRun (p : Char → Bool) : Bool → List Char → List Char
  | _, [] => []
  | first, c :: cs =>
    if p c || (c == '_' && !first && cs.head?.any p) then skipRun p false cs else c :: cs

def skipFraction (hex : Bool) : List Char → List Char
  | '.' :: cs => skipRun (isDigitOf hex) true cs
  | cs => cs

/-- The exponent of a hexadecimal number begins with `p`, and is decimal. -/
def isExponent (hex : Bool) (c : Char) : Bool :=
  if hex then c == 'p' || c == 'P' else c == 'e' || c == 'E'

def skipExponent (hex : Bool) : List Char → List Char
  | e :: c :: cs =>
    if isExponent hex e then
      if (c == '-' || c == '+') && !cs.isEmpty then skipRun Char.isDigit true cs
      else skipRun Char.isDigit true (c :: cs)
    else e :: c :: cs
  | cs => cs

def skipDigits (hex first : Bool) (cs : List Char) : List Char :=
  skipExponent hex (skipFraction hex (skipRun (isDigitOf hex) first cs))

/-- What follows a number, which begins with a digit. -/
def skipNumber : List Char → List Char
  | '0' :: x :: d :: cs =>
    if (x == 'x' || x == 'X') && isHexDigit d then skipDigits true true (d :: cs)
    else if (x == 'b' || x == 'B') && (d == '0' || d == '1') then skipDigits false true (d :: cs)
    else skipDigits false false (x :: d :: cs)
  | cs => skipDigits false false cs.tail

def numberRest (before : Before) (cs : List Char) : List Char :=
  if before = .dot then skipRun Char.isDigit false cs else skipNumber cs

/-- Letters that follow a number directly make a word of it, as in `1st`. -/
def numberToken (before : Before) (cs : List Char) : SqlToken String × List Char :=
  let rest := numberRest before cs
  if rest.head?.any isWordChar then
    let text := upTo cs (rest.dropWhile isWordChar)
    (if text.all isWordChar then .word (String.ofList text) else .bad, rest.dropWhile isWordChar)
  else (.number (String.ofList (upTo cs rest)), rest)

/-- A number may begin with its dot. -/
def dotToken (before : Before) (cs : List Char) : SqlToken String × List Char :=
  if before = .other ∧ cs.head?.any Char.isDigit then
    let rest := skipExponent false (skipFraction false ('.' :: cs))
    (.number (String.ofList (upTo ('.' :: cs) rest)), rest)
  else (.symbol ".", cs)

/-! ### Tokens -/

/-- The operators of two characters, and `\G`. -/
def operators : List (Char × Char) :=
  [('!', '='), ('>', '='), ('<', '='), ('<', '>'), ('=', '='), ('|', '|'), ('-', '>'), (':', ':'),
    ('@', '@'), ('\\', 'G')]

def isOperator (c d : Char) : Bool := operators.contains (c, d)

/-- The symbol that starts with `c`. -/
def operator (c : Char) : List Char → List Char × List Char
  | [] => ([c], [])
  | d :: rest => if isOperator c d then ([c, d], rest) else ([c], d :: rest)

/-- The token that starts with `c`, and what follows it. -/
def scan (before : Before) (c : Char) (cs : List Char) : SqlToken String × List Char :=
  if c = '\'' then quotedToken .literal (quoted '\'' cs)
  else if c = '`' then quotedToken .ident (quoted '`' cs)
  else if c = '"' then quotedToken .ident (quoted '"' cs)
  else if c = '\u2018' then quotedToken .literal (splitAtTag ['\u2019'] cs)
  else if c = '\u201c' then quotedToken .ident (splitAtTag ['\u201d'] cs)
  else if c.isDigit then numberToken before (c :: cs)
  else if c = '.' then dotToken before cs
  else if c = '$' then dollarToken cs
  else if isWordChar c then wordToken (c :: cs)
  else (.symbol (String.ofList (operator c cs).1), (operator c cs).2)

variable {cs : List Char}

theorem quoted_suffix {q : Char} {text rest : List Char} (h : quoted q cs = some (text, rest)) :
    rest <:+ cs := by
  fun_induction quoted q cs generalizing text rest with
  | case1 => cases h
  | case2 =>
    cases h
    exact List.nil_suffix
  | case3 c hc => cases h
  | case4 d cs ih | case5 cs hc ih =>
    obtain ⟨x, hx, he⟩ := Option.map_eq_some_iff.mp h
    cases he
    exact (ih hx).trans ((List.suffix_cons _ cs).trans (List.suffix_cons _ _))
  | case6 d cs hc hd =>
    cases h
    exact List.suffix_cons _ _
  | case7 c d cs hc hq ih =>
    obtain ⟨x, hx, he⟩ := Option.map_eq_some_iff.mp h
    cases he
    exact (ih hx).trans (List.suffix_cons _ _)

theorem splitAtTag_suffix {tag text rest : List Char} (h : splitAtTag tag cs = some (text, rest)) :
    rest <:+ cs := by
  induction cs generalizing text rest with
  | nil => cases h
  | cons c cs ih =>
    rw [splitAtTag] at h
    split_ifs at h
    · cases h
      exact List.drop_suffix _ _
    · obtain ⟨x, hx, he⟩ := Option.map_eq_some_iff.mp h
      cases he
      exact (ih hx).trans (List.suffix_cons _ _)

theorem heredoc_suffix {text rest : List Char} (h : heredoc cs = some (text, rest)) :
    rest <:+ cs := by
  obtain ⟨x, hx, h⟩ := Option.bind_eq_some_iff.mp h
  exact (splitAtTag_suffix h).trans (splitAtTag_suffix hx)

theorem quotedToken_suffix {make : String → SqlToken String} {x : Option (List Char × List Char)}
    (h : ∀ text rest, x = some (text, rest) → rest <:+ cs) : (quotedToken make x).2 <:+ cs := by
  unfold quotedToken
  split
  · exact List.nil_suffix
  · exact h _ _ rfl

theorem skipRun_suffix (p : Char → Bool) (first : Bool) (cs : List Char) :
    skipRun p first cs <:+ cs := by
  fun_induction skipRun p first cs with
  | case1 => exact List.suffix_rfl
  | case2 first c cs hrun ih => exact ih.trans (List.suffix_cons _ _)
  | case3 => exact List.suffix_rfl

theorem skipFraction_suffix (hex : Bool) (cs : List Char) : skipFraction hex cs <:+ cs := by
  unfold skipFraction
  split
  · exact (skipRun_suffix _ _ _).trans (List.suffix_cons _ _)
  · exact List.suffix_rfl

theorem skipExponent_suffix (hex : Bool) (cs : List Char) : skipExponent hex cs <:+ cs := by
  unfold skipExponent
  split
  · split_ifs
    · exact (skipRun_suffix _ _ _).trans ((List.suffix_cons _ _).trans (List.suffix_cons _ _))
    · exact (skipRun_suffix _ _ _).trans (List.suffix_cons _ _)
    · exact List.suffix_rfl
  · exact List.suffix_rfl

theorem skipDigits_suffix (hex first : Bool) (cs : List Char) : skipDigits hex first cs <:+ cs :=
  (skipExponent_suffix _ _).trans ((skipFraction_suffix _ _).trans (skipRun_suffix _ _ _))

theorem skipNumber_suffix (c : Char) (cs : List Char) : skipNumber (c :: cs) <:+ cs := by
  unfold skipNumber
  split
  · rename_i x d rest heq
    obtain rfl := (List.cons.inj heq).2
    split_ifs
    · exact (skipDigits_suffix _ _ _).trans (List.suffix_cons _ _)
    · exact (skipDigits_suffix _ _ _).trans (List.suffix_cons _ _)
    · exact skipDigits_suffix _ _ _
  · exact skipDigits_suffix _ _ _

theorem dropWhile_cons_suffix {p : Char → Bool} {c : Char} (h : p c = true) (cs : List Char) :
    (c :: cs).dropWhile p <:+ cs := by
  rw [List.dropWhile_cons_of_pos h]
  exact List.dropWhile_suffix p

theorem numberRest_suffix (before : Before) {c : Char} (h : c.isDigit = true) (cs : List Char) :
    numberRest before (c :: cs) <:+ cs := by
  unfold numberRest
  split_ifs
  · rw [skipRun, h, Bool.true_or, if_pos rfl]
    exact skipRun_suffix _ _ _
  · exact skipNumber_suffix c cs

theorem numberToken_suffix (before : Before) {c : Char} (h : c.isDigit = true) (cs : List Char) :
    (numberToken before (c :: cs)).2 <:+ cs := by
  have hrest := numberRest_suffix before h cs
  simp only [numberToken, apply_ite Prod.snd]
  split_ifs
  · exact (List.dropWhile_suffix _).trans hrest
  · exact hrest

theorem dotToken_suffix (before : Before) (cs : List Char) : (dotToken before cs).2 <:+ cs := by
  unfold dotToken
  split_ifs
  · exact (skipExponent_suffix _ _).trans (skipRun_suffix _ _ _)
  · exact List.suffix_rfl

theorem dollarToken_suffix (cs : List Char) : (dollarToken cs).2 <:+ cs := by
  unfold dollarToken
  split
  · rename_i h
    exact heredoc_suffix h
  · split_ifs
    · exact @dropWhile_cons_suffix isNameChar '$' rfl cs
    · exact List.suffix_rfl

theorem operator_suffix (c : Char) (cs : List Char) : (operator c cs).2 <:+ cs := by
  unfold operator
  split
  · exact List.suffix_rfl
  · split
    · exact List.suffix_cons _ _
    · exact List.suffix_rfl

theorem scan_suffix (before : Before) (c : Char) (cs : List Char) :
    (scan before c cs).2 <:+ cs := by
  unfold scan
  split_ifs with _ _ _ _ _ hdigit _ _ hword
  · exact quotedToken_suffix fun _ _ => quoted_suffix
  · exact quotedToken_suffix fun _ _ => quoted_suffix
  · exact quotedToken_suffix fun _ _ => quoted_suffix
  · exact quotedToken_suffix fun _ _ => splitAtTag_suffix
  · exact quotedToken_suffix fun _ _ => splitAtTag_suffix
  · exact numberToken_suffix before hdigit cs
  · exact dotToken_suffix before cs
  · exact dollarToken_suffix cs
  · exact dropWhile_cons_suffix (by simp [isNameChar, hword]) cs
  · exact operator_suffix c cs

def tokensFrom (before : Before) (cs : List Char) : List (SqlToken String) :=
  match h : skipBlank cs with
  | c :: rest =>
    have : (scan before c rest).2.length < cs.length := by
      have hskip := (skipBlank_suffix cs).length_le
      have hscan := (scan_suffix before c rest).length_le
      rw [h, List.length_cons] at hskip
      omega
    (scan before c rest).1 :: tokensFrom (scan before c rest).1.before (scan before c rest).2
  | [] => []
termination_by cs.length

def tokens (cs : List Char) : List (SqlToken String) := tokensFrom .other cs

end SqlLexer
