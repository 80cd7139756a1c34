import CairnObs.EscapedQuote

/-! The lexer of the pipe syntax, `querylang/lexer`. -/
namespace CairnObs.QueryLang

inductive Kind
  | eof | illegal | ident | string | number | pipe | eq | neq | gt | gte | lt | lte | colon
  | comma | lparen | rparen | minus | plus | star
  deriving DecidableEq, Repr

def Kind.text : Kind → String
  | .eof => "EOF"
  | .illegal => "ILLEGAL"
  | .ident => "IDENT"
  | .string => "STRING"
  | .number => "NUMBER"
  | .pipe => "PIPE"
  | .eq => "EQ"
  | .neq => "NEQ"
  | .gt => "GT"
  | .gte => "GTE"
  | .lt => "LT"
  | .lte => "LTE"
  | .colon => "COLON"
  | .comma => "COMMA"
  | .lparen => "LPAREN"
  | .rparen => "RPAREN"
  | .minus => "MINUS"
  | .plus => "PLUS"
  | .star => "STAR"

structure Token where
  kind : Kind
  value : String
  pos : ℕ
  deriving DecidableEq, Repr

def isDigit (c : Char) : Bool := decide ('0' ≤ c ∧ c ≤ '9')

theorem isDigit_eq : isDigit = Char.isDigit := by
  funext c
  rw [isDigit, Bool.decide_and]
  rfl

def isIdentStart (c : Char) : Bool :=
  c == '_' || decide ('a' ≤ c ∧ c ≤ 'z') || decide ('A' ≤ c ∧ c ≤ 'Z')

def isIdentPart (c : Char) : Bool :=
  isIdentStart c || isDigit c || c == '.' || c == '_' || c == '-'

def isSpace (c : Char) : Bool := c == ' ' || c == '\t' || c == '\n' || c == '\r'

def skipWhitespace (cs : List Char) : List Char := cs.dropWhile isSpace

/-- What stands behind the opening quote: the kind of the token, its characters and the
rest. An unterminated string is `illegal`. -/
def lexString : List Char → Kind × List Char × List Char
  | [] => (.illegal, [], [])
  | '"' :: rest => (.string, [], rest)
  | '\\' :: c :: rest =>
    let (k, v, r) := lexString rest
    (k, c :: v, r)
  | c :: rest =>
    let (k, v, r) := lexString rest
    (k, c :: v, r)

def lexNumber (cs : List Char) : List Char × List Char :=
  let whole := cs.takeWhile isDigit
  match cs.dropWhile isDigit with
  | '.' :: d :: rest =>
    if isDigit d then
      (whole ++ '.' :: (d :: rest).takeWhile isDigit, (d :: rest).dropWhile isDigit)
    else (whole, '.' :: d :: rest)
  | rest => (whole, rest)

def lexIdent (cs : List Char) : List Char × List Char :=
  (cs.takeWhile isIdentPart, cs.dropWhile isIdentPart)

/-- The token that starts at a character which is no whitespace: its kind, its value and
what follows it. -/
def scan (c : Char) (cs : List Char) : Kind × List Char × List Char :=
  if c = '|' then (.pipe, ['|'], cs)
  else if c = '=' then (.eq, ['='], cs)
  else if c = '!' ∧ cs.head? = some '=' then (.neq, ['!', '='], cs.tail)
  else if c = '>' ∧ cs.head? = some '=' then (.gte, ['>', '='], cs.tail)
  else if c = '>' then (.gt, ['>'], cs)
  else if c = '<' ∧ cs.head? = some '=' then (.lte, ['<', '='], cs.tail)
  else if c = '<' then (.lt, ['<'], cs)
  else if c = ':' then (.colon, [':'], cs)
  else if c = ',' then (.comma, [','], cs)
  else if c = '(' then (.lparen, ['('], cs)
  else if c = ')' then (.rparen, [')'], cs)
  else if c = '-' then (.minus, ['-'], cs)
  else if c = '+' then (.plus, ['+'], cs)
  else if c = '*' then (.star, ['*'], cs)
  else if c = '"' then lexString cs
  else if isDigit c then (.number, lexNumber (c :: cs))
  else if isIdentStart c then (.ident, lexIdent (c :: cs))
  else (.illegal, [c], cs)

theorem length_dropWhile_le {α : Type*} (p : α → Bool) (l : List α) :
    (l.dropWhile p).length ≤ l.length :=
  (List.dropWhile_sublist p).length_le

theorem lexString_cases (cs : List Char) :
    (lexString cs).1 = .string ∨ (lexString cs).1 = .illegal := by
  fun_induction lexString cs with
  | case1 => exact .inr rfl
  | case2 rest => exact .inl rfl
  | case3 c rest k v r hlex ih =>
    rw [hlex] at ih
    exact ih
  | case4 c rest _ _ k v r hlex ih =>
    rw [hlex] at ih
    exact ih

theorem lexString_length (cs : List Char) : (lexString cs).2.2.length ≤ cs.length := by
  fun_induction lexString cs <;> simp_all <;> omega

theorem lexNumber_length (cs : List Char) :
    (lexNumber cs).2.length ≤ (cs.dropWhile isDigit).length := by
  simp only [lexNumber]
  split
  · rename_i d rest h
    rw [h]
    split
    · exact (length_dropWhile_le isDigit _).trans (Nat.le_succ _)
    · exact le_rfl
  · exact le_rfl

/-- The text of the tokens that always have the same one. -/
def Kind.symbol : Kind → List Char
  | .pipe => ['|']
  | .eq => ['=']
  | .neq => ['!', '=']
  | .gt => ['>']
  | .gte => ['>', '=']
  | .lt => ['<']
  | .lte => ['<', '=']
  | .colon => [':']
  | .comma => [',']
  | .lparen => ['(']
  | .rparen => [')']
  | .minus => ['-']
  | .plus => ['+']
  | .star => ['*']
  | .eof | .illegal | .ident | .string | .number => []

/-- All that `scan` can return. -/
inductive Scanned (c : Char) : List Char → Kind × List Char × List Char → Prop
  | one {k cs} (h : k.symbol = [c]) : Scanned c cs (k, [c], cs)
  | two {k d cs} (h : k.symbol = [c, d]) : Scanned c (d :: cs) (k, [c, d], cs)
  | string {cs} (h : c = '"') : Scanned c cs (lexString cs)
  | number {cs} (h : isDigit c = true) : Scanned c cs (.number, lexNumber (c :: cs))
  | ident {cs} (h : isIdentStart c = true) : Scanned c cs (.ident, lexIdent (c :: cs))
  | illegal {cs} : Scanned c cs (.illegal, [c], cs)

theorem scanned_one {c d : Char} {cs : List Char} {k : Kind} (hk : k.symbol = [d])
    (h : c = d) : Scanned c cs (k, [d], cs) := by
  subst h
  exact .one hk

theorem scanned_two {c d : Char} {cs : List Char} {k : Kind} (hk : k.symbol = [d, '='])
    (h : c = d ∧ cs.head? = some '=') : Scanned c cs (k, [d, '='], cs.tail) := by
  obtain ⟨rfl, h⟩ := h
  obtain ⟨rest, rfl⟩ := List.head?_eq_some_iff.mp h
  exact .two hk

theorem scanned_scan (c : Char) (cs : List Char) : Scanned c cs (scan c cs) := by
  unfold scan
  refine iteInduction (scanned_one rfl) (fun _ => ?_)
  refine iteInduction (scanned_one rfl) (fun _ => ?_)
  refine iteInduction (scanned_two rfl) (fun _ => ?_)
  refine iteInduction (scanned_two rfl) (fun _ => ?_)
  refine iteInduction (scanned_one rfl) (fun _ => ?_)
  refine iteInduction (scanned_two rfl) (fun _ => ?_)
  refine iteInduction (scanned_one rfl) (fun _ => ?_)
  refine iteInduction (scanned_one rfl) (fun _ => ?_)
  refine iteInduction (scanned_one rfl) (fun _ => ?_)
  refine iteInduction (scanned_one rfl) (fun _ => ?_)
  refine iteInduction (scanned_one rfl) (fun _ => ?_)
  refine iteInduction (scanned_one rfl) (fun _ => ?_)
  refine iteInduction (scanned_one rfl) (fun _ => ?_)
  refine iteInduction (scanned_one rfl) (fun _ => ?_)
  refine iteInduction Scanned.string (fun _ => ?_)
  refine iteInduction Scanned.number (fun _ => ?_)
  exact iteInduction Scanned.ident (fun _ => .illegal)

/-- Every token takes at least its first character. -/
theorem scan_length (c : Char) (cs : List Char) : (scan c cs).2.2.length ≤ cs.length := by
  have hdrop : ∀ p : Char → Bool, p c = true → ((c :: cs).dropWhile p).length ≤ cs.length := by
    intro p hp
    rw [List.dropWhile_cons_of_pos hp]
    exact length_dropWhile_le p cs
  have h := scanned_scan c cs
  generalize scan c cs = t at h
  cases h with
  | one => exact le_rfl
  | two => exact Nat.le_succ _
  | string => exact lexString_length cs
  | number hd => exact (lexNumber_length _).trans (hdrop isDigit hd)
  | ident hi => exact hdrop isIdentPart (by simp [isIdentPart, hi])
  | illegal => exact le_rfl

/-- The tokens `Next` returns up to and with the first `eof`. The position of a token is
counted in runes from the start of the input of length `n`. -/
def tokensFrom (n : ℕ) (cs : List Char) : List Token :=
  match h : skipWhitespace cs with
  | [] => [⟨.eof, "", n⟩]
  | c :: rest =>
    let t := scan c rest
    ⟨t.1, String.ofList t.2.1, n - (rest.length+1)⟩ :: tokensFrom n t.2.2
termination_by cs.length
decreasing_by
  have hskip : (skipWhitespace cs).length ≤ cs.length := length_dropWhile_le isSpace cs
  have hscan := scan_length c rest
  rw [h, List.length_cons] at hskip
  omega

def tokens (input : String) : List Token := tokensFrom input.toList.length input.toList

end CairnObs.QueryLang
