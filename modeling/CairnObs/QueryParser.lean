import CairnObs.Fallible
import CairnObs.QueryAst

/-! The recursive-descent parser, `querylang/parser`. A parser state is the list of the
tokens from the current one on; the source's `cur` and `next` are its first two. -/
namespace CairnObs.QueryLang
open Fallible

def cur (ts : List Token) : Token := ts.headD ⟨.eof, "", 0⟩

def next (ts : List Token) : Token := cur ts.tail

/-- The errors of `errorf` with the token or value they quote: "expected _, got _",
"invalid number _" and how the text goes on, "unknown _ _ (_)", "unexpected _ after query". -/
inductive SyntaxError
  | expected (what : String) (got : Token)
  | invalidNumber (number : Token) (context : String)
  | unknown (what : String) (word : Token) (want : String)
  | unexpected (got : Token)
  deriving DecidableEq, Repr

def SyntaxError.pos : SyntaxError → ℕ
  | .expected _ t | .invalidNumber t _ | .unknown _ t _ | .unexpected t => t.pos

def expect (k : Kind) (ts : List Token) : Except SyntaxError (List Token) :=
  if (cur ts).kind = k then .ok ts.tail else .error (.expected k.text (cur ts))

def isComparatorStart : Kind → Bool
  | .eq | .neq | .gt | .gte | .lt | .lte => true
  | _ => false

def opOfKind : Kind → Option Op
  | .eq => some .eq
  | .neq => some .neq
  | .gt => some .gt
  | .gte => some .gte
  | .lt => some .lt
  | .lte => some .lte
  | _ => none

def parseComparator (ts : List Token) : Except SyntaxError (Op × List Token) :=
  match opOfKind (cur ts).kind with
  | some op => .ok (op, ts.tail)
  | none => .error (.expected "a comparator (=, !=, >, >=, <, <=)" (cur ts))

def parseValue (ts : List Token) : Except SyntaxError (String × List Token) :=
  match (cur ts).kind with
  | .ident | .string | .number => .ok ((cur ts).value, ts.tail)
  | _ => .error (.expected "a value" (cur ts))

def parseComparison (ts : List Token) : Except SyntaxError (Term × List Token) := do
  let (op, ts₁) ← parseComparator ts.tail
  let (value, ts₂) ← parseValue ts₁
  .ok (.comparison (cur ts).value op value, ts₂)

/-- `strconv.Atoi` on the text of a number token. -/
def atoi (s : String) : Option ℕ :=
  if s.toList ≠ [] ∧ s.toList.all isDigit ∧ Nat.ofDigitChars 10 s.toList 0 ≤ maxInt then
    some (Nat.ofDigitChars 10 s.toList 0)
  else none

def timeUnitOfText (u : String) : Option TimeUnit :=
  if u = "s" then some .s
  else if u = "m" then some .m
  else if u = "h" then some .h
  else if u = "d" then some .d
  else if u = "w" then some .w
  else none

def parseSign (ts : List Token) : Sign × List Token :=
  match (cur ts).kind with
  | .minus => (.minus, ts.tail)
  | .plus => (.plus, ts.tail)
  | _ => (.plus, ts)

/-- The part of `parseTimeExpr` behind the optional sign. -/
def parseOffset (sign : Sign) (ts : List Token) : Except SyntaxError (TimeExpr × List Token) :=
  if (cur ts).kind ≠ .number then
    .error (.expected "a quoted absolute timestamp or a relative offset like -1h" (cur ts))
  else match atoi (cur ts).value with
    | none => .error (.invalidNumber (cur ts) " in time expression")
    | some n =>
      match (if (next ts).kind = .ident then timeUnitOfText (next ts).value else none) with
      | none => .error (.expected ("a time unit (s/m/h/d/w) after " ++ toString n) (next ts))
      | some unit => .ok (.relative sign n unit, ts.tail.tail)

def parseTimeExpr (ts : List Token) : Except SyntaxError (TimeExpr × List Token) :=
  if (cur ts).kind = .string then .ok (.absolute (cur ts).value, ts.tail)
  else parseOffset (parseSign ts).1 (parseSign ts).2

def parseTimeBound (kind : BoundKind) (ts : List Token) :
    Except SyntaxError (Term × List Token) := do
  let ts₁ ← expect .eq ts.tail
  let (expr, ts₂) ← parseTimeExpr ts₁
  .ok (.timeBound kind expr, ts₂)

def parseExplicitFreeText (ts : List Token) : Except SyntaxError (Term × List Token) := do
  let ts₁ ← expect .colon ts.tail
  if (cur ts₁).kind = .string then .ok (.freeText (cur ts₁).value, ts₁.tail)
  else .error (.expected "a quoted string after message:" (cur ts₁))

def parseTerm (ts : List Token) : Except SyntaxError (Term × List Token) :=
  match (cur ts).kind with
  | .ident =>
    if (cur ts).value = "earliest" then parseTimeBound .earliest ts
    else if (cur ts).value = "latest" then parseTimeBound .latest ts
    else if (cur ts).value = "message" ∧ (next ts).kind = .colon then parseExplicitFreeText ts
    else if isComparatorStart (next ts).kind then parseComparison ts
    -- A bare word is searched for; so is `message` without a colon behind it.
    else .ok (.freeText (cur ts).value, ts.tail)
  | .string => .ok (.freeText (cur ts).value, ts.tail)
  | _ => .error (.expected "a filter, comparison, or search term" (cur ts))

/-! ### What a parsing function leaves -/

/-- `r` is what is left of `ts` once at least one token is taken. -/
structure After (r ts : List Token) : Prop where
  suffix : r <:+ ts
  length_lt : r.length < ts.length

variable {r ts : List Token} {t : Term}

/-- The same after at least one token or before any. -/
theorem After.of_suffix {us : List Token} (h : r <:+ us) (hus : After us ts) : After r ts :=
  ⟨h.trans hus.suffix, h.length_le.trans_lt hus.length_lt⟩

theorem After.trans_suffix {us : List Token} (h : After r us) (hus : us <:+ ts) : After r ts :=
  ⟨h.suffix.trans hus, h.length_lt.trans_le hus.length_le⟩

theorem After.trans {us : List Token} (h : After r us) (hus : After us ts) : After r ts :=
  h.trans_suffix hus.suffix

theorem after_tail (h : (cur ts).kind ≠ .eof) : After ts.tail ts := by
  cases ts with
  | nil => exact absurd rfl h
  | cons t l => exact ⟨List.suffix_cons t l, Nat.lt_succ_self _⟩

/-- Identifier tokens hold identifiers. -/
def Lexed (ts : List Token) : Prop := ∀ t ∈ ts, t.kind = .ident → isIdentText t.value = true

theorem Lexed.suffix (h : Lexed ts) (hr : r <:+ ts) : Lexed r :=
  fun t ht => h t (hr.subset ht)

theorem Lexed.cur (h : Lexed ts) (hk : (cur ts).kind = .ident) :
    isIdentText (QueryLang.cur ts).value = true := by
  cases ts with
  | nil => cases hk
  | cons t l => exact h t List.mem_cons_self hk

theorem expect_ok {k : Kind} (h : expect k ts = .ok r) : (cur ts).kind = k ∧ r = ts.tail := by
  simp only [expect] at h
  split at h
  · exact ⟨‹_›, (Except.ok.inj h).symm⟩
  · cases h

theorem opOfKind_ne_eof {k : Kind} {op : Op} (h : opOfKind k = some op) : k ≠ .eof := by
  rintro rfl
  cases h

theorem parseComparator_after {op : Op} (h : parseComparator ts = .ok (op, r)) : After r ts := by
  simp only [parseComparator] at h
  split at h
  · cases h
    exact after_tail (opOfKind_ne_eof ‹_›)
  · cases h

theorem parseValue_after {v : String} (h : parseValue ts = .ok (v, r)) : After r ts := by
  simp only [parseValue] at h
  split at h
  all_goals first
    | cases h; done
    | cases h
      refine after_tail ?_
      simp [*]

theorem parseComparison_spec (h : parseComparison ts = .ok (t, r)) (hts : (cur ts).kind = .ident) :
    After r ts ∧ ∃ op v, t = .comparison (cur ts).value op v := by
  simp only [parseComparison, bind_eq_ok] at h
  obtain ⟨⟨op, ts₁⟩, hop, ⟨v, ts₂⟩, hv, h⟩ := h
  cases h
  have hstart : After ts.tail ts := after_tail (by simp [hts])
  exact ⟨(parseValue_after hv).trans ((parseComparator_after hop).trans hstart), op, v, rfl⟩

theorem atoi_le {s : String} {n : ℕ} (h : atoi s = some n) : n ≤ maxInt := by
  simp only [atoi, Option.ite_none_right_eq_some, Option.some.injEq] at h
  obtain ⟨⟨_, _, hle⟩, rfl⟩ := h
  exact hle

theorem parseOffset_spec {sign : Sign} {e : TimeExpr} (h : parseOffset sign ts = .ok (e, r)) :
    After r ts ∧ e.WellFormed := by
  simp only [parseOffset] at h
  split at h
  · cases h
  · rename_i hnum
    have hstart : After ts.tail ts := after_tail (by simp [not_not.mp hnum])
    split at h
    · cases h
    · rename_i n hn
      split at h
      · cases h
      · cases h
        exact ⟨hstart.of_suffix (List.tail_suffix _), atoi_le hn⟩

theorem parseSign_suffix (ts : List Token) : (parseSign ts).2 <:+ ts := by
  simp only [parseSign]
  split
  · exact List.tail_suffix ts
  · exact List.tail_suffix ts
  · exact List.suffix_rfl

theorem parseTimeExpr_spec {e : TimeExpr} (h : parseTimeExpr ts = .ok (e, r)) :
    After r ts ∧ e.WellFormed := by
  simp only [parseTimeExpr] at h
  split at h
  · rename_i hs
    cases h
    exact ⟨after_tail (by simp [hs]), trivial⟩
  · obtain ⟨hafter, he⟩ := parseOffset_spec h
    exact ⟨hafter.trans_suffix (parseSign_suffix ts), he⟩

theorem parseTimeBound_spec {kind : BoundKind} (h : parseTimeBound kind ts = .ok (t, r))
    (hts : (cur ts).kind = .ident) : After r ts ∧ t.WellFormed := by
  simp only [parseTimeBound, bind_eq_ok] at h
  obtain ⟨ts₁, hts₁, ⟨e, ts₂⟩, he, h⟩ := h
  cases h
  obtain ⟨_, rfl⟩ := expect_ok hts₁
  obtain ⟨hafter, hwf⟩ := parseTimeExpr_spec he
  have hstart : After ts.tail ts := after_tail (by simp [hts])
  exact ⟨hafter.trans (hstart.of_suffix (List.tail_suffix _)), hwf⟩

theorem parseExplicitFreeText_spec (h : parseExplicitFreeText ts = .ok (t, r))
    (hts : (cur ts).kind = .ident) : After r ts ∧ t.WellFormed := by
  simp only [parseExplicitFreeText, bind_eq_ok] at h
  obtain ⟨ts₁, hts₁, h⟩ := h
  obtain ⟨_, rfl⟩ := expect_ok hts₁
  have hstart : After ts.tail ts := after_tail (by simp [hts])
  split at h
  · cases h
    exact ⟨hstart.of_suffix ((List.tail_suffix _).trans (List.tail_suffix _)), trivial⟩
  · cases h

theorem parseTerm_spec (h : parseTerm ts = .ok (t, r)) :
    After r ts ∧ (Lexed ts → t.WellFormed) := by
  simp only [parseTerm] at h
  split at h
  · rename_i hk
    split at h
    · exact (parseTimeBound_spec h hk).imp_right (fun hwf _ => hwf)
    split at h
    · exact (parseTimeBound_spec h hk).imp_right (fun hwf _ => hwf)
    split at h
    · exact (parseExplicitFreeText_spec h hk).imp_right (fun hwf _ => hwf)
    split at h
    · obtain ⟨hafter, op, v, rfl⟩ := parseComparison_spec h hk
      exact ⟨hafter, fun hlex => ⟨hlex.cur hk, ‹_›, ‹_›⟩⟩
    · cases h
      exact ⟨after_tail (by simp [hk]), fun _ => trivial⟩
  · rename_i hk
    cases h
    exact ⟨after_tail (by simp [hk]), fun _ => trivial⟩
  · cases h

/-! ### Boolean expressions and lists -/

/-- The conjunction before another term, written out or implied by a token that can start
one. -/
def conjunction (ts : List Token) : Option (Conj × List Token) :=
  if (cur ts).kind = .ident ∧ (cur ts).value = "and" then some (.and, ts.tail)
  else if (cur ts).kind = .ident ∧ (cur ts).value = "or" then some (.or, ts.tail)
  else if (cur ts).kind = .ident ∨ (cur ts).kind = .string then some (.and, ts)
  else none

theorem conjunction_suffix {c : Conj} (h : conjunction ts = some (c, r)) : r <:+ ts := by
  simp only [conjunction] at h
  split at h
  · cases h
    exact List.tail_suffix ts
  split at h
  · cases h
    exact List.tail_suffix ts
  split at h
  · cases h
    exact List.suffix_rfl
  · cases h

/-- The loop of `parseBoolExpr`. -/
def parseMoreTerms (ts : List Token) : Except SyntaxError (List (Conj × Term) × List Token) :=
  match hc : conjunction ts with
  | none => .ok ([], ts)
  | some (c, ts₁) =>
    match ht : parseTerm ts₁ with
    | .error e => .error e
    | .ok (t, ts₂) =>
      have : ts₂.length < ts.length :=
        ((parseTerm_spec ht).1.trans_suffix (conjunction_suffix hc)).length_lt
      match parseMoreTerms ts₂ with
      | .error e => .error e
      | .ok (more, r) => .ok ((c, t) :: more, r)
termination_by ts.length

def parseBoolExpr (ts : List Token) : Except SyntaxError (BoolExpr × List Token) := do
  let (t, ts₁) ← parseTerm ts
  let (more, ts₂) ← parseMoreTerms ts₁
  .ok (⟨t :: more.map Prod.snd, more.map Prod.fst⟩, ts₂)

/-- One item, then further ones as long as a comma follows: the shape of the loops of
`parseStatsStage`, `parseSortStage` and `parseFieldsStage`. -/
def parseCommaList {α : Type} (item : List Token → Except SyntaxError (α × List Token))
    (hitem : ∀ ts a r, item ts = .ok (a, r) → After r ts) (ts : List Token) :
    Except SyntaxError (List α × List Token) :=
  match h : item ts with
  | .error e => .error e
  | .ok (a, ts₁) =>
    have : ts₁.length - 1 < ts.length :=
      (Nat.sub_le _ _).trans_lt (hitem ts a ts₁ h).length_lt
    if (cur ts₁).kind = .comma then
      match parseCommaList item hitem ts₁.tail with
      | .error e => .error e
      | .ok (as, r) => .ok (a :: as, r)
    else .ok ([a], ts₁)
termination_by ts.length

theorem parseMoreTerms_spec {more : List (Conj × Term)} (h : parseMoreTerms ts = .ok (more, r)) :
    r <:+ ts ∧ (Lexed ts → ∀ x ∈ more, x.2.WellFormed) := by
  fun_induction parseMoreTerms ts generalizing more r with
  | case1 ts hc =>
    cases h
    exact ⟨List.suffix_rfl, fun _ => nofun⟩
  | case2 ts c ts₁ hc e ht => cases h
  | case3 ts c ts₁ hc t ts₂ ht _ e hm ih => cases h
  | case4 ts c ts₁ hc t ts₂ ht _ more' r' hm ih =>
    cases h
    obtain ⟨hr, hwf⟩ := ih hm
    obtain ⟨hafter, htwf⟩ := parseTerm_spec ht
    have h₁ := conjunction_suffix hc
    refine ⟨hr.trans (hafter.suffix.trans h₁), fun hlex x hx => ?_⟩
    rcases List.mem_cons.mp hx with rfl | hx
    · exact htwf (hlex.suffix h₁)
    · exact hwf (hlex.suffix (hafter.suffix.trans h₁)) x hx

theorem parseBoolExpr_spec {e : BoolExpr} (h : parseBoolExpr ts = .ok (e, r)) :
    After r ts ∧ (Lexed ts → e.WellFormed) := by
  simp only [parseBoolExpr, bind_eq_ok] at h
  obtain ⟨⟨t, ts₁⟩, ht, ⟨more, ts₂⟩, hm, h⟩ := h
  cases h
  obtain ⟨hafter, htwf⟩ := parseTerm_spec ht
  obtain ⟨hr, hmwf⟩ := parseMoreTerms_spec hm
  refine ⟨hafter.of_suffix hr, fun hlex => ⟨?_, by simp⟩⟩
  intro x hx
  rcases List.mem_cons.mp hx with rfl | hx
  · exact htwf hlex
  · obtain ⟨y, hy, rfl⟩ := List.mem_map.mp hx
    exact hmwf (hlex.suffix hafter.suffix) y hy

theorem parseCommaList_spec {α : Type} {item : List Token → Except SyntaxError (α × List Token)}
    {hitem : ∀ ts a r, item ts = .ok (a, r) → After r ts} {P : α → Prop}
    (hP : ∀ ts a r, item ts = .ok (a, r) → Lexed ts → P a) {as : List α}
    (h : parseCommaList item hitem ts = .ok (as, r)) :
    After r ts ∧ as ≠ [] ∧ (Lexed ts → ∀ a ∈ as, P a) := by
  fun_induction parseCommaList item hitem ts generalizing as r with
  | case1 ts e hi => cases h
  | case2 ts a ts₁ hi _ hc e hm ih => cases h
  | case3 ts a ts₁ hi _ hc as' r' hm ih =>
    cases h
    have h₁ := hitem ts a ts₁ hi
    obtain ⟨hafter, _, hall⟩ := ih hm
    have h₂ : ts₁.tail <:+ ts := (List.tail_suffix _).trans h₁.suffix
    refine ⟨hafter.trans_suffix h₂, List.cons_ne_nil _ _, fun hlex x hx => ?_⟩
    rcases List.mem_cons.mp hx with rfl | hx
    · exact hP _ _ _ hi hlex
    · exact hall (hlex.suffix h₂) x hx
  | case4 ts a ts₁ hi _ hc =>
    cases h
    refine ⟨hitem ts a _ hi, List.cons_ne_nil _ _, fun hlex x hx => ?_⟩
    cases List.mem_singleton.mp hx
    exact hP _ _ _ hi hlex

end CairnObs.QueryLang
