import CairnObs.SqlPieces

/-! Tokens of a statement together with the white space and comments before them, and where
in the text a token stands. -/
namespace SqlLexer
open TextSearch

/-! ### Tokens with what stands before them -/

/-- A token, the white space and comments between it and the token before, and the character
right before it. -/
structure Piece where
  gap : List Char
  prev : Option Char
  token : SqlToken String
  deriving DecidableEq

/-- The first `n` tokens behind the character `prev`. -/
def pieces : ℕ → Option Char → Before → List Char → List Piece
  | 0, _, _, _ => []
  | n+1, prev, before, cs =>
    match splitBlank .code cs with
    | (_, []) => []
    | (gap, c :: rest) =>
      ⟨gap, lastOf prev gap, (scan before c rest).1⟩ ::
        pieces n (lastOf none (upTo (c :: rest) (scan before c rest).2))
          (scan before c rest).1.before (scan before c rest).2

/-- A token takes a character at least, so these are all of them. -/
def spaced (cs : List Char) : List Piece := pieces cs.length none .other cs

variable {cs : List Char} {before : Before} {prev : Option Char} {n : ℕ}

theorem pieces_tokens (h : cs.length ≤ n) :
    (pieces n prev before cs).map Piece.token = tokensFrom before cs := by
  induction n generalizing prev before cs with
  | zero =>
    obtain rfl : cs = [] := List.length_eq_zero_iff.mp (Nat.le_zero.mp h)
    exact tokens_nil.symm
  | succ n ih =>
    have hskip : skipBlank cs = (splitBlank .code cs).2 := rfl
    unfold pieces
    split
    · rename_i gap hsplit
      rw [hsplit] at hskip
      exact (tokens_of_nil hskip).symm
    · rename_i gap c rest hsplit
      rw [hsplit] at hskip
      have hlength := (skipBlank_suffix cs).length_le
      have hscan := (scan_suffix before c rest).length_le
      rw [hskip, List.length_cons] at hlength
      rw [tokens_of_cons hskip, List.map_cons, ih (by omega)]

theorem spaced_tokens (cs : List Char) : (spaced cs).map Piece.token = tokens cs :=
  pieces_tokens le_rfl

example : (spaced "$$/*$$\u00a0x.1.2 url/* /* */ */(.5e-1drop".toList).map Piece.token =
    [.literal "/*", .word "x", .symbol ".", .number "1", .symbol ".", .number "2", .word "url",
      .symbol "(", .number ".5e-1", .word "drop"] := by decide +kernel

/-! ### Where a token stands in the text -/

theorem upTo_of_suffix {rest : List Char} (h : rest <:+ cs) : cs = upTo cs rest ++ rest := by
  obtain ⟨pre, rfl⟩ := h
  rw [upTo_append]

/-- What the text `raw` of a token, in front of `rest`, says about it. -/
structure Reads (token : SqlToken String) (raw rest : List Char) : Prop where
  word : ∀ w, token = .word w → raw = w.toList ∧ rest.head?.any isWordChar = false
  symbol : ∀ s, token = .symbol s → raw = s.toList

theorem head?_dropWhile (p : Char → Bool) (cs : List Char) :
    (cs.dropWhile p).head?.any p = false := by
  have hnot := List.head?_dropWhile_not p cs
  cases hhead : (cs.dropWhile p).head? with
  | none => rfl
  | some c =>
    rw [hhead] at hnot
    simpa using hnot

theorem reads_wordToken (cs : List Char) :
    Reads (wordToken cs).1 (upTo cs (wordToken cs).2) (wordToken cs).2 := by
  refine ⟨fun w hw => ?_, nofun⟩
  cases hw
  have hsplit := upTo_append (cs.takeWhile isNameChar) (cs.dropWhile isNameChar)
  rw [List.takeWhile_append_dropWhile] at hsplit
  refine ⟨by rw [String.toList_ofList]; exact hsplit, ?_⟩
  have hend := head?_dropWhile isNameChar cs
  show (cs.dropWhile isNameChar).head?.any isWordChar = false
  cases hhead : (cs.dropWhile isNameChar).head? with
  | none => rfl
  | some c =>
    rw [hhead] at hend
    simp only [Option.any_some, isNameChar, Bool.or_eq_false_iff] at hend
    exact hend.1

theorem reads_numberToken (before : Before) (cs : List Char) :
    Reads (numberToken before cs).1 (upTo cs (numberToken before cs).2)
      (numberToken before cs).2 := by
  unfold numberToken
  dsimp only
  split_ifs
  · refine ⟨fun w hw => ?_, nofun⟩
    cases hw
    exact ⟨String.toList_ofList.symm, head?_dropWhile _ _⟩
  · exact ⟨nofun, nofun⟩
  · exact ⟨nofun, nofun⟩

theorem upTo_cons_self (c : Char) (cs : List Char) : upTo (c :: cs) cs = [c] :=
  upTo_append [c] cs

theorem reads_symbolToken {text raw rest : List Char} (h : raw = text) :
    Reads (.symbol (String.ofList text)) raw rest := by
  refine ⟨nofun, fun s hs => ?_⟩
  cases hs
  rw [h, String.toList_ofList]

theorem operator_split (c : Char) (cs : List Char) :
    upTo (c :: cs) (operator c cs).2 = (operator c cs).1 := by
  cases cs with
  | nil => rfl
  | cons d cs =>
    have hoperator : operator c (d :: cs) =
        if isOperator c d then ([c, d], cs) else ([c], d :: cs) := rfl
    rw [hoperator]
    split_ifs
    · exact upTo_append [c, d] cs
    · exact upTo_cons_self c _

theorem reads_scan (before : Before) (c : Char) (cs : List Char) :
    Reads (scan before c cs).1 (upTo (c :: cs) (scan before c cs).2) (scan before c cs).2 := by
  have hliteral (x raw rest) : Reads (quotedToken .literal x).1 raw rest := by
    cases x <;> exact ⟨nofun, nofun⟩
  have hident (x raw rest) : Reads (quotedToken .ident x).1 raw rest := by
    cases x <;> exact ⟨nofun, nofun⟩
  unfold scan
  split_ifs with hquote hback hdouble hleft hleft' hdigit hdot hdollar hword
  · exact hliteral _ _ _
  · exact hident _ _ _
  · exact hident _ _ _
  · exact hliteral _ _ _
  · exact hident _ _ _
  · exact reads_numberToken before _
  · subst hdot
    unfold dotToken
    split_ifs
    · exact ⟨nofun, nofun⟩
    · exact @reads_symbolToken ['.'] _ _ (upTo_cons_self _ _)
  · subst hdollar
    unfold dollarToken
    split
    · exact ⟨nofun, nofun⟩
    · split_ifs
      · exact reads_wordToken _
      · exact @reads_symbolToken ['$'] _ _ (upTo_cons_self _ _)
  · exact reads_wordToken _
  · exact reads_symbolToken (operator_split c cs)

/-- The place of a token in a text: `pre` and its gap stand before it, `post` behind it. -/
structure Stands (prev : Option Char) (cs : List Char) (p : Piece) (pre raw post : List Char) :
    Prop where
  text : cs = pre ++ p.gap ++ raw ++ post
  prev : p.prev = lastOf prev (pre ++ p.gap)
  nonempty : raw ≠ []
  reads : Reads p.token raw post

/-- The first token of a text has only its gap before it. -/
theorem first_piece {p : Piece} {r : List Piece} (h : pieces n prev before cs = p :: r) :
    ∃ raw post m after, Stands prev cs p [] raw post ∧
      r = pieces m (lastOf none raw) after post := by
  cases n with
  | zero => cases h
  | succ n =>
    unfold pieces at h
    split at h
    · cases h
    · rename_i gap c rest hsplit
      have hcs := splitBlank_append .code cs
      rw [hsplit] at hcs
      obtain ⟨rfl, hr⟩ := List.cons.inj h
      have hsuffix := scan_suffix before c rest
      have htext := upTo_of_suffix (hsuffix.trans (List.suffix_cons c rest))
      refine ⟨_, _, n, _, ⟨?_, rfl, ?_, reads_scan before c rest⟩, hr.symm⟩
      · rw [List.nil_append, List.append_assoc, ← htext]
        exact hcs.symm
      · intro hnil
        rw [hnil, List.nil_append] at htext
        have hlength := hsuffix.length_le
        rw [← htext, List.length_cons] at hlength
        omega

theorem stands_of_pieces {l r : List Piece} {p : Piece}
    (h : pieces n prev before cs = l ++ p :: r) :
    ∃ pre raw post m prev' after, Stands prev cs p pre raw post ∧
      r = pieces m prev' after post := by
  induction l generalizing n prev before cs with
  | nil =>
    obtain ⟨raw, post, m, after, hstands, hr⟩ := first_piece h
    exact ⟨[], raw, post, m, _, after, hstands, hr⟩
  | cons x l ih =>
    obtain ⟨raw, rest, m, after, hx, hl⟩ := first_piece h
    obtain ⟨pre, raw', post, m', prev', after', hstands, hr⟩ := ih hl.symm
    refine ⟨x.gap ++ raw ++ pre, raw', post, m', prev', after', ⟨?_, ?_, hstands.nonempty,
      hstands.reads⟩, hr⟩
    · rw [hx.text, hstands.text]
      simp only [List.nil_append, List.append_assoc]
    · rw [hstands.prev, List.append_assoc (x.gap ++ raw), lastOf_append prev (x.gap ++ raw),
        lastOf_append prev x.gap, lastOf_of_ne_nil (lastOf prev x.gap) none hx.nonempty]

/-- Two pieces that follow each other. -/
def neighbours {α : Type*} (l : List α) : List (α × α) := l.zip l.tail

theorem mem_neighbours {α : Type*} {l : List α} {x y : α} (h : (x, y) ∈ neighbours l) :
    ∃ a b, l = a ++ x :: y :: b := by
  induction l with
  | nil => cases h
  | cons z l ih =>
    cases l with
    | nil => cases h
    | cons z' l =>
      rcases List.mem_cons.mp h with he | h
      · cases he
        exact ⟨[], l, rfl⟩
      · obtain ⟨a, b, hl⟩ := ih h
        exact ⟨z :: a, b, by rw [hl]; rfl⟩

theorem neighbours_map {α β : Type*} (f : α → β) (l : List α) :
    neighbours (l.map f) = (neighbours l).map (Prod.map f f) := by
  unfold neighbours
  rw [← List.map_tail, List.zip_map]

end SqlLexer
