import CairnObs.PgColumns

/-! JSON objects with scalar members: as `json.Marshal` writes them, and as a JSONB column
takes them in and gives them out. Numbers, arrays and nested objects are left out: the
objects that are stored have strings and booleans only. -/
namespace Jsonb

open GoText PgColumns

inductive Scalar
  | null
  | bool (b : Bool)
  | str (t : Text)
  deriving DecidableEq

abbrev Object := List (Text × Scalar)

def unicodeEscape (c : Char) : Text :=
  ['\\', 'u', '0', '0', Nat.digitChar (c.toNat/16), Nat.digitChar (c.toNat%16)]

/-- The short escapes that both sides write. -/
def shortEscape (c : Char) : Option Char :=
  if c = '"' then some '"'
  else if c = '\\' then some '\\'
  else if c = '\x08' then some 'b'
  else if c = '\x0c' then some 'f'
  else if c = '\n' then some 'n'
  else if c = '\r' then some 'r'
  else if c = '\t' then some 't'
  else none

/-! ### `json.Marshal` -/

/-- `appendString` with `escapeHTML` set. -/
def marshalChar (c : Char) : Text :=
  match shortEscape c with
  | some e => ['\\', e]
  | none =>
    if c.toNat < 32 ∨ c = '<' ∨ c = '>' ∨ c = '&' then unicodeEscape c
    else if c = '\u2028' then ['\\', 'u', '2', '0', '2', '8']
    else if c = '\u2029' then ['\\', 'u', '2', '0', '2', '9']
    else [c]

def marshalString (t : Text) : Text := '"' :: (t.flatMap marshalChar ++ ['"'])

def marshalScalar : Scalar → Text
  | .null => "null".toList
  | .bool true => "true".toList
  | .bool false => "false".toList
  | .str t => marshalString t

def marshalMember (m : Text × Scalar) : Text := marshalString m.1 ++ ':' :: marshalScalar m.2

def marshalMembers : Object → Text
  | [] => []
  | [m] => marshalMember m
  | m :: ms => marshalMember m ++ ',' :: marshalMembers ms

def marshal (o : Object) : Text := '{' :: (marshalMembers o ++ ['}'])

/-! ### The input of the column -/

def unescape (e : Char) : Option Char :=
  if e = '"' ∨ e = '\\' ∨ e = '/' then some e
  else if e = 'b' then some '\x08'
  else if e = 'f' then some '\x0c'
  else if e = 'n' then some '\n'
  else if e = 'r' then some '\r'
  else if e = 't' then some '\t'
  else none

def hex4 : Text → Option (ℕ × Text)
  | a :: b :: c :: d :: rest => do
    let a ← hexValue a
    let b ← hexValue b
    let c ← hexValue c
    let d ← hexValue d
    some (4096*a+256*b+16*c+d, rest)
  | _ => none

/-- What follows a backslash and a `u`. The code point 0 cannot be stored, and a surrogate
stands for a character only as the first of a pair. -/
def readUnicode (cs : Text) : Option (Char × Text) :=
  match hex4 cs with
  | none => none
  | some (n, rest) =>
    if n = 0 then none
    else if 0xD800 ≤ n ∧ n < 0xDC00 then
      match rest with
      | '\\' :: 'u' :: cs' =>
        match hex4 cs' with
        | some (m, rest') =>
          if 0xDC00 ≤ m ∧ m < 0xE000 then
            some (Char.ofNat (0x10000+(n-0xD800)*0x400+(m-0xDC00)), rest')
          else none
        | none => none
      | _ => none
    else if 0xDC00 ≤ n ∧ n < 0xE000 then none
    else some (Char.ofNat n, rest)

/-- One character of a string. -/
def readChar : Text → Option (Char × Text)
  | [] => none
  | c :: rest =>
    if c = '\\' then
      match rest with
      | [] => none
      | e :: rest => if e = 'u' then readUnicode rest else (unescape e).map (fun c => (c, rest))
    else if c.toNat < 32 then none
    else some (c, rest)

/-- The characters of a string up to its closing quote. -/
def readChars : ℕ → Text → Option (Text × Text)
  | 0, _ => none
  | n+1, cs =>
    if cs.head? = some '"' then some ([], cs.tail)
    else
      match readChar cs with
      | none => none
      | some (c, rest) => (readChars n rest).map (fun r => (c :: r.1, r.2))

def isBlank (c : Char) : Bool := c == ' ' || c == '\t' || c == '\n' || c == '\r'

def skipBlanks (cs : Text) : Text := cs.dropWhile isBlank

def readString (cs : Text) : Option (Text × Text) :=
  match cs with
  | '"' :: rest => readChars rest.length rest
  | _ => none

def readScalar (cs : Text) : Option (Scalar × Text) :=
  if cs.take 4 = "null".toList then some (.null, cs.drop 4)
  else if cs.take 4 = "true".toList then some (.bool true, cs.drop 4)
  else if cs.take 5 = "false".toList then some (.bool false, cs.drop 5)
  else (readString cs).map (fun r => (.str r.1, r.2))

def readMember (cs : Text) : Option ((Text × Scalar) × Text) :=
  match readString (skipBlanks cs) with
  | none => none
  | some (key, rest) =>
    match skipBlanks rest with
    | ':' :: rest => (readScalar (skipBlanks rest)).map (fun r => ((key, r.1), skipBlanks r.2))
    | _ => none

/-- The members of an object that has some, with the closing brace. -/
def readMembers : ℕ → Text → Option (Object × Text)
  | 0, _ => none
  | n+1, cs =>
    match readMember cs with
    | none => none
    | some (m, rest) =>
      if rest.head? = some '}' then some ([m], rest.tail)
      else if rest.head? = some ',' then
        (readMembers n rest.tail).map (fun r => (m :: r.1, r.2))
      else none

def jsonbIn (t : Text) : Option Object :=
  match skipBlanks t with
  | '{' :: cs =>
    if (skipBlanks cs).head? = some '}' then
      if skipBlanks (skipBlanks cs).tail = [] then some [] else none
    else
      match readMembers cs.length cs with
      | some (o, rest) => if skipBlanks rest = [] then some o else none
      | none => none
  | _ => none

/-! ### What is stored, and the output of the column -/

/-- Shorter keys first, keys of one length by their bytes. -/
def keyLt (a b : Text) : Bool :=
  decide ((utf8 a).length < (utf8 b).length) ||
    decide ((utf8 a).length = (utf8 b).length) && decide (utf8 a < utf8 b)

/-- A later member with the same key takes the place of an earlier one. -/
def insertMember (m : Text × Scalar) : Object → Object
  | [] => [m]
  | n :: ns =>
    if m.1 = n.1 then m :: ns else if keyLt m.1 n.1 then m :: n :: ns else n :: insertMember m ns

def normalize (o : Object) : Object := o.foldl (fun acc m => insertMember m acc) []

/-- `escape_json`. -/
def jsonbChar (c : Char) : Text :=
  match shortEscape c with
  | some e => ['\\', e]
  | none => if c.toNat < 32 then unicodeEscape c else [c]

def jsonbString (t : Text) : Text := '"' :: (t.flatMap jsonbChar ++ ['"'])

def jsonbScalar : Scalar → Text
  | .null => "null".toList
  | .bool true => "true".toList
  | .bool false => "false".toList
  | .str t => jsonbString t

def jsonbMember (m : Text × Scalar) : Text := jsonbString m.1 ++ ':' :: ' ' :: jsonbScalar m.2

def jsonbMembers : Object → Text
  | [] => []
  | [m] => jsonbMember m
  | m :: ms => jsonbMember m ++ ',' :: ' ' :: jsonbMembers ms

def jsonbOut (o : Object) : Text := '{' :: (jsonbMembers o ++ ['}'])

theorem nul_not_mem_unicodeEscape (c : Char) : nul ∉ unicodeEscape c := by
  simp [unicodeEscape, nul]

theorem nul_not_mem_jsonbChar (c : Char) : nul ∉ jsonbChar c := by
  unfold jsonbChar
  split
  next e he =>
    have hnul : e ≠ nul := by
      unfold shortEscape at he
      split_ifs at he <;> cases he <;> decide
    simp [hnul.symm, show nul ≠ '\\' by decide]
  next he =>
    split_ifs with hc
    · exact nul_not_mem_unicodeEscape c
    · intro h
      rw [← List.mem_singleton.mp h] at hc
      exact hc (by decide)

theorem nul_not_mem_jsonbString (t : Text) : nul ∉ jsonbString t := by
  simp [jsonbString, nul_not_mem_jsonbChar, show nul ≠ '"' by decide]

theorem nul_not_mem_jsonbMember (m : Text × Scalar) : nul ∉ jsonbMember m := by
  have hscalar : nul ∉ jsonbScalar m.2 := by
    cases m.2 with
    | null => decide
    | bool b => cases b <;> decide
    | str t => exact nul_not_mem_jsonbString t
  simp [jsonbMember, nul_not_mem_jsonbString, hscalar, show nul ≠ ':' by decide,
    show nul ≠ ' ' by decide]

theorem nul_not_mem_jsonbMembers (o : Object) : nul ∉ jsonbMembers o := by
  induction o with
  | nil => exact List.not_mem_nil
  | cons m ms ih =>
    cases ms with
    | nil => exact nul_not_mem_jsonbMember m
    | cons k ks =>
      simp [jsonbMembers, nul_not_mem_jsonbMember, ih, show nul ≠ ',' by decide,
        show nul ≠ ' ' by decide]

theorem nul_not_mem_jsonbOut (o : Object) : nul ∉ jsonbOut o := by
  simp [jsonbOut, nul_not_mem_jsonbMembers, show nul ≠ '{' by decide, show nul ≠ '}' by decide]

/-- A JSONB parameter, with the text a SELECT returns for the stored value. -/
def jsonbColumn (t : Text) : Option ColumnText :=
  if nul ∈ t then none
  else (jsonbIn t).map (fun o => ⟨jsonbOut (normalize o), nul_not_mem_jsonbOut _⟩)

/-! ### The column takes in what `json.Marshal` writes -/

theorem readUnicode_digits {c : Char} (hc : c.toNat < 256) (rest : Text) :
    readUnicode ('0' :: '0' :: Nat.digitChar (c.toNat/16) :: Nat.digitChar (c.toNat%16) :: rest) =
      if c = nul then none else some (c, rest) := by
  have hhex :
      hex4 ('0' :: '0' :: Nat.digitChar (c.toNat/16) :: Nat.digitChar (c.toNat%16) :: rest) =
      some (c.toNat, rest) := by
    have hzero : hexValue '0' = some 0 := rfl
    have hsum : 16*(c.toNat/16)+c.toNat%16 = c.toNat := Nat.div_add_mod _ _
    simp only [hex4, hzero, hexValue_digitChar (show c.toNat/16 < 16 by omega),
      hexValue_digitChar (Nat.mod_lt c.toNat (show 0 < 16 by decide)), Option.bind_eq_bind,
      Option.bind_some, Nat.mul_zero, Nat.zero_add, hsum]
  have hzero : c.toNat = 0 ↔ c = nul := by
    constructor
    · intro h
      rw [← Char.ofNat_toNat c, h]
      rfl
    · rintro rfl
      rfl
  unfold readUnicode
  rw [hhex]
  by_cases hnul : c = nul
  · simp only [hzero, if_pos hnul]
  · simp only [hzero, if_neg hnul, Char.ofNat_toNat]
    rw [if_neg (by omega), if_neg (by omega)]

/-- The characters that `json.Marshal` writes with a short escape. -/
theorem readChar_shortEscape {c e : Char} (h : shortEscape c = some e) (rest : Text) :
    readChar ('\\' :: e :: rest) = some (c, rest) := by
  unfold shortEscape at h
  split_ifs at h with h₁ h₂ h₃ h₄ h₅ h₆ h₇ <;> cases h <;> subst_vars <;> rfl

theorem readChar_marshalChar (c : Char) (rest : Text) :
    readChar (marshalChar c ++ rest) = if c = nul then none else some (c, rest) := by
  unfold marshalChar
  split
  next e he =>
    have hc : c ≠ nul := by
      rintro rfl
      simp [shortEscape, nul] at he
    rw [if_neg hc]
    exact readChar_shortEscape he rest
  next he =>
    by_cases hesc : c.toNat < 32 ∨ c = '<' ∨ c = '>' ∨ c = '&'
    · have hc : c.toNat < 256 := by
        rcases hesc with h | rfl | rfl | rfl
        · omega
        all_goals decide
      rw [if_pos hesc]
      exact readUnicode_digits hc rest
    · have hc : c ≠ nul := by
        rintro rfl
        exact hesc (.inl (by decide))
      rw [if_neg hesc, if_neg hc]
      by_cases h28 : c = '\u2028'
      · subst h28
        rfl
      by_cases h29 : c = '\u2029'
      · subst h29
        rfl
      have hslash : c ≠ '\\' := by
        rintro rfl
        simp [shortEscape] at he
      rw [if_neg h28, if_neg h29]
      simp only [readChar, List.singleton_append, if_neg hslash,
        if_neg (fun h => hesc (.inl h))]

theorem head?_marshalChar (c : Char) (rest : Text) : (marshalChar c ++ rest).head? ≠ some '"' := by
  unfold marshalChar
  split
  next e he => simp
  next he =>
    have hquote : c ≠ '"' := by
      rintro rfl
      simp [shortEscape] at he
    split_ifs <;> simp [unicodeEscape, hquote]

theorem marshalChar_ne_nil (c : Char) : marshalChar c ≠ [] := by
  unfold marshalChar
  split
  · exact List.cons_ne_nil _ _
  · split_ifs <;> exact List.cons_ne_nil _ _

/-- A text with a NUL is escaped by the one side and refused by the other. -/
theorem readChars_marshal (t rest : Text) (n : ℕ) (hn : t.length < n) :
    readChars n (t.flatMap marshalChar ++ '"' :: rest) =
      if nul ∈ t then none else some (t, rest) := by
  induction t generalizing n with
  | nil =>
    cases n with
    | zero => exact absurd hn (Nat.not_lt_zero _)
    | succ n => rfl
  | cons c t ih =>
    cases n with
    | zero => exact absurd hn (Nat.not_lt_zero _)
    | succ n =>
      rw [List.flatMap_cons, List.append_assoc, readChars, if_neg (head?_marshalChar c _),
        readChar_marshalChar]
      by_cases hc : c = nul
      · simp [hc]
      · simp only [if_neg hc, ih n (Nat.lt_of_succ_lt_succ hn), List.mem_cons, Ne.symm hc, false_or]
        by_cases ht : nul ∈ t <;> simp [ht]

theorem length_le_marshal (t : Text) : t.length ≤ (t.flatMap marshalChar).length := by
  induction t with
  | nil => exact Nat.le_refl _
  | cons c t ih =>
    have hc := List.length_pos_of_ne_nil (marshalChar_ne_nil c)
    rw [List.flatMap_cons, List.length_append, List.length_cons]
    omega

theorem marshalString_append (t rest : Text) :
    marshalString t ++ rest = '"' :: (t.flatMap marshalChar ++ '"' :: rest) := by
  simp [marshalString]

theorem readString_marshalString (t rest : Text) :
    readString (marshalString t ++ rest) = if nul ∈ t then none else some (t, rest) := by
  have hlen := length_le_marshal t
  rw [marshalString_append]
  exact readChars_marshal t rest _ (by simp only [List.length_append, List.length_cons]; omega)

def Scalar.storable : Scalar → Bool
  | .str t => decide (nul ∉ t)
  | _ => true

def memberStorable (m : Text × Scalar) : Bool := decide (nul ∉ m.1) && m.2.storable

/-- The objects JSONB can hold: no NUL in a key or a string. -/
def storable (o : Object) : Bool := o.all memberStorable

theorem skipBlanks_cons {c : Char} (hc : isBlank c = false) (cs : Text) :
    skipBlanks (c :: cs) = c :: cs := by
  simp [skipBlanks, hc]

theorem readScalar_marshalScalar (v : Scalar) (rest : Text) :
    readScalar (marshalScalar v ++ rest) = if v.storable then some (v, rest) else none := by
  cases v with
  | null => rfl
  | bool b => cases b <;> rfl
  | str t =>
    -- a string starts with a quote, so none of the three words does
    have hword (k : ℕ) (word : Text) (hw : word.head? ≠ some '"') :
        (marshalString t ++ rest).take (k+1) ≠ word := by
      rintro rfl
      exact hw (by rw [marshalString_append, List.take_succ_cons, List.head?_cons])
    have hnull : (marshalString t ++ rest).take 4 ≠ "null".toList := hword 3 _ (by decide)
    have htrue : (marshalString t ++ rest).take 4 ≠ "true".toList := hword 3 _ (by decide)
    have hfalse : (marshalString t ++ rest).take 5 ≠ "false".toList := hword 4 _ (by decide)
    change readScalar (marshalString t ++ rest) = _
    rw [readScalar, if_neg hnull, if_neg htrue, if_neg hfalse, readString_marshalString]
    by_cases ht : nul ∈ t <;> simp [ht, Scalar.storable]

theorem skipBlanks_marshalScalar (v : Scalar) (rest : Text) :
    skipBlanks (marshalScalar v ++ rest) = marshalScalar v ++ rest := by
  cases v with
  | null => rfl
  | bool b => cases b <;> rfl
  | str t => exact skipBlanks_cons rfl _

theorem readMember_marshalMember (m : Text × Scalar) {rest : Text}
    (hrest : skipBlanks rest = rest) :
    readMember (marshalMember m ++ rest) =
      if memberStorable m then some (m, rest) else none := by
  have hstart : skipBlanks (marshalMember m ++ rest) =
      marshalString m.1 ++ ':' :: (marshalScalar m.2 ++ rest) := by
    rw [marshalMember, List.append_assoc, List.cons_append]
    exact skipBlanks_cons rfl _
  unfold readMember
  rw [hstart, readString_marshalString]
  by_cases hkey : nul ∈ m.1
  · simp [hkey, memberStorable]
  · simp only [if_neg hkey, skipBlanks_cons (c := ':') rfl, skipBlanks_marshalScalar,
      readScalar_marshalScalar]
    cases hv : m.2.storable <;> simp [hv, hkey, hrest, memberStorable]

theorem marshalMembers_cons (m : Text × Scalar) {ms : Object} (h : ms ≠ []) :
    marshalMembers (m :: ms) = marshalMember m ++ ',' :: marshalMembers ms := by
  cases ms with
  | nil => exact absurd rfl h
  | cons n ns => rfl

theorem readMembers_marshalMembers {o : Object} (ho : o ≠ []) (rest : Text) (n : ℕ)
    (hn : o.length ≤ n) :
    readMembers n (marshalMembers o ++ '}' :: rest) =
      if storable o then some (o, rest) else none := by
  induction o generalizing n with
  | nil => exact absurd rfl ho
  | cons m ms ih =>
    cases n with
    | zero => exact absurd hn (Nat.not_succ_le_zero _)
    | succ n =>
      cases ms with
      | nil =>
        rw [marshalMembers, readMembers, readMember_marshalMember m (skipBlanks_cons rfl _)]
        cases hm : memberStorable m <;> simp [hm, storable]
      | cons k ks =>
        have hrest := ih (List.cons_ne_nil k ks) n (Nat.le_of_succ_le_succ hn)
        rw [marshalMembers_cons m (List.cons_ne_nil k ks), List.append_assoc, List.cons_append,
          readMembers, readMember_marshalMember m (skipBlanks_cons rfl _)]
        have hall : storable (m :: k :: ks) = (memberStorable m && storable (k :: ks)) := rfl
        rw [hall]
        cases hm : memberStorable m with
        | false => rfl
        | true =>
          simp only [if_true, List.head?_cons, List.tail_cons, hrest, Bool.true_and]
          cases storable (k :: ks) <;> rfl

theorem length_le_marshalMembers (o : Object) : o.length ≤ (marshalMembers o).length := by
  have hpos (m : Text × Scalar) : 0 < (marshalMember m).length := by
    simp [marshalMember, marshalString]
  induction o with
  | nil => exact Nat.le_refl _
  | cons m ms ih =>
    cases ms with
    | nil => exact hpos m
    | cons k ks =>
      rw [marshalMembers_cons m (List.cons_ne_nil k ks), List.length_append, List.length_cons,
        List.length_cons]
      have hm := hpos m
      simp only [List.length_cons] at ih ⊢
      omega

/-- The column reads back the object that was marshaled, or refuses it. -/
theorem jsonbIn_marshal (o : Object) :
    jsonbIn (marshal o) = if storable o then some o else none := by
  cases o with
  | nil => rfl
  | cons m ms =>
    have hstart : skipBlanks (marshal (m :: ms)) = marshal (m :: ms) := skipBlanks_cons rfl _
    have hquote : ∃ cs, marshalMembers (m :: ms) ++ ['}'] = '"' :: cs := by
      cases ms with
      | nil => exact ⟨_, rfl⟩
      | cons k ks => exact ⟨_, rfl⟩
    obtain ⟨cs, hcs⟩ := hquote
    have hlen := length_le_marshalMembers (m :: ms)
    have hread := readMembers_marshalMembers (List.cons_ne_nil m ms) [] cs.length.succ
      (by have := congrArg List.length hcs; simp at this hlen ⊢; omega)
    unfold jsonbIn
    rw [hstart, marshal, hcs]
    simp only [skipBlanks_cons (c := '"') rfl, List.length_cons]
    rw [← hcs, hread]
    by_cases h : storable (m :: ms) = true
    · simp [h, skipBlanks, hcs]
    · simp [h, hcs]

theorem jsonbColumn_marshal {o : Object} {c : ColumnText} (h : jsonbColumn (marshal o) = some c) :
    c.text = jsonbOut (normalize o) := by
  rw [jsonbColumn, jsonbIn_marshal] at h
  split_ifs at h
  · rw [← Option.some.inj h]
  · exact absurd h (by simp)

end Jsonb
