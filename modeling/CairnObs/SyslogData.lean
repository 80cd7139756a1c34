import Mathlib.Data.Bool.AllAny
import CairnObs.Syslog

/-! Messages as RFC 5424 writes them, and what the parser makes of their structured data. -/
namespace CairnObs.Syslog

open Scanner RustStr

/-! ### Messages -/

/-- The characters of an SD-NAME: printable ASCII but for `=`, the space, `]` and `"`. -/
def isSdName (c : Char) : Bool :=
  decide (33 ≤ c.toNat ∧ c.toNat ≤ 126) && !(['=', ']', '"'].contains c)

/-- Quote, backslash and closing bracket are escaped in a value. -/
def isSpecial (c : Char) : Bool := ['"', '\\', ']'].contains c

/-- A value as it is written, and the value: a backslash in front of any other character than
these three is a character of the value (section 6.3.3). -/
inductive Written : List Char → List Char → Prop
  | nil : Written [] []
  | escaped {c : Char} {raw value : List Char} (hc : isSpecial c = true) (h : Written raw value) :
    Written ('\\' :: c :: raw) (c :: value)
  | backslash {c : Char} {raw value : List Char} (hc : isSpecial c = false)
    (h : Written raw value) : Written ('\\' :: c :: raw) ('\\' :: c :: value)
  | plain {c : Char} {raw value : List Char} (hc : isSpecial c = false) (h : Written raw value) :
    Written (c :: raw) (c :: value)

structure Param where
  name : List Char
  raw : List Char
  value : List Char
  name_ne : name ≠ []
  name_ok : ∀ c ∈ name, isSdName c = true
  written : Written raw value

structure Element where
  id : List Char
  params : List Param
  id_ne : id ≠ []
  id_ok : ∀ c ∈ id, isSdName c = true
  names : (params.map Param.name).Nodup

structure Message where
  pri : List Char
  header : Header
  elements : List Element
  msg : Option (List Char)
  pri_ok : IsPri pri
  header_ok : header.Ok
  ids : (elements.map Element.id).Nodup

def Param.text (p : Param) : List Char := p.name ++ '=' :: '"' :: (p.raw ++ ['"'])

/-- An element behind its opening bracket. -/
def Element.text (e : Element) : List Char :=
  e.id ++ ((e.params.map Param.text).flatMap (fun w => ' ' :: w) ++ [']'])

def Message.sdText (m : Message) : List Char :=
  if m.elements = [] then ['-'] else (m.elements.map Element.text).flatMap (fun w => '[' :: w)

def Message.rest (m : Message) : List Char := (m.msg.map (fun msg => ' ' :: msg)).getD []

def Message.text (m : Message) : List Char :=
  '<' :: (m.pri ++ '>' :: (m.header.text ++ (m.sdText ++ m.rest)))

/-! ### Values -/

/-- What the parser makes of a value. -/
def dropEscapes : List Char → List Char
  | [] => []
  | [c] => [c]
  | c :: d :: cs => if c = '\\' then d :: dropEscapes cs else c :: dropEscapes (d :: cs)

/-- No backslash is an ordinary character. -/
def onlyEscapes : List Char → Bool
  | [] => true
  | [_] => true
  | c :: d :: cs => if c = '\\' then isSpecial d && onlyEscapes cs else onlyEscapes (d :: cs)

variable {c : Char}

theorem dropEscapes_plain (hc : c ≠ '\\') (cs : List Char) :
    dropEscapes (c :: cs) = c :: dropEscapes cs := by
  cases cs with
  | nil => rfl
  | cons d cs => exact if_neg hc

theorem onlyEscapes_plain (hc : c ≠ '\\') (cs : List Char) :
    onlyEscapes (c :: cs) = onlyEscapes cs := by
  cases cs with
  | nil => rfl
  | cons d cs => exact if_neg hc

theorem ne_of_not_special (hc : isSpecial c = false) : c ≠ '"' ∧ c ≠ '\\' := by
  constructor
  · rintro rfl
    cases hc
  · rintro rfl
    cases hc

theorem Written.escapes {raw value : List Char} (h : Written raw value) :
    Escaped '"' '\\' raw (dropEscapes raw) := by
  induction h with
  | nil => exact .nil
  | escaped _ _ ih => exact .escaped ih
  | backslash _ _ ih => exact .escaped ih
  | plain hc _ ih =>
    obtain ⟨hquote, hesc⟩ := ne_of_not_special hc
    rw [dropEscapes_plain hesc]
    exact .plain hquote hesc ih

/-- The value comes back just if every backslash in it is an escape. -/
theorem Written.dropEscapes_eq_iff {raw value : List Char} (h : Written raw value) :
    dropEscapes raw = value ↔ onlyEscapes raw = true := by
  induction h with
  | nil => exact iff_of_true rfl rfl
  | @escaped c raw value hc _ ih =>
    have hdrop : dropEscapes ('\\' :: c :: raw) = c :: dropEscapes raw := rfl
    have honly : onlyEscapes ('\\' :: c :: raw) = (isSpecial c && onlyEscapes raw) := rfl
    rw [hdrop, honly, hc, Bool.true_and, List.cons.injEq, and_iff_right rfl, ih]
  | @backslash c raw value hc _ ih =>
    have hdrop : dropEscapes ('\\' :: c :: raw) = c :: dropEscapes raw := rfl
    have honly : onlyEscapes ('\\' :: c :: raw) = (isSpecial c && onlyEscapes raw) := rfl
    rw [hdrop, honly, hc, Bool.false_and]
    exact iff_of_false (fun h => (ne_of_not_special hc).2 (List.cons.inj h).1) Bool.false_ne_true
  | @plain c raw value hc _ ih =>
    have hesc := (ne_of_not_special hc).2
    rw [dropEscapes_plain hesc, onlyEscapes_plain hesc, List.cons.injEq, and_iff_right rfl, ih]

/-! ### Reading a message -/

theorem isSdName_spec (h : isSdName c = true) : c ≠ ' ' ∧ c ≠ ']' ∧ c ≠ '=' := by
  refine ⟨?_, ?_, ?_⟩
  · rintro rfl
    cases h
  · rintro rfl
    cases h
  · rintro rfl
    cases h

/-- The parameter as the parser reads it. -/
def Param.read (p : Param) : List Char × List Char := (p.name, dropEscapes p.raw)

def Element.read (e : Element) : List Pair :=
  e.params.map (fun p => ⟨e.id, p.name, dropEscapes p.raw⟩)

def Message.frame (m : Message) : Frame where
  pri := m.pri
  header := m.header
  pairs := m.elements.flatMap Element.read
  rest := m.rest

theorem Param.paramText (p : Param) : ParamText p.text p.read :=
  ⟨p.raw, rfl, fun h => (isSdName_spec (p.name_ok _ h)).2.2 rfl, p.written.escapes⟩

theorem Element.elementText (e : Element) : ElementText e.text e.read := by
  refine ⟨e.id, e.params.map Param.text, e.params.map Param.read, rfl, e.id_ne, ?_, ?_, ?_⟩
  · intro c hc
    obtain ⟨hspace, hbracket, -⟩ := isSdName_spec (e.id_ok c hc)
    exact ⟨hspace, hbracket⟩
  · rw [List.forall₂_map_left_iff, List.forall₂_map_right_iff, List.forall₂_same]
    exact fun p _ => p.paramText
  · rw [List.map_map]
    rfl

theorem Message.framed (m : Message) : Framed m.text m.frame := by
  refine ⟨m.pri_ok, m.header_ok, m.sdText, rfl, ?_, fun _ => ?_⟩
  · unfold Message.sdText
    split_ifs with hnil
    · exact .inl ⟨rfl, by rw [Message.frame, hnil]; rfl⟩
    · refine .inr ⟨m.elements.map Element.text, m.elements.map Element.read, ?_, rfl, ?_, ?_⟩
      · exact fun h => hnil (List.map_eq_nil_iff.mp h)
      · rw [List.forall₂_map_left_iff, List.forall₂_map_right_iff, List.forall₂_same]
        exact fun e _ => e.elementText
      · exact List.flatMap_def
  · show m.rest.head? ≠ some '['
    unfold Message.rest
    cases m.msg with
    | none => exact fun h => by cases h
    | some msg => exact fun h => by cases h

theorem Message.parse_text (m : Message) : parse m.text = m.frame.parsed := by
  rw [parse, parseRfc5424, scan_eq_some.mpr m.framed]
  rfl

/-! ### Attributes -/

/-- The attribute of a parameter. -/
def keyOf (e : Element) (p : Param) : List Char := e.id ++ '.' :: p.name

/-- All of the header and of the structured data can be found, each under its own key. -/
structure Message.Survives (m : Message) : Prop where
  header : ∀ h ∈ m.header.attributes, (parse m.text).attributes.lookup h.1 = some h.2
  params : ∀ e ∈ m.elements, ∀ p ∈ e.params,
    (parse m.text).attributes.lookup (keyOf e p) = some p.value
  distinct : ∀ e ∈ m.elements, ∀ p ∈ e.params, ∀ e' ∈ m.elements, ∀ p' ∈ e'.params,
    keyOf e p = keyOf e' p' → e.id = e'.id ∧ p.name = p'.name
  apart : ∀ e ∈ m.elements, ∀ p ∈ e.params, ∀ h ∈ m.header.attributes, keyOf e p ≠ h.1

def headerNames : List (List Char) :=
  ["version".toList, "timestamp".toList, "hostname".toList, "app_name".toList, "procid".toList,
    "msgid".toList]

/-- No ordinary backslash in a value, no element `syslog` with the name of a header field, and
no dots that can be read in two ways. -/
structure Message.Separate (m : Message) : Prop where
  escapes : ∀ e ∈ m.elements, ∀ p ∈ e.params, onlyEscapes p.raw = true
  syslog : ∀ e ∈ m.elements, e.id = "syslog".toList → ∀ p ∈ e.params, p.name ∉ headerNames
  dots : ∀ e ∈ m.elements, ∀ p ∈ e.params, ∀ e' ∈ m.elements, ∀ p' ∈ e'.params, ∀ part,
    ¬ (e'.id = e.id ++ '.' :: part ∧ p.name = part ++ '.' :: p'.name)

theorem header_keys (h : Header) :
    h.attributes.map Prod.fst = headerNames.map (fun name => "syslog".toList ++ '.' :: name) := by
  rfl

theorem exists_header_key {h : Header} {name : List Char} (hname : name ∈ headerNames) :
    ∃ x ∈ h.attributes, x.1 = "syslog".toList ++ '.' :: name := by
  have hmem : "syslog".toList ++ '.' :: name ∈ h.attributes.map Prod.fst := by
    rw [header_keys]
    exact List.mem_map_of_mem hname
  obtain ⟨x, hx, hkey⟩ := List.mem_map.mp hmem
  exact ⟨x, hx, hkey⟩

theorem header_key_name {h : Header} {x : List Char × List Char} (hx : x ∈ h.attributes) :
    ∃ name ∈ headerNames, x.1 = "syslog".toList ++ '.' :: name := by
  have hmem : x.1 ∈ h.attributes.map Prod.fst := List.mem_map_of_mem hx
  rw [header_keys] at hmem
  obtain ⟨name, hname, hkey⟩ := List.mem_map.mp hmem
  exact ⟨name, hname, hkey.symm⟩

/-- Two readings of one text with dots. -/
theorem dotted_eq {a b c d : List Char} (h : a ++ '.' :: b = c ++ '.' :: d) :
    (a = c ∧ b = d) ∨ (∃ part, c = a ++ '.' :: part ∧ b = part ++ '.' :: d) ∨
      ∃ part, a = c ++ '.' :: part ∧ d = part ++ '.' :: b := by
  rcases List.append_eq_append_iff.mp h with ⟨part, hc, hb⟩ | ⟨part, ha, hd⟩
  · cases part with
    | nil =>
      rw [List.append_nil] at hc
      exact .inl ⟨hc.symm, (List.cons.inj hb).2⟩
    | cons x part =>
      obtain ⟨rfl, hrest⟩ := List.cons.inj hb
      exact .inr (.inl ⟨part, hc, hrest⟩)
  · cases part with
    | nil =>
      rw [List.append_nil] at ha
      exact .inl ⟨ha, (List.cons.inj hd).2.symm⟩
    | cons x part =>
      obtain ⟨rfl, hrest⟩ := List.cons.inj hd
      exact .inr (.inr ⟨part, ha, hrest⟩)

section
variable {m : Message}

theorem mem_frame_pairs {x : Pair} :
    x ∈ m.frame.pairs ↔
      ∃ e ∈ m.elements, ∃ p ∈ e.params, x = ⟨e.id, p.name, dropEscapes p.raw⟩ := by
  show x ∈ m.elements.flatMap Element.read ↔ _
  rw [List.mem_flatMap]
  refine exists_congr (fun e => and_congr_right (fun _ => ?_))
  rw [Element.read, List.mem_map]
  exact exists_congr (fun p => and_congr_right (fun _ => eq_comm))

/-- What is found last under a key belongs to a parameter with that key. -/
theorem exists_of_lookup {key value : List Char}
    (h : (m.frame.pairs.map Pair.attribute).reverse.lookup key = some value) :
    ∃ e ∈ m.elements, ∃ p ∈ e.params, keyOf e p = key ∧ dropEscapes p.raw = value := by
  obtain ⟨l₁, l₂, hl, -⟩ := List.lookup_eq_some_iff.mp h
  have hmem : (key, value) ∈ m.frame.pairs.map Pair.attribute := by
    rw [← List.mem_reverse, hl]
    exact List.mem_append_right _ List.mem_cons_self
  obtain ⟨x, hx, heq⟩ := List.mem_map.mp hmem
  obtain ⟨e, he, p, hp, rfl⟩ := mem_frame_pairs.mp hx
  cases heq
  exact ⟨e, he, p, hp, rfl, rfl⟩

/-- Parameters with keys of their own are found. -/
theorem lookup_keyOf
    (hdistinct : ∀ e ∈ m.elements, ∀ p ∈ e.params, ∀ e' ∈ m.elements, ∀ p' ∈ e'.params,
      keyOf e p = keyOf e' p' → e.id = e'.id ∧ p.name = p'.name)
    {e : Element} (he : e ∈ m.elements) {p : Param} (hp : p ∈ e.params) :
    m.frame.parsed.attributes.lookup (keyOf e p) = some (dropEscapes p.raw) := by
  rw [Frame.parsed, lookup_insertAll]
  cases hlookup : (m.frame.pairs.map Pair.attribute).reverse.lookup (keyOf e p) with
  | none =>
    have hmem : (keyOf e p, dropEscapes p.raw) ∈ (m.frame.pairs.map Pair.attribute).reverse := by
      rw [List.mem_reverse]
      exact List.mem_map_of_mem (f := Pair.attribute) (mem_frame_pairs.mpr ⟨e, he, p, hp, rfl⟩)
    have hne := List.lookup_eq_none_iff.mp hlookup _ hmem
    exact absurd rfl (bne_iff_ne.mp hne)
  | some value =>
    obtain ⟨e', he', p', hp', hkey, hvalue⟩ := exists_of_lookup hlookup
    obtain ⟨hid, hname⟩ := hdistinct e' he' p' hp' e he p hp hkey
    obtain rfl := List.inj_on_of_nodup_map m.ids he' he hid
    obtain rfl := List.inj_on_of_nodup_map e'.names hp' hp hname
    exact congrArg some hvalue.symm

theorem Message.Separate.distinct (h : m.Separate) :
    ∀ e ∈ m.elements, ∀ p ∈ e.params, ∀ e' ∈ m.elements, ∀ p' ∈ e'.params,
      keyOf e p = keyOf e' p' → e.id = e'.id ∧ p.name = p'.name := by
  intro e he p hp e' he' p' hp' hkey
  rcases dotted_eq hkey with heq | ⟨part, hpart⟩ | ⟨part, hpart⟩
  · exact heq
  · exact absurd hpart (h.dots e he p hp e' he' p' hp' part)
  · exact absurd hpart (h.dots e' he' p' hp' e he p hp part)

theorem Message.Separate.apart (h : m.Separate) :
    ∀ e ∈ m.elements, ∀ p ∈ e.params, ∀ x ∈ m.header.attributes, keyOf e p ≠ x.1 := by
  intro e he p hp x hx hkey
  obtain ⟨name, hname, hxkey⟩ := header_key_name hx
  have hdot : '.' ∉ name := by
    simp only [headerNames, List.mem_cons, List.not_mem_nil, or_false] at hname
    rcases hname with rfl | rfl | rfl | rfl | rfl | rfl <;> decide
  rcases dotted_eq (hkey.trans hxkey) with ⟨hid, hpname⟩ | ⟨part, hsyslog, -⟩ | ⟨part, -, hpart⟩
  · exact h.syslog e he hid p hp (hpname ▸ hname)
  · have hmem : '.' ∈ "syslog".toList := by
      rw [hsyslog]
      exact List.mem_append_right _ List.mem_cons_self
    exact absurd hmem (by decide)
  · exact hdot (hpart ▸ List.mem_append_right _ List.mem_cons_self)

/-- The structured data of a message survives exactly if no value has an ordinary backslash and
no two keys meet. -/
theorem structured_data_survives_iff (m : Message) : m.Survives ↔ m.Separate := by
  constructor
  · intro h
    refine ⟨fun e he p hp => ?_, fun e he hid p hp hname => ?_,
      fun e he p hp e' he' p' hp' part hpart => ?_⟩
    · have hvalue := h.params e he p hp
      rw [m.parse_text, lookup_keyOf h.distinct he hp] at hvalue
      exact p.written.dropEscapes_eq_iff.mp (Option.some.inj hvalue)
    · obtain ⟨x, hx, hkey⟩ := exists_header_key (h := m.header) hname
      exact h.apart e he p hp x hx (by rw [hkey, keyOf, hid])
    · have hkey : keyOf e p = keyOf e' p' := by
        rw [keyOf, keyOf, hpart.1, hpart.2, List.append_assoc, List.cons_append]
      have hid := (h.distinct e he p hp e' he' p' hp' hkey).1
      rw [hpart.1] at hid
      exact absurd (List.self_eq_append_right.mp hid) (List.cons_ne_nil _ _)
  · intro h
    refine ⟨fun x hx => ?_, fun e he p hp => ?_, h.distinct, h.apart⟩
    · rw [m.parse_text]
      apply (lookup_parsed (f := m.frame) hx).mpr
      intro value hvalue
      obtain ⟨e, he, p, hp, hkey, -⟩ := exists_of_lookup hvalue
      exact absurd hkey (h.apart e he p hp x hx)
    · rw [m.parse_text, lookup_keyOf h.distinct he hp,
        p.written.dropEscapes_eq_iff.mpr (h.escapes e he p hp)]

end

def sampleHeader : Header := ⟨['1'], ['t'], ['h'], ['a'], ['p'], ['m']⟩

theorem sampleHeader_ok : sampleHeader.Ok :=
  ⟨List.all_iff_forall_prop.mp (by decide), List.all_iff_forall_prop.mp (by decide)⟩

theorem samplePri : IsPri "34".toList :=
  ⟨by decide, by decide, List.all_iff_forall_prop.mp (by decide), by decide⟩

/-- `[a dir="C:\\t"]`. -/
def windowsPath : Message where
  pri := "34".toList
  header := sampleHeader
  elements := [
    { id := ['a']
      params := [
        { name := "dir".toList
          raw := "C:\\t".toList
          value := "C:\\t".toList
          name_ne := by decide
          name_ok := List.all_eq_true.mp (by decide)
          written := .plain rfl (.plain rfl (.backslash rfl .nil)) }]
      id_ne := by decide
      id_ok := List.all_eq_true.mp (by decide)
      names := by decide }]
  msg := none
  pri_ok := samplePri
  header_ok := sampleHeader_ok
  ids := by decide

/-- `[a.b c="1"][a b.c="2"]`. -/
def sharedKey : Message where
  pri := "34".toList
  header := sampleHeader
  elements := [
    { id := "a.b".toList
      params := [
        { name := ['c']
          raw := ['1']
          value := ['1']
          name_ne := by decide
          name_ok := List.all_eq_true.mp (by decide)
          written := .plain rfl .nil }]
      id_ne := by decide
      id_ok := List.all_eq_true.mp (by decide)
      names := by decide },
    { id := ['a']
      params := [
        { name := "b.c".toList
          raw := ['2']
          value := ['2']
          name_ne := by decide
          name_ok := List.all_eq_true.mp (by decide)
          written := .plain rfl .nil }]
      id_ne := by decide
      id_ok := List.all_eq_true.mp (by decide)
      names := by decide }]
  msg := none
  pri_ok := samplePri
  header_ok := sampleHeader_ok
  ids := by decide

/-- The backslash of a path is lost, and of two parameters with one key the first. -/
theorem structured_data_lost :
    (parse windowsPath.text).attributes.lookup "a.dir".toList = some "C:t".toList ∧
    ¬ windowsPath.Survives ∧
    (parse sharedKey.text).attributes.lookup "a.b.c".toList = some ['2'] ∧
    ¬ sharedKey.Survives := by
  have hpath : (parse windowsPath.text).attributes.lookup "a.dir".toList = some "C:t".toList := by
    decide +kernel
  have hshared : (parse sharedKey.text).attributes.lookup "a.b.c".toList = some ['2'] := by
    decide +kernel
  refine ⟨hpath, fun h => ?_, hshared, fun h => ?_⟩
  · have hvalue := h.params _ List.mem_cons_self _ List.mem_cons_self
    have hsame := hpath.symm.trans hvalue
    exact absurd hsame (by decide)
  · have hvalue := h.params _ List.mem_cons_self _ List.mem_cons_self
    have hsame := hshared.symm.trans hvalue
    exact absurd hsame (by decide)

end CairnObs.Syslog
