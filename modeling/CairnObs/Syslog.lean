import Mathlib.Data.List.AList
import CairnObs.RustStr
import CairnObs.Scanner

/-! The agent's syslog parser, `cairnobs-parser`: RFC 5424 framing, and the line as it is where
that does not fit. -/
namespace CairnObs.Syslog

open Scanner RustStr

/-- A `BTreeMap<String, String>`. -/
abbrev Attributes := AList (fun _ : List Char => List Char)

structure ParsedLine where
  facility : Option ℕ
  severity : Option ℕ
  attributes : Attributes
  message : List Char

/-! ### Scanning -/

/-- `<`, one to three digits that make at most 191, and `>`. -/
def priority (line : List Char) : Option (List Char × List Char) :=
  (expect '<' line).bind (fun cs =>
    if cs.takeWhile Char.isDigit = [] ∨ 3 < byteLen (cs.takeWhile Char.isDigit) then none
    else (expect '>' (cs.dropWhile Char.isDigit)).bind (fun rest =>
      (parseUnsigned (2^16) (cs.takeWhile Char.isDigit)).bind (fun n =>
        if 191 < n then none else some (cs.takeWhile Char.isDigit, rest))))

def versionField (cs : List Char) : Option (List Char × List Char) :=
  if cs.takeWhile Char.isDigit = [] then none
  else (expect ' ' (cs.dropWhile Char.isDigit)).map (fun rest => (cs.takeWhile Char.isDigit, rest))

/-- A field of the header with the space behind it. -/
def field (cs : List Char) : Option (List Char × List Char) :=
  if cs.takeWhile (fun c => decide (c ≠ ' ')) = [] then none else upTo ' ' cs

structure Header where
  version : List Char
  timestamp : List Char
  hostname : List Char
  appName : List Char
  procid : List Char
  msgid : List Char

def header (cs : List Char) : Option (Header × List Char) :=
  (versionField cs).bind (fun version =>
    (field version.2).bind (fun timestamp =>
      (field timestamp.2).bind (fun hostname =>
        (field hostname.2).bind (fun appName =>
          (field appName.2).bind (fun procid =>
            (field procid.2).map (fun msgid =>
              (⟨version.1, timestamp.1, hostname.1, appName.1, procid.1, msgid.1⟩, msgid.2)))))))

/-- The name and the value of a parameter, behind its space. A backslash is dropped and the
character behind it kept, whatever it is. -/
def param (cs : List Char) : Option ((List Char × List Char) × List Char) :=
  (upTo '=' cs).bind (fun name =>
    (expect '"' name.2).bind (fun cs =>
      (quoted '"' '\\' cs).map (fun value => ((name.1, value.1), value.2))))

/-- A parameter with the id of its element. -/
structure Pair where
  id : List Char
  name : List Char
  value : List Char
  deriving DecidableEq

/-- An element behind its opening bracket. -/
def element (cs : List Char) : Option (List Pair × List Char) :=
  if cs.takeWhile (fun c => decide (c ≠ ' ' ∧ c ≠ ']')) = [] then none
  else
    (many ' ' param cs.length (cs.dropWhile (fun c => decide (c ≠ ' ' ∧ c ≠ ']')))).bind
      (fun params => (expect ']' params.2).map (fun rest =>
        (params.1.map (fun p =>
          ⟨cs.takeWhile (fun c => decide (c ≠ ' ' ∧ c ≠ ']')), p.1, p.2⟩), rest)))

def structuredData : List Char → Option (List Pair × List Char)
  | [] => none
  | c :: cs =>
    if c = '-' then some ([], cs)
    else if c = '[' then
      (many '[' element (cs.length+1) (c :: cs)).map (fun es => (es.1.flatten, es.2))
    else none

/-- All parts of a line; `rest` is what stands behind the structured data. -/
structure Frame where
  pri : List Char
  header : Header
  pairs : List Pair
  rest : List Char

def scan (line : List Char) : Option Frame :=
  (priority line).bind (fun pri =>
    (header pri.2).bind (fun h =>
      (structuredData h.2).map (fun sd => ⟨pri.1, h.1, sd.1, sd.2⟩)))

/-! ### The parsed line -/

def Header.attributes (h : Header) : List (List Char × List Char) :=
  [("syslog.version".toList, h.version), ("syslog.timestamp".toList, h.timestamp),
    ("syslog.hostname".toList, h.hostname), ("syslog.app_name".toList, h.appName),
    ("syslog.procid".toList, h.procid), ("syslog.msgid".toList, h.msgid)]

def Pair.key (p : Pair) : List Char := p.id ++ '.' :: p.name

def Pair.attribute (p : Pair) : List Char × List Char := (p.key, p.value)

def insertAll (m : Attributes) (ps : List (List Char × List Char)) : Attributes :=
  ps.foldl (fun m p => m.insert p.1 p.2) m

/-- Without a space behind the structured data there is no message. -/
def Frame.message (f : Frame) : List Char :=
  if f.rest.head? = some ' ' then f.rest.tail else []

def Frame.parsed (f : Frame) : ParsedLine where
  facility := some (decimal 0 f.pri/8)
  severity := some (decimal 0 f.pri%8)
  attributes := insertAll (insertAll ∅ f.header.attributes) (f.pairs.map Pair.attribute)
  message := f.message

def parseRfc5424 (line : List Char) : Option ParsedLine := (scan line).map Frame.parsed

/-- A line that does not fit is its own message. -/
def passthrough (line : List Char) : ParsedLine := ⟨none, none, ∅, line⟩

def parse (line : List Char) : ParsedLine := (parseRfc5424 line).getD (passthrough line)

/-! ### What is scanned -/

structure IsPri (pri : List Char) : Prop where
  ne_nil : pri ≠ []
  length : pri.length ≤ 3
  digits : ∀ c ∈ pri, c.isDigit = true
  bound : decimal 0 pri ≤ 191

variable {cs rest : List Char} {f : Frame}

/-- Digits up to a character that is none. -/
theorem digits_iff {pri : List Char} {c : Char} (hc : c.isDigit = false) :
    cs.takeWhile Char.isDigit = pri ∧ cs.dropWhile Char.isDigit = c :: rest ↔
      cs = pri ++ c :: rest ∧ ∀ d ∈ pri, d.isDigit = true := by
  rw [span_iff]
  refine and_congr_right (fun _ => and_iff_left ?_)
  intro d hd
  cases hd
  exact hc

theorem priority_eq_some {line pri : List Char} :
    priority line = some (pri, rest) ↔ line = '<' :: (pri ++ '>' :: rest) ∧ IsPri pri := by
  constructor
  · intro h
    obtain ⟨cs, hcs, h⟩ := Option.bind_eq_some_iff.mp h
    split_ifs at h with hlen
    obtain ⟨rest', hrest, h⟩ := Option.bind_eq_some_iff.mp h
    obtain ⟨n, hn, h⟩ := Option.bind_eq_some_iff.mp h
    split_ifs at h with hbound
    cases h
    obtain ⟨hne, hle⟩ := not_or.mp hlen
    obtain ⟨hsplit, hdigits⟩ := (digits_iff rfl).mp ⟨rfl, expect_eq_some.mp hrest⟩
    rw [parseUnsigned_of_digits (by decide) hne hdigits] at hn
    rw [byteLen_of_isDigit hdigits] at hle
    refine ⟨?_, hne, Nat.le_of_not_lt hle, hdigits, ?_⟩
    · rw [expect_eq_some.mp hcs, ← hsplit]
    · rw [← hn.1]
      exact Nat.le_of_not_lt hbound
  · rintro ⟨rfl, hpri⟩
    obtain ⟨htake, hdrop⟩ := (digits_iff (c := '>') rfl).mpr ⟨rfl, hpri.digits⟩
    have hlen : ¬ (pri = [] ∨ 3 < byteLen pri) := by
      rw [byteLen_of_isDigit hpri.digits]
      exact not_or.mpr ⟨hpri.ne_nil, Nat.not_lt_of_le hpri.length⟩
    have hnumber : parseUnsigned (2^16) pri = some (decimal 0 pri) :=
      (parseUnsigned_of_digits (by decide) hpri.ne_nil hpri.digits).mpr
        ⟨rfl, lt_of_le_of_lt hpri.bound (by decide)⟩
    rw [priority, expect_eq_some.mpr rfl, Option.bind_some, htake, hdrop, if_neg hlen,
      expect_eq_some.mpr rfl, Option.bind_some, hnumber, Option.bind_some,
      if_neg (Nat.not_lt_of_le hpri.bound)]

theorem versionField_eq_some {version : List Char} :
    versionField cs = some (version, rest) ↔
      cs = version ++ ' ' :: rest ∧ version ≠ [] ∧ ∀ c ∈ version, c.isDigit = true := by
  constructor
  · intro h
    unfold versionField at h
    split_ifs at h with hne
    obtain ⟨rest', hrest, heq⟩ := Option.map_eq_some_iff.mp h
    cases heq
    obtain ⟨hsplit, hdigits⟩ := (digits_iff rfl).mp ⟨rfl, expect_eq_some.mp hrest⟩
    exact ⟨hsplit, hne, hdigits⟩
  · rintro ⟨rfl, hne, hdigits⟩
    obtain ⟨htake, hdrop⟩ := (digits_iff (c := ' ') rfl).mpr ⟨rfl, hdigits⟩
    rw [versionField, htake, hdrop, if_neg hne, expect_eq_some.mpr rfl]
    rfl

theorem field_eq_some {a : List Char} :
    field cs = some (a, rest) ↔ cs = a ++ ' ' :: rest ∧ a ≠ [] ∧ ' ' ∉ a := by
  constructor
  · intro h
    unfold field at h
    split_ifs at h with hne
    have htake : cs.takeWhile (fun c => decide (c ≠ ' ')) = a := by
      obtain ⟨rest', -, heq⟩ := Option.map_eq_some_iff.mp h
      cases heq
      rfl
    obtain ⟨hsplit, hspace⟩ := upTo_eq_some.mp h
    exact ⟨hsplit, htake ▸ hne, hspace⟩
  · rintro ⟨hcs, hne, hspace⟩
    have hread := upTo_eq_some.mpr ⟨hcs, hspace⟩
    have htake : cs.takeWhile (fun c => decide (c ≠ ' ')) = a := by
      obtain ⟨rest', -, heq⟩ := Option.map_eq_some_iff.mp hread
      cases heq
      rfl
    rw [field, htake, if_neg hne, hread]

def Header.fields (h : Header) : List (List Char) :=
  [h.version, h.timestamp, h.hostname, h.appName, h.procid, h.msgid]

/-- Every field with a space behind it. -/
def Header.text (h : Header) : List Char := h.fields.flatMap (fun f => f ++ [' '])

structure Header.Ok (h : Header) : Prop where
  version : ∀ c ∈ h.version, c.isDigit = true
  fields : ∀ f ∈ h.fields, f ≠ [] ∧ ' ' ∉ f

theorem Header.text_append (h : Header) (rest : List Char) :
    h.text ++ rest = h.version ++ ' ' :: (h.timestamp ++ ' ' :: (h.hostname ++ ' ' ::
      (h.appName ++ ' ' :: (h.procid ++ ' ' :: (h.msgid ++ ' ' :: rest))))) := by
  simp [Header.text, Header.fields]

theorem header_eq_some {h : Header} : header cs = some (h, rest) ↔ cs = h.text ++ rest ∧ h.Ok := by
  rw [Header.text_append]
  constructor
  · intro hread
    obtain ⟨⟨version, cs₁⟩, hversion, hread⟩ := Option.bind_eq_some_iff.mp hread
    obtain ⟨⟨timestamp, cs₂⟩, htimestamp, hread⟩ := Option.bind_eq_some_iff.mp hread
    obtain ⟨⟨hostname, cs₃⟩, hhostname, hread⟩ := Option.bind_eq_some_iff.mp hread
    obtain ⟨⟨appName, cs₄⟩, happName, hread⟩ := Option.bind_eq_some_iff.mp hread
    obtain ⟨⟨procid, cs₅⟩, hprocid, hread⟩ := Option.bind_eq_some_iff.mp hread
    obtain ⟨⟨msgid, cs₆⟩, hmsgid, heq⟩ := Option.map_eq_some_iff.mp hread
    cases heq
    obtain ⟨rfl, hne, hdigits⟩ := versionField_eq_some.mp hversion
    obtain ⟨rfl, htimestampOk⟩ := field_eq_some.mp htimestamp
    obtain ⟨rfl, hhostnameOk⟩ := field_eq_some.mp hhostname
    obtain ⟨rfl, happNameOk⟩ := field_eq_some.mp happName
    obtain ⟨rfl, hprocidOk⟩ := field_eq_some.mp hprocid
    obtain ⟨rfl, hmsgidOk⟩ := field_eq_some.mp hmsgid
    -- The version is read by its digits, the other fields up to a space.
    have hspace : ' ' ∉ version := by
      intro hmem
      have hdigit := hdigits ' ' hmem
      cases hdigit
    refine ⟨rfl, hdigits, ?_⟩
    simp only [Header.fields, List.forall_mem_cons]
    exact ⟨⟨hne, hspace⟩, htimestampOk, hhostnameOk, happNameOk, hprocidOk, hmsgidOk,
      fun f hf => absurd hf List.not_mem_nil⟩
  · rintro ⟨rfl, hdigits, hfields⟩
    simp only [Header.fields, List.forall_mem_cons] at hfields
    obtain ⟨hversion, htimestamp, hhostname, happName, hprocid, hmsgid, -⟩ := hfields
    rw [header, versionField_eq_some.mpr ⟨rfl, hversion.1, hdigits⟩, Option.bind_some,
      field_eq_some.mpr ⟨rfl, htimestamp⟩, Option.bind_some,
      field_eq_some.mpr ⟨rfl, hhostname⟩, Option.bind_some,
      field_eq_some.mpr ⟨rfl, happName⟩, Option.bind_some,
      field_eq_some.mpr ⟨rfl, hprocid⟩, Option.bind_some,
      field_eq_some.mpr ⟨rfl, hmsgid⟩]
    rfl

/-! ### Structured data -/

def ParamText (w : List Char) (p : List Char × List Char) : Prop :=
  ∃ raw, w = p.1 ++ '=' :: '"' :: (raw ++ ['"']) ∧ '=' ∉ p.1 ∧ Escaped '"' '\\' raw p.2

theorem param_reads : Reads param ParamText := by
  rintro ts ⟨name, value⟩ rest
  constructor
  · intro h
    obtain ⟨⟨name', cs₁⟩, hname, h⟩ := Option.bind_eq_some_iff.mp h
    obtain ⟨cs₂, hquote, h⟩ := Option.bind_eq_some_iff.mp h
    obtain ⟨⟨value', cs₃⟩, hvalue, heq⟩ := Option.map_eq_some_iff.mp h
    cases heq
    obtain ⟨rfl, hequals⟩ := upTo_eq_some.mp hname
    obtain rfl : cs₁ = '"' :: cs₂ := expect_eq_some.mp hquote
    obtain ⟨raw, rfl, hraw⟩ := (quoted_eq_some (by decide)).mp hvalue
    refine ⟨name' ++ '=' :: '"' :: (raw ++ ['"']), ?_, raw, rfl, hequals, hraw⟩
    simp
  · rintro ⟨w, rfl, raw, rfl, hequals, hraw⟩
    have htext : name ++ '=' :: '"' :: (raw ++ ['"']) ++ rest =
        name ++ '=' :: ('"' :: (raw ++ '"' :: rest)) := by simp
    rw [param, htext, upTo_eq_some.mpr ⟨rfl, hequals⟩, Option.bind_some,
      expect_eq_some.mpr rfl, Option.bind_some,
      (quoted_eq_some (by decide)).mpr ⟨raw, rfl, hraw⟩]
    rfl

def ElementText (w : List Char) (pairs : List Pair) : Prop :=
  ∃ (id : List Char) (ws : List (List Char)) (ps : List (List Char × List Char)),
    w = id ++ (ws.flatMap (fun w => ' ' :: w) ++ [']']) ∧ id ≠ [] ∧
    (∀ c ∈ id, c ≠ ' ' ∧ c ≠ ']') ∧ List.Forall₂ ParamText ws ps ∧
    pairs = ps.map (fun p => ⟨id, p.1, p.2⟩)

theorem element_reads : Reads element ElementText := by
  intro ts pairs rest
  constructor
  · intro h
    unfold element at h
    split_ifs at h with hne
    obtain ⟨⟨ps, cs⟩, hparams, h⟩ := Option.bind_eq_some_iff.mp h
    obtain ⟨rest', hclose, heq⟩ := Option.map_eq_some_iff.mp h
    cases heq
    obtain rfl : cs = ']' :: rest := expect_eq_some.mp hclose
    rw [many_eq_some param_reads (List.length_dropWhile_le _ _)] at hparams
    obtain ⟨ws, hws, hps, -⟩ := hparams
    obtain ⟨hsplit, hid, -⟩ := span_iff.mp ⟨rfl, hws⟩
    refine ⟨_, ?_, _, ws, ps, rfl, hne, fun c hc => of_decide_eq_true (hid c hc), hps, rfl⟩
    nth_rewrite 1 [hsplit]
    simp
  · rintro ⟨w, rfl, id, ws, ps, rfl, hne, hid, hps, rfl⟩
    have htext : id ++ (ws.flatMap (fun w => ' ' :: w) ++ [']']) ++ rest =
        id ++ (ws.flatMap (fun w => ' ' :: w) ++ ']' :: rest) := by simp
    -- The id ends at the space of a parameter or at the bracket.
    have hhead : ∀ x ∈ (ws.flatMap (fun w => ' ' :: w) ++ ']' :: rest).head?,
        decide (x ≠ ' ' ∧ x ≠ ']') = false := by
      intro x hx
      cases ws with
      | nil =>
        cases hx
        rfl
      | cons w ws =>
        cases hx
        rfl
    obtain ⟨htake, hdrop⟩ := span_iff.mpr ⟨htext, fun c hc => decide_eq_true (hid c hc), hhead⟩
    have hlen : (ws.flatMap (fun w => ' ' :: w) ++ ']' :: rest).length ≤
        (id ++ (ws.flatMap (fun w => ' ' :: w) ++ [']']) ++ rest).length := by
      rw [htext]
      exact (List.suffix_append _ _).length_le
    have hclose : (']' :: rest).head? ≠ some ' ' := by
      intro h
      cases h
    rw [element, htake, hdrop, if_neg hne,
      (many_eq_some param_reads hlen).mpr ⟨ws, rfl, hps, hclose⟩, Option.bind_some,
      expect_eq_some.mpr rfl]
    rfl

def SdText (w : List Char) (pairs : List Pair) : Prop :=
  (w = ['-'] ∧ pairs = []) ∨
    ∃ (ws : List (List Char)) (es : List (List Pair)), ws ≠ [] ∧
      w = ws.flatMap (fun w => '[' :: w) ∧ List.Forall₂ ElementText ws es ∧ pairs = es.flatten

/-- Elements are read as long as there are brackets. -/
theorem structuredData_eq_some {pairs : List Pair} :
    structuredData cs = some (pairs, rest) ↔
      ∃ w, cs = w ++ rest ∧ SdText w pairs ∧ (w ≠ ['-'] → rest.head? ≠ some '[') := by
  constructor
  · intro h
    cases cs with
    | nil => cases h
    | cons c cs =>
      rw [structuredData] at h
      split_ifs at h with hnil hopen
      · cases h
        exact ⟨['-'], by rw [hnil]; rfl, .inl ⟨rfl, rfl⟩, fun h => absurd rfl h⟩
      · obtain ⟨⟨es, rest'⟩, hes, heq⟩ := Option.map_eq_some_iff.mp h
        cases heq
        have hlen : (c :: cs).length ≤ cs.length+1 := le_rfl
        obtain ⟨ws, hws, hes, hrest⟩ := (many_eq_some element_reads hlen).mp hes
        -- There is an element: reading would not have stopped at the first bracket.
        refine ⟨_, hws, .inr ⟨ws, es, ?_, rfl, hes, rfl⟩, fun _ => hrest⟩
        rintro rfl
        obtain rfl : c :: cs = rest' := hws
        exact hrest (by rw [hopen]; rfl)
  · rintro ⟨w, rfl, ⟨rfl, rfl⟩ | ⟨ws, es, hne, rfl, hes, rfl⟩, hrest⟩
    · rfl
    · obtain ⟨w, ws, rfl⟩ := List.exists_cons_of_ne_nil hne
      have hdash : (w :: ws).flatMap (fun w => '[' :: w) ≠ ['-'] := by
        intro h
        cases h
      have hmany := (many_eq_some element_reads le_rfl).mpr
        ⟨w :: ws, rfl, hes, hrest hdash⟩
      rw [List.flatMap_cons, List.cons_append, List.cons_append] at hmany ⊢
      rw [structuredData, if_neg (by decide), if_pos rfl]
      rw [List.length_cons] at hmany
      rw [hmany]
      rfl

/-! ### Frames -/

/-- The line has these parts, one behind the other, and nothing else. -/
structure Framed (line : List Char) (f : Frame) : Prop where
  pri : IsPri f.pri
  header : f.header.Ok
  text : ∃ sd, line = '<' :: (f.pri ++ '>' :: (f.header.text ++ (sd ++ f.rest))) ∧
    SdText sd f.pairs ∧ (sd ≠ ['-'] → f.rest.head? ≠ some '[')

theorem scan_eq_some {line : List Char} : scan line = some f ↔ Framed line f := by
  constructor
  · intro h
    obtain ⟨⟨pri, cs₁⟩, hpri, h⟩ := Option.bind_eq_some_iff.mp h
    obtain ⟨⟨hd, cs₂⟩, hheader, h⟩ := Option.bind_eq_some_iff.mp h
    obtain ⟨⟨pairs, rest⟩, hsd, rfl⟩ := Option.map_eq_some_iff.mp h
    obtain ⟨rfl, hpriOk⟩ := priority_eq_some.mp hpri
    obtain ⟨rfl, hheaderOk⟩ := header_eq_some.mp hheader
    obtain ⟨sd, rfl, hsdText, hrest⟩ := structuredData_eq_some.mp hsd
    exact ⟨hpriOk, hheaderOk, sd, rfl, hsdText, hrest⟩
  · rintro ⟨hpri, hheader, sd, rfl, hsd⟩
    rw [scan, priority_eq_some.mpr ⟨rfl, hpri⟩, Option.bind_some,
      header_eq_some.mpr ⟨rfl, hheader⟩, Option.bind_some,
      structuredData_eq_some.mpr ⟨sd, rfl, hsd⟩]
    rfl

/-! ### No text is dropped -/

theorem lookup_insertAll (m : Attributes) (ps : List (List Char × List Char)) (key : List Char) :
    (insertAll m ps).lookup key = (ps.reverse.lookup key).or (m.lookup key) := by
  induction ps using List.reverseRecOn with
  | nil => rfl
  | append_singleton ps p ih =>
    rw [insertAll, List.foldl_concat, List.reverse_concat]
    by_cases hkey : key = p.1
    · subst hkey
      rw [AList.lookup_insert, List.lookup_cons, beq_self_eq_true]
      rfl
    · rw [AList.lookup_insert_ne hkey, List.lookup_cons, beq_false_of_ne hkey]
      exact ih

theorem lookup_header {h : Header} {p : List Char × List Char} (hp : p ∈ h.attributes) :
    (insertAll ∅ h.attributes).lookup p.1 = some p.2 := by
  rw [lookup_insertAll]
  simp only [Header.attributes, List.mem_cons, List.not_mem_nil, or_false] at hp
  rcases hp with rfl | rfl | rfl | rfl | rfl | rfl <;> rfl

/-- What is returned for the line is all of it. -/
structure Accounts (line : List Char) (f : Frame) (out : ParsedLine) : Prop where
  framed : Framed line f
  message : (f.rest = [] ∧ out.message = []) ∨ f.rest = ' ' :: out.message
  facility : out.facility = some (decimal 0 f.pri/8)
  severity : out.severity = some (decimal 0 f.pri%8)
  header : ∀ p ∈ f.header.attributes, out.attributes.lookup p.1 = some p.2

/-- Behind the structured data stands nothing or a space, and a parameter that has the key of a
header field has its value. -/
structure Frame.Plain (f : Frame) : Prop where
  rest : f.rest = [] ∨ f.rest.head? = some ' '
  header : ∀ p ∈ f.header.attributes,
    ∀ value ∈ (f.pairs.map Pair.attribute).reverse.lookup p.1, value = p.2

theorem lookup_parsed {p : List Char × List Char} (hp : p ∈ f.header.attributes) :
    f.parsed.attributes.lookup p.1 = some p.2 ↔
      ∀ value ∈ (f.pairs.map Pair.attribute).reverse.lookup p.1, value = p.2 := by
  rw [Frame.parsed, lookup_insertAll, lookup_header hp]
  cases (f.pairs.map Pair.attribute).reverse.lookup p.1 with
  | none => exact iff_of_true rfl (fun value h => by cases h)
  | some value =>
    constructor
    · intro h value' hvalue
      cases hvalue
      exact Option.some.inj h
    · exact fun h => congrArg some (h value rfl)

theorem message_iff :
    ((f.rest = [] ∧ f.parsed.message = []) ∨ f.rest = ' ' :: f.parsed.message) ↔
      (f.rest = [] ∨ f.rest.head? = some ' ') := by
  show ((f.rest = [] ∧ f.message = []) ∨ f.rest = ' ' :: f.message) ↔ _
  unfold Frame.message
  cases f.rest with
  | nil => exact iff_of_true (.inl ⟨rfl, rfl⟩) (.inl rfl)
  | cons c cs =>
    by_cases hc : c = ' '
    · subst hc
      exact iff_of_true (.inr rfl) (.inr rfl)
    · refine iff_of_false ?_ ?_
      · rintro (⟨h, -⟩ | h)
        · cases h
        · exact hc (List.cons.inj h).1
      · rintro (h | h)
        · cases h
        · exact hc (Option.some.inj h)

theorem accounts_parsed_iff {line : List Char} (hf : Framed line f) :
    Accounts line f f.parsed ↔ f.Plain := by
  constructor
  · intro h
    exact ⟨message_iff.mp h.message, fun p hp => (lookup_parsed hp).mp (h.header p hp)⟩
  · intro h
    exact ⟨hf, message_iff.mpr h.rest, rfl, rfl, fun p hp => (lookup_parsed hp).mpr (h.header p hp)⟩

/-- A line comes back as it is or in all its parts, exactly if its frame, when it has one, is
plain. -/
theorem syslog_keeps_text_iff (line : List Char) :
    (parse line = passthrough line ∨ ∃ f, Accounts line f (parse line)) ↔
      ∀ f, Framed line f → f.Plain := by
  cases hscan : scan line with
  | none =>
    have hparse : parse line = passthrough line := by
      rw [parse, parseRfc5424, hscan]
      rfl
    refine iff_of_true (.inl hparse) (fun f hf => ?_)
    rw [scan_eq_some.mpr hf] at hscan
    cases hscan
  | some f =>
    have hparse : parse line = f.parsed := by
      rw [parse, parseRfc5424, hscan]
      rfl
    have hunique {g : Frame} (hg : Framed line g) : g = f := by
      rw [scan_eq_some.mpr hg] at hscan
      exact Option.some.inj hscan
    have hframed := scan_eq_some.mp hscan
    rw [hparse]
    constructor
    · rintro (hpass | ⟨g, hg⟩) g' hg'
      -- A parsed line has a facility, which a line that is passed through has not.
      · cases congrArg ParsedLine.facility hpass
      · obtain rfl := hunique hg.framed
        rw [hunique hg']
        exact (accounts_parsed_iff hframed).mp hg
    · intro h
      exact .inr ⟨f, (accounts_parsed_iff hframed).mpr (h f hframed)⟩

/-- A text directly behind the dash. -/
def behindDash : List Char := "<34>1 t h a p m -garbage".toList

/-- A parameter with the key of a header field. -/
def otherHost : List Char := "<34>1 t h a p m [syslog hostname=\"x\"] msg".toList

/-- What stands directly behind the dash is lost, and so is a host that a parameter replaces. -/
theorem syslog_loses_text :
    (parse behindDash).facility = some 4 ∧ (parse behindDash).message = [] ∧
    (parse otherHost).attributes.lookup "syslog.hostname".toList = some ['x'] ∧
    ¬ (parse behindDash = passthrough behindDash ∨
      ∃ f, Accounts behindDash f (parse behindDash)) := by
  refine ⟨by decide +kernel, by decide +kernel, by decide +kernel, ?_⟩
  rintro (h | ⟨f, hf⟩)
  · have hfacility : (parse behindDash).facility = none := congrArg ParsedLine.facility h
    exact absurd hfacility (by decide +kernel)
  · have hscan := congrArg (Option.map Frame.rest) (scan_eq_some.mpr hf.framed)
    have hrest : (scan behindDash).map Frame.rest = some "garbage".toList := by decide +kernel
    have hfrest : f.rest = "garbage".toList := Option.some.inj (hscan.symm.trans hrest)
    have hmessage := hf.message
    rw [hfrest] at hmessage
    rcases hmessage with ⟨h, -⟩ | h
    · cases h
    · cases h

end CairnObs.Syslog
