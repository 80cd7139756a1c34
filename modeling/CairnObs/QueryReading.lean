import Mathlib.Data.Bool.AllAny
import Mathlib.Data.List.DropRight
import CairnObs.QueryRender

/-! The lexer on a text in two parts: the first is read on its own when the second cannot go
on with its last token, unless a string is still open there. -/
namespace CairnObs.QueryLang

/-! ### The lexemes of a text -/

/-- The lexemes of a text, without the end of file. -/
def lexed (cs : List Char) : List Lexeme := ((tokensFrom 0 cs).map Token.lexeme).dropLast

theorem skip_scan_length {cs rest : List Char} {c : Char} (h : skipWhitespace cs = c :: rest) :
    (scan c rest).2.2.length < cs.length := by
  have hskip : (skipWhitespace cs).length ≤ cs.length := length_dropWhile_le isSpace cs
  have hscan := scan_length c rest
  rw [h, List.length_cons] at hskip
  omega

theorem exists_lexemes (cs : List Char) :
    ∃ ls, ∀ n, (tokensFrom n cs).map Token.lexeme = ls ++ [(.eof, "")] := by
  induction hlen : cs.length using Nat.strong_induction_on generalizing cs with
  | _ len ih =>
    cases h : skipWhitespace cs with
    | nil =>
      refine ⟨[], fun n => ?_⟩
      rw [tokensFrom_of_nil h]
      rfl
    | cons c rest =>
      obtain ⟨ls, hls⟩ := ih _ (hlen ▸ skip_scan_length h) (scan c rest).2.2 rfl
      refine ⟨((scan c rest).1, String.ofList (scan c rest).2.1) :: ls, fun n => ?_⟩
      rw [tokensFrom_of_cons h, List.map_cons, hls]
      rfl

/-- The position of the text in the input makes no difference. -/
theorem tokensFrom_lexed (n : ℕ) (cs : List Char) :
    (tokensFrom n cs).map Token.lexeme = lexed cs ++ [(.eof, "")] := by
  obtain ⟨ls, hls⟩ := exists_lexemes cs
  rw [lexed, hls 0, List.dropLast_concat, hls n]

theorem lexed_of_nil {cs : List Char} (h : skipWhitespace cs = []) : lexed cs = [] := by
  rw [lexed, tokensFrom_of_nil h]
  rfl

theorem lexed_of_cons {cs rest : List Char} {c : Char} (h : skipWhitespace cs = c :: rest) :
    lexed cs = ((scan c rest).1, String.ofList (scan c rest).2.1) :: lexed (scan c rest).2.2 := by
  have hcs := tokensFrom_lexed 0 cs
  rw [tokensFrom_of_cons h, List.map_cons, tokensFrom_lexed, ← List.cons_append] at hcs
  exact (List.append_cancel_right hcs).symm

theorem lexed_eq_nil_iff {cs : List Char} : lexed cs = [] ↔ skipWhitespace cs = [] := by
  refine ⟨fun h => ?_, lexed_of_nil⟩
  cases hskip : skipWhitespace cs with
  | nil => rfl
  | cons c rest =>
    rw [lexed_of_cons hskip] at h
    cases h

theorem lexed_of_skip_eq {cs ds : List Char} (h : skipWhitespace cs = skipWhitespace ds) :
    lexed cs = lexed ds := by
  cases hds : skipWhitespace ds with
  | nil => rw [lexed_of_nil hds, lexed_of_nil (h.trans hds)]
  | cons c rest => rw [lexed_of_cons hds, lexed_of_cons (h.trans hds)]

/-! ### Reading up to the end of a part -/

/-- `cs` is read as `ls`, and then it is at its end or inside a string that is not closed in
it; `o` is what stands behind the opening quote. -/
inductive Read : List Char → List Lexeme → Option (List Char) → Prop
  | done {cs} (h : skipWhitespace cs = []) : Read cs [] none
  | inside {cs body} (h : skipWhitespace cs = '"' :: body) (hbody : (lexString body).1 = .illegal) :
    Read cs [] (some body)
  | token {cs c rest ls o} (h : skipWhitespace cs = c :: rest)
    (hc : c = '"' → (lexString rest).1 ≠ .illegal) (hr : Read (scan c rest).2.2 ls o) :
    Read cs (((scan c rest).1, String.ofList (scan c rest).2.1) :: ls) o

theorem exists_read (cs : List Char) : ∃ ls o, Read cs ls o := by
  induction hlen : cs.length using Nat.strong_induction_on generalizing cs with
  | _ len ih =>
    cases h : skipWhitespace cs with
    | nil => exact ⟨[], none, .done h⟩
    | cons c rest =>
      by_cases hopen : c = '"' ∧ (lexString rest).1 = .illegal
      · obtain ⟨rfl, hrest⟩ := hopen
        exact ⟨[], some rest, .inside h hrest⟩
      · obtain ⟨ls, o, hr⟩ := ih _ (hlen ▸ skip_scan_length h) (scan c rest).2.2 rfl
        exact ⟨_, o, .token h (fun hc hi => hopen ⟨hc, hi⟩) hr⟩

variable {body cs b a : List Char} {ls ls' : List Lexeme} {o : Option (List Char)} {c : Char}

theorem Read.inside_illegal (h : Read cs ls (some body)) : (lexString body).1 = .illegal := by
  generalize ho : some body = o at h
  induction h with
  | done h => cases ho
  | inside h hbody =>
    cases ho
    exact hbody
  | token h hc hr ih => exact ih ho

/-- The lexeme of a string that is not closed. -/
def unclosed (body : List Char) : Lexeme := (.illegal, String.ofList (lexString body).2.1)

theorem lexString_illegal_rest (h : (lexString cs).1 = .illegal) : (lexString cs).2.2 = [] := by
  fun_induction lexString cs with
  | case1 => rfl
  | case2 rest => cases h
  | case3 c rest k v r hlex ih =>
    rw [hlex] at ih
    exact ih h
  | case4 c rest _ _ k v r hlex ih =>
    rw [hlex] at ih
    exact ih h

theorem scan_quote (cs : List Char) : scan '"' cs = lexString cs := rfl

theorem Read.lexed (h : Read cs ls o) : lexed cs = ls ++ (o.map unclosed).toList := by
  induction h with
  | done h => exact lexed_of_nil h
  | @inside cs body h hbody =>
    rw [lexed_of_cons h, scan_quote, lexString_illegal_rest hbody, hbody, lexed_of_nil rfl]
    rfl
  | token h hc hr ih => rw [lexed_of_cons h, ih, List.cons_append]

/-! ### Two parts -/

/-- The text cannot go on with a token that ends before it. -/
def Breaks (b : List Char) : Prop := ∀ c ∈ b.head?, isIdentPart c = false ∧ c ≠ '='

theorem breaks_cons (hpart : isIdentPart c = false) (heq : c ≠ '=') (b : List Char) :
    Breaks (c :: b) := by
  intro d hd
  cases hd
  exact ⟨hpart, heq⟩

theorem takeWhile_append_breaks {p : Char → Bool} (hb : ∀ c ∈ b.head?, p c = false)
    (a : List Char) :
    (a ++ b).takeWhile p = a.takeWhile p ∧ (a ++ b).dropWhile p = a.dropWhile p ++ b := by
  induction a with
  | nil =>
    cases b with
    | nil => exact ⟨rfl, rfl⟩
    | cons c b => simp [hb c rfl]
  | cons c a ih =>
    by_cases hc : p c = true
    · simp [hc, ih]
    · simp [hc]

theorem Breaks.not_digit (h : Breaks b) : ∀ c ∈ b.head?, isDigit c = false := by
  intro c hc
  have hpart := (h c hc).1
  simp only [isIdentPart, Bool.or_eq_false_iff] at hpart
  exact hpart.1.1.1.2

theorem lexNumber_fraction {r : List Char} {d : Char} (h : a.dropWhile isDigit = '.' :: d :: r)
    (hd : isDigit d = true) : lexNumber a =
      (a.takeWhile isDigit ++ '.' :: (d :: r).takeWhile isDigit, (d :: r).dropWhile isDigit) := by
  simp only [lexNumber, h, hd, if_true]

theorem lexNumber_whole (h : ∀ d r, a.dropWhile isDigit = '.' :: d :: r → isDigit d = false) :
    lexNumber a = (a.takeWhile isDigit, a.dropWhile isDigit) := by
  simp only [lexNumber]
  split
  · rename_i d rest hr
    rw [if_neg (by simp [h d rest hr]), hr]
  · rfl

theorem lexNumber_append (hb : Breaks b) (a : List Char) :
    lexNumber (a ++ b) = ((lexNumber a).1, (lexNumber a).2 ++ b) := by
  obtain ⟨htake, hdrop⟩ := takeWhile_append_breaks hb.not_digit a
  by_cases hfrac : ∃ d r, a.dropWhile isDigit = '.' :: d :: r ∧ isDigit d = true
  · obtain ⟨d, r, hr, hd⟩ := hfrac
    obtain ⟨htake', hdrop'⟩ := takeWhile_append_breaks hb.not_digit (d :: r)
    have hr' : (a ++ b).dropWhile isDigit = '.' :: d :: (r ++ b) := by
      rw [hdrop, hr]
      rfl
    rw [List.cons_append] at htake' hdrop'
    rw [lexNumber_fraction hr hd, lexNumber_fraction hr' hd, htake, htake', hdrop']
  · -- A dot belongs to the number if a digit follows it, which the second part cannot give.
    have hwhole : ∀ d r, (a ++ b).dropWhile isDigit = '.' :: d :: r → isDigit d = false := by
      intro d r hr
      rw [hdrop] at hr
      by_contra hd
      rw [Bool.not_eq_false] at hd
      cases hrest : a.dropWhile isDigit with
      | nil =>
        rw [hrest, List.nil_append] at hr
        have hdot := hb '.' (by rw [hr]; rfl)
        exact absurd hdot.1 (by decide)
      | cons c rest =>
        rw [hrest] at hr
        obtain ⟨rfl, hb'⟩ := List.cons.inj hr
        cases rest with
        | nil =>
          have hdigit := hb.not_digit d (by rw [show b = d :: r from hb']; rfl)
          rw [hd] at hdigit
          cases hdigit
        | cons e rest =>
          obtain ⟨rfl, -⟩ := List.cons.inj hb'
          exact hfrac ⟨_, rest, hrest, hd⟩
    rw [lexNumber_whole hwhole, lexNumber_whole, htake, hdrop]
    intro d r hr
    by_contra hd
    exact hfrac ⟨d, r, hr, Bool.not_eq_false _ ▸ hd⟩

theorem lexIdent_append (hb : Breaks b) (a : List Char) :
    lexIdent (a ++ b) = ((lexIdent a).1, (lexIdent a).2 ++ b) := by
  obtain ⟨htake, hdrop⟩ := takeWhile_append_breaks (fun c hc => (hb c hc).1) a
  simp only [lexIdent, htake, hdrop]

/-- A string that is closed is read whatever follows. -/
theorem lexString_append (h : (lexString a).1 ≠ .illegal) (b : List Char) :
    lexString (a ++ b) = ((lexString a).1, (lexString a).2.1, (lexString a).2.2 ++ b) := by
  fun_induction lexString a with
  | case1 => exact absurd rfl h
  | case2 rest => rfl
  | case3 c rest k v r hlex ih =>
    rw [hlex] at ih
    have hrest := ih h
    simp only [List.cons_append, lexString, hrest]
  | case4 c rest hquote hslash k v r hlex ih =>
    rw [hlex] at ih
    have hrest := ih h
    rw [List.cons_append, lexString.eq_4, hrest]
    · exact hquote
    · -- A backslash at the very end would leave the string open.
      intro d r hc hd
      cases rest with
      | nil =>
        cases hlex
        exact h rfl
      | cons e rest => exact hslash e rest hc rfl

/-- A token with `b` behind it. -/
def followedBy (b : List Char) (t : Kind × List Char × List Char) : Kind × List Char × List Char :=
  (t.1, t.2.1, t.2.2 ++ b)

theorem ite_followedBy {p p' : Prop} [Decidable p] [Decidable p']
    {x x' y y' : Kind × List Char × List Char} (hp : p' ↔ p) (hx : p → x' = followedBy b x)
    (hy : y' = followedBy b y) : (if p' then x' else y') = followedBy b (if p then x else y) := by
  by_cases h : p
  · rw [if_pos h, if_pos (hp.mpr h), hx h]
  · rw [if_neg h, if_neg (mt hp.mp h), hy]

theorem scan_append (hc : c = '"' → (lexString a).1 ≠ .illegal) (hb : Breaks b) :
    scan c (a ++ b) = followedBy b (scan c a) := by
  have hhead (d : Char) : c = d ∧ (a ++ b).head? = some '=' ↔ c = d ∧ a.head? = some '=' := by
    cases a with
    | nil =>
      refine and_congr_right fun _ => ⟨fun h => ?_, nofun⟩
      exact absurd rfl (hb '=' h).2
    | cons d a => rfl
  have htail (h : a.head? = some '=') : (a ++ b).tail = a.tail ++ b := by
    cases a with
    | nil => cases h
    | cons d a => rfl
  unfold scan
  refine ite_followedBy Iff.rfl (fun _ => rfl) ?_
  refine ite_followedBy Iff.rfl (fun _ => rfl) ?_
  refine ite_followedBy (hhead _) (fun h => by rw [htail h.2]; rfl) ?_
  refine ite_followedBy (hhead _) (fun h => by rw [htail h.2]; rfl) ?_
  refine ite_followedBy Iff.rfl (fun _ => rfl) ?_
  refine ite_followedBy (hhead _) (fun h => by rw [htail h.2]; rfl) ?_
  refine ite_followedBy Iff.rfl (fun _ => rfl) ?_
  refine ite_followedBy Iff.rfl (fun _ => rfl) ?_
  refine ite_followedBy Iff.rfl (fun _ => rfl) ?_
  refine ite_followedBy Iff.rfl (fun _ => rfl) ?_
  refine ite_followedBy Iff.rfl (fun _ => rfl) ?_
  refine ite_followedBy Iff.rfl (fun _ => rfl) ?_
  refine ite_followedBy Iff.rfl (fun _ => rfl) ?_
  refine ite_followedBy Iff.rfl (fun _ => rfl) ?_
  refine ite_followedBy Iff.rfl (fun h => lexString_append (hc h) b) ?_
  refine ite_followedBy Iff.rfl (fun _ => ?_) ?_
  · rw [← List.cons_append, lexNumber_append hb]
    rfl
  refine ite_followedBy Iff.rfl (fun _ => ?_) rfl
  rw [← List.cons_append, lexIdent_append hb]
  rfl

theorem skipWhitespace_append {rest : List Char} (h : skipWhitespace a = c :: rest)
    (b : List Char) :
    skipWhitespace (a ++ b) = c :: (rest ++ b) := by
  have hsplit := List.takeWhile_append_dropWhile (p := isSpace) (l := a)
  have hc : isSpace c = false := by
    have := List.head?_dropWhile_not isSpace a
    rw [show a.dropWhile isSpace = c :: rest from h] at this
    exact this
  rw [show a.dropWhile isSpace = c :: rest from h] at hsplit
  rw [← hsplit, List.append_assoc, skipWhitespace, List.dropWhile_append_of_pos]
  · rw [List.cons_append, List.dropWhile_cons_of_neg (by simp [hc])]
  · exact fun d hd => List.mem_takeWhile_imp hd

theorem skipWhitespace_append_nil (h : skipWhitespace a = []) (b : List Char) :
    skipWhitespace (a ++ b) = skipWhitespace b := by
  have hall : ∀ c ∈ a, isSpace c = true := List.dropWhile_eq_nil_iff.mp h
  exact List.dropWhile_append_of_pos hall

theorem Read.of_skip_eq (h : Read a ls o) (hskip : skipWhitespace b = skipWhitespace a) :
    Read b ls o := by
  cases h with
  | done h => exact .done (hskip.trans h)
  | inside h hbody => exact .inside (hskip.trans h) hbody
  | token h hc hr => exact .token (hskip.trans h) hc hr

theorem Read.append (ha : Read a ls none) (hb : Breaks b) (hr : Read b ls' o) :
    Read (a ++ b) (ls ++ ls') o := by
  generalize ho : (none : Option (List Char)) = o' at ha
  induction ha with
  | done h => exact hr.of_skip_eq (skipWhitespace_append_nil h b)
  | inside h hbody => cases ho
  | @token cs c rest ls₁ o₁ h hc hr₁ ih =>
    have hscan := scan_append hc hb
    have htoken := @Read.token _ _ _ (ls₁ ++ ls') o (skipWhitespace_append h b)
      (fun hq => by rw [lexString_append (hc hq)]; exact hc hq) (by rw [hscan]; exact ih ho)
    rw [hscan] at htoken
    exact htoken

/-- With a string open, the second part goes on inside it. -/
theorem Read.append_inside (ha : Read a ls (some body)) (hr : Read ('"' :: (body ++ b)) ls' o)
    (hb : Breaks b) : Read (a ++ b) (ls ++ ls') o := by
  generalize ho : some body = o' at ha
  induction ha with
  | done h => cases ho
  | inside h hbody =>
    cases ho
    apply hr.of_skip_eq
    rw [skipWhitespace_append h]
    rfl
  | @token cs c rest ls₁ o₁ h hc hr₁ ih =>
    have hscan := scan_append hc hb
    have htoken := @Read.token _ _ _ (ls₁ ++ ls') o (skipWhitespace_append h b)
      (fun hq => by rw [lexString_append (hc hq)]; exact hc hq) (by rw [hscan]; exact ih ho)
    rw [hscan] at htoken
    exact htoken

/-! ### Where a token stands in the text -/

theorem lexString_closed (h : (lexString cs).1 ≠ .illegal) :
    ∃ mid, cs = mid ++ '"' :: (lexString cs).2.2 := by
  fun_induction lexString cs with
  | case1 => exact absurd rfl h
  | case2 rest => exact ⟨[], rfl⟩
  | case3 c rest k v r hlex ih =>
    rw [hlex] at ih
    obtain ⟨mid, hmid⟩ := ih h
    exact ⟨'\\' :: c :: mid, congrArg (fun x => '\\' :: c :: x) hmid⟩
  | case4 c rest _ _ k v r hlex ih =>
    rw [hlex] at ih
    obtain ⟨mid, hmid⟩ := ih h
    exact ⟨c :: mid, congrArg (c :: ·) hmid⟩

/-- A character that is neither a quote nor a backslash stands for itself. -/
theorem lexString_plain (hquote : c ≠ '"') (hslash : c ≠ '\\') (cs : List Char) :
    lexString (c :: cs) = ((lexString cs).1, c :: (lexString cs).2.1, (lexString cs).2.2) := by
  rw [lexString.eq_4]
  · exact hquote
  · intro d r hc _
    exact hslash hc

/-- Without a backslash, a string is what stands between its quotes. -/
theorem lexString_value {mid r v : List Char} (hslash : '\\' ∉ mid)
    (h : lexString (mid ++ '"' :: r) = (.string, v, r)) : v = mid := by
  induction mid generalizing v with
  | nil =>
    cases h
    rfl
  | cons c mid ih =>
    have hc : c ≠ '\\' := fun he => hslash (he ▸ List.mem_cons_self)
    by_cases hquote : c = '"'
    · -- The string would end here, and what follows it would be longer than `r`.
      subst hquote
      have hrest := congrArg (fun x => x.2.2.length) h
      simp only [List.cons_append, lexString, List.length_append, List.length_cons] at hrest
      omega
    · rw [List.cons_append, lexString_plain hquote hc] at h
      obtain ⟨hk, hv, hr⟩ : (lexString (mid ++ '"' :: r)).1 = .string ∧
          c :: (lexString (mid ++ '"' :: r)).2.1 = v ∧ (lexString (mid ++ '"' :: r)).2.2 = r := by
        simpa using h
      have hmid := ih (v := (lexString (mid ++ '"' :: r)).2.1)
        (fun hmem => hslash (List.mem_cons_of_mem _ hmem)) (Prod.ext hk (Prod.ext rfl hr))
      rw [← hv, hmid]

theorem scan_suffix (c : Char) (cs : List Char) : (scan c cs).2.2 <:+ c :: cs := by
  have hstring (cs : List Char) : (lexString cs).2.2 <:+ cs := by
    fun_induction lexString cs with
    | case1 => exact List.suffix_rfl
    | case2 rest => exact List.suffix_cons _ _
    | case3 c rest k v r hlex ih =>
      rw [hlex] at ih
      exact ih.trans ⟨['\\', c], rfl⟩
    | case4 c rest _ _ k v r hlex ih =>
      rw [hlex] at ih
      exact ih.trans (List.suffix_cons _ _)
  have hnumber (cs : List Char) : (lexNumber cs).2 <:+ cs := by
    by_cases hfrac : ∃ d r, cs.dropWhile isDigit = '.' :: d :: r ∧ isDigit d = true
    · obtain ⟨d, r, hr, hd⟩ := hfrac
      rw [lexNumber_fraction hr hd]
      refine (List.dropWhile_suffix _).trans
        (List.IsSuffix.trans ?_ (List.dropWhile_suffix isDigit))
      rw [hr]
      exact List.suffix_cons _ _
    · rw [lexNumber_whole]
      · exact List.dropWhile_suffix _
      · intro d r hr
        by_contra hd
        exact hfrac ⟨d, r, hr, Bool.not_eq_false _ ▸ hd⟩
  have h := scanned_scan c cs
  generalize scan c cs = t at h
  cases h with
  | one => exact List.suffix_cons _ _
  | @two k d cs => exact ⟨[c, d], rfl⟩
  | string => exact (hstring cs).trans (List.suffix_cons _ _)
  | number => exact hnumber _
  | ident => exact List.dropWhile_suffix _
  | illegal => exact List.suffix_cons _ _

theorem scan_ident_split (h : (scan c cs).1 = .ident) :
    c :: cs = (scan c cs).2.1 ++ (scan c cs).2.2 := by
  have hscan := scanned_scan c cs
  generalize scan c cs = t at h hscan
  cases hscan with
  | one => rfl
  | two => rfl
  | string =>
    rcases lexString_cases cs with hk | hk
    · rw [hk] at h
      cases h
    · rw [hk] at h
      cases h
  | number => cases h
  | ident => exact List.takeWhile_append_dropWhile.symm
  | illegal => cases h

theorem scan_ident_breaks (h : (scan c cs).1 = .ident) :
    ∀ d ∈ (scan c cs).2.2.head?, isIdentPart d = false := by
  have hscan := scanned_scan c cs
  generalize scan c cs = t at h hscan
  cases hscan with
  | @one k cs hk =>
    obtain rfl : k = .ident := h
    cases hk
  | @two k d cs hk =>
    obtain rfl : k = .ident := h
    cases hk
  | string => exact absurd h (by rcases lexString_cases cs with hk | hk <;> rw [hk] <;> exact nofun)
  | number => cases h
  | ident =>
    intro d hd
    have hnot := List.head?_dropWhile_not isIdentPart (c :: cs)
    rw [show (c :: cs).dropWhile isIdentPart = (lexIdent (c :: cs)).2 from rfl,
      Option.mem_def.mp hd] at hnot
    exact hnot
  | illegal => cases h

theorem spaces_of_lexed (h : lexed cs = []) : ∀ c ∈ cs, isSpace c = true := by
  cases hskip : skipWhitespace cs with
  | nil => exact List.dropWhile_eq_nil_iff.mp hskip
  | cons c rest =>
    rw [lexed_of_cons hskip] at h
    cases h

/-- The last lexemes are those of the end of the text. -/
theorem lexed_drop (h : lexed cs = ls ++ ls') :
    ∃ pre post, cs = pre ++ post ∧ lexed post = ls' := by
  induction ls generalizing cs with
  | nil => exact ⟨[], cs, rfl, h⟩
  | cons l ls ih =>
    cases hskip : skipWhitespace cs with
    | nil =>
      rw [lexed_of_nil hskip] at h
      cases h
    | cons c rest =>
      rw [lexed_of_cons hskip] at h
      obtain ⟨pre, post, hpre, hpost⟩ := ih (List.cons.inj h).2
      have hsuffix : (scan c rest).2.2 <:+ cs := by
        refine (scan_suffix c rest).trans ?_
        rw [← hskip]
        exact List.dropWhile_suffix _
      obtain ⟨front, hfront⟩ := hsuffix
      refine ⟨front ++ pre, post, ?_, hpost⟩
      rw [← hfront, hpre, List.append_assoc]

/-- A word that comes first is the text itself, up to where it breaks off. -/
theorem lexed_first_word {w : String} (h : lexed cs = word w :: ls) :
    ∃ rest, skipWhitespace cs = w.toList ++ rest ∧
      lexed rest = ls ∧ ∀ c ∈ rest.head?, isIdentPart c = false := by
  cases hskip : skipWhitespace cs with
  | nil =>
    rw [lexed_of_nil hskip] at h
    cases h
  | cons c rest =>
    rw [lexed_of_cons hskip] at h
    obtain ⟨hword, hrest⟩ := List.cons.inj h
    have hk : (scan c rest).1 = .ident := congrArg Prod.fst hword
    have hv : (scan c rest).2.1 = w.toList := by
      rw [show w = _ from (congrArg Prod.snd hword).symm, String.toList_ofList]
    refine ⟨(scan c rest).2.2, ?_, hrest, scan_ident_breaks hk⟩
    rw [← hv]
    exact scan_ident_split hk

/-- Nothing but spaces follows the last word. -/
theorem lexed_last_word {w : String} (h : lexed cs = ls ++ [word w]) :
    ∃ pre post, cs = pre ++ w.toList ++ post ∧ ∀ c ∈ post, isSpace c = true := by
  obtain ⟨pre, post, rfl, hpost⟩ := lexed_drop h
  obtain ⟨rest, hskip, hrest, -⟩ := lexed_first_word hpost
  refine ⟨pre ++ post.takeWhile isSpace, rest, ?_, spaces_of_lexed hrest⟩
  rw [List.append_assoc, List.append_assoc, ← hskip]
  exact congrArg (pre ++ ·) List.takeWhile_append_dropWhile.symm

/-! ### Texts that the lexer accepts -/

def Clean (cs : List Char) : Prop := ∀ l ∈ lexed cs, l.1 ≠ .illegal

theorem Read.not_clean (h : Read cs ls (some body)) : ¬ Clean cs := by
  intro hclean
  rw [Clean, h.lexed] at hclean
  exact hclean (unclosed body) (List.mem_append_right _ List.mem_cons_self) rfl

theorem Clean.read (h : Clean cs) : Read cs (QueryLang.lexed cs) none := by
  obtain ⟨ls, o, hr⟩ := exists_read cs
  cases o with
  | none =>
    have hls := hr.lexed
    rw [Option.map_none, Option.toList_none, List.append_nil] at hls
    rw [hls]
    exact hr
  | some body => exact absurd h hr.not_clean

theorem Clean.append (ha : Clean a) (hb : Breaks b) : lexed (a ++ b) = lexed a ++ lexed b := by
  obtain ⟨ls, o, hr⟩ := exists_read b
  rw [(ha.read.append hb hr).lexed, hr.lexed, List.append_assoc]

/-! ### Blanks at the ends -/

/-- No token has this character in it, unless it is a string. -/
def isOutside (c : Char) : Bool :=
  !isIdentPart c &&
    !(['|', '=', '!', '>', '<', ':', ',', '(', ')', '+', '*', '"'] : List Char).contains c

theorem isOutside.ne {d : Char} (h : isOutside c = true) (hd : isOutside d = false) : c ≠ d := by
  rintro rfl
  rw [h] at hd
  cases hd

theorem isOutside_of_large (h : 127 ≤ c.toNat) : isOutside c = true := by
  have hrange {a b : Char} (hb : b.toNat < 127) : ¬ (a ≤ c ∧ c ≤ b) := by
    rintro ⟨-, hcb⟩
    have hto : c.toNat ≤ b.toNat := hcb
    omega
  have hne {d : Char} (hd : d.toNat < 127) : (c == d) = false := by
    rw [beq_eq_false_iff_ne]
    rintro rfl
    omega
  have hpart : isIdentPart c = false := by
    simp only [isIdentPart, isIdentStart, isDigit, hne (d := '_') (by decide),
      hne (d := '.') (by decide), hne (d := '-') (by decide), hrange (b := 'z') (by decide),
      hrange (b := 'Z') (by decide), hrange (b := '9') (by decide), decide_false, Bool.or_self]
  have hlist : c ∉ (['|', '=', '!', '>', '<', ':', ',', '(', ')', '+', '*', '"'] : List Char) := by
    intro hmem
    have hsmall : ∀ d ∈ (['|', '=', '!', '>', '<', ':', ',', '(', ')', '+', '*', '"'] : List Char),
        d.toNat < 127 := List.all_iff_forall_prop.mp (by decide)
    have := hsmall c hmem
    omega
  simp [isOutside, hpart, hlist]

theorem scan_outside (h : isOutside c = true) (cs : List Char) :
    scan c cs = (.illegal, [c], cs) := by
  have hpart : isIdentPart c = false := by
    simp only [isOutside, Bool.and_eq_true, Bool.not_eq_true'] at h
    exact h.1
  have hword : isDigit c = false ∧ isIdentStart c = false := by
    simp only [isIdentPart, Bool.or_eq_false_iff] at hpart
    exact ⟨hpart.1.1.1.2, hpart.1.1.1.1⟩
  have hne {d : Char} (hd : isOutside d = false) : c ≠ d := isOutside.ne h hd
  unfold scan
  rw [if_neg (hne rfl), if_neg (hne rfl), if_neg (fun h => hne rfl h.1),
    if_neg (fun h => hne rfl h.1), if_neg (hne rfl), if_neg (fun h => hne rfl h.1),
    if_neg (hne rfl), if_neg (hne rfl), if_neg (hne rfl), if_neg (hne rfl), if_neg (hne rfl),
    if_neg (hne rfl), if_neg (hne rfl), if_neg (hne rfl), if_neg (hne rfl),
    if_neg (by simp [hword]), if_neg (by simp [hword])]

theorem breaks_of_outside (h : ∀ c ∈ b, isOutside c = true) : Breaks b := by
  intro c hc
  have hout := h c (List.mem_of_mem_head? hc)
  refine ⟨?_, isOutside.ne hout rfl⟩
  simp only [isOutside, Bool.and_eq_true, Bool.not_eq_true'] at hout
  exact hout.1

theorem lexString_illegal_append (h : (lexString a).1 = .illegal) (hb : '"' ∉ b) :
    (lexString (a ++ b)).1 = .illegal := by
  have hopen {b : List Char} (hb : '"' ∉ b) : (lexString b).1 = .illegal := by
    fun_induction lexString b with
    | case1 => rfl
    | case2 rest => exact absurd List.mem_cons_self hb
    | case3 c rest k v r hlex ih =>
      rw [hlex] at ih
      exact ih (fun hmem => hb (List.mem_cons_of_mem _ (List.mem_cons_of_mem _ hmem)))
    | case4 c rest _ _ k v r hlex ih =>
      rw [hlex] at ih
      exact ih (fun hmem => hb (List.mem_cons_of_mem _ hmem))
  fun_induction lexString a with
  | case1 => exact hopen hb
  | case2 rest => cases h
  | case3 c rest k v r hlex ih =>
    rw [hlex] at ih
    simp only [List.cons_append, lexString]
    exact ih h
  | case4 c rest hquote hslash k v r hlex ih =>
    rw [hlex] at ih
    by_cases hlast : c = '\\' ∧ rest = []
    · -- The backslash takes the first character of the second part with it.
      obtain ⟨rfl, rfl⟩ := hlast
      cases b with
      | nil => rfl
      | cons d b =>
        simp only [List.nil_append, List.cons_append, lexString]
        exact hopen (fun hmem => hb (List.mem_cons_of_mem _ hmem))
    · rw [List.cons_append, lexString.eq_4]
      · exact ih h
      · exact hquote
      · intro d r' hc hr
        cases rest with
        | nil => exact hlast ⟨hc, rfl⟩
        | cons e rest => exact hslash e rest hc rfl

/-- Characters that may be cut off at the ends: all blanks, and nothing a token has. -/
structure Trims (p : Char → Bool) : Prop where
  spaces : ∀ c, isSpace c = true → p c = true
  outside : ∀ c, p c = true → isOutside c = true

variable {p : Char → Bool}

theorem Clean.first {rest : List Char} (h : Clean cs) (hskip : skipWhitespace cs = c :: rest) :
    isOutside c = false := by
  by_contra hout
  rw [Bool.not_eq_false] at hout
  refine h (.illegal, String.ofList [c]) ?_ rfl
  rw [lexed_of_cons hskip, scan_outside hout]
  exact List.mem_cons_self

/-- A text of blanks is read only if the lexer takes them for blanks too. -/
theorem lexed_of_trimmed (hp : Trims p) (hcs : ∀ c ∈ cs, p c = true) (h : Clean cs) :
    lexed cs = [] := by
  cases hskip : skipWhitespace cs with
  | nil => exact lexed_of_nil hskip
  | cons c rest =>
    have hmem : c ∈ skipWhitespace cs := hskip ▸ List.mem_cons_self
    have hmem : c ∈ cs := (List.dropWhile_sublist isSpace).subset hmem
    have hout := h.first hskip
    rw [hp.outside c (hcs c hmem)] at hout
    cases hout

/-- What is trimmed from the left are the lexer's own spaces. -/
theorem dropWhile_eq_skipWhitespace (hp : Trims p)
    (hfirst : ∀ c rest, skipWhitespace cs = c :: rest → isOutside c = false) :
    cs.dropWhile p = skipWhitespace cs := by
  have hsplit := List.takeWhile_append_dropWhile (p := isSpace) (l := cs)
  have htake : ∀ c ∈ cs.takeWhile isSpace, p c = true :=
    fun c hc => hp.spaces c (List.mem_takeWhile_imp hc)
  rw [← hsplit, List.dropWhile_append_of_pos htake, hsplit]
  show List.dropWhile p (skipWhitespace cs) = skipWhitespace cs
  cases hskip : skipWhitespace cs with
  | nil => rfl
  | cons c rest =>
    have hc : p c ≠ true := by
      intro hc
      have hout := hfirst c rest hskip
      rw [hp.outside c hc] at hout
      cases hout
    exact List.dropWhile_cons_of_neg hc

theorem Clean.dropWhile_eq (hp : Trims p) (h : Clean cs) : cs.dropWhile p = skipWhitespace cs :=
  dropWhile_eq_skipWhitespace hp (fun _ _ => h.first)

theorem lexed_dropWhile (hp : Trims p) (h : Clean cs) : lexed (cs.dropWhile p) = lexed cs := by
  apply lexed_of_skip_eq
  rw [h.dropWhile_eq hp, skipWhitespace, skipWhitespace, List.dropWhile_idempotent]

/-- And so is what is trimmed from the right. -/
theorem Clean.rdropWhile_lexed (hp : Trims p) (h : Clean cs) :
    lexed (cs.rdropWhile p) = lexed cs ∧ lexed (cs.rtakeWhile p) = [] := by
  have hsplit := List.rdropWhile_append_rtakeWhile (p := p) (l := cs)
  have hcut : ∀ c ∈ cs.rtakeWhile p, p c = true := fun c hc => List.mem_rtakeWhile_imp hc
  have hout : ∀ c ∈ cs.rtakeWhile p, isOutside c = true := fun c hc => hp.outside c (hcut c hc)
  obtain ⟨ls, o, hr⟩ := exists_read (cs.rdropWhile p)
  obtain ⟨ls', o', hr'⟩ := exists_read (cs.rtakeWhile p)
  cases o with
  | none =>
    have hall := (hr.append (breaks_of_outside hout) hr').lexed
    rw [hsplit, List.append_assoc, ← hr'.lexed] at hall
    have hclean : Clean (cs.rtakeWhile p) := by
      intro l hl
      exact h l (hall ▸ List.mem_append_right _ hl)
    have hnil := lexed_of_trimmed hp hcut hclean
    refine ⟨?_, hnil⟩
    rw [hall, hnil, hr.lexed]
    rfl
  | some body =>
    -- An open string would stay open over the blanks.
    have hquote : '"' ∉ cs.rtakeWhile p := fun hmem => isOutside.ne (hout _ hmem) rfl rfl
    have hbody : (lexString body).1 = .illegal := hr.inside_illegal
    have hin : Read ('"' :: (body ++ cs.rtakeWhile p)) [] (some (body ++ cs.rtakeWhile p)) :=
      .inside rfl (lexString_illegal_append hbody hquote)
    have hall := hr.append_inside hin (breaks_of_outside hout)
    rw [hsplit] at hall
    exact absurd h hall.not_clean

theorem lexed_trim (hp : Trims p) (h : Clean cs) :
    lexed ((cs.dropWhile p).rdropWhile p) = lexed cs := by
  have hleft := lexed_dropWhile hp h
  have hclean : Clean (cs.dropWhile p) := by
    rw [Clean, hleft]
    exact h
  rw [(hclean.rdropWhile_lexed hp).1, hleft]

/-! ### Texts cut within a string -/

/-- Without a quote no string is left open. -/
theorem Read.closed (h : Read cs ls o) (hquote : '"' ∉ cs) : o = none := by
  have hskipped {cs rest : List Char} {c : Char} (hskip : skipWhitespace cs = c :: rest) :
      c :: rest <:+ cs := hskip ▸ List.dropWhile_suffix _
  induction h with
  | done => rfl
  | inside h hbody => exact absurd ((hskipped h).subset List.mem_cons_self) hquote
  | @token cs c rest ls o h hc hr ih =>
    exact ih fun hmem => hquote (((scan_suffix c rest).trans (hskipped h)).subset hmem)

/-- A quote closes a string that was left open, if something else stands in between. -/
theorem lexString_close (h : (lexString a).1 = .illegal) {m : List Char}
    (hm : ∀ d ∈ c :: m, d ≠ '"' ∧ d ≠ '\\') (rest : List Char) :
    (lexString (a ++ (c :: m ++ '"' :: rest))).1 = .string ∧
      (lexString (a ++ (c :: m ++ '"' :: rest))).2.2 = rest := by
  have hplain {m : List Char} (hm : ∀ d ∈ m, d ≠ '"' ∧ d ≠ '\\') :
      lexString (m ++ '"' :: rest) = (.string, m, rest) := by
    have hescape := lexString_escape m rest
    rw [EscapedQuote.escape_eq_self hm] at hescape
    exact hescape
  fun_induction lexString a with
  | case1 =>
    rw [List.nil_append, hplain hm]
    exact ⟨rfl, rfl⟩
  | case2 r => cases h
  | case3 d r k v r' hlex ih =>
    rw [hlex] at ih
    exact ih h
  | case4 d r hquote hslash k v r' hlex ih =>
    rw [hlex] at ih
    by_cases hd : d = '\\'
    · -- A backslash at the end takes the character behind it.
      subst hd
      cases r with
      | nil =>
        have hnext := hplain fun e he => hm e (List.mem_cons_of_mem _ he)
        have hstep : lexString (['\\'] ++ (c :: m ++ '"' :: rest)) =
            (.string, c :: m, rest) := by
          rw [List.singleton_append, List.cons_append, lexString, hnext]
        rw [hstep]
        exact ⟨rfl, rfl⟩
      | cons e r => exact absurd rfl (hslash e r rfl)
    · rw [List.cons_append, lexString_plain hquote hd]
      exact ih h

/-- An escaped text outside of a string is not accepted, nor is the quote behind it. -/
theorem escape_not_clean {pre : List Char} (hpre : '"' ∉ pre) (v : List Char) :
    ¬ Clean (pre ++ (EscapedQuote.escape '"' '\\' v ++ ['"'])) := by
  induction v generalizing pre with
  | nil =>
    obtain ⟨ls, o, hr⟩ := exists_read pre
    obtain rfl := hr.closed hpre
    exact (hr.append (breaks_cons rfl (by decide) []) (.inside rfl rfl)).not_clean
  | cons c v ih =>
    by_cases hc : c = '"' ∨ c = '\\'
    · obtain ⟨ls, o, hr⟩ := exists_read pre
      obtain rfl := hr.closed hpre
      obtain ⟨ls', o', hr'⟩ := exists_read ('\\' :: c :: (EscapedQuote.escape '"' '\\' v ++ ['"']))
      have hall := (hr.append (breaks_cons rfl (by decide) _) hr').lexed
      have hslash := @lexed_of_cons ('\\' :: c ::
        (EscapedQuote.escape '"' '\\' v ++ ['"'])) _ '\\' rfl
      rw [List.append_assoc, ← hr'.lexed, hslash] at hall
      rw [EscapedQuote.escape, if_pos hc]
      intro hclean
      refine hclean (.illegal, "\\") ?_ rfl
      rw [List.cons_append, List.cons_append, hall]
      exact List.mem_append_right _ List.mem_cons_self
    · have hquote : '"' ∉ pre ++ [c] := by
        intro hmem
        rcases List.mem_append.mp hmem with hmem | hmem
        · exact hpre hmem
        · exact hc (.inl (List.mem_singleton.mp hmem).symm)
      have hstep := ih hquote
      rw [EscapedQuote.escape, if_neg hc]
      rw [List.append_assoc] at hstep
      exact hstep

/-- A text that ends within a string, with a quoted text behind it. -/
theorem Read.quoted_not_clean (h : Read cs ls (some body)) {m : List Char}
    (hm : ∀ d ∈ c :: m, d ≠ '"' ∧ d ≠ '\\') (hbreaks : Breaks (c :: m)) (v : List Char) :
    ¬ Clean (cs ++ (c :: m ++ '"' :: (EscapedQuote.escape '"' '\\' v ++ ['"']))) := by
  obtain ⟨-, hrest⟩ := lexString_close h.inside_illegal hm
    (EscapedQuote.escape '"' '\\' v ++ ['"'])
  obtain ⟨ls', o, hr⟩ := exists_read
    ('"' :: (body ++ (c :: m ++ '"' :: (EscapedQuote.escape '"' '\\' v ++ ['"']))))
  have hall := (h.append_inside hr hbreaks).lexed
  have hstring := @lexed_of_cons ('"' :: (body ++ (c :: m ++ '"' ::
    (EscapedQuote.escape '"' '\\' v ++ ['"'])))) _ '"' rfl
  rw [scan_quote, hrest] at hstring
  rw [List.append_assoc, ← hr.lexed, hstring] at hall
  intro hclean
  refine @escape_not_clean [] List.not_mem_nil v fun l hl => ?_
  refine hclean l ?_
  rw [hall]
  exact List.mem_append_right _ (List.mem_cons_of_mem _ hl)

/-- A text is read in one way. -/
theorem Read.open_unique {o' : Option (List Char)} (h : Read cs ls o) (h' : Read cs ls' o') :
    o = o' := by
  induction h generalizing ls' with
  | done hskip =>
    cases h' with
    | done => rfl
    | inside hskip' => cases hskip.symm.trans hskip'
    | token hskip' => cases hskip.symm.trans hskip'
  | inside hskip hbody =>
    cases h' with
    | done hskip' => cases hskip.symm.trans hskip'
    | inside hskip' =>
      obtain ⟨-, rfl⟩ := List.cons.inj (hskip.symm.trans hskip')
      rfl
    | token hskip' hc =>
      obtain ⟨rfl, rfl⟩ := List.cons.inj (hskip.symm.trans hskip')
      exact absurd hbody (hc rfl)
  | token hskip hc hr ih =>
    cases h' with
    | done hskip' => cases hskip.symm.trans hskip'
    | inside hskip' hbody =>
      obtain ⟨rfl, rfl⟩ := List.cons.inj (hskip.symm.trans hskip')
      exact absurd hbody (hc rfl)
    | token hskip' hc' hr' =>
      obtain ⟨rfl, rfl⟩ := List.cons.inj (hskip.symm.trans hskip')
      exact ih hr'

/-- Blanks at the end do not close a string. -/
theorem Read.rdropWhile_open (hp : Trims p) (h : Read cs ls (some body)) :
    ∃ ls' body', Read (cs.rdropWhile p) ls' (some body') := by
  have hout : ∀ c ∈ cs.rtakeWhile p, isOutside c = true :=
    fun c hc => hp.outside c (List.mem_rtakeWhile_imp hc)
  obtain ⟨ls', o, hr⟩ := exists_read (cs.rdropWhile p)
  cases o with
  | some body' => exact ⟨ls', body', hr⟩
  | none =>
    obtain ⟨ls'', o', hr'⟩ := exists_read (cs.rtakeWhile p)
    have hclosed := hr'.closed (fun hmem => isOutside.ne (hout _ hmem) rfl rfl)
    have hall := hr.append (breaks_of_outside hout) hr'
    rw [List.rdropWhile_append_rtakeWhile, hclosed] at hall
    cases h.open_unique hall

theorem Read.first_not_outside {rest : List Char} (h : Read cs ls o)
    (hls : ∀ l ∈ ls, l.1 ≠ .illegal) (hskip : skipWhitespace cs = c :: rest) :
    isOutside c = false := by
  cases h with
  | done hnil => cases hnil.symm.trans hskip
  | inside hquote =>
    obtain ⟨rfl, -⟩ := List.cons.inj (hquote.symm.trans hskip)
    decide
  | token hcons =>
    obtain ⟨rfl, rfl⟩ := List.cons.inj (hcons.symm.trans hskip)
    by_contra hout
    refine hls _ List.mem_cons_self ?_
    rw [scan_outside (Bool.not_eq_false _ ▸ hout)]

/-- A text that is cut within a string is still so without the blanks around it. -/
theorem Read.trim_open (hp : Trims p) (h : Read cs ls (some body))
    (hls : ∀ l ∈ ls, l.1 ≠ .illegal) :
    ∃ ls' body', Read ((cs.dropWhile p).rdropWhile p) ls' (some body') := by
  have hdrop : cs.dropWhile p = skipWhitespace cs :=
    dropWhile_eq_skipWhitespace hp (fun _ _ => h.first_not_outside hls)
  have hleft : Read (cs.dropWhile p) ls (some body) := by
    refine h.of_skip_eq ?_
    rw [hdrop, skipWhitespace, skipWhitespace, List.dropWhile_idempotent]
  exact hleft.rdropWhile_open hp

end CairnObs.QueryLang
