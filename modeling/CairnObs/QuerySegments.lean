import CairnObs.QueryLocal
import CairnObs.QueryReading

/-! A query is read part by part between its pipes. -/
namespace CairnObs.QueryLang
open Fallible

/-! ### A part on its own -/

/-- The lexemes of what stands between two pipes. -/
def Unstopped (ls : List Lexeme) : Prop := ∀ l ∈ ls, l.1.stops = false

def bare (ls : List Lexeme) : List Token := ls.map (fun l => ⟨l.1, l.2, 0⟩)

def atEnd : List Token := [⟨.eof, "", 0⟩]

theorem bare_lexemes (ls : List Lexeme) : (bare ls).map Token.lexeme = ls := by
  rw [bare, List.map_map]
  exact List.map_id ls

theorem stops_atEnd : Stops atEnd := rfl

variable {part ls : List Lexeme} {r r' s ts T : List Token} {parts : List (List Lexeme)} {q : Query}
  {ps : List PipeStage}

section Parts
variable {α : Type} {f : List Token → Except SyntaxError (α × List Token)}

/-- `f` reads the part, and reads all of it. -/
def Whole (f : List Token → Except SyntaxError (α × List Token)) (part : List Lexeme) (a : α) :
    Prop :=
  f (bare part ++ atEnd) = .ok (a, atEnd)

variable {a : α}

theorem Whole.unique {b : α} (ha : Whole f part a) (hb : Whole f part b) : a = b := by
  have h := ha.symm.trans hb
  cases h
  rfl

theorem alike_of_part {T' : List Token} (hlex : T.map Token.lexeme = T'.map Token.lexeme)
    (hpart : Unstopped (T.map Token.lexeme)) (hr : Stops r) (hr' : Stops r') :
    Alike r r' (T ++ r) (T' ++ r') := by
  induction T generalizing T' with
  | nil =>
    obtain rfl : T' = [] := List.map_eq_nil_iff.mp hlex.symm
    exact .done hr hr'
  | cons t T ih =>
    cases T' with
    | nil => cases hlex
    | cons t' T' =>
      obtain ⟨ht, hT⟩ := List.cons.inj hlex
      exact .cons ht (hpart _ List.mem_cons_self)
        (ih hT fun l hl => hpart l (List.mem_cons_of_mem _ hl))

theorem Alike.eq_of_stops {s' : List Token} (h : Alike r r' s s') (hs : Stops s) :
    s = r ∧ s' = r' := by
  cases h with
  | done => exact ⟨rfl, rfl⟩
  | @cons t t' ts ts' hlex hgo h =>
    have hgo' : (cur (t :: ts)).kind.stops = false := hgo
    rw [hs] at hgo'
    cases hgo'

theorem Alike.stops {ts' : List Token} (h : Alike r r' ts ts') : Stops r ∧ Stops r' := by
  induction h with
  | done hr hr' => exact ⟨hr, hr'⟩
  | cons _ _ _ ih => exact ih

theorem Local.exact (hf : Local f) {ts' : List Token} (h : Alike r r' ts ts')
    (hs : f ts = .ok (a, r)) : f ts' = .ok (a, r') := by
  obtain ⟨s', hs', halike⟩ := hf h hs
  rw [(halike.eq_of_stops h.stops.1).2] at hs'
  exact hs'

theorem Local.whole_iff (hf : Local f) (hpart : Unstopped (T.map Token.lexeme)) (hr : Stops r) :
    f (T ++ r) = .ok (a, r) ↔ Whole f (T.map Token.lexeme) a := by
  have hlex := bare_lexemes (T.map Token.lexeme)
  constructor
  · exact hf.exact (alike_of_part hlex.symm hpart hr stops_atEnd)
  · exact hf.exact (alike_of_part hlex (hlex.symm ▸ hpart) stops_atEnd hr)

/-- If what `f` leaves starts with a stop, then `f` has read the part to its end. -/
theorem Local.rest_eq (hf : Local f) (hpart : Unstopped (T.map Token.lexeme)) (hr : Stops r)
    (h : f (T ++ r) = .ok (a, s)) (hs : Stops s) : s = r := by
  obtain ⟨s', -, halike⟩ := hf (alike_of_part rfl hpart hr hr) h
  exact (halike.eq_of_stops hs).1

end Parts

/-! ### The parts of a query -/

/-- `ls` is the first part, and a pipe and a part as often as there are more. -/
structure Segments (ls part : List Lexeme) (parts : List (List Lexeme)) : Prop where
  text : ls = part ++ parts.flatMap (symbol .pipe :: ·)
  first : Unstopped part
  rest : ∀ p ∈ parts, Unstopped p

theorem part_append_pipe_inj {p p' rest rest' : List Lexeme} (hp : Unstopped p) (hp' : Unstopped p')
    (hrest : ∀ l ∈ rest.head?, l.1.stops = true) (hrest' : ∀ l ∈ rest'.head?, l.1.stops = true)
    (h : p ++ rest = p' ++ rest') : p = p' ∧ rest = rest' := by
  induction p generalizing p' with
  | nil =>
    cases p' with
    | nil => exact ⟨rfl, h⟩
    | cons l p' =>
      have hstop := hrest l (by rw [← List.nil_append rest, h]; rfl)
      rw [hp' l List.mem_cons_self] at hstop
      cases hstop
  | cons l p ih =>
    cases p' with
    | nil =>
      have hstop := hrest' l (by rw [← List.nil_append rest', ← h]; rfl)
      rw [hp l List.mem_cons_self] at hstop
      cases hstop
    | cons l' p' =>
      obtain ⟨rfl, htail⟩ := List.cons.inj h
      obtain ⟨rfl, hrest⟩ := ih (fun l hl => hp l (List.mem_cons_of_mem _ hl))
        (fun l hl => hp' l (List.mem_cons_of_mem _ hl)) htail
      exact ⟨rfl, hrest⟩

theorem stops_head_pipes (parts : List (List Lexeme)) :
    ∀ l ∈ (parts.flatMap (symbol .pipe :: ·)).head?, l.1.stops = true := by
  cases parts with
  | nil => exact nofun
  | cons p parts =>
    intro l hl
    cases hl
    rfl

theorem Segments.unique {part' : List Lexeme} {parts' : List (List Lexeme)}
    (h : Segments ls part parts) (h' : Segments ls part' parts') :
    part = part' ∧ parts = parts' := by
  obtain ⟨rfl, hrest⟩ := part_append_pipe_inj h.first h'.first (stops_head_pipes parts)
    (stops_head_pipes parts') (h.text.symm.trans h'.text)
  refine ⟨rfl, ?_⟩
  have hparts := h.rest
  have hparts' := h'.rest
  clear h h'
  induction parts generalizing parts' with
  | nil =>
    cases parts' with
    | nil => rfl
    | cons p' parts' => cases hrest
  | cons p parts ih =>
    cases parts' with
    | nil => cases hrest
    | cons p' parts' =>
      have htail := (List.cons.inj hrest).2
      obtain ⟨rfl, hmore⟩ := part_append_pipe_inj (hparts p List.mem_cons_self)
        (hparts' p' List.mem_cons_self) (stops_head_pipes parts) (stops_head_pipes parts') htail
      rw [ih hmore (fun p hp => hparts p (List.mem_cons_of_mem _ hp))
        (fun p hp => hparts' p (List.mem_cons_of_mem _ hp))]

theorem Segments.only_pipes (h : Segments ls part parts) {l : Lexeme} (hl : l ∈ ls)
    (hstops : l.1.stops = true) : l = symbol .pipe := by
  rw [h.text] at hl
  rcases List.mem_append.mp hl with hl | hl
  · rw [h.first l hl] at hstops
    cases hstops
  · obtain ⟨p, hp, hl⟩ := List.mem_flatMap.mp hl
    rcases List.mem_cons.mp hl with rfl | hl
    · rfl
    · rw [h.rest p hp l hl] at hstops
      cases hstops

theorem exists_segments (h : ∀ l ∈ ls, l.1.stops = true → l = symbol .pipe) :
    ∃ part parts, Segments ls part parts := by
  induction ls with
  | nil => exact ⟨[], [], rfl, nofun, nofun⟩
  | cons l ls ih =>
    obtain ⟨part, parts, hseg⟩ := ih fun l hl => h l (List.mem_cons_of_mem _ hl)
    by_cases hl : l.1.stops = true
    · refine ⟨[], part :: parts, ?_, nofun, fun p hp => ?_⟩
      · rw [h l List.mem_cons_self hl, hseg.text]
        rfl
      · rcases List.mem_cons.mp hp with rfl | hp
        · exact hseg.first
        · exact hseg.rest p hp
    · refine ⟨l :: part, parts, by rw [hseg.text]; rfl, fun l' hl' => ?_, hseg.rest⟩
      rcases List.mem_cons.mp hl' with rfl | hl'
      · exact Bool.not_eq_true _ ▸ hl
      · exact hseg.first l' hl'

/-- A query cut at one of its pipes. -/
theorem Segments.split {ls' : List Lexeme} (h : Segments (ls ++ symbol .pipe :: ls') part parts) :
    ∃ parts₁ p parts₂, Segments ls part parts₁ ∧ Segments ls' p parts₂ ∧
      parts = parts₁ ++ p :: parts₂ := by
  obtain ⟨part₁, parts₁, h₁⟩ := @exists_segments ls
    fun l hl => h.only_pipes (List.mem_append_left _ hl)
  obtain ⟨p, parts₂, h₂⟩ := @exists_segments ls'
    fun l hl => h.only_pipes (List.mem_append_right _ (List.mem_cons_of_mem _ hl))
  have hjoin : Segments (ls ++ symbol .pipe :: ls') part₁ (parts₁ ++ p :: parts₂) := by
    refine ⟨?_, h₁.first, fun q hq => ?_⟩
    · rw [h₁.text, h₂.text]
      simp
    · rcases List.mem_append.mp hq with hq | hq
      · exact h₁.rest q hq
      · rcases List.mem_cons.mp hq with rfl | hq
        · exact h₂.first
        · exact h₂.rest q hq
  obtain ⟨rfl, rfl⟩ := h.unique hjoin
  exact ⟨parts₁, p, parts₂, h₁, h₂, rfl⟩

/-- What the lexer returns before the end of file. -/
def Lexemes (ls : List Lexeme) : Prop := ∀ l ∈ ls, l.1 ≠ .eof ∧ (l.1 = .pipe → l = symbol .pipe)

theorem scan_lexemes (c : Char) (cs : List Char) :
    (scan c cs).1 ≠ .eof ∧ ((scan c cs).1 = .pipe → (scan c cs).2.1 = ['|']) := by
  have h := scanned_scan c cs
  generalize scan c cs = t at h
  cases h with
  | @one k cs hk =>
    refine ⟨?_, ?_⟩
    · rintro rfl
      cases hk
    · rintro rfl
      exact hk.symm
  | @two k d cs hk =>
    refine ⟨?_, ?_⟩
    · rintro rfl
      cases hk
    · rintro rfl
      cases hk
  | string h =>
    rcases lexString_cases cs with hk | hk
    · rw [hk]
      exact ⟨nofun, nofun⟩
    · rw [hk]
      exact ⟨nofun, nofun⟩
  | number | ident | illegal => exact ⟨nofun, nofun⟩

theorem lexed_lexemes (cs : List Char) : Lexemes (lexed cs) := by
  induction hlen : cs.length using Nat.strong_induction_on generalizing cs with
  | _ len ih =>
    cases h : skipWhitespace cs with
    | nil =>
      rw [lexed_of_nil h]
      exact nofun
    | cons c rest =>
      have hrest := ih _ (hlen ▸ skip_scan_length h) (scan c rest).2.2 rfl
      obtain ⟨heof, hpipe⟩ := scan_lexemes c rest
      rw [lexed_of_cons h]
      intro l hl
      rcases List.mem_cons.mp hl with rfl | hl
      · refine ⟨heof, fun hk => ?_⟩
        have hk' : (scan c rest).1 = .pipe := hk
        rw [hpipe hk', hk']
        rfl
      · exact hrest l hl

/-- Tokens up to the first that stops, and the rest. -/
theorem exists_part (h : ts.map Token.lexeme = ls ++ [(.eof, "")]) :
    ∃ T r part ls', ts = T ++ r ∧ T.map Token.lexeme = part ∧ Unstopped part ∧ ls = part ++ ls' ∧
      r.map Token.lexeme = ls' ++ [(.eof, "")] ∧ Stops r := by
  induction ls generalizing ts with
  | nil =>
    refine ⟨[], ts, [], [], rfl, rfl, nofun, rfl, h, ?_⟩
    rw [Stops, (cur_of_lexemes h).1]
    rfl
  | cons l ls ih =>
    cases ts with
    | nil => cases h
    | cons t ts =>
      obtain ⟨ht, hts⟩ := List.cons.inj h
      by_cases hstop : l.1.stops = true
      · refine ⟨[], t :: ts, [], l :: ls, rfl, rfl, nofun, rfl, h, ?_⟩
        rw [← ht] at hstop
        exact hstop
      · obtain ⟨T, r, part, ls', rfl, hT, hpart, rfl, hr, hstops⟩ := ih hts
        refine ⟨t :: T, r, l :: part, ls', rfl, ?_, ?_, rfl, hr, hstops⟩
        · rw [List.map_cons, hT, ht]
        · intro l' hl'
          rcases List.mem_cons.mp hl' with rfl | hl'
          · exact Bool.not_eq_true _ ▸ hstop
          · exact hpart l' hl'

/-! ### A query is read if and only if each of its parts is -/

theorem stops_of_parsePipes (h : parsePipes ts = .ok (ps, s)) (hs : (cur s).kind = .eof) :
    Stops ts := by
  rw [parsePipes] at h
  split at h
  · rename_i hk
    rw [Stops, hk]
    rfl
  · cases h
    rw [Stops, hs]
    rfl

theorem parsePipes_segments (hr : r.map Token.lexeme = ls ++ [(.eof, "")]) (hls : Lexemes ls)
    (h : parsePipes r = .ok (ps, s)) (hs : (cur s).kind = .eof) :
    ∃ parts, Segments ls [] parts ∧ List.Forall₂ (Whole parsePipeStage) parts ps := by
  fun_induction parsePipes r generalizing ls ps s with
  | case1 r hk e hp => cases h
  | case2 r hk p r₁ hp _ e hm ih => cases h
  | case3 r hk p r₁ hp _ ps' s' hm ih =>
    cases h
    cases ls with
    | nil =>
      rw [(cur_of_lexemes hr).1] at hk
      cases hk
    | cons l ls =>
      obtain ⟨hkind, hvalue, htail⟩ := cur_of_lexemes (k := l.1) (v := l.2) hr
      have hpipe := (hls l List.mem_cons_self).2 (hkind.symm.trans hk)
      obtain ⟨T, u, part, ls', hT, hlex, hpart, rfl, hu, hstops⟩ := exists_part htail
      subst hlex
      rw [hT] at hp
      have hr₁ := parsePipeStage_local.rest_eq hpart hstops hp (stops_of_parsePipes hm hs)
      subst hr₁
      obtain ⟨parts, hseg, hwhole⟩ :=
        ih hu (fun l hl => hls l (List.mem_cons_of_mem _ (List.mem_append_right _ hl))) hm hs
      refine ⟨T.map Token.lexeme :: parts, ⟨?_, fun _ hl => absurd hl List.not_mem_nil, ?_⟩,
        .cons ((parsePipeStage_local.whole_iff hpart hstops).mp hp) hwhole⟩
      · rw [hpipe, hseg.text]
        rfl
      · intro p hp
        rcases List.mem_cons.mp hp with rfl | hp
        · exact hpart
        · exact hseg.rest p hp
  | case4 r hk =>
    cases h
    cases ls with
    | nil =>
      refine ⟨[], ⟨rfl, ?_, ?_⟩, .nil⟩
      · exact fun _ hl => absurd hl List.not_mem_nil
      · exact fun _ hp => absurd hp List.not_mem_nil
    | cons l ls =>
      have heof := (cur_of_lexemes (k := l.1) (v := l.2) hr).1.symm.trans hs
      exact absurd heof (hls l List.mem_cons_self).1

theorem parsePipes_of_segments (hparts : ∀ p ∈ parts, Unstopped p)
    (hr : r.map Token.lexeme = parts.flatMap (symbol .pipe :: ·) ++ [(.eof, "")])
    (h : List.Forall₂ (Whole parsePipeStage) parts ps) :
    Stops r ∧ ∃ s, parsePipes r = .ok (ps, s) ∧ (cur s).kind = .eof := by
  induction h generalizing r with
  | nil =>
    have hk := (cur_of_lexemes hr).1
    refine ⟨by rw [Stops, hk]; rfl, r, ?_, hk⟩
    rw [parsePipes, if_neg (by rw [hk]; decide)]
  | @cons part p parts ps hp _ ih =>
    rw [List.flatMap_cons, List.cons_append, List.cons_append, List.append_assoc] at hr
    obtain ⟨hk, -, htail⟩ := cur_of_lexemes hr
    obtain ⟨T, u, hT, hlex, hu⟩ := List.map_eq_append_iff.mp htail
    have hpart : Unstopped (T.map Token.lexeme) := hlex.symm ▸ hparts part List.mem_cons_self
    obtain ⟨hstops, s, hs, heof⟩ := ih (fun p hp => hparts p (List.mem_cons_of_mem _ hp)) hu
    have hstage : parsePipeStage r.tail = .ok (p, u) := by
      rw [hT]
      exact (parsePipeStage_local.whole_iff hpart hstops).mpr (hlex.symm ▸ hp)
    refine ⟨by rw [Stops, hk]; rfl, s, ?_, heof⟩
    exact parsePipes_of_pipe hk hstage hs

/-- `parser.Parse` reads each part on its own, and takes nothing else. -/
theorem parse_iff_segments {input : String} : parse input = .ok q ↔
    ∃ part parts q₀ ps, Segments (lexed input.toList) part parts ∧ Whole parseStart part q₀ ∧
      List.Forall₂ (Whole parsePipeStage) parts ps ∧ q = ⟨q₀.base, q₀.pipes ++ ps⟩ := by
  have hlex := tokensFrom_lexed input.toList.length input.toList
  constructor
  · intro h
    simp only [parse, tokens, parseQuery, bind_eq_ok] at h
    obtain ⟨⟨q₀, r₁⟩, hstart, ⟨ps, s⟩, hpipes, h⟩ := h
    split at h
    · rename_i heof
      cases h
      obtain ⟨T, r, part, ls, hT, rfl, hpart, hls, hr, hstops⟩ := exists_part hlex
      rw [hT] at hstart
      have hr₁ := parseStart_local.rest_eq hpart hstops hstart (stops_of_parsePipes hpipes heof)
      subst hr₁
      have hlexemes := lexed_lexemes input.toList
      rw [hls] at hlexemes
      obtain ⟨parts, hseg, hwhole⟩ := parsePipes_segments hr
        (fun l hl => hlexemes l (List.mem_append_right _ hl)) hpipes heof
      refine ⟨_, parts, q₀, ps, ⟨?_, hpart, hseg.rest⟩,
        (parseStart_local.whole_iff hpart hstops).mp hstart, hwhole, rfl⟩
      rw [hls, hseg.text, List.nil_append]
    · cases h
  · rintro ⟨part, parts, q₀, ps, hseg, hstart, hwhole, rfl⟩
    rw [hseg.text, List.append_assoc] at hlex
    obtain ⟨T, r, hT, rfl, hr⟩ := List.map_eq_append_iff.mp hlex
    obtain ⟨hstops, s, hs, heof⟩ := parsePipes_of_segments hseg.rest hr hwhole
    have hstart' := (parseStart_local.whole_iff hseg.first hstops).mpr hstart
    simp only [parse, tokens, parseQuery, bind_eq_ok]
    refine ⟨(q₀, r), ?_, (ps, s), hs, ?_⟩
    · rw [hT]
      exact hstart'
    · rw [if_pos heof]

/-- The same for the parts of a text that are known. -/
theorem Segments.parse_iff {input : String} (h : Segments (lexed input.toList) part parts) :
    parse input = .ok q ↔
      ∃ q₀ ps, Whole parseStart part q₀ ∧ List.Forall₂ (Whole parsePipeStage) parts ps ∧
        q = ⟨q₀.base, q₀.pipes ++ ps⟩ := by
  rw [parse_iff_segments]
  constructor
  · rintro ⟨part', parts', q₀, ps, hseg, hrest⟩
    obtain ⟨rfl, rfl⟩ := hseg.unique h
    exact ⟨q₀, ps, hrest⟩
  · rintro ⟨q₀, ps, hrest⟩
    exact ⟨part, parts, q₀, ps, h, hrest⟩

theorem lexed_ne_nil_of_parse {text : String} (h : parse text = .ok q) :
    lexed text.toList ≠ [] := by
  obtain ⟨part, parts, q₀, -, hseg, hstart, -⟩ := parse_iff_segments.mp h
  intro hnil
  rw [hseg.text] at hnil
  obtain ⟨rfl, -⟩ := List.append_eq_nil_iff.mp hnil
  cases hstart

theorem clean_of_parse {text : String} (h : parse text = .ok q) : Clean text.toList := by
  obtain ⟨part, parts, -, -, hseg, -⟩ := parse_iff_segments.mp h
  intro l hl hillegal
  have hpipe := hseg.only_pipes hl (by rw [hillegal]; rfl)
  rw [hpipe] at hillegal
  cases hillegal

theorem forall₂_append_left {α β : Type} {R : α → β → Prop} {as bs : List α} {cs : List β}
    (h : List.Forall₂ R (as ++ bs) cs) :
    ∃ cs₁ cs₂, cs = cs₁ ++ cs₂ ∧ List.Forall₂ R as cs₁ ∧ List.Forall₂ R bs cs₂ := by
  induction as generalizing cs with
  | nil => exact ⟨[], cs, rfl, .nil, h⟩
  | cons a as ih =>
    cases h with
    | cons ha h =>
      obtain ⟨cs₁, cs₂, rfl, h₁, h₂⟩ := ih h
      exact ⟨_ :: cs₁, cs₂, rfl, .cons ha h₁, h₂⟩

end CairnObs.QueryLang
