import Mathlib.Data.List.TakeWhile
import Mathlib.Tactic

/-! Readers that take a piece from the start of a text. A reader whose pieces show their own
end is described by the pieces alone, whatever follows them. -/
namespace Scanner

variable {τ α β : Type*}

/-- The reader takes exactly the pieces of `R`, with their meaning. -/
def Reads (read : List τ → Option (α × List τ)) (R : List τ → α → Prop) : Prop :=
  ∀ ts a rest, read ts = some (a, rest) ↔ ∃ w, ts = w ++ rest ∧ R w a

variable {rest ts value : List τ} {esc quote mark : τ} {as : List α} {R : List τ → α → Prop}

/-- The longest start of a text. -/
theorem span_iff {f : τ → Bool} {a : List τ} :
    ts.takeWhile f = a ∧ ts.dropWhile f = rest ↔
      ts = a ++ rest ∧ (∀ x ∈ a, f x = true) ∧ ∀ x ∈ rest.head?, f x = false := by
  constructor
  · rintro ⟨rfl, rfl⟩
    refine ⟨List.takeWhile_append_dropWhile.symm, fun x hx => List.mem_takeWhile_imp hx, ?_⟩
    intro x hx
    have hnot := List.head?_dropWhile_not f ts
    rw [Option.mem_def.mp hx] at hnot
    exact hnot
  · rintro ⟨rfl, ha, hrest⟩
    rw [List.takeWhile_append_of_pos ha, List.dropWhile_append_of_pos ha]
    cases rest with
    | nil => exact ⟨List.append_nil a, rfl⟩
    | cons x rest =>
      have hx := hrest x rfl
      rw [List.takeWhile_cons_of_neg (by rw [hx]; exact Bool.false_ne_true),
        List.dropWhile_cons_of_neg (by rw [hx]; exact Bool.false_ne_true)]
      exact ⟨List.append_nil a, rfl⟩

/-- What stands between quotes, and what it means: an escape is left out, and the character
behind it is taken as it is. -/
inductive Escaped (quote esc : τ) : List τ → List τ → Prop
  | nil : Escaped quote esc [] []
  | escaped {c : τ} {raw value : List τ} (h : Escaped quote esc raw value) :
    Escaped quote esc (esc :: c :: raw) (c :: value)
  | plain {c : τ} {raw value : List τ} (hquote : c ≠ quote) (hesc : c ≠ esc)
    (h : Escaped quote esc raw value) : Escaped quote esc (c :: raw) (c :: value)

/-- The text goes on to a closing quote, and stands for `value`. -/
def Closes (quote esc : τ) (ts value rest : List τ) : Prop :=
  ∃ raw, ts = raw ++ quote :: rest ∧ Escaped quote esc raw value

theorem not_closes_nil : ¬ Closes quote esc [] value rest := by
  rintro ⟨raw, h, -⟩
  exact List.append_ne_nil_of_right_ne_nil _ (List.cons_ne_nil _ _) h.symm

theorem closes_quote_iff (hne : quote ≠ esc) :
    Closes quote esc (quote :: ts) value rest ↔ value = [] ∧ rest = ts := by
  constructor
  · rintro ⟨raw, hts, hraw⟩
    cases hraw with
    | nil => exact ⟨rfl, (List.cons.inj hts).2.symm⟩
    | escaped => exact absurd (List.cons.inj hts).1 hne
    | plain hquote => exact absurd (List.cons.inj hts).1.symm hquote
  · rintro ⟨rfl, rfl⟩
    exact ⟨[], rfl, .nil⟩

theorem closes_esc_iff (hne : quote ≠ esc) {d : τ} :
    Closes quote esc (esc :: d :: ts) value rest ↔
      ∃ value', value = d :: value' ∧ Closes quote esc ts value' rest := by
  constructor
  · rintro ⟨raw, hts, hraw⟩
    cases hraw with
    | nil => exact absurd (List.cons.inj hts).1.symm hne
    | @escaped c raw value h =>
      cases hts
      exact ⟨value, rfl, raw, rfl, h⟩
    | plain _ hesc => exact absurd (List.cons.inj hts).1.symm hesc
  · rintro ⟨value', rfl, raw, rfl, h⟩
    exact ⟨esc :: d :: raw, rfl, .escaped h⟩

/-- Nothing is escaped at the end of the text. -/
theorem not_closes_esc (hne : quote ≠ esc) : ¬ Closes quote esc [esc] value rest := by
  rintro ⟨raw, hts, hraw⟩
  cases hraw with
  | nil => exact hne (List.cons.inj hts).1.symm
  | escaped => cases hts
  | plain _ hesc => exact hesc (List.cons.inj hts).1.symm

theorem closes_plain_iff {c : τ} (hquote : c ≠ quote) (hesc : c ≠ esc) :
    Closes quote esc (c :: ts) value rest ↔
      ∃ value', value = c :: value' ∧ Closes quote esc ts value' rest := by
  constructor
  · rintro ⟨raw, hts, hraw⟩
    cases hraw with
    | nil => exact absurd (List.cons.inj hts).1 hquote
    | escaped => exact absurd (List.cons.inj hts).1 hesc
    | @plain d raw value _ _ h =>
      cases hts
      exact ⟨value, rfl, raw, rfl, h⟩
  · rintro ⟨value', rfl, raw, rfl, h⟩
    exact ⟨c :: raw, rfl, .plain hquote hesc h⟩

/-- Pieces that `R` describes, each behind a `mark`, and no further one. -/
def Pieces (mark : τ) (R : List τ → α → Prop) (ts : List τ) (as : List α) (rest : List τ) : Prop :=
  ∃ ws, ts = ws.flatMap (fun w => mark :: w) ++ rest ∧ List.Forall₂ R ws as ∧
    rest.head? ≠ some mark

theorem pieces_nil_iff : Pieces mark R [] as rest ↔ as = [] ∧ rest = [] := by
  constructor
  · rintro ⟨ws, hws, hitems, -⟩
    obtain ⟨hflat, rfl⟩ := List.append_eq_nil_iff.mp hws.symm
    cases hitems with
    | nil => exact ⟨rfl, rfl⟩
    | cons => cases hflat
  · rintro ⟨rfl, rfl⟩
    exact ⟨[], rfl, .nil, fun h => by cases h⟩

theorem pieces_mark_iff :
    Pieces mark R (mark :: ts) as rest ↔
      ∃ w ts' a as', ts = w ++ ts' ∧ as = a :: as' ∧ R w a ∧ Pieces mark R ts' as' rest := by
  constructor
  · rintro ⟨ws, hts, hws, hrest⟩
    cases hws with
    | nil =>
      rw [List.flatMap_nil, List.nil_append] at hts
      exact absurd (congrArg List.head? hts.symm) hrest
    | @cons w a ws as hw hws =>
      rw [List.flatMap_cons, List.cons_append, List.cons_append, List.append_assoc] at hts
      exact ⟨w, _, a, as, (List.cons.inj hts).2, rfl, hw, ws, rfl, hws, hrest⟩
  · rintro ⟨w, ts', a, as', rfl, rfl, hw, ws, rfl, hws, hrest⟩
    refine ⟨w :: ws, ?_, .cons hw hws, hrest⟩
    rw [List.flatMap_cons, List.cons_append, List.cons_append, List.append_assoc]

theorem pieces_other_iff {c : τ} (hc : c ≠ mark) :
    Pieces mark R (c :: ts) as rest ↔ as = [] ∧ rest = c :: ts := by
  constructor
  · rintro ⟨ws, hts, hws, -⟩
    cases hws with
    | nil => exact ⟨rfl, hts.symm⟩
    | cons => exact absurd (List.cons.inj hts).1 hc
  · rintro ⟨rfl, rfl⟩
    exact ⟨[], rfl, .nil, fun h => hc (Option.some.inj h)⟩

theorem map_cons_eq_some (c : τ) (r : Option (List τ × List τ)) :
    r.map (fun r => (c :: r.1, r.2)) = some (value, rest) ↔
      ∃ value', value = c :: value' ∧ r = some (value', rest) := by
  rw [Option.map_eq_some_iff]
  constructor
  · rintro ⟨⟨value', rest'⟩, hr, heq⟩
    cases heq
    exact ⟨value', rfl, hr⟩
  · rintro ⟨value', rfl, hr⟩
    exact ⟨_, hr, rfl⟩

theorem nil_eq_some {γ : Type*} {as : List β} {ts rest : γ} :
    some (([] : List β), ts) = some (as, rest) ↔ as = [] ∧ rest = ts := by
  rw [Option.some.injEq, Prod.mk.injEq, eq_comm (a := []), eq_comm (a := ts)]

variable [DecidableEq τ]

def expect (c : τ) : List τ → Option (List τ)
  | d :: ts => if d = c then some ts else none
  | [] => none

theorem expect_eq_some {c : τ} : expect c ts = some rest ↔ ts = c :: rest := by
  cases ts with
  | nil => exact iff_of_false (fun h => by cases h) (fun h => by cases h)
  | cons d ts =>
    rw [expect]
    split_ifs with hd
    · rw [hd, Option.some.injEq, List.cons.injEq, and_iff_right rfl]
    · exact iff_of_false (fun h => by cases h) (fun h => hd (List.cons.inj h).1)

/-- The characters up to `stop`, which is taken too. -/
def upTo (stop : τ) (ts : List τ) : Option (List τ × List τ) :=
  (expect stop (ts.dropWhile (fun c => decide (c ≠ stop)))).map
    (fun rest => (ts.takeWhile (fun c => decide (c ≠ stop)), rest))

theorem upTo_eq_some {stop : τ} {a : List τ} :
    upTo stop ts = some (a, rest) ↔ ts = a ++ stop :: rest ∧ stop ∉ a := by
  have hspan := @span_iff τ (stop :: rest) ts (fun c => decide (c ≠ stop)) a
  have hhead : ∀ x ∈ (stop :: rest).head?, decide (x ≠ stop) = false := by
    intro x hx
    cases hx
    exact decide_eq_false (not_not.mpr rfl)
  have hmem : (∀ x ∈ a, decide (x ≠ stop) = true) ↔ stop ∉ a := by
    constructor
    · exact fun h hstop => of_decide_eq_true (h stop hstop) rfl
    · exact fun h x hx => decide_eq_true (fun he => h (he ▸ hx))
  rw [hmem, and_iff_left hhead] at hspan
  rw [← hspan, upTo, Option.map_eq_some_iff]
  constructor
  · rintro ⟨rest', hrest', heq⟩
    cases heq
    exact ⟨rfl, expect_eq_some.mp hrest'⟩
  · rintro ⟨rfl, hdrop⟩
    exact ⟨rest, expect_eq_some.mpr hdrop, rfl⟩

/-! ### Quoted texts -/

/-- The text behind an opening quote. -/
def quoted (quote esc : τ) : List τ → Option (List τ × List τ)
  | [] => none
  | [c] => if c = esc then none else if c = quote then some ([], []) else none
  | c :: d :: ts =>
    if c = esc then (quoted quote esc ts).map (fun r => (d :: r.1, r.2))
    else if c = quote then some ([], d :: ts)
    else (quoted quote esc (d :: ts)).map (fun r => (c :: r.1, r.2))

theorem quoted_eq_some (hne : quote ≠ esc) :
    quoted quote esc ts = some (value, rest) ↔
      ∃ raw, ts = raw ++ quote :: rest ∧ Escaped quote esc raw value := by
  show _ ↔ Closes quote esc ts value rest
  fun_induction quoted quote esc ts generalizing value with
  | case1 => exact iff_of_false (fun h => by cases h) not_closes_nil
  | case2 => exact iff_of_false (fun h => by cases h) (not_closes_esc hne)
  | case3 => rw [closes_quote_iff hne, nil_eq_some]
  | case4 c hesc hquote =>
    refine iff_of_false (fun h => by cases h) ?_
    rw [closes_plain_iff hquote hesc]
    rintro ⟨value', -, h⟩
    exact not_closes_nil h
  | case5 d ts ih =>
    rw [closes_esc_iff hne, map_cons_eq_some]
    exact exists_congr fun value' => and_congr_right fun _ => ih
  | case6 d ts => rw [closes_quote_iff hne, nil_eq_some]
  | case7 c d ts hesc hquote ih =>
    rw [closes_plain_iff hquote hesc, map_cons_eq_some]
    exact exists_congr fun value' => and_congr_right fun _ => ih

/-! ### Repetition -/

/-- Pieces that each stand behind a `mark`. -/
def many (mark : τ) (item : List τ → Option (α × List τ)) : ℕ → List τ → Option (List α × List τ)
  | fuel+1, c :: ts =>
    if c = mark then
      (item ts).bind (fun r => (many mark item fuel r.2).map (fun s => (r.1 :: s.1, s.2)))
    else some ([], c :: ts)
  | _, [] => some ([], [])
  | 0, _ :: _ => none

/-- The fuel is enough when there is some for each character. -/
theorem many_eq_some {item : List τ → Option (α × List τ)} (h : Reads item R) {fuel : ℕ}
    (hfuel : ts.length ≤ fuel) :
    many mark item fuel ts = some (as, rest) ↔
      ∃ ws, ts = ws.flatMap (fun w => mark :: w) ++ rest ∧ List.Forall₂ R ws as ∧
        rest.head? ≠ some mark := by
  show _ ↔ Pieces mark R ts as rest
  fun_induction many mark item fuel ts generalizing as with
  | case1 fuel ts ih =>
    rw [List.length_cons] at hfuel
    rw [pieces_mark_iff]
    constructor
    · intro hread
      obtain ⟨⟨a, ts'⟩, hitem, hread⟩ := Option.bind_eq_some_iff.mp hread
      obtain ⟨⟨as', rest'⟩, hmany, heq⟩ := Option.map_eq_some_iff.mp hread
      cases heq
      obtain ⟨w, rfl, hw⟩ := (h _ _ _).mp hitem
      rw [List.length_append] at hfuel
      have hlen : ts'.length ≤ fuel := by omega
      exact ⟨w, ts', a, as', rfl, rfl, hw, (ih (a, ts') hlen).mp hmany⟩
    · rintro ⟨w, ts', a, as', rfl, rfl, hw, hpieces⟩
      rw [List.length_append] at hfuel
      have hlen : ts'.length ≤ fuel := by omega
      rw [(h _ _ _).mpr ⟨w, rfl, hw⟩, Option.bind_some, (ih (a, ts') hlen).mpr hpieces]
      rfl
  | case2 fuel c ts hc => rw [pieces_other_iff hc, nil_eq_some]
  | case3 => rw [pieces_nil_iff, nil_eq_some]
  | case4 c ts => cases hfuel

end Scanner
