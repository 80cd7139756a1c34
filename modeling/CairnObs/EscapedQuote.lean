import Mathlib.Tactic

/-! Quoted texts with an escape character: a text is written with the escape before every
quote and every escape, and any scanner that undoes these two and keeps the rest reads it
back up to the closing quote. -/
namespace EscapedQuote

variable {α β : Type*} [DecidableEq α] (quote esc : α)

def escape : List α → List α
  | [] => []
  | c :: cs => if c = quote ∨ c = esc then esc :: c :: escape cs else c :: escape cs

@[simp] theorem escape_nil : escape quote esc [] = [] := rfl

variable {quote esc}

/-- A text without quotes and escapes is written as it is. -/
theorem escape_eq_self {cs : List α} (h : ∀ c ∈ cs, c ≠ quote ∧ c ≠ esc) :
    escape quote esc cs = cs := by
  induction cs with
  | nil => rfl
  | cons c cs ih =>
    have hc := h c List.mem_cons_self
    rw [escape, if_neg (by simp [hc]), ih (fun d hd => h d (List.mem_cons_of_mem _ hd))]

/-- `closed rest` is what a scanner returns at the closing quote, `add c` what it does with
one more character of the text. -/
theorem scan_escape {scan : List α → β} {closed : List α → β} {add : α → β → β}
    {rest : List α} (hclose : scan (quote :: rest) = closed rest)
    (hquote : ∀ rest, scan (esc :: quote :: rest) = add quote (scan rest))
    (hesc : ∀ rest, scan (esc :: esc :: rest) = add esc (scan rest))
    (hplain : ∀ c rest, c ≠ quote → c ≠ esc → scan (c :: rest) = add c (scan rest))
    (text : List α) :
    scan (escape quote esc text ++ quote :: rest) = text.foldr add (closed rest) := by
  induction text with
  | nil => exact hclose
  | cons c cs ih =>
    by_cases hq : c = quote
    · subst hq
      simp only [escape, true_or, if_true, List.cons_append, hquote, ih, List.foldr_cons]
    · by_cases he : c = esc
      · subst he
        simp only [escape, or_true, if_true, List.cons_append, hesc, ih, List.foldr_cons]
      · simp only [escape, hq, he, or_self, if_false, List.cons_append, hplain c _ hq he, ih,
          List.foldr_cons]

end EscapedQuote
