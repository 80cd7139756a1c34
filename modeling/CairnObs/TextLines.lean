import Mathlib.Data.List.DropRight
import Mathlib.Tactic

/-! A text that is cut into lines: the complete ones, and what stands behind the last
separator. -/
namespace TextLines

variable {α : Type*} (sep : α → Bool)

/-- The complete lines of a text, without separators; `head` is the start of the first one. -/
def completeFrom : List α → List α → List (List α)
  | _, [] => []
  | head, a :: l => if sep a then head :: completeFrom [] l else completeFrom (head ++ [a]) l

/-- What stands behind the last separator. -/
def unfinishedFrom : List α → List α → List α
  | head, [] => head
  | head, a :: l => if sep a then unfinishedFrom [] l else unfinishedFrom (head ++ [a]) l

/-- The first line with its separator, or the whole text if it has none. -/
def firstLine : List α → List α
  | [] => []
  | a :: l => if sep a then [a] else a :: firstLine l

variable {sep}

theorem completeFrom_append (head l m : List α) :
    completeFrom sep head (l ++ m) =
      completeFrom sep head l ++ completeFrom sep (unfinishedFrom sep head l) m := by
  induction l generalizing head with
  | nil => rfl
  | cons a l ih =>
    rw [List.cons_append, completeFrom, completeFrom, unfinishedFrom]
    split_ifs
    · rw [ih, List.cons_append]
    · rw [ih]

theorem unfinishedFrom_append (head l m : List α) :
    unfinishedFrom sep head (l ++ m) = unfinishedFrom sep (unfinishedFrom sep head l) m := by
  induction l generalizing head with
  | nil => rfl
  | cons a l ih =>
    rw [List.cons_append, unfinishedFrom, unfinishedFrom]
    split_ifs
    · rw [ih]
    · rw [ih]

/-- A part of a line. -/
theorem part_of_line {l : List α} (h : ∀ a ∈ l, sep a = false) (head : List α) :
    completeFrom sep head l = [] ∧ unfinishedFrom sep head l = head ++ l := by
  induction l generalizing head with
  | nil => exact ⟨rfl, (List.append_nil _).symm⟩
  | cons a l ih =>
    obtain ⟨ha, hl⟩ := List.forall_mem_cons.mp h
    obtain ⟨hcomplete, hunfinished⟩ := ih hl (head ++ [a])
    rw [completeFrom, unfinishedFrom, ha]
    exact ⟨hcomplete, hunfinished.trans (by rw [List.append_assoc]; rfl)⟩

/-- The end of a line. -/
theorem end_of_line {l : List α} (h : ∀ a ∈ l, sep a = false) {a : α} (ha : sep a = true)
    (head : List α) :
    completeFrom sep head (l ++ [a]) = [head ++ l] ∧ unfinishedFrom sep head (l ++ [a]) = [] := by
  obtain ⟨hcomplete, hunfinished⟩ := part_of_line h head
  rw [completeFrom_append, unfinishedFrom_append, hcomplete, hunfinished, completeFrom,
    unfinishedFrom, ha]
  exact ⟨rfl, rfl⟩

theorem firstLine_cases (sep : α → Bool) (l : List α) :
    (firstLine sep l = l ∧ ∀ a ∈ l, sep a = false) ∨
      ∃ pre a post, l = pre ++ a :: post ∧ sep a = true ∧ (∀ b ∈ pre, sep b = false) ∧
        firstLine sep l = pre ++ [a] := by
  induction l with
  | nil => exact .inl ⟨rfl, fun a ha => absurd ha List.not_mem_nil⟩
  | cons a l ih =>
    rw [firstLine]
    cases ha : sep a with
    | true => exact .inr ⟨[], a, l, rfl, ha, fun b hb => absurd hb List.not_mem_nil, rfl⟩
    | false =>
      rcases ih with ⟨hline, hl⟩ | ⟨pre, b, post, rfl, hb, hpre, hline⟩
      · exact .inl ⟨by rw [hline]; rfl, List.forall_mem_cons.mpr ⟨ha, hl⟩⟩
      · refine .inr ⟨a :: pre, b, post, rfl, hb, List.forall_mem_cons.mpr ⟨ha, hpre⟩, ?_⟩
        rw [hline]
        rfl

end TextLines
