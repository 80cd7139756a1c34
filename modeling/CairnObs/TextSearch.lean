import Mathlib.Data.List.DropRight
import Mathlib.Tactic

/-! Patterns looked for at every position of a text, and texts trimmed at their ends. A pattern
sees the character before the position, for word boundaries, and the text from the position
on. -/
namespace TextSearch

/-- `\w` without Unicode. -/
def isWordChar (c : Char) : Bool :=
  c == '_' || decide ('a' ≤ c ∧ c ≤ 'z') || decide ('A' ≤ c ∧ c ≤ 'Z') || decide ('0' ≤ c ∧ c ≤ '9')

/-- `\b` between the characters `prev` and `next`, which are missing at the ends. -/
def boundary (prev next : Option Char) : Bool := prev.any isWordChar != next.any isWordChar

/-- The last character of `pre`, or the one before it. -/
def lastOf (prev : Option Char) (pre : List Char) : Option Char := pre.getLast?.or prev

@[simp] theorem lastOf_nil (prev : Option Char) : lastOf prev [] = prev := rfl

@[simp] theorem lastOf_cons (prev : Option Char) (c : Char) (pre : List Char) :
    lastOf prev (c :: pre) = lastOf (some c) pre := by
  unfold lastOf
  cases pre with
  | nil => rfl
  | cons d pre => simp [List.getLast?_cons]

theorem lastOf_append (prev : Option Char) (pre qre : List Char) :
    lastOf prev (pre ++ qre) = lastOf (lastOf prev pre) qre := by
  induction pre generalizing prev with
  | nil => rfl
  | cons c pre ih => rw [List.cons_append, lastOf_cons, lastOf_cons, ih]

theorem lastOf_of_ne_nil (prev prev' : Option Char) {pre : List Char} (h : pre ≠ []) :
    lastOf prev pre = lastOf prev' pre := by
  obtain ⟨c, pre, rfl⟩ := List.exists_cons_of_ne_nil h
  rw [lastOf_cons, lastOf_cons]

variable {c : Char} {prev : Option Char} {cs : List Char}

theorem lastOf_mem {pre : List Char} (h : pre ≠ []) (hc : c ∈ lastOf prev pre) : c ∈ pre := by
  unfold lastOf at hc
  rw [List.getLast?_eq_some_getLast h, Option.some_or] at hc
  rw [← Option.mem_some_iff.mp hc]
  exact List.getLast_mem h

variable (m : Option Char → List Char → Bool)

/-- Whether the pattern matches at some position of the text behind `prev`. -/
def search : Option Char → List Char → Bool
  | prev, [] => m prev []
  | prev, c :: cs => m prev (c :: cs) || search (some c) cs

theorem search_of_split {pre post : List Char} (h : m (lastOf prev pre) post = true) :
    search m prev (pre ++ post) = true := by
  induction pre generalizing prev with
  | nil =>
    cases post with
    | nil => exact h
    | cons c post => exact Bool.or_eq_true_iff.mpr (.inl h)
  | cons c pre ih =>
    rw [lastOf_cons] at h
    exact Bool.or_eq_true_iff.mpr (.inr (ih h))

/-! ### Replacing -/

section Replace
variable {α : Type*} (exec : Option Char → List Char → Option (ℕ × α))

/-- The matches of a pattern from left to right, none of which begins inside another. A match
says how many characters it has behind its first one. -/
def allMatches : Option Char → List Char → List (List Char × α)
  | _, [] => []
  | prev, c :: cs =>
    match exec prev (c :: cs) with
    | none => allMatches (some c) cs
    | some (n, a) => (c :: cs.take n, a) :: allMatches (lastOf (some c) (cs.take n)) (cs.drop n)
termination_by _ cs => cs.length
decreasing_by
  all_goals simp only [List.length_cons, List.length_drop]; omega

/-- The text with `f` of each match in its place. -/
def replaceAll (f : List Char → α → List Char) : Option Char → List Char → List Char
  | _, [] => []
  | prev, c :: cs =>
    match exec prev (c :: cs) with
    | none => c :: replaceAll f (some c) cs
    | some (n, a) =>
      f (c :: cs.take n) a ++ replaceAll f (lastOf (some c) (cs.take n)) (cs.drop n)
termination_by _ cs => cs.length
decreasing_by
  all_goals simp only [List.length_cons, List.length_drop]; omega

variable {exec}

/-- Where each match stays, the text does. -/
theorem replaceAll_eq_self {f : List Char → α → List Char}
    (h : ∀ x ∈ allMatches exec prev cs, f x.1 x.2 = x.1) : replaceAll exec f prev cs = cs := by
  fun_induction allMatches exec prev cs with
  | case1 => rw [replaceAll]
  | case2 prev c cs hnone ih => rw [replaceAll, hnone, ih h]
  | case3 prev c cs n a hsome ih =>
    rw [replaceAll, hsome]
    have hfirst : f (c :: cs.take n) a = c :: cs.take n := h _ List.mem_cons_self
    have hrest := ih (fun x hx => h x (List.mem_cons_of_mem _ hx))
    dsimp only
    rw [hfirst, hrest, List.cons_append, List.take_append_drop]

/-- What all matches have, from what one has. -/
theorem of_mem_allMatches {P : List Char → α → Prop}
    (hP : ∀ prev c cs n a, exec prev (c :: cs) = some (n, a) → P (c :: cs.take n) a)
    {x : List Char × α} (hx : x ∈ allMatches exec prev cs) : P x.1 x.2 := by
  fun_induction allMatches exec prev cs with
  | case1 => cases hx
  | case2 prev c cs hnone ih => exact ih hx
  | case3 prev c cs n a hsome ih =>
    rcases List.mem_cons.mp hx with rfl | hx
    · exact hP prev c cs n a hsome
    · exact ih hx

end Replace

/-! ### Trimming -/

section Trim
variable {p : Char → Bool}

/-- The text without the characters `p` at its ends. -/
def trim (p : Char → Bool) (cs : List Char) : List Char := (cs.dropWhile p).rdropWhile p

theorem trim_head (h : (trim p cs).head? = some c) : p c = false := by
  obtain ⟨tail, htail⟩ := List.rdropWhile_prefix p (cs.dropWhile p)
  have hhead : (cs.dropWhile p).head? = some c := by
    rw [← htail, List.head?_append]
    show (trim p cs).head?.or tail.head? = some c
    rw [h, Option.some_or]
  have hnot := List.head?_dropWhile_not p cs
  rw [hhead] at hnot
  exact hnot

theorem trim_getLast (h : (trim p cs).getLast? = some c) : p c = false := by
  have hne : trim p cs ≠ [] := by
    rintro he
    rw [he] at h
    cases h
  have hlast := List.rdropWhile_last_not p (cs.dropWhile p) hne
  rw [List.getLast?_eq_some_getLast hne, Option.some.injEq] at h
  exact Bool.not_eq_true _ ▸ h ▸ hlast

theorem trim_eq_self (hhead : ∀ c ∈ cs.head?, p c = false)
    (hlast : ∀ c ∈ cs.getLast?, p c = false) :
    trim p cs = cs := by
  have hleft : cs.dropWhile p = cs := by
    cases cs with
    | nil => rfl
    | cons c cs => exact List.dropWhile_cons_of_neg (by simp [hhead c rfl])
  rw [trim, hleft, List.rdropWhile_eq_self_iff]
  intro hne
  rw [hlast _ (List.getLast?_eq_some_getLast hne)]
  exact Bool.false_ne_true

/-- Trimming removes nothing but these characters. -/
theorem mem_trim (h : c ∈ cs) (hc : p c = false) : c ∈ trim p cs := by
  have hleft : c ∈ cs.dropWhile p := by
    rw [← List.takeWhile_append_dropWhile (p := p) (l := cs)] at h
    refine (List.mem_append.mp h).resolve_left fun hmem => ?_
    rw [List.mem_takeWhile_imp hmem] at hc
    cases hc
  rw [← List.rdropWhile_append_rtakeWhile (p := p) (l := cs.dropWhile p)] at hleft
  refine (List.mem_append.mp hleft).resolve_right fun hmem => ?_
  rw [List.mem_rtakeWhile_imp hmem] at hc
  cases hc

end Trim

end TextSearch
