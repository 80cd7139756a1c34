import Mathlib.Data.List.Basic

/-! The rows of a table whose key satisfies a condition, and how INSERT, UPDATE, DELETE and
SELECT act on them. -/
namespace KeyedRows

variable {α κ : Type*} {key : α → κ} {p : κ → Bool} {l : List α}

def rowsWhere (key : α → κ) (p : κ → Bool) (l : List α) : List α := l.filter (fun x => p (key x))

variable {x : α}

theorem mem_rowsWhere : x ∈ rowsWhere key p l ↔ x ∈ l ∧ p (key x) = true :=
  List.mem_filter

theorem rowsWhere_congr {p' : κ → Bool} (h : ∀ x ∈ l, p (key x) = p' (key x)) :
    rowsWhere key p l = rowsWhere key p' l := List.filter_congr h

/-! ### INSERT -/

theorem rowsWhere_concat_of_pos (h : p (key x) = true) :
    rowsWhere key p (l ++ [x]) = rowsWhere key p l ++ [x] := by
  simp [rowsWhere, h]

theorem rowsWhere_concat_of_neg (h : p (key x) = false) :
    rowsWhere key p (l ++ [x]) = rowsWhere key p l := by
  simp [rowsWhere, h]

/-! ### UPDATE -/

theorem rowsWhere_map {g : α → α} (hkey : ∀ x, key (g x) = key x) :
    rowsWhere key p (l.map g) = (rowsWhere key p l).map g := by
  simp only [rowsWhere, List.filter_map, Function.comp_def, hkey]

/-- An update of other rows. -/
theorem rowsWhere_map_of_frame {g : α → α} (hkey : ∀ x, key (g x) = key x)
    (hg : ∀ x, p (key x) = true → g x = x) : rowsWhere key p (l.map g) = rowsWhere key p l := by
  rw [rowsWhere_map hkey]
  calc (rowsWhere key p l).map g = (rowsWhere key p l).map id :=
        List.map_congr_left (fun x hx => hg x (mem_rowsWhere.mp hx).2)
    _ = rowsWhere key p l := List.map_id _

/-! ### DELETE -/

theorem rowsWhere_filter (keep : α → Bool) :
    rowsWhere key p (l.filter keep) = (rowsWhere key p l).filter keep := by
  simp only [rowsWhere, List.filter_filter, Bool.and_comm]

/-- A deletion of other rows. -/
theorem rowsWhere_filter_of_frame {keep : α → Bool} (h : ∀ x, p (key x) = true → keep x = true) :
    rowsWhere key p (l.filter keep) = rowsWhere key p l := by
  rw [rowsWhere_filter]
  exact List.filter_eq_self.mpr (fun x hx => h x (mem_rowsWhere.mp hx).2)

/-! ### SELECT -/

section Select
variable {q : α → Bool} (h : ∀ x, q x = true → p (key x) = true)
include h

theorem filter_rowsWhere : (rowsWhere key p l).filter q = l.filter q := by
  rw [rowsWhere, List.filter_filter]
  refine List.filter_congr (fun x _ => ?_)
  cases hq : q x with
  | true => rw [h x hq]; rfl
  | false => rfl

theorem find?_rowsWhere : (rowsWhere key p l).find? q = l.find? q := by
  have hq : (fun x => decide (p (key x) = true ∧ q x = true)) = q := by
    funext x
    cases hx : q x with
    | true => simp [h x hx]
    | false => simp
  rw [rowsWhere, List.find?_filter, hq]

theorem any_rowsWhere : (rowsWhere key p l).any q = l.any q := by
  rw [Bool.eq_iff_iff, List.any_eq_true, List.any_eq_true]
  constructor
  · rintro ⟨x, hx, hq⟩
    exact ⟨x, (mem_rowsWhere.mp hx).1, hq⟩
  · rintro ⟨x, hx, hq⟩
    exact ⟨x, mem_rowsWhere.mpr ⟨hx, h x hq⟩, hq⟩

end Select

/-! ### Changes of a table -/

/-- A change of the rows whose key is `own`: it can be made on them alone, and the rows whose key
is `other` stay. -/
structure ActsOn (key : α → κ) (own other : κ → Bool) (change : List α → List α) : Prop where
  own_rows : ∀ l, rowsWhere key own (change l) = change (rowsWhere key own l)
  other_rows : ∀ l, rowsWhere key other (change l) = rowsWhere key other l
  keys : ∀ l, ∀ x ∈ change l, own (key x) = true ∨ ∃ y ∈ l, key y = key x

variable {own other : κ → Bool}

theorem ActsOn.insert (hown : own (key x) = true) (hother : other (key x) = false) :
    ActsOn key own other (fun l => l ++ [x]) where
  own_rows _ := rowsWhere_concat_of_pos hown
  other_rows _ := rowsWhere_concat_of_neg hother
  keys l y hy := by
    rcases List.mem_append.mp hy with hy | hy
    · exact .inr ⟨y, hy, rfl⟩
    · exact .inl (List.mem_singleton.mp hy ▸ hown)

theorem ActsOn.update {g : α → α} (hkey : ∀ x, key (g x) = key x)
    (hother : ∀ x, other (key x) = true → g x = x) : ActsOn key own other (fun l => l.map g) where
  own_rows _ := rowsWhere_map hkey
  other_rows _ := rowsWhere_map_of_frame hkey hother
  keys l y hy := by
    obtain ⟨x, hx, rfl⟩ := List.mem_map.mp hy
    exact .inr ⟨x, hx, (hkey x).symm⟩

theorem ActsOn.delete {keep : α → Bool} (hother : ∀ x, other (key x) = true → keep x = true) :
    ActsOn key own other (fun l => l.filter keep) where
  own_rows _ := rowsWhere_filter keep
  other_rows _ := rowsWhere_filter_of_frame hother
  keys _ y hy := .inr ⟨y, (List.mem_filter.mp hy).1, rfl⟩

end KeyedRows
