import Mathlib.Tactic

/-! Lists of fields written one after the other, each followed by a terminator or with one before
it. Where no field contains the terminator, the text gives the fields back. -/
namespace SeparatedFields

variable {α : Type*} (sep : α)

def terminated (fields : List (List α)) : List α := fields.flatMap (fun f => f ++ [sep])

@[simp] theorem terminated_nil : terminated sep [] = [] := rfl

@[simp] theorem terminated_cons (f : List α) (fs : List (List α)) :
    terminated sep (f :: fs) = f ++ sep :: terminated sep fs := by
  simp only [terminated, List.flatMap_cons, List.append_assoc, List.singleton_append]

variable {sep}

/-- The first terminator of a text ends its first field. -/
theorem field_inj {f g rest rest' : List α} (hf : sep ∉ f) (hg : sep ∉ g)
    (h : f ++ sep :: rest = g ++ sep :: rest') : f = g ∧ rest = rest' := by
  induction f generalizing g with
  | nil =>
    cases g with
    | nil => exact ⟨rfl, (List.cons.inj h).2⟩
    | cons b g =>
      have hb : sep = b := (List.cons.inj h).1
      exact absurd (hb ▸ List.mem_cons_self) hg
  | cons a f ih =>
    cases g with
    | nil =>
      have ha : a = sep := (List.cons.inj h).1
      exact absurd (ha ▸ List.mem_cons_self) hf
    | cons b g =>
      obtain ⟨rfl, htail⟩ := List.cons.inj h
      obtain ⟨rfl, hrest⟩ :=
        ih (fun hm => hf (List.mem_cons_of_mem _ hm)) (fun hm => hg (List.mem_cons_of_mem _ hm))
          htail
      exact ⟨rfl, hrest⟩

theorem terminated_inj {fs gs : List (List α)} (hf : ∀ f ∈ fs, sep ∉ f) (hg : ∀ g ∈ gs, sep ∉ g)
    (h : terminated sep fs = terminated sep gs) : fs = gs := by
  induction fs generalizing gs with
  | nil =>
    cases gs with
    | nil => rfl
    | cons g gs =>
      have hlen := congrArg List.length h
      simp at hlen
  | cons f fs ih =>
    cases gs with
    | nil =>
      have hlen := congrArg List.length h
      simp at hlen
    | cons g gs =>
      rw [terminated_cons, terminated_cons] at h
      obtain ⟨rfl, hrest⟩ := field_inj (hf f List.mem_cons_self) (hg g List.mem_cons_self) h
      have htail := ih (fun x hx => hf x (List.mem_cons_of_mem _ hx))
        (fun x hx => hg x (List.mem_cons_of_mem _ hx)) hrest
      rw [htail]

theorem flatMap_cons_append (fs : List (List α)) :
    fs.flatMap (fun f => sep :: f) ++ [sep] = sep :: terminated sep fs := by
  induction fs with
  | nil => rfl
  | cons f fs ih => rw [List.flatMap_cons, List.append_assoc, ih, terminated_cons, List.cons_append]

theorem flatMap_cons_inj {fs gs : List (List α)} (hf : ∀ f ∈ fs, sep ∉ f) (hg : ∀ g ∈ gs, sep ∉ g)
    (h : fs.flatMap (fun f => sep :: f) = gs.flatMap (fun g => sep :: g)) : fs = gs := by
  have hterminated := congrArg (fun t => t ++ [sep]) h
  simp only [flatMap_cons_append] at hterminated
  exact terminated_inj hf hg (List.cons.inj hterminated).2

end SeparatedFields
