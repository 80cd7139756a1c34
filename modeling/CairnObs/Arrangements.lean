import CairnObs.TableOps

/-! The orders in which a query may return its rows: sorted by the keys, and rows that tie on
all of them in any order. -/
namespace Arrangements

open TableOps

variable {α β γ κ : Type*} [LinearOrder κ]

structure Arranged (ks : List ((α → κ) × Bool)) (l out : List α) : Prop where
  perm : out.Perm l
  sorted : out.Pairwise (keyLe ks)

theorem arranged_sortBy (ks : List ((α → κ) × Bool)) (l : List α) : Arranged ks l (sortBy ks l) :=
  ⟨List.perm_insertionSort _ _, List.pairwise_insertionSort _ _⟩

variable {a : α} {k : α → κ}

theorem keyLe_one {b : α} : keyLe [(k, false)] a b ↔ k a ≤ k b := by
  rw [le_iff_eq_or_lt]
  by_cases h : k a = k b
  · simp [keyLe, h]
  · simp [keyLe, h]

/-- The first of several keys. -/
theorem le_of_keyLe {ks : List ((α → κ) × Bool)} {b : α} (h : keyLe ((k, false) :: ks) a b) :
    k a ≤ k b := by
  rw [le_iff_eq_or_lt]
  by_cases he : k a = k b
  · exact .inl he
  · simp only [keyLe, he, if_false, Bool.false_eq_true] at h
    exact .inr h

/-- A second key that is the same for all rows orders nothing. -/
theorem Arranged.of_same_second {k' : α → κ} {l out : List α}
    (hsame : ∀ a ∈ l, ∀ b ∈ l, k' a = k' b) (h : Arranged [(k, false)] l out) :
    Arranged [(k, false), (k', false)] l out := by
  refine ⟨h.perm, h.sorted.imp_of_mem ?_⟩
  intro a b ha hb hle
  have hsecond := hsame a (h.perm.subset ha) b (h.perm.subset hb)
  by_cases hfirst : k a = k b
  · simp [keyLe, hfirst, hsecond]
  · simpa [keyLe, hfirst] using hle

/-- Two tables with the same contents, sorted by a key of the contents whose ties are equal,
come in one order. -/
theorem map_eq_of_ties {c : α → γ} {c' : β → γ} {key : γ → κ} {out : List α} {out' : List β}
    (hperm : (out.map c).Perm (out'.map c'))
    (hout : out.Pairwise (fun a b => key (c a) ≤ key (c b)))
    (hout' : out'.Pairwise (fun a b => key (c' a) ≤ key (c' b)))
    (hties : ∀ a ∈ out, ∀ b ∈ out, key (c a) = key (c b) → c a = c b) :
    out.map c = out'.map c' := by
  have hsorted : (out.map c).Pairwise (fun x y => key x ≤ key y) := List.pairwise_map.mpr hout
  have hsorted' : (out'.map c').Pairwise (fun x y => key x ≤ key y) := List.pairwise_map.mpr hout'
  refine hperm.eq_of_pairwise ?_ hsorted hsorted'
  intro x y hx hy hxy hyx
  obtain ⟨a, ha, rfl⟩ := List.mem_map.mp hx
  obtain ⟨b, hb, rfl⟩ := List.mem_map.mp (hperm.symm.subset hy)
  exact hties a ha b hb (le_antisymm hxy hyx)

/-- Any row can come first among those with its key. -/
theorem exists_first [DecidableEq α] {l : List α} (ha : a ∈ l) :
    ∃ out, Arranged [(k, false)] l out ∧
      (out.filter (fun b => decide (k b = k a))).head? = some a := by
  have hperm : (a :: l.erase a).Perm l := (List.perm_cons_erase ha).symm
  have harranged := arranged_sortBy [(k, false)] (a :: l.erase a)
  refine ⟨_, ⟨harranged.perm.trans hperm, harranged.sorted⟩, ?_⟩
  have hfilter : (a :: l.erase a).filter (fun b => decide (k b = k a)) =
      a :: (l.erase a).filter (fun b => decide (k b = k a)) :=
    List.filter_cons_of_pos (decide_eq_true rfl)
  rw [filter_sortBy, hfilter]
  -- The rows with one key are sorted already.
  have hsame : (a :: (l.erase a).filter (fun b => decide (k b = k a))).Pairwise
      (keyLe [(k, false)]) := by
    have hkey : ∀ b ∈ a :: (l.erase a).filter (fun b => decide (k b = k a)), k b = k a := by
      intro b hb
      rw [← hfilter] at hb
      exact of_decide_eq_true (List.mem_filter.mp hb).2
    apply List.pairwise_of_forall_mem_list
    intro b hb d hd
    exact keyLe_one.mpr (le_of_eq ((hkey b hb).trans (hkey d hd).symm))
  rw [sortBy, hsame.insertionSort_eq]
  rfl

/-- If all orders look the same, rows that tie look the same. -/
theorem eq_of_same_order [DecidableEq α] {c : α → γ} {key : γ → κ} {l : List α} {cs : List γ}
    (h : ∀ out, Arranged [(fun a => key (c a), false)] l out → out.map c = cs) {b : α} (ha : a ∈ l)
    (hb : b ∈ l) (hkey : key (c a) = key (c b)) : c a = c b := by
  have hfirst {a : α} (ha : a ∈ l) :
      (cs.filter (fun x => decide (key x = key (c a)))).head? = some (c a) := by
    obtain ⟨out, hout, hhead⟩ := exists_first (k := fun a => key (c a)) ha
    rw [← h out hout, List.filter_map, List.head?_map]
    exact congrArg (Option.map c) hhead
  have hsame := hfirst ha
  rw [hkey, hfirst hb] at hsame
  exact (Option.some.inj hsame).symm

end Arrangements
