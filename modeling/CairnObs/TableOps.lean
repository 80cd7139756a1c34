import Mathlib.Data.List.Sort
import Mathlib.Data.List.Pairwise

/-! Finite tables as lists: stable sorting by a list of keys, and grouping by a key in the
order in which the groups first appear. -/
namespace TableOps

variable {α β κ : Type*}

/-! ### Sorting -/

variable {ks : List ((α → κ) × Bool)} {l : List α} {key : α → κ}

section Sorting
variable [LinearOrder κ]

/-- The first key that differs decides; a key with `true` is descending. -/
def keyLe : List ((α → κ) × Bool) → α → α → Prop
  | [], _, _ => True
  | (k, desc) :: ks, x, y =>
    if k x = k y then keyLe ks x y else if desc then k y < k x else k x < k y

instance decidableKeyLe : (ks : List ((α → κ) × Bool)) → (x y : α) → Decidable (keyLe ks x y)
  | [], _, _ => inferInstanceAs (Decidable True)
  | (k, desc) :: ks, x, y =>
    have := decidableKeyLe ks x y
    inferInstanceAs (Decidable
      (if k x = k y then keyLe ks x y else if desc then k y < k x else k x < k y))

theorem keyLe_total (ks : List ((α → κ) × Bool)) (x y : α) : keyLe ks x y ∨ keyLe ks y x := by
  induction ks with
  | nil => exact .inl trivial
  | cons k ks ih =>
    by_cases h : k.1 x = k.1 y
    · simpa only [keyLe, h, if_true] using ih
    · -- the keys differ, so one of them is smaller
      cases hd : k.2 <;> simp [keyLe, h, Ne.symm h, hd]

theorem keyLe_refl (ks : List ((α → κ) × Bool)) (x : α) : keyLe ks x x :=
  (keyLe_total ks x x).elim id id

theorem keyLe_trans {x y z : α} (hxy : keyLe ks x y) (hyz : keyLe ks y z) : keyLe ks x z := by
  induction ks with
  | nil => trivial
  | cons k ks ih =>
    obtain ⟨k, desc⟩ := k
    simp only [keyLe] at hxy hyz ⊢
    by_cases h₁ : k x = k y
    · by_cases h₂ : k y = k z
      · rw [if_pos h₁] at hxy
        rw [if_pos h₂] at hyz
        rw [if_pos (h₁.trans h₂)]
        exact ih hxy hyz
      · rw [if_neg h₂] at hyz
        rw [if_neg (fun h => h₂ (h₁.symm.trans h)), h₁]
        exact hyz
    · rw [if_neg h₁] at hxy
      by_cases h₂ : k y = k z
      · rw [if_neg (fun h => h₁ (h.trans h₂.symm)), ← h₂]
        exact hxy
      · -- two strict steps in the same direction
        rw [if_neg h₂] at hyz
        cases desc with
        | false =>
          have hlt : k x < k z := lt_trans hxy hyz
          rw [if_neg hlt.ne]
          exact hlt
        | true =>
          have hlt : k z < k x := lt_trans hyz hxy
          rw [if_neg hlt.ne']
          exact hlt

instance (ks : List ((α → κ) × Bool)) : Std.Total (keyLe ks) := ⟨keyLe_total ks⟩

instance (ks : List ((α → κ) × Bool)) : IsTrans α (keyLe ks) := ⟨fun _ _ _ => keyLe_trans⟩

/-- A stable sort: rows that tie on every key keep their order. -/
def sortBy (ks : List ((α → κ) × Bool)) (l : List α) : List α := l.insertionSort (keyLe ks)

/-- Dropping rows does not disturb the order of the others. -/
theorem filter_orderedInsert {r : α → α → Prop} [DecidableRel r] [IsTrans α r] (p : α → Bool)
    (a : α) (hl : l.Pairwise r) :
    (l.orderedInsert r a).filter p =
      if p a then (l.filter p).orderedInsert r a else l.filter p := by
  induction l with
  | nil => cases h : p a <;> simp [h]
  | cons b l ih =>
    have hb : ∀ c ∈ l, r b c := (List.pairwise_cons.mp hl).1
    rw [List.orderedInsert_cons]
    by_cases hab : r a b
    · rw [if_pos hab]
      -- everything behind `b` is above `a` as well
      have hall : ∀ c ∈ (b :: l).filter p, r a c := by
        intro c hc
        rcases List.mem_cons.mp (List.mem_of_mem_filter hc) with rfl | hc
        · exact hab
        · exact IsTrans.trans _ _ _ hab (hb c hc)
      cases h : p a with
      | false => simp [h]
      | true =>
        rw [List.filter_cons_of_pos h, if_pos rfl]
        cases hf : (b :: l).filter p with
        | nil => rfl
        | cons c m => rw [List.orderedInsert_cons_of_le _ _ (hall c (by simp [hf]))]
    · rw [if_neg hab]
      have ih := ih hl.of_cons
      cases hpb : p b with
      | false => simp only [List.filter_cons, hpb, Bool.false_eq_true, if_false, ih]
      | true =>
        simp only [List.filter_cons, hpb, if_true, ih]
        cases h : p a with
        | false => simp
        | true => simp [hab]

theorem filter_sortBy (ks : List ((α → κ) × Bool)) (p : α → Bool) (l : List α) :
    (sortBy ks l).filter p = sortBy ks (l.filter p) := by
  induction l with
  | nil => rfl
  | cons a l ih =>
    have hsorted := List.pairwise_insertionSort (keyLe ks) l
    unfold sortBy at ih ⊢
    rw [List.insertionSort_cons, filter_orderedInsert p a hsorted, ih]
    cases h : p a with
    | false => simp [h]
    | true => simp [h]

/-- Sorting before a column-wise change of the rows is sorting after it, if the keys agree. -/
theorem map_sortBy (f : α → β) {ks' : List ((β → κ) × Bool)}
    (h : ∀ a ∈ l, ∀ b ∈ l, keyLe ks a b ↔ keyLe ks' (f a) (f b)) :
    (sortBy ks l).map f = sortBy ks' (l.map f) :=
  List.map_insertionSort _ _ f l h

theorem sortBy_congr {ks' : List ((α → κ) × Bool)}
    (h : ∀ a ∈ l, ∀ b ∈ l, keyLe ks a b ↔ keyLe ks' a b) : sortBy ks l = sortBy ks' l := by
  have := map_sortBy id h
  rwa [List.map_id, List.map_id] at this

/-- Keys that read the same values off the changed rows sort them in the same way. -/
theorem map_sortBy_keys {ι : Type*} (xs : List ι) (k : ι → α → κ) (k' : ι → β → κ) (desc : ι → Bool)
    (f : α → β) (h : ∀ x ∈ xs, ∀ a ∈ l, k' x (f a) = k x a) :
    (sortBy (xs.map (fun x => (k x, desc x))) l).map f =
      sortBy (xs.map (fun x => (k' x, desc x))) (l.map f) := by
  apply map_sortBy
  intro a ha b hb
  induction xs with
  | nil => rfl
  | cons x xs ih =>
    have hx := h x List.mem_cons_self
    have ih := ih (fun y hy => h y (List.mem_cons_of_mem _ hy))
    simp only [List.map_cons, keyLe, hx a ha, hx b hb, ih]

theorem sortBy_nil (l : List α) : sortBy ([] : List ((α → κ) × Bool)) l = l := by
  apply List.Pairwise.insertionSort_eq
  exact List.pairwise_of_forall (fun _ _ => trivial)

theorem mem_sortBy {a : α} :
    a ∈ sortBy ks l ↔ a ∈ l := List.mem_insertionSort _

/-- Without ties on the first key the others do not matter. -/
theorem sortBy_first {k : α → κ} {desc : Bool} (ks ks' : List ((α → κ) × Bool))
    (h : l.Pairwise (fun a b => k a ≠ k b)) :
    sortBy ((k, desc) :: ks) l = sortBy ((k, desc) :: ks') l := by
  have hsymm : Std.Symm (fun a b => k a ≠ k b) := ⟨fun _ _ hab => hab.symm⟩
  apply sortBy_congr
  intro a ha b hb
  by_cases hab : a = b
  · subst hab
    exact ⟨fun _ => keyLe_refl _ a, fun _ => keyLe_refl _ a⟩
  · have hne : k a ≠ k b := h.forall ha hb hab
    simp [keyLe, hne]

/-! ### The rows with the largest keys -/

/-- The rows `s` are `n` of the rows `l`, or all of them if there are fewer, and every other
row has a smaller key. -/
def Largest (key : α → κ) (n : ℕ) (l s : List α) : Prop :=
  s.length = min n l.length ∧ ∃ rest, (s ++ rest).Perm l ∧ ∀ a ∈ s, ∀ b ∈ rest, key b < key a

/-- In a list sorted upwards by a key without ties, all rows behind the first `m` have larger
keys. -/
theorem key_lt_of_sorted (hties : l.Pairwise (fun a b => key a ≠ key b)) (m : ℕ) {a b : α}
    (ha : a ∈ (sortBy [(key, false)] l).take m) (hb : b ∈ (sortBy [(key, false)] l).drop m) :
    key a < key b := by
  set sorted := sortBy [(key, false)] l
  have hperm : sorted.Perm l := List.perm_insertionSort _ _
  have hne : sorted.Pairwise (fun a b => key a ≠ key b) :=
    (hperm.pairwise_iff (fun h => h.symm)).mpr hties
  have hle : sorted.Pairwise (keyLe [(key, false)]) := List.pairwise_insertionSort _ _
  rw [← List.take_append_drop m sorted] at hne hle
  have hab := (List.pairwise_append.mp hne).2.2 a ha b hb
  have hlt := (List.pairwise_append.mp hle).2.2 a ha b hb
  simpa [keyLe, hab] using hlt

/-- The first `m` rows by ascending key are the `n` rows with the largest keys only if they
are all the rows, or none. -/
theorem largest_take_iff (hties : l.Pairwise (fun a b => key a ≠ key b)) (m n : ℕ) :
    Largest key n l ((sortBy [(key, false)] l).take m) ↔
      min m l.length = min n l.length ∧ (l.length ≤ m ∨ m = 0) := by
  set sorted := sortBy [(key, false)] l with hsorted
  have hperm : sorted.Perm l := List.perm_insertionSort _ _
  have hsplit : (sorted.take m ++ sorted.drop m).Perm l := by
    rw [List.take_append_drop]
    exact hperm
  have hlength : (sorted.take m).length = min m l.length := by
    rw [List.length_take, hperm.length_eq]
  constructor
  · rintro ⟨hlen, rest, hrest, hlarge⟩
    refine ⟨hlength ▸ hlen, ?_⟩
    by_contra hm
    have hpos : 0 < m ∧ m < l.length := by omega
    -- the smallest row is among the first ones, and there is a row behind them
    have hbehind : rest.Perm (sorted.drop m) :=
      (List.perm_append_left_iff (sorted.take m)).mp (hrest.trans hsplit.symm)
    have htake : sorted.take m ≠ [] := by
      apply List.ne_nil_of_length_pos
      omega
    have hdrop : sorted.drop m ≠ [] := by
      apply List.ne_nil_of_length_pos
      rw [List.length_drop, hperm.length_eq]
      omega
    obtain ⟨a, ha⟩ := List.exists_mem_of_ne_nil _ htake
    obtain ⟨b, hb⟩ := List.exists_mem_of_ne_nil _ hdrop
    exact lt_asymm (key_lt_of_sorted hties m ha hb) (hlarge a ha b (hbehind.mem_iff.mpr hb))
  · rintro ⟨hmin, hall | hnone⟩
    · have htake : sorted.take m = sorted := List.take_of_length_le (hperm.length_eq ▸ hall)
      refine ⟨hlength.trans hmin, [], ?_, by simp⟩
      rw [htake, List.append_nil]
      exact hperm
    · subst hnone
      exact ⟨hlength.trans hmin, l, by simp, by simp⟩

end Sorting

/-! ### Grouping -/

section Grouping
variable [DecidableEq κ]

/-- The different values of a list, in the order of their first occurrence. -/
def distinct : List κ → List κ
  | [] => []
  | k :: ks => k :: (distinct ks).filter (fun x => decide (x ≠ k))

def groupsBy (key : α → κ) (l : List α) : List (List α) :=
  (distinct (l.map key)).map (fun k => l.filter (fun a => decide (key a = k)))

theorem mem_distinct {k : κ} {ks : List κ} : k ∈ distinct ks ↔ k ∈ ks := by
  induction ks with
  | nil => rfl
  | cons x xs ih =>
    by_cases h : k = x
    · simp [distinct, h]
    · simp [distinct, h, ih]

theorem distinct_filter (p : κ → Bool) (ks : List κ) :
    distinct (ks.filter p) = (distinct ks).filter p := by
  induction ks with
  | nil => rfl
  | cons k ks ih =>
    cases h : p k with
    | true =>
      rw [List.filter_cons_of_pos h, distinct, distinct, List.filter_cons_of_pos h, ih,
        List.filter_filter, List.filter_filter]
      simp only [Bool.and_comm]
    | false =>
      have hk : ¬ p k = true := by simp [h]
      rw [List.filter_cons_of_neg hk, distinct, List.filter_cons_of_neg hk, ih,
        List.filter_filter]
      apply List.filter_congr
      intro x _
      by_cases hx : x = k
      · simp [hx, h]
      · simp [hx]

theorem groupsBy_map (f : β → α) (key : α → κ) (l : List β) :
    groupsBy key (l.map f) = (groupsBy (fun b => key (f b)) l).map (List.map f) := by
  simp only [groupsBy, List.map_map, List.filter_map, Function.comp_def]

/-- A group has members, and its first one has its key. -/
theorem group_eq_cons {k : κ} (h : k ∈ distinct (l.map key)) :
    ∃ a t, l.filter (fun a => decide (key a = k)) = a :: t ∧ key a = k := by
  obtain ⟨b, hb, rfl⟩ := List.mem_map.mp (mem_distinct.mp h)
  have hmem : b ∈ l.filter (fun a => decide (key a = key b)) := by simpa using hb
  obtain ⟨a, t, hg⟩ := List.exists_cons_of_ne_nil (List.ne_nil_of_mem hmem)
  have ha : a ∈ l.filter (fun a => decide (key a = key b)) := by
    rw [hg]
    exact List.mem_cons_self
  exact ⟨a, t, hg, of_decide_eq_true (List.mem_filter.mp ha).2⟩

theorem groupsBy_filter_key (key : α → κ) (p : κ → Bool) (q : List α → Bool) (l : List α)
    (hq : ∀ a t, q (a :: t) = p (key a)) :
    groupsBy key (l.filter (fun a => p (key a))) = (groupsBy key l).filter q := by
  have hkeys : (l.filter (fun a => p (key a))).map key = (l.map key).filter p := by
    rw [List.filter_map]
    rfl
  have hgroup : ∀ k ∈ distinct (l.map key),
      q (l.filter (fun a => decide (key a = k))) = p k := by
    intro k hk
    obtain ⟨a, t, hg, hka⟩ := group_eq_cons hk
    rw [hg, hq, hka]
  unfold groupsBy
  rw [hkeys, distinct_filter, List.filter_map]
  have hsame : (distinct (l.map key)).filter
      (q ∘ fun k => l.filter (fun a => decide (key a = k))) = (distinct (l.map key)).filter p :=
    List.filter_congr hgroup
  rw [hsame]
  apply List.map_congr_left
  intro k hk
  have hp : p k = true := (List.mem_filter.mp hk).2
  rw [List.filter_filter]
  apply List.filter_congr
  intro a _
  by_cases h : key a = k
  · simp [h, hp]
  · simp [h]

/-- A condition on what the key determines selects rows before the grouping and groups after
it. -/
theorem groupsBy_filter {p : α → Bool} {q : List α → Bool} (l : List α)
    (hp : ∀ a b, key a = key b → p a = p b) (hq : ∀ a t, q (a :: t) = p a) :
    groupsBy key (l.filter p) = (groupsBy key l).filter q := by
  classical
  have hkey : ∀ a, decide (∃ b, key b = key a ∧ p b = true) = p a := by
    intro a
    by_cases ha : p a = true
    · simpa [ha] using ⟨a, rfl, ha⟩
    · rw [Bool.not_eq_true] at ha
      simp only [ha, decide_eq_false_iff_not]
      rintro ⟨b, hb, hpb⟩
      rw [hp b a hb, ha] at hpb
      cases hpb
  have := groupsBy_filter_key key (fun k => decide (∃ b, key b = k ∧ p b = true)) q l
    (fun a t => by rw [hq, hkey])
  simpa only [hkey] using this

end Grouping

end TableOps
