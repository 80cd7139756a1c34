import Mathlib.Tactic

/-! Rust's `Vec` with its capacity, on a machine with 64-bit pointers. An operation that panics
or aborts the process answers `none`. -/
namespace RustVec

def isizeMax : ℕ := 2^63-1

/-- The size of an element, and how many bytes the allocator serves at once. Whatever the
machine has, `Vec` asks for no more than `isize::MAX` and panics before that. -/
structure Memory where
  elem : ℕ
  served : ℕ
  served_le : served ≤ isizeMax

/-- Room for `n` elements is allocated. -/
def Memory.Serves (mem : Memory) (n : ℕ) : Prop := n*mem.elem ≤ mem.served

instance (mem : Memory) (n : ℕ) : Decidable (mem.Serves n) :=
  inferInstanceAs (Decidable (_ ≤ _))

structure Vec (α : Type*) (mem : Memory) where
  items : List α
  capacity : ℕ
  length_le : items.length ≤ capacity
  served : mem.Serves capacity

variable {α : Type*} {mem : Memory}

/-- `Vec::with_capacity`. -/
def withCapacity (α : Type*) (mem : Memory) (n : ℕ) : Option (Vec α mem) :=
  if h : mem.Serves n then some ⟨[], n, Nat.zero_le n, h⟩ else none

/-- The capacity that a full vector grows to. -/
def grown (capacity : ℕ) : ℕ := max 4 (2*capacity)

theorem lt_grown (capacity : ℕ) : capacity < grown capacity := by
  unfold grown
  omega

/-- `Vec::push`, which allocates only if the vector is full. -/
def Vec.push (v : Vec α mem) (a : α) : Option (Vec α mem) :=
  if h : v.items.length < v.capacity then
    some ⟨v.items ++ [a], v.capacity, by simpa using h, v.served⟩
  else if hserved : mem.Serves (grown v.capacity) then
    some ⟨v.items ++ [a], grown v.capacity, by
      have hlength := v.length_le
      have hgrown := lt_grown v.capacity
      simp only [List.length_append, List.length_singleton]
      omega, hserved⟩
  else none

theorem exists_withCapacity_iff {n : ℕ} : (∃ v, withCapacity α mem n = some v) ↔ mem.Serves n := by
  unfold withCapacity
  split_ifs with h
  · exact iff_of_true ⟨_, rfl⟩ h
  · exact iff_of_false (by simp) h

theorem withCapacity_eq_some {n : ℕ} {v : Vec α mem} (h : withCapacity α mem n = some v) :
    v.items = [] ∧ v.capacity = n := by
  unfold withCapacity at h
  split_ifs at h
  cases h
  exact ⟨rfl, rfl⟩

/-- There is room, or the vector is empty and the first allocation is possible. -/
theorem exists_push {v : Vec α mem} (a : α)
    (h : v.items.length < v.capacity ∨ v.capacity = 0 ∧ mem.Serves 4) :
    ∃ w, v.push a = some w ∧ w.items = v.items ++ [a] ∧ v.capacity ≤ w.capacity := by
  unfold Vec.push
  split_ifs with hroom hserved
  · exact ⟨_, rfl, rfl, le_refl _⟩
  · exact ⟨_, rfl, rfl, (lt_grown _).le⟩
  · rcases h with hroom' | ⟨hzero, hfirst⟩
    · exact absurd hroom' hroom
    · exact absurd (by simpa [hzero, grown] using hfirst) hserved

theorem push_items {v w : Vec α mem} {a : α} (h : v.push a = some w) :
    w.items = v.items ++ [a] := by
  unfold Vec.push at h
  split_ifs at h
  · cases h
    rfl
  · cases h
    rfl

end RustVec
