import CairnObs.GoText

/-! What a PostgreSQL column makes of a value: the parameter is refused, or a later SELECT
returns the value in the column's own form. -/
namespace PgColumns

open GoText

/-- A value of a TEXT column. -/
structure ColumnText where
  text : Text
  nulFree : nul ∉ text
  deriving DecidableEq

theorem ColumnText.ext {a b : ColumnText} (h : a.text = b.text) : a = b := by
  cases a
  cases b
  cases h
  rfl

/-- A TEXT parameter: the server takes any valid text but no NUL. -/
def textColumn (t : Text) : Option ColumnText := if h : nul ∈ t then none else some ⟨t, h⟩

theorem textColumn_text {t : Text} {c : ColumnText} (h : textColumn t = some c) : c.text = t := by
  unfold textColumn at h
  split at h
  · exact absurd h (by simp)
  · rw [← Option.some.inj h]

/-- An INT parameter. -/
def int4Column (n : ℤ) : Option ℤ := if -2^31 ≤ n ∧ n < 2^31 then some n else none

theorem int4Column_eq_some {m n : ℤ} : int4Column m = some n ↔ (-2^31 ≤ m ∧ m < 2^31) ∧ m = n := by
  unfold int4Column
  split_ifs with h
  · exact ⟨fun he => ⟨h, Option.some.inj he⟩, fun he => congrArg some he.2⟩
  · exact ⟨fun he => absurd he (by simp), fun he => absurd he.1 h⟩

/-- A nullable column: NULL is stored as it is. -/
def nullable {α β : Type*} (column : α → Option β) : Option α → Option (Option β)
  | none => some none
  | some a => (column a).map some

@[simp] theorem nullable_none {α β : Type*} (column : α → Option β) :
    nullable column none = some none := rfl

@[simp] theorem nullable_some {α β : Type*} (column : α → Option β) (a : α) :
    nullable column (some a) = (column a).map some := rfl

/-- What a nullable column stores, where the column itself stores `f` of the value. -/
theorem nullable_map {α β γ : Type*} {column : α → Option β} {f : β → γ} {g : α → γ}
    (hcolumn : ∀ a b, column a = some b → f b = g a) {x : Option α} {y : Option β}
    (h : nullable column x = some y) : y.map f = x.map g := by
  cases x with
  | none => rw [← Option.some.inj h]; rfl
  | some a =>
    obtain ⟨b, hb, rfl⟩ := Option.map_eq_some_iff.mp h
    rw [Option.map_some, Option.map_some, hcolumn a b hb]

/-! ### UUID -/

abbrev Uuid := BitVec 128

/-- Found once, here, for every test of membership in a list of ids. -/
instance : LawfulBEq Uuid := inferInstance

def hexValue (c : Char) : Option ℕ :=
  if '0' ≤ c ∧ c ≤ '9' then some (c.toNat - '0'.toNat)
  else if 'a' ≤ c ∧ c ≤ 'f' then some (c.toNat - 'a'.toNat + 10)
  else if 'A' ≤ c ∧ c ≤ 'F' then some (c.toNat - 'A'.toNat + 10)
  else none

def skipHyphen : Text → Text
  | '-' :: rest => rest
  | cs => cs

/-- The bytes that are still to come of a UUID, two digits each. A hyphen may stand behind
every second byte but the last. -/
def uuidBytes : ℕ → ℕ → Text → Option (ℕ × Text)
  | 0, acc, cs => some (acc, cs)
  | n+1, acc, a :: b :: rest =>
    match hexValue a, hexValue b with
    | some x, some y =>
      uuidBytes n (256*acc+16*x+y) (if n ≠ 0 ∧ n%2 = 0 then skipHyphen rest else rest)
    | _, _ => none
  | _+1, _, _ => none

/-- `uuid_in`: sixteen bytes, in braces or not. -/
def uuidIn (t : Text) : Option Uuid :=
  match t with
  | '{' :: cs =>
    match uuidBytes 16 0 cs with
    | some (u, ['}']) => some (BitVec.ofNat 128 u)
    | _ => none
  | cs =>
    match uuidBytes 16 0 cs with
    | some (u, []) => some (BitVec.ofNat 128 u)
    | _ => none

def uuidDigits (u : Uuid) (start count : ℕ) : Text :=
  (List.range' start count).map (fun k => Nat.digitChar (u.toNat/16^(31-k)%16))

/-- `uuid_out`: lower-case digits in groups of 8, 4, 4, 4 and 12. -/
def uuidOut (u : Uuid) : Text :=
  uuidDigits u 0 8 ++ '-' :: uuidDigits u 8 4 ++ '-' :: uuidDigits u 12 4 ++
    '-' :: uuidDigits u 16 4 ++ '-' :: uuidDigits u 20 12

theorem nul_not_mem_uuidDigits (u : Uuid) (start count : ℕ) : nul ∉ uuidDigits u start count := by
  intro h
  obtain ⟨k, -, hk⟩ := List.mem_map.mp h
  exact Nat.digitChar_ne nul (by decide) hk

theorem nul_not_mem_uuidOut (u : Uuid) : nul ∉ uuidOut u := by
  simp [uuidOut, nul_not_mem_uuidDigits, show nul ≠ '-' by decide]

theorem uuidOut_ne_nil (u : Uuid) : uuidOut u ≠ [] := by
  simp [uuidOut]

theorem hexValue_digitChar {n : ℕ} (hn : n < 16) : hexValue n.digitChar = some n := by
  have hall : ∀ a : Fin 16, hexValue (a : ℕ).digitChar = some (a : ℕ) := by decide
  exact hall ⟨n, hn⟩

theorem skipHyphen_digitChar (n : ℕ) (rest : Text) :
    skipHyphen (n.digitChar :: rest) = n.digitChar :: rest := by
  have hne : n.digitChar ≠ '-' := Nat.digitChar_ne '-' (by decide)
  unfold skipHyphen
  split
  · next heq => exact absurd (List.cons.inj heq).1 hne
  · rfl

/-- Two bytes, which may have a hyphen behind them. -/
theorem uuidBytes_digits (u k : ℕ) (rest : Text) :
    uuidBytes (2*k+2) (u/16^(4*k+4)) ((u/16^(4*k+3)%16).digitChar :: (u/16^(4*k+2)%16).digitChar ::
      (u/16^(4*k+1)%16).digitChar :: (u/16^(4*k)%16).digitChar :: rest) =
    uuidBytes (2*k) (u/16^(4*k)) (if k ≠ 0 then skipHyphen rest else rest) := by
  have hdigit (m : ℕ) : hexValue (m%16).digitChar = some (m%16) :=
    hexValue_digitChar (Nat.mod_lt _ (by decide))
  have hhigh : 256*(u/16^(4*k+4))+16*(u/16^(4*k+3)%16)+u/16^(4*k+2)%16 = u/16^(4*k+2) := by
    rw [show 16^(4*k+4) = 16^(4*k+2)*256 by ring, show 16^(4*k+3) = 16^(4*k+2)*16 by ring,
      ← Nat.div_div_eq_div_mul, ← Nat.div_div_eq_div_mul]
    omega
  have hlow : 256*(u/16^(4*k+2))+16*(u/16^(4*k+1)%16)+u/16^(4*k)%16 = u/16^(4*k) := by
    rw [show 16^(4*k+2) = 16^(4*k)*256 by ring, show 16^(4*k+1) = 16^(4*k)*16 by ring,
      ← Nat.div_div_eq_div_mul, ← Nat.div_div_eq_div_mul]
    omega
  simp [uuidBytes, hdigit, hhigh, hlow]

theorem uuidBytes_uuidOut (u : Uuid) : uuidBytes 16 0 (uuidOut u) = some (u.toNat, []) := by
  have hzero : u.toNat/16^32 = 0 :=
    Nat.div_eq_of_lt (u.isLt.trans_eq (by norm_num))
  have hgroup := uuidBytes_digits u.toNat
  -- eight groups of two bytes, with a hyphen behind the second to the fifth
  calc uuidBytes 16 0 (uuidOut u)
      = uuidBytes 14 (u.toNat/16^28) (uuidDigits u 4 4 ++ '-' :: uuidDigits u 8 4 ++
          '-' :: uuidDigits u 12 4 ++ '-' :: uuidDigits u 16 4 ++ '-' :: uuidDigits u 20 12) := by
        rw [← hzero]
        exact (hgroup 7 _).trans (congrArg _ (skipHyphen_digitChar _ _))
    _ = uuidBytes 12 (u.toNat/16^24) (uuidDigits u 8 4 ++ '-' :: uuidDigits u 12 4 ++
          '-' :: uuidDigits u 16 4 ++ '-' :: uuidDigits u 20 12) := hgroup 6 _
    _ = uuidBytes 10 (u.toNat/16^20) (uuidDigits u 12 4 ++ '-' :: uuidDigits u 16 4 ++
          '-' :: uuidDigits u 20 12) := hgroup 5 _
    _ = uuidBytes 8 (u.toNat/16^16) (uuidDigits u 16 4 ++ '-' :: uuidDigits u 20 12) := hgroup 4 _
    _ = uuidBytes 6 (u.toNat/16^12) (uuidDigits u 20 12) := hgroup 3 _
    _ = uuidBytes 4 (u.toNat/16^8) (uuidDigits u 24 8) :=
        (hgroup 2 _).trans (congrArg _ (skipHyphen_digitChar _ _))
    _ = uuidBytes 2 (u.toNat/16^4) (uuidDigits u 28 4) :=
        (hgroup 1 _).trans (congrArg _ (skipHyphen_digitChar _ _))
    _ = some (u.toNat, []) := by
        refine (hgroup 0 _).trans ?_
        simp [uuidBytes]

theorem uuidIn_uuidOut (u : Uuid) : uuidIn (uuidOut u) = some u := by
  have hne (rest : Text) : uuidOut u ≠ '{' :: rest := by
    intro h
    exact Nat.digitChar_ne '{' (by decide) (List.cons.inj h).1
  unfold uuidIn
  split
  · next heq => exact absurd heq (hne _)
  · rw [uuidBytes_uuidOut]
    simp

theorem uuidOut_injective : Function.Injective uuidOut := by
  intro u v h
  have huv : some u = some v := by rw [← uuidIn_uuidOut u, h, uuidIn_uuidOut v]
  exact Option.some.inj huv

/-- A UUID column whose parameter is a text. -/
def uuidColumn (t : Text) : Option Uuid := if nul ∈ t then none else uuidIn t

theorem uuidColumn_uuidOut (u : Uuid) : uuidColumn (uuidOut u) = some u := by
  rw [uuidColumn, if_neg (nul_not_mem_uuidOut u), uuidIn_uuidOut]

end PgColumns
