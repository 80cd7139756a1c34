import Mathlib.Tactic

/-! Texts as lists of characters, and the renderings of Go's `fmt` and `encoding/hex`
that the audit log hashes. -/
namespace GoText

abbrev Text := List Char

/-- Found once, here, for every test of membership in a list of texts. -/
instance : LawfulBEq Text := inferInstance

theorem dropPrefix?_append (head rest : Text) : (head ++ rest).dropPrefix? head = some rest :=
  List.dropPrefix?_append_of_beq rest (beq_self_eq_true head)

def nul : Char := '\x00'

/-- The bytes of a text. -/
def utf8 (t : Text) : List UInt8 := t.flatMap String.utf8EncodeChar

theorem utf8_injective : Function.Injective utf8 := by
  intro s t h
  have hbytes : s.utf8Encode = t.utf8Encode := congrArg List.toByteArray h
  rw [← String.toByteArray_ofList, ← String.toByteArray_ofList, String.toByteArray_inj] at hbytes
  exact String.ofList_injective hbytes

/-! ### Decimals: `fmt.Sprintf("%d", n)` -/

def decimal : ℤ → Text
  | .ofNat n => Nat.toDigits 10 n
  | .negSucc n => '-' :: Nat.toDigits 10 (n+1)

theorem toDigits_injective {m n : ℕ} (h : Nat.toDigits 10 m = Nat.toDigits 10 n) : m = n := by
  have hm := Nat.ofDigitChars_ten_toDigits (n := m)
  rw [h, Nat.ofDigitChars_ten_toDigits] at hm
  exact hm.symm

theorem not_mem_toDigits {c : Char} (hc : c.isDigit = false) (n : ℕ) : c ∉ Nat.toDigits 10 n := by
  intro hmem
  have hdigit := Nat.isDigit_of_mem_toDigits (by decide) (by decide) hmem
  rw [hc] at hdigit
  exact Bool.false_ne_true hdigit

theorem decimal_ne_nil (n : ℤ) : decimal n ≠ [] := by
  cases n with
  | ofNat n => exact Nat.toDigits_ne_nil
  | negSucc n => exact List.cons_ne_nil _ _

theorem nul_not_mem_decimal (n : ℤ) : nul ∉ decimal n := by
  cases n with
  | ofNat n => exact not_mem_toDigits rfl n
  | negSucc n =>
    intro hmem
    rcases List.mem_cons.mp hmem with h | h
    · exact absurd h (by decide)
    · exact not_mem_toDigits rfl (n+1) h

theorem decimal_injective : Function.Injective decimal := by
  intro m n h
  -- a minus sign is no digit, so the two signs agree
  have hsign (a b : ℕ) : Nat.toDigits 10 a ≠ '-' :: Nat.toDigits 10 b := by
    intro he
    exact not_mem_toDigits (c := '-') rfl a (he ▸ List.mem_cons_self)
  cases m with
  | ofNat a =>
    cases n with
    | ofNat b => exact congrArg Int.ofNat (toDigits_injective h)
    | negSucc b => exact absurd h (hsign a (b+1))
  | negSucc a =>
    cases n with
    | ofNat b => exact absurd h.symm (hsign b (a+1))
    | negSucc b =>
      have hab := toDigits_injective (List.cons.inj h).2
      rw [Nat.succ.inj hab]

/-! ### Hexadecimal: `hex.EncodeToString` -/

def hexByte (b : UInt8) : Text := [Nat.digitChar (b.toNat/16), Nat.digitChar (b.toNat%16)]

def encodeToString (bs : List UInt8) : Text := bs.flatMap hexByte

theorem digitChar_injective {m n : ℕ} (hm : m < 16) (hn : n < 16)
    (h : m.digitChar = n.digitChar) : m = n := by
  have hall : ∀ a b : Fin 16, (a : ℕ).digitChar = (b : ℕ).digitChar → a = b := by decide
  exact congrArg Fin.val (hall ⟨m, hm⟩ ⟨n, hn⟩ h)

theorem hexByte_injective : Function.Injective hexByte := by
  intro a b h
  have ha := a.toNat_lt
  have hb := b.toNat_lt
  have hdiv := digitChar_injective (by omega) (by omega) (List.cons.inj h).1
  have hmod := digitChar_injective (Nat.mod_lt _ (by decide)) (Nat.mod_lt _ (by decide))
    (List.cons.inj (List.cons.inj h).2).1
  exact UInt8.toNat_inj.mp (by omega)

theorem nul_not_mem_hexByte (b : UInt8) : nul ∉ hexByte b := by
  have hdigit (n : ℕ) : nul ≠ n.digitChar :=
    (Nat.digitChar_ne nul (by decide)).symm
  intro h
  rcases List.mem_cons.mp h with h | h
  · exact hdigit _ h
  · exact hdigit _ (List.mem_singleton.mp h)

theorem encodeToString_injective : Function.Injective encodeToString := by
  intro as
  induction as with
  | nil =>
    intro bs h
    cases bs with
    | nil => rfl
    | cons b bs => exact absurd h (by simp [encodeToString, hexByte])
  | cons a as ih =>
    intro bs h
    cases bs with
    | nil => exact absurd h (by simp [encodeToString, hexByte])
    | cons b bs =>
      have hboth : hexByte a = hexByte b ∧ encodeToString as = encodeToString bs :=
        List.append_inj h rfl
      rw [hexByte_injective hboth.1, ih hboth.2]

theorem nul_not_mem_encodeToString (bs : List UInt8) : nul ∉ encodeToString bs := by
  intro h
  obtain ⟨b, -, hb⟩ := List.mem_flatMap.mp h
  exact nul_not_mem_hexByte b hb

theorem encodeToString_ne_nil {bs : List UInt8} (h : bs ≠ []) : encodeToString bs ≠ [] := by
  cases bs with
  | nil => exact absurd rfl h
  | cons b bs => simp [encodeToString, hexByte]

end GoText
