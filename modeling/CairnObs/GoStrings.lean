import CairnObs.TextSearch

/-! Functions of Go's `strings` and `unicode` on texts as lists of characters. -/
namespace GoStrings

/-- `unicode.IsSpace`. -/
def isSpace (c : Char) : Bool :=
  ['\t', '\n', '\x0b', '\x0c', '\r', ' ', '\u0085', '\u00a0', '\u1680', '\u2028',
    '\u2029', '\u202f', '\u205f', '\u3000'].contains c || decide ('\u2000' ≤ c ∧ c ≤ '\u200a')

/-- `strings.TrimSpace`. -/
def trimSpace (cs : List Char) : List Char := TextSearch.trim isSpace cs

/-- `strings.TrimSuffix`. -/
def trimSuffix (cs suffix : List Char) : List Char :=
  if suffix <:+ cs then cs.take (cs.length-suffix.length) else cs

/-- `strings.Fields`. -/
def fields (cs : List Char) : List (List Char) :=
  (cs.splitOnP isSpace).filter (fun field => !field.isEmpty)

/-- `unicode.ToUpper`, as far as its results are ASCII: of the characters beyond it, only
the long s and the dotless i have a capital within it. -/
def upper (c : Char) : Char :=
  if c = '\u017f' then 'S' else if c = '\u0131' then 'I' else c.toUpper

/-- The character that stands for all that match `c` when case is ignored, as far as one of
them is ASCII: the long s goes with s, and the sign of the kelvin with k. -/
def fold (c : Char) : Char :=
  if c = '\u017f' then 's' else if c = '\u212a' then 'k' else c.toLower

/-- `strings.EqualFold` with a text in ASCII. -/
def equalFold (s t : List Char) : Bool := s.map fold == t.map fold

theorem splitOnP_head {p : Char → Bool} (cs : List Char) :
    (cs.splitOnP p).head? = some (cs.takeWhile (fun c => !p c)) := by
  induction cs with
  | nil => rfl
  | cons c cs ih =>
    rw [List.splitOnP_cons_eq_if_modifyHead]
    by_cases hc : p c = true
    · simp [hc]
    · rw [if_neg hc, List.head?_modifyHead, ih]
      simp [hc]

/-- The first field of a text that does not start with a space. -/
theorem fields_head {c : Char} (hc : isSpace c = false) (cs : List Char) :
    (fields (c :: cs)).head? = some ((c :: cs).takeWhile (fun d => !isSpace d)) := by
  have hhead := splitOnP_head (p := isSpace) (c :: cs)
  unfold fields
  cases hsplit : (c :: cs).splitOnP isSpace with
  | nil => simp [hsplit] at hhead
  | cons field rest =>
    rw [hsplit, List.head?_cons, Option.some.injEq] at hhead
    subst hhead
    rw [List.filter_cons_of_pos (by simp [hc])]
    rfl

/-- The first field, if there is any. -/
def firstField (cs : List Char) : List Char :=
  (cs.dropWhile isSpace).takeWhile (fun c => !isSpace c)

theorem takeWhile_append_spaces {p : Char → Bool} {b : List Char} (hb : ∀ c ∈ b.head?, p c = true)
    (a : List Char) : (a ++ b).takeWhile (fun c => !p c) = a.takeWhile (fun c => !p c) := by
  have hspaces : b.takeWhile (fun c => !p c) = [] := by
    cases b with
    | nil => rfl
    | cons c rest => exact List.takeWhile_cons_of_neg (by simp [hb c rfl])
  rw [List.takeWhile_append, hspaces]
  split
  · rename_i hall
    rw [(List.takeWhile_prefix _).eq_of_length hall, List.append_nil]
  · rfl

theorem takeWhile_rdropWhile (p : Char → Bool) (cs : List Char) :
    (cs.rdropWhile p).takeWhile (fun c => !p c) = cs.takeWhile (fun c => !p c) := by
  have hspaces : ∀ c ∈ (cs.rtakeWhile p).head?, p c = true :=
    fun c hc => List.mem_rtakeWhile_imp (List.mem_of_mem_head? hc)
  conv_rhs => rw [← List.rdropWhile_append_rtakeWhile (p := p) (l := cs)]
  rw [takeWhile_append_spaces hspaces]

theorem fields_trimSpace_head (cs : List Char) : (fields (trimSpace cs)).head? =
    if firstField cs = [] then none else some (firstField cs) := by
  cases hdrop : cs.dropWhile isSpace with
  | nil =>
    have htrim : trimSpace cs = [] := by
      rw [trimSpace, TextSearch.trim, hdrop]
      rfl
    rw [htrim, firstField, hdrop]
    rfl
  | cons c rest =>
    have hc : isSpace c = false := by
      have hnot := List.head?_dropWhile_not isSpace cs
      rw [hdrop] at hnot
      exact hnot
    have hfirst : firstField cs = c :: rest.takeWhile (fun d => !isSpace d) := by
      rw [firstField, hdrop, List.takeWhile_cons_of_pos (by simp [hc])]
    have htake : (trimSpace cs).takeWhile (fun d => !isSpace d) = firstField cs := by
      rw [trimSpace, TextSearch.trim, takeWhile_rdropWhile, firstField]
    cases htrim : trimSpace cs with
    | nil =>
      rw [htrim, hfirst] at htake
      cases htake
    | cons d ds =>
      have hd : isSpace d = false := @TextSearch.trim_head _ cs isSpace (by
        rw [show TextSearch.trim isSpace cs = d :: ds from htrim]
        rfl)
      rw [fields_head hd, ← htrim, htake, if_neg (by rw [hfirst]; exact List.cons_ne_nil _ _)]

theorem toLower_toUpper (c : Char) : c.toUpper.toLower = c.toLower := by
  by_cases hlower : 'a'.val ≤ c.val ∧ c.val ≤ 'z'.val
  · have hletters :
        ∀ n < 26, (Char.ofNat (97+n)).toUpper.toLower = (Char.ofNat (97+n)).toLower := by
      decide
    have hfrom : 97 ≤ c.toNat := hlower.1
    have hto : c.toNat ≤ 122 := hlower.2
    have hc : Char.ofNat (97+(c.toNat-97)) = c := by
      rw [Nat.add_sub_cancel' hfrom, Char.ofNat_toNat]
    rw [← hc]
    exact hletters _ (by omega)
  · rw [show c.toUpper = c from dif_neg hlower]

/-- A capital letter comes from that letter, but for the two characters beyond ASCII. -/
theorem upper_letter {c d : Char} (h : upper c = d) (hd : 'A' ≤ d ∧ d ≤ 'Z') (hs : c ≠ '\u017f')
    (hi : c ≠ '\u0131') : (('a' ≤ c ∧ c ≤ 'z') ∨ ('A' ≤ c ∧ c ≤ 'Z')) ∧ c.toLower = d.toLower := by
  unfold upper at h
  rw [if_neg hs, if_neg hi] at h
  refine ⟨?_, by rw [← h, toLower_toUpper]⟩
  by_cases hlower : 'a'.val ≤ c.val ∧ c.val ≤ 'z'.val
  · exact .inl hlower
  · rw [show c.toUpper = c from dif_neg hlower] at h
    exact .inr (h ▸ hd)

end GoStrings
