import CairnObs.QueryReading
import CairnObs.Utf8

/-! The positions of the tokens of a query. `New` cuts the text into runes, and a position is an
index into them. -/
namespace CairnObs.QueryLang
open Utf8

/-- The tokens of a text of bytes. -/
def tokensOfBytes (bs : List UInt8) : List Token :=
  tokensFrom (decode bs).length ((decode bs).map Rune.value)

/-! ### Where tokens start and end -/

/-- What is left of the runes behind the token that starts with `r`. -/
def behind (r : Rune) (rest : List Rune) : List Rune :=
  rest.drop (rest.length-(scan r.value (rest.map Rune.value)).2.2.length)

theorem behind_length (r : Rune) (rest : List Rune) : (behind r rest).length ≤ rest.length := by
  rw [behind, List.length_drop]
  omega

theorem behind_value (r : Rune) (rest : List Rune) :
    (behind r rest).map Rune.value = (scan r.value (rest.map Rune.value)).2.2 := by
  have hsuffix : (scan r.value (rest.map Rune.value)).2.2 <:+ rest.map Rune.value :=
    List.suffix_of_suffix_length_le (scan_suffix _ _) (List.suffix_cons _ _) (scan_length _ _)
  have hdrop := List.suffix_iff_eq_drop.mp hsuffix
  rw [List.length_map] at hdrop
  rw [behind, List.map_drop]
  exact hdrop.symm

/-- For every token, the runes from its first one on and those behind it. -/
def spots (rs : List Rune) : List (List Rune × List Rune) :=
  match _h : rs.dropWhile (fun r => isSpace r.value) with
  | [] => []
  | r :: rest => (r :: rest, behind r rest) :: spots (behind r rest)
termination_by rs.length
decreasing_by
  have hdrop := length_dropWhile_le (fun r : Rune => isSpace r.value) rs
  have hbehind := behind_length r rest
  rw [_h, List.length_cons] at hdrop
  omega

theorem spots_of_nil {rs : List Rune} (h : rs.dropWhile (fun r => isSpace r.value) = []) :
    spots rs = [] := by
  rw [spots]
  split
  · rfl
  · rename_i hcons
    rw [h] at hcons
    cases hcons

theorem spots_of_cons {rs rest : List Rune} {r : Rune}
    (h : rs.dropWhile (fun r => isSpace r.value) = r :: rest) :
    spots rs = (r :: rest, behind r rest) :: spots (behind r rest) := by
  rw [spots]
  split
  · rename_i hnil
    rw [h] at hnil
    cases hnil
  · rename_i r' rest' hcons
    rw [h] at hcons
    cases hcons
    rfl

/-- Blanks only, or blanks and a token with what stands behind it. -/
theorem spots_induction {motive : List Rune → Prop}
    (blank : ∀ l, (∀ x ∈ l, isSpace x.value = true) → spots l = [] → motive l)
    (token : ∀ gap r rest, (∀ x ∈ gap, isSpace x.value = true) → isSpace r.value = false →
      spots (gap ++ r :: rest) = (r :: rest, behind r rest) :: spots (behind r rest) →
      motive (behind r rest) → motive (gap ++ r :: rest)) (l : List Rune) : motive l := by
  -- A token takes at least its first rune, so that what stands behind it is shorter.
  induction hn : l.length using Nat.strong_induction_on generalizing l with
  | _ n ih =>
    have hsplit := List.takeWhile_append_dropWhile (p := fun r : Rune => isSpace r.value) (l := l)
    have hgap : ∀ x ∈ l.takeWhile (fun r => isSpace r.value), isSpace x.value = true :=
      fun x hx => List.mem_takeWhile_imp (p := fun r : Rune => isSpace r.value) hx
    cases h : l.dropWhile (fun r => isSpace r.value) with
    | nil =>
      rw [h, List.append_nil] at hsplit
      rw [hsplit] at hgap
      exact blank l hgap (spots_of_nil h)
    | cons r rest =>
      have hspots := spots_of_cons h
      have hr := List.head?_dropWhile_not (fun r : Rune => isSpace r.value) l
      rw [h] at hr
      rw [h] at hsplit
      have hlen := congrArg List.length hsplit
      rw [List.length_append, List.length_cons] at hlen
      have hbehind := behind_length r rest
      rw [← hsplit] at hspots ⊢
      exact token _ r rest hgap hr hspots (ih _ (by omega) _ rfl)

theorem behind_suffix (r : Rune) (rest : List Rune) : behind r rest <:+ r :: rest :=
  (List.drop_suffix _ _).trans (List.suffix_cons _ _)

variable {l s : List Rune}

theorem spots_suffix : ∀ s ∈ spots l, s.1 <:+ l ∧ s.2 <:+ s.1 := by
  induction l using spots_induction with
  | blank l _ h =>
    rw [h]
    exact fun s hs => absurd hs List.not_mem_nil
  | token gap r rest _ _ h ih =>
    rw [h]
    intro s hs
    have hrest : r :: rest <:+ gap ++ r :: rest := List.suffix_append _ _
    rcases List.mem_cons.mp hs with rfl | hs
    · exact ⟨hrest, behind_suffix r rest⟩
    · exact ⟨(ih s hs).1.trans ((behind_suffix r rest).trans hrest), (ih s hs).2⟩

theorem scan_kind_ne_eof (c : Char) (cs : List Char) : (scan c cs).1 ≠ .eof := by
  have h := scanned_scan c cs
  generalize scan c cs = t at h
  intro hk
  cases h with
  | one h =>
    subst hk
    cases h
  | two h =>
    subst hk
    cases h
  | string =>
    rcases lexString_cases cs with h | h
    · rw [h] at hk
      cases hk
    · rw [h] at hk
      cases hk
  | number => cases hk
  | ident => cases hk
  | illegal => cases hk

/-- The tokens in front of the end, by where they start. -/
theorem tokensFrom_spots (n : ℕ) (l : List Rune) :
    ∃ toks, tokensFrom n (l.map Rune.value) = toks ++ [⟨.eof, "", n⟩] ∧
      List.Forall₂ (fun tok s => tok.kind ≠ .eof ∧ tok.pos = n-s.1.length) toks (spots l) := by
  induction l using spots_induction with
  | blank l hl h =>
    have hskip : skipWhitespace (l.map Rune.value) = [] := by
      apply List.dropWhile_eq_nil_iff.mpr
      intro c hc
      obtain ⟨x, hx, rfl⟩ := List.mem_map.mp hc
      exact hl x hx
    rw [h, tokensFrom_of_nil hskip]
    exact ⟨[], rfl, .nil⟩
  | token gap r rest hgap hr h ih =>
    obtain ⟨toks, htoks, hspots⟩ := ih
    have hskip : skipWhitespace ((gap ++ r :: rest).map Rune.value) =
        r.value :: rest.map Rune.value := by
      rw [List.map_append, skipWhitespace, List.dropWhile_append_of_pos]
      · exact List.dropWhile_cons_of_neg (by rw [hr]; exact Bool.false_ne_true)
      · intro c hc
        obtain ⟨x, hx, rfl⟩ := List.mem_map.mp hc
        exact hgap x hx
    rw [h, tokensFrom_of_cons hskip, ← behind_value, htoks, List.length_map]
    exact ⟨_ :: toks, rfl, .cons ⟨scan_kind_ne_eof _ _, rfl⟩ hspots⟩

/-! ### Byte offsets -/

/-- How many bytes a piece of the text has. -/
def byteLen (l : List Rune) : ℕ := (l.flatMap Rune.bytes).length

/-- The byte at which the end `l` of the text starts. -/
def byteOffset (bs : List UInt8) (l : List Rune) : ℕ := bs.length-byteLen l

/-- Spaces, tabs, newlines and carriage returns. -/
def isBlank (b : UInt8) : Bool := b == 0x20 || b == 0x09 || b == 0x0a || b == 0x0d

/-- Between the byte `p` and the byte `q` stand blanks only. -/
def BlankBetween (bs : List UInt8) (p q : ℕ) : Prop :=
  p ≤ q ∧ ∀ b ∈ (bs.drop p).take (q-p), isBlank b = true

/-- The tokens lie on the text as their positions say. -/
structure Tiles (bs : List UInt8) (toks : List Token) : Prop where
  /-- The end is the last token, at the end of the text if no blank stands there. -/
  ends : ∃ eof ∈ toks.getLast?, eof.kind = .eof ∧
    ((∀ b ∈ bs.getLast?, isBlank b = false) → eof.pos = bs.length)
  /-- A position is the byte at which the token starts. -/
  starts : List.Forall₂ (fun tok s => tok.kind ≠ .eof ∧ tok.pos = byteOffset bs s.1)
    toks.dropLast (spots (decode bs))
  increasing : (toks.map Token.pos).Pairwise (· < ·)
  /-- From the end of a token, or the start of the text, to the next one stand only blanks. -/
  gaps : List.Forall₂ (BlankBetween bs)
    (0 :: (spots (decode bs)).map (fun s => byteOffset bs s.2)) (toks.map Token.pos)

/-- What stands behind the last token. -/
def lastBehind (l : List Rune) : List Rune := ((spots l).getLast?.map Prod.snd).getD l

/-- The characters in front of the last token have one byte each, and the further bytes of the
others are no more than the blanks at the end. -/
def PlainBeforeLast (bs : List UInt8) : Prop :=
  (∀ s ∈ (spots (decode bs)).getLast?,
    ∀ r ∈ (decode bs).take ((decode bs).length-s.1.length), r.bytes.length = 1) ∧
  bs.length ≤ (decode bs).length+(lastBehind (decode bs)).length

theorem byteLen_append (l l' : List Rune) : byteLen (l ++ l') = byteLen l+byteLen l' := by
  rw [byteLen, List.flatMap_append, List.length_append]
  rfl

theorem length_le_byteLen (h : ∀ r ∈ l, r.bytes ≠ []) : l.length ≤ byteLen l := by
  induction l with
  | nil => exact le_rfl
  | cons r l ih =>
    obtain ⟨hr, hl⟩ := List.forall_mem_cons.mp h
    have hpos := List.length_pos_iff.mpr hr
    have hprev := ih hl
    rw [byteLen, List.flatMap_cons, List.length_append, List.length_cons]
    unfold byteLen at hprev
    omega

theorem byteLen_eq_length_iff (h : ∀ r ∈ l, r.bytes ≠ []) :
    byteLen l = l.length ↔ ∀ r ∈ l, r.bytes.length = 1 := by
  induction l with
  | nil => exact iff_of_true rfl (fun r hr => absurd hr List.not_mem_nil)
  | cons r l ih =>
    obtain ⟨hr, hl⟩ := List.forall_mem_cons.mp h
    have hpos := List.length_pos_iff.mpr hr
    have hle := length_le_byteLen hl
    have hsum : byteLen (r :: l) = r.bytes.length+byteLen l := by
      rw [byteLen, List.flatMap_cons, List.length_append]
      rfl
    rw [List.forall_mem_cons, ← ih hl, hsum, List.length_cons]
    omega

section
variable {bs : List UInt8}

theorem byteLen_decode : byteLen (decode bs) = bs.length := by
  rw [byteLen, decode_bytes]

theorem length_decode_le : (decode bs).length ≤ bs.length := by
  have h := length_le_byteLen (fun r (hr : r ∈ decode bs) => decode_bytes_ne_nil hr)
  rwa [byteLen_decode] at h

theorem suffix_split (h : s <:+ l) : l = l.take (l.length-s.length) ++ s := by
  obtain ⟨pre, rfl⟩ := h
  rw [List.length_append, Nat.add_sub_cancel, List.take_left]

theorem drop_byteOffset (h : l <:+ decode bs) :
    bs.drop (byteOffset bs l) = l.flatMap Rune.bytes := by
  obtain ⟨pre, hpre⟩ := h
  have hbytes : bs = pre.flatMap Rune.bytes ++ l.flatMap Rune.bytes := by
    rw [← List.flatMap_append, hpre, decode_bytes]
  have hoffset : byteOffset bs l = (pre.flatMap Rune.bytes).length := by
    rw [byteOffset, byteLen, congrArg List.length hbytes, List.length_append]
    omega
  rw [hoffset]
  nth_rewrite 1 [hbytes]
  exact List.drop_left

/-- An index into the runes is the index of the byte when all runes in front are plain. -/
theorem index_eq_byteOffset_iff (h : s <:+ decode bs) :
    (decode bs).length-s.length = byteOffset bs s ↔
      ∀ r ∈ (decode bs).take ((decode bs).length-s.length), r.bytes.length = 1 := by
  have hsplit := suffix_split h
  generalize hpre : (decode bs).take ((decode bs).length-s.length) = pre at hsplit ⊢
  have hlen := congrArg List.length hsplit
  have hbytes := congrArg byteLen hsplit
  rw [List.length_append] at hlen
  rw [byteLen_append, byteLen_decode] at hbytes
  have hne : ∀ r ∈ pre, r.bytes ≠ [] := fun r hr =>
    decode_bytes_ne_nil (List.mem_of_mem_take (hpre ▸ hr))
  rw [← byteLen_eq_length_iff hne, byteOffset]
  omega

/-- A blank is one byte. -/
theorem bytes_of_isSpace {r : Rune} (hr : r ∈ decode bs) (h : isSpace r.value = true) :
    ∃ b, r.bytes = [b] ∧ isBlank b = true := by
  have hcases : r.value = ' ' ∨ r.value = '\t' ∨ r.value = '\n' ∨ r.value = '\r' := by
    simpa [isSpace, or_assoc] using h
  have hplain := decode_plain hr
  have hbyte (b : UInt8) (c : Char) (hc : r.value = c) (hb : c.toNat = b.toNat)
      (hlt : b.toNat < 0x80) : r.bytes = [b] := by
    have hmap := hplain (by rw [hc, hb]; exact hlt)
    rw [hc, hb] at hmap
    obtain ⟨x, hx, hxb⟩ := List.map_eq_singleton_iff.mp hmap
    rw [hx, UInt8.toNat_inj.mp hxb]
  rcases hcases with hc | hc | hc | hc
  · exact ⟨0x20, hbyte _ _ hc rfl (by decide), rfl⟩
  · exact ⟨0x09, hbyte _ _ hc rfl (by decide), rfl⟩
  · exact ⟨0x0a, hbyte _ _ hc rfl (by decide), rfl⟩
  · exact ⟨0x0d, hbyte _ _ hc rfl (by decide), rfl⟩

theorem blanks_bytes (hl : ∀ r ∈ l, r ∈ decode bs) (h : ∀ r ∈ l, isSpace r.value = true) :
    (∀ b ∈ l.flatMap Rune.bytes, isBlank b = true) ∧ byteLen l = l.length := by
  constructor
  · intro b hb
    obtain ⟨r, hr, hbr⟩ := List.mem_flatMap.mp hb
    obtain ⟨b', hb', hblank⟩ := bytes_of_isSpace (hl r hr) (h r hr)
    rw [hb', List.mem_singleton] at hbr
    rw [hbr]
    exact hblank
  · apply (byteLen_eq_length_iff (fun r hr => decode_bytes_ne_nil (hl r hr))).mpr
    intro r hr
    obtain ⟨b, hb, -⟩ := bytes_of_isSpace (hl r hr) (h r hr)
    rw [hb]
    rfl

/-- The blanks in front of a token. -/
theorem blankBetween_gap {gap : List Rune} (hs : gap ++ s <:+ decode bs)
    (hgap : ∀ r ∈ gap, isSpace r.value = true) :
    BlankBetween bs (byteOffset bs (gap ++ s)) (byteOffset bs s) := by
  have hblanks := blanks_bytes (fun r hr => hs.subset (List.mem_append_left _ hr)) hgap
  have hlen : byteLen (gap ++ s) ≤ bs.length := by
    obtain ⟨pre, hpre⟩ := hs
    have h := congrArg byteLen hpre
    rw [byteLen_append, byteLen_decode] at h
    omega
  rw [byteLen_append] at hlen
  have hwidth : byteOffset bs s-byteOffset bs (gap ++ s) = (gap.flatMap Rune.bytes).length := by
    rw [byteOffset, byteOffset, byteLen_append]
    unfold byteLen at hlen ⊢
    omega
  refine ⟨?_, ?_⟩
  · rw [byteOffset, byteOffset, byteLen_append]
    omega
  · rw [drop_byteOffset hs, hwidth, List.flatMap_append, List.take_left]
    exact hblanks.1

/-! ### The condition -/

theorem lastBehind_of_cons {e : List Rune} (h : spots l = (s, e) :: spots e) :
    lastBehind l = lastBehind e := by
  rw [lastBehind, lastBehind, h, List.getLast?_cons]
  cases (spots e).getLast? with
  | none => rfl
  | some t => rfl

theorem lastBehind_suffix (l : List Rune) : lastBehind l <:+ l := by
  induction l using spots_induction with
  | blank l _ h =>
    rw [lastBehind, h]
    exact List.suffix_rfl
  | token gap r rest _ _ h ih =>
    rw [lastBehind_of_cons h]
    exact ih.trans ((behind_suffix r rest).trans (List.suffix_append _ _))

theorem lastBehind_blank (l : List Rune) : ∀ r ∈ lastBehind l, isSpace r.value = true := by
  induction l using spots_induction with
  | blank l hl h =>
    rw [lastBehind, h]
    exact hl
  | token gap r rest _ _ h ih =>
    rw [lastBehind_of_cons h]
    exact ih

theorem last_spot_suffix (l : List Rune) :
    ∀ s ∈ spots l, ∀ t ∈ (spots l).getLast?, t.1 <:+ s.1 := by
  induction l using spots_induction with
  | blank l _ h =>
    rw [h]
    exact fun s hs => absurd hs List.not_mem_nil
  | token gap r rest _ _ h ih =>
    rw [h, List.getLast?_cons]
    intro s hs t ht
    cases hlast : (spots (behind r rest)).getLast? with
    | none =>
      rw [hlast] at ht
      obtain rfl := Option.some.inj ht
      rw [List.getLast?_eq_none_iff.mp hlast] at hs
      rw [List.mem_singleton.mp hs]
      exact List.suffix_rfl
    | some t' =>
      rw [hlast] at ht
      obtain rfl : t' = t := Option.some.inj ht
      rcases List.mem_cons.mp hs with rfl | hs
      · have hmem := (spots_suffix t' (List.mem_of_getLast? hlast)).1
        exact hmem.trans (behind_suffix r rest)
      · exact ih s hs t' hlast

/-- It is enough to look in front of the last token. -/
theorem starts_iff_last :
    (∀ s ∈ spots (decode bs), (decode bs).length-s.1.length = byteOffset bs s.1) ↔
      ∀ s ∈ (spots (decode bs)).getLast?,
        ∀ r ∈ (decode bs).take ((decode bs).length-s.1.length), r.bytes.length = 1 := by
  constructor
  · intro h s hs
    have hmem := List.mem_of_getLast? hs
    exact (index_eq_byteOffset_iff (spots_suffix s hmem).1).mp (h s hmem)
  · intro h s hs
    apply (index_eq_byteOffset_iff (spots_suffix s hs).1).mpr
    intro r hr
    cases hlast : (spots (decode bs)).getLast? with
    | none =>
      rw [List.getLast?_eq_none_iff.mp hlast] at hs
      exact absurd hs List.not_mem_nil
    | some t =>
      have hle := (last_spot_suffix (decode bs) s hs t hlast).length_le
      exact h t hlast r ((List.take_prefix_take_left (by omega)).subset hr)

theorem positions_increasing {n : ℕ} (h : l.length ≤ n) :
    ((spots l).map (fun s => n-s.1.length) ++ [n]).Pairwise (· < ·) := by
  induction l using spots_induction with
  | blank l _ hspots =>
    rw [hspots]
    exact List.pairwise_singleton _ _
  | token gap r rest _ _ hspots ih =>
    have hbehind := behind_length r rest
    rw [List.length_append, List.length_cons] at h
    rw [hspots, List.map_cons, List.cons_append]
    refine List.pairwise_cons.mpr ⟨?_, ih (by omega)⟩
    intro p hp
    rw [List.length_cons]
    rcases List.mem_append.mp hp with hp | hp
    · obtain ⟨s, hs, rfl⟩ := List.mem_map.mp hp
      have hle := (spots_suffix s hs).1.length_le
      omega
    · rw [List.mem_singleton.mp hp]
      omega

/-- From one token to the next, and behind the last one. -/
theorem gaps_of_starts (hl : l <:+ decode bs)
    (hstarts : ∀ s ∈ spots l, (decode bs).length-s.1.length = byteOffset bs s.1)
    (hlast : bs.length ≤ (decode bs).length+(lastBehind l).length) :
    List.Forall₂ (BlankBetween bs) (byteOffset bs l :: (spots l).map (fun s => byteOffset bs s.2))
      ((spots l).map (fun s => (decode bs).length-s.1.length) ++ [(decode bs).length]) := by
  induction l using spots_induction with
  | blank l hblank h =>
    rw [lastBehind, h] at hlast
    have hbytes := blanks_bytes (fun r hr => hl.subset hr) hblank
    rw [h]
    -- The position of the end falls among the blanks behind the last token, or behind them.
    refine .cons ⟨?_, ?_⟩ .nil
    · rw [byteOffset, hbytes.2]
      exact Nat.sub_le_iff_le_add.mpr hlast
    · intro b hb
      rw [drop_byteOffset hl] at hb
      exact hbytes.1 b (List.mem_of_mem_take hb)
  | token gap r rest hgap _ h ih =>
    have hbehind : behind r rest <:+ decode bs :=
      (behind_suffix r rest).trans ((List.suffix_append _ _).trans hl)
    rw [h] at hstarts ⊢
    obtain ⟨hstart, hrest⟩ := List.forall_mem_cons.mp hstarts
    rw [lastBehind_of_cons h] at hlast
    have hblanks : BlankBetween bs _ ((decode bs).length-(r :: rest).length) :=
      (show _ = byteOffset bs (r :: rest) from hstart) ▸ blankBetween_gap hl hgap
    exact .cons hblanks (ih hbehind hrest hlast)

theorem last_of_gaps {n : ℕ} (h : List.Forall₂ (BlankBetween bs)
      (byteOffset bs l :: (spots l).map (fun s => byteOffset bs s.2))
      ((spots l).map (fun s => n-s.1.length) ++ [n])) : byteOffset bs (lastBehind l) ≤ n := by
  induction l using spots_induction with
  | blank l _ hspots =>
    rw [hspots] at h
    cases h with
    | cons hlast _ =>
      rw [lastBehind, hspots]
      exact hlast.1
  | token gap r rest _ _ hspots ih =>
    rw [hspots] at h
    cases h with
    | cons _ hrest =>
      rw [lastBehind_of_cons hspots]
      exact ih hrest

/-- A text that does not end in a blank has nothing behind its last token. -/
theorem lastBehind_eq_nil (h : ∀ b ∈ bs.getLast?, isBlank b = false) :
    lastBehind (decode bs) = [] := by
  have hsuffix := lastBehind_suffix (decode bs)
  rcases List.eq_nil_or_concat (lastBehind (decode bs)) with hnil | ⟨init, x, hinit⟩
  · exact hnil
  · have hx : x ∈ lastBehind (decode bs) := by
      rw [hinit, List.concat_eq_append]
      exact List.mem_append_right _ List.mem_cons_self
    obtain ⟨b, hb, hblank⟩ := bytes_of_isSpace (hsuffix.subset hx) (lastBehind_blank _ x hx)
    obtain ⟨pre, hpre⟩ := hsuffix
    have hbytes : bs = (pre ++ init).flatMap Rune.bytes ++ [b] := by
      rw [← decode_bytes bs, ← hpre, hinit,
        List.concat_eq_append, ← List.append_assoc, List.flatMap_append,
        List.flatMap_singleton, hb]
    have hlast : bs.getLast? = some b := by
      rw [hbytes, List.getLast?_concat]
    rw [h b hlast] at hblank
    cases hblank

theorem forall₂_iff_forall {α β : Type*} {R S : α → β → Prop} {Q : β → Prop} {as : List α}
    {l : List β} (h : List.Forall₂ R as l) (hiff : ∀ a b, R a b → (S a b ↔ Q b)) :
    List.Forall₂ S as l ↔ ∀ b ∈ l, Q b := by
  induction h with
  | nil => exact iff_of_true .nil (fun b hb => absurd hb List.not_mem_nil)
  | cons hab _ ih => rw [List.forall₂_cons, List.forall_mem_cons, hiff _ _ hab, ih]

theorem map_pos_eq {n : ℕ} {toks : List Token} {l : List (List Rune × List Rune)}
    (h : List.Forall₂ (fun tok s => tok.kind ≠ .eof ∧ tok.pos = n-s.1.length) toks l) :
    toks.map Token.pos = l.map (fun s => n-s.1.length) := by
  induction h with
  | nil => rfl
  | cons hab _ ih => rw [List.map_cons, List.map_cons, ih, hab.2]

/-- The positions fit the bytes of the text exactly when a character of several bytes stands in
the last token only, with as many blanks behind it as it has further bytes. -/
theorem tokens_tile_iff (bs : List UInt8) :
    Tiles bs (tokensOfBytes bs) ↔ PlainBeforeLast bs := by
  obtain ⟨toks, htoks, hspots⟩ := tokensFrom_spots (decode bs).length (decode bs)
  have hpos := map_pos_eq hspots
  have hmap : (tokensOfBytes bs).map Token.pos =
      (spots (decode bs)).map (fun s => (decode bs).length-s.1.length) ++ [(decode bs).length] := by
    rw [tokensOfBytes, htoks, List.map_append, hpos]
    rfl
  -- A position counts runes, so it fits just where the two counts agree.
  have hstarts : List.Forall₂ (fun tok s => tok.kind ≠ .eof ∧ tok.pos = byteOffset bs s.1)
      (tokensOfBytes bs).dropLast (spots (decode bs)) ↔
      ∀ s ∈ spots (decode bs), (decode bs).length-s.1.length = byteOffset bs s.1 := by
    rw [tokensOfBytes, htoks, List.dropLast_concat]
    apply forall₂_iff_forall hspots
    intro tok s h
    rw [h.2]
    exact and_iff_right h.1
  have hzero : byteOffset bs (decode bs) = 0 := by
    rw [byteOffset, byteLen_decode, Nat.sub_self]
  have hbehind := blanks_bytes (fun r hr => (lastBehind_suffix (decode bs)).subset hr)
    (lastBehind_blank (decode bs))
  constructor
  · intro h
    have hgaps := h.gaps
    rw [hmap, ← hzero] at hgaps
    have hlast := last_of_gaps hgaps
    rw [byteOffset, hbehind.2] at hlast
    exact ⟨starts_iff_last.mp (hstarts.mp h.starts), Nat.sub_le_iff_le_add.mp hlast⟩
  · rintro ⟨hplain, hlast⟩
    have hoffsets := starts_iff_last.mpr hplain
    refine ⟨⟨⟨.eof, "", (decode bs).length⟩, ?_, rfl, ?_⟩, hstarts.mpr hoffsets, ?_, ?_⟩
    · rw [tokensOfBytes, htoks, List.getLast?_concat]
      rfl
    -- Without blanks behind the last token the end is the end of the bytes.
    · intro hend
      rw [lastBehind_eq_nil hend] at hlast
      exact le_antisymm length_decode_le hlast
    · rw [hmap]
      exact positions_increasing le_rfl
    · rw [hmap, ← hzero]
      exact gaps_of_starts List.suffix_rfl hoffsets hlast

/-- A quoted `é`, a blank and `x`: the `x` is the sixth byte, and its position is 4. -/
theorem tokens_not_tile :
    tokensOfBytes [0x22, 0xc3, 0xa9, 0x22, 0x20, 0x78] =
      [⟨.string, "é", 0⟩, ⟨.ident, "x", 4⟩, ⟨.eof, "", 5⟩] ∧
    ¬ Tiles [0x22, 0xc3, 0xa9, 0x22, 0x20, 0x78]
      (tokensOfBytes [0x22, 0xc3, 0xa9, 0x22, 0x20, 0x78]) := by
  have htoks : tokensOfBytes [0x22, 0xc3, 0xa9, 0x22, 0x20, 0x78] =
      [⟨.string, "é", 0⟩, ⟨.ident, "x", 4⟩, ⟨.eof, "", 5⟩] := by decide +kernel
  refine ⟨htoks, fun h => ?_⟩
  obtain ⟨eof, heof, -, hend⟩ := h.ends
  rw [htoks] at heof
  cases heof
  have hpos : 5 = 6 := hend (fun b hb => by cases hb; rfl)
  cases hpos

end

end CairnObs.QueryLang
