import CairnObs.AuditRoundTrip

/-! Which changes of an accepted `audit_log` are seen by `VerifyChain`. -/
namespace CairnObs.Audit

open GoText PgColumns HashChain

/-! ### Columns that are hashed alike -/

/-- A NULL text and an empty one are written alike into the hash. -/
structure HashedAlike (c d : Columns) : Prop where
  tenantID : c.tenantID = d.tenantID
  userID : c.userID = d.userID
  source : c.source = d.source
  eventType : c.eventType = d.eventType
  queryText : deref (c.queryText.map ColumnText.text) = deref (d.queryText.map ColumnText.text)
  rowCount : c.rowCount = d.rowCount
  durationMS : c.durationMS = d.durationMS
  status : c.status = d.status
  errorMessage :
    deref (c.errorMessage.map ColumnText.text) = deref (d.errorMessage.map ColumnText.text)
  detail : c.detail = d.detail

theorem HashedAlike.refl (c : Columns) : HashedAlike c c :=
  ⟨rfl, rfl, rfl, rfl, rfl, rfl, rfl, rfl, rfl, rfl⟩

theorem Source.text_injective : Function.Injective Source.text := by
  intro a b
  cases a <;> cases b <;> decide

theorem EventType.text_injective : Function.Injective EventType.text := by
  intro a b
  cases a <;> cases b <;> decide

theorem Status.text_injective : Function.Injective Status.text := by
  intro a b
  cases a <;> cases b <;> decide

theorem intToStr_injective : Function.Injective intToStr := by
  intro a b h
  cases a with
  | none =>
    cases b with
    | none => rfl
    | some n => exact absurd h.symm (decimal_ne_nil n)
  | some m =>
    cases b with
    | none => exact absurd h (decimal_ne_nil m)
    | some n => exact congrArg some (decimal_injective h)

theorem uuidText_injective {u v : Option Uuid}
    (h : deref (u.map uuidOut) = deref (v.map uuidOut)) : u = v := by
  cases u with
  | none =>
    cases v with
    | none => rfl
    | some v => exact absurd h.symm (uuidOut_ne_nil v)
  | some u =>
    cases v with
    | none => exact absurd h (uuidOut_ne_nil u)
    | some v => exact congrArg some (uuidOut_injective h)

theorem hashedFields_entry_iff {c d : Columns} :
    hashedFields none c.entry = hashedFields none d.entry ↔ HashedAlike c d := by
  constructor
  · intro h
    simp only [hashedFields, Columns.entry, List.cons.injEq, and_true, true_and] at h
    obtain ⟨htenant, huser, hsource, hevent, hquery, hrows, hms, hstatus, herror, hdetail⟩ := h
    exact ⟨ColumnText.ext htenant, uuidText_injective huser, Source.text_injective hsource,
      EventType.text_injective hevent, hquery, intToStr_injective hrows, intToStr_injective hms,
      Status.text_injective hstatus, herror, ColumnText.ext hdetail⟩
  · intro h
    simp only [hashedFields, Columns.entry, h.tenantID, h.userID, h.source, h.eventType,
      h.queryText, h.rowCount, h.durationMS, h.status, h.errorMessage, h.detail]

/-- What `VerifyChain` reads of the two rows is hashed alike; `created_at` is not read. -/
structure Row.Alike (r s : Row) : Prop where
  id : r.id = s.id
  prevHash : r.prevHash = s.prevHash
  rowHash : r.rowHash = s.rowHash
  columns : HashedAlike r.columns s.columns

theorem Row.Alike.refl (r : Row) : r.Alike r := ⟨rfl, rfl, rfl, HashedAlike.refl _⟩

/-! ### Changes of the table -/

/-- The first position at which two tables differ. -/
def firstChange : List Row → List Row → ℕ
  | r :: rows, s :: rows' => if r = s then firstChange rows rows' + 1 else 0
  | _, _ => 0

/-- A row is edited but for its hashes, rows are deleted that are no suffix, or two rows
are exchanged. -/
inductive Tampered : List Row → List Row → Prop
  | edit (pre : List Row) (r s : Row) (post : List Row) (hid : s.id = r.id)
      (hprev : s.prevHash = r.prevHash) (hhash : s.rowHash = r.rowHash) (hne : r ≠ s) :
      Tampered (pre ++ r :: post) (pre ++ s :: post)
  | delete (rows rows' : List Row) (hsub : rows'.Sublist rows) (hcut : ¬ rows' <+: rows) :
      Tampered rows rows'
  | swap (pre : List Row) (r : Row) (mid : List Row) (s : Row) (post : List Row) :
      Tampered (pre ++ r :: (mid ++ s :: post))
        (pre ++ { s with id := r.id } :: (mid ++ { r with id := s.id } :: post))

variable {r s : Row} {post pre rows rows' mid : List Row}

section Detection
variable (sha256 : List UInt8 → List UInt8)

/-- `VerifyChain` refuses the changed table, at or before the first change. -/
def Detected (rows rows' : List Row) : Prop :=
  (verifyChain sha256 rows').ok = false ∧
    ∃ s, rows'[firstChange rows rows']? = some s ∧ (verifyChain sha256 rows').firstBadID ≤ s.id

/-- SHA-256 as a function without collisions. -/
structure IsDigest : Prop where
  injective : Function.Injective sha256
  nonempty : ∀ b, sha256 b ≠ []

variable {sha256}

theorem firstChange_append (hne : r ≠ s) (pre post post' : List Row) :
    firstChange (pre ++ r :: post) (pre ++ s :: post') = pre.length := by
  induction pre with
  | nil => exact if_neg hne
  | cons p pre ih =>
    rw [List.cons_append, List.cons_append, firstChange, if_pos rfl, ih, List.length_cons]

/-- The row at the first change does not fit behind the rows before it. -/
theorem detected_of_misfit {post' : List Row} (hpre : Chained sha256 none pre) (hne : r ≠ s)
    (hmisfit : ¬ Fits sha256 (chainTip none pre) s) :
    Detected sha256 (pre ++ r :: post) (pre ++ s :: post') := by
  have hverify : verifyChain sha256 (pre ++ s :: post') = ⟨false, s.id, 0+pre.length+1⟩ := by
    rw [verifyChain, verifyFrom_append hpre, verifyFrom_misfit hmisfit]
  refine ⟨by rw [hverify], s, ?_, by rw [hverify]⟩
  rw [firstChange_append hne]
  simp

/-! ### What is not seen -/

theorem rowLink_alike {p : Option ColumnText} {c d : Columns} (h : HashedAlike c d) :
    rowLink sha256 p c = rowLink sha256 p d := by
  have hfields : hashedFields (p.map ColumnText.text) c.entry =
      hashedFields (p.map ColumnText.text) d.entry :=
    congrArg (List.cons _) (List.cons.inj (hashedFields_entry_iff.mpr h)).2
  apply ColumnText.ext
  simp only [rowLink, computeHash, hfields]

theorem chained_alike {p : Option ColumnText} (h : List.Forall₂ Row.Alike rows rows')
    (hrows : Chained sha256 p rows) : Chained sha256 p rows' := by
  induction h generalizing p with
  | nil => trivial
  | cons hrs hrest ih =>
    obtain ⟨⟨hprev, hlink⟩, hchained⟩ := chained_cons.mp hrows
    refine chained_cons.mpr ⟨⟨hrs.prevHash ▸ hprev, ?_⟩, ih (hrs.rowHash ▸ hchained)⟩
    rw [← hrs.prevHash, ← hrs.rowHash, ← hlink, rowLink_alike hrs.columns]

/-! ### What is seen -/

theorem rowLink_commits (hsha : IsDigest sha256) (p q : Option ColumnText) (c d : Columns)
    (h : rowLink sha256 p c = rowLink sha256 q d) :
    p.getD ⟨[], List.not_mem_nil⟩ = q.getD ⟨[], List.not_mem_nil⟩ := by
  have hderef (x : Option ColumnText) :
      (x.getD ⟨[], List.not_mem_nil⟩).text = deref (x.map ColumnText.text) := by
    cases x <;> rfl
  apply ColumnText.ext
  rw [hderef, hderef]
  exact ((computeHash_inj hsha.injective c.nulFree d.nulFree).mp (congrArg ColumnText.text h)).1

theorem rowLink_ne_origin (hsha : IsDigest sha256) (p : Option ColumnText) (c : Columns) :
    rowLink sha256 p c ≠ ⟨[], List.not_mem_nil⟩ := by
  intro h
  exact encodeToString_ne_nil (hsha.nonempty _) (congrArg ColumnText.text h)

/-- A row that has moved forward does not fit in its new place. -/
theorem displaced (hsha : IsDigest sha256)
    (h : Chained sha256 none (pre ++ r :: (mid ++ s :: post))) :
    s.prevHash ≠ chainTip none pre := by
  have hlinked : Linked (rowLink sha256) none (pre.map Row.block ++ r.block :: mid.map Row.block ++
      s.block :: post.map Row.block) := by
    simpa [Chained] using h
  exact hlinked.prev_ne_tip (rowLink_commits hsha) (rowLink_ne_origin hsha)

/-- A row from further down has taken the place of `r`. -/
theorem detected_of_displaced (hsha : IsDigest sha256) {post' : List Row} {t : Row}
    (h : Chained sha256 none (pre ++ r :: (mid ++ s :: post))) (hprev : t.prevHash = s.prevHash) :
    Detected sha256 (pre ++ r :: (mid ++ s :: post)) (pre ++ t :: post') := by
  have hmoved : t.prevHash ≠ chainTip none pre := hprev ▸ displaced hsha h
  obtain ⟨hpre, hrest⟩ := chained_append.mp h
  have hr : r.prevHash = chainTip none pre := (chained_cons.mp hrest).1.1
  refine detected_of_misfit hpre ?_ (fun hfits => hmoved hfits.1)
  rintro rfl
  exact hmoved hr

/-- The first deleted row, and the first row behind it that is kept. -/
theorem sublist_split (hsub : rows'.Sublist rows) (hcut : ¬ rows' <+: rows) :
    ∃ pre r mid s post post', rows = pre ++ r :: (mid ++ s :: post) ∧
      rows' = pre ++ s :: post' := by
  induction hsub with
  | slnil => exact absurd List.prefix_rfl hcut
  | @cons kept all r hsub ih =>
    -- `r` is deleted: it is the first, and the head of what is kept is further down
    cases kept with
    | nil => exact absurd (List.nil_prefix) hcut
    | cons s post' =>
      obtain ⟨mid, post, rfl⟩ := List.append_of_mem (hsub.subset List.mem_cons_self)
      exact ⟨[], r, mid, s, post, post', rfl, rfl⟩
  | @cons_cons kept all r hsub ih =>
    obtain ⟨pre, r', mid, s, post, post', rfl, rfl⟩ :=
      ih (fun h => hcut (List.cons_prefix_cons.mpr ⟨rfl, h⟩))
    exact ⟨r :: pre, r', mid, s, post, post', rfl, rfl⟩

theorem detected_edit (hsha : IsDigest sha256) (hprev : s.prevHash = r.prevHash)
    (hhash : s.rowHash = r.rowHash) (hne : r ≠ s) (h : Chained sha256 none (pre ++ r :: post))
    (hcolumns : ¬ HashedAlike r.columns s.columns) :
    Detected sha256 (pre ++ r :: post) (pre ++ s :: post) := by
  obtain ⟨hpre, hrest⟩ := chained_append.mp h
  obtain ⟨⟨-, hlink⟩, -⟩ := chained_cons.mp hrest
  refine detected_of_misfit hpre hne ?_
  rintro ⟨-, hlink'⟩
  -- both rows have the hash of `r`, so the fields that were hashed agree
  rw [hprev, hhash, ← hlink] at hlink'
  have hfields := ((computeHash_inj hsha.injective s.columns.nulFree r.columns.nulFree).mp
    (congrArg ColumnText.text hlink')).2
  exact hcolumns (hashedFields_entry_iff.mp hfields.symm)

/-- Rows that are deleted before the end are always missed. -/
theorem not_alike_of_delete (hsub : rows'.Sublist rows) (hcut : ¬ rows' <+: rows) :
    ¬ List.Forall₂ Row.Alike rows rows' := by
  intro h
  exact hcut (hsub.eq_of_length h.length_eq.symm ▸ List.prefix_rfl)

/-- Two rows of an accepted table that change places are always missed in theirs. -/
theorem not_alike_of_swap (hsha : IsDigest sha256)
    (h : Chained sha256 none (pre ++ r :: (mid ++ s :: post))) :
    ¬ List.Forall₂ Row.Alike (pre ++ r :: (mid ++ s :: post))
      (pre ++ { s with id := r.id } :: (mid ++ { r with id := s.id } :: post)) := by
  intro halike
  have hr : r.prevHash = chainTip none pre := (chained_cons.mp (chained_append.mp h).2).1.1
  have hdrop := List.forall₂_drop pre.length halike
  rw [List.drop_left, List.drop_left] at hdrop
  exact displaced hsha h ((List.forall₂_cons.mp hdrop).1.prevHash.symm.trans hr)

/-- A change of an accepted table is detected unless the rows stay alike, one by one: only
`created_at` has changed, or a NULL text has become an empty one or the other way round. -/
theorem tampered_detected_iff (hsha : IsDigest sha256) {rows rows' : List Row}
    (haccepted : (verifyChain sha256 rows).ok = true) (htampered : Tampered rows rows') :
    Detected sha256 rows rows' ↔ ¬ List.Forall₂ Row.Alike rows rows' := by
  have hchained : Chained sha256 none rows := chained_of_verifyFrom haccepted
  constructor
  · intro hdetected halike
    have hverify := verifyFrom_chained (chained_alike halike hchained) 0
    exact absurd hdetected.1 (by rw [verifyChain, hverify]; exact Bool.noConfusion)
  · intro halike
    cases htampered with
    | edit pre r s post hid hprev hhash hne =>
      refine detected_edit hsha hprev hhash hne hchained (fun hcolumns => halike ?_)
      have hrefl (l : List Row) : List.Forall₂ Row.Alike l l :=
        List.forall₂_same.mpr (fun x _ => Row.Alike.refl x)
      exact List.rel_append (hrefl pre)
        (List.Forall₂.cons ⟨hid.symm, hprev.symm, hhash.symm, hcolumns⟩ (hrefl post))
    | delete rows rows' hsub hcut =>
      obtain ⟨pre, r, mid, s, post, post', rfl, rfl⟩ := sublist_split hsub hcut
      exact detected_of_displaced hsha hchained rfl
    | swap pre r mid s post => exact detected_of_displaced hsha hchained rfl

end Detection

/-! ### Small tables -/

def markedBytes (b : List UInt8) : List UInt8 := 1 :: b

theorem isDigest_markedBytes : IsDigest markedBytes where
  injective := List.cons_injective
  nonempty := fun _ => List.cons_ne_nil _ _

def acmeColumns : Columns where
  tenantID := ⟨"acme".toList, by decide⟩
  userID := none
  source := .api
  eventType := .query
  queryText := some ⟨"level = error".toList, by decide⟩
  rowCount := some 0
  durationMS := some 2
  status := .success
  errorMessage := none
  detail := ⟨"{}".toList, by decide⟩

def acmeRow : Row where
  id := 1
  columns := acmeColumns
  prevHash := none
  rowHash := rowLink markedBytes none acmeColumns
  createdAt := 0

theorem acmeRow_accepted : (verifyChain markedBytes [acmeRow]).ok = true := by
  have hchained : Chained markedBytes none [acmeRow] := chained_cons.mpr ⟨⟨rfl, rfl⟩, trivial⟩
  rw [verifyChain, verifyFrom_chained hchained]

/-- The same query once more, appended behind `r`. -/
def acmeRowAfter (r : Row) : Row where
  id := r.id+1
  columns := acmeColumns
  prevHash := some r.rowHash
  rowHash := rowLink markedBytes (some r.rowHash) acmeColumns
  createdAt := r.createdAt+1

def acmeSecond : Row := acmeRowAfter acmeRow

def acmeThird : Row := acmeRowAfter acmeSecond

def acmeSecondFailed : Row := { acmeSecond with columns := { acmeColumns with status := .error } }

/-- Of three rows the second is deleted, edited, or exchanged with the first. -/
theorem acmeTable_tampering_detected :
    IsDigest markedBytes ∧
      (verifyChain markedBytes [acmeRow, acmeSecond, acmeThird]).ok = true ∧
      Detected markedBytes [acmeRow, acmeSecond, acmeThird] [acmeRow, acmeThird] ∧
      Detected markedBytes [acmeRow, acmeSecond, acmeThird]
        [acmeRow, acmeSecondFailed, acmeThird] ∧
      Detected markedBytes [acmeRow, acmeSecond, acmeThird]
        [{ acmeSecond with id := 1 }, { acmeRow with id := 2 }, acmeThird] := by
  have hchained : Chained markedBytes none [acmeRow, acmeSecond, acmeThird] :=
    ⟨rfl, rfl, rfl, rfl, rfl, rfl, trivial⟩
  have haccepted : (verifyChain markedBytes [acmeRow, acmeSecond, acmeThird]).ok = true := by
    rw [verifyChain, verifyFrom_chained hchained]
  have hdetect {rows' : List Row} (h : Tampered [acmeRow, acmeSecond, acmeThird] rows') :=
    tampered_detected_iff isDigest_markedBytes haccepted h
  have hids : acmeThird.id ≠ acmeSecond.id := by decide
  have hstatus : acmeSecond.columns.status ≠ acmeSecondFailed.columns.status := by decide
  have hsub : [acmeRow, acmeThird].Sublist [acmeRow, acmeSecond, acmeThird] :=
    ((List.Sublist.refl _).cons _).cons_cons _
  have hcut : ¬ [acmeRow, acmeThird] <+: [acmeRow, acmeSecond, acmeThird] := by
    intro h
    have hsame := (List.cons_prefix_cons.mp (List.cons_prefix_cons.mp h).2).1
    exact hids (congrArg Row.id hsame)
  refine ⟨isDigest_markedBytes, haccepted, ?_, ?_, ?_⟩
  · exact (hdetect (.delete _ _ hsub hcut)).mpr (not_alike_of_delete hsub hcut)
  · refine (hdetect (.edit [acmeRow] acmeSecond acmeSecondFailed [acmeThird] rfl rfl rfl ?_)).mpr ?_
    · intro h
      exact hstatus (congrArg (fun r => r.columns.status) h)
    · intro halike
      exact hstatus (List.forall₂_cons.mp (List.forall₂_cons.mp halike).2).1.columns.status
  · exact (hdetect (.swap [] acmeRow [] acmeSecond [acmeThird])).mpr
      (@not_alike_of_swap _ _ _ [] [] _ isDigest_markedBytes hchained)

/-- The creation time is not hashed, and NULL is hashed as the empty text. -/
theorem acmeRow_edits_unseen :
    (verifyChain markedBytes [acmeRow]).ok = true ∧
    (Tampered [acmeRow] [{ acmeRow with createdAt := 1 }] ∧
      (verifyChain markedBytes [{ acmeRow with createdAt := 1 }]).ok = true) ∧
    (Tampered [acmeRow]
        [{ acmeRow with
          columns := { acmeColumns with errorMessage := some ⟨[], List.not_mem_nil⟩ } }] ∧
      (verifyChain markedBytes
        [{ acmeRow with
          columns := { acmeColumns with errorMessage := some ⟨[], List.not_mem_nil⟩ } }]).ok =
        true) := by
  refine ⟨acmeRow_accepted, ⟨?_, acmeRow_accepted⟩, ⟨?_, acmeRow_accepted⟩⟩
  · refine Tampered.edit [] acmeRow _ [] rfl rfl rfl (fun h => ?_)
    exact absurd (congrArg Row.createdAt h) (by decide)
  · refine Tampered.edit [] acmeRow _ [] rfl rfl rfl (fun h => ?_)
    exact absurd (congrArg (fun r => r.columns.errorMessage) h) (by decide)

end CairnObs.Audit
