import CairnObs.AuditLog
import CairnObs.HashChain

/-! `Store.VerifyChain`, and when it accepts what the adapters have appended. -/
namespace CairnObs.Audit

open GoText PgColumns HashChain

structure VerifyResult where
  ok : Bool
  firstBadID : ℕ
  rowsChecked : ℕ
  deriving DecidableEq, Repr

variable {rows : List Row} {p : Option ColumnText} {e : Entry} {r : Row} {c : Columns}

section Verify
variable (sha256 : List UInt8 → List UInt8)

/-- The loop of `VerifyChain` over the rows in id order. -/
def verifyFrom (expectedPrevHash : Option ColumnText) (checked : ℕ) : List Row → VerifyResult
  | [] => ⟨true, 0, checked⟩
  | rec :: rows =>
    if rec.prevHash ≠ expectedPrevHash then ⟨false, rec.id, checked+1⟩
    else if computeHash sha256 (rec.prevHash.map ColumnText.text) rec.columns.entry ≠
        rec.rowHash.text then ⟨false, rec.id, checked+1⟩
    else verifyFrom (some rec.rowHash) (checked+1) rows

def verifyChain (rows : List Row) : VerifyResult := verifyFrom sha256 none 0 rows

/-! ### The rows as a chain -/

def rowLink (prevHash : Option ColumnText) (c : Columns) : ColumnText :=
  ⟨computeHash sha256 (prevHash.map ColumnText.text) c.entry, nul_not_mem_computeHash _ _ _⟩

def Row.block (r : Row) : Block ColumnText Columns := ⟨r.prevHash, r.columns, r.rowHash⟩

/-- The rows are a chain behind `p`. -/
def Chained (p : Option ColumnText) (rows : List Row) : Prop :=
  Linked (rowLink sha256) p (rows.map Row.block)

/-- The hash the next row has to hold. -/
def chainTip (p : Option ColumnText) (rows : List Row) : Option ColumnText :=
  tip p (rows.map Row.block)

/-- What the loop tests in one row. -/
def Fits (p : Option ColumnText) (r : Row) : Prop :=
  r.prevHash = p ∧ rowLink sha256 r.prevHash r.columns = r.rowHash

variable {sha256}

theorem chained_cons :
    Chained sha256 p (r :: rows) ↔ Fits sha256 p r ∧ Chained sha256 (some r.rowHash) rows :=
  and_assoc.symm

theorem chained_append {rows' : List Row} :
    Chained sha256 p (rows ++ rows') ↔
      Chained sha256 p rows ∧ Chained sha256 (chainTip p rows) rows' := by
  rw [Chained, List.map_append]
  exact linked_append _ _ _ _

theorem verifyFrom_fits (h : Fits sha256 p r) (n : ℕ) (rows : List Row) :
    verifyFrom sha256 p n (r :: rows) = verifyFrom sha256 (some r.rowHash) (n+1) rows := by
  have hhash : computeHash sha256 (r.prevHash.map ColumnText.text) r.columns.entry =
      r.rowHash.text := congrArg ColumnText.text h.2
  rw [verifyFrom, if_neg (not_not.mpr h.1), if_neg (not_not.mpr hhash)]

theorem verifyFrom_misfit (h : ¬ Fits sha256 p r) (n : ℕ) (rows : List Row) :
    verifyFrom sha256 p n (r :: rows) = ⟨false, r.id, n+1⟩ := by
  rw [verifyFrom]
  by_cases hprev : r.prevHash = p
  · have hhash : computeHash sha256 (r.prevHash.map ColumnText.text) r.columns.entry ≠
        r.rowHash.text := fun he => h ⟨hprev, ColumnText.ext he⟩
    rw [if_neg (not_not.mpr hprev), if_pos hhash]
  · rw [if_pos hprev]

theorem verifyFrom_append {pre : List Row} (h : Chained sha256 p pre) (n : ℕ) (rows : List Row) :
    verifyFrom sha256 p n (pre ++ rows) =
      verifyFrom sha256 (chainTip p pre) (n+pre.length) rows := by
  induction pre generalizing p n with
  | nil => rfl
  | cons r pre ih =>
    obtain ⟨hfits, hrest⟩ := chained_cons.mp h
    rw [List.cons_append, verifyFrom_fits hfits, ih hrest, List.length_cons]
    congr 1
    omega

/-- A chain is accepted with all its rows. -/
theorem verifyFrom_chained (h : Chained sha256 p rows) (n : ℕ) :
    verifyFrom sha256 p n rows = ⟨true, 0, n+rows.length⟩ := by
  have happend := verifyFrom_append h n []
  rw [List.append_nil] at happend
  exact happend

/-- Only a chain is accepted. -/
theorem chained_of_verifyFrom {n : ℕ} (h : (verifyFrom sha256 p n rows).ok = true) :
    Chained sha256 p rows := by
  induction rows generalizing p n with
  | nil => exact trivial
  | cons r rows ih =>
    by_cases hfits : Fits sha256 p r
    · rw [verifyFrom_fits hfits] at h
      exact chained_cons.mpr ⟨hfits, ih h⟩
    · rw [verifyFrom_misfit hfits] at h
      exact absurd h Bool.false_ne_true

theorem verifyChain_iff :
    verifyChain sha256 rows = ⟨true, 0, rows.length⟩ ↔ Chained sha256 none rows := by
  constructor
  · intro h
    exact chained_of_verifyFrom (congrArg VerifyResult.ok h)
  · intro h
    have hrows := verifyFrom_chained h 0
    rwa [Nat.zero_add] at hrows

/-! ### What the hash commits to -/

/-- No field of the entry holds the separator. -/
def Entry.NulFree (e : Entry) : Prop := ∀ f ∈ hashedFields none e, nul ∉ f

theorem hashedFields_nulFree (he : e.NulFree) :
    ∀ f ∈ hashedFields (p.map ColumnText.text) e, nul ∉ f := by
  intro f hf
  rcases List.mem_cons.mp hf with rfl | hf
  · cases p with
    | none => exact List.not_mem_nil
    | some p => exact p.nulFree
  · exact he f (List.mem_cons_of_mem _ hf)

theorem computeHash_inj (hsha : Function.Injective sha256) {q : Option ColumnText} {f : Entry}
    (he : e.NulFree) (hf : f.NulFree) :
    computeHash sha256 (p.map ColumnText.text) e = computeHash sha256 (q.map ColumnText.text) f ↔
      deref (p.map ColumnText.text) = deref (q.map ColumnText.text) ∧
        hashedFields none e = hashedFields none f := by
  constructor
  · intro h
    have htext := utf8_injective (hsha (encodeToString_injective h))
    have hfields := SeparatedFields.terminated_inj (hashedFields_nulFree he)
      (hashedFields_nulFree hf) htext
    obtain ⟨hp, htail⟩ := List.cons.inj hfields
    exact ⟨hp, congrArg (List.cons []) htail⟩
  · rintro ⟨hp, hfields⟩
    have htail := (List.cons.inj hfields).2
    have hall :
        hashedFields (p.map ColumnText.text) e = hashedFields (q.map ColumnText.text) f := by
      rw [hashedFields, hp]
      exact congrArg (List.cons _) htail
    rw [computeHash, computeHash, hall]

theorem nulFree_of_fields (htenant : nul ∉ e.tenantID) (huser : nul ∉ deref e.userID)
    (hquery : nul ∉ deref e.queryText) (herror : nul ∉ deref e.errorMessage)
    (hdetail : nul ∉ e.detail) : e.NulFree := by
  have hint (n : Option ℤ) : nul ∉ intToStr n := by
    cases n with
    | none => exact List.not_mem_nil
    | some n => exact nul_not_mem_decimal n
  have hsource (x : Source) : nul ∉ x.text := by cases x <;> decide
  have hevent (x : EventType) : nul ∉ x.text := by cases x <;> decide
  have hstatus (x : Status) : nul ∉ x.text := by cases x <;> decide
  simp only [Entry.NulFree, hashedFields, List.forall_mem_cons]
  exact ⟨List.not_mem_nil, htenant, huser, hsource _, hevent _, hquery, hint _, hint _, hstatus _,
    herror, hdetail, by simp⟩

theorem nul_not_mem_deref_text (t : Option ColumnText) : nul ∉ deref (t.map ColumnText.text) := by
  cases t with
  | none => exact List.not_mem_nil
  | some t => exact t.nulFree

/-- What a SELECT returns has no NUL. -/
theorem Columns.nulFree (c : Columns) : c.entry.NulFree := by
  refine nulFree_of_fields c.tenantID.nulFree ?_ (nul_not_mem_deref_text _)
    (nul_not_mem_deref_text _) c.detail.nulFree
  cases h : c.userID with
  | none => simp [Columns.entry, h, deref]
  | some u =>
    simp only [Columns.entry, h, Option.map_some, deref]
    exact nul_not_mem_uuidOut u

end Verify

/-! ### The columns of an inserted entry -/

/-- What the columns hold of an entry: all of it as it is, but for the user id and the
detail, which are stored as a UUID and as JSONB. -/
structure Stores (c : Columns) (e : Entry) : Prop where
  tenantID : c.tenantID.text = e.tenantID
  userID : nullable uuidColumn e.userID = some c.userID
  source : c.source = e.source
  eventType : c.eventType = e.eventType
  queryText : c.queryText.map ColumnText.text = e.queryText
  rowCount : c.rowCount = e.rowCount
  durationMS : c.durationMS = e.durationMS
  status : c.status = e.status
  errorMessage : c.errorMessage.map ColumnText.text = e.errorMessage
  detail : Jsonb.jsonbColumn e.detail = some c.detail

theorem stores_of_ofEntry (h : Columns.ofEntry e = some c) : Stores c e := by
  simp only [Columns.ofEntry, Option.bind_eq_bind, Option.bind_eq_some_iff, Option.some.injEq] at h
  obtain ⟨tenantID, htenant, userID, huser, queryText, hquery, rowCount, hrows, durationMS, hms,
    errorMessage, herror, detail, hdetail, rfl⟩ := h
  have htext {x : Option Text} {y : Option ColumnText} (hxy : nullable textColumn x = some y) :
      y.map ColumnText.text = x := by
    rw [nullable_map (g := id) (fun _ _ => textColumn_text) hxy, Option.map_id, id]
  have hint {x y : Option ℤ} (hxy : nullable int4Column x = some y) : y = x := by
    have hmap := nullable_map (f := id) (g := id)
      (fun a b hab => (int4Column_eq_some.mp hab).2.symm) hxy
    rwa [Option.map_id, id, id] at hmap
  exact ⟨textColumn_text htenant, huser, rfl, rfl, htext hquery, hint hrows, hint hms, rfl,
    htext herror, hdetail⟩

theorem Stores.nulFree (h : Stores c e) : e.NulFree := by
  refine nulFree_of_fields (h.tenantID ▸ c.tenantID.nulFree) ?_
    (h.queryText ▸ nul_not_mem_deref_text _) (h.errorMessage ▸ nul_not_mem_deref_text _) ?_
  · cases hu : e.userID with
    | none => exact List.not_mem_nil
    | some u =>
      intro hnul
      have huser := h.userID
      rw [hu, nullable_some, uuidColumn, if_pos (show nul ∈ u from hnul)] at huser
      exact absurd huser (by simp)
  · intro hnul
    have hdetail := h.detail
    rw [Jsonb.jsonbColumn, if_pos hnul] at hdetail
    exact absurd hdetail (by simp)

/-- The entry is hashed alike before and after, if its user id and its detail are. -/
theorem Stores.hashedFields_iff (h : Stores c e) :
    hashedFields none c.entry = hashedFields none e ↔
      deref (c.userID.map uuidOut) = deref e.userID ∧ c.detail.text = e.detail := by
  simp only [hashedFields, Columns.entry, h.tenantID, h.source, h.eventType, h.queryText,
    h.rowCount, h.durationMS, h.status, h.errorMessage, List.cons.injEq, true_and, and_true]

end CairnObs.Audit
