import CairnObs.AuditVerify

/-! What `VerifyChain` says of the rows that the adapters have appended. `Append` hashes an
entry as it is handed over, `VerifyChain` as it is read back. -/
namespace CairnObs.Audit

open GoText PgColumns Authz HashChain

variable {sha256 : List UInt8 → List UInt8}

theorem chainTip_eq_lastHash (rows : List Row) : chainTip none rows = lastHash rows := by
  rcases List.eq_nil_or_concat rows with rfl | ⟨init, last, rfl⟩
  · rfl
  · simp [chainTip, lastHash, Row.block]

variable {c : Columns} {e : Entry}

/-- The next row fits if its entry is hashed alike before and after it is stored. -/
theorem chained_insert (hsha : Function.Injective sha256) {rows : List Row} {now : ℤ} {id : ℕ}
    (hstores : Stores c e) :
    Chained sha256 none (rows ++ [newRow sha256 (lastHash rows) now e c id]) ↔
      Chained sha256 none rows ∧ hashedFields none c.entry = hashedFields none e := by
  have hhash : rowLink sha256 (lastHash rows) c =
      (newRow sha256 (lastHash rows) now e c id).rowHash ↔
        hashedFields none c.entry = hashedFields none e := by
    constructor
    · intro h
      exact ((computeHash_inj hsha c.nulFree hstores.nulFree).mp (congrArg ColumnText.text h)).2
    · intro h
      exact ColumnText.ext ((computeHash_inj hsha c.nulFree hstores.nulFree).mpr ⟨rfl, h⟩)
  rw [chained_append, chainTip_eq_lastHash, ← hhash]
  constructor
  · rintro ⟨hrows, -, hlink, -⟩
    exact ⟨hrows, hlink⟩
  · rintro ⟨hrows, hlink⟩
    exact ⟨hrows, rfl, hlink, trivial⟩

/-! ### The three kinds of calls -/

/-- The adapter or the table refuses the call, and nothing is stored. -/
def LogCall.refused (call : LogCall) : Prop :=
  call.entry.bind (fun e => Columns.ofEntry e.withDetail) = none

/-- A logged query whose user id is empty or has the form in which a UUID is read back. -/
def LogCall.storedAsWritten : LogCall → Prop
  | .query _ identity _ =>
    ∀ id ∈ identity, id.userID = [] ∨ (uuidColumn id.userID).map uuidOut = some id.userID
  | .command _ _ _ => False
  | .interaction _ _ _ => False

/-- JSONB writes a blank behind the colon of the first member. -/
theorem agentCommandDetail_rewritten (c : CommandLogEntry) :
    Jsonb.jsonbOut (Jsonb.normalize (agentCommandDetail c)) ≠
      Jsonb.marshal (agentCommandDetail c) := by
  intro h
  have hstored : (Jsonb.jsonbOut (Jsonb.normalize (agentCommandDetail c)))[8]? = some ' ' := rfl
  have hwritten : (Jsonb.marshal (agentCommandDetail c))[8]? = some '"' := rfl
  rw [h, hwritten] at hstored
  exact absurd hstored (by decide)

/-- JSONB starts with the shortest key, which is not the first that is marshaled. -/
theorem aiInteractionDetail_rewritten (i : InteractionEntry) :
    Jsonb.jsonbOut (Jsonb.normalize (aiInteractionDetail i)) ≠
      Jsonb.marshal (aiInteractionDetail i) := by
  intro h
  have hstored : (Jsonb.jsonbOut (Jsonb.normalize (aiInteractionDetail i)))[2]? = some 'i' := by
    unfold aiInteractionDetail
    split_ifs <;> rfl
  have hwritten : (Jsonb.marshal (aiInteractionDetail i))[2]? = some 'o' := rfl
  rw [h, hwritten] at hstored
  exact absurd hstored (by decide)

/-- A detail that the adapter marshals is not read back as it was hashed. -/
theorem not_hashedAlike_of_detail (hstores : Stores c e) {o : Jsonb.Object}
    (ho : e.detail = Jsonb.marshal o)
    (hrewritten : Jsonb.jsonbOut (Jsonb.normalize o) ≠ Jsonb.marshal o) :
    hashedFields none c.entry ≠ hashedFields none e := by
  intro h
  have hdetail := (hstores.hashedFields_iff.mp h).2
  have hcolumn := hstores.detail
  rw [ho] at hdetail hcolumn
  exact hrewritten ((Jsonb.jsonbColumn_marshal hcolumn).symm.trans hdetail)

theorem withDetail_of_marshal {o : Jsonb.Object} (h : e.detail = Jsonb.marshal o) :
    e.withDetail = e := if_neg (by rw [h]; exact List.cons_ne_nil _ _)

/-- An empty detail is stored as it is hashed, so the user id decides. -/
theorem hashedAlike_logQuery {source : Source} {identity : Option Identity} {q : QueryAuditEntry}
    (he : logQuery source identity q = some e) (hstores : Stores c e.withDetail) :
    hashedFields none c.entry = hashedFields none e.withDetail ↔
      (LogCall.query source identity q).storedAsWritten := by
  cases identity with
  | none => exact absurd he (by simp [logQuery, tenantIdentity])
  | some id =>
    by_cases htenant : id.tenantID = []
    · exact absurd he (by simp [logQuery, tenantIdentity, htenant])
    obtain rfl : _ = e := by simpa [logQuery, tenantIdentity, htenant] using he
    have hdetail : c.detail.text = "{}".toList := by
      have hcolumn := hstores.detail
      have hempty : Jsonb.jsonbColumn "{}".toList = some ⟨"{}".toList, by decide⟩ := rfl
      exact congrArg ColumnText.text (Option.some.inj (hcolumn.symm.trans hempty))
    have huser := hstores.userID
    rw [hstores.hashedFields_iff, LogCall.storedAsWritten]
    by_cases hempty : id.userID = []
    · simp [Entry.withDetail, hempty] at huser
      simp [Entry.withDetail, hempty, ← huser, hdetail]
    · simp only [Entry.withDetail, if_neg hempty, if_true, nullable_some] at huser
      obtain ⟨v, hv, hcv⟩ := Option.map_eq_some_iff.mp huser
      simp [Entry.withDetail, hempty, ← hcv, hv, hdetail, deref]

theorem hashedAlike_iff {call : LogCall} (he : call.entry = some e)
    (hstores : Stores c e.withDetail) :
    hashedFields none c.entry = hashedFields none e.withDetail ↔ call.storedAsWritten := by
  cases call with
  | query source identity q => exact hashedAlike_logQuery he hstores
  | command source identity m =>
    obtain ⟨id, -, rfl⟩ := Option.map_eq_some_iff.mp he
    rw [withDetail_of_marshal rfl] at hstores ⊢
    exact iff_of_false
      (not_hashedAlike_of_detail hstores rfl (agentCommandDetail_rewritten m)) not_false
  | interaction source identity i =>
    obtain ⟨id, -, rfl⟩ := Option.map_eq_some_iff.mp he
    rw [withDetail_of_marshal rfl] at hstores ⊢
    exact iff_of_false
      (not_hashedAlike_of_detail hstores rfl (aiInteractionDetail_rewritten i)) not_false

/-! ### Every sequence of calls -/

theorem chained_logCall (hsha : Function.Injective sha256) (db : Table) (call : ℤ × LogCall) :
    Chained sha256 none (logCall sha256 db call).rows ↔
      Chained sha256 none db.rows ∧ (call.2.refused ∨ call.2.storedAsWritten) := by
  unfold logCall
  cases he : call.2.entry with
  | none =>
    have hrefused : call.2.refused := by simp [LogCall.refused, he]
    simp only [hrefused, true_or, and_true]
  | some e =>
    cases hc : Columns.ofEntry e.withDetail with
    | none =>
      have hrefused : call.2.refused := by simp [LogCall.refused, he, hc]
      simp only [append, hc, hrefused, true_or, and_true]
    | some c =>
      have hstored : ¬ call.2.refused := by simp [LogCall.refused, he, hc]
      have hstores := stores_of_ofEntry hc
      simp only [append, hc, hstored, false_or, Table.insert]
      rw [chained_insert hsha hstores, hashedAlike_iff he hstores]

theorem chained_foldl (hsha : Function.Injective sha256) (db : Table) (calls : List (ℤ × LogCall)) :
    Chained sha256 none (calls.foldl (logCall sha256) db).rows ↔
      Chained sha256 none db.rows ∧
        ∀ call ∈ calls, call.2.refused ∨ call.2.storedAsWritten := by
  induction calls generalizing db with
  | nil => simp
  | cons call calls ih =>
    rw [List.foldl_cons, ih, chained_logCall hsha, List.forall_mem_cons, and_assoc]

/-- The rows that the adapters have appended are accepted just when no stored call is an
agent command or an AI interaction and no stored user id is spelled otherwise than UUIDs
are read back. -/
theorem verifyChain_logAll_iff (hsha : Function.Injective sha256) (calls : List (ℤ × LogCall)) :
    verifyChain sha256 (logAll sha256 calls).rows =
        ⟨true, 0, (logAll sha256 calls).rows.length⟩ ↔
      ∀ call ∈ calls, call.2.refused ∨ call.2.storedAsWritten := by
  rw [verifyChain_iff, logAll, chained_foldl hsha]
  exact and_iff_right trivial

/-- A query without rows, logged for a user of the tenant `acme`. -/
def acmeQuery : LogCall :=
  .query .api
    (some ⟨"acme".toList, "a0eebc99-9c0b-4ef8-bb6d-6bb9bd380a11".toList, .editor⟩)
    ⟨"level = error".toList, 0, 2500000, true, []⟩

/-- It is logged twice, with a failed query without a user and a restart without a tenant, which
is not stored, in between. -/
def acmeQueries : List (ℤ × LogCall) :=
  [(0, acmeQuery),
    (1, .query .api (some ⟨"acme".toList, [], .admin⟩)
      ⟨"level ==".toList, 0, 1000000, false, "unexpected end".toList⟩),
    (2, .command .api none ⟨"web-1".toList, "restart".toList⟩),
    (3, acmeQuery)]

theorem verifyChain_logAll_acmeQueries :
    Function.Injective (id : List UInt8 → List UInt8) ∧
      verifyChain id (logAll id acmeQueries).rows = ⟨true, 0, 3⟩ := by
  have hstored : acmeQuery.storedAsWritten := by
    intro id hid
    cases hid
    exact .inr (by decide +kernel)
  have hcalls : ∀ call ∈ acmeQueries, call.2.refused ∨ call.2.storedAsWritten := by
    simp only [acmeQueries, List.forall_mem_cons, List.not_mem_nil, false_imp_iff, implies_true,
      and_true]
    refine ⟨.inr hstored, .inr ?_, .inl rfl, .inr hstored⟩
    intro id hid
    cases hid
    exact .inl rfl
  have hthree : (logAll id acmeQueries).rows.length = 3 := by decide +kernel
  refine ⟨Function.injective_id, ?_⟩
  rw [(verifyChain_logAll_iff Function.injective_id _).mpr hcalls, hthree]

/-- An agent restart, logged for an admin of the tenant `acme`. -/
def acmeRestart : LogCall :=
  .command .api (some ⟨"acme".toList, [], .admin⟩) ⟨"web-1".toList, "restart".toList⟩

/-- The one row of the table does not verify. -/
theorem verifyChain_acmeRestart_rejected :
    Function.Injective (id : List UInt8 → List UInt8) ∧
      verifyChain id (logAll id [(0, acmeRestart)]).rows = ⟨false, 1, 1⟩ :=
  ⟨Function.injective_id, by decide +kernel⟩

end CairnObs.Audit
