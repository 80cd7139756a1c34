import CairnObs.IngestConsumer
import Mathlib.Data.List.AList

/-! `enterprise/internal/chwriter`: a batch with the records of many tenants is written
through one writer for each tenant. -/
namespace CairnObs.ChWriter

open Ingest

section WriteBatch
variable {ρ ω ε : Type*}

/-- The grouping loop. -/
def byTenant (records : List (Record ρ)) : AList (fun _ : String => List (Record ρ)) :=
  records.foldl (fun groups r =>
    groups.insert r.tenantID ((groups.lookup r.tenantID).getD [] ++ [r])) ∅

/-- One call of a writer: under which tenant it is registered, and what it is handed. -/
structure Call (ω ρ : Type*) where
  tenantID : String
  writer : ω
  plain : List ρ

inductive WriteError (ε : Type*)
  | noTenant (records : ℕ)
  | noConnection (tenantID : String) (records : ℕ)
  | write (tenantID : String) (cause : ε)

/-- The writing loop over the groups, in the order in which the map yields them: the calls it
makes, and the error it stops with. -/
def writeGroups (writers : AList (fun _ : String => ω)) (write : ω → List ρ → Option ε) :
    List (Sigma (fun _ : String => List (Record ρ))) → List (Call ω ρ) × Option (WriteError ε)
  | [] => ([], none)
  | ⟨tenantID, group⟩ :: rest =>
    if tenantID = "" then ([], some (.noTenant group.length))
    else
      match writers.lookup tenantID with
      | none => ([], some (.noConnection tenantID group.length))
      | some writer =>
        let plain := group.map (fun r => r.record)
        match write writer plain with
        | some e => ([⟨tenantID, writer, plain⟩], some (.write tenantID e))
        | none =>
          let next := writeGroups writers write rest
          (⟨tenantID, writer, plain⟩ :: next.1, next.2)

/-- A run of `Registry.WriteBatch`: the map may yield its groups in any order. -/
inductive WriteBatch (writers : AList (fun _ : String => ω)) (write : ω → List ρ → Option ε)
    (records : List (Record ρ)) : List (Call ω ρ) → Option (WriteError ε) → Prop
  | mk (groups : List (Sigma (fun _ : String => List (Record ρ))))
      (order : groups.Perm (byTenant records).entries) :
      WriteBatch writers write records (writeGroups writers write groups).1
        (writeGroups writers write groups).2

/-! ### The groups -/

def taggedWith (tenantID : String) (records : List (Record ρ)) : List (Record ρ) :=
  records.filter (fun r => decide (r.tenantID = tenantID))

theorem byTenant_concat (records : List (Record ρ)) (r : Record ρ) :
    byTenant (records ++ [r]) = (byTenant records).insert r.tenantID
      (((byTenant records).lookup r.tenantID).getD [] ++ [r]) := by
  simp [byTenant, List.foldl_append]

/-- A group holds the records of its tenant, in the order of the batch. -/
theorem lookup_byTenant (records : List (Record ρ)) (tenantID : String) :
    (byTenant records).lookup tenantID =
      if taggedWith tenantID records = [] then none else some (taggedWith tenantID records) := by
  induction records using List.reverseRecOn with
  | nil => rfl
  | append_singleton records r ih =>
    rw [byTenant_concat]
    by_cases h : r.tenantID = tenantID
    · subst h
      have hgroup :
          taggedWith r.tenantID (records ++ [r]) = taggedWith r.tenantID records ++ [r] := by
        simp [taggedWith]
      rw [AList.lookup_insert, ih, hgroup, if_neg (List.append_ne_nil_of_right_ne_nil _ (by simp))]
      split_ifs with hempty
      · rw [hempty]
        rfl
      · rfl
    · have hgroup : taggedWith tenantID (records ++ [r]) = taggedWith tenantID records := by
        simp [taggedWith, h]
      rw [AList.lookup_insert_ne (Ne.symm h), ih, hgroup]

variable {records : List (Record ρ)} {groups : List (Sigma (fun _ : String => List (Record ρ)))}

theorem group_eq {tenantID : String} {group : List (Record ρ)}
    (h : ⟨tenantID, group⟩ ∈ (byTenant records).entries) : group = taggedWith tenantID records := by
  have hlookup := AList.mem_lookup_iff.mpr h
  rw [lookup_byTenant] at hlookup
  split_ifs at hlookup with hempty
  · cases hlookup
  · exact (Option.some.inj hlookup).symm

/-- The entries of one key are what a lookup finds. -/
theorem flatMap_filter_key {κ α : Type*} [DecidableEq κ] {l : List (Sigma (fun _ : κ => List α))}
    (h : l.NodupKeys) (k : κ) :
    (l.filter (fun e => decide (e.1 = k))).flatMap (fun e => e.2) = (l.dlookup k).getD [] := by
  induction l with
  | nil => rfl
  | cons e l ih =>
    obtain ⟨hfresh, hrest⟩ := List.nodupKeys_cons.mp h
    obtain ⟨k', as⟩ := e
    by_cases hk : k' = k
    · subst hk
      have hnone : l.dlookup k' = none := List.dlookup_eq_none.mpr hfresh
      rw [List.filter_cons_of_pos (by simp), List.flatMap_cons, ih hrest, hnone,
        List.dlookup_cons_eq]
      exact List.append_nil as
    · rw [List.filter_cons_of_neg (by simpa using hk), List.dlookup_cons_ne _ _ (Ne.symm hk)]
      exact ih hrest

/-! ### The calls -/

variable {writers : AList (fun _ : String => ω)} {write : ω → List ρ → Option ε}

theorem mem_writeGroups {c : Call ω ρ} (hc : c ∈ (writeGroups writers write groups).1) :
    c.tenantID ≠ "" ∧ writers.lookup c.tenantID = some c.writer ∧
      ∃ group, ⟨c.tenantID, group⟩ ∈ groups ∧ c.plain = group.map (fun r => r.record) := by
  fun_induction writeGroups writers write groups with
  | case1 => exact absurd hc List.not_mem_nil
  | case2 => exact absurd hc List.not_mem_nil
  | case3 => exact absurd hc List.not_mem_nil
  | case4 tenantID group rest hempty writer hwriter plain e hwrite =>
    obtain rfl := List.mem_singleton.mp hc
    exact ⟨hempty, hwriter, group, List.mem_cons_self, rfl⟩
  | case5 tenantID group rest hempty writer hwriter plain hwrite next ih =>
    rcases List.mem_cons.mp hc with rfl | hrest
    · exact ⟨hempty, hwriter, group, List.mem_cons_self, rfl⟩
    · obtain ⟨hne, hlookup, group', hmem, hplain⟩ := ih hrest
      exact ⟨hne, hlookup, group', List.mem_cons_of_mem _ hmem, hplain⟩

/-- Without an error, every group is written. -/
theorem writeGroups_ok (h : (writeGroups writers write groups).2 = none) :
    (writeGroups writers write groups).1.map (fun c => (c.tenantID, c.plain)) =
      groups.map (fun e => (e.1, e.2.map (fun r => r.record))) := by
  fun_induction writeGroups writers write groups with
  | case1 => rfl
  | case2 => cases h
  | case3 => cases h
  | case4 => cases h
  | case5 tenantID group rest hempty writer hwriter plain hwrite next ih =>
    rw [List.map_cons, List.map_cons, ih h]

/-- What the writer of a tenant is handed over a run. -/
def handedTo (tenantID : String) (calls : List (Call ω ρ)) : List ρ :=
  (calls.filter (fun c => decide (c.tenantID = tenantID))).flatMap (fun c => c.plain)

/-- `handedTo` reads the tenants and the records of the calls only. -/
theorem handedTo_eq (tenantID : String) (calls : List (Call ω ρ)) :
    handedTo tenantID calls = ((calls.map (fun c => (c.tenantID, c.plain))).filter
      (fun c => decide (c.1 = tenantID))).flatMap (fun c => c.2) := by
  rw [handedTo, List.filter_map, List.flatMap_map]
  rfl

theorem handedTo_writeGroups (order : groups.Perm (byTenant records).entries)
    (h : (writeGroups writers write groups).2 = none) (tenantID : String) :
    handedTo tenantID (writeGroups writers write groups).1 =
      (taggedWith tenantID records).map (fun r => r.record) := by
  have hkeys : groups.NodupKeys := (List.perm_nodupKeys order).mpr (byTenant records).nodupKeys
  have hlookup : (groups.dlookup tenantID).getD [] = taggedWith tenantID records := by
    rw [List.perm_dlookup tenantID hkeys order]
    change ((byTenant records).lookup tenantID).getD [] = _
    rw [lookup_byTenant]
    split_ifs with hempty
    · rw [hempty]
      rfl
    · rfl
  rw [handedTo_eq, writeGroups_ok h, List.filter_map, List.flatMap_map, ← hlookup,
    ← flatMap_filter_key hkeys, List.map_flatMap]
  rfl

/-- Every call is made of the writer of one tenant, with the records of that tenant; and when
there is no error, every tenant's writer is handed all of them, once and in order. -/
theorem writeBatch_isolates_tenants {records : List (Record ρ)} {calls : List (Call ω ρ)}
    {err : Option (WriteError ε)} (h : WriteBatch writers write records calls err) :
    (∀ c ∈ calls, c.tenantID ≠ "" ∧ writers.lookup c.tenantID = some c.writer ∧
        c.plain = (taggedWith c.tenantID records).map (fun r => r.record)) ∧
      (err = none → ∀ tenantID,
        handedTo tenantID calls = (taggedWith tenantID records).map (fun r => r.record)) := by
  obtain ⟨groups, order⟩ := h
  refine ⟨fun c hc => ?_, fun hok tenantID => handedTo_writeGroups order hok tenantID⟩
  obtain ⟨hne, hwriter, group, hmem, hplain⟩ := mem_writeGroups hc
  rw [group_eq (order.mem_iff.mp hmem)] at hplain
  exact ⟨hne, hwriter, hplain⟩

/-! ### Batches with a record that cannot be written -/

/-- The record is untagged, or no writer is registered for its tenant. -/
def Unwritable (writers : AList (fun _ : String => ω)) (tenantID : String) : Prop :=
  tenantID = "" ∨ writers.lookup tenantID = none

/-- What is in the databases after a run: the records of the calls that did not fail. -/
def written (write : ω → List ρ → Option ε) (calls : List (Call ω ρ)) : List ρ :=
  (calls.filter (fun c => (write c.writer c.plain).isNone)).flatMap (fun c => c.plain)

theorem writeGroups_unwritable {tenantID : String} (h : Unwritable writers tenantID)
    (group : List (Record ρ)) (rest : List (Sigma (fun _ : String => List (Record ρ)))) :
    (writeGroups writers write (⟨tenantID, group⟩ :: rest)).1 = [] ∧
      (writeGroups writers write (⟨tenantID, group⟩ :: rest)).2 ≠ none := by
  rcases h with rfl | hnone
  · simp [writeGroups]
  · by_cases hempty : tenantID = ""
    · simp [writeGroups, hempty]
    · simp [writeGroups, hempty, hnone]

/-- A group that cannot be written is an error, wherever it comes. -/
theorem writeGroups_error (h : ∃ e ∈ groups, Unwritable writers e.1) :
    (writeGroups writers write groups).2 ≠ none := by
  fun_induction writeGroups writers write groups with
  | case1 => simp at h
  | case2 => simp
  | case3 => simp
  | case4 => simp
  | case5 tenantID group rest hempty writer hwriter plain hwrite next ih =>
    apply ih
    obtain ⟨e, he, hbad⟩ := h
    rcases List.mem_cons.mp he with rfl | he
    · rcases hbad with hbad | hbad
      · exact absurd hbad hempty
      · rw [hwriter] at hbad
        cases hbad
    · exact ⟨e, he, hbad⟩

theorem exists_group {r : Record ρ} (h : r ∈ records) :
    ⟨r.tenantID, taggedWith r.tenantID records⟩ ∈ (byTenant records).entries := by
  have hmem : r ∈ taggedWith r.tenantID records := by simpa [taggedWith] using h
  rw [← AList.mem_lookup_iff, lookup_byTenant, if_neg (List.ne_nil_of_mem hmem)]
  rfl

theorem exists_record {e : Sigma (fun _ : String => List (Record ρ))}
    (h : e ∈ (byTenant records).entries) : ∃ r ∈ records, r.tenantID = e.1 := by
  obtain ⟨tenantID, group⟩ := e
  have hlookup := AList.mem_lookup_iff.mpr h
  rw [lookup_byTenant] at hlookup
  split_ifs at hlookup with hempty
  · cases hlookup
  · obtain ⟨r, hr⟩ := List.exists_mem_of_ne_nil _ hempty
    have htagged := List.mem_filter.mp hr
    exact ⟨r, htagged.1, by simpa using htagged.2⟩

/-- A batch with an unwritable record fails in every order of its groups; that nothing of it
has been written then, in any order, takes a batch of such records only. -/
theorem writeBatch_all_or_nothing_iff {records : List (Record ρ)}
    (hbad : ∃ r ∈ records, Unwritable writers r.tenantID) :
    (∀ (write : ω → List ρ → Option ε) (calls : List (Call ω ρ)) (err : Option (WriteError ε)),
      WriteBatch writers write records calls err → err ≠ none ∧ written write calls = []) ↔
    ∀ r ∈ records, Unwritable writers r.tenantID := by
  constructor
  · intro hall r hr
    by_contra hgood
    -- a run that starts with the group of `r`
    obtain ⟨hne, hsome⟩ := not_or.mp hgood
    obtain ⟨writer, hwriter⟩ := Option.ne_none_iff_exists'.mp hsome
    obtain ⟨xs, ys, hentries⟩ := List.append_of_mem (exists_group hr)
    have horder : (⟨r.tenantID, taggedWith r.tenantID records⟩ :: (xs ++ ys)).Perm
        (byTenant records).entries := by
      rw [hentries]
      exact List.perm_middle.symm
    have hnone := (hall (fun _ _ => none) _ _ (.mk _ horder)).2
    have hmem : r ∈ taggedWith r.tenantID records := by simpa [taggedWith] using hr
    have hwritten : r.record ∈ written (fun (_ : ω) (_ : List ρ) => (none : Option ε))
        (writeGroups writers (fun _ _ => (none : Option ε))
          (⟨r.tenantID, taggedWith r.tenantID records⟩ :: (xs ++ ys))).1 := by
      simp only [writeGroups, hne, hwriter, if_false, written]
      exact List.mem_append_left _ (List.mem_map_of_mem hmem)
    rw [hnone] at hwritten
    cases hwritten
  · rintro hall write calls err ⟨groups, horder⟩
    have hgroups : ∀ e ∈ groups, Unwritable writers e.1 := by
      intro e he
      obtain ⟨r, hr, hkey⟩ := exists_record (horder.mem_iff.mp he)
      rw [← hkey]
      exact hall r hr
    obtain ⟨r, hr, -⟩ := hbad
    have hne : groups ≠ [] := List.ne_nil_of_mem (horder.mem_iff.mpr (exists_group hr))
    obtain ⟨e, rest, rfl⟩ := List.exists_cons_of_ne_nil hne
    refine ⟨writeGroups_error ⟨e, List.mem_cons_self, hgroups e List.mem_cons_self⟩, ?_⟩
    rw [(writeGroups_unwritable (hgroups e List.mem_cons_self) e.2 rest).1]
    rfl

end WriteBatch

def mixedBatch : List (Record ℕ) := [⟨"acme", 1⟩, ⟨"globex", 2⟩, ⟨"acme", 3⟩]

def twoWriters : AList (fun _ : String => ℕ) := AList.insert "acme" 10 (AList.insert "globex" 20 ∅)

/-- The map yields Globex first. -/
theorem mixedBatch_isolated :
    WriteBatch twoWriters (fun _ _ => (none : Option Unit)) mixedBatch
        [⟨"globex", 20, [2]⟩, ⟨"acme", 10, [1, 3]⟩] none ∧
      handedTo "acme" [⟨"globex", 20, [2]⟩, ⟨"acme", 10, [1, 3]⟩] = [1, 3] := by
  have h : WriteBatch twoWriters (fun _ _ => (none : Option Unit)) mixedBatch
      [⟨"globex", 20, [2]⟩, ⟨"acme", 10, [1, 3]⟩] none :=
    .mk [⟨"globex", [⟨"globex", 2⟩]⟩, ⟨"acme", [⟨"acme", 1⟩, ⟨"acme", 3⟩]⟩] (.swap _ _ [])
  exact ⟨h, (writeBatch_isolates_tenants h).2 rfl "acme"⟩

theorem untaggedBatch_all_or_nothing :
    Unwritable twoWriters "" ∧
    ∀ (write : ℕ → List ℕ → Option Unit) (calls : List (Call ℕ ℕ)) (err : Option (WriteError Unit)),
      WriteBatch twoWriters write [⟨"", 1⟩, ⟨"initech", 2⟩] calls err →
        err ≠ none ∧ written write calls = [] := by
  refine ⟨.inl rfl, (writeBatch_all_or_nothing_iff ⟨_, List.mem_cons_self, .inl rfl⟩).mpr ?_⟩
  exact List.forall_mem_cons.mpr ⟨.inl rfl, List.forall_mem_singleton.mpr (.inr rfl)⟩

/-- Acme's record is written before the untagged one is met, and written again when the whole
batch is redelivered. -/
theorem redelivery_writes_again :
    (∃ r ∈ ([⟨"acme", 1⟩, ⟨"", 2⟩] : List (Record ℕ)), Unwritable twoWriters r.tenantID) ∧
    WriteBatch twoWriters (fun _ _ => (none : Option Unit)) [⟨"acme", 1⟩, ⟨"", 2⟩]
      [⟨"acme", 10, [1]⟩] (some (.noTenant 1)) ∧
    written (fun _ _ => (none : Option Unit))
      ([⟨"acme", 10, [1]⟩] ++ [⟨"acme", 10, [1]⟩] : List (Call ℕ ℕ)) = [1, 1] := by
  refine ⟨⟨⟨"", 2⟩, by simp, .inl rfl⟩, ?_, rfl⟩
  exact .mk [⟨"acme", [⟨"acme", 1⟩]⟩, ⟨"", [⟨"", 2⟩]⟩] (.swap _ _ [])

end CairnObs.ChWriter
