import CairnObs.QueryPlanTables

/-! What one more stage does to the meaning of a plan, and when that is the stage applied to
the rows the plan has selected so far. -/
namespace CairnObs.QueryLang
open TableOps

variable {V : Type} (E : Engine V)

/-! ### Filters -/

variable {name : String} {fields : List String} {fs : List FilterPredicate} {plan plan' : Plan}
  {agg : Aggregation}

theorem lookup_map_self {names : List String} (v : String → V) (h : name ∈ names) :
    (names.map (fun f => (f, v f))).lookup name = some (v name) := by
  induction names with
  | nil => cases h
  | cons f fs ih =>
    by_cases hf : name = f
    · simp [hf]
    · have hne : (name == f) = false := by simpa using hf
      have hmem : name ∈ fs := (List.mem_cons.mp h).resolve_left hf
      simp [List.lookup_cons, hne, ih hmem]

theorem get_project (h : name ∈ fields) (row : Row V) :
    (project E fields row).get E name = row.get E name := by
  rw [project, Row.get, lookup_map_self (fun f => row.get E f) h]
  rfl

/-- Comparisons only see the fields they name. -/
theorem allHold_of_get {row row' : Row V} (h : ∀ f ∈ fs, row.get E f.field = row'.get E f.field) :
    allHold E fs row = allHold E fs row' := by
  unfold allHold
  rw [Bool.eq_iff_iff, List.all_eq_true, List.all_eq_true]
  apply forall₂_congr
  intro f hf
  rw [h f hf]

theorem allHold_project (h : ∀ f ∈ fs, f.field ∈ fields) (row : Row V) :
    allHold E fs (project E fields row) = allHold E fs row := by
  apply allHold_of_get
  intro f hf
  exact get_project E (h f hf) row

theorem allHold_append (fs gs : List FilterPredicate) (row : Row V) :
    allHold E (fs ++ gs) row = (allHold E fs row && allHold E gs row) := List.all_append

theorem filter_selected (hplan : plan' = { plan with filters := plan.filters ++ fs })
    (table : List (LogRow V)) :
    (plan.selected E table).filter (allHold E fs) = plan'.selected E table := by
  rw [Plan.selected, Plan.selected, hplan, List.filter_filter]
  apply List.filter_congr
  intro row _
  rw [allHold_append, Bool.and_comm]

/-- A group-by field of an aggregated row is that of the group's first row. -/
theorem get_row (h : name ∈ agg.groupBy) (row : Row V) (g : List (Row V)) :
    (agg.row E (row :: g)).get E name = row.get E name := by
  rw [Aggregation.row, Row.get, List.lookup_append,
    lookup_map_self (fun b => (((row :: g).head?.map (fun row => row.get E b)).getD E.missing)) h]
  rfl

theorem allHold_row (h : ∀ f ∈ fs, f.field ∈ agg.groupBy) (row : Row V) (g : List (Row V)) :
    allHold E fs (agg.row E (row :: g)) = allHold E fs row := by
  apply allHold_of_get
  intro f hf
  exact get_row E (h f hf) row g

/-- Rows that agree on the group-by fields agree on comparisons of these. -/
theorem allHold_congr {names : List String} (h : ∀ f ∈ fs, f.field ∈ names) {row row' : Row V}
    (hrow : names.map (row.get E) = names.map (row'.get E)) :
    allHold E fs row = allHold E fs row' := by
  apply allHold_of_get
  intro f hf
  exact List.map_inj_left.mp hrow f.field (h f hf)

theorem filter_rows [DecidableEq V] (h : ∀ f ∈ fs, f.field ∈ agg.groupBy) (rows : List (Row V)) :
    (agg.rows E rows).filter (allHold E fs) = agg.rows E (rows.filter (allHold E fs)) := by
  unfold Aggregation.rows Aggregation.groups
  by_cases hby : agg.groupBy = []
  · -- without group-by fields there is nothing to compare
    have hnil : fs = [] := by
      apply List.eq_nil_iff_forall_not_mem.mpr
      intro f hf
      have := h f hf
      rw [hby] at this
      cases this
    have htrue : (allHold E [] : Row V → Bool) = fun _ => true := rfl
    simp [hby, hnil, htrue]
  · simp only [ne_eq, hby, not_false_eq_true, if_true]
    rw [List.filter_map, groupsBy_filter rows (q := allHold E fs ∘ agg.row E)]
    · intro a b hab
      exact allHold_congr E h hab
    · intro row g
      exact allHold_row E h row g

/-! ### Projections before an aggregation -/

theorem eval_project {f : Aggregate} (h : f.func ≠ .count → f.field ∈ fields) (g : List (Row V)) :
    f.eval E (g.map (project E fields)) = f.eval E g := by
  unfold Aggregate.eval
  by_cases hc : f.func = .count
  · simp [hc]
  · rw [if_neg hc, if_neg hc, List.map_map]
    congr 2
    funext row
    simp only [Function.comp_apply, get_project E (h hc)]

theorem row_project (hby : ∀ b ∈ agg.groupBy, b ∈ fields)
    (hfuncs : ∀ f ∈ agg.funcs, f.func ≠ .count → f.field ∈ fields) (g : List (Row V)) :
    agg.row E (g.map (project E fields)) = agg.row E g := by
  unfold Aggregation.row
  congr 2
  · apply List.map_congr_left
    intro b hb
    cases g with
    | nil => rfl
    | cons row g => simp [get_project E (hby b hb)]
  · apply List.map_congr_left
    intro f hf
    rw [eval_project E (hfuncs f hf)]

/-- Columns that the aggregation does not use may be dropped before it. -/
theorem rows_project [DecidableEq V] (hby : ∀ b ∈ agg.groupBy, b ∈ fields)
    (hfuncs : ∀ f ∈ agg.funcs, f.func ≠ .count → f.field ∈ fields) (rows : List (Row V)) :
    agg.rows E (rows.map (project E fields)) = agg.rows E rows := by
  have hkey : (fun row : Row V => agg.groupBy.map ((project E fields row).get E)) =
      fun row => agg.groupBy.map (row.get E) := by
    funext row
    apply List.map_congr_left
    intro b hb
    exact get_project E (hby b hb) row
  have hgroups : agg.groups E (rows.map (project E fields)) =
      (agg.groups E rows).map (List.map (project E fields)) := by
    unfold Aggregation.groups
    by_cases hg : agg.groupBy = []
    · simp [hg]
    · simp only [ne_eq, hg, not_false_eq_true, if_true]
      rw [groupsBy_map, hkey]
  unfold Aggregation.rows
  rw [hgroups, List.map_map]
  apply List.map_congr_left
  intro g _
  exact row_project E hby hfuncs g

/-! ### Rows with unique cells, and tables without ties -/

/-- The cells of a row without two of one name, by their names. -/
theorem map_lookup {cs : List (String × V)} (h : (cs.map Prod.fst).Nodup) (m : V) :
    (cs.map Prod.fst).map (fun name => (name, (cs.lookup name).getD m)) = cs := by
  induction cs with
  | nil => rfl
  | cons c cs ih =>
    obtain ⟨n, v⟩ := c
    rw [List.map_cons, List.nodup_cons] at h
    have hhead : ((n, v) :: cs).lookup n = some v := by simp
    have htail : (cs.map Prod.fst).map (fun name => (name, (((n, v) :: cs).lookup name).getD m)) =
        (cs.map Prod.fst).map (fun name => (name, (cs.lookup name).getD m)) := by
      apply List.map_congr_left
      intro name hname
      have hne : (name == n) = false := by
        rw [beq_eq_false_iff_ne]
        intro he
        exact h.1 (he ▸ hname)
      rw [List.lookup_cons, hne]
    rw [List.map_cons, List.map_cons, htail, ih h.2, hhead]
    rfl

theorem project_row (h : agg.names.Nodup) (g : List (Row V)) :
    project E agg.names (agg.row E g) = agg.row E g := by
  unfold Aggregation.row
  set cs := agg.groupBy.map (fun b => (b, (g.head?.map (fun row => row.get E b)).getD E.missing)) ++
    agg.funcs.map (fun f => (f.aliasName, f.eval E g)) with hcs
  have hnames : agg.names = cs.map Prod.fst := by
    simp [hcs, Aggregation.names, Function.comp_def]
  rw [hnames] at h ⊢
  exact congrArg Row.cells (map_lookup h E.missing)

/-- Two rows never tie on a field. -/
def NoTies (table : List (LogRow V)) (name : String) : Prop :=
  table.Pairwise (fun r r' => r.field name ≠ r'.field name)

/-- The same of rows as the stages have them. -/
def RowsDiffer (name : String) (rows : List (Row V)) : Prop :=
  rows.Pairwise (fun row row' => row.get E name ≠ row'.get E name)

instance [DecidableEq V] (name : String) (rows : List (Row V)) :
    Decidable (RowsDiffer E name rows) :=
  inferInstanceAs (Decidable (rows.Pairwise _))

theorem Plan.limited_none {α : Type} (h : plan.limit = none) (l : List α) : plan.limited l = l := by
  rw [Plan.limited, h]

theorem Plan.projected_agg (h : plan.aggregation = some agg) (rows : List (Row V)) :
    plan.projected E rows = rows := by
  rw [Plan.projected, if_neg (by simp [h])]

/-! ### Stages on a plan -/

variable [LinearOrder V]

theorem exec_unsorted (hsort : plan.sort = []) (hlimit : plan.limit = none)
    (table : List (LogRow V)) : plan.exec E table = plan.projected E (plan.shaped E table) := by
  rw [Plan.exec, Plan.limited_none hlimit, hsort]
  exact congrArg _ (sortBy_nil _)

/-- The fields that rows still have, and that a filter of the plan finds in the table. -/
def Plan.Keeps (plan : Plan) (name : String) : Prop :=
  match plan.aggregation with
  | some agg => name ∈ agg.groupBy
  | none => plan.fields = [] ∨ name ∈ plan.fields

/-- On aggregated rows a filter goes through to the rows of the table. -/
theorem filter_shaped (hplan : plan' = { plan with filters := plan.filters ++ fs })
    (h : ∀ f ∈ fs, plan.Keeps f.field) (table : List (LogRow V)) :
    (plan.shaped E table).filter (allHold E fs) = plan'.shaped E table := by
  have hagg : plan'.aggregation = plan.aggregation := by rw [hplan]
  unfold Plan.shaped
  rw [hagg, ← filter_selected E hplan]
  cases ha : plan.aggregation with
  | none => rfl
  | some agg =>
    apply filter_rows
    intro f hf
    have := h f hf
    rwa [Plan.Keeps, ha] at this

theorem exec_where (hplan : plan' = { plan with filters := plan.filters ++ fs })
    (hlimit : plan.limit = none) (h : ∀ f ∈ fs, plan.Keeps f.field) (table : List (LogRow V)) :
    (plan.exec E table).filter (allHold E fs) = plan'.exec E table := by
  have hfields : plan'.fields = plan.fields := by rw [hplan]
  have hagg : plan'.aggregation = plan.aggregation := by rw [hplan]
  have hsort : plan'.sort = plan.sort := by rw [hplan]
  have hlimit' : plan'.limit = none := by rw [hplan, hlimit]
  rw [Plan.exec, Plan.exec, Plan.limited_none hlimit, Plan.limited_none hlimit', hsort,
    ← filter_shaped E hplan h, ← filter_sortBy, Plan.projected, Plan.projected, hagg, hfields]
  by_cases hp : plan.aggregation = none ∧ plan.fields ≠ []
  · -- The projection has kept the fields that the filter compares.
    rw [if_pos hp, if_pos hp, List.filter_map]
    congr 1
    apply List.filter_congr
    intro row _
    apply allHold_project
    intro f hf
    have := h f hf
    rw [Plan.Keeps, hp.1] at this
    exact this.resolve_left hp.2
  · rw [if_neg hp, if_neg hp]

theorem exec_stats (hplan : plan' = { plan with aggregation := some agg })
    (hagg : plan.aggregation = none) (hsort : plan.sort = []) (hlimit : plan.limit = none)
    (hused : plan.fields = [] ∨ (∀ b ∈ agg.groupBy, b ∈ plan.fields) ∧
      ∀ f ∈ agg.funcs, f.func ≠ .count → f.field ∈ plan.fields) (table : List (LogRow V)) :
    agg.rows E (plan.exec E table) = plan'.exec E table := by
  have hagg' : plan'.aggregation = some agg := by rw [hplan]
  have hsort' : plan'.sort = [] := by rw [hplan, hsort]
  have hlimit' : plan'.limit = none := by rw [hplan, hlimit]
  have hselected : plan'.selected E table = plan.selected E table := by rw [hplan]; rfl
  have hleft : plan.exec E table = plan.projected E (plan.selected E table) := by
    rw [exec_unsorted E hsort hlimit, Plan.shaped, hagg]
  have hright : plan'.exec E table = agg.rows E (plan.selected E table) := by
    rw [exec_unsorted E hsort' hlimit', Plan.shaped, hagg', Plan.projected_agg E hagg', hselected]
  rw [hleft, hright, Plan.projected]
  split
  · rename_i hp
    obtain ⟨hby, hfuncs⟩ := hused.resolve_left hp.2
    exact rows_project E hby hfuncs _
  · rfl

/-- The fields that rows still have. -/
def Plan.Shows (plan : Plan) (name : String) : Prop :=
  match plan.aggregation with
  | some agg => name ∈ agg.names
  | none => plan.fields = [] ∨ name ∈ plan.fields

/-- Sorting a projection by columns it keeps. -/
theorem sortBy_projected {ks : List SortField} (h : ∀ k ∈ ks, plan.Shows k.field)
    (rows : List (Row V)) :
    sortBy (sortKeys E ks) (plan.projected E rows) =
      plan.projected E (sortBy (sortKeys E ks) rows) := by
  unfold Plan.projected
  split
  · rename_i hp
    have hkeeps : ∀ k ∈ ks, ∀ row ∈ rows,
        (project E plan.fields row).get E k.field = row.get E k.field := by
      intro k hk row _
      have := h k hk
      rw [Plan.Shows, hp.1] at this
      exact get_project E (this.resolve_left hp.2) row
    exact (map_sortBy_keys ks (fun k row => row.get E k.field) (fun k row => row.get E k.field)
      SortField.desc (project E plan.fields) hkeeps).symm
  · rfl

theorem exec_sort {ks : List SortField} (hplan : plan' = { plan with sort := plan.sort ++ ks })
    (hsort : plan.sort = []) (hlimit : plan.limit = none) (h : ∀ k ∈ ks, plan.Shows k.field)
    (table : List (LogRow V)) :
    sortBy (sortKeys E ks) (plan.exec E table) = plan'.exec E table := by
  have hlimit' : plan'.limit = none := by rw [hplan, hlimit]
  have hsort' : plan'.sort = ks := by rw [hplan, hsort]; rfl
  have hshaped : plan'.shaped E table = plan.shaped E table := by rw [hplan]; rfl
  have hprojected (rows : List (Row V)) : plan'.projected E rows = plan.projected E rows := by
    rw [hplan]
    rfl
  rw [exec_unsorted E hsort hlimit, sortBy_projected E h,
    Plan.exec, Plan.limited_none hlimit', hsort', hshaped,
    hprojected]

omit [LinearOrder V] in
theorem rowsDiffer_projected (hagg : plan.aggregation = none) (h : plan.Shows name)
    {rows : List (Row V)} : RowsDiffer E name (plan.projected E rows) ↔ RowsDiffer E name rows := by
  rw [Plan.Shows, hagg] at h
  unfold Plan.projected
  split_ifs with hp
  · have hget (row : Row V) := get_project E (h.resolve_left hp.2) row
    simp only [RowsDiffer, List.pairwise_map, hget]
  · exact Iff.rfl

/-- A sort by the key that leads already changes nothing, on rows without ties. -/
theorem exec_sort_again {k : SortField} {ks ks' : List SortField}
    (hplan : plan' = { plan with sort := plan.sort ++ k :: ks' }) (hagg : plan.aggregation = none)
    (hsort : plan.sort = k :: ks) (h : ∀ k' ∈ k :: ks', plan.Shows k'.field)
    {table : List (LogRow V)} (hties : RowsDiffer E k.field (plan.selected E table)) :
    sortBy (sortKeys E (k :: ks')) (plan.exec E table) = plan'.exec E table := by
  have hsort' : plan'.sort = k :: (ks ++ k :: ks') := by rw [hplan, hsort]; rfl
  have hlimited (l : List (Row V)) : plan'.limited l = plan.limited l := by rw [hplan]; rfl
  have hprojected (rows : List (Row V)) : plan'.projected E rows = plan.projected E rows := by
    rw [hplan]
    rfl
  have hshaped : plan'.shaped E table = plan.selected E table := by
    rw [Plan.shaped, hplan, hagg]
    rfl
  set rows := plan.selected E table
  -- all the lists of keys lead with the same one, and without ties only that counts
  have hfirst (l : List SortField) : sortBy (sortKeys E (k :: l)) rows =
      sortBy (sortKeys E (k :: ks')) rows := sortBy_first _ _ hties
  have hsorted : (plan.limited (sortBy (sortKeys E (k :: ks')) rows)).Pairwise
      (keyLe (sortKeys E (k :: ks'))) := by
    apply List.Pairwise.sublist _ (List.pairwise_insertionSort _ rows)
    unfold Plan.limited
    split
    · exact List.Sublist.refl _
    · exact List.take_sublist _ _
  rw [Plan.exec, Plan.exec, sortBy_projected E h, hsort, hsort', hlimited, hprojected, hshaped,
    Plan.shaped, hagg]
  dsimp only
  rw [hfirst ks, hfirst (ks ++ k :: ks')]
  exact congrArg _ hsorted.insertionSort_eq

theorem exec_fields (hplan : plan' = { plan with fields := plan.fields ++ fields })
    (hne : fields ≠ []) (hagg : plan.aggregation = none) (hfields : plan.fields = [])
    (table : List (LogRow V)) :
    (plan.exec E table).map (project E fields) = plan'.exec E table := by
  have hfields' : plan'.fields = fields := by rw [hplan, hfields]; rfl
  have hagg' : plan'.aggregation = none := by rw [hplan, hagg]
  have hlimited (l : List (Row V)) : plan'.limited l = plan.limited l := by rw [hplan]; rfl
  have hshaped : plan'.shaped E table = plan.shaped E table := by rw [hplan]; rfl
  have hsort : plan'.sort = plan.sort := by rw [hplan]
  rw [Plan.exec, Plan.exec, Plan.projected, Plan.projected, if_neg (by simp [hfields]),
    if_pos ⟨hagg', by rw [hfields']; exact hne⟩, hfields', hlimited, hshaped, hsort]

/-- A list of all the columns of an aggregation is ignored, and rightly so. -/
theorem exec_fields_agg (hplan : plan' = { plan with fields := fields })
    (hagg : plan.aggregation = some agg) (hnodup : agg.names.Nodup) (table : List (LogRow V)) :
    (plan.exec E table).map (project E agg.names) = plan'.exec E table := by
  have hagg' : plan'.aggregation = some agg := by rw [hplan, hagg]
  have hsame : plan'.exec E table = plan.exec E table := by
    rw [Plan.exec, Plan.exec, Plan.projected_agg E hagg', Plan.projected_agg E hagg, hplan]
    rfl
  have hmem : ∀ row ∈ plan.exec E table, row ∈ agg.rows E (plan.selected E table) := by
    intro row hrow
    rw [Plan.exec, Plan.projected_agg E hagg, Plan.shaped, hagg] at hrow
    unfold Plan.limited at hrow
    split at hrow
    · exact mem_sortBy.mp hrow
    · exact mem_sortBy.mp (List.mem_of_mem_take hrow)
  rw [hsame]
  conv_rhs => rw [← List.map_id (plan.exec E table)]
  apply List.map_congr_left
  intro row hrow
  obtain ⟨g, -, rfl⟩ := List.mem_map.mp (hmem row hrow)
  exact project_row E hnodup g

theorem exec_head {n : ℕ} (hplan : plan' = { plan with limit := some ⟨n, false⟩ })
    (h : ∀ l ∈ plan.limit, n ≤ l.n) (table : List (LogRow V)) :
    (plan.exec E table).take n = plan'.exec E table := by
  have hshaped : plan'.shaped E table = plan.shaped E table := by rw [hplan]; rfl
  have hsort : plan'.sort = plan.sort := by rw [hplan]
  have hlimited (l : List (Row V)) : (plan.limited l).take n = plan'.limited l := by
    unfold Plan.limited
    rw [hplan]
    cases hl : plan.limit with
    | none => rfl
    | some limit => rw [List.take_take, Nat.min_eq_left (h limit hl)]
  have hprojected (rows : List (Row V)) :
      (plan.projected E rows).take n = plan'.projected E (rows.take n) := by
    rw [Plan.projected, Plan.projected, hplan]
    dsimp only
    split
    · rw [List.map_take]
    · rfl
  rw [Plan.exec, Plan.exec, hprojected, hlimited, hshaped, hsort]

end CairnObs.QueryLang
