import CairnObs.QueryInjection
import CairnObs.QueryStageSteps

/-! When the statement for a query means what its stages say, read from left to right. -/
namespace CairnObs.QueryLang
open TableOps Fallible

/-! ### Searches of comparisons -/

def Term.predicate? : Term → Option FilterPredicate
  | .comparison field op value => some ⟨field, op, value⟩
  | .timeBound _ _ | .freeText _ => none

def BoolExpr.predicates (e : BoolExpr) : List FilterPredicate :=
  e.joined.filterMap (fun x => x.2.predicate?)

/-- Without free text and time bounds. -/
def BoolExpr.Structured (e : BoolExpr) : Prop := ∀ t ∈ e.terms, t.predicate? ≠ none

variable {e : BoolExpr} {parts parts' : List String} {n : Option ℕ}

theorem BoolExpr.Structured.joined (h : e.Structured) : ∀ x ∈ e.joined, x.2.predicate? ≠ none :=
  fun x hx => h x.2 (List.of_mem_zip hx).2

variable {plan plan' : Plan} {now : ℤ} {ps : List PipeStage}

/-- Comparisons become filters, and none of them follows an `or`. -/
theorem compileTerms_structured {ts : List (Option Conj × Term)}
    (hs : ∀ x ∈ ts, x.2.predicate? ≠ none)
    (h : compileTerms now ts parts plan = .ok (parts', plan')) :
    parts' = parts ∧
      plan' = { plan with filters := plan.filters ++ ts.filterMap (fun x => x.2.predicate?) } ∧
      ∀ x ∈ ts, x.1 ≠ some .or := by
  induction ts generalizing parts plan with
  | nil =>
    cases h
    simp
  | cons x ts ih =>
    obtain ⟨conj, t⟩ := x
    have ht := hs (conj, t) List.mem_cons_self
    cases t with
    | timeBound kind expr => exact absurd rfl ht
    | freeText text => exact absurd rfl ht
    | comparison field op value =>
      obtain ⟨⟨parts₁, plan₁⟩, hx, hts⟩ := bind_eq_ok.mp h
      simp only [compileTerm] at hx
      split at hx
      · cases hx
      · rename_i hconj
        cases hx
        obtain ⟨hparts, hplan, hor⟩ := ih (fun y hy => hs y (List.mem_cons_of_mem _ hy)) hts
        refine ⟨hparts, ?_, ?_⟩
        · rw [hplan]
          simp [Term.predicate?]
        · intro y hy
          rcases List.mem_cons.mp hy with rfl | hy
          · exact hconj
          · exact hor y hy

section Reading
variable {V : Type} (E : Engine V)

theorem holds_predicate {t : Term} {f : FilterPredicate} (h : t.predicate? = some f)
    (row : Row V) : t.holds E row = f.holds E (row.get E f.field) := by
  cases t with
  | comparison field op value =>
    cases h
    rfl
  | timeBound kind expr => cases h
  | freeText text => cases h

theorem holdsJoined_and {ts : List (Conj × Term)} (h : ∀ x ∈ ts, x.1 = .and) (row : Row V)
    (acc : Bool) : holdsJoined E row ts acc = (acc && ts.all (fun x => x.2.holds E row)) := by
  induction ts generalizing acc with
  | nil => simp [holdsJoined]
  | cons x ts ih =>
    obtain ⟨conj, t⟩ := x
    have hconj : conj = .and := h (conj, t) List.mem_cons_self
    subst hconj
    rw [holdsJoined, ih (fun y hy => h y (List.mem_cons_of_mem _ hy)), List.all_cons,
      Bool.and_assoc]

theorem allHold_filterMap {ts : List (Option Conj × Term)} (hs : ∀ x ∈ ts, x.2.predicate? ≠ none)
    (row : Row V) :
    allHold E (ts.filterMap (fun x => x.2.predicate?)) row = ts.all (fun x => x.2.holds E row) := by
  induction ts with
  | nil => rfl
  | cons x ts ih =>
    obtain ⟨f, hf⟩ := Option.ne_none_iff_exists'.mp (hs x List.mem_cons_self)
    have ih := ih (fun y hy => hs y (List.mem_cons_of_mem _ hy))
    simp only [List.filterMap_cons, hf]
    rw [List.all_cons, holds_predicate E hf, ← ih]
    rfl

/-- An accepted search of comparisons asks for all of them. -/
theorem holds_eq_allHold (hs : e.Structured) (hor : ∀ x ∈ e.joined, x.1 ≠ some .or) (row : Row V) :
    e.holds E row = allHold E e.predicates row := by
  rw [BoolExpr.predicates, allHold_filterMap E hs.joined]
  unfold BoolExpr.holds
  cases hterms : e.terms with
  | nil => simp [BoolExpr.joined, hterms]
  | cons t ts =>
    have hjoined : e.joined = (none, t) :: (e.conjs.zip ts).map (fun x => (some x.1, x.2)) := by
      rw [BoolExpr.joined, hterms, List.zip_cons_cons, List.zip_map_left]
      rfl
    have hand : ∀ x ∈ e.conjs.zip ts, x.1 = .and := by
      intro x hx
      have hne : some x.1 ≠ some .or := by
        apply hor (some x.1, x.2)
        rw [hjoined]
        exact List.mem_cons_of_mem _ (List.mem_map_of_mem hx)
      cases hc : x.1 with
      | and => rfl
      | or => exact absurd (congrArg some hc) hne
    dsimp only
    rw [holdsJoined_and E hand, hjoined, List.all_cons, List.all_map]
    rfl

end Reading

/-! ### Which stages are in order -/

/-- The names `compileAggs` gives. -/
def aggNames : List AggCall → List String → List String
  | [], _ => []
  | a :: as, seen => aggAlias seen a :: aggNames as (aggAlias seen a :: seen)

/-- What the stages so far have done. After a `stats` the rows have its by-fields (first
component) and with them the aggregates (second component) as columns. -/
structure SoFar where
  stats : Option (List String × List String)
  sort : List SortField
  fields : List String
  head : Option ℕ
  deriving DecidableEq, Repr

def SoFar.start : SoFar := ⟨none, [], [], none⟩

def SoFar.next (d : SoFar) : PipeStage → SoFar
  | .whereStage _ => d
  | .statsStage aggs by_ => { d with stats := some (by_, by_ ++ aggNames aggs []) }
  | .sortStage ks => { d with sort := d.sort ++ ks }
  | .fieldsStage fields => { d with fields := d.fields ++ fields }
  | .headStage n => { d with head := some (n.getD defaultLimit) }
  | .tailStage _ => d

/-- The rows have this field, with its value in the table. -/
def SoFar.Keeps (d : SoFar) (name : String) : Prop :=
  (∀ s ∈ d.stats, name ∈ s.1) ∧ (d.stats = none → d.fields = [] ∨ name ∈ d.fields)

/-- The rows have this field. -/
def SoFar.Shows (d : SoFar) (name : String) : Prop :=
  (∀ s ∈ d.stats, name ∈ s.2) ∧ (d.stats = none → d.fields = [] ∨ name ∈ d.fields)

/-- A stage fits if what it does can as well be done at the place that its clause has in the
statement: filters before everything else, aggregation, sort, limit, and then the projection. -/
def Fits (d : SoFar) : PipeStage → Prop
  | .whereStage e => d.head = none ∧ ∀ f ∈ e.predicates, d.Keeps f.field
  | .statsStage aggs by_ => d.stats = none ∧ d.sort = [] ∧ d.head = none ∧
      (d.fields = [] ∨ (∀ b ∈ by_, b ∈ d.fields) ∧
        ∀ a ∈ aggs, a.func ≠ .count → a.field ∈ d.fields)
  | .sortStage ks => (∀ k ∈ ks, d.Shows k.field) ∧ (∀ s ∈ d.stats, s.2.Nodup) ∧
      (d.sort = [] ∧ d.head = none ∨
        d.stats = none ∧ d.sort ≠ [] ∧ d.sort.head? = ks.head?)
  | .fieldsStage fields =>
    (d.stats = none → d.fields = []) ∧ ∀ s ∈ d.stats, fields = s.2 ∧ s.2.Nodup
  | .headStage n => ∀ m ∈ d.head, n.getD defaultLimit ≤ m
  | .tailStage _ => False

def InOrder : SoFar → List PipeStage → Prop
  | _, [] => True
  | d, p :: ps => Fits d p ∧ InOrder (d.next p) ps

instance (d : SoFar) (name : String) : Decidable (d.Keeps name) :=
  inferInstanceAs (Decidable (_ ∧ _))

instance (d : SoFar) (name : String) : Decidable (d.Shows name) :=
  inferInstanceAs (Decidable (_ ∧ _))

instance (d : SoFar) (p : PipeStage) : Decidable (Fits d p) :=
  match p with
  | .whereStage e => inferInstanceAs (Decidable (_ ∧ ∀ f ∈ e.predicates, d.Keeps f.field))
  | .statsStage aggs by_ => inferInstanceAs (Decidable (_ ∧ _ ∧ _ ∧
      (_ ∨ (∀ b ∈ by_, b ∈ d.fields) ∧ ∀ a ∈ aggs, a.func ≠ .count → a.field ∈ d.fields)))
  | .sortStage ks =>
    inferInstanceAs (Decidable ((∀ k ∈ ks, d.Shows k.field) ∧ (∀ s ∈ d.stats, s.2.Nodup) ∧ _))
  | .fieldsStage fields =>
    inferInstanceAs (Decidable (_ ∧ ∀ s ∈ d.stats, fields = s.2 ∧ s.2.Nodup))
  | .headStage n => inferInstanceAs (Decidable (∀ m ∈ d.head, n.getD defaultLimit ≤ m))
  | .tailStage _ => inferInstanceAs (Decidable False)

instance decidableInOrder : (d : SoFar) → (ps : List PipeStage) → Decidable (InOrder d ps)
  | _, [] => inferInstanceAs (Decidable True)
  | d, p :: ps =>
    have := decidableInOrder (d.next p) ps
    inferInstanceAs (Decidable (Fits d p ∧ InOrder (d.next p) ps))

/-! ### The plan keeps track of the stages -/

theorem compileAggs_spec {aggs : List AggCall} {seen : List String} {funcs : List Aggregate}
    (h : compileAggs aggs seen = .ok funcs) :
    funcs.map Aggregate.aliasName = aggNames aggs seen ∧ (aggs ≠ [] → funcs ≠ []) ∧
      ∀ f ∈ funcs, ∃ a ∈ aggs, a.func = f.func ∧ a.field = f.field := by
  induction aggs generalizing seen funcs with
  | nil =>
    cases h
    simp [aggNames]
  | cons a as ih =>
    simp only [compileAggs] at h
    split at h
    · cases h
    · obtain ⟨rest, hrest, h⟩ := bind_eq_ok.mp h
      cases h
      obtain ⟨hnames, -, hfuncs⟩ := ih hrest
      refine ⟨by simp [aggNames, hnames], fun _ => List.cons_ne_nil _ _, ?_⟩
      intro f hf
      rcases List.mem_cons.mp hf with rfl | hf
      · exact ⟨a, List.mem_cons_self, rfl, rfl⟩
      · obtain ⟨b, hb, hbf⟩ := hfuncs f hf
        exact ⟨b, List.mem_cons_of_mem _ hb, hbf⟩

structure Tracks (d : SoFar) (plan : Plan) : Prop where
  stats : d.stats = plan.aggregation.map (fun agg => (agg.groupBy, agg.names))
  sort : d.sort = plan.sort
  fields : d.fields = plan.fields
  head : d.head = plan.limit.map Limit.n
  time : plan.timeRange = none
  aggs : ∀ agg ∈ plan.aggregation, agg.funcs ≠ [] ∧ ∀ s ∈ plan.sort, s.field ∈ agg.names

variable {d : SoFar}

theorem Tracks.limit_none (h : Tracks d plan) (hd : d.head = none) : plan.limit = none := by
  rw [h.head] at hd
  simpa using hd

theorem Tracks.agg_none (h : Tracks d plan) (hd : d.stats = none) : plan.aggregation = none := by
  rw [h.stats] at hd
  simpa using hd

theorem Tracks.keeps (h : Tracks d plan) {name : String} (hd : d.Keeps name) : plan.Keeps name := by
  obtain ⟨hsome, hnone⟩ := hd
  rw [h.stats, h.fields] at *
  unfold Plan.Keeps
  cases hagg : plan.aggregation with
  | none => exact hnone (by simp [hagg])
  | some agg => exact hsome (agg.groupBy, agg.names) (by simp [hagg])

theorem Tracks.shows (h : Tracks d plan) {name : String} (hd : d.Shows name) : plan.Shows name := by
  obtain ⟨hsome, hnone⟩ := hd
  rw [h.stats, h.fields] at *
  unfold Plan.Shows
  cases hagg : plan.aggregation with
  | none => exact hnone (by simp [hagg])
  | some agg => exact hsome (agg.groupBy, agg.names) (by simp [hagg])

/-! ### One stage -/

/-- A stage of comparisons, aggregates, sort keys, fields, or a head with a count. -/
def PipeStage.Plain : PipeStage → Prop
  | .whereStage e => e.Structured
  | .statsStage _ _ | .sortStage _ | .fieldsStage _ => True
  | .headStage n => n ≠ none
  | .tailStage _ => False

def PipeStage.sortFields : PipeStage → List SortField
  | .sortStage ks => ks
  | .whereStage _ | .statsStage _ _ | .fieldsStage _ | .headStage _ | .tailStage _ => []

section Stages
variable {V : Type} [LinearOrder V] (E : Engine V)

/-- No two of the rows that a sort gets have the same value of its first field, in the reading
from left to right. -/
def Untied : List PipeStage → List (Row V) → Prop
  | [], _ => True
  | p :: ps, rows => (∀ k ∈ p.sortFields.head?, RowsDiffer E k.field rows) ∧
    match readStage E p rows with
    | .ok rows' => Untied ps rows'
    | .error _ => True

instance decidableUntied :
    (ps : List PipeStage) → (rows : List (Row V)) → Decidable (Untied E ps rows)
  | [], _ => inferInstanceAs (Decidable True)
  | p :: ps, rows =>
    have : Decidable (match readStage E p rows with
        | .ok rows' => Untied E ps rows'
        | .error _ => True) :=
      match readStage E p rows with
      | .ok rows' => decidableUntied ps rows'
      | .error _ => inferInstanceAs (Decidable True)
    inferInstanceAs (Decidable (_ ∧ _))

/-- Before an aggregation the selected rows do not tie on the key that leads. -/
def Settled (plan : Plan) (table : List (LogRow V)) : Prop :=
  plan.aggregation = none → ∀ k ∈ plan.sort.head?, RowsDiffer E k.field (plan.selected E table)

/-- What the plan and the rows become by one stage of the query. -/
structure StageStep (d : SoFar) (p : PipeStage) (plan plan' : Plan) (table : List (LogRow V)) :
    Prop where
  rows : readStage E p (plan.exec E table) = .ok (plan'.exec E table)
  tracks : Tracks (d.next p) plan'
  settled : Settled E plan' table

variable {table : List (LogRow V)}

theorem step_where (ht : Tracks d plan) (hfit : Fits d (.whereStage e)) (hs : e.Structured)
    (hor : ∀ x ∈ e.joined, x.1 ≠ some .or)
    (hplan : plan' = { plan with filters := plan.filters ++ e.predicates })
    (hsettled : Settled E plan table) :
    StageStep E d (.whereStage e) plan plan' table where
  rows := by
    have hholds : e.holds E = allHold E e.predicates := funext (holds_eq_allHold E hs hor)
    rw [readStage, hholds, exec_where E hplan (ht.limit_none hfit.1)]
    intro f hf
    exact ht.keeps (hfit.2 f hf)
  tracks := by
    rw [hplan]
    exact ⟨ht.stats, ht.sort, ht.fields, ht.head, ht.time, ht.aggs⟩
  settled := by
    intro hagg k hk
    rw [RowsDiffer, ← filter_selected E hplan]
    rw [hplan] at hagg hk
    exact (hsettled hagg k hk).filter _

theorem step_stats {aggs : List AggCall} {by_ : List String} {agg : Aggregation}
    (ht : Tracks d plan) (hfit : Fits d (.statsStage aggs by_)) (hne : aggs ≠ [])
    (hagg : compileStats aggs by_ = .ok agg) (hplan : plan' = { plan with aggregation := some agg })
    (table : List (LogRow V)) : StageStep E d (.statsStage aggs by_) plan plan' table := by
  obtain ⟨funcs, hfuncs, heq⟩ := bind_eq_ok.mp hagg
  cases heq
  obtain ⟨hstats, hsort, hhead, hused⟩ := hfit
  obtain ⟨hnames, hfne, horigin⟩ := compileAggs_spec hfuncs
  have hsort' : plan.sort = [] := ht.sort.symm.trans hsort
  refine ⟨?_, ?_, fun hnone => absurd hnone (by simp [hplan])⟩
  · have hrows := exec_stats E hplan (ht.agg_none hstats) hsort' (ht.limit_none hhead) ?_ table
    · simp only [readStage, hagg, ← hrows]
      rfl
    · rw [ht.fields] at hused
      refine hused.imp_right (fun hu => ⟨hu.1, ?_⟩)
      intro f hf hcount
      obtain ⟨a, ha, hfunc, hfield⟩ := horigin f hf
      rw [← hfield]
      exact hu.2 a ha (by rwa [hfunc])
  · rw [hplan]
    refine ⟨?_, ht.sort, ht.fields, ht.head, ht.time, ?_⟩
    · simp [SoFar.next, Aggregation.names, hnames]
    · rintro _ ⟨⟩
      refine ⟨hfne hne, ?_⟩
      rw [hsort']
      exact fun _ hs => absurd hs List.not_mem_nil

theorem step_sort {ks : List SortField} (ht : Tracks d plan) (hfit : Fits d (.sortStage ks))
    (hplan : plan' = { plan with sort := plan.sort ++ ks }) (hsettled : Settled E plan table)
    (hties : ∀ k ∈ ks.head?, RowsDiffer E k.field (plan.exec E table)) :
    StageStep E d (.sortStage ks) plan plan' table := by
  obtain ⟨hshows, -, hplace⟩ := hfit
  have hshows : ∀ k ∈ ks, plan.Shows k.field := fun k hk => ht.shows (hshows k hk)
  have hselected : plan'.selected E table = plan.selected E table := by rw [hplan]; rfl
  refine ⟨?_, ?_, ?_⟩
  · rw [readStage]
    rcases hplace with ⟨hsort, hhead⟩ | ⟨hstats, hsort, hfirst⟩
    · rw [exec_sort E hplan (ht.sort.symm.trans hsort) (ht.limit_none hhead) hshows]
    · obtain ⟨k, ks₀, hk⟩ := List.exists_cons_of_ne_nil hsort
      rw [hk, List.head?_cons] at hfirst
      cases ks with
      | nil => cases hfirst
      | cons k' ks' =>
        cases hfirst
        have hsort' := ht.sort.symm.trans hk
        have hdiffer := hsettled (ht.agg_none hstats) k (by rw [hsort']; rfl)
        rw [exec_sort_again E hplan (ht.agg_none hstats) hsort' hshows hdiffer]
  · rw [hplan]
    refine ⟨ht.stats, ?_, ht.fields, ht.head, ht.time, ?_⟩
    · simp [SoFar.next, ht.sort]
    · intro agg hagg
      refine ⟨(ht.aggs agg hagg).1, ?_⟩
      intro s hs
      rcases List.mem_append.mp hs with hs | hs
      · exact (ht.aggs agg hagg).2 s hs
      · have := hshows s hs
        rwa [Plan.Shows, show plan.aggregation = some agg from hagg] at this
  · -- The first sort gets the selected rows, and a further one leads with the same key.
    intro hagg k hk
    obtain ⟨hagg, hk⟩ : plan.aggregation = none ∧ k ∈ (plan.sort ++ ks).head? := by
      rw [hplan] at hagg hk
      exact ⟨hagg, hk⟩
    rw [hselected]
    rcases hplace with ⟨hsort, hhead⟩ | ⟨-, hsort, -⟩
    · have hsort' : plan.sort = [] := ht.sort.symm.trans hsort
      rw [hsort', List.nil_append] at hk
      have hrows := hties k hk
      rwa [exec_unsorted E hsort' (ht.limit_none hhead), Plan.shaped, hagg,
        rowsDiffer_projected E hagg (hshows k (List.mem_of_mem_head? hk))] at hrows
    · rw [ht.sort] at hsort
      rw [List.head?_append_of_ne_nil _ hsort] at hk
      exact hsettled hagg k hk

theorem step_fields {fields : List String} (ht : Tracks d plan)
    (hfit : Fits d (.fieldsStage fields)) (hne : fields ≠ [])
    (hplan : plan' = { plan with fields := plan.fields ++ fields })
    (hsettled : Settled E plan table) : StageStep E d (.fieldsStage fields) plan plan' table := by
  obtain ⟨hnone, hsome⟩ := hfit
  refine ⟨?_, ?_, by rw [hplan]; exact hsettled⟩
  · rw [readStage]
    cases hagg : plan.aggregation with
    | none =>
      have hd : d.stats = none := by simp [ht.stats, hagg]
      rw [exec_fields E hplan hne hagg (ht.fields.symm.trans (hnone hd))]
    | some agg =>
      obtain ⟨hall, hnodup⟩ := hsome (agg.groupBy, agg.names) (by simp [ht.stats, hagg])
      rw [hall, exec_fields_agg E hplan hagg hnodup]
  · rw [hplan]
    exact ⟨ht.stats, ht.sort, by simp [SoFar.next, ht.fields], ht.head, ht.time, ht.aggs⟩

theorem step_head (ht : Tracks d plan) (hfit : Fits d (.headStage n))
    (hplan : plan' = { plan with limit := some ⟨n.getD defaultLimit, false⟩ })
    (hsettled : Settled E plan table) : StageStep E d (.headStage n) plan plan' table := by
  refine ⟨?_, ?_, by rw [hplan]; exact hsettled⟩
  · rw [readStage, exec_head E hplan]
    intro l hl
    apply hfit l.n
    rw [ht.head, show plan.limit = some l from hl]
    rfl
  · rw [hplan]
    exact ⟨ht.stats, ht.sort, ht.fields, rfl, ht.time, ht.aggs⟩

/-- A stage that fits does to the rows what it does to the meaning of the plan. -/
theorem compileStage_step {p : PipeStage} (ht : Tracks d plan) (hfit : Fits d p) (hplain : p.Plain)
    (hne : p.Nonempty) (hsettled : Settled E plan table)
    (hties : ∀ k ∈ p.sortFields.head?, RowsDiffer E k.field (plan.exec E table))
    (h : compileStage now p parts plan = .ok (parts', plan')) :
    parts' = parts ∧ StageStep E d p plan plan' table := by
  cases p with
  | whereStage e =>
    obtain ⟨⟨more, plan₁⟩, he, h⟩ := bind_eq_ok.mp h
    obtain ⟨hmore, hplan, hor⟩ := compileTerms_structured (BoolExpr.Structured.joined hplain) he
    cases h
    exact ⟨by simp [hmore], step_where E ht hfit hplain hor hplan hsettled⟩
  | statsStage aggs by_ =>
    obtain ⟨agg, hagg, h⟩ := bind_eq_ok.mp h
    cases h
    exact ⟨rfl, step_stats E ht hfit hne hagg rfl table⟩
  | sortStage ks =>
    cases h
    exact ⟨rfl, step_sort E ht hfit rfl hsettled hties⟩
  | fieldsStage fields =>
    cases h
    exact ⟨rfl, step_fields E ht hfit hne rfl hsettled⟩
  | headStage n =>
    cases h
    exact ⟨rfl, step_head E ht hfit rfl hsettled⟩
  | tailStage n => exact absurd hfit id

/-! ### All the stages -/

theorem compileStages_run (ht : Tracks d plan) (horder : InOrder d ps) (hplain : ∀ p ∈ ps, p.Plain)
    (hne : ∀ p ∈ ps, p.Nonempty) (hsettled : Settled E plan table)
    (hties : Untied E ps (plan.exec E table))
    (h : compileStages now ps parts plan = .ok (parts', plan')) :
    parts' = parts ∧ readStages E ps (plan.exec E table) = .ok (plan'.exec E table) ∧
      Tracks (ps.foldl SoFar.next d) plan' := by
  induction ps generalizing d parts plan with
  | nil =>
    cases h
    exact ⟨rfl, rfl, ht⟩
  | cons p ps ih =>
    obtain ⟨⟨parts₁, plan₁⟩, hp, hps⟩ := bind_eq_ok.mp h
    obtain ⟨hfirst, hlater⟩ := hties
    obtain ⟨hparts, hrows, htracks, hsettled'⟩ := compileStage_step E ht horder.1
      (hplain p List.mem_cons_self) (hne p List.mem_cons_self) hsettled hfirst hp
    rw [hrows] at hlater
    obtain ⟨hparts', hrows', htracks'⟩ := ih htracks horder.2
      (fun r hr => hplain r (List.mem_cons_of_mem _ hr))
      (fun r hr => hne r (List.mem_cons_of_mem _ hr)) hsettled' hlater hps
    refine ⟨hparts'.trans hparts, ?_, htracks'⟩
    rw [readStages, hrows]
    exact hrows'

end Stages

theorem foldl_sort (ps : List PipeStage) (d : SoFar) :
    (ps.foldl SoFar.next d).sort = d.sort ++ ps.flatMap PipeStage.sortFields := by
  induction ps generalizing d with
  | nil => simp
  | cons p ps ih =>
    rw [List.foldl_cons, ih]
    cases p <;> simp [SoFar.next, PipeStage.sortFields]

theorem foldl_head_of_isSome (h : d.head ≠ none) : (ps.foldl SoFar.next d).head ≠ none := by
  induction ps generalizing d with
  | nil => exact h
  | cons p ps ih =>
    apply ih
    cases p <;> simp [SoFar.next, h]

theorem foldl_head (h : .headStage n ∈ ps) (d : SoFar) : (ps.foldl SoFar.next d).head ≠ none := by
  induction ps generalizing d with
  | nil => cases h
  | cons p ps ih =>
    rcases List.mem_cons.mp h with rfl | h
    · rw [List.foldl_cons]
      exact foldl_head_of_isSome (by simp [SoFar.next])
    · exact ih h (d.next p)

theorem tracks_start {fs : List FilterPredicate} (h : plan = { emptyPlan with filters := fs }) :
    Tracks SoFar.start plan := by
  rw [h]
  exact ⟨rfl, rfl, rfl, rfl, rfl, nofun⟩

theorem exec_filters {V : Type} [LinearOrder V] (E : Engine V) {fs : List FilterPredicate}
    (h : plan = { emptyPlan with filters := fs }) (table : List (LogRow V)) :
    plan.exec E table = (table.map Row.log).filter (allHold E fs) := by
  rw [h]
  exact sortBy_nil _

/-- No free text and no time bounds, and at least one sort and one head, all with counts. -/
structure Query.Plain (q : Query) : Prop where
  base : q.base.Structured
  pipes : ∀ p ∈ q.pipes, p.Plain
  sort : ∃ ks, .sortStage ks ∈ q.pipes
  head : ∃ n, .headStage n ∈ q.pipes

/-- The run of the stages, started from the search before the first one. -/
theorem compileQuery_run {q : Query} (hplain : q.Plain) (hne : ∀ p ∈ q.pipes, p.Nonempty)
    (hcompile : compileQuery now q = .ok plan) (horder : InOrder SoFar.start q.pipes) {V : Type}
    [LinearOrder V] (E : Engine V) {table : List (LogRow V)}
    (hties : Untied E q.pipes ((table.map Row.log).filter (q.base.holds E))) :
    readQuery E q table = .ok (plan.exec E table) ∧
      Tracks (q.pipes.foldl SoFar.next SoFar.start) plan := by
  obtain ⟨⟨parts₁, plan₁⟩, hbase, h⟩ := bind_eq_ok.mp hcompile
  obtain ⟨⟨parts₂, plan₂⟩, hpipes, h⟩ := bind_eq_ok.mp h
  obtain ⟨hparts₁, hplan₁, hor⟩ := compileTerms_structured hplain.base.joined hbase
  have hholds : q.base.holds E = allHold E q.base.predicates :=
    funext (holds_eq_allHold E hplain.base hor)
  have hstart : plan₁.exec E table = (table.map Row.log).filter (q.base.holds E) := by
    rw [hholds, exec_filters E hplan₁]
    rfl
  have hsettled : Settled E plan₁ table := by
    intro _ k hk
    rw [hplan₁] at hk
    cases hk
  obtain ⟨hparts₂, hrows, htracks⟩ := compileStages_run E (tracks_start hplan₁) horder
    hplain.pipes hne hsettled (hstart ▸ hties) hpipes
  -- Without free text no part is left over for the search service.
  obtain rfl : plan₂ = plan := by
    dsimp only at h
    rw [if_pos (hparts₂.trans hparts₁)] at h
    cases h
    rfl
  exact ⟨by rw [readQuery, ← hstart, hrows], htracks⟩

theorem Tracks.sort_ne_nil (h : Tracks (ps.foldl SoFar.next d) plan) {ks : List SortField}
    (hks : .sortStage ks ∈ ps) (hne : ks ≠ []) : plan.sort ≠ [] := by
  obtain ⟨k, hk⟩ := List.exists_mem_of_ne_nil ks hne
  rw [← h.sort, foldl_sort]
  exact List.ne_nil_of_mem
    (List.mem_append_right _ (List.mem_flatMap.mpr ⟨.sortStage ks, hks, hk⟩))

theorem Tracks.limit_ne_none (h : Tracks (ps.foldl SoFar.next d) plan) (hn : .headStage n ∈ ps) :
    plan.limit ≠ none := by
  intro hnone
  apply foldl_head hn d
  rw [h.head, hnone]
  rfl

/-- If the stages of a query are in order, its statement selects what the query says, read
from left to right: on every table where the rows that a sort gets do not tie on its first field,
and for every interpretation of comparisons, casts and aggregates. -/
theorem in_order_statement_meaning {query : String} {q : Query} {now : ℤ} {plan : Plan}
    (hparse : parse query = .ok q) (hplain : q.Plain) (hcompile : compileQuery now q = .ok plan)
    (horder : InOrder SoFar.start q.pipes) {V : Type} [LinearOrder V] (E : Engine V)
    (table : List (LogRow V))
    (hties : Untied E q.pipes ((table.map Row.log).filter (q.base.holds E))) :
    SqlLexer.tokens (buildSQL plan []).toList = (stmtOf plan []).tokens ∧
      readQuery E q table = .ok ((stmtOf plan []).exec E table) := by
  have hnamed : plan.Named := by
    apply compilePipe_named
    rw [compilePipe, hparse]
    exact hcompile
  refine ⟨tokens_buildSQL hnamed [], ?_⟩
  have hne := (parse_ok_wellFormed hparse).2
  obtain ⟨hread, htracks⟩ := compileQuery_run hplain hne hcompile horder E hties
  obtain ⟨ks, hks⟩ := hplain.sort
  obtain ⟨n, hn⟩ := hplain.head
  have hsort : plan.sort ≠ [] := htracks.sort_ne_nil hks (hne _ hks)
  have hlimit : plan.limit ≠ none := htracks.limit_ne_none hn
  rw [hread, exec_stmtOf E htracks.time hsort hlimit htracks.aggs]

/-! ### Two queries on a table of numbers -/

def Value.nat : Value String → ℕ
  | .literal text => Nat.ofDigitChars 10 text.toList 0
  | .number _ digits => Nat.ofDigitChars 10 digits.toList 0

def Op.apply (op : Op) (m n : ℕ) : Bool :=
  match op with
  | .eq => m == n
  | .neq => m != n
  | .gt => decide (n < m)
  | .gte => decide (n ≤ m)
  | .lt => decide (m < n)
  | .lte => decide (m ≤ n)

/-- Values are natural numbers, and every aggregate but the count is the sum. -/
def natEngine : Engine ℕ where
  compare v op w := op.apply v w.nat
  toFloat v := v
  count n := n
  aggregate _ vs := vs.sum
  missing := 0

/-- A row with these values of `latency` and `status`. -/
def request (latency status : ℕ) : LogRow ℕ where
  column _ := 0
  attr key := if key = "latency" then latency else if key = "status" then status else 0

/-- `status>="200" | sort -latency | where status<"500" | head 2 | fields latency`. -/
def slowest : Query :=
  ⟨⟨[.comparison "status" .gte "200"], []⟩,
    [.sortStage [⟨"latency", true⟩], .whereStage ⟨[.comparison "status" .lt "500"], []⟩,
      .headStage (some 2), .fieldsStage ["latency"]]⟩

/-- `status>="200" | stats count by status | sort -count | head 2`. -/
def commonest : Query :=
  ⟨⟨[.comparison "status" .gte "200"], []⟩,
    [.statsStage [⟨.count, "", ""⟩] ["status"], .sortStage [⟨"count", true⟩], .headStage (some 2)]⟩

theorem in_order_statement_meaning_slowest :
    (∃ plan, compileQuery 0 slowest = .ok plan ∧
      readQuery natEngine slowest [request 3 200, request 9 500, request 7 404, request 5 301] =
        .ok ((stmtOf plan []).exec natEngine
          [request 3 200, request 9 500, request 7 404, request 5 301]) ∧
      (stmtOf plan []).exec natEngine
          [request 3 200, request 9 500, request 7 404, request 5 301] =
        [.cells [("latency", 7)], .cells [("latency", 5)]]) ∧
    ∃ plan, compileQuery 0 commonest = .ok plan ∧
      readQuery natEngine commonest [request 3 200, request 9 500, request 7 200] =
        .ok ((stmtOf plan []).exec natEngine [request 3 200, request 9 500, request 7 200]) ∧
      (stmtOf plan []).exec natEngine [request 3 200, request 9 500, request 7 200] =
        [.cells [("status", 200), ("count", 2)], .cells [("status", 500), ("count", 1)]] := by
  have hslowest : parse (render slowest) = .ok slowest :=
    parse_render_of_wellFormed (by decide) (by decide)
  have hcommonest : parse (render commonest) = .ok commonest :=
    parse_render_of_wellFormed (by decide) (by decide)
  have hplain : slowest.Plain :=
    ⟨by simp [slowest, BoolExpr.Structured, Term.predicate?],
      by simp [slowest, PipeStage.Plain, BoolExpr.Structured, Term.predicate?],
      ⟨_, List.mem_cons_self⟩, ⟨some 2, by simp [slowest]⟩⟩
  have hplain' : commonest.Plain :=
    ⟨by simp [commonest, BoolExpr.Structured, Term.predicate?],
      by simp [commonest, PipeStage.Plain],
      ⟨_, List.mem_cons_of_mem _ List.mem_cons_self⟩, ⟨some 2, by simp [commonest]⟩⟩
  have hcompile : compileQuery 0 slowest = .ok _ := rfl
  have hcompile' : compileQuery 0 commonest = .ok _ := rfl
  have hmeaning := in_order_statement_meaning hslowest hplain hcompile (by decide) natEngine
    [request 3 200, request 9 500, request 7 404, request 5 301] (by decide)
  have hmeaning' := in_order_statement_meaning hcommonest hplain' hcompile' (by decide) natEngine
    [request 3 200, request 9 500, request 7 200] (by decide)
  exact ⟨⟨_, hcompile, hmeaning.2, rfl⟩, _, hcompile', hmeaning'.2, rfl⟩

/-- `sort -latency | head 1 | where status>="500"`: the slowest request, if it failed. -/
def slowestFailed : Query :=
  ⟨BoolExpr.empty,
    [.sortStage [⟨"latency", true⟩], .headStage (some 1),
      .whereStage ⟨[.comparison "status" .gte "500"], []⟩]⟩

/-- The statement takes the slowest of the failed requests instead. -/
theorem head_before_where_reordered :
    parse (render slowestFailed) = .ok slowestFailed ∧ slowestFailed.Plain ∧
      (∀ p ∈ slowestFailed.pipes, ∀ k ∈ p.sortFields,
        NoTies [request 2 200, request 1 500] k.field) ∧
      ∃ plan, compileQuery 0 slowestFailed = .ok plan ∧
        readQuery natEngine slowestFailed [request 2 200, request 1 500] = .ok [] ∧
        (stmtOf plan []).exec natEngine [request 2 200, request 1 500] =
          [.log (request 1 500)] := by
  have hparse : parse (render slowestFailed) = .ok slowestFailed :=
    parse_render_of_wellFormed (by decide) (by decide)
  have hplain : slowestFailed.Plain :=
    ⟨by simp [slowestFailed, BoolExpr.Structured, BoolExpr.empty],
      by simp [slowestFailed, PipeStage.Plain, BoolExpr.Structured, Term.predicate?],
      ⟨_, List.mem_cons_self⟩, ⟨some 1, by simp [slowestFailed]⟩⟩
  refine ⟨hparse, hplain, ?_, _, rfl, rfl, rfl⟩
  simp [slowestFailed, PipeStage.sortFields, NoTies, request, LogRow.field, isTopLevel,
    topLevelFields]

end CairnObs.QueryLang
