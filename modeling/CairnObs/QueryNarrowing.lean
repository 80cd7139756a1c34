import CairnObs.QuerySql
import CairnObs.QueryOr

/-! What the WHERE clause of a query asks of a row, and when it asks for every term of the
query. Comparisons go into a list, but time bounds into two slots of the plan. -/
namespace CairnObs.QueryLang
open Fallible

/-! ### The clause -/

inductive Condition
  | comparison (f : FilterPredicate)
  | earliest (t : ℤ)
  | latest (t : ℤ)
  deriving DecidableEq, Repr

def Condition.text : Condition → String
  | .comparison f => buildComparisonSQL f
  | .earliest t => "`timestamp` >= " ++ quoteLiteral (formatClickHouseDateTime64 t)
  | .latest t => "`timestamp` <= " ++ quoteLiteral (formatClickHouseDateTime64 t)

/-- A bound that `IsZero` is left out. -/
def TimeRange.conditions (r : TimeRange) : List Condition :=
  (if r.from_ = zeroTime then [] else [.earliest r.from_]) ++
    (if r.to_ = zeroTime then [] else [.latest r.to_])

def Plan.conditions (plan : Plan) : List Condition :=
  plan.filters.map .comparison ++ (plan.timeRange.map TimeRange.conditions).getD []

/-- The clause without a record-id filter is its conditions, joined by AND. -/
theorem buildWhereClause_conditions (plan : Plan) :
    buildWhereClause plan [] =
      String.intercalate " AND " (plan.conditions.map Condition.text) := by
  have hbounds : ∀ r : TimeRange, boundConds r = r.conditions.map Condition.text := by
    intro r
    unfold boundConds TimeRange.conditions
    rw [List.map_append]
    congr 1
    · split_ifs <;> rfl
    · split_ifs <;> rfl
  have hconds : whereConds plan [] = plan.conditions.map Condition.text := by
    unfold whereConds Plan.conditions
    rw [if_neg (not_not.mpr rfl), List.nil_append, List.map_append, List.map_map]
    congr 1
    cases plan.timeRange with
    | none => rfl
    | some r => exact hbounds r
  rw [buildWhereClause, hconds]

section Reading
-- `holds` is how one comparison is read, `timestamp` is the row's own column.
variable {R : Type} (holds : FilterPredicate → R → Prop) (timestamp : R → ℤ)

def Condition.Holds (row : R) : Condition → Prop
  | .comparison f => holds f row
  | .earliest t => t ≤ timestamp row
  | .latest t => timestamp row ≤ t

def Plan.Admits (plan : Plan) (row : R) : Prop :=
  ∀ c ∈ plan.conditions, c.Holds holds timestamp row

/-- A bound by the instant it resolves to. Free text is no part of the clause. -/
def Term.Asks (now : ℤ) (row : R) : Term → Prop
  | .comparison field op value => holds ⟨field, op, value⟩ row
  | .timeBound .earliest expr => ∀ t, resolveTimeExpr now expr = .ok t → t ≤ timestamp row
  | .timeBound .latest expr => ∀ t, resolveTimeExpr now expr = .ok t → timestamp row ≤ t
  | .freeText _ => True

end Reading

/-! ### The terms of a query -/

def PipeStage.terms : PipeStage → List Term
  | .whereStage e => e.terms
  | .statsStage _ _ | .sortStage _ | .fieldsStage _ | .headStage _ | .tailStage _ => []

/-- The terms of the base search and of the `where` stages, in their order. -/
def Query.terms (q : Query) : List Term := q.base.terms ++ q.pipes.flatMap PipeStage.terms

def Term.predicate : Term → List FilterPredicate
  | .comparison field op value => [⟨field, op, value⟩]
  | .timeBound _ _ | .freeText _ => []

/-- The instant of a bound of the given kind. -/
def Term.bound (now : ℤ) (kind : BoundKind) : Term → List ℤ
  | .timeBound kind' expr => if kind' = kind then (resolveTimeExpr now expr).toOption.toList else []
  | .comparison _ _ _ | .freeText _ => []

def boundsOf (now : ℤ) (kind : BoundKind) (ts : List Term) : List ℤ :=
  ts.flatMap (Term.bound now kind)

/-- A slot after the bounds `ts` have been written into it. -/
def lastOr (t : ℤ) (ts : List ℤ) : ℤ := ts.getLast?.getD t

def Plan.slot (plan : Plan) : BoundKind → ℤ
  | .earliest => (plan.timeRange.getD ⟨zeroTime, zeroTime⟩).from_
  | .latest => (plan.timeRange.getD ⟨zeroTime, zeroTime⟩).to_

theorem lastOr_append (t : ℤ) (xs ys : List ℤ) : lastOr t (xs ++ ys) = lastOr (lastOr t xs) ys := by
  simp only [lastOr, List.getLast?_append]
  cases ys.getLast? <;> rfl

/-- What a list of terms has done to the plan: comparisons are collected, bounds overwrite. -/
structure Collected (now : ℤ) (ts : List Term) (plan plan' : Plan) : Prop where
  filters : plan'.filters = plan.filters ++ ts.flatMap Term.predicate
  slots : ∀ kind, plan'.slot kind = lastOr (plan.slot kind) (boundsOf now kind ts)

theorem Collected.nil (now : ℤ) (plan : Plan) : Collected now [] plan plan :=
  ⟨by simp, fun kind => rfl⟩

variable {ts : List Term} {plan plan' : Plan} {now : ℤ} {parts parts' : List String} {q : Query}

theorem Collected.append {us : List Term} {plan₁ plan₂ : Plan} (h₁ : Collected now ts plan plan₁)
    (h₂ : Collected now us plan₁ plan₂) :
    Collected now (ts ++ us) plan plan₂ where
  filters := by rw [h₂.filters, h₁.filters, List.flatMap_append, List.append_assoc]
  slots := by
    intro kind
    rw [h₂.slots, h₁.slots, boundsOf, boundsOf, boundsOf, List.flatMap_append, lastOr_append]

theorem compileTerm_collected {conj : Option Conj} {t : Term}
    (h : compileTerm now conj t parts plan = .ok (parts', plan')) :
    Collected now [t] plan plan' := by
  cases t with
  | freeText query =>
    cases h
    exact ⟨by simp [Term.predicate], fun kind => rfl⟩
  | comparison field op value =>
    simp only [compileTerm] at h
    split at h <;> cases h
    exact ⟨by simp [Term.predicate], fun kind => by cases kind <;> rfl⟩
  | timeBound kind expr =>
    simp only [compileTerm] at h
    split at h
    · cases h
    · obtain ⟨plan₁, happly, h⟩ := bind_eq_ok.mp h
      obtain ⟨t, ht, hset⟩ := bind_eq_ok.mp happly
      cases hset
      cases h
      refine ⟨by simp [Term.predicate], ?_⟩
      intro kind'
      have htime : (resolveTimeExpr now expr).toOption = some t := by rw [ht]; rfl
      cases kind <;> cases kind' <;>
        simp [boundsOf, Term.bound, lastOr, htime, Plan.slot, setBound]

theorem compileTerms_collected {ts : List (Option Conj × Term)}
    (h : compileTerms now ts parts plan = .ok (parts', plan')) :
    Collected now (ts.map Prod.snd) plan plan' := by
  induction ts generalizing parts plan with
  | nil =>
    cases h
    exact .nil now _
  | cons x ts ih =>
    obtain ⟨⟨parts₁, plan₁⟩, hx, hts⟩ := bind_eq_ok.mp h
    exact (compileTerm_collected hx).append (ih hts)

/-- The loop reads every term if there is a conjunction for each gap. -/
theorem BoolExpr.map_snd_joined {e : BoolExpr} (h : e.terms.length ≤ e.conjs.length+1) :
    e.joined.map Prod.snd = e.terms := by
  apply List.map_snd_zip
  simpa using h

theorem compileBoolExpr_collected {e : BoolExpr} (he : e.terms.length ≤ e.conjs.length+1)
    (h : compileBoolExpr now e plan = .ok (parts, plan')) : Collected now e.terms plan plan' := by
  rw [← BoolExpr.map_snd_joined he]
  exact compileTerms_collected h

theorem compileStage_collected {p : PipeStage} (hp : p.WellFormed)
    (h : compileStage now p parts plan = .ok (parts', plan')) :
    Collected now p.terms plan plan' := by
  cases p with
  | whereStage e =>
    obtain ⟨⟨more, plan₁⟩, he, h⟩ := bind_eq_ok.mp h
    cases h
    exact compileBoolExpr_collected hp.conjs.le he
  | statsStage aggs by_ =>
    obtain ⟨agg, -, h⟩ := bind_eq_ok.mp h
    cases h
    exact ⟨by simp [PipeStage.terms], fun kind => by cases kind <;> rfl⟩
  | sortStage fields | fieldsStage fields | headStage n | tailStage n =>
    cases h
    exact ⟨by simp [PipeStage.terms], fun kind => by cases kind <;> rfl⟩

theorem compileStages_collected {ps : List PipeStage} (hps : ∀ p ∈ ps, p.WellFormed)
    (h : compileStages now ps parts plan = .ok (parts', plan')) :
    Collected now (ps.flatMap PipeStage.terms) plan plan' := by
  induction ps generalizing parts plan with
  | nil =>
    cases h
    exact .nil now _
  | cons p ps ih =>
    obtain ⟨⟨parts₁, plan₁⟩, hp, hps'⟩ := bind_eq_ok.mp h
    have hhead := compileStage_collected (hps p List.mem_cons_self) hp
    exact hhead.append (ih (fun p' hp' => hps p' (List.mem_cons_of_mem _ hp')) hps')

theorem Query.WellFormed.base_length (hq : q.WellFormed) :
    q.base.terms.length ≤ q.base.conjs.length+1 := by
  rcases hq.base with hbase | ⟨hbase, -⟩
  · exact hbase.conjs.le
  · simp [hbase, BoolExpr.empty]

theorem compileQuery_collected (hq : q.WellFormed) (h : compileQuery now q = .ok plan) :
    Collected now q.terms emptyPlan plan := by
  obtain ⟨⟨parts, plan₁⟩, hb, h⟩ := bind_eq_ok.mp h
  obtain ⟨⟨parts', plan₂⟩, hps, h⟩ := bind_eq_ok.mp h
  have hall :=
    (compileBoolExpr_collected hq.base_length hb).append (compileStages_collected hq.pipes hps)
  -- the text search is set at the end and is no part of the clause
  dsimp only at h
  split at h <;> cases h
  · exact hall
  · exact ⟨hall.filters, fun kind => hall.slots kind⟩

/-! ### Rows -/

section Rows
variable {R : Type} (holds : FilterPredicate → R → Prop) (timestamp : R → ℤ)

theorem forall_predicate {row : R} :
    (∀ f ∈ ts.flatMap Term.predicate, holds f row) ↔
      ∀ field op value, Term.comparison field op value ∈ ts → holds ⟨field, op, value⟩ row := by
  constructor
  · intro h field op value hmem
    exact h _ (List.mem_flatMap.mpr ⟨_, hmem, List.mem_singleton_self _⟩)
  · intro h f hf
    obtain ⟨t, ht, hf⟩ := List.mem_flatMap.mp hf
    cases t with
    | comparison field op value =>
      cases List.mem_singleton.mp hf
      exact h field op value ht
    | timeBound kind expr => cases hf
    | freeText query => cases hf

theorem mem_boundsOf {kind : BoundKind} {t : ℤ} :
    t ∈ boundsOf now kind ts ↔
      ∃ expr, Term.timeBound kind expr ∈ ts ∧ resolveTimeExpr now expr = .ok t := by
  have hresolved : ∀ expr, t ∈ (resolveTimeExpr now expr).toOption.toList ↔
      resolveTimeExpr now expr = .ok t := by
    intro expr
    cases resolveTimeExpr now expr <;> simp [Except.toOption, eq_comm]
  constructor
  · intro h
    obtain ⟨x, hx, hb⟩ := List.mem_flatMap.mp h
    cases x with
    | timeBound kind' expr =>
      simp only [Term.bound] at hb
      split at hb
      · rename_i hkind
        subst hkind
        exact ⟨expr, hx, (hresolved expr).mp hb⟩
      · cases hb
    | comparison field op value => cases hb
    | freeText query => cases hb
  · rintro ⟨expr, hmem, ht⟩
    refine List.mem_flatMap.mpr ⟨_, hmem, ?_⟩
    rw [Term.bound, if_pos rfl]
    exact (hresolved expr).mpr ht

/-- A row satisfies every term exactly if it satisfies the comparisons and lies between all
the bounds. -/
theorem forall_asks {row : R} :
    (∀ t ∈ ts, t.Asks holds timestamp now row) ↔
      (∀ f ∈ ts.flatMap Term.predicate, holds f row) ∧
        (∀ t ∈ boundsOf now .earliest ts, t ≤ timestamp row) ∧
        ∀ t ∈ boundsOf now .latest ts, timestamp row ≤ t := by
  rw [forall_predicate]
  constructor
  · intro h
    refine ⟨fun field op value hmem => h _ hmem, ?_, ?_⟩
    · intro t ht
      obtain ⟨expr, hmem, hres⟩ := mem_boundsOf.mp ht
      exact h _ hmem t hres
    · intro t ht
      obtain ⟨expr, hmem, hres⟩ := mem_boundsOf.mp ht
      exact h _ hmem t hres
  · rintro ⟨hcomp, hearliest, hlatest⟩ t ht
    cases t with
    | comparison field op value => exact hcomp field op value ht
    | freeText query => trivial
    | timeBound kind expr =>
      cases kind with
      | earliest => exact fun u hu => hearliest u (mem_boundsOf.mpr ⟨expr, ht, hu⟩)
      | latest => exact fun u hu => hlatest u (mem_boundsOf.mpr ⟨expr, ht, hu⟩)

theorem admits_iff {row : R} :
    plan.Admits holds timestamp row ↔
      (∀ f ∈ plan.filters, holds f row) ∧
        (plan.slot .earliest ≠ zeroTime → plan.slot .earliest ≤ timestamp row) ∧
        (plan.slot .latest ≠ zeroTime → timestamp row ≤ plan.slot .latest) := by
  unfold Plan.Admits Plan.conditions Plan.slot
  cases plan.timeRange with
  | none => simp [Condition.Holds]
  | some r =>
    by_cases hf : r.from_ = zeroTime <;> by_cases ht : r.to_ = zeroTime <;>
      simp [TimeRange.conditions, hf, ht, Condition.Holds, or_imp, forall_and]

end Rows

/-! ### The two slots -/

theorem lastOr_of_mem {z t : ℤ} {ts : List ℤ} (h : t ∈ ts.getLast?) : lastOr z ts = t := by
  rw [lastOr, Option.mem_def.mp h]
  rfl

theorem lastOr_mem {z : ℤ} {ts : List ℤ} (h : lastOr z ts ≠ z) : lastOr z ts ∈ ts.getLast? := by
  unfold lastOr at h ⊢
  cases hlast : ts.getLast? with
  | none => exact absurd (by rw [hlast]; rfl) h
  | some t => rfl

/-- The last bounds of both kinds are set, and no instant lies between them. -/
def Crossed (z : ℤ) (es ls : List ℤ) : Prop :=
  ∃ f ∈ es.getLast?, ∃ l ∈ ls.getLast?, f ≠ z ∧ l ≠ z ∧ l < f

/-- The last bound of each kind is set, and as tight as those before it. -/
structure Tightest (z : ℤ) (es ls : List ℤ) : Prop where
  earliest : ∀ f ∈ es.getLast?, f ≠ z ∧ ∀ t ∈ es, t ≤ f
  latest : ∀ l ∈ ls.getLast?, l ≠ z ∧ ∀ t ∈ ls, l ≤ t

section Slots
variable {z : ℤ} {es ls : List ℤ}

/-- The instants that the two slots let through; `z` stands for an empty slot. -/
def SlotsAdmit (z : ℤ) (es ls : List ℤ) (x : ℤ) : Prop :=
  (lastOr z es ≠ z → lastOr z es ≤ x) ∧ (lastOr z ls ≠ z → x ≤ lastOr z ls)

theorem slotsAdmit_of_all {x : ℤ} (hes : ∀ t ∈ es, t ≤ x) (hls : ∀ t ∈ ls, x ≤ t) :
    SlotsAdmit z es ls x :=
  ⟨fun h => hes _ (List.mem_of_getLast? (lastOr_mem h)),
    fun h => hls _ (List.mem_of_getLast? (lastOr_mem h))⟩

theorem Tightest.all_of_slotsAdmit (h : Tightest z es ls) {x : ℤ} (hx : SlotsAdmit z es ls x) :
    (∀ t ∈ es, t ≤ x) ∧ ∀ t ∈ ls, x ≤ t := by
  constructor
  · intro t ht
    obtain ⟨f, hf⟩ := Option.isSome_iff_exists.mp (List.getLast?_isSome.mpr (List.ne_nil_of_mem ht))
    obtain ⟨hne, hall⟩ := h.earliest f hf
    have hfx := hx.1
    rw [lastOr_of_mem hf] at hfx
    exact (hall t ht).trans (hfx hne)
  · intro t ht
    obtain ⟨l, hl⟩ := Option.isSome_iff_exists.mp (List.getLast?_isSome.mpr (List.ne_nil_of_mem ht))
    obtain ⟨hne, hall⟩ := h.latest l hl
    have hxl := hx.2
    rw [lastOr_of_mem hl] at hxl
    exact (hxl hne).trans (hall t ht)

theorem Crossed.not_slotsAdmit (h : Crossed z es ls) (x : ℤ) : ¬ SlotsAdmit z es ls x := by
  obtain ⟨f, hf, l, hl, hfz, hlz, hlt⟩ := h
  rintro ⟨hfx, hxl⟩
  rw [lastOr_of_mem hf] at hfx
  rw [lastOr_of_mem hl] at hxl
  exact absurd ((hfx hfz).trans (hxl hlz)) (not_le.mpr hlt)

/-- If the slots say what all bounds say, each last bound decides alone, at itself and, if it
is lost, at instants beyond it. -/
theorem tightest_of_exact (hexact : ∀ x, SlotsAdmit z es ls x → (∀ t ∈ es, t ≤ x) ∧ ∀ t ∈ ls, x ≤ t)
    (hcross : ¬ Crossed z es ls) : Tightest z es ls := by
  constructor
  · intro f hf
    have hslot : lastOr z es = f := lastOr_of_mem hf
    have hmem : f ∈ es := List.mem_of_getLast? hf
    have hne : f ≠ z := by
      rintro rfl
      have hx : SlotsAdmit f es ls (min (f-1) (lastOr f ls)) :=
        ⟨fun h => absurd hslot h, fun _ => min_le_right _ _⟩
      have := (hexact _ hx).1 f hmem
      omega
    refine ⟨hne, (hexact f ⟨fun _ => hslot.le, fun hl => ?_⟩).1⟩
    by_contra hlt
    exact hcross ⟨f, hf, _, lastOr_mem hl, hne, hl, not_le.mp hlt⟩
  · intro l hl
    have hslot : lastOr z ls = l := lastOr_of_mem hl
    have hmem : l ∈ ls := List.mem_of_getLast? hl
    have hne : l ≠ z := by
      rintro rfl
      have hx : SlotsAdmit l es ls (max (l+1) (lastOr l es)) :=
        ⟨fun _ => le_max_right _ _, fun h => absurd hslot h⟩
      have := (hexact _ hx).2 l hmem
      omega
    refine ⟨hne, (hexact l ⟨fun hf => ?_, fun _ => hslot.ge⟩).2⟩
    by_contra hlt
    exact hcross ⟨_, lastOr_mem hf, l, hl, hf, hne, not_le.mp hlt⟩

end Slots

/-! ### Queries -/

/-- The clause of a query's plan in terms of the query. -/
theorem admits_compiled (hq : q.WellFormed) (h : compileQuery now q = .ok plan) {R : Type}
    (holds : FilterPredicate → R → Prop) (timestamp : R → ℤ) (row : R) :
    plan.Admits holds timestamp row ↔ (∀ f ∈ q.terms.flatMap Term.predicate, holds f row) ∧
      SlotsAdmit zeroTime (boundsOf now .earliest q.terms) (boundsOf now .latest q.terms)
        (timestamp row) := by
  have hc := compileQuery_collected hq h
  have hfilters : plan.filters = q.terms.flatMap Term.predicate := hc.filters
  have hfrom : plan.slot .earliest = lastOr zeroTime _ := hc.slots .earliest
  have hto : plan.slot .latest = lastOr zeroTime _ := hc.slots .latest
  rw [admits_iff, hfilters, hfrom, hto]
  rfl

/-- A row with all the terms is never kept out. -/
theorem admits_of_asks (hq : q.WellFormed) (h : compileQuery now q = .ok plan) {R : Type}
    {holds : FilterPredicate → R → Prop} {timestamp : R → ℤ} {row : R}
    (hrow : ∀ t ∈ q.terms, t.Asks holds timestamp now row) : plan.Admits holds timestamp row := by
  obtain ⟨hcomp, hes, hls⟩ := (forall_asks holds timestamp).mp hrow
  exact (admits_compiled hq h holds timestamp row).mpr ⟨hcomp, slotsAdmit_of_all hes hls⟩

/-- The clause asks for every term of the query, however comparisons are read, exactly if the
last bound of each kind is the tightest one and not the zero time, or the last two bounds
contradict each other. -/
theorem clause_asks_every_term_iff {now : ℤ} {q : Query} (hq : q.WellFormed) {plan : Plan}
    (h : compileQuery now q = .ok plan) :
    buildWhereClause plan [] = String.intercalate " AND " (plan.conditions.map Condition.text) ∧
    ((∀ (R : Type) (holds : FilterPredicate → R → Prop) (timestamp : R → ℤ) (row : R),
      plan.Admits holds timestamp row ↔ ∀ t ∈ q.terms, t.Asks holds timestamp now row) ↔
    Tightest zeroTime (boundsOf now .earliest q.terms) (boundsOf now .latest q.terms) ∨
      Crossed zeroTime (boundsOf now .earliest q.terms) (boundsOf now .latest q.terms)) := by
  refine ⟨buildWhereClause_conditions plan, ?_⟩
  constructor
  · intro hexact
    by_cases hcross :
      Crossed zeroTime (boundsOf now .earliest q.terms) (boundsOf now .latest q.terms)
    · exact .inr hcross
    · refine .inl (tightest_of_exact (fun x hx => ?_) hcross)
      -- a row that satisfies every comparison
      have hrow := (hexact ℤ (fun _ _ => True) id x).mp
        ((admits_compiled hq h _ _ _).mpr ⟨fun _ _ => trivial, hx⟩)
      exact ((forall_asks _ _).mp hrow).2
  · intro hbounds R holds timestamp row
    refine ⟨fun hadmits => ?_, admits_of_asks hq h⟩
    obtain ⟨hcomp, hslots⟩ := (admits_compiled hq h holds timestamp row).mp hadmits
    rcases hbounds with htight | hcross
    · exact (forall_asks holds timestamp).mpr ⟨hcomp, htight.all_of_slotsAdmit hslots⟩
    · exact absurd hslots (hcross.not_slotsAdmit _)

/-- More terms let no new row in if the clause of the longer query asks for all of its terms. -/
theorem admits_of_more_terms {now : ℤ} {q q' : Query} (hq : q.WellFormed) (hq' : q'.WellFormed)
    {plan plan' : Plan} (h : compileQuery now q = .ok plan) (h' : compileQuery now q' = .ok plan')
    (hterms : q.terms ⊆ q'.terms)
    (htight : Tightest zeroTime (boundsOf now .earliest q'.terms) (boundsOf now .latest q'.terms))
    {R : Type} {holds : FilterPredicate → R → Prop} {timestamp : R → ℤ} {row : R}
    (hrow : plan'.Admits holds timestamp row) : plan.Admits holds timestamp row := by
  obtain ⟨hcomp, hslots⟩ := (admits_compiled hq' h' holds timestamp row).mp hrow
  have hasks := (forall_asks holds timestamp).mpr ⟨hcomp, htight.all_of_slotsAdmit hslots⟩
  exact admits_of_asks hq h (fun t ht => hasks t (hterms ht))

/-- The query `earliest=-mh | where earliest=-nh`. -/
def twoBounds (m n : ℕ) : Query :=
  ⟨⟨[.timeBound .earliest (.relative .minus m .h)], []⟩,
    [.whereStage ⟨[.timeBound .earliest (.relative .minus n .h)], []⟩]⟩

/-- The base search alone. -/
def oneBound (m : ℕ) : Query := ⟨⟨[.timeBound .earliest (.relative .minus m .h)], []⟩, []⟩

theorem admits_of_more_terms_narrower :
    ∃ plan plan', compileQuery 0 (oneBound 2) = .ok plan ∧
      compileQuery 0 (twoBounds 2 1) = .ok plan' ∧ ∀ row : ℤ,
        plan'.Admits (fun _ _ => True) id row → plan.Admits (fun _ _ => True) id row := by
  have hq : (oneBound 2).WellFormed := by decide
  have hq' : (twoBounds 2 1).WellFormed := by decide
  refine ⟨_, _, rfl, rfl, fun row => admits_of_more_terms hq hq' rfl rfl (by decide) ?_⟩
  exact ⟨by decide +kernel, by decide +kernel⟩

theorem clause_asks_every_term_narrower :
    ∃ plan, compileQuery 0 (twoBounds 2 1) = .ok plan ∧
      ∀ (R : Type) (holds : FilterPredicate → R → Prop) (timestamp : R → ℤ) (row : R),
        plan.Admits holds timestamp row ↔
          ∀ t ∈ (twoBounds 2 1).terms, t.Asks holds timestamp 0 row := by
  refine ⟨_, rfl, (clause_asks_every_term_iff (by decide) rfl).2.mpr (.inl ⟨?_, ?_⟩)⟩
  · decide +kernel
  · decide +kernel

/-- The second bound replaces the first, so the stage lets in a row from one and a half hours
ago, which the base search keeps out. -/
theorem where_stage_widens :
    parse "earliest=-1h | where earliest=-2h" = .ok (twoBounds 1 2) ∧
    ∃ plan, compileQuery 0 (twoBounds 1 2) = .ok plan ∧
      plan.Admits (fun _ _ => True) id (-5400*second) ∧
      ¬ ∀ t ∈ (twoBounds 1 2).terms, t.Asks (fun _ _ => True) id 0 (-5400*second) := by
  refine ⟨by decide +kernel, _, rfl, ?_, ?_⟩
  · rw [admits_iff]
    exact ⟨fun _ _ => trivial, fun _ => by decide +kernel, fun h => absurd rfl h⟩
  · intro h
    have hfirst := h (.timeBound .earliest (.relative .minus 1 .h)) (by decide) _ rfl
    exact absurd hfirst (by decide +kernel)

end CairnObs.QueryLang
