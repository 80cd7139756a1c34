import CairnObs.QueryNarrowing
import CairnObs.TantivyQuery

/-! The text search of a plan as a list of parts: the free texts of the query and the
operators the planner writes between them. -/
namespace CairnObs.QueryLang
open Fallible

/-- Whether `compileBoolExpr` puts a text in quotes. -/
def hasBlank (s : String) : Bool := s.toList.any (fun c => c == ' ' || c == '\t')

inductive TextPart
  | op (conj : Conj)
  | text (s : String)
  deriving DecidableEq, Repr

def TextPart.written : TextPart → String
  | .op .and => "AND"
  | .op .or => "OR"
  | .text s => textPiece s

/-- What a part is meant to be in the search's own syntax. -/
def TextPart.token : TextPart → TantivyQuery.Token
  | .op .and => .and
  | .op .or => .or
  | .text s => if hasBlank s then .phrase s.toList else .word s.toList

def addPart (conj : Option Conj) (t : Term) (ps : List TextPart) : List TextPart :=
  match t with
  | .freeText s =>
    if conj = some .or then ps ++ [.op .or, .text s]
    else if ps ≠ [] then ps ++ [.op .and, .text s]
    else ps ++ [.text s]
  | .comparison _ _ _ | .timeBound _ _ => ps

def textPartsFrom (ps : List TextPart) : List (Option Conj × Term) → List TextPart
  | [] => ps
  | (conj, t) :: ts => textPartsFrom (addPart conj t ps) ts

def BoolExpr.textParts (e : BoolExpr) : List TextPart := textPartsFrom [] e.joined

def PipeStage.textParts : PipeStage → List TextPart
  | .whereStage e => e.textParts
  | .statsStage _ _ | .sortStage _ | .fieldsStage _ | .headStage _ | .tailStage _ => []

def Query.textParts (q : Query) : List TextPart :=
  q.base.textParts ++ q.pipes.flatMap PipeStage.textParts

/-! ### The parts are what the planner collects -/

variable {parts' : List String} {ps : List TextPart} {plan plan' : Plan} {now : ℤ} {s : String}

theorem compileTerm_parts {conj : Option Conj} {t : Term}
    (h : compileTerm now conj t (ps.map TextPart.written) plan = .ok (parts', plan')) :
    parts' = (addPart conj t ps).map TextPart.written := by
  cases t with
  | comparison field op value =>
    simp only [compileTerm] at h
    split at h <;> cases h
    rfl
  | timeBound kind expr =>
    simp only [compileTerm] at h
    split at h
    · cases h
    · obtain ⟨plan₁, -, h⟩ := bind_eq_ok.mp h
      cases h
      rfl
  | freeText query =>
    cases h
    simp only [addTextPart, addPart]
    by_cases hor : conj = some .or
    · simp [hor, TextPart.written]
    · cases ps <;> simp [hor, TextPart.written]

theorem compileTerms_parts {ts : List (Option Conj × Term)}
    (h : compileTerms now ts (ps.map TextPart.written) plan = .ok (parts', plan')) :
    parts' = (textPartsFrom ps ts).map TextPart.written := by
  induction ts generalizing ps plan with
  | nil =>
    cases h
    rfl
  | cons x ts ih =>
    obtain ⟨⟨parts₁, plan₁⟩, hx, hts⟩ := bind_eq_ok.mp h
    cases compileTerm_parts hx
    exact ih hts

variable {parts : List String} {q : Query}

theorem compileBoolExpr_parts {e : BoolExpr} (h : compileBoolExpr now e plan = .ok (parts, plan')) :
    parts = e.textParts.map TextPart.written := by
  have h' : compileTerms now e.joined (([] : List TextPart).map TextPart.written) plan =
      .ok (parts, plan') := h
  exact compileTerms_parts h'

theorem compileStage_parts {p : PipeStage}
    (h : compileStage now p parts plan = .ok (parts', plan')) :
    parts' = parts ++ p.textParts.map TextPart.written ∧ plan'.textSearch = plan.textSearch := by
  cases p with
  | whereStage e =>
    obtain ⟨⟨more, plan₁⟩, he, h⟩ := bind_eq_ok.mp h
    cases h
    refine ⟨by rw [compileBoolExpr_parts he]; rfl, ?_⟩
    rw [compileBoolExpr_frame he]
  | statsStage aggs by_ =>
    obtain ⟨agg, -, h⟩ := bind_eq_ok.mp h
    cases h
    exact ⟨(List.append_nil _).symm, rfl⟩
  | sortStage fields | fieldsStage fields | headStage n | tailStage n =>
    cases h
    exact ⟨(List.append_nil _).symm, rfl⟩

theorem compileStages_parts {ps : List PipeStage}
    (h : compileStages now ps parts plan = .ok (parts', plan')) :
    parts' = parts ++ (ps.flatMap PipeStage.textParts).map TextPart.written ∧
      plan'.textSearch = plan.textSearch := by
  induction ps generalizing parts plan with
  | nil =>
    cases h
    exact ⟨(List.append_nil _).symm, rfl⟩
  | cons p ps ih =>
    obtain ⟨⟨parts₁, plan₁⟩, hp, hps⟩ := bind_eq_ok.mp h
    obtain ⟨rfl, hsearch⟩ := compileStage_parts hp
    obtain ⟨rfl, hsearch'⟩ := ih hps
    exact ⟨by simp, hsearch'.trans hsearch⟩

/-- The text search is the parts joined by blanks; without parts there is none. -/
theorem compileQuery_textSearch (h : compileQuery now q = .ok plan) :
    plan.textSearch = if q.textParts = [] then []
      else [String.intercalate " " (q.textParts.map TextPart.written)] := by
  obtain ⟨⟨parts, plan₁⟩, hb, h⟩ := bind_eq_ok.mp h
  obtain ⟨⟨parts', plan₂⟩, hps, h⟩ := bind_eq_ok.mp h
  obtain ⟨hparts, hsearch⟩ := compileStages_parts hps
  have hnone : plan₂.textSearch = [] := by
    rw [hsearch, compileBoolExpr_frame hb]
    rfl
  have hall : parts' = q.textParts.map TextPart.written := by
    rw [hparts, compileBoolExpr_parts hb, Query.textParts, List.map_append]
  subst hall
  dsimp only at h
  by_cases hempty : q.textParts = []
  · rw [if_pos (by rw [hempty]; rfl)] at h
    cases h
    rw [if_pos hempty, hnone]
  · rw [if_neg (by simpa using hempty)] at h
    cases h
    rw [if_neg hempty]

theorem mem_textSearch (h : compileQuery now q = .ok plan) {query : String}
    (hquery : query ∈ plan.textSearch) :
    query.toList = [' '].intercalate (q.textParts.map (fun p => p.written.toList)) := by
  rw [compileQuery_textSearch h] at hquery
  split at hquery
  · cases hquery
  · rw [List.mem_singleton.mp hquery, String.toList_intercalate, List.map_map]
    rfl

/-! ### The texts are those of the query -/

theorem mem_addPart {conj : Option Conj} {t : Term} :
    TextPart.text s ∈ addPart conj t ps ↔ TextPart.text s ∈ ps ∨ t = .freeText s := by
  cases t with
  | comparison field op value => simp [addPart]
  | timeBound kind expr => simp [addPart]
  | freeText query =>
    simp only [addPart]
    split_ifs <;> simp [eq_comm]

theorem mem_textPartsFrom {ts : List (Option Conj × Term)} :
    TextPart.text s ∈ textPartsFrom ps ts ↔
      TextPart.text s ∈ ps ∨ Term.freeText s ∈ ts.map Prod.snd := by
  induction ts generalizing ps with
  | nil => simp [textPartsFrom]
  | cons x ts ih =>
    obtain ⟨conj, t⟩ := x
    rw [textPartsFrom, ih, mem_addPart, List.map_cons, List.mem_cons, or_assoc, eq_comm]

theorem mem_textParts {e : BoolExpr} (he : e.terms.length ≤ e.conjs.length+1) :
    TextPart.text s ∈ e.textParts ↔ Term.freeText s ∈ e.terms := by
  rw [BoolExpr.textParts, mem_textPartsFrom, BoolExpr.map_snd_joined he]
  simp

theorem mem_query_textParts (hq : q.WellFormed) :
    TextPart.text s ∈ q.textParts ↔ Term.freeText s ∈ q.terms := by
  have hstage : ∀ p ∈ q.pipes, TextPart.text s ∈ p.textParts ↔ Term.freeText s ∈ p.terms := by
    intro p hp
    cases p with
    | whereStage e => exact mem_textParts (hq.pipes _ hp).conjs.le
    | statsStage aggs by_ | sortStage fields | fieldsStage fields | headStage n | tailStage n =>
      simp [PipeStage.textParts, PipeStage.terms]
  rw [Query.textParts, Query.terms, List.mem_append, List.mem_append,
    mem_textParts hq.base_length, List.mem_flatMap, List.mem_flatMap]
  exact or_congr_right (exists_congr fun p => and_congr_right (hstage p))

end CairnObs.QueryLang
