import CairnObs.QueryPlanner
import CairnObs.SeparatedFields

/-! The names of the output columns of `stats`. Each call of a list is named in view of the
calls before it, so the names are stated as a function of a call and what stands before it. -/
namespace CairnObs.QueryLang
open Fallible

/-! ### Lists mapped with what stands before each element -/

section Behind

variable {α β : Type*} (f : List α → α → β)

/-- Each element of the list under `f`, which also sees the elements before it. -/
def mapBehind (before : List α) : List α → List β
  | [] => []
  | a :: as => f before a :: mapBehind (before ++ [a]) as

theorem mem_mapBehind {before as : List α} {x : β} :
    x ∈ mapBehind f before as ↔ ∃ l a r, as = l ++ a :: r ∧ x = f (before ++ l) a := by
  induction as generalizing before with
  | nil => simp [mapBehind]
  | cons a as ih =>
    rw [mapBehind, List.mem_cons, ih]
    constructor
    · rintro (rfl | ⟨l, b, r, rfl, rfl⟩)
      · exact ⟨[], a, as, rfl, by rw [List.append_nil]⟩
      · exact ⟨a :: l, b, r, rfl, by rw [List.append_assoc]; rfl⟩
    · rintro ⟨l, b, r, hsplit, rfl⟩
      cases l with
      | nil =>
        cases hsplit
        exact .inl (by rw [List.append_nil])
      | cons c l =>
        cases hsplit
        exact .inr ⟨l, b, r, rfl, by rw [List.append_assoc]; rfl⟩

/-- No value occurs twice just if no two positions have the same one. -/
theorem nodup_mapBehind {before as : List α} :
    (mapBehind f before as).Nodup ↔
      ∀ l a m b r, as = l ++ a :: (m ++ b :: r) →
        f (before ++ l) a ≠ f (before ++ l ++ a :: m) b := by
  induction as generalizing before with
  | nil => simp [mapBehind]
  | cons c as ih =>
    rw [mapBehind, List.nodup_cons, mem_mapBehind, ih]
    constructor
    · rintro ⟨hhead, htail⟩ l a m b r hsplit heq
      cases l with
      | nil =>
        cases hsplit
        refine hhead ⟨m, b, r, rfl, ?_⟩
        simpa using heq
      | cons d l =>
        cases hsplit
        exact htail l a m b r rfl (by simpa using heq)
    · intro h
      refine ⟨?_, ?_⟩
      · rintro ⟨m, b, r, rfl, heq⟩
        exact h [] c m b r rfl (by simpa using heq)
      · rintro l a m b r rfl heq
        exact h (c :: l) a m b r rfl (by simpa using heq)

end Behind

/-! ### Default names -/

/-- The name of a call that had to give way. -/
def AggCall.longName (a : AggCall) : String := a.func.text ++ "_" ++ a.field

theorem AggFunc.text_injective : Function.Injective AggFunc.text := by
  intro f g h
  cases f <;> cases g <;> first | rfl | exact absurd h (by decide)

theorem AggFunc.underscore_not_mem (f : AggFunc) : '_' ∉ f.text.toList := by
  cases f <;> decide

theorem AggCall.longName_toList (a : AggCall) :
    a.longName.toList = a.func.text.toList ++ '_' :: a.field.toList := by
  simp [AggCall.longName]

theorem AggFunc.text_ne_longName (f : AggFunc) (a : AggCall) : f.text ≠ a.longName := by
  intro h
  apply f.underscore_not_mem
  rw [h, a.longName_toList]
  simp

theorem AggFunc.text_ne_empty (f : AggFunc) : f.text ≠ "" := by
  cases f <;> decide

theorem AggCall.longName_ne_empty (a : AggCall) : a.longName ≠ "" := by
  intro h
  have hlist := congrArg String.toList h
  rw [a.longName_toList] at hlist
  simp at hlist

variable {a b : AggCall} {before : List AggCall}

/-- The name tells the function and the field. -/
theorem AggCall.longName_inj (h : a.longName = b.longName) :
    a.func = b.func ∧ a.field = b.field := by
  have hlist := congrArg String.toList h
  rw [a.longName_toList, b.longName_toList] at hlist
  obtain ⟨hfunc, hfield⟩ := SeparatedFields.field_inj a.func.underscore_not_mem
    b.func.underscore_not_mem hlist
  exact ⟨AggFunc.text_injective (String.toList_inj.mp hfunc), String.toList_inj.mp hfield⟩

/-- The name of the function is gone: an earlier call was given it, or has it by default. -/
def AggCall.Taken (before : List AggCall) (a : AggCall) : Prop :=
  ∃ b ∈ before, b.aliasName = a.func.text ∨ (b.aliasName = "" ∧ b.func = a.func)

instance (before : List AggCall) (a : AggCall) : Decidable (a.Taken before) :=
  inferInstanceAs (Decidable (∃ b ∈ before, _))

/-- The name of a call by the calls before it. -/
def AggCall.nameBehind (before : List AggCall) (a : AggCall) : String :=
  if a.aliasName = "" then if a.Taken before then a.longName else a.func.text
  else a.aliasName

theorem AggCall.nameBehind_explicit (h : a.aliasName ≠ "") : a.nameBehind before = a.aliasName := by
  rw [AggCall.nameBehind, if_neg h]

theorem AggCall.nameBehind_taken (h : a.aliasName = "") (ht : a.Taken before) :
    a.nameBehind before = a.longName := by
  rw [AggCall.nameBehind, if_pos h, if_pos ht]

theorem AggCall.nameBehind_free (h : a.aliasName = "") (ht : ¬ a.Taken before) :
    a.nameBehind before = a.func.text := by
  rw [AggCall.nameBehind, if_pos h, if_neg ht]

/-- Among the names of the calls `before`, in any order, the function names are those that
are taken. -/
structure Seen (before : List AggCall) (seen : List String) : Prop where
  text : ∀ f : AggFunc, f.text ∈ seen ↔
    ∃ b ∈ before, b.aliasName = f.text ∨ (b.aliasName = "" ∧ b.func = f)

variable {seen : List String}

theorem Seen.aggAlias (h : Seen before seen) (a : AggCall) :
    aggAlias seen a = a.nameBehind before := by
  have hiff : a.func.text ∈ seen ↔ a.Taken before := h.text a.func
  unfold QueryLang.aggAlias AggCall.nameBehind AggCall.longName
  by_cases ht : a.Taken before
  · rw [if_pos ht, if_pos (hiff.mpr ht)]
  · rw [if_neg ht, if_neg (fun hmem => ht (hiff.mp hmem))]

theorem Seen.cons (h : Seen before seen) (a : AggCall) :
    Seen (before ++ [a]) (a.nameBehind before :: seen) := by
  refine ⟨fun f => ?_⟩
  have hsplit : (∃ b ∈ before ++ [a], b.aliasName = f.text ∨ (b.aliasName = "" ∧ b.func = f)) ↔
      f.text ∈ seen ∨ (a.aliasName = f.text ∨ (a.aliasName = "" ∧ a.func = f)) := by
    rw [h.text f]
    simp only [List.mem_append, List.mem_singleton]
    constructor
    · rintro ⟨b, hb | rfl, hname⟩
      · exact .inl ⟨b, hb, hname⟩
      · exact .inr hname
    · rintro (⟨b, hb, hname⟩ | hname)
      · exact ⟨b, .inl hb, hname⟩
      · exact ⟨a, .inr rfl, hname⟩
  rw [hsplit, List.mem_cons]
  by_cases hexplicit : a.aliasName = ""
  · by_cases htaken : a.Taken before
    · -- A call that gives way leaves the name with whoever holds it.
      have hheld : a.func.text ∈ seen := (h.text a.func).mpr htaken
      rw [AggCall.nameBehind_taken hexplicit htaken]
      constructor
      · rintro (hlong | hseen)
        · exact absurd hlong (f.text_ne_longName a)
        · exact .inl hseen
      · rintro (hseen | hempty | ⟨-, rfl⟩)
        · exact .inr hseen
        · exact absurd (hempty.symm.trans hexplicit) f.text_ne_empty
        · exact .inr hheld
    · rw [AggCall.nameBehind_free hexplicit htaken]
      constructor
      · rintro (hown | hseen)
        · exact .inr (.inr ⟨hexplicit, (AggFunc.text_injective hown).symm⟩)
        · exact .inl hseen
      · rintro (hseen | hempty | ⟨-, rfl⟩)
        · exact .inr hseen
        · exact absurd (hempty.symm.trans hexplicit) f.text_ne_empty
        · exact .inl rfl
  · rw [AggCall.nameBehind_explicit hexplicit]
    constructor
    · rintro (hown | hseen)
      · exact .inr (.inl hown.symm)
      · exact .inl hseen
    · rintro (hseen | hown | ⟨hempty, -⟩)
      · exact .inr hseen
      · exact .inl hown.symm
      · exact absurd hempty hexplicit

/-- The names that are assigned, each by the calls before it. -/
theorem compileAggs_names {aggs : List AggCall} {funcs : List Aggregate} (hseen : Seen before seen)
    (h : compileAggs aggs seen = .ok funcs) :
    funcs.map Aggregate.aliasName =
      mapBehind (fun before (a : AggCall) => a.nameBehind before) before aggs := by
  induction aggs generalizing before seen funcs with
  | nil =>
    cases h
    rfl
  | cons a aggs ih =>
    unfold compileAggs at h
    split at h
    · cases h
    · obtain ⟨rest, hrest, hfuncs⟩ := bind_eq_ok.mp h
      cases hfuncs
      rw [hseen.aggAlias] at hrest
      rw [List.map_cons, ih (hseen.cons a) hrest, hseen.aggAlias]
      rfl

/-! ### The columns of a stats stage -/

/-- The aliases are distinct and none is a by-field, so that each name is the name of one
column. -/
structure Aggregation.Unambiguous (agg : Aggregation) : Prop where
  distinct : (agg.funcs.map Aggregate.aliasName).Nodup
  apart : ∀ f ∈ agg.funcs, f.aliasName ∉ agg.groupBy
  one : ∀ name ∈ agg.names, agg.names.count name = 1

theorem unambiguous_iff {agg : Aggregation} (hby : agg.groupBy.Nodup) :
    agg.Unambiguous ↔ agg.names.Nodup := by
  constructor
  · rintro ⟨hdistinct, hapart, -⟩
    refine List.Nodup.append hby hdistinct ?_
    intro name hname hfunc
    obtain ⟨f, hf, rfl⟩ := List.mem_map.mp hfunc
    exact hapart f hf hname
  · intro h
    obtain ⟨-, hdistinct, hdisjoint⟩ := List.nodup_append'.mp h
    refine ⟨hdistinct, ?_, ?_⟩
    · intro f hf hmem
      exact hdisjoint hmem (List.mem_map_of_mem hf)
    · intro name hname
      exact List.count_eq_one_of_mem h hname

/-- The aliases the stage gives itself. -/
def explicitAliases (aggs : List AggCall) : List String :=
  (aggs.map AggCall.aliasName).filter (fun s => s ≠ "")

/-- What the default name of the unnamed call `a` must keep clear of. A name that is not taken
must not be given to a later call nor to a by-field. A call that gives way needs a longer name
that nobody was given, and no later unnamed call of the same function and field. -/
structure DefaultFresh (by_ : List String) (before : List AggCall) (a : AggCall)
    (after : List AggCall) : Prop where
  free : ¬ a.Taken before → a.func.text ∉ by_ ∧ ∀ b ∈ after, b.aliasName ≠ a.func.text
  taken : a.Taken before → a.longName ∉ by_ ∧
    (∀ b ∈ before ++ after, b.aliasName ≠ a.longName) ∧
    ∀ b ∈ after, b.aliasName = "" → b.func = a.func → b.field ≠ a.field

def DefaultsFresh (aggs : List AggCall) (by_ : List String) : Prop :=
  ∀ before a after, aggs = before ++ a :: after → a.aliasName = "" →
    DefaultFresh by_ before a after

section Stage

variable {aggs : List AggCall} {by_ : List String}

/-- Behind an unnamed call every unnamed call of the same function gives way. -/
theorem AggCall.taken_of_unnamed (hmem : a ∈ before) (ha : a.aliasName = "")
    (hfunc : a.func = b.func) : b.Taken before :=
  ⟨a, hmem, .inr ⟨ha, hfunc⟩⟩

/-- Two calls at different positions get different names when defaults are fresh. -/
theorem nameBehind_ne (hexplicit : (explicitAliases aggs).Nodup) (hfresh : DefaultsFresh aggs by_)
    {l m r : List AggCall} (hsplit : aggs = l ++ a :: (m ++ b :: r)) :
    a.nameBehind l ≠ b.nameBehind (l ++ a :: m) := by
  have hsplit' : aggs = (l ++ a :: m) ++ b :: r := by rw [hsplit]; simp
  have hba : b ∈ m ++ b :: r := by simp
  have hab : a ∈ l ++ a :: m := by simp
  by_cases ha : a.aliasName = "" <;> by_cases hb : b.aliasName = ""
  · have hfa := hfresh l a _ hsplit ha
    -- Both unnamed: `b` gives way to `a` when they share the function.
    by_cases hta : a.Taken l <;> by_cases htb : b.Taken (l ++ a :: m)
    · rw [AggCall.nameBehind_taken ha hta, AggCall.nameBehind_taken hb htb]
      intro h
      obtain ⟨hfunc, hfield⟩ := AggCall.longName_inj h
      exact (hfa.taken hta).2.2 b hba hb hfunc.symm hfield.symm
    · rw [AggCall.nameBehind_taken ha hta, AggCall.nameBehind_free hb htb]
      exact (b.func.text_ne_longName a).symm
    · rw [AggCall.nameBehind_free ha hta, AggCall.nameBehind_taken hb htb]
      exact a.func.text_ne_longName b
    · rw [AggCall.nameBehind_free ha hta, AggCall.nameBehind_free hb htb]
      intro h
      exact htb (AggCall.taken_of_unnamed hab ha (AggFunc.text_injective h))
  · have hfa := hfresh l a _ hsplit ha
    rw [AggCall.nameBehind_explicit hb]
    by_cases hta : a.Taken l
    · rw [AggCall.nameBehind_taken ha hta]
      exact ((hfa.taken hta).2.1 b (by simp)).symm
    · rw [AggCall.nameBehind_free ha hta]
      exact ((hfa.free hta).2 b hba).symm
  · have hfb := hfresh _ b r hsplit' hb
    rw [AggCall.nameBehind_explicit ha]
    by_cases htb : b.Taken (l ++ a :: m)
    · rw [AggCall.nameBehind_taken hb htb]
      exact (hfb.taken htb).2.1 a (by simp)
    · rw [AggCall.nameBehind_free hb htb]
      intro h
      exact htb ⟨a, hab, .inl h⟩
  · rw [AggCall.nameBehind_explicit ha, AggCall.nameBehind_explicit hb]
    have hlist : explicitAliases aggs = explicitAliases l ++ a.aliasName ::
        (explicitAliases m ++ b.aliasName :: explicitAliases r) := by
      simp [hsplit, explicitAliases, ha, hb]
    rw [hlist] at hexplicit
    intro h
    have hnot := (List.nodup_cons.mp (List.nodup_append'.mp hexplicit).2.1).1
    exact hnot (by simp [h])

theorem nameBehind_not_mem (hapart : ∀ name ∈ explicitAliases aggs, name ∉ by_)
    (hfresh : DefaultsFresh aggs by_) {l r : List AggCall} (hsplit : aggs = l ++ a :: r) :
    a.nameBehind l ∉ by_ := by
  by_cases ha : a.aliasName = ""
  · have hfa := hfresh l a r hsplit ha
    by_cases hta : a.Taken l
    · rw [AggCall.nameBehind_taken ha hta]
      exact (hfa.taken hta).1
    · rw [AggCall.nameBehind_free ha hta]
      exact (hfa.free hta).1
  · rw [AggCall.nameBehind_explicit ha]
    apply hapart
    simp [explicitAliases, hsplit, ha]

/-- What the names of a stage are like when no two of them are the same. -/
structure NamesDistinct (aggs : List AggCall) (by_ : List String) : Prop where
  distinct : ∀ l a m b r, aggs = l ++ a :: (m ++ b :: r) →
    a.nameBehind l ≠ b.nameBehind (l ++ a :: m)
  apart : ∀ l a r, aggs = l ++ a :: r → a.nameBehind l ∉ by_

/-- The name of an unnamed call is not the alias of any other call. -/
theorem NamesDistinct.alias_ne (h : NamesDistinct aggs by_) {after : List AggCall}
    (hsplit : aggs = before ++ a :: after) (hb : b.aliasName ≠ "") (hmem : b ∈ before ++ after) :
    b.aliasName ≠ a.nameBehind before := by
  rcases List.mem_append.mp hmem with hmem | hmem
  · obtain ⟨l, m, rfl⟩ := List.append_of_mem hmem
    have hne := h.distinct l b m a after (by rw [hsplit]; simp)
    rwa [AggCall.nameBehind_explicit hb] at hne
  · obtain ⟨m, r, rfl⟩ := List.append_of_mem hmem
    have hne := h.distinct before a m b r hsplit
    rw [AggCall.nameBehind_explicit hb] at hne
    exact hne.symm

theorem NamesDistinct.defaultsFresh (h : NamesDistinct aggs by_) : DefaultsFresh aggs by_ := by
  intro before a after hsplit ha
  constructor
  · intro hta
    have hname := AggCall.nameBehind_free ha hta
    refine ⟨hname ▸ h.apart before a after hsplit, ?_⟩
    intro b hb heq
    refine h.alias_ne hsplit (heq ▸ a.func.text_ne_empty) (List.mem_append_right _ hb) ?_
    rw [heq, hname]
  · intro hta
    have hname := AggCall.nameBehind_taken ha hta
    refine ⟨hname ▸ h.apart before a after hsplit, ?_, ?_⟩
    · intro b hb heq
      refine h.alias_ne hsplit (heq ▸ a.longName_ne_empty) hb ?_
      rw [heq, hname]
    · intro b hb hunnamed hfunc hfield
      obtain ⟨m, r, rfl⟩ := List.append_of_mem hb
      have htb : b.Taken (before ++ a :: m) :=
        AggCall.taken_of_unnamed (by simp) ha hfunc.symm
      apply h.distinct before a m b r hsplit
      rw [hname, AggCall.nameBehind_taken hunnamed htb, AggCall.longName, AggCall.longName,
        hfunc, hfield]

theorem columns_nodup_iff (hby : by_.Nodup) :
    (by_ ++ mapBehind (fun before (a : AggCall) => a.nameBehind before) [] aggs).Nodup ↔
      NamesDistinct aggs by_ := by
  rw [List.nodup_append', nodup_mapBehind]
  constructor
  · rintro ⟨-, hdistinct, hdisjoint⟩
    refine ⟨fun l a m b r hsplit => by simpa using hdistinct l a m b r hsplit, ?_⟩
    intro l a r hsplit hmem
    exact hdisjoint hmem ((mem_mapBehind _).mpr ⟨l, a, r, hsplit, rfl⟩)
  · rintro ⟨hdistinct, hapart⟩
    refine ⟨hby, fun l a m b r hsplit => by simpa using hdistinct l a m b r hsplit, ?_⟩
    intro name hname hmem
    obtain ⟨l, a, r, hsplit, rfl⟩ := (mem_mapBehind _).mp hmem
    exact hapart l a r hsplit hname

end Stage

/-- The columns of a stats stage have names of their own just if the defaults are fresh. -/
theorem stats_columns_unambiguous_iff {aggs : List AggCall} {by_ : List String}
    {agg : Aggregation} (hok : compileStats aggs by_ = .ok agg)
    (hexplicit : (explicitAliases aggs).Nodup)
    (hapart : ∀ name ∈ explicitAliases aggs, name ∉ by_) (hby : by_.Nodup) :
    agg.Unambiguous ↔ DefaultsFresh aggs by_ := by
  obtain ⟨funcs, hfuncs, hagg⟩ := bind_eq_ok.mp hok
  cases hagg
  have hseen : Seen [] [] := ⟨fun f => by simp⟩
  have hnames := compileAggs_names hseen hfuncs
  rw [unambiguous_iff hby, Aggregation.names, hnames, columns_nodup_iff hby]
  constructor
  · intro h
    exact h.defaultsFresh
  · intro hfresh
    exact ⟨fun l a m b r hsplit => nameBehind_ne hexplicit hfresh hsplit,
      fun l a r hsplit => nameBehind_not_mem hapart hfresh hsplit⟩

/-- `stats sum(a), sum(b), count by host`: the second sum gives way. -/
def twoSums : List AggCall := [⟨.sum, "a", ""⟩, ⟨.sum, "b", ""⟩, ⟨.count, "", ""⟩]

theorem twoSums_unambiguous :
    ∃ agg, compileStats twoSums ["host"] = .ok agg ∧ agg.Unambiguous := by
  have hok : compileStats twoSums ["host"] = .ok
      ⟨[⟨.sum, "a", "sum"⟩, ⟨.sum, "b", "sum_b"⟩, ⟨.count, "", "count"⟩], ["host"]⟩ := rfl
  refine ⟨_, hok,
    (stats_columns_unambiguous_iff hok (by decide) (by decide) (by decide)).mpr ?_⟩
  intro before a after hsplit ha
  rcases before with _ | ⟨x, _ | ⟨y, _ | ⟨z, before⟩⟩⟩
  · cases hsplit
    exact ⟨by decide, by decide⟩
  · cases hsplit
    exact ⟨by decide, by decide⟩
  · cases hsplit
    exact ⟨by decide, by decide⟩
  · simp [twoSums] at hsplit

/-- Nothing makes way for an alias that is given later: both columns are called `sum`. -/
theorem default_name_given_later :
    parse "stats sum(bytes), count as sum by host" =
      .ok ⟨.empty, [.statsStage [⟨.sum, "bytes", ""⟩, ⟨.count, "", "sum"⟩] ["host"]]⟩ ∧
    ∃ agg, compileStats [⟨.sum, "bytes", ""⟩, ⟨.count, "", "sum"⟩] ["host"] = .ok agg ∧
      (explicitAliases [⟨.sum, "bytes", ""⟩, ⟨.count, "", "sum"⟩]).Nodup ∧
      (∀ name ∈ explicitAliases [⟨.sum, "bytes", ""⟩, ⟨.count, "", "sum"⟩], name ∉ ["host"]) ∧
      ["host"].Nodup ∧ agg.names = ["host", "sum", "sum"] ∧ ¬ agg.Unambiguous := by
  refine ⟨by decide +kernel, _, rfl, by decide, by decide, by decide, by decide, fun h => ?_⟩
  exact absurd h.distinct (by decide)

end CairnObs.QueryLang
