import CairnObs.SearchIndexer

/-! `IndexRegistry::resolve` as its callers run it at the same time: the read-locked lookup,
`open_or_create` outside any lock, and the write-locked `or_insert_with` are three steps, and
those of other calls may come between them. -/
namespace CairnObs.Search.Registry
open GuardedRuns Function

/-- An open index: the default one, or the `n`-th that `open_or_create` has returned. -/
inductive Instance
  | default
  | opened (n : ℕ)
  deriving DecidableEq, Repr

inductive Outcome
  | ok (index : Instance)
  | err
  deriving DecidableEq, Repr

/-- Where a call stands: not begun, past the lookup that found nothing, holding the index it
has opened, returned. -/
inductive Phase
  | start
  | missed
  | opened (n : ℕ)
  | returned (outcome : Outcome)
  deriving DecidableEq, Repr

/-- `writers` are the index writers that are alive, with the directory each holds; `count` is
the number of indexes opened so far. -/
structure State (κ : Type*) where
  tenants : String → Option ℕ
  writers : List (String × ℕ)
  phase : κ → Phase
  count : ℕ

/-- No writer for the tenant's directory is alive. -/
def State.free {κ : Type*} (s : State κ) (tenantID : String) : Prop :=
  ∀ w ∈ s.writers, w.1 ≠ tenantID

instance {κ : Type*} (s : State κ) (tenantID : String) : Decidable (s.free tenantID) :=
  inferInstanceAs (Decidable (∀ w ∈ s.writers, w.1 ≠ tenantID))

/-- No tenant's index has been opened and no call has begun. -/
def initial {κ : Type*} : State κ := ⟨fun _ => none, [], fun _ => .start, 0⟩

/-! ### Invariant and property -/

/-- The registry holds what its callers were given, and at most one index of a tenant is open:
the one that is stored, or one that a call has yet to store. -/
structure Consistent {κ : Type*} (tenantOf : κ → String) (s : State κ) : Prop where
  stored : ∀ t n, s.tenants t = some n → (t, n) ∈ s.writers
  valid : ∀ c, s.phase c = .missed → validateTenantID (tenantOf c) = true
  holds : ∀ c n, s.phase c = .opened n →
    s.tenants (tenantOf c) = none ∧ (tenantOf c, n) ∈ s.writers
  alone : ∀ c d m n, s.phase c = .opened m → s.phase d = .opened n → tenantOf c = tenantOf d → c = d
  given : ∀ c n, s.phase c = .returned (.ok (.opened n)) → s.tenants (tenantOf c) = some n

theorem consistent_initial {κ : Type*} (tenantOf : κ → String) :
    Consistent tenantOf (initial : State κ) :=
  ⟨nofun, nofun, nofun, nofun, nofun⟩

/-- Every call for a valid tenant that has returned has the tenant's index, and those for one
tenant have the same. -/
structure Shared {κ : Type*} (tenantOf : κ → String) (s : State κ) : Prop where
  ok : ∀ c, validateTenantID (tenantOf c) = true → ∀ o, s.phase c = .returned o →
    ∃ n, o = .ok (.opened n)
  same : ∀ c d, tenantOf c = tenantOf d → validateTenantID (tenantOf c) = true →
    ∀ o o', s.phase c = .returned o → s.phase d = .returned o' → o = o'

/-- The call does not open the index while a writer for its directory is alive. -/
def OpensAlone {κ : Type*} (tenantOf : κ → String) (s : State κ) (c : κ) : Prop :=
  s.phase c = .missed → s.free (tenantOf c)

instance {κ : Type*} (tenantOf : κ → String) (s : State κ) (c : κ) :
    Decidable (OpensAlone tenantOf s c) :=
  inferInstanceAs (Decidable (s.phase c = .missed → s.free (tenantOf c)))

theorem shared_of_ok {κ : Type*} {tenantOf : κ → String} {s : State κ} (h : Consistent tenantOf s)
    (hok : ∀ c, validateTenantID (tenantOf c) = true → ∀ o, s.phase c = .returned o →
      ∃ n, o = .ok (.opened n)) : Shared tenantOf s := by
  refine ⟨hok, ?_⟩
  intro c d htenant hvalid o o' ho ho'
  obtain ⟨n, rfl⟩ := hok c hvalid o ho
  obtain ⟨m, rfl⟩ := hok d (htenant ▸ hvalid) o' ho'
  have hc := h.given c n ho
  have hd := h.given d m ho'
  rw [htenant, hd] at hc
  cases hc
  rfl

section Steps

variable {κ : Type*} [DecidableEq κ] (tenantOf : κ → String)

def State.moves (s : State κ) (c : κ) (p : Phase) : State κ :=
  { s with phase := update s.phase c p }

/-- The lookup under the read lock, and the validation behind it. -/
def lookup (s : State κ) (c : κ) : Phase :=
  if tenantOf c = "" then .returned (.ok .default)
  else match s.tenants (tenantOf c) with
    | some n => .returned (.ok (.opened n))
    | none => if validateTenantID (tenantOf c) then .missed else .returned .err

/-- `open_or_create`: its writer is exclusive, so it fails while another one is alive. -/
def openOrCreate (s : State κ) (c : κ) : State κ :=
  if s.free (tenantOf c) then
    { s.moves c (.opened s.count) with
      writers := (tenantOf c, s.count) :: s.writers, count := s.count+1 }
  else s.moves c (.returned .err)

/-- `or_insert_with` under the write lock. An index that is not inserted is dropped, and its
writer with it. -/
def insert (s : State κ) (c : κ) (n : ℕ) : State κ :=
  match s.tenants (tenantOf c) with
  | some m =>
    { s.moves c (.returned (.ok (.opened m))) with writers := s.writers.erase (tenantOf c, n) }
  | none =>
    { s.moves c (.returned (.ok (.opened n))) with
      tenants := update s.tenants (tenantOf c) (some n) }

/-- The next step of the call `c`. -/
def step (s : State κ) (c : κ) : Option (State κ) :=
  match s.phase c with
  | .start => some (s.moves c (lookup tenantOf s c))
  | .missed => some (openOrCreate tenantOf s c)
  | .opened n => some (insert tenantOf s c n)
  | .returned _ => none

/-! ### What a step can do -/

/-- Every step: `r` is the phase the call moves to. -/
inductive Moves (s : State κ) (c : κ) : State κ → Phase → Prop
  | found (n : ℕ) (hstart : s.phase c = .start) (hsome : s.tenants (tenantOf c) = some n) :
      Moves s c (s.moves c (.returned (.ok (.opened n)))) (.returned (.ok (.opened n)))
  | aside (o : Outcome) (hstart : s.phase c = .start)
      (hinvalid : validateTenantID (tenantOf c) = false) (ho : ∀ n, o ≠ .ok (.opened n)) :
      Moves s c (s.moves c (.returned o)) (.returned o)
  | miss (hstart : s.phase c = .start) (hnone : s.tenants (tenantOf c) = none)
      (hvalid : validateTenantID (tenantOf c) = true) : Moves s c (s.moves c .missed) .missed
  | openIndex (hmissed : s.phase c = .missed) (hfree : s.free (tenantOf c)) :
      Moves s c { s.moves c (.opened s.count) with
        writers := (tenantOf c, s.count) :: s.writers, count := s.count+1 } (.opened s.count)
  | openFails (hmissed : s.phase c = .missed) (hheld : ¬ s.free (tenantOf c)) :
      Moves s c (s.moves c (.returned .err)) (.returned .err)
  | insertIndex (n : ℕ) (hopened : s.phase c = .opened n) (hnone : s.tenants (tenantOf c) = none) :
      Moves s c { s.moves c (.returned (.ok (.opened n))) with
        tenants := update s.tenants (tenantOf c) (some n) } (.returned (.ok (.opened n)))
  | dropIndex (n m : ℕ) (hopened : s.phase c = .opened n)
      (hsome : s.tenants (tenantOf c) = some m) :
      Moves s c { s.moves c (.returned (.ok (.opened m))) with
        writers := s.writers.erase (tenantOf c, n) } (.returned (.ok (.opened m)))

variable {tenantOf}

variable {s t : State κ} {c : κ}

theorem moves_of_step (h : step tenantOf s c = some t) : ∃ p, Moves tenantOf s c t p := by
  unfold step at h
  split at h
  · rename_i hstart
    cases h
    unfold lookup
    by_cases hempty : tenantOf c = ""
    · rw [if_pos hempty]
      exact ⟨_, .aside _ hstart (by rw [hempty]; decide) nofun⟩
    · rw [if_neg hempty]
      split
      · rename_i n hn
        exact ⟨_, .found n hstart hn⟩
      · rename_i hnone
        by_cases hvalid : validateTenantID (tenantOf c) = true
        · rw [if_pos hvalid]
          exact ⟨_, .miss hstart hnone hvalid⟩
        · rw [if_neg hvalid]
          exact ⟨_, .aside _ hstart (by simpa using hvalid) nofun⟩
  · rename_i hmissed
    cases h
    unfold openOrCreate
    split_ifs with hfree
    · exact ⟨_, .openIndex hmissed hfree⟩
    · exact ⟨_, .openFails hmissed hfree⟩
  · rename_i n hopened
    cases h
    unfold insert
    split
    · rename_i m hm
      exact ⟨_, .dropIndex n m hopened hm⟩
    · rename_i hnone
      exact ⟨_, .insertIndex n hopened hnone⟩
  · cases h

theorem moves_phase (s : State κ) (c d : κ) (p : Phase) :
    (s.moves c p).phase d = if d = c then p else s.phase d := by
  simp only [State.moves, update_apply]

/-- A call that moves without an index in its hands and changes nothing else. -/
theorem Consistent.moves (h : Consistent tenantOf s) {p : Phase}
    (hmissed : p = .missed → validateTenantID (tenantOf c) = true) (hopened : ∀ n, p ≠ .opened n)
    (hgiven : ∀ n, p = .returned (.ok (.opened n)) → s.tenants (tenantOf c) = some n) :
    Consistent tenantOf (s.moves c p) := by
  constructor
  · exact h.stored
  · intro d hd
    rw [moves_phase] at hd
    split_ifs at hd with hdc
    · exact hdc ▸ hmissed hd
    · exact h.valid d hd
  · intro d n hd
    rw [moves_phase] at hd
    split_ifs at hd with hdc
    · exact absurd hd (hopened n)
    · exact h.holds d n hd
  · intro d e m n hd he
    rw [moves_phase] at hd he
    split_ifs at hd he with hdc hec
    · exact absurd hd (hopened m)
    · exact absurd hd (hopened m)
    · exact absurd he (hopened n)
    · exact h.alone d e m n hd he
  · intro d n hd
    rw [moves_phase] at hd
    split_ifs at hd with hdc
    · exact hdc ▸ hgiven n hd
    · exact h.given d n hd

/-- Opening an index while nobody holds the directory. -/
theorem Consistent.openIndex (h : Consistent tenantOf s) (hfree : s.free (tenantOf c)) :
    Consistent tenantOf { s.moves c (.opened s.count) with
      writers := (tenantOf c, s.count) :: s.writers, count := s.count+1 } := by
  -- Whoever holds an index of this tenant would have a writer for it.
  have hnone : s.tenants (tenantOf c) = none := by
    cases htenant : s.tenants (tenantOf c) with
    | none => rfl
    | some n => exact absurd rfl (hfree _ (h.stored _ n htenant))
  have hother : ∀ d n, s.phase d = .opened n → tenantOf d ≠ tenantOf c :=
    fun d n hd => hfree _ (h.holds d n hd).2
  constructor
  · intro t n ht
    exact List.mem_cons_of_mem _ (h.stored t n ht)
  · intro d hd
    change (s.moves c _).phase d = _ at hd
    rw [moves_phase] at hd
    split_ifs at hd with hdc
    exact h.valid d hd
  · intro d n hd
    change (s.moves c _).phase d = _ at hd
    rw [moves_phase] at hd
    split_ifs at hd with hdc
    · cases hd
      exact ⟨hdc ▸ hnone, hdc ▸ List.mem_cons_self⟩
    · obtain ⟨htenant, hmem⟩ := h.holds d n hd
      exact ⟨htenant, List.mem_cons_of_mem _ hmem⟩
  · intro d e m n hd he htenant
    change (s.moves c _).phase d = _ at hd
    change (s.moves c _).phase e = _ at he
    rw [moves_phase] at hd he
    split_ifs at hd he with hdc hec hec
    · rw [hdc, hec]
    · exact absurd (hdc ▸ htenant.symm) (hother e n he)
    · exact absurd (hec ▸ htenant) (hother d m hd)
    · exact h.alone d e m n hd he htenant
  · intro d n hd
    change (s.moves c _).phase d = _ at hd
    rw [moves_phase] at hd
    split_ifs at hd with hdc
    exact h.given d n hd

/-- Storing the index of a call that holds one. -/
theorem Consistent.insertIndex (h : Consistent tenantOf s) {n : ℕ}
    (hopened : s.phase c = .opened n) :
    Consistent tenantOf { s.moves c (.returned (.ok (.opened n))) with
      tenants := update s.tenants (tenantOf c) (some n) } := by
  obtain ⟨hnone, hwriter⟩ := h.holds c n hopened
  have hother : ∀ d m, d ≠ c → s.phase d = .opened m → tenantOf d ≠ tenantOf c :=
    fun d m hne hd htenant => hne (h.alone d c m n hd hopened htenant)
  constructor
  · intro t m ht
    change update s.tenants (tenantOf c) (some n) t = some m at ht
    rw [update_apply] at ht
    split_ifs at ht with htc
    · cases ht
      exact htc ▸ hwriter
    · exact h.stored t m ht
  · intro d hd
    change (s.moves c _).phase d = _ at hd
    rw [moves_phase] at hd
    split_ifs at hd with hdc
    exact h.valid d hd
  · intro d m hd
    change (s.moves c _).phase d = _ at hd
    rw [moves_phase] at hd
    split_ifs at hd with hdc
    refine ⟨?_, (h.holds d m hd).2⟩
    change update s.tenants (tenantOf c) (some n) (tenantOf d) = none
    rw [update_of_ne (hother d m hdc hd)]
    exact (h.holds d m hd).1
  · intro d e m k hd he
    change (s.moves c _).phase d = _ at hd
    change (s.moves c _).phase e = _ at he
    rw [moves_phase] at hd he
    split_ifs at hd he with hdc hec
    exact h.alone d e m k hd he
  · intro d m hd
    change (s.moves c _).phase d = _ at hd
    change update s.tenants (tenantOf c) (some n) (tenantOf d) = some m
    rw [moves_phase] at hd
    split_ifs at hd with hdc
    · cases hd
      rw [hdc, update_self]
    · -- Nobody was given an index of this tenant before, since none was stored.
      have hgiven := h.given d m hd
      have hne : tenantOf d ≠ tenantOf c := by
        intro htenant
        rw [htenant, hnone] at hgiven
        cases hgiven
      rw [update_of_ne hne]
      exact hgiven

theorem consistent_step (h : Consistent tenantOf s) (hstep : step tenantOf s c = some t) :
    Consistent tenantOf t := by
  obtain ⟨p, hmoves⟩ := moves_of_step hstep
  cases hmoves with
  | found n hstart hsome =>
    refine h.moves nofun nofun ?_
    rintro m hm
    cases hm
    exact hsome
  | aside o hstart hinvalid ho =>
    refine h.moves nofun nofun ?_
    rintro n hn
    cases hn
    exact absurd rfl (ho n)
  | miss hstart hnone hvalid => exact h.moves (fun _ => hvalid) nofun nofun
  | openIndex hmissed hfree => exact h.openIndex hfree
  | openFails hmissed hheld => exact h.moves nofun nofun nofun
  | insertIndex n hopened hnone => exact h.insertIndex hopened
  | dropIndex n m hopened hsome =>
    rw [(h.holds c n hopened).1] at hsome
    cases hsome

/-! ### Shared indexes -/

/-- What a step does to the answers of calls for valid tenants. -/
theorem ok_step_iff (h : Consistent tenantOf s) (hs : Shared tenantOf s)
    (hstep : step tenantOf s c = some t) :
    (∀ d, validateTenantID (tenantOf d) = true → ∀ o, t.phase d = .returned o →
      ∃ n, o = .ok (.opened n)) ↔ OpensAlone tenantOf s c := by
  obtain ⟨p, hmoves⟩ := moves_of_step hstep
  -- Only the answer of `c` is new.
  have hphase : ∀ d, t.phase d = if d = c then p else s.phase d := by
    intro d
    cases hmoves <;> exact moves_phase s c d _
  have hnew : (∀ d, validateTenantID (tenantOf d) = true → ∀ o, t.phase d = .returned o →
      ∃ n, o = .ok (.opened n)) ↔
      (validateTenantID (tenantOf c) = true → ∀ o, p = .returned o → ∃ n, o = .ok (.opened n)) := by
    constructor
    · intro hall hvalid o ho
      exact hall c hvalid o (by rw [hphase, if_pos rfl, ho])
    · intro hc d hvalid o ho
      rw [hphase] at ho
      split_ifs at ho with hdc
      · exact hc (hdc ▸ hvalid) o ho
      · exact hs.ok d hvalid o ho
  rw [hnew]
  unfold OpensAlone
  cases hmoves with
  | found n hstart hsome =>
    refine iff_of_true ?_ (by simp [hstart])
    rintro - o ho
    cases ho
    exact ⟨n, rfl⟩
  | aside o hstart hinvalid ho =>
    refine iff_of_true ?_ (by simp [hstart])
    intro hvalid
    rw [hinvalid] at hvalid
    cases hvalid
  | miss hstart hnone hvalid => exact iff_of_true (fun _ => nofun) (by simp [hstart])
  | openIndex hmissed hfree => exact iff_of_true (fun _ => nofun) (fun _ => hfree)
  | openFails hmissed hheld =>
    refine iff_of_false ?_ (fun halone => hheld (halone hmissed))
    intro hall
    obtain ⟨n, hn⟩ := hall (h.valid c hmissed) .err rfl
    cases hn
  | insertIndex n hopened hnone =>
    refine iff_of_true ?_ (by simp [hopened])
    rintro - o ho
    cases ho
    exact ⟨n, rfl⟩
  | dropIndex n m hopened hsome =>
    refine iff_of_true ?_ (by simp [hopened])
    rintro - o ho
    cases ho
    exact ⟨m, rfl⟩

theorem shared_step_iff (h : Consistent tenantOf s) (hs : Shared tenantOf s)
    (hstep : step tenantOf s c = some t) : Shared tenantOf t ↔ OpensAlone tenantOf s c := by
  rw [← ok_step_iff h hs hstep]
  constructor
  · intro ht
    exact ht.ok
  · intro hok
    exact shared_of_ok (consistent_step h hstep) hok

/-- A call that has not returned can take its next step. -/
theorem step_isSome (h : ∀ o, s.phase c ≠ .returned o) : (step tenantOf s c).isSome = true := by
  unfold step
  split
  · rfl
  · rfl
  · rfl
  · rename_i o ho
    exact absurd ho (h o)

/-- Over every number of calls and every order of their steps: all calls for a tenant return
its one index, just if none of them opens it while a writer for it is alive. -/
theorem resolves_share_iff (tenantOf : κ → String) {calls : List κ} {s : State κ}
    (hr : run (step tenantOf) initial calls = some s) :
    (Throughout (step tenantOf) (Shared tenantOf) initial calls ↔
      Meets (step tenantOf) (OpensAlone tenantOf) initial calls) ∧
    ∀ c, (∃ o, s.phase c = .returned o) ∨ (step tenantOf s c).isSome = true := by
  refine ⟨?_, ?_⟩
  · exact throughout_iff_meets (J := Consistent tenantOf)
      (fun _ _ _ h hstep => consistent_step h hstep)
      (fun _ _ _ h hs hstep => shared_step_iff h hs hstep)
      (consistent_initial tenantOf) ⟨nofun, nofun⟩ hr
  · intro c
    by_cases h : ∃ o, s.phase c = .returned o
    · exact .inl h
    · exact .inr (step_isSome (fun o ho => h ⟨o, ho⟩))

end Steps

/-- Two calls for `acme`, told apart by a Boolean, the second after the first has opened and
stored the index. -/
theorem resolves_share_in_turn :
    ∃ s, run (step (fun _ : Bool => "acme")) initial [false, false, false, true] = some s ∧
      s.phase false = .returned (.ok (.opened 0)) ∧ s.phase true = .returned (.ok (.opened 0)) ∧
      Throughout (step (fun _ : Bool => "acme")) (Shared (fun _ => "acme")) initial
        [false, false, false, true] := by
  refine ⟨_, rfl, by decide +kernel, by decide +kernel, ?_⟩
  refine (resolves_share_iff (fun _ => "acme") rfl).1.mpr ?_
  exact .cons (by decide +kernel) rfl (.cons (by decide +kernel) rfl
    (.cons (by decide +kernel) rfl (.cons (by decide +kernel) rfl trivial)))

/-- Both calls miss before either has opened the index. The second cannot get a writer. -/
theorem second_miss_fails :
    ∃ s, run (step (fun _ : Bool => "acme")) initial [false, true, false, true, false] = some s ∧
      validateTenantID "acme" = true ∧
      s.phase false = .returned (.ok (.opened 0)) ∧ s.phase true = .returned .err ∧
      ¬ Shared (fun _ => "acme") s := by
  refine ⟨_, rfl, by decide, by decide +kernel, by decide +kernel, fun h => ?_⟩
  obtain ⟨n, hn⟩ := h.ok true (by decide) .err (by decide +kernel)
  cases hn

end CairnObs.Search.Registry
