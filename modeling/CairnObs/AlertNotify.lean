import CairnObs.AlertDebounce

/-! The notifications of an alert over whole histories of evaluations, read as firing
episodes. -/
namespace CairnObs.Alerting

/-- One firing episode as the notifications tell it. -/
structure Episode where
  first : ℤ
  repeats : List ℤ
  resolved : Option ℤ

def Episode.firings (ep : Episode) : List ℤ := ep.first :: ep.repeats

def Episode.lastFiring (ep : Episode) : ℤ := ep.repeats.getLastD ep.first

def Episode.events (ep : Episode) : List (ℤ × EventType) :=
  ep.firings.map (fun t => (t, .firing)) ++ ep.resolved.toList.map (fun t => (t, .resolved))

/-- Without an interval an episode is told once; with one, its firings keep at least
the interval between them. -/
def Episode.Paced (renotify : Option Duration) (ep : Episode) : Prop :=
  match renotify with
  | none => ep.repeats = []
  | some r => ep.firings.IsChain (fun u t => r.ns ≤ t-u)

/-- The readings of the clock that transitions were computed with. -/
def clockReadings (es : List Evaluation) : List ℤ :=
  es.filterMap (fun e => match e with
    | .condition now _ _ _ => some now
    | .error _ _ => none)

theorem clockReadings_snoc (es : List Evaluation) (now : ℤ) (holds : Bool)
    (value : Option Float) (dbNow : ℤ) :
    clockReadings (es ++ [.condition now holds value dbNow]) = clockReadings es ++ [now] := by
  simp [clockReadings]

theorem clockReadings_snoc_error (es : List Evaluation) (m : String) (d : ℤ) :
    clockReadings (es ++ [.error m d]) = clockReadings es := by
  simp [clockReadings]

theorem Episode.paced_singleton (renotify : Option Duration) (t : ℤ) :
    Episode.Paced renotify ⟨t, [], none⟩ := by
  cases renotify with
  | none => rfl
  | some r => exact List.IsChain.singleton t

variable {ep : Episode} {r : Duration} {next : AlertState} {es' : List Evaluation} {now : ℤ}

/-- A repeated firing an interval after the last one keeps the episode paced. -/
theorem Episode.paced_repeat (hp : ep.Paced (some r)) (t : ℤ) (ht : r.ns ≤ t-ep.lastFiring) :
    Episode.Paced (some r) ⟨ep.first, ep.repeats ++ [t], none⟩ := by
  change (ep.firings ++ [t]).IsChain _
  rw [List.isChain_append]
  refine ⟨hp, List.IsChain.singleton t, ?_⟩
  intro u hu v hv
  have hv' : v = t := by simpa using hv.symm
  have hu' : u = ep.lastFiring := by
    simp only [Episode.firings, List.getLast?_cons, Option.mem_def, Option.some.injEq] at hu
    rw [← hu, Episode.lastFiring, List.getLastD_eq_getLast?]
  rw [hu', hv']
  exact ht

theorem Episode.events_repeat (ep : Episode) (hr : ep.resolved = none) (t : ℤ) :
    Episode.events ⟨ep.first, ep.repeats ++ [t], none⟩ = ep.events ++ [(t, .firing)] := by
  simp [Episode.events, Episode.firings, hr]

theorem Episode.events_resolve (ep : Episode) (hr : ep.resolved = none) (t : ℤ) :
    Episode.events ⟨ep.first, ep.repeats, some t⟩ = ep.events ++ [(t, .resolved)] := by
  simp [Episode.events, Episode.firings, hr]

/-- The invariant of the output trace. `closed` are the resolved episodes so far;
while the row is firing there is one more, which the row's timestamps describe. -/
structure Told (renotify : Option Duration) (es : List Evaluation) (row : AlertState)
    (told : List (ℤ × EventType)) (closed : List Episode) (running : Option Episode) :
    Prop where
  events : told = closed.flatMap Episode.events ++ (running.toList).flatMap Episode.events
  closed_resolved : ∀ ep ∈ closed, ep.resolved.isSome
  closed_paced : ∀ ep ∈ closed, ep.Paced renotify
  firing_iff : row.state = .firing ↔ running.isSome
  running_open : ∀ ep ∈ running, ep.resolved = none
  running_paced : ∀ ep ∈ running, ep.Paced renotify
  running_fired : ∀ ep ∈ running, row.firedAt = some ep.first
  running_last : ∀ ep ∈ running, row.lastNotifiedAt = some ep.lastFiring
  running_read : ∀ ep ∈ running, ep.lastFiring ∈ clockReadings es

section Step

variable {τ : Timing} {es : List Evaluation} {row : AlertState} {told : List (ℤ × EventType)}
  {closed : List Episode} {running : Option Episode}

theorem Told.error (h : Told τ.renotifyInterval es row told closed running) (m : String) (d : ℤ) :
    Told τ.renotifyInterval (es ++ [.error m d]) (recordError d m row) told closed running :=
  { events := h.events
    closed_resolved := h.closed_resolved
    closed_paced := h.closed_paced
    firing_iff := h.firing_iff
    running_open := h.running_open
    running_paced := h.running_paced
    running_fired := h.running_fired
    running_last := h.running_last
    running_read := fun ep hep => by
      rw [clockReadings_snoc_error]
      exact h.running_read ep hep }

theorem Told.conditionFalse (h : Told τ.renotifyInterval es row told closed running)
    (now : ℤ) (value : Option Float) (dbNow : ℤ) :
    ∃ closed', Told τ.renotifyInterval (es ++ [.condition now false value dbNow])
      (evalStep τ row (.condition now false value dbNow)).1
      (told ++ (evalStep τ row (.condition now false value dbNow)).2.toList) closed' none := by
  obtain ⟨hs, _, _, _, hev⟩ := evalStep_false τ row now value dbNow
  cases hrun : running with
  | none =>
    have hnf : ¬ row.state = .firing := by simp [h.firing_iff, hrun]
    refine ⟨closed, ?_, h.closed_resolved, h.closed_paced, ?_, ?_, ?_, ?_, ?_, ?_⟩
    · rw [hev, if_neg hnf, h.events, hrun]
      simp
    all_goals simp [hs]
  | some ep =>
    -- The running episode gets its resolved event and joins the closed ones.
    have hf : row.state = .firing := by simp [h.firing_iff, hrun]
    have hopen : ep.resolved = none := h.running_open ep (by simp [hrun])
    have hpaced : ep.Paced τ.renotifyInterval := h.running_paced ep (by simp [hrun])
    refine ⟨closed ++ [⟨ep.first, ep.repeats, some now⟩], ?_, ?_, ?_, ?_, ?_, ?_, ?_, ?_, ?_⟩
    · rw [hev, if_pos hf, h.events, hrun]
      simp [Episode.events_resolve ep hopen]
    · intro ep' hep'
      rcases List.mem_append.mp hep' with hm | hm
      · exact h.closed_resolved ep' hm
      · rw [List.mem_singleton.mp hm]
        rfl
    · intro ep' hep'
      rcases List.mem_append.mp hep' with hm | hm
      · exact h.closed_paced ep' hm
      · rw [List.mem_singleton.mp hm]
        exact hpaced
    all_goals simp [hs]

/-- A firing event that opens an episode. -/
theorem Told.enter (h : Told τ.renotifyInterval es row told closed running)
    (hrow : row.state ≠ .firing) (hread : clockReadings es' = clockReadings es ++ [now])
    (hstate : next.state = .firing) (hfired : next.firedAt = some now)
    (hlast : next.lastNotifiedAt = some now) :
    Told τ.renotifyInterval es' next (told ++ [(now, .firing)]) closed
      (some ⟨now, [], none⟩) := by
  have hrun : running = none := by simpa [h.firing_iff] using hrow
  refine ⟨?_, h.closed_resolved, h.closed_paced, ?_, ?_, ?_, ?_, ?_, ?_⟩
  · rw [h.events, hrun]
    simp [Episode.events, Episode.firings]
  · simp [hstate]
  · simp
  · intro ep hep
    rw [← Option.mem_some.mp hep]
    exact Episode.paced_singleton _ _
  · simp [hfired]
  · simp [hlast, Episode.lastFiring]
  · simp [hread, Episode.lastFiring]

/-- A firing event that repeats the running episode. -/
theorem Told.repeat (h : Told τ.renotifyInterval es row told closed running)
    (hep : running = some ep) (hr : τ.renotifyInterval = some r) (hdue : r.ns ≤ now-ep.lastFiring)
    (hread : clockReadings es' = clockReadings es ++ [now]) (hstate : next.state = .firing)
    (hfired : next.firedAt = row.firedAt) (hlast : next.lastNotifiedAt = some now) :
    Told τ.renotifyInterval es' next (told ++ [(now, .firing)]) closed
      (some ⟨ep.first, ep.repeats ++ [now], none⟩) := by
  have hpaced : ep.Paced (some r) := hr ▸ h.running_paced ep hep
  refine ⟨?_, h.closed_resolved, h.closed_paced, ?_, ?_, ?_, ?_, ?_, ?_⟩
  · rw [h.events, hep]
    simp [Episode.events_repeat ep (h.running_open ep hep)]
  · simp [hstate]
  · simp
  · intro ep' hep'
    rw [← Option.mem_some.mp hep', hr]
    exact Episode.paced_repeat hpaced now hdue
  · simp [hfired, h.running_fired ep hep]
  · simp [hlast, Episode.lastFiring]
  · simp [hread, Episode.lastFiring]

/-- No event: the row stays firing with its timestamps, or stays out of `firing`. -/
theorem Told.silent (h : Told τ.renotifyInterval es row told closed running)
    (hread : clockReadings es' = clockReadings es ++ [now])
    (hstate : next.state = .firing ↔ row.state = .firing)
    (hfired : row.state = .firing → next.firedAt = row.firedAt)
    (hlast : row.state = .firing → next.lastNotifiedAt = row.lastNotifiedAt) :
    Told τ.renotifyInterval es' next told closed running := by
  have hfiring (ep : Episode) (hep : ep ∈ running) : row.state = .firing :=
    h.firing_iff.mpr (Option.isSome_of_mem hep)
  refine ⟨h.events, h.closed_resolved, h.closed_paced, hstate.trans h.firing_iff, h.running_open,
    h.running_paced, ?_, ?_, ?_⟩
  · intro ep hep
    rw [hfired (hfiring ep hep)]
    exact h.running_fired ep hep
  · intro ep hep
    rw [hlast (hfiring ep hep)]
    exact h.running_last ep hep
  · intro ep hep
    rw [hread]
    exact List.mem_append_left _ (h.running_read ep hep)

theorem Told.conditionTrue (h : Told τ.renotifyInterval es row told closed running)
    (hc : Consistent row) (now : ℤ) (value : Option Float) (dbNow : ℤ)
    (hnow : ∀ t ∈ clockReadings es, t ≤ now) :
    ∃ running', Told τ.renotifyInterval (es ++ [.condition now true value dbNow])
      (evalStep τ row (.condition now true value dbNow)).1
      (told ++ (evalStep τ row (.condition now true value dbNow)).2.toList) closed running' := by
  obtain ⟨next, ev, heq, hstep⟩ := evalStep_true τ row now value dbNow hc
  have hread := clockReadings_snoc es now true value dbNow
  rw [heq]
  cases hstep with
  | enter since hrow hsince hdue hstate htrue hfired hlast =>
    exact ⟨_, h.enter hrow hread hstate hfired hlast⟩
  | wait since hrow hsince hdue hstate htrue hfired hlast =>
    have hiff : next.state = .firing ↔ row.state = .firing := by simp [hstate, hrow]
    have hkept := h.silent hread hiff (fun hf => absurd hf hrow) (fun hf => absurd hf hrow)
    exact ⟨running, by simpa using hkept⟩
  | renotify r l hrow hr hl hdue hstate htrue hfired hlast =>
    obtain ⟨ep, hep⟩ := Option.isSome_iff_exists.mp (h.firing_iff.mp hrow)
    have hlep : l = ep.lastFiring := Option.some.inj (hl.symm.trans (h.running_last ep hep))
    -- The clock has not gone back, so the saturating difference is the real one.
    have hdue' : r.ns ≤ now-ep.lastFiring := by
      rw [← hlep]
      exact (le_timeSub_iff_of_le r now l (hlep ▸ hnow _ (h.running_read ep hep))).mp hdue
    exact ⟨_, h.repeat hep hr hdue' hread hstate hfired hlast⟩
  | quiet hrow hdue hstate htrue hfired hlast =>
    have hiff : next.state = .firing ↔ row.state = .firing := by simp [hstate, hrow]
    have hkept := h.silent hread hiff (fun _ => hfired) (fun _ => hlast)
    exact ⟨running, by simpa using hkept⟩

end Step

/-- The step lemmas carried along a whole run. -/
theorem told_run (τ : Timing) (es : List Evaluation) (hnow : (clockReadings es).Pairwise (· ≤ ·)) :
    ∃ closed running, Told τ.renotifyInterval es (stateAfter τ initialState es)
      (notifications τ initialState es) closed running := by
  induction es using List.reverseRecOn with
  | nil => exact ⟨[], none, by simp [notifications], by simp, by simp, by simp [stateAfter,
      initialState], by simp, by simp, by simp, by simp, by simp⟩
  | append_singleton es e ih =>
    rw [stateAfter_snoc, notifications_snoc]
    cases e with
    | error m d =>
      rw [clockReadings_snoc_error] at hnow
      obtain ⟨closed, running, h⟩ := ih hnow
      exact ⟨closed, running, by simpa [evalStep] using h.error m d⟩
    | condition now holds value dbNow =>
      rw [clockReadings_snoc, List.pairwise_append] at hnow
      obtain ⟨hes, _, hlt⟩ := hnow
      obtain ⟨closed, running, h⟩ := ih hes
      cases holds with
      | false =>
        obtain ⟨closed', h'⟩ := h.conditionFalse now value dbNow
        exact ⟨closed', none, h'⟩
      | true =>
        have hc := stateAfter_consistent τ initialState initialState_consistent es
        obtain ⟨running', h'⟩ := h.conditionTrue hc now value dbNow
          (fun t ht => hlt t ht now (by simp))
        exact ⟨closed, running', h'⟩

theorem evalStep_firedAt (τ : Timing) (row : AlertState) (hc : Consistent row) (e : Evaluation)
    (hrow : row.state = .firing) (hnext : (evalStep τ row e).1.state = .firing) :
    (evalStep τ row e).1.firedAt = row.firedAt := by
  cases e with
  | error m d => rfl
  | condition now holds value dbNow =>
    cases holds with
    | false =>
      rw [(evalStep_false τ row now value dbNow).1] at hnext
      cases hnext
    | true =>
      obtain ⟨next, ev, heq, h⟩ := evalStep_true τ row now value dbNow hc
      rw [heq]
      cases h with
      | enter _ hne _ _ _ _ _ _ => exact absurd hrow hne
      | wait _ hne _ _ _ _ _ _ => exact absurd hrow hne
      | renotify _ _ _ _ _ _ _ _ hfired _ => exact hfired
      | quiet _ _ _ _ hfired _ => exact hfired

/-- As long as the row stays firing, `fired_at` does not move. -/
theorem stateAfter_firedAt (τ : Timing) (row : AlertState) (hc : Consistent row)
    (fs : List Evaluation) (hf : ∀ gs, gs <+: fs → (stateAfter τ row gs).state = .firing) :
    (stateAfter τ row fs).firedAt = row.firedAt := by
  induction fs generalizing row with
  | nil => rfl
  | cons e fs ih =>
    have hrow : row.state = .firing := hf [] (List.nil_prefix)
    have hnext : (evalStep τ row e).1.state = .firing := hf [e] (by simp)
    have hrest := ih (evalStep τ row e).1 (evalStep_consistent τ row hc e)
      (fun gs hgs => hf (e :: gs) (by simpa using hgs))
    exact hrest.trans (evalStep_firedAt τ row hc e hrow hnext)

/-- The last episode, if it is open, is the running one. -/
theorem Told.mem_running {renotify : Option Duration} {es : List Evaluation} {row : AlertState}
    {told : List (ℤ × EventType)} {closed : List Episode} {running : Option Episode}
    (h : Told renotify es row told closed running)
    (hl : (closed ++ running.toList).getLast? = some ep) (hopen : ep.resolved = none) :
    ep ∈ running := by
  cases running with
  | none =>
    rw [Option.toList_none, List.append_nil] at hl
    have := h.closed_resolved ep (List.mem_of_getLast? hl)
    simp [hopen] at this
  | some ep' => simpa using hl

/-- A condition-true evaluation an interval after the last firing is told. -/
theorem Told.not_silent {τ : Timing} {es : List Evaluation} {row : AlertState}
    {told : List (ℤ × EventType)} {closed : List Episode} {running : Option Episode}
    (h : Told τ.renotifyInterval es row told closed running) (hc : Consistent row)
    (hep : ep ∈ running) (hr : τ.renotifyInterval = some r) (now : ℤ) (value : Option Float)
    (dbNow : ℤ) (hnow : ∀ t ∈ clockReadings es, t ≤ now) (hdue : r.ns ≤ now-ep.lastFiring) :
    (evalStep τ row (.condition now true value dbNow)).2 = some (now, .firing) := by
  have hrow : row.state = .firing := h.firing_iff.mpr (Option.isSome_of_mem hep)
  have hl := h.running_last ep hep
  have hsub : r.ns ≤ timeSub now ep.lastFiring :=
    (le_timeSub_iff_of_le r now _ (hnow _ (h.running_read ep hep))).mpr hdue
  obtain ⟨next, ev, heq, hstep⟩ := evalStep_true τ row now value dbNow hc
  rw [heq]
  cases hstep with
  | enter _ _ _ _ _ _ _ _ => rfl
  | wait _ hne _ _ _ _ _ _ => exact absurd hrow hne
  | renotify _ _ _ _ _ _ _ _ _ _ => rfl
  | quiet _ hq _ _ _ _ => exact absurd hsub (hq r _ hr hl)

/-- The notification protocol over whole runs: the events are episodes, each told as
often as the interval asks, and the row describes the running one. -/
theorem notify_protocol (τ : Timing) (es : List Evaluation)
    (hnow : (clockReadings es).Pairwise (· ≤ ·)) :
    ∃ eps : List Episode,
      notifications τ initialState es = eps.flatMap Episode.events ∧
      (∀ ep ∈ eps.dropLast, ep.resolved.isSome) ∧
      (∀ ep ∈ eps, ep.Paced τ.renotifyInterval) ∧
      ((stateAfter τ initialState es).state = .firing ↔
        ∃ ep, eps.getLast? = some ep ∧ ep.resolved = none) ∧
      (∀ ep, eps.getLast? = some ep → ep.resolved = none →
        (stateAfter τ initialState es).firedAt = some ep.first ∧
        ∀ r, τ.renotifyInterval = some r → ∀ now value dbNow,
          (∀ t ∈ clockReadings es, t ≤ now) → r.ns ≤ now-ep.lastFiring →
          (evalStep τ (stateAfter τ initialState es) (.condition now true value dbNow)).2 =
            some (now, .firing)) ∧
      (∀ fs, (∀ gs, gs <+: fs → (stateAfter τ initialState (es ++ gs)).state = .firing) →
        (stateAfter τ initialState (es ++ fs)).firedAt = (stateAfter τ initialState es).firedAt) ∧
      Consistent (stateAfter τ initialState es) := by
  obtain ⟨closed, running, h⟩ := told_run τ es hnow
  have hc := stateAfter_consistent τ initialState initialState_consistent es
  refine ⟨closed ++ running.toList, ?_, ?_, ?_, ?_, ?_, ?_, hc⟩
  · rw [h.events, List.flatMap_append]
  · intro ep hep
    cases running with
    | none => exact h.closed_resolved ep (by simpa using List.mem_of_mem_dropLast hep)
    | some ep' => exact h.closed_resolved ep (by simpa using hep)
  · intro ep hep
    rcases List.mem_append.mp hep with hm | hm
    · exact h.closed_paced ep hm
    · exact h.running_paced ep (by simpa using hm)
  · constructor
    · intro hf
      obtain ⟨ep, hep⟩ := Option.isSome_iff_exists.mp (h.firing_iff.mp hf)
      exact ⟨ep, by simp [hep], h.running_open ep hep⟩
    · rintro ⟨ep, hl, hopen⟩
      exact h.firing_iff.mpr (Option.isSome_of_mem (h.mem_running hl hopen))
  · intro ep hl hopen
    have hmem := h.mem_running hl hopen
    exact ⟨h.running_fired ep hmem, fun r hr now value dbNow hn hdue =>
      h.not_silent hc hmem hr now value dbNow hn hdue⟩
  · intro fs hf
    rw [stateAfter_append]
    exact stateAfter_firedAt τ _ hc fs (fun gs hgs => by rw [← stateAfter_append]; exact hf gs hgs)

/-- Two true evaluations and a false one. -/
def flicker : List Evaluation :=
  [.condition 0 true none 0, .condition 5 true none 5, .condition 9 false none 9]

/-- Without debounce they are one episode, from 0 to 9, and it is told once. -/
theorem notify_protocol_flicker :
    ∃ eps : List Episode, eps = [⟨0, [], some 9⟩] ∧
      notifications ⟨⟨0, by decide, by decide⟩, none⟩ initialState flicker =
        eps.flatMap Episode.events ∧
      (∀ ep ∈ eps, ep.Paced none) ∧
      (stateAfter ⟨⟨0, by decide, by decide⟩, none⟩ initialState flicker).state ≠ .firing := by
  obtain ⟨eps, htold, -, hpaced, hfiring, -⟩ :=
    notify_protocol ⟨⟨0, by decide, by decide⟩, none⟩ flicker (by decide)
  have hevents : eps.flatMap Episode.events = [(0, .firing), (9, .resolved)] := htold.symm
  have hone : eps = [⟨0, [], some 9⟩] := by
    cases eps with
    | nil => cases hevents
    | cons ep eps =>
      obtain ⟨first, repeats, resolved⟩ := ep
      obtain rfl : repeats = [] := hpaced _ List.mem_cons_self
      cases resolved with
      | none =>
        -- Then the next episode would begin with its resolution.
        cases eps with
        | nil => cases hevents
        | cons ep eps => simp [Episode.events, Episode.firings] at hevents
      | some t =>
        obtain ⟨⟨rfl, rfl⟩, hnone⟩ : (first = 0 ∧ t = 9) ∧ eps.flatMap Episode.events = [] := by
          simpa [Episode.events, Episode.firings, and_assoc] using hevents
        cases eps with
        | nil => rfl
        | cons ep eps => cases hnone
  refine ⟨eps, hone, htold, hpaced, ?_⟩
  rw [ne_eq, hfiring, hone]
  rintro ⟨ep, hlast, hopen⟩
  obtain rfl := Option.some.inj hlast
  cases hopen

end CairnObs.Alerting
