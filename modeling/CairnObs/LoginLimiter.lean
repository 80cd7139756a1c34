import CairnObs.SlidingWindow

/-! The limit on login attempts, `localauth/ratelimit.go`. -/
namespace CairnObs.LocalAuth

open SlidingWindow

/-- A key without attempts has the empty list, as a missing entry of the map reads. Times are in
nanoseconds. -/
structure LoginLimiter (κ : Type) where
  attempts : κ → List ℤ
  max : ℕ
  window : ℤ

variable {κ : Type} [DecidableEq κ]

def newLoginLimiter (κ : Type) (max : ℕ) (window : ℤ) : LoginLimiter κ := ⟨fun _ => [], max, window⟩

/-- The loop over the attempts of a key, which keeps those after the cutoff. -/
def LoginLimiter.kept (l : LoginLimiter κ) (key : κ) (now : ℤ) : List ℤ :=
  let cutoff := now-l.window
  (l.attempts key).filter (fun t => decide (cutoff < t))

/-- The answer, and the limiter after the call. -/
def LoginLimiter.allow (l : LoginLimiter κ) (key : κ) (now : ℤ) : Bool × LoginLimiter κ :=
  if l.max ≤ (l.kept key now).length then
    (false, { l with attempts := Function.update l.attempts key (l.kept key now) })
  else (true, { l with attempts := Function.update l.attempts key (l.kept key now ++ [now]) })

/-- A call, with the answers so far. -/
def LoginLimiter.answer (s : LoginLimiter κ × List (Answer κ ℤ)) (call : κ × ℤ) :
    LoginLimiter κ × List (Answer κ ℤ) :=
  let r := s.1.allow call.1 call.2
  (r.2, s.2 ++ [⟨call.1, call.2, r.1⟩])

/-- The state and the answers after calls to a new limiter. -/
def limited (max : ℕ) (window : ℤ) (calls : List (κ × ℤ)) :
    LoginLimiter κ × List (Answer κ ℤ) :=
  calls.foldl LoginLimiter.answer (newLoginLimiter κ max window, [])

def answers (max : ℕ) (window : ℤ) (calls : List (κ × ℤ)) : List (Answer κ ℤ) :=
  (limited max window calls).2

/-! ### The pruned list and the history -/

/-- From time `T` on, the list of a key stands for all attempts that counted for it. -/
structure LoginLimiter.Stands (max : ℕ) (w : ℤ) (T : ℤ) (l : LoginLimiter κ)
    (H : List (Answer κ ℤ)) : Prop where
  max_eq : l.max = max
  window_eq : l.window = w
  attempts : ∀ k t, T ≤ t → (l.attempts k).filter (fun x => decide (t-w < x)) =
    (recent w k t H).map Answer.time

variable {max : ℕ} {w T : ℤ} {l : LoginLimiter κ} {H : List (Answer κ ℤ)}

theorem recent_concat (k : κ) (t : ℤ) (e : Answer κ ℤ) : recent w k t (H ++ [e]) =
    recent w k t H ++ if e.counts k && decide (t-w < e.time) then [e] else [] := by
  rw [recent, List.filter_append, ← recent]
  congr 1
  cases h : e.counts k && decide (t-w < e.time) with
  | true => simpa using h
  | false => simpa using h

variable {now : ℤ}

/-- A list that was pruned earlier is pruned the same now. -/
theorem filter_pruned {xs : List ℤ} {t : ℤ} (h : now ≤ t) :
    (xs.filter (fun x => decide (now-w < x))).filter (fun x => decide (t-w < x)) =
      xs.filter (fun x => decide (t-w < x)) := by
  rw [List.filter_filter]
  refine List.filter_congr fun x _ => ?_
  by_cases hx : t-w < x
  · rw [decide_eq_true hx, decide_eq_true (by omega), Bool.and_self]
  · rw [decide_eq_false hx, Bool.false_and]

/-- A call prunes the list, and adds the time if it is allowed. -/
theorem LoginLimiter.allow_eq (l : LoginLimiter κ) (k : κ) (now : ℤ) :
    l.allow k now = (decide ((l.kept k now).length < l.max),
      { l with attempts := Function.update l.attempts k (l.kept k now ++
        if (l.kept k now).length < l.max then [now] else []) }) := by
  by_cases hfull : l.max ≤ (l.kept k now).length
  · rw [allow, if_pos hfull, decide_eq_false (Nat.not_lt.mpr hfull),
      if_neg (Nat.not_lt.mpr hfull), List.append_nil]
  · rw [allow, if_neg hfull, decide_eq_true (Nat.not_le.mp hfull), if_pos (Nat.not_le.mp hfull)]

theorem LoginLimiter.Stands.kept (h : l.Stands max w T H) {k : κ} (hnow : T ≤ now) :
    l.kept k now = (recent w k now H).map Answer.time := by
  rw [LoginLimiter.kept, h.window_eq, h.attempts k now hnow]

/-- The answer of one call. -/
theorem LoginLimiter.Stands.allow_iff (h : l.Stands max w T H) {k : κ} (hnow : T ≤ now) :
    (l.allow k now).1 = true ↔ (recent w k now H).length < max := by
  rw [allow_eq, decide_eq_true_iff, h.kept hnow, List.length_map, h.max_eq]

theorem LoginLimiter.Stands.allow (h : l.Stands max w T H) {k : κ} (hnow : T ≤ now) :
    (l.allow k now).2.Stands max w now (H ++ [⟨k, now, (l.allow k now).1⟩]) := by
  rw [allow_eq]
  refine ⟨h.max_eq, h.window_eq, fun k' t ht => ?_⟩
  rw [recent_concat, List.map_append, ← h.attempts k' t (hnow.trans ht)]
  dsimp only
  by_cases hk : k' = k
  · subst hk
    rw [Function.update_self, List.filter_append, LoginLimiter.kept, h.window_eq,
      filter_pruned ht]
    congr 1
    by_cases hallowed :
        ((l.attempts k').filter (fun x => decide (now-w < x))).length < l.max
    · by_cases hin : t-w < now
      · simp [Answer.counts, hin, hallowed]
      · simp [Answer.counts, hin, hallowed]
    · simp [Answer.counts, hallowed]
  · rw [Function.update_of_ne hk]
    simp [Answer.counts, Ne.symm hk]

/-! ### Whole sequences of calls -/

theorem answers_concat (calls : List (κ × ℤ)) (k : κ) (now : ℤ) :
    limited max w (calls ++ [(k, now)]) =
      LoginLimiter.answer (limited max w calls) (k, now) := by
  rw [limited, List.foldl_append]
  rfl

/-- The clock readings do not go back. -/
def Ordered (calls : List (κ × ℤ)) : Prop := calls.Pairwise (fun c d => c.2 ≤ d.2)

theorem limited_stands {calls : List (κ × ℤ)} (hordered : Ordered calls)
    (hT : ∀ c ∈ calls, c.2 ≤ T) :
    (limited max w calls).1.Stands max w T (answers max w calls) ∧
      Exact max w (answers max w calls) ∧ (answers max w calls).map Answer.call = calls := by
  induction calls using List.reverseRecOn generalizing T with
  | nil => exact ⟨⟨rfl, rfl, fun _ _ _ => rfl⟩, exact_nil, rfl⟩
  | append_singleton calls call ih =>
    obtain ⟨k, now⟩ := call
    obtain ⟨hcalls, -, hlast⟩ := List.pairwise_append.mp hordered
    have hbefore : ∀ c ∈ calls, c.2 ≤ now :=
      fun c hc => hlast c hc (k, now) (List.mem_singleton_self _)
    obtain ⟨hstands, hexact, hmap⟩ := ih hcalls hbefore
    have hnow : now ≤ T := hT (k, now) (List.mem_append_right _ (List.mem_singleton_self _))
    have hafter := hstands.allow (k := k) (le_refl now)
    rw [answers, answers_concat]
    refine ⟨⟨hafter.max_eq, hafter.window_eq, fun k' t ht => ?_⟩, ?_, ?_⟩
    · exact hafter.attempts k' t (hnow.trans ht)
    · exact exact_concat_iff.mpr ⟨hexact, hstands.allow_iff (le_refl now)⟩
    · show (answers max w calls ++ [_]).map Answer.call = _
      rw [List.map_append, hmap]
      rfl

theorem answers_exact {calls : List (κ × ℤ)} (hordered : Ordered calls) :
    Exact max w (answers max w calls) ∧ (answers max w calls).map Answer.call = calls := by
  have hlast : ∃ T, ∀ c ∈ calls, c.2 ≤ T := by
    refine ⟨(calls.map Prod.snd).foldr (· ⊔ ·) 0, fun c hc => ?_⟩
    exact List.le_max_of_le' 0 (List.mem_map_of_mem hc) (le_refl c.2)
  obtain ⟨T, hT⟩ := hlast
  exact (limited_stands hordered hT).2

/-- The limiter is an exact sliding window: a call is allowed just if fewer than the maximum of
the earlier allowed calls for its key lie in the window that ends with it. So no half-open
interval of the length of the window has more of them, and what was denied, or asked for
another key, changes nothing. -/
theorem login_limiter_exact (max : ℕ) (w : ℤ) {calls : List (κ × ℤ)} (hordered : Ordered calls) :
    (answers max w calls).map Answer.call = calls ∧
    (∀ pre e post, answers max w calls = pre ++ e :: post →
      (e.allowed = true ↔ (recent w e.key e.time pre).length < max)) ∧
    (∀ k a, ((answers max w calls).filter (fun d => d.counts k &&
        decide (a ≤ d.time ∧ d.time < a+w))).length ≤ max ∧
      ((answers max w calls).filter (fun d => d.counts k &&
        decide (a < d.time ∧ d.time ≤ a+w))).length ≤ max) ∧
    ∀ pre e post, answers max w calls = pre ++ e :: post →
      answers max w ((pre.filter (Answer.counts e.key) ++ [e]).map Answer.call) =
        pre.filter (Answer.counts e.key) ++ [e] := by
  obtain ⟨hexact, hcalls⟩ := @answers_exact κ _ max w calls hordered
  refine ⟨hcalls, hexact, fun k a => ⟨hexact.interval_le k a, hexact.interval_le' k a⟩, ?_⟩
  intro pre e post hsplit
  have hsub : (pre.filter (Answer.counts e.key) ++ [e]).Sublist (answers max w calls) := by
    rw [hsplit]
    exact List.filter_sublist.append (List.singleton_sublist.mpr List.mem_cons_self)
  have hfewer : Ordered ((pre.filter (Answer.counts e.key) ++ [e]).map Answer.call) := by
    refine List.Pairwise.sublist (hsub.map Answer.call) ?_
    rw [hcalls]
    exact hordered
  obtain ⟨hexact', hcalls'⟩ := @answers_exact κ _ max w _ hfewer
  rw [hsplit] at hexact
  exact hexact'.unique hexact.alone hcalls'

/-- The limit of the login handler is 10 attempts in 5 minutes. -/
def loginRateLimitMax : ℕ := 10

def loginRateLimitWindow : ℤ := 5*60*1000000000

/-- An attempt in every second. -/
def elevenAttempts : List (String × ℤ) :=
  (List.range 11).map (fun i => ("10.0.0.1", (i : ℤ)*1000000000))

theorem elevenAttempts_limited :
    Ordered elevenAttempts ∧
    (answers loginRateLimitMax loginRateLimitWindow elevenAttempts).getLast? =
      some ⟨"10.0.0.1", 10000000000, false⟩ ∧
    ((answers loginRateLimitMax loginRateLimitWindow elevenAttempts).filter (fun d =>
      d.counts "10.0.0.1" && decide (0 ≤ d.time ∧ d.time < 0+loginRateLimitWindow))).length ≤
      loginRateLimitMax := by
  have hordered : Ordered elevenAttempts := by
    unfold Ordered elevenAttempts
    decide +kernel
  refine ⟨hordered, by decide +kernel, ?_⟩
  exact ((login_limiter_exact loginRateLimitMax loginRateLimitWindow hordered).2.2.1
    "10.0.0.1" 0).1

end CairnObs.LocalAuth
