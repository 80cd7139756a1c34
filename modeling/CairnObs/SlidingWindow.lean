import Mathlib.Algebra.Order.Group.Defs
import Mathlib.Tactic

/-! Attempts that are allowed or denied over time, at most `max` of them for a key in a window
of length `w`. -/
namespace SlidingWindow

/-- An attempt and how it was answered. -/
@[ext] structure Answer (κ τ : Type*) where
  key : κ
  time : τ
  allowed : Bool
  deriving DecidableEq

variable {κ τ : Type*} [DecidableEq κ]

/-- Only what was allowed for a key counts for it. -/
def Answer.counts (k : κ) (d : Answer κ τ) : Bool := decide (d.key = k) && d.allowed

def Answer.call (d : Answer κ τ) : κ × τ := (d.key, d.time)

theorem Answer.counts_iff {k : κ} {d : Answer κ τ} :
    d.counts k = true ↔ d.key = k ∧ d.allowed = true := by
  rw [counts, Bool.and_eq_true, decide_eq_true_iff]

variable [AddCommGroup τ] [LinearOrder τ]

/-- What counts for a key in the window that ends at `t`. -/
def recent (w : τ) (k : κ) (t : τ) (H : List (Answer κ τ)) : List (Answer κ τ) :=
  H.filter (fun d => d.counts k && decide (t-w < d.time))

/-- Every attempt of a history is answered from the window in front of it. -/
def Exact (max : ℕ) (w : τ) (H : List (Answer κ τ)) : Prop :=
  ∀ pre e post, H = pre ++ e :: post →
    (e.allowed = true ↔ (recent w e.key e.time pre).length < max)

theorem recent_filter_counts (w : τ) (k : κ) (t : τ) (H : List (Answer κ τ)) :
    recent w k t (H.filter (Answer.counts k)) = recent w k t H := by
  rw [recent, recent, List.filter_filter]
  refine List.filter_congr fun d _ => ?_
  cases d.counts k <;> simp

section Exact
variable {max : ℕ} {w : τ} {H : List (Answer κ τ)}

theorem exact_nil : Exact max w ([] : List (Answer κ τ)) :=
  fun pre e post h => absurd h.symm (by simp)

theorem exact_concat_iff {e : Answer κ τ} : Exact max w (H ++ [e]) ↔
    Exact max w H ∧ (e.allowed = true ↔ (recent w e.key e.time H).length < max) := by
  constructor
  · intro h
    refine ⟨fun pre d post hH => ?_, h H e [] rfl⟩
    exact h pre d (post ++ [e]) (by rw [hH, List.append_assoc, List.cons_append])
  · rintro ⟨hH, he⟩ pre d post hsplit
    rcases List.eq_nil_or_concat' post with rfl | ⟨post, d', rfl⟩
    · obtain ⟨rfl, hd⟩ := List.append_inj' hsplit rfl
      obtain rfl := List.singleton_inj.mp hd
      exact he
    · rw [← List.cons_append, ← List.append_assoc] at hsplit
      exact hH pre d post (List.append_inj' hsplit rfl).1

/-- The answers are determined by the attempts. -/
theorem Exact.unique {H' : List (Answer κ τ)} (h : Exact max w H) (h' : Exact max w H')
    (hcalls : H.map Answer.call = H'.map Answer.call) : H = H' := by
  induction H using List.reverseRecOn generalizing H' with
  | nil => exact (List.map_eq_nil_iff.mp hcalls.symm).symm
  | append_singleton H e ih =>
    rcases List.eq_nil_or_concat' H' with rfl | ⟨H', e', rfl⟩
    · exact absurd hcalls (by simp)
    · rw [List.map_append, List.map_append] at hcalls
      obtain ⟨hinit, hlast⟩ := List.append_inj' hcalls rfl
      obtain ⟨hH, he⟩ := exact_concat_iff.mp h
      obtain ⟨hH', he'⟩ := exact_concat_iff.mp h'
      obtain rfl := ih hH hH' hinit
      obtain ⟨hkey, htime⟩ := Prod.mk.inj (List.singleton_inj.mp hlast)
      have hallowed : e.allowed = e'.allowed := by
        rw [Bool.eq_iff_iff, he, he', hkey, htime]
      rw [Answer.ext hkey htime hallowed]

/-- What counts for one key is a history of its own. -/
theorem Exact.filter_counts (h : Exact max w H) (k : κ) :
    Exact max w (H.filter (Answer.counts k)) := by
  induction H using List.reverseRecOn with
  | nil => exact exact_nil
  | append_singleton H e ih =>
    obtain ⟨hH, he⟩ := exact_concat_iff.mp h
    rw [List.filter_append]
    cases hcounts : e.counts k with
    | false => simpa [hcounts] using ih hH
    | true =>
      obtain ⟨rfl, hallowed⟩ := Answer.counts_iff.mp hcounts
      rw [List.filter_cons_of_pos hcounts, List.filter_nil]
      exact exact_concat_iff.mpr ⟨ih hH, by rwa [recent_filter_counts]⟩

/-- An attempt is answered the same without what was denied before it, and without what was
asked for other keys. -/
theorem Exact.alone {pre post : List (Answer κ τ)} {e : Answer κ τ}
    (h : Exact max w (pre ++ e :: post)) :
    Exact max w (pre.filter (Answer.counts e.key) ++ [e]) := by
  have hpre : Exact max w pre := fun pre' d post' hsplit =>
    h pre' d (post' ++ e :: post) (by rw [hsplit, List.append_assoc, List.cons_append])
  refine exact_concat_iff.mpr ⟨hpre.filter_counts e.key, ?_⟩
  rw [recent_filter_counts]
  exact h pre e post rfl

/-- At most `max` attempts count among those of which none is a whole window older than
another. -/
theorem Exact.length_filter_le (h : Exact max w H) (k : κ) {P : Answer κ τ → Bool}
    (hP : ∀ d e, P d = true → P e = true → e.time-w < d.time) :
    (H.filter (fun d => d.counts k && P d)).length ≤ max := by
  induction H using List.reverseRecOn with
  | nil => exact Nat.zero_le max
  | append_singleton H e ih =>
    obtain ⟨hH, he⟩ := exact_concat_iff.mp h
    rw [List.filter_append, List.length_append]
    cases hlast : e.counts k && P e with
    | false => simpa [hlast] using ih hH
    | true =>
      obtain ⟨hcounts, hPe⟩ := Bool.and_eq_true_iff.mp hlast
      obtain ⟨rfl, hallowed⟩ := Answer.counts_iff.mp hcounts
      have hfew := he.mp hallowed
      -- All the others lie in the window of the last one.
      have hsub : (H.filter (fun d => d.counts e.key && P d)).length ≤
          (recent w e.key e.time H).length := by
        refine (List.monotone_filter_right H fun d hd => ?_).length_le
        obtain ⟨hd, hPd⟩ := Bool.and_eq_true_iff.mp hd
        rw [hd, Bool.true_and, decide_eq_true_iff]
        exact hP d e hPd hPe
      have hone : [e].filter (fun d => d.counts e.key && P d) = [e] := by simp [hcounts, hPe]
      rw [hone, List.length_singleton]
      omega

variable [IsOrderedAddMonoid τ]

theorem Exact.interval_le (h : Exact max w H) (k : κ) (a : τ) :
    (H.filter (fun d => d.counts k && decide (a ≤ d.time ∧ d.time < a+w))).length ≤ max := by
  refine h.length_filter_le k fun d e hd he => ?_
  obtain ⟨hda, -⟩ := of_decide_eq_true hd
  obtain ⟨-, hea⟩ := of_decide_eq_true he
  exact (sub_lt_iff_lt_add.mpr hea).trans_le hda

theorem Exact.interval_le' (h : Exact max w H) (k : κ) (a : τ) :
    (H.filter (fun d => d.counts k && decide (a < d.time ∧ d.time ≤ a+w))).length ≤ max := by
  refine h.length_filter_le k fun d e hd he => ?_
  obtain ⟨hda, -⟩ := of_decide_eq_true hd
  obtain ⟨-, hea⟩ := of_decide_eq_true he
  exact (sub_le_iff_le_add.mpr hea).trans_lt hda

end Exact

end SlidingWindow
