import CairnObs.GuardedRuns
import CairnObs.GoText

/-! The one-shot command of an agent: `pending_command` of its row in `agents`, written by
`IssueCommand` and read and cleared by `Registry.CheckIn`, for one tenant and host. -/
namespace CairnObs.AgentCommands

open GoText GuardedRuns

/-- A command in the slot, with the number of the `IssueCommand` call that put it there. -/
structure Queued where
  number : ℕ
  command : Text
  deriving DecidableEq, Repr

/-- Where a `CheckIn` call is. `found` says whether its SELECT found the row, `read` is the
command it read, and `took` the one that its commit has removed from the slot. -/
inductive Phase
  | idle
  | begun
  | selected (found : Bool) (read : Option Queued)
  | upserted (found : Bool) (read : Option Queued)
  | committed (found : Bool) (read took : Option Queued)
  | returned (read : Option Queued)
  | failed
  deriving DecidableEq, Repr

/-- Before the commit an error rolls the transaction back. -/
def Phase.isOpen : Phase → Bool
  | .idle | .begun | .selected _ _ | .upserted _ _ => true
  | .committed _ _ _ | .returned _ | .failed => false

/-- The call has committed and not returned yet. -/
def Phase.isFinishing : Phase → Bool
  | .committed _ _ _ => true
  | _ => false

/-- How a command has left the slot. -/
inductive Departure (ρ : Type)
  | overwritten (later : Queued)
  | cleared (r : ρ)

/-- `row` is the committed row, if there is one, with its pending command, and `lock` the call
that holds the lock on it, or on its key by an insert that is not committed. `issued` counts the
commands and `departed` records those that have left the slot. -/
structure State (ρ : Type) where
  row : Option (Option Queued)
  lock : Option ρ
  phases : ρ → Phase
  issued : ℕ
  departed : List (Queued × Departure ρ)

variable {ρ : Type}

def State.pending (s : State ρ) : Option Queued := s.row.join

def State.move [DecidableEq ρ] (s : State ρ) (r : ρ) (p : Phase) : State ρ :=
  { s with phases := Function.update s.phases r p }

/-- The departures once the slot is written over. -/
def State.depart (s : State ρ) (how : Departure ρ) : List (Queued × Departure ρ) :=
  match s.pending with
  | none => s.departed
  | some q => (q, how) :: s.departed

/-- The upsert of `r` comes into effect: `pending_command = NULL`. -/
def State.clear (s : State ρ) (r : ρ) : State ρ :=
  { s with row := some none, lock := none, departed := s.depart (.cleared r) }

def State.lockFor (s : State ρ) (r : ρ) : State ρ := { s with lock := some r }

def State.release [DecidableEq ρ] (s : State ρ) (r : ρ) : State ρ :=
  { s with lock := if s.lock = some r then none else s.lock }

/-- A command is written over whatever is in the slot. -/
def State.put (s : State ρ) (command : Text) : State ρ :=
  { s with
    row := some (some ⟨s.issued, command⟩)
    issued := s.issued + 1
    departed := s.depart (.overwritten ⟨s.issued, command⟩) }

inductive Action (ρ : Type)
  | start (r : ρ)
  | select (r : ρ)
  | upsert (r : ρ)
  | commit (r : ρ)
  -- `Commit` returns an error; `applied` says whether the server has committed
  | commitError (r : ρ) (applied : Bool)
  -- `Begin` or one of the two statements fails
  | fail (r : ρ)
  | returnOk (r : ρ)
  -- the stored override does not parse
  | returnError (r : ρ)
  | issue (command : Text)

/-- A statement that has to wait for a lock is not enabled. -/
def step [DecidableEq ρ] (s : State ρ) : Action ρ → Option (State ρ)
  | .start r => if s.phases r = .idle then some (s.move r .begun) else none
  | .select r =>
    match s.phases r with
    | .begun =>
      match s.row with
      -- an insert that is not committed is not seen
      | none => some (s.move r (.selected false none))
      | some pending =>
        if s.lock = none then some ((s.lockFor r).move r (.selected true pending)) else none
    | _ => none
  | .upsert r =>
    match s.phases r with
    | .selected found read =>
      if s.lock = none ∨ s.lock = some r then
        some ((s.lockFor r).move r (.upserted found read))
      else none
    | _ => none
  | .commit r =>
    match s.phases r with
    | .upserted found read => some ((s.clear r).move r (.committed found read s.pending))
    | _ => none
  | .commitError r applied =>
    match s.phases r with
    | .upserted _ _ => some ((if applied then s.clear r else s.release r).move r .failed)
    | _ => none
  | .fail r => if (s.phases r).isOpen then some ((s.release r).move r .failed) else none
  | .returnOk r =>
    match s.phases r with
    | .committed _ read _ => some (s.move r (.returned read))
    | _ => none
  | .returnError r =>
    match s.phases r with
    | .committed _ _ _ => some (s.move r .failed)
    | _ => none
  | .issue command =>
    match s.row with
    -- `ErrNotFound`
    | none => some s
    | some _ => if s.lock = none then some (s.put command) else none

def initial : State ρ := ⟨none, none, fun _ => .idle, 0, []⟩

/-- The steps, one case for each way in which an action can go. -/
inductive Moves [DecidableEq ρ] (s : State ρ) : Action ρ → State ρ → Prop
  | start {r : ρ} (hphase : s.phases r = .idle) : Moves s (.start r) (s.move r .begun)
  | selectNone {r : ρ} (hphase : s.phases r = .begun) :
      Moves s (.select r) (s.move r (.selected false none))
  | selectRow {r : ρ} {pending : Option Queued} (hphase : s.phases r = .begun)
      (hrow : s.row = some pending) (hlock : s.lock = none) :
      Moves s (.select r) ((s.lockFor r).move r (.selected true pending))
  | upsert {r : ρ} {found : Bool} {read : Option Queued}
      (hphase : s.phases r = .selected found read) (hlock : s.lock = none ∨ s.lock = some r) :
      Moves s (.upsert r) ((s.lockFor r).move r (.upserted found read))
  | commit {r : ρ} {found : Bool} {read : Option Queued}
      (hphase : s.phases r = .upserted found read) :
      Moves s (.commit r) ((s.clear r).move r (.committed found read s.pending))
  | commitLost {r : ρ} {found : Bool} {read : Option Queued}
      (hphase : s.phases r = .upserted found read) :
      Moves s (.commitError r true) ((s.clear r).move r .failed)
  | commitRefused {r : ρ} {found : Bool} {read : Option Queued}
      (hphase : s.phases r = .upserted found read) :
      Moves s (.commitError r false) ((s.release r).move r .failed)
  | fail {r : ρ} (hphase : (s.phases r).isOpen = true) :
      Moves s (.fail r) ((s.release r).move r .failed)
  | returnOk {r : ρ} {found : Bool} {read took : Option Queued}
      (hphase : s.phases r = .committed found read took) :
      Moves s (.returnOk r) (s.move r (.returned read))
  | returnError {r : ρ} {found : Bool} {read took : Option Queued}
      (hphase : s.phases r = .committed found read took) :
      Moves s (.returnError r) (s.move r .failed)
  | notFound {command : Text} : Moves s (.issue command) s
  | issue {command : Text} (hlock : s.lock = none) : Moves s (.issue command) (s.put command)

variable {a : Action ρ} {took : Option Queued}

theorem moves_of_step [DecidableEq ρ] {s t : State ρ} (h : step s a = some t) : Moves s a t := by
  cases a with
  | start r =>
    simp only [step] at h
    split_ifs at h with hphase
    cases h
    exact .start hphase
  | select r =>
    simp only [step] at h
    split at h <;> try cases h
    rename_i hphase
    split at h
    · cases h
      exact .selectNone hphase
    · rename_i hrow
      split_ifs at h with hlock
      cases h
      exact .selectRow hphase hrow hlock
  | upsert r =>
    simp only [step] at h
    split at h <;> try cases h
    rename_i hphase
    split_ifs at h with hlock
    cases h
    exact .upsert hphase hlock
  | commit r =>
    simp only [step] at h
    split at h <;> cases h
    rename_i hphase
    exact .commit hphase
  | commitError r applied =>
    simp only [step] at h
    split at h <;> cases h
    rename_i hphase
    cases applied with
    | true => exact .commitLost hphase
    | false => exact .commitRefused hphase
  | fail r =>
    simp only [step] at h
    split_ifs at h with hphase
    cases h
    exact .fail hphase
  | returnOk r =>
    simp only [step] at h
    split at h <;> cases h
    rename_i hphase
    exact .returnOk hphase
  | returnError r =>
    simp only [step] at h
    split at h <;> cases h
    rename_i hphase
    exact .returnError hphase
  | issue command =>
    simp only [step] at h
    split at h
    · cases h
      exact .notFound
    · split_ifs at h with hlock
      cases h
      exact .issue hlock

/-! ### The property -/

/-- A command that has left the slot was overwritten by a later one, or exactly one check-in
has returned it; the check-in that cleared it may still be finishing. -/
def State.Accounted (s : State ρ) (q : Queued) : Departure ρ → Prop
  | .overwritten later => q.number < later.number
  | .cleared r => (s.phases r).isFinishing = true ∨ ∃! r', s.phases r' = .returned (some q)

structure Delivered (s : State ρ) : Prop where
  accounted : ∀ q how, (q, how) ∈ s.departed → s.Accounted q how
  -- what a check-in returns was pending until its own commit cleared it
  pending : ∀ r q, s.phases r = .returned (some q) → (q, .cleared r) ∈ s.departed

/-- No command is cleared by a check-in that found no row, and none by one that then fails. -/
def CleanStep (s : State ρ) : Action ρ → Prop
  | .commitError _ true => s.pending = none
  | .returnOk r =>
    match s.phases r with
    | .committed false _ took => took = none
    | _ => True
  | .returnError r =>
    match s.phases r with
    | .committed _ _ took => took = none
    | _ => True
  | _ => True

/-! ### What holds in every run: the commands -/

variable {q : Queued} {p : Phase} {r' : ρ}

theorem mem_depart {s : State ρ} {how how' : Departure ρ} :
    (q, how') ∈ s.depart how ↔ (s.pending = some q ∧ how' = how) ∨ (q, how') ∈ s.departed := by
  unfold State.depart
  cases s.pending with
  | none => simp
  | some p => simp [eq_comm]

/-- Commands leave the slot in the order of their numbers, each of them once. -/
structure Numbered (s : State ρ) : Prop where
  pending_lt : ∀ q ∈ s.pending, q.number < s.issued
  departed_lt : ∀ q how, (q, how) ∈ s.departed → q.number < s.issued
  departed_lt_pending : ∀ q how, (q, how) ∈ s.departed → ∀ p ∈ s.pending, q.number < p.number
  once : ∀ q how how', (q, how) ∈ s.departed → (q, how') ∈ s.departed → how = how'
  overwritten_lt : ∀ q later, (q, .overwritten later) ∈ s.departed → q.number < later.number

section Numbered
variable {s : State ρ} {how : Departure ρ}

theorem Numbered.depart_lt (hs : Numbered s) {how' : Departure ρ} (hq : (q, how') ∈ s.depart how) :
    q.number < s.issued := by
  rcases mem_depart.mp hq with ⟨hp, -⟩ | hd
  · exact hs.pending_lt q hp
  · exact hs.departed_lt q how' hd

theorem Numbered.not_mem_of_pending (hs : Numbered s) (hp : s.pending = some q)
    (how' : Departure ρ) :
    (q, how') ∉ s.departed :=
  fun hd => absurd (hs.departed_lt_pending q how' hd q hp) (lt_irrefl _)

theorem Numbered.depart_once (hs : Numbered s) {a b : Departure ρ} (ha : (q, a) ∈ s.depart how)
    (hb : (q, b) ∈ s.depart how) : a = b := by
  rcases mem_depart.mp ha with ⟨hp, rfl⟩ | ha
  · rcases mem_depart.mp hb with ⟨-, rfl⟩ | hb
    · rfl
    · exact absurd hb (hs.not_mem_of_pending hp b)
  · rcases mem_depart.mp hb with ⟨hp, -⟩ | hb
    · exact absurd ha (hs.not_mem_of_pending hp a)
    · exact hs.once q a b ha hb

theorem Numbered.clear (hs : Numbered s) (r : ρ) : Numbered (s.clear r) where
  pending_lt := nofun
  departed_lt _ _ hq := hs.depart_lt hq
  departed_lt_pending _ _ _ := nofun
  once _ _ _ ha hb := hs.depart_once ha hb
  overwritten_lt q later hq := by
    rcases mem_depart.mp hq with ⟨-, hhow⟩ | hd
    · cases hhow
    · exact hs.overwritten_lt q later hd

theorem Numbered.put (hs : Numbered s) (command : Text) : Numbered (s.put command) where
  pending_lt q hq := by
    cases hq
    exact Nat.lt_succ_self _
  departed_lt _ _ hq := (hs.depart_lt hq).trans (Nat.lt_succ_self _)
  departed_lt_pending _ _ hq p hp := by
    cases hp
    exact hs.depart_lt hq
  once _ _ _ ha hb := hs.depart_once ha hb
  overwritten_lt q later hq := by
    rcases mem_depart.mp hq with ⟨hp, hhow⟩ | hd
    · cases hhow
      exact hs.pending_lt q hp
    · exact hs.overwritten_lt q later hd

theorem Numbered.congr {t : State ρ} (hs : Numbered s) (hrow : t.row = s.row)
    (hissued : t.issued = s.issued) (hdeparted : t.departed = s.departed) : Numbered t := by
  obtain ⟨hpending, hlt, hlt', honce, hover⟩ := hs
  constructor <;> simpa only [State.pending, hrow, hissued, hdeparted]

end Numbered

/-! ### What holds in every run: the calls -/

/-- What the commit of `r` has taken out of the slot. -/
def State.Took (s : State ρ) (r : ρ) (took : Option Queued) : Prop :=
  ∀ q, (q, .cleared r) ∈ s.departed ↔ q ∈ took

/-- A call that has found the row holds its lock until its commit, so that the command it read
stays in the slot; a call that has found none has read none. -/
def Holds (s : State ρ) (r : ρ) : Phase → Prop
  | .idle | .begun => s.lock ≠ some r ∧ s.Took r none
  | .selected true read => s.lock = some r ∧ s.row = some read ∧ s.Took r none
  | .selected false read => s.lock ≠ some r ∧ read = none ∧ s.Took r none
  | .upserted true read => s.lock = some r ∧ s.row = some read ∧ s.Took r none
  | .upserted false read => s.lock = some r ∧ read = none ∧ s.Took r none
  | .committed true read took => s.lock ≠ some r ∧ took = read ∧ s.Took r took
  | .committed false read took => s.lock ≠ some r ∧ read = none ∧ s.Took r took
  | .returned read => s.lock ≠ some r ∧ ∀ q ∈ read, (q, .cleared r) ∈ s.departed
  | .failed => s.lock ≠ some r

structure Consistent (s : State ρ) : Prop where
  numbered : Numbered s
  holds : ∀ r, Holds s r (s.phases r)

theorem consistent_initial : Consistent (initial : State ρ) where
  numbered := ⟨nofun, nofun, nofun, nofun, nofun⟩
  holds _ := ⟨nofun, by simp [State.Took, initial]⟩

section Frame
variable {s t : State ρ} {r : ρ}

/-- What a step of another call, or an issued command, may change for `r`. -/
structure SameFor (s t : State ρ) (r : ρ) : Prop where
  lock : t.lock = some r ↔ s.lock = some r
  row : s.lock = some r → t.row = s.row
  took : ∀ q, (q, .cleared r) ∈ t.departed ↔ (q, .cleared r) ∈ s.departed

theorem SameFor.took_iff (h : SameFor s t r) (took : Option Queued) :
    t.Took r took ↔ s.Took r took :=
  forall_congr' fun q => by rw [h.took q]

theorem SameFor.holds (h : SameFor s t r) (hp : Holds s r p) : Holds t r p := by
  cases p with
  | idle => exact ⟨h.lock.not.mpr hp.1, (h.took_iff _).mpr hp.2⟩
  | begun => exact ⟨h.lock.not.mpr hp.1, (h.took_iff _).mpr hp.2⟩
  | selected found read =>
    cases found with
    | false => exact ⟨h.lock.not.mpr hp.1, hp.2.1, (h.took_iff _).mpr hp.2.2⟩
    | true => exact ⟨h.lock.mpr hp.1, (h.row hp.1).trans hp.2.1, (h.took_iff _).mpr hp.2.2⟩
  | upserted found read =>
    cases found with
    | false => exact ⟨h.lock.mpr hp.1, hp.2.1, (h.took_iff _).mpr hp.2.2⟩
    | true => exact ⟨h.lock.mpr hp.1, (h.row hp.1).trans hp.2.1, (h.took_iff _).mpr hp.2.2⟩
  | committed found read took =>
    cases found with
    | false => exact ⟨h.lock.not.mpr hp.1, hp.2.1, (h.took_iff _).mpr hp.2.2⟩
    | true => exact ⟨h.lock.not.mpr hp.1, hp.2.1, (h.took_iff _).mpr hp.2.2⟩
  | returned read => exact ⟨h.lock.not.mpr hp.1, fun q hq => (h.took q).mpr (hp.2 q hq)⟩
  | failed => exact h.lock.not.mpr hp

theorem sameFor_refl (s : State ρ) (r : ρ) : SameFor s s r :=
  ⟨Iff.rfl, fun _ => rfl, fun _ => Iff.rfl⟩

/-- The call that holds the lock commits. -/
theorem sameFor_clear (hlock : s.lock = some r) (hr : r' ≠ r) :
    SameFor s (s.clear r) r' where
  lock := by
    refine iff_of_false nofun ?_
    rw [hlock]
    exact fun h => hr (Option.some.inj h).symm
  row h := absurd (Option.some.inj (h.symm.trans hlock)) hr
  took q := by
    refine mem_depart.trans (or_iff_right ?_)
    rintro ⟨-, hhow⟩
    exact hr (Departure.cleared.inj hhow)

theorem sameFor_lockFor (hlock : s.lock = none ∨ s.lock = some r) (hr : r' ≠ r) :
    SameFor s (s.lockFor r) r' where
  lock := by
    refine iff_of_false (fun h => hr (Option.some.inj h).symm) ?_
    rcases hlock with h | h
    · rw [h]
      exact nofun
    · rw [h]
      exact fun h => hr (Option.some.inj h).symm
  row _ := rfl
  took _ := Iff.rfl

theorem sameFor_put (hlock : s.lock = none) (command : Text) (r : ρ) :
    SameFor s (s.put command) r where
  lock := Iff.rfl
  row h := nomatch hlock.symm.trans h
  took q := by
    refine mem_depart.trans (or_iff_right ?_)
    rintro ⟨-, hhow⟩
    cases hhow

theorem took_clear (h : s.Took r none) : (s.clear r).Took r s.pending := by
  intro q
  refine mem_depart.trans ?_
  simp [h q]

/-- An upserted call holds the lock and has taken nothing yet. -/
theorem Holds.of_upserted {found : Bool} {read : Option Queued}
    (h : Holds s r (.upserted found read)) : s.lock = some r ∧ s.Took r none := by
  cases found with
  | false => exact ⟨h.1, h.2.2⟩
  | true => exact ⟨h.1, h.2.2⟩

theorem Holds.of_committed {found : Bool} {read : Option Queued}
    (h : Holds s r (.committed found read took)) : s.lock ≠ some r ∧ s.Took r took := by
  cases found with
  | false => exact ⟨h.1, h.2.2⟩
  | true => exact ⟨h.1, h.2.2⟩

theorem Holds.took_none_of_isOpen (h : Holds s r p) (hopen : p.isOpen = true) : s.Took r none := by
  cases p with
  | idle => exact h.2
  | begun => exact h.2
  | selected found read => cases found <;> exact h.2.2
  | upserted found read => exact h.of_upserted.2
  | committed found read took => cases hopen
  | returned read => cases hopen
  | failed => cases hopen

end Frame

section Steps
variable [DecidableEq ρ] {s t : State ρ} {r : ρ}

theorem move_phases_self (s : State ρ) (r : ρ) (p : Phase) : (s.move r p).phases r = p := by
  simp [State.move]

theorem move_phases_of_ne (s : State ρ) (p : Phase) (hr : r' ≠ r) :
    (s.move r p).phases r' = s.phases r' := by
  simp [State.move, hr]

/-- A call moves: the others keep what they hold. -/
theorem Consistent.move (hs : Consistent s) (hphases : t.phases = s.phases) (hnum : Numbered t)
    (hp : Holds t r p) (hsame : ∀ r', r' ≠ r → SameFor s t r') :
    Consistent (t.move r p) where
  numbered := hnum.congr rfl rfl rfl
  holds r' := by
    by_cases hr : r' = r
    · subst hr
      rw [move_phases_self]
      exact SameFor.holds ⟨Iff.rfl, fun _ => rfl, fun _ => Iff.rfl⟩ hp
    · rw [move_phases_of_ne t p hr, hphases]
      have hsame' := hsame r' hr
      exact SameFor.holds ⟨hsame'.lock, hsame'.row, hsame'.took⟩ (hs.holds r')

theorem sameFor_release (hr : r' ≠ r) : SameFor s (s.release r) r' where
  lock := by
    change (if s.lock = some r then none else s.lock) = some r' ↔ s.lock = some r'
    split_ifs with hlock
    · refine iff_of_false nofun ?_
      rw [hlock]
      exact fun h => hr (Option.some.inj h).symm
    · rfl
  row _ := rfl
  took _ := Iff.rfl

theorem release_lock (s : State ρ) (r : ρ) : (s.release r).lock ≠ some r := by
  change (if s.lock = some r then none else s.lock) ≠ some r
  split_ifs with hlock
  · exact nofun
  · exact hlock

theorem consistent_step (hs : Consistent s) (h : step s a = some t) : Consistent t := by
  have hlocked (r : ρ) : Numbered (s.lockFor r) := hs.numbered.congr rfl rfl rfl
  have hreleased (r : ρ) : Numbered (s.release r) := hs.numbered.congr rfl rfl rfl
  cases moves_of_step h with
  | @start r hphase =>
    have hp := hphase ▸ hs.holds r
    exact hs.move rfl hs.numbered hp (fun r' _ => sameFor_refl s r')
  | @selectNone r hphase =>
    have hp := hphase ▸ hs.holds r
    exact hs.move rfl hs.numbered ⟨hp.1, rfl, hp.2⟩ (fun r' _ => sameFor_refl s r')
  | @selectRow r pending hphase hrow hlock =>
    have hp := hphase ▸ hs.holds r
    exact hs.move rfl (hlocked r) ⟨rfl, hrow, hp.2⟩ (fun r' hr => sameFor_lockFor (.inl hlock) hr)
  | @upsert r found read hphase hlock =>
    have hp := hphase ▸ hs.holds r
    refine hs.move rfl (hlocked r) ?_ (fun r' hr => sameFor_lockFor hlock hr)
    cases found with
    | false => exact ⟨rfl, hp.2.1, hp.2.2⟩
    | true => exact ⟨rfl, hp.2.1, hp.2.2⟩
  | @commit r found read hphase =>
    have hp := hphase ▸ hs.holds r
    obtain ⟨hlock, htook⟩ := hp.of_upserted
    refine hs.move rfl (hs.numbered.clear r) ?_ (fun r' hr => sameFor_clear hlock hr)
    cases found with
    | false => exact ⟨nofun, hp.2.1, took_clear htook⟩
    | true =>
      -- the lock has kept in the slot what the SELECT read
      refine ⟨nofun, ?_, took_clear htook⟩
      rw [State.pending, hp.2.1]
      rfl
  | @commitLost r found read hphase =>
    have hp := hphase ▸ hs.holds r
    exact hs.move rfl (hs.numbered.clear r) nofun (fun r' hr => sameFor_clear hp.of_upserted.1 hr)
  | @commitRefused r found read hphase =>
    exact hs.move rfl (hreleased r) (release_lock s r) (fun r' hr => sameFor_release hr)
  | @fail r hphase =>
    exact hs.move rfl (hreleased r) (release_lock s r) (fun r' hr => sameFor_release hr)
  | @returnOk r found read took hphase =>
    have hp := hphase ▸ hs.holds r
    refine hs.move rfl hs.numbered ⟨hp.of_committed.1, fun q hq => ?_⟩
      (fun r' _ => sameFor_refl s r')
    cases found with
    | false =>
      rw [hp.2.1] at hq
      cases hq
    | true => exact (hp.2.2 q).mpr (hp.2.1 ▸ hq)
  | @returnError r found read took hphase =>
    have hp := hphase ▸ hs.holds r
    exact hs.move rfl hs.numbered hp.of_committed.1 (fun r' _ => sameFor_refl s r')
  | notFound => exact hs
  | @issue command hlock =>
    exact ⟨hs.numbered.put command, fun r => (sameFor_put hlock command r).holds (hs.holds r)⟩

end Steps

/-! ### Delivery -/

section Answered
variable {s : State ρ} {r : ρ}

/-- What `r` has taken out of the slot it returns. -/
def Answered (s : State ρ) (r : ρ) (p : Phase) : Prop :=
  ∀ q, (q, .cleared r) ∈ s.departed → p.isFinishing = true ∨ p = .returned (some q)

/-- A command leaves the slot once, so that only the call that has cleared it can return it. -/
theorem delivered_iff (hs : Consistent s) : Delivered s ↔ ∀ r, Answered s r (s.phases r) := by
  have hpending (r : ρ) (q : Queued) (h : s.phases r = .returned (some q)) :
      (q, .cleared r) ∈ s.departed := (h ▸ hs.holds r).2 q rfl
  have honly {r r' : ρ} {q : Queued} (hq : (q, .cleared r) ∈ s.departed)
      (h : s.phases r' = .returned (some q)) : r' = r :=
    Departure.cleared.inj (hs.numbered.once q _ _ (hpending r' q h) hq)
  constructor
  · intro h r q hq
    rcases h.accounted q _ hq with hfinishing | ⟨r', hr', -⟩
    · exact .inl hfinishing
    · exact .inr (honly hq hr' ▸ hr')
  · intro h
    refine ⟨fun q how hq => ?_, hpending⟩
    cases how with
    | overwritten later => exact hs.numbered.overwritten_lt q later hq
    | cleared r => exact (h r q hq).imp_right fun hr => ⟨r, hr, fun r' hr' => honly hq hr'⟩

theorem answered_iff_took (h : s.Took r took) :
    Answered s r p ↔ ∀ q ∈ took, p.isFinishing = true ∨ p = .returned (some q) :=
  forall_congr' fun q => by rw [h q]

theorem answered_of_took_none (h : s.Took r none) : Answered s r p :=
  (answered_iff_took h).mpr nofun

/-- A call that has failed must not have taken a command. -/
theorem answered_failed_iff (h : s.Took r took) : Answered s r .failed ↔ took = none := by
  rw [answered_iff_took h, Option.eq_none_iff_forall_ne_some]
  simp [Phase.isFinishing]

end Answered

section Delivery
variable [DecidableEq ρ] {s t : State ρ} {r : ρ}

/-- A call moves, and the others have been answered. -/
theorem delivered_move_iff (hs : Consistent s) (hdel : Delivered s) (ht : Consistent (t.move r p))
    (hphases : t.phases = s.phases) (hsame : ∀ r', r' ≠ r → SameFor s t r') :
    Delivered (t.move r p) ↔ Answered t r p := by
  rw [delivered_iff ht]
  constructor
  · intro h
    exact move_phases_self t r p ▸ h r
  · intro h r'
    by_cases hr : r' = r
    · subst hr
      rw [move_phases_self]
      exact h
    · rw [move_phases_of_ne t p hr, hphases]
      intro q hq
      exact (delivered_iff hs).mp hdel r' q (((hsame r' hr).took q).mp hq)

theorem delivered_move (hs : Consistent s) (hdel : Delivered s) (ht : Consistent (t.move r p))
    (hphases : t.phases = s.phases) (hsame : ∀ r', r' ≠ r → SameFor s t r')
    (htook : t.Took r none) : Delivered (t.move r p) :=
  (delivered_move_iff hs hdel ht hphases hsame).mpr (answered_of_took_none htook)

theorem delivered_step_iff (hs : Consistent s) (hdel : Delivered s) (h : step s a = some t) :
    Delivered t ↔ CleanStep s a := by
  have ht := consistent_step hs h
  cases moves_of_step h with
  | @start r hphase =>
    have hp := hphase ▸ hs.holds r
    exact iff_of_true (delivered_move hs hdel ht rfl (fun r' _ => sameFor_refl s r') hp.2) trivial
  | @selectNone r hphase =>
    have hp := hphase ▸ hs.holds r
    exact iff_of_true (delivered_move hs hdel ht rfl (fun r' _ => sameFor_refl s r') hp.2) trivial
  | @selectRow r pending hphase hrow hlock =>
    have hp := hphase ▸ hs.holds r
    refine iff_of_true (delivered_move hs hdel ht rfl (fun r' hr => ?_) hp.2) trivial
    exact sameFor_lockFor (.inl hlock) hr
  | @upsert r found read hphase hlock =>
    have hp := hphase ▸ hs.holds r
    refine iff_of_true (delivered_move hs hdel ht rfl (fun r' hr => ?_) ?_) trivial
    · exact sameFor_lockFor hlock hr
    · exact hp.took_none_of_isOpen rfl
  | @commit r found read hphase =>
    have hp := hphase ▸ hs.holds r
    refine iff_of_true ?_ trivial
    exact (delivered_move_iff hs hdel ht rfl fun r' hr => sameFor_clear hp.of_upserted.1 hr).mpr
      fun _ _ => .inl rfl
  | @commitLost r found read hphase =>
    have hp := hphase ▸ hs.holds r
    obtain ⟨hlock, htook⟩ := hp.of_upserted
    exact (delivered_move_iff hs hdel ht rfl fun r' hr => sameFor_clear hlock hr).trans
      (answered_failed_iff (took_clear htook))
  | @commitRefused r found read hphase =>
    have hp := hphase ▸ hs.holds r
    refine iff_of_true (delivered_move hs hdel ht rfl (fun r' hr => ?_) hp.of_upserted.2) trivial
    exact sameFor_release hr
  | @fail r hphase =>
    have hp := (hs.holds r).took_none_of_isOpen hphase
    refine iff_of_true (delivered_move hs hdel ht rfl (fun r' hr => ?_) hp) trivial
    exact sameFor_release hr
  | @returnOk r found read took hphase =>
    have hp := hphase ▸ hs.holds r
    rw [delivered_move_iff hs hdel ht rfl fun r' _ => sameFor_refl s r', CleanStep, hphase,
      answered_iff_took hp.of_committed.2]
    cases found with
    | false =>
      change _ ↔ took = none
      rw [hp.2.1, Option.eq_none_iff_forall_ne_some]
      simp [Phase.isFinishing]
    | true =>
      rw [hp.2.1]
      exact iff_of_true (fun q hq => .inr (congrArg _ hq)) trivial
  | @returnError r found read took hphase =>
    have hp := hphase ▸ hs.holds r
    rw [delivered_move_iff hs hdel ht rfl fun r' _ => sameFor_refl s r', CleanStep, hphase]
    exact answered_failed_iff hp.of_committed.2
  | notFound => exact iff_of_true hdel trivial
  | @issue command hlock =>
    refine iff_of_true ?_ trivial
    rw [delivered_iff ht]
    intro r q hq
    exact (delivered_iff hs).mp hdel r q (((sameFor_put hlock command r).took q).mp hq)

/-- Whatever check-ins and `IssueCommand` calls interleave, every command that leaves the slot
is overwritten by a later one or returned by exactly one check-in, and no check-in returns one
that was not pending, exactly if every step of the run is clean. -/
theorem command_delivered_iff {actions : List (Action ρ)}
    (hr : run step (initial : State ρ) actions = some t) :
    Throughout step Delivered (initial : State ρ) actions ↔
      Meets step CleanStep (initial : State ρ) actions :=
  throughout_iff_meets (fun _ _ _ hs h => consistent_step hs h)
    (fun _ _ _ hs hdel h => delivered_step_iff hs hdel h)
    consistent_initial ((delivered_iff consistent_initial).mpr fun _ _ => nofun) hr

end Delivery

def restart : Text := ['r', 'e', 's', 't', 'a', 'r', 't']

/-- The calls of one check-in that nothing interrupts. -/
def checkIn (r : ℕ) : List (Action ℕ) := [.start r, .select r, .upsert r, .commit r, .returnOk r]

/-- A command between two check-ins. -/
theorem command_delivered_between :
    (run step initial (checkIn 0 ++ .issue restart :: checkIn 1)).map (fun s => s.phases 1) =
      some (.returned (some ⟨0, restart⟩)) ∧
    Throughout step Delivered initial (checkIn 0 ++ .issue restart :: checkIn 1) := by
  refine ⟨by decide +kernel, (command_delivered_iff rfl).mpr ?_⟩
  refine .cons trivial rfl (.cons trivial rfl (.cons trivial rfl (.cons trivial rfl ?_)))
  refine .cons rfl rfl (.cons trivial rfl ?_)
  exact .cons trivial rfl (.cons trivial rfl (.cons trivial rfl (.cons trivial rfl
    (.cons trivial rfl trivial))))

/-- Both check-ins have looked for the row before it exists; the second one then clears the
command that has come after the first. Nobody returns it. -/
def lostCommand : List (Action ℕ) :=
  [.start 0, .select 0, .start 1, .select 1, .upsert 0, .commit 0, .returnOk 0, .issue restart,
    .upsert 1, .commit 1, .returnOk 1]

theorem command_lost :
    (run step initial lostCommand).map (fun s => (s.pending, s.phases 0, s.phases 1)) =
      some (none, .returned none, .returned none) ∧
    ¬ Throughout step Delivered initial lostCommand := by
  refine ⟨by decide +kernel, fun h => ?_⟩
  obtain ⟨t, ht⟩ : ∃ t, run step initial lostCommand = some t := ⟨_, rfl⟩
  have hconsistent : Consistent t :=
    run_invariant (fun _ _ _ hs h => consistent_step hs h) consistent_initial ht
  have hanswered := (delivered_iff hconsistent).mp (h.last ht) 1 ⟨0, restart⟩
  cases ht
  rcases hanswered List.mem_cons_self with hfinishing | hreturned
  · exact absurd hfinishing (by decide +kernel)
  · exact absurd hreturned (by decide +kernel)

end CairnObs.AgentCommands
