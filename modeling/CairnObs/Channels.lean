import Mathlib.Data.Finset.Basic
import Mathlib.Data.Finset.Insert

/-! Bounded channels with many senders and one receiver. A channel is closed when the last
sender is gone. -/
namespace Channels

structure Channel (ι μ : Type*) where
  capacity : ℕ
  senders : Finset ι
  queue : List μ

/-- What the receiver gets. A receiver that is `pending` waits. -/
inductive Received (μ : Type*)
  | message (m : μ)
  | closed
  | pending
  deriving DecidableEq

namespace Channel

variable {ι μ : Type*}

/-- Senders have only come, and no message. -/
structure Grows (c c' : Channel ι μ) : Prop where
  queue : c'.queue = c.queue
  senders : c.senders ⊆ c'.senders

theorem Grows.refl (c : Channel ι μ) : Grows c c := ⟨rfl, Finset.Subset.refl _⟩

theorem Grows.trans {c₁ c₂ c₃ : Channel ι μ} (h : Grows c₁ c₂) (h' : Grows c₂ c₃) : Grows c₁ c₃ :=
  ⟨h'.queue.trans h.queue, h.senders.trans h'.senders⟩

variable [DecidableEq ι] (c : Channel ι μ)

def recv : Received μ :=
  match c.queue with
  | m :: _ => .message m
  | [] => if c.senders = ∅ then .closed else .pending

/-- The channel behind a message that was received. -/
def rest : Channel ι μ := { c with queue := c.queue.tail }

/-- A further sender. -/
def clone (i : ι) : Channel ι μ := { c with senders := insert i c.senders }

def drop (i : ι) : Channel ι μ := { c with senders := c.senders.erase i }

/-- A sender waits while the channel is full. -/
def send (i : ι) (m : μ) : Option (Channel ι μ) :=
  if i ∈ c.senders ∧ c.queue.length < c.capacity then some { c with queue := c.queue ++ [m] }
  else none

variable {c}

theorem send_eq_some {i : ι} {m : μ} {c' : Channel ι μ} (h : c.send i m = some c') :
    i ∈ c.senders ∧ c' = { c with queue := c.queue ++ [m] } := by
  rw [send] at h
  split_ifs at h with hi
  exact ⟨hi.1, (Option.some.inj h).symm⟩

theorem recv_eq_closed_iff : c.recv = .closed ↔ c.queue = [] ∧ c.senders = ∅ := by
  unfold recv
  cases c.queue with
  | nil => simp
  | cons m ms => simp

theorem grows_clone (c : Channel ι μ) (i : ι) : Grows c (c.clone i) :=
  ⟨rfl, Finset.subset_insert i c.senders⟩

end Channel

end Channels
