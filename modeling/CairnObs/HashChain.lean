import Mathlib.Tactic

/-! Chains of blocks, each holding the digest of the block before it. `link p b` is the
digest of a block with the body `b` behind a block with the digest `p`. -/
namespace HashChain

variable {D E : Type*}

structure Block (D E : Type*) where
  prev : Option D
  body : E
  digest : D

/-- The digest the next block behind `bs` has to hold. -/
def tip : Option D → List (Block D E) → Option D
  | p, [] => p
  | _, b :: bs => tip (some b.digest) bs

@[simp] theorem tip_nil (p : Option D) : tip p ([] : List (Block D E)) = p := rfl

@[simp] theorem tip_cons (p : Option D) (b : Block D E) (bs : List (Block D E)) :
    tip p (b :: bs) = tip (some b.digest) bs := rfl

@[simp] theorem tip_append (p : Option D) (bs cs : List (Block D E)) :
    tip p (bs ++ cs) = tip (tip p bs) cs := by
  induction bs generalizing p with
  | nil => rfl
  | cons b bs ih => exact ih (some b.digest)

variable (link : Option D → E → D)

/-- The chain from a block with the digest `p` on. -/
def Linked : Option D → List (Block D E) → Prop
  | _, [] => True
  | p, b :: bs => b.prev = p ∧ link b.prev b.body = b.digest ∧ Linked (some b.digest) bs

@[simp] theorem linked_nil (p : Option D) : Linked link p [] := trivial

@[simp] theorem linked_cons (p : Option D) (b : Block D E) (bs : List (Block D E)) :
    Linked link p (b :: bs) ↔
      b.prev = p ∧ link b.prev b.body = b.digest ∧ Linked link (some b.digest) bs := Iff.rfl

theorem linked_append (p : Option D) (bs cs : List (Block D E)) :
    Linked link p (bs ++ cs) ↔ Linked link p bs ∧ Linked link (tip p bs) cs := by
  induction bs generalizing p with
  | nil => simp
  | cons b bs ih => simp only [List.cons_append, linked_cons, tip_cons, ih, and_assoc]

variable {link}

theorem Linked.digest_mem {p : Option D} {bs : List (Block D E)} {b : Block D E}
    (h : Linked link p bs) (hb : b ∈ bs) : link b.prev b.body = b.digest := by
  obtain ⟨pre, post, rfl⟩ := List.append_of_mem hb
  exact ((linked_append link p pre (b :: post)).mp h).2.2.1

/-! ### Digests along a chain

A digest commits to the digest before it; `origin` stands for that of the first block. -/

section Commitment
variable {origin : D}
  (hcommit : ∀ p q : Option D, ∀ b c : E, link p b = link q c → p.getD origin = q.getD origin)
  (horigin : ∀ p : Option D, ∀ b : E, link p b ≠ origin)
include hcommit horigin

/-- No block of a chain has the digest of an earlier one. -/
theorem Linked.digests_nodup {bs : List (Block D E)} (h : Linked link none bs) :
    (bs.map Block.digest).Nodup := by
  induction bs using List.reverseRecOn with
  | nil => exact List.nodup_nil
  | append_singleton bs b ih =>
    obtain ⟨hbs, hprev, hdigest, -⟩ := (linked_append link none bs [b]).mp h
    rw [List.map_append, List.map_singleton, List.nodup_append]
    refine ⟨ih hbs, List.nodup_singleton _, ?_⟩
    rintro d hd e he rfl
    obtain ⟨c, hc, hcd⟩ := List.mem_map.mp hd
    have hcb : c.digest = b.digest := hcd.trans (List.mem_singleton.mp he)
    -- equal digests have equal predecessors: go one block back on both sides
    obtain ⟨pre, post, rfl⟩ := List.append_of_mem hc
    obtain ⟨-, hcprev, hcdigest, -⟩ := (linked_append link none pre (c :: post)).mp hbs
    have hpred := hcommit c.prev b.prev c.body b.body (by rw [hcdigest, hdigest, hcb])
    obtain ⟨init, last, hlast⟩ : ∃ init last, c :: post = init ++ [last] :=
      ⟨_, _, (List.dropLast_append_getLast (List.cons_ne_nil c post)).symm⟩
    have hbprev : b.prev = some last.digest := by
      rw [hprev, hlast, tip_append, tip_append]
      rfl
    have hlink : link last.prev last.body = last.digest :=
      hbs.digest_mem (by rw [hlast]; simp)
    rw [hcprev, hbprev, Option.getD_some] at hpred
    rcases List.eq_nil_or_concat pre with rfl | ⟨pre', x, rfl⟩
    · exact horigin last.prev last.body (hlink.trans hpred.symm)
    · have hx : x.digest = last.digest := by simpa using hpred
      have hnodup := ih hbs
      rw [hlast] at hnodup
      simp only [List.concat_eq_append, List.map_append, List.nodup_append] at hnodup
      exact hnodup.2.2 x.digest (by simp) last.digest (by simp) hx

/-- A block of a chain follows only what it followed there: behind another digest of the
chain, or at the start, it is out of place. -/
theorem Linked.prev_ne_tip {pre mid post : List (Block D E)} {b c : Block D E}
    (h : Linked link none (pre ++ b :: mid ++ c :: post)) : c.prev ≠ tip none pre := by
  obtain ⟨hfront, hcprev, -⟩ := (linked_append link none (pre ++ b :: mid) (c :: post)).mp h
  obtain ⟨init, last, hlast⟩ : ∃ init last, b :: mid = init ++ [last] :=
    ⟨_, _, (List.dropLast_append_getLast (List.cons_ne_nil b mid)).symm⟩
  have hc : c.prev = some last.digest := by
    rw [hcprev, hlast, tip_append, tip_append]
    rfl
  rw [hc]
  rcases List.eq_nil_or_concat pre with rfl | ⟨pre', x, rfl⟩
  · simp
  · intro hx
    have hxlast : last.digest = x.digest := by simpa using hx
    have hnodup := hfront.digests_nodup hcommit horigin
    rw [hlast] at hnodup
    simp only [List.concat_eq_append, List.map_append, List.nodup_append] at hnodup
    exact hnodup.2.2 x.digest (by simp) last.digest (by simp) hxlast.symm

end Commitment

end HashChain
