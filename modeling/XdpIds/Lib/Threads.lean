/-
Threads that move one at a time, and sums over them.

A phase map gives every thread its phase; a move replaces the phase of
one. `tally` adds up what each thread's phase is worth, so a counter that
threads add to atomically equals a tally of what each has added so far:
`tally_move` says what one move changes.
-/
import Mathlib.Algebra.BigOperators.Ring.Finset
import Mathlib.Algebra.Order.BigOperators.Group.Finset

namespace XdpIds.Threads

variable {ι φ : Type} [Fintype ι]

/-- What the phases are worth together. -/
def tally (worth : ι → φ → Nat) (phase : ι → φ) : Nat :=
  ∑ p, worth p (phase p)

variable {worth : ι → φ → Nat} {phase : ι → φ}

/-- One move trades the mover's old worth for its new one. -/
theorem tally_move [DecidableEq ι] (worth : ι → φ → Nat) (phase : ι → φ)
    (p : ι) (new : φ) :
    tally worth (Function.update phase p new) + worth p (phase p)
      = tally worth phase + worth p new := by
  have hrest : ∑ q ∈ Finset.univ.erase p,
        worth q (Function.update phase p new q)
      = ∑ q ∈ Finset.univ.erase p, worth q (phase q) := by
    refine Finset.sum_congr rfl fun q hq => ?_
    rw [Function.update_of_ne (Finset.ne_of_mem_erase hq)]
  unfold tally
  rw [← Finset.add_sum_erase _ _ (Finset.mem_univ p),
    ← Finset.add_sum_erase _ _ (Finset.mem_univ p), hrest,
    Function.update_self]
  omega

/-- What one thread lacks of its bound, the tally lacks of the sum. -/
theorem tally_slack [DecidableEq ι] {bound : ι → Nat}
    (h : ∀ q, worth q (phase q) ≤ bound q) (p : ι) :
    tally worth phase + bound p ≤ ∑ q, bound q + worth p (phase p) := by
  have hrest : ∑ q ∈ Finset.univ.erase p, worth q (phase q)
      ≤ ∑ q ∈ Finset.univ.erase p, bound q :=
    Finset.sum_le_sum fun q _ => h q
  unfold tally
  rw [← Finset.add_sum_erase _ _ (Finset.mem_univ p),
    ← Finset.add_sum_erase _ bound (Finset.mem_univ p)]
  omega

theorem tally_eq {value : ι → Nat} (h : ∀ p, worth p (phase p) = value p) :
    tally worth phase = ∑ p, value p :=
  Finset.sum_congr rfl fun p _ => h p

theorem tally_zero (h : ∀ p, worth p (phase p) = 0) :
    tally worth phase = 0 :=
  Finset.sum_eq_zero fun p _ => h p

end XdpIds.Threads
