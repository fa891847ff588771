/-
Sums of numbers that are rounded or wrapped.

Quotients lose their residues before a sum or after it: `sum_div_mod` is
the difference, and `floored_iff` says when there is none. Running totals
(`totals`) kept modulo `m` never go back exactly while the residues of
the terms add up to less than `m` (`ascending_iff`); from the first wrap
on, some step is backwards. Last, when a floor taken low is still within
2 of what it stands for (`floor_close_iff`).
-/
import Mathlib.Algebra.Order.Floor.Ring
import Mathlib.Data.List.Chain
import Mathlib.Data.Rat.Floor
import Mathlib.Algebra.BigOperators.Group.List.Basic
import Mathlib.Tactic.Linarith

namespace XdpIds.Residue

variable {m t a : Nat}

-- ============================================================== quotients

/-- Quotients and residues make up the sum. -/
theorem sum_div_mod (m : Nat) (l : List Nat) :
    m * (l.map (· / m)).sum + (l.map (· % m)).sum = l.sum := by
  induction l with
  | nil => rfl
  | cons a l ih =>
      have hdiv := Nat.div_add_mod a m
      simp only [List.map_cons, List.sum_cons, Nat.mul_add]
      omega

/-- The quotients' sum is the sum's quotient exactly when the residues
add up to less than a divisor. -/
theorem floored_iff (m : Nat) (l : List Nat) :
    (m * (l.map (· / m)).sum ≤ l.sum
        ∧ l.sum < m * ((l.map (· / m)).sum + 1))
      ↔ (l.map (· % m)).sum < m := by
  have hsum := sum_div_mod m l
  rw [Nat.mul_succ]
  omega

-- ========================================================= running totals

/-- The running totals of a list, from `t`. -/
def totals (t : Nat) : List Nat → List Nat
  | [] => []
  | a :: l => (t + a) :: totals (t + a) l

theorem length_totals (t : Nat) (l : List Nat) :
    (totals t l).length = l.length := by
  induction l generalizing t with
  | nil => rfl
  | cons a l ih => exact congrArg (· + 1) (ih (t + a))

theorem totals_concat (t : Nat) (l : List Nat) (a : Nat) :
    totals t (l ++ [a]) = totals t l ++ [t + (l ++ [a]).sum] := by
  induction l generalizing t with
  | nil => simp [totals]
  | cons b l ih =>
      rw [List.cons_append, totals, ih, totals, List.sum_cons, ← Nat.add_assoc,
        List.cons_append]

/-- One step modulo `m` is not backwards exactly when it does not wrap. -/
theorem mod_le_mod_add_iff (hm : 0 < m) :
    t % m ≤ (t + a) % m ↔ t % m + a % m < m := by
  have ht := Nat.mod_lt t hm
  have ha := Nat.mod_lt a hm
  rw [Nat.add_mod]
  constructor
  · intro hle
    by_contra hwrap
    have hwrapped : (t % m + a % m) % m = t % m + a % m - m := by
      rw [Nat.mod_eq_sub_mod (Nat.le_of_not_lt hwrap)]
      exact Nat.mod_eq_of_lt (by omega)
    omega
  · intro hlt
    rw [Nat.mod_eq_of_lt hlt]
    exact Nat.le_add_right _ _

/-- Running totals modulo `m`, the start included, are ascending exactly
when the start's residue and the terms' add up to less than `m`. -/
theorem ascending_from_iff (hm : 0 < m) (t : Nat) (l : List Nat) :
    (t % m :: (totals t l).map (· % m)).IsChain (· ≤ ·)
      ↔ t % m + (l.map (· % m)).sum < m := by
  induction l generalizing t with
  | nil =>
      refine iff_of_true (List.isChain_singleton _) ?_
      exact Nat.mod_lt t hm
  | cons a l ih =>
      simp only [totals, List.map_cons, List.sum_cons]
      rw [List.isChain_cons_cons, ih, mod_le_mod_add_iff hm]
      constructor
      · intro hall
        obtain ⟨hstep, hrest⟩ := hall
        rw [Nat.add_mod, Nat.mod_eq_of_lt hstep] at hrest
        omega
      · intro hall
        have hstep : t % m + a % m < m := by omega
        refine ⟨hstep, ?_⟩
        rw [Nat.add_mod, Nat.mod_eq_of_lt hstep]
        omega

theorem ascending_iff (hm : 0 < m) (l : List Nat) :
    ((totals 0 l).map (· % m)).IsChain (· ≤ ·)
      ↔ (l.map (· % m)).sum < m := by
  have hfrom := ascending_from_iff hm 0 l
  rw [Nat.zero_mod, Nat.zero_add] at hfrom
  rw [← hfrom, List.isChain_cons]
  exact (and_iff_right fun _ _ => Nat.zero_le _).symm

-- ================================================================= floors

/-- A floor of something that is at most `μ` is within 2 of `μ` exactly
when that something is not below the number before `μ`'s own floor. -/
theorem floor_close_iff {x μ : ℚ} (hle : x ≤ μ) :
    |(⌊x⌋ : ℚ) - μ| < 2 ↔ ⌊μ⌋ - 1 ≤ x := by
  have hlow := Int.floor_le x
  rw [abs_lt]
  constructor
  · intro hnear
    obtain ⟨hclose, -⟩ := hnear
    have hceil : (⌊μ⌋ : ℚ) < (⌊x⌋ + 2 : ℤ) := by
      push_cast
      linarith [Int.floor_le μ]
    have hint : ⌊μ⌋ - 1 ≤ ⌊x⌋ := by
      have := Int.cast_lt.mp hceil
      omega
    have hcast : ((⌊μ⌋ - 1 : ℤ) : ℚ) ≤ ⌊x⌋ := Int.cast_le.mpr hint
    push_cast at hcast
    linarith
  · intro hnear
    have hint : ⌊μ⌋ - 1 ≤ ⌊x⌋ := by
      refine Int.le_floor.mpr ?_
      push_cast
      exact hnear
    have hcast : ((⌊μ⌋ - 1 : ℤ) : ℚ) ≤ ⌊x⌋ := Int.cast_le.mpr hint
    push_cast at hcast
    constructor
    · linarith [Int.lt_floor_add_one μ]
    · linarith

end XdpIds.Residue
