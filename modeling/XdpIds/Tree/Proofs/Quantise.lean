/-
The exported threshold against the trained one.

The header comments the conversion `round(threshold - 0.5)` as rounding
down. It does, everywhere but at the odd integers: there `threshold -
0.5` is halfway between two integers and Python's `round` takes the even
one, which is the lower. Even integers and non-integers come out as
their floor (`quantise_eq_floor_iff`), so a split is preserved for every
feature value exactly when its threshold is no odd integer
(`split_preserved_iff`), and at an odd one a single value goes the other
way: the threshold itself.
-/
import XdpIds.Tree.Proofs.Exported
import Mathlib.Algebra.Order.Ring.Int

namespace XdpIds.Tree

variable {t : ℚ}

/-- A threshold that is an odd integer. -/
def OddInteger (t : ℚ) : Prop := ∃ n : ℤ, n % 2 = 1 ∧ t = n

/-- Half below an integer, `round` takes the even neighbour. -/
theorem quantise_int (n : ℤ) :
    quantise (n : ℚ) = if n % 2 = 1 then n - 1 else n := by
  have hfloor : ⌊(n : ℚ) - 1 / 2⌋ = n - 1 := by
    rw [Int.floor_eq_iff]
    push_cast
    constructor <;> linarith
  have hhalf : (n : ℚ) - 1 / 2 - ((n - 1 : ℤ) : ℚ) = 1 / 2 := by
    push_cast
    ring
  unfold quantise pyRound
  simp only [hfloor, hhalf, lt_irrefl, if_false]
  by_cases hodd : n % 2 = 1
  · rw [if_pos (by omega), if_pos hodd]
  · rw [if_neg (by omega), if_neg hodd]
    omega

/-- Between two integers the nearest one to `t - 1/2` is the lower. -/
theorem quantise_between (h : (⌊t⌋ : ℚ) < t) : quantise t = ⌊t⌋ := by
  have hlt := Int.lt_floor_add_one t
  have hlow : (⌊t⌋ : ℚ) - 1 < (pyRound (t - 1 / 2) : ℚ) := by
    rcases pyRound_cases (t - 1 / 2) with ⟨hr, hfrac⟩ | ⟨hr, -⟩
    · rw [hr]
      linarith
    · have := Int.lt_floor_add_one (t - 1 / 2)
      rw [hr]
      push_cast
      linarith
  have hhigh : (pyRound (t - 1 / 2) : ℚ) < ⌊t⌋ + 1 := by
    rcases pyRound_cases (t - 1 / 2) with ⟨hr, -⟩ | ⟨hr, hfrac⟩
    · have := Int.floor_le (t - 1 / 2)
      rw [hr]
      linarith
    · rw [hr]
      push_cast
      linarith
  have hlow' : ⌊t⌋ - 1 < pyRound (t - 1 / 2) := by exact_mod_cast hlow
  have hhigh' : pyRound (t - 1 / 2) < ⌊t⌋ + 1 := by exact_mod_cast hhigh
  unfold quantise
  omega

/-- The conversion rounds down except on the odd integers. -/
theorem quantise_eq_floor_iff : quantise t = ⌊t⌋ ↔ ¬ OddInteger t := by
  rcases (Int.floor_le t).lt_or_eq with hbetween | hint
  · refine iff_of_true (quantise_between hbetween) ?_
    rintro ⟨n, -, rfl⟩
    rw [Int.floor_intCast] at hbetween
    exact lt_irrefl _ hbetween
  · have hq := quantise_int ⌊t⌋
    rw [hint] at hq
    by_cases hodd : ⌊t⌋ % 2 = 1
    · rw [if_pos hodd] at hq
      refine iff_of_false ?_ (not_not.mpr ⟨⌊t⌋, hodd, hint.symm⟩)
      omega
    · rw [if_neg hodd] at hq
      refine iff_of_true hq ?_
      rintro ⟨n, hn, rfl⟩
      rw [Int.floor_intCast] at hodd
      exact hodd hn

-- ================================================================ the split

/-- The kernel's test of a feature value against a node's threshold goes
as the trained test. -/
def SameSplit (node : DtNode) (t : ℚ) (x : UInt32) : Prop :=
  x ≤ node.threshold ↔ (x.toNat : ℚ) ≤ t

/-- The kernel compares with the exported integer. -/
theorem le_threshold_iff (h0 : 0 ≤ t) (h1 : t < 2 ^ 31) (byte : Nat)
    (x : UInt32) :
    x ≤ (Entry.toNode ⟨byte, quantise t⟩).threshold
      ↔ (x.toNat : ℤ) ≤ quantise t := by
  obtain ⟨hlow, hhigh⟩ := quantise_bounds h0 h1
  have hth := threshold_toNat hlow hhigh
  show x ≤ UInt32.ofInt (quantise t) ↔ _
  rw [UInt32.le_iff_toNat_le]
  omega

/-- One value at one threshold: only an odd integer at itself goes
wrong. -/
theorem sameSplit_iff (h0 : 0 ≤ t) (h1 : t < 2 ^ 31) (byte : Nat)
    (x : UInt32) :
    SameSplit (Entry.toNode ⟨byte, quantise t⟩) t x
      ↔ ¬ (OddInteger t ∧ (x.toNat : ℚ) = t) := by
  unfold SameSplit
  rw [le_threshold_iff h0 h1]
  by_cases hodd : OddInteger t
  · obtain ⟨n, hn, rfl⟩ := hodd
    have hle : (x.toNat : ℚ) ≤ n ↔ (x.toNat : ℤ) ≤ n := by norm_cast
    have heq : (x.toNat : ℚ) = n ↔ (x.toNat : ℤ) = n := by norm_cast
    have hexact : OddInteger (n : ℚ) := ⟨n, hn, rfl⟩
    rw [quantise_int, if_pos hn, hle, heq]
    constructor
    · rintro h ⟨-, hx⟩
      omega
    · intro h
      have hx : (x.toNat : ℤ) ≠ n := fun hx => h ⟨hexact, hx⟩
      omega
  · have hfloor := Int.le_floor (a := t) (z := (x.toNat : ℤ))
    rw [quantise_eq_floor_iff.mpr hodd, hfloor]
    exact iff_of_true (by norm_cast) fun h => hodd h.1

/-- The exporter converts every threshold in range, and to its floor,
with every feature value falling on its trained side, exactly when it is
no odd integer. -/
theorem split_preserved_iff (h0 : 0 ≤ t) (h1 : t < 2 ^ 31) (byte : Nat) :
    ∃ threshold, npInt32 (pyRound (t - 1 / 2)) = .ok threshold
      ∧ ((threshold = ⌊t⌋
            ∧ ∀ x, SameSplit (Entry.toNode ⟨byte, threshold⟩) t x)
          ↔ ¬ OddInteger t)
      ∧ ∀ x, SameSplit (Entry.toNode ⟨byte, threshold⟩) t x
          ↔ ¬ (OddInteger t ∧ (x.toNat : ℚ) = t) := by
  obtain ⟨hlow, hhigh⟩ := quantise_bounds h0 h1
  refine ⟨quantise t, ?_, ?_, sameSplit_iff h0 h1 byte⟩
  · rw [npInt32, ← quantise, if_pos ⟨by omega, hhigh⟩]
  · rw [quantise_eq_floor_iff]
    refine and_iff_left_of_imp fun hodd x => ?_
    exact (sameSplit_iff h0 h1 byte x).mpr fun h => hodd h.1

/-- A split at 5/2. -/
theorem split_preserved_half :
    ∃ threshold, npInt32 (pyRound (5 / 2 - 1 / 2)) = .ok threshold
      ∧ threshold = ⌊(5 / 2 : ℚ)⌋ := by
  obtain ⟨threshold, hth, hsplit, -⟩ :=
    @split_preserved_iff (5 / 2) (by norm_num) (by norm_num) 0
  refine ⟨threshold, hth, (hsplit.mpr ?_).1⟩
  rintro ⟨n, -, hn⟩
  have htwo : (2 * n : ℚ) = 5 := by linarith
  have : 2 * n = 5 := by exact_mod_cast htwo
  omega

/-- A split at 3 sends the value 3 to the right. -/
theorem three_goes_right :
    ∃ threshold, npInt32 (pyRound (3 - 1 / 2)) = .ok threshold
      ∧ threshold ≠ ⌊(3 : ℚ)⌋
      ∧ ¬ SameSplit (Entry.toNode ⟨0x20, threshold⟩) 3 3 := by
  refine ⟨2, by decide +kernel, by decide +kernel, ?_⟩
  intro h
  have hvalue : ((3 : UInt32).toNat : ℚ) ≤ 3 := by
    show ((3 : ℕ) : ℚ) ≤ 3
    norm_num
  have hle : (3 : UInt32) ≤ 2 := h.mpr hvalue
  exact absurd hle (by decide)

end XdpIds.Tree
