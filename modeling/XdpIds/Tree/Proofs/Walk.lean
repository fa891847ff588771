/-
`classify_dt`'s walk always decides: the index at least doubles with
every lookup that goes on, so it has left a table of fewer than `2 ^ 16`
entries before the 17 iterations are over, and leaving the table is one
of the ways to return.

The tables may differ between two lookups: nothing here depends on what
a node holds.
-/
import XdpIds.Tree.Node

namespace XdpIds.Tree

variable {dtNodeNb featureNb : Nat} {fv : Vector UInt32 featureNb}

/-- A lookup that goes on was inside the table, and goes on from a
child. -/
theorem classifyBody_next {map : DtNodesArray dtNodeNb} {w w' : Walker}
    (h : classifyBody map fv w = .inr w') :
    w.i.toNat < dtNodeNb ∧ (w'.i = 2 * w.i + 1 ∨ w'.i = 2 * w.i + 2) := by
  rcases Nat.lt_or_ge w.i.toNat dtNodeNb with hi | hi
  · refine ⟨hi, ?_⟩
    rw [classifyBody_at hi] at h
    split at h
    · cases h
    · obtain rfl := Sum.inr.inj h
      unfold Walker.next
      split
      · exact .inl rfl
      · exact .inr rfl
  · rw [classifyBody_past hi] at h
    cases h

/-- The child's index does not wrap. -/
theorem classifyBody_index (hnb : dtNodeNb < 2 ^ 31)
    {map : DtNodesArray dtNodeNb} {w w' : Walker}
    (h : classifyBody map fv w = .inr w') :
    w.i.toNat < dtNodeNb
      ∧ (w'.i.toNat = 2 * w.i.toNat + 1 ∨ w'.i.toNat = 2 * w.i.toNat + 2) := by
  obtain ⟨hi, hnext⟩ := classifyBody_next h
  have htwo : (2 * w.i).toNat = 2 * w.i.toNat := by
    rw [UInt32.toNat_mul]
    exact Nat.mod_eq_of_lt (by show 2 * _ < _; omega)
  refine ⟨hi, hnext.imp (fun heq => ?_) fun heq => ?_⟩
  · rw [heq, UInt32.toNat_add, htwo]
    exact Nat.mod_eq_of_lt (by show 2 * _ + 1 < _; omega)
  · rw [heq, UInt32.toNat_add, htwo]
    exact Nat.mod_eq_of_lt (by show 2 * _ + 2 < _; omega)

/-- One lookup that goes on: from level `j` to level `j + 1` at least. -/
theorem classifyBody_level (hnb : dtNodeNb < 2 ^ 31)
    {map : DtNodesArray dtNodeNb} {w w' : Walker} {j : Nat}
    (hj : 2 ^ j ≤ w.i.toNat + 1) (h : classifyBody map fv w = .inr w') :
    2 ^ (j + 1) ≤ w'.i.toNat + 1 := by
  obtain ⟨-, hnext⟩ := classifyBody_index hnb h
  rw [Nat.pow_succ]
  omega

/-- From level `j`, the walk returns within as many iterations as there
are levels left. -/
theorem classifyLoop_returns (hnb : dtNodeNb < 2 ^ 31)
    {tables : Nat → DtNodesArray dtNodeNb} :
    ∀ (fuel j : Nat) (w : Walker), dtNodeNb < 2 ^ (j + fuel) →
      2 ^ j ≤ w.i.toNat + 1 →
      ∃ v, classifyLoop tables fv (fuel + 1) j w = some v := by
  intro fuel
  induction fuel with
  | zero =>
      intro j w hlast hj
      have hpast : dtNodeNb ≤ w.i.toNat := by
        rw [Nat.add_zero] at hlast
        omega
      exact ⟨_, by rw [classifyLoop, classifyBody_past hpast]⟩
  | succ fuel ih =>
      intro j w hlast hj
      rw [classifyLoop]
      cases hbody : classifyBody (tables j) fv w with
      | inl v => exact ⟨v, rfl⟩
      | inr w' =>
          refine ih (j + 1) w' ?_ (classifyBody_level hnb hj hbody)
          rwa [show j + 1 + fuel = j + (fuel + 1) by omega]

/-- `classify_dt` returns. -/
theorem classifyDt_returns (hnb : dtNodeNb < 2 ^ 16)
    (map : DtNodesArray dtNodeNb) (fv : Vector UInt32 featureNb) :
    ∃ v, classifyDt map fv = some v :=
  classifyLoop_returns (by omega) 16 0 .start (by omega) (by decide)

end XdpIds.Tree
