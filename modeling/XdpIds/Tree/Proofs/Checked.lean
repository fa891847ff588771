/-
`classify_dt` decides, whatever the table holds at each lookup.

The checked walk is the walk (`classifyLoopChecked_eq`): the test against
`FEATURE_NB` stands before every load, so the only fault left is leaving
the loop without a return. The index decides how many iterations that
takes. At the head of iteration `j` it lies on level `j` of the layout
(`walkerAt_level`), so `log2 N + 2` iterations are enough, and it has come
from an index of the table, so it is at most `2 * N`.
-/
import XdpIds.Tree.Checked
import XdpIds.Tree.Proofs.Walk
import Mathlib.Data.Nat.Log

namespace XdpIds.Tree

variable {dtNodeNb featureNb : Nat} {fv : Vector UInt32 featureNb}
  {tables : Nat → DtNodesArray dtNodeNb} {w : Walker} {j : Nat}

-- ======================================================= the checked walk

/-- The load is never out of bounds. -/
theorem featureValueChecked_eq (fv : Vector UInt32 featureNb)
    (node : DtNode) :
    featureValueChecked fv node = .ok (featureValue fv node) := by
  unfold featureValueChecked featureValue loadFeature
  by_cases h : (node.feature &&& 0x1F).toNat < featureNb
  · rw [if_pos h, dif_pos h, Vector.getElem?_eq_getElem h]
  · rw [if_neg h, dif_neg h]

theorem classifyBodyChecked_eq (map : DtNodesArray dtNodeNb)
    (fv : Vector UInt32 featureNb) (w : Walker) :
    classifyBodyChecked map fv w = .ok (classifyBody map fv w) := by
  unfold classifyBodyChecked classifyBody
  by_cases hpast : dtNodeNb ≤ w.i.toNat
  · rw [if_pos hpast, if_pos hpast]
  rw [if_neg hpast, if_neg hpast]
  cases map.lookup w.i with
  | none => rfl
  | some node =>
      simp only [featureValueChecked_eq, Walker.next]
      by_cases hleaf : node.feature &&& 0b00100000 = 0
      · rw [if_pos hleaf, if_pos hleaf]
      · rw [if_neg hleaf, if_neg hleaf]
        show (if featureValue fv node ≤ node.threshold then _ else _) = _
        split <;> rfl

/-- The checked walk is the walk, a missing return being its one fault. -/
theorem classifyLoopChecked_eq (tables : Nat → DtNodesArray dtNodeNb)
    (fv : Vector UInt32 featureNb) (fuel j : Nat) (w : Walker) :
    classifyLoopChecked tables fv fuel j w
      = match classifyLoop tables fv fuel j w with
        | some v => .ok v
        | none => .error .noReturn := by
  induction fuel generalizing j w with
  | zero => rfl
  | succ fuel ih =>
      rw [classifyLoopChecked, classifyBodyChecked_eq, classifyLoop]
      cases hbody : classifyBody (tables j) fv w with
      | inl v => rfl
      | inr w' => exact ih (j + 1) w'

/-- A walk that has returned returns with more iterations too. -/
theorem classifyLoop_mono {fuel fuel' : Nat} (hle : fuel ≤ fuel')
    {v : Verdict} (h : classifyLoop tables fv fuel j w = some v) :
    classifyLoop tables fv fuel' j w = some v := by
  induction fuel generalizing fuel' j w with
  | zero => cases h
  | succ fuel ih =>
      obtain ⟨fuel', rfl⟩ := Nat.exists_eq_succ_of_ne_zero
        (show fuel' ≠ 0 by omega)
      rw [classifyLoop] at h ⊢
      cases hbody : classifyBody (tables j) fv w with
      | inl v' =>
          rw [hbody] at h
          exact h
      | inr w' =>
          rw [hbody] at h
          exact ih (by omega) h

-- =============================================================== the index

/-- The index at the head of iteration `j` lies on level `j`, and is a
child of an index of the table. -/
theorem walkerAt_level (hnb : dtNodeNb < 2 ^ 31)
    (h : walkerAt tables fv j = some w) :
    2 ^ j ≤ w.i.toNat + 1 ∧ w.i.toNat + 1 < 2 ^ (j + 1)
      ∧ w.i.toNat ≤ 2 * dtNodeNb := by
  induction j generalizing w with
  | zero =>
      obtain rfl := Option.some.inj h
      exact ⟨by decide, by decide, Nat.zero_le _⟩
  | succ j ih =>
      rw [walkerAt] at h
      cases hprev : walkerAt tables fv j with
      | none => rw [hprev] at h; cases h
      | some u =>
          rw [hprev] at h
          simp only at h
          cases hbody : classifyBody (tables j) fv u with
          | inl v => rw [hbody] at h; cases h
          | inr w' =>
              rw [hbody] at h
              obtain rfl := Option.some.inj h
              obtain ⟨hlow, hhigh, -⟩ := ih hprev
              obtain ⟨hin, hnext⟩ := classifyBody_index hnb hbody
              rw [Nat.pow_succ] at hhigh ⊢
              rw [Nat.pow_succ 2 (j + 1), Nat.pow_succ]
              omega

/-- For a table of at most 65535 nodes, whatever they hold at each
lookup, and every vector: the walk returns a verdict within
`log2 N + 2` of its 17 iterations and without a fault, and at the head of
every iteration the index is at most `2 * N`, and inside the table its
children's indices do not wrap. -/
theorem classify_decides {N : Nat} (hN : N ≤ 65535)
    (tables : Nat → DtNodesArray N) (fv : Vector UInt32 featureNb) :
    Nat.log 2 N + 2 ≤ loopBound
    ∧ (∃ v, classifyLoopChecked tables fv (Nat.log 2 N + 2) 0 .start = .ok v
        ∧ classifyLoopChecked tables fv loopBound 0 .start = .ok v)
    ∧ ∀ j w, walkerAt tables fv j = some w →
        w.i.toNat ≤ 2 * N
        ∧ (w.i.toNat < N → 2 * w.i.toNat + 2 < 2 ^ 32) := by
  have hlog : Nat.log 2 N < 16 :=
    Nat.log_lt_of_lt_pow' (by decide) (by omega)
  have hbound : Nat.log 2 N + 2 ≤ loopBound := by
    unfold loopBound
    omega
  have hlast : N < 2 ^ (0 + (Nat.log 2 N + 1)) := by
    rw [Nat.zero_add]
    exact Nat.lt_pow_succ_log_self (by decide) N
  obtain ⟨v, hv⟩ := @classifyLoop_returns N featureNb fv (by omega) tables
    (Nat.log 2 N + 1) 0 .start hlast (by decide)
  refine ⟨hbound, ⟨v, ?_, ?_⟩, fun j w hw => ⟨?_, fun hin => by omega⟩⟩
  · rw [classifyLoopChecked_eq, hv]
  · rw [classifyLoopChecked_eq, classifyLoop_mono hbound hv]
  · exact (walkerAt_level (by omega) hw).2.2

/-- A table of splits on the packet size. -/
def sizeSplits : DtNodesArray DT_NODE_NB := fun _ => ⟨50, 0xE3⟩

/-- The shipped table size: at most 9 iterations, and index at most 256,
of which a packet that goes right at every level reaches 254. -/
theorem classify_decides_shipped :
    (∃ v, classifyLoopChecked (fun _ => sizeSplits) #v[80, 443, 6, 60]
        (Nat.log 2 DT_NODE_NB + 2) 0 .start = .ok v)
      ∧ (∀ j w, walkerAt (fun _ => sizeSplits) #v[80, 443, 6, 60] j
          = some w → w.i.toNat ≤ 256)
      ∧ (walkerAt (fun _ => sizeSplits) #v[80, 443, 6, 60] 7).map (·.i)
        = some 254 := by
  obtain ⟨-, ⟨v, hv, -⟩, hindex⟩ := classify_decides (N := DT_NODE_NB)
    (by decide) (fun _ => sizeSplits) #v[80, 443, 6, 60]
  exact ⟨⟨v, hv⟩, fun j w hw => (hindex j w hw).1, by rfl⟩

end XdpIds.Tree
