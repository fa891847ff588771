/-
The kernel's verdict against the classifier's prediction.

`predict` is scikit-learn's: descend by `x <= t` to a leaf and take the
argmax of its value row, the first class winning a tie. The kernel keeps
one bit per child instead, strictly more benign than malicious, and
keeps it at the parent. The two agree except where that loses something:

- at a tied leaf the bit says drop and the argmax says BENIGN;
- a root that is itself a leaf has no parent to keep a bit at, so the
  table is empty and its verdict PASS whatever the leaf says.

`predicted_iff` is the exact condition, `tied_leaf_dropped` the failing
input. Thresholds `k + 1/2` quantise to `k`, so no split differs
(`split_half`); that every `k` is an `int32` is read off the export
having returned (`exported_range`).
-/
import XdpIds.Tree.Proofs.Exported

namespace XdpIds.Tree

open LevelOrder

variable {featureNb : Nat} {clf : FittedTree}

-- ========================================================== the prediction

/-- The two classes, in scikit-learn's order. -/
inductive Label where
  | benign
  | malicious
deriving DecidableEq, Repr

/-- scikit-learn's split: the column's value against the trained
threshold. -/
def skSplit (fv : Vector UInt32 featureNb) (f : Nat) (t : ℚ) : Bool :=
  decide ((((fv[f]?).getD 0).toNat : ℚ) ≤ t)

/-- The leaf a vector reaches in the trained tree. -/
def FittedTree.leafOf (clf : FittedTree) (fv : Vector UInt32 featureNb) :
    DTree :=
  clf.tree.walkTo (skSplit fv) clf.tree.depth

/-- `clf.predict`, with the values compared as they are: the argmax of
the reached leaf's row, BENIGN on a tie. -/
def FittedTree.predict (clf : FittedTree) (fv : Vector UInt32 featureNb) :
    Label :=
  let v := (clf.leafOf fv).value
  if v.malicious ≤ v.benign then .benign else .malicious

/-- Where the exported bits carry the prediction: a leaf below a split
is not tied, and a root that is a leaf has no more malicious than
benign. -/
def FittedTree.Expressible (clf : FittedTree)
    (fv : Vector UInt32 featureNb) : Prop :=
  let v := (clf.leafOf fv).value
  if clf.tree.isNode then v.malicious ≠ v.benign
  else v.malicious ≤ v.benign

-- ============================================================ half integers

theorem quantise_half (k : Nat) : quantise (k + 1 / 2) = k := by
  have hsub : (k : ℚ) + 1 / 2 - 1 / 2 = (k : ℤ) := by push_cast; ring
  rw [quantise, hsub]
  rcases pyRound_cases ((k : ℤ) : ℚ) with ⟨hr, -⟩ | ⟨-, hfrac⟩
  · rw [hr, Int.floor_intCast]
  · rw [Int.floor_intCast] at hfrac
    norm_num at hfrac

/-- On a half integer the exported split is the trained one. -/
theorem split_half (fv : Vector UInt32 featureNb) (f k : Nat) :
    exportedSplit fv f (k + 1 / 2) = skSplit fv f (k + 1 / 2) := by
  unfold exportedSplit skSplit
  rw [quantise_half, decide_eq_decide]
  constructor
  · intro h
    have hk : ((fv[f]?.getD 0).toNat : ℚ) ≤ k := by exact_mod_cast h
    linarith
  · intro h
    by_contra hlt
    have hk : ((k : ℚ) + 1) ≤ (fv[f]?.getD 0).toNat := by
      exact_mod_cast not_le.mp hlt
    linarith

-- ================================================ what a returned export says

/-- What holds of every internal node a path leads to holds of the
tree. -/
theorem all_of_follow {P : Nat → ℚ → Prop} {t : DTree}
    (h : ∀ p f th v l r,
      follow DTree.next t p = some (.node f th v l r) → P f th) :
    t.All P := by
  induction t with
  | leaf v => trivial
  | node f th v l r ihl ihr =>
      refine ⟨h [] f th v l r rfl, ihl ?_, ihr ?_⟩
      · intro p f' th' v' l' r' hp
        exact h (false :: p) f' th' v' l' r' hp
      · intro p f' th' v' l' r' hp
        exact h (true :: p) f' th' v' l' r' hp

/-- `np.int32` returns on its range only. -/
theorem npInt32_range {z z' : ℤ} (h : npInt32 z = .ok z') :
    -(2 ^ 31) ≤ z ∧ z < 2 ^ 31 := by
  unfold npInt32 at h
  split at h
  · assumption
  · cases h

/-- If the exporter returned, every threshold it met quantised to an
`int32`. -/
theorem exported_range {featureNames : List Feature} {header : Header}
    (hexp : mainExport featureNames clf = some (.ok header)) :
    clf.tree.All fun _ th =>
      -(2 ^ 31) ≤ quantise th ∧ quantise th < 2 ^ 31 := by
  obtain ⟨out, hnodes, hout⟩ := Option.map_eq_some_iff.mp hexp
  cases out with
  | error err => cases hout
  | ok entries =>
      obtain ⟨-, hslots⟩ := exportNodes_spec hnodes
      refine all_of_follow fun p f th v l r hp => ?_
      -- the node's path is shorter than the tree is deep, so it has a slot
      have hlen := length_add_depth hp
      rw [DTree.depth] at hlen
      have hpos : pos p < maxNodes (clf.tree.depth - 1) := by
        obtain ⟨m, hm⟩ := Nat.exists_eq_succ_of_ne_zero
          (show clf.tree.depth ≠ 0 by omega)
        rw [maxNodes_main, hm]
        exact pos_lt_iff.mpr (by omega)
      have hrel := occ_stored clf.stored (pos p)
      rw [@occ_pos DTree, hp] at hrel
      cases ha : occ clf.arrays.next 0 (pos p) with
      | none => rw [ha] at hrel; cases hrel
      | some a =>
          rw [ha] at hrel
          obtain ⟨e, -, he⟩ := (hslots (pos p) hpos).1 a ha
          cases hrel with
          | some hstored =>
              unfold SkArrays.entry at he
              cases hstored with
              | node hl hr hf hlt hrt =>
                  rw [if_neg (by rw [hl]; omega)] at he
                  cases hint : npInt32 (quantise (clf.arrays.threshold a)) with
                  | error err => rw [hint] at he; cases he
                  | ok z => exact npInt32_range hint

-- ================================================ verdict and prediction

/-- The verdict of the exported and loaded tree, in the trained tree's
terms: the reached leaf's strict majority, or PASS when there is no
split. -/
theorem verdict_exported {featureNames : List Feature} {header : Header}
    {map : DtNodesArray DT_NODE_NB} {fv : Vector UInt32 featureNb}
    (hsplits : clf.tree.All fun f t =>
      f < featureNb ∧ ∃ k : Nat, t = k + 1 / 2)
    (hnb : featureNb ≤ 32) (hdepth : clf.tree.depth ≤ 7)
    (hexp : mainExport featureNames clf = some (.ok header))
    (hload : loadedMap DT_NODE_NB header.trainedDtNodes = some map) :
    classifyDt map fv
      = some (.ofBool (if clf.tree.isNode then (clf.leafOf fv).value.passes
          else true)) := by
  have hrange := exported_range hexp
  have hpow : 2 ^ clf.tree.depth ≤ 2 ^ 7 :=
    Nat.pow_le_pow_right (by decide) hdepth
  have hmax : 2 ^ clf.tree.depth - 1 ≤ DT_NODE_NB := by
    unfold DT_NODE_NB
    omega
  rw [← maxNodes_main] at hmax
  obtain rfl : tableOf _ _ _ = map :=
    Option.some.inj ((loadedMap_eq hexp hmax).symm.trans hload)
  rw [maxNodes_main] at hmax ⊢
  have hall := hsplits.mono fun f t h => h.1
  have hwalk : clf.tree.walkTo (kernelSplit fv) clf.tree.depth
      = clf.leafOf fv :=
    walkTo_congr ((hsplits.and hrange).mono fun f th h => by
      obtain ⟨⟨-, k, rfl⟩, -, hlt⟩ := h
      rw [kernelSplit_eq fv f (by rw [quantise_half]; omega) hlt]
      exact split_half fv f k) _
  cases hroot : clf.tree.isNode with
  | false =>
      -- a root that is a leaf: the table is empty
      rw [classifyDt_tableOf hnb (by decide) hmax hall]
      cases ht : clf.tree with
      | leaf v => rfl
      | node f th v l r => rw [ht] at hroot; cases hroot
  | true =>
      obtain ⟨m, hm⟩ := Nat.exists_eq_succ_of_ne_zero
        (DTree.depth_pos hroot).ne'
      rw [hm] at hmax hwalk ⊢
      rw [classifyDt_level hnb (by decide) hmax hroot hall, hwalk, if_pos rfl]

/-- On a tree of depth at most 7 with half-integer thresholds, exported
as `main` does and loaded, the verdict is PASS exactly for the vectors
predicted BENIGN if and only if the reached leaf is one the exported
bits can express. -/
theorem predicted_iff (clf : FittedTree) {featureNames : List Feature}
    {header : Header} {map : DtNodesArray DT_NODE_NB}
    (fv : Vector UInt32 featureNb)
    (hsplits : clf.tree.All fun f t =>
      f < featureNb ∧ ∃ k : Nat, t = k + 1 / 2)
    (hnb : featureNb ≤ 32) (hdepth : clf.tree.depth ≤ 7)
    (hexp : mainExport featureNames clf = some (.ok header))
    (hload : loadedMap DT_NODE_NB header.trainedDtNodes = some map) :
    (classifyDt map fv = some .pass ↔ clf.predict fv = .benign)
      ↔ clf.Expressible fv := by
  rw [verdict_exported hsplits hnb hdepth hexp hload]
  unfold FittedTree.predict FittedTree.Expressible Values.passes
    Verdict.ofBool
  generalize (clf.leafOf fv).value = v
  cases clf.tree.isNode with
  | false => simp
  | true =>
      rcases lt_trichotomy v.malicious v.benign with h | h | h
      · simp [h, h.le, h.ne]
      · simp [h]
      · simp [h, h.not_gt, h.ne']

/-- The stump's one split is a half integer. -/
theorem stump_splits (low high : Values) :
    (stump low high).tree.All fun f t => f < 4 ∧ ∃ k : Nat, t = k + 1 / 2 :=
  ⟨⟨by decide, 2, by norm_num⟩, trivial, trivial⟩

/-- The stump exports and loads. -/
theorem stump_loaded (low high : Values) :
    ∃ header map,
      mainExport [.sPort, .dPort, .protocol, .pktSize] (stump low high)
        = some (.ok header)
      ∧ loadedMap DT_NODE_NB header.trainedDtNodes = some map := by
  obtain ⟨header, hexp, hload⟩ :=
    @exported_loaded DT_NODE_NB (stump low high)
      [.sPort, .dPort, .protocol, .pktSize] 0 (by decide) (by decide)
      ⟨⟨by decide +kernel, by decide +kernel⟩, trivial, trivial⟩
  exact ⟨header, _, hexp, hload⟩

theorem predicted_iff_stump :
    ∃ header map,
      mainExport [.sPort, .dPort, .protocol, .pktSize]
          (stump ⟨3, 1⟩ ⟨0, 2⟩) = some (.ok header)
      ∧ loadedMap DT_NODE_NB header.trainedDtNodes = some map
      ∧ (classifyDt map #v[80, 443, 6, 2] = some .pass
          ↔ (stump ⟨3, 1⟩ ⟨0, 2⟩).predict #v[80, 443, 6, 2] = .benign) := by
  obtain ⟨header, map, hexp, hload⟩ := stump_loaded ⟨3, 1⟩ ⟨0, 2⟩
  refine ⟨header, map, hexp, hload, ?_⟩
  refine (predicted_iff (stump ⟨3, 1⟩ ⟨0, 2⟩) #v[80, 443, 6, 2]
    (stump_splits _ _) (by decide) (by decide) hexp hload).mpr ?_
  unfold FittedTree.Expressible
  decide +kernel

/-- A tree that is one leaf. -/
def lone (v : Values) : FittedTree where
  arrays := {
    childrenLeft := fun _ => -1
    childrenRight := fun _ => -1
    feature := fun _ => -2
    threshold := fun _ => -2
    value := fun _ => v }
  tree := .leaf v
  stored := .leaf rfl

/-- The two disagreements: a tied leaf is predicted BENIGN and dropped,
and a lone MALICIOUS leaf is predicted MALICIOUS and passed. -/
theorem tied_leaf_dropped :
    (∃ header map,
      mainExport [.sPort, .dPort, .protocol, .pktSize]
          (stump ⟨1, 1⟩ ⟨0, 2⟩) = some (.ok header)
      ∧ loadedMap DT_NODE_NB header.trainedDtNodes = some map
      ∧ (stump ⟨1, 1⟩ ⟨0, 2⟩).predict #v[80, 443, 6, 2] = .benign
      ∧ classifyDt map #v[80, 443, 6, 2] = some .drop)
    ∧ ∃ header map,
      mainExport [.sPort, .dPort, .protocol, .pktSize] (lone ⟨0, 1⟩)
        = some (.ok header)
      ∧ loadedMap DT_NODE_NB header.trainedDtNodes = some map
      ∧ (lone ⟨0, 1⟩).predict #v[80, 443, 6, 2] = .malicious
      ∧ classifyDt map #v[80, 443, 6, 2] = some .pass := by
  constructor
  · obtain ⟨header, map, hexp, hload⟩ := stump_loaded ⟨1, 1⟩ ⟨0, 2⟩
    refine ⟨header, map, hexp, hload, by decide +kernel, ?_⟩
    rw [verdict_exported (stump_splits _ _) (by decide) (by decide) hexp hload]
    decide +kernel
  · obtain ⟨header, hexp, hload⟩ :=
      @exported_loaded DT_NODE_NB (lone ⟨0, 1⟩)
        [.sPort, .dPort, .protocol, .pktSize] (-1) (by decide) (by decide)
        trivial
    refine ⟨header, _, hexp, hload, by decide +kernel, ?_⟩
    rw [@verdict_exported 4 (lone ⟨0, 1⟩) _ _ _ _ trivial (by decide)
      (by decide) hexp hload]
    rfl

end XdpIds.Tree
