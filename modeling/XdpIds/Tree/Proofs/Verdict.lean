/-
The verdict of a loaded tree, for any trained thresholds a packet's
values can be compared with.

`exportedVerdict` is the descent by the exported integers, with the
majority of the leaf it ends in; `classifyDt_exported` says that the
kernel's walk is this descent. The exported integer is the trained
threshold's floor except at the odd integers, so on a tree without these
the descent is the trained one (`exportedVerdict_leafOf`), and the
verdict the prediction wherever the exported bits can carry it
(`exportedVerdict_predict`).

The prediction compares exactly. scikit-learn compares 32-bit floats, so
its own `predict` is a parameter here, of which `PredictedBy` says what is
known: on values such floats hold exactly it is that prediction.
-/
import XdpIds.Tree.Proofs.Predict
import XdpIds.Tree.Proofs.Quantise

namespace XdpIds.Tree

variable {featureNb : Nat} {clf : FittedTree} {fv : Vector UInt32 featureNb}

/-- What the exported tree says of a vector: the majority of the leaf it
descends to, or PASS when there is no split. -/
def FittedTree.exportedVerdict (clf : FittedTree)
    (fv : Vector UInt32 featureNb) : Bool :=
  if clf.tree.isNode then
    (clf.tree.walkTo (exportedSplit fv) clf.tree.depth).value.passes
  else true

/-- The kernel's walk on the loaded table is that descent. -/
theorem classifyDt_exported {featureNames : List Feature} {header : Header}
    {map : DtNodesArray DT_NODE_NB} (fv : Vector UInt32 featureNb)
    (hsplits : clf.tree.All fun f t => f < featureNb ∧ 0 ≤ t ∧ t < 2 ^ 31)
    (hnb : featureNb ≤ 32) (hdepth : clf.tree.depth ≤ 7)
    (hexp : mainExport featureNames clf = some (.ok header))
    (hload : loadedMap DT_NODE_NB header.trainedDtNodes = some map) :
    classifyDt map fv = some (.ofBool (clf.exportedVerdict fv)) := by
  have hmax : 2 ^ clf.tree.depth - 1 ≤ DT_NODE_NB := by
    have hpow : 2 ^ clf.tree.depth ≤ 2 ^ 7 :=
      Nat.pow_le_pow_right (by simp) hdepth
    unfold DT_NODE_NB
    omega
  rw [← maxNodes_main] at hmax
  obtain rfl : tableOf _ _ _ = map :=
    Option.some.inj ((loadedMap_eq hexp hmax).symm.trans hload)
  rw [maxNodes_main] at hmax ⊢
  have hall := hsplits.mono fun f t h => h.1
  have hwalk : clf.tree.walkTo (kernelSplit fv) clf.tree.depth
      = clf.tree.walkTo (exportedSplit fv) clf.tree.depth := by
    refine walkTo_congr (hsplits.mono fun f t h => ?_) _
    have hbounds := quantise_bounds h.2.1 h.2.2
    exact kernelSplit_eq fv f hbounds.1 hbounds.2
  unfold FittedTree.exportedVerdict
  cases hroot : clf.tree.isNode with
  | false =>
      rw [classifyDt_tableOf hnb (by simp [DT_NODE_NB]) hmax hall]
      cases htree : clf.tree with
      | leaf v => rfl
      | node f th v l r => rw [htree] at hroot; cases hroot
  | true =>
      obtain ⟨m, hm⟩ := Nat.exists_eq_succ_of_ne_zero
        (DTree.depth_pos hroot).ne'
      rw [hm] at hmax hwalk ⊢
      rw [classifyDt_level hnb (by simp [DT_NODE_NB]) hmax hroot hall, hwalk,
        if_pos rfl]

/-- Away from the odd integers the exported split is the trained one. -/
theorem exportedSplit_eq (fv : Vector UInt32 featureNb) (f : Nat) {t : ℚ}
    (h : ¬ OddInteger t) : exportedSplit fv f t = skSplit fv f t := by
  unfold exportedSplit skSplit
  rw [quantise_eq_floor_iff.mpr h, decide_eq_decide, Int.le_floor]
  simp

/-- On a tree without odd thresholds the exported descent ends in the
trained tree's leaf. -/
theorem exportedVerdict_leafOf (h : clf.tree.All fun _ t => ¬ OddInteger t) :
    clf.exportedVerdict fv
      = if clf.tree.isNode then (clf.leafOf fv).value.passes else true := by
  unfold FittedTree.exportedVerdict FittedTree.leafOf
  rw [walkTo_congr (h.mono fun f t ht => exportedSplit_eq fv f ht)]

/-- There the verdict is the prediction exactly where the exported bits
can carry it. -/
theorem exportedVerdict_predict
    (h : clf.tree.All fun _ t => ¬ OddInteger t) :
    (clf.exportedVerdict fv = true ↔ clf.predict fv = .benign)
      ↔ clf.Expressible fv := by
  rw [exportedVerdict_leafOf h]
  unfold FittedTree.predict FittedTree.Expressible Values.passes
  generalize (clf.leafOf fv).value = v
  cases clf.tree.isNode with
  | false => simp
  | true =>
      rcases lt_trichotomy v.malicious v.benign with hlt | heq | hgt
      · simp [hlt, hlt.le, hlt.ne]
      · simp [heq]
      · simp [hgt.not_ge, hgt.le, hgt.ne']

/-- The stump's one threshold is 5/2. -/
theorem stump_notOdd (low high : Values) :
    (stump low high).tree.All fun _ t => ¬ OddInteger t := by
  refine ⟨?_, trivial, trivial⟩
  rintro ⟨n, -, hn⟩
  have hdouble : (5 : ℚ) = 2 * n := by rw [← hn]; norm_num
  have hint : (5 : ℤ) = 2 * n := by exact_mod_cast hdouble
  omega

/-- Every value is one that a 32-bit float holds exactly. -/
def FloatExact (fv : Vector UInt32 featureNb) : Prop :=
  ∀ x ∈ fv, x.toNat ≤ 2 ^ 24

/-- What is relied on of `clf.predict`: where its conversion to 32-bit
floats changes no value, it descends by the trained thresholds and takes
the argmax of the leaf. -/
def FittedTree.PredictedBy (clf : FittedTree)
    (predict : List UInt32 → Label) : Prop :=
  ∀ {featureNb : Nat} (fv : Vector UInt32 featureNb), FloatExact fv →
    predict fv.toList = clf.predict fv

/-- `clf.predict` on a row that floats hold. -/
def FittedTree.predictRow (clf : FittedTree) (row : List UInt32) : Label :=
  clf.predict (⟨row.toArray, rfl⟩ : Vector UInt32 row.length)

theorem predictedBy_predictRow (clf : FittedTree) :
    clf.PredictedBy clf.predictRow := by
  intro featureNb fv hexact
  obtain ⟨⟨values⟩, rfl⟩ := fv
  rfl

end XdpIds.Tree
