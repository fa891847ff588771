/-
Exporter, loader and kernel walk together: the loaded table decides as
the trained tree does.

`exported_loaded` is the pipeline in one step: on a tree whose thresholds
quantise in range, `DT_export_c_header` returns, its table fits, and the
map the loader leaves is `tableOf`. `classify_exported` then reads the
walk off it (`classifyDt_level`). When the export has as many levels as
the tree has splits, every internal node sits in its own slot
(`tableOf_node`) and the walk ends in a leaf.

# Quantised thresholds

A threshold in `[0, 2^31)` quantises into `[0, 2^31)`
(`quantise_bounds`): `round(t - 0.5)` is at least 0 because -1/2 rounds
to the even 0, and at most `2^31 - 1` because `t - 0.5` stays below the
half after it.
-/
import XdpIds.Tree.Proofs.Simulation
import Mathlib.Tactic.Linarith
import Mathlib.Tactic.NormNum

namespace XdpIds.Tree

open LevelOrder

-- ================================================== quantised thresholds

/-- `round` lands on one of the two integers around its argument, and
above only from the half on. -/
theorem pyRound_cases (x : ℚ) :
    (pyRound x = ⌊x⌋ ∧ x - ⌊x⌋ ≤ 1 / 2)
      ∨ (pyRound x = ⌊x⌋ + 1 ∧ 1 / 2 ≤ x - ⌊x⌋) := by
  unfold pyRound
  simp only
  split
  · next h => exact Or.inl ⟨rfl, h.le⟩
  · next h =>
      split
      · next h' => exact Or.inr ⟨rfl, h'.le⟩
      · next h' =>
          have heq : x - ⌊x⌋ = 1 / 2 := le_antisymm (not_lt.mp h') (not_lt.mp h)
          split
          · exact Or.inl ⟨rfl, heq.le⟩
          · exact Or.inr ⟨rfl, heq.ge⟩

theorem quantise_nonneg {t : ℚ} (ht : 0 ≤ t) : 0 ≤ quantise t := by
  unfold quantise
  have hfloor : (-1 : ℤ) ≤ ⌊t - 1 / 2⌋ :=
    Int.le_floor.mpr (by push_cast; linarith)
  rcases pyRound_cases (t - 1 / 2) with ⟨hr, hfrac⟩ | ⟨hr, -⟩
  · rw [hr]
    by_contra hneg
    -- the floor would be -1, so the argument the even-rounded half
    have hlo : ⌊t - 1 / 2⌋ = -1 := by omega
    have hhalf : t - 1 / 2 = -1 / 2 := by
      rw [hlo] at hfrac
      push_cast at hfrac
      linarith
    have hzero : pyRound (-1 / 2) = 0 := by decide +kernel
    rw [hhalf, hzero] at hr
    rw [hhalf] at hneg
    omega
  · omega

theorem quantise_lt {t : ℚ} {n : ℤ} (ht : t < n) : quantise t < n := by
  unfold quantise
  have hfloor : ⌊t - 1 / 2⌋ < n := Int.floor_lt.mpr (by linarith)
  rcases pyRound_cases (t - 1 / 2) with ⟨hr, -⟩ | ⟨hr, hfrac⟩
  · omega
  · have : ((⌊t - 1 / 2⌋ + 1 : ℤ) : ℚ) < n := by
      push_cast
      linarith
    rw [hr]
    exact_mod_cast this

/-- A threshold an `int32` can floor quantises to a nonnegative
`int32`. -/
theorem quantise_bounds {t : ℚ} (h0 : 0 ≤ t) (h1 : t < 2 ^ 31) :
    0 ≤ quantise t ∧ quantise t < 2 ^ 31 :=
  ⟨quantise_nonneg h0, quantise_lt (by exact_mod_cast h1)⟩

variable {featureNb dtNodeNb : Nat} {clf : FittedTree}

/-- The split by the exported integer threshold. -/
def exportedSplit (fv : Vector UInt32 featureNb) (f : Nat) (t : ℚ) : Bool :=
  decide ((((fv[f]?).getD 0).toNat : ℤ) ≤ quantise t)

/-- In the struct's field a nonnegative `int32` threshold is itself. -/
theorem threshold_toNat {z : ℤ} (h0 : 0 ≤ z) (h1 : z < 2 ^ 31) :
    ((UInt32.ofInt z).toNat : ℤ) = z := by
  unfold UInt32.ofInt
  rw [UInt32.toNat_ofNat']
  omega

theorem kernelSplit_eq (fv : Vector UInt32 featureNb) (f : Nat) {t : ℚ}
    (h0 : 0 ≤ quantise t) (h1 : quantise t < 2 ^ 31) :
    kernelSplit fv f t = exportedSplit fv f t := by
  have hth := threshold_toNat h0 h1
  unfold kernelSplit exportedSplit
  rw [decide_eq_decide, UInt32.le_iff_toNat_le]
  omega

theorem DTree.All.mono {P Q : Nat → ℚ → Prop} {t : DTree}
    (h : ∀ f th, P f th → Q f th) (hall : t.All P) : t.All Q := by
  induction t with
  | leaf v => trivial
  | node f th v l r ihl ihr =>
      exact ⟨h f th hall.1, ihl hall.2.1, ihr hall.2.2⟩

theorem DTree.All.and {P Q : Nat → ℚ → Prop} {t : DTree}
    (hP : t.All P) (hQ : t.All Q) : t.All fun f th => P f th ∧ Q f th := by
  induction t with
  | leaf v => trivial
  | node f th v l r ihl ihr =>
      exact ⟨⟨hP.1, hQ.1⟩, ihl hP.2.1 hQ.2.1, ihr hP.2.2 hQ.2.2⟩

/-- `main` passes one level less than the depth: a table of as many
levels as the tree has splits on its longest path. -/
theorem maxNodes_main (d : Nat) : maxNodes ((d : ℤ) - 1) = 2 ^ d - 1 := by
  unfold maxNodes
  congr 2
  omega

theorem DTree.depth_pos {t : DTree} (h : t.isNode = true) :
    0 < t.depth := by
  cases t with
  | leaf v => cases h
  | node f th v l r => rw [DTree.depth]; omega

-- ============================================================ the pipeline

/-- Export, copy and load succeed and leave the tree's table. -/
theorem exported_loaded (featureNames : List Feature) {maxDepth : ℤ}
    (hdepth : -1 ≤ maxDepth) (hfit : maxNodes maxDepth ≤ dtNodeNb)
    (hrange : clf.tree.All fun _ t =>
      -(2 ^ 31) ≤ quantise t ∧ quantise t < 2 ^ 31) :
    ∃ header, dtExportCHeader featureNames clf.arrays maxDepth
        = some (.ok header)
      ∧ loadedMap dtNodeNb header.trainedDtNodes
        = some (tableOf dtNodeNb clf.tree (maxNodes maxDepth)) := by
  obtain ⟨header, hexp⟩ := dtExportCHeader_ok clf featureNames hdepth hrange
  exact ⟨header, hexp, loadedMap_eq hexp hfit⟩

/-- A path's subtree and the turns to it together are no deeper than the
tree. -/
theorem length_add_depth {t s : DTree} {p : List Bool}
    (h : follow DTree.next t p = some s) : p.length + s.depth ≤ t.depth := by
  induction p generalizing t with
  | nil =>
      obtain rfl := Option.some.inj h
      simp
  | cons b p ih =>
      cases t with
      | leaf v => cases h
      | node f th v l r =>
          have hkid := ih h
          rw [DTree.depth, List.length_cons]
          cases b <;> simp only [cond_true, cond_false] at hkid <;> omega

/-- An internal node within the table's levels sits in its own slot. -/
theorem tableOf_node {m : Nat} (hm : 2 ^ (m + 1) - 1 ≤ dtNodeNb)
    {tree s : DTree} {p : List Bool} (hp : p.length ≤ m)
    (hs : follow DTree.next tree p = some s) :
    ∃ h : pos p < dtNodeNb,
      tableOf dtNodeNb tree (2 ^ (m + 1) - 1) ⟨pos p, h⟩ = s.dtNode := by
  have hcut := pos_lt_iff.mpr hp
  refine ⟨by omega, ?_⟩
  unfold tableOf
  rw [if_pos hcut, occ_pos, hs]
  rfl

-- ================================================= the exported classifier

/-- Exporting a tree with an internal root, loading the table over a
zeroed map and walking it passes a vector exactly when the reference
walk ends in a node with strictly more benign than malicious: down from
the root by the exported thresholds, to the first leaf or `m + 1` levels
deep. Exported one level short of its depth, the tree keeps each of its
internal nodes in a slot of its own, and the walk ends in a leaf. -/
theorem classify_exported (clf : FittedTree) (featureNames : List Feature)
    {m : Nat} (fv : Vector UInt32 featureNb)
    (hroot : clf.tree.isNode = true)
    (hsplits : clf.tree.All fun f t => f < featureNb ∧ 0 ≤ t ∧ t < 2 ^ 31)
    (hnb : featureNb ≤ 32) (hN : dtNodeNb ≤ 255)
    (hm : 2 ^ (m + 1) - 1 ≤ dtNodeNb) :
    ∃ header map,
      dtExportCHeader featureNames clf.arrays m = some (.ok header)
      ∧ loadedMap dtNodeNb header.trainedDtNodes = some map
      ∧ (∃ verdict, classifyDt map fv = some verdict)
      ∧ (classifyDt map fv = some .pass ↔
          let stop := clf.tree.walkTo (exportedSplit fv) (m + 1)
          stop.value.malicious < stop.value.benign)
      ∧ (m + 1 = clf.tree.depth →
          (∀ p s, follow DTree.next clf.tree p = some s → s.isNode = true →
            ∃ h : pos p < dtNodeNb, map ⟨pos p, h⟩ = s.dtNode)
          ∧ (clf.tree.walkTo (exportedSplit fv) (m + 1)).isNode = false) := by
  have hbounds : clf.tree.All fun _ t =>
      0 ≤ quantise t ∧ quantise t < 2 ^ 31 :=
    hsplits.mono fun f t h => quantise_bounds h.2.1 h.2.2
  have hmax : maxNodes (m : ℤ) = 2 ^ (m + 1) - 1 := rfl
  obtain ⟨header, hexp, hload⟩ :=
    exported_loaded featureNames (by omega) (hmax ▸ hm)
      (hbounds.mono fun f t h => ⟨by omega, h.2⟩)
  rw [hmax] at hload
  have hwalk : classifyDt (tableOf dtNodeNb clf.tree (2 ^ (m + 1) - 1)) fv
      = some (.ofBool
          (clf.tree.walkTo (exportedSplit fv) (m + 1)).value.passes) := by
    rw [classifyDt_level hnb (by omega) hm hroot
        (hsplits.mono fun f t h => h.1),
      walkTo_congr (hbounds.mono fun f t h => kernelSplit_eq fv f h.1 h.2)]
  refine ⟨header, _, hexp, hload, ⟨_, hwalk⟩, ?_, ?_⟩
  · rw [hwalk]
    unfold Values.passes Verdict.ofBool
    simp
  · intro hdepth
    refine ⟨?_, DTree.walkTo_isLeaf (by omega)⟩
    intro p s hs hnode
    have hlen := length_add_depth hs
    have hpos := DTree.depth_pos hnode
    exact tableOf_node hm (by omega) hs

/-- A tree of one split on feature 3 at 5/2, from its leaves' values. -/
def stump (low high : Values) : FittedTree where
  arrays := {
    childrenLeft := fun i => if i = 0 then 1 else -1
    childrenRight := fun i => if i = 0 then 2 else -1
    feature := fun i => if i = 0 then 3 else -2
    threshold := fun i => if i = 0 then 5 / 2 else -2
    value := fun i => if i = 1 then low else high }
  tree := .node 3 (5 / 2) high (.leaf low) (.leaf high)
  stored := by
    refine .node (l := 1) (r := 2) (f := 3) rfl rfl rfl ?_ ?_
    · exact .leaf rfl
    · exact .leaf rfl

theorem classify_exported_stump :
    ∃ header map,
      dtExportCHeader [.sPort, .dPort, .protocol, .pktSize]
          (stump ⟨3, 1⟩ ⟨0, 2⟩).arrays (0 : Nat) = some (.ok header)
      ∧ loadedMap 128 header.trainedDtNodes = some map
      ∧ classifyDt map #v[80, 443, 6, 2] = some .pass := by
  obtain ⟨header, map, hexp, hload, -, hpass, -⟩ :=
    @classify_exported 4 128 (stump ⟨3, 1⟩ ⟨0, 2⟩)
      [.sPort, .dPort, .protocol, .pktSize] 0 #v[80, 443, 6, 2] rfl
      (by norm_num [stump, DTree.All]) (by decide) (by decide) (by decide)
  exact ⟨header, map, hexp, hload, hpass.mpr (by decide +kernel)⟩

end XdpIds.Tree
