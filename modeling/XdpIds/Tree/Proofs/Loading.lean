/-
What a walk can return while the tree is being loaded.

# The walk is atomic after all

A walk that overlaps the fill returns what it would have returned on one
map at rest: the entries written up to its last lookup
(`loading_atomic`). The reason is that the fill only ever turns an
undefined entry into a defined one and the walk stops at an undefined
one: every node the walk has gone through was written already, and is
the same in every longer prefix. `LoadInv` is that argument as an
invariant: replaying the whole walk on any prefix at least as long as
the current one leads to the walk's current locals.

# What a prefix decides

A prefix of an exported table is the tree's table cut at the prefix
(`loadedUpTo_tableOf`), so a half-loaded tree returns the majority of
some node on the path the vector takes through the trained tree, or PASS
when not even the root is loaded (`loading_verdict`). That majority need
not be the leaf's: `half_loaded_drops` passes a vector before and after
the fill and drops it in between.
-/
import XdpIds.Tree.Loading
import XdpIds.Tree.Proofs.Predict

namespace XdpIds.Tree

open LevelOrder Transition

variable {dtNodeNb featureNb : Nat} {nodes : DtNodesArray dtNodeNb}
  {fv : Vector UInt32 featureNb}

-- ========================================================= growing prefixes

/-- Writing the next entry makes the prefix one longer. -/
theorem loadedUpTo_update {k : Nat} (h : k < dtNodeNb) :
    (loadedUpTo nodes k).update ⟨k, h⟩ (nodes ⟨k, h⟩)
      = loadedUpTo nodes (k + 1) := by
  funext i
  unfold DtNodesArray.update
  by_cases hik : i = ⟨k, h⟩
  · subst hik
    rw [Function.update_self, loadedUpTo, if_pos (Nat.lt_succ_self k)]
  · have hne : (i : Nat) ≠ k := fun heq => hik (Fin.ext heq)
    rw [Function.update_of_ne hik, loadedUpTo, loadedUpTo]
    by_cases hlt : (i : Nat) < k
    · rw [if_pos hlt, if_pos (by omega)]
    · rw [if_neg hlt, if_neg (by omega)]

/-- A lookup that goes on from a prefix goes on alike from any longer
one. -/
theorem classifyBody_mono {j k : Nat} (hjk : j ≤ k) {w w' : Walker}
    (h : classifyBody (loadedUpTo nodes j) fv w = .inr w') :
    classifyBody (loadedUpTo nodes k) fv w = .inr w' := by
  rcases Nat.lt_or_ge w.i.toNat dtNodeNb with hi | hi
  · rcases Nat.lt_or_ge w.i.toNat j with hj | hj
    · have hsame : loadedUpTo nodes k ⟨w.i.toNat, hi⟩
          = loadedUpTo nodes j ⟨w.i.toNat, hi⟩ := by
        rw [loadedUpTo, loadedUpTo, if_pos hj,
          if_pos (show w.i.toNat < k by omega)]
      rw [classifyBody_at hi] at h ⊢
      rw [hsame]
      exact h
    · -- past the prefix the entry is undefined and the walk would stop
      rw [classifyBody_undefined hi
        (by rw [loadedUpTo, if_neg (Nat.not_lt.mpr hj)])] at h
      cases h
  · rw [classifyBody_past hi] at h
    cases h

-- ========================================================== the invariant

/-- The walk so far, replayed on any prefix at least as long as what is
written now, is where it is; a returned verdict is that of a prefix
between `k₀` entries and what is written now. -/
structure LoadInv (nodes : DtNodesArray dtNodeNb)
    (fv : Vector UInt32 featureNb) (k₀ : Nat) (s : LoadState dtNodeNb) :
    Prop where
  map_eq : s.map = loadedUpTo nodes s.next
  start_le : k₀ ≤ s.next
  walking : ∀ fuel w, s.phase = .walking fuel w → ∀ k, s.next ≤ k →
    ∃ j, classifyDt (loadedUpTo nodes k) fv
      = classifyLoop (fun _ => loadedUpTo nodes k) fv fuel j w
  returned : ∀ v, s.phase = .returned v → ∃ k, k₀ ≤ k ∧ k ≤ s.next
    ∧ classifyDt (loadedUpTo nodes k) fv = some v

theorem loadInv_arrival (k₀ : Nat) :
    LoadInv nodes fv k₀ (.arrival nodes k₀) := by
  refine ⟨rfl, Nat.le_refl _, ?_, ?_⟩
  · intro fuel w hphase k _
    obtain ⟨rfl, rfl⟩ := Phase.walking.inj hphase
    exact ⟨0, rfl⟩
  · intro v hphase
    cases hphase

/-- Either party's step keeps the invariant. -/
theorem loadInv_step {k₀ : Nat} {s s' : LoadState dtNodeNb} {l : Party}
    (hI : LoadInv nodes fv k₀ s) (hs : loadStep nodes fv s l = some s') :
    LoadInv nodes fv k₀ s' := by
  cases l with
  | loader =>
      rw [loadStep] at hs
      split at hs
      case isFalse => cases hs
      case isTrue h =>
        obtain rfl := Option.some.inj hs
        refine ⟨?_, Nat.le_succ_of_le hI.start_le, ?_, ?_⟩
        · show s.map.update _ _ = _
          rw [hI.map_eq]
          exact loadedUpTo_update h
        · intro fuel w hphase k hk
          have hle : s.next + 1 ≤ k := hk
          exact hI.walking fuel w hphase k (by omega)
        · intro v hphase
          obtain ⟨k, hlo, hhi, hk⟩ := hI.returned v hphase
          exact ⟨k, hlo, Nat.le_succ_of_le hhi, hk⟩
  | walker =>
      rw [loadStep] at hs
      cases hphase : s.phase with
      | returned v => rw [hphase] at hs; cases hs
      | walking fuel w =>
          cases fuel with
          | zero => rw [hphase] at hs; cases hs
          | succ fuel =>
              rw [hphase] at hs
              simp only at hs
              cases hbody : classifyBody s.map fv w with
              | inl v =>
                  rw [hbody] at hs
                  obtain rfl := Option.some.inj hs
                  refine ⟨hI.map_eq, hI.start_le, ?_, ?_⟩
                  · intro fuel' w' h
                    cases h
                  · intro v' h
                    obtain rfl := Phase.returned.inj h
                    obtain ⟨j, hj⟩ := hI.walking _ _ hphase s.next (Nat.le_refl _)
                    refine ⟨s.next, hI.start_le, Nat.le_refl _, ?_⟩
                    rw [hI.map_eq] at hbody
                    rw [hj, classifyLoop, hbody]
              | inr w' =>
                  rw [hbody] at hs
                  obtain rfl := Option.some.inj hs
                  refine ⟨hI.map_eq, hI.start_le, ?_, ?_⟩
                  · intro fuel' w'' h k hk
                    obtain ⟨rfl, rfl⟩ := Phase.walking.inj h
                    obtain ⟨j, hj⟩ := hI.walking _ _ hphase k hk
                    rw [hI.map_eq] at hbody
                    refine ⟨j + 1, ?_⟩
                    rw [hj, classifyLoop, classifyBody_mono hk hbody]
                  · intro v h
                    cases h

/-- A walk that overlaps the fill returns the verdict of one map at
rest: what had been written by its last lookup. -/
theorem loading_atomic {k₀ : Nat} {s : LoadState dtNodeNb} {v : Verdict}
    (hrun : Reach (loadStep nodes fv) Any (.arrival nodes k₀) s)
    (hv : s.phase = .returned v) :
    ∃ k, k₀ ≤ k ∧ k ≤ s.next
      ∧ classifyDt (loadedUpTo nodes k) fv = some v :=
  (hrun.invariant (loadInv_arrival k₀) fun _ _ _ hI _ hs =>
    loadInv_step hI hs).returned v hv

/-- The map before the loader's first step is the zeroed one, and every
arrival is a state its steps reach. -/
theorem arrival_reached {k : Nat} (hk : k ≤ dtNodeNb) :
    (LoadState.arrival nodes 0).map = .zeroed
      ∧ Reach (loadStep nodes fv) Any (.arrival nodes 0)
          (.arrival nodes k) := by
  constructor
  · funext i
    show loadedUpTo nodes 0 i = _
    rw [loadedUpTo, if_neg (Nat.not_lt_zero _)]
    rfl
  · induction k with
    | zero => exact .start
    | succ k ih =>
        have hlt : k < dtNodeNb := hk
        refine .step .loader (ih (by omega)) trivial ?_
        unfold loadStep LoadState.arrival
        rw [dif_pos hlt, loadedUpTo_update hlt]

-- ====================================================== exported prefixes

/-- A prefix of a tree's table is the tree's table cut at the prefix. -/
theorem loadedUpTo_tableOf (tree : DTree) (max k : Nat) :
    loadedUpTo (tableOf dtNodeNb tree max) k
      = tableOf dtNodeNb tree (min k max) := by
  funext i
  unfold loadedUpTo tableOf
  by_cases hk : (i : Nat) < k
  · by_cases hmax : (i : Nat) < max
    · rw [if_pos hk, if_pos hmax, if_pos (by omega)]
    · rw [if_pos hk, if_neg hmax, if_neg (by omega)]
  · rw [if_neg hk, if_neg (by omega)]

/-- The walk on a tree's table cut after the root's entry or later
returns the majority of a node it reaches by the tree's own splits. -/
theorem classifyDt_cut {tree : DTree} {cut : Nat} (hnb : featureNb ≤ 32)
    (hN : dtNodeNb < 2 ^ 16) (hcutN : cut ≤ dtNodeNb) (hcut : 0 < cut)
    (hroot : tree.isNode = true)
    (hall : tree.All fun f _ => f < featureNb) :
    ∃ d, 1 ≤ d ∧ d ≤ tree.depth
      ∧ classifyDt (tableOf dtNodeNb tree cut) fv = some (.ofBool
          (tree.walkTo (kernelSplit fv) d).value.passes) := by
  rw [classifyDt_tableOf hnb hN hcutN hall]
  cases tree with
  | leaf v => cases hroot
  | node f th v l r =>
      rw [DTree.carry, if_neg (Nat.not_le.mpr hcut), DTree.depth]
      by_cases hs : kernelSplit fv f th = true
      · obtain ⟨d, hd, heq⟩ := DTree.carry_exists l (child 0 false)
        refine ⟨d + 1, by omega, by omega, ?_⟩
        rw [if_pos hs, heq, DTree.walkTo, if_pos hs]
      · obtain ⟨d, hd, heq⟩ := DTree.carry_exists r (child 0 true)
        refine ⟨d + 1, by omega, by omega, ?_⟩
        rw [if_neg hs, heq, DTree.walkTo, if_neg hs]

/-- For every table exported from a trained tree, every vector and every
interleaving of the fill with a walk, the verdict returned is that of the
map at rest after `k` entries, `k` between what was written on arrival
and on return: PASS if that is none, the majority of a node on the
vector's path below the root otherwise, and the loaded table's verdict
once every exported entry is in. -/
theorem loading_verdict {clf : FittedTree} {featureNames : List Feature}
    {header : Header} {nodes : DtNodesArray DT_NODE_NB}
    {fv : Vector UInt32 featureNb}
    (hfeatures : clf.tree.All fun f _ => f < featureNb)
    (hnb : featureNb ≤ 32) (hpos : 1 ≤ clf.tree.depth)
    (hdepth : clf.tree.depth ≤ 7)
    (hexp : mainExport featureNames clf = some (.ok header))
    (hcopy : retrieveDtParameters DT_NODE_NB header.trainedDtNodes
      = some nodes)
    {k₀ : Nat} {s : LoadState DT_NODE_NB} {v : Verdict}
    (hrun : Reach (loadStep nodes fv) Any (.arrival nodes k₀) s)
    (hv : s.phase = .returned v) :
    ∃ k, k₀ ≤ k ∧ k ≤ s.next
      ∧ classifyDt (loadedUpTo nodes k) fv = some v
      ∧ (k = 0 → v = .pass)
      ∧ (0 < k → ∃ d, 1 ≤ d ∧ d ≤ clf.tree.depth
          ∧ v = .ofBool
              (clf.tree.walkTo (kernelSplit fv) d).value.passes)
      ∧ (header.trainedDtNodes.length ≤ k →
          classifyDt (fillDtNodesArray nodes .zeroed) fv = some v) := by
  have hpow : 2 ^ clf.tree.depth ≤ 2 ^ 7 :=
    Nat.pow_le_pow_right (by decide) hdepth
  have hpow1 : 2 ^ 1 ≤ 2 ^ clf.tree.depth :=
    Nat.pow_le_pow_right (by decide) hpos
  have hsize : maxNodes (clf.tree.depth - 1) ≤ DT_NODE_NB := by
    rw [maxNodes_main, DT_NODE_NB]
    omega
  have hroot : clf.tree.isNode = true := by
    cases ht : clf.tree with
    | leaf v => rw [ht] at hpos; cases hpos
    | node f th v l r => rfl
  have hlen := exported_length hexp
  have hload := loadedMap_eq hexp hsize
  rw [maxNodes_main] at hlen hload hsize
  rw [loadedMap, hcopy, Option.map_some, Option.some.injEq,
    fillDtNodesArray_eq] at hload
  subst hload
  obtain ⟨k, hlo, hhi, hk⟩ := loading_atomic hrun hv
  refine ⟨k, hlo, hhi, hk, ?_, ?_, ?_⟩
  · intro hzero
    subst hzero
    have hmap : loadedUpTo (tableOf DT_NODE_NB clf.tree
        (2 ^ clf.tree.depth - 1)) 0 = .zeroed := by
      funext i
      rw [loadedUpTo, if_neg (Nat.not_lt_zero _)]
      rfl
    rw [hmap, classifyDt_zeroed] at hk
    exact (Option.some.inj hk).symm
  · intro hkpos
    rw [loadedUpTo_tableOf] at hk
    obtain ⟨d, hd1, hd, hcut⟩ := classifyDt_cut hnb (by decide)
      (le_trans (Nat.min_le_right k _) hsize) (by omega) hroot hfeatures
    rw [hcut] at hk
    exact ⟨d, hd1, hd, (Option.some.inj hk).symm⟩
  · intro hfull
    rw [hlen] at hfull
    rw [loadedUpTo_tableOf, Nat.min_eq_right hfull] at hk
    rw [fillDtNodesArray_eq]
    exact hk

/-- Two splits: small values of feature 3 go left to a node that is
mostly malicious, whose own left leaf is benign. -/
def twoSplits : FittedTree where
  arrays := {
    childrenLeft := fun i => if i = 0 then 1 else if i = 1 then 2 else -1
    childrenRight := fun i => if i = 0 then 4 else if i = 1 then 3 else -1
    feature := fun i => if i = 0 then 3 else if i = 1 then 0 else -2
    threshold := fun i => if i ≤ 1 then 5 / 2 else -2
    value := fun i => if i = 1 then ⟨1, 2⟩ else if i = 3 then ⟨0, 2⟩
      else ⟨1, 0⟩ }
  tree := .node 3 (5 / 2) ⟨1, 0⟩
    (.node 0 (5 / 2) ⟨1, 2⟩ (.leaf ⟨1, 0⟩) (.leaf ⟨0, 2⟩)) (.leaf ⟨1, 0⟩)
  stored := by
    refine .node (l := 1) (r := 4) (f := 3) rfl rfl rfl ?_ (.leaf rfl)
    exact .node (l := 2) (r := 3) (f := 0) rfl rfl rfl (.leaf rfl) (.leaf rfl)

/-- `twoSplits` as the exporter writes it. -/
def twoSplitsTable : List DtNode := [⟨2, 0x63⟩, ⟨2, 0xA0⟩, ⟨0, 0⟩]

/-- The array user space loads it from. -/
def twoSplitsNodes : DtNodesArray DT_NODE_NB :=
  fun i => twoSplitsTable.getD i .undefined

theorem twoSplits_exported :
    ∃ header, mainExport [.sPort, .dPort, .protocol, .pktSize] twoSplits
        = some (.ok header)
      ∧ header.trainedDtNodes = twoSplitsTable
      ∧ retrieveDtParameters DT_NODE_NB header.trainedDtNodes
        = some twoSplitsNodes := by
  have hnodes : exportNodes twoSplits.arrays 1
      = some (.ok [⟨0x63, 2⟩, ⟨0xA0, 2⟩, ⟨0, 0⟩]) := by decide +kernel
  refine ⟨⟨twoSplitsTable,
    .ofNames [.sPort, .dPort, .protocol, .pktSize]⟩, ?_, rfl, rfl⟩
  show dtExportCHeader _ twoSplits.arrays 1 = _
  rw [dtExportCHeader, hnodes]
  rfl

theorem loading_verdict_twoSplits :
    ∃ k, 1 ≤ k ∧ classifyDt (loadedUpTo twoSplitsNodes k) #v[1, 0, 0, 1]
      = some .drop := by
  obtain ⟨header, hexp, -, hcopy⟩ := twoSplits_exported
  let start : LoadState DT_NODE_NB := .arrival twoSplitsNodes 1
  have hrun : ((run (loadStep twoSplitsNodes #v[1, 0, 0, 1]) start
      [.walker, .walker]).map LoadState.phase) = some (.returned .drop) := by
    decide +kernel
  obtain ⟨s, hs, hphase⟩ := Option.map_eq_some_iff.mp hrun
  have hfeatures : twoSplits.tree.All fun f _ => f < 4 :=
    ⟨by decide, ⟨by decide, trivial, trivial⟩, trivial⟩
  obtain ⟨k, hlo, -, hk, -⟩ := loading_verdict hfeatures (by decide)
    (by decide) (by decide) hexp hcopy (run_reach hs) hphase
  exact ⟨k, hlo, hk⟩

/-- A vector the zeroed and the loaded table both pass is dropped by a
walk that arrives between the first and the second entry. -/
theorem half_loaded_drops :
    ∃ header s, mainExport [.sPort, .dPort, .protocol, .pktSize] twoSplits
        = some (.ok header)
      ∧ retrieveDtParameters DT_NODE_NB header.trainedDtNodes
        = some twoSplitsNodes
      ∧ Reach (loadStep twoSplitsNodes #v[1, 0, 0, 1]) Any
          (.arrival twoSplitsNodes 0) s
      ∧ s.phase = .returned .drop
      ∧ classifyDt (.zeroed : DtNodesArray DT_NODE_NB) #v[1, 0, 0, 1]
        = some .pass
      ∧ classifyDt (fillDtNodesArray twoSplitsNodes .zeroed) #v[1, 0, 0, 1]
        = some .pass := by
  obtain ⟨header, hexp, -, hcopy⟩ := twoSplits_exported
  let start : LoadState DT_NODE_NB := .arrival twoSplitsNodes 0
  have hrun : ((run (loadStep twoSplitsNodes #v[1, 0, 0, 1]) start
      [.loader, .walker, .walker]).map LoadState.phase)
      = some (.returned .drop) := by
    decide +kernel
  obtain ⟨s, hs, hphase⟩ := Option.map_eq_some_iff.mp hrun
  refine ⟨header, s, hexp, hcopy, run_reach hs, hphase,
    classifyDt_zeroed, ?_⟩
  rw [fillDtNodesArray_eq]
  decide +kernel

end XdpIds.Tree
