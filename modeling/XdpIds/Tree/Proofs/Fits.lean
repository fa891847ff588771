/-
The exported table against the loader's array, through the three places
that have a say in it: `main`'s warning about `max_depth`, the export one
level short of the tree's depth, and the `DT_NODE_NB` of ml_dt.h.

A tree of depth `d` exports `2^d - 1` entries whatever its shape, so the
table fits the 128 of the array up to depth 7 and is 255 long from depth
8 on (`exported_fits_iff`). The warning is silent on exactly the depths
that fit (`mainWarns_iff`), but it is a warning, and the depth it
recommends is one too deep (`depth_eight_overruns`).
-/
import XdpIds.Tree.Proofs.Predict

namespace XdpIds.Tree

open LevelOrder

-- =========================================================== what must fit

/-- The copied table stays inside the array, and the map loaded from it
has every internal node of the tree in the node's slot. -/
def LoadsWhole (trained : List DtNode) (tree : DTree) : Prop :=
  trained.length ≤ DT_NODE_NB
    ∧ ∃ map, loadedMap DT_NODE_NB trained = some map
      ∧ ∀ p s, follow DTree.next tree p = some s → s.isNode = true →
        ∃ h : pos p < DT_NODE_NB, map ⟨pos p, h⟩ = s.dtNode

/-- `main` warns from depth 8 on. -/
theorem mainWarns_iff (d : Nat) : mainWarns d = true ↔ 8 ≤ d := by
  unfold mainWarns
  rw [decide_eq_true_eq]
  constructor
  · intro h
    by_contra hd
    have hpow : 2 ^ (d + 1) ≤ 2 ^ 8 :=
      Nat.pow_le_pow_right (by decide) (by omega)
    omega
  · intro hd
    have hpow : 2 ^ 9 ≤ 2 ^ (d + 1) :=
      Nat.pow_le_pow_right (by decide) (by omega)
    omega

/-- The table of a tree fits up to depth 7. -/
theorem table_fits_iff (d : Nat) : 2 ^ d - 1 ≤ DT_NODE_NB ↔ d ≤ 7 := by
  unfold DT_NODE_NB
  constructor
  · intro h
    by_contra hd
    have hpow : 2 ^ 8 ≤ 2 ^ d := Nat.pow_le_pow_right (by decide) (by omega)
    omega
  · intro hd
    have hpow : 2 ^ d ≤ 2 ^ 7 := Nat.pow_le_pow_right (by decide) hd
    omega

/-- For every `max_depth` and every tree trained within it, an exported
table fits the loader's array and is loaded whole exactly when the tree
is at most 7 deep. -/
theorem exported_fits_iff (t : Training) {featureNames : List Feature}
    {header : Header}
    (hexp : mainExport featureNames t.clf = some (.ok header)) :
    LoadsWhole header.trainedDtNodes t.clf.tree ↔ t.clf.tree.depth ≤ 7 := by
  have hlen := exported_length hexp
  rw [maxNodes_main] at hlen
  unfold LoadsWhole
  rw [hlen, table_fits_iff]
  refine ⟨And.left, fun hdepth => ⟨hdepth, ?_⟩⟩
  have hfit := (table_fits_iff _).mpr hdepth
  have hload := loadedMap_eq hexp (maxNodes_main _ ▸ hfit)
  rw [maxNodes_main] at hload
  refine ⟨_, hload, fun p s hp hnode => ?_⟩
  -- the path to an internal node is shorter than the tree is deep
  have hpath := length_add_depth hp
  have hpos := DTree.depth_pos hnode
  obtain ⟨m, hm⟩ := Nat.exists_eq_succ_of_ne_zero
    (show t.clf.tree.depth ≠ 0 by omega)
  rw [hm] at hfit ⊢
  exact tableOf_node hfit (by omega) hp

/-- A run of `main` that prints no warning exports a table that fits. -/
theorem unwarned_fits (t : Training) {featureNames : List Feature}
    {header : Header}
    (hexp : mainExport featureNames t.clf = some (.ok header))
    (hquiet : mainWarns t.maxDepth = false) :
    LoadsWhole header.trainedDtNodes t.clf.tree := by
  refine (exported_fits_iff t hexp).mpr ?_
  have hle := t.depth_le
  have hdeep : ¬ 8 ≤ t.maxDepth := by
    rw [← mainWarns_iff, hquiet]
    decide
  omega

/-- A stump's table fits. -/
theorem exported_fits_stump :
    ∃ header, mainExport [.sPort, .dPort, .protocol, .pktSize]
        (stump ⟨3, 1⟩ ⟨0, 2⟩) = some (.ok header)
      ∧ LoadsWhole header.trainedDtNodes (stump ⟨3, 1⟩ ⟨0, 2⟩).tree := by
  obtain ⟨header, -, hexp, -⟩ := stump_loaded ⟨3, 1⟩ ⟨0, 2⟩
  refine ⟨header, hexp, ?_⟩
  exact (exported_fits_iff ⟨1, Nat.one_pos, stump ⟨3, 1⟩ ⟨0, 2⟩, by decide⟩
    hexp).mpr (by decide)

-- ============================================================= a deep tree

/-- A tree that splits on one side only, `n` times. -/
def vine : Nat → DTree
  | 0 => .leaf ⟨1, 0⟩
  | n + 1 => .node 0 (1 / 2) ⟨1, 0⟩ (.leaf ⟨1, 0⟩) (vine n)

/-- Its arrays: splits have the even ids below `2 * n`, each followed by
its left leaf. -/
def vineArrays (n : Nat) : SkArrays where
  childrenLeft i := if i % 2 = 0 ∧ i < 2 * n then i + 1 else -1
  childrenRight i := if i % 2 = 0 ∧ i < 2 * n then i + 2 else -1
  feature i := if i % 2 = 0 ∧ i < 2 * n then 0 else -2
  threshold i := if i % 2 = 0 ∧ i < 2 * n then 1 / 2 else -2
  value _ := ⟨1, 0⟩

theorem vine_stored (n : Nat) : ∀ (m i : Nat), i % 2 = 0 →
    i + 2 * m = 2 * n → Stores (vineArrays n) i (vine m) := by
  intro m
  induction m with
  | zero =>
      intro i _ hi
      exact .leaf (if_neg fun h => by omega)
  | succ m ih =>
      intro i heven hi
      have hsplit : i % 2 = 0 ∧ i < 2 * n := ⟨heven, by omega⟩
      have hthreshold : (vineArrays n).threshold i = 1 / 2 := if_pos hsplit
      rw [vine, ← hthreshold]
      refine .node (l := i + 1) (r := i + 2) (f := 0) ?_ ?_ ?_ ?_ ?_
      · exact (if_pos hsplit).trans (by push_cast; rfl)
      · exact (if_pos hsplit).trans (by push_cast; rfl)
      · exact if_pos hsplit
      · exact .leaf (if_neg fun h => by omega)
      · exact ih (i + 2) (by omega) (by omega)

theorem vine_depth (n : Nat) : (vine n).depth = n := by
  induction n with
  | zero => rfl
  | succ n ih => rw [vine, DTree.depth, ih, DTree.depth, Nat.zero_max]

theorem vine_range (n : Nat) : (vine n).All fun _ th =>
    -(2 ^ 31) ≤ quantise th ∧ quantise th < 2 ^ 31 := by
  induction n with
  | zero => trivial
  | succ n ih =>
      have hhalf : quantise (1 / 2) = 0 := by decide +kernel
      refine ⟨?_, trivial, ih⟩
      show -(2 ^ 31) ≤ quantise (1 / 2) ∧ quantise (1 / 2) < 2 ^ 31
      rw [hhalf]
      decide

/-- The classifier with that tree. -/
def vineTree (n : Nat) : FittedTree :=
  ⟨vineArrays n, vine n, vine_stored n n 0 rfl (by omega)⟩

/-- The `max_depth` the warning recommends, and a tree that uses it: 255
entries are copied into an array of 128. -/
theorem depth_eight_overruns :
    ∃ (t : Training) (header : Header), t.maxDepth = 8
      ∧ mainExport [.sPort] t.clf = some (.ok header)
      ∧ header.trainedDtNodes.length = 255
      ∧ retrieveDtParameters DT_NODE_NB header.trainedDtNodes = none := by
  let t : Training := ⟨8, by decide, vineTree 8, (vine_depth 8).le⟩
  have hdepth : t.clf.tree.depth = 8 := vine_depth 8
  obtain ⟨header, hexp⟩ := dtExportCHeader_ok t.clf [.sPort]
    (show (-1 : ℤ) ≤ t.clf.tree.depth - 1 by omega) (vine_range 8)
  have hlen := exported_length hexp
  rw [maxNodes_main, hdepth] at hlen
  refine ⟨t, header, rfl, hexp, hlen, ?_⟩
  rw [retrieveDtParameters, if_neg]
  rw [hlen]
  decide

end XdpIds.Tree
