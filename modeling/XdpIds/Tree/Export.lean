/-
main.py's exporter and dt_xdp.usr.c's loader: from scikit-learn's tree
arrays to the entries of `dt_nodes_array`.

# The trained tree, twice

`SkArrays` is the tree as scikit-learn stores it, by node id, with `-1`
for "no child". `DTree` is the tree as a tree. A `FittedTree` is both,
with the proof that the arrays store the tree from id 0, so an array set
with a dangling or cyclic child cannot be built.

# The exporter

`dtExportCHeader` runs the source's queue loop over `(bfs_i, sk_i)`
pairs on `Worklist.run`. Thresholds are rationals: `sk_threshold - 0.5`
is exact on the doubles from 0.25 to 2^31, and below 0.25 both the exact
and the rounded difference round to 0. `np.int32` raises on a value
outside its range.

# The loader

`retrieveDtParameters` is the `memcpy` over a zeroed array, undefined
when the exported table is the longer one; `fillDtNodesArray` updates
the map one entry at a time, in ascending index.
-/
import XdpIds.Lib.Worklist
import XdpIds.Packet.Features
import XdpIds.Tree.Node
import Mathlib.Data.Rat.Floor

namespace XdpIds.Tree

-- ====================================================== the trained tree

/-- A node's row of `tree_.value`. -/
structure Values where
  benign : ℚ
  malicious : ℚ
deriving DecidableEq, Repr

/-- `pass_left`, `pass_right`: strictly more benign than malicious. -/
def Values.passes (v : Values) : Bool := v.malicious < v.benign

/-- `clf.tree_`'s arrays, by node id. -/
structure SkArrays where
  childrenLeft : Nat → ℤ
  childrenRight : Nat → ℤ
  feature : Nat → ℤ
  threshold : Nat → ℚ
  value : Nat → Values

/-- The trained tree as a tree. Internal nodes have values too. -/
inductive DTree where
  | leaf (value : Values)
  | node (feature : Nat) (threshold : ℚ) (value : Values)
      (left right : DTree)
deriving DecidableEq, Repr

namespace DTree

/-- The values of the root. -/
def value : DTree → Values
  | .leaf v => v
  | .node _ _ v _ _ => v

/-- `clf.get_depth()`: the edges on the longest path. -/
def depth : DTree → Nat
  | .leaf _ => 0
  | .node _ _ _ l r => max l.depth r.depth + 1

/-- Every internal node satisfies `P` on its feature and threshold. -/
def All (P : Nat → ℚ → Prop) : DTree → Prop
  | .leaf _ => True
  | .node f t _ l r => P f t ∧ l.All P ∧ r.All P

/-- The root is an internal node. -/
def isNode : DTree → Bool
  | .leaf _ => false
  | .node .. => true

end DTree

/-- The arrays store the tree from node id `i` on. -/
inductive Stores (sk : SkArrays) : Nat → DTree → Prop
  | leaf {i : Nat} :
      sk.childrenLeft i = -1 → Stores sk i (.leaf (sk.value i))
  | node {i l r f : Nat} {lt rt : DTree} :
      sk.childrenLeft i = l → sk.childrenRight i = r →
      sk.feature i = f → Stores sk l lt → Stores sk r rt →
      Stores sk i (.node f (sk.threshold i) (sk.value i) lt rt)

/-- A fitted classifier: scikit-learn's arrays and the tree they
store. -/
structure FittedTree where
  arrays : SkArrays
  tree : DTree
  stored : Stores arrays 0 tree

-- ============================================================== rounding

/-- Python's `round` on a float: nearest integer, halves to even. -/
def pyRound (x : ℚ) : ℤ :=
  let lo := ⌊x⌋
  if x - lo < 1 / 2 then lo
  else if 1 / 2 < x - lo then lo + 1
  else if lo % 2 = 0 then lo else lo + 1

/-- What the exporter can raise. -/
inductive ExportError where
  /-- `np.int32` of a value it cannot hold. -/
  | overflow
  /-- `[None] * max_nodes` of a float, when `max_depth < -1`. -/
  | notAnInteger
deriving DecidableEq, Repr

/-- `np.int32(z)`. -/
def npInt32 (z : ℤ) : Except ExportError ℤ :=
  if -(2 ^ 31) ≤ z ∧ z < 2 ^ 31 then .ok z else .error .overflow

-- ============================================================== exporter

/-- One `(feature_byte, threshold)` pair of the exported list. -/
structure Entry where
  featureByte : Nat
  threshold : ℤ
deriving DecidableEq, Repr

/-- A leaf, or a slot no node occupies. -/
def Entry.empty : Entry := ⟨0, 0⟩

/-- The packed feature byte of an internal node. -/
def featureByte (passLeft passRight : Bool) (bpfFeatI : ℤ) : Nat :=
  passLeft.toNat <<< 7 ||| passRight.toNat <<< 6 ||| 1 <<< 5
    ||| (bpfFeatI % 32).toNat

/-- The body of `while bfs_queue`: the output list so far and the popped
`(bfs_i, sk_i)` to the new list and the appended pairs. -/
def exportBody (sk : SkArrays) (maxNodes : Nat)
    (nodes : List (Option Entry)) (item : Nat × Nat) :
    Except ExportError (List (Option Entry) × List (Nat × Nat)) :=
  let (bfsI, skI) := item
  if maxNodes ≤ bfsI then .ok (nodes, [])
  else if sk.childrenLeft skI = -1 then
    .ok (nodes.set bfsI (some .empty), [])
  else do
    let threshold ← npInt32 (pyRound (sk.threshold skI - 1 / 2))
    let left := (sk.childrenLeft skI).toNat
    let right := (sk.childrenRight skI).toNat
    let passLeft := (sk.value left).passes
    let passRight := (sk.value right).passes
    let byte := featureByte passLeft passRight (sk.feature skI)
    .ok (nodes.set bfsI (some ⟨byte, threshold⟩),
      [(2 * bfsI + 1, left), (2 * bfsI + 2, right)])

/-- `max_nodes = 2 ** (max_depth + 1) - 1`. -/
def maxNodes (maxDepth : ℤ) : Nat := 2 ^ (maxDepth + 1).toNat - 1

/-- The exported list, unused slots zeroed. `none` is the loop not
ending within the fuel, which it always does (`exportNodes_isSome`). -/
def exportNodes (sk : SkArrays) (maxDepth : ℤ) :
    Option (Except ExportError (List Entry)) :=
  if maxDepth < -1 then some (.error .notAnInteger)
  else
    let max := maxNodes maxDepth
    (Worklist.run (exportBody sk max) (3 ^ max) (List.replicate max none)
      [(0, 0)]).map fun out =>
        out.map fun nodes => nodes.map fun slot => slot.getD .empty

/-- An entry of the emitted initialiser, converted to the struct's
types. -/
def Entry.toNode (e : Entry) : DtNode :=
  ⟨UInt32.ofInt e.threshold, UInt8.ofNat e.featureByte⟩

/-- The two generated headers: dt_params.h's `trained_dt_nodes` and
dt_features.h's macros. -/
structure Header where
  trainedDtNodes : List DtNode
  build : Build

/-- `DT_export_c_header`. -/
def dtExportCHeader (featureNames : List Feature) (sk : SkArrays)
    (maxDepth : ℤ) : Option (Except ExportError Header) :=
  (exportNodes sk maxDepth).map fun out =>
    out.map fun nodes => ⟨nodes.map Entry.toNode, .ofNames featureNames⟩

/-- The export `main` runs: one level less than the tree is deep. -/
def mainExport (featureNames : List Feature) (clf : FittedTree) :
    Option (Except ExportError Header) :=
  dtExportCHeader featureNames clf.arrays (clf.tree.depth - 1)

/-- What `main` trains: a `max_depth` scikit-learn accepts, and a tree
within it. -/
structure Training where
  maxDepth : Nat
  maxDepth_pos : 0 < maxDepth
  clf : FittedTree
  depth_le : clf.tree.depth ≤ maxDepth

/-- `main`'s warning, which is printed and no more. -/
def mainWarns (maxDepth : Nat) : Bool := 255 < 2 ^ (maxDepth + 1) - 1

-- ================================================================ loader

variable {dtNodeNb : Nat}

/-- `retrieve_dt_parameters` over the zeroed array: the `memcpy` is
defined when the exported table fits. -/
def retrieveDtParameters (dtNodeNb : Nat) (trained : List DtNode) :
    Option (DtNodesArray dtNodeNb) :=
  if trained.length ≤ dtNodeNb then
    some fun i => trained.getD i .undefined
  else none

/-- `fill_dt_nodes_array`: one update per index, ascending. -/
def fillDtNodesArray (nodes map : DtNodesArray dtNodeNb) :
    DtNodesArray dtNodeNb :=
  (List.finRange dtNodeNb).foldl (fun m i => m.update i (nodes i)) map

/-- The map after user space has copied and loaded the exported table. -/
def loadedMap (dtNodeNb : Nat) (trained : List DtNode) :
    Option (DtNodesArray dtNodeNb) :=
  (retrieveDtParameters dtNodeNb trained).map fun nodes =>
    fillDtNodesArray nodes .zeroed

end XdpIds.Tree
