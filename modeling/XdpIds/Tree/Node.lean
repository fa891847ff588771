/-
The tree as the kernel holds and walks it: ml_dt.h's `struct dt_node`,
the `dt_nodes_array` map and dt_xdp.bpf.c's `classify_dt`.

The walk is its loop body (`classifyBody`) iterated 17 times. The table
is a parameter of each iteration, not of the walk: `classifyLoop` reads
`tables j` at its `j`-th lookup, so the same loop serves a map that user
space is still writing. `classifyDt` is the walk on a table at rest.
-/
import Mathlib.Logic.Function.Basic
import Mathlib.Algebra.Order.Ring.Nat

namespace XdpIds.Tree

-- ======================================================= nodes and tables

/-- ml_dt.h's `DT_NODE_NB`. -/
def DT_NODE_NB : Nat := 128

/-- `struct dt_node`: a split threshold and the packed feature byte (bit
7 pass left, bit 6 pass right, bit 5 defined, bits 4..0 feature
index). -/
structure DtNode where
  threshold : UInt32
  feature : UInt8
deriving DecidableEq, Repr

/-- A zeroed node: a leaf, or a slot never written. -/
def DtNode.undefined : DtNode := ⟨0, 0⟩

/-- `dt_nodes_array`, a `BPF_MAP_TYPE_ARRAY` of `DT_NODE_NB` entries. -/
abbrev DtNodesArray (dtNodeNb : Nat) := Fin dtNodeNb → DtNode

variable {dtNodeNb featureNb : Nat}

namespace DtNodesArray

/-- The map as the kernel creates it. -/
def zeroed : DtNodesArray dtNodeNb := fun _ => .undefined

/-- `bpf_map_lookup_elem` on an array map: null past the last entry. -/
def lookup (map : DtNodesArray dtNodeNb) (i : UInt32) : Option DtNode :=
  if h : i.toNat < dtNodeNb then some (map ⟨i.toNat, h⟩) else none

/-- `bpf_map_update_elem` with `BPF_ANY` at an index of the map. -/
def update (map : DtNodesArray dtNodeNb) (i : Fin dtNodeNb)
    (node : DtNode) : DtNodesArray dtNodeNb :=
  Function.update map i node

end DtNodesArray

-- =============================================================== the walk

/-- What `classify_dt` returns: DROP (0) or PASS (1). -/
inductive Verdict where
  | drop
  | pass
deriving DecidableEq, Repr

/-- The verdict of a decision bit. -/
def Verdict.ofBool (pass : Bool) : Verdict := if pass then .pass else .drop

/-- `classify_dt`'s locals: the index of the node to look at and the
current decision. -/
structure Walker where
  i : UInt32
  pass : Bool
deriving DecidableEq, Repr

/-- The locals on entry: at the root, deciding to pass. -/
def Walker.start : Walker := ⟨0, true⟩

/-- The value a node splits on; an index outside the vector reads 0. -/
def featureValue (fv : Vector UInt32 featureNb) (node : DtNode) : UInt32 :=
  if h : (node.feature &&& 0x1F).toNat < featureNb then
    fv[(node.feature &&& 0x1F).toNat]
  else 0

/-- The locals after a defined node. -/
def Walker.next (fv : Vector UInt32 featureNb) (node : DtNode)
    (w : Walker) : Walker :=
  if featureValue fv node ≤ node.threshold then
    ⟨2 * w.i + 1, node.feature &&& 0b10000000 != 0⟩
  else
    ⟨2 * w.i + 2, node.feature &&& 0b01000000 != 0⟩

/-- One iteration: return the current decision, or go on from a child. -/
def classifyBody (map : DtNodesArray dtNodeNb)
    (fv : Vector UInt32 featureNb) (w : Walker) : Verdict ⊕ Walker :=
  if dtNodeNb ≤ w.i.toNat then .inl (.ofBool w.pass)
  else
    match map.lookup w.i with
    | none => .inl (.ofBool w.pass)
    | some node =>
        if node.feature &&& 0b00100000 = 0 then .inl (.ofBool w.pass)
        else .inr (w.next fv node)

/-- The loop with `fuel` iterations left, `tables j` being what the map
holds at lookup `j`. `none` is leaving the loop without a return. -/
def classifyLoop (tables : Nat → DtNodesArray dtNodeNb)
    (fv : Vector UInt32 featureNb) : Nat → Nat → Walker → Option Verdict
  | 0, _, _ => none
  | fuel + 1, j, w =>
      match classifyBody (tables j) fv w with
      | .inl v => some v
      | .inr w' => classifyLoop tables fv fuel (j + 1) w'

/-- `for (j = 0; j <= 16; j += 1)`. -/
def loopBound : Nat := 17

/-- `classify_dt` on a table nobody writes during the walk. -/
def classifyDt (map : DtNodesArray dtNodeNb)
    (fv : Vector UInt32 featureNb) : Option Verdict :=
  classifyLoop (fun _ => map) fv loopBound 0 .start

-- ================================================== the body, by its cases

variable {map : DtNodesArray dtNodeNb} {fv : Vector UInt32 featureNb}
  {w : Walker}

theorem classifyBody_past (h : dtNodeNb ≤ w.i.toNat) :
    classifyBody map fv w = .inl (.ofBool w.pass) := by
  rw [classifyBody, if_pos h]

/-- Inside the table the body is a test of the node's defined bit. -/
theorem classifyBody_at (h : w.i.toNat < dtNodeNb) :
    classifyBody map fv w
      = if (map ⟨w.i.toNat, h⟩).feature &&& 0b00100000 = 0 then
          .inl (.ofBool w.pass)
        else .inr (w.next fv (map ⟨w.i.toNat, h⟩)) := by
  rw [classifyBody, if_neg (Nat.not_le.mpr h), DtNodesArray.lookup,
    dif_pos h]

/-- The body stops at an undefined node. -/
theorem classifyBody_undefined (h : w.i.toNat < dtNodeNb)
    (hnode : map ⟨w.i.toNat, h⟩ = .undefined) :
    classifyBody map fv w = .inl (.ofBool w.pass) := by
  rw [classifyBody_at h, hnode, if_pos (by decide)]

/-- On the zeroed map the walk decides at the root: PASS. -/
theorem classifyDt_zeroed :
    classifyDt (.zeroed : DtNodesArray dtNodeNb) fv = some .pass := by
  have hbody : classifyBody (.zeroed : DtNodesArray dtNodeNb) fv .start
      = .inl .pass := by
    rcases Nat.lt_or_ge (Walker.start.i.toNat) dtNodeNb with h | h
    · exact classifyBody_undefined h rfl
    · exact classifyBody_past h
  rw [classifyDt, loopBound, classifyLoop, hbody]

end XdpIds.Tree
