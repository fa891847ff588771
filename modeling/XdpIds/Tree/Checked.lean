/-
`classify_dt` with its hazards left in: a load of the feature vector is
checked against the vector, and leaving the loop without a `return` is a
fault of its own.

`classifyLoop` is total where the source is not: it has a value for a
walk that never returns, and `featureValue` cannot read past the vector.
Here both are outcomes, so that a walk which returns a verdict is one in
which neither happened.

`walkerAt` is the state of the locals at the head of an iteration, for
what holds of the index on the way.
-/
import XdpIds.Packet.Frame
import XdpIds.Tree.Node

namespace XdpIds.Tree

variable {dtNodeNb featureNb : Nat}

-- ======================================================= the checked walk

/-- `fv[i]`. -/
def loadFeature (fv : Vector UInt32 featureNb) (i : Nat) : Exec UInt32 :=
  match fv[i]? with
  | some value => .ok value
  | none => .error .outOfBounds

/-- The value a node splits on: a load, behind the test against
`FEATURE_NB`. -/
def featureValueChecked (fv : Vector UInt32 featureNb) (node : DtNode) :
    Exec UInt32 :=
  if (node.feature &&& 0x1F).toNat < featureNb then
    loadFeature fv (node.feature &&& 0x1F).toNat
  else .ok 0

/-- One iteration. -/
def classifyBodyChecked (map : DtNodesArray dtNodeNb)
    (fv : Vector UInt32 featureNb) (w : Walker) : Exec (Verdict ⊕ Walker) :=
  if dtNodeNb ≤ w.i.toNat then .ok (.inl (.ofBool w.pass))
  else
    match map.lookup w.i with
    | none => .ok (.inl (.ofBool w.pass))
    | some node =>
        if node.feature &&& 0b00100000 = 0 then .ok (.inl (.ofBool w.pass))
        else do
          let value ← featureValueChecked fv node
          if value ≤ node.threshold then
            .ok (.inr ⟨2 * w.i + 1, node.feature &&& 0b10000000 != 0⟩)
          else .ok (.inr ⟨2 * w.i + 2, node.feature &&& 0b01000000 != 0⟩)

/-- The loop with `fuel` iterations left, `tables j` being what the map
holds at lookup `j`. -/
def classifyLoopChecked (tables : Nat → DtNodesArray dtNodeNb)
    (fv : Vector UInt32 featureNb) : Nat → Nat → Walker → Exec Verdict
  | 0, _, _ => .error .noReturn
  | fuel + 1, j, w => do
      match ← classifyBodyChecked (tables j) fv w with
      | .inl v => .ok v
      | .inr w' => classifyLoopChecked tables fv fuel (j + 1) w'

-- ============================================================== on the way

/-- The locals at the head of iteration `j`; `none` if the walk has
returned before. -/
def walkerAt (tables : Nat → DtNodesArray dtNodeNb)
    (fv : Vector UInt32 featureNb) : Nat → Option Walker
  | 0 => some .start
  | j + 1 =>
      match walkerAt tables fv j with
      | none => none
      | some w =>
          match classifyBody (tables j) fv w with
          | .inl _ => none
          | .inr w' => some w'

end XdpIds.Tree
