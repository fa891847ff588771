/-
dt_xdp.bpf.c's `fvifupdate`: write a feature's value into its slot of
the feature vector, if the feature is selected.

The slot is found by shifting a `__u64` one bit at a time while it is
below the `__u128` id, counting the selected bits passed. After 64
shifts the `__u64` is 0 and stays 0, so an id the loop has not reached
by then it never reaches: `rankLoop` runs out of its 64 shifts exactly
when the source's loop diverges.
-/
import XdpIds.Packet.Features
import XdpIds.Packet.Frame

namespace XdpIds

/-- `for (curr_f = 1; curr_f < feature; curr_f <<= 1)`, with `fuel`
shifts before `curr_f` is 0 for good. -/
def rankLoop (features : BitVec 64) (feature : BitVec 128) :
    Nat → BitVec 64 → Nat → Exec Nat
  | 0, currF, index =>
      if currF.setWidth 128 < feature then .error .diverges else .ok index
  | fuel + 1, currF, index =>
      if currF.setWidth 128 < feature then
        rankLoop features feature fuel (currF <<< 1)
          (if currF &&& features ≠ 0 then index + 1 else index)
      else .ok index

/-- The feature vector of a build. -/
abbrev Build.Fv (b : Build) := Vector UInt32 b.featureNb

/-- `fvifupdate`. -/
def fvIfUpdate (b : Build) (fv : b.Fv) (feature : BitVec 128)
    (newval : UInt32) : Exec b.Fv :=
  if b.features128 &&& feature ≠ 0 then do
    let index ← rankLoop b.features64 feature 64 1 0
    if h : index < b.featureNb then .ok (fv.set index newval h)
    else .error .outOfBounds
  else .ok fv

/-- A sequence of `fvifupdate` calls, by feature name. -/
def fvIfUpdates (b : Build) (fv : b.Fv) (writes : List (Feature × UInt32)) :
    Exec b.Fv :=
  writes.foldlM (fun fv w => fvIfUpdate b fv (b.id128 w.1) w.2) fv

end XdpIds
