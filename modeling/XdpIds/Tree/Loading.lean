/-
Loading while walking: dt_xdp.usr.c's `main` attaches the XDP program
first and fills `dt_nodes_array` afterwards, so a `classify_dt` run may
see any stage of the fill, and the fill may go on while it runs.

The interleaved system has two labels. `loader` is one iteration of
`fill_dt_nodes_array`: one entry written, in ascending index. `walker`
is one iteration of `classify_dt`'s loop: one lookup in the map as it is
now. Updates and lookups of an entry are taken to be atomic.
-/
import XdpIds.Lib.Transition
import XdpIds.Tree.Node

namespace XdpIds.Tree

/-- Where the `classify_dt` run is: in its loop with `fuel` iterations
left, or returned. -/
inductive Phase where
  | walking (fuel : Nat) (w : Walker)
  | returned (v : Verdict)
deriving DecidableEq, Repr

/-- The map, the loader's next index and the walk. -/
structure LoadState (dtNodeNb : Nat) where
  map : DtNodesArray dtNodeNb
  next : Nat
  phase : Phase

/-- Who moves. -/
inductive Party where
  | loader
  | walker
deriving DecidableEq, Repr

variable {dtNodeNb featureNb : Nat}

/-- One step of either party; user space loads `nodes`, the walk
classifies `fv`. -/
def loadStep (nodes : DtNodesArray dtNodeNb)
    (fv : Vector UInt32 featureNb) (s : LoadState dtNodeNb) :
    Party → Option (LoadState dtNodeNb)
  | .loader =>
      if h : s.next < dtNodeNb then
        some { s with
          map := s.map.update ⟨s.next, h⟩ (nodes ⟨s.next, h⟩)
          next := s.next + 1 }
      else none
  | .walker =>
      match s.phase with
      | .returned _ => none
      | .walking 0 _ => none
      | .walking (fuel + 1) w =>
          match classifyBody s.map fv w with
          | .inl v => some { s with phase := .returned v }
          | .inr w' => some { s with phase := .walking fuel w' }

/-- The table's first `k` entries, the rest still zeroed. -/
def loadedUpTo (nodes : DtNodesArray dtNodeNb) (k : Nat) :
    DtNodesArray dtNodeNb :=
  fun i => if i < k then nodes i else .undefined

/-- The state when a packet arrives after `k` entries have been
written. -/
def LoadState.arrival (nodes : DtNodesArray dtNodeNb) (k : Nat) :
    LoadState dtNodeNb :=
  ⟨loadedUpTo nodes k, k, .walking loopBound .start⟩

end XdpIds.Tree
