/-
Frames on several CPUs: the second half of count_IPs_xdp's
`xdp_trace_net_event`, one access to the map at a time.

A frame looks its key up, and either makes the two atomic additions to
the entry it found or inserts a new one. The insert is `BPF_NOEXIST` and
its result is not looked at, so on a key that has appeared meanwhile it
does nothing. Nothing is evicted, so a found entry stays.

Frames move in any order; a CPU that handles several one after another
only restricts it.
-/
import XdpIds.CountIps.Count
import XdpIds.Lib.Transition

namespace XdpIds.CountIps

/-- Where the handling of a frame is, and its locals. -/
inductive CountPhase where
  | arrived
  | found (key : UInt64) (pktSize : UInt32)
  | missed (key : UInt64) (pktSize : UInt32)
  | counted (key : UInt64) (pktSize : UInt32)
  | done
deriving DecidableEq, Repr

variable {ι : Type} [DecidableEq ι]

/-- The map and every frame's phase. -/
structure CountState (ι : Type) where
  map : IpCountMap
  phase : ι → CountPhase

/-- Before the first frame. -/
def CountState.start : CountState ι := ⟨fun _ => none, fun _ => .arrived⟩

/-- One frame's move: what it makes of the map and its next phase. -/
def CountState.move (s : CountState ι) (p : ι) (map : IpCountMap)
    (next : CountPhase) : CountState ι :=
  ⟨map, Function.update s.phase p next⟩

/-- One access of one frame. -/
def countStep (sample : ι → Sample) (s : CountState ι) (p : ι) :
    Option (CountState ι) :=
  match s.phase p with
  | .arrived =>
      match keyOf (sample p).frame (sample p).slot with
      | .error _ => none
      | .ok (key, pktSize) =>
          match s.map key with
          | some _ => some (s.move p s.map (.found key pktSize))
          | none => some (s.move p s.map (.missed key pktSize))
  | .found key pktSize =>
      match s.map key with
      | some ipc =>
          some (s.move p (Function.update s.map key (some ipc.addCount))
            (.counted key pktSize))
      | none => none
  | .counted key pktSize =>
      match s.map key with
      | some ipc =>
          some (s.move p
            (Function.update s.map key (some (ipc.addBytes pktSize))) .done)
      | none => none
  | .missed key pktSize =>
      some (s.move p (s.map.insertNew key (.create pktSize)) .done)
  | .done => none

/-- Every frame is handled. -/
def CountState.Finished (s : CountState ι) : Prop := ∀ p, s.phase p = .done

end XdpIds.CountIps
