/-
Packets of one flow on several CPUs: the flow stage of dt_xdp.bpf.c's
`parse_update`, one access to shared state at a time.

A packet reads the clock, looks the entry up, and either inserts a new
entry or works on the one it found: read `last_seen`, write it, and three
atomic additions. The insert is `BPF_NOEXIST` and its result is ignored,
so on an entry that has appeared meanwhile it does nothing. The clock is
global and never goes back. Nothing is evicted.

Packets move in any order; a CPU that handles several one after another
only restricts it.
-/
import XdpIds.Packet.Flow
import XdpIds.Lib.Transition

namespace XdpIds

/-- Where the handling of a packet is. -/
inductive Phase where
  | arrived
  | clocked (timeNow : UInt64)
  | found (timeNow : UInt64)
  | missed (timeNow : UInt64)
  | seen (timeNow lastSeen : UInt64)
  | stamped (timeNow iatMs : UInt64)
  | counted (timeNow iatMs : UInt64)
  | sized (timeNow iatMs : UInt64)
  | done (timeNow : UInt64)
deriving DecidableEq, Repr

/-- The packet's clock reading, once it has one. -/
def Phase.time : Phase → Option UInt64
  | .arrived => none
  | .clocked t | .found t | .missed t | .done t => some t
  | .seen t _ | .stamped t _ | .counted t _ | .sized t _ => some t

variable {ι : Type} [DecidableEq ι]

/-- The latest clock reading, the flow's entry and every packet's
phase. -/
structure FlowState (ι : Type) where
  clock : UInt64
  entry : Option FlowInfo
  phase : ι → Phase

/-- Before the flow's first packet. -/
def FlowState.start : FlowState ι := ⟨0, none, fun _ => .arrived⟩

/-- One packet's move: what it makes of the entry and its next phase. -/
def FlowState.move (s : FlowState ι) (p : ι) (entry : Option FlowInfo)
    (next : Phase) : FlowState ι :=
  { s with entry, phase := Function.update s.phase p next }

/-- A packet reads the clock, or makes its next access. -/
inductive Access (ι : Type) where
  | readClock (p : ι) (timeNow : UInt64)
  | next (p : ι)
deriving DecidableEq, Repr

/-- A packet's next access after its clock reading. -/
def FlowState.next (frame : ι → Frame) (s : FlowState ι) (p : ι) :
    Option (FlowState ι) :=
  match s.phase p, s.entry with
  | .clocked t, some fi => s.move p (some fi) (.found t)
  | .clocked t, none => s.move p none (.missed t)
  | .missed t, none =>
      s.move p (some (.create t (frame p).len)) (.done t)
  | .missed t, some fi => s.move p (some fi) (.done t)
  | .found t, some fi => s.move p (some fi) (.seen t fi.lastSeen)
  | .seen t lastSeen, some fi =>
      s.move p (some { fi with lastSeen := t })
        (.stamped t ((t - lastSeen) / 1000000))
  | .stamped t iatMs, some fi =>
      s.move p (some { fi with count := fi.count + 1 }) (.counted t iatMs)
  | .counted t iatMs, some fi =>
      s.move p
        (some { fi with totBytes := fi.totBytes + UInt64.ofNat (frame p).len })
        (.sized t iatMs)
  | .sized t iatMs, some fi =>
      s.move p (some { fi with totIat := fi.totIat + iatMs }) (.done t)
  | _, _ => none

/-- One access of one packet. -/
def flowStep (frame : ι → Frame) (s : FlowState ι) :
    Access ι → Option (FlowState ι)
  | .readClock p timeNow =>
      if s.phase p = .arrived ∧ s.clock ≤ timeNow then
        some { s.move p s.entry (.clocked timeNow) with clock := timeNow }
      else none
  | .next p => s.next frame p

/-- Every packet is handled. -/
def FlowState.Finished (s : FlowState ι) : Prop :=
  ∀ p, ∃ t, s.phase p = .done t

end XdpIds
