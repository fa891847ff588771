/-
dt_xdp as a system: the program on packets of any CPUs, the flow table
they share, the ring, and dt_xdp.usr.c's loop that prints.

# A packet

It reserves a record or is refused one. Then it reads the clock and works
on its flow's entry, one access at a time and among those of the others
(`packetCode`), with its record if it has one. When its program has
returned, the record is committed. The tree table is at rest.

# Evictions

An entry may go at any time. A packet that has found an entry goes on
with it by its address, so if the entry goes meanwhile its next access is
to memory that may be another flow's by then. Such an access is not
modelled: the packet stays where it is.

# The conditions

`OneFlowAtATime` is met by a move that does not cut in on a packet: no
packet reads the clock while another of its flow is between its own
reading and its return, and no entry is evicted from under a packet at
work. A driver that steers each flow to one queue gives the first.
Packets of different flows interleave as they like. `TimeForward` is met
by a reading that is not earlier than one already made. What needs
neither is proved of every run.

# The history

`past` is no part of the machine. It is the order in which packets read
the clock and entries were evicted.
-/
import XdpIds.Lib.Ring
import XdpIds.Packet.Accesses
import XdpIds.Packet.Log

namespace XdpIds.DtXdp

open Keyed (Change)
open Tasks XdpIds.Ring
open XdpIds.Tree (DtNodesArray)

variable {ι : Type}

/-- A packet: its frame, and what its record holds when it is
reserved. -/
structure Packet where
  frame : Frame
  slot : NetEvent

/-- A packet that reads the clock, with its record if it has one. -/
def Packet.arrival (p : Packet) (timeNow : UInt64)
    (event : Option NetEvent) : Arrival :=
  ⟨p.frame, timeNow, event⟩

/-- The ring, the flow table with the packets at work on it, the history,
and what has been printed. -/
structure System (ι : Type) where
  ring : RingState ι NetEvent
  table : TaskState ι (BitVec 128) Arrival FlowInfo
    (Exec (Label × Option NetEvent))
  past : List (Change (ι × Arrival) (BitVec 128))
  stdout : List Char

/-- Before the first packet, with the header printed. -/
def System.start : System ι := ⟨.start, .start, [], logHeader⟩

/-- A packet reserves or is refused, reads the clock, makes its next
access, or commits; an entry is evicted; the loop polls a record. -/
inductive Move (ι : Type) where
  | reserve (p : ι)
  | refuse (p : ι)
  | readClock (p : ι) (timeNow : UInt64)
  | access (p : ι)
  | commit (p : ι)
  | evict (key : BitVec 128)
  | poll

/-- `ne`, for a packet that is past its reservation and not committed. -/
def record (packets : ι → Packet) (ring : RingState ι NetEvent) (p : ι) :
    Option (Option NetEvent) :=
  match ring.stage p with
  | .filling => some (some (packets p).slot)
  | .refused => some none
  | _ => none

/-- What a packet submits, once its program has returned. -/
def submission :
    Prog FlowInfo (Exec (Label × Option NetEvent)) → Option (Option NetEvent)
  | .ret (.ok (_, out)) => some out
  | _ => none

variable {dtNodeNb : Nat}

section Moves

variable [DecidableEq ι]

/-- One move. -/
def systemStep (b : Build) (map : DtNodesArray dtNodeNb)
    (packets : ι → Packet) (s : System ι) : Move ι → Option (System ι)
  | .reserve p =>
      (ringStep s.ring (.reserve p)).map fun ring => { s with ring }
  | .refuse p =>
      (ringStep s.ring (.refuse p)).map fun ring => { s with ring }
  | .readClock p timeNow => do
      let event ← record packets s.ring p
      let a := (packets p).arrival timeNow event
      let table ← (packetCode b map).step s.table (.start p a)
      return { s with table, past := s.past ++ [.event (p, a)] }
  | .access p =>
      ((packetCode b map).step s.table (.access p)).map fun table =>
        { s with table }
  | .commit p => do
      let (_, prog) ← s.table.task p
      let out ← submission prog
      let ring ← ringStep s.ring (.commit p out)
      return { s with ring }
  | .evict key =>
      ((packetCode b map).step s.table (.drop key)).map fun table =>
        { s with table, past := s.past ++ [.drop key] }
  | .poll => do
      let ring ← ringStep s.ring .take
      return { s with
        ring
        stdout := (ring.handed.drop s.ring.handed.length).foldl printLog
          s.stdout }

end Moves

-- =============================================================== the conditions

/-- The packet of a flow, or the eviction of its entry, waits for the
packet of that flow that is at work. -/
def OneFlowAtATime (b : Build) (map : DtNodesArray dtNodeNb)
    (packets : ι → Packet) (s : System ι) : Move ι → Prop
  | .readClock p timeNow => ∀ event ∈ record packets s.ring p,
      (packetCode b map).OneAtATime s.table
        (.start p ((packets p).arrival timeNow event))
  | .evict key => (packetCode b map).OneAtATime s.table (.drop key)
  | _ => True

instance [Fintype ι] (b : Build) (map : DtNodesArray dtNodeNb)
    (packets : ι → Packet) (s : System ι) :
    ∀ m, Decidable (OneFlowAtATime b map packets s m)
  | .readClock p timeNow => inferInstanceAs
      (Decidable (∀ event ∈ record packets s.ring p,
        (packetCode b map).OneAtATime s.table
          (.start p ((packets p).arrival timeNow event))))
  | .evict key => inferInstanceAs
      (Decidable ((packetCode b map).OneAtATime s.table (.drop key)))
  | .reserve _ => .isTrue trivial
  | .refuse _ => .isTrue trivial
  | .access _ => .isTrue trivial
  | .commit _ => .isTrue trivial
  | .poll => .isTrue trivial

/-- The packets that have read the clock, in the order they did. -/
def clocked (past : List (Change (ι × Arrival) (BitVec 128))) :
    List Arrival :=
  Keyed.events (changes past)

/-- The clock is not behind what it has shown. -/
def TimeForward (s : System ι) : Move ι → Prop
  | .readClock _ timeNow => ∀ a ∈ clocked s.past, a.time ≤ timeNow
  | _ => True

instance (s : System ι) : ∀ m, Decidable (TimeForward s m)
  | .readClock _ timeNow => inferInstanceAs
      (Decidable (∀ a ∈ clocked s.past, a.time ≤ timeNow))
  | .reserve _ => .isTrue trivial
  | .refuse _ => .isTrue trivial
  | .access _ => .isTrue trivial
  | .commit _ => .isTrue trivial
  | .evict _ => .isTrue trivial
  | .poll => .isTrue trivial

/-- The packets of a flow take turns, and the clock does not go back. -/
def Orderly (b : Build) (map : DtNodesArray dtNodeNb) (packets : ι → Packet)
    (s : System ι) (m : Move ι) : Prop :=
  OneFlowAtATime b map packets s m ∧ TimeForward s m

instance [Fintype ι] (b : Build) (map : DtNodesArray dtNodeNb)
    (packets : ι → Packet) (s : System ι) (m : Move ι) :
    Decidable (Orderly b map packets s m) :=
  inferInstanceAs (Decidable (_ ∧ _))

end XdpIds.DtXdp
