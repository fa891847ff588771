/-
What the flow table is for: the ledger of a flow.

A flow's history is the list of its packets, each a time and a length
(`Sighting`). Its ledger is four numbers of that list, the time of the
last packet, the bytes, the whole milliseconds between consecutive
packets and the packet count, in unbounded arithmetic; `Accounts` says
that an entry of the table holds them, and `flowValue` what each flow
feature is.

`receive` and `receiveAll` are the runs: packets handled one after
another, each with a zeroed vector, on one flow map.
-/
import XdpIds.Packet.Parse

namespace XdpIds

-- =============================================================== histories

/-- A packet as its flow sees it. -/
structure Sighting where
  time : UInt64
  len : Nat
  len_lt : len < 2 ^ 32

/-- The whole milliseconds from one packet to another. -/
def Sighting.gapMs (p q : Sighting) : Nat :=
  (q.time.toNat - p.time.toNat) / 10 ^ 6

/-- The gaps between consecutive packets. -/
def gapsMs : List Sighting → List Nat
  | p :: q :: rest => p.gapMs q :: gapsMs (q :: rest)
  | _ => []

/-- The bytes of a history. -/
def bytes (h : List Sighting) : Nat := (h.map (·.len)).sum

/-- The timestamps never decrease. -/
def InOrder (h : List Sighting) : Prop :=
  h.Pairwise fun p q => p.time ≤ q.time

/-- The history's totals fit in 32 bits. -/
structure InRange (h : List Sighting) : Prop where
  count : h.length < 2 ^ 32
  bytes : bytes h < 2 ^ 32
  iat : (gapsMs h).sum < 2 ^ 32

/-- An entry holds the ledger of a history; no entry, no packets. -/
def Accounts : Option FlowInfo → List Sighting → Prop
  | none, h => h = []
  | some fi, h =>
      h.getLast?.map (·.time) = some fi.lastSeen
        ∧ fi.totBytes.toNat = bytes h
        ∧ fi.totIat.toNat = (gapsMs h).sum
        ∧ fi.count.toNat = h.length

/-- The flow features of a history. -/
def flowValue (h : List Sighting) : Feature → Option Nat
  | .sizeTot => some (bytes h)
  | .sizeMean => some (bytes h / h.length)
  | .pktNb => some h.length
  | .iat => some ((gapsMs h).getLast?.getD 0)
  | .iatTot => some (gapsMs h).sum
  | .iatMean => some ((gapsMs h).sum / h.length)
  | _ => none

-- ==================================================================== runs

/-- The entry a history leaves, from none, packet by packet. -/
def flowRun (h : List Sighting) : Option FlowInfo :=
  h.foldl (fun found p => some (flowPacket found p.time p.len).1) none

/-- A frame, the clock reading its handling starts with, and the debug
event it is given. -/
structure Arrival where
  frame : Frame
  time : UInt64
  event : Option NetEvent

/-- The arrival as its flow sees it. -/
def Arrival.sighting (a : Arrival) : Sighting :=
  ⟨a.time, a.frame.len, a.frame.len_lt⟩

/-- One frame handled by `parse_update`, from a zeroed vector. -/
def receive (b : Build) (flows : FlowMap) (a : Arrival) :
    Exec (Int × ParseState b) :=
  parseUpdate b a.frame a.time ⟨.replicate b.featureNb 0, flows, a.event⟩

/-- Frames handled one after another. -/
def receiveAll (b : Build) : FlowMap → List Arrival → Exec FlowMap
  | flows, [] => .ok flows
  | flows, a :: rest => do
      let (_, s) ← receive b flows a
      receiveAll b s.flows rest

end XdpIds
