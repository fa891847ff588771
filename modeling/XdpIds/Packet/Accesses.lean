/-
`xdp_trace_net_event` one access to the flow table at a time.

Up to its flow features `parse_update` touches nothing that other CPUs
touch: the frame, the feature vector and the debug event are the
packet's own. `parseFrame` is that part. It ends in a code, or in the key
of the flow the packet goes to.

`flowAccesses` is the flow stage as a program on that key's entry: the
lookup, then the insert of a new entry or the four changes of the one
found, and the loads for the feature vector. What is left after it, the
writes to the vector and the tree's verdict, is the packet's own again
(`concluded`).

`packetCode` puts the three together. On a machine that does nothing
else meanwhile it is `xdp_trace_net_event` (`Packet/Proofs/Accesses`).
-/
import XdpIds.Lib.Tasks
import XdpIds.Packet.Ledger

namespace XdpIds

open Tasks
open XdpIds.Tree (DtNodesArray classifyDt)

-- ===================================================== up to the flow's entry

/-- Where the packet's own part of `parse_update` ends. -/
inductive Stop where
  | returned (code : Int)
  | flow (key : BitVec 128)

/-- The flow whose entry is needed. -/
def Stop.key : Stop → Option (BitVec 128)
  | .returned _ => none
  | .flow key => some key

/-- What that part leaves. -/
structure Parsed (b : Build) where
  stop : Stop
  fv : b.Fv
  nete : Option NetEvent

/-- `(FEATURES & F_RANGE_FLOW) != 0`. -/
def Build.stop (b : Build) (saddr daddr : UInt32) (sport dport : UInt16) :
    Stop :=
  if b.flowSelected then .flow (flowKey saddr sport daddr dport)
  else .returned 0

/-- From a complete IP header up to the flow features. -/
def parseIpFrame (b : Build) (f : Frame) (fv : b.Fv)
    (ne : Option NetEvent) : Exec (Parsed b) := do
  let protocol ← f.load8 (sizeofEthhdr + 9)
  let saddr ← f.load32 (sizeofEthhdr + 12)
  let daddr ← f.load32 (sizeofEthhdr + 16)
  let nete := ne.map fun e =>
    { e with dstIp := daddr, srcIp := saddr, protocol, packetSize := f.size }
  let fv ← fvIfUpdates b fv
    [(.protocol, protocol.toUInt32), (.pktSize, f.size)]
  if b.parsesPorts ne then
    match ← loadPorts b f protocol with
    | .error code => .ok ⟨.returned code, fv, nete⟩
    | .ok (sport, dport) =>
        let nete := nete.map fun e =>
          { e with dstPort := dport, srcPort := sport }
        let fv ← fvIfUpdates b fv
          [(.dPort, dport.toUInt32), (.sPort, sport.toUInt32)]
        .ok ⟨b.stop saddr daddr sport dport, fv, nete⟩
  else .ok ⟨b.stop saddr daddr 0 0, fv, nete⟩

/-- `parse_update` up to the flow features. -/
def parseFrame (b : Build) (f : Frame) (fv : b.Fv) (ne : Option NetEvent) :
    Exec (Parsed b) :=
  if f.len < sizeofEthhdr then .ok ⟨.returned (-1), fv, ne⟩
  else do
    let hProto ← f.load16 12
    if hProto ≠ swap16 ETH_P_IP then .ok ⟨.returned (-2), fv, ne⟩
    else if f.len < sizeofEthhdr + sizeofIphdr then
      .ok ⟨.returned (-3), fv, ne⟩
    else parseIpFrame b f fv ne

-- ============================================================ the flow's entry

/-- The flow stage, access by access, and the writes it makes to the
feature vector. -/
def flowAccesses (timeNow : UInt64) (len : Nat) :
    Prog FlowInfo (List (Feature × UInt32)) := do
  match ← Prog.find with
  | some _ =>
      let lastSeen ← Prog.load FlowInfo.lastSeen
      let iatMs := (timeNow - lastSeen) / 1000000
      Prog.store fun fi => { fi with lastSeen := timeNow }
      Prog.store fun fi => { fi with count := fi.count + 1 }
      Prog.store fun fi =>
        { fi with totBytes := fi.totBytes + UInt64.ofNat len }
      Prog.store fun fi => { fi with totIat := fi.totIat + iatMs }
      -- every field is loaded anew for each feature made of it
      let meanBytes ← Prog.load FlowInfo.totBytes
      let meanCount ← Prog.load FlowInfo.count
      let totBytes ← Prog.load FlowInfo.totBytes
      let count ← Prog.load FlowInfo.count
      let totIat ← Prog.load FlowInfo.totIat
      let meanIat ← Prog.load FlowInfo.totIat
      let iatCount ← Prog.load FlowInfo.count
      return [(.sizeMean, (meanBytes / meanCount.toUInt64).toUInt32),
        (.sizeTot, totBytes.toUInt32),
        (.pktNb, count),
        (.iat, if iatMs > 0xFFFFFFFF then 0xFFFFFFFF else iatMs.toUInt32),
        (.iatTot, totIat.toUInt32),
        (.iatMean, (meanIat / iatCount.toUInt64).toUInt32)]
  | none =>
      Prog.put (FlowInfo.create timeNow len)
      return FlowInfo.createWrites len

-- ============================================================== the program

/-- The program's two `switch`es: the label, and the event it submits. -/
def concluded {dtNodeNb : Nat} {b : Build} (map : DtNodesArray dtNodeNb)
    (code : Int) (fv : b.Fv) (nete : Option NetEvent) :
    Exec (Label × Option NetEvent) :=
  if code = -2 then .ok (.passSilent, none)
  else if code = 0 then
    match classifyDt map fv with
    | some .pass =>
        .ok (.pass, nete.map fun e => { e with decision := true })
    | some .drop =>
        .ok (.drop, nete.map fun e => { e with decision := false })
    | none => .error .noReturn
  else .ok (.drop, nete.map fun e => { e with decision := false })

/-- The packet's own part, from a zeroed vector. -/
def Arrival.parsed (b : Build) (a : Arrival) : Exec (Parsed b) :=
  parseFrame b a.frame (.replicate _ 0) a.event

/-- The flow whose entry a packet works on, if any. -/
def Arrival.flow (b : Build) (a : Arrival) : Option (BitVec 128) :=
  match a.parsed b with
  | .ok r => r.stop.key
  | .error _ => none

/-- `xdp_trace_net_event` for a packet whose clock reading is its
arrival's. -/
def Arrival.accesses {dtNodeNb : Nat} (b : Build)
    (map : DtNodesArray dtNodeNb) (a : Arrival) :
    Prog FlowInfo (Exec (Label × Option NetEvent)) :=
  match a.parsed b with
  | .error fault => .ret (.error fault)
  | .ok ⟨.returned code, fv, nete⟩ => .ret (concluded map code fv nete)
  | .ok ⟨.flow _, fv, nete⟩ => do
      let writes ← flowAccesses a.time a.frame.len
      return do
        let fv ← fvIfUpdates b fv writes
        concluded map 0 fv nete

/-- What packets do to the flow table. -/
def packetCode {dtNodeNb : Nat} (b : Build) (map : DtNodesArray dtNodeNb) :
    Code Arrival (BitVec 128) FlowInfo (Exec (Label × Option NetEvent)) where
  key := Arrival.flow b
  prog := Arrival.accesses b map

end XdpIds
