/-
dt_xdp.bpf.c's `parse_update` and `xdp_trace_net_event`.

`parseUpdate` is the source function in its own order: the two header
checks, the debug event, the packet features, the ports (`loadPorts`)
and the flow stage. It returns the code with everything it wrote by
then, so an error exit keeps what the source's early return keeps.

Whether ports are parsed at all depends on the build and on the debug
event being there (`parsesPorts`); the UDP branch has a condition of its
own, on the build alone.

`xdpTraceNetEvent` is the program: the label it reaches, the flow map it
leaves and the event it submits. All labels end in `XDP_PASS`.
-/
import XdpIds.Packet.Flow
import XdpIds.Tree.Node

namespace XdpIds

open XdpIds.Tree (DtNodesArray classifyDt)

-- ================================================================== events

/-- common.h's `struct netevent`. -/
structure NetEvent where
  srcIp : UInt32
  dstIp : UInt32
  srcPort : UInt16
  dstPort : UInt16
  protocol : UInt8
  packetSize : UInt32
  tParsing : UInt16
  tClassification : UInt16
  tTot : UInt16
  decision : Bool
deriving DecidableEq, Repr

/-- What `parse_update` reads and writes besides the frame: the feature
vector, the flow map and the debug event, which may be null. -/
structure ParseState (b : Build) where
  fv : b.Fv
  flows : FlowMap
  nete : Option NetEvent

-- ============================================================ parse_update

variable {b : Build}

/-- The condition around port parsing. -/
def Build.parsesPorts (b : Build) (nete : Option NetEvent) : Bool :=
  b.portsSelected || b.flowSelected || nete.isSome

/-- Where the transport header is taken to be, whatever `ip->ihl`. -/
def transportOffset : Nat := sizeofEthhdr + sizeofIphdr

/-- The source and destination ports of a transport header. -/
def loadPortPair (f : Frame) : Exec (UInt16 × UInt16) := do
  let source ← f.load16 transportOffset
  let dest ← f.load16 (transportOffset + 2)
  return (swap16 source, swap16 dest)

/-- The transport branches: an error code, or the two ports. -/
def loadPorts (b : Build) (f : Frame) (protocol : UInt8) :
    Exec (Except Int (UInt16 × UInt16)) :=
  if protocol = IPPROTO_TCP then
    if f.len < transportOffset + sizeofTcphdr then .ok (.error (-4))
    else .ok <$> loadPortPair f
  else if b.portsSelected && protocol = IPPROTO_UDP then
    if f.len < transportOffset + sizeofUdphdr then .ok (.error (-5))
    else .ok <$> loadPortPair f
  else .ok (.ok (0, 0))

/-- From the flow features on: nothing fails any more. -/
def parseFlow (f : Frame) (timeNow : UInt64) (saddr daddr : UInt32)
    (sport dport : UInt16) (s : ParseState b) :
    Exec (Int × ParseState b) :=
  if b.flowSelected then do
    let (flows, fv) ← flowStage b s.flows (flowKey saddr sport daddr dport)
      timeNow f.len s.fv
    .ok (0, { s with flows, fv })
  else .ok (0, s)

/-- From a complete IP header on. -/
def parseIp (f : Frame) (timeNow : UInt64) (s : ParseState b) :
    Exec (Int × ParseState b) := do
  let protocol ← f.load8 (sizeofEthhdr + 9)
  let saddr ← f.load32 (sizeofEthhdr + 12)
  let daddr ← f.load32 (sizeofEthhdr + 16)
  let nete := s.nete.map fun e =>
    { e with dstIp := daddr, srcIp := saddr, protocol, packetSize := f.size }
  let fv ← fvIfUpdates b s.fv
    [(.protocol, protocol.toUInt32), (.pktSize, f.size)]
  if b.parsesPorts s.nete then
    match ← loadPorts b f protocol with
    | .error code => .ok (code, { s with fv, nete })
    | .ok (sport, dport) =>
        let nete := nete.map fun e =>
          { e with dstPort := dport, srcPort := sport }
        let fv ← fvIfUpdates b fv
          [(.dPort, dport.toUInt32), (.sPort, sport.toUInt32)]
        parseFlow f timeNow saddr daddr sport dport { s with fv, nete }
  else parseFlow f timeNow saddr daddr 0 0 { s with fv, nete }

/-- `parse_update`: the returned code and the state it leaves. -/
def parseUpdate (b : Build) (f : Frame) (timeNow : UInt64)
    (s : ParseState b) : Exec (Int × ParseState b) :=
  if f.len < sizeofEthhdr then .ok (-1, s)
  else do
    let hProto ← f.load16 12
    if hProto ≠ swap16 ETH_P_IP then .ok (-2, s)
    else if f.len < sizeofEthhdr + sizeofIphdr then .ok (-3, s)
    else parseIp f timeNow s

-- ==================================================== xdp_trace_net_event

/-- The label a packet's verdict reaches. -/
inductive Label where
  | passSilent
  | pass
  | drop
deriving DecidableEq, Repr

/-- What the program leaves behind. -/
structure Outcome where
  label : Label
  flows : FlowMap
  submitted : Option NetEvent

/-- The `pass` and `drop` labels: fill in the decision and submit. -/
def decided (label : Label) (s : ParseState b) : Outcome where
  label := label
  flows := s.flows
  submitted := s.nete.map fun e => { e with decision := label = .pass }

/-- The second `switch`: the tree's verdict on the parsed packet. -/
def classified {dtNodeNb : Nat} (map : DtNodesArray dtNodeNb)
    (s : ParseState b) : Exec Outcome :=
  match classifyDt map s.fv with
  | some .pass => .ok (decided .pass s)
  | some .drop => .ok (decided .drop s)
  | none => .error .noReturn

/-- `xdp_trace_net_event`, given the reserved ring-buffer record if there
is one. -/
def xdpTraceNetEvent {dtNodeNb : Nat} (b : Build)
    (map : DtNodesArray dtNodeNb) (f : Frame) (timeNow : UInt64)
    (flows : FlowMap) (ne : Option NetEvent) : Exec Outcome := do
  let (ret, s) ← parseUpdate b f timeNow ⟨Vector.replicate _ 0, flows, ne⟩
  if ret = -2 then .ok ⟨.passSilent, s.flows, none⟩
  else if ret = 0 then classified map s
  else .ok (decided .drop s)

end XdpIds
