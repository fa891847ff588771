/-
The `parse_pack` of the two listeners that see raw frames:
net_listener_xdp.bpf.c's and net_listener_tc.bpf.c's.

Both fill a ring-buffer record in place, so each exit keeps what was
written before it and an error leaves the rest of the record as it was
reserved. They differ in two checks. The TC listener looks at
`ip->version`, and takes the transport header to start `ip->ihl` words
behind the IP header; the XDP listener takes it to start behind 20 bytes
whatever `ip->ihl` says.
-/
import XdpIds.Packet.Parse

namespace XdpIds.Listener

/-- The TCP and UDP branches: the exit for a header of `size` bytes that
is cut off at offset `i`, or the two ports. -/
def fillPorts (f : Frame) (i size : Nat) (code : Int) (e : NetEvent) :
    Exec (Int × NetEvent) :=
  if f.len < i + size then .ok (code, e)
  else do
    let source ← f.load16 i
    let dest ← f.load16 (i + 2)
    return (0, { e with srcPort := swap16 source, dstPort := swap16 dest })

/-- `parse_pack` up to a complete IP header, which `parseIp` goes on
from. -/
def parseHeaders (parseIp : Frame → NetEvent → Exec (Int × NetEvent))
    (f : Frame) (e : NetEvent) : Exec (Int × NetEvent) :=
  let e := { e with packetSize := f.size }
  if f.len < sizeofEthhdr then .ok (-1, e)
  else do
    let hProto ← f.load16 12
    if hProto ≠ swap16 ETH_P_IP then .ok (-2, e)
    else if f.len < sizeofEthhdr + sizeofIphdr then .ok (-3, e)
    else parseIp f e

namespace Xdp

/-- From a complete IP header on. -/
def parseIp (f : Frame) (e : NetEvent) : Exec (Int × NetEvent) := do
  let daddr ← f.load32 (sizeofEthhdr + 16)
  let saddr ← f.load32 (sizeofEthhdr + 12)
  let e := { e with dstIp := daddr, srcIp := saddr }
  let protocol ← f.load8 (sizeofEthhdr + 9)
  if protocol = IPPROTO_TCP then
    fillPorts f (sizeofEthhdr + sizeofIphdr) sizeofTcphdr (-4)
      { e with protocol := 6 }
  else if protocol = IPPROTO_UDP then
    fillPorts f (sizeofEthhdr + sizeofIphdr) sizeofUdphdr (-5)
      { e with protocol := 17 }
  else return (0, { e with protocol, srcPort := 0, dstPort := 0 })

/-- net_listener_xdp.bpf.c's `parse_pack`. -/
def parsePack : Frame → NetEvent → Exec (Int × NetEvent) :=
  parseHeaders parseIp

end Xdp

namespace Tc

/-- From a complete IP header on. -/
def parseIp (f : Frame) (e : NetEvent) : Exec (Int × NetEvent) := do
  -- `version` and `ihl` are bit fields of one byte
  let first ← f.load8 sizeofEthhdr
  if first >>> 4 ≠ 4 then return (-2, e)
  let saddr ← f.load32 (sizeofEthhdr + 12)
  let daddr ← f.load32 (sizeofEthhdr + 16)
  let protocol ← f.load8 (sizeofEthhdr + 9)
  let e := { e with srcIp := saddr, dstIp := daddr, protocol }
  let transport := sizeofEthhdr + (first &&& 0x0F).toNat * 4
  if protocol = IPPROTO_TCP then
    fillPorts f transport sizeofTcphdr (-4) e
  else if protocol = IPPROTO_UDP then
    fillPorts f transport sizeofUdphdr (-5) e
  else return (0, { e with srcPort := 0, dstPort := 0 })

/-- net_listener_tc.bpf.c's `parse_pack`, on the linear bytes of the
socket buffer. -/
def parsePack : Frame → NetEvent → Exec (Int × NetEvent) :=
  parseHeaders parseIp

end Tc

end XdpIds.Listener
