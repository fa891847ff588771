/-
count_IPs_xdp.bpf.c: packets and bytes per pair of addresses.

A frame is mapped to a 64-bit key (`keyOf`): its two addresses as they
are stored, or, where the headers do not parse, a pair of addresses that
stands for the error. Then its entry is looked up and either updated in
place or inserted (`countOne`).

The key is a local the parser fills on success only, so it enters as
whatever its stack slot holds. The map is a function from keys to
entries: `BPF_NOEXIST` makes an insert on an entry that exists do
nothing, and an eviction, which a full LRU map makes room with, is a
step of its own that none of these functions takes.
-/
import XdpIds.Packet.Frame
import Mathlib.Logic.Function.Basic

namespace XdpIds.CountIps

-- ================================================================== the map

/-- common.h's `struct ip_count`. -/
structure IpCount where
  count : UInt64
  totBytes : UInt64
deriving DecidableEq, Repr

/-- `ip_count_map`. -/
abbrev IpCountMap := UInt64 → Option IpCount

/-- `{ 1, pkt_size }`. -/
def IpCount.create (pktSize : UInt32) : IpCount := ⟨1, pktSize.toUInt64⟩

/-- `__sync_fetch_and_add(&ipc->count, 1)`. -/
def IpCount.addCount (ipc : IpCount) : IpCount :=
  { ipc with count := ipc.count + 1 }

/-- `__sync_fetch_and_add(&ipc->tot_bytes, pkt_size)`. -/
def IpCount.addBytes (ipc : IpCount) (pktSize : UInt32) : IpCount :=
  { ipc with totBytes := ipc.totBytes + pktSize.toUInt64 }

/-- `bpf_map_update_elem` with `BPF_NOEXIST`. -/
def IpCountMap.insertNew (map : IpCountMap) (key : UInt64)
    (value : IpCount) : IpCountMap :=
  match map key with
  | some _ => map
  | none => Function.update map key (some value)

-- ============================================================= parse_update

/-- The addresses side by side: `(ip->saddr << 32) | ip->daddr`. -/
def pairKey (saddr daddr : UInt32) : UInt64 :=
  saddr.toUInt64 <<< 32 ||| daddr.toUInt64

/-- `parse_update`: the code, the key and the packet size. -/
def parseUpdate (f : Frame) (key : UInt64) : Exec (Int × UInt64 × UInt32) :=
  let pktSize := f.size
  if f.len < sizeofEthhdr then .ok (-1, key, pktSize)
  else do
    let hProto ← f.load16 12
    if hProto ≠ swap16 ETH_P_IP then .ok (-2, key, pktSize)
    else if f.len < sizeofEthhdr + sizeofIphdr then .ok (-3, key, pktSize)
    else do
      let saddr ← f.load32 (sizeofEthhdr + 12)
      let daddr ← f.load32 (sizeofEthhdr + 16)
      return (0, pairKey saddr daddr, pktSize)

-- ====================================================== xdp_trace_net_event

/-- The source address of every error key. -/
def errorSource : UInt32 := 0x00051212

/-- `dest_ip_error`. -/
def destIpError (ret : Int) : UInt32 :=
  if ret = -1 then 0x0f120001
  else if ret = -2 then 0x0f120002
  else if ret = -3 then 0x0f120003
  else 0x0f1200ff

/-- The first half of `xdp_trace_net_event`: the key a frame counts
under, and its size. -/
def keyOf (f : Frame) (key : UInt64) : Exec (UInt64 × UInt32) := do
  let (ret, key, pktSize) ← parseUpdate f key
  if ret < 0 then return (pairKey errorSource (destIpError ret), pktSize)
  else return (key, pktSize)

/-- The second half: look the key up, and update or insert. -/
def countOne (map : IpCountMap) (key : UInt64) (pktSize : UInt32) :
    IpCountMap :=
  match map key with
  | some ipc =>
      Function.update map key (some (ipc.addCount.addBytes pktSize))
  | none => map.insertNew key (.create pktSize)

/-- `xdp_trace_net_event`, with what the key's stack slot holds on
entry. -/
def xdpTraceNetEvent (f : Frame) (slot : UInt64) (map : IpCountMap) :
    Exec IpCountMap := do
  let (key, pktSize) ← keyOf f slot
  return countOne map key pktSize

/-- A frame, and what the key's stack slot holds when its handling
starts. -/
structure Sample where
  frame : Frame
  slot : UInt64

/-- Frames handled one after another. -/
def countAll (map : IpCountMap) (samples : List Sample) : Exec IpCountMap :=
  samples.foldlM (fun map s => xdpTraceNetEvent s.frame s.slot map) map

end XdpIds.CountIps
