/-
The flow stage of dt_xdp.bpf.c's `parse_update`: the flow key, the
`flow_info_map` entry it finds or creates, and the flow features it
writes.

`FlowInfo` keeps common.h's widths: three 64-bit fields and a 32-bit
packet count. Divisions are the kernel's, where a zero divisor gives 0.
The map is one function from keys to entries: an insert with
`BPF_NOEXIST` follows a lookup that found nothing, so it succeeds.
-/
import XdpIds.Packet.Vector

namespace XdpIds

/-- common.h's `struct flow_info`. -/
structure FlowInfo where
  lastSeen : UInt64
  totBytes : UInt64
  totIat : UInt64
  count : UInt32
deriving DecidableEq, Repr

/-- `flow_info_map`. -/
abbrev FlowMap := BitVec 128 → Option FlowInfo

/-- `flow_key`: the addresses and ports side by side, over 32 filler
bits. -/
def flowKey (saddr : UInt32) (sport : UInt16) (daddr : UInt32)
    (dport : UInt16) : BitVec 128 :=
  saddr.toBitVec.setWidth 128 <<< 96 ||| sport.toBitVec.setWidth 128 <<< 80
    ||| daddr.toBitVec.setWidth 128 <<< 48
    ||| dport.toBitVec.setWidth 128 <<< 32

namespace FlowInfo

/-- `new_fi`, initialised by position: last packet, total size, total
inter-arrival time, packet count. -/
def create (timeNow : UInt64) (len : Nat) : FlowInfo :=
  ⟨timeNow, UInt64.ofNat len, 0, 1⟩

/-- The milliseconds since the entry was last seen. -/
def iatMs (fi : FlowInfo) (timeNow : UInt64) : UInt64 :=
  (timeNow - fi.lastSeen) / 1000000

/-- The entry after one more packet. -/
def update (fi : FlowInfo) (timeNow : UInt64) (len : Nat) : FlowInfo where
  lastSeen := timeNow
  count := fi.count + 1
  totBytes := fi.totBytes + UInt64.ofNat len
  totIat := fi.totIat + fi.iatMs timeNow

/-- The writes for a flow just created. -/
def createWrites (len : Nat) : List (Feature × UInt32) :=
  [(.sizeMean, UInt32.ofNat len),
    (.sizeTot, UInt32.ofNat len),
    (.pktNb, 1),
    (.iat, 0),
    (.iatTot, 0),
    (.iatMean, 0)]

/-- The writes for a flow just updated to `fi`, `iatMs` after its
previous packet. -/
def updateWrites (fi : FlowInfo) (iatMs : UInt64) :
    List (Feature × UInt32) :=
  [(.sizeMean, (fi.totBytes / fi.count.toUInt64).toUInt32),
    (.sizeTot, fi.totBytes.toUInt32),
    (.pktNb, fi.count),
    (.iat, if iatMs > 0xFFFFFFFF then 0xFFFFFFFF else iatMs.toUInt32),
    (.iatTot, fi.totIat.toUInt32),
    (.iatMean, (fi.totIat / fi.count.toUInt64).toUInt32)]

end FlowInfo

/-- One packet of a flow: the entry it leaves and the features it
writes, from the entry it finds. -/
def flowPacket (found : Option FlowInfo) (timeNow : UInt64) (len : Nat) :
    FlowInfo × List (Feature × UInt32) :=
  match found with
  | some fi =>
      (fi.update timeNow len,
        (fi.update timeNow len).updateWrites (fi.iatMs timeNow))
  | none => (.create timeNow len, FlowInfo.createWrites len)

/-- The flow stage. -/
def flowStage (b : Build) (flows : FlowMap) (key : BitVec 128)
    (timeNow : UInt64) (len : Nat) (fv : b.Fv) : Exec (FlowMap × b.Fv) := do
  let (fi, writes) := flowPacket (flows key) timeNow len
  let fv ← fvIfUpdates b fv writes
  return (Function.update flows key (some fi), fv)

end XdpIds
