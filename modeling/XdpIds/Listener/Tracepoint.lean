/-
net_listener.bpf.c's `parse_pack`, on the socket buffer of its
tracepoint.

A socket buffer has its headers in one linear stretch of bytes behind
`head`, and may have the rest of the packet in pages. The tracepoint
listener reads its fields by offset from `head`, through
`bpf_probe_read_kernel`; the TC listener is given the linear bytes from
`data` on (`SkBuff.linear`). A read is modelled as succeeding within the
buffer and as failing behind it.

The record is cleared first, so what it held does not matter.
-/
import XdpIds.Listener.Pack

namespace XdpIds.Listener

/-- What the listeners read of a `struct sk_buff`. -/
structure SkBuff where
  /-- The bytes from `skb->head` to the end of the buffer. -/
  head : Frame
  /-- `skb->data` and `skb->tail`, from `head`. -/
  data : Nat
  tail : Nat
  data_le : data ≤ tail
  tail_le : tail ≤ head.len
  len : UInt32
  dataLen : UInt32
  networkHeader : UInt16
  transportHeader : UInt16

namespace SkBuff

/-- The linear bytes of the packet, which `__sk_buff` has between `data`
and `data_end`. -/
def linear (skb : SkBuff) : Frame where
  bytes := (skb.head.bytes.take skb.tail).drop skb.data
  len_lt := by
    refine Nat.lt_of_le_of_lt ?_ skb.head.len_lt
    exact ((List.drop_sublist _ _).trans (List.take_sublist _ _)).length_le

/-- `bpf_probe_read_kernel` of `size` bytes at `head + i`. -/
def probeRead (skb : SkBuff) (i size : Nat) : Option (Nat → UInt8) :=
  if i + size ≤ skb.head.len then some fun k => skb.head.byte (i + k)
  else none

end SkBuff

namespace Tracepoint

/-- A record of zeros. -/
def clearedEvent : NetEvent := ⟨0, 0, 0, 0, 0, 0, 0, 0, 0, false⟩

/-- The TCP and UDP branches: the exit for a header that cannot be read,
or the two ports. -/
def readPorts (skb : SkBuff) (size : Nat) (code : Int) (e : NetEvent) :
    Int × NetEvent :=
  match skb.probeRead skb.transportHeader.toNat size with
  | none => (code, e)
  | some header =>
      (0, { e with
        srcPort := swap16 (Frame.raw16 (header 0) (header 1))
        dstPort := swap16 (Frame.raw16 (header 2) (header 3)) })

/-- `parse_pack`. -/
def parsePack (skb : Option SkBuff) : Int × NetEvent :=
  match skb with
  | none => (-1, clearedEvent)
  | some skb =>
      let e := { clearedEvent with packetSize := skb.dataLen }
      match skb.probeRead skb.networkHeader.toNat sizeofIphdr with
      | none => (-2, e)
      | some ip =>
          if ip 0 >>> 4 ≠ 4 then (-2, e)
          else
            let e := { e with
              srcIp := Frame.raw32 (ip 12) (ip 13) (ip 14) (ip 15)
              dstIp := Frame.raw32 (ip 16) (ip 17) (ip 18) (ip 19)
              protocol := ip 9 }
            if ip 9 = IPPROTO_TCP then
              readPorts skb sizeofTcphdr (-4) e
            else if ip 9 = IPPROTO_UDP then
              readPorts skb sizeofUdphdr (-5) e
            else (0, { e with srcPort := 0, dstPort := 0 })

end Tracepoint

end XdpIds.Listener
