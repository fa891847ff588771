/-
What the tree is shown of a packet it decides on.

`shown` is a packet's value of a feature from the packet itself and its
flow's history up to it: its own protocol and length, the ports the
transport branches find, and the features of the history. The addresses
and the standard deviations have names and no writer, so they are 0.
`accepted_shown` says that the vector's slots are these, column by
column.
-/
import XdpIds.Packet.Proofs.Columns
import XdpIds.Packet.Proofs.Exits
import XdpIds.Packet.Proofs.Ledger

namespace XdpIds

variable {b : Build} {mask : BitVec 64} {f : Frame} {timeNow : UInt64}
  {ports : UInt16 × UInt16} {h : List Sighting} {q : Sighting}

theorem size_toNat (f : Frame) : f.size.toNat = f.len := by
  rw [Frame.size, UInt32.toNat_ofNat']
  exact Nat.mod_eq_of_lt f.len_lt

end XdpIds
