/-
count_IPs_xdp.usr.c: what the dump prints.

# A key

`decode` turns a key back into the two columns of a row: its halves as
dotted addresses, or, where they are the pair that stands for an error,
the error's name.

# The loop

The program stays attached while the map is dumped, so the loop's steps
interleave with the kernel's. The loop asks for the key after the last
one it was given and looks its entry up into a buffer; the result of the
lookup is not looked at, so the buffer of a key that is gone keeps what
the row before it, or nobody, put there. The kernel inserts, adds and
evicts. The map has an order, the hash table's, and an insert goes
anywhere in it.
-/
import XdpIds.CountIps.Count
import XdpIds.Lib.Cursor
import XdpIds.Lib.Transition

namespace XdpIds.CountIps

open Cursor

-- ==================================================================== a key

/-- An address as it is printed. -/
def dotted (b₀ b₁ b₂ b₃ : UInt8) : String :=
  toString b₀.toNat ++ "." ++ toString b₁.toNat ++ "." ++ toString b₂.toNat
    ++ "." ++ toString b₃.toNat

/-- `inet_ntop(AF_INET, ..)`: the bytes of the address in memory
order. -/
def inetNtop (a : UInt32) : String :=
  dotted a.toUInt8 (a >>> 8).toUInt8 (a >>> 16).toUInt8 (a >>> 24).toUInt8

/-- The `switch` on an error's code. Its `0xFF` case falls through to the
default. -/
def errorName (code : UInt32) : String :=
  if code = 0x01 then "1:TooShortEth"
  else if code = 0x02 then "2:NotIP"
  else if code = 0x03 then "3:TooShortIP"
  else "UNKNOWN"

/-- `src_ip_str` and `dst_ip_str` of a key. -/
def decode (key : UInt64) : String × String :=
  let srcIp := (key >>> 32).toUInt32
  let dstIp := (key &&& 0xFFFFFFFF).toUInt32
  if srcIp = 0x00051212 ∧ dstIp &&& 0xFFFFFF00 = 0x0f120000 then
    ("ERROR", errorName (dstIp &&& 0xFF))
  else (inetNtop srcIp, inetNtop dstIp)

-- ================================================================= the loop

/-- Where the dump is: about to ask for the key after `key`, or about to
look `nextKey` up, or through. -/
inductive DumpPhase where
  | next (key : Option UInt64)
  | lookup (nextKey : UInt64)
  | ended
deriving DecidableEq, Repr

/-- The map, the loop's place in it, its value buffer, and the keys and
values of the rows printed so far. -/
structure DumpState where
  table : Table UInt64 IpCount
  phase : DumpPhase
  value : IpCount
  rows : List (UInt64 × IpCount)

/-- On entry: whatever the map and the uninitialised buffer hold. -/
def DumpState.start (table : Table UInt64 IpCount) (value : IpCount) :
    DumpState :=
  ⟨table, .next none, value, []⟩

/-- The loop's next step, or one of the kernel's: an insert at a place of
the order, one of the two additions, an eviction. -/
inductive DumpMove where
  | dump
  | insert (key : UInt64) (pktSize : UInt32) (place : Nat)
  | addCount (key : UInt64)
  | addBytes (key : UInt64) (pktSize : UInt32)
  | evict (key : UInt64)
deriving DecidableEq, Repr

/-- `bpf_map_get_next_key`, or `bpf_map_lookup_elem` and the row. -/
def DumpState.dump (s : DumpState) : Option DumpState :=
  match s.phase with
  | .next key =>
      match s.table.nextKey key with
      | some k => some { s with phase := .lookup k }
      | none => some { s with phase := .ended }
  | .lookup k =>
      let value := (s.table.get k).getD s.value
      some { s with
        value := value
        rows := s.rows ++ [(k, value)]
        phase := .next (some k) }
  | .ended => none

/-- What a kernel step makes of the map. -/
def kernelMove (t : Table UInt64 IpCount) :
    DumpMove → Table UInt64 IpCount
  | .dump => t
  | .insert key pktSize place => t.insertAt place key (.create pktSize)
  | .addCount key => t.modify key .addCount
  | .addBytes key pktSize => t.modify key (·.addBytes pktSize)
  | .evict key => t.erase key

/-- One step of the loop or of the kernel. -/
def dumpStep (s : DumpState) : DumpMove → Option DumpState
  | .dump => s.dump
  | move => some { s with table := kernelMove s.table move }

end XdpIds.CountIps
