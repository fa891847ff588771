/-
Frames and the loads the parsers make from them.

A frame is the bytes between `ctx->data` and `ctx->data_end`; the two
are `__u32` fields, so its length fits in 32 bits. Every load is checked
against the end of the frame: a parser that reads past it faults, and a
proof that it returns is a proof that it does not.

The host is little-endian (the Makefile builds for x86), so a raw load
of a header field has its bytes swapped against the network's order, and
`bpf_ntohs` swaps them back.
-/
import Mathlib.Data.List.Basic
import Mathlib.Algebra.Order.Ring.Nat

namespace XdpIds

-- ======================================================= faults and frames

/-- What a kernel program must never do. -/
inductive Fault where
  /-- A load or store outside the frame or the feature vector. -/
  | outOfBounds
  /-- A loop that never ends. -/
  | diverges
  /-- A function left without returning its value. -/
  | noReturn
deriving DecidableEq, Repr

/-- A computation of a kernel program. -/
abbrev Exec := Except Fault

/-- What ran to its end ran each of its parts to the end. -/
theorem Exec.bind_ok {α β : Type} {x : Exec α} {k : α → Exec β} {r : β}
    (h : x >>= k = .ok r) : ∃ a, x = .ok a ∧ k a = .ok r := by
  cases x with
  | error e => cases h
  | ok a => exact ⟨a, rfl, h⟩

/-- The packet data of an XDP context. -/
structure Frame where
  bytes : List UInt8
  len_lt : bytes.length < 2 ^ 32

namespace Frame

/-- `data_end - data`. -/
def len (f : Frame) : Nat := f.bytes.length

/-- `data_end - data` as a 32-bit size. -/
def size (f : Frame) : UInt32 := UInt32.ofNat f.len

/-- The byte at an offset, 0 past the end. -/
def byte (f : Frame) (i : Nat) : UInt8 := f.bytes.getD i 0

-- ==================================================================== loads

/-- Load one byte. -/
def load8 (f : Frame) (i : Nat) : Exec UInt8 :=
  match f.bytes[i]? with
  | some b => .ok b
  | none => .error .outOfBounds

/-- A raw 16-bit value from its bytes in memory order. -/
def raw16 (b₀ b₁ : UInt8) : UInt16 :=
  UInt16.ofNat (b₀.toNat + 2 ^ 8 * b₁.toNat)

/-- A raw 32-bit value from its bytes in memory order. -/
def raw32 (b₀ b₁ b₂ b₃ : UInt8) : UInt32 :=
  UInt32.ofNat (b₀.toNat + 2 ^ 8 * b₁.toNat + 2 ^ 16 * b₂.toNat
    + 2 ^ 24 * b₃.toNat)

/-- Load a raw 16-bit field. -/
def load16 (f : Frame) (i : Nat) : Exec UInt16 := do
  let b₀ ← f.load8 i
  let b₁ ← f.load8 (i + 1)
  return raw16 b₀ b₁

/-- Load a raw 32-bit field. -/
def load32 (f : Frame) (i : Nat) : Exec UInt32 := do
  let b₀ ← f.load8 i
  let b₁ ← f.load8 (i + 1)
  let b₂ ← f.load8 (i + 2)
  let b₃ ← f.load8 (i + 3)
  return raw32 b₀ b₁ b₂ b₃

/-- The raw 16-bit field at an offset. -/
def word16 (f : Frame) (i : Nat) : UInt16 := raw16 (f.byte i) (f.byte (i + 1))

/-- The raw 32-bit field at an offset. -/
def word32 (f : Frame) (i : Nat) : UInt32 :=
  raw32 (f.byte i) (f.byte (i + 1)) (f.byte (i + 2)) (f.byte (i + 3))

variable {f : Frame} {i : Nat}

theorem size_toNat (f : Frame) : f.size.toNat = f.len :=
  UInt32.toNat_ofNat_of_lt' f.len_lt

theorem load8_eq (h : i < f.len) : f.load8 i = .ok (f.byte i) := by
  unfold load8 byte
  rw [List.getElem?_eq_getElem h, List.getD_eq_getElem?_getD,
    List.getElem?_eq_getElem h, Option.getD_some]

theorem load16_eq (h : i + 2 ≤ f.len) : f.load16 i = .ok (f.word16 i) := by
  rw [load16, load8_eq (by omega), load8_eq (by omega)]
  rfl

theorem load32_eq (h : i + 4 ≤ f.len) : f.load32 i = .ok (f.word32 i) := by
  rw [load32, load8_eq (by omega), load8_eq (by omega),
    load8_eq (by omega), load8_eq (by omega)]
  rfl

end Frame

-- ============================================================== byte order

/-- `bpf_ntohs` and `bpf_htons` on a little-endian host. -/
def swap16 (x : UInt16) : UInt16 :=
  UInt16.ofNat (x.toNat % 2 ^ 8 * 2 ^ 8 + x.toNat / 2 ^ 8)

/-- A big-endian 16-bit value: the network's reading of two bytes. -/
def be16 (b₀ b₁ : UInt8) : UInt16 :=
  UInt16.ofNat (2 ^ 8 * b₀.toNat + b₁.toNat)

/-- `bpf_ntohs` of a raw load is the network's reading. -/
theorem swap16_raw16 (b₀ b₁ : UInt8) :
    swap16 (Frame.raw16 b₀ b₁) = be16 b₀ b₁ := by
  have h₀ := b₀.toNat_lt
  have h₁ := b₁.toNat_lt
  unfold swap16 Frame.raw16 be16
  rw [UInt16.toNat_ofNat']
  congr 1
  omega

-- ============================================================ header layout

/-- `sizeof(struct ethhdr)`. -/
def sizeofEthhdr : Nat := 14

/-- `sizeof(struct iphdr)`. -/
def sizeofIphdr : Nat := 20

/-- `sizeof(struct tcphdr)`. -/
def sizeofTcphdr : Nat := 20

/-- `sizeof(struct udphdr)`. -/
def sizeofUdphdr : Nat := 8

/-- `ETH_P_IP`. -/
def ETH_P_IP : UInt16 := 0x0800

/-- `IPPROTO_TCP`. -/
def IPPROTO_TCP : UInt8 := 6

/-- `IPPROTO_UDP`. -/
def IPPROTO_UDP : UInt8 := 17

namespace Frame

/-- `eth->h_proto`. -/
def hProto (f : Frame) : UInt16 := f.word16 12

/-- `ip->protocol`. -/
def protocol (f : Frame) : UInt8 := f.byte (sizeofEthhdr + 9)

/-- `ip->saddr`, as stored. -/
def saddr (f : Frame) : UInt32 := f.word32 (sizeofEthhdr + 12)

/-- `ip->daddr`, as stored. -/
def daddr (f : Frame) : UInt32 := f.word32 (sizeofEthhdr + 16)

/-- `ip->ihl`: the low half of the header's first byte. -/
def ihl (f : Frame) : Nat := (f.byte sizeofEthhdr &&& 0x0F).toNat

/-- `ip->version`: the high half of the same byte. -/
def version (f : Frame) : UInt8 := f.byte sizeofEthhdr >>> 4

/-- The big-endian 16-bit value at an offset. -/
def net16 (f : Frame) (i : Nat) : UInt16 := be16 (f.byte i) (f.byte (i + 1))

/-- Where the IP header says the transport header is. -/
def transport (f : Frame) : Nat := sizeofEthhdr + 4 * f.ihl

/-- The packet's ports, source first: the first two fields of a TCP or
UDP header. -/
def ports (f : Frame) : UInt16 × UInt16 :=
  (f.net16 f.transport, f.net16 (f.transport + 2))

/-- `bpf_ntohs` of the field at an offset. -/
theorem swap16_word16 (f : Frame) (i : Nat) :
    swap16 (f.word16 i) = f.net16 i :=
  swap16_raw16 _ _

end Frame

end XdpIds
