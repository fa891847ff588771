/-
What a parser should say about a frame, for a parser that takes the
transport header to start at a given offset.

Four programs parse frames, each with a parser of its own, and they
differ in one respect that matters: where they look for the TCP or UDP
header. `exitAt` is the code such a parser should return and `reportAt`
what it should fill in when the code is 0, both as functions of the
frame and that offset. Nothing here is translated from a parser; the
parsers are compared with it, and so with each other.
-/
import XdpIds.Packet.Parse

namespace XdpIds

-- ================================================================ the codes

/-- Neither the Ethernet nor the IP header is cut off, and what follows
the addresses is the ethertype of IPv4; the code of the first check that
fails, in the parsers' order. -/
def Frame.headerExit (f : Frame) : Int :=
  if f.len < sizeofEthhdr then -1
  else if ¬ (f.byte 12 = 0x08 ∧ f.byte 13 = 0x00) then -2
  else if f.len < sizeofEthhdr + sizeofIphdr then -3
  else 0

/-- Long enough for an IP header, and of that ethertype. -/
structure Frame.IsIp (f : Frame) : Prop where
  len : sizeofEthhdr + sizeofIphdr ≤ f.len
  proto : f.hProto = swap16 ETH_P_IP

instance (f : Frame) : Decidable f.IsIp :=
  decidable_of_iff
    (sizeofEthhdr + sizeofIphdr ≤ f.len ∧ f.hProto = swap16 ETH_P_IP)
    ⟨fun h => ⟨h.1, h.2⟩, fun h => ⟨h.len, h.proto⟩⟩

/-- The transport header at offset `i` is not cut off. -/
def Frame.transportExit (f : Frame) (i : Nat) : Int :=
  if f.protocol = IPPROTO_TCP ∧ f.len < i + sizeofTcphdr then -4
  else if f.protocol = IPPROTO_UDP ∧ f.len < i + sizeofUdphdr then -5
  else 0

/-- The code of a parser that looks for the transport header at
offset `i`. -/
def Frame.exitAt (f : Frame) (i : Nat) : Int :=
  if f.headerExit = 0 then f.transportExit i else f.headerExit

-- ============================================================== the report

/-- TCP or UDP. -/
def Frame.HasPorts (f : Frame) : Prop :=
  f.protocol = IPPROTO_TCP ∨ f.protocol = IPPROTO_UDP

instance (f : Frame) : Decidable f.HasPorts :=
  inferInstanceAs (Decidable (_ ∨ _))

/-- A whole TCP or UDP header at offset `i`, by the frame's protocol. -/
def Frame.HeaderAt (f : Frame) (i : Nat) : Prop :=
  (f.protocol = IPPROTO_TCP ∧ i + sizeofTcphdr ≤ f.len)
    ∨ (f.protocol = IPPROTO_UDP ∧ i + sizeofUdphdr ≤ f.len)

/-- The ports a transport header at offset `i` has, source first. -/
def Frame.portsAt (f : Frame) (i : Nat) : UInt16 × UInt16 :=
  if f.HasPorts then (f.net16 i, f.net16 (i + 2)) else (0, 0)

/-- The fields of an event that describe its packet. -/
structure Report where
  srcIp : UInt32
  dstIp : UInt32
  srcPort : UInt16
  dstPort : UInt16
  protocol : UInt8
  packetSize : UInt32
deriving DecidableEq, Repr

/-- What an event reports. -/
def NetEvent.report (e : NetEvent) : Report :=
  ⟨e.srcIp, e.dstIp, e.srcPort, e.dstPort, e.protocol, e.packetSize⟩

/-- The report of a parser that looks for the transport header at
offset `i`. -/
def Frame.reportAt (f : Frame) (i : Nat) : Report :=
  ⟨f.saddr, f.daddr, (f.portsAt i).1, (f.portsAt i).2, f.protocol, f.size⟩

-- ========================================================= the header checks

variable {f : Frame} {i : Nat}

/-- The raw ethertype against the swapped constant is the two bytes in
the network's order. -/
theorem hProto_iff :
    f.hProto = swap16 ETH_P_IP ↔ f.byte 12 = 0x08 ∧ f.byte 13 = 0x00 := by
  have h₀ := (f.byte 12).toNat_lt
  have h₁ := (f.byte 13).toNat_lt
  have hconst : swap16 ETH_P_IP = Frame.raw16 0x08 0x00 := by decide
  unfold Frame.hProto Frame.word16
  rw [hconst]
  unfold Frame.raw16
  rw [← UInt16.toNat_inj, UInt16.toNat_ofNat', UInt16.toNat_ofNat',
    ← UInt8.toNat_inj, ← UInt8.toNat_inj]
  show ((f.byte 12).toNat + 2 ^ 8 * (f.byte 13).toNat) % 2 ^ 16
      = (8 + 2 ^ 8 * 0) % 2 ^ 16
    ↔ (f.byte 12).toNat = 8 ∧ (f.byte 13).toNat = 0
  omega

theorem headerExit_short (h : f.len < sizeofEthhdr) : f.headerExit = -1 := by
  rw [Frame.headerExit, if_pos h]

theorem headerExit_notIp (h : sizeofEthhdr ≤ f.len)
    (hproto : f.hProto ≠ swap16 ETH_P_IP) : f.headerExit = -2 := by
  rw [Frame.headerExit, if_neg (Nat.not_lt.mpr h),
    if_pos fun hbytes => hproto (hProto_iff.mpr hbytes)]

theorem headerExit_shortIp (h : sizeofEthhdr ≤ f.len)
    (hproto : f.hProto = swap16 ETH_P_IP)
    (hlen : f.len < sizeofEthhdr + sizeofIphdr) : f.headerExit = -3 := by
  rw [Frame.headerExit, if_neg (Nat.not_lt.mpr h),
    if_neg (not_not.mpr (hProto_iff.mp hproto)), if_pos hlen]

theorem headerExit_ip (hproto : f.hProto = swap16 ETH_P_IP)
    (hlen : sizeofEthhdr + sizeofIphdr ≤ f.len) : f.headerExit = 0 := by
  have heth : sizeofEthhdr ≤ f.len :=
    Nat.le_trans (Nat.le_add_right ..) hlen
  rw [Frame.headerExit, if_neg (Nat.not_lt.mpr heth),
    if_neg (not_not.mpr (hProto_iff.mp hproto)), if_neg (Nat.not_lt.mpr hlen)]

/-- The header checks let through what `IsIp` describes. -/
theorem headerExit_zero_iff : f.headerExit = 0 ↔ f.IsIp := by
  constructor
  · intro h
    by_cases heth : f.len < sizeofEthhdr
    · rw [headerExit_short heth] at h
      cases h
    have heth' := Nat.not_lt.mp heth
    by_cases hproto : f.hProto = swap16 ETH_P_IP
    case neg =>
      rw [headerExit_notIp heth' hproto] at h
      cases h
    refine ⟨Nat.not_lt.mp fun hlen => ?_, hproto⟩
    rw [headerExit_shortIp heth' hproto hlen] at h
    cases h
  · exact fun h => headerExit_ip h.proto h.len

/-- The codes of the header checks. -/
theorem headerExit_cases (f : Frame) :
    f.headerExit = 0 ∨ f.headerExit = -1 ∨ f.headerExit = -2
      ∨ f.headerExit = -3 := by
  unfold Frame.headerExit
  split_ifs <;> simp

/-- The header checks as every parser writes them. -/
theorem headerChecks_eq {α : Type} (f : Frame) (exit : Int → Exec α)
    (ip : Exec α) :
    (if f.len < sizeofEthhdr then exit (-1)
      else do
        let hProto ← f.load16 12
        if hProto ≠ swap16 ETH_P_IP then exit (-2)
        else if f.len < sizeofEthhdr + sizeofIphdr then exit (-3)
        else ip)
      = if f.headerExit = 0 then ip else exit f.headerExit := by
  by_cases heth : f.len < sizeofEthhdr
  · rw [if_pos heth, headerExit_short heth]
    rfl
  have heth' := Nat.not_lt.mp heth
  have hload : f.load16 12 = .ok f.hProto :=
    Frame.load16_eq (by unfold sizeofEthhdr at heth'; omega)
  rw [if_neg heth, hload]
  show (if f.hProto ≠ _ then _ else _) = _
  by_cases hproto : f.hProto = swap16 ETH_P_IP
  case neg =>
    rw [if_pos hproto, headerExit_notIp heth' hproto]
    rfl
  rw [if_neg (not_not.mpr hproto)]
  by_cases hlen : f.len < sizeofEthhdr + sizeofIphdr
  · rw [if_pos hlen, headerExit_shortIp heth' hproto hlen]
    rfl
  · rw [if_neg hlen, headerExit_ip hproto (Nat.not_lt.mp hlen), if_pos rfl]

-- ===================================================== the transport header

theorem udp_ne_tcp : IPPROTO_UDP ≠ IPPROTO_TCP := by decide

/-- A transport header is cut off, or there in full, or none is looked
for. -/
theorem Frame.transport_cases (f : Frame) (i : Nat) :
    (f.protocol = IPPROTO_TCP ∧ f.len < i + sizeofTcphdr)
      ∨ (f.protocol = IPPROTO_UDP ∧ f.len < i + sizeofUdphdr)
      ∨ f.HeaderAt i ∨ ¬ f.HasPorts := by
  unfold Frame.HeaderAt Frame.HasPorts
  rw [← Nat.not_lt, ← Nat.not_lt]
  tauto

theorem transportExit_tcp (hproto : f.protocol = IPPROTO_TCP)
    (hlen : f.len < i + sizeofTcphdr) : f.transportExit i = -4 := by
  rw [Frame.transportExit, if_pos ⟨hproto, hlen⟩]

theorem transportExit_udp (hproto : f.protocol = IPPROTO_UDP)
    (hlen : f.len < i + sizeofUdphdr) : f.transportExit i = -5 := by
  rw [Frame.transportExit,
    if_neg fun h => udp_ne_tcp (hproto.symm.trans h.1),
    if_pos ⟨hproto, hlen⟩]

theorem transportExit_none (h : ¬ f.HasPorts) : f.transportExit i = 0 := by
  rw [Frame.transportExit, if_neg fun ht => h (.inl ht.1),
    if_neg fun hu => h (.inr hu.1)]

theorem Frame.HeaderAt.hasPorts (h : f.HeaderAt i) : f.HasPorts :=
  h.imp And.left And.left

/-- With the transport header in full, nothing is cut off. -/
theorem Frame.HeaderAt.exit (h : f.HeaderAt i) : f.transportExit i = 0 := by
  unfold Frame.transportExit
  rcases h with ⟨hproto, hlen⟩ | ⟨hproto, hlen⟩
  · rw [if_neg fun h => Nat.not_lt.mpr hlen h.2,
      if_neg fun h => udp_ne_tcp (h.1.symm.trans hproto)]
  · rw [if_neg fun h => udp_ne_tcp (hproto.symm.trans h.1),
      if_neg fun h => Nat.not_lt.mpr hlen h.2]

theorem transportExit_zero_iff :
    f.transportExit i = 0 ↔ f.HeaderAt i ∨ ¬ f.HasPorts := by
  constructor
  · intro h
    rcases f.transport_cases i with
      ⟨hproto, hlen⟩ | ⟨hproto, hlen⟩ | hcase
    · rw [transportExit_tcp hproto hlen] at h
      cases h
    · rw [transportExit_udp hproto hlen] at h
      cases h
    · exact hcase
  · rintro (h | h)
    · exact h.exit
    · exact transportExit_none h

theorem Frame.HeaderAt.portsAt (h : f.HeaderAt i) :
    f.portsAt i = (f.net16 i, f.net16 (i + 2)) := by
  rw [Frame.portsAt, if_pos h.hasPorts]

theorem portsAt_none (h : ¬ f.HasPorts) : f.portsAt i = (0, 0) := by
  rw [Frame.portsAt, if_neg h]

end XdpIds
