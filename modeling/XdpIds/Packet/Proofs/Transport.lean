/-
The ports the tree decides on, against the packet's ports.

`ip->ihl` says how long the IP header is, and the transport header
starts behind it. `parse_update` always looks behind 20 bytes, so on a
packet with IP options the port slots hold bytes of the options, unless
these happen to repeat the ports (`portSlots_iff`).
-/
import XdpIds.Packet.Proofs.Exits

namespace XdpIds

variable {b : Build} {mask : BitVec 64} {f : Frame} {timeNow : UInt64}

/-- A TCP or UDP packet over IPv4, options and transport header in
full. -/
structure Frame.Whole (f : Frame) : Prop where
  proto : f.hProto = swap16 ETH_P_IP
  ihl : 5 ≤ f.ihl
  header : f.HeaderAt f.transport

/-- `parse_update` accepts the packet and both port slots hold its
ports. -/
def PortSlots (b : Build) (f : Frame) (timeNow : UInt64)
    (s : ParseState b) : Prop :=
  ∃ s', parseUpdate b f timeNow s = .ok (0, s')
    ∧ s'.fv[0]? = some f.ports.1.toUInt32
    ∧ s'.fv[1]? = some f.ports.2.toUInt32

/-- A header behind at least 20 bytes of IP header is within reach of a
parser that looks there. -/
theorem Frame.HeaderAt.fixed (h : f.HeaderAt f.transport)
    (hihl : 5 ≤ f.ihl) : f.HeaderAt transportOffset := by
  have hle : transportOffset ≤ f.transport := by
    unfold transportOffset Frame.transport sizeofIphdr
    omega
  refine h.imp ?_ ?_
  · exact fun ⟨hproto, hlen⟩ => ⟨hproto, by omega⟩
  · exact fun ⟨hproto, hlen⟩ => ⟨hproto, by omega⟩

/-- Such a packet gets past every check. -/
theorem Frame.Whole.exit (h : f.Whole) : f.exitAt transportOffset = 0 := by
  have hfixed := h.header.fixed h.ihl
  have hlen : sizeofEthhdr + sizeofIphdr ≤ f.len := by
    show transportOffset ≤ f.len
    rcases hfixed with ⟨-, hlen⟩ | ⟨-, hlen⟩ <;> omega
  rw [Frame.exitAt, headerExit_ip h.proto hlen, if_pos rfl, hfixed.exit]

/-- The port slots hold the packet's ports exactly when the bytes behind
20 bytes of IP header are the port bytes of the packet. -/
theorem portSlots_iff (hb : b.Declares mask) (hsport : Selected mask .sPort)
    (hdport : Selected mask .dPort) (hf : f.Whole) (timeNow : UInt64)
    (s : ParseState b) :
    PortSlots b f timeNow s
      ↔ f.net16 transportOffset = f.net16 f.transport
        ∧ f.net16 (transportOffset + 2) = f.net16 (f.transport + 2) := by
  have hrank₁ : rank mask Feature.dPort.bit = 1 := by
    have hbit : mask.getLsbD 0 = true := hsport
    show Nat.count (fun i => mask.getLsbD i) 1 = 1
    rw [Nat.count_succ, if_pos hbit]
    rfl
  obtain ⟨s', hrun, hleaves⟩ :=
    parseUpdate_exit hb (.inl hsport) f timeNow s
  have hs := hleaves hf.exit
  rw [(hf.header.fixed hf.ihl).portsAt] at hs
  rw [hf.exit] at hrun
  have hread₀ : s'.fv[0]? = some (f.net16 transportOffset).toUInt32 := by
    rw [hs]
    exact accepted_slot hb hsport rfl _ _ s
  have hread₁ : s'.fv[rank mask Feature.dPort.bit]?
      = some (f.net16 (transportOffset + 2)).toUInt32 := by
    rw [hs]
    exact accepted_slot hb hdport rfl _ _ s
  rw [hrank₁] at hread₁
  have hports : PortSlots b f timeNow s
      ↔ s'.fv[0]? = some f.ports.1.toUInt32
        ∧ s'.fv[1]? = some f.ports.2.toUInt32 := by
    unfold PortSlots
    rw [hrun]
    constructor
    · rintro ⟨t, ht, hread⟩
      obtain rfl := (Prod.mk.inj (Except.ok.inj ht)).2
      exact hread
    · exact fun hread => ⟨s', rfl, hread⟩
  rw [hports, hread₀, hread₁, Option.some.injEq, Option.some.injEq,
    UInt16.toUInt32_inj, UInt16.toUInt32_inj]
  rfl

/-- On a packet without options they do. -/
theorem portSlots_udpFrom :
    PortSlots (.ofNames Feature.shipped) (udpFrom 68) 0
        ⟨.replicate _ 0, fun _ => none, none⟩
      ↔ (udpFrom 68).net16 transportOffset
          = (udpFrom 68).net16 (udpFrom 68).transport
        ∧ (udpFrom 68).net16 (transportOffset + 2)
          = (udpFrom 68).net16 ((udpFrom 68).transport + 2) := by
  have hwhole : (udpFrom 68).Whole :=
    ⟨rfl, by decide, .inr ⟨rfl, by decide⟩⟩
  exact portSlots_iff (Build.ofNames_declares _) (by decide) (by decide)
    hwhole 0 _

/-- A UDP packet from port 68 to port 53 with four bytes of IP
options. -/
def optionsUdp : Frame where
  bytes := List.replicate 12 0 ++ [0x08, 0x00, 0x46] ++ List.replicate 8 0
    ++ [17, 0, 0, 192, 168, 1, 10, 192, 168, 1, 1]
    ++ [1, 1, 1, 0] ++ [0, 68, 0, 53, 0, 8, 0, 0]
  len_lt := by decide

theorem optionsUdp_whole : optionsUdp.Whole :=
  ⟨rfl, by decide, .inr ⟨rfl, by decide⟩⟩

/-- The options are taken for its ports. -/
theorem options_as_ports :
    optionsUdp.Whole ∧ optionsUdp.version = 4
      ∧ ¬ PortSlots (.ofNames Feature.shipped) optionsUdp 0
        ⟨.replicate _ 0, fun _ => none, none⟩ := by
  refine ⟨optionsUdp_whole, rfl, ?_⟩
  rintro ⟨s', hrun, hslot, -⟩
  have hread : (fun r => r.2.fv[0]?) <$>
      parseUpdate (.ofNames Feature.shipped) optionsUdp 0
        ⟨.replicate _ 0, fun _ => none, none⟩ = .ok (some 0x0101) := rfl
  rw [hrun] at hread
  have hport := hslot.symm.trans (Except.ok.inj hread)
  exact absurd hport (by decide)

end XdpIds
