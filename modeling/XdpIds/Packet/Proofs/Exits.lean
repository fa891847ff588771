/-
`parse_update` against the report: with a port feature selected it
returns the code of a parser that looks for the transport header behind
20 bytes of IP header (`parseUpdate_exit`), and what it accepts it
accepts with the ports found there.
-/
import XdpIds.Packet.Proofs.Parse

namespace XdpIds

variable {b : Build} {mask : BitVec 64} {f : Frame} {timeNow : UInt64}
  {s : ParseState b}

/-- The transport branches by their code. -/
theorem Build.ports_exit (hport : b.portsSelected = true) (f : Frame) :
    b.ports f = if f.transportExit transportOffset = 0 then
        .ok (f.portsAt transportOffset)
      else .error (f.transportExit transportOffset) := by
  rcases f.transport_cases transportOffset with
    ⟨hproto, hlen⟩ | ⟨hproto, hlen⟩ | hheader | hnone
  · rw [transportExit_tcp hproto hlen, Build.ports, if_pos hproto,
      if_pos hlen]
    rfl
  · rw [transportExit_udp hproto hlen, Build.ports, hproto,
      if_neg udp_ne_tcp, hport, if_pos (by decide), if_pos hlen]
    rfl
  · rw [hheader.exit, hheader.portsAt, if_pos rfl, Build.ports]
    rcases hheader with ⟨hproto, hlen⟩ | ⟨hproto, hlen⟩
    · rw [if_pos hproto, if_neg (Nat.not_lt.mpr hlen)]
    · rw [hproto, if_neg udp_ne_tcp, hport, if_pos (by decide),
        if_neg (Nat.not_lt.mpr hlen)]
  · rw [transportExit_none hnone, portsAt_none hnone, if_pos rfl,
      Build.ports, if_neg fun h => hnone (.inl h),
      if_neg fun h => hnone (.inr (by simpa [hport] using h))]

/-- The code `parse_update` returns, and what it leaves when that is
0. -/
theorem parseUpdate_exit (hb : b.Declares mask)
    (hport : PortsSelected mask) (f : Frame) (timeNow : UInt64)
    (s : ParseState b) :
    ∃ s', parseUpdate b f timeNow s = .ok (f.exitAt transportOffset, s')
      ∧ (f.exitAt transportOffset = 0 →
        s' = accepted mask f timeNow (f.portsAt transportOffset).1
          (f.portsAt transportOffset).2 s) := by
  unfold Frame.exitAt
  by_cases hheader : f.headerExit = 0
  case neg =>
    rw [if_neg hheader, parseUpdate_header hheader]
    exact ⟨s, rfl, fun h => absurd h hheader⟩
  rw [if_pos hheader, parseUpdate_ip hb (headerExit_zero_iff.mp hheader),
    portsSeen_needed hb (.inl hport),
    Build.ports_exit (hb.portsSelected_iff.mpr hport)]
  by_cases hexit : f.transportExit transportOffset = 0
  · rw [if_pos hexit, hexit]
    exact ⟨_, rfl, fun _ => rfl⟩
  · rw [if_neg hexit]
    exact ⟨_, rfl, fun h => absurd h hexit⟩

-- ============================================================ packet features

/-- The flow stage writes no packet feature. -/
theorem lastWrite_flowOf {n : Feature} (hpacket : n.isFlow = false)
    (old : Option UInt32) (sport dport : UInt16) (flows : FlowMap) :
    lastWrite n old (flowOf f timeNow sport dport flows).2 = old := by
  unfold flowOf
  cases flows (flowKey f.saddr sport f.daddr dport) with
  | none => cases n <;> first | rfl | cases hpacket
  | some fi => cases n <;> first | rfl | cases hpacket

/-- The slot of a selected packet feature, once the packet is
accepted. -/
theorem accepted_slot (hb : b.Declares mask) {n : Feature}
    (hsel : Selected mask n) (hpacket : n.isFlow = false)
    (sport dport : UInt16) (s : ParseState b) :
    (accepted mask f timeNow sport dport s).fv[rank mask n.bit]?
      = lastWrite n (s.fv[rank mask n.bit]?)
        (ipWrites f ++ portWrites sport dport) := by
  unfold accepted
  rw [putSlots_slot hb.room hsel, lastWrite_append]
  by_cases hflow : FlowSelected mask
  · rw [if_pos hflow, lastWrite_flowOf hpacket]
  · rw [if_neg hflow]
    rfl

end XdpIds
