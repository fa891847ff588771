/-
Three XDP parsers, one verdict: dt_xdp's `parse_update` with the shipped
features and a debug event, net_listener_xdp's `parse_pack`, and
count_IPs_xdp's `parse_update`.

`exitCode` is the code they should all return, down to the bytes and
lengths it depends on. The third stops at the addresses, so it has only
the first three failures. That each returns at all is that it never reads
past the frame.

What the first two fill in is one report, because each fills in the
report of a parser that looks for the transport header behind 20 bytes of
IP header; and the shipped vector is that report's ports, protocol and
size (`shipped_vector`).
-/
import XdpIds.CountIps.Proofs.Key
import XdpIds.Listener.Proofs.Pack

namespace XdpIds.Listener

-- ================================================================= the code

/-- The code of a frame: the first check that fails. -/
def exitCode (f : Frame) : Int :=
  if f.len < 14 then -1
  else if ¬ (f.byte 12 = 0x08 ∧ f.byte 13 = 0x00) then -2
  else if f.len < 34 then -3
  else if f.byte 23 = 6 ∧ f.len < 54 then -4
  else if f.byte 23 = 17 ∧ f.len < 42 then -5
  else 0

theorem exitCode_eq (f : Frame) : exitCode f = f.exitAt transportOffset := by
  have hchecks : exitCode f
      = if f.len < sizeofEthhdr then -1
        else if ¬ (f.byte 12 = 0x08 ∧ f.byte 13 = 0x00) then -2
        else if f.len < sizeofEthhdr + sizeofIphdr then -3
        else f.transportExit transportOffset := rfl
  rw [hchecks]
  unfold Frame.exitAt Frame.headerExit
  by_cases heth : f.len < sizeofEthhdr
  · rw [if_pos heth, if_pos heth]
    rfl
  rw [if_neg heth, if_neg heth]
  by_cases hproto : f.byte 12 = 0x08 ∧ f.byte 13 = 0x00
  case neg =>
    rw [if_pos hproto, if_pos hproto]
    rfl
  rw [if_neg (not_not.mpr hproto), if_neg (not_not.mpr hproto)]
  by_cases hlen : f.len < sizeofEthhdr + sizeofIphdr
  · rw [if_pos hlen, if_pos hlen]
    rfl
  · rw [if_neg hlen, if_neg hlen, if_pos rfl]

/-- The code of a parser that stops at the addresses. -/
theorem headerExit_eq (f : Frame) : f.headerExit
    = if exitCode f = -1 ∨ exitCode f = -2 ∨ exitCode f = -3 then exitCode f
      else 0 := by
  rw [exitCode_eq]
  unfold Frame.exitAt
  by_cases hexit : f.headerExit = 0
  · rw [if_pos hexit, hexit, if_neg]
    unfold Frame.transportExit
    split_ifs <;> decide
  · rw [if_neg hexit,
      if_pos ((headerExit_cases f).resolve_left hexit)]

-- =============================================================== the vector

/-- The shipped vector of an accepted packet, whatever it held. -/
theorem shipped_vector (f : Frame) (timeNow : UInt64) (sport dport : UInt16)
    (s : ParseState (.ofNames Feature.shipped)) :
    (accepted (maskOf Feature.shipped) f timeNow sport dport s).fv.toList
      = [sport.toUInt32, dport.toUInt32, f.protocol.toUInt32, f.size] := by
  have hb := Build.ofNames_declares Feature.shipped
  have hslot : ∀ n ∈ Feature.shipped,
      (accepted (maskOf Feature.shipped) f timeNow sport dport s).fv[
          rank (maskOf Feature.shipped) n.bit]?
        = lastWrite n (s.fv[rank (maskOf Feature.shipped) n.bit]?)
          (ipWrites f ++ portWrites sport dport) := by
    intro n hn
    have hpacket : n.isFlow = false := by
      revert n
      decide
    exact accepted_slot hb ((getLsbD_maskOf _ _).mpr ⟨n, hn, rfl⟩) hpacket ..
  apply List.ext_getElem?
  intro i
  rw [Vector.getElem?_toList]
  match i with
  | 0 => exact hslot .sPort (by decide)
  | 1 => exact hslot .dPort (by decide)
  | 2 => exact hslot .protocol (by decide)
  | 3 => exact hslot .pktSize (by decide)
  | i + 4 =>
      have hlen : (Build.ofNames Feature.shipped).featureNb ≤ i + 4 :=
        Nat.le_add_left 4 i
      simp [hlen]

-- ================================================================ agreement

/-- The parsers accept the same frames and report the same packet. -/
theorem parsers_agree (f : Frame) (timeNow : UInt64)
    (fv : (Build.ofNames Feature.shipped).Fv) (flows : FlowMap)
    (ne e : NetEvent) (slot : UInt64) :
    ∃ s' e' key,
      parseUpdate (.ofNames Feature.shipped) f timeNow ⟨fv, flows, some ne⟩
          = .ok (exitCode f, s')
        ∧ Xdp.parsePack f e = .ok (exitCode f, e')
        ∧ CountIps.parseUpdate f slot
          = .ok (if exitCode f = -1 ∨ exitCode f = -2 ∨ exitCode f = -3 then
              exitCode f else 0, key, f.size)
        ∧ (exitCode f = 0 → ∃ d, s'.nete = some d
          ∧ d.report = f.reportAt transportOffset
          ∧ e'.report = d.report
          ∧ s'.fv.toList = [d.srcPort.toUInt32, d.dstPort.toUInt32,
            d.protocol.toUInt32, UInt32.ofNat f.len]) := by
  have hb := Build.ofNames_declares Feature.shipped
  have hport : PortsSelected (maskOf Feature.shipped) := by decide
  obtain ⟨s', hupdate, haccepted⟩ := parseUpdate_exit hb hport f timeNow
    ⟨fv, flows, some ne⟩
  obtain ⟨e', hpack, hreport⟩ := Xdp.parsePack_parses f e
  have hcount := CountIps.parseUpdate_eq f slot
  rw [headerExit_eq] at hcount
  rw [← exitCode_eq] at hupdate haccepted hpack hreport
  refine ⟨s', e', _, hupdate, hpack, hcount, fun hexit => ?_⟩
  rw [haccepted hexit]
  exact ⟨_, rfl, rfl, hreport hexit, shipped_vector ..⟩

end XdpIds.Listener
