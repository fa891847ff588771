/-
`parse_update` in closed form, for a build with declared ids: which
frames reach which exit, and what each exit leaves behind.

`parseUpdate_header` is the exits before the IP header, which leave
everything alone. `parseUpdate_ip` is the rest: the ports the frame yields under the
build's guards (`portsSeen`), then either the error exit of a truncated
transport header (`rejected`) or the accepted packet (`accepted`), with
the vector as one sequence of slot writes and the flow map updated in at
most one key.

Every result about a frame is read off these; nothing downstream unfolds
the parser.
-/
import XdpIds.Packet.Report
import XdpIds.Packet.Proofs.Slots

namespace XdpIds

variable {b : Build} {mask : BitVec 64} {f : Frame} {timeNow : UInt64}
  {s : ParseState b}

-- =============================================================== selections

/-- A port feature is selected. -/
def PortsSelected (mask : BitVec 64) : Prop :=
  Selected mask .sPort ∨ Selected mask .dPort

/-- A bit of the flow half is selected. -/
def FlowSelected (mask : BitVec 64) : Prop := mask &&& fRangeFlow ≠ 0

instance : Decidable (PortsSelected mask) :=
  inferInstanceAs (Decidable (_ ∨ _))

instance : Decidable (FlowSelected mask) :=
  inferInstanceAs (Decidable (_ ≠ _))

theorem Build.Declares.portsSelected_iff (hb : b.Declares mask) :
    b.portsSelected = true ↔ PortsSelected mask := by
  unfold Build.portsSelected PortsSelected Selected
  rw [hb.features64, hb.id64, hb.id64, bne_iff_ne, BitVec.and_or_distrib_left,
    ← twoPow_and_ne_zero, ← twoPow_and_ne_zero, ← not_and_or,
    BitVec.and_comm mask, BitVec.and_comm mask]
  exact not_congr BitVec.or_eq_zero_iff

theorem Build.Declares.flowSelected_iff (hb : b.Declares mask) :
    b.flowSelected = true ↔ FlowSelected mask := by
  unfold Build.flowSelected FlowSelected
  rw [hb.features64, bne_iff_ne]

theorem getLsbD_fRangeFlow {i : Nat} (hi : i < 64) :
    fRangeFlow.getLsbD i = decide (32 ≤ i) := by
  have hrange : fRangeFlow = BitVec.allOnes 64 <<< 32 := by decide
  rw [hrange, BitVec.getLsbD_shiftLeft, BitVec.getLsbD_allOnes]
  rcases Nat.lt_or_ge i 32 with hlow | hhigh
  · simp [hlow]
  · simp [hi, hhigh, show i - 32 < 64 by omega]

/-- The flow range is the high half of the mask. -/
theorem flowSelected_iff_bit :
    FlowSelected mask ↔ ∃ i, 32 ≤ i ∧ mask.getLsbD i = true := by
  constructor
  · intro hne
    by_contra hnone
    apply hne
    apply BitVec.eq_of_getLsbD_eq
    intro i hi
    rw [BitVec.getLsbD_and, getLsbD_fRangeFlow hi]
    cases hbit : mask.getLsbD i with
    | false => simp
    | true =>
        have hlow : ¬ 32 ≤ i := fun hhigh => hnone ⟨i, hhigh, hbit⟩
        simp [hlow]
  · rintro ⟨i, hi, hbit⟩ hzero
    have hand := congrArg (·.getLsbD i) hzero
    simp only [BitVec.getLsbD_and, hbit,
      getLsbD_fRangeFlow (BitVec.lt_of_getLsbD hbit)] at hand
    simp [hi] at hand

-- ================================================================ the frame

/-- What the transport branches make of a frame. -/
def Build.ports (b : Build) (f : Frame) : Except Int (UInt16 × UInt16) :=
  if f.protocol = IPPROTO_TCP then
    if f.len < transportOffset + sizeofTcphdr then .error (-4)
    else .ok (f.net16 transportOffset, f.net16 (transportOffset + 2))
  else if b.portsSelected && f.protocol = IPPROTO_UDP then
    if f.len < transportOffset + sizeofUdphdr then .error (-5)
    else .ok (f.net16 transportOffset, f.net16 (transportOffset + 2))
  else .ok (0, 0)

/-- The same behind the guard around port parsing. -/
def Build.portsSeen (b : Build) (nete : Option NetEvent) (f : Frame) :
    Except Int (UInt16 × UInt16) :=
  if b.parsesPorts nete then b.ports f else .ok (0, 0)

theorem loadPortPair_eq (h : transportOffset + 4 ≤ f.len) :
    loadPortPair f
      = .ok (f.net16 transportOffset, f.net16 (transportOffset + 2)) := by
  rw [loadPortPair, Frame.load16_eq (by omega), Frame.load16_eq (by omega),
    ← Frame.swap16_word16, ← Frame.swap16_word16]
  rfl

theorem loadPorts_eq (b : Build) (f : Frame) :
    loadPorts b f f.protocol = .ok (b.ports f) := by
  unfold loadPorts Build.ports
  split_ifs with _ hshort _ hshort
  · rfl
  · rw [loadPortPair_eq (by unfold sizeofTcphdr at hshort; omega)]
    rfl
  · rfl
  · rw [loadPortPair_eq (by unfold sizeofUdphdr at hshort; omega)]
    rfl
  · rfl

/-- A build that needs the ports parses them, watched or not. -/
theorem portsSeen_needed (hb : b.Declares mask)
    (h : PortsSelected mask ∨ FlowSelected mask) (nete : Option NetEvent) :
    b.portsSeen nete f = b.ports f := by
  unfold Build.portsSeen Build.parsesPorts
  rw [if_pos]
  rcases h with h | h
  · rw [hb.portsSelected_iff.mpr h]
    rfl
  · rw [hb.flowSelected_iff.mpr h, Bool.or_true]
    rfl

/-- The codes of the transport branches. -/
theorem Build.ports_error {b : Build} {code : Int}
    (h : b.ports f = .error code) : code = -4 ∨ code = -5 := by
  unfold Build.ports at h
  split_ifs at h
  · exact .inl (Except.error.inj h).symm
  · exact .inr (Except.error.inj h).symm

theorem portsSeen_error {nete : Option NetEvent} {code : Int}
    (h : b.portsSeen nete f = .error code) : code = -4 ∨ code = -5 := by
  unfold Build.portsSeen at h
  split_ifs at h
  exact Build.ports_error h

-- ================================================================ the exits

/-- The writes from the IP header. -/
def ipWrites (f : Frame) : List (Feature × UInt32) :=
  [(.protocol, f.protocol.toUInt32), (.pktSize, f.size)]

/-- The writes from the transport header. -/
def portWrites (sport dport : UInt16) : List (Feature × UInt32) :=
  [(.dPort, dport.toUInt32), (.sPort, sport.toUInt32)]

/-- The debug event once the IP header is known. -/
def ipEvent (f : Frame) (e : NetEvent) : NetEvent :=
  { e with
    dstIp := f.daddr
    srcIp := f.saddr
    protocol := f.protocol
    packetSize := f.size }

/-- The debug event of an accepted packet. -/
def packetEvent (f : Frame) (sport dport : UInt16) (e : NetEvent) :
    NetEvent :=
  { ipEvent f e with dstPort := dport, srcPort := sport }

/-- What a truncated transport header leaves. -/
def rejected (mask : BitVec 64) (f : Frame) (s : ParseState b) :
    ParseState b where
  fv := putSlots mask s.fv (ipWrites f)
  flows := s.flows
  nete := s.nete.map (ipEvent f)

/-- The flow stage's packet, from the entry its key finds. -/
def flowOf (f : Frame) (timeNow : UInt64) (sport dport : UInt16)
    (flows : FlowMap) : FlowInfo × List (Feature × UInt32) :=
  flowPacket (flows (flowKey f.saddr sport f.daddr dport)) timeNow f.len

/-- What an accepted packet leaves. -/
def accepted (mask : BitVec 64) (f : Frame) (timeNow : UInt64)
    (sport dport : UInt16) (s : ParseState b) : ParseState b where
  fv := putSlots mask s.fv (ipWrites f ++ portWrites sport dport
    ++ if FlowSelected mask then (flowOf f timeNow sport dport s.flows).2
      else [])
  flows := if FlowSelected mask then
      Function.update s.flows (flowKey f.saddr sport f.daddr dport)
        (some (flowOf f timeNow sport dport s.flows).1)
    else s.flows
  nete := s.nete.map (packetEvent f sport dport)

/-- Ports are not parsed: nobody selected one, and nobody watches. -/
theorem Build.Declares.parsesPorts_false (hb : b.Declares mask)
    {nete : Option NetEvent} (h : ¬ b.parsesPorts nete = true) :
    ¬ PortsSelected mask ∧ nete = none := by
  unfold Build.parsesPorts at h
  rw [Bool.or_eq_true, Bool.or_eq_true, not_or, not_or] at h
  refine ⟨fun hp => h.1.1 (hb.portsSelected_iff.mpr hp), ?_⟩
  cases nete with
  | none => rfl
  | some e => exact absurd rfl h.2

/-- The flow features onwards, in closed form. -/
theorem parseFlow_eq (hb : b.Declares mask) (sport dport : UInt16) :
    parseFlow f timeNow f.saddr f.daddr sport dport s
      = .ok (0,
        { s with
          fv := putSlots mask s.fv (if FlowSelected mask then
            (flowOf f timeNow sport dport s.flows).2 else [])
          flows := if FlowSelected mask then
              Function.update s.flows (flowKey f.saddr sport f.daddr dport)
                (some (flowOf f timeNow sport dport s.flows).1)
            else s.flows }) := by
  unfold parseFlow
  by_cases hflow : FlowSelected mask
  · rw [if_pos (hb.flowSelected_iff.mpr hflow), if_pos hflow, if_pos hflow]
    unfold flowStage flowOf
    simp only [fvIfUpdates_eq hb]
    rfl
  · rw [if_neg (fun h => hflow (hb.flowSelected_iff.mp h)),
      if_neg hflow, if_neg hflow]
    rfl

/-- From a complete IP header on, in closed form. -/
theorem parseIp_eq (hb : b.Declares mask)
    (hlen : sizeofEthhdr + sizeofIphdr ≤ f.len) :
    parseIp f timeNow s
      = .ok (match b.portsSeen s.nete f with
        | .error code => (code, rejected mask f s)
        | .ok (sport, dport) => (0, accepted mask f timeNow sport dport s)) := by
  unfold sizeofEthhdr sizeofIphdr at hlen
  rw [parseIp, Frame.load8_eq (by unfold sizeofEthhdr; omega),
    Frame.load32_eq (by unfold sizeofEthhdr; omega),
    Frame.load32_eq (by unfold sizeofEthhdr; omega)]
  simp only [fvIfUpdates_eq hb]
  show (if b.parsesPorts s.nete = true then
      loadPorts b f f.protocol >>= _ else parseFlow f timeNow f.saddr f.daddr 0 0 _) = _
  unfold Build.portsSeen
  by_cases hports : b.parsesPorts s.nete = true
  · rw [if_pos hports, if_pos hports, loadPorts_eq]
    cases hp : b.ports f with
    | error code => rfl
    | ok ports =>
        refine (parseFlow_eq hb ports.1 ports.2).trans ?_
        simp only [accepted, putSlots_append]
        cases s.nete <;> rfl
  · rw [if_neg hports, if_neg hports]
    refine (parseFlow_eq hb 0 0).trans ?_
    obtain ⟨hport, hnete⟩ := hb.parsesPorts_false hports
    have hnone : ∀ w ∈ portWrites 0 0, ¬ Selected mask w.1 := by
      intro w hw hsel
      rcases List.mem_pair.mp hw with rfl | rfl
      · exact hport (.inr hsel)
      · exact hport (.inl hsel)
    simp only [accepted, putSlots_append, putSlots_unselected _ hnone, hnete]
    rfl

/-- The exits before the IP header. -/
theorem parseUpdate_header (h : f.headerExit ≠ 0) :
    parseUpdate b f timeNow s = .ok (f.headerExit, s) := by
  have hchecks := headerChecks_eq f (fun code => .ok (code, s))
    (parseIp f timeNow s)
  rw [if_neg h] at hchecks
  exact hchecks

/-- A frame with an IP header: the ports decide the exit. -/
theorem parseUpdate_ip (hb : b.Declares mask) (hip : f.IsIp) :
    parseUpdate b f timeNow s
      = .ok (match b.portsSeen s.nete f with
        | .error code => (code, rejected mask f s)
        | .ok (sport, dport) => (0, accepted mask f timeNow sport dport s)) := by
  have hchecks := headerChecks_eq f (fun code => .ok (code, s))
    (parseIp f timeNow s)
  rw [if_pos (headerExit_zero_iff.mpr hip)] at hchecks
  exact hchecks.trans (parseIp_eq hb hip.len)

-- ============================================================== both exits

/-- Everything a call can do: fail and leave the map alone, or accept
the packet. -/
theorem parseUpdate_cases (hb : b.Declares mask) (f : Frame)
    (timeNow : UInt64) (s : ParseState b) :
    (∃ code s', parseUpdate b f timeNow s = .ok (code, s') ∧ code ≠ 0
        ∧ s'.flows = s.flows)
      ∨ (f.IsIp ∧ ∃ ports, b.portsSeen s.nete f = .ok ports
        ∧ parseUpdate b f timeNow s
          = .ok (0, accepted mask f timeNow ports.1 ports.2 s)) := by
  by_cases hip : f.IsIp
  case neg =>
    have hexit : f.headerExit ≠ 0 := fun h => hip (headerExit_zero_iff.mp h)
    exact .inl ⟨_, s, parseUpdate_header hexit, hexit, rfl⟩
  have hrun := @parseUpdate_ip b mask f timeNow s hb hip
  cases hseen : b.portsSeen s.nete f with
  | error code =>
      rw [hseen] at hrun
      have hcode := portsSeen_error hseen
      exact .inl ⟨code, rejected mask f s, hrun, by omega, rfl⟩
  | ok ports =>
      rw [hseen] at hrun
      exact .inr ⟨hip, ports, rfl, hrun⟩

/-- A call that returns 0 accepted the packet. -/
theorem parseUpdate_zero (hb : b.Declares mask) {s' : ParseState b}
    (h : parseUpdate b f timeNow s = .ok (0, s')) :
    f.IsIp ∧ ∃ ports, b.portsSeen s.nete f = .ok ports
      ∧ s' = accepted mask f timeNow ports.1 ports.2 s := by
  rcases parseUpdate_cases hb f timeNow s with
    ⟨code, t, hrun, hcode, -⟩ | ⟨hip, ports, hseen, hrun⟩
  · rw [hrun] at h
    exact absurd (Prod.mk.inj (Except.ok.inj h)).1 hcode
  · rw [hrun] at h
    exact ⟨hip, ports, hseen, (Prod.mk.inj (Except.ok.inj h)).2.symm⟩

-- ============================================== a UDP packet and a record

/-- A UDP packet between two fixed hosts, from a port below 256 to port
53. -/
def udpFrom (port : UInt8) : Frame where
  bytes := List.replicate 12 0 ++ [0x08, 0x00, 0x45] ++ List.replicate 8 0
    ++ [17, 0, 0, 192, 168, 1, 10, 192, 168, 1, 1]
    ++ [0, port, 0, 53, 0, 8, 0, 0]
  len_lt := by simp

/-- An event's record before the program fills it. -/
def blankEvent : NetEvent := ⟨0, 0, 0, 0, 0, 0, 0, 0, 0, false⟩

theorem udpFrom_len (port : UInt8) : (udpFrom port).len = 42 := rfl

theorem udpFrom_isIp (port : UInt8) : (udpFrom port).IsIp :=
  ⟨by rw [udpFrom_len]; decide, rfl⟩

end XdpIds
