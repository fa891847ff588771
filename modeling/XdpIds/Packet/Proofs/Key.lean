/-
The flow key (dt_xdp.bpf.c's `flow_key` and the ports that reach it).

The packing itself loses nothing: each of the four fields is read back
from its own bits (`flowKey_inj`). What identifies a flow is then what
the ports in the key are. The TCP branch fills them whenever ports are
parsed; the UDP branch has a guard of its own, on the port features
alone, so a build with flow features and no port feature keys every UDP
packet with ports 0 (`keyPorts`).

`flowKey_identifies_iff` is the exact condition under which two packets'
keys agree just when their addresses and ports do.
-/
import XdpIds.Packet.Proofs.Parse

namespace XdpIds

variable {b : Build} {mask : BitVec 64} {f g : Frame}

-- ============================================================== the packing

theorem flowKey_saddr (saddr daddr : UInt32) (sport dport : UInt16) :
    (flowKey saddr sport daddr dport).extractLsb' 96 32 = saddr.toBitVec := by
  ext i hi
  simp [flowKey, BitVec.getElem_extractLsb']
  grind

theorem flowKey_sport (saddr daddr : UInt32) (sport dport : UInt16) :
    (flowKey saddr sport daddr dport).extractLsb' 80 16 = sport.toBitVec := by
  ext i hi
  simp [flowKey, BitVec.getElem_extractLsb']
  grind

theorem flowKey_daddr (saddr daddr : UInt32) (sport dport : UInt16) :
    (flowKey saddr sport daddr dport).extractLsb' 48 32 = daddr.toBitVec := by
  ext i hi
  simp [flowKey, BitVec.getElem_extractLsb']
  grind

theorem flowKey_dport (saddr daddr : UInt32) (sport dport : UInt16) :
    (flowKey saddr sport daddr dport).extractLsb' 32 16 = dport.toBitVec := by
  ext i hi
  simp [flowKey, BitVec.getElem_extractLsb']
  grind

/-- No two address and port quadruples share a key. -/
theorem flowKey_inj {saddr saddr' daddr daddr' : UInt32}
    {sport sport' dport dport' : UInt16} :
    flowKey saddr sport daddr dport = flowKey saddr' sport' daddr' dport'
      ↔ (saddr = saddr' ∧ daddr = daddr') ∧ sport = sport'
        ∧ dport = dport' := by
  constructor
  · intro h
    refine ⟨⟨?_, ?_⟩, ?_, ?_⟩
    · apply UInt32.toBitVec_inj.mp
      rw [← flowKey_saddr saddr daddr sport dport, h, flowKey_saddr]
    · apply UInt32.toBitVec_inj.mp
      rw [← flowKey_daddr saddr daddr sport dport, h, flowKey_daddr]
    · apply UInt16.toBitVec_inj.mp
      rw [← flowKey_sport saddr daddr sport dport, h, flowKey_sport]
    · apply UInt16.toBitVec_inj.mp
      rw [← flowKey_dport saddr daddr sport dport, h, flowKey_dport]
  · rintro ⟨⟨rfl, rfl⟩, rfl, rfl⟩
    rfl

-- ================================================================= the key

/-- Every run of `parse_update` on the frame returns 0 and leaves an
entry at this key, changing no other. -/
def AccountedTo (b : Build) (f : Frame) (key : BitVec 128) : Prop :=
  ∀ timeNow (s : ParseState b), ∃ s' fi,
    parseUpdate b f timeNow s = .ok (0, s')
      ∧ s'.flows = Function.update s.flows key (some fi)

/-- A frame reaches the flow stage when its headers parse, and its key is
then packed from the ports they gave. -/
theorem accountedTo_iff (hb : b.Declares mask) (hflow : FlowSelected mask)
    {key : BitVec 128} :
    AccountedTo b f key ↔ f.IsIp ∧ ∃ ports, b.ports f = .ok ports
      ∧ key = flowKey f.saddr ports.1 f.daddr ports.2 := by
  constructor
  · intro h
    obtain ⟨s', fi, hrun, hflows⟩ :=
      h 0 ⟨.replicate b.featureNb 0, fun _ => none, none⟩
    obtain ⟨hip, ports, hseen, rfl⟩ := parseUpdate_zero hb hrun
    rw [portsSeen_needed hb (.inr hflow)] at hseen
    refine ⟨hip, ports, hseen, ?_⟩
    -- only the key's own entry exists afterwards
    by_contra hne
    have hentry := congrFun hflows (flowKey f.saddr ports.1 f.daddr ports.2)
    simp only [accepted, if_pos hflow, Function.update_self] at hentry
    rw [Function.update_of_ne (Ne.symm hne)] at hentry
    cases hentry
  · rintro ⟨hip, ports, hports, rfl⟩ timeNow s
    refine ⟨accepted mask f timeNow ports.1 ports.2 s,
      (flowOf f timeNow ports.1 ports.2 s.flows).1, ?_, ?_⟩
    · rw [parseUpdate_ip hb hip, portsSeen_needed hb (.inr hflow), hports]
    · simp only [accepted, if_pos hflow]

-- ======================================================= TCP and UDP packets

/-- A TCP or UDP packet over a 20-byte IP header, its transport header
complete. -/
structure Frame.Transports (f : Frame) : Prop where
  ihl : f.ihl = 5
  header : (f.protocol = IPPROTO_TCP ∧ f.transport + sizeofTcphdr ≤ f.len)
    ∨ (f.protocol = IPPROTO_UDP ∧ f.transport + sizeofUdphdr ≤ f.len)

/-- The quadruple the map's comment documents as the key. -/
def Frame.endpoints (f : Frame) : (UInt32 × UInt32) × (UInt16 × UInt16) :=
  ((f.saddr, f.daddr), f.ports)

/-- The ports in the key: the packet's own, except for a UDP packet that
nobody selected a port of. -/
def keyPorts (mask : BitVec 64) (f : Frame) : UInt16 × UInt16 :=
  if f.protocol = IPPROTO_UDP ∧ ¬ PortsSelected mask then (0, 0) else f.ports

/-- With a port feature selected every key holds the packet's ports. -/
theorem keyPorts_selected (hport : PortsSelected mask) (f : Frame) :
    keyPorts mask f = f.ports := by
  rw [keyPorts, if_neg fun h => h.2 hport]

theorem keyPorts_tcp (hproto : f.protocol = IPPROTO_TCP) :
    keyPorts mask f = f.ports := by
  rw [keyPorts, hproto, if_neg fun h => absurd h.1 (by decide)]

theorem keyPorts_udp (hport : ¬ PortsSelected mask)
    (hproto : f.protocol = IPPROTO_UDP) : keyPorts mask f = (0, 0) := by
  rw [keyPorts, if_pos ⟨hproto, hport⟩]

/-- On such a packet the transport branches yield the key's ports. -/
theorem Frame.Transports.ports (h : f.Transports) (hb : b.Declares mask) :
    b.ports f = .ok (keyPorts mask f) := by
  have hoffset : f.transport = transportOffset := by
    rw [Frame.transport, h.ihl]
    rfl
  have hown : f.ports
      = (f.net16 transportOffset, f.net16 (transportOffset + 2)) := by
    rw [Frame.ports, hoffset]
  have hheader := h.header
  rw [hoffset] at hheader
  unfold Build.ports
  rcases hheader with ⟨hproto, hlen⟩ | ⟨hproto, hlen⟩
  · rw [if_pos hproto, if_neg (Nat.not_lt.mpr hlen), keyPorts_tcp hproto,
      hown]
  · rw [if_neg (show ¬ f.protocol = IPPROTO_TCP by rw [hproto]; decide)]
    by_cases hport : PortsSelected mask
    · rw [hb.portsSelected_iff.mpr hport, hproto, if_pos (by decide),
        if_neg (Nat.not_lt.mpr hlen), keyPorts_selected hport, hown]
    · rw [Bool.eq_false_iff.mpr fun h => hport (hb.portsSelected_iff.mp h),
        if_neg (by simp), keyPorts_udp hport hproto]

/-- The pairs of packets the key treats as documented: a port feature is
selected, or the addresses alone tell them apart, or both are TCP, or
both are UDP with the same ports, or one is TCP and its ports are 0 just
when they are the other's. -/
def WellKeyed (mask : BitVec 64) (f g : Frame) : Prop :=
  PortsSelected mask ∨ (f.saddr, f.daddr) ≠ (g.saddr, g.daddr)
    ∨ (f.protocol = IPPROTO_TCP ∧ g.protocol = IPPROTO_TCP)
    ∨ (f.protocol = IPPROTO_UDP ∧ g.protocol = IPPROTO_UDP
      ∧ f.ports = g.ports)
    ∨ (f.protocol = IPPROTO_TCP ∧ g.protocol = IPPROTO_UDP
      ∧ (f.ports = (0, 0) ↔ f.ports = g.ports))
    ∨ (f.protocol = IPPROTO_UDP ∧ g.protocol = IPPROTO_TCP
      ∧ (g.ports = (0, 0) ↔ f.ports = g.ports))

/-- Pairs of equal addresses, without port features: the ports in the
keys agree with the packets' just when the pair is well keyed. -/
theorem keyPorts_agree_iff (hf : f.Transports) (hg : g.Transports)
    (hport : ¬ PortsSelected mask)
    (haddr : (f.saddr, f.daddr) = (g.saddr, g.daddr)) :
    (keyPorts mask f = keyPorts mask g ↔ f.ports = g.ports)
      ↔ WellKeyed mask f g := by
  have hdiff : ¬ (IPPROTO_TCP = IPPROTO_UDP) := by decide
  unfold WellKeyed
  rcases hf.header with ⟨hft, -⟩ | ⟨hfu, -⟩
  · rcases hg.header with ⟨hgt, -⟩ | ⟨hgu, -⟩
    · rw [keyPorts_tcp hft, keyPorts_tcp hgt]
      exact iff_of_true Iff.rfl (.inr (.inr (.inl ⟨hft, hgt⟩)))
    · rw [keyPorts_tcp hft, keyPorts_udp hport hgu, hft, hgu]
      simp [hport, haddr, hdiff, Ne.symm hdiff]
  · rcases hg.header with ⟨hgt, -⟩ | ⟨hgu, -⟩
    · rw [keyPorts_udp hport hfu, keyPorts_tcp hgt, hfu, hgt]
      simp [hport, haddr, hdiff, Ne.symm hdiff]
      exact eq_comm
    · rw [keyPorts_udp hport hfu, keyPorts_udp hport hgu, hfu, hgu]
      simp [hport, haddr, Ne.symm hdiff]

/-- Two packets' keys agree just when their addresses and ports do, if
and only if the pair is well keyed. -/
theorem flowKey_identifies_iff {mask : BitVec 64} {f g : Frame}
    {kf kg : BitVec 128} (hflow : FlowSelected mask) (hf : f.Transports)
    (hg : g.Transports) (hkf : AccountedTo (.ofMask mask) f kf)
    (hkg : AccountedTo (.ofMask mask) g kg) :
    (kf = kg ↔ f.endpoints = g.endpoints) ↔ WellKeyed mask f g := by
  have hb := Build.ofMask_declares mask
  obtain ⟨-, pf, hpf, rfl⟩ := (accountedTo_iff hb hflow).mp hkf
  obtain ⟨-, pg, hpg, rfl⟩ := (accountedTo_iff hb hflow).mp hkg
  rw [hf.ports hb] at hpf
  rw [hg.ports hb] at hpg
  obtain rfl := Except.ok.inj hpf
  obtain rfl := Except.ok.inj hpg
  have hkeys : flowKey f.saddr (keyPorts mask f).1 f.daddr (keyPorts mask f).2
        = flowKey g.saddr (keyPorts mask g).1 g.daddr (keyPorts mask g).2
      ↔ (f.saddr, f.daddr) = (g.saddr, g.daddr)
        ∧ keyPorts mask f = keyPorts mask g := by
    rw [flowKey_inj, Prod.ext_iff, Prod.ext_iff]
  rw [hkeys, Frame.endpoints, Frame.endpoints, Prod.mk.injEq (f.saddr, f.daddr)]
  by_cases haddr : (f.saddr, f.daddr) = (g.saddr, g.daddr)
  · by_cases hport : PortsSelected mask
    · rw [keyPorts_selected hport, keyPorts_selected hport]
      exact iff_of_true Iff.rfl (.inl hport)
    · rw [← keyPorts_agree_iff hf hg hport haddr]
      simp [haddr]
  · refine iff_of_true ?_ (.inr (.inl haddr))
    simp [haddr]

-- =========================================================== two UDP packets

theorem udpFrom_transports (port : UInt8) : (udpFrom port).Transports := by
  have hihl : (udpFrom port).ihl = 5 := by
    show ((0x45 : UInt8) &&& 0x0F).toNat = 5
    decide
  refine ⟨hihl, .inr ⟨rfl, ?_⟩⟩
  rw [udpFrom_len, Frame.transport, hihl]
  decide

/-- The key of such a packet when the packet count is selected and no
port is: the addresses alone. -/
def unportedKey : BitVec 128 :=
  flowKey (udpFrom 0).saddr 0 (udpFrom 0).daddr 0

theorem udpFrom_accountedTo (port : UInt8) :
    AccountedTo (.ofMask (maskOf [.pktNb])) (udpFrom port) unportedKey := by
  have hb := Build.ofMask_declares (maskOf [.pktNb])
  have hsaddr : (udpFrom port).saddr = (udpFrom 0).saddr := rfl
  have hdaddr : (udpFrom port).daddr = (udpFrom 0).daddr := rfl
  refine (accountedTo_iff hb (by decide)).mpr
    ⟨udpFrom_isIp port, (0, 0), ?_, ?_⟩
  · rw [(udpFrom_transports port).ports hb, keyPorts_udp (by decide) rfl]
  · rw [hsaddr, hdaddr]
    rfl

theorem flowKey_identifies_udpFrom :
    (unportedKey = unportedKey
        ↔ (udpFrom 68).endpoints = (udpFrom 69).endpoints)
      ↔ WellKeyed (maskOf [.pktNb]) (udpFrom 68) (udpFrom 69) :=
  flowKey_identifies_iff (by decide) (udpFrom_transports 68)
    (udpFrom_transports 69) (udpFrom_accountedTo 68) (udpFrom_accountedTo 69)

/-- Two packets with different ports, one key. -/
theorem udp_ports_unkeyed :
    ∃ key, FlowSelected (maskOf [.pktNb])
      ∧ (udpFrom 68).Transports ∧ (udpFrom 69).Transports
      ∧ AccountedTo (.ofMask (maskOf [.pktNb])) (udpFrom 68) key
      ∧ AccountedTo (.ofMask (maskOf [.pktNb])) (udpFrom 69) key
      ∧ (udpFrom 68).endpoints ≠ (udpFrom 69).endpoints := by
  refine ⟨unportedKey, by decide, udpFrom_transports 68,
    udpFrom_transports 69, udpFrom_accountedTo 68, udpFrom_accountedTo 69, ?_⟩
  intro h
  have hport := congrArg (fun e => e.2.1) h
  revert hport
  decide

end XdpIds
