/-
The listeners' parsers against the report: which code they return on a
frame, and what they fill in when it is 0.

`Parses f i x` says that `x` is the outcome of a parser that looks for
the transport header at offset `i`. The XDP listener always looks behind
20 bytes of IP header (`Xdp.parsePack_parses`), the TC listener where the
header says (`Tc.parsePack_parses`, on version 4).

So on a packet without options the two agree, and with options they
agree only by accident: `parseAlike_iff` has the exact condition.
-/
import XdpIds.Packet.Proofs.Exits
import XdpIds.Packet.Proofs.Transport
import XdpIds.Listener.Pack

namespace XdpIds.Listener

variable {f : Frame} {e : NetEvent} {i : Nat}

-- ============================================================== the parsers

/-- The outcome of a parser that looks for the transport header at
offset `i`. -/
def Parses (f : Frame) (i : Nat) (x : Exec (Int × NetEvent)) : Prop :=
  ∃ e', x = .ok (f.exitAt i, e')
    ∧ (f.exitAt i = 0 → e'.report = f.reportAt i)

theorem fillPorts_short {size : Nat} {code : Int} (h : f.len < i + size) :
    fillPorts f i size code e = .ok (code, e) := by
  rw [fillPorts, if_pos h]

theorem fillPorts_whole {size : Nat} {code : Int} (hsize : 4 ≤ size)
    (h : i + size ≤ f.len) :
    fillPorts f i size code e
      = .ok (0,
        { e with srcPort := f.net16 i, dstPort := f.net16 (i + 2) }) := by
  rw [fillPorts, if_neg (Nat.not_lt.mpr h), Frame.load16_eq (by omega),
    Frame.load16_eq (by omega), ← Frame.swap16_word16,
    ← Frame.swap16_word16]
  rfl

/-- Up to the IP header the listeners are one parser. -/
theorem parseHeaders_eq
    (parseIp : Frame → NetEvent → Exec (Int × NetEvent)) (f : Frame)
    (e : NetEvent) :
    parseHeaders parseIp f e
      = if f.headerExit = 0 then parseIp f { e with packetSize := f.size }
        else .ok (f.headerExit, { e with packetSize := f.size }) := by
  let sized : NetEvent := { e with packetSize := f.size }
  exact headerChecks_eq f (fun code => .ok (code, sized)) (parseIp f sized)

/-- A parser is right about a frame when it is right from the IP header
on. -/
theorem parses_of_ip {parseIp : Frame → NetEvent → Exec (Int × NetEvent)}
    (h : f.IsIp → ∃ e',
      parseIp f { e with packetSize := f.size }
          = .ok (f.transportExit i, e')
        ∧ (f.transportExit i = 0 → e'.report = f.reportAt i)) :
    Parses f i (parseHeaders parseIp f e) := by
  unfold Parses Frame.exitAt
  rw [parseHeaders_eq]
  by_cases hexit : f.headerExit = 0
  · rw [if_pos hexit, if_pos hexit]
    exact h (headerExit_zero_iff.mp hexit)
  · rw [if_neg hexit, if_neg hexit]
    exact ⟨_, rfl, fun h => absurd h hexit⟩

/-- The three transport branches, on an event that knows the rest of its
packet. -/
theorem transport_parses (f : Frame) (i : Nat) {e : NetEvent}
    (hsrc : e.srcIp = f.saddr) (hdst : e.dstIp = f.daddr)
    (hprotocol : e.protocol = f.protocol) (hsize : e.packetSize = f.size) :
    ∃ e', (if f.protocol = IPPROTO_TCP then
        fillPorts f i sizeofTcphdr (-4) e
      else if f.protocol = IPPROTO_UDP then
        fillPorts f i sizeofUdphdr (-5) e
      else .ok (0, { e with srcPort := 0, dstPort := 0 }))
        = .ok (f.transportExit i, e')
      ∧ (f.transportExit i = 0 → e'.report = f.reportAt i) := by
  unfold Frame.reportAt NetEvent.report
  rcases f.transport_cases i with
    ⟨hproto, hlen⟩ | ⟨hproto, hlen⟩ | hheader | hnone
  · rw [transportExit_tcp hproto hlen, if_pos hproto, fillPorts_short hlen]
    exact ⟨e, rfl, fun h => by cases h⟩
  · rw [transportExit_udp hproto hlen, hproto, if_neg udp_ne_tcp, if_pos rfl,
      fillPorts_short hlen]
    exact ⟨e, rfl, fun h => by cases h⟩
  · rw [hheader.exit, hheader.portsAt]
    refine ⟨{ e with srcPort := f.net16 i, dstPort := f.net16 (i + 2) },
      ?_, fun _ => by rw [hsrc, hdst, hprotocol, hsize]⟩
    rcases hheader with ⟨hproto, hlen⟩ | ⟨hproto, hlen⟩
    · rw [if_pos hproto, fillPorts_whole (by unfold sizeofTcphdr; omega) hlen]
    · rw [hproto, if_neg udp_ne_tcp, if_pos rfl,
        fillPorts_whole (by unfold sizeofUdphdr; omega) hlen]
  · rw [transportExit_none hnone, portsAt_none hnone,
      if_neg fun h => hnone (.inl h), if_neg fun h => hnone (.inr h)]
    exact ⟨_, rfl, fun _ => by rw [hsrc, hdst, hprotocol, hsize]⟩

/-- The XDP listener looks behind 20 bytes of IP header. -/
theorem Xdp.parsePack_parses (f : Frame) (e : NetEvent) :
    Parses f transportOffset (Xdp.parsePack f e) := by
  refine parses_of_ip fun hip => ?_
  have hlen := hip.len
  unfold sizeofEthhdr sizeofIphdr at hlen
  rw [Xdp.parseIp, Frame.load32_eq (by unfold sizeofEthhdr; omega),
    Frame.load32_eq (by unfold sizeofEthhdr; omega),
    Frame.load8_eq (by unfold sizeofEthhdr; omega)]
  obtain ⟨e', hrun, hreport⟩ := transport_parses f transportOffset
    (e := { e with
      packetSize := f.size
      srcIp := f.saddr
      dstIp := f.daddr
      protocol := f.protocol }) rfl rfl rfl rfl
  refine ⟨e', ?_, hreport⟩
  rw [← hrun]
  -- the TCP and UDP branches write the number they have just compared with
  show (if f.protocol = IPPROTO_TCP then _
    else if f.protocol = IPPROTO_UDP then _ else _) = _
  by_cases htcp : f.protocol = IPPROTO_TCP
  · rw [if_pos htcp, if_pos htcp, htcp]
    rfl
  · rw [if_neg htcp, if_neg htcp]
    by_cases hudp : f.protocol = IPPROTO_UDP
    · rw [if_pos hudp, if_pos hudp, hudp]
      rfl
    · rw [if_neg hudp, if_neg hudp]
      rfl

/-- The TC listener looks where the IP header ends. -/
theorem Tc.parsePack_parses (f : Frame) (e : NetEvent)
    (hversion : f.IsIp → f.version = 4) :
    Parses f f.transport (Tc.parsePack f e) := by
  refine parses_of_ip fun hip => ?_
  have hlen := hip.len
  unfold sizeofEthhdr sizeofIphdr at hlen
  have htransport : sizeofEthhdr + (f.byte sizeofEthhdr &&& 0x0F).toNat * 4
      = f.transport := by
    unfold Frame.transport Frame.ihl
    omega
  rw [Tc.parseIp, Frame.load8_eq (by unfold sizeofEthhdr; omega),
    Frame.load32_eq (by unfold sizeofEthhdr; omega),
    Frame.load32_eq (by unfold sizeofEthhdr; omega),
    Frame.load8_eq (by unfold sizeofEthhdr; omega)]
  show ∃ e', (if f.version ≠ 4 then _ else _) = _ ∧ _
  rw [if_neg (not_not.mpr (hversion hip)), ← htransport]
  exact transport_parses f _ rfl rfl rfl rfl

-- =============================================================== agreement

/-- Both parsers return, with one code, and with one report when it is
0. -/
def ParseAlike (x y : Exec (Int × NetEvent)) : Prop :=
  ∃ code a b, x = .ok (code, a) ∧ y = .ok (code, b)
    ∧ (code = 0 → a.report = b.report)

/-- Two parsers that look at different offsets. -/
theorem Parses.alike_iff {x y : Exec (Int × NetEvent)} {j : Nat}
    (hx : Parses f i x) (hy : Parses f j y) :
    ParseAlike x y ↔ f.exitAt i = f.exitAt j
      ∧ (f.exitAt i = 0 → f.reportAt i = f.reportAt j) := by
  obtain ⟨a, rfl, ha⟩ := hx
  obtain ⟨b, rfl, hb⟩ := hy
  constructor
  · rintro ⟨code, a', b', hxa, hyb, hreport⟩
    obtain ⟨rfl, rfl⟩ := Prod.mk.inj (Except.ok.inj hxa)
    obtain ⟨hcode, rfl⟩ := Prod.mk.inj (Except.ok.inj hyb)
    refine ⟨hcode.symm, fun h => ?_⟩
    rw [← ha h, ← hb (hcode.trans h)]
    exact hreport h
  · rintro ⟨hcode, hreport⟩
    refine ⟨_, a, b, rfl, by rw [hcode], fun h => ?_⟩
    rw [ha h, hb (hcode.symm.trans h)]
    exact hreport h

/-- Where neither offset has a whole header, both parsers fail alike, or
neither looks for one. -/
theorem transportExit_missing {j : Nat} (hi : ¬ f.HeaderAt i)
    (hj : ¬ f.HeaderAt j) : f.transportExit i = f.transportExit j := by
  rcases f.transport_cases i with
    ⟨hproto, hlen⟩ | ⟨hproto, hlen⟩ | hheader | hnone
  · have hj' := Nat.not_le.mp fun h => hj (.inl ⟨hproto, h⟩)
    rw [transportExit_tcp hproto hlen, transportExit_tcp hproto hj']
  · have hj' := Nat.not_le.mp fun h => hj (.inr ⟨hproto, h⟩)
    rw [transportExit_udp hproto hlen, transportExit_udp hproto hj']
  · exact absurd hheader hi
  · rw [transportExit_none hnone, transportExit_none hnone]

/-- On an IPv4 packet the XDP and TC listeners agree exactly when the
frame has no whole transport header behind 20 bytes of IP header, or one
behind all of it with the same ports. -/
theorem parseAlike_iff (f : Frame)
    (hv : sizeofEthhdr < f.len → f.version = 4 ∧ 5 ≤ f.ihl)
    (e e' : NetEvent) :
    ParseAlike (Xdp.parsePack f e) (Tc.parsePack f e')
      ↔ (f.IsIp → f.HeaderAt transportOffset →
          f.HeaderAt f.transport
            ∧ f.portsAt transportOffset = f.portsAt f.transport) := by
  have hlong : f.IsIp → sizeofEthhdr < f.len := fun hip =>
    Nat.lt_of_lt_of_le (Nat.lt_add_of_pos_right (Nat.succ_pos _)) hip.len
  rw [(Xdp.parsePack_parses f e).alike_iff
    (Tc.parsePack_parses f e' fun hip => (hv (hlong hip)).1)]
  unfold Frame.exitAt
  by_cases hip : f.IsIp
  case neg =>
    have hexit : f.headerExit ≠ 0 := fun h => hip (headerExit_zero_iff.mp h)
    rw [if_neg hexit, if_neg hexit]
    exact iff_of_true ⟨rfl, fun h => absurd h hexit⟩ fun h => absurd h hip
  rw [if_pos (headerExit_zero_iff.mpr hip),
    if_pos (headerExit_zero_iff.mpr hip), forall_prop_of_true hip]
  obtain ⟨-, hihl⟩ := hv (hlong hip)
  by_cases hfixed : f.HeaderAt transportOffset
  · rw [hfixed.exit, forall_prop_of_true hfixed, forall_prop_of_true rfl,
      eq_comm, transportExit_zero_iff]
    have hports : f.reportAt transportOffset = f.reportAt f.transport
        ↔ f.portsAt transportOffset = f.portsAt f.transport := by
      unfold Frame.reportAt
      rw [Report.mk.injEq, Prod.ext_iff]
      tauto
    rw [hports, or_iff_left (not_not.mpr hfixed.hasPorts)]
  · have hmissing : ¬ f.HeaderAt f.transport := fun h =>
      hfixed (h.fixed hihl)
    refine iff_of_true ⟨transportExit_missing hfixed hmissing, fun h => ?_⟩
      fun h => absurd h hfixed
    have hnone : ¬ f.HasPorts :=
      (transportExit_zero_iff.mp h).resolve_left hfixed
    unfold Frame.reportAt
    rw [portsAt_none hnone, portsAt_none hnone]

/-- They agree on a packet without options. -/
theorem parseAlike_udpFrom :
    ParseAlike (Xdp.parsePack (udpFrom 68) blankEvent)
        (Tc.parsePack (udpFrom 68) blankEvent)
      ↔ ((udpFrom 68).IsIp → (udpFrom 68).HeaderAt transportOffset →
          (udpFrom 68).HeaderAt (udpFrom 68).transport
            ∧ (udpFrom 68).portsAt transportOffset
              = (udpFrom 68).portsAt (udpFrom 68).transport) :=
  parseAlike_iff (udpFrom 68) (fun _ => ⟨rfl, Nat.le_refl 5⟩) _ _

/-- On a packet with options the XDP listener reports other ports. -/
theorem options_split :
    optionsUdp.version = 4 ∧ 5 ≤ optionsUdp.ihl
      ∧ ¬ ParseAlike (Xdp.parsePack optionsUdp blankEvent)
        (Tc.parsePack optionsUdp blankEvent) := by
  refine ⟨rfl, Nat.le_succ 5, ?_⟩
  rintro ⟨code, a, b, hx, hy, hreport⟩
  have hxdp : (fun r => (r.1, r.2.srcPort)) <$>
      Xdp.parsePack optionsUdp blankEvent = .ok (0, 0x0101) := rfl
  have htc : (fun r => (r.1, r.2.srcPort)) <$>
      Tc.parsePack optionsUdp blankEvent = .ok (0, 68) := rfl
  rw [hx] at hxdp
  rw [hy] at htc
  obtain ⟨rfl, hxport⟩ := Prod.mk.inj (Except.ok.inj hxdp)
  obtain ⟨-, htport⟩ := Prod.mk.inj (Except.ok.inj htc)
  have hsame : a.srcPort = b.srcPort := congrArg (·.srcPort) (hreport rfl)
  rw [hxport, htport] at hsame
  exact absurd hsame (by decide)

end XdpIds.Listener
