/-
The tracepoint listener against the TC listener, on one socket buffer.

`Carries` is a socket buffer with a TCP or UDP packet of so many linear
and so many paged bytes. Both listeners accept it and agree on its
addresses, protocol and ports (`tracepoint_reports`, `tc_reports`). On its
size they never do: the tracepoint listener takes `data_len`, which is
what is not in the linear part, and the TC listener takes what is; and
the packet's length is neither (`sizes_never_agree`).
-/
import XdpIds.Listener.Proofs.Pack
import XdpIds.Listener.Tracepoint

namespace XdpIds.Listener

variable {skb : SkBuff} {h p : Nat}

/-- An IPv4 TCP or UDP packet with `h` linear bytes, among them both of
its headers, and `p` paged ones. -/
structure Carries (skb : SkBuff) (h p : Nat) : Prop where
  len : skb.len.toNat = h + p
  paged : skb.dataLen.toNat = p
  linear : skb.tail - skb.data = h
  proto : skb.linear.hProto = swap16 ETH_P_IP
  version : skb.linear.version = 4
  ihl : 5 ≤ skb.linear.ihl
  network : skb.networkHeader.toNat = skb.data + sizeofEthhdr
  transport : skb.transportHeader.toNat = skb.data + skb.linear.transport
  header : skb.linear.HeaderAt skb.linear.transport

-- ============================================================ the linear bytes

theorem linear_len (skb : SkBuff) :
    skb.linear.len = skb.tail - skb.data := by
  have htail : skb.tail ≤ skb.head.bytes.length := skb.tail_le
  show ((skb.head.bytes.take skb.tail).drop skb.data).length = _
  rw [List.length_drop, List.length_take, Nat.min_eq_left htail]

theorem linear_byte {i : Nat} (hi : i < skb.linear.len) :
    skb.head.byte (skb.data + i) = skb.linear.byte i := by
  rw [linear_len] at hi
  have hlt : skb.data + i < skb.tail := by omega
  unfold Frame.byte SkBuff.linear
  rw [List.getD_eq_getElem?_getD, List.getD_eq_getElem?_getD,
    List.getElem?_drop, List.getElem?_take, if_pos hlt]

/-- A header in the linear bytes is read as it stands there. -/
theorem probeRead_linear {i size : Nat} (hi : i + size ≤ skb.linear.len) :
    ∃ header, skb.probeRead (skb.data + i) size = some header
      ∧ ∀ k < size, header k = skb.linear.byte (i + k) := by
  have htail := skb.tail_le
  have hdata := skb.data_le
  have hlen := linear_len skb
  refine ⟨fun k => skb.head.byte (skb.data + i + k), ?_, ?_⟩
  · rw [SkBuff.probeRead, if_pos (by omega)]
  · intro k hk
    rw [← linear_byte (by omega), ← Nat.add_assoc]

section Words

variable {f : Frame} {header : Nat → UInt8} {i size k : Nat}

theorem read_word16 (hbytes : ∀ k < size, header k = f.byte (i + k))
    (hk : k + 2 ≤ size) :
    Frame.raw16 (header k) (header (k + 1)) = f.word16 (i + k) := by
  rw [hbytes k (by omega), hbytes (k + 1) (by omega)]
  rfl

theorem read_word32 (hbytes : ∀ k < size, header k = f.byte (i + k))
    (hk : k + 4 ≤ size) :
    Frame.raw32 (header k) (header (k + 1)) (header (k + 2)) (header (k + 3))
      = f.word32 (i + k) := by
  rw [hbytes k (by omega), hbytes (k + 1) (by omega),
    hbytes (k + 2) (by omega), hbytes (k + 3) (by omega)]
  rfl

end Words

-- ================================================================ the listeners

/-- The packet fills the linear part at least to the end of the IP
header. -/
theorem Carries.ip (hskb : Carries skb h p) : skb.linear.IsIp := by
  refine ⟨?_, hskb.proto⟩
  show transportOffset ≤ skb.linear.len
  rcases hskb.header.fixed hskb.ihl with ⟨-, hlen⟩ | ⟨-, hlen⟩ <;> omega

theorem readPorts_linear {i size : Nat} {code : Int} {e : NetEvent}
    (htransport : skb.transportHeader.toNat = skb.data + i)
    (hsize : 4 ≤ size) (hi : i + size ≤ skb.linear.len) :
    Tracepoint.readPorts skb size code e
      = (0, { e with
        srcPort := skb.linear.net16 i
        dstPort := skb.linear.net16 (i + 2) }) := by
  obtain ⟨header, hread, hbytes⟩ := probeRead_linear hi
  have hsource : Frame.raw16 (header 0) (header 1) = skb.linear.word16 i :=
    read_word16 hbytes (k := 0) (by omega)
  have hdest : Frame.raw16 (header 2) (header 3)
      = skb.linear.word16 (i + 2) := read_word16 hbytes (by omega)
  unfold Tracepoint.readPorts
  simp only [htransport, hread, hsource, hdest, Frame.swap16_word16]

/-- The tracepoint listener reports the packet, but for its size. -/
theorem tracepoint_reports (hskb : Carries skb h p) :
    ∃ e, Tracepoint.parsePack (some skb) = (0, e)
      ∧ e.report = { skb.linear.reportAt skb.linear.transport with
        packetSize := skb.dataLen } := by
  obtain ⟨ip, hread, hbytes⟩ := probeRead_linear hskb.ip.len
  have hversion : ip 0 >>> 4 = 4 := by
    rw [hbytes 0 (by decide)]
    exact hskb.version
  have hprotocol : ip 9 = skb.linear.protocol := hbytes 9 (by decide)
  have hsource : Frame.raw32 (ip 12) (ip 13) (ip 14) (ip 15)
      = skb.linear.saddr := read_word32 hbytes (by decide)
  have hdest : Frame.raw32 (ip 16) (ip 17) (ip 18) (ip 19)
      = skb.linear.daddr := read_word32 hbytes (by decide)
  unfold Tracepoint.parsePack Frame.reportAt
  simp only [hskb.network, hread, hversion, hprotocol, hsource, hdest,
    hskb.header.portsAt, ne_eq, not_true_eq_false, if_false]
  rcases hskb.header with ⟨hproto, hlen⟩ | ⟨hproto, hlen⟩
  · rw [if_pos hproto, readPorts_linear hskb.transport (by decide) hlen]
    exact ⟨_, rfl, rfl⟩
  · have htcp : skb.linear.protocol ≠ IPPROTO_TCP := by
      rw [hproto]
      exact udp_ne_tcp
    rw [if_neg htcp, if_pos hproto,
      readPorts_linear hskb.transport (by decide) hlen]
    exact ⟨_, rfl, rfl⟩

/-- The TC listener reports the packet, its linear bytes as its size. -/
theorem tc_reports (hskb : Carries skb h p) (e : NetEvent) :
    ∃ e', Tc.parsePack skb.linear e = .ok (0, e')
      ∧ e'.report = skb.linear.reportAt skb.linear.transport := by
  obtain ⟨e', hrun, hreport⟩ :=
    Tc.parsePack_parses skb.linear e fun _ => hskb.version
  have hexit : skb.linear.exitAt skb.linear.transport = 0 := by
    rw [Frame.exitAt, if_pos (headerExit_zero_iff.mpr hskb.ip),
      hskb.header.exit]
  rw [hexit] at hrun
  exact ⟨e', hrun, hreport hexit⟩

-- ===================================================================== the size

/-- Both listeners accept the packet and report it alike, with its full
length. -/
def TraceAlike (skb : SkBuff) (h p : Nat) (e : NetEvent) : Prop :=
  ∃ a b, Tracepoint.parsePack (some skb) = (0, a)
    ∧ Tc.parsePack skb.linear e = .ok (0, b)
    ∧ a.report = b.report
    ∧ a.packetSize.toNat = h + p

/-- The packet has a linear byte, so what is paged is not all of it. -/
theorem Carries.pos (hskb : Carries skb h p) : 0 < h := by
  have hlen : transportOffset ≤ skb.linear.len := hskb.ip.len
  rw [linear_len, hskb.linear] at hlen
  exact Nat.lt_of_lt_of_le (by decide) hlen

/-- Both listeners accept the packet and agree on all but its size: the
paged bytes to one, the linear ones to the other. -/
theorem listeners_report (hskb : Carries skb h p) (e : NetEvent) :
    ∃ a b, Tracepoint.parsePack (some skb) = (0, a)
      ∧ Tc.parsePack skb.linear e = .ok (0, b)
      ∧ { a.report with packetSize := 0 } = { b.report with packetSize := 0 }
      ∧ a.packetSize.toNat = p
      ∧ b.packetSize.toNat = h := by
  obtain ⟨a, ha, hareport⟩ := tracepoint_reports hskb
  obtain ⟨b, hb, hbreport⟩ := tc_reports hskb e
  have hpaged : a.packetSize = skb.dataLen :=
    congrArg (·.packetSize) hareport
  have hlinear : b.packetSize = skb.linear.size :=
    congrArg (·.packetSize) hbreport
  refine ⟨a, b, ha, hb, ?_, ?_, ?_⟩
  · rw [hareport, hbreport]
  · rw [hpaged, hskb.paged]
  · rw [hlinear, Frame.size_toNat, linear_len, hskb.linear]

/-- The listeners never report such a packet alike and with its
length. -/
theorem sizes_never_agree {skb : SkBuff} {h p : Nat}
    (hskb : Carries skb h p) (e : NetEvent) : ¬ TraceAlike skb h p e := by
  rintro ⟨a, b, ha, -, -, hsize⟩
  obtain ⟨a', b', ha', -, -, hpaged, -⟩ := listeners_report hskb e
  obtain rfl : a = a' := by
    rw [ha] at ha'
    exact (Prod.mk.inj ha').2
  have hpos := hskb.pos
  omega

/-- A UDP packet of 42 bytes behind two bytes of headroom, with more of it
in pages. -/
def udpBuffer (paged : UInt32) : SkBuff where
  head := ⟨[0, 0] ++ (udpFrom 68).bytes, by simp [udpFrom]⟩
  data := 2
  tail := 44
  data_le := by decide
  tail_le := by decide
  len := 42 + paged
  dataLen := paged
  networkHeader := 16
  transportHeader := 36

theorem sizes_never_agree_udpBuffer :
    ¬ TraceAlike (udpBuffer 100) 42 100 blankEvent := by
  have hcarries : Carries (udpBuffer 100) 42 100 :=
    ⟨rfl, rfl, rfl, rfl, rfl, by decide, rfl, rfl, .inr (by decide)⟩
  exact sizes_never_agree hcarries blankEvent

/-- With nothing in pages, the tracepoint listener reports no bytes and
the TC listener all 42. -/
theorem linear_packet_sizes :
    Carries (udpBuffer 0) 42 0
      ∧ (Tracepoint.parsePack (some (udpBuffer 0))).2.packetSize = 0
      ∧ (fun r => r.2.packetSize) <$>
          Tc.parsePack (udpBuffer 0).linear blankEvent = .ok 42
      ∧ ¬ TraceAlike (udpBuffer 0) 42 0 blankEvent := by
  have hsize : (Tracepoint.parsePack (some (udpBuffer 0))).2.packetSize = 0 :=
    rfl
  refine ⟨⟨rfl, rfl, rfl, rfl, rfl, by decide, rfl, rfl, .inr (by decide)⟩,
    hsize, rfl, ?_⟩
  rintro ⟨a, b, ha, -, -, hlen⟩
  rw [ha] at hsize
  have hzero : a.packetSize = 0 := hsize
  rw [hzero] at hlen
  cases hlen

end XdpIds.Listener
