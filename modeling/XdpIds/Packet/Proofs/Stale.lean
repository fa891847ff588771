/-
What a submitted debug event still holds of the record it was reserved
with.

The record comes from the ring buffer as an earlier event left it.
`parse_update` fills it in as it goes, so each error exit leaves a part
of it alone, and the drop label submits it all the same. `submitAlike_iff`
is the exact set of frames whose events, discarded or submitted, say
nothing of the record: those that are discarded for their ethertype and
those that are accepted. On every other exit two records with different
ports are told apart (`Passes.differ`).
-/
import XdpIds.Packet.Proofs.Observe

namespace XdpIds

open XdpIds.Tree (DtNodesArray DT_NODE_NB classifyDt classifyDt_returns)

variable {b : Build} {mask : BitVec 64} {f : Frame} {timeNow : UInt64}
  {flows : FlowMap} {map : DtNodesArray DT_NODE_NB}

-- ============================================================ what is logged

/-- What `print_log` prints of an event. -/
def NetEvent.logged (e : NetEvent) : Report × Bool := (e.report, e.decision)

/-- What a run lets user space print: nothing, or an event. -/
def Outcome.logged (o : Outcome) : Option (Report × Bool) :=
  o.submitted.map NetEvent.logged

/-- Both runs return, and print alike. -/
def SubmitAlike (x y : Exec Outcome) : Prop :=
  ∃ r, Outcome.logged <$> x = .ok r ∧ Outcome.logged <$> y = .ok r

/-- A UDP packet without all of its header. -/
def Frame.TruncatedUdp (f : Frame) : Prop :=
  f.protocol = IPPROTO_UDP ∧ f.len < transportOffset + sizeofUdphdr

/-- Watched, the program parses ports whatever the build selects. -/
theorem portsSeen_watched (b : Build) (e : NetEvent) (f : Frame) :
    b.portsSeen (some e) f = b.ports f := by
  unfold Build.portsSeen Build.parsesPorts
  simp

/-- The transport branches fail on a truncated TCP header, and on a
truncated UDP header if the build selects a port. -/
theorem Build.Declares.ports_fail_iff (hb : b.Declares mask) :
    (∃ code, b.ports f = .error code)
      ↔ f.TruncatedTcp ∨ PortsSelected mask ∧ f.TruncatedUdp := by
  unfold Build.ports Frame.TruncatedTcp Frame.TruncatedUdp
  rw [← hb.portsSelected_iff]
  by_cases htcp : f.protocol = IPPROTO_TCP
  · by_cases hlen : f.len < transportOffset + sizeofTcphdr <;>
      simp [htcp, hlen, udp_ne_tcp.symm]
  · by_cases hudp : f.protocol = IPPROTO_UDP
    · cases hport : b.portsSelected <;>
        by_cases hlen : f.len < transportOffset + sizeofUdphdr <;>
        simp [hudp, hlen, udp_ne_tcp]
    · simp [htcp, hudp]

-- ================================================================= the exits

/-- Every record is submitted, and prints as `fill` leaves it. -/
def Passes (x : NetEvent → Exec Outcome) (fill : NetEvent → NetEvent) :
    Prop :=
  ∀ e, Outcome.logged <$> x e = .ok (some (fill e).logged)

/-- A frame that ends before its IP header does submits the record
untouched, but for the decision. -/
theorem trace_cut (h : f.headerExit = -1 ∨ f.headerExit = -3) :
    Passes (fun e => xdpTraceNetEvent b map f timeNow flows (some e))
      fun e => { e with decision := false } := by
  intro e
  have hexit : f.headerExit ≠ 0 := by omega
  show Outcome.logged <$> xdpTraceNetEvent b map f timeNow flows _ = _
  rw [xdpTraceNetEvent, parseUpdate_header hexit]
  rcases h with h | h <;> rw [h] <;> rfl

/-- Another ethertype discards it. -/
theorem trace_notIp (h : f.headerExit = -2) (e : NetEvent) :
    Outcome.logged <$> xdpTraceNetEvent b map f timeNow flows (some e)
      = .ok none := by
  have hexit : f.headerExit ≠ 0 := by omega
  rw [xdpTraceNetEvent, parseUpdate_header hexit, h]
  rfl

/-- A truncated transport header leaves the ports. -/
theorem trace_rejected (hb : b.Declares mask) (hip : f.IsIp) {code : Int}
    (hports : b.ports f = .error code) :
    Passes (fun e => xdpTraceNetEvent b map f timeNow flows (some e))
      fun e => { ipEvent f e with decision := false } := by
  intro e
  have hcode := Build.ports_error hports
  show Outcome.logged <$> xdpTraceNetEvent b map f timeNow flows _ = _
  rw [xdpTraceNetEvent, parseUpdate_ip hb hip, portsSeen_watched, hports]
  show Outcome.logged <$>
    (if code = -2 then _ else if code = 0 then _ else _) = _
  rw [if_neg (by omega), if_neg (by omega)]
  rfl

/-- Where ports pass from the record to the log, records differ. -/
theorem Passes.differ {x : NetEvent → Exec Outcome}
    {fill : NetEvent → NetEvent} (h : Passes x fill)
    (hport : ∀ e, (fill e).srcPort = e.srcPort) :
    ¬ ∀ e e', SubmitAlike (x e) (x e') := by
  intro hall
  obtain ⟨r, hx, hy⟩ := hall blankEvent { blankEvent with srcPort := 1 }
  rw [h] at hx hy
  have hsame := (Except.ok.inj hx).trans (Except.ok.inj hy).symm
  have hports := congrArg (·.1.srcPort) (Option.some.inj hsame)
  change (fill _).srcPort = (fill _).srcPort at hports
  rw [hport, hport] at hports
  cases hports

/-- An accepted packet's event is its own. -/
theorem trace_accepted (hb : b.Declares mask) (hip : f.IsIp)
    {ports : UInt16 × UInt16} (hports : b.ports f = .ok ports)
    (e e' : NetEvent) :
    SubmitAlike (xdpTraceNetEvent b map f timeNow flows (some e))
      (xdpTraceNetEvent b map f timeNow flows (some e')) := by
  obtain ⟨v, hv⟩ := classifyDt_returns (by decide) map
    (packetState b mask f timeNow flows ports).fv
  have hlogged : ∀ e, Outcome.logged <$>
      xdpTraceNetEvent b map f timeNow flows (some e)
      = .ok (some (⟨f.saddr, f.daddr, ports.1, ports.2, f.protocol,
          f.size⟩, v = .pass)) := by
    intro e
    unfold xdpTraceNetEvent
    rw [parseUpdate_ip hb hip, portsSeen_watched, hports]
    show Outcome.logged <$> classified map (accepted mask f timeNow ports.1
      ports.2 ⟨.replicate b.featureNb 0, flows, some e⟩) = _
    have hv' : classifyDt map (accepted mask f timeNow ports.1 ports.2
        (⟨.replicate b.featureNb 0, flows, some e⟩ : ParseState b)).fv
        = some v := hv
    unfold classified
    rw [hv']
    cases v <;> rfl
  exact ⟨_, hlogged e, hlogged e'⟩

-- ================================================================= the frames

/-- The events of a frame never show what the record held exactly when
its ethertype is another one, which discards them, or its headers are
complete. -/
theorem submitAlike_iff (names : List Feature)
    (map : DtNodesArray DT_NODE_NB) (f : Frame) (timeNow : UInt64)
    (flows : FlowMap) :
    (∀ e e', SubmitAlike
        (xdpTraceNetEvent (.ofNames names) map f timeNow flows (some e))
        (xdpTraceNetEvent (.ofNames names) map f timeNow flows (some e')))
      ↔ (sizeofEthhdr ≤ f.len ∧ f.hProto ≠ swap16 ETH_P_IP)
        ∨ (f.IsIp ∧ ¬ f.TruncatedTcp
          ∧ ¬ (PortsSelected (maskOf names) ∧ f.TruncatedUdp)) := by
  have hb := Build.ofNames_declares names
  by_cases heth : f.len < sizeofEthhdr
  · have hcut := headerExit_short heth
    refine iff_of_false ((trace_cut (.inl hcut)).differ fun _ => rfl) ?_
    rintro (h | h)
    · exact Nat.not_lt.mpr h.1 heth
    · have := h.1.len
      omega
  have heth' := Nat.not_lt.mp heth
  by_cases hproto : f.hProto = swap16 ETH_P_IP
  case neg =>
    have hexit := headerExit_notIp heth' hproto
    refine iff_of_true (fun e e' => ?_) (.inl ⟨heth', hproto⟩)
    exact ⟨none, trace_notIp hexit e, trace_notIp hexit e'⟩
  rw [or_iff_right fun h => h.2 hproto]
  by_cases hlen : f.len < sizeofEthhdr + sizeofIphdr
  · have hcut := headerExit_shortIp heth' hproto hlen
    refine iff_of_false ((trace_cut (.inr hcut)).differ fun _ => rfl)
      fun h => ?_
    exact Nat.not_lt.mpr h.1.len hlen
  have hip : f.IsIp := ⟨Nat.not_lt.mp hlen, hproto⟩
  have hfail := hb.ports_fail_iff (f := f)
  rw [and_iff_right hip, ← not_or, ← hfail]
  cases hports : (Build.ofNames names).ports f with
  | error code =>
      refine iff_of_false
        ((trace_rejected hb hip hports).differ fun _ => rfl) ?_
      exact not_not.mpr ⟨code, rfl⟩
  | ok ports =>
      refine iff_of_true (fun e e' => trace_accepted hb hip hports e e') ?_
      rintro ⟨code, h⟩
      cases h

/-- A TCP packet that ends with its IP header is logged with the ports
of an earlier event. -/
theorem stale_ports :
    ∃ e e', ¬ SubmitAlike
      (xdpTraceNetEvent (.ofNames Feature.shipped)
        (.zeroed : DtNodesArray DT_NODE_NB) bareTcp 0 (fun _ => none)
        (some e))
      (xdpTraceNetEvent (.ofNames Feature.shipped)
        (.zeroed : DtNodesArray DT_NODE_NB) bareTcp 0 (fun _ => none)
        (some e')) := by
  refine ⟨blankEvent, { blankEvent with srcPort := 443 }, ?_⟩
  rintro ⟨r, hx, hy⟩
  have hsame := hx.trans hy.symm
  exact absurd (Option.some.inj (Except.ok.inj hsame)) (by decide)

end XdpIds
