/-
The debug event and the verdict (dt_xdp.bpf.c's `xdp_trace_net_event`,
run with a ring-buffer record and without one).

The event takes part in the guard around port parsing (`portsSeen`), so
a build that parses no ports on its own account parses them when it is
watched, and a TCP header that is cut off is then an error: the frame is
dropped without a look at the tree. `observed_iff` is the exact
condition under which the two runs still agree.

`settled` is what makes the two runs comparable: the label and the flow
map as a function of the ports seen, with no event in it.
-/
import XdpIds.Packet.Proofs.Parse
import XdpIds.Tree.Proofs.Walk

namespace XdpIds

open XdpIds.Tree (DtNodesArray DT_NODE_NB Verdict classifyDt classifyDt_returns
  classifyDt_zeroed)

variable {b : Build} {mask : BitVec 64} {f : Frame} {timeNow : UInt64}
  {flows : FlowMap} {ne : Option NetEvent}

-- ============================================================ the verdict

/-- The label reached and the flow map left. -/
def Outcome.verdict (o : Outcome) : Label × FlowMap := (o.label, o.flows)

/-- Both runs return, with one label and one flow map. -/
def SameVerdict (x y : Exec Outcome) : Prop :=
  ∃ r, Outcome.verdict <$> x = .ok r ∧ Outcome.verdict <$> y = .ok r

theorem SameVerdict.label {x y : Exec Outcome} (h : SameVerdict x y) :
    Outcome.label <$> x = Outcome.label <$> y := by
  obtain ⟨r, hx, hy⟩ := h
  cases x with
  | error e => cases hx
  | ok o =>
      cases y with
      | error e => cases hy
      | ok p =>
          have hsame : o.verdict = p.verdict :=
            (Except.ok.inj hx).trans (Except.ok.inj hy).symm
          exact congrArg (fun r => Except.ok r.1) hsame

/-- The label a verdict of the tree leads to. -/
def Label.ofVerdict : Verdict → Label
  | .pass => .pass
  | .drop => .drop

/-- The vector and the map of an accepted packet, from a zeroed vector
and nobody watching. -/
def packetState (b : Build) (mask : BitVec 64) (f : Frame)
    (timeNow : UInt64) (flows : FlowMap) (ports : UInt16 × UInt16) :
    ParseState b :=
  accepted mask f timeNow ports.1 ports.2
    ⟨.replicate b.featureNb 0, flows, none⟩

/-- The tree's verdict on a parsed packet. -/
def judged (map : DtNodesArray DT_NODE_NB) (s : ParseState b) :
    Exec (Label × FlowMap) :=
  match classifyDt map s.fv with
  | some v => .ok (.ofVerdict v, s.flows)
  | none => .error .noReturn

theorem judged_of {map : DtNodesArray DT_NODE_NB} {s : ParseState b}
    {v : Verdict} (hv : classifyDt map s.fv = some v) :
    judged map s = .ok (.ofVerdict v, s.flows) := by
  rw [judged, hv]

/-- The event has no part in it. -/
theorem classified_judged (map : DtNodesArray DT_NODE_NB)
    (s : ParseState b) : Outcome.verdict <$> classified map s = judged map s := by
  unfold classified judged
  cases classifyDt map s.fv with
  | none => rfl
  | some v => cases v <;> rfl

/-- The verdict on an IP packet, given what its transport header made
of it. -/
def settled (b : Build) (mask : BitVec 64) (map : DtNodesArray DT_NODE_NB)
    (f : Frame) (timeNow : UInt64) (flows : FlowMap) :
    Except Int (UInt16 × UInt16) → Exec (Label × FlowMap)
  | .error _ => .ok (.drop, flows)
  | .ok ports => judged map (packetState b mask f timeNow flows ports)

/-- The event decides which ports are seen, and nothing else. -/
theorem trace_settled (hb : b.Declares mask)
    (map : DtNodesArray DT_NODE_NB) (hip : f.IsIp) :
    Outcome.verdict <$> xdpTraceNetEvent b map f timeNow flows ne
      = settled b mask map f timeNow flows (b.portsSeen ne f) := by
  rw [xdpTraceNetEvent, parseUpdate_ip hb hip]
  cases hseen : b.portsSeen ne f with
  | error code =>
      have hcode := portsSeen_error hseen
      show Outcome.verdict <$>
        (if code = -2 then _ else if code = 0 then _ else _) = _
      rw [if_neg (by omega), if_neg (by omega)]
      rfl
  | ok ports =>
      exact classified_judged map _

theorem settled_returns (b : Build) (mask : BitVec 64)
    (map : DtNodesArray DT_NODE_NB) (f : Frame) (timeNow : UInt64)
    (flows : FlowMap) (ports : Except Int (UInt16 × UInt16)) :
    ∃ r, settled b mask map f timeNow flows ports = .ok r := by
  cases ports with
  | error code => exact ⟨_, rfl⟩
  | ok ports =>
      obtain ⟨v, hv⟩ := classifyDt_returns (by decide) map
        (packetState b mask f timeNow flows ports).fv
      exact ⟨_, judged_of hv⟩

/-- Runs of an IP packet agree when their settled verdicts do. -/
theorem sameVerdict_iff (hb : b.Declares mask)
    (map : DtNodesArray DT_NODE_NB) (hip : f.IsIp)
    (ne ne' : Option NetEvent) :
    SameVerdict (xdpTraceNetEvent b map f timeNow flows ne)
        (xdpTraceNetEvent b map f timeNow flows ne')
      ↔ settled b mask map f timeNow flows (b.portsSeen ne f)
        = settled b mask map f timeNow flows (b.portsSeen ne' f) := by
  unfold SameVerdict
  rw [trace_settled hb map hip, trace_settled hb map hip]
  constructor
  · rintro ⟨r, h, h'⟩
    rw [h, h']
  · intro h
    obtain ⟨r, hr⟩ := settled_returns b mask map f timeNow flows
      (b.portsSeen ne' f)
    exact ⟨r, h.trans hr, hr⟩

/-- Before the IP header the event plays no part. -/
theorem sameVerdict_notIp (map : DtNodesArray DT_NODE_NB) (hip : ¬ f.IsIp)
    (ne ne' : Option NetEvent) :
    SameVerdict (xdpTraceNetEvent b map f timeNow flows ne)
      (xdpTraceNetEvent b map f timeNow flows ne') := by
  have hexit : f.headerExit ≠ 0 := fun h => hip (headerExit_zero_iff.mp h)
  unfold SameVerdict xdpTraceNetEvent
  rw [parseUpdate_header hexit, parseUpdate_header hexit]
  rcases (headerExit_cases f).resolve_left hexit with h | h | h
  · rw [h]
    exact ⟨(.drop, flows), rfl, rfl⟩
  · rw [h]
    exact ⟨(.passSilent, flows), rfl, rfl⟩
  · rw [h]
    exact ⟨(.drop, flows), rfl, rfl⟩

-- ============================================================== the guards

/-- A TCP packet without all of its fixed header. -/
def Frame.TruncatedTcp (f : Frame) : Prop :=
  f.protocol = IPPROTO_TCP ∧ f.len < transportOffset + sizeofTcphdr

/-- A build that needs no ports parses none for itself. -/
theorem portsSeen_none (hb : b.Declares mask) (hport : ¬ PortsSelected mask)
    (hflow : ¬ FlowSelected mask) : b.portsSeen none f = .ok (0, 0) := by
  unfold Build.portsSeen Build.parsesPorts
  rw [Bool.eq_false_iff.mpr fun h => hport (hb.portsSelected_iff.mp h),
    Bool.eq_false_iff.mpr fun h => hflow (hb.flowSelected_iff.mp h)]
  rfl

/-- Watched, it fails on a truncated TCP header alone: the UDP branch
asks the build. -/
theorem portsSeen_some (hb : b.Declares mask) (hport : ¬ PortsSelected mask)
    (e : NetEvent) :
    (f.TruncatedTcp → b.portsSeen (some e) f = .error (-4))
      ∧ (¬ f.TruncatedTcp → ∃ ports, b.portsSeen (some e) f = .ok ports) := by
  unfold Build.portsSeen Build.parsesPorts Build.ports Frame.TruncatedTcp
  rw [Bool.eq_false_iff.mpr fun h => hport (hb.portsSelected_iff.mp h),
    if_pos (by simp)]
  constructor
  · rintro ⟨hproto, hlen⟩
    rw [if_pos hproto, if_pos hlen]
  · intro h
    by_cases hproto : f.protocol = IPPROTO_TCP
    · rw [if_pos hproto, if_neg fun hlen => h ⟨hproto, hlen⟩]
      exact ⟨_, rfl⟩
    · rw [if_neg hproto]
      exact ⟨_, rfl⟩

/-- What a build without port and flow features makes of an accepted
packet is independent of the ports it saw. -/
theorem packetState_plain (hport : ¬ PortsSelected mask)
    (hflow : ¬ FlowSelected mask) (ports : UInt16 × UInt16) :
    packetState b mask f timeNow flows ports
      = ⟨putSlots mask (.replicate b.featureNb 0) (ipWrites f), flows,
          none⟩ := by
  have hnone : ∀ w ∈ portWrites ports.1 ports.2, ¬ Selected mask w.1 := by
    intro w hw hsel
    rcases List.mem_pair.mp hw with rfl | rfl
    · exact hport (.inr hsel)
    · exact hport (.inl hsel)
  unfold packetState accepted
  simp only [if_neg hflow, List.append_nil, putSlots_append,
    putSlots_unselected _ hnone]
  rfl

-- ============================================================= observation

/-- The vector of a build that selects neither ports nor flows: the
protocol and the size, where selected. -/
def ipVector (names : List Feature) (f : Frame) :
    (Build.ofNames names).Fv :=
  putSlots (maskOf names) (.replicate _ 0) (ipWrites f)

/-- The event leaves the verdict alone exactly when the build needs the
ports anyway, or the frame is no truncated TCP packet, or the tree drops
what the unwatched run shows it. -/
theorem observed_iff (names : List Feature) (map : DtNodesArray DT_NODE_NB)
    (f : Frame) (timeNow : UInt64) (flows : FlowMap) (ne : NetEvent) :
    SameVerdict
        (xdpTraceNetEvent (.ofNames names) map f timeNow flows (some ne))
        (xdpTraceNetEvent (.ofNames names) map f timeNow flows none)
      ↔ PortsSelected (maskOf names) ∨ FlowSelected (maskOf names)
        ∨ ¬ (f.IsIp ∧ f.TruncatedTcp)
        ∨ classifyDt map (ipVector names f) = some .drop := by
  have hb := Build.ofNames_declares names
  by_cases hip : f.IsIp
  case neg =>
    exact iff_of_true (sameVerdict_notIp map hip _ _)
      (.inr (.inr (.inl fun h => hip h.1)))
  rw [sameVerdict_iff hb map hip]
  by_cases hneeded : PortsSelected (maskOf names) ∨ FlowSelected (maskOf names)
  · rw [portsSeen_needed hb hneeded, portsSeen_needed hb hneeded]
    exact iff_of_true rfl (hneeded.imp_right .inl)
  · obtain ⟨hport, hflow⟩ := not_or.mp hneeded
    obtain ⟨hcut, hfull⟩ := portsSeen_some (f := f) hb hport ne
    obtain ⟨v, hv⟩ := classifyDt_returns (by decide) map (ipVector names f)
    have hplain : ∀ ports, packetState (.ofNames names) (maskOf names) f
        timeNow flows ports = ⟨ipVector names f, flows, none⟩ :=
      packetState_plain hport hflow
    have hjudged : judged map (⟨ipVector names f, flows, none⟩ :
        ParseState (.ofNames names)) = .ok (.ofVerdict v, flows) :=
      judged_of hv
    rw [portsSeen_none hb hport hflow]
    by_cases htcp : f.TruncatedTcp
    · rw [hcut htcp, settled, settled, hplain, hjudged, hv]
      constructor
      · intro h
        cases v with
        | drop => exact .inr (.inr (.inr rfl))
        | pass => cases (Prod.mk.inj (Except.ok.inj h)).1
      · rintro (h | h | h | h)
        · exact absurd h hport
        · exact absurd h hflow
        · exact absurd ⟨hip, htcp⟩ h
        · obtain rfl := Option.some.inj h
          rfl
    · obtain ⟨ports, hports⟩ := hfull htcp
      refine iff_of_true ?_ (.inr (.inr (.inl fun h => htcp h.2)))
      rw [hports, settled, settled, hplain, hplain]

/-- A TCP packet that ends with its IP header. -/
def bareTcp : Frame where
  bytes := List.replicate 12 0 ++ [0x08, 0x00, 0x45] ++ List.replicate 8 0
    ++ [6] ++ List.replicate 10 0
  len_lt := by decide

/-- The packet under a build that selects the protocol alone, before
any tree is loaded. -/
def traceBareTcp (ne : Option NetEvent) : Exec Outcome :=
  xdpTraceNetEvent (.ofNames [.protocol])
    (.zeroed : DtNodesArray DT_NODE_NB) bareTcp 0 (fun _ => none) ne

/-- Unwatched it passes, watched it is dropped. -/
theorem watched_drops :
    ¬ SameVerdict (traceBareTcp (some blankEvent)) (traceBareTcp none) := by
  have hwatched : Outcome.label <$> traceBareTcp (some blankEvent)
      = .ok .drop := by
    rfl
  have hfree : Outcome.label <$> traceBareTcp none = .ok .pass := by
    rfl
  intro h
  have hsame := h.label
  rw [hwatched, hfree] at hsame
  cases hsame

end XdpIds
