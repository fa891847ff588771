/-
The program one access at a time, and the program at one go.

Without interruption the two are one (`packetCode_computes`): what
`packetCode` makes of an entry is the entry the flow stage leaves, and
what it returns is the label and the event of `xdp_trace_net_event` on a
table with that entry. The flow it works on is the packet's, if flows are
kept at all (`flow_eq`).
-/
import XdpIds.Packet.Accesses
import XdpIds.Packet.Proofs.Evicting

namespace XdpIds

open Tasks
open XdpIds.Tree (DtNodesArray classifyDt)

variable {b : Build} {mask : BitVec 64} {f : Frame} {timeNow : UInt64}

-- ============================================================= parse_update

/-- `parse_update` from the flow features on. -/
def Parsed.resume (f : Frame) (timeNow : UInt64) (flows : FlowMap)
    (r : Parsed b) : Exec (Int × ParseState b) :=
  match r.stop with
  | .returned code => .ok (code, ⟨r.fv, flows, r.nete⟩)
  | .flow key => do
      let (flows, fv) ← flowStage b flows key timeNow f.len r.fv
      .ok (0, ⟨fv, flows, r.nete⟩)

theorem resume_stop (flows : FlowMap) (fv : b.Fv) (nete : Option NetEvent)
    (saddr daddr : UInt32) (sport dport : UInt16) :
    Parsed.resume f timeNow flows ⟨b.stop saddr daddr sport dport, fv, nete⟩
      = parseFlow f timeNow saddr daddr sport dport ⟨fv, flows, nete⟩ := by
  unfold Build.stop parseFlow
  cases b.flowSelected <;> rfl

theorem parseIp_split (s : ParseState b) :
    parseIp f timeNow s = parseIpFrame b f s.fv s.nete
      >>= Parsed.resume f timeNow s.flows := by
  unfold parseIp parseIpFrame
  simp only [bind_assoc]
  refine bind_congr fun protocol => ?_
  refine bind_congr fun saddr => ?_
  refine bind_congr fun daddr => ?_
  refine bind_congr fun fv => ?_
  split
  · rw [bind_assoc]
    refine bind_congr fun ports => ?_
    cases ports with
    | error code => rfl
    | ok ports =>
        simp only [bind_assoc]
        exact bind_congr fun fv => (resume_stop ..).symm
  · exact (resume_stop ..).symm

/-- The flow features come last. -/
theorem parseUpdate_split (s : ParseState b) :
    parseUpdate b f timeNow s = parseFrame b f s.fv s.nete
      >>= Parsed.resume f timeNow s.flows := by
  unfold parseUpdate parseFrame
  split
  · rfl
  rw [bind_assoc]
  refine bind_congr fun hProto => ?_
  split
  · rfl
  split
  · rfl
  · exact parseIp_split s

-- ============================================================== the flow stage

/-- Without interruption the accesses leave the flow stage's entry and
make its writes. -/
theorem flowAccesses_run (timeNow : UInt64) (len : Nat)
    (found : Option FlowInfo) :
    (flowAccesses timeNow len).run found
      = some ((flowPacket found timeNow len).2,
          some (flowPacket found timeNow len).1) := by
  cases found <;> rfl

-- =============================================================== the program

section Program

variable {dtNodeNb : Nat} {map : DtNodesArray dtNodeNb}

/-- What the program reports: its label, and the event it submits. -/
def Outcome.reported (o : Outcome) : Label × Option NetEvent :=
  (o.label, o.submitted)

/-- `xdp_trace_net_event` from `parse_update`'s return on. -/
def concludedState (map : DtNodesArray dtNodeNb) (r : Int × ParseState b) :
    Exec (Label × Option NetEvent) :=
  concluded map r.1 r.2.fv r.2.nete

theorem reported_eq (f : Frame) (timeNow : UInt64) (flows : FlowMap)
    (ne : Option NetEvent) :
    Outcome.reported <$> xdpTraceNetEvent b map f timeNow flows ne
      = parseUpdate b f timeNow ⟨.replicate _ 0, flows, ne⟩
        >>= concludedState map := by
  unfold xdpTraceNetEvent
  rw [map_bind]
  refine bind_congr fun r => ?_
  obtain ⟨code, s⟩ := r
  show Outcome.reported <$> (if code = -2 then _ else if code = 0 then _
    else _) = concluded map code s.fv s.nete
  unfold concluded
  split
  · rfl
  split
  · unfold classified
    cases classifyDt map s.fv with
    | none => rfl
    | some v => cases v <;> rfl
  · rfl

/-- What a packet reports that finds an entry. -/
def reportOn (b : Build) (map : DtNodesArray dtNodeNb)
    (found : Option FlowInfo) (a : Arrival) :
    Exec (Label × Option NetEvent) :=
  Outcome.reported
    <$> xdpTraceNetEvent b map a.frame a.time (fun _ => found) a.event

theorem reportOn_eq (found : Option FlowInfo) (a : Arrival) :
    reportOn b map found a = a.parsed b
      >>= fun r => r.resume a.frame a.time (fun _ => found)
      >>= concludedState map := by
  rw [reportOn, reported_eq, parseUpdate_split, bind_assoc]
  rfl

/-- The flow stage's entry, from the one it finds. -/
def flowEntry (found : Option FlowInfo) (a : Arrival) : FlowInfo :=
  (flowPacket found a.time a.frame.len).1

/-- The program one access at a time is the program. -/
theorem packetCode_computes (b : Build) (map : DtNodesArray dtNodeNb) :
    (packetCode b map).Computes flowEntry (reportOn b map) where
  keyed := by
    intro a key found hkey
    replace hkey : a.flow b = some key := hkey
    show (a.accesses b map).run found = _
    rw [reportOn_eq]
    unfold Arrival.flow at hkey
    unfold Arrival.accesses
    cases hparsed : a.parsed b with
    | error fault => rw [hparsed] at hkey; cases hkey
    | ok r =>
        obtain ⟨stop, fv, nete⟩ := r
        rw [hparsed] at hkey
        cases stop with
        | returned code => cases hkey
        | flow key' =>
            show Prog.run (_ >>= _) found = _
            rw [Prog.run_bind, flowAccesses_run]
            show some (_, _) = some (_, _)
            congr 2
            show (_ >>= _) = ((_ >>= _) >>= concludedState map)
            rw [flowStage, bind_assoc, bind_assoc]
            rfl
  keyless := by
    intro a hkey
    replace hkey : a.flow b = none := hkey
    show a.accesses b map = _
    rw [reportOn_eq]
    unfold Arrival.flow at hkey
    unfold Arrival.accesses
    cases hparsed : a.parsed b with
    | error fault => rfl
    | ok r =>
        obtain ⟨stop, fv, nete⟩ := r
        rw [hparsed] at hkey
        cases stop with
        | returned code => rfl
        | flow key' => cases hkey

end Program

-- ================================================================== the flow

/-- Where the packet's own part ends, with an IP header. -/
theorem parseIpFrame_stop (hb : b.Declares mask)
    (hlen : sizeofEthhdr + sizeofIphdr ≤ f.len) (fv : b.Fv)
    (ne : Option NetEvent) :
    Parsed.stop <$> parseIpFrame b f fv ne
      = .ok (match b.portsSeen ne f with
        | .error code => .returned code
        | .ok ports => b.stop f.saddr f.daddr ports.1 ports.2) := by
  unfold sizeofEthhdr sizeofIphdr at hlen
  rw [parseIpFrame, Frame.load8_eq (by unfold sizeofEthhdr; omega),
    Frame.load32_eq (by unfold sizeofEthhdr; omega),
    Frame.load32_eq (by unfold sizeofEthhdr; omega)]
  simp only [fvIfUpdates_eq hb]
  show Parsed.stop <$> (if b.parsesPorts ne = true then
    loadPorts b f f.protocol >>= _ else _) = _
  unfold Build.portsSeen
  by_cases hports : b.parsesPorts ne = true
  · rw [if_pos hports, if_pos hports, loadPorts_eq]
    cases b.ports f <;> rfl
  · rw [if_neg hports, if_neg hports]
    rfl

theorem flow_of_stop {a : Arrival} {stop : Stop}
    (h : Parsed.stop <$> a.parsed b = .ok stop) : a.flow b = stop.key := by
  unfold Arrival.flow
  cases hparsed : a.parsed b with
  | error fault => rw [hparsed] at h; cases h
  | ok r =>
      rw [hparsed] at h
      exact congrArg Stop.key (Except.ok.inj h)

/-- A packet works on the entry of its flow, in a build that keeps
flows. -/
theorem flow_eq (hb : b.Declares mask) (a : Arrival) :
    a.flow b = if FlowSelected mask then a.key b else none := by
  have hchecks := headerChecks_eq a.frame
    (fun code => .ok (⟨.returned code, .replicate _ 0, a.event⟩ : Parsed b))
    (parseIpFrame b a.frame (.replicate _ 0) a.event)
  have hparsed := congrArg (Parsed.stop <$> ·) hchecks
  by_cases hip : a.frame.IsIp
  case neg =>
    rw [if_neg (mt headerExit_zero_iff.mp hip)] at hparsed
    rw [flow_of_stop hparsed, Arrival.key, if_neg hip, ite_self]
    rfl
  rw [if_pos (headerExit_zero_iff.mpr hip)] at hparsed
  rw [flow_of_stop (hparsed.trans (parseIpFrame_stop hb hip.len _ _)),
    Arrival.key, if_pos hip]
  by_cases hflow : FlowSelected mask
  · rw [if_pos hflow, portsSeen_needed hb (.inr hflow)]
    cases b.ports a.frame with
    | error code => rfl
    | ok ports =>
        show (b.stop _ _ ports.1 ports.2).key = _
        rw [Build.stop, if_pos (hb.flowSelected_iff.mpr hflow)]
        rfl
  · rw [if_neg hflow]
    cases b.portsSeen a.event a.frame with
    | error code => rfl
    | ok ports =>
        show (b.stop _ _ ports.1 ports.2).key = _
        rw [Build.stop, if_neg (mt hb.flowSelected_iff.mp hflow)]
        rfl

end XdpIds
