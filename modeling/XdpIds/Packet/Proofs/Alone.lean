/-
Builds without flow features: a packet's line is its own.

Such a build never looks at the table and makes nothing of the clock, so
what the program submits for a packet is what it would submit for it as
the only packet there ever was (`report_alone`). `log_alone` lifts that to
runs: other packets, evictions, the clock and the order of the work do not
show in the log, and reservations only in the order of its lines.
-/
import XdpIds.Packet.Proofs.Decisions

namespace XdpIds.DtXdp

open Tasks XdpIds.Ring Transition
open XdpIds.Tree (DtNodesArray DT_NODE_NB classifyDt_returns)

variable {ι : Type} {b : Build} {mask : BitVec 64}
  {map : DtNodesArray DT_NODE_NB}

/-- What the program submits for a packet that is alone. -/
def alone (b : Build) (map : DtNodesArray DT_NODE_NB) (p : Packet) :
    Option NetEvent :=
  match xdpTraceNetEvent b map p.frame 0 (fun _ => none) (some p.slot) with
  | .ok o => o.submitted
  | .error _ => none

/-- The verdict and the event are all that the submission shows of what
was parsed. -/
theorem classified_submitted {s s' : ParseState b} (hfv : s.fv = s'.fv)
    (hnete : s.nete = s'.nete) :
    Outcome.submitted <$> classified map s
      = Outcome.submitted <$> classified map s' := by
  obtain ⟨v, hv⟩ := classifyDt_returns (by simp [DT_NODE_NB]) map s.fv
  have hv' := hfv ▸ hv
  rw [classified, classified, hv, hv']
  cases v
  · show Except.ok (s.nete.map _) = Except.ok (s'.nete.map _)
    rw [hnete]
  · show Except.ok (s.nete.map _) = Except.ok (s'.nete.map _)
    rw [hnete]

/-- Neither the table nor the clock decides what is submitted. -/
theorem submitted_eq (hb : b.Declares mask) (hflow : ¬ FlowSelected mask)
    (f : Frame) (ne : Option NetEvent) (timeNow timeNow' : UInt64)
    (flows flows' : FlowMap) :
    Outcome.submitted <$> xdpTraceNetEvent b map f timeNow flows ne
      = Outcome.submitted
        <$> xdpTraceNetEvent b map f timeNow' flows' ne := by
  by_cases hip : f.IsIp
  case neg =>
    have hexit : f.headerExit ≠ 0 := mt headerExit_zero_iff.mp hip
    rw [xdpTraceNetEvent, xdpTraceNetEvent, parseUpdate_header hexit,
      parseUpdate_header hexit]
    rcases headerExit_cases f with h | h | h | h
    · exact absurd h hexit
    all_goals
      rw [h]
      rfl
  rw [xdpTraceNetEvent, xdpTraceNetEvent, parseUpdate_ip hb hip,
    parseUpdate_ip hb hip]
  cases hports : b.portsSeen ne f with
  | error code =>
      dsimp only
      rcases portsSeen_error hports with rfl | rfl <;> rfl
  | ok ports =>
      dsimp only
      refine classified_submitted ?_ rfl
      simp only [accepted, if_neg hflow]

/-- Whatever entry it is given, a packet reports what it would alone. -/
theorem report_alone (hb : b.Declares mask) (hflow : ¬ FlowSelected mask)
    {p : Packet} {timeNow : UInt64} {found : Option FlowInfo}
    {label : Label} {out : Option NetEvent}
    (h : reportOn b map found (p.arrival timeNow (some p.slot))
      = .ok (label, out)) :
    out = alone b map p := by
  have hsame := @submitted_eq b mask map hb hflow p.frame (some p.slot)
    timeNow 0 (fun _ => found) fun _ => none
  change Outcome.reported <$> xdpTraceNetEvent b map p.frame timeNow
    (fun _ => found) (some p.slot) = _ at h
  unfold alone
  cases hrun : xdpTraceNetEvent b map p.frame timeNow (fun _ => found)
      (some p.slot) with
  | error err => rw [hrun] at h; cases h
  | ok o =>
      rw [hrun] at h hsame
      obtain rfl : o.submitted = out := (Prod.mk.inj (Except.ok.inj h)).2
      cases hrun' : xdpTraceNetEvent b map p.frame 0 (fun _ => none)
          (some p.slot) with
      | error err => rw [hrun'] at hsame; cases hsame
      | ok o' =>
          rw [hrun'] at hsame
          exact Except.ok.inj hsame

-- ================================================================ every run

variable {packets : ι → Packet} {s : System ι}

/-- No packet cuts in on another where none works on the table. -/
theorem oneFlow_of_noFlow (hb : b.Declares mask)
    (hflow : ¬ FlowSelected mask) [DecidableEq ι] (s : System ι)
    (m : Move ι) : OneFlowAtATime b map packets s m := by
  have hidle : ∀ q, (packetCode b map).worksOn s.table q = none := by
    intro q
    cases hwork : (packetCode b map).worksOn s.table q with
    | none => rfl
    | some key =>
        obtain ⟨a, prog, -, -, hkey⟩ := of_worksOn hwork
        change a.flow b = some key at hkey
        rw [flow_eq hb, if_neg hflow] at hkey
        cases hkey
  cases m with
  | readClock p timeNow => exact fun event _ q => .inl (hidle q)
  | evict key =>
      intro q hq
      rw [hidle] at hq
      cases hq
  | _ => trivial

/-- What committed packets have submitted. -/
theorem results_alone (hb : b.Declares mask) (hflow : ¬ FlowSelected mask)
    (hC : Coherent packets s) (hT : InTurn b map s) {order : List ι}
    (horder : ∀ p ∈ order, (s.ring.stage p).isCommitted = true) :
    (order.filterMap fun p => (s.ring.stage p).result)
      = order.filterMap fun p => alone b map (packets p) := by
  refine List.filterMap_congr fun p hp => ?_
  obtain ⟨out, hstage⟩ := Stage.of_isCommitted (horder p hp)
  obtain ⟨earlier, timeNow, label, -, hreport⟩ :=
    committed_report hC hT hstage
  rw [hstage]
  exact report_alone hb hflow hreport

variable [DecidableEq ι]

/-- With packet features alone, the log is what the program says of each
passed packet by itself, in the order of the reservations: no other
packet, eviction, refusal or clock reading shows in it. -/
theorem log_alone {names : List Feature}
    (hpacket : ∀ n ∈ names, n.isFlow = false)
    (map : DtNodesArray DT_NODE_NB) (packets : ι → Packet)
    (h : Reach (systemStep (.ofNames names) map packets) Any .start s) :
    let order := s.ring.records.take s.ring.passed
    order.Nodup
      ∧ (s.ring.passed = s.ring.records.length →
        ∀ p, p ∈ order ↔ (s.ring.stage p).hasRecord = true)
      ∧ s.stdout = printed
        (order.filterMap fun p => alone (.ofNames names) map (packets p)) := by
  have hb := Build.ofNames_declares names
  have hflow := not_flowSelected hpacket
  have hC := coherent_reach h
  have hT := inTurn_reach
    (h.mono fun s m _ => oneFlow_of_noFlow hb hflow s m)
  refine ⟨hC.kept.passed_nodup, hC.kept.passed_all, ?_⟩
  rw [hC.stdout, hC.kept.handed,
    results_alone hb hflow hC hT hC.kept.passed_committed]

/-- The shipped features on two packets, of which the second to work has
the earlier record, and reads an earlier time. -/
theorem log_alone_shipped :
    ∃ s : System (Fin 3), s.ring.records = [2, 0] ∧ s.ring.passed = 2
      ∧ s.stdout = printed ([2, 0].filterMap fun p =>
          alone (.ofNames Feature.shipped) countMap (udpOf p)) := by
  have hrun : ∃ s, run (systemStep (.ofNames Feature.shipped) countMap udpOf)
        .start [.reserve 2, .reserve 0, .readClock 0 2, .commit 0,
          .readClock 2 1, .commit 2, .poll, .poll] = some s
      ∧ s.ring.records = [2, 0] ∧ s.ring.passed = 2 :=
    ⟨_, rfl, rfl, rfl⟩
  obtain ⟨s, hs, hrecords, hpassed⟩ := hrun
  obtain ⟨-, -, hstdout⟩ :=
    log_alone (by decide) countMap udpOf (run_reach hs)
  rw [hrecords, hpassed] at hstdout
  exact ⟨s, hrecords, hpassed, hstdout⟩

end XdpIds.DtXdp
