/-
A listener's runs: the packets of any CPUs, and the loop that prints
what their programs submit.

`log_exact` is what every run keeps: however the packets' reservations,
refusals and commits and the loop's polls interleave, the log is the
printing of what the programs submitted, in the order of the
reservations, each packet at most once, and each once it is passed.
`log_catches_up` is its other half: what has been committed does get
printed.

`histogram_exact` and `rows_tell` follow the log to its readers: the
series print_hist.py takes from it are the submitted events', and each
row, read back, says what the packet on the wire was.
-/
import XdpIds.Listener.Proofs.Event
import XdpIds.Listener.Proofs.Log

namespace XdpIds.Listener

open XdpIds.Ring Transition

variable {ι : Type} {record : ι → Exec (Option NetEvent)}
  {printAll : Bool} {s : PipeState ι NetEvent Unit Printer}

-- ============================================================= what is handed

/-- What a packet's program submits. -/
def submission (record : ι → Exec (Option NetEvent)) (p : ι) :
    Option NetEvent :=
  match record p with
  | .ok out => out
  | .error _ => none

section Handed

variable {turns : List (Turn ι NetEvent)}

/-- A committed record was committed with what its packet's program
makes of it. -/
theorem submission_committed
    (hT : Traced (listener record) () (.start printAll) s turns) {p : ι}
    (hp : (s.ring.stage p).isCommitted = true) :
    (∃ out, record p = .ok out)
      ∧ (s.ring.stage p).result = submission record p := by
  obtain ⟨out, hstage⟩ := Stage.of_isCommitted hp
  obtain ⟨earlier, later, hturns⟩ :=
    List.append_of_mem (hT.committed hstage)
  obtain ⟨st, st', -, htakes⟩ := (hturns ▸ hT.worked).split
  obtain ⟨out', hout, heq⟩ := Option.map_eq_some_iff.mp htakes
  obtain ⟨rfl, -⟩ := Prod.mk.inj heq
  cases hrecord : record p with
  | error err => rw [hrecord] at hout; cases hout
  | ok out'' =>
      rw [hrecord] at hout
      obtain rfl := Option.some.inj hout
      refine ⟨⟨_, rfl⟩, ?_⟩
      rw [hstage, submission, hrecord]
      rfl

/-- What records of committed packets hold. -/
theorem results_eq
    (hT : Traced (listener record) () (.start printAll) s turns)
    {order : List ι}
    (hcommitted : ∀ p ∈ order, (s.ring.stage p).isCommitted = true) :
    (order.filterMap fun p => (s.ring.stage p).result)
      = order.filterMap (submission record) :=
  List.filterMap_congr fun p hp =>
    (submission_committed hT (hcommitted p hp)).2

/-- What the loop has printed. -/
theorem sink_eq
    (hT : Traced (listener record) () (.start printAll) s turns) :
    let events := (s.ring.records.take s.ring.passed).filterMap
      (submission record)
    s.sink = ⟨⟨events.length, printAll⟩, printed printAll events, []⟩ := by
  have hsink := hT.sink
  rw [hT.kept.handed, results_eq hT hT.kept.passed_committed] at hsink
  rw [foldlM_printNetevent _ hsink]
  show Printer.mk ⟨0 + _, printAll⟩ _ _ = _
  rw [Nat.zero_add]
  rfl

end Handed

-- =================================================================== the rows

namespace Hook

variable (hook : Hook)

/-- The code a hook's parser returns on a frame: the TC listener takes
another IP version for another protocol, and looks for the transport
header where the IP header ends. -/
def code (f : Frame) : Int :=
  match hook with
  | .xdp => f.exitAt transportOffset
  | .tc => if f.IsIp ∧ f.version ≠ 4 then -2 else f.exitAt f.transport

/-- What a hook's parser takes an accepted frame to be. -/
def report (f : Frame) : Report :=
  match hook with
  | .xdp => f.reportAt transportOffset
  | .tc => f.reportAt f.transport

theorem code_cases (f : Frame) :
    hook.code f = 0 ∨ hook.code f = -1 ∨ hook.code f = -2
      ∨ hook.code f = -3 ∨ hook.code f = -4 ∨ hook.code f = -5 := by
  cases hook with
  | xdp => exact exitAt_cases f _
  | tc =>
      unfold code
      by_cases hother : f.IsIp ∧ f.version ≠ 4
      · exact .inr (.inr (.inl (if_pos hother)))
      · show (if _ then _ else _) = _ ∨ _
        simp only [if_neg hother]
        exact exitAt_cases f _

end Hook

/-- What an event says of a packet: what it is, or which error it was,
with the ports that its record happened to hold, and the times its
parsing took. -/
structure EventOf (hook : Hook) (p : Listened) (e : NetEvent) : Prop where
  accepted : hook.code p.frame = 0 → e.report = hook.report p.frame
  refused : hook.code p.frame ≠ 0 →
    e.protocol.toNat = 200 + (hook.code p.frame).natAbs
  stale : hook.code p.frame ≠ 0 →
    e.srcPort = p.slot.srcPort ∧ e.dstPort = p.slot.dstPort
  parsing : e.tParsing.toNat = min (p.clock.t2 - p.clock.t1).toNat 0xFFFF
  total : e.tTot.toNat = min (p.clock.t2 - p.clock.t0).toNat 0xFFFF
  decision : e.decision = false

section Kept

variable {f : Frame} {e e' : NetEvent} {code : Int}

/-- The ports of an event are those of a record. -/
def SamePorts (e e' : NetEvent) : Prop :=
  e'.srcPort = e.srcPort ∧ e'.dstPort = e.dstPort

/-- The ports are written when the code is 0. -/
theorem fillPorts_kept {i size : Nat} {cut : Int}
    (h : fillPorts f i size cut e = .ok (code, e')) (hcode : code ≠ 0) :
    SamePorts e e' := by
  unfold fillPorts at h
  split at h
  · obtain ⟨-, rfl⟩ := Prod.mk.inj (Except.ok.inj h)
    exact ⟨rfl, rfl⟩
  · obtain ⟨source, -, h⟩ := Exec.bind_ok h
    obtain ⟨dest, -, h⟩ := Exec.bind_ok h
    exact absurd (Prod.mk.inj (Except.ok.inj h)).1.symm hcode

theorem parseHeaders_kept
    {parseIp : Frame → NetEvent → Exec (Int × NetEvent)}
    (hip : ∀ sized, parseIp f sized = .ok (code, e') → SamePorts sized e')
    (h : parseHeaders parseIp f e = .ok (code, e')) : SamePorts e e' := by
  rw [parseHeaders_eq] at h
  split at h
  · have hkept := hip _ h
    exact hkept
  · obtain ⟨-, rfl⟩ := Prod.mk.inj (Except.ok.inj h)
    exact ⟨rfl, rfl⟩

theorem Xdp.parsePack_kept (h : Xdp.parsePack f e = .ok (code, e'))
    (hcode : code ≠ 0) : SamePorts e e' := by
  refine parseHeaders_kept (fun sized h => ?_) h
  obtain ⟨daddr, -, h⟩ := Exec.bind_ok h
  obtain ⟨saddr, -, h⟩ := Exec.bind_ok h
  obtain ⟨protocol, -, h⟩ := Exec.bind_ok h
  split at h
  · have hkept := fillPorts_kept h hcode
    exact hkept
  · split at h
    · have hkept := fillPorts_kept h hcode
      exact hkept
    · exact absurd (Prod.mk.inj (Except.ok.inj h)).1.symm hcode

theorem Tc.parsePack_kept (h : Tc.parsePack f e = .ok (code, e'))
    (hcode : code ≠ 0) : SamePorts e e' := by
  refine parseHeaders_kept (fun sized h => ?_) h
  obtain ⟨first, -, h⟩ := Exec.bind_ok h
  split at h
  · obtain ⟨-, rfl⟩ := Prod.mk.inj (Except.ok.inj h)
    exact ⟨rfl, rfl⟩
  · obtain ⟨saddr, -, h⟩ := Exec.bind_ok h
    obtain ⟨daddr, -, h⟩ := Exec.bind_ok h
    obtain ⟨protocol, -, h⟩ := Exec.bind_ok h
    split at h
    · have hkept := fillPorts_kept h hcode
      exact hkept
    · split at h
      · have hkept := fillPorts_kept h hcode
        exact hkept
      · exact absurd (Prod.mk.inj (Except.ok.inj h)).1.symm hcode

end Kept

/-- Discarded exactly at code -2. -/
theorem submitted_none_iff {clock : Clock} {code : Int} {e : NetEvent}
    (hcode : code = 0 ∨ code = -1 ∨ code = -2 ∨ code = -3 ∨ code = -4
      ∨ code = -5) :
    submitted clock code e = none ↔ code = -2 := by
  rcases hcode with rfl | rfl | rfl | rfl | rfl | rfl <;> simp [submitted]

namespace Hook

variable (hook : Hook)

/-- A program returns, and submits by its parser's code. -/
theorem record_eq (p : Listened) :
    ∃ e, hook.record p = .ok (submitted p.clock (hook.code p.frame) e)
      ∧ (hook.code p.frame = 0 → e.report = hook.report p.frame)
      ∧ (hook.code p.frame ≠ 0 → SamePorts p.slot e) := by
  cases hook with
  | xdp =>
      obtain ⟨e, hparse, hreport⟩ := Xdp.parsePack_parses p.frame p.slot
      refine ⟨e, ?_, hreport, Xdp.parsePack_kept hparse⟩
      show traceNetEvent Xdp.parsePack p.clock p.frame (some p.slot) = _
      rw [traceNetEvent, hparse]
      rfl
  | tc =>
      show ∃ e, traceNetEvent Tc.parsePack p.clock p.frame (some p.slot) = _
        ∧ _
      unfold code
      by_cases hother : p.frame.IsIp ∧ p.frame.version ≠ 4
      · rw [traceNetEvent, Tc.parsePack_version hother.1 hother.2]
        simp only [if_pos hother]
        have hne : (-2 : Int) ≠ 0 := by decide
        exact ⟨_, rfl, fun h => absurd h hne, fun _ => ⟨rfl, rfl⟩⟩
      · have hversion : p.frame.IsIp → p.frame.version = 4 := fun hip =>
          not_not.mp fun h => hother ⟨hip, h⟩
        obtain ⟨e, hparse, hreport⟩ :=
          Tc.parsePack_parses p.frame p.slot hversion
        simp only [if_neg hother]
        refine ⟨e, ?_, hreport, Tc.parsePack_kept hparse⟩
        rw [traceNetEvent, hparse]
        rfl

/-- A packet's event says what the packet was. -/
theorem record_eventOf {p : Listened} {out : NetEvent}
    (h : hook.record p = .ok (some out)) : EventOf hook p out := by
  obtain ⟨e, he, hreport, hports⟩ := hook.record_eq p
  have hout := Except.ok.inj (he.symm.trans h)
  have htimes := elapsed16_toNat p.clock.t1 p.clock.t2
  have htotal := elapsed16_toNat p.clock.t0 p.clock.t2
  rcases hook.code_cases p.frame with hcode | hcode | hcode | hcode | hcode
    | hcode
  case inr.inr.inl =>
    rw [(submitted_none_iff (hook.code_cases p.frame)).mpr hcode] at hout
    cases hout
  case inl =>
    rw [hcode] at hout
    obtain rfl := Option.some.inj hout
    exact ⟨hreport, fun h => absurd hcode h, fun h => absurd hcode h,
      htimes, htotal, rfl⟩
  all_goals
    have hne : hook.code p.frame ≠ 0 := by
      rw [hcode]
      exact nofun
    have hkept := hports hne
    rw [hcode] at hout
    obtain rfl := Option.some.inj hout
    refine ⟨fun h => absurd h hne, fun _ => ?_, fun _ => hkept, htimes,
      htotal, rfl⟩
    rw [hcode]
    rfl

/-- What is submitted for packets: an event for each that is not
discarded, in their order, that says what the packet was. -/
theorem events (packets : ι → Listened) (order : List ι) :
    List.Forall₂ (fun p e => EventOf hook (packets p) e)
      (order.filter fun p => hook.code (packets p).frame ≠ -2)
      (order.filterMap (submission fun p => hook.record (packets p))) := by
  induction order with
  | nil => exact .nil
  | cons p order ih =>
      obtain ⟨e, he, -⟩ := hook.record_eq (packets p)
      have hcode := hook.code_cases (packets p).frame
      have hsub : submission (fun p => hook.record (packets p)) p
          = submitted (packets p).clock (hook.code (packets p).frame) e := by
        rw [submission, he]
      by_cases hdiscard : hook.code (packets p).frame = -2
      · rw [List.filter_cons_of_neg (by simpa using hdiscard),
          List.filterMap_cons_none
            (hsub.trans ((submitted_none_iff hcode).mpr hdiscard))]
        exact ih
      · obtain ⟨out, hout⟩ := Option.ne_none_iff_exists'.mp
          (mt (@submitted_none_iff (packets p).clock _ e hcode).mp
            hdiscard)
        rw [List.filter_cons_of_pos (by simpa using hdiscard),
          List.filterMap_cons_some (hsub.trans hout)]
        exact .cons (hook.record_eventOf (by rw [he, hout])) ih

/-- The port that decides a packet's series: its own, or for a packet
that is cut off, the one its record happened to hold. -/
def dstPort (p : Listened) : UInt16 :=
  if hook.code p.frame = 0 then (hook.report p.frame).dstPort
  else p.slot.dstPort

end Hook

-- ==================================================================== a run

/-- Two packets of the same kind, on different CPUs. -/
def udpPair (_ : Fin 2) : Listened := ⟨udpFrom 68, ⟨0, 100, 350⟩, blankEvent⟩

/-- The packet that reserves first is finished last. -/
theorem crossed_run (printAll : Bool) :
    ∃ s, run (listener fun p => Hook.xdp.record (udpPair p)).step
        (.start () (.start printAll))
        [.reserve 1, .reserve 0, .finish 0, .finish 1] = some s
      ∧ s.ring.records = [1, 0] ∧ (∀ p, s.ring.stage p ≠ .filling)
      ∧ ∃ s', run (listener fun p => Hook.xdp.record (udpPair p)).step s
          [.take, .take] = some s'
        ∧ s'.ring.records = [1, 0] ∧ s'.ring.passed = 2 := by
  refine ⟨_, rfl, rfl, ?_, _, rfl, rfl, rfl⟩
  exact fun
    | 0 => nofun
    | 1 => nofun

/-- What the two submit, in either order. -/
theorem submission_udpPair :
    [1, 0].filterMap (submission fun p => Hook.xdp.record (udpPair p))
      = List.replicate 2 ⟨(udpFrom 68).saddr, (udpFrom 68).daddr, 68, 53, 17,
          42, 250, 0, 350, false⟩ := by
  rfl

-- ================================================================ every run

variable [DecidableEq ι]

/-- However the packets and the loop interleave, the log is the printing
of what the programs of the packets passed so far submitted, in the order
of the reservations, each packet once, and nothing is printed as an
error; when the loop has caught up, these are the packets that got a
record. -/
theorem log_exact (record : ι → Exec (Option NetEvent)) (printAll : Bool)
    (h : Reach (listener record).step Any (.start () (.start printAll)) s) :
    let order := s.ring.records.take s.ring.passed
    order.Nodup
      ∧ (∀ p ∈ order, ∃ out, record p = .ok out)
      ∧ s.sink.stdout
        = printed printAll (order.filterMap (submission record))
      ∧ s.sink.stderr = []
      ∧ (s.ring.passed = s.ring.records.length →
        ∀ p, p ∈ order ↔ (s.ring.stage p).hasRecord = true) := by
  obtain ⟨turns, hT⟩ := traced_reach h
  have hsink := sink_eq hT
  refine ⟨hT.kept.passed_nodup, fun p hp => ?_, ?_, ?_,
    hT.kept.passed_all⟩
  · exact (submission_committed hT (hT.kept.passed_committed p hp)).1
  · rw [hsink]
  · rw [hsink]

/-- Both packets are in the log, the second one's line first. -/
theorem log_exact_crossed :
    ∃ s : PipeState (Fin 2) NetEvent Unit Printer,
      s.ring.records = [1, 0] ∧ s.ring.passed = 2
      ∧ s.sink.stdout = printed true
        ([1, 0].filterMap (submission fun p => Hook.xdp.record (udpPair p))) := by
  obtain ⟨s, hs, -, -, s', hs', hrecords, hpassed⟩ := crossed_run true
  obtain ⟨-, -, hstdout, -⟩ :=
    log_exact _ true ((run_reach hs).trans (run_reach hs'))
  rw [hrecords, hpassed] at hstdout
  exact ⟨s', hrecords, hpassed, hstdout⟩

/-- From any state in which no packet is being worked on, with fewer than
2^31 records so far, the loop's own polls lead to a log of all of
them. -/
theorem log_catches_up (record : ι → Exec (Option NetEvent))
    (printAll : Bool)
    (h : Reach (listener record).step Any (.start () (.start printAll)) s)
    (hfill : ∀ p, s.ring.stage p ≠ .filling)
    (hcount : s.ring.records.length < 2 ^ 31) :
    ∃ s', Reach (listener record).step Polls s s'
      ∧ s'.ring.records = s.ring.records
      ∧ s'.sink.stdout
        = printed printAll
            (s.ring.records.filterMap (submission record)) := by
  obtain ⟨turns, hT⟩ := traced_reach h
  have hconsume : ∀ n, ((s.ring.records.take n).filterMap fun p =>
      (s.ring.stage p).result).foldlM (listener record).consume
        (.start printAll) ≠ none := by
    intro n
    refine foldlM_printNetevent_ne_none ?_
    show 0 + _ < 2 ^ 31
    have hlen := List.length_filterMap_le
      (fun p => (s.ring.stage p).result) (s.ring.records.take n)
    have htake := List.length_take_le' n s.ring.records
    omega
  obtain ⟨s', hreach, hpassed, hrecords, -⟩ := hT.catchesUp hfill hconsume
  obtain ⟨turns', hT'⟩ :=
    traced_reach (h.trans (hreach.mono fun _ _ _ => trivial))
  refine ⟨s', hreach, hrecords, ?_⟩
  rw [sink_eq hT', hpassed, List.take_length, hrecords]

/-- Two packets finished and none printed: the loop prints both. -/
theorem log_catches_up_crossed :
    ∃ s : PipeState (Fin 2) NetEvent Unit Printer,
      s.sink.stdout = printed false (List.replicate 2
        ⟨(udpFrom 68).saddr, (udpFrom 68).daddr, 68, 53, 17, 42, 250, 0, 350,
          false⟩) := by
  obtain ⟨s, hs, hrecords, hfill, -⟩ := crossed_run false
  obtain ⟨s', -, -, hstdout⟩ := log_catches_up _ false (run_reach hs) hfill
    (by rw [hrecords]; show 2 < 2 ^ 31; decide)
  rw [hrecords, submission_udpPair] at hstdout
  exact ⟨s', hstdout⟩

-- =============================================================== the readers

/-- In every state of a run that prints in the comma-separated format,
print_hist.py's series are the values of the events submitted to iperf's
port, and of the others. -/
theorem histogram_exact (record : ι → Exec (Option NetEvent)) (c : Column)
    (h : Reach (listener record).step Any (.start () (.start true)) s) :
    let events := (s.ring.records.take s.ring.passed).filterMap
      (submission record)
    printHist c.name s.sink.stdout
      = some ((events.filter fun e => e.dstPort.toNat = 5201).map c.value,
          (events.filter fun e => e.dstPort.toNat ≠ 5201).map c.value) := by
  obtain ⟨turns, hT⟩ := traced_reach h
  rw [sink_eq hT]
  exact printHist_printed c _

/-- Two packets to port 53: both in the second series. -/
theorem histogram_exact_crossed :
    ∃ s : PipeState (Fin 2) NetEvent Unit Printer,
      printHist "time_parsing".toList s.sink.stdout
        = some ([], [250, 250]) := by
  obtain ⟨s, hs, -, -, s', hs', hrecords, hpassed⟩ := crossed_run true
  have hhist := histogram_exact _ .timeParsing
    ((run_reach hs).trans (run_reach hs'))
  rw [hrecords, hpassed] at hhist
  exact ⟨s', hhist⟩

theorem submitted_dstPort {clock : Clock} {code : Int} {e out : NetEvent}
    (h : submitted clock code e = some out) : out.dstPort = e.dstPort := by
  unfold submitted at h
  split_ifs at h
  all_goals
    obtain rfl := Option.some.inj h
    rfl

/-- The tracepoint listener's record is cleared, so an error leaves no
port in it. -/
theorem Tracepoint.parsePack_dstPort {skb : Option SkBuff}
    (h : (Tracepoint.parsePack skb).1 ≠ 0) :
    (Tracepoint.parsePack skb).2.dstPort = 0 := by
  have hread : ∀ (skb : SkBuff) size code (e : NetEvent), e.dstPort = 0 →
      (Tracepoint.readPorts skb size code e).1 ≠ 0 →
      (Tracepoint.readPorts skb size code e).2.dstPort = 0 := by
    intro skb size code e he hcode
    unfold Tracepoint.readPorts at hcode ⊢
    cases hprobe : skb.probeRead skb.transportHeader.toNat size with
    | none => exact he
    | some header =>
        rw [hprobe] at hcode
        exact absurd rfl hcode
  cases skb with
  | none => rfl
  | some skb =>
      unfold Tracepoint.parsePack at h ⊢
      dsimp only at h ⊢
      cases hip : skb.probeRead skb.networkHeader.toNat sizeofIphdr with
      | none => rfl
      | some ip =>
          rw [hip] at h
          dsimp only at h ⊢
          split_ifs at h ⊢
          · rfl
          · exact hread _ _ _ _ rfl h
          · exact hread _ _ _ _ rfl h
          · exact absurd rfl h

/-- What the tracepoint listener makes of a packet. -/
def tracepointRecord (p : Option SkBuff × Clock × NetEvent) :
    Exec (Option NetEvent) :=
  .ok (Tracepoint.traceNetifReceiveSkb p.2.1 p.1 (some p.2.2))

/-- In the tracepoint listener's log a packet is iperf's when it was
accepted with its port, and only then. -/
theorem tracepoint_iperf (packets : ι → Option SkBuff × Clock × NetEvent)
    (c : Column)
    (h : Reach (listener fun p => tracepointRecord (packets p)).step Any
      (.start () (.start true)) s) :
    ∃ iperf other, printHist c.name s.sink.stdout = some (iperf, other)
      ∧ iperf.length
        = (s.ring.records.take s.ring.passed).countP (fun p =>
            (Tracepoint.parsePack (packets p).1).1 = 0
              ∧ (Tracepoint.parsePack (packets p).1).2.dstPort.toNat
                = 5201) := by
  obtain ⟨turns, hT⟩ := traced_reach h
  refine ⟨_, _, by rw [sink_eq hT]; exact printHist_printed c _, ?_⟩
  rw [List.length_map, ← List.countP_eq_length_filter,
    List.countP_filterMap]
  refine List.countP_congr fun p _ => ?_
  have hsub : submission (fun p => tracepointRecord (packets p)) p
      = submitted (packets p).2.1 (Tracepoint.parsePack (packets p).1).1
          (Tracepoint.parsePack (packets p).1).2 := rfl
  have hport := @Tracepoint.parsePack_dstPort (packets p).1
  rw [hsub]
  generalize Tracepoint.parsePack (packets p).1 = parsed at hport ⊢
  obtain ⟨code, e⟩ := parsed
  by_cases hcode : code = 0
  · subst hcode
    show decide (e.dstPort.toNat = 5201) = true ↔ _
    simp
  · have hzero : e.dstPort = 0 := hport hcode
    refine iff_of_false ?_ fun h => hcode (of_decide_eq_true h).1
    cases hout : submitted (packets p).2.1 code e with
    | none => exact nofun
    | some out =>
        show ¬ decide (out.dstPort.toNat = 5201) = true
        rw [submitted_dstPort hout, hzero]
        exact nofun

/-- An event without a socket buffer, in a record left over from an event
to iperf's port. -/
theorem tracepoint_iperf_cleared :
    ∃ (s : PipeState Unit NetEvent Unit Printer) (other : List Nat),
      s.ring.passed = 1
      ∧ printHist "size".toList s.sink.stdout = some ([], other) := by
  let packet : Option SkBuff × Clock × NetEvent :=
    (none, ⟨0, 100, 350⟩, { blankEvent with dstPort := 5201 })
  obtain ⟨s, hs, hrecords, hpassed⟩ :
      ∃ s, run (listener fun _ : Unit => tracepointRecord packet).step
          (.start () (.start true)) [.reserve (), .finish (), .take] = some s
        ∧ s.ring.records = [()] ∧ s.ring.passed = 1 := ⟨_, rfl, rfl, rfl⟩
  obtain ⟨iperf, other, hhist, hiperf⟩ := tracepoint_iperf
    (fun _ => packet) .size (run_reach hs)
  rw [hrecords, hpassed] at hiperf
  obtain rfl := List.eq_nil_of_length_eq_zero hiperf
  exact ⟨s, other, hpassed, hhist⟩

end XdpIds.Listener
