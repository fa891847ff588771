/-
What the protocol field of a submitted event says.

The listeners put an error's number where a packet has its protocol, so
the number stands for the error and for a packet that has it as its own
protocol byte. Those are the only two readings (`submitted_marks`): the
codes a parser returns are the five of `Parses` or the TC listener's -2
for another IP version, and an accepted packet's event keeps the
packet's byte.

The second reading is real: 201 and 203 to 205 name no protocol, but a
sender chooses the byte (`packet_as_error`).
-/
import XdpIds.Listener.Event
import XdpIds.Listener.Proofs.Pack

namespace XdpIds.Listener

variable {f : Frame} {e : NetEvent} {code : Int}

-- ================================================================ the marks

/-- What the protocol `p` of an event submitted for a frame says about
the code its parsing returned. -/
structure Marks (f : Frame) (code : Int) (p : UInt8) : Prop where
  short : p = 201 ↔ code = -1 ∨ code = 0 ∧ f.protocol = 201
  shortIp : p = 203 ↔ code = -3 ∨ code = 0 ∧ f.protocol = 203
  shortTcp : p = 204 ↔ code = -4 ∨ code = 0 ∧ f.protocol = 204
  shortUdp : p = 205 ↔ code = -5 ∨ code = 0 ∧ f.protocol = 205
  other : code ≠ -1 → code ≠ -3 → code ≠ -4 → code ≠ -5 → p = f.protocol

/-- A parser's outcome: one of its codes, and the packet's protocol when
the code is 0. -/
def Coded (f : Frame) (x : Exec (Int × NetEvent)) : Prop :=
  ∃ code e', x = .ok (code, e')
    ∧ (code = 0 ∨ code = -1 ∨ code = -2 ∨ code = -3 ∨ code = -4 ∨ code = -5)
    ∧ (code = 0 → e'.protocol = f.protocol)

theorem submitted_marks (clock : Clock) {out : NetEvent}
    (hcode : code = 0 ∨ code = -1 ∨ code = -2 ∨ code = -3 ∨ code = -4
      ∨ code = -5)
    (hprotocol : code = 0 → e.protocol = f.protocol)
    (hout : submitted clock code e = some out) :
    Marks f code out.protocol := by
  rcases hcode with rfl | rfl | rfl | rfl | rfl | rfl
  · obtain rfl := Option.some.inj hout
    show Marks f 0 e.protocol
    rw [hprotocol rfl]
    exact ⟨by simp, by simp, by simp, by simp, fun _ _ _ _ => rfl⟩
  · obtain rfl := Option.some.inj hout
    exact ⟨by simp, by simp, by simp, by simp, fun h => absurd rfl h⟩
  · cases hout
  · obtain rfl := Option.some.inj hout
    exact ⟨by simp, by simp, by simp, by simp, fun _ h => absurd rfl h⟩
  · obtain rfl := Option.some.inj hout
    exact ⟨by simp, by simp, by simp, by simp, fun _ _ h => absurd rfl h⟩
  · obtain rfl := Option.some.inj hout
    exact ⟨by simp, by simp, by simp, by simp, fun _ _ _ h => absurd rfl h⟩

-- ============================================================== the parsers

theorem exitAt_cases (f : Frame) (i : Nat) :
    f.exitAt i = 0 ∨ f.exitAt i = -1 ∨ f.exitAt i = -2 ∨ f.exitAt i = -3
      ∨ f.exitAt i = -4 ∨ f.exitAt i = -5 := by
  unfold Frame.exitAt
  by_cases hexit : f.headerExit = 0
  · rw [if_pos hexit]
    unfold Frame.transportExit
    split_ifs <;> simp
  · rw [if_neg hexit]
    rcases headerExit_cases f with h | h | h | h <;> simp [h]

theorem Parses.coded {x : Exec (Int × NetEvent)} {i : Nat}
    (h : Parses f i x) : Coded f x := by
  obtain ⟨e', hx, hreport⟩ := h
  refine ⟨_, e', hx, exitAt_cases f i, fun hcode => ?_⟩
  exact congrArg (·.protocol) (hreport hcode)

/-- Another IP version is no IP packet to the TC listener. -/
theorem Tc.parsePack_version (hip : f.IsIp) (hversion : f.version ≠ 4) :
    Tc.parsePack f e = .ok (-2, { e with packetSize := f.size }) := by
  have hlen := hip.len
  unfold sizeofEthhdr sizeofIphdr at hlen
  rw [Tc.parsePack, parseHeaders_eq, if_pos (headerExit_zero_iff.mpr hip),
    Tc.parseIp, Frame.load8_eq (by unfold sizeofEthhdr; omega)]
  show (if f.version ≠ 4 then _ else _) = _
  rw [if_pos hversion]
  rfl

theorem Tc.parsePack_coded (f : Frame) (e : NetEvent) :
    Coded f (Tc.parsePack f e) := by
  by_cases hother : f.IsIp ∧ f.version ≠ 4
  · refine ⟨-2, _, Tc.parsePack_version hother.1 hother.2, by simp, ?_⟩
    intro h
    cases h
  · have hversion : f.IsIp → f.version = 4 := fun hip =>
      not_not.mp fun h => hother ⟨hip, h⟩
    exact (Tc.parsePack_parses f e hversion).coded

-- =============================================================== the events

/-- A program returns, discards the record exactly at code -2, and
otherwise submits an event that marks the outcome of its parser. -/
def TraceMarks (parsePack : Frame → NetEvent → Exec (Int × NetEvent))
    (trace : Frame → Option NetEvent → Exec (Option NetEvent))
    (f : Frame) (e : NetEvent) : Prop :=
  ∃ code e' out, parsePack f e = .ok (code, e')
    ∧ trace f (some e) = .ok out
    ∧ (out = none ↔ code = -2)
    ∧ ∀ sent, out = some sent → Marks f code sent.protocol

theorem Coded.marks {parsePack : Frame → NetEvent → Exec (Int × NetEvent)}
    (h : Coded f (parsePack f e)) (clock : Clock) :
    TraceMarks parsePack (traceNetEvent parsePack clock) f e := by
  obtain ⟨code, e', hparse, hcode, hprotocol⟩ := h
  refine ⟨code, e', submitted clock code e', hparse, ?_, ?_, ?_⟩
  · rw [traceNetEvent, hparse]
    rfl
  · rcases hcode with rfl | rfl | rfl | rfl | rfl | rfl <;> simp [submitted]
  · intro sent hsent
    exact submitted_marks clock hcode hprotocol hsent

/-- Whatever the frame, the clock and the record's contents: both
listeners discard exactly a code of -2, and a submitted protocol of 201,
203, 204 or 205 says that the parser returned -1, -3, -4 or -5, or that
it accepted a packet with that protocol byte; any other outcome shows the
packet's own byte. -/
theorem events_mark (clock : Clock) (f : Frame) (e : NetEvent) :
    TraceMarks Xdp.parsePack (Xdp.xdpTraceNetEvent clock) f e
      ∧ TraceMarks Tc.parsePack (Tc.tcTraceNetEvent clock) f e :=
  ⟨(Xdp.parsePack_parses f e).coded.marks clock,
    (Tc.parsePack_coded f e).marks clock⟩

/-- An IP packet of a given protocol, without payload. -/
def bareIp (protocol : UInt8) : Frame where
  bytes := List.replicate 12 0 ++ [0x08, 0x00, 0x45] ++ List.replicate 8 0
    ++ [protocol] ++ List.replicate 10 0
  len_lt := by simp

/-- A packet of protocol 201 is accepted, and its event is that of a
frame too short for an Ethernet header. -/
theorem packet_as_error :
    (∃ e' sent, Xdp.parsePack (bareIp 201) blankEvent = .ok (0, e')
      ∧ Xdp.xdpTraceNetEvent ⟨0, 0, 0⟩ (bareIp 201) (some blankEvent)
        = .ok (some sent)
      ∧ sent.protocol = 201)
    ∧ ∃ e' sent, Tc.parsePack (bareIp 201) blankEvent = .ok (0, e')
      ∧ Tc.tcTraceNetEvent ⟨0, 0, 0⟩ (bareIp 201) (some blankEvent)
        = .ok (some sent)
      ∧ sent.protocol = 201 :=
  ⟨⟨_, _, rfl, rfl, rfl⟩, ⟨_, _, rfl, rfl, rfl⟩⟩

end XdpIds.Listener
