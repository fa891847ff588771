/-
The programs around the raw-frame parsers: net_listener_xdp.bpf.c's
`xdp_trace_net_event` and net_listener_tc.bpf.c's `tc_trace_net_event`.

They are one program over two parsers: reserve a record, parse into it,
add the times, and submit it or discard it by the parser's code. An error
is submitted too, with a number of its own in the field of the packet's
protocol. Both always let the packet pass, so the record is all there is
to model.
-/
import XdpIds.Listener.Pack

namespace XdpIds.Listener

/-- The readings of the clock: on entry, with the record reserved, and
after parsing. -/
structure Clock where
  t0 : UInt64
  t1 : UInt64
  t2 : UInt64

/-- `((now - since) >= 0xFFFF ? 0xFFFF : (__u16) now-since)`, where the
cast is of `now` alone. -/
def elapsed16 (since now : UInt64) : UInt16 :=
  if 0xFFFF ≤ now - since then 0xFFFF
  else (now.toUInt16.toUInt64 - since).toUInt16

/-- What becomes of the record after parsing: submitted, or discarded. -/
def submitted (clock : Clock) (err : Int) (e : NetEvent) : Option NetEvent :=
  let e := { e with
    tParsing := elapsed16 clock.t1 clock.t2
    tTot := elapsed16 clock.t0 clock.t2
    tClassification := 0
    decision := false }
  if err = -1 then some { e with protocol := 201 }
  else if err = -2 then none
  else if err = -3 then some { e with protocol := 203 }
  else if err = -4 then some { e with protocol := 204 }
  else if err = -5 then some { e with protocol := 205 }
  else if err < 0 then some { e with protocol := 244 }
  else some e

/-- The program over a parser, given the reserved record if there is
one. -/
def traceNetEvent (parsePack : Frame → NetEvent → Exec (Int × NetEvent))
    (clock : Clock) (f : Frame) (ne : Option NetEvent) :
    Exec (Option NetEvent) :=
  match ne with
  | none => .ok none
  | some e => do
      let (err, e) ← parsePack f e
      return submitted clock err e

/-- net_listener_xdp.bpf.c's `xdp_trace_net_event`. -/
def Xdp.xdpTraceNetEvent :
    Clock → Frame → Option NetEvent → Exec (Option NetEvent) :=
  traceNetEvent Xdp.parsePack

/-- net_listener_tc.bpf.c's `tc_trace_net_event`. -/
def Tc.tcTraceNetEvent :
    Clock → Frame → Option NetEvent → Exec (Option NetEvent) :=
  traceNetEvent Tc.parsePack

/-- The cast of one operand makes no difference: the field is the time
elapsed, up to its width. -/
theorem elapsed16_toNat (since now : UInt64) :
    (elapsed16 since now).toNat = min (now - since).toNat 0xFFFF := by
  unfold elapsed16
  by_cases hlong : 0xFFFF ≤ now - since
  · have hlong' : 0xFFFF ≤ (now - since).toNat := hlong
    rw [if_pos hlong, Nat.min_eq_right hlong']
    rfl
  · have hshort : (now - since).toNat < 0xFFFF := Nat.not_le.mp hlong
    have hs := since.toNat_lt
    have hn := now.toNat_lt
    rw [if_neg hlong, Nat.min_eq_left hshort.le, UInt64.toNat_toUInt16,
      UInt64.toNat_sub, UInt16.toNat_toUInt64, UInt64.toNat_toUInt16]
    rw [UInt64.toNat_sub] at hshort ⊢
    omega

end XdpIds.Listener
