/-
The listeners as systems: the program in the kernel, which fills records
of a ring for packets on any CPU, and the user-space loop that prints
them (common_usr_net_listener.h).

# The pipe

A packet is a producer of the ring. Its program reserves a record or is
refused one, in which case it does nothing, and commits the record when
it is done: `listener` is the pipe over what the program makes of each
packet. The consumer is `print_netevent`, whose context is the event
count and the choice of format.

# The log

`printed` is what the loop has written: the header and a line for each
event. print_hist.py reads the comma-separated form back by the names of
its columns.
-/
import XdpIds.CountIps.Dump
import XdpIds.Lib.Pipe
import XdpIds.Lib.Text
import XdpIds.Listener.Event
import XdpIds.Listener.Tracepoint

namespace XdpIds.Listener

open CountIps (inetNtop)
open XdpIds.Ring Text

-- =========================================================== print_netevent

/-- `struct handle_event_ctx`. -/
structure HandleEventCtx where
  nEvents : Nat
  printAll : Bool
deriving DecidableEq, Repr

/-- The user-space process: the context of the callback, and what has
been written to its two outputs. -/
structure Printer where
  ctx : HandleEventCtx
  stdout : List Char
  stderr : List Char

/-- `sizeof(struct netevent)`. -/
def sizeofNetevent : Nat := 28

/-- The ten values of a line, as text. -/
def eventFields (n : Nat) (e : NetEvent) : List (List Char) :=
  [decimal n, (inetNtop e.srcIp).toList, decimal e.srcPort.toNat,
    (inetNtop e.dstIp).toList, decimal e.dstPort.toNat,
    decimal e.protocol.toNat, decimal e.packetSize.toNat,
    decimal e.tParsing.toNat, decimal e.tClassification.toNat,
    decimal e.tTot.toNat]

/-- `%-15s:%-8s %-15s:%-8s %-8s %-8s|%-8s %-8s %-8s`, behind the first
cell. -/
def eventFormat : List (Char × Nat) :=
  [(' ', 15), (':', 8), (' ', 15), (':', 8), (' ', 8), (' ', 8), ('|', 8),
    (' ', 8), (' ', 8)]

/-- A line of either format. -/
def eventLine (printAll : Bool) (fields : List (List Char)) : List Char :=
  if printAll then joined ',' fields else aligned 4 eventFormat fields

/-- The names of the columns, in either format. -/
def headerFields (printAll : Bool) : List (List Char) :=
  if printAll then
    ["n".toList, "ipS".toList, "portS".toList, "ipD".toList, "portD".toList,
      "protocol".toList, "size".toList, "time_parsing".toList,
      "time_class".toList, "time_total".toList]
  else
    ["n".toList, "ipS".toList, "portS".toList, "ipD".toList, "portD".toList,
      "prot".toList, "size".toList, "parsing".toList, "class".toList,
      "total(ns)".toList]

/-- `print_netevent_header`. -/
def printNeteventHeader (printAll : Bool) : List Char :=
  unlines [eventLine printAll (headerFields printAll)]

/-- `print_netevent`, on a record of `dataSz` bytes. `none` is the count
overflowing its `int`. -/
def printNetevent (dataSz : Nat) (s : Printer) (e : NetEvent) :
    Option Printer :=
  let n := s.ctx.nEvents + 1
  if 2 ^ 31 ≤ n then none
  else
    let s := { s with ctx := { s.ctx with nEvents := n } }
    if dataSz < sizeofNetevent then
      some { s with
        stderr := s.stderr ++ unlines ["Error: event size mismatch".toList] }
    else
      some { s with
        stdout := s.stdout
          ++ unlines [eventLine s.ctx.printAll (eventFields n e)] }

/-- The process when its loop starts. -/
def Printer.start (printAll : Bool) : Printer :=
  ⟨⟨0, printAll⟩, printNeteventHeader printAll, []⟩

-- ================================================================= the pipe

/-- A listener over what its program makes of a packet's record. The
records are as long as they are reserved. -/
def listener {ι : Type} (record : ι → Exec (Option NetEvent)) :
    Pipe ι NetEvent Unit Printer where
  recorded p _ := (record p).toOption.map fun out => (out, ())
  unrecorded _ _ := some ()
  consume := printNetevent sizeofNetevent

/-- A frame, the program's readings of the clock, and what its record
holds when it is reserved. -/
structure Listened where
  frame : Frame
  clock : Clock
  slot : NetEvent

/-- net_listener_xdp.bpf.c on a packet. -/
def xdpRecord (p : Listened) : Exec (Option NetEvent) :=
  Xdp.xdpTraceNetEvent p.clock p.frame (some p.slot)

/-- net_listener_tc.bpf.c on a packet. -/
def tcRecord (p : Listened) : Exec (Option NetEvent) :=
  Tc.tcTraceNetEvent p.clock p.frame (some p.slot)

/-- The two listeners that see raw frames. -/
inductive Hook where
  | xdp
  | tc
deriving DecidableEq, Repr

/-- What a hook's program makes of a packet. -/
def Hook.record : Hook → Listened → Exec (Option NetEvent)
  | .xdp => xdpRecord
  | .tc => tcRecord

/-- net_listener.bpf.c's `trace_netif_receive_skb`, given the reserved
record if there is one: the other two's program over its own parser. -/
def Tracepoint.traceNetifReceiveSkb (clock : Clock) (skb : Option SkBuff)
    (ne : Option NetEvent) : Option NetEvent :=
  match ne with
  | none => none
  | some _ =>
      let (err, e) := Tracepoint.parsePack skb
      submitted clock err e

-- ================================================================== the log

/-- A row for each event, numbered from `n` on. -/
def eventRows (n : Nat) (events : List NetEvent) :
    List (List (List Char)) :=
  (events.zipIdx n).map fun r => eventFields r.2 r.1

/-- What has been printed of a list of events. -/
def printed (printAll : Bool) (events : List NetEvent) : List Char :=
  printNeteventHeader printAll
    ++ unlines ((eventRows 1 events).map (eventLine printAll))

/-- print_hist.py's two series: the values of a column on the rows that
have iperf's port in the column `portD`, and on the others. -/
def printHist (feature : List Char) (log : List Char) :
    Option (List Nat × List Nat) := do
  let df ← readTable ',' log
  let portD ← (← df.column "portD".toList).mapM decimal?
  let values ← (← df.column feature).mapM decimal?
  let rows := portD.zip values
  return ((rows.filter fun r => r.1 = 5201).map (·.2),
    (rows.filter fun r => r.1 ≠ 5201).map (·.2))

end XdpIds.Listener
