/-
dt_xdp.usr.c's `print_log` and the table header.

`decisionFields` are the seven values of a line. The size is an unsigned
32-bit number printed with `%d`, so from 2^31 on it is printed negative.
-/
import XdpIds.CountIps.Dump
import XdpIds.Lib.Text
import XdpIds.Packet.Parse

namespace XdpIds.DtXdp

open CountIps (inetNtop)
open Text

-- ================================================================ print_log

/-- A 32-bit value as `%d` takes it. -/
def asInt (x : UInt32) : Int := x.toBitVec.toInt

/-- `d->decision ? "PASS" : "DROP"`. -/
def decisionText (decision : Bool) : List Char :=
  if decision then "PASS".toList else "DROP".toList

/-- The seven values of a line, as text. -/
def decisionFields (e : NetEvent) : List (List Char) :=
  [(inetNtop e.srcIp).toList, decimal e.srcPort.toNat,
    (inetNtop e.dstIp).toList, decimal e.dstPort.toNat,
    decimal e.protocol.toNat, integer (asInt e.packetSize),
    decisionText e.decision]

/-- `%-15s:%-5d|%-15s:%-5d|%-8d|%-6d|%-5s`, behind the first cell. -/
def decisionFormat : List (Char × Nat) :=
  [(':', 5), ('|', 15), (':', 5), ('|', 8), ('|', 6), ('|', 5)]

/-- A line of the log. -/
def decisionLine (fields : List (List Char)) : List Char :=
  aligned 15 decisionFormat fields

/-- The table header. -/
def logHeader : List Char :=
  unlines [decisionLine ["SRC_IP".toList, "PORT".toList, "DST_IP".toList,
    "PORT".toList, "PROTOC".toList, "SIZE".toList, "Dec?".toList]]

/-- `print_log`: one more line on standard output. -/
def printLog (stdout : List Char) (e : NetEvent) : List Char :=
  stdout ++ unlines [decisionLine (decisionFields e)]

end XdpIds.DtXdp
