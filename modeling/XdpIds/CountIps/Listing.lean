/-
count_IPs_xdp.usr.c's listing: the text of the dump.

A row is a number, the two columns of its key and the two counters, in
cells behind bars. The number is an `int` and starts at 1; the map has
4096 entries at most.
-/
import XdpIds.CountIps.Dump
import XdpIds.Lib.Text

namespace XdpIds.CountIps

open Text

-- ================================================================== one row

/-- The five values of a row, as text. -/
def rowFields (n : Nat) (row : UInt64 × IpCount) : List (List Char) :=
  [decimal n, (decode row.1).1.toList, (decode row.1).2.toList,
    decimal row.2.count.toNat, decimal row.2.totBytes.toNat]

/-- `%-4d|%-15s|%-15s|%-10llu|%-10llu`, behind the first cell. -/
def rowFormat : List (Char × Nat) :=
  [('|', 15), ('|', 15), ('|', 10), ('|', 10)]

/-- A row's line. -/
def rowLine (n : Nat) (row : UInt64 × IpCount) : List Char :=
  aligned 4 rowFormat (rowFields n row)

-- ================================================================ the listing

/-- `%-4s %-15s %-15s %-10s %-10s`, and the names of the columns. -/
def listingHeader : List Char :=
  aligned 4 [(' ', 15), (' ', 15), (' ', 10), (' ', 10)]
    ["n".toList, "Source IP".toList, "Destination IP".toList,
      "packets".toList, "Bytes".toList]

/-- The line under the header. -/
def listingRule : List Char := List.replicate 64 '-'

/-- The line after the last row. -/
def listingEnd : List Char := " ---END--- ".toList

/-- How long the program ran. -/
def secondsLine (seconds : Int) : List Char :=
  ' ' :: integer seconds ++ " seconds passed ".toList

/-- What is printed of some rows. -/
def listing (rows : List (UInt64 × IpCount)) (seconds : Int) : List Char :=
  unlines (listingHeader :: listingRule
    :: (rows.zipIdx 1).map (fun r => rowLine r.2 r.1)
      ++ [listingEnd, secondsLine seconds])

end XdpIds.CountIps
