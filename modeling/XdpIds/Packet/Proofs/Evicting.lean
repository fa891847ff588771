/-
The flow table as it is: an LRU map that evicts entries.

`flow_info_map` holds a bounded number of flows and evicts some to make
room for others, so a flow's entry may go at any time and the flow then
starts anew. `lruRun` is a run of frames and evictions. Its table is that
of the frames that survived (`lruRun_eq`), those that no eviction of
their flow came after, so an entry is the ledger of its flow since it was
last evicted, and a packet is shown the features of that.
-/
import XdpIds.Lib.Evicting
import XdpIds.Packet.Proofs.Ledger

namespace XdpIds

open Keyed (Change)

/-- One frame is handled, or one entry evicted. -/
def lruStep (b : Build) (flows : FlowMap) :
    Change Arrival (BitVec 128) → Exec FlowMap
  | .event a => do
      let (_, s) ← receive b flows a
      return s.flows
  | .drop key => .ok (Function.update flows key none)

/-- Frames handled and entries evicted, one after another. -/
def lruRun (b : Build) (flows : FlowMap)
    (cs : List (Change Arrival (BitVec 128))) : Exec FlowMap :=
  cs.foldlM (lruStep b) flows

/-- The frames that no eviction of their flow comes after. -/
def surviving (b : Build) (cs : List (Change Arrival (BitVec 128))) :
    List Arrival :=
  Keyed.kept (Arrival.key b) cs

variable {b : Build} {mask : BitVec 64}
  {cs : List (Change Arrival (BitVec 128))} {a : Arrival}

/-- A run with evictions leaves the table of the surviving frames. -/
theorem lruRun_eq (hb : b.Declares mask) (hflow : FlowSelected mask)
    (cs : List (Change Arrival (BitVec 128))) :
    lruRun b (fun _ => none) cs
      = .ok ((surviving b cs).foldl (account b) fun _ => none) := by
  have hrun : ∀ flows, lruRun b flows cs
      = .ok (cs.foldl (Keyed.change (Arrival.key b) fun found a =>
          (flowPacket found a.time a.frame.len).1) flows) := by
    induction cs with
    | nil => exact fun flows => rfl
    | cons c cs ih =>
        intro flows
        rw [List.foldl_cons, ← ih]
        cases c with
        | drop key => rfl
        | event a =>
            obtain ⟨code, s, hrun, hs⟩ := receive_account hb hflow flows a
            show (lruStep b flows (.event a) >>= fun flows =>
              lruRun b flows cs) = _
            rw [lruStep, hrun]
            exact congrArg (lruRun b · cs) hs
  rw [hrun]
  exact congrArg Except.ok (Keyed.foldl_change cs)

end XdpIds
