/-
The feature vector bit by bit: dt_xdp.bpf.c's `fvifupdate` for every id
`2^k` of the 64-bit range, whether or not project_features.h has a name
for it.

The slot of a selected bit is its rank in the mask, so the slots of a
vector with one slot for each selected bit are the ranks of the selected
bits, each taken once. A sequence of calls that covers the selected bits
therefore leaves the same vector in any order, the values sorted by bit
(`putBits_all`), which is the order of FEATURE_NAMES when the names
are ascending (`bits_maskOf`).
-/
import XdpIds.Packet.Proofs.Columns

namespace XdpIds

variable {mask : BitVec 64}

-- ============================================================ the selection

/-- The selected bits, ascending. -/
def selectedBits (mask : BitVec 64) : List Nat :=
  Rank.below (fun i => mask.getLsbD i = true) 64

/-- A selected bit's slot is its place among the selected bits. -/
theorem selectedBits_rank {k : Nat} (hk : mask.getLsbD k = true) :
    (selectedBits mask)[rank mask k]? = some k :=
  Rank.getElem?_rank (BitVec.lt_of_getLsbD hk) hk

/-- Every slot is a selected bit's. -/
theorem exists_bit {j : Nat} (hj : j < popcount mask) :
    ∃ k, mask.getLsbD k = true ∧ rank mask k = j := by
  obtain ⟨k, -, hk, hrank⟩ := Rank.exists_rank hj
  exact ⟨k, hk, hrank⟩

-- ================================================================ any order

/-- `fvifupdate` calls for the bits of a list, in its order. -/
def writeBits (b : Build) (fv : b.Fv) (value : Nat → UInt32)
    (order : List Nat) : Exec b.Fv :=
  order.foldlM
    (fun fv k => fvIfUpdate b fv (BitVec.twoPow 128 k) (value k)) fv

theorem writeBits_eq {b : Build} (hb : b.Declares mask) (fv : b.Fv)
    (value : Nat → UInt32) {order : List Nat} (horder : ∀ k ∈ order, k < 64) :
    writeBits b fv value order
      = .ok (order.foldl (fun fv k => putBit mask fv k (value k)) fv) := by
  unfold writeBits
  induction order generalizing fv with
  | nil => rfl
  | cons k order ih =>
      rw [List.foldlM_cons, fvIfUpdate_bit hb fv (horder k List.mem_cons_self),
        List.foldl_cons]
      exact ih _ fun l hl => horder l (List.mem_cons_of_mem k hl)

/-- A selected bit's slot after the calls. -/
theorem putBits_slot {n k : Nat} (hroom : popcount mask ≤ n)
    (hk : mask.getLsbD k = true) (value : Nat → UInt32) (order : List Nat)
    (fv : Vector UInt32 n) :
    (order.foldl (fun fv k => putBit mask fv k (value k)) fv)[rank mask k]?
      = if k ∈ order then some (value k) else fv[rank mask k]? := by
  induction order generalizing fv with
  | nil => rw [List.foldl_nil, if_neg List.not_mem_nil]
  | cons l order ih =>
      rw [List.foldl_cons, ih, putBit_slot hroom hk]
      by_cases hlater : k ∈ order
      · rw [if_pos hlater, if_pos (List.mem_cons_of_mem l hlater)]
      · rw [if_neg hlater]
        by_cases hlk : l = k
        · rw [if_pos hlk, hlk, if_pos List.mem_cons_self]
        · rw [if_neg hlk, if_neg fun h =>
            (List.mem_cons.mp h).elim (fun heq => hlk heq.symm) hlater]

/-- Calls that cover the selected bits leave their values sorted by
bit. -/
theorem putBits_all {n : Nat} (hn : n = popcount mask) (fv : Vector UInt32 n)
    (value : Nat → UInt32) {order : List Nat}
    (hall : ∀ k, mask.getLsbD k = true → k ∈ order) :
    (order.foldl (fun fv k => putBit mask fv k (value k)) fv).toList
      = (selectedBits mask).map value := by
  apply List.ext_getElem?
  intro j
  rw [Vector.getElem?_toList, List.getElem?_map]
  rcases Nat.lt_or_ge j n with hj | hj
  · obtain ⟨k, hk, rfl⟩ := exists_bit (hn ▸ hj)
    rw [putBits_slot hn.ge hk, if_pos (hall k hk), selectedBits_rank hk]
    rfl
  · have hlen : (selectedBits mask).length ≤ j :=
      (Rank.length_below 64).trans_le (hn.symm.trans_le hj)
    rw [Vector.getElem?_eq_none hj, List.getElem?_eq_none hlen]
    rfl

-- ================================================================ the slots

/-- For every mask, every id `2^k` of the range and a vector with a slot
for each selected bit: the loop ends within `k` shifts, none of which
has shifted `curr_f` out, and the call writes exactly the slot that is
the number of selected bits below `k`, or nothing when `k` is not
selected. So each slot is one selected bit's alone, and calls for all of
them, in any order, leave the values in the order of the exporter's
names. -/
theorem fvIfUpdate_rank (mask : BitVec 64) (fv : (Build.ofMask mask).Fv) :
    (∀ k, k < 64 → ∀ newval : UInt32,
      (∀ i, i ≤ k → BitVec.twoPow 64 i ≠ 0)
      ∧ rankLoop mask (BitVec.twoPow 128 k) k 1 0 = .ok (rank mask k)
      ∧ (mask.getLsbD k = true →
          ∃ h : rank mask k < (Build.ofMask mask).featureNb,
          fvIfUpdate (.ofMask mask) fv (BitVec.twoPow 128 k) newval
            = .ok (fv.set (rank mask k) newval h))
      ∧ (mask.getLsbD k = false →
          fvIfUpdate (.ofMask mask) fv (BitVec.twoPow 128 k) newval = .ok fv))
    ∧ (∀ j, j < popcount mask →
        ∃! k, mask.getLsbD k = true ∧ rank mask k = j)
    ∧ (∀ (value : Nat → UInt32) (order : List Nat), (∀ k ∈ order, k < 64) →
        (∀ k, mask.getLsbD k = true → k ∈ order) →
        ∃ out, writeBits (.ofMask mask) fv value order = .ok out
          ∧ out.toList = (selectedBits mask).map value)
    ∧ ∀ names, Ascending names → maskOf names = mask →
        selectedBits mask = names.map Feature.bit := by
  have hb := Build.ofMask_declares mask
  refine ⟨fun k hk newval => ⟨?_, ?_, ?_, ?_⟩, ?_, ?_, ?_⟩
  · intro i hi hzero
    have hbit := congrArg BitVec.toNat hzero
    rw [BitVec.toNat_twoPow_of_lt (by omega)] at hbit
    exact absurd hbit (Nat.two_pow_pos i).ne'
  · exact rankLoop_from hk k 0 k (Nat.zero_add k) (Nat.le_refl k)
  · intro hbit
    have hroom : rank mask k < (Build.ofMask mask).featureNb := rank_lt hbit
    refine ⟨hroom, ?_⟩
    rw [fvIfUpdate_bit hb fv hk, putBit_set hbit hroom]
  · intro hbit
    rw [fvIfUpdate_bit hb fv hk, putBit, hbit]
    rfl
  · intro j hj
    obtain ⟨k, hk, hrank⟩ := exists_bit hj
    refine ⟨k, ⟨hk, hrank⟩, fun l hl => ?_⟩
    exact rank_injective hl.1 hk (hl.2.trans hrank.symm)
  · intro value order horder hall
    exact ⟨_, writeBits_eq hb fv value horder, putBits_all rfl fv value hall⟩
  · rintro names hasc rfl
    exact (bits_maskOf hasc).symm

end XdpIds
