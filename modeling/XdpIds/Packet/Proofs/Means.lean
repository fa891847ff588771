/-
Flow means over the life of a flow.

The packet count has 32 bits and the byte total 64. Below `2 ^ 32`
packets of less than `2 ^ 32` bytes neither wraps, the divisor is the
number of packets and the mean lies between the smallest and the largest
of them (`meaningful_below`). The packet that brings the number to
`2 ^ 32` makes the divisor 0 (`not_meaningful_wrap`), so a run keeps its
means meaningful exactly when it is shorter than that.
-/
import XdpIds.Packet.Proofs.Ledger
import Mathlib.Algebra.Order.BigOperators.Group.List
import Mathlib.Algebra.Group.Action.Defs

namespace XdpIds

variable {h : List Sighting} {p : Sighting}

-- ==================================================================== means

/-- Some element is at most the mean. -/
theorem exists_le_mean {l : List Nat} (hl : 0 < l.length) :
    ∃ a ∈ l, a ≤ l.sum / l.length := by
  by_contra hnone
  have hall : ∀ a ∈ l, l.sum / l.length + 1 ≤ a := fun a ha =>
    Nat.lt_of_not_le fun hle => hnone ⟨a, ha, hle⟩
  have hsum := List.card_nsmul_le_sum l _ hall
  have hdiv := Nat.lt_mul_div_succ l.sum hl
  rw [smul_eq_mul] at hsum
  omega

/-- Some element is at least the mean. -/
theorem exists_mean_le {l : List Nat} (hl : 0 < l.length) :
    ∃ a ∈ l, l.sum / l.length ≤ a := by
  by_contra hnone
  have hall : ∀ a ∈ l, a ≤ l.sum / l.length - 1 := fun a ha =>
    Nat.le_sub_one_of_lt (Nat.lt_of_not_le fun hle => hnone ⟨a, ha, hle⟩)
  have hpos : 0 < l.sum / l.length := by
    obtain ⟨a, ha⟩ := List.exists_mem_of_length_pos hl
    exact Nat.pos_of_ne_zero fun hzero =>
      hnone ⟨a, ha, by rw [hzero]; exact Nat.zero_le a⟩
  have hsum := List.sum_le_card_nsmul l _ hall
  have hdiv := Nat.mul_div_le l.sum l.length
  have hstep : l.length * (l.sum / l.length - 1)
      < l.length * (l.sum / l.length) :=
    Nat.mul_lt_mul_of_pos_left (by omega) hl
  rw [smul_eq_mul] at hsum
  omega

-- ============================================================== one update

/-- A packet that updates an entry divides by a nonzero count, and the
`F_SIZE_MEAN` it writes lies between two lengths of the flow. -/
def Meaningful (h : List Sighting) (p : Sighting) : Prop :=
  ∀ fi, flowRun h = some fi →
    (fi.update p.time p.len).count ≠ 0
      ∧ ∃ mean, lastWrite .sizeMean none
          (flowPacket (some fi) p.time p.len).2 = some mean
        ∧ (∃ q ∈ h ++ [p], q.len ≤ mean.toNat)
        ∧ ∃ q ∈ h ++ [p], mean.toNat ≤ q.len

/-- The packet that completes `2 ^ 32` divides by 0. -/
theorem not_meaningful_wrap (hlen : (h ++ [p]).length = 2 ^ 32) :
    ¬ Meaningful h p := by
  intro hmean
  have htotals := flowRun_totals h
  rw [List.length_append, List.length_singleton] at hlen
  cases hrun : flowRun h with
  | none =>
      rw [hrun] at htotals
      rw [htotals] at hlen
      cases hlen
  | some fi =>
      rw [hrun] at htotals
      apply (hmean fi hrun).1
      apply UInt32.toNat.inj
      show (fi.count + 1).toNat = 0
      rw [UInt32.toNat_add, htotals.2.2]
      show (h.length % 2 ^ 32 + 1) % 2 ^ 32 = 0
      omega

/-- The bytes of a history are bounded by its length. -/
theorem bytes_le (h : List Sighting) : bytes h ≤ h.length * (2 ^ 32 - 1) := by
  have hall : ∀ n ∈ h.map (·.len), n ≤ 2 ^ 32 - 1 := by
    intro n hn
    obtain ⟨q, -, rfl⟩ := List.mem_map.mp hn
    exact Nat.le_sub_one_of_lt q.len_lt
  have hsum := List.sum_le_card_nsmul _ _ hall
  rwa [List.length_map, smul_eq_mul] at hsum

/-- Before that, the means are meaningful. -/
theorem meaningful_below (hlen : (h ++ [p]).length < 2 ^ 32) :
    Meaningful h p := by
  intro fi hrun
  have htotals := flowPacket_totals (flowRun_totals h) p
  rw [hrun] at htotals
  obtain ⟨-, hbytes, hcount⟩ := htotals
  -- neither the total nor the count has wrapped
  have htotal : (fi.update p.time p.len).totBytes.toNat = bytes (h ++ [p]) := by
    refine hbytes.trans (Nat.mod_eq_of_lt ?_)
    have hle := bytes_le (h ++ [p])
    omega
  have hnumber : (fi.update p.time p.len).count.toNat = (h ++ [p]).length :=
    hcount.trans (Nat.mod_eq_of_lt hlen)
  have hpos : 0 < ((h ++ [p]).map (·.len)).length := by simp
  obtain ⟨_, hlow, hle⟩ := exists_le_mean hpos
  obtain ⟨_, hhigh, hge⟩ := exists_mean_le hpos
  obtain ⟨q, hq, rfl⟩ := List.mem_map.mp hlow
  obtain ⟨r, hr, rfl⟩ := List.mem_map.mp hhigh
  rw [List.length_map] at hle hge
  have hmean : ((fi.update p.time p.len).totBytes
      / (fi.update p.time p.len).count.toUInt64).toUInt32.toNat
      = bytes (h ++ [p]) / (h ++ [p]).length := by
    rw [← htotal, ← hnumber]
    apply mean_toNat
    rw [htotal, hnumber]
    exact lt_of_le_of_lt hge r.len_lt
  refine ⟨?_, _, rfl, ⟨q, hq, ?_⟩, ⟨r, hr, ?_⟩⟩
  · intro hzero
    rw [hzero] at hnumber
    simp at hnumber
  · exact hle.trans_eq hmean.symm
  · exact hmean.trans_le hge

-- =================================================================== a run

/-- Every packet of the run that updates an entry is meaningful. -/
def MeansHold (run : List Sighting) : Prop :=
  ∀ h p rest, run = h ++ p :: rest → Meaningful h p

/-- Means stay meaningful exactly as long as the count does not wrap. -/
theorem meansHold_iff (run : List Sighting) :
    MeansHold run ↔ run.length < 2 ^ 32 := by
  constructor
  · intro hmeans
    by_contra hlong
    obtain ⟨n, hn⟩ : ∃ n, n + 1 = 2 ^ 32 := ⟨2 ^ 32 - 1, rfl⟩
    have hlast : n < run.length := by omega
    have hsplit : run = run.take n ++ run[n] :: run.drop (n + 1) := by
      rw [← List.drop_eq_getElem_cons, List.take_append_drop]
    refine not_meaningful_wrap ?_ (hmeans _ _ _ hsplit)
    rw [List.length_append, List.length_take, List.length_singleton]
    omega
  · intro hlen h p rest hrun
    apply meaningful_below
    rw [hrun, List.length_append, List.length_cons] at hlen
    rw [List.length_append, List.length_singleton]
    omega

/-- A 60-byte packet. -/
def smallPacket : Sighting := ⟨0, 60, by decide⟩

/-- A run of `2 ^ 32` of them ends in a division by 0. -/
theorem count_wraps : ¬ MeansHold (List.replicate (2 ^ 32) smallPacket) := by
  obtain ⟨n, hn⟩ : ∃ n, n + 1 = 2 ^ 32 := ⟨2 ^ 32 - 1, rfl⟩
  intro hmeans
  rw [← hn, List.replicate_succ'] at hmeans
  refine not_meaningful_wrap ?_ (hmeans _ _ [] rfl)
  rw [← List.replicate_succ', List.length_replicate, hn]

end XdpIds
