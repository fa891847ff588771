/-
What a flow's inter-arrival features say about its timestamps.

The nanoseconds between consecutive packets add up to the flow's span,
last timestamp less first (`sum_gapsNs`). The code adds them up in whole
milliseconds, each gap floored before the sum, so the entry's total
falls short of the span by what the floors drop (`lostNs`), and is the
span's whole milliseconds exactly when less than one is dropped
(`totIat_exact_iff`).

`F_IAT_MEAN` divides that total by the packet count, which is one more
than the number of gaps, and floors again. It is thus never above the
mean gap; `iatMean_close_iff` says when it is near.
-/
import XdpIds.Lib.Residue
import XdpIds.Packet.Proofs.Ledger
import Mathlib.Tactic.FieldSimp
import Mathlib.Tactic.Ring

namespace XdpIds

open Residue

variable {mask : BitVec 64} {key : BitVec 128}
  {h : List Sighting} {p q : Sighting}

-- ============================================================== nanoseconds

/-- The nanoseconds between consecutive packets. -/
def gapsNs : List Sighting → List Nat
  | p :: q :: rest => (q.time.toNat - p.time.toNat) :: gapsNs (q :: rest)
  | _ => []

/-- From the first packet to the last. -/
def spanNs : List Sighting → Nat
  | [] => 0
  | p :: rest =>
      ((p :: rest).getLast (List.cons_ne_nil _ _)).time.toNat - p.time.toNat

/-- What the gaps have below the millisecond. -/
def lostNs (h : List Sighting) : Nat := ((gapsNs h).map (· % 10 ^ 6)).sum

theorem gapsMs_eq (h : List Sighting) :
    gapsMs h = (gapsNs h).map (· / 10 ^ 6) := by
  induction h with
  | nil => rfl
  | cons p h ih =>
      cases h with
      | nil => rfl
      | cons q h => exact congrArg (p.gapMs q :: ·) ih

/-- In order, the gaps telescope. -/
theorem sum_gapsNs (hord : InOrder h) : (gapsNs h).sum = spanNs h := by
  induction h with
  | nil => rfl
  | cons p h ih =>
      cases h with
      | nil => exact (Nat.sub_self _).symm
      | cons q h =>
          obtain ⟨hp, hrest⟩ := List.pairwise_cons.mp hord
          have hfirst : p.time.toNat ≤ q.time.toNat :=
            hp q List.mem_cons_self
          have hlast : q.time.toNat
              ≤ ((q :: h).getLast (List.cons_ne_nil _ _)).time.toNat := by
            cases h with
            | nil => exact Nat.le_refl _
            | cons r h =>
                rw [List.getLast_cons_cons]
                exact (List.pairwise_cons.mp hrest).1 _ (List.getLast_mem _)
          rw [gapsNs, List.sum_cons, ih hrest, spanNs, spanNs,
            List.getLast_cons_cons]
          omega

/-- The floors leave the span short by what they drop. -/
theorem gapsMs_lostNs (hord : InOrder h) :
    10 ^ 6 * (gapsMs h).sum + lostNs h = spanNs h := by
  rw [gapsMs_eq, lostNs, sum_div_mod, sum_gapsNs hord]

theorem spanNs_lt (h : List Sighting) : spanNs h < 2 ^ 64 := by
  cases h with
  | nil => decide
  | cons p h => exact lt_of_le_of_lt (Nat.sub_le _ _) (UInt64.toNat_lt _)

/-- So the total of the gaps never wraps. -/
theorem flowRun_totIat (hord : InOrder h) {fi : FlowInfo}
    (hfi : flowRun h = some fi) : fi.totIat.toNat = (gapsMs h).sum := by
  have hsum := gapsMs_lostNs hord
  have hspan := spanNs_lt h
  rw [flowRun_iat hord hfi]
  exact Nat.mod_eq_of_lt (by omega)

-- =================================================================== totals

/-- After any run, a flow's inter-arrival total is the whole milliseconds
between its first packet and its last exactly when the parts of its gaps
below the millisecond add up to less than one. -/
theorem totIat_exact_iff {mask : BitVec 64} (hflow : FlowSelected mask)
    {key : BitVec 128} {run : List Arrival}
    (hord : InOrder (history (.ofMask mask) key run))
    (hne : history (.ofMask mask) key run ≠ []) :
    ∃ flows fi,
      receiveAll (.ofMask mask) (fun _ => none) run = .ok flows
      ∧ flows key = some fi
      ∧ ((fi.totIat.toNat * 10 ^ 6 ≤ spanNs (history (.ofMask mask) key run)
          ∧ spanNs (history (.ofMask mask) key run)
            < (fi.totIat.toNat + 1) * 10 ^ 6)
        ↔ lostNs (history (.ofMask mask) key run) < 10 ^ 6) := by
  have hb := Build.ofMask_declares mask
  have hrun := receiveAll_eq hb hflow (fun _ => none) run
  have hentry := account_history (.ofMask mask) key run
  obtain ⟨fi, hfi⟩ := flowRun_some hne
  refine ⟨_, fi, hrun, hentry.trans hfi, ?_⟩
  rw [flowRun_totIat hord hfi, Nat.mul_comm, Nat.mul_comm _ (10 ^ 6),
    gapsMs_eq, ← sum_gapsNs hord, lostNs]
  exact floored_iff _ _

/-- Two packets 5.999999 ms apart. -/
theorem totIat_exact_udpAt :
    ∃ flows fi,
      receiveAll (.ofMask flowMask) (fun _ => none)
          [udpAt 0, udpAt 5999999] = .ok flows
      ∧ flows udpKey = some fi
      ∧ fi.totIat.toNat * 10 ^ 6 ≤ 5999999
      ∧ 5999999 < (fi.totIat.toNat + 1) * 10 ^ 6 := by
  have hhist := history_udpPair 5999999
  have hord := udpPair_inOrder 5999999
  obtain ⟨flows, fi, hrun, hfi, hexact⟩ :=
    totIat_exact_iff (by decide) hord (by rw [hhist]; decide)
  rw [hhist] at hexact
  exact ⟨flows, fi, hrun, hfi, hexact.mpr (by decide)⟩

/-- Three packets 0.9 ms apart: 1.8 ms, of which the entry has none. -/
theorem totIat_drifts :
    let run := [udpAt 0, udpAt 900000, udpAt 1800000]
    InOrder (history (.ofMask flowMask) udpKey run)
      ∧ spanNs (history (.ofMask flowMask) udpKey run) = 1800000
      ∧ ∃ flows fi,
        receiveAll (.ofMask flowMask) (fun _ => none) run = .ok flows
        ∧ flows udpKey = some fi
        ∧ ¬ 1800000 < (fi.totIat.toNat + 1) * 10 ^ 6 := by
  have hhist := history_udpAt udpKey [0, 900000, 1800000]
  rw [if_pos rfl] at hhist
  intro run
  have hrun : history (.ofMask flowMask) udpKey run = _ := hhist
  rw [hrun]
  refine ⟨?_, by decide, ?_⟩
  · unfold InOrder
    decide
  · exact ⟨_, ⟨1800000, 126, 0, 3⟩, rfl, by decide, by decide⟩

-- ==================================================================== means

/-- The true mean of a flow's gaps, in milliseconds. -/
def meanGapMs (h : List Sighting) : ℚ :=
  spanNs h / (((h.length : ℚ) - 1) * 10 ^ 6)

/-- What the floors drop, in milliseconds. -/
def lostMs (h : List Sighting) : ℚ := lostNs h / 10 ^ 6

/-- What is written at a later packet of a flow: the gaps' whole
milliseconds over the number of packets. -/
theorem iatMean_written (hord : InOrder (h ++ [p])) (hne : h ≠ [])
    (hcount : (h ++ [p]).length < 2 ^ 32)
    (hsmall : (gapsMs (h ++ [p])).sum / (h ++ [p]).length < 2 ^ 32)
    (old : Option UInt32) :
    ∃ v, lastWrite .iatMean old (flowPacket (flowRun h) p.time p.len).2
        = some v
      ∧ v.toNat = (gapsMs (h ++ [p])).sum / (h ++ [p]).length := by
  have ht := flowRun_totals (h ++ [p])
  have hconcat := flowRun_concat h p
  obtain ⟨fi, hrun⟩ := flowRun_some hne
  rw [hrun] at hconcat ⊢
  rw [hconcat] at ht
  have htot := flowRun_totIat hord hconcat
  have hn := ht.2.2.trans (Nat.mod_eq_of_lt hcount)
  refine ⟨_, rfl, ?_⟩
  rw [← htot, ← hn] at hsmall ⊢
  exact mean_toNat hsmall

/-- The quotient is at most the mean gap, and falls short of its share
by what was dropped. -/
theorem quotient_eq (hord : InOrder h) (htwo : 2 ≤ h.length) :
    (((gapsMs h).sum : ℚ) / h.length) * h.length
      = ((h.length : ℚ) - 1) * meanGapMs h - lostMs h := by
  have hn : (2 : ℚ) ≤ h.length := by exact_mod_cast htwo
  have hsum : (10 ^ 6 : ℚ) * (gapsMs h).sum + lostNs h = spanNs h := by
    exact_mod_cast gapsMs_lostNs hord
  have hgaps : (h.length : ℚ) - 1 ≠ 0 := by linarith
  have hpackets : (h.length : ℚ) ≠ 0 := by linarith
  rw [meanGapMs, lostMs, ← hsum]
  field_simp
  ring

theorem meanGapMs_pair (p q : Sighting) :
    meanGapMs [p, q] = ((q.time.toNat - p.time.toNat : Nat) : ℚ) / 10 ^ 6 := by
  have hgaps : (([p, q] : List Sighting).length : ℚ) - 1 = 1 := by norm_num
  rw [meanGapMs, hgaps, one_mul]
  rfl

theorem meanGapMs_nonneg (htwo : 2 ≤ h.length) : 0 ≤ meanGapMs h := by
  have hn : (2 : ℚ) ≤ h.length := by exact_mod_cast htwo
  refine div_nonneg (Nat.cast_nonneg _) (mul_nonneg ?_ (by norm_num))
  linarith

/-- When the floored quotient is within 2 of the mean gap. -/
theorem quotient_close_iff (hord : InOrder h) (htwo : 2 ≤ h.length) :
    |(((gapsMs h).sum / h.length : Nat) : ℚ) - meanGapMs h| < 2
      ↔ meanGapMs h + lostMs h
        ≤ h.length * (1 + Int.fract (meanGapMs h)) := by
  have hn : (0 : ℚ) < h.length := by
    exact_mod_cast lt_of_lt_of_le Nat.two_pos htwo
  have hquot := quotient_eq hord htwo
  have hmean := meanGapMs_nonneg htwo
  have hlost : 0 ≤ lostMs h := div_nonneg (Nat.cast_nonneg _) (by norm_num)
  have hfloor : (((gapsMs h).sum / h.length : Nat) : ℚ)
      = (⌊((gapsMs h).sum : ℚ) / h.length⌋ : ℚ) := by
    rw [Rat.floor_natCast_div_natCast]
    norm_cast
  have hle : ((gapsMs h).sum : ℚ) / h.length ≤ meanGapMs h := by
    refine le_of_mul_le_mul_right ?_ hn
    linarith
  rw [hfloor, floor_close_iff hle, ← mul_le_mul_iff_of_pos_right hn, hquot,
    Int.fract]
  constructor
  · intro hnear
    linarith
  · intro hnear
    linarith

/-- At a flow's second packet or a later one `F_IAT_MEAN` is within 2 of
the mean gap exactly when the mean gap and what the floors dropped are
together at most `n` times one more than the mean gap's fraction, `n`
the packets. -/
theorem iatMean_close_iff {mask : BitVec 64} {key : BitVec 128}
    (hsel : Selected mask .iatMean) {earlier : List Arrival} {a : Arrival}
    (hkey : a.key (.ofMask mask) = some key)
    (hord : InOrder (history (.ofMask mask) key (earlier ++ [a])))
    (htwo : 2 ≤ (history (.ofMask mask) key (earlier ++ [a])).length)
    (hcount : (history (.ofMask mask) key (earlier ++ [a])).length < 2 ^ 32)
    (hsmall : (gapsMs (history (.ofMask mask) key (earlier ++ [a]))).sum
      / (history (.ofMask mask) key (earlier ++ [a])).length < 2 ^ 32) :
    ∃ flows s v,
      receiveAll (.ofMask mask) (fun _ => none) earlier = .ok flows
      ∧ receive (.ofMask mask) flows a = .ok (0, s)
      ∧ s.fv[rank mask (Feature.bit .iatMean)]? = some v
      ∧ (|(v.toNat : ℚ)
            - meanGapMs (history (.ofMask mask) key (earlier ++ [a]))| < 2
        ↔ meanGapMs (history (.ofMask mask) key (earlier ++ [a]))
            + lostMs (history (.ofMask mask) key (earlier ++ [a]))
          ≤ (history (.ofMask mask) key (earlier ++ [a])).length
            * (1 + Int.fract (meanGapMs
              (history (.ofMask mask) key (earlier ++ [a]))))) := by
  have hb := Build.ofMask_declares mask
  have hflow : FlowSelected mask :=
    flowSelected_iff_bit.mpr ⟨Feature.iatMean.bit, by decide, hsel⟩
  have hrun := receiveAll_eq hb hflow (fun _ => none) earlier
  obtain ⟨s, hcall, -, hslots⟩ := receive_shows hb hflow hkey earlier
  obtain ⟨old, hslot⟩ := hslots .iatMean hsel
  have hhist := history_concat (.ofMask mask) key earlier a
  rw [if_pos hkey] at hhist
  have hclose := quotient_close_iff hord htwo
  rw [hhist] at hord htwo hcount hsmall
  have hne : history (.ofMask mask) key earlier ≠ [] := by
    intro hnil
    rw [hnil] at htwo
    exact absurd htwo (by simp)
  obtain ⟨v, hv, hvalue⟩ := iatMean_written (p := a.sighting) hord hne hcount
    hsmall old
  refine ⟨_, s, v, hrun, hcall, hslot.trans hv, ?_⟩
  rw [← hclose, hvalue, ← hhist]

/-- Two packets, two milliseconds apart. -/
theorem iatMean_close_udpAt :
    ∃ flows s v,
      receiveAll (.ofMask flowMask) (fun _ => none) [udpAt 0] = .ok flows
      ∧ receive (.ofMask flowMask) flows (udpAt 2000000) = .ok (0, s)
      ∧ s.fv[rank flowMask (Feature.bit .iatMean)]? = some v
      ∧ |(v.toNat : ℚ) - 2| < 2 := by
  have hhist : history (.ofMask flowMask) udpKey ([udpAt 0] ++ [udpAt 2000000])
      = [(udpAt 0).sighting, (udpAt 2000000).sighting] :=
    history_udpPair 2000000
  obtain ⟨flows, s, v, hrun, hcall, hv, hclose⟩ := iatMean_close_iff
    (by decide) (udpAt_key 2000000) (udpPair_inOrder 2000000)
    (by rw [hhist]; decide) (by rw [hhist]; decide) (by rw [hhist]; decide)
  have hmean : meanGapMs [(udpAt 0).sighting, (udpAt 2000000).sighting]
      = 2 := by
    rw [meanGapMs_pair]
    show ((2000000 : Nat) : ℚ) / 10 ^ 6 = 2
    norm_num
  have hlost : lostMs [(udpAt 0).sighting, (udpAt 2000000).sighting] = 0 :=
    zero_div _
  rw [hhist, hmean, hlost] at hclose
  exact ⟨flows, s, v, hrun, hcall, hv, hclose.mpr (by norm_num)⟩

/-- Two packets ten milliseconds apart: the mean written is 5. -/
theorem iatMean_halved :
    InOrder (history (.ofMask flowMask) udpKey
        ([udpAt 0] ++ [udpAt 10000000]))
      ∧ meanGapMs (history (.ofMask flowMask) udpKey
        ([udpAt 0] ++ [udpAt 10000000])) = 10
      ∧ ∃ flows s v,
        receiveAll (.ofMask flowMask) (fun _ => none) [udpAt 0] = .ok flows
        ∧ receive (.ofMask flowMask) flows (udpAt 10000000) = .ok (0, s)
        ∧ s.fv[rank flowMask (Feature.bit .iatMean)]? = some v
        ∧ v.toNat = 5
        ∧ ¬ |(v.toNat : ℚ) - 10| < 2 := by
  have hhist : history (.ofMask flowMask) udpKey ([udpAt 0] ++ [udpAt 10000000])
      = [(udpAt 0).sighting, (udpAt 10000000).sighting] :=
    history_udpPair 10000000
  refine ⟨udpPair_inOrder 10000000, ?_, _, _, 5, rfl, rfl, by decide, rfl, ?_⟩
  · rw [hhist, meanGapMs_pair]
    show ((10000000 : Nat) : ℚ) / 10 ^ 6 = 10
    norm_num
  · show ¬ |((5 : Nat) : ℚ) - 10| < 2
    norm_num

end XdpIds
