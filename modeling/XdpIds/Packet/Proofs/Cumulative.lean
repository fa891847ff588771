/-
Cumulative flow features never go backwards, as long as 32 bits hold
them.

A flow's byte total, inter-arrival total and packet count are each the
running total of one number per packet (`increments`). The entry keeps
the first two in 64 bits, but the tree is passed the low 32
(`column_eq`), and unlike `F_IAT` no total is clamped first. So a
feature goes back at the packet at which its total, taken modulo
`2 ^ 32`, wraps, and never does exactly when the increments' residues
add up to less than `2 ^ 32` (`neverBack_iff`).
-/
import XdpIds.Lib.Residue
import XdpIds.Packet.Proofs.Ledger

namespace XdpIds

open Residue

variable {mask : BitVec 64} {key : BitVec 128} {f : Feature}
  {h : List Sighting} {p : Sighting}

-- ============================================================= increments

/-- The cumulative flow features. -/
def Feature.cumulative : List Feature := [.sizeTot, .iatTot, .pktNb]

/-- What each packet of a history adds to a cumulative feature. -/
def increments : Feature → List Sighting → List Nat
  | .sizeTot, h => h.map (·.len)
  | .pktNb, h => h.map fun _ => 1
  | .iatTot, p :: h => 0 :: gapsMs (p :: h)
  | _, _ => []

theorem increments_iat (hne : h ≠ []) :
    increments .iatTot h = 0 :: gapsMs h := by
  cases h with
  | nil => exact absurd rfl hne
  | cons p h => rfl

theorem mem_cumulative (hf : f ∈ Feature.cumulative) :
    f = .sizeTot ∨ f = .iatTot ∨ f = .pktNb := by
  simpa [Feature.cumulative] using hf

/-- One packet more is one increment more. -/
theorem increments_concat (hf : f ∈ Feature.cumulative)
    (h : List Sighting) (p : Sighting) :
    ∃ d, increments f (h ++ [p]) = increments f h ++ [d] := by
  rcases mem_cumulative hf with rfl | rfl | rfl
  · exact ⟨p.len, List.map_append⟩
  · induction h using List.reverseRecOn with
    | nil => exact ⟨0, rfl⟩
    | append_singleton h q =>
        refine ⟨q.gapMs p, ?_⟩
        rw [increments_iat (by simp), increments_iat (by simp),
          List.append_assoc, List.singleton_append, gapsMs_concat,
          List.cons_append]
  · exact ⟨1, List.map_append⟩

theorem increments_length (hf : f ∈ Feature.cumulative)
    (h : List Sighting) : (increments f h).length = h.length := by
  induction h using List.reverseRecOn with
  | nil => rcases mem_cumulative hf with rfl | rfl | rfl <;> rfl
  | append_singleton h p ih =>
      obtain ⟨d, hd⟩ := increments_concat hf h p
      rw [hd, List.length_append, List.length_append, ih]
      rfl

-- ================================================================= values

/-- The total an entry keeps for a cumulative feature, as the tree is
passed it. -/
def FlowInfo.passed (fi : FlowInfo) : Feature → UInt32
  | .sizeTot => fi.totBytes.toUInt32
  | .iatTot => fi.totIat.toUInt32
  | _ => fi.count

/-- First packet or not, what is written is the total of the entry left. -/
theorem flowPacket_passed (hf : f ∈ Feature.cumulative)
    (found : Option FlowInfo) (timeNow : UInt64) (len : Nat)
    (old : Option UInt32) :
    lastWrite f old (flowPacket found timeNow len).2
      = some ((flowPacket found timeNow len).1.passed f) := by
  cases found with
  | some fi => rcases mem_cumulative hf with rfl | rfl | rfl <;> rfl
  | none =>
      rcases mem_cumulative hf with rfl | rfl | rfl
      · show some (UInt32.ofNat len) = some (UInt64.ofNat len).toUInt32
        rw [UInt64.toUInt32_ofNat']
      · rfl
      · rfl

/-- It is the increments' total modulo `2 ^ 32`, whether or not the
64-bit total has wrapped. -/
theorem passed_toNat (hf : f ∈ Feature.cumulative) (hord : InOrder h)
    {fi : FlowInfo} (hfi : flowRun h = some fi) :
    (fi.passed f).toNat = (increments f h).sum % 2 ^ 32 := by
  have ht := flowRun_totals h
  have hiat := flowRun_iat hord hfi
  have hne : h ≠ [] := by
    intro hnil
    rw [hnil] at hfi
    cases hfi
  rw [hfi] at ht
  obtain ⟨-, hbytes, hcount⟩ := ht
  rcases mem_cumulative hf with rfl | rfl | rfl
  · show fi.totBytes.toUInt32.toNat = bytes h % 2 ^ 32
    rw [UInt64.toNat_toUInt32, hbytes]
    omega
  · show fi.totIat.toUInt32.toNat = _
    rw [UInt64.toNat_toUInt32, hiat, increments_iat hne, List.sum_cons]
    omega
  · show fi.count.toNat = (h.map fun _ => 1).sum % 2 ^ 32
    rw [hcount]
    simp

-- ================================================================= columns

/-- The values passed to the tree for a feature at a flow's packets,
frame after frame. -/
def column (b : Build) (mask : BitVec 64) (key : BitVec 128) (f : Feature) :
    FlowMap → List Arrival → Exec (List UInt32)
  | _, [] => .ok []
  | flows, a :: rest => do
      let (_, s) ← receive b flows a
      let later ← column b mask key f s.flows rest
      return (if a.key b = some key then (s.fv[rank mask f.bit]?).toList
        else []) ++ later

/-- One frame more. -/
theorem column_concat {b : Build} {flows after : FlowMap} {l : List Arrival}
    {a : Arrival} {values : List UInt32} {code : Int} {s : ParseState b}
    (hcol : column b mask key f flows l = .ok values)
    (hrun : receiveAll b flows l = .ok after)
    (hcall : receive b after a = .ok (code, s)) :
    column b mask key f flows (l ++ [a]) = .ok (values
      ++ if a.key b = some key then (s.fv[rank mask f.bit]?).toList
        else []) := by
  induction l generalizing flows values with
  | nil =>
      obtain rfl := Except.ok.inj hcol
      obtain rfl := Except.ok.inj hrun
      rw [List.nil_append, column, hcall]
      exact congrArg Except.ok (List.append_nil _)
  | cons x l ih =>
      rw [column] at hcol
      rw [receiveAll] at hrun
      obtain ⟨r, hx, hcol⟩ := Exec.bind_ok hcol
      obtain ⟨later, hlater, hcol⟩ := Exec.bind_ok hcol
      obtain ⟨r', hx', hrun⟩ := Exec.bind_ok hrun
      obtain rfl := Except.ok.inj (hx.symm.trans hx')
      obtain rfl := Except.ok.inj hcol
      rw [List.cons_append, column, hx]
      show (column b mask key f r.2.flows (l ++ [a]) >>= _) = _
      rw [ih hlater hrun]
      exact congrArg Except.ok (List.append_assoc _ _ _).symm

/-- A flow feature that is selected makes the build keep flows. -/
theorem Selected.flowSelected (hf : f ∈ Feature.cumulative)
    (hsel : Selected mask f) : FlowSelected mask := by
  refine flowSelected_iff_bit.mpr ⟨f.bit, ?_, hsel⟩
  rcases mem_cumulative hf with rfl | rfl | rfl <;> decide

/-- The column holds the running totals of the increments, modulo
`2 ^ 32`. -/
theorem column_eq (hf : f ∈ Feature.cumulative) (hsel : Selected mask f)
    {run : List Arrival} (hord : InOrder (history (.ofMask mask) key run)) :
    ∃ values,
      column (.ofMask mask) mask key f (fun _ => none) run = .ok values
      ∧ values.map (·.toNat)
        = (totals 0 (increments f (history (.ofMask mask) key run))).map
            (· % 2 ^ 32) := by
  have hb := Build.ofMask_declares mask
  have hflow := hsel.flowSelected hf
  induction run using List.reverseRecOn with
  | nil =>
      refine ⟨[], rfl, ?_⟩
      rcases mem_cumulative hf with rfl | rfl | rfl <;> rfl
  | append_singleton l a ih =>
      have hhist := history_concat (.ofMask mask) key l a
      have hrun := receiveAll_eq hb hflow (fun _ => none) l
      rw [hhist] at hord ⊢
      obtain ⟨values, hcol, hvalues⟩ := ih (List.pairwise_append.mp hord).1
      by_cases hkey : a.key (.ofMask mask) = some key
      · obtain ⟨s, hcall, -, hslots⟩ := receive_shows hb hflow hkey l
        obtain ⟨old, hslot⟩ := hslots f hsel
        refine ⟨_, column_concat hcol hrun hcall, ?_⟩
        rw [if_pos hkey] at hord ⊢
        obtain ⟨d, hd⟩ := increments_concat hf
          (history (.ofMask mask) key l) a.sighting
        have hpassed := passed_toNat hf hord (flowRun_concat _ a.sighting)
        rw [if_pos hkey, hslot, flowPacket_passed hf, List.map_append, hvalues,
          hd, totals_concat, ← hd, List.map_append, Nat.zero_add]
        exact congrArg (_ ++ [·]) hpassed
      · obtain ⟨code, s, hcall, -⟩ := receive_account hb hflow
          (l.foldl (account (.ofMask mask)) fun _ => none) a
        refine ⟨_, column_concat hcol hrun hcall, ?_⟩
        rw [if_neg hkey, if_neg hkey, List.append_nil, List.append_nil,
          hvalues]

/-- The values passed for a feature at a flow's packets, one a packet,
never decrease from one packet to the next. -/
def NeverBack (mask : BitVec 64) (key : BitVec 128) (f : Feature)
    (run : List Arrival) : Prop :=
  ∃ values,
    column (.ofMask mask) mask key f (fun _ => none) run = .ok values
    ∧ values.length = (history (.ofMask mask) key run).length
    ∧ values.IsChain (· ≤ ·)

/-- A feature never goes back exactly when its increments' residues add
up to less than `2 ^ 32`. -/
theorem neverBack_iff (hf : f ∈ Feature.cumulative) (hsel : Selected mask f)
    {run : List Arrival} (hord : InOrder (history (.ofMask mask) key run)) :
    NeverBack mask key f run
      ↔ ((increments f (history (.ofMask mask) key run)).map
          (· % 2 ^ 32)).sum < 2 ^ 32 := by
  obtain ⟨values, hcol, hvalues⟩ := column_eq hf hsel hord
  have hlength := congrArg List.length hvalues
  rw [List.length_map, List.length_map, length_totals,
    increments_length hf] at hlength
  have hchain : values.IsChain (· ≤ ·)
      ↔ (values.map (·.toNat)).IsChain (· ≤ ·) := by
    rw [List.isChain_map]
    exact Iff.rfl
  rw [← ascending_iff (by decide), ← hvalues, ← hchain]
  constructor
  · intro hback
    obtain ⟨values', hcol', -, hnever⟩ := hback
    obtain rfl := Except.ok.inj (hcol.symm.trans hcol')
    exact hnever
  · exact fun hnever => ⟨values, hcol, hlength, hnever⟩

theorem neverBack_sizeTot (hsel : Selected mask .sizeTot)
    {run : List Arrival} (hord : InOrder (history (.ofMask mask) key run)) :
    NeverBack mask key .sizeTot run
      ↔ bytes (history (.ofMask mask) key run) < 2 ^ 32 := by
  have hsmall : ∀ h : List Sighting,
      (increments .sizeTot h).map (· % 2 ^ 32) = h.map (·.len) := by
    intro h
    rw [increments, List.map_map]
    exact List.map_congr_left fun p _ => Nat.mod_eq_of_lt p.len_lt
  rw [neverBack_iff (by decide) hsel hord, hsmall]
  rfl

theorem neverBack_iatTot (hsel : Selected mask .iatTot)
    {run : List Arrival} (hord : InOrder (history (.ofMask mask) key run)) :
    NeverBack mask key .iatTot run
      ↔ ((gapsMs (history (.ofMask mask) key run)).map (· % 2 ^ 32)).sum
          < 2 ^ 32 := by
  rw [neverBack_iff (by decide) hsel hord]
  cases history (.ofMask mask) key run with
  | nil => rfl
  | cons p h =>
      rw [increments, List.map_cons, List.sum_cons, Nat.zero_mod,
        Nat.zero_add]

/-- The packet count cannot go back before `2 ^ 32` packets. -/
theorem neverBack_pktNb (hsel : Selected mask .pktNb)
    {run : List Arrival} (hord : InOrder (history (.ofMask mask) key run))
    (hcount : (history (.ofMask mask) key run).length < 2 ^ 32) :
    NeverBack mask key .pktNb run := by
  have hones : ∀ h : List Sighting,
      ((increments .pktNb h).map (· % 2 ^ 32)).sum = h.length := by
    intro h
    rw [increments, List.map_map]
    show (h.map fun _ => 1).sum = h.length
    simp
  rw [neverBack_iff (by decide) hsel hord, hones]
  exact hcount

/-- The cumulative features of a flow never go back exactly when its
bytes and its gaps, each gap modulo `2 ^ 32` milliseconds, add up to
less than `2 ^ 32`. -/
theorem cumulative_iff {mask : BitVec 64} {key : BitVec 128}
    {run : List Arrival}
    (hord : InOrder (history (.ofMask mask) key run))
    (hcount : (history (.ofMask mask) key run).length < 2 ^ 32) :
    (∀ f ∈ Feature.cumulative, Selected mask f → NeverBack mask key f run)
      ↔ (Selected mask .sizeTot →
            bytes (history (.ofMask mask) key run) < 2 ^ 32)
        ∧ (Selected mask .iatTot →
            ((gapsMs (history (.ofMask mask) key run)).map (· % 2 ^ 32)).sum
              < 2 ^ 32) := by
  constructor
  · intro hnever
    constructor
    · intro hsel
      exact (neverBack_sizeTot hsel hord).mp (hnever .sizeTot (by decide) hsel)
    · intro hsel
      exact (neverBack_iatTot hsel hord).mp (hnever .iatTot (by decide) hsel)
  · intro hsmall f hf hsel
    obtain ⟨hbytes, hgaps⟩ := hsmall
    rcases mem_cumulative hf with rfl | rfl | rfl
    · exact (neverBack_sizeTot hsel hord).mpr (hbytes hsel)
    · exact (neverBack_iatTot hsel hord).mpr (hgaps hsel)
    · exact neverBack_pktNb hsel hord hcount

/-- Two packets, five milliseconds apart. -/
theorem cumulative_iff_udpAt :
    InOrder (history (.ofMask flowMask) udpKey [udpAt 0, udpAt 5999999])
      ∧ ∀ f ∈ Feature.cumulative,
        NeverBack flowMask udpKey f [udpAt 0, udpAt 5999999] := by
  have hhist := history_udpPair 5999999
  have hord := udpPair_inOrder 5999999
  have hnever := (cumulative_iff hord (by rw [hhist]; decide)).mpr
    ⟨fun _ => by rw [hhist]; decide, fun _ => by rw [hhist]; decide⟩
  exact ⟨hord, fun f hf => hnever f hf (by decide +revert)⟩

/-- Two gaps of `2 ^ 31` milliseconds bring the inter-arrival total the
tree is passed back to 0. -/
theorem iatTot_goes_back :
    let run := [udpAt 0, udpAt 2147483648000000, udpAt 4294967296000000]
    InOrder (history (.ofMask flowMask) udpKey run)
      ∧ bytes (history (.ofMask flowMask) udpKey run) = 126
      ∧ (gapsMs (history (.ofMask flowMask) udpKey run)).sum = 4294967296
      ∧ Selected flowMask .iatTot
      ∧ column (.ofMask flowMask) flowMask udpKey .iatTot (fun _ => none) run
        = .ok [0, 2147483648, 0]
      ∧ ¬ NeverBack flowMask udpKey .iatTot run := by
  have hhist := history_udpAt udpKey [0, 2147483648000000, 4294967296000000]
  have hcol : column (.ofMask flowMask) flowMask udpKey .iatTot
      (fun _ => none) ([0, 2147483648000000, 4294967296000000].map udpAt)
        = .ok [0, 2147483648, 0] := by
    rfl
  rw [if_pos rfl] at hhist
  intro run
  have hrun : history (.ofMask flowMask) udpKey run = _ := hhist
  rw [hrun]
  refine ⟨?_, by decide, by decide, by decide, hcol, ?_⟩
  · unfold InOrder
    decide
  · intro hback
    obtain ⟨values, hvalues, -, hnever⟩ := hback
    obtain rfl := Except.ok.inj (hcol.symm.trans hvalues)
    exact absurd hnever (by decide)

end XdpIds
