/-
Flow features with the macros as C evaluates them.

The flow macros shift a 32-bit `int` by 32, which C leaves undefined:
`FEATURES` has no value as soon as one is selected
(`featuresByRules_none`). A compiler produces some `int` all the same,
and none of them will do. If every selected macro comes out nonnegative,
`FEATURES` has no bit in the flow range and the flow stage is skipped
(`parseUpdate_flows`). If one comes out negative, it is a flow macro:
either one nobody implements, or one whose `fvifupdate` call looks for
an id above every 64-bit value and never ends (`fvIfUpdate_diverges`).
-/
import XdpIds.Packet.Proofs.Parse

namespace XdpIds

variable {b : Build} {names : List Feature} {f : Frame}

-- =========================================================== no value at all

/-- A selected flow macro leaves `FEATURES` without a value. -/
theorem featuresByRules_none {n : Feature} (hn : n ∈ names)
    (hflow : n.isFlow = true) : featuresByRules names = none := by
  unfold featuresByRules
  generalize (0 : Int) = acc
  induction names generalizing acc with
  | nil => cases hn
  | cons m names ih =>
      rw [List.foldlM_cons]
      rcases List.mem_cons.mp hn with rfl | hmem
      · rw [Feature.value_flow hflow]
        rfl
      · cases m.value 32 with
        | none => rfl
        | some x => exact ih hmem (intOr acc x)

-- ============================================================ nonnegative ids

/-- With the flow range empty the flow stage does nothing. -/
theorem parseFlow_flows (hflow : b.flowSelected = false) {timeNow : UInt64}
    {saddr daddr : UInt32} {sport dport : UInt16} {s s' : ParseState b}
    {code : Int}
    (h : parseFlow f timeNow saddr daddr sport dport s = .ok (code, s')) :
    s'.flows = s.flows := by
  rw [parseFlow, hflow] at h
  obtain rfl := (Prod.mk.inj (Except.ok.inj h)).2
  rfl

/-- With the flow range empty the flow map is left alone. -/
theorem parseUpdate_flows (hflow : b.flowSelected = false)
    {timeNow : UInt64} {s s' : ParseState b} {code : Int}
    (h : parseUpdate b f timeNow s = .ok (code, s')) :
    s'.flows = s.flows := by
  have hexit : ∀ {code' : Int} {t : ParseState b},
      (Except.ok (code', t) : Exec _) = .ok (code, s') →
      t.flows = s.flows → s'.flows = s.flows := by
    intro code' t h ht
    obtain rfl := (Prod.mk.inj (Except.ok.inj h)).2
    exact ht
  unfold parseUpdate at h
  split at h
  · exact hexit h rfl
  obtain ⟨hProto, -, h⟩ := Exec.bind_ok h
  split at h
  · exact hexit h rfl
  split at h
  · exact hexit h rfl
  obtain ⟨protocol, -, h⟩ := Exec.bind_ok h
  obtain ⟨saddr, -, h⟩ := Exec.bind_ok h
  obtain ⟨daddr, -, h⟩ := Exec.bind_ok h
  obtain ⟨fv, -, h⟩ := Exec.bind_ok h
  split at h
  · obtain ⟨ports, -, h⟩ := Exec.bind_ok h
    cases ports with
    | error code => exact hexit h rfl
    | ok ports =>
        obtain ⟨fv, -, h⟩ := Exec.bind_ok h
        exact (parseFlow_flows hflow h).trans rfl
  · exact (parseFlow_flows hflow h).trans rfl

/-- An `int`'s sign is the top bit of its conversion. -/
theorem msb_ofInt32 {x : Int} (hx : -2 ^ 31 ≤ x ∧ x < 2 ^ 31) :
    (BitVec.ofInt 32 x).msb = true ↔ x < 0 := by
  rw [BitVec.msb_eq_toInt, BitVec.toInt_ofInt,
    Int.bmod_eq_of_le (by omega) (by omega), decide_eq_true_iff]

theorem msb_ofInt128 {x : Int} (hx : -2 ^ 31 ≤ x ∧ x < 2 ^ 31) :
    (BitVec.ofInt 128 x).msb = true ↔ x < 0 := by
  rw [BitVec.msb_eq_toInt, BitVec.toInt_ofInt,
    Int.bmod_eq_of_le (by omega) (by omega), decide_eq_true_iff]

/-- `|` of two `int`s is negative when one of them is. -/
theorem intOr_neg_iff {x y : Int} (hx : -2 ^ 31 ≤ x ∧ x < 2 ^ 31)
    (hy : -2 ^ 31 ≤ y ∧ y < 2 ^ 31) : intOr x y < 0 ↔ x < 0 ∨ y < 0 := by
  have hmsb : intOr x y < 0
      ↔ (BitVec.ofInt 32 x ||| BitVec.ofInt 32 y).msb = true := by
    rw [BitVec.msb_eq_toInt, decide_eq_true_iff]
    rfl
  rw [hmsb, BitVec.msb_or, Bool.or_eq_true, msb_ofInt32 hx, msb_ofInt32 hy]

theorem intOr_range (x y : Int) : -2 ^ 31 ≤ intOr x y ∧ intOr x y < 2 ^ 31 :=
  ⟨BitVec.le_toInt _, BitVec.toInt_lt⟩

/-- `FEATURES` is an `int`, negative when one of the macros is. -/
theorem features_resolved (v : Resolution) (names : List Feature) :
    (-2 ^ 31 ≤ (Build.ofResolution v names).features
        ∧ (Build.ofResolution v names).features < 2 ^ 31)
      ∧ ((Build.ofResolution v names).features < 0
        ↔ ∃ n ∈ names, v.value n < 0) := by
  have hfold : ∀ acc : Int, -2 ^ 31 ≤ acc ∧ acc < 2 ^ 31 →
      (-2 ^ 31 ≤ names.foldl (fun acc f => intOr acc (v.value f)) acc
          ∧ names.foldl (fun acc f => intOr acc (v.value f)) acc < 2 ^ 31)
        ∧ (names.foldl (fun acc f => intOr acc (v.value f)) acc < 0
          ↔ acc < 0 ∨ ∃ n ∈ names, v.value n < 0) := by
    induction names with
    | nil =>
        intro acc hacc
        exact ⟨hacc, by simp⟩
    | cons m names ih =>
        intro acc hacc
        obtain ⟨hrange, hneg⟩ := ih (intOr acc (v.value m)) (intOr_range _ _)
        refine ⟨hrange, hneg.trans ?_⟩
        rw [intOr_neg_iff hacc (v.range m), List.exists_mem_cons_iff, or_assoc]
  obtain ⟨hrange, hneg⟩ := hfold 0 (by omega)
  exact ⟨hrange, hneg.trans (or_iff_right (by omega))⟩

/-- A nonnegative `FEATURES` has nothing in the flow range. -/
theorem flowSelected_nonneg (hlo : 0 ≤ b.features)
    (hhi : b.features < 2 ^ 31) : b.flowSelected = false := by
  rw [Bool.eq_false_iff]
  intro h
  have hflow : FlowSelected b.features64 := bne_iff_ne.mp h
  obtain ⟨i, hi, hbit⟩ := flowSelected_iff_bit.mp hflow
  obtain ⟨n, hn⟩ := Int.eq_ofNat_of_zero_le hlo
  have hlt : n < 2 ^ i :=
    lt_of_lt_of_le (show n < 2 ^ 32 by omega)
      (Nat.pow_le_pow_right (by decide) hi)
  unfold Build.features64 at hbit
  rw [hn, BitVec.ofInt_natCast, BitVec.getLsbD_ofNat,
    Nat.testBit_lt_two_pow hlt, Bool.and_false] at hbit
  cases hbit

-- =============================================================== negative ids

/-- The loop never reaches an id above every `__u64`. -/
theorem rankLoop_diverges {features : BitVec 64} {feature : BitVec 128}
    (h : 2 ^ 64 ≤ feature.toNat) :
    ∀ (fuel : Nat) (currF : BitVec 64) (index : Nat),
      rankLoop features feature fuel currF index = .error .diverges := by
  have hgo : ∀ currF : BitVec 64, currF.setWidth 128 < feature := by
    intro currF
    rw [BitVec.lt_def, BitVec.toNat_setWidth]
    have hlt := currF.isLt
    omega
  intro fuel
  induction fuel with
  | zero =>
      intro currF index
      rw [rankLoop, if_pos (hgo currF)]
  | succ fuel ih =>
      intro currF index
      rw [rankLoop, if_pos (hgo currF)]
      exact ih _ _

/-- The call for a negative id never ends. -/
theorem fvIfUpdate_diverges {n : Feature}
    (hfeatures : -2 ^ 31 ≤ b.features ∧ b.features < 2 ^ 31)
    (hid : -2 ^ 31 ≤ b.id n ∧ b.id n < 2 ^ 31) (hneg : b.features < 0)
    (hn : b.id n < 0) (fv : b.Fv) (newval : UInt32) :
    fvIfUpdate b fv (b.id128 n) newval = .error .diverges := by
  have htest : b.features128 &&& b.id128 n ≠ 0 := by
    intro hzero
    have hmsb := congrArg BitVec.msb hzero
    rw [BitVec.msb_and, Build.features128, Build.id128,
      (msb_ofInt128 hfeatures).mpr hneg, (msb_ofInt128 hid).mpr hn] at hmsb
    simp at hmsb
  have hbig : 2 ^ 64 ≤ (b.id128 n).toNat := by
    have hwidth : ((2 ^ 128 : Nat) : Int)
        = 340282366920938463463374607431768211456 := rfl
    rw [Build.id128, BitVec.toNat_ofInt, hwidth]
    omega
  rw [fvIfUpdate, if_pos htest, rankLoop_diverges hbig]
  rfl

-- ================================================================= never on

/-- Flow processing is on: the entry of the frame's key is created or
updated, and the call for each selected flow feature writes one slot,
not the slot of another. -/
def FlowOn (b : Build) (names : List Feature) (f : Frame)
    (timeNow : UInt64) (s : ParseState b) : Prop :=
  ∃ s' ports, parseUpdate b f timeNow s = .ok (0, s')
    ∧ b.portsSeen s.nete f = .ok ports
    ∧ s'.flows (flowKey f.saddr ports.1 f.daddr ports.2)
      = some (flowOf f timeNow ports.1 ports.2 s.flows).1
    ∧ ∃ slot : Feature → Fin b.featureNb,
        (∀ n ∈ names, n.isFlow = true →
          ∃ v, (n, v) ∈ (flowOf f timeNow ports.1 ports.2 s.flows).2
            ∧ ∀ fv : b.Fv, fvIfUpdate b fv (b.id128 n) v
              = .ok (fv.set (slot n) v))
        ∧ ∀ m ∈ names, ∀ n ∈ names, m.isFlow = true → n.isFlow = true →
            slot m = slot n → m = n

/-- No entry is what its next packet makes of it. -/
theorem flowPacket_changes (found : Option FlowInfo) (timeNow : UInt64)
    (len : Nat) : found ≠ some (flowPacket found timeNow len).1 := by
  cases found with
  | none => intro h; cases h
  | some fi =>
      intro h
      have hcount := congrArg (·.count.toNat) (Option.some.inj h)
      have hlt := fi.count.toNat_lt
      change fi.count.toNat = (fi.count + 1).toNat at hcount
      rw [UInt32.toNat_add] at hcount
      change fi.count.toNat = (fi.count.toNat + 1) % 2 ^ 32 at hcount
      omega

/-- By C's rules `FEATURES` has no value once a flow feature is
selected, and no `int` a compiler puts in its place turns flow
processing on, for any frame and any flow map. -/
theorem flow_never_on {names : List Feature}
    (himplemented : ∃ n ∈ names, n ∈ Feature.implementedFlow) :
    featuresByRules names = none
      ∧ ∀ (v : Resolution) (f : Frame) (timeNow : UInt64)
          (s : ParseState (.ofResolution v names)),
          ¬ FlowOn (.ofResolution v names) names f timeNow s := by
  obtain ⟨n, hn, hflow⟩ := himplemented
  refine ⟨featuresByRules_none hn ?_, ?_⟩
  · revert hflow
    cases n <;> decide
  · rintro v f timeNow s ⟨s', ports, hrun, -, hentry, slot, hcalls, -⟩
    obtain ⟨hrange, hneg⟩ := features_resolved v names
    by_cases hsome : ∃ m ∈ names, v.value m < 0
    · obtain ⟨m, hm, hvm⟩ := hsome
      have hmflow : m.isFlow = true := by
        by_contra hpacket
        have hval := v.rules m _
          (Feature.value_packet (Bool.eq_false_iff.mpr hpacket))
        have hpos : (0 : Int) < 2 ^ m.bit := Int.pow_pos (by decide)
        omega
      obtain ⟨newval, -, hcall⟩ := hcalls m hm hmflow
      have hdiverges := fvIfUpdate_diverges hrange (v.range m)
        (hneg.mpr ⟨m, hm, hvm⟩) hvm (.replicate _ 0) newval
      rw [hcall] at hdiverges
      cases hdiverges
    · have hoff := flowSelected_nonneg
        (Int.not_lt.mp fun h => hsome (hneg.mp h)) hrange.2
      rw [parseUpdate_flows hoff hrun] at hentry
      exact flowPacket_changes _ _ _ hentry

/-- A compiler that clamps the shift count at 31: of the flow macros only
`F_IAT_MEAN` keeps a bit, the sign. -/
def clampedShift : Resolution where
  value n := if n = .iatMean then -2 ^ 31
    else if n.isFlow then 0 else 2 ^ n.bit
  range n := by cases n <;> decide
  rules n x h := by
    cases n <;> first | cases h; rfl | cases h

theorem flow_never_on_clamped :
    ¬ FlowOn (.ofResolution clampedShift [.pktNb]) [.pktNb] (udpFrom 68) 0
      ⟨.replicate _ 0, fun _ => none, none⟩ :=
  (flow_never_on ⟨.pktNb, by decide, by decide⟩).2 clampedShift _ _ _

/-- With `F_PKT_NB` selected a UDP packet is accepted and leaves no
entry. -/
theorem packet_count_off :
    featuresByRules [.pktNb] = none
      ∧ ∃ s', parseUpdate (.ofResolution clampedShift [.pktNb])
          (udpFrom 68) 0 ⟨.replicate _ 0, fun _ => none, none⟩ = .ok (0, s')
        ∧ ∀ key, s'.flows key = none :=
  ⟨by decide, _, rfl, fun _ => rfl⟩

end XdpIds
