/-
Feature slots under the declared ids: `fvifupdate` writes a selected
feature's value into the slot that is the rank of its bit, the number of
selected bits below it.

The rank is `Nat.count` of the mask's bits, so the two facts every
feature result needs come from there: a selected bit's rank is below the
mask's bit count (the write is in bounds), and selected bits with one
rank are one bit (no two selected features share a slot).

`rankLoop_eq` is the loop: after `i` shifts `curr_f` is bit `i` and the
index is `i`'s rank. `fvIfUpdates_eq` lifts it to a sequence of calls,
and `putSlots_slot` reads a slot back after one: the last write to its
feature, or what was there before.
-/
import XdpIds.Packet.Vector
import Mathlib.Order.Interval.Finset.Nat

namespace XdpIds

-- ========================================================= declared builds

/-- The build's ids are the declared ones, its `FEATURES` is `mask`, and
it has a slot for each selected bit. -/
structure Build.Declares (b : Build) (mask : BitVec 64) : Prop where
  features : b.features = mask.toNat
  id : ∀ f, b.id f = 2 ^ f.bit
  room : popcount mask ≤ b.featureNb

variable {b : Build} {mask : BitVec 64} {f g : Feature}

theorem Build.ofMask_declares (mask : BitVec 64) :
    (Build.ofMask mask).Declares mask :=
  ⟨rfl, fun _ => rfl, Nat.le_refl _⟩

theorem getLsbD_maskOf (names : List Feature) (i : Nat) :
    (maskOf names).getLsbD i = true ↔ ∃ f ∈ names, f.bit = i := by
  induction names with
  | nil => simp [maskOf]
  | cons f names ih =>
      rw [maskOf, BitVec.getLsbD_or, Bool.or_eq_true, ih,
        BitVec.getLsbD_twoPow]
      simp [f.bit_lt]

/-- The exporter declares a slot for each name, so one for each selected
bit. -/
theorem Build.ofNames_declares (names : List Feature) :
    (Build.ofNames names).Declares (maskOf names) := by
  refine ⟨rfl, fun _ => rfl, ?_⟩
  have hsub : (Finset.range 64).filter (fun i => (maskOf names).getLsbD i)
      ⊆ (names.map Feature.bit).toFinset := by
    intro i hi
    obtain ⟨-, hbit⟩ := Finset.mem_filter.mp hi
    obtain ⟨f, hf, rfl⟩ := (getLsbD_maskOf names i).mp hbit
    exact List.mem_toFinset.mpr (List.mem_map_of_mem hf)
  calc popcount (maskOf names)
      = ((Finset.range 64).filter fun i => (maskOf names).getLsbD i).card :=
        Nat.count_eq_card_filter_range _ _
    _ ≤ (names.map Feature.bit).toFinset.card := Finset.card_le_card hsub
    _ ≤ (names.map Feature.bit).length := List.toFinset_card_le _
    _ = names.length := List.length_map _

namespace Build.Declares

variable (hb : b.Declares mask)
include hb

theorem features64 : b.features64 = mask := by
  unfold Build.features64
  rw [hb.features]
  apply BitVec.eq_of_toNat_eq
  simp

theorem features128 : b.features128 = mask.setWidth 128 := by
  unfold Build.features128
  rw [hb.features]
  apply BitVec.eq_of_toNat_eq
  simp

theorem id64 (f : Feature) : b.id64 f = BitVec.twoPow 64 f.bit := by
  unfold Build.id64
  rw [hb.id]
  apply BitVec.eq_of_toNat_eq
  cases f <;> rfl

theorem id128 (f : Feature) : b.id128 f = BitVec.twoPow 128 f.bit := by
  unfold Build.id128
  rw [hb.id]
  apply BitVec.eq_of_toNat_eq
  cases f <;> rfl

end Build.Declares

-- ================================================================ the rank

/-- The slot of bit `k`: the number of selected bits below it. -/
def rank (mask : BitVec 64) (k : Nat) : Nat :=
  Nat.count (fun i => mask.getLsbD i) k

/-- The feature is selected. -/
def Selected (mask : BitVec 64) (f : Feature) : Prop :=
  mask.getLsbD f.bit = true

instance : Decidable (Selected mask f) :=
  inferInstanceAs (Decidable (_ = true))

/-- A selected bit's slot exists. -/
theorem rank_lt {k : Nat} (hk : mask.getLsbD k = true) :
    rank mask k < popcount mask :=
  Nat.count_strict_mono hk (BitVec.lt_of_getLsbD hk)

/-- Selected bits with one slot are one bit. -/
theorem rank_injective {k l : Nat} (hk : mask.getLsbD k = true)
    (hl : mask.getLsbD l = true) (h : rank mask k = rank mask l) : k = l :=
  Nat.count_injective hk hl h

/-- The loop's test of the mask is the mask's bit. -/
theorem twoPow_and_ne_zero {w : Nat} (x : BitVec w) (i : Nat) :
    BitVec.twoPow w i &&& x ≠ 0 ↔ x.getLsbD i = true := by
  rw [BitVec.twoPow_and]
  rcases Nat.lt_or_ge i w with hi | hi
  · have hne : BitVec.twoPow w i ≠ 0 := by
      intro hzero
      have := congrArg (fun y => y.getLsbD i) hzero
      simp [hi] at this
    cases hbit : x.getLsbD i with
    | false => simp
    | true => simpa using hne
  · rw [BitVec.getLsbD_of_ge x i hi]
    simp

/-- The loop's test of the id is a comparison of bits. -/
theorem twoPow_lt_iff {i k : Nat} (hi : i < 64) (hk : k < 64) :
    (BitVec.twoPow 64 i).setWidth 128 < BitVec.twoPow 128 k ↔ i < k := by
  have h128 : (2 : Nat) ^ 64 ≤ 2 ^ 128 := by decide
  have hpi : (2 : Nat) ^ i < 2 ^ 64 := Nat.pow_lt_pow_right (by decide) hi
  rw [BitVec.lt_def, BitVec.toNat_setWidth, BitVec.toNat_twoPow_of_lt hi,
    BitVec.toNat_twoPow_of_lt (show k < 128 by omega),
    Nat.mod_eq_of_lt (by omega)]
  exact Nat.pow_lt_pow_iff_right (by decide)

/-- From bit `i` with `i`'s rank, the loop ends at bit `k` with `k`'s. -/
theorem rankLoop_from {k : Nat} (hk : k < 64) :
    ∀ (d i fuel : Nat), i + d = k → d ≤ fuel →
      rankLoop mask (BitVec.twoPow 128 k) fuel (BitVec.twoPow 64 i)
        (rank mask i) = .ok (rank mask k) := by
  intro d
  induction d with
  | zero =>
      intro i fuel hik hfuel
      have hstop : ¬ (BitVec.twoPow 64 i).setWidth 128 < BitVec.twoPow 128 k :=
        fun h => by have := (twoPow_lt_iff (by omega) hk).mp h; omega
      obtain rfl : i = k := by omega
      cases fuel <;> rw [rankLoop, if_neg hstop]
  | succ d ih =>
      intro i fuel hik hfuel
      obtain ⟨fuel, rfl⟩ := Nat.exists_eq_succ_of_ne_zero
        (show fuel ≠ 0 by omega)
      have hgo := (twoPow_lt_iff (show i < 64 by omega) hk).mpr (by omega)
      have hshift : BitVec.twoPow 64 i <<< 1 = BitVec.twoPow 64 (i + 1) := by
        simp [BitVec.twoPow_eq, BitVec.shiftLeft_add]
      have hindex : (if BitVec.twoPow 64 i &&& mask ≠ 0 then rank mask i + 1
          else rank mask i) = rank mask (i + 1) := by
        have hsucc : rank mask (i + 1)
            = rank mask i + if mask.getLsbD i = true then 1 else 0 :=
          Nat.count_succ _ _
        rw [hsucc, if_congr (twoPow_and_ne_zero mask i) rfl rfl]
        split <;> rfl
      rw [rankLoop, if_pos hgo, hshift, hindex]
      exact ih (i + 1) fuel (by omega) (by omega)

/-- The loop computes the rank. -/
theorem rankLoop_eq {k : Nat} (hk : k < 64) :
    rankLoop mask (BitVec.twoPow 128 k) 64 1 0 = .ok (rank mask k) :=
  rankLoop_from hk k 0 64 (by omega) (by omega)

-- ============================================================== the writes

/-- One write of a selected bit's slot. -/
def putBit (mask : BitVec 64) {n : Nat} (fv : Vector UInt32 n) (k : Nat)
    (newval : UInt32) : Vector UInt32 n :=
  if mask.getLsbD k = true then fv.setIfInBounds (rank mask k) newval else fv

/-- The write of a selected bit whose slot is in bounds. -/
theorem putBit_set {n k : Nat} (hk : mask.getLsbD k = true)
    (h : rank mask k < n) (fv : Vector UInt32 n) (newval : UInt32) :
    putBit mask fv k newval = fv.set (rank mask k) newval h := by
  rw [putBit, if_pos hk]
  ext j hj
  rw [Vector.getElem_set, Vector.getElem_setIfInBounds]

/-- A selected bit's slot after a write. -/
theorem putBit_slot {n k : Nat} (hroom : popcount mask ≤ n)
    (hk : mask.getLsbD k = true) (fv : Vector UInt32 n) (l : Nat)
    (newval : UInt32) :
    (putBit mask fv l newval)[rank mask k]?
      = if l = k then some newval else fv[rank mask k]? := by
  have hlt : rank mask k < n :=
    lt_of_lt_of_le (rank_lt hk) hroom
  unfold putBit
  by_cases hl : mask.getLsbD l = true
  · rw [if_pos hl, Vector.getElem?_setIfInBounds]
    by_cases hlk : l = k
    · rw [if_pos hlk, hlk, if_pos rfl, if_pos hlt]
    · rw [if_neg hlk, if_neg fun h => hlk (rank_injective hl hk h)]
  · rw [if_neg hl, if_neg fun h => hl (by rw [h]; exact hk)]

/-- One write of a selected feature's slot. -/
def putSlot (mask : BitVec 64) {n : Nat} (fv : Vector UInt32 n)
    (w : Feature × UInt32) : Vector UInt32 n :=
  if Selected mask w.1 then fv.setIfInBounds (rank mask w.1.bit) w.2 else fv

/-- A sequence of writes. -/
def putSlots (mask : BitVec 64) {n : Nat} (fv : Vector UInt32 n)
    (writes : List (Feature × UInt32)) : Vector UInt32 n :=
  writes.foldl (putSlot mask) fv

theorem putSlots_append (mask : BitVec 64) {n : Nat} (fv : Vector UInt32 n)
    (ws ws' : List (Feature × UInt32)) :
    putSlots mask fv (ws ++ ws') = putSlots mask (putSlots mask fv ws) ws' :=
  List.foldl_append ..

/-- Writes of features nobody selected change nothing. -/
theorem putSlots_unselected {n : Nat} (fv : Vector UInt32 n)
    {writes : List (Feature × UInt32)}
    (h : ∀ w ∈ writes, ¬ Selected mask w.1) :
    putSlots mask fv writes = fv := by
  unfold putSlots
  induction writes with
  | nil => rfl
  | cons w writes ih =>
      rw [List.foldl_cons, putSlot, if_neg (h w List.mem_cons_self)]
      exact ih fun w hw => h w (List.mem_cons_of_mem _ hw)

/-- `fvifupdate` with the id of bit `k`, under declared ids. -/
theorem fvIfUpdate_bit (hb : b.Declares mask) (fv : b.Fv) {k : Nat}
    (hk : k < 64) (newval : UInt32) :
    fvIfUpdate b fv (BitVec.twoPow 128 k) newval
      = .ok (putBit mask fv k newval) := by
  have htest : b.features128 &&& BitVec.twoPow 128 k ≠ 0
      ↔ mask.getLsbD k = true := by
    rw [hb.features128, BitVec.and_comm, twoPow_and_ne_zero,
      BitVec.getLsbD_setWidth]
    simp
    omega
  unfold fvIfUpdate
  by_cases hbit : mask.getLsbD k = true
  · have hroom : rank mask k < b.featureNb :=
      lt_of_lt_of_le (rank_lt hbit) hb.room
    rw [if_pos (htest.mpr hbit), hb.features64, rankLoop_eq hk,
      putBit_set hbit hroom]
    show (if h : _ then _ else _) = _
    rw [dif_pos hroom]
  · rw [if_neg (fun h => hbit (htest.mp h)), putBit, if_neg hbit]

/-- `fvifupdate` under declared ids. -/
theorem fvIfUpdate_eq (hb : b.Declares mask) (fv : b.Fv) (f : Feature)
    (newval : UInt32) :
    fvIfUpdate b fv (b.id128 f) newval = .ok (putSlot mask fv (f, newval)) := by
  rw [hb.id128]
  exact fvIfUpdate_bit hb fv f.bit_lt newval

/-- A sequence of calls under declared ids. -/
theorem fvIfUpdates_eq (hb : b.Declares mask) (fv : b.Fv)
    (writes : List (Feature × UInt32)) :
    fvIfUpdates b fv writes = .ok (putSlots mask fv writes) := by
  unfold fvIfUpdates putSlots
  induction writes generalizing fv with
  | nil => rfl
  | cons w writes ih =>
      rw [List.foldlM_cons, fvIfUpdate_eq hb, List.foldl_cons]
      exact ih _

/-- The value the last write to a feature in the sequence gives its slot,
starting from `old`. -/
def lastWrite (f : Feature) (old : Option UInt32) :
    List (Feature × UInt32) → Option UInt32
  | [] => old
  | w :: writes => lastWrite f (if w.1 = f then some w.2 else old) writes

theorem lastWrite_append (f : Feature) (old : Option UInt32)
    (ws ws' : List (Feature × UInt32)) :
    lastWrite f old (ws ++ ws') = lastWrite f (lastWrite f old ws) ws' := by
  induction ws generalizing old with
  | nil => rfl
  | cons w ws ih => exact ih _

/-- A selected feature's slot after a write. -/
theorem putSlot_slot {n : Nat} (hroom : popcount mask ≤ n)
    (hf : Selected mask f) (fv : Vector UInt32 n) (w : Feature × UInt32) :
    (putSlot mask fv w)[rank mask f.bit]?
      = if w.1 = f then some w.2 else fv[rank mask f.bit]? := by
  refine (putBit_slot hroom hf fv w.1.bit w.2).trans ?_
  rw [if_congr Feature.bit_injective.eq_iff rfl rfl]

/-- A selected feature's slot after a sequence of writes. -/
theorem putSlots_slot {n : Nat} (hroom : popcount mask ≤ n)
    (hf : Selected mask f) (fv : Vector UInt32 n)
    (writes : List (Feature × UInt32)) :
    (putSlots mask fv writes)[rank mask f.bit]?
      = lastWrite f (fv[rank mask f.bit]?) writes := by
  unfold putSlots
  induction writes generalizing fv with
  | nil => rfl
  | cons w writes ih =>
      rw [List.foldl_cons, ih, putSlot_slot hroom hf, lastWrite]

end XdpIds
