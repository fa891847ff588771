/-
What count_IPs_xdp's map holds after a run.

`entryOf` is the entry some frames come to, in the counters' arithmetic;
it depends on how many they are and on their lengths, not on their order.
`countAll_eq` says the map holds the entry of each key's frames, whatever
ran in between and whatever the stack held. Below 2^64 that entry is the
exact account (`Holds`), and over all keys the accounts add up to the
run's (`counts_exact`).

Nothing is evicted here: a run of at most 4096 keys gives the map no
reason to.
-/
import XdpIds.CountIps.Proofs.Key
import XdpIds.Lib.Keyed
import Mathlib.Algebra.Order.BigOperators.Group.List

namespace XdpIds.CountIps

-- ================================================================ the account

/-- The key of a sample. -/
def Sample.key (s : Sample) : UInt64 := ipKey s.frame

/-- The keys that occur. -/
def keysOf (l : List Sample) : Finset UInt64 := (l.map Sample.key).toFinset

/-- The frames of a key. -/
def framesOf (key : UInt64) (l : List Sample) : List Sample :=
  Keyed.eventsOf (fun s => some s.key) key l

/-- The bytes of some frames. -/
def totBytes (l : List Sample) : Nat := (l.map (·.frame.len)).sum

/-- Neither total of some frames wraps. -/
structure Fits (l : List Sample) : Prop where
  count : l.length < 2 ^ 64
  totBytes : totBytes l < 2 ^ 64

/-- An entry holds the account of some frames; no entry, no frames. -/
def Holds : Option IpCount → List Sample → Prop
  | none, l => l = []
  | some ipc, l =>
      l ≠ [] ∧ ipc.count.toNat = l.length ∧ ipc.totBytes.toNat = totBytes l

-- ================================================================== the run

/-- The entry some frames come to. -/
def entryOf (l : List Sample) : Option IpCount :=
  if l = [] then none
  else some ⟨UInt64.ofNat l.length, UInt64.ofNat (totBytes l)⟩

/-- What a frame makes of its key's entry. -/
def countFrame (found : Option IpCount) (s : Sample) : IpCount :=
  match found with
  | some ipc => ipc.addCount.addBytes s.frame.size
  | none => .create s.frame.size

/-- The map is a keyed store of entries. -/
def absorbFrame : IpCountMap → Sample → IpCountMap :=
  Keyed.absorb (fun s => some s.key) countFrame

variable {map : IpCountMap} {s : Sample} {l l' : List Sample}

/-- A miss inserts. -/
theorem insertNew_miss {key : UInt64} (value : IpCount)
    (h : map key = none) :
    map.insertNew key value = Function.update map key (some value) := by
  rw [IpCountMap.insertNew, h]

theorem absorbFrame_eq (map : IpCountMap) (s : Sample) :
    absorbFrame map s
      = Function.update map s.key (some (countFrame (map s.key) s)) :=
  rfl

theorem xdpTraceNetEvent_eq (s : Sample) (map : IpCountMap) :
    xdpTraceNetEvent s.frame s.slot map = .ok (absorbFrame map s) := by
  rw [xdpTraceNetEvent, keyOf_eq, absorbFrame_eq]
  show Except.ok (countOne map s.key s.frame.size) = .ok _
  unfold countOne countFrame
  cases h : map s.key with
  | some ipc => rfl
  | none =>
      show Except.ok (map.insertNew s.key _) = _
      rw [insertNew_miss _ h]

/-- A run of frames is a run of the keyed store. -/
theorem countAll_absorb (map : IpCountMap) (l : List Sample) :
    countAll map l = .ok (l.foldl absorbFrame map) := by
  unfold countAll
  induction l generalizing map with
  | nil => rfl
  | cons s l ih =>
      rw [List.foldlM_cons, xdpTraceNetEvent_eq, List.foldl_cons]
      exact ih _

theorem size_toUInt64 (f : Frame) : f.size.toUInt64 = UInt64.ofNat f.len := by
  have hlen : f.len < 2 ^ 32 := f.len_lt
  rw [← UInt64.toNat_inj, UInt32.toNat_toUInt64, f.size_toNat,
    UInt64.toNat_ofNat_of_lt' (Nat.lt_trans hlen (by decide))]

/-- One more frame. -/
theorem entryOf_concat (l : List Sample) (s : Sample) :
    entryOf (l ++ [s]) = some (countFrame (entryOf l) s) := by
  have htot : totBytes (l ++ [s]) = totBytes l + s.frame.len := by
    simp [totBytes]
  unfold entryOf
  rw [if_neg (by simp), htot, List.length_append, List.length_singleton,
    UInt64.ofNat_add, UInt64.ofNat_add, ← size_toUInt64]
  by_cases hl : l = []
  · rw [if_pos hl, hl]
    simp [countFrame, IpCount.create, totBytes]
  · rw [if_neg hl]
    rfl

/-- Frames of one key, one after another. -/
theorem foldl_countFrame (l : List Sample) :
    l.foldl (fun found s => some (countFrame found s)) none = entryOf l := by
  induction l using List.reverseRecOn with
  | nil => rfl
  | append_singleton l s ih =>
      rw [List.foldl_append, ih, entryOf_concat]
      rfl

/-- After a run every key has the entry of its frames. -/
theorem countAll_eq (l : List Sample) :
    countAll (fun _ => none) l
      = .ok fun key => entryOf (framesOf key l) := by
  rw [countAll_absorb]
  congr 1
  funext key
  unfold absorbFrame framesOf
  rw [Keyed.foldl_absorb, foldl_countFrame]

-- ================================================================= exactness

theorem entryOf_holds (h : Fits l) : Holds (entryOf l) l := by
  unfold entryOf
  by_cases hl : l = []
  · rw [if_pos hl]
    exact hl
  · rw [if_neg hl]
    exact ⟨hl, UInt64.toNat_ofNat_of_lt' h.count,
      UInt64.toNat_ofNat_of_lt' h.totBytes⟩

/-- A key has frames when it occurs. -/
theorem framesOf_ne_nil {key : UInt64} :
    framesOf key l ≠ [] ↔ key ∈ keysOf l := by
  unfold framesOf Keyed.eventsOf keysOf
  simp [List.filter_eq_nil_iff]

/-- Only the frames matter, and not their order. -/
theorem entryOf_perm (h : (l'.map (·.frame)).Perm (l.map (·.frame)))
    (key : UInt64) :
    entryOf (framesOf key l') = entryOf (framesOf key l) := by
  have hframes : ∀ l : List Sample, (framesOf key l).map (·.frame)
      = (l.map (·.frame)).filter fun f => ipKey f = key := by
    intro l
    unfold framesOf Keyed.eventsOf
    rw [List.filter_map]
    simp [Function.comp_def, Sample.key]
  have hperm : ((framesOf key l').map (·.frame)).Perm
      ((framesOf key l).map (·.frame)) := by
    rw [hframes, hframes]
    exact h.filter _
  have hlength : (framesOf key l').length = (framesOf key l).length := by
    simpa using hperm.length_eq
  have htot : totBytes (framesOf key l') = totBytes (framesOf key l) := by
    simpa [totBytes, Function.comp_def] using (hperm.map Frame.len).sum_eq
  have hnil : framesOf key l' = [] ↔ framesOf key l = [] := by
    rw [← List.length_eq_zero_iff, hlength, List.length_eq_zero_iff]
  unfold entryOf
  rw [if_congr hnil rfl rfl, hlength, htot]

/-- One of an entry's totals, 0 without an entry. -/
def totalAt (field : IpCount → UInt64) (map : IpCountMap) (key : UInt64) :
    Nat :=
  ((map key).map fun ipc => (field ipc).toNat).getD 0

/-- The count of a key. -/
abbrev countAt : IpCountMap → UInt64 → Nat := totalAt IpCount.count

/-- The bytes of a key. -/
abbrev bytesAt : IpCountMap → UInt64 → Nat := totalAt IpCount.totBytes

theorem holds_at (map : IpCountMap) (key : UInt64)
    (h : Holds (map key) l) :
    ((map key).isSome ↔ l ≠ []) ∧ countAt map key = l.length
      ∧ bytesAt map key = totBytes l := by
  unfold countAt bytesAt totalAt
  cases hentry : map key with
  | none =>
      rw [hentry] at h
      obtain rfl : l = [] := h
      simp [totBytes]
  | some ipc =>
      rw [hentry] at h
      obtain ⟨hne, hcount, hbytes⟩ := h
      simp [hne, hcount, hbytes]

/-- The keys' shares of the run. -/
theorem sum_framesOf (weight : Sample → Nat) (l : List Sample) :
    ∑ key ∈ keysOf l, ((framesOf key l).map weight).sum
      = (l.map weight).sum := by
  apply Keyed.sum_eventsOf
  intro s hs
  exact ⟨s.key, List.mem_toFinset.mpr (List.mem_map_of_mem hs), rfl⟩

theorem Fits.framesOf (h : Fits l) (key : UInt64) :
    Fits (framesOf key l) := by
  have hsub : (CountIps.framesOf key l).Sublist l := List.filter_sublist
  constructor
  · exact Nat.lt_of_le_of_lt hsub.length_le h.count
  · refine Nat.lt_of_le_of_lt ?_ h.totBytes
    exact (hsub.map (·.frame.len)).sum_le_sum (by simp)

/-- Every key has exactly the account of its frames, the accounts add up
to the run, and the order of the frames does not matter. -/
theorem counts_exact {l : List Sample} (hfits : ∀ key, Fits (framesOf key l)) :
    ∃ map, countAll (fun _ => none) l = .ok map
      ∧ (∀ key, ((map key).isSome ↔ key ∈ keysOf l)
        ∧ Holds (map key) (framesOf key l))
      ∧ ∑ key ∈ keysOf l, countAt map key = l.length
      ∧ ∑ key ∈ keysOf l, bytesAt map key = totBytes l
      ∧ ∀ l', (l'.map (·.frame)).Perm (l.map (·.frame)) →
          countAll (fun _ => none) l' = .ok map := by
  have hholds : ∀ key, Holds (entryOf (framesOf key l)) (framesOf key l) :=
    fun key => entryOf_holds (hfits key)
  have hat := fun key =>
    holds_at (fun key => entryOf (framesOf key l)) key (hholds key)
  refine ⟨_, countAll_eq l, fun key => ⟨?_, hholds key⟩, ?_, ?_, ?_⟩
  · rw [← framesOf_ne_nil]
    exact (hat key).1
  · have hlength : ∀ l : List Sample, l.length = (l.map fun _ => 1).sum := by
      simp
    rw [hlength l, ← sum_framesOf]
    refine Finset.sum_congr rfl fun key _ => ?_
    rw [(hat key).2.1, ← hlength]
  · unfold totBytes
    rw [← sum_framesOf]
    exact Finset.sum_congr rfl fun key _ => (hat key).2.2
  · intro l' hperm
    rw [countAll_eq]
    congr 1
    funext key
    exact entryOf_perm hperm key

/-- A frame of three bytes, between two UDP packets. -/
def shortBetween : List Sample :=
  [⟨udpFrom 68, 0⟩, ⟨⟨[1, 2, 3], by decide⟩, 5⟩, ⟨udpFrom 69, 0⟩]

/-- The short frame is counted with its three bytes. -/
theorem counts_exact_shortBetween :
    ∃ map, countAll (fun _ => none) shortBetween = .ok map
      ∧ Holds (map (errorKey (-1))) [⟨⟨[1, 2, 3], by decide⟩, 5⟩]
      ∧ ∑ key ∈ keysOf shortBetween, countAt map key = 3 := by
  have hfits : Fits shortBetween := ⟨by decide, by decide⟩
  obtain ⟨map, hrun, hentry, hcount, -, -⟩ :=
    counts_exact fun key => hfits.framesOf key
  exact ⟨map, hrun, (hentry (errorKey (-1))).2, hcount⟩

end XdpIds.CountIps
