/-
Counting on several CPUs.

`Unraced` is the condition on a run: an insert finds no entry, and an
addition does not wrap. In every run whose accesses all meet it, each
key's entry has counted its frames, no more and no fewer, once they are
handled (`parallel_counts`).

The invariant (`Posted`) is two tallies per key: what an entry has is
what its frames have posted to it so far. A frame that is past its lookup
has its entry, which no access removes.

A frame that is left alone does what it does sequentially (`run_alone`).
Two first frames of a key are enough to lose one: both look up before
either inserts, and the second insert does nothing (`two_first_frames`).
-/
import XdpIds.CountIps.Parallel
import XdpIds.CountIps.Proofs.Ledger
import XdpIds.Lib.Threads

namespace XdpIds.CountIps

open Threads Transition

variable {ι : Type} [DecidableEq ι] {sample : ι → Sample}
  {s s' : CountState ι} {p : ι}

-- ============================================================ what a step does

/-- The accesses, each with what it finds and what it leaves. -/
inductive Moves (sample : ι → Sample) (s : CountState ι) (p : ι) :
    CountState ι → Prop
  | hit {ipc} (hp : s.phase p = .arrived)
      (he : s.map (sample p).key = some ipc) :
      Moves sample s p
        (s.move p s.map (.found (sample p).key (sample p).frame.size))
  | miss (hp : s.phase p = .arrived) (he : s.map (sample p).key = none) :
      Moves sample s p
        (s.move p s.map (.missed (sample p).key (sample p).frame.size))
  | count {key pktSize ipc} (hp : s.phase p = .found key pktSize)
      (he : s.map key = some ipc) :
      Moves sample s p
        (s.move p (Function.update s.map key (some ipc.addCount))
          (.counted key pktSize))
  | size {key pktSize ipc} (hp : s.phase p = .counted key pktSize)
      (he : s.map key = some ipc) :
      Moves sample s p
        (s.move p (Function.update s.map key (some (ipc.addBytes pktSize)))
          .done)
  | insert {key pktSize} (hp : s.phase p = .missed key pktSize)
      (he : s.map key = none) :
      Moves sample s p
        (s.move p (Function.update s.map key (some (.create pktSize))) .done)
  | lost {key pktSize ipc} (hp : s.phase p = .missed key pktSize)
      (he : s.map key = some ipc) :
      Moves sample s p (s.move p s.map .done)

theorem insertNew_hit {map : IpCountMap} {key : UInt64} {ipc : IpCount}
    (value : IpCount) (h : map key = some ipc) :
    map.insertNew key value = map := by
  rw [IpCountMap.insertNew, h]

theorem countStep_moves (h : countStep sample s p = some s') :
    Moves sample s p s' := by
  unfold countStep at h
  cases hp : s.phase p with
  | arrived =>
      rw [hp, keyOf_eq] at h
      cases he : s.map (sample p).key with
      | some ipc =>
          simp only [Sample.key] at he
          simp only [he] at h
          obtain rfl := Option.some.inj h
          exact .hit hp he
      | none =>
          simp only [Sample.key] at he
          simp only [he] at h
          obtain rfl := Option.some.inj h
          exact .miss hp he
  | found key pktSize =>
      rw [hp] at h
      cases he : s.map key with
      | some ipc =>
          simp only [he] at h
          obtain rfl := Option.some.inj h
          exact .count hp he
      | none =>
          simp only [he] at h
          cases h
  | counted key pktSize =>
      rw [hp] at h
      cases he : s.map key with
      | some ipc =>
          simp only [he] at h
          obtain rfl := Option.some.inj h
          exact .size hp he
      | none =>
          simp only [he] at h
          cases h
  | missed key pktSize =>
      rw [hp] at h
      obtain rfl := Option.some.inj h
      cases he : s.map key with
      | some ipc =>
          rw [insertNew_hit _ he]
          exact .lost hp he
      | none =>
          rw [insertNew_miss _ he]
          exact .insert hp he
  | done =>
      rw [hp] at h
      cases h

theorem Moves.step (h : Moves sample s p s') :
    countStep sample s p = some s' := by
  unfold countStep
  cases h with
  | hit hp he =>
      rw [Sample.key] at he
      simp [hp, keyOf_eq, he, Sample.key]
  | miss hp he =>
      rw [Sample.key] at he
      simp [hp, keyOf_eq, he, Sample.key]
  | count hp he => simp [hp, he]
  | size hp he => simp [hp, he]
  | insert hp he => simp [hp, insertNew_miss _ he]
  | lost hp he => simp [hp, insertNew_hit _ he]

-- ============================================================= a frame on its own

theorem move_phase (s : CountState ι) (p : ι) (map : IpCountMap)
    (next : CountPhase) : (s.move p map next).phase p = next :=
  Function.update_self ..

/-- A frame handled without interruption is handled as it would be
sequentially. -/
theorem run_alone (sample : ι → Sample) (s : CountState ι) (p : ι)
    (hp : s.phase p = .arrived) :
    ∃ n s', run (countStep sample) s (List.replicate n p) = some s'
      ∧ s'.phase p = .done
      ∧ xdpTraceNetEvent (sample p).frame (sample p).slot s.map
        = .ok s'.map := by
  rw [xdpTraceNetEvent_eq, absorbFrame_eq]
  generalize hkey : (sample p).key = key
  generalize hsize : (sample p).frame.size = pktSize
  cases he : s.map key with
  | some ipc =>
      let s₁ := s.move p s.map (.found key pktSize)
      let s₂ := s₁.move p
        (Function.update s.map key (some ipc.addCount)) (.counted key pktSize)
      have hfound : countStep sample s p = some s₁ := by
        subst hkey hsize
        exact Moves.step (.hit hp he)
      have hcounted : countStep sample s₁ p = some s₂ :=
        Moves.step (.count (move_phase ..) he)
      have hdone : countStep sample s₂ p = some (s₂.move p
          (Function.update s₂.map key (some (ipc.addCount.addBytes pktSize)))
          .done) :=
        Moves.step (.size (move_phase ..) (Function.update_self ..))
      have hrun := (run_cons hfound [p, p]).trans
        ((run_cons hcounted [p]).trans (run_cons hdone []))
      refine ⟨3, _, hrun, move_phase s₂ p _ _, ?_⟩
      subst hsize
      exact congrArg _ (Function.update_idem ..).symm
  | none =>
      let s₁ := s.move p s.map (.missed key pktSize)
      have hmissed : countStep sample s p = some s₁ := by
        subst hkey hsize
        exact Moves.step (.miss hp he)
      have hdone : countStep sample s₁ p = some (s₁.move p
          (Function.update s.map key (some (.create pktSize))) .done) :=
        Moves.step (.insert (move_phase ..) he)
      have hrun := (run_cons hmissed [p]).trans (run_cons hdone [])
      refine ⟨2, _, hrun, move_phase s₁ p _ _, ?_⟩
      subst hsize
      rfl

-- ============================================================== the condition

/-- The accesses from a phase that count a frame: the insert of a key
that is not there, and the additions that do not wrap. -/
def UnracedFrom (map : IpCountMap) : CountPhase → Prop
  | .missed key _ => map key = none
  | .found key _ => countAt map key + 1 < 2 ^ 64
  | .counted key pktSize => bytesAt map key + pktSize.toNat < 2 ^ 64
  | .arrived | .done => True

/-- The accesses that count a frame. -/
def Unraced (s : CountState ι) (p : ι) : Prop := UnracedFrom s.map (s.phase p)

instance (map : IpCountMap) : ∀ ph, Decidable (UnracedFrom map ph)
  | .missed _ _ => inferInstanceAs (Decidable (_ = _))
  | .found _ _ => inferInstanceAs (Decidable (_ < _))
  | .counted _ _ => inferInstanceAs (Decidable (_ < _))
  | .arrived | .done => .isTrue trivial

omit [DecidableEq ι] in
instance (s : CountState ι) (p : ι) : Decidable (Unraced s p) :=
  inferInstanceAs (Decidable (UnracedFrom s.map (s.phase p)))

-- ============================================================== the invariant

/-- What a frame has added to its entry's count. -/
def CountPhase.counts : CountPhase → Nat
  | .counted .. | .done => 1
  | _ => 0

/-- What a frame of a given length has added to its entry's bytes. -/
def CountPhase.bytes (len : Nat) : CountPhase → Nat
  | .done => len
  | _ => 0

/-- A frame's locals are its own, and past a hit it has its entry. -/
def Posting (map : IpCountMap) (a : Sample) : CountPhase → Prop
  | .arrived => True
  | .missed key pktSize => key = a.key ∧ pktSize = a.frame.size
  | .found key pktSize | .counted key pktSize =>
      key = a.key ∧ pktSize = a.frame.size ∧ (map a.key).isSome
  | .done => (map a.key).isSome

/-- What a frame's phase is worth to a key: nothing to another's. -/
def share (sample : ι → Sample) (worth : Sample → CountPhase → Nat)
    (key : UInt64) (p : ι) (ph : CountPhase) : Nat :=
  if (sample p).key = key then worth (sample p) ph else 0

/-- Its share of a key's count. -/
abbrev countShare (sample : ι → Sample) : UInt64 → ι → CountPhase → Nat :=
  share sample fun _ => CountPhase.counts

/-- Its share of a key's bytes. -/
abbrev bytesShare (sample : ι → Sample) : UInt64 → ι → CountPhase → Nat :=
  share sample fun a => CountPhase.bytes a.frame.len

/-- The state along an unraced run: every entry has what its frames have
posted to it. -/
structure Posted [Fintype ι] (sample : ι → Sample) (s : CountState ι) :
    Prop where
  posting : ∀ p, Posting s.map (sample p) (s.phase p)
  owned : ∀ key, (s.map key).isSome → ∃ p, (sample p).key = key
  count : ∀ key, countAt s.map key = tally (countShare sample key) s.phase
  bytes : ∀ key, bytesAt s.map key = tally (bytesShare sample key) s.phase

/-- A frame's clause survives a map that keeps its entries. -/
theorem Posting.mono {map map' : IpCountMap} {a : Sample} {ph : CountPhase}
    (h : Posting map a ph)
    (hkeep : ∀ key, (map key).isSome → (map' key).isSome) :
    Posting map' a ph := by
  cases ph with
  | arrived => trivial
  | missed key pktSize => exact h
  | found key pktSize => exact ⟨h.1, h.2.1, hkeep _ h.2.2⟩
  | counted key pktSize => exact ⟨h.1, h.2.1, hkeep _ h.2.2⟩
  | done => exact hkeep _ h

theorem isSome_update {map : IpCountMap} {key key' : UInt64}
    {ipc : IpCount} :
    (Function.update map key (some ipc) key').isSome
      ↔ key' = key ∨ (map key').isSome := by
  by_cases h : key' = key <;> simp [h]

omit [DecidableEq ι] in
theorem share_congr {worth : Sample → CountPhase → Nat}
    {old new : CountPhase}
    (h : worth (sample p) old = worth (sample p) new) (key : UInt64) :
    share sample worth key p old = share sample worth key p new := by
  unfold share
  rw [h]

omit [DecidableEq ι] in
/-- A write of a frame's own entry, key by key: the entry gains what the
frame's next phase is worth. -/
theorem totalAt_write {field : IpCount → UInt64}
    {worth : Sample → CountPhase → Nat} {map : IpCountMap} {ipc : IpCount}
    {old new : CountPhase}
    (h : (field ipc).toNat + worth (sample p) old
      = totalAt field map (sample p).key + worth (sample p) new)
    (key : UInt64) :
    totalAt field (Function.update map (sample p).key (some ipc)) key
        + share sample worth key p old
      = totalAt field map key + share sample worth key p new := by
  unfold share
  by_cases hkey : (sample p).key = key
  · subst hkey
    rw [if_pos rfl, if_pos rfl, ← h]
    simp [totalAt]
  · rw [if_neg hkey, if_neg hkey]
    simp [totalAt, Ne.symm hkey]

variable [Fintype ι]

omit [DecidableEq ι] in
theorem posted_start : Posted sample (.start : CountState ι) where
  posting := fun _ => trivial
  owned := fun _ h => by cases h
  count := fun key => by
    rw [tally_zero fun p => ?_]
    · rfl
    · exact ite_self 0
  bytes := fun key => by
    rw [tally_zero fun p => ?_]
    · rfl
    · exact ite_self 0

/-- A frame moves, and what its key's entry gains is what the frame now
counts for. -/
theorem Posted.move (hI : Posted sample s) {map' : IpCountMap}
    {old new : CountPhase} (hp : s.phase p = old)
    (hkeep : ∀ key, (s.map key).isSome → (map' key).isSome)
    (howned : ∀ key, (map' key).isSome →
      key = (sample p).key ∨ (s.map key).isSome)
    (hposting : Posting map' (sample p) new)
    (hcount : ∀ key, countAt map' key + countShare sample key p old
      = countAt s.map key + countShare sample key p new)
    (hbytes : ∀ key, bytesAt map' key + bytesShare sample key p old
      = bytesAt s.map key + bytesShare sample key p new) :
    Posted sample (s.move p map' new) := by
  subst hp
  constructor
  · intro q
    show Posting map' (sample q) (Function.update s.phase p new q)
    by_cases hq : q = p
    · subst hq
      rw [Function.update_self]
      exact hposting
    · rw [Function.update_of_ne hq]
      exact (hI.posting q).mono hkeep
  · intro key hkey
    rcases howned key hkey with rfl | hold
    · exact ⟨p, rfl⟩
    · exact hI.owned key hold
  · intro key
    have hmove := tally_move (countShare sample key) s.phase p new
    have hold := hI.count key
    have hnew := hcount key
    show countAt map' key = tally _ (Function.update s.phase p new)
    omega
  · intro key
    have hmove := tally_move (bytesShare sample key) s.phase p new
    have hold := hI.bytes key
    have hnew := hbytes key
    show bytesAt map' key = tally _ (Function.update s.phase p new)
    omega

/-- A lookup. -/
theorem Posted.look (hI : Posted sample s) {new : CountPhase}
    (hp : s.phase p = .arrived) (hposting : Posting s.map (sample p) new)
    (hcounts : new.counts = 0)
    (hbytes : new.bytes (sample p).frame.len = 0) :
    Posted sample (s.move p s.map new) := by
  apply hI.move hp (fun _ h => h) (fun _ h => .inr h) hposting
  · exact fun key =>
      congrArg (countAt s.map key + ·) (share_congr hcounts.symm key)
  · exact fun key =>
      congrArg (bytesAt s.map key + ·) (share_congr hbytes.symm key)

/-- A write of the frame's own entry. -/
theorem Posted.write (hI : Posted sample s) {old new : CountPhase}
    {ipc : IpCount} (hp : s.phase p = old)
    (hposting : Posting
      (Function.update s.map (sample p).key (some ipc)) (sample p) new)
    (hcount : ipc.count.toNat + old.counts
      = countAt s.map (sample p).key + new.counts)
    (hbytes : ipc.totBytes.toNat + old.bytes (sample p).frame.len
      = bytesAt s.map (sample p).key + new.bytes (sample p).frame.len) :
    Posted sample
      (s.move p (Function.update s.map (sample p).key (some ipc)) new) := by
  apply hI.move hp
  · exact fun key h => isSome_update.mpr (.inr h)
  · exact fun key h => isSome_update.mp h
  · exact hposting
  · exact totalAt_write hcount
  · exact totalAt_write hbytes

-- ================================================================== one step

theorem addBytes_toNat {ipc : IpCount} {f : Frame}
    (h : ipc.totBytes.toNat + f.size.toNat < 2 ^ 64) :
    (ipc.addBytes f.size).totBytes.toNat = ipc.totBytes.toNat + f.len := by
  show (ipc.totBytes + f.size.toUInt64).toNat = _
  rw [UInt64.toNat_add, UInt32.toNat_toUInt64, Nat.mod_eq_of_lt h,
    f.size_toNat]

/-- What a key's totals are, given its entry. -/
theorem totalAt_some (field : IpCount → UInt64) {map : IpCountMap}
    {key : UInt64} {ipc : IpCount} (h : map key = some ipc) :
    totalAt field map key = (field ipc).toNat := by
  simp [totalAt, h]

theorem totalAt_none (field : IpCount → UInt64) {map : IpCountMap}
    {key : UInt64} (h : map key = none) : totalAt field map key = 0 := by
  simp [totalAt, h]

/-- Unraced accesses post what they should. -/
theorem posted_step (hI : Posted sample s) (hgood : Unraced s p)
    (hs : Moves sample s p s') : Posted sample s' := by
  have hposting := hI.posting p
  unfold Unraced at hgood
  cases hs with
  | hit hp he =>
      exact hI.look hp ⟨rfl, rfl, by simp [he]⟩ rfl rfl
  | miss hp he =>
      exact hI.look hp ⟨rfl, rfl⟩ rfl rfl
  | @count key pktSize ipc hp he =>
      rw [hp] at hgood hposting
      obtain ⟨rfl, rfl, -⟩ := hposting
      have hroom : ipc.count.toNat + 1 < 2 ^ 64 := by
        rw [← totalAt_some IpCount.count he]
        exact hgood
      have hnew : Posting
          (Function.update s.map (sample p).key (some ipc.addCount))
          (sample p) (.counted (sample p).key (sample p).frame.size) :=
        ⟨rfl, rfl, by simp⟩
      apply hI.write hp hnew
      · rw [countAt, totalAt_some _ he]
        show (ipc.count + 1).toNat + 0 = ipc.count.toNat + 1
        rw [UInt64.toNat_add]
        exact Nat.mod_eq_of_lt hroom
      · rw [bytesAt, totalAt_some _ he]
        rfl
  | @size key pktSize ipc hp he =>
      rw [hp] at hgood hposting
      obtain ⟨rfl, rfl, -⟩ := hposting
      have hroom : ipc.totBytes.toNat + (sample p).frame.size.toNat
          < 2 ^ 64 := by
        rw [← totalAt_some IpCount.totBytes he]
        exact hgood
      apply hI.write hp (by simp [Posting])
      · rw [countAt, totalAt_some _ he]
        rfl
      · rw [bytesAt, totalAt_some _ he, addBytes_toNat hroom]
        rfl
  | @insert key pktSize hp he =>
      rw [hp] at hposting
      obtain ⟨rfl, rfl⟩ := hposting
      apply hI.write hp (by simp [Posting])
      · rw [countAt, totalAt_none _ he]
        rfl
      · rw [bytesAt, totalAt_none _ he]
        show (sample p).frame.size.toUInt64.toNat + 0 = 0 + _
        rw [UInt32.toNat_toUInt64, Frame.size_toNat, Nat.zero_add]
        rfl
  | lost hp he =>
      rw [hp, UnracedFrom, he] at hgood
      cases hgood

-- ================================================================= whole runs

/-- In every run of unraced accesses, once all frames are handled each
key that occurs has an entry, with the number of its frames and the sum of
their lengths. -/
theorem parallel_counts {sample : ι → Sample} {s : CountState ι}
    (hrun : Reach (countStep sample) Unraced .start s)
    (hdone : s.Finished) (key : UInt64) :
    ((s.map key).isSome ↔ ∃ p, (sample p).key = key)
      ∧ countAt s.map key
        = (Finset.univ.filter fun p => (sample p).key = key).card
      ∧ bytesAt s.map key
        = ∑ p with (sample p).key = key, (sample p).frame.len := by
  obtain ⟨hposting, howned, hcount, hbytes⟩ :=
    hrun.invariant posted_start fun _ _ _ hI hgood hs =>
      posted_step hI hgood (countStep_moves hs)
  refine ⟨⟨howned key, ?_⟩, ?_, ?_⟩
  · rintro ⟨p, rfl⟩
    have hp := hposting p
    rw [hdone p] at hp
    exact hp
  · rw [hcount, Finset.card_filter]
    apply tally_eq
    intro p
    rw [hdone p]
    rfl
  · rw [hbytes, Finset.sum_filter]
    apply tally_eq
    intro p
    rw [hdone p]
    rfl

/-- The same UDP packet twice. -/
def twoUdp (_ : Fin 2) : Sample := ⟨udpFrom 68, 0⟩

/-- The second after the first is through. -/
theorem parallel_counts_twoUdp :
    ∃ s, Reach (countStep twoUdp) Unraced .start s ∧ s.Finished
      ∧ countAt s.map (ipKey (udpFrom 68)) = 2
      ∧ bytesAt s.map (ipKey (udpFrom 68)) = 84 := by
  have hrun : (run (guarded (countStep twoUdp) Unraced) .start
      [0, 0, 1, 1, 1]).map (fun s => (s.phase 0, s.phase 1))
      = some (.done, .done) := by
    decide +kernel
  obtain ⟨s, hs, hphase⟩ := Option.map_eq_some_iff.mp hrun
  have hreach := run_guarded hs
  have hdone : s.Finished := by
    intro p
    match p with
    | 0 => exact (Prod.mk.inj hphase).1
    | 1 => exact (Prod.mk.inj hphase).2
  obtain ⟨-, hcount, hbytes⟩ :=
    parallel_counts hreach hdone (ipKey (udpFrom 68))
  exact ⟨s, hreach, hdone, hcount, hbytes⟩

/-- Both look up before either inserts, and one of them is not
counted. -/
theorem two_first_frames :
    ∃ s, Reach (countStep twoUdp) Any .start s ∧ s.Finished
      ∧ (∀ p, (twoUdp p).key = ipKey (udpFrom 68))
      ∧ countAt s.map (ipKey (udpFrom 68)) = 1 := by
  have hrun : (run (countStep twoUdp) .start [0, 1, 0, 1]).map
      (fun s => (s.phase 0, s.phase 1, countAt s.map (ipKey (udpFrom 68))))
      = some (.done, .done, 1) := by
    decide +kernel
  obtain ⟨s, hs, hphase⟩ := Option.map_eq_some_iff.mp hrun
  obtain ⟨h0, h1, hcount⟩ : s.phase 0 = .done ∧ s.phase 1 = .done
      ∧ countAt s.map (ipKey (udpFrom 68)) = 1 := by
    simpa using hphase
  refine ⟨s, run_reach hs, ?_, fun _ => rfl, hcount⟩
  intro p
  match p with
  | 0 => exact h0
  | 1 => exact h1

end XdpIds.CountIps
