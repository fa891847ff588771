/-
count_IPs_xdp's map as it is: an LRU map that evicts entries.

A pair of addresses whose entry is evicted starts from nothing, so what
the map holds in the end is the account of the frames that survived, and
what it has forgotten is the account of those that were lost. The two add
up to the run (`lru_counts`): nothing is counted twice, and nothing is
lost but by an eviction.
-/
import XdpIds.CountIps.Proofs.Ledger
import XdpIds.Lib.Evicting

namespace XdpIds.CountIps

open Keyed (Change)

/-- One frame is handled, or one entry evicted. -/
def lruStep (map : IpCountMap) : Change Sample UInt64 → Exec IpCountMap
  | .event s => xdpTraceNetEvent s.frame s.slot map
  | .drop key => .ok (Function.update map key none)

/-- Frames handled and entries evicted, one after another. -/
def lruRun (map : IpCountMap) (cs : List (Change Sample UInt64)) :
    Exec IpCountMap :=
  cs.foldlM lruStep map

/-- The frames that no eviction of their pair comes after. -/
def surviving (cs : List (Change Sample UInt64)) : List Sample :=
  Keyed.kept (fun s => some s.key) cs

/-- The frames whose account an eviction has taken. -/
def evicted (cs : List (Change Sample UInt64)) : List Sample :=
  Keyed.lost (fun s => some s.key) cs

variable {cs : List (Change Sample UInt64)}

/-- A run with evictions leaves what the surviving frames leave. -/
theorem lruRun_eq (cs : List (Change Sample UInt64)) :
    lruRun (fun _ => none) cs
      = .ok fun key => entryOf (framesOf key (surviving cs)) := by
  have hrun : ∀ map, lruRun map cs
      = .ok (cs.foldl (Keyed.change (fun s => some s.key) countFrame)
          map) := by
    induction cs with
    | nil => exact fun map => rfl
    | cons c cs ih =>
        intro map
        rw [List.foldl_cons, ← ih]
        cases c with
        | drop key => rfl
        | event s =>
            show (xdpTraceNetEvent s.frame s.slot map >>= fun map =>
              lruRun map cs) = _
            rw [xdpTraceNetEvent_eq]
            rfl
  rw [hrun, Keyed.foldl_change]
  congr 1
  funext key
  unfold framesOf
  rw [Keyed.foldl_absorb, foldl_countFrame]
  rfl

/-- The totals of a run are those of what survived and what was lost. -/
theorem surviving_evicted (weight : Sample → Nat)
    (cs : List (Change Sample UInt64)) :
    ((surviving cs).map weight).sum + ((evicted cs).map weight).sum
      = ((Keyed.events cs).map weight).sum := by
  rw [← List.sum_append, ← List.map_append]
  exact ((Keyed.kept_lost_perm cs).map weight).sum_eq

/-- Whatever is evicted and when, every pair has exactly the account of
its frames since it was last evicted, and the accounts, with what the
evictions took, add up to the run's frames and bytes. -/
theorem lru_counts (hfits : ∀ key, Fits (framesOf key (surviving cs))) :
    ∃ map, lruRun (fun _ => none) cs = .ok map
      ∧ (∀ key, ((map key).isSome ↔ key ∈ keysOf (surviving cs))
        ∧ Holds (map key) (framesOf key (surviving cs)))
      ∧ ∑ key ∈ keysOf (surviving cs), countAt map key
          + (evicted cs).length = (Keyed.events cs).length
      ∧ ∑ key ∈ keysOf (surviving cs), bytesAt map key
          + totBytes (evicted cs) = totBytes (Keyed.events cs) := by
  have hholds := fun key => entryOf_holds (hfits key)
  have hat := fun key =>
    holds_at (fun key => entryOf (framesOf key (surviving cs))) key
      (hholds key)
  refine ⟨_, lruRun_eq cs, fun key => ⟨?_, hholds key⟩, ?_, ?_⟩
  · rw [← framesOf_ne_nil]
    exact (hat key).1
  · have hlength : ∀ l : List Sample, l.length = (l.map fun _ => 1).sum := by
      simp
    rw [Finset.sum_congr rfl fun key _ => (hat key).2.1.trans (hlength _),
      sum_framesOf, hlength, hlength, surviving_evicted]
  · rw [Finset.sum_congr rfl fun key _ => (hat key).2.2]
    unfold totBytes
    rw [sum_framesOf, surviving_evicted]

/-- The first of two frames of a pair is lost. -/
theorem lru_counts_evicted :
    ∃ map, lruRun (fun _ => none) [.event ⟨udpFrom 68, 0⟩,
        .drop (ipKey (udpFrom 68)), .event ⟨udpFrom 68, 0⟩] = .ok map
      ∧ Holds (map (ipKey (udpFrom 68))) [⟨udpFrom 68, 0⟩] := by
  have hsurvive : surviving [.event ⟨udpFrom 68, 0⟩,
      .drop (ipKey (udpFrom 68)), .event ⟨udpFrom 68, 0⟩]
        = [⟨udpFrom 68, 0⟩] := by
    simp [surviving, Keyed.kept, Keyed.dropped, Sample.key]
  have hfits : Fits [⟨udpFrom 68, 0⟩] := ⟨by decide, by decide⟩
  obtain ⟨map, hrun, hentry, -, -⟩ := @lru_counts [.event ⟨udpFrom 68, 0⟩,
    .drop (ipKey (udpFrom 68)), .event ⟨udpFrom 68, 0⟩] fun key => by
      rw [hsurvive]
      exact hfits.framesOf key
  refine ⟨map, hrun, ?_⟩
  have hframes : framesOf (ipKey (udpFrom 68)) [⟨udpFrom 68, 0⟩]
      = [⟨udpFrom 68, 0⟩] := by
    simp [framesOf, Keyed.eventsOf, Sample.key]
  have hholds := (hentry (ipKey (udpFrom 68))).2
  rwa [hsurvive, hframes] at hholds

end XdpIds.CountIps
