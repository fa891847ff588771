/-
A ring of records between producers and one consumer.

A producer reserves a record, fills it, and commits it: submitted with
what it holds, or discarded. A reservation may be refused, which leaves
the producer without a record; it may be refused at any time, so what is
proved holds for a ring of any size. Records are laid out in the order of
their reservations. The consumer takes the next one once it is
committed: a submitted record is handed on, a discarded one is skipped,
and one that is still being filled holds up everything behind it.

`Kept` is what every run keeps. It says that the consumer has been handed
exactly what the records it has passed were submitted with, in their
order (`Kept.handed`), and that the records are those of the producers
that got one, each once (`Kept.records_nodup`, `Kept.mem`).
-/
import XdpIds.Lib.Transition
import Mathlib.Logic.Function.Basic
import Mathlib.Data.List.Nodup

namespace XdpIds.Ring

open Transition

variable {ι α : Type}

-- ================================================================ the system

/-- Where a producer is. A committed record has what it was submitted
with, or nothing. -/
inductive Stage (α : Type) where
  | idle
  | refused
  | filling
  | committed (out : Option α)

namespace Stage

/-- The producer's record is committed. -/
def isCommitted : Stage α → Bool
  | .committed _ => true
  | _ => false

/-- The producer has had a record. -/
def hasRecord : Stage α → Bool
  | .idle => false
  | .refused => false
  | .filling => true
  | .committed _ => true

/-- What a record was submitted with. -/
def result : Stage α → Option α
  | .committed out => out
  | _ => none

theorem of_isCommitted {stage : Stage α} (h : stage.isCommitted = true) :
    ∃ out, stage = .committed out := by
  cases stage with
  | committed out => exact ⟨out, rfl⟩
  | _ => cases h

end Stage

/-- The producers' stages, the records by producer in the order of their
reservations, how many of them the consumer has passed, and what it has
been handed. -/
structure RingState (ι α : Type) where
  stage : ι → Stage α
  records : List ι
  passed : Nat
  handed : List α

/-- Before the first reservation. -/
def RingState.start : RingState ι α := ⟨fun _ => .idle, [], 0, []⟩

/-- A producer reserves, is refused, or commits; the consumer takes a
record. -/
inductive Move (ι α : Type) where
  | reserve (p : ι)
  | refuse (p : ι)
  | commit (p : ι) (out : Option α)
  | take

/-- One move. -/
def ringStep [DecidableEq ι] (s : RingState ι α) : Move ι α → Option (RingState ι α)
  | .reserve p =>
      match s.stage p with
      | .idle =>
          some { s with
            stage := Function.update s.stage p .filling
            records := s.records ++ [p] }
      | _ => none
  | .refuse p =>
      match s.stage p with
      | .idle =>
          some { s with stage := Function.update s.stage p .refused }
      | _ => none
  | .commit p out =>
      match s.stage p with
      | .filling =>
          some { s with stage := Function.update s.stage p (.committed out) }
      | _ => none
  | .take =>
      match s.records[s.passed]?.map s.stage with
      | some (.committed out) =>
          some { s with
            passed := s.passed + 1
            handed := s.handed ++ out.toList }
      | _ => none

variable {s s' : RingState ι α} {p : ι} {out : Option α}

section Moves

variable [DecidableEq ι]

-- ========================================================= what a move does

theorem reserve_inv (h : ringStep s (.reserve p) = some s') :
    s.stage p = .idle
      ∧ s' = { s with
          stage := Function.update s.stage p .filling
          records := s.records ++ [p] } := by
  cases hp : s.stage p with
  | idle =>
      rw [ringStep, hp] at h
      exact ⟨rfl, (Option.some.inj h).symm⟩
  | _ =>
      rw [ringStep, hp] at h
      cases h

theorem refuse_inv (h : ringStep s (.refuse p) = some s') :
    s.stage p = .idle
      ∧ s' = { s with stage := Function.update s.stage p .refused } := by
  cases hp : s.stage p with
  | idle =>
      rw [ringStep, hp] at h
      exact ⟨rfl, (Option.some.inj h).symm⟩
  | _ =>
      rw [ringStep, hp] at h
      cases h

theorem commit_inv (h : ringStep s (.commit p out) = some s') :
    s.stage p = .filling
      ∧ s' = { s with
          stage := Function.update s.stage p (.committed out) } := by
  cases hp : s.stage p with
  | filling =>
      rw [ringStep, hp] at h
      exact ⟨rfl, (Option.some.inj h).symm⟩
  | _ =>
      rw [ringStep, hp] at h
      cases h

theorem take_inv (h : ringStep s .take = some s') :
    ∃ p out, s.records[s.passed]? = some p ∧ s.stage p = .committed out
      ∧ s' = { s with
          passed := s.passed + 1
          handed := s.handed ++ out.toList } := by
  cases hp : s.records[s.passed]? with
  | none =>
      rw [ringStep, hp] at h
      cases h
  | some p =>
      cases hstage : s.stage p with
      | committed out =>
          rw [ringStep, hp, Option.map_some, hstage] at h
          exact ⟨p, out, rfl, hstage, (Option.some.inj h).symm⟩
      | _ =>
          rw [ringStep, hp, Option.map_some, hstage] at h
          cases h

end Moves

-- ============================================================ the invariant

/-- What every run keeps. -/
structure Kept (s : RingState ι α) : Prop where
  records_nodup : s.records.Nodup
  mem : ∀ p, p ∈ s.records ↔ (s.stage p).hasRecord = true
  passed_le : s.passed ≤ s.records.length
  passed_committed : ∀ p ∈ s.records.take s.passed,
    (s.stage p).isCommitted = true
  handed : s.handed
    = (s.records.take s.passed).filterMap fun p => (s.stage p).result

theorem kept_start : Kept (.start : RingState ι α) where
  records_nodup := .nil
  mem _ := by simp [RingState.start, Stage.hasRecord]
  passed_le := Nat.le_refl 0
  passed_committed := by simp [RingState.start]
  handed := rfl

/-- No record is passed twice. -/
theorem Kept.passed_nodup (hI : Kept s) :
    (s.records.take s.passed).Nodup :=
  hI.records_nodup.sublist (List.take_sublist ..)

/-- Once the consumer has caught up, every record has been passed. -/
theorem Kept.passed_all (hI : Kept s) (h : s.passed = s.records.length)
    (p : ι) :
    p ∈ s.records.take s.passed ↔ (s.stage p).hasRecord = true := by
  rw [h, List.take_length]
  exact hI.mem p

section Steps

variable [DecidableEq ι]

/-- A producer whose record has not been passed moves on, and the passed
ones do not notice. -/
theorem Kept.handed_update (hI : Kept s) (stage : Stage α)
    (hp : (s.stage p).isCommitted = false) :
    ((s.records.take s.passed).filterMap fun q =>
        (Function.update s.stage p stage q).result) = s.handed
      ∧ ∀ q ∈ s.records.take s.passed,
        (Function.update s.stage p stage q).isCommitted = true := by
  have hne : ∀ q ∈ s.records.take s.passed, q ≠ p := by
    intro q hq hqp
    have hcommitted := hI.passed_committed q hq
    rw [hqp, hp] at hcommitted
    cases hcommitted
  constructor
  · rw [hI.handed]
    refine List.filterMap_congr fun q hq => ?_
    rw [Function.update_of_ne (hne q hq)]
  · intro q hq
    rw [Function.update_of_ne (hne q hq)]
    exact hI.passed_committed q hq

theorem Kept.reserve (hI : Kept s) (h : ringStep s (.reserve p) = some s') :
    Kept s' := by
  obtain ⟨hp, rfl⟩ := reserve_inv h
  have hnew : p ∉ s.records := by
    rw [hI.mem, hp]
    exact Bool.false_ne_true
  have htake : (s.records ++ [p]).take s.passed = s.records.take s.passed :=
    List.take_append_of_le_length hI.passed_le
  obtain ⟨hhanded, hcommitted⟩ := hI.handed_update (p := p) .filling
    (by rw [hp]; rfl)
  constructor
  · exact List.concat_eq_append ▸ hI.records_nodup.concat hnew
  · intro q
    show q ∈ s.records ++ [p]
      ↔ (Function.update s.stage p .filling q).hasRecord = true
    rw [List.mem_append, List.mem_singleton]
    by_cases hqp : q = p
    · subst hqp
      rw [Function.update_self]
      exact iff_of_true (.inr rfl) rfl
    · rw [Function.update_of_ne hqp, or_iff_left hqp]
      exact hI.mem q
  · show s.passed ≤ (s.records ++ [p]).length
    rw [List.length_append]
    exact Nat.le_trans hI.passed_le (Nat.le_add_right _ _)
  · show ∀ q ∈ (s.records ++ [p]).take s.passed, _
    rw [htake]
    exact hcommitted
  · show s.handed = ((s.records ++ [p]).take s.passed).filterMap _
    rw [htake]
    exact hhanded.symm

/-- A move that only changes whether a producer is committed, or refused
instead of idle. -/
theorem Kept.restage (hI : Kept s) (stage : Stage α)
    (hp : (s.stage p).isCommitted = false)
    (hrecord : stage.hasRecord = (s.stage p).hasRecord) :
    Kept { s with stage := Function.update s.stage p stage } := by
  obtain ⟨hhanded, hcommitted⟩ := hI.handed_update stage hp
  refine ⟨hI.records_nodup, fun q => ?_, hI.passed_le, hcommitted,
    hhanded.symm⟩
  show q ∈ s.records ↔ (Function.update s.stage p stage q).hasRecord = true
  by_cases hqp : q = p
  · subst hqp
    rw [Function.update_self, hrecord]
    exact hI.mem q
  · rw [Function.update_of_ne hqp]
    exact hI.mem q

theorem Kept.take (hI : Kept s) (h : ringStep s .take = some s') :
    Kept s' := by
  obtain ⟨p, out, hp, hstage, rfl⟩ := take_inv h
  have htake : s.records.take (s.passed + 1)
      = s.records.take s.passed ++ [p] := by
    rw [List.take_add_one, hp]
    rfl
  refine ⟨hI.records_nodup, hI.mem, ?_, ?_, ?_⟩
  · exact (List.getElem?_eq_some_iff.mp hp).1
  · show ∀ q ∈ s.records.take (s.passed + 1), _
    rw [htake]
    intro q hq
    rcases List.mem_append.mp hq with hq | hq
    · exact hI.passed_committed q hq
    · obtain rfl := List.mem_singleton.mp hq
      rw [hstage]
      rfl
  · show s.handed ++ out.toList = (s.records.take (s.passed + 1)).filterMap _
    rw [htake, List.filterMap_append, ← hI.handed]
    cases out with
    | none => simp [hstage, Stage.result]
    | some a => simp [hstage, Stage.result]

/-- One move keeps it. -/
theorem kept_step {m : Move ι α} (hI : Kept s)
    (h : ringStep s m = some s') : Kept s' := by
  cases m with
  | reserve p => exact hI.reserve h
  | refuse p =>
      obtain ⟨hp, rfl⟩ := refuse_inv h
      exact hI.restage .refused (by rw [hp]; rfl) (by rw [hp]; rfl)
  | commit p out =>
      obtain ⟨hp, rfl⟩ := commit_inv h
      exact hI.restage (.committed out) (by rw [hp]; rfl) (by rw [hp]; rfl)
  | take => exact hI.take h

end Steps

-- ============================================================== catching up

section CatchUp

variable [DecidableEq ι]

/-- The consumer takes the next record unless it is still being
filled. -/
theorem Kept.take_enabled (hI : Kept s) (hp : s.records[s.passed]? = some p)
    (hfill : s.stage p ≠ .filling) :
    ∃ s', ringStep s .take = some s' ∧ s'.records = s.records
      ∧ s'.stage = s.stage ∧ s'.passed = s.passed + 1 := by
  have hrecord := (hI.mem p).mp (List.mem_of_getElem? hp)
  cases hstage : s.stage p with
  | committed out =>
      refine ⟨{ s with
        passed := s.passed + 1
        handed := s.handed ++ out.toList }, ?_, rfl, rfl, rfl⟩
      rw [ringStep, hp, Option.map_some, hstage]
  | filling => exact absurd hstage hfill
  | _ =>
      rw [hstage] at hrecord
      cases hrecord

end CatchUp

end XdpIds.Ring
