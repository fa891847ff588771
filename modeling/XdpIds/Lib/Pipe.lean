/-
A pipe: producers that work on a state they share and report through a
ring, and a consumer that folds what it is handed.

A producer that has reserved a record does its work and commits the
record in one step; one that is refused a record does its work without.
In between reserving and committing others may work, so the records are
in the order of the reservations while the shared state is changed in
the order of the work, and the two orders need not be one.

`Turns` is the second order: what the producers did, one after another,
each to the state that those before it left. `traced_reach` says that
every run has one, and that it and the ring tell the same story: a
producer is committed with what its turn gave, and the consumer has
folded the committed records it has passed.
-/
import XdpIds.Lib.Ring

namespace XdpIds.Ring

open Transition

variable {ι α σ κ : Type}

-- ================================================================ the system

/-- What a producer does with a record, which it submits or discards, and
without one; and what the consumer does with a record. -/
structure Pipe (ι α σ κ : Type) where
  recorded : ι → σ → Option (Option α × σ)
  unrecorded : ι → σ → Option σ
  consume : κ → α → Option κ

/-- The ring, the shared state, and what the consumer has made of what
it was handed. -/
structure PipeState (ι α σ κ : Type) where
  ring : RingState ι α
  shared : σ
  sink : κ

/-- Before the first reservation. -/
def PipeState.start (shared : σ) (sink : κ) : PipeState ι α σ κ :=
  ⟨.start, shared, sink⟩

/-- A producer reserves, or is refused and works, or works and commits;
the consumer takes a record. -/
inductive PipeMove (ι : Type) where
  | reserve (p : ι)
  | refuse (p : ι)
  | finish (p : ι)
  | take

variable {pipe : Pipe ι α σ κ}

section Moves

variable [DecidableEq ι]

/-- One move. -/
def Pipe.step (pipe : Pipe ι α σ κ) (s : PipeState ι α σ κ) :
    PipeMove ι → Option (PipeState ι α σ κ)
  | .reserve p =>
      (ringStep s.ring (.reserve p)).map fun ring => { s with ring }
  | .refuse p => do
      let ring ← ringStep s.ring (.refuse p)
      let shared ← pipe.unrecorded p s.shared
      return { s with ring, shared }
  | .finish p => do
      let (out, shared) ← pipe.recorded p s.shared
      let ring ← ringStep s.ring (.commit p out)
      return { s with ring, shared }
  | .take => do
      let ring ← ringStep s.ring .take
      let sink ← (ring.handed.drop s.ring.handed.length).foldlM pipe.consume
        s.sink
      return { s with ring, sink }

variable {s s' : PipeState ι α σ κ} {p : ι}

theorem Pipe.reserve_inv (h : pipe.step s (.reserve p) = some s') :
    ∃ ring, ringStep s.ring (.reserve p) = some ring
      ∧ s' = { s with ring } := by
  obtain ⟨ring, hring, rfl⟩ := Option.map_eq_some_iff.mp h
  exact ⟨ring, hring, rfl⟩

theorem Pipe.refuse_inv (h : pipe.step s (.refuse p) = some s') :
    ∃ ring shared, ringStep s.ring (.refuse p) = some ring
      ∧ pipe.unrecorded p s.shared = some shared
      ∧ s' = { s with ring, shared } := by
  obtain ⟨ring, hring, h⟩ := Option.bind_eq_some_iff.mp h
  obtain ⟨shared, hshared, h⟩ := Option.bind_eq_some_iff.mp h
  exact ⟨ring, shared, hring, hshared, (Option.some.inj h).symm⟩

theorem Pipe.finish_inv (h : pipe.step s (.finish p) = some s') :
    ∃ out ring shared, pipe.recorded p s.shared = some (out, shared)
      ∧ ringStep s.ring (.commit p out) = some ring
      ∧ s' = { s with ring, shared } := by
  obtain ⟨⟨out, shared⟩, hwork, h⟩ := Option.bind_eq_some_iff.mp h
  obtain ⟨ring, hring, h⟩ := Option.bind_eq_some_iff.mp h
  exact ⟨out, ring, shared, hwork, hring, (Option.some.inj h).symm⟩

theorem Pipe.take_inv (h : pipe.step s .take = some s') :
    ∃ ring sink, ringStep s.ring .take = some ring
      ∧ (ring.handed.drop s.ring.handed.length).foldlM pipe.consume s.sink
        = some sink
      ∧ s' = { s with ring, sink } := by
  obtain ⟨ring, hring, h⟩ := Option.bind_eq_some_iff.mp h
  obtain ⟨sink, hsink, h⟩ := Option.bind_eq_some_iff.mp h
  exact ⟨ring, sink, hring, hsink, (Option.some.inj h).symm⟩

end Moves

-- ================================================================= the turns

/-- What one producer did. -/
inductive Turn (ι α : Type) where
  | recorded (p : ι) (out : Option α)
  | unrecorded (p : ι)

/-- Whose turn it was. -/
def Turn.producer : Turn ι α → ι
  | .recorded p _ => p
  | .unrecorded p => p

/-- Where a producer's turn leaves it. -/
def Turn.stage : Turn ι α → Stage α
  | .recorded _ out => .committed out
  | .unrecorded _ => .refused

/-- A producer's turn takes the shared state from one value to the
next. -/
def Pipe.Takes (pipe : Pipe ι α σ κ) : Turn ι α → σ → σ → Prop
  | .recorded p out, st, st' => pipe.recorded p st = some (out, st')
  | .unrecorded p, st, st' => pipe.unrecorded p st = some st'

/-- The producers' turns, one after another, and the state they leave. -/
inductive Pipe.Turns (pipe : Pipe ι α σ κ) (st₀ : σ) :
    List (Turn ι α) → σ → Prop
  | start : pipe.Turns st₀ [] st₀
  | turn {turns : List (Turn ι α)} {st st' : σ} (t : Turn ι α) :
      pipe.Turns st₀ turns st → pipe.Takes t st st' →
      pipe.Turns st₀ (turns ++ [t]) st'

/-- Every turn was taken from the state that those before it left. -/
theorem Pipe.Turns.split {st₀ st : σ} {earlier later : List (Turn ι α)}
    {t : Turn ι α} (h : pipe.Turns st₀ (earlier ++ t :: later) st) :
    ∃ st₁ st₂, pipe.Turns st₀ earlier st₁ ∧ pipe.Takes t st₁ st₂ := by
  generalize hturns : earlier ++ t :: later = turns at h
  induction h generalizing later with
  | start => simp at hturns
  | @turn turns st₁ st₂ u hturns' htakes ih =>
      rcases List.eq_nil_or_concat later with rfl | ⟨later, u', rfl⟩
      · obtain ⟨rfl, hlast⟩ := List.append_inj' hturns rfl
        obtain rfl := List.singleton_inj.mp hlast
        exact ⟨st₁, st₂, hturns', htakes⟩
      · rw [List.concat_eq_append, ← List.cons_append, ← List.append_assoc]
          at hturns
        exact ih (List.append_inj' hturns rfl).1

-- ============================================================ the invariant

/-- The ring and the turns tell the same story. -/
structure Traced (pipe : Pipe ι α σ κ) (st₀ : σ) (k₀ : κ)
    (s : PipeState ι α σ κ) (turns : List (Turn ι α)) : Prop where
  kept : Kept s.ring
  sink : s.ring.handed.foldlM pipe.consume k₀ = some s.sink
  worked : pipe.Turns st₀ turns s.shared
  nodup : (turns.map Turn.producer).Nodup
  stage : ∀ t ∈ turns, s.ring.stage t.producer = t.stage
  mem : ∀ p, s.ring.stage p ≠ .idle → s.ring.stage p ≠ .filling →
    p ∈ turns.map Turn.producer

variable {s s' : PipeState ι α σ κ} {p : ι} {st₀ : σ} {k₀ : κ}
  {turns : List (Turn ι α)}

theorem traced_start (st₀ : σ) (k₀ : κ) :
    Traced pipe st₀ k₀ (.start st₀ k₀) [] where
  kept := kept_start
  sink := rfl
  worked := .start
  nodup := .nil
  stage _ ht := by cases ht
  mem _ h := absurd rfl h

/-- A producer that has had no turn is idle or filling its record. -/
theorem Traced.not_mem (hT : Traced pipe st₀ k₀ s turns)
    (h : s.ring.stage p = .idle ∨ s.ring.stage p = .filling) :
    p ∉ turns.map Turn.producer := by
  intro hp
  obtain ⟨t, ht, rfl⟩ := List.mem_map.mp hp
  have hstage := hT.stage t ht
  rcases h with h | h
  · rw [h] at hstage
    cases t <;> cases hstage
  · rw [h] at hstage
    cases t <;> cases hstage

section Steps

variable [DecidableEq ι]

/-- A producer has its turn. -/
theorem Traced.turn (hT : Traced pipe st₀ k₀ s turns) {t : Turn ι α}
    (hp : s.ring.stage t.producer = .idle
      ∨ s.ring.stage t.producer = .filling)
    {ring : RingState ι α} {shared : σ} (hkept : Kept ring)
    (hhanded : ring.handed = s.ring.handed)
    (hstage : ring.stage
      = Function.update s.ring.stage t.producer t.stage)
    (htakes : pipe.Takes t s.shared shared) :
    Traced pipe st₀ k₀ { s with ring, shared } (turns ++ [t]) := by
  have hnew := hT.not_mem hp
  refine ⟨hkept, ?_, .turn t hT.worked htakes, ?_, ?_, ?_⟩
  · show ring.handed.foldlM pipe.consume k₀ = some s.sink
    rw [hhanded]
    exact hT.sink
  · rw [List.map_append]
    exact List.concat_eq_append ▸ hT.nodup.concat hnew
  · intro u hu
    show ring.stage u.producer = u.stage
    rw [hstage]
    rcases List.mem_append.mp hu with hu | hu
    · have hne : u.producer ≠ t.producer := fun h =>
        hnew (h ▸ List.mem_map_of_mem hu)
      rw [Function.update_of_ne hne]
      exact hT.stage u hu
    · obtain rfl := List.mem_singleton.mp hu
      exact Function.update_self ..
  · intro q hidle hfill
    rw [List.map_append]
    by_cases hq : q = t.producer
    · exact List.mem_append_right _ (List.mem_singleton.mpr hq)
    · refine List.mem_append_left _ (hT.mem q ?_ ?_)
      · intro h
        refine hidle ?_
        show ring.stage q = .idle
        rw [hstage, Function.update_of_ne hq, h]
      · intro h
        refine hfill ?_
        show ring.stage q = .filling
        rw [hstage, Function.update_of_ne hq, h]

/-- One move, with the turn it gives a producer, if any. -/
theorem traced_step {m : PipeMove ι} (hT : Traced pipe st₀ k₀ s turns)
    (h : pipe.step s m = some s') :
    ∃ more, Traced pipe st₀ k₀ s' (turns ++ more) := by
  cases m with
  | reserve p =>
      obtain ⟨ring, hring, rfl⟩ := Pipe.reserve_inv h
      obtain ⟨hidle, rfl⟩ := Ring.reserve_inv hring
      refine ⟨[], ?_⟩
      rw [List.append_nil]
      refine ⟨hT.kept.reserve hring, hT.sink, hT.worked, hT.nodup, ?_, ?_⟩
      · intro t ht
        have hne : t.producer ≠ p := fun hp =>
          hT.not_mem (.inl hidle) (hp ▸ List.mem_map_of_mem ht)
        show Function.update s.ring.stage p .filling t.producer = t.stage
        rw [Function.update_of_ne hne]
        exact hT.stage t ht
      · intro q hq hfill
        by_cases hqp : q = p
        · subst hqp
          exact absurd (Function.update_self ..) hfill
        · have hsame : Function.update s.ring.stage p .filling q
              = s.ring.stage q := Function.update_of_ne hqp ..
          refine hT.mem q ?_ ?_
          · exact fun h => hq (hsame.trans h)
          · exact fun h => hfill (hsame.trans h)
  | refuse p =>
      obtain ⟨ring, shared, hring, hwork, rfl⟩ := Pipe.refuse_inv h
      obtain ⟨hidle, rfl⟩ := Ring.refuse_inv hring
      exact ⟨[.unrecorded p], hT.turn (t := .unrecorded p) (.inl hidle)
        (kept_step hT.kept hring) rfl rfl hwork⟩
  | finish p =>
      obtain ⟨out, ring, shared, hwork, hring, rfl⟩ := Pipe.finish_inv h
      obtain ⟨hfill, rfl⟩ := Ring.commit_inv hring
      exact ⟨[.recorded p out], hT.turn (t := .recorded p out) (.inr hfill)
        (kept_step hT.kept hring) rfl rfl hwork⟩
  | take =>
      obtain ⟨ring, sink, hring, hsink, rfl⟩ := Pipe.take_inv h
      obtain ⟨q, out, -, -, rfl⟩ := Ring.take_inv hring
      refine ⟨[], ?_⟩
      rw [List.append_nil]
      refine ⟨hT.kept.take hring, ?_, hT.worked, hT.nodup, hT.stage, hT.mem⟩
      show (s.ring.handed ++ out.toList).foldlM pipe.consume k₀ = some sink
      have hdrop : (s.ring.handed ++ out.toList).drop s.ring.handed.length
          = out.toList := List.drop_left ..
      rw [List.foldlM_append, hT.sink, ← hsink]
      exact congrArg (·.foldlM pipe.consume s.sink) hdrop.symm

/-- Every run has its turns. -/
theorem traced_reach
    (h : Reach pipe.step Any (.start st₀ k₀) s) :
    ∃ turns, Traced pipe st₀ k₀ s turns := by
  refine h.invariant (I := fun s => ∃ turns, Traced pipe st₀ k₀ s turns)
    ⟨[], traced_start st₀ k₀⟩ fun s m s' hI _ hs => ?_
  obtain ⟨turns, hT⟩ := hI
  obtain ⟨more, hT'⟩ := traced_step hT hs
  exact ⟨_, hT'⟩

end Steps

-- ============================================================== what it says

/-- A committed producer had a turn that gave what it committed. -/
theorem Traced.committed {out : Option α}
    (hT : Traced pipe st₀ k₀ s turns)
    (hp : s.ring.stage p = .committed out) : .recorded p out ∈ turns := by
  have hmem := hT.mem p (by rw [hp]; exact nofun) (by rw [hp]; exact nofun)
  obtain ⟨t, ht, rfl⟩ := List.mem_map.mp hmem
  have hstage := hT.stage t ht
  rw [hp] at hstage
  cases t with
  | recorded p out' =>
      obtain rfl := Stage.committed.inj hstage
      exact ht
  | unrecorded p => cases hstage

-- ============================================================== catching up

section CatchUp

variable [DecidableEq ι]

/-- The consumer takes the next record unless it is still being filled,
if it can fold what it has then been handed. -/
theorem Traced.take_enabled (hT : Traced pipe st₀ k₀ s turns)
    (hlt : s.ring.passed < s.ring.records.length)
    (hfill : ∀ p, s.ring.stage p ≠ .filling)
    (hconsume : ((s.ring.records.take (s.ring.passed + 1)).filterMap
      fun p => (s.ring.stage p).result).foldlM pipe.consume k₀ ≠ none) :
    ∃ s', pipe.step s .take = some s' ∧ s'.ring.records = s.ring.records
      ∧ s'.ring.stage = s.ring.stage
      ∧ s'.ring.passed = s.ring.passed + 1 := by
  obtain ⟨ring, hring, hrecords, hstage, hpassed⟩ :=
    hT.kept.take_enabled (List.getElem?_eq_getElem hlt) (hfill _)
  obtain ⟨q, out, -, -, hring'⟩ := Ring.take_inv hring
  have hhanded : ring.handed = s.ring.handed ++ out.toList := by
    rw [hring']
  have hfold : ring.handed.foldlM pipe.consume k₀ ≠ none := by
    rw [(hT.kept.take hring).handed, hrecords, hstage, hpassed]
    exact hconsume
  obtain ⟨sink, hsink⟩ := Option.ne_none_iff_exists'.mp hfold
  have hmore : (ring.handed.drop s.ring.handed.length).foldlM
      pipe.consume s.sink = some sink := by
    rw [hhanded, List.foldlM_append, hT.sink] at hsink
    rw [hhanded, List.drop_left]
    exact hsink
  refine ⟨{ s with ring, sink }, ?_, hrecords, hstage, hpassed⟩
  rw [Pipe.step, hring]
  show (_ >>= fun sink => some _) = _
  rw [hmore]
  rfl

/-- The consumer's moves alone. -/
def Polls (_ : PipeState ι α σ κ) (m : PipeMove ι) : Prop := m = .take

/-- When no record is being filled, and the consumer can fold all of
them, it gets to the end by itself. -/
theorem Traced.catchesUp (hT : Traced pipe st₀ k₀ s turns)
    (hfill : ∀ p, s.ring.stage p ≠ .filling)
    (hconsume : ∀ n, ((s.ring.records.take n).filterMap fun p =>
      (s.ring.stage p).result).foldlM pipe.consume k₀ ≠ none) :
    ∃ s', Reach pipe.step Polls s s'
      ∧ s'.ring.passed = s'.ring.records.length
      ∧ s'.ring.records = s.ring.records ∧ s'.ring.stage = s.ring.stage := by
  induction hn : s.ring.records.length - s.ring.passed
    generalizing s turns with
  | zero =>
      have hle := hT.kept.passed_le
      exact ⟨s, .start, by omega, rfl, rfl⟩
  | succ n ih =>
      obtain ⟨t, ht, hrecords, hstage, hpassed⟩ :=
        hT.take_enabled (by omega) hfill (hconsume _)
      obtain ⟨more, hT'⟩ := traced_step hT ht
      obtain ⟨s', hreach, hend, hrecords', hstage'⟩ := ih hT'
        (hstage ▸ hfill) (by rw [hrecords, hstage]; exact hconsume)
        (by rw [hrecords, hpassed]; omega)
      have hfirst : Reach pipe.step Polls s t := .step .take .start rfl ht
      exact ⟨s', hfirst.trans hreach, hend, hrecords'.trans hrecords,
        hstage'.trans hstage⟩

end CatchUp

end XdpIds.Ring
