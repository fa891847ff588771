/-
The queue loop `while queue: x = queue.pop(0); …`, fuel-bounded: a body
reads the head, updates a state and names the items to append, or
raises. Two rules carry every use of it: an invariant between the state
and the pending queue (`run_invariant`), and a weight that each body call
spends more of than it appends (`run_isSome`). Together they give total
correctness (`run_spec`).
-/
import Mathlib.Algebra.BigOperators.Group.List.Basic
import Mathlib.Algebra.Order.Ring.Nat

namespace XdpIds.Worklist

variable {σ α ε : Type}

/-- The loop: `none` is fuel running out before the queue does,
`some (.error e)` the body raising `e`. -/
def run (body : σ → α → Except ε (σ × List α)) :
    Nat → σ → List α → Option (Except ε σ)
  | _, s, [] => some (.ok s)
  | 0, _, _ :: _ => none
  | fuel + 1, s, a :: queue =>
      match body s a with
      | .error e => some (.error e)
      | .ok (s', new) => run body fuel s' (queue ++ new)

variable {body : σ → α → Except ε (σ × List α)}

/-- A weight on items that pays for the loop: every item weighs
something, and a body call appends less than its head weighed. -/
structure Pays (body : σ → α → Except ε (σ × List α))
    (weight : α → Nat) : Prop where
  pos : ∀ a, 0 < weight a
  spends : ∀ s a s' new, body s a = .ok (s', new) →
    (new.map weight).sum < weight a

/-- The body keeps `I` between the state and what is still queued. -/
def Keeps (body : σ → α → Except ε (σ × List α))
    (I : σ → List α → Prop) : Prop :=
  ∀ s a queue s' new, I s (a :: queue) → body s a = .ok (s', new) →
    I s' (queue ++ new)

/-- Invariant rule: what the body keeps holds of the final state against
the empty queue. -/
theorem run_invariant {I : σ → List α → Prop} (hkeep : Keeps body I) :
    ∀ (fuel : Nat) (s : σ) (queue : List α) (r : σ), I s queue →
      run body fuel s queue = some (.ok r) → I r [] := by
  intro fuel
  induction fuel with
  | zero =>
      intro s queue r hI hrun
      cases queue with
      | nil =>
          simp only [run, Option.some.injEq, Except.ok.injEq] at hrun
          exact hrun ▸ hI
      | cons a queue => simp [run] at hrun
  | succ fuel ih =>
      intro s queue r hI hrun
      cases queue with
      | nil =>
          simp only [run, Option.some.injEq, Except.ok.injEq] at hrun
          exact hrun ▸ hI
      | cons a queue =>
          rw [run] at hrun
          cases hb : body s a with
          | error e => simp [hb] at hrun
          | ok next =>
              obtain ⟨s', new⟩ := next
              rw [hb] at hrun
              exact ih s' (queue ++ new) r (hkeep s a queue s' new hI hb) hrun

/-- Termination rule: fuel covering the queued weight outlasts the
queue. -/
theorem run_isSome {weight : α → Nat} (hpays : Pays body weight) :
    ∀ (fuel : Nat) (s : σ) (queue : List α),
      (queue.map weight).sum ≤ fuel → (run body fuel s queue).isSome := by
  intro fuel
  induction fuel with
  | zero =>
      intro s queue hw
      cases queue with
      | nil => rfl
      | cons a queue =>
          have hpos := hpays.pos a
          simp only [List.map_cons, List.sum_cons] at hw
          omega
  | succ fuel ih =>
      intro s queue hw
      cases queue with
      | nil => rfl
      | cons a queue =>
          rw [run]
          cases hb : body s a with
          | error e => rfl
          | ok next =>
              obtain ⟨s', new⟩ := next
              have hlt := hpays.spends s a s' new hb
              apply ih
              simp only [List.map_cons, List.sum_cons] at hw
              simp only [List.map_append, List.sum_append]
              omega

/-- A body that never raises where the invariant holds never raises in
the loop. -/
theorem run_ne_error {I : σ → List α → Prop} (hkeep : Keeps body I)
    (hok : ∀ s a queue, I s (a :: queue) → ∃ r, body s a = .ok r) :
    ∀ (fuel : Nat) (s : σ) (queue : List α) (e : ε), I s queue →
      run body fuel s queue ≠ some (.error e) := by
  intro fuel
  induction fuel with
  | zero =>
      intro s queue e hI hrun
      cases queue <;> simp [run] at hrun
  | succ fuel ih =>
      intro s queue e hI hrun
      cases queue with
      | nil => simp [run] at hrun
      | cons a queue =>
          obtain ⟨⟨s', new⟩, hb⟩ := hok s a queue hI
          rw [run, hb] at hrun
          exact ih s' (queue ++ new) e (hkeep s a queue s' new hI hb) hrun

/-- Total correctness: with fuel for the queued weight and no raise under
the invariant, the loop returns a state the invariant holds of. -/
theorem run_spec {I : σ → List α → Prop} {weight : α → Nat}
    (hkeep : Keeps body I) (hpays : Pays body weight)
    (hok : ∀ s a queue, I s (a :: queue) → ∃ r, body s a = .ok r)
    {fuel : Nat} {s : σ} {queue : List α}
    (hI : I s queue) (hfuel : (queue.map weight).sum ≤ fuel) :
    ∃ r, run body fuel s queue = some (.ok r) ∧ I r [] := by
  have hsome := run_isSome hpays fuel s queue hfuel
  obtain ⟨out, hout⟩ := Option.isSome_iff_exists.mp hsome
  cases out with
  | error e => exact absurd hout (run_ne_error hkeep hok fuel s queue e hI)
  | ok r => exact ⟨r, hout, run_invariant hkeep fuel s queue r hI hout⟩

end XdpIds.Worklist
