/-
Labelled transition systems with a partial, executable step: the states
a run of steps reaches, the runs restricted to steps that meet a
condition, and the rule that proves an invariant of them.

`Reach step Good s₀ s` is reachability through steps that are `Good` in
the state they are taken from. With `Good` trivially true it is plain
reachability, and a schedule that executes is a proof of it
(`run_reach`).

`guarded` takes only the good steps, so a schedule that executes under it
is a proof of reachability through good steps (`run_guarded`).

`logged` keeps the states passed along the way, for properties of a run
that its last state does not show.
-/
import Mathlib.Data.List.Basic

namespace XdpIds.Transition

variable {σ ℓ : Type}

/-- Execute a schedule, failing at the first disabled label. -/
def run (step : σ → ℓ → Option σ) : σ → List ℓ → Option σ
  | s, [] => some s
  | s, l :: rest =>
      match step s l with
      | some s' => run step s' rest
      | none => none

/-- The states reached from `s₀` by good steps. -/
inductive Reach (step : σ → ℓ → Option σ) (Good : σ → ℓ → Prop)
    (s₀ : σ) : σ → Prop
  | start : Reach step Good s₀ s₀
  | step {s s' : σ} (l : ℓ) :
      Reach step Good s₀ s → Good s l → step s l = some s' →
      Reach step Good s₀ s'

/-- Any step is good. -/
def Any (_ : σ) (_ : ℓ) : Prop := True

variable {step : σ → ℓ → Option σ} {Good : σ → ℓ → Prop} {s₀ s : σ}

/-- What holds at the start and along good steps holds wherever they
lead. -/
theorem Reach.invariant {I : σ → Prop} (h : Reach step Good s₀ s)
    (hstart : I s₀)
    (hstep : ∀ s l s', I s → Good s l → step s l = some s' → I s') :
    I s := by
  induction h with
  | start => exact hstart
  | step l _ hgood hs ih => exact hstep _ l _ ih hgood hs

/-- Runs under a condition are runs under a weaker one. -/
theorem Reach.mono {Good' : σ → ℓ → Prop} (h : Reach step Good s₀ s)
    (hgood : ∀ s l, Good s l → Good' s l) : Reach step Good' s₀ s := by
  induction h with
  | start => exact .start
  | step l _ hl hs ih => exact .step l ih (hgood _ l hl) hs

theorem Reach.trans {s' : σ} (h : Reach step Good s₀ s)
    (h' : Reach step Good s s') : Reach step Good s₀ s' := by
  induction h' with
  | start => exact h
  | step l _ hgood hs ih => exact .step l ih hgood hs

theorem run_cons {l : ℓ} {t : σ} (h : step s l = some t) (ls : List ℓ) :
    run step s (l :: ls) = run step t ls := by
  rw [run, h]

theorem run_append (s : σ) (ls ls' : List ℓ) :
    run step s (ls ++ ls')
      = (run step s ls).bind fun s' => run step s' ls' := by
  induction ls generalizing s with
  | nil => rfl
  | cons l ls ih =>
      rw [List.cons_append, run, run]
      cases step s l with
      | none => rfl
      | some s' => exact ih s'

/-- An executed schedule is a run. -/
theorem run_reach {ls : List ℓ} {s' : σ} (h : run step s ls = some s') :
    Reach step Any s s' := by
  induction ls generalizing s with
  | nil =>
      obtain rfl := Option.some.inj h
      exact .start
  | cons l ls ih =>
      rw [run] at h
      cases hs : step s l with
      | none => rw [hs] at h; cases h
      | some t =>
          rw [hs] at h
          exact (Reach.step l .start trivial hs).trans (ih h)

/-- The good steps alone. -/
def guarded (step : σ → ℓ → Option σ) (Good : σ → ℓ → Prop)
    [∀ s l, Decidable (Good s l)] (s : σ) (l : ℓ) : Option σ :=
  if Good s l then step s l else none

theorem guarded_inv [∀ s l, Decidable (Good s l)] {l : ℓ} {s' : σ}
    (h : guarded step Good s l = some s') :
    Good s l ∧ step s l = some s' := by
  unfold guarded at h
  split at h
  · next hgood => exact ⟨hgood, h⟩
  · cases h

/-- A schedule executed under the guard is a run of good steps. -/
theorem run_guarded [∀ s l, Decidable (Good s l)] {ls : List ℓ} {s' : σ}
    (h : run (guarded step Good) s ls = some s') :
    Reach step Good s s' := by
  have hrun := run_reach h
  clear h
  induction hrun with
  | start => exact .start
  | step l _ _ hs ih =>
      obtain ⟨hgood, hstep⟩ := guarded_inv hs
      exact .step l ih hgood hstep

/-- A step that keeps the states passed so far, the newest first. -/
def logged (step : σ → ℓ → Option σ) (s : σ × List σ) (l : ℓ) :
    Option (σ × List σ) :=
  (step s.1 l).map fun s' => (s', s' :: s.2)

theorem logged_inv {past past' : List σ} {l : ℓ} {s' : σ}
    (h : logged step (s, past) l = some (s', past')) :
    step s l = some s' ∧ past' = s' :: past := by
  obtain ⟨t, ht, heq⟩ := Option.map_eq_some_iff.mp h
  obtain ⟨rfl, rfl⟩ := Prod.mk.inj heq
  exact ⟨ht, rfl⟩

theorem logged_step {Good : σ × List σ → ℓ → Prop} {s₀ : σ × List σ}
    {past : List σ} {l : ℓ} {s' : σ}
    (h : Reach (logged step) Good s₀ (s, past)) (hgood : Good (s, past) l)
    (hs : step s l = some s') :
    Reach (logged step) Good s₀ (s', s' :: past) :=
  .step l h hgood (by rw [logged, hs]; rfl)

end XdpIds.Transition
