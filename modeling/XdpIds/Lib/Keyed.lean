/-
Keyed stores: a map from keys to entries in which every event updates
the entry of at most one key, from what it finds there.

`foldl_absorb` is the fact everything per-key rests on: after any run of
events, the entry of a key is what the events of that key alone make of
it, in their order, however the others are interleaved. `sum_eventsOf`
adds the keys up again: where every event has a key, each is in the sum
once.
-/
import Mathlib.Algebra.BigOperators.Ring.Finset
import Mathlib.Algebra.Order.BigOperators.Group.Finset

namespace XdpIds.Keyed

variable {ε κ α : Type} [DecidableEq κ]

/-- One event: the entry of its key, if it has one, is replaced. -/
def absorb (key : ε → Option κ) (upd : Option α → ε → α)
    (m : κ → Option α) (e : ε) : κ → Option α :=
  match key e with
  | none => m
  | some k => Function.update m k (some (upd (m k) e))

/-- The events of one key. -/
def eventsOf (key : ε → Option κ) (k : κ) (es : List ε) : List ε :=
  es.filter fun e => key e = some k

variable {key : ε → Option κ} {upd : Option α → ε → α}

theorem absorb_self {m : κ → Option α} {e : ε} {k : κ}
    (h : key e = some k) : absorb key upd m e k = some (upd (m k) e) := by
  rw [absorb, h]
  exact Function.update_self ..

/-- An event leaves the other keys' entries alone. -/
theorem absorb_of_ne {m : κ → Option α} {e : ε} {k : κ}
    (h : key e ≠ some k) : absorb key upd m e k = m k := by
  unfold absorb
  cases hk : key e with
  | none => rfl
  | some k' =>
      refine Function.update_of_ne ?_ ..
      rintro rfl
      exact h hk

/-- A run, seen by one key. -/
theorem foldl_absorb (m : κ → Option α) (es : List ε) (k : κ) :
    es.foldl (absorb key upd) m k
      = (eventsOf key k es).foldl (fun found e => some (upd found e))
          (m k) := by
  induction es generalizing m with
  | nil => rfl
  | cons e es ih =>
      rw [List.foldl_cons, ih]
      unfold eventsOf
      by_cases h : key e = some k
      · rw [List.filter_cons_of_pos (by simpa using h), List.foldl_cons,
          absorb_self h]
      · rw [List.filter_cons_of_neg (by simpa using h), absorb_of_ne h]

theorem eventsOf_cons (e : ε) (es : List ε) (k : κ) :
    eventsOf key k (e :: es)
      = (if key e = some k then [e] else []) ++ eventsOf key k es := by
  unfold eventsOf
  by_cases h : key e = some k <;> simp [h]

/-- The keys' shares of a sum over the events. -/
theorem sum_eventsOf {es : List ε} {keys : Finset κ} (weight : ε → Nat)
    (h : ∀ e ∈ es, ∃ k ∈ keys, key e = some k) :
    ∑ k ∈ keys, ((eventsOf key k es).map weight).sum
      = (es.map weight).sum := by
  induction es with
  | nil => simp [eventsOf]
  | cons e es ih =>
      obtain ⟨k, hk, hkey⟩ := h e List.mem_cons_self
      have hshare : ∀ k', ((eventsOf key k' (e :: es)).map weight).sum
          = (if k = k' then weight e else 0)
            + ((eventsOf key k' es).map weight).sum := by
        intro k'
        rw [eventsOf_cons, hkey]
        by_cases hkk : k = k' <;> simp [hkk]
      rw [Finset.sum_congr rfl fun k' _ => hshare k', Finset.sum_add_distrib,
        Finset.sum_ite_eq, if_pos hk,
        ih fun e he => h e (List.mem_cons_of_mem _ he)]
      rfl

end XdpIds.Keyed
