/-
Keyed stores that lose entries: besides the events, which update the
entry of their key, any entry may be dropped at any time.

What is lost is lost with the entry: an event survives when no drop of
its key comes after it (`kept`), and is lost otherwise (`lost`).
`foldl_change` is the one fact: a run with drops leaves, from an empty
store, what the run of the surviving events alone leaves. So every
statement about runs without drops is one about runs with them, on the
events that survived.
-/
import XdpIds.Lib.Keyed

namespace XdpIds.Keyed

variable {ε κ α : Type} [DecidableEq κ]

/-- An event, or the drop of a key's entry. -/
inductive Change (ε κ : Type) where
  | event (e : ε)
  | drop (k : κ)

/-- One change. -/
def change (key : ε → Option κ) (upd : Option α → ε → α)
    (m : κ → Option α) : Change ε κ → (κ → Option α)
  | .event e => absorb key upd m e
  | .drop k => Function.update m k none

/-- The key is dropped among the changes. -/
def dropped (k : κ) (cs : List (Change ε κ)) : Bool :=
  cs.any fun
    | .event _ => false
    | .drop k' => k' = k

/-- The events, dropped or not. -/
def events (cs : List (Change ε κ)) : List ε :=
  cs.filterMap fun
    | .event e => some e
    | .drop _ => none

/-- The events that no drop of their key comes after. -/
def kept (key : ε → Option κ) : List (Change ε κ) → List ε
  | [] => []
  | .drop _ :: cs => kept key cs
  | .event e :: cs =>
      if (key e).any fun k => dropped k cs then kept key cs
      else e :: kept key cs

/-- The others. -/
def lost (key : ε → Option κ) : List (Change ε κ) → List ε
  | [] => []
  | .drop _ :: cs => lost key cs
  | .event e :: cs =>
      if (key e).any fun k => dropped k cs then e :: lost key cs
      else lost key cs

variable {key : ε → Option κ} {upd : Option α → ε → α}
  {cs : List (Change ε κ)}

theorem dropped_event (k : κ) (e : ε) :
    dropped k (.event e :: cs) = dropped k cs := rfl

theorem dropped_drop (k k' : κ) :
    dropped k (.drop k' :: cs) = (decide (k' = k) || dropped k cs) := rfl

/-- What survives of one key's events. -/
theorem eventsOf_kept_cons (e : ε) (cs : List (Change ε κ)) (k : κ) :
    eventsOf key k (kept key (.event e :: cs))
      = (if key e = some k ∧ dropped k cs = false then [e] else [])
        ++ eventsOf key k (kept key cs) := by
  rw [kept]
  by_cases hk : key e = some k
  · cases hd : dropped k cs with
    | true => simp [hk, hd]
    | false => simp [hk, hd, eventsOf_cons]
  · split
    · simp [hk]
    · simp [hk, eventsOf_cons]

/-- A run with drops, seen by one key. -/
theorem foldl_change_apply (m : κ → Option α) (cs : List (Change ε κ))
    (k : κ) :
    cs.foldl (change key upd) m k
      = (eventsOf key k (kept key cs)).foldl
          (fun found e => some (upd found e))
          (if dropped k cs then none else m k) := by
  induction cs generalizing m with
  | nil => rfl
  | cons c cs ih =>
      rw [List.foldl_cons, ih]
      cases c with
      | event e =>
          rw [eventsOf_kept_cons, dropped_event, change]
          by_cases hk : key e = some k
          · cases hd : dropped k cs with
            | true => simp [hk]
            | false => simp [hk, absorb_self hk]
          · simp [hk, absorb_of_ne hk]
      | drop k' =>
          rw [dropped_drop, change, kept]
          by_cases hk : k' = k
          · simp [hk]
          · rw [Function.update_of_ne (Ne.symm hk)]
            simp [hk]

/-- A run with drops leaves what the surviving events leave. -/
theorem foldl_change (cs : List (Change ε κ)) :
    cs.foldl (change key upd) (fun _ => none)
      = (kept key cs).foldl (absorb key upd) fun _ => none := by
  funext k
  rw [foldl_change_apply, foldl_absorb, ite_self]

/-- Every event survives or is lost. -/
theorem kept_lost_perm (cs : List (Change ε κ)) :
    (kept key cs ++ lost key cs).Perm (events cs) := by
  induction cs with
  | nil => exact .nil
  | cons c cs ih =>
      cases c with
      | event e =>
          rw [kept, lost]
          split
          · exact List.perm_middle.trans (ih.cons e)
          · exact ih.cons e
      | drop k => exact ih

end XdpIds.Keyed
