/-
Boolean masks over parallel lists: an array language's `xs[mask]`.

One mask keeps the same positions of every list it is applied to, so what
relates two lists element by element relates what is left of them
(`forall₂_masked`). `keepMask` drops a set of positions; when they are
positions of elements with a property, all the others stay
(`filter_keepMask`), and as many of these go as there were positions
(`count_keepMask`).
-/
import Mathlib.Data.List.Forall2
import Mathlib.Data.List.Nodup
import Mathlib.Data.List.Perm.Basic

namespace XdpIds.Mask

variable {α β : Type*}

/-- `xs[mask]`. -/
def masked : List Bool → List α → List α
  | true :: mask, x :: xs => x :: masked mask xs
  | false :: mask, _ :: xs => masked mask xs
  | _, _ => []

/-- `~np.isin(np.arange(n), removed)`. -/
def keepMask (n : Nat) (removed : List Nat) : List Bool :=
  (List.range n).map fun i => !removed.contains i

-- =============================================================== any mask

theorem masked_sublist (mask : List Bool) (xs : List α) :
    (masked mask xs).Sublist xs := by
  induction mask generalizing xs with
  | nil => simp [masked]
  | cons b mask ih =>
      cases xs with
      | nil => simp [masked]
      | cons x xs =>
          cases b with
          | true => exact (ih xs).cons_cons x
          | false => exact (ih xs).cons x

theorem map_masked (f : α → β) (mask : List Bool) (xs : List α) :
    (masked mask xs).map f = masked mask (xs.map f) := by
  induction mask generalizing xs with
  | nil => simp [masked]
  | cons b mask ih =>
      cases xs with
      | nil => simp [masked]
      | cons x xs => cases b <;> simp [masked, ih]

theorem forall₂_masked {R : α → β → Prop} {xs : List α} {ys : List β}
    (mask : List Bool) (h : List.Forall₂ R xs ys) :
    List.Forall₂ R (masked mask xs) (masked mask ys) := by
  induction h generalizing mask with
  | nil => cases mask <;> simp [masked]
  | cons hxy _ ih =>
      cases mask with
      | nil => exact .nil
      | cons b mask =>
          cases b with
          | true => exact .cons hxy (ih mask)
          | false => exact ih mask

-- ==================================================== removing positions

/-- What is counted in the rest: the positions that hold it and stay. -/
theorem countP_masked (p : α → Bool) (f : Nat → Bool) (xs : List α) :
    (masked ((List.range xs.length).map f) xs).countP p
      = (List.range xs.length).countP fun i => xs[i]?.any p && f i := by
  induction xs generalizing f with
  | nil => simp [masked]
  | cons x xs ih =>
      have htail := ih fun i => f (i + 1)
      rw [List.length_cons, List.range_succ_eq_map, List.map_cons,
        List.map_map, List.countP_cons, List.countP_map]
      cases hf : f 0 with
      | false => simpa [masked, hf, Function.comp_def] using htail
      | true => simpa [masked, hf, Function.comp_def, List.countP_cons]
          using htail

/-- The positions that hold it. -/
def positions (p : α → Bool) (xs : List α) : List Nat :=
  (List.range xs.length).filter fun i => xs[i]?.any p

theorem positions_map (g : β → α) (p : α → Bool) (xs : List β) :
    positions p (xs.map g) = positions (fun x => p (g x)) xs := by
  unfold positions
  rw [List.length_map]
  refine List.filter_congr fun i _ => ?_
  rw [List.getElem?_map, Option.any_map]

theorem length_positions (p : α → Bool) (xs : List α) :
    (positions p xs).length = xs.countP p := by
  unfold positions
  rw [← List.countP_eq_length_filter]
  induction xs with
  | nil => rfl
  | cons x xs ih =>
      rw [List.length_cons, List.range_succ_eq_map, List.countP_cons,
        List.countP_map, List.countP_cons, ← ih]
      simp [Function.comp_def]

/-- Removing positions that hold it leaves that many fewer. -/
theorem count_keepMask {p : α → Bool} {xs : List α} {removed : List Nat}
    (hnodup : removed.Nodup) (hsub : removed ⊆ positions p xs) :
    (masked (keepMask xs.length removed) xs).countP p + removed.length
      = xs.countP p := by
  have hgone : ((positions p xs).filter removed.contains).length
      = removed.length := by
    have hpos : (positions p xs).Nodup := List.nodup_range.filter _
    apply List.Perm.length_eq
    refine (List.perm_ext_iff_of_nodup (hpos.filter _) hnodup).mpr fun i => ?_
    simp only [List.mem_filter, List.contains_iff_mem]
    exact ⟨fun h => h.2, fun h => ⟨hsub h, h⟩⟩
  have hsplit := List.length_eq_length_filter_add (l := positions p xs)
    removed.contains
  have hkept : (masked (keepMask xs.length removed) xs).countP p
      = ((positions p xs).filter fun i => !removed.contains i).length := by
    unfold keepMask positions
    rw [countP_masked, List.countP_eq_length_filter, List.filter_filter]
    simp only [Bool.and_comm]
  rw [hkept, ← hgone, ← length_positions, hsplit, Nat.add_comm]

theorem filter_masked {q : α → Bool} {mask : List Bool} {xs : List α}
    (h : List.Forall₂ (fun b x => q x = true → b = true) mask xs) :
    (masked mask xs).filter q = xs.filter q := by
  induction h with
  | nil => rfl
  | @cons b x mask xs hb _ ih =>
      cases b with
      | true => simp [masked, List.filter_cons, ih]
      | false =>
          have hx : ¬ q x = true := fun hx => by cases hb hx
          rw [masked, List.filter_cons_of_neg hx, ih]

/-- Everything else stays. -/
theorem filter_keepMask {p : α → Bool} {xs : List α} {removed : List Nat}
    (hsub : removed ⊆ positions p xs) :
    (masked (keepMask xs.length removed) xs).filter (fun x => !p x)
      = xs.filter fun x => !p x := by
  apply filter_masked
  rw [List.forall₂_iff_get]
  refine ⟨by simp [keepMask], fun i hi hxs hp => ?_⟩
  have hnot : i ∉ removed := by
    intro hi
    have hpos := (List.mem_filter.mp (hsub hi)).2
    rw [List.getElem?_eq_getElem hxs, Option.any_some] at hpos
    simp [hpos] at hp
  simp [keepMask, hnot]

end XdpIds.Mask
