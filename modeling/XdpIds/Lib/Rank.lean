/-
Ranks: a decidable set of numbers, numbered in ascending order. An
element's rank is how many elements are below it, `Nat.count`, and
`below p n` lists the elements below `n`.

An element's rank is its index in that list (`getElem?_rank`), so below
`n` the ranks are the numbers from 0 to the rank of `n`, each of them
taken (`exists_rank`). An ascending list with the right members is the
list (`eq_below`).
-/
import Mathlib.Data.Nat.Count
import Mathlib.Data.List.Perm.Basic
import Mathlib.Data.List.Nodup

namespace XdpIds.Rank

variable {p : Nat → Prop} [DecidablePred p] {n k : Nat}

/-- The elements below `n`, ascending. -/
def below (p : Nat → Prop) [DecidablePred p] (n : Nat) : List Nat :=
  (List.range n).filter fun i => p i

theorem below_succ (n : Nat) :
    below p (n + 1) = below p n ++ if p n then [n] else [] := by
  unfold below
  rw [List.range_succ, List.filter_append]
  by_cases h : p n <;> simp [h]

theorem mem_below {i : Nat} : i ∈ below p n ↔ i < n ∧ p i := by
  simp [below]

theorem below_ascending (n : Nat) : (below p n).Pairwise (· < ·) :=
  List.pairwise_lt_range.filter _

theorem length_below (n : Nat) : (below p n).length = Nat.count p n := by
  induction n with
  | zero => simp [below]
  | succ n ih =>
      rw [below_succ, List.length_append, ih, Nat.count_succ]
      by_cases h : p n <;> simp [h]

/-- An element's rank is its index. -/
theorem getElem?_rank (hk : k < n) (hp : p k) :
    (below p n)[Nat.count p k]? = some k := by
  induction n with
  | zero => cases hk
  | succ n ih =>
      rw [below_succ]
      rcases Nat.lt_succ_iff_lt_or_eq.mp hk with hlt | rfl
      · have hrank : Nat.count p k < (below p n).length := by
          rw [length_below]
          exact Nat.count_strict_mono hp hlt
        rw [List.getElem?_append_left hrank]
        exact ih hlt
      · rw [← length_below, if_pos hp, List.getElem?_concat_length]

/-- Every number below the rank of `n` is the rank of an element. -/
theorem exists_rank {j : Nat} (hj : j < Nat.count p n) :
    ∃ k, k < n ∧ p k ∧ Nat.count p k = j := by
  induction n with
  | zero => simp at hj
  | succ n ih =>
      rcases Nat.lt_or_ge j (Nat.count p n) with hlt | hge
      · obtain ⟨k, hk, hp, hrank⟩ := ih hlt
        exact ⟨k, Nat.lt_succ_of_lt hk, hp, hrank⟩
      · rw [Nat.count_succ] at hj
        have hp : p n := by
          by_contra hp
          rw [if_neg hp] at hj
          omega
        rw [if_pos hp] at hj
        exact ⟨n, Nat.lt_succ_self n, hp, by omega⟩

/-- An ascending list with the elements below `n` is the list of them. -/
theorem eq_below {l : List Nat} (hasc : l.Pairwise (· < ·))
    (hmem : ∀ i, i ∈ l ↔ i < n ∧ p i) : l = below p n := by
  have hperm : l.Perm (below p n) :=
    (List.perm_ext_iff_of_nodup (hasc.imp Nat.ne_of_lt)
      ((below_ascending n).imp Nat.ne_of_lt)).mpr fun i => by
        rw [hmem, mem_below]
  refine hperm.eq_of_pairwise ?_ hasc (below_ascending n)
  intro a b _ _ hab hba
  omega

end XdpIds.Rank
