/-
Level-order layout of a binary unfolding: position 0 is the root, the
children of position `i` sit at `2i+1` and `2i+2`. A `next` function
gives an element's two children, or none at a leaf; nothing here knows
what the elements are.

# Positions and paths

`pos` reads a path of turns as a position. The positions of depth at most
`m` are exactly those below `2^(m+1) - 1` (`pos_lt_iff`), and `occ`
inverts it: the element a path leads to is the occupant of the path's
position (`occ_pos`).

# Filling an array through a queue

`Filling` is the invariant of a breadth-first fill: every queued item is
the occupant of its position, every written slot encodes its occupant,
and an occupied slot that is neither written nor queued has an unwritten
parent. The last clause is local, so one write or one skip keeps it
without looking at ancestors (`Filling.fill`, `Filling.skip`); with the
queue empty it makes the fill complete (`Filling.complete`).
-/
import Mathlib.Data.List.Induction
import Mathlib.Algebra.Order.Ring.Nat
import Mathlib.Tactic.Ring

namespace XdpIds.LevelOrder

variable {α β : Type}

-- ================================================== positions and paths

/-- The position a turn leads to: `false` is left, `true` right. -/
def child (i : Nat) (b : Bool) : Nat := bif b then 2 * i + 2 else 2 * i + 1

/-- The position of a path of turns from the root. -/
def pos (p : List Bool) : Nat := p.foldl child 0

@[simp] theorem pos_nil : pos [] = 0 := rfl

@[simp] theorem pos_concat (p : List Bool) (b : Bool) :
    pos (p ++ [b]) = child (pos p) b := by
  simp [pos]

/-- A path's position lies on the level its length names. -/
theorem pos_bounds (p : List Bool) :
    2 ^ p.length ≤ pos p + 1 ∧ pos p + 1 < 2 ^ (p.length + 1) := by
  induction p using List.reverseRecOn with
  | nil => simp
  | append_singleton p b ih =>
      have hlen : (p ++ [b]).length = p.length + 1 := by simp
      rw [pos_concat, hlen, pow_succ 2 (p.length + 1), pow_succ]
      rw [pow_succ] at ih
      cases b <;> simp only [child, cond_true, cond_false] <;> omega

/-- The first `m + 1` levels are the positions below `2^(m+1) - 1`. -/
theorem pos_lt_iff {p : List Bool} {m : Nat} :
    pos p < 2 ^ (m + 1) - 1 ↔ p.length ≤ m := by
  obtain ⟨hlo, hhi⟩ := pos_bounds p
  constructor
  · intro h
    by_contra hlen
    have hle : 2 ^ (m + 1) ≤ 2 ^ p.length :=
      Nat.pow_le_pow_right (by decide) (by omega)
    omega
  · intro hlen
    have hle : 2 ^ (p.length + 1) ≤ 2 ^ (m + 1) :=
      Nat.pow_le_pow_right (by decide) (by omega)
    omega

-- ============================================================ occupants

variable (next : α → Option (α × α))

/-- The element a path of turns leads to, if it does not run past a
leaf. -/
def follow : α → List Bool → Option α
  | a, [] => some a
  | a, b :: p =>
      (next a).bind fun kids => follow (bif b then kids.2 else kids.1) p

/-- The element at a position, read off the parent's. -/
def occ (root : α) : Nat → Option α
  | 0 => some root
  | i + 1 =>
      ((occ root (i / 2)).bind next).map fun kids =>
        if i % 2 = 0 then kids.1 else kids.2
termination_by i => i
decreasing_by omega

variable {next} {root : α}

@[simp] theorem occ_zero : occ next root 0 = some root := by
  rw [occ]

theorem occ_child (i : Nat) (b : Bool) :
    occ next root (child i b)
      = ((occ next root i).bind next).map fun kids =>
          bif b then kids.2 else kids.1 := by
  cases b with
  | false =>
      have hdiv : 2 * i / 2 = i := by omega
      rw [child, cond_false, occ, hdiv]
      simp
  | true =>
      have hdiv : (2 * i + 1) / 2 = i := by omega
      have hmod : (2 * i + 1) % 2 = 1 := by omega
      rw [child, cond_true, occ, hdiv, hmod]
      simp

theorem follow_concat (a : α) (p : List Bool) (b : Bool) :
    follow next a (p ++ [b])
      = ((follow next a p).bind next).map fun kids =>
          bif b then kids.2 else kids.1 := by
  induction p generalizing a with
  | nil => cases hn : next a <;> simp [follow, hn]
  | cons c p ih =>
      simp only [List.cons_append, follow]
      cases hn : next a with
      | none => rfl
      | some kids => simpa using ih _

/-- The element a path leads to occupies the path's position. -/
theorem occ_pos (p : List Bool) :
    occ next root (pos p) = follow next root p := by
  induction p using List.reverseRecOn with
  | nil => simp [follow]
  | append_singleton p b ih => rw [pos_concat, occ_child, ih, follow_concat]

/-- Every position but the root's is a child position. -/
theorem exists_child {i : Nat} (hi : 0 < i) :
    ∃ j b, j < i ∧ child j b = i := by
  rcases Nat.even_or_odd' (i - 1) with ⟨j, hj | hj⟩
  · exact ⟨j, false, by omega, by simp only [child, cond_false]; omega⟩
  · exact ⟨j, true, by omega, by simp only [child, cond_true]; omega⟩

/-- Unfoldings whose roots and children are related have related
occupants, position by position. -/
theorem occ_rel {next' : β → Option (β × β)} {R : α → β → Prop}
    (hnext : ∀ a b, R a b →
      Option.Rel (fun x y => R x.1 y.1 ∧ R x.2 y.2) (next a) (next' b))
    {root' : β} (hroot : R root root') (i : Nat) :
    Option.Rel R (occ next root i) (occ next' root' i) := by
  induction i using Nat.strongRecOn with
  | ind i ih =>
      rcases Nat.eq_zero_or_pos i with rfl | hpos
      · rw [occ_zero, occ_zero]
        exact Option.Rel.some hroot
      · obtain ⟨j, c, hj, rfl⟩ := exists_child hpos
        rw [occ_child, occ_child]
        have hparent := ih j hj
        generalize occ next root j = x at hparent ⊢
        generalize occ next' root' j = y at hparent ⊢
        cases hparent with
        | none => exact Option.Rel.none
        | @some a b hab =>
            rw [Option.bind_some, Option.bind_some]
            have hpair := hnext a b hab
            generalize next a = u at hpair ⊢
            generalize next' b = v at hpair ⊢
            cases hpair with
            | none => exact Option.Rel.none
            | some hkids =>
                refine Option.Rel.some ?_
                cases c
                · exact hkids.1
                · exact hkids.2

-- ==================================== filling an array through a queue

variable (next) (root)

/-- The invariant of a breadth-first fill of an array of `size` slots:
`Enc a b` says that `b` is what a slot occupied by `a` should hold. -/
structure Filling (Enc : α → β → Prop) (size : Nat)
    (nodes : List (Option β)) (queue : List (Nat × α)) : Prop where
  length : nodes.length = size
  queued : ∀ x ∈ queue, occ next root x.1 = some x.2
  written : ∀ i b, nodes[i]? = some (some b) →
    ∃ a, occ next root i = some a ∧ Enc a b
  pending : ∀ i a, i < size → occ next root i = some a →
    (∃ b, nodes[i]? = some (some b)) ∨ (i, a) ∈ queue
      ∨ ∃ j c, child j c = i ∧ nodes[j]? = some none

variable {next root} {Enc : α → β → Prop} {size : Nat}
  {nodes : List (Option β)} {queue : List (Nat × α)}

/-- An empty array with the root queued is a fill about to start. -/
theorem Filling.init :
    Filling next root Enc size (List.replicate size none) [(0, root)] := by
  refine ⟨by simp, by simp, ?_, ?_⟩
  · intro i b h
    obtain ⟨hi, hb⟩ := List.getElem?_eq_some_iff.mp h
    simp at hb
  · intro i a hi ha
    rcases Nat.eq_zero_or_pos i with rfl | hpos
    · rw [occ_zero] at ha
      obtain rfl := Option.some.inj ha
      exact Or.inr (Or.inl (by simp))
    · obtain ⟨j, c, hj, hc⟩ := exists_child hpos
      refine Or.inr (Or.inr ⟨j, c, hc, ?_⟩)
      rw [List.getElem?_replicate, if_pos (by omega)]

/-- Dropping a head that lies past the array loses nothing. -/
theorem Filling.skip {i : Nat} {a : α}
    (hf : Filling next root Enc size nodes ((i, a) :: queue))
    (hi : size ≤ i) : Filling next root Enc size nodes queue := by
  refine ⟨hf.length, fun x hx => hf.queued x (List.mem_cons_of_mem _ hx),
    hf.written, ?_⟩
  intro j b hj hb
  rcases hf.pending j b hj hb with h | h | h
  · exact Or.inl h
  · rcases List.mem_cons.mp h with heq | h
    · obtain ⟨rfl, -⟩ := Prod.mk.inj heq
      omega
    · exact Or.inr (Or.inl h)
  · exact Or.inr (Or.inr h)

/-- The items a written element appends: its two children, if any. -/
def kids (next : α → Option (α × α)) (i : Nat) (a : α) :
    List (Nat × α) :=
  match next a with
  | none => []
  | some (l, r) => [(2 * i + 1, l), (2 * i + 2, r)]

/-- Writing the head's slot and queueing its children keeps the fill. -/
theorem Filling.fill {i : Nat} {a : α} {b : β}
    (hf : Filling next root Enc size nodes ((i, a) :: queue))
    (hi : i < size) (hb : Enc a b) :
    Filling next root Enc size (nodes.set i (some b))
      (queue ++ kids next i a) := by
  have hocc : occ next root i = some a := hf.queued _ List.mem_cons_self
  have hlen : i < nodes.length := hf.length ▸ hi
  -- an occupied child of the slot just written is among the appended
  have hkid : ∀ c d, occ next root (child i c) = some d →
      (child i c, d) ∈ kids next i a := by
    intro c d hd
    rw [occ_child, hocc, Option.bind_some] at hd
    unfold kids
    cases hn : next a with
    | none => rw [hn] at hd; cases hd
    | some lr =>
        rw [hn, Option.map_some] at hd
        obtain rfl := Option.some.inj hd
        cases c <;> simp [child]
  refine ⟨by simp [hf.length], ?_, ?_, ?_⟩
  · intro x hx
    rcases List.mem_append.mp hx with hx | hx
    · exact hf.queued x (List.mem_cons_of_mem _ hx)
    · unfold kids at hx
      cases hn : next a with
      | none => rw [hn] at hx; cases hx
      | some lr =>
          rw [hn] at hx
          have hleft := @occ_child α next root i false
          have hright := @occ_child α next root i true
          rw [hocc, Option.bind_some, hn, Option.map_some] at hleft hright
          rcases List.mem_cons.mp hx with rfl | hx
          · exact hleft
          · obtain rfl := List.mem_singleton.mp hx
            exact hright
  · intro j b' hj
    rw [List.getElem?_set] at hj
    split at hj
    · next hij =>
        subst hij
        rw [Option.some.injEq, Option.some.injEq] at hj
        exact ⟨a, hocc, hj ▸ hb⟩
    · exact hf.written j b' hj
  · intro j d hj hd
    by_cases hij : i = j
    · left
      subst hij
      exact ⟨b, by rw [List.getElem?_set, if_pos rfl, if_pos hlen]⟩
    · rcases hf.pending j d hj hd with ⟨b', h⟩ | h | ⟨k, c, hc, h⟩
      · left
        exact ⟨b', by rw [List.getElem?_set, if_neg hij]; exact h⟩
      · rcases List.mem_cons.mp h with heq | h
        · obtain ⟨rfl, -⟩ := Prod.mk.inj heq
          exact absurd rfl hij
        · exact Or.inr (Or.inl (List.mem_append_left _ h))
      · by_cases hik : i = k
        · subst hik
          subst hc
          exact Or.inr (Or.inl (List.mem_append_right _ (hkid c d hd)))
        · refine Or.inr (Or.inr ⟨k, c, hc, ?_⟩)
          rw [List.getElem?_set, if_neg hik]
          exact h

/-- With nothing queued, every occupied slot has been written. -/
theorem Filling.complete (hf : Filling next root Enc size nodes []) :
    ∀ i a, i < size → occ next root i = some a →
      ∃ b, nodes[i]? = some (some b) ∧ Enc a b := by
  intro i
  induction i using Nat.strongRecOn with
  | ind i ih =>
      intro a hi ha
      rcases hf.pending i a hi ha with ⟨b, h⟩ | h | ⟨j, c, rfl, h⟩
      · obtain ⟨a', ha', hb⟩ := hf.written i b h
        rw [ha] at ha'
        obtain rfl := Option.some.inj ha'
        exact ⟨b, h, hb⟩
      · cases h
      · -- the parent is occupied too, so by induction it was written
        have hlt : j < child j c := by cases c <;> simp [child] <;> omega
        rw [occ_child] at ha
        cases hj : occ next root j with
        | none => rw [hj] at ha; cases ha
        | some d =>
            obtain ⟨b, hb, -⟩ := ih j hlt d (by omega) hj
            rw [h] at hb
            cases hb

/-- With nothing queued, a slot nobody occupies was left unwritten. -/
theorem Filling.unoccupied (hf : Filling next root Enc size nodes queue)
    {i : Nat} (hi : i < size) (hocc : occ next root i = none) :
    nodes[i]? = some none := by
  have hlen : i < nodes.length := hf.length ▸ hi
  cases hb : nodes[i] with
  | none => rw [List.getElem?_eq_getElem hlen, hb]
  | some b =>
      obtain ⟨a, ha, -⟩ :=
        hf.written i b (by rw [List.getElem?_eq_getElem hlen, hb])
      rw [hocc] at ha
      cases ha

end XdpIds.LevelOrder
