/-
The kernel walk simulates the trained tree: on the table of a tree, the
loop of `classify_dt` follows the tree's own splits and returns the
decision of the node it stops at.

# Two readings of the walk

`DTree.carry` is the kernel's reading: carry a decision from position
to position, stop at a leaf or at the first position `cut` does not
cover. `DTree.walkTo` is the tree's own reading: descend at most `d` levels
and look at the values of the node reached. On a cut at a whole level
the two agree (`carry_walkTo`); on any cut the kernel stops at some
depth of the same descent (`carry_exists`).

# The step

`classifyBody_node` and `classifyBody_stop` are the two things an
iteration can do on `tableOf tree cut`; `classifyLoop_tableOf` iterates
them by induction on the subtree under the walker. The walker is at a
path's position, so its level grows with each step and a table below
2^16 slots is left within the 17 iterations.
-/
import XdpIds.Tree.Proofs.Layout

namespace XdpIds.Tree

open LevelOrder

variable {dtNodeNb featureNb : Nat}

-- ==================================================== the reference walks

namespace DTree

/-- Descend at most `d` levels, going left where `split` says so. -/
def walkTo (split : Nat → ℚ → Bool) : Nat → DTree → DTree
  | 0, t => t
  | _ + 1, .leaf v => .leaf v
  | d + 1, .node f th _ l r =>
      if split f th then l.walkTo split d else r.walkTo split d

/-- The decision the kernel carries from position `i` on, over a table
cut at `cut`. -/
def carry (split : Nat → ℚ → Bool) (cut : Nat) (pass : Bool) (i : Nat) :
    DTree → Bool
  | .leaf _ => pass
  | .node f th _ l r =>
      if cut ≤ i then pass
      else if split f th then
        l.carry split cut l.value.passes (child i false)
      else r.carry split cut r.value.passes (child i true)

@[simp] theorem walkTo_leaf (split : Nat → ℚ → Bool) (d : Nat)
    (v : Values) : (leaf v).walkTo split d = .leaf v := by
  cases d <;> rfl

/-- A walk as long as the tree is deep ends in a leaf. -/
theorem walkTo_isLeaf {split : Nat → ℚ → Bool} {t : DTree} {d : Nat}
    (hd : t.depth ≤ d) : (t.walkTo split d).isNode = false := by
  induction t generalizing d with
  | leaf v => rw [walkTo_leaf]; rfl
  | node f th v l r ihl ihr =>
      rw [depth] at hd
      cases d with
      | zero => omega
      | succ d =>
          rw [walkTo]
          split
          · exact ihl (by omega)
          · exact ihr (by omega)

/-- Cut at a whole level, the carried decision is that of the node the
descent reaches. -/
theorem carry_walkTo {split : Nat → ℚ → Bool} {m : Nat} (t : DTree) :
    ∀ {p : List Bool}, p.length ≤ m + 1 →
      t.carry split (2 ^ (m + 1) - 1) t.value.passes (pos p)
        = (t.walkTo split (m + 1 - p.length)).value.passes := by
  induction t with
  | leaf v => intro p hp; rw [walkTo_leaf]; rfl
  | node f th v l r ihl ihr =>
      intro p hp
      rw [carry]
      by_cases hcut : 2 ^ (m + 1) - 1 ≤ pos p
      · have hlen : m + 1 - p.length = 0 := by
          by_contra hne
          have := pos_lt_iff.mpr (show p.length ≤ m by omega)
          omega
        rw [if_pos hcut, hlen, walkTo]
      · have hlen := pos_lt_iff.mp (Nat.not_le.mp hcut)
        have hsucc : m + 1 - p.length = (m - p.length) + 1 := by omega
        have hconcat : ∀ b, m + 1 - (p ++ [b]).length = m - p.length := by
          intro b
          rw [List.length_append, List.length_singleton]
          omega
        have hbound : ∀ b, (p ++ [b]).length ≤ m + 1 := by
          intro b
          rw [List.length_append, List.length_singleton]
          omega
        rw [if_neg hcut, hsucc, walkTo]
        split
        · rw [← pos_concat, ihl (hbound false), hconcat]
        · rw [← pos_concat, ihr (hbound true), hconcat]

/-- Cut anywhere, the carried decision is that of some node of the
descent. -/
theorem carry_exists {split : Nat → ℚ → Bool} {cut : Nat} (t : DTree) :
    ∀ i, ∃ d, d ≤ t.depth ∧
      t.carry split cut t.value.passes i
        = (t.walkTo split d).value.passes := by
  induction t with
  | leaf v => intro i; exact ⟨0, Nat.zero_le _, rfl⟩
  | node f th v l r ihl ihr =>
      intro i
      rw [carry, depth]
      by_cases hcut : cut ≤ i
      · exact ⟨0, Nat.zero_le _, by rw [if_pos hcut, walkTo]⟩
      · rw [if_neg hcut]
        by_cases hs : split f th
        · obtain ⟨d, hd, heq⟩ := ihl (child i false)
          exact ⟨d + 1, by omega, by rw [if_pos hs, walkTo, if_pos hs, heq]⟩
        · obtain ⟨d, hd, heq⟩ := ihr (child i true)
          exact ⟨d + 1, by omega, by rw [if_neg hs, walkTo, if_neg hs, heq]⟩

end DTree

/-- Walks by splits that agree on the tree agree. -/
theorem walkTo_congr {s s' : Nat → ℚ → Bool} {t : DTree}
    (hall : t.All fun f th => s f th = s' f th) (d : Nat) :
    t.walkTo s d = t.walkTo s' d := by
  induction t generalizing d with
  | leaf v => rw [DTree.walkTo_leaf, DTree.walkTo_leaf]
  | node f th v l r ihl ihr =>
      cases d with
      | zero => rfl
      | succ d =>
          rw [DTree.walkTo, DTree.walkTo, hall.1, ihl hall.2.1,
            ihr hall.2.2]

-- ===================================================== one node's encoding

/-- The kernel's split: the vector's value against the exported
threshold, as the `__u32` the struct holds. -/
def kernelSplit (fv : Vector UInt32 featureNb) (f : Nat) (th : ℚ) : Bool :=
  decide ((fv[f]?).getD 0 ≤ UInt32.ofInt (quantise th))

/-- Every field of the feature byte reads back. -/
theorem featureByte_fields (pl pr : Bool) (f : Fin 32) :
    let byte := UInt8.ofNat (featureByte pl pr f)
    byte &&& 0b00100000 ≠ 0 ∧ (byte &&& 0x1F).toNat = f
      ∧ (byte &&& 0b10000000 != 0) = pl
      ∧ (byte &&& 0b01000000 != 0) = pr := by
  revert pl pr f
  decide +kernel

variable {fv : Vector UInt32 featureNb} {i cut f : Nat} {tree l r : DTree}
  {th : ℚ} {v : Values} {pass : Bool}

/-- A defined node sends the walker to the child its split picks, with
that child's decision. -/
theorem walker_next (hnb : featureNb ≤ 32) (hf : f < featureNb)
    {w : Walker} :
    w.next fv (DTree.node f th v l r).dtNode
      = if kernelSplit fv f th then ⟨2 * w.i + 1, l.value.passes⟩
        else ⟨2 * w.i + 2, r.value.passes⟩ := by
  obtain ⟨-, hfeat, hleft, hright⟩ := featureByte_fields l.value.passes
    r.value.passes ⟨f, by omega⟩
  have hvalue : featureValue fv (DTree.node f th v l r).dtNode = fv[f] := by
    have hidx : ((DTree.node f th v l r).dtNode.feature &&& 0x1F).toNat = f :=
      hfeat
    unfold featureValue
    simp only [hidx, dif_pos hf]
  have hsplit : (featureValue fv (DTree.node f th v l r).dtNode
      ≤ (DTree.node f th v l r).dtNode.threshold)
      ↔ kernelSplit fv f th = true := by
    rw [hvalue, kernelSplit, Vector.getElem?_eq_getElem hf,
      Option.getD_some, decide_eq_true_iff]
    rfl
  unfold Walker.next
  by_cases hs : kernelSplit fv f th = true
  · rw [if_pos (hsplit.mpr hs), if_pos hs]
    congr 1
  · rw [if_neg (fun h => hs (hsplit.mp h)), if_neg hs]
    congr 1

-- ================================================== the body on the table

/-- An iteration at an internal node inside the cut. -/
theorem classifyBody_node (hnb : featureNb ≤ 32) (hN : dtNodeNb < 2 ^ 16)
    (hf : f < featureNb)
    (hocc : occ DTree.next tree i = some (.node f th v l r))
    (hcut : i < cut) (hi : i < dtNodeNb) :
    classifyBody (tableOf dtNodeNb tree cut) fv ⟨UInt32.ofNat i, pass⟩
      = .inr (if kernelSplit fv f th then
          ⟨UInt32.ofNat (child i false), l.value.passes⟩
        else ⟨UInt32.ofNat (child i true), r.value.passes⟩) := by
  have htoNat : (UInt32.ofNat i).toNat = i := by
    rw [UInt32.toNat_ofNat']
    omega
  have hslot : tableOf dtNodeNb tree cut ⟨i, hi⟩
      = (DTree.node f th v l r).dtNode := by
    unfold tableOf
    rw [if_pos hcut, hocc, Option.map_some, Option.getD_some]
  have hdef : (DTree.node f th v l r).dtNode.feature &&& 0b00100000 ≠ 0 :=
    (featureByte_fields l.value.passes r.value.passes
      ⟨f, by omega⟩).1
  rw [classifyBody_at (by rw [htoNat]; exact hi)]
  simp only [htoNat, hslot]
  rw [if_neg hdef, walker_next hnb hf]
  simp only [child, cond_false, cond_true, UInt32.ofNat_add,
    UInt32.ofNat_mul]
  rfl

/-- An iteration past the cut, past the table or at a leaf. -/
theorem classifyBody_stop (hi : i < 2 ^ 32)
    (hstop : cut ≤ i ∨ dtNodeNb ≤ i
      ∨ ∃ v, occ DTree.next tree i = some (.leaf v)) :
    classifyBody (tableOf dtNodeNb tree cut) fv ⟨UInt32.ofNat i, pass⟩
      = .inl (.ofBool pass) := by
  have htoNat : (UInt32.ofNat i).toNat = i := by
    rw [UInt32.toNat_ofNat']
    exact Nat.mod_eq_of_lt hi
  rcases Nat.lt_or_ge i dtNodeNb with hlt | hge
  · refine classifyBody_undefined (by rw [htoNat]; exact hlt) ?_
    simp only [htoNat]
    unfold tableOf
    rcases hstop with h | h | ⟨v, hv⟩
    · rw [if_neg (Nat.not_lt.mpr h)]
    · omega
    · split
      · rw [hv]
        rfl
      · rfl
  · exact classifyBody_past (by rw [htoNat]; exact hge)

-- =============================================================== the loop

/-- Inside a cut below 2^16 the walker is above level 16. -/
theorem length_lt_of_cut {p : List Bool} (hN : dtNodeNb < 2 ^ 16)
    (hcutN : cut ≤ dtNodeNb) (hp : pos p < cut) : p.length < 16 := by
  by_contra hlen
  have hle : 2 ^ 16 ≤ 2 ^ p.length :=
    Nat.pow_le_pow_right (by decide) (by omega)
  have := (pos_bounds p).1
  omega

/-- The loop from a subtree's position carries the tree's decision. -/
theorem classifyLoop_tableOf (hnb : featureNb ≤ 32)
    (hN : dtNodeNb < 2 ^ 16) (hcutN : cut ≤ dtNodeNb) (t : DTree) :
    ∀ {p : List Bool} {fuel j : Nat} {pass : Bool},
      (t.All fun f _ => f < featureNb) →
      occ DTree.next tree (pos p) = some t →
      pos p < 2 ^ 18 → 0 < fuel → 16 < p.length + fuel →
      classifyLoop (fun _ => tableOf dtNodeNb tree cut) fv fuel j
          ⟨UInt32.ofNat (pos p), pass⟩
        = some (.ofBool (t.carry (kernelSplit fv) cut pass (pos p))) := by
  induction t with
  | leaf v =>
      intro p fuel j pass hall hocc hpos hfuel hlen
      obtain ⟨fuel, rfl⟩ := Nat.exists_eq_succ_of_ne_zero hfuel.ne'
      rw [classifyLoop,
        classifyBody_stop (by omega) (Or.inr (Or.inr ⟨v, hocc⟩))]
      rfl
  | node f th v l r ihl ihr =>
      intro p fuel j pass hall hocc hpos hfuel hlen
      obtain ⟨fuel, rfl⟩ := Nat.exists_eq_succ_of_ne_zero hfuel.ne'
      rw [classifyLoop, DTree.carry]
      rcases Nat.lt_or_ge (pos p) cut with hcut | hcut
      · have hshort := length_lt_of_cut hN hcutN hcut
        rw [classifyBody_node hnb hN hall.1 hocc hcut (by omega),
          if_neg (Nat.not_le.mpr hcut)]
        have hkid : ∀ b, occ DTree.next tree (pos (p ++ [b]))
            = some (bif b then r else l) := by
          intro b
          rw [pos_concat, occ_child, hocc]
          rfl
        have hposkid : ∀ b, pos (p ++ [b]) < 2 ^ 18 := by
          intro b
          rw [pos_concat]
          cases b <;> simp only [child, cond_true, cond_false] <;> omega
        have hlenkid : ∀ b, 16 < (p ++ [b]).length + fuel := by
          intro b
          rw [List.length_append, List.length_singleton]
          omega
        by_cases hs : kernelSplit fv f th = true
        · simp only [if_pos hs, ← pos_concat]
          exact ihl hall.2.1 (hkid false) (hposkid false) (by omega)
            (hlenkid false)
        · simp only [if_neg hs, ← pos_concat]
          exact ihr hall.2.2 (hkid true) (hposkid true) (by omega)
            (hlenkid true)
      · rw [classifyBody_stop (by omega) (Or.inl hcut), if_pos hcut]

/-- `classify_dt` on the table of a tree, cut anywhere: the decision the
tree's own descent carries from its root. -/
theorem classifyDt_tableOf (hnb : featureNb ≤ 32) (hN : dtNodeNb < 2 ^ 16)
    (hcutN : cut ≤ dtNodeNb) (hall : tree.All fun f _ => f < featureNb) :
    classifyDt (tableOf dtNodeNb tree cut) fv
      = some (.ofBool (tree.carry (kernelSplit fv) cut true 0)) :=
  classifyLoop_tableOf hnb hN hcutN tree (p := []) hall occ_zero
    (by decide) (by decide) (by decide)

/-- A carried decision is replaced at the first internal node inside the
cut. -/
theorem DTree.carry_irrel {split : Nat → ℚ → Bool} (pass' : Bool)
    (hroot : tree.isNode = true) (hcut : i < cut) :
    tree.carry split cut pass i = tree.carry split cut pass' i := by
  cases tree with
  | leaf v => cases hroot
  | node f th v l r =>
      rw [DTree.carry, DTree.carry, if_neg (Nat.not_le.mpr hcut),
        if_neg (Nat.not_le.mpr hcut)]

/-- `classify_dt` on the whole-level table of a tree with an internal
root: the majority of the node `m + 1` levels down, or of the leaf the
descent meets first. -/
theorem classifyDt_level {m : Nat} (hnb : featureNb ≤ 32)
    (hN : dtNodeNb < 2 ^ 16) (hm : 2 ^ (m + 1) - 1 ≤ dtNodeNb)
    (hroot : tree.isNode = true)
    (hall : tree.All fun f _ => f < featureNb) :
    classifyDt (tableOf dtNodeNb tree (2 ^ (m + 1) - 1)) fv
      = some (.ofBool
          (tree.walkTo (kernelSplit fv) (m + 1)).value.passes) := by
  have hcut : 0 < 2 ^ (m + 1) - 1 := by
    have := Nat.pow_le_pow_right (show 0 < 2 by decide)
      (show 1 ≤ m + 1 by omega)
    omega
  rw [classifyDt_tableOf hnb hN hm hall,
    DTree.carry_irrel tree.value.passes hroot hcut]
  exact congrArg (fun b => some (Verdict.ofBool b))
    (DTree.carry_walkTo tree (p := []) (Nat.zero_le _))

end XdpIds.Tree
