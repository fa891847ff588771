/-
What the exporter writes and the loader loads: slot `i` of the table is
the encoding of the subtree at level-order position `i` of the trained
tree, and every other slot is undefined.

# The argument

`exportBody_cases` says once what an iteration can do: drop a pair past
the table, or write its slot and queue its children. That is the shape
`LevelOrder.Filling` is kept by, so the queue's end makes the list a
complete fill (`exportNodes_spec`). The slot occupants there are
scikit-learn ids; `occ_stored` carries them to subtrees of the tree the
arrays store, and `entry_stored` the encodings. The loader's copy and
updates then rebuild the list as a map (`loadedMap_eq`), and
`tableOf tree max` is the result in one definition.

The exporter raises only in `np.int32`, so it cannot raise on a tree
whose thresholds quantise in range (`exportNodes_ok`).
-/
import XdpIds.Lib.LevelOrder
import XdpIds.Tree.Export

namespace XdpIds.Tree

open LevelOrder

-- ==================================================== the abstract table

/-- The exported integer threshold of a trained one. -/
def quantise (t : ℚ) : ℤ := pyRound (t - 1 / 2)

namespace DTree

/-- The two subtrees, none at a leaf. -/
def next : DTree → Option (DTree × DTree)
  | .leaf _ => none
  | .node _ _ _ l r => some (l, r)

/-- The exported pair of a subtree's root. -/
def entry : DTree → Entry
  | .leaf _ => .empty
  | .node f t _ l r => ⟨featureByte l.value.passes r.value.passes f, quantise t⟩

/-- The kernel's node of a subtree's root. -/
def dtNode (t : DTree) : DtNode := t.entry.toNode

end DTree

/-- The kernel table of a tree exported over `max` slots. -/
def tableOf (dtNodeNb : Nat) (tree : DTree) (max : Nat) :
    DtNodesArray dtNodeNb := fun i =>
  if i < max then
    ((occ DTree.next tree i).map DTree.dtNode).getD .undefined
  else .undefined

-- ==================================================== the exporter's body

/-- A scikit-learn node's children, by id. -/
def SkArrays.next (sk : SkArrays) (i : Nat) : Option (Nat × Nat) :=
  if sk.childrenLeft i = -1 then none
  else some ((sk.childrenLeft i).toNat, (sk.childrenRight i).toNat)

/-- The pair the exporter writes for a node. -/
def SkArrays.entry (sk : SkArrays) (i : Nat) : Except ExportError Entry :=
  if sk.childrenLeft i = -1 then .ok .empty
  else
    (npInt32 (quantise (sk.threshold i))).map fun threshold =>
      ⟨featureByte (sk.value (sk.childrenLeft i).toNat).passes
        (sk.value (sk.childrenRight i).toNat).passes (sk.feature i),
        threshold⟩

variable {sk : SkArrays} {max : Nat} {nodes nodes' : List (Option Entry)}
  {new : List (Nat × Nat)}

/-- Inside the table an iteration writes the node's pair and queues its
children, or raises with the node's pair. -/
theorem exportBody_inside {i a : Nat} (hi : i < max) :
    exportBody sk max nodes (i, a)
      = (sk.entry a).map fun e =>
          (nodes.set i (some e), kids sk.next i a) := by
  simp only [exportBody, if_neg (Nat.not_le.mpr hi)]
  unfold SkArrays.entry kids SkArrays.next
  by_cases hleaf : sk.childrenLeft a = -1
  · simp only [if_pos hleaf]
    rfl
  · simp only [if_neg hleaf]
    unfold quantise
    cases npInt32 (pyRound (sk.threshold a - 1 / 2)) <;> rfl

/-- What an iteration can do. -/
theorem exportBody_cases {i a : Nat}
    (h : exportBody sk max nodes (i, a) = .ok (nodes', new)) :
    (max ≤ i ∧ nodes' = nodes ∧ new = [])
      ∨ (i < max ∧ ∃ e, sk.entry a = .ok e
          ∧ nodes' = nodes.set i (some e) ∧ new = kids sk.next i a) := by
  rcases Nat.lt_or_ge i max with hi | hi
  · right
    rw [exportBody_inside hi] at h
    cases he : sk.entry a with
    | error err => rw [he] at h; cases h
    | ok e =>
        rw [he] at h
        obtain ⟨rfl, rfl⟩ := Prod.mk.inj (Except.ok.inj h)
        exact ⟨hi, e, rfl, rfl, rfl⟩
  · left
    simp only [exportBody, if_pos hi] at h
    obtain ⟨rfl, rfl⟩ := Prod.mk.inj (Except.ok.inj h)
    exact ⟨hi, rfl, rfl⟩

/-- An iteration keeps the breadth-first fill. -/
theorem exportBody_keeps (sk : SkArrays) (max : Nat) :
    Worklist.Keeps (exportBody sk max)
      (Filling sk.next 0 (fun a e => sk.entry a = .ok e) max) := by
  intro nodes item queue nodes' new hf hbody
  obtain ⟨i, a⟩ := item
  rcases exportBody_cases hbody with ⟨hi, rfl, rfl⟩ | ⟨hi, e, he, rfl, rfl⟩
  · rw [List.append_nil]
    exact hf.skip hi
  · exact hf.fill hi he

/-- A pair at position `i` pays three times what its children do. -/
theorem exportBody_pays (sk : SkArrays) (max : Nat) :
    Worklist.Pays (exportBody sk max) fun item => 3 ^ (max - item.1) := by
  refine ⟨fun item => Nat.pow_pos (by decide), ?_⟩
  intro nodes item nodes' new hbody
  obtain ⟨i, a⟩ := item
  rcases exportBody_cases hbody with ⟨-, -, rfl⟩ | ⟨hi, e, -, -, rfl⟩
  · simp
  · have hsplit : max - i = max - (i + 1) + 1 := by omega
    have hkid : ∀ j, i + 1 ≤ j → 3 ^ (max - j) ≤ 3 ^ (max - (i + 1)) :=
      fun j hj => Nat.pow_le_pow_right (by decide) (by omega)
    have hleft := hkid (2 * i + 1) (by omega)
    have hright := hkid (2 * i + 2) (by omega)
    have hpos : 0 < 3 ^ (max - (i + 1)) := Nat.pow_pos (by decide)
    unfold kids
    cases sk.next a with
    | none => simp
    | some lr =>
        simp only [List.map_cons, List.map_nil, List.sum_cons,
          List.sum_nil]
        rw [hsplit, pow_succ]
        omega

-- ====================================================== the exported list

/-- The exporter's loop always ends. -/
theorem exportNodes_isSome (sk : SkArrays) (maxDepth : ℤ) :
    (exportNodes sk maxDepth).isSome := by
  unfold exportNodes
  split
  · rfl
  · rw [Option.isSome_map]
    exact Worklist.run_isSome (exportBody_pays sk _) _ _ _ (by simp)

/-- The exported list, slot by slot: a node's pair where a node sits,
the empty pair elsewhere. -/
theorem exportNodes_spec {maxDepth : ℤ} {entries : List Entry}
    (h : exportNodes sk maxDepth = some (.ok entries)) :
    entries.length = maxNodes maxDepth
      ∧ ∀ i, i < maxNodes maxDepth →
          (∀ a, occ sk.next 0 i = some a →
            ∃ e, entries[i]? = some e ∧ sk.entry a = .ok e)
          ∧ (occ sk.next 0 i = none → entries[i]? = some .empty) := by
  unfold exportNodes at h
  split at h
  · cases h
  · obtain ⟨out, hrun, hout⟩ := Option.map_eq_some_iff.mp h
    cases out with
    | error err => cases hout
    | ok nodes =>
        have hfill := Worklist.run_invariant (exportBody_keeps sk _) _ _ _ _
          Filling.init hrun
        obtain rfl := Except.ok.inj hout
        refine ⟨by simp [hfill.length], fun i hi => ⟨?_, ?_⟩⟩
        · intro a ha
          obtain ⟨e, hslot, he⟩ := hfill.complete i a hi ha
          exact ⟨e, by simp [hslot], he⟩
        · intro hnone
          simp [hfill.unoccupied hi hnone]

/-- The exporter returns when no reachable node raises. -/
theorem exportNodes_ok {maxDepth : ℤ} (hdepth : -1 ≤ maxDepth)
    (hentry : ∀ i a, occ sk.next 0 i = some a → ∃ e, sk.entry a = .ok e) :
    ∃ entries, exportNodes sk maxDepth = some (.ok entries) := by
  have hok : ∀ nodes item queue,
      Filling sk.next 0 (fun a e => sk.entry a = .ok e)
        (maxNodes maxDepth) nodes (item :: queue) →
      ∃ r, exportBody sk (maxNodes maxDepth) nodes item = .ok r := by
    intro nodes item queue hf
    obtain ⟨i, a⟩ := item
    rcases Nat.lt_or_ge i (maxNodes maxDepth) with hi | hi
    · obtain ⟨e, he⟩ := hentry i a (hf.queued _ List.mem_cons_self)
      rw [exportBody_inside hi, he]
      exact ⟨_, rfl⟩
    · simp only [exportBody, if_pos hi]
      exact ⟨_, rfl⟩
  have hfuel : ([(0, 0)].map fun item : Nat × Nat =>
      3 ^ (maxNodes maxDepth - item.1)).sum ≤ 3 ^ maxNodes maxDepth := by
    simp
  obtain ⟨nodes, hrun, -⟩ := Worklist.run_spec (exportBody_keeps sk _)
    (exportBody_pays sk _) hok Filling.init hfuel
  unfold exportNodes
  rw [if_neg (by omega)]
  simp only [hrun]
  exact ⟨_, rfl⟩

-- ========================================================== stored trees

/-- A stored tree's children are stored at the node's children. -/
theorem Stores.next {i : Nat} {t : DTree} (h : Stores sk i t) :
    Option.Rel (fun x y => Stores sk x.1 y.1 ∧ Stores sk x.2 y.2)
      (sk.next i) t.next := by
  unfold SkArrays.next
  cases h with
  | leaf hleaf =>
      rw [if_pos hleaf]
      exact Option.Rel.none
  | node hl hr hf hlt hrt =>
      rw [if_neg (by rw [hl]; omega), hl, hr]
      exact Option.Rel.some ⟨hlt, hrt⟩

/-- Position by position, the arrays store the tree's subtrees. -/
theorem occ_stored {t : DTree} (h : Stores sk 0 t) (i : Nat) :
    Option.Rel (Stores sk) (occ sk.next 0 i) (occ DTree.next t i) :=
  occ_rel (fun _ _ => Stores.next) h i

theorem Stores.value {i : Nat} {t : DTree} (h : Stores sk i t) :
    sk.value i = t.value := by
  cases h <;> rfl

/-- `np.int32` either raises or leaves the value alone. -/
theorem npInt32_eq {z z' : ℤ} (h : npInt32 z = .ok z') : z' = z := by
  unfold npInt32 at h
  split at h
  · exact (Except.ok.inj h).symm
  · cases h

/-- A stored node's pair is its subtree's. -/
theorem entry_stored {i : Nat} {t : DTree} {e : Entry}
    (h : Stores sk i t) (he : sk.entry i = .ok e) : e = t.entry := by
  unfold SkArrays.entry at he
  cases h with
  | leaf hleaf =>
      rw [if_pos hleaf] at he
      exact (Except.ok.inj he).symm
  | node hl hr hf hlt hrt =>
      rw [if_neg (by rw [hl]; omega), hl, hr, hf] at he
      cases hint : npInt32 (quantise (sk.threshold i)) with
      | error err => rw [hint] at he; cases he
      | ok z =>
          rw [hint] at he
          obtain rfl := Except.ok.inj he
          rw [npInt32_eq hint, Int.toNat_natCast, Int.toNat_natCast,
            hlt.value, hrt.value]
          rfl

/-- Every subtree of a tree inherits what its internal nodes satisfy. -/
theorem DTree.All.occ {P : Nat → ℚ → Prop} {t s : DTree} {i : Nat}
    (hall : t.All P) (hocc : LevelOrder.occ DTree.next t i = some s) :
    s.All P := by
  have hrel := @occ_rel DTree DTree DTree.next t DTree.next
    (fun a b => a = b ∧ a.All P) (fun a b hab => by
      obtain ⟨rfl, ha⟩ := hab
      cases a with
      | leaf v => exact Option.Rel.none
      | node f th v l r =>
          exact Option.Rel.some ⟨⟨rfl, ha.2.1⟩, ⟨rfl, ha.2.2⟩⟩)
    t ⟨rfl, hall⟩ i
  rw [hocc] at hrel
  cases hrel with
  | some h => exact h.2

-- ======================================================= the loaded table

/-- The copy and the updates rebuild the exported list as a map. -/
theorem fillDtNodesArray_eq {dtNodeNb : Nat}
    (nodes map : DtNodesArray dtNodeNb) :
    fillDtNodesArray nodes map = nodes := by
  have hfold : ∀ (l : List (Fin dtNodeNb)) (m : DtNodesArray dtNodeNb) i,
      l.foldl (fun m i => m.update i (nodes i)) m i
        = if i ∈ l then nodes i else m i := by
    intro l
    induction l with
    | nil => intro m i; simp
    | cons k l ih =>
        intro m i
        rw [List.foldl_cons, ih]
        by_cases hl : i ∈ l
        · rw [if_pos hl, if_pos (List.mem_cons_of_mem _ hl)]
        · rw [if_neg hl]
          unfold DtNodesArray.update
          by_cases hik : i = k
          · subst hik
            rw [Function.update_self, if_pos List.mem_cons_self]
          · rw [Function.update_of_ne hik, if_neg (by simp [hik, hl])]
  funext i
  rw [fillDtNodesArray, hfold, if_pos (List.mem_finRange i)]

/-- What is exported and loaded is the tree's table. -/
theorem loadedMap_eq {clf : FittedTree} {maxDepth : ℤ} {dtNodeNb : Nat}
    {featureNames : List Feature} {header : Header}
    (hexp : dtExportCHeader featureNames clf.arrays maxDepth
      = some (.ok header))
    (hfit : maxNodes maxDepth ≤ dtNodeNb) :
    loadedMap dtNodeNb header.trainedDtNodes
      = some (tableOf dtNodeNb clf.tree (maxNodes maxDepth)) := by
  obtain ⟨out, hnodes, hout⟩ := Option.map_eq_some_iff.mp hexp
  cases out with
  | error err => cases hout
  | ok entries =>
      obtain rfl := Except.ok.inj hout
      obtain ⟨hlen, hslots⟩ := exportNodes_spec hnodes
      have hle : (entries.map Entry.toNode).length ≤ dtNodeNb := by
        rw [List.length_map, hlen]
        exact hfit
      unfold loadedMap retrieveDtParameters
      rw [if_pos hle, Option.map_some, fillDtNodesArray_eq]
      congr 1
      funext i
      unfold tableOf
      by_cases hi : i < maxNodes maxDepth
      · rw [if_pos hi, List.getD_eq_getElem?_getD, List.getElem?_map]
        have hrel := occ_stored clf.stored i
        obtain ⟨hocc, hnone⟩ := hslots i hi
        cases ha : occ clf.arrays.next 0 i with
        | none =>
            rw [ha] at hrel
            rw [hnone ha]
            generalize occ DTree.next clf.tree i = y at hrel ⊢
            cases hrel
            rfl
        | some a =>
            rw [ha] at hrel
            obtain ⟨e, he, henc⟩ := hocc a ha
            rw [he]
            generalize occ DTree.next clf.tree i = y at hrel ⊢
            cases hrel with
            | some hstored =>
                obtain rfl := entry_stored hstored henc
                rfl
      · rw [if_neg hi, List.getD_eq_getElem?_getD,
          List.getElem?_eq_none (by rw [List.length_map, hlen]; omega)]
        rfl

/-- The exported table has `max_nodes` entries. -/
theorem exported_length {featureNames : List Feature} {maxDepth : ℤ}
    {header : Header}
    (hexp : dtExportCHeader featureNames sk maxDepth = some (.ok header)) :
    header.trainedDtNodes.length = maxNodes maxDepth := by
  obtain ⟨out, hnodes, hout⟩ := Option.map_eq_some_iff.mp hexp
  cases out with
  | error err => cases hout
  | ok entries =>
      obtain rfl := Except.ok.inj hout
      rw [List.length_map]
      exact (exportNodes_spec hnodes).1

/-- The exporter does not raise on thresholds that quantise to an
`int32`. -/
theorem dtExportCHeader_ok (clf : FittedTree) {maxDepth : ℤ}
    (featureNames : List Feature) (hdepth : -1 ≤ maxDepth)
    (hall : clf.tree.All fun _ t =>
      -(2 ^ 31) ≤ quantise t ∧ quantise t < 2 ^ 31) :
    ∃ header, dtExportCHeader featureNames clf.arrays maxDepth
      = some (.ok header) := by
  have hentry : ∀ i a, occ clf.arrays.next 0 i = some a →
      ∃ e, clf.arrays.entry a = .ok e := by
    intro i a ha
    have hrel := occ_stored clf.stored i
    rw [ha] at hrel
    cases hs : occ DTree.next clf.tree i with
    | none => rw [hs] at hrel; cases hrel
    | some s =>
        rw [hs] at hrel
        have hsall := hall.occ hs
        unfold SkArrays.entry
        cases hrel with
        | some hstored =>
            cases hstored with
            | leaf hleaf => exact ⟨_, if_pos hleaf⟩
            | node hl hr hf hlt hrt =>
                rw [if_neg (by rw [hl]; omega), npInt32, if_pos hsall.1]
                exact ⟨_, rfl⟩
  obtain ⟨entries, hentries⟩ := exportNodes_ok hdepth hentry
  unfold dtExportCHeader
  rw [hentries]
  exact ⟨_, rfl⟩

end XdpIds.Tree
