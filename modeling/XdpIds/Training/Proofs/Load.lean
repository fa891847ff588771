/-
What the training data is.

The fill loop's invariant is `Filled`: a feature no column so far names
is 0 in every sample, and every other feature has, in every sample, what
one of its columns says of that sample's own row. A feature is drawn
again when its first sample was drawn as 0, which the invariant does not
see. Removing samples by one mask keeps rows, features and labels
together (`Filled.masked`), and joining the files keeps their order.

`loaded_exact` is the result: one part a file, rows of the file, all of
the benign ones, at most ten malicious ones for each. `loaded_shipped`
says what a sample is under the shipped settings, whose columns fill four
features in the order of their names.
-/
import XdpIds.Training.Load
import Mathlib.Algebra.Order.Ring.Int
import Mathlib.Data.List.GetD

namespace XdpIds.Training

open Mask

-- ================================================================= mapM

theorem mapM_eq_some {α β : Type} {g : α → Option β} {xs : List α}
    {ys : List β} (h : xs.mapM g = some ys) :
    List.Forall₂ (fun x y => g x = some y) xs ys := by
  induction xs generalizing ys with
  | nil =>
      obtain rfl := Option.some.inj h
      exact .nil
  | cons x xs ih =>
      rw [List.mapM_cons] at h
      obtain ⟨y, hy, h⟩ := Option.bind_eq_some_iff.mp h
      obtain ⟨ys', hys, h⟩ := Option.bind_eq_some_iff.mp h
      obtain rfl := Option.some.inj h
      exact .cons hy (ih hys)

theorem mapM_eq_ok {α β ε : Type} {g : α → Except ε β} {xs : List α}
    {ys : List β} (h : xs.mapM g = .ok ys) :
    List.Forall₂ (fun x y => g x = .ok y) xs ys := by
  induction xs generalizing ys with
  | nil =>
      obtain rfl := Except.ok.inj h
      exact .nil
  | cons x xs ih =>
      rw [List.mapM_cons] at h
      cases hx : g x with
      | error e => rw [hx] at h; cases h
      | ok y =>
          cases hxs : xs.mapM g with
          | error e => rw [hx, hxs] at h; cases h
          | ok ys' =>
              rw [hx, hxs] at h
              obtain rfl := Except.ok.inj h
              exact .cons hx (ih hxs)

-- =================================================================== assign

variable {Cell Value : Type}

/-- Assigning is a conversion that did not raise and a feature that is
there. -/
theorem assign_cases {Xi Xi' : List (List Value)} {i : Nat}
    {values : Option (List Value)} (h : assign Xi i values = .ok Xi') :
    ∃ xs, values = some xs ∧ i < Xi.length ∧ Xi' = Xi.set i xs := by
  unfold assign at h
  cases values with
  | none => cases h
  | some xs =>
      simp only at h
      split at h
      · next hi => exact ⟨xs, rfl, hi, (Except.ok.inj h).symm⟩
      · cases h

variable [LinearOrder Value] [Zero Value]
  {np : Numpy Cell Value} {cfg : Config} {columns : List Name}
  {rows : List (Row Cell)} {Xi Xi' : List (List Value)}

-- ========================================================= what fills what

/-- The feature a column fills. -/
def target (cfg : Config) (col : Name) : Option Nat :=
  match cfg.featureIdx.lookup col with
  | some featureIdx => some featureIdx
  | none => (matchingFeat cfg col).map fun feat => feat.2

/-- The value is what the column says of the row: the cell converted, or
a draw for the row's own mean and deviation, raised to 0. -/
def Explains (np : Numpy Cell Value) (cfg : Config) (col : Name)
    (r : Row Cell) (x : Value) : Prop :=
  match cfg.featureIdx.lookup col with
  | some _ => np.int32 (r.cell col) = some x
  | none => ∃ feat, matchingFeat cfg col = some feat
      ∧ ∃ z, np.Drawn (r.cell (feat.1 ++ "_mean".toList))
          (r.cell (feat.1 ++ "_std".toList)) z ∧ x = max z 0

/-- The matrix after the columns in `done`. -/
structure Filled (np : Numpy Cell Value) (cfg : Config)
    (rows : List (Row Cell)) (done : List Name) (Xi : List (List Value)) :
    Prop where
  length : Xi.length = cfg.featureNb
  feature : ∀ f xs, Xi[f]? = some xs →
    (∃ col ∈ done, target cfg col = some f
      ∧ List.Forall₂ (Explains np cfg col) rows xs)
    ∨ ((∀ col ∈ done, target cfg col ≠ some f) ∧ xs = rows.map fun _ => 0)

theorem Filled.zeros (np : Numpy Cell Value) (cfg : Config)
    (rows : List (Row Cell)) :
    Filled np cfg rows [] (List.replicate cfg.featureNb
      (List.replicate rows.length (0 : Value))) := by
  refine ⟨List.length_replicate, fun f xs h => Or.inr ⟨by simp, ?_⟩⟩
  rw [List.map_const']
  exact List.eq_of_mem_replicate (List.mem_of_getElem? h)

-- ============================================================ the fill loop

namespace Filled

variable {done : List Name} {col : Name} {f : Nat}

/-- A column writes its feature. -/
theorem assigned (h : Filled np cfg rows done Xi)
    (htarget : target cfg col = some f) {xs : List Value}
    (hxs : List.Forall₂ (Explains np cfg col) rows xs) :
    Filled np cfg rows (done ++ [col]) (Xi.set f xs) := by
  refine ⟨by rw [List.length_set, h.length], fun g ys hg => ?_⟩
  by_cases hgf : f = g
  · subst hgf
    have hys : ys = xs := by
      have hlt := (List.getElem?_eq_some_iff.mp hg).1
      rw [List.length_set] at hlt
      rw [List.getElem?_set_self hlt] at hg
      exact (Option.some.inj hg).symm
    exact Or.inl ⟨col, by simp, htarget, hys ▸ hxs⟩
  · rw [List.getElem?_set_ne hgf] at hg
    rcases h.feature g ys hg with ⟨col', hcol', h'⟩ | ⟨hnone, hys⟩
    · exact Or.inl ⟨col', List.mem_append_left _ hcol', h'⟩
    · refine Or.inr ⟨fun col' hcol' => ?_, hys⟩
      rcases List.mem_append.mp hcol' with hcol' | hcol'
      · exact hnone col' hcol'
      · rw [List.mem_singleton.mp hcol', htarget]
        exact fun heq => hgf (Option.some.inj heq)

/-- A column that finds its feature drawn leaves it alone. -/
theorem skipped (h : Filled np cfg rows done Xi)
    (htarget : target cfg col = some f) {x : Value} (hx : x ≠ 0)
    (hfirst : (Xi[f]?.bind fun xs => xs[0]?) = some x) :
    Filled np cfg rows (done ++ [col]) Xi := by
  refine ⟨h.length, fun g ys hg => ?_⟩
  rcases h.feature g ys hg with ⟨col', hcol', h'⟩ | ⟨hnone, hys⟩
  · exact Or.inl ⟨col', List.mem_append_left _ hcol', h'⟩
  · refine Or.inr ⟨fun col' hcol' => ?_, hys⟩
    rcases List.mem_append.mp hcol' with hcol' | hcol'
    · exact hnone col' hcol'
    · rw [List.mem_singleton.mp hcol', htarget]
      intro heq
      -- the feature would still be 0 in every sample
      obtain rfl := Option.some.inj heq
      rw [hg, Option.bind_some, hys, List.getElem?_map] at hfirst
      obtain ⟨r, -, hr⟩ := Option.map_eq_some_iff.mp hfirst
      exact hx hr.symm

end Filled

/-- What one column does. -/
theorem fillColumn_filled {done : List Name} {col : Name} {j : Nat}
    (hf : Filled np cfg rows done Xi)
    (h : fillColumn np cfg columns rows Xi (col, j) = .ok Xi') :
    Filled np cfg rows (done ++ [col]) Xi' := by
  unfold fillColumn at h
  cases hlookup : cfg.featureIdx.lookup col with
  | some i =>
      simp only [hlookup] at h
      obtain ⟨xs, hxs, -, rfl⟩ := assign_cases h
      have htarget : target cfg col = some i := by
        unfold target
        rw [hlookup]
      refine hf.assigned htarget ((mapM_eq_some hxs).imp fun r x hx => ?_)
      unfold Explains
      rw [hlookup]
      exact hx
  | none =>
      simp only [hlookup] at h
      cases hmatch : matchingFeat cfg col with
      | none => rw [hmatch] at h; cases h
      | some feat =>
          have htarget : target cfg col = some feat.2 := by
            unfold target
            rw [hlookup, hmatch]
            rfl
          simp only [hmatch] at h
          cases hfirst : Xi[feat.2]?.bind fun xs => xs[0]? with
          | none => rw [hfirst] at h; cases h
          | some x =>
              simp only [hfirst] at h
              split at h
              · unfold reconstruct at h
                simp only at h
                split at h
                · obtain ⟨xs, hxs, -, rfl⟩ := assign_cases h
                  obtain ⟨zs, hzs, rfl⟩ := Option.map_eq_some_iff.mp hxs
                  have hdrawn := np.normal_drawn _ _ _ hzs
                  refine hf.assigned htarget ?_
                  rw [List.forall₂_map_left_iff] at hdrawn
                  rw [List.forall₂_map_right_iff]
                  refine hdrawn.imp fun r z hz => ?_
                  unfold Explains
                  rw [hlookup]
                  exact ⟨feat, hmatch, z, hz, rfl⟩
                · cases h
              · next hx =>
                  obtain rfl := Except.ok.inj h
                  exact hf.skipped htarget hx hfirst

/-- What the loop does. -/
theorem fill_filled {done : List Name} {cols : List (Name × Nat)}
    (hf : Filled np cfg rows done Xi)
    (h : cols.foldlM (fillColumn np cfg columns rows) Xi = .ok Xi') :
    Filled np cfg rows (done ++ cols.map Prod.fst) Xi' := by
  induction cols generalizing done Xi with
  | nil =>
      obtain rfl := Except.ok.inj h
      simpa using hf
  | cons col cols ih =>
      rw [List.foldlM_cons] at h
      cases hcol : fillColumn np cfg columns rows Xi col with
      | error e => rw [hcol] at h; cases h
      | ok Xi₁ =>
          rw [hcol] at h
          have hrest := ih (fillColumn_filled hf hcol) h
          simpa using hrest

-- ================================================================= one file

/-- One mask keeps rows and features together. -/
theorem Filled.masked {done : List Name} (hf : Filled np cfg rows done Xi)
    (mask : List Bool) :
    Filled np cfg (masked mask rows) done (Xi.map (Mask.masked mask)) := by
  refine ⟨by rw [List.length_map, hf.length], fun f xs h => ?_⟩
  rw [List.getElem?_map] at h
  obtain ⟨ys, hys, rfl⟩ := Option.map_eq_some_iff.mp h
  rcases hf.feature f ys hys with ⟨col, hcol, htarget, hxs⟩ | ⟨hnone, rfl⟩
  · exact Or.inl ⟨col, hcol, htarget, forall₂_masked mask hxs⟩
  · exact Or.inr ⟨hnone, (map_masked _ mask rows).symm⟩

/-- The rows of a file that are trained on. -/
structure Kept (d : Dataset Cell) (rows : List (Row Cell)) : Prop where
  sub : rows.Sublist d.rows
  benign : (rows.filter fun r => r.y != 1) = d.rows.filter fun r => r.y != 1
  malicious : rows.countP (fun r => r.y == 1)
    = min (d.rows.countP fun r => r.y == 1)
      (10 * d.rows.countP fun r => r.y != 1)

theorem Row.y_eq (r : Row Cell) : r.y = 0 ∨ r.y = 1 := by
  unfold Row.y
  split
  · exact Or.inr rfl
  · exact Or.inl rfl

/-- The two counts of the labels. -/
theorem count_labels (rows : List (Row Cell)) :
    (rows.map Row.y).count 0 = (rows.countP fun r => r.y != 1)
      ∧ (rows.map Row.y).count 1 = rows.countP fun r => r.y == 1 := by
  rw [List.count_eq_countP, List.count_eq_countP, List.countP_map,
    List.countP_map]
  refine ⟨List.countP_congr fun r _ => ?_, rfl⟩
  rcases r.y_eq with h | h <;> simp [h]

/-- Removing what is too much. -/
theorem balance_kept {d : Dataset Cell} {X : List (List Value)} {y : List Nat}
    {cols : List Name} (hf : Filled np cfg d.rows cols Xi)
    (h : balance np.choice Xi (d.rows.map Row.y) = (X, y)) :
    ∃ rows, Kept d rows ∧ y = rows.map Row.y
      ∧ Filled np cfg rows cols X := by
  obtain ⟨hben, hmal⟩ := count_labels d.rows
  unfold balance at h
  simp only [hben, hmal] at h
  split at h
  · next hmany =>
      -- the malicious rows' positions, and the ones chosen to go
      rw [positions_map, List.length_map] at h
      have hpos := length_positions (fun r : Row Cell => r.y == 1) d.rows
      obtain ⟨hnodup, hsub, hlen⟩ := np.choice_chosen
        (positions (fun r : Row Cell => r.y == 1) d.rows)
        (d.rows.countP (fun r => r.y == 1)
          - d.rows.countP (fun r => r.y != 1) * 10)
        (by omega) (List.nodup_range.filter _)
      have hcount := count_keepMask hnodup hsub
      obtain ⟨rfl, rfl⟩ := Prod.mk.inj h
      refine ⟨_, ⟨masked_sublist _ _, filter_keepMask hsub, ?_⟩,
        (map_masked Row.y _ _).symm, hf.masked _⟩
      omega
  · next hfew =>
      obtain ⟨rfl, rfl⟩ := Prod.mk.inj h
      refine ⟨d.rows, ⟨List.Sublist.refl _, rfl, ?_⟩, rfl, hf⟩
      omega

theorem loadOne_kept {d : Dataset Cell} {X : List (List Value)}
    {y : List Nat} (h : loadOne np cfg d = .ok (X, y)) :
    ∃ rows, Kept d rows ∧ y = rows.map Row.y
      ∧ Filled np cfg rows d.featureCols X := by
  unfold loadOne at h
  simp only at h
  split at h
  · cases h
  · cases hfill : d.featureCols.zipIdx.foldlM (fillColumn np cfg
        (d.df.columns.map strip) d.rows) (List.replicate cfg.featureNb
          (List.replicate d.rows.length (0 : Value))) with
    | error e => rw [hfill] at h; cases h
    | ok Xi =>
        rw [hfill] at h
        have hf := fill_filled (Filled.zeros np cfg d.rows) hfill
        rw [List.nil_append, List.zipIdx_map_fst] at hf
        exact balance_kept hf (Except.ok.inj h)

-- ================================================================ all files

/-- A row's sample: a value for each feature, each what a column of the
feature says of the row. -/
def SampleOf (np : Numpy Cell Value) (cfg : Config) (cols : List Name)
    (r : Row Cell) (sample : List Value) : Prop :=
  sample.length = cfg.featureNb ∧ ∀ f x, sample[f]? = some x →
    (∃ col ∈ cols, target cfg col = some f ∧ Explains np cfg col r x)
    ∨ ((∀ col ∈ cols, target cfg col ≠ some f) ∧ x = 0)

theorem Filled.row_length {done : List Name}
    (hf : Filled np cfg rows done Xi) {f : Nat} {xs : List Value}
    (h : Xi[f]? = some xs) : xs.length = rows.length := by
  rcases hf.feature f xs h with ⟨col, -, -, hxs⟩ | ⟨-, rfl⟩
  · exact hxs.length_eq.symm
  · exact List.length_map _

/-- The matrix by samples. -/
theorem Filled.transposed {cols : List Name}
    (hf : Filled np cfg rows cols Xi) :
    List.Forall₂ (SampleOf np cfg cols) rows
      (Training.transposed rows.length Xi) := by
  rw [List.forall₂_iff_get]
  refine ⟨by simp [Training.transposed], fun k hk hk' => ?_⟩
  have hsample : (Training.transposed rows.length Xi).get ⟨k, hk'⟩
      = Xi.map fun xs => xs.getD k 0 := by
    simp [Training.transposed]
  rw [hsample]
  refine ⟨by rw [List.length_map, hf.length], fun f x hx => ?_⟩
  rw [List.getElem?_map] at hx
  obtain ⟨xs, hxs, rfl⟩ := Option.map_eq_some_iff.mp hx
  have hlen : k < xs.length := by rwa [hf.row_length hxs]
  rw [List.getD_eq_getElem _ _ hlen]
  rcases hf.feature f xs hxs with ⟨col, hcol, htarget, h⟩ | ⟨hnone, rfl⟩
  · exact Or.inl ⟨col, hcol, htarget, (List.forall₂_iff_get.mp h).2 k hk hlen⟩
  · exact Or.inr ⟨hnone, List.getElem_map _⟩

/-- Joined matrices have their samples behind each other. -/
theorem transposed_hstack {cols : List Name}
    (hf : Filled np cfg rows cols Xi) (n : Nat)
    (Xs : List (List (List Value))) :
    transposed (rows.length + n) (hstack cfg.featureNb (Xi :: Xs))
      = transposed rows.length Xi
        ++ transposed n (hstack cfg.featureNb Xs) := by
  have hXi : Xi = (List.range cfg.featureNb).map fun f => Xi.getD f [] := by
    apply List.ext_getElem
    · rw [List.length_map, List.length_range, hf.length]
    · intro f hf' _
      rw [List.getElem_map, List.getElem_range]
      exact (List.getD_eq_getElem _ _ hf').symm
  have hrow : ∀ f ∈ List.range cfg.featureNb,
      (Xi.getD f []).length = rows.length := by
    intro f hmem
    have hlt : f < Xi.length := by
      rw [hf.length]
      exact List.mem_range.mp hmem
    rw [List.getD_eq_getElem _ _ hlt]
    exact hf.row_length (List.getElem?_eq_getElem hlt)
  unfold transposed
  rw [List.range_add, List.map_append, List.map_map]
  congr 1
  · refine List.map_congr_left fun k hk => ?_
    conv_rhs => rw [hXi]
    unfold hstack
    rw [List.map_map, List.map_map]
    refine List.map_congr_left fun f hmem => ?_
    have hk' : k < (Xi.getD f []).length := by
      rw [hrow f hmem]
      exact List.mem_range.mp hk
    simp only [Function.comp_apply, List.flatMap_cons]
    exact List.getD_append _ _ _ _ hk'
  · refine List.map_congr_left fun k _ => ?_
    unfold hstack
    rw [List.map_map, Function.comp_apply, List.map_map]
    refine List.map_congr_left fun f hmem => ?_
    simp only [Function.comp_apply, List.flatMap_cons]
    rw [List.getD_append_right _ _ _ _ (by rw [hrow f hmem]; omega),
      hrow f hmem, Nat.add_sub_cancel_left]

/-- One part of the training data: rows of a file, with a sample each. -/
def PartOf (np : Numpy Cell Value) (cfg : Config) (d : Dataset Cell)
    (part : List (Row Cell) × List (List Value)) : Prop :=
  Kept d part.1 ∧ List.Forall₂ (SampleOf np cfg d.featureCols) part.1 part.2

/-- The files' parts, joined. -/
theorem parts_joined {nps : Nat → Numpy Cell Value}
    {ds : List (Dataset Cell × Nat)}
    {loaded : List (List (List Value) × List Nat)}
    (h : List.Forall₂ (fun d part =>
      loadOne (nps d.2) cfg d.1 = .ok part) ds loaded) :
    ∃ parts : List (List (Row Cell) × List (List Value)),
      List.Forall₂ (fun d part => PartOf (nps d.2) cfg d.1 part) ds parts
      ∧ (loaded.flatMap fun part => part.2)
        = (parts.flatMap fun part => part.1).map Row.y
      ∧ transposed (loaded.flatMap fun part => part.2).length
          (hstack cfg.featureNb (loaded.map fun part => part.1))
        = parts.flatMap fun part => part.2 := by
  induction h with
  | nil => exact ⟨[], .nil, rfl, rfl⟩
  | @cons d part ds loaded hd _ ih =>
      obtain ⟨parts, hparts, hy, hX⟩ := ih
      obtain ⟨rows, hkept, hlabels, hf⟩ := loadOne_kept hd
      refine ⟨(rows, transposed rows.length part.1) :: parts,
        .cons ⟨hkept, hf.transposed⟩ hparts, ?_, ?_⟩
      · rw [List.flatMap_cons, List.flatMap_cons, List.map_append, hlabels, hy]
      · rw [List.flatMap_cons, List.map_cons, List.length_append, hlabels,
          List.length_map, transposed_hstack hf, hX, List.flatMap_cons]

/-- At most ten malicious samples for each benign one. -/
theorem Kept.balanced {d : Dataset Cell} (h : Kept d rows) :
    (rows.map Row.y).count 1 ≤ 10 * (rows.map Row.y).count 0 := by
  obtain ⟨hben, hmal⟩ := count_labels rows
  have hall : (rows.countP fun r => r.y != 1)
      = d.rows.countP fun r => r.y != 1 := by
    rw [List.countP_eq_length_filter, h.benign,
      ← List.countP_eq_length_filter]
  rw [hben, hmal, hall, h.malicious]
  exact Nat.min_le_right _ _

theorem parts_balanced {nps : Nat → Numpy Cell Value}
    {ds : List (Dataset Cell × Nat)}
    {parts : List (List (Row Cell) × List (List Value))}
    (h : List.Forall₂ (fun d part => PartOf (nps d.2) cfg d.1 part) ds
      parts) :
    ((parts.flatMap fun part => part.1).map Row.y).count 1
      ≤ 10 * ((parts.flatMap fun part => part.1).map Row.y).count 0 := by
  induction h with
  | nil => simp
  | cons hd _ ih =>
      have hone := hd.1.balanced
      rw [List.flatMap_cons, List.map_append, List.count_append,
        List.count_append]
      omega

theorem loaded_parts {nps : Nat → Numpy Cell Value}
    {datasets : List (Dataset Cell)} {X : List (List Value)} {y : List Nat}
    (h : loadDatasets nps cfg datasets = .ok (X, y)) :
    ∃ parts : List (List (Row Cell) × List (List Value)),
      List.Forall₂ (fun d part => PartOf (nps d.2) cfg d.1 part)
        datasets.zipIdx parts
      ∧ X = (parts.flatMap fun part => part.2)
      ∧ y = (parts.flatMap fun part => part.1).map Row.y := by
  unfold loadDatasets at h
  cases hparts : datasets.zipIdx.mapM fun d => loadOne (nps d.2) cfg d.1 with
  | error e => rw [hparts] at h; cases h
  | ok loaded =>
      rw [hparts] at h
      change (if loaded = [] then _ else _) = _ at h
      split at h
      · cases h
      · obtain ⟨parts, hall, hy, hX⟩ := parts_joined (mapM_eq_ok hparts)
        obtain ⟨rfl, rfl⟩ := Prod.mk.inj (Except.ok.inj h)
        exact ⟨parts, hall, hX, hy⟩

/-- The training data. There is one part for each file, in order: some
complete rows of the file, all the benign ones and as many malicious ones
as ten for each benign row allow, each row with its own label and with a
sample whose every feature is what a column of it says of the row. -/
theorem loaded_exact {nps : Nat → Numpy Cell Value}
    {datasets : List (Dataset Cell)} {X : List (List Value)} {y : List Nat}
    (h : loadDatasets nps cfg datasets = .ok (X, y)) :
    ∃ parts : List (List (Row Cell) × List (List Value)),
      List.Forall₂ (fun d part => PartOf (nps d.2) cfg d.1 part)
        datasets.zipIdx parts
      ∧ X = (parts.flatMap fun part => part.2)
      ∧ y = (parts.flatMap fun part => part.1).map Row.y
      ∧ y.count 1 ≤ 10 * y.count 0 := by
  obtain ⟨parts, hall, hX, rfl⟩ := loaded_parts h
  exact ⟨parts, hall, hX, rfl, parts_balanced hall⟩

/-- Draws that are their mean, and choices that take the first. -/
def plainNumpy : Numpy Int Int where
  int32 c := c
  Drawn mean _ z := mean = some z
  normal _ args := args.mapM fun a => a.1
  choice pool k := pool.take k
  normal_drawn _ _ _ h := mapM_eq_some h
  choice_chosen pool k hk hnodup := by
    refine ⟨hnodup.sublist (List.take_sublist k pool), ?_, ?_⟩
    · exact List.take_subset k pool
    · rw [List.length_take, Nat.min_eq_left hk]

/-- A row of a capture, all of whose cells are one number. -/
def plainRow (n : Int) (label : String) : Row Int :=
  ⟨fun _ => some n, some label.toList⟩

/-- A capture of one benign packet among eleven attacks. -/
def capture : Dataset Int :=
  ⟨selfCols, selfCols ++ [labelCol],
    plainRow 80 " BENIGN" :: List.replicate 11 (plainRow 53 "DNS")⟩

theorem capture_loaded : loadDatasets (fun _ => plainNumpy) .shipped [capture]
    = .ok (List.replicate 4 80 :: List.replicate 10 (List.replicate 4 53),
        0 :: List.replicate 10 1) := by
  rfl

/-- One of the eleven attacks is left out. -/
theorem loaded_exact_capture :
    ∃ X y, loadDatasets (fun _ => plainNumpy) .shipped [capture] = .ok (X, y)
      ∧ (∃ parts : List (List (Row Int) × List (List Int)),
        List.Forall₂ (fun d part => PartOf plainNumpy .shipped d.1 part)
          [capture].zipIdx parts
        ∧ X = parts.flatMap fun part => part.2)
      ∧ y.count 1 ≤ 10 * y.count 0 ∧ y.count 1 = 10 := by
  obtain ⟨parts, hparts, hX, -, hbalanced⟩ := loaded_exact capture_loaded
  exact ⟨_, _, capture_loaded, ⟨parts, hparts, hX⟩, hbalanced, rfl⟩

-- ======================================================== the shipped settings

/-- Five columns that fill four features: three by their own key, the
last by its mean and deviation. -/
structure FourFeatures (cfg : Config) (c₀ c₁ c₂ cMean cStd : Name) :
    Prop where
  featureNb : cfg.featureNb = 4
  sPort : cfg.featureIdx.lookup c₀ = some 0
  dPort : cfg.featureIdx.lookup c₁ = some 1
  protocol : cfg.featureIdx.lookup c₂ = some 2
  mean : cfg.featureIdx.lookup cMean = none
  std : cfg.featureIdx.lookup cStd = none
  size : ∃ feat : Name, matchingFeat cfg cMean = some (feat, 3)
    ∧ matchingFeat cfg cStd = some (feat, 3)
    ∧ feat ++ "_mean".toList = cMean ∧ feat ++ "_std".toList = cStd

theorem selfCols_four : FourFeatures .shipped "src_port".toList
    "dst_port".toList "protocol".toList "fwd_segment_size_mean".toList
    "fwd_segment_size_std".toList :=
  ⟨rfl, by decide, by decide, by decide, by decide, by decide,
    "fwd_segment_size".toList, by decide, by decide, by decide, by decide⟩

theorem cicCols_four : FourFeatures .shipped "Source Port".toList
    "Destination Port".toList "Protocol".toList
    "Fwd Packet Length_mean".toList "Fwd Packet Length_std".toList :=
  ⟨rfl, by decide, by decide, by decide, by decide, by decide,
    "Fwd Packet Length".toList, by decide, by decide, by decide, by decide⟩

/-- A sample of four features: three cells of the row, converted, and a
draw for the row's mean and deviation, raised to 0. -/
def FourSample (np : Numpy Cell Value) (c₀ c₁ c₂ cMean cStd : Name)
    (r : Row Cell) (sample : List Value) : Prop :=
  ∃ sPort dPort protocol z, sample = [sPort, dPort, protocol, max z 0]
    ∧ np.int32 (r.cell c₀) = some sPort ∧ np.int32 (r.cell c₁) = some dPort
    ∧ np.int32 (r.cell c₂) = some protocol
    ∧ np.Drawn (r.cell cMean) (r.cell cStd) z

theorem Explains.converted {col : Name} {i : Nat} {r : Row Cell} {x : Value}
    (hlookup : cfg.featureIdx.lookup col = some i)
    (h : Explains np cfg col r x) : np.int32 (r.cell col) = some x := by
  unfold Explains at h
  rwa [hlookup] at h

theorem Explains.drawn {col feat : Name} {i : Nat} {r : Row Cell} {x : Value}
    (hlookup : cfg.featureIdx.lookup col = none)
    (hmatch : matchingFeat cfg col = some (feat, i))
    (h : Explains np cfg col r x) :
    ∃ z, np.Drawn (r.cell (feat ++ "_mean".toList))
      (r.cell (feat ++ "_std".toList)) z ∧ x = max z 0 := by
  unfold Explains at h
  rw [hlookup] at h
  obtain ⟨feat', hmatch', hz⟩ := h
  obtain rfl := Option.some.inj (hmatch.symm.trans hmatch')
  exact hz

theorem FourFeatures.sample {c₀ c₁ c₂ cMean cStd : Name}
    (h : FourFeatures cfg c₀ c₁ c₂ cMean cStd) {r : Row Cell}
    {sample : List Value}
    (hs : SampleOf np cfg [c₀, c₁, c₂, cMean, cStd] r sample) :
    FourSample np c₀ c₁ c₂ cMean cStd r sample := by
  obtain ⟨hlen, hfeature⟩ := hs
  rw [h.featureNb] at hlen
  obtain ⟨feat, hmean, hstd, hmeanCol, hstdCol⟩ := h.size
  have htargets : target cfg c₀ = some 0 ∧ target cfg c₁ = some 1
      ∧ target cfg c₂ = some 2 ∧ target cfg cMean = some 3
      ∧ target cfg cStd = some 3 := by
    simp only [target, h.sPort, h.dPort, h.protocol, h.mean, h.std, hmean,
      hstd]
    simp
  obtain ⟨h₀, h₁, h₂, hm, hd⟩ := htargets
  match sample, hlen with
  | [x₀, x₁, x₂, x₃], _ =>
      have hx₀ := hfeature 0 x₀ rfl
      have hx₁ := hfeature 1 x₁ rfl
      have hx₂ := hfeature 2 x₂ rfl
      have hx₃ := hfeature 3 x₃ rfl
      simp [h₀, h₁, h₂, hm, hd] at hx₀ hx₁ hx₂ hx₃
      obtain ⟨z, hz, rfl⟩ : ∃ z, np.Drawn (r.cell (feat ++ "_mean".toList))
          (r.cell (feat ++ "_std".toList)) z ∧ x₃ = max z 0 := by
        rcases hx₃ with hx₃ | hx₃
        · exact hx₃.drawn h.mean hmean
        · exact hx₃.drawn h.std hstd
      rw [hmeanCol, hstdCol] at hz
      exact ⟨x₀, x₁, x₂, z, rfl, hx₀.converted h.sPort, hx₁.converted h.dPort,
        hx₂.converted h.protocol, hz⟩

/-- The sample of a row, by the five columns of its file. -/
def ShippedSample (np : Numpy Cell Value) (cols : List Name) (r : Row Cell)
    (sample : List Value) : Prop :=
  ∃ c₀ c₁ c₂ cMean cStd, cols = [c₀, c₁, c₂, cMean, cStd]
    ∧ FourSample np c₀ c₁ c₂ cMean cStd r sample

theorem SampleOf.shipped {cols : List Name}
    (hcols : cols = selfCols ∨ cols = cicCols) {r : Row Cell}
    {sample : List Value} (h : SampleOf np .shipped cols r sample) :
    ShippedSample np cols r sample := by
  rcases hcols with rfl | rfl
  · exact ⟨_, _, _, _, _, rfl, selfCols_four.sample h⟩
  · exact ⟨_, _, _, _, _, rfl, cicCols_four.sample h⟩

/-- One part of the training data under the shipped settings. -/
def ShippedPart (np : Numpy Cell Value) (d : Dataset Cell)
    (part : List (Row Cell) × List (List Value)) : Prop :=
  Kept d part.1
    ∧ List.Forall₂ (ShippedSample np d.featureCols) part.1 part.2

theorem PartOf.shipped {d : Dataset Cell}
    (hcols : d.featureCols = selfCols ∨ d.featureCols = cicCols)
    {part : List (Row Cell) × List (List Value)}
    (h : PartOf np .shipped d part) : ShippedPart np d part :=
  ⟨h.1, h.2.imp fun _ _ hs => hs.shipped hcols⟩

/-- With the shipped settings every sample is the source port, the
destination port, the protocol and a drawn size of its own row, in the
order of `FEATURE_NAMES`, file after file. -/
theorem loaded_shipped {nps : Nat → Numpy Cell Value}
    {datasets : List (Dataset Cell)} {X : List (List Value)} {y : List Nat}
    (hcols : ∀ d ∈ datasets, d.featureCols = selfCols
      ∨ d.featureCols = cicCols)
    (h : loadDatasets nps .shipped datasets = .ok (X, y)) :
    ∃ parts : List (List (Row Cell) × List (List Value)),
      List.Forall₂ (fun d part => ShippedPart (nps d.2) d.1 part)
        datasets.zipIdx parts
      ∧ X = (parts.flatMap fun part => part.2)
      ∧ y = (parts.flatMap fun part => part.1).map Row.y := by
  obtain ⟨parts, hall, hX, hy⟩ := loaded_parts h
  refine ⟨parts, ?_, hX, hy⟩
  have hzip : ∀ d ∈ datasets.zipIdx, d.1.featureCols = selfCols
      ∨ d.1.featureCols = cicCols := fun d hd =>
    hcols d.1 (List.fst_mem_of_mem_zipIdx hd)
  clear h hcols hX hy
  generalize datasets.zipIdx = ds at hall hzip
  induction hall with
  | nil => exact .nil
  | @cons d part ds parts hd _ ih =>
      exact .cons (hd.shipped (hzip d List.mem_cons_self))
        (ih fun d' hd' => hzip d' (List.mem_cons_of_mem _ hd'))

/-- The capture's samples are its own rows'. -/
theorem loaded_shipped_capture :
    ∃ X y, loadDatasets (fun _ => plainNumpy) .shipped [capture] = .ok (X, y)
      ∧ ∃ part : List (Row Int) × List (List Int),
        ShippedPart plainNumpy capture part ∧ X = part.2
        ∧ y = part.1.map Row.y := by
  have hcols : ∀ d ∈ [capture], d.featureCols = selfCols
      ∨ d.featureCols = cicCols := by
    simp [capture]
  obtain ⟨parts, hparts, hX, hy⟩ := loaded_shipped hcols capture_loaded
  cases hparts with
  | @cons d part ds parts hpart hnil =>
      cases hnil
      simp only [List.flatMap_cons, List.flatMap_nil, List.append_nil]
        at hX hy
      exact ⟨_, _, capture_loaded, part, hpart, hX, hy⟩

end XdpIds.Training
