/-
main.py's `load_datasets`: from CSV files to the samples and labels the
tree is trained on.

# Files

A `Frame` is what `read_csv` gives: the columns' names as they stand in
the file, and the rows, whose cells are found by stripped name. An empty
cell is `none`.

# numpy and pandas

Conversions, draws and choices are not in the repository. `Numpy` has
them as functions with what their documentation promises: a conversion
or a draw may raise, a draw is one value for each mean and deviation
given, and a choice without replacement is that many different elements
of its pool. `normal` also takes which of the calls it is.

# The matrix

`Xi` has a row for each feature and a column for each sample, as the
source has it; `X.T` is taken at the end.
-/
import XdpIds.Lib.Mask
import Mathlib.Data.List.Infix
import Mathlib.Order.Lattice

namespace XdpIds.Training

open Mask

-- =================================================================== files

abbrev Name := List Char

/-- `str.isspace`, of one character. -/
def isSpace (c : Char) : Bool :=
  let n := c.toNat
  (0x09 ≤ n && n ≤ 0x0D) || (0x1C ≤ n && n ≤ 0x20) || n == 0x85 || n == 0xA0
    || n == 0x1680 || (0x2000 ≤ n && n ≤ 0x200A) || n == 0x2028
    || n == 0x2029 || n == 0x202F || n == 0x205F || n == 0x3000

/-- `str.strip`. -/
def strip (s : Name) : Name :=
  ((s.dropWhile isSpace).reverse.dropWhile isSpace).reverse

/-- A row: its cells by stripped column name, and its label. -/
structure Row (Cell : Type) where
  cell : Name → Option Cell
  label : Option Name

/-- A file, as `read_csv` reads it. -/
structure Frame (Cell : Type) where
  columns : List Name
  rows : List (Row Cell)

/-- A file and its entry in `FEATURE_COLS`. -/
structure Dataset (Cell : Type) where
  featureCols : List Name
  df : Frame Cell

-- ================================================================ settings

/-- `FEATURE_IDX` and `len(FEATURE_NAMES)`. -/
structure Config where
  featureIdx : List (Name × Nat)
  featureNb : Nat

/-- `FEATURE_IDX` and `FEATURE_NAMES` as shipped. -/
def Config.shipped : Config where
  featureIdx := [("src_port".toList, 0), ("dst_port".toList, 1),
    ("protocol".toList, 2), ("fwd_segment_size".toList, 3),
    ("Source Port".toList, 0), ("Destination Port".toList, 1),
    ("Protocol".toList, 2), ("Fwd Packet Length".toList, 3)]
  featureNb := 4

/-- `FEATURE_COLS` of the project's own captures. -/
def selfCols : List Name :=
  ["src_port".toList, "dst_port".toList, "protocol".toList,
    "fwd_segment_size_mean".toList, "fwd_segment_size_std".toList]

/-- `FEATURE_COLS` of the CICDDoS2019 files. -/
def cicCols : List Name :=
  ["Source Port".toList, "Destination Port".toList, "Protocol".toList,
    "Fwd Packet Length_mean".toList, "Fwd Packet Length_std".toList]

/-- `LABEL_COL`. -/
def labelCol : Name := "Label".toList

/-- `BENIGN_LABEL`. -/
def benignLabel : Name := "BENIGN".toList

-- ================================================================ libraries

/-- What `load_datasets` uses of numpy and pandas. -/
structure Numpy (Cell Value : Type) where
  /-- `astype(np.int32)` of one cell, stored as a float. -/
  int32 : Option Cell → Option Value
  /-- A value the normal law of a mean and a deviation can take. -/
  Drawn : Option Cell → Option Cell → Value → Prop
  /-- The `j`-th call of `np.random.normal`. -/
  normal : Nat → List (Option Cell × Option Cell) → Option (List Value)
  /-- `np.random.choice(pool, k, replace=False)`. -/
  choice : List Nat → Nat → List Nat
  normal_drawn : ∀ j args zs, normal j args = some zs →
    List.Forall₂ (fun a z => Drawn a.1 a.2 z) args zs
  choice_chosen : ∀ pool k, k ≤ pool.length → pool.Nodup →
    (choice pool k).Nodup ∧ choice pool k ⊆ pool
      ∧ (choice pool k).length = k

/-- What `load_datasets` can raise. -/
inductive LoadError where
  /-- The explicit `ValueError`. -/
  | missing (columns : List Name)
  | keyError
  | indexError
  /-- From a conversion, a draw or an empty `hstack`. -/
  | valueError
deriving DecidableEq, Repr

-- ========================================================== feature columns

/-- `s.replace(pattern, "")` of a nonempty pattern, with `skip`
characters of a match still to drop. -/
def removeAll (pattern : Name) : Nat → Name → Name
  | _, [] => []
  | skip + 1, _ :: cs => removeAll pattern skip cs
  | 0, c :: cs =>
      if pattern <+: c :: cs then removeAll pattern (pattern.length - 1) cs
      else c :: removeAll pattern 0 cs

/-- The column's name without its statistical suffix. -/
def baseFeatName (col : Name) : Name :=
  match ["_mean".toList, "_std".toList, "_skew".toList].find? fun suffix =>
      suffix <:+: col with
  | some suffix => strip (removeAll suffix 0 col)
  | none => col

/-- The first key of `FEATURE_IDX` that contains the base name or is
contained in it. -/
def matchingFeat (cfg : Config) (col : Name) : Option (Name × Nat) :=
  cfg.featureIdx.find? fun key =>
    key.1 <:+: baseFeatName col || baseFeatName col <:+: key.1

variable {Cell Value : Type} [LinearOrder Value] [Zero Value]

/-- `Xi[feature_idx, :] = values`. -/
def assign (Xi : List (List Value)) (featureIdx : Nat)
    (values : Option (List Value)) : Except LoadError (List (List Value)) :=
  match values with
  | none => .error .valueError
  | some xs =>
      if featureIdx < Xi.length then .ok (Xi.set featureIdx xs)
      else .error .indexError

/-- The reconstruction: `normal` on the feature's mean and deviation
columns, negative values raised to 0. -/
def reconstruct (np : Numpy Cell Value) (columns : List Name)
    (rows : List (Row Cell)) (Xi : List (List Value)) (j : Nat)
    (feat : Name × Nat) : Except LoadError (List (List Value)) :=
  let stdCol := feat.1 ++ "_std".toList
  let meanCol := feat.1 ++ "_mean".toList
  if columns.contains meanCol && columns.contains stdCol then
    assign Xi feat.2
      ((np.normal j (rows.map fun r => (r.cell meanCol, r.cell stdCol))).map
        fun zs => zs.map fun z => max z 0)
  else .error .keyError

/-- The body of `for feat_name_csv in FEATURE_COLS[i_p]`. -/
def fillColumn (np : Numpy Cell Value) (cfg : Config) (columns : List Name)
    (rows : List (Row Cell)) (Xi : List (List Value)) (col : Name × Nat) :
    Except LoadError (List (List Value)) :=
  match cfg.featureIdx.lookup col.1 with
  | some featureIdx =>
      assign Xi featureIdx (rows.mapM fun r => np.int32 (r.cell col.1))
  | none =>
      match matchingFeat cfg col.1 with
      | none => .error .keyError
      | some feat =>
          match Xi[feat.2]?.bind fun xs => xs[0]? with
          | none => .error .indexError
          | some x =>
              -- the feature is new, or its first sample was drawn as 0
              if x = 0 then reconstruct np columns rows Xi col.2 feat
              else .ok Xi

-- =================================================================== labels

/-- `dropna` keeps the row. -/
def Row.complete (featureCols : List Name) (r : Row Cell) : Bool :=
  featureCols.all (fun c => (r.cell c).isSome) && r.label.isSome

/-- 0 benign, 1 malicious. -/
def Row.y (r : Row Cell) : Nat :=
  if strip (r.label.getD []) ≠ benignLabel then 1 else 0

/-- The rows `load_datasets` works on. -/
def Dataset.rows (d : Dataset Cell) : List (Row Cell) :=
  d.df.rows.filter (Row.complete d.featureCols)

/-- The removal of randomly chosen malicious samples. -/
def balance (choice : List Nat → Nat → List Nat) (Xi : List (List Value))
    (yi : List Nat) : List (List Value) × List Nat :=
  let nben := yi.count 0
  let nmal := yi.count 1
  let maxMalicious := nben * 10
  if maxMalicious < nmal then
    let malIndices := positions (· == 1) yi
    let toRemove := choice malIndices (nmal - maxMalicious)
    let mask := keepMask yi.length toRemove
    (Xi.map (masked mask), masked mask yi)
  else (Xi, yi)

-- =============================================================== the loader

/-- One file's `Xi` and `yi`. -/
def loadOne (np : Numpy Cell Value) (cfg : Config) (d : Dataset Cell) :
    Except LoadError (List (List Value) × List Nat) :=
  let columns := d.df.columns.map strip
  let missing := (d.featureCols ++ [labelCol]).filter fun c =>
    !columns.contains c
  if missing ≠ [] then .error (.missing missing)
  else do
    let zeros := List.replicate cfg.featureNb
      (List.replicate d.rows.length (0 : Value))
    let Xi ← d.featureCols.zipIdx.foldlM
      (fillColumn np cfg columns d.rows) zeros
    .ok (balance np.choice Xi (d.rows.map Row.y))

/-- `np.hstack`. -/
def hstack (featureNb : Nat) (Xs : List (List (List Value))) :
    List (List Value) :=
  (List.range featureNb).map fun f => Xs.flatMap fun Xi => Xi.getD f []

/-- `X.T`, of a matrix with `n` columns. -/
def transposed (n : Nat) (X : List (List Value)) : List (List Value) :=
  (List.range n).map fun k => X.map fun xs => xs.getD k 0

/-- `load_datasets`: the samples, each with a value for every feature, and
their labels. File `i` finds the random generator in its own state. -/
def loadDatasets (np : Nat → Numpy Cell Value) (cfg : Config)
    (datasets : List (Dataset Cell)) :
    Except LoadError (List (List Value) × List Nat) := do
  let parts ← datasets.zipIdx.mapM fun d => loadOne (np d.2) cfg d.1
  if parts = [] then .error .valueError
  else
    let y := parts.flatMap fun part => part.2
    let X := hstack cfg.featureNb (parts.map fun part => part.1)
    .ok (transposed y.length X, y)

end XdpIds.Training
