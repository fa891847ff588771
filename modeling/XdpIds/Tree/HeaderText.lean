/-
The generated headers as text: what main.py writes into dt_params.h and
dt_features.h, and what a C compiler reads there.

# Writing

`paramsText` and `featuresText` are the two files, character by
character. A row of the table carries a comment for the reader;
`passLeftShown` and `passRightShown` are the comment's two decisions as
the source computes them, where `>>` binds tighter than `&`, so both are
the lowest bit of the feature byte.

# Reading

`readParams` takes the comments out, cuts the rest into tokens and reads
the one declaration: its opening, a row per node, `};`. The two values of
a row are converted to the fields' types. `readFeatures` reads the bodies
of the two macros, `FEATURES` as a parenthesised `|` of macro names of
project_features.h.
-/
import XdpIds.Lib.CText
import XdpIds.Tree.Export

namespace XdpIds.Tree

open Text

-- ============================================================= hexadecimal

/-- `{n:02X}`. -/
def hex2 (n : Nat) : List Char :=
  ((Nat.toDigits 16 n).map Char.toUpper).leftpad 2 '0'

/-- A hexadecimal digit's value. -/
def hexDigit? (c : Char) : Option Nat :=
  if c.isDigit then some (c.toNat - '0'.toNat)
  else if 'A' ≤ c ∧ c ≤ 'F' then some (c.toNat - 'A'.toNat + 10)
  else if 'a' ≤ c ∧ c ≤ 'f' then some (c.toNat - 'a'.toNat + 10)
  else none

/-- A hexadecimal constant. -/
def hex? : List Char → Option Nat
  | '0' :: 'x' :: d :: ds =>
      (d :: ds).foldlM (fun n c => (hexDigit? c).map (16 * n + ·)) 0
  | _ => none

-- ============================================================ dt_params.h

/-- `feat & 0b10000000 >> 7`: the shift first. -/
def passLeftShown (feat : Nat) : Nat := feat &&& 0b10000000 >>> 7

/-- `feat & 0b01000000 >> 6`. -/
def passRightShown (feat : Nat) : Nat := feat &&& 0b01000000 >>> 6

/-- A row's comment. -/
def nodeComment (e : Entry) : List Char :=
  if e.featureByte &&& 0b00100000 = 0 then "leaf / undef".toList
  else
    "feat_id=".toList ++ decimal (e.featureByte &&& 0b00011111)
      ++ " thresh=".toList ++ integer e.threshold
      ++ " pass_left=".toList ++ decimal (passLeftShown e.featureByte)
      ++ " pass_right = ".toList ++ decimal (passRightShown e.featureByte)

/-- A row of the table up to its comment. -/
def nodeInit (e : Entry) : List Char :=
  "    \x7b .feature = 0x".toList ++ hex2 e.featureByte
    ++ ", .threshold = ".toList ++ integer e.threshold ++ " \x7d,  ".toList

/-- A row of the table, without its newline. -/
def nodeLine (i : Nat) (e : Entry) : List Char :=
  nodeInit e ++ "// [".toList ++ decimal i ++ "] ".toList ++ nodeComment e

/-- The rows from index `i` on. -/
def nodeLines : Nat → List Entry → List (List Char)
  | _, [] => []
  | i, e :: es => nodeLine i e :: nodeLines (i + 1) es

/-- The comment with the training report, if there is one. -/
def reportText (report : List Char) : List Char :=
  if report = [] then []
  else "/*\n".toList ++ report ++ "*/".toList

/-- The lines in front of the rows. -/
def paramsHead (maxNodes : Nat) : List (List Char) :=
  ["// Auto-generated by main.py.".toList,
    "// Include this file in dt_xdp.usr.c to load the decision tree.".toList,
    [], "//#define DT_NODE_NB ".toList ++ decimal maxNodes, [],
    "static struct dt_node trained_dt_nodes[] = \x7b".toList]

/-- dt_params.h. -/
def paramsText (maxNodes : Nat) (nodes : List Entry) (report : List Char) :
    List Char :=
  unlines (paramsHead maxNodes ++ nodeLines 0 nodes ++ ["\x7d;".toList])
    ++ reportText report

-- ========================================================== dt_features.h

/-- The feature's macro in project_features.h. -/
def macroName : Feature → List Char
  | .sPort => "F_S_PORT".toList
  | .dPort => "F_D_PORT".toList
  | .protocol => "F_PROTOCOL".toList
  | .pktSize => "F_PKT_SIZE".toList
  | .dIp => "F_D_IP".toList
  | .sIp => "F_S_IP".toList
  | .iatMean => "F_IAT_MEAN".toList
  | .iatTot => "F_IAT_TOT".toList
  | .iatStd => "F_IAT_STD".toList
  | .sizeMean => "F_SIZE_MEAN".toList
  | .sizeTot => "F_SIZE_TOT".toList
  | .sizeStd => "F_SIZE_STD".toList
  | .pktNb => "F_PKT_NB".toList
  | .iat => "F_IAT".toList

/-- dt_features.h. -/
def featuresText (featureNames : List Feature) : List Char :=
  unlines ["// Auto-generated by main.py.".toList,
    "// Include this file in dt_xdp.xdp.c to load the feature ".toList
      ++ "vector descriptor.".toList,
    [], "#define FEATURE_NB ".toList ++ decimal featureNames.length,
    "#define FEATURES (".toList
      ++ joined '|' (featureNames.map macroName) ++ [')']]

/-- What `DT_export_c_header` leaves in the two files. -/
structure HeaderFiles where
  params : List Char
  features : List Char

/-- `DT_export_c_header`, to the files. Nothing is written when the
export raises. -/
def writeHeaders (featureNames : List Feature) (sk : SkArrays)
    (maxDepth : ℤ) (report : List Char) :
    Option (Except ExportError HeaderFiles) :=
  (exportNodes sk maxDepth).map fun out =>
    out.map fun nodes =>
      ⟨paramsText (maxNodes maxDepth) nodes report,
        featuresText featureNames⟩

-- ================================================================= reading

/-- The tokens of a row that are the same in every row. -/
def rowShape : List (List Char) :=
  [['{'], ".feature".toList, "=".toList, ",".toList,
    ".threshold".toList, "=".toList, ['}'], ",".toList]

/-- The rows of the initialiser, and its end. -/
def readRows : List (List Char) → Option (List DtNode)
  | [close, semicolon] =>
      if [close, semicolon] = [['}'], ";".toList] then some [] else none
  | t₀ :: t₁ :: t₂ :: feature :: t₃ :: t₄ :: t₅ :: threshold :: t₆ :: t₇
      :: rest =>
      if [t₀, t₁, t₂, t₃, t₄, t₅, t₆, t₇] = rowShape then do
        let f ← hex? feature
        let t ← integer? threshold
        let nodes ← readRows rest
        some (⟨UInt32.ofInt t, UInt8.ofNat f⟩ :: nodes)
      else none
  | _ => none

/-- The declaration up to its first row. -/
def declaration : List (List Char) :=
  ["static".toList, "struct".toList, "dt_node".toList,
    "trained_dt_nodes".toList, "[".toList, "]".toList, "=".toList,
    ['{']]

/-- `trained_dt_nodes`, as dt_params.h defines it. -/
def readParams (text : List Char) : Option (List DtNode) :=
  (uncomment .code text).bind fun code =>
    if (tokens code).take declaration.length = declaration then
      readRows ((tokens code).drop declaration.length)
    else none

/-- The features project_features.h has a macro for. -/
def allFeatures : List Feature :=
  [.sPort, .dPort, .protocol, .pktSize, .dIp, .sIp, .iatMean, .iatTot,
    .iatStd, .sizeMean, .sizeTot, .sizeStd, .pktNb, .iat]

/-- The feature a macro name stands for. -/
def feature? (name : List Char) : Option Feature :=
  allFeatures.find? fun f => macroName f = name

/-- The names of a `|`, up to its closing parenthesis. -/
def readOr : List (List Char) → Option (List Feature)
  | [name, close] =>
      if close = ")".toList then (feature? name).map fun f => [f] else none
  | name :: bar :: rest =>
      if bar = "|".toList then
        (feature? name).bind fun f => (readOr rest).map (f :: ·)
      else none
  | _ => none

/-- The body of a macro: what follows its name on the line that defines
it. -/
def macroBody (name : List Char) (ls : List (List (List Char))) :
    Option (List (List Char)) :=
  ls.findSome? fun l =>
    match l with
    | directive :: name' :: body =>
        if directive = "#define".toList ∧ name' = name then some body
        else none
    | _ => none

/-- The build dt_features.h selects, with the macros' declared ids. -/
def readFeatures (text : List Char) : Option Build := do
  let code ← uncomment .code text
  let ls := (lines code).map tokens
  let nb ← macroBody "FEATURE_NB".toList ls
  let count ← decimal? (nb.headD [])
  let body ← macroBody "FEATURES".toList ls
  if body.headD [] = "(".toList then
    let names ← readOr body.tail
    some { Build.ofNames names with featureNb := count }
  else none

/-- Both files, as the compiler reads them. -/
def readHeaders (files : HeaderFiles) : Option Header :=
  (readParams files.params).bind fun nodes =>
    (readFeatures files.features).map fun build => ⟨nodes, build⟩

end XdpIds.Tree
