/-
The generated headers read back.

A row is cut into its ten tokens (`tokens_nodeInit`), the table into its
declaration, its rows and its end, whatever the report behind it is, as
long as no `*/` in it ends the comment early. `readHeaders_written` is
the round trip of one export, and what a compiler makes of the two files
is what `dtExportCHeader` says they stand for (`headers_read_back`).

`files_to_verdict` is the whole way from the trained tree to the kernel:
written, compiled in, copied, loaded and walked, the files give the
verdict of the exported tree. `shown_truly_iff` is about the comments.
-/
import XdpIds.Tree.HeaderText
import XdpIds.Tree.Proofs.Fits
import XdpIds.Tree.Proofs.Verdict

namespace XdpIds.Tree

open Text LevelOrder

-- ============================================================ feature bytes

/-- The two digits of `16 * high + low` read back, and are no blank,
punctuator or slash. -/
theorem hex2_digits : ∀ high low : Fin 16,
    hex? ('0' :: 'x' :: hex2 (16 * high + low)) = some (16 * high.val + low.val)
      ∧ (hex2 (16 * high + low)).all fun c =>
        !isBlank c && !isPunct c && c != '/' := by
  decide +kernel

theorem hex2_facts {n : Nat} (hn : n < 256) :
    hex? ('0' :: 'x' :: hex2 n) = some n
      ∧ ∀ c ∈ hex2 n, isBlank c = false ∧ isPunct c = false ∧ c ≠ '/' := by
  obtain ⟨hread, hall⟩ := hex2_digits ⟨n / 16, by omega⟩ ⟨n % 16, by omega⟩
  simp only [Nat.div_add_mod] at hread hall
  refine ⟨hread, fun c hc => ?_⟩
  have h := List.all_eq_true.mp hall c hc
  simpa [and_assoc] using h

/-- An entry whose byte is one. -/
def Entry.Fits (e : Entry) : Prop := e.featureByte < 256

theorem featureByte_lt (passLeft passRight : Bool) (i : ℤ) :
    featureByte passLeft passRight i < 256 := by
  have hi : (i % 32).toNat < 2 ^ 8 := by omega
  unfold featureByte
  refine Nat.or_lt_two_pow (n := 8) (Nat.or_lt_two_pow
    (Nat.or_lt_two_pow ?_ ?_) (by simp)) hi
  · cases passLeft <;> simp
  · cases passRight <;> simp

/-- Every exported entry's byte is one. -/
theorem exportNodes_fits {sk : SkArrays} {maxDepth : ℤ}
    {entries : List Entry}
    (h : exportNodes sk maxDepth = some (.ok entries)) :
    ∀ e ∈ entries, e.Fits := by
  obtain ⟨hlen, hspec⟩ := exportNodes_spec h
  intro e he
  obtain ⟨i, hi⟩ := List.mem_iff_getElem?.mp he
  have hlt : i < maxNodes maxDepth := by
    rw [← hlen]
    exact (List.getElem?_eq_some_iff.mp hi).1
  obtain ⟨hnode, hnone⟩ := hspec i hlt
  cases hocc : occ sk.next 0 i with
  | none =>
      obtain rfl := Option.some.inj (hi.symm.trans (hnone hocc))
      simp [Entry.Fits, Entry.empty]
  | some a =>
      obtain ⟨e', he', hentry⟩ := hnode a hocc
      obtain rfl := Option.some.inj (hi.symm.trans he')
      unfold SkArrays.entry at hentry
      split at hentry
      · obtain rfl := Except.ok.inj hentry
        simp [Entry.Fits, Entry.empty]
      · cases hth : npInt32 (quantise (sk.threshold a)) with
        | error err => rw [hth] at hentry; cases hentry
        | ok z =>
            rw [hth] at hentry
            obtain rfl := Except.ok.inj hentry
            exact featureByte_lt _ _ _

-- ==================================================================== rows

/-- The ten tokens of a row. -/
def rowTokens (e : Entry) : List (List Char) :=
  [['{'], ".feature".toList, "=".toList, '0' :: 'x' :: hex2 e.featureByte,
    ",".toList, ".threshold".toList, "=".toList, integer e.threshold, ['}'],
    ",".toList]

section Rows

variable {e : Entry}

/-- The pieces of a row, regrouped between its blanks. -/
theorem row_pieces (opening second closing byte threshold : List Char) :
    opening ++ [' ', '0', 'x'] ++ byte ++ (',' :: second ++ [' '])
        ++ threshold ++ ' ' :: closing
      = opening ++ ' ' :: (('0' :: 'x' :: byte)
        ++ ',' :: (second ++ ' ' :: (threshold ++ ' ' :: closing))) := by
  simp

theorem nodeInit_eq (e : Entry) :
    nodeInit e = "    \x7b .feature =".toList
      ++ ' ' :: (('0' :: 'x' :: hex2 e.featureByte)
      ++ ',' :: (" .threshold =".toList
      ++ ' ' :: (integer e.threshold ++ ' ' :: "\x7d,  ".toList))) := by
  have hfeature : "    \x7b .feature =".toList ++ [' ', '0', 'x']
      = "    \x7b .feature = 0x".toList := by decide
  have hthreshold : ',' :: " .threshold =".toList ++ [' ']
      = ", .threshold = ".toList := by decide
  have hclose : ' ' :: "\x7d,  ".toList = " \x7d,  ".toList := by decide
  refine Eq.trans ?_ (row_pieces _ _ _ _ _)
  rw [hfeature, hthreshold, hclose]
  rfl

theorem tokens_nodeInit (he : e.Fits) : tokens (nodeInit e) = rowTokens e := by
  have hhex := (hex2_facts he).2
  have hbyte : tokens ('0' :: 'x' :: hex2 e.featureByte)
      = ['0' :: 'x' :: hex2 e.featureByte] := by
    refine tokens_word (List.cons_ne_nil _ _) fun c hc => ?_
    rcases List.mem_cons.mp hc with rfl | hc
    · simp [isBlank, isPunct]
    rcases List.mem_cons.mp hc with rfl | hc
    · simp [isBlank, isPunct]
    exact ⟨(hhex c hc).1, (hhex c hc).2.1⟩
  have hopen : tokens "    \x7b .feature =".toList
      = [['{'], ".feature".toList, "=".toList] := by decide
  have hname : tokens " .threshold =".toList
      = [".threshold".toList, "=".toList] := by decide
  have hclose : tokens "\x7d,  ".toList = [['}'], ",".toList] := by decide
  rw [nodeInit_eq, tokens_blank rfl rfl, tokens_punct rfl rfl,
    tokens_blank rfl rfl, tokens_blank rfl rfl, hopen, hbyte, hname,
    tokens_integer, hclose]
  rfl

/-- One row reads as its node. -/
theorem readRows_row (he : e.Fits) (rest : List (List Char)) :
    readRows (rowTokens e ++ rest)
      = (readRows rest).map (e.toNode :: ·) := by
  have hbyte := (hex2_facts he).1
  show (if rowShape = rowShape then
      (hex? ('0' :: 'x' :: hex2 e.featureByte)).bind fun f =>
        (integer? (integer e.threshold)).bind fun t =>
          (readRows rest).bind fun nodes =>
            some (DtNode.mk (UInt32.ofInt t) (UInt8.ofNat f) :: nodes)
    else none) = _
  rw [if_pos rfl, hbyte, integer?_integer]
  cases readRows rest <;> rfl

theorem readRows_rowTokens {es : List Entry} (hes : ∀ e ∈ es, e.Fits) :
    readRows (es.flatMap rowTokens ++ [['}'], ";".toList])
      = some (es.map Entry.toNode) := by
  induction es with
  | nil => rfl
  | cons e es ih =>
      rw [List.flatMap_cons, List.append_assoc,
        readRows_row (hes e List.mem_cons_self),
        ih fun e' he' => hes e' (List.mem_cons_of_mem _ he')]
      rfl

/-- A comment stays on its row. -/
theorem newline_not_mem_nodeComment (e : Entry) :
    '\n' ∉ nodeComment e := by
  unfold nodeComment
  split
  · decide
  · intro h
    simp only [List.mem_append] at h
    rcases h with ((((((h | h) | h) | h) | h) | h) | h) | h
    · exact absurd h (by decide)
    · exact not_mem_decimal _ rfl h
    · exact absurd h (by decide)
    · exact not_mem_integer _ rfl (by simp) h
    · exact absurd h (by decide)
    · exact not_mem_decimal _ rfl h
    · exact absurd h (by decide)
    · exact not_mem_decimal _ rfl h

/-- A row's code is what stands before its comment. -/
theorem lineCode_nodeLine (i : Nat) (he : e.Fits) :
    LineCode (nodeLine i e) (nodeInit e) := by
  have hline : nodeLine i e = nodeInit e ++ '/' :: '/' :: (" [".toList
      ++ (decimal i ++ ("] ".toList ++ nodeComment e))) := by
    have hopen : "// [".toList = '/' :: '/' :: " [".toList := by decide
    unfold nodeLine
    simp only [List.append_assoc]
    rw [hopen]
    rfl
  rw [hline]
  apply lineCode_comment
  · unfold nodeInit
    have hbyte := (hex2_facts he).2
    intro h
    simp only [List.mem_append] at h
    rcases h with (((h | h) | h) | h) | h
    · exact absurd h (by decide)
    · exact (hbyte _ h).2.2 rfl
    · exact absurd h (by decide)
    · exact not_mem_integer _ rfl (by simp) h
    · exact absurd h (by decide)
  · intro h
    simp only [List.mem_append] at h
    rcases h with h | h | h | h
    · exact absurd h (by decide)
    · exact not_mem_decimal _ rfl h
    · exact absurd h (by decide)
    · exact newline_not_mem_nodeComment e h

end Rows

-- =============================================================== the table

/-- The report's comment leaves at most a blank. -/
theorem uncomment_report {report : List Char}
    (h : ¬ ['*', '/'] <:+: report) :
    ∃ code, uncomment .code (reportText report) = some code
      ∧ tokens code = [] := by
  unfold reportText
  split
  · exact ⟨[], rfl, rfl⟩
  · refine ⟨[' '], ?_, by decide⟩
    have hopen : "/*\n".toList = '/' :: '*' :: ['\n'] := by decide
    have hclose : "*/".toList = ['*', '/'] := by decide
    have hinside : ¬ ['*', '/'] <:+: '\n' :: report := by
      intro hin
      rcases List.infix_cons_iff.mp hin with hpre | hin
      · simp at hpre
      · exact h hin
    rw [hopen, hclose]
    show (uncomment .block (('\n' :: report) ++ '*' :: '/' :: [])).map _ = _
    rw [uncomment_block hinside]
    rfl

theorem lineCode_nodeLines {es : List Entry} (hes : ∀ e ∈ es, e.Fits)
    (i : Nat) :
    List.Forall₂ LineCode (nodeLines i es) (es.map nodeInit) := by
  induction es generalizing i with
  | nil => exact .nil
  | cons e es ih =>
      exact .cons (lineCode_nodeLine i (hes e List.mem_cons_self))
        (ih (fun e' he' => hes e' (List.mem_cons_of_mem _ he')) (i + 1))

/-- The code of the lines in front of the rows. -/
def headCode : List (List Char) :=
  [[], [], [], [], [], "static struct dt_node trained_dt_nodes[] = \x7b".toList]

theorem lineCode_head (maxNodes : Nat) :
    List.Forall₂ LineCode (paramsHead maxNodes) headCode := by
  refine .cons (lineCode_slashes (by decide))
    (.cons (lineCode_slashes (by decide)) (.cons (lineCode_plain (by decide))
      (.cons ?_ (.cons (lineCode_plain (by decide))
        (.cons (lineCode_plain (by decide)) .nil)))))
  have hopen : "//#define DT_NODE_NB ".toList
      = '/' :: '/' :: "#define DT_NODE_NB ".toList := by decide
  rw [hopen]
  apply lineCode_slashes
  intro h
  rcases List.mem_append.mp h with h | h
  · exact absurd h (by decide)
  · exact not_mem_decimal _ rfl h

/-- dt_params.h reads as the table it was written for, whatever the
report. -/
theorem readParams_paramsText {es : List Entry} (hes : ∀ e ∈ es, e.Fits)
    (maxNodes : Nat) {report : List Char}
    (hreport : ¬ ['*', '/'] <:+: report) :
    readParams (paramsText maxNodes es report)
      = some (es.map Entry.toNode) := by
  obtain ⟨tail, htail, hblank⟩ := uncomment_report hreport
  have hlines : List.Forall₂ LineCode
      (paramsHead maxNodes ++ nodeLines 0 es ++ ["\x7d;".toList])
      (headCode ++ es.map nodeInit ++ ["\x7d;".toList]) :=
    List.rel_append (List.rel_append (lineCode_head maxNodes)
      (lineCode_nodeLines hes 0)) (.cons (lineCode_plain (by decide)) .nil)
  have htokens : tokens (unlines
        (headCode ++ es.map nodeInit ++ ["\x7d;".toList]) ++ tail)
      = declaration ++ (es.flatMap rowTokens ++ [['}'], ";".toList]) := by
    have hhead : headCode.flatMap tokens = declaration := by decide
    have hrows : (es.map nodeInit).flatMap tokens = es.flatMap rowTokens := by
      rw [List.flatMap_map]
      apply List.flatMap_congr
      intro e he
      exact tokens_nodeInit (hes e he)
    have hend : ["\x7d;".toList].flatMap tokens = [['}'], ";".toList] := by
      decide
    rw [tokens_unlines, hblank, List.flatMap_append, List.flatMap_append,
      hhead, hrows, hend, List.append_nil, List.append_assoc]
  unfold readParams paramsText
  rw [uncomment_unlines hlines, htail, Option.map_some, Option.bind_some,
    htokens, List.take_left, if_pos rfl, List.drop_left,
    readRows_rowTokens hes]

-- ============================================================== the macros

/-- Every macro name is that feature's, and one token. -/
theorem macroName_facts (f : Feature) :
    feature? (macroName f) = some f ∧ tokens (macroName f) = [macroName f]
      ∧ '/' ∉ macroName f ∧ '\n' ∉ macroName f := by
  cases f <;> decide

/-- The tokens of a `|`. -/
def orTokens : List Feature → List (List Char)
  | [] => []
  | [f] => [macroName f]
  | f :: fs => macroName f :: "|".toList :: orTokens fs

theorem tokens_joined (names : List Feature) :
    tokens (joined '|' (names.map macroName)) = orTokens names := by
  induction names with
  | nil => rfl
  | cons f fs ih =>
      cases fs with
      | nil => exact (macroName_facts f).2.1
      | cons g gs =>
          show tokens (macroName f ++ '|' :: joined '|' ((g :: gs).map _)) = _
          rw [tokens_punct rfl rfl, (macroName_facts f).2.1, ih]
          rfl

theorem readOr_bar (f : Feature) {rest : List (List Char)}
    (hrest : rest ≠ []) :
    readOr (macroName f :: "|".toList :: rest)
      = (readOr rest).map (f :: ·) := by
  cases rest with
  | nil => exact absurd rfl hrest
  | cons t ts =>
      show (if "|".toList = "|".toList then
        (feature? (macroName f)).bind fun f => (readOr (t :: ts)).map (f :: ·)
        else none) = _
      rw [if_pos rfl, (macroName_facts f).1]
      rfl

theorem readOr_orTokens {names : List Feature} (hne : names ≠ []) :
    readOr (orTokens names ++ [")".toList]) = some names := by
  induction names with
  | nil => exact absurd rfl hne
  | cons f fs ih =>
      cases fs with
      | nil =>
          show (if ")".toList = ")".toList then
            (feature? (macroName f)).map fun f => [f] else none) = _
          rw [if_pos rfl, (macroName_facts f).1]
          rfl
      | cons g gs =>
          have hrest : orTokens (g :: gs) ++ [")".toList] ≠ [] := by simp
          show readOr (macroName f :: "|".toList
            :: (orTokens (g :: gs) ++ [")".toList])) = _
          rw [readOr_bar f hrest, ih (List.cons_ne_nil _ _)]
          rfl

/-- dt_features.h's lines of code. -/
def featuresCode (names : List Feature) : List (List Char) :=
  [[], [], [], "#define FEATURE_NB ".toList ++ decimal names.length,
    "#define FEATURES (".toList ++ joined '|' (names.map macroName) ++ [')']]

/-- The `|` stays on its line and opens no comment. -/
theorem not_mem_orText (names : List Feature) {c : Char}
    (hc : c = '/' ∨ c = '\n') : c ∉ joined '|' (names.map macroName) := by
  apply not_mem_joined
  · rcases hc with rfl | rfl <;> simp
  · intro w hw
    obtain ⟨f, -, rfl⟩ := List.mem_map.mp hw
    have hfacts := (macroName_facts f).2.2
    rcases hc with rfl | rfl
    · exact hfacts.1
    · exact hfacts.2

theorem not_mem_featuresCode (names : List Feature) {c : Char}
    (hc : c = '/' ∨ c = '\n') : ∀ l ∈ featuresCode names, c ∉ l := by
  have hlits : c ∉ "#define FEATURE_NB ".toList
      ∧ c ∉ "#define FEATURES (".toList ∧ c ∉ [')'] := by
    rcases hc with rfl | rfl <;> decide
  have hdigit : c.isDigit = false := by
    rcases hc with rfl | rfl <;> rfl
  intro l hl h
  simp only [featuresCode, List.mem_cons, List.not_mem_nil, or_false] at hl
  rcases hl with rfl | rfl | rfl | rfl | rfl
  · exact absurd h List.not_mem_nil
  · exact absurd h List.not_mem_nil
  · exact absurd h List.not_mem_nil
  · rcases List.mem_append.mp h with h | h
    · exact hlits.1 h
    · exact not_mem_decimal _ hdigit h
  · rcases List.mem_append.mp h with h | h
    · rcases List.mem_append.mp h with h | h
      · exact hlits.2.1 h
      · exact not_mem_orText names hc h
    · exact hlits.2.2 h

theorem uncomment_featuresText (names : List Feature) :
    uncomment .code (featuresText names)
      = some (unlines (featuresCode names)) := by
  have hslash := not_mem_featuresCode names (Or.inl rfl)
  have hlines : List.Forall₂ LineCode
      ["// Auto-generated by main.py.".toList,
        "// Include this file in dt_xdp.xdp.c to load the feature ".toList
          ++ "vector descriptor.".toList,
        [], "#define FEATURE_NB ".toList ++ decimal names.length,
        "#define FEATURES (".toList
          ++ joined '|' (names.map macroName) ++ [')']]
      (featuresCode names) := by
    refine .cons ?_ (.cons ?_ (.cons ?_ (.cons ?_ (.cons ?_ .nil))))
    · exact lineCode_slashes (by decide)
    · exact lineCode_slashes (by decide)
    · exact lineCode_plain List.not_mem_nil
    · exact lineCode_plain (hslash _ (by simp [featuresCode]))
    · exact lineCode_plain (hslash _ (by simp [featuresCode]))
  have h := @uncomment_unlines [] _ _ hlines
  rw [List.append_nil, uncomment.eq_1, Option.map_some,
    List.append_nil] at h
  exact h

/-- The tokens of the two macros' lines. -/
theorem tokens_featuresCode (names : List Feature) :
    (featuresCode names).map tokens = [[], [], [],
      ["#define".toList, "FEATURE_NB".toList, decimal names.length],
      "#define".toList :: "FEATURES".toList :: "(".toList
        :: (orTokens names ++ [")".toList])] := by
  have hnb : tokens ("#define FEATURE_NB ".toList ++ decimal names.length)
      = ["#define".toList, "FEATURE_NB".toList, decimal names.length] := by
    have hsplit : "#define FEATURE_NB ".toList
        = "#define FEATURE_NB".toList ++ [' '] := by decide
    have hmacro : tokens "#define FEATURE_NB".toList
        = ["#define".toList, "FEATURE_NB".toList] := by decide
    rw [hsplit, List.append_assoc, List.singleton_append,
      tokens_blank rfl rfl, tokens_decimal, hmacro]
    rfl
  have hor : tokens ("#define FEATURES (".toList
        ++ joined '|' (names.map macroName) ++ [')'])
      = "#define".toList :: "FEATURES".toList :: "(".toList
        :: (orTokens names ++ [")".toList]) := by
    have hsplit : "#define FEATURES (".toList
        = "#define FEATURES ".toList ++ ['('] := by decide
    have hmacro : tokens "#define FEATURES ".toList
        = ["#define".toList, "FEATURES".toList] := by decide
    rw [tokens_punct rfl rfl, hsplit, List.append_assoc,
      List.singleton_append, tokens_punct rfl rfl, hmacro, tokens_joined]
    rfl
  unfold featuresCode
  rw [List.map_cons, List.map_cons, List.map_cons, List.map_cons,
    List.map_cons, List.map_nil, hnb, hor]
  rfl

/-- dt_features.h reads as the build of its names. -/
theorem readFeatures_featuresText {names : List Feature} (hne : names ≠ []) :
    readFeatures (featuresText names) = some (Build.ofNames names) := by
  have hread : readFeatures (featuresText names)
      = (decimal? (decimal names.length)).bind fun count =>
        (readOr (orTokens names ++ [")".toList])).bind fun names =>
          some { Build.ofNames names with featureNb := count } := by
    unfold readFeatures
    rw [uncomment_featuresText, Option.bind_eq_bind, Option.bind_some,
      lines_unlines (not_mem_featuresCode names (Or.inr rfl)),
      tokens_featuresCode]
    rfl
  rw [hread, decimal?_decimal, readOr_orTokens hne]
  rfl

-- =============================================================== both files

section Files

variable {featureNames : List Feature} {report : List Char}

/-- The files of one export, read as a C compiler does. -/
theorem readHeaders_written {nodes : List Entry}
    (hnodes : ∀ e ∈ nodes, e.Fits) (maxNodes : Nat)
    (hne : featureNames ≠ []) (hreport : ¬ ['*', '/'] <:+: report) :
    readHeaders ⟨paramsText maxNodes nodes report, featuresText featureNames⟩
      = some ⟨nodes.map Entry.toNode, .ofNames featureNames⟩ := by
  unfold readHeaders
  rw [readParams_paramsText hnodes _ hreport, Option.bind_some,
    readFeatures_featuresText hne]
  rfl

/-- An export's files read back as what they stand for, report and all;
an export that raises writes neither. -/
theorem headers_read_back (sk : SkArrays) (maxDepth : ℤ)
    (hne : featureNames ≠ []) (hreport : ¬ ['*', '/'] <:+: report) :
    (writeHeaders featureNames sk maxDepth report).map
        (fun out => out.map readHeaders)
      = (dtExportCHeader featureNames sk maxDepth).map
        (fun out => out.map some) := by
  unfold writeHeaders dtExportCHeader
  rw [Option.map_map, Option.map_map]
  cases hnodes : exportNodes sk maxDepth with
  | none => rfl
  | some out =>
      cases out with
      | error err => rfl
      | ok nodes =>
          have hread := readHeaders_written (exportNodes_fits hnodes)
            (maxNodes maxDepth) hne hreport
          exact congrArg (fun header => some (Except.ok header)) hread

/-- The shipped selection, and a report with stars and slashes. -/
theorem headers_read_back_stump :
    (writeHeaders Feature.shipped (stump ⟨3, 1⟩ ⟨0, 2⟩).arrays 0
        "* / precision\n".toList).map
        (fun out => out.map readHeaders)
      = (dtExportCHeader Feature.shipped (stump ⟨3, 1⟩ ⟨0, 2⟩).arrays 0).map
        (fun out => out.map some) := by
  apply headers_read_back
  · simp [Feature.shipped]
  · decide

/-- From the trained tree to the kernel: the files exist, read back, copy
and load, and `classify_dt` on the loaded map says what the exported tree
says. Without an odd threshold, and where floats hold the values, that is
the prediction wherever the exported bits can carry it. -/
theorem files_to_verdict {clf : FittedTree} {predict : List UInt32 → Label}
    (hpredict : clf.PredictedBy predict) (hne : featureNames ≠ [])
    (hreport : ¬ ['*', '/'] <:+: report)
    (hsplits : clf.tree.All fun f t =>
      f < featureNames.length ∧ 0 ≤ t ∧ t < 2 ^ 31)
    (hnb : featureNames.length ≤ 32) (hdepth : clf.tree.depth ≤ 7) :
    ∃ files header map,
      writeHeaders featureNames clf.arrays (clf.tree.depth - 1) report
        = some (.ok files)
      ∧ readHeaders files = some header
      ∧ loadedMap DT_NODE_NB header.trainedDtNodes = some map
      ∧ ∀ fv : Vector UInt32 header.build.featureNb,
          classifyDt map fv = some (.ofBool (clf.exportedVerdict fv))
          ∧ ((clf.tree.All fun _ t => ¬ OddInteger t) → FloatExact fv →
              ((classifyDt map fv = some .pass
                  ↔ predict fv.toList = .benign)
                ↔ clf.Expressible fv)) := by
  have hrange : clf.tree.All fun _ t =>
      -(2 ^ 31) ≤ quantise t ∧ quantise t < 2 ^ 31 :=
    hsplits.mono fun f t h => by
      have hbounds := quantise_bounds h.2.1 h.2.2
      omega
  have hlow : -1 ≤ (clf.tree.depth : ℤ) - 1 := by omega
  obtain ⟨header, hexp⟩ := dtExportCHeader_ok clf featureNames hlow hrange
  have hfit : maxNodes ((clf.tree.depth : ℤ) - 1) ≤ DT_NODE_NB := by
    rw [maxNodes_main]
    exact (table_fits_iff _).mpr hdepth
  have hload := loadedMap_eq hexp hfit
  obtain ⟨out, hnodes, hout⟩ := Option.map_eq_some_iff.mp hexp
  cases out with
  | error err => cases hout
  | ok nodes =>
      obtain rfl := Except.ok.inj hout
      have hread := readHeaders_written (exportNodes_fits hnodes)
        (maxNodes ((clf.tree.depth : ℤ) - 1)) hne hreport
      refine ⟨_, _, _, ?_, hread, hload, ?_⟩
      · unfold writeHeaders
        rw [hnodes]
        rfl
      · intro fv
        have hverdict := classifyDt_exported fv hsplits hnb hdepth hexp hload
        refine ⟨hverdict, fun hodd hexact => ?_⟩
        rw [hverdict, hpredict fv hexact, ← exportedVerdict_predict hodd]
        cases clf.exportedVerdict fv <;> simp [Verdict.ofBool]

/-- A tree of one split at 5/2, and no report. -/
theorem files_to_verdict_stump :
    ∃ files header map,
      writeHeaders Feature.shipped (stump ⟨3, 1⟩ ⟨0, 2⟩).arrays
          ((stump ⟨3, 1⟩ ⟨0, 2⟩).tree.depth - 1) [] = some (.ok files)
      ∧ readHeaders files = some header
      ∧ loadedMap DT_NODE_NB header.trainedDtNodes = some map
      ∧ ∀ fv : Vector UInt32 header.build.featureNb, FloatExact fv →
          ((classifyDt map fv = some .pass
              ↔ (stump ⟨3, 1⟩ ⟨0, 2⟩).predictRow fv.toList = .benign)
            ↔ (stump ⟨3, 1⟩ ⟨0, 2⟩).Expressible fv) := by
  obtain ⟨files, header, map, hwrite, hread, hload, hverdict⟩ :=
    @files_to_verdict Feature.shipped [] (stump ⟨3, 1⟩ ⟨0, 2⟩) _
      (predictedBy_predictRow _) (by simp [Feature.shipped]) (by simp)
      (by norm_num [stump, DTree.All, Feature.shipped])
      (by simp [Feature.shipped]) (by simp [stump, DTree.depth])
  exact ⟨files, header, map, hwrite, hread, hload, fun fv hexact =>
    (hverdict fv).2 (stump_notOdd _ _) hexact⟩

end Files

-- ============================================================ the comments

/-- A split's comment with its feature, its threshold and two
decisions. -/
def splitComment (feature : Nat) (threshold : ℤ) (left right : Nat) :
    List Char :=
  "feat_id=".toList ++ decimal feature
    ++ " thresh=".toList ++ integer threshold
    ++ " pass_left=".toList ++ decimal left
    ++ " pass_right = ".toList ++ decimal right

theorem featureByte_shown : ∀ (f : Fin 32) (left right : Bool),
    featureByte left right (f : Nat) &&& 0b00100000 ≠ 0
      ∧ featureByte left right (f : Nat) &&& 0b00011111 = f
      ∧ passLeftShown (featureByte left right (f : Nat)) = f % 2
      ∧ passRightShown (featureByte left right (f : Nat)) = f % 2 := by
  decide +kernel

/-- Both decisions shown are the lowest bit of the feature index. -/
theorem nodeComment_split {f : Nat} {z : ℤ} {left right : Bool}
    (hf : f < 32) :
    nodeComment ⟨featureByte left right f, z⟩
      = splitComment f z (f % 2) (f % 2) := by
  obtain ⟨hdefined, hindex, hleft, hright⟩ :=
    featureByte_shown ⟨f, hf⟩ left right
  unfold nodeComment splitComment
  rw [if_neg hdefined, hindex, hleft, hright]

/-- Decisions of one digit are told apart by their comments. -/
theorem splitComment_inj {f : Nat} {z : ℤ} {b : Nat} (hb : b < 2)
    (left right : Bool) :
    splitComment f z b b = splitComment f z left.toNat right.toNat
      ↔ left.toNat = b ∧ right.toNat = b := by
  have hdigits : ∀ (b : Fin 2) (left right : Bool),
      decimal b ++ (" pass_right = ".toList ++ decimal b)
        = decimal left.toNat ++ (" pass_right = ".toList ++ decimal right.toNat)
      → left.toNat = b ∧ right.toNat = b := by decide +kernel
  constructor
  · intro h
    unfold splitComment at h
    simp only [List.append_assoc, List.append_cancel_left_eq] at h
    exact hdigits ⟨b, hb⟩ left right h
  · rintro ⟨rfl, h⟩
    rw [h]

theorem nodeLines_getElem? (es : List Entry) (i k : Nat) :
    (nodeLines i es)[k]? = es[k]?.map (nodeLine (i + k)) := by
  induction es generalizing i k with
  | nil => simp [nodeLines]
  | cons e es ih =>
      cases k with
      | zero => simp [nodeLines]
      | succ k =>
          rw [nodeLines, List.getElem?_cons_succ, ih,
            List.getElem?_cons_succ, Nat.add_right_comm, Nat.add_assoc]

theorem newline_not_mem_nodeLine (i : Nat) {e : Entry} (he : e.Fits) :
    '\n' ∉ nodeLine i e := by
  have hbyte := (hex2_facts he).2
  unfold nodeLine nodeInit
  intro h
  simp only [List.mem_append] at h
  rcases h with (((((((h | h) | h) | h) | h) | h) | h) | h) | h
  · exact absurd h (by decide)
  · cases (hbyte _ h).1
  · exact absurd h (by decide)
  · exact not_mem_integer _ rfl (by simp) h
  · exact absurd h (by decide)
  · exact absurd h (by decide)
  · exact not_mem_decimal _ rfl h
  · exact absurd h (by decide)
  · exact newline_not_mem_nodeComment e h

/-- The table's rows are the lines behind the first six. -/
theorem lines_paramsText {es : List Entry} (hes : ∀ e ∈ es, e.Fits)
    (maxNodes : Nat) (report : List Char) {k : Nat} {e : Entry}
    (hk : es[k]? = some e) :
    (lines (paramsText maxNodes es report))[6 + k]?
      = some (nodeLine k e) := by
  have hrow : (nodeLines 0 es)[k]? = some (nodeLine k e) := by
    rw [nodeLines_getElem?, hk, Nat.zero_add]
    rfl
  have hnewline : ∀ l ∈ paramsHead maxNodes ++ nodeLines 0 es
      ++ ["\x7d;".toList], '\n' ∉ l := by
    intro l hl
    rcases List.mem_append.mp hl with hl | hl
    · rcases List.mem_append.mp hl with hl | hl
      · simp only [paramsHead, List.mem_cons, List.not_mem_nil,
          or_false] at hl
        rcases hl with rfl | rfl | rfl | rfl | rfl | rfl
        · decide
        · decide
        · decide
        · intro h
          rcases List.mem_append.mp h with h | h
          · exact absurd h (by decide)
          · exact not_mem_decimal _ rfl h
        · decide
        · decide
      · obtain ⟨j, hj⟩ := List.mem_iff_getElem?.mp hl
        rw [nodeLines_getElem?] at hj
        obtain ⟨e', he', rfl⟩ := Option.map_eq_some_iff.mp hj
        exact newline_not_mem_nodeLine _ (hes e' (List.mem_of_getElem? he'))
    · rw [List.mem_singleton.mp hl]
      decide
  have hlen : (paramsHead maxNodes).length = 6 := rfl
  unfold paramsText
  rw [lines_append hnewline, List.append_assoc, List.append_assoc,
    List.getElem?_append_right (by omega), hlen, Nat.add_sub_cancel_left,
    List.getElem?_append_left (List.getElem?_eq_some_iff.mp hrow).1, hrow]

/-- The entry exported for the subtree at a path. -/
theorem exportNodes_follow {clf : FittedTree} {maxDepth : ℤ}
    {nodes : List Entry} {p : List Bool} {s : DTree}
    (hnodes : exportNodes clf.arrays maxDepth = some (.ok nodes))
    (hs : follow DTree.next clf.tree p = some s)
    (hp : pos p < maxNodes maxDepth) : nodes[pos p]? = some s.entry := by
  have hrel := occ_stored clf.stored (pos p)
  have htree : occ DTree.next clf.tree (pos p) = some s :=
    (occ_pos p).trans hs
  rw [htree] at hrel
  cases hocc : occ clf.arrays.next 0 (pos p) with
  | none => rw [hocc] at hrel; cases hrel
  | some a =>
      rw [hocc] at hrel
      cases hrel with
      | some hstored =>
          obtain ⟨e, he, hentry⟩ :=
            ((exportNodes_spec hnodes).2 _ hp).1 a hocc
          rw [he, entry_stored hstored hentry]

/-- The comments, read. Every exported split's line names its feature and
its exported threshold, and shows for both sides the parity of the
feature: it is the comment of the exported decisions only when both are
that parity. -/
theorem shown_truly_iff {clf : FittedTree} {featureNames : List Feature}
    {maxDepth : ℤ} {report : List Char} {files : HeaderFiles}
    {p : List Bool} {f : Nat} {t : ℚ} {v : Values} {l r : DTree}
    (hwrite : writeHeaders featureNames clf.arrays maxDepth report
      = some (.ok files))
    (hsplit : follow DTree.next clf.tree p = some (.node f t v l r))
    (hp : pos p < maxNodes maxDepth) (hf : f < 32) :
    (lines files.params)[6 + pos p]?
        = some (nodeInit (DTree.node f t v l r).entry ++ "// [".toList
          ++ decimal (pos p) ++ "] ".toList
          ++ splitComment f (quantise t) (f % 2) (f % 2))
      ∧ (splitComment f (quantise t) (f % 2) (f % 2)
          = splitComment f (quantise t) l.value.passes.toNat
              r.value.passes.toNat
        ↔ l.value.passes.toNat = f % 2 ∧ r.value.passes.toNat = f % 2) := by
  refine ⟨?_, splitComment_inj (Nat.mod_lt _ (by simp)) _ _⟩
  obtain ⟨out, hnodes, hout⟩ := Option.map_eq_some_iff.mp hwrite
  cases out with
  | error err => cases hout
  | ok nodes =>
      obtain rfl := Except.ok.inj hout
      have hentry := exportNodes_follow hnodes hsplit hp
      have hline := lines_paramsText (exportNodes_fits hnodes)
        (maxNodes maxDepth) report hentry
      rw [← @nodeComment_split f _ l.value.passes r.value.passes hf]
      exact hline

/-- A split on feature 3 that passes left and drops right is shown to
pass on both sides. -/
theorem shown_truly_iff_stump :
    ∃ files, writeHeaders Feature.shipped (stump ⟨3, 1⟩ ⟨0, 2⟩).arrays 0 []
        = some (.ok files)
      ∧ (lines files.params)[6]?
        = some (nodeInit (stump ⟨3, 1⟩ ⟨0, 2⟩).tree.entry ++ "// [".toList
          ++ decimal 0 ++ "] ".toList ++ splitComment 3 (quantise (5 / 2)) 1 1)
      ∧ splitComment 3 (quantise (5 / 2)) 1 1
        ≠ splitComment 3 (quantise (5 / 2)) 1 0 := by
  have hrange : (stump ⟨3, 1⟩ ⟨0, 2⟩).tree.All fun _ t =>
      -(2 ^ 31) ≤ quantise t ∧ quantise t < 2 ^ 31 := by
    have h := @quantise_bounds (5 / 2) (by norm_num) (by norm_num)
    exact ⟨⟨by omega, h.2⟩, trivial, trivial⟩
  obtain ⟨header, hexp⟩ := @dtExportCHeader_ok _ 0 Feature.shipped (by simp)
    hrange
  obtain ⟨out, hnodes, hout⟩ := Option.map_eq_some_iff.mp hexp
  cases out with
  | error err => cases hout
  | ok nodes =>
      have hwrite : writeHeaders Feature.shipped
          (stump ⟨3, 1⟩ ⟨0, 2⟩).arrays 0 []
          = some (.ok ⟨paramsText (maxNodes 0) nodes [],
            featuresText Feature.shipped⟩) := by
        unfold writeHeaders
        rw [hnodes]
        rfl
      obtain ⟨hline, htrue⟩ := shown_truly_iff (p := []) hwrite
        (rfl : follow DTree.next (stump ⟨3, 1⟩ ⟨0, 2⟩).tree [] = some _)
        (by simp [maxNodes]) (by simp)
      refine ⟨_, hwrite, hline, fun h => ?_⟩
      have hboth := htrue.mp h
      norm_num [DTree.value, Values.passes] at hboth

end XdpIds.Tree
