/-
The surface of C text: comments taken out, what is left cut into tokens.

`uncomment` is the phase that takes the comments out. A line comment
ends before its newline, a block comment counts as one blank, and a text
that ends inside a block comment is no C text. String literals and line
splices are not read: a text with either is outside this fragment.

`tokens` cuts at blanks and makes every punctuator a token of its own.
It cuts a text in two wherever a blank or a punctuator stands
(`tokens_blank`, `tokens_punct`), so a line is read from its pieces.
-/
import XdpIds.Lib.Text

namespace XdpIds.Text

-- ================================================================ comments

/-- What the reader is inside of. -/
inductive Mode where
  | code
  | line
  | block

/-- The text without its comments. -/
def uncomment : Mode → List Char → Option (List Char)
  | .code, [] => some []
  | .code, '/' :: '/' :: cs => uncomment .line cs
  | .code, '/' :: '*' :: cs => (uncomment .block cs).map (' ' :: ·)
  | .code, c :: cs => (uncomment .code cs).map (c :: ·)
  | .line, [] => some []
  | .line, '\n' :: cs => (uncomment .code cs).map ('\n' :: ·)
  | .line, _ :: cs => uncomment .line cs
  | .block, [] => none
  | .block, '*' :: '/' :: cs => uncomment .code cs
  | .block, _ :: cs => uncomment .block cs

section Comments

variable {s rest : List Char}

/-- Text without a slash is code. -/
theorem uncomment_code (h : '/' ∉ s) :
    uncomment .code (s ++ rest) = (uncomment .code rest).map (s ++ ·) := by
  induction s with
  | nil => simp
  | cons c s ih =>
      have hc : c ≠ '/' := fun hc => h (hc ▸ List.mem_cons_self)
      have hs : '/' ∉ s := fun hs => h (List.mem_cons_of_mem _ hs)
      rw [List.cons_append, uncomment.eq_4 c _ (fun _ hc' => absurd hc' hc)
        (fun _ hc' => absurd hc' hc), ih hs, Option.map_map]
      rfl

/-- A line comment's text is dropped, its newline is not. -/
theorem uncomment_line (h : '\n' ∉ s) :
    uncomment .line (s ++ '\n' :: rest)
      = (uncomment .code rest).map ('\n' :: ·) := by
  induction s with
  | nil => rfl
  | cons c s ih =>
      have hc : c ≠ '\n' := fun hc => h (hc ▸ List.mem_cons_self)
      have hs : '\n' ∉ s := fun hs => h (List.mem_cons_of_mem _ hs)
      rw [List.cons_append, uncomment.eq_7 c _ hc, ih hs]

/-- A block comment ends at the first `*/`. -/
theorem uncomment_block (h : ¬ ['*', '/'] <:+: s) :
    uncomment .block (s ++ '*' :: '/' :: rest) = uncomment .code rest := by
  induction s with
  | nil => rfl
  | cons c s ih =>
      have hs : ¬ ['*', '/'] <:+: s := fun hs =>
        h (hs.trans (List.suffix_cons c s).isInfix)
      -- the comment cannot end at this character
      have hopen : ∀ cs, c = '*' →
          s ++ '*' :: '/' :: rest = '/' :: cs → False := by
        intro cs hc heq
        cases s with
        | nil => simp at heq
        | cons d s =>
            have hd : d = '/' := (List.cons.inj heq).1
            apply h
            rw [hc, hd]
            exact (List.prefix_append ['*', '/'] s).isInfix
      rw [List.cons_append, uncomment.eq_10 c _ hopen, ih hs]

/-- What is left of a line, wherever it stands. -/
def LineCode (l code : List Char) : Prop :=
  ∀ rest, uncomment .code (l ++ '\n' :: rest)
    = (uncomment .code rest).map fun cs => code ++ '\n' :: cs

/-- A line without a slash is all code. -/
theorem lineCode_plain {l : List Char} (h : '/' ∉ l) : LineCode l l := by
  intro rest
  rw [uncomment_code h, uncomment.eq_4 '\n' _ (by simp) (by simp),
    Option.map_map]
  rfl

theorem lineCode_comment {code : List Char} (hcode : '/' ∉ code)
    (hs : '\n' ∉ s) : LineCode (code ++ '/' :: '/' :: s) code := by
  intro rest
  rw [List.append_assoc, uncomment_code hcode]
  show (uncomment .line (s ++ '\n' :: rest)).map _ = _
  rw [uncomment_line hs, Option.map_map]
  rfl

theorem lineCode_slashes (hs : '\n' ∉ s) :
    LineCode ('/' :: '/' :: s) [] := lineCode_comment List.not_mem_nil hs

/-- Lines are taken one at a time. -/
theorem uncomment_unlines {ls codes : List (List Char)}
    (h : List.Forall₂ LineCode ls codes) :
    uncomment .code (unlines ls ++ rest)
      = (uncomment .code rest).map (unlines codes ++ ·) := by
  induction h with
  | nil => simp [unlines]
  | @cons l code ls codes hl _ ih =>
      rw [unlines_cons, List.append_assoc, List.cons_append, hl, ih,
        Option.map_map]
      simp [unlines_cons, Function.comp_def]

end Comments

-- ================================================================== tokens

/-- Blanks. -/
def isBlank (c : Char) : Bool := c = ' ' || c = '\n'

/-- The punctuators of declarations, initialisers and macro bodies. -/
def isPunct (c : Char) : Bool :=
  ['{', '}', '[', ']', '(', ')', '=', ',', ';', '|'].contains c

/-- A character, set off if it is a punctuator. -/
def spaced (c : Char) : List Char :=
  if isPunct c then [' ', c, ' '] else [c]

/-- The words and the punctuators of a text, in order. -/
def tokens (text : List Char) : List (List Char) :=
  words isBlank (text.flatMap spaced)

section Tokens

variable {xs ys f : List Char} {c : Char}

theorem words_append {isSep : Char → Bool} (hc : isSep c = true) :
    words isSep (xs ++ c :: ys) = words isSep xs ++ words isSep ys := by
  unfold words
  rw [List.splitOnP_append_cons _ _ hc, List.filter_append]

/-- A blank cuts the text. -/
theorem tokens_blank (hc : isBlank c = true) (hp : isPunct c = false) :
    tokens (xs ++ c :: ys) = tokens xs ++ tokens ys := by
  unfold tokens
  rw [List.flatMap_append, List.flatMap_cons, spaced, hp]
  exact words_append hc

/-- A punctuator cuts the text and stays. -/
theorem tokens_punct (hp : isPunct c = true) (hc : isBlank c = false) :
    tokens (xs ++ c :: ys) = tokens xs ++ [c] :: tokens ys := by
  have hword : IsWord isBlank [c] := by
    refine ⟨List.cons_ne_nil _ _, fun d hd => ?_⟩
    rw [List.mem_singleton.mp hd, hc]
  unfold tokens
  rw [List.flatMap_append, List.flatMap_cons, spaced, if_pos hp]
  show words isBlank (_ ++ ' ' :: ([c] ++ ' ' :: ys.flatMap spaced)) = _
  rw [words_append rfl, words_cons hword rfl]

theorem tokens_unlines {ls : List (List Char)} :
    tokens (unlines ls ++ xs) = ls.flatMap tokens ++ tokens xs := by
  induction ls with
  | nil => rfl
  | cons l ls ih =>
      rw [unlines_cons, List.append_assoc, List.cons_append,
        tokens_blank rfl rfl, ih, List.flatMap_cons, List.append_assoc]

/-- A word without a blank or a punctuator is one token. -/
theorem tokens_word (hne : f ≠ [])
    (h : ∀ c ∈ f, isBlank c = false ∧ isPunct c = false) :
    tokens f = [f] := by
  have hspaced : f.flatMap spaced = f.flatMap fun c => [c] := by
    apply List.flatMap_congr
    intro c hc
    rw [spaced, (h c hc).2]
    rfl
  unfold tokens
  rw [hspaced, List.flatMap_singleton']
  exact words_last ⟨hne, fun c hc => (h c hc).1⟩

/-- No blank or punctuator is in a number. -/
theorem sep_not_number (h : isBlank c = true ∨ isPunct c = true) :
    c.isDigit = false ∧ c ≠ '-' := by
  simp only [isBlank, isPunct, Bool.or_eq_true, decide_eq_true_eq,
    List.contains_eq_mem, List.mem_cons, List.not_mem_nil, or_false] at h
  rcases h with (rfl | rfl) | (rfl | rfl | rfl | rfl | rfl | rfl | rfl | rfl
    | rfl | rfl) <;> simp

@[simp] theorem tokens_integer (z : Int) :
    tokens (integer z) = [integer z] := by
  apply tokens_word (integer_ne_nil z)
  intro c hc
  have hno : ¬ (isBlank c = true ∨ isPunct c = true) := fun h =>
    not_mem_integer z (sep_not_number h).1 (sep_not_number h).2 hc
  simpa using hno

@[simp] theorem tokens_decimal (n : Nat) : tokens (decimal n) = [decimal n] :=
  tokens_integer (.ofNat n)

end Tokens

end XdpIds.Text
