/-
Text that programs print and other programs read back: numbers in
decimal, lines, separated fields, padded cells, and tables of them.

Each notation is a writer, a reader, and the fact that the reader undoes
the writer on what does not contain the writer's separators. Numbers
never do (`not_mem_decimal`), so a table of numbers can be read back
whatever the numbers are.

A `Table` is rectangular by construction; `readTable` gives one only for
lines of as many fields as the first, which is its header, and `column`
finds a column by its name.
-/
import Mathlib.Data.List.Basic

namespace XdpIds.Text

-- ================================================================== numbers

/-- `%d` of a nonnegative value, or `%u`. -/
def decimal (n : Nat) : List Char := Nat.toDigits 10 n

/-- A number from its digits. -/
def decimal? (cs : List Char) : Option Nat :=
  if cs ≠ [] ∧ cs.all Char.isDigit then some (Nat.ofDigitChars 10 cs 0)
  else none

theorem isDigit_of_mem_decimal {n : Nat} {c : Char} (h : c ∈ decimal n) :
    c.isDigit = true :=
  Nat.isDigit_of_mem_toDigits (by decide) (by decide) h

/-- No separator is in a number. -/
theorem not_mem_decimal {c : Char} (n : Nat) (hc : c.isDigit = false) :
    c ∉ decimal n := by
  intro h
  rw [isDigit_of_mem_decimal h] at hc
  cases hc

theorem decimal_ne_nil (n : Nat) : decimal n ≠ [] := Nat.toDigits_ne_nil

@[simp] theorem decimal?_decimal (n : Nat) : decimal? (decimal n) = some n := by
  have hdigits : (decimal n).all Char.isDigit = true :=
    List.all_eq_true.mpr fun c hc => isDigit_of_mem_decimal hc
  rw [decimal?, if_pos ⟨decimal_ne_nil n, hdigits⟩]
  exact congrArg some Nat.ofDigitChars_ten_toDigits

/-- A column of numbers. -/
theorem mapM_decimal? (ns : List Nat) :
    (ns.map decimal).mapM decimal? = some ns := by
  induction ns with
  | nil => rfl
  | cons n ns ih =>
      rw [List.map_cons, List.mapM_cons, decimal?_decimal, ih]
      rfl

/-- `%d`. -/
def integer : Int → List Char
  | .ofNat n => decimal n
  | .negSucc n => '-' :: decimal (n + 1)

/-- An integer from its sign and digits. -/
def integer? : List Char → Option Int
  | [] => none
  | c :: cs =>
      if c = '-' then (decimal? cs).map fun n => -(n : Int)
      else (decimal? (c :: cs)).map Int.ofNat

@[simp] theorem integer?_integer (z : Int) : integer? (integer z) = some z := by
  cases z with
  | negSucc n =>
      rw [integer, integer?, if_pos rfl, decimal?_decimal]
      rfl
  | ofNat n =>
      have hread := decimal?_decimal n
      rw [integer]
      cases hdigits : decimal n with
      | nil => exact absurd hdigits (decimal_ne_nil n)
      | cons c cs =>
          have hc : c ≠ '-' := by
            rintro rfl
            have hmem : '-' ∈ decimal n := hdigits ▸ List.mem_cons_self
            exact not_mem_decimal n rfl hmem
          rw [integer?, if_neg hc, ← hdigits, hread]
          rfl

theorem not_mem_integer {c : Char} (z : Int) (hc : c.isDigit = false)
    (hsign : c ≠ '-') : c ∉ integer z := by
  cases z with
  | ofNat n => exact not_mem_decimal n hc
  | negSucc n =>
      intro h
      rcases List.mem_cons.mp h with h | h
      · exact hsign h
      · exact not_mem_decimal _ hc h

theorem integer_ne_nil (z : Int) : integer z ≠ [] := by
  cases z with
  | ofNat n => exact decimal_ne_nil n
  | negSucc n => exact List.cons_ne_nil _ _

-- ==================================================================== lines

/-- Every line and its newline. -/
def unlines (ls : List (List Char)) : List Char := ls.flatMap (· ++ ['\n'])

/-- The lines of a text that ends with a newline. -/
def lines (text : List Char) : List (List Char) :=
  (text.splitOn '\n').dropLast

theorem unlines_cons (l : List Char) (ls : List (List Char)) :
    unlines (l :: ls) = l ++ '\n' :: unlines ls := by
  simp [unlines]

theorem lines_cons {l : List Char} (hl : '\n' ∉ l) (rest : List Char) :
    lines (l ++ '\n' :: rest) = l :: lines rest := by
  unfold lines
  rw [List.splitOn_append_cons_self_of_not_mem hl,
    List.dropLast_cons_of_ne_nil (List.splitOn_ne_nil _ _)]

theorem lines_append {ls : List (List Char)} (h : ∀ l ∈ ls, '\n' ∉ l)
    (rest : List Char) : lines (unlines ls ++ rest) = ls ++ lines rest := by
  induction ls with
  | nil => rfl
  | cons l ls ih =>
      rw [unlines_cons, List.append_assoc, List.cons_append,
        lines_cons (h l List.mem_cons_self),
        ih fun l' hl' => h l' (List.mem_cons_of_mem _ hl')]
      rfl

theorem lines_unlines {ls : List (List Char)} (h : ∀ l ∈ ls, '\n' ∉ l) :
    lines (unlines ls) = ls := by
  have happend := lines_append h []
  rw [List.append_nil] at happend
  rw [happend]
  exact List.append_nil ls

-- =================================================================== fields

/-- Fields with a separator between them. -/
def joined (sep : Char) (fields : List (List Char)) : List Char :=
  match fields with
  | [] => []
  | [f] => f
  | f :: fs => f ++ sep :: joined sep fs

theorem joined_eq (sep : Char) (fields : List (List Char)) :
    joined sep fields = [sep].intercalate fields := by
  induction fields with
  | nil => rfl
  | cons f fs ih =>
      cases fs with
      | nil => simp [joined]
      | cons g gs =>
          rw [joined, ih, List.intercalate_cons_cons]
          · simp
          · simp

theorem splitOn_joined {sep : Char} {fields : List (List Char)}
    (hne : fields ≠ []) (h : ∀ f ∈ fields, sep ∉ f) :
    (joined sep fields).splitOn sep = fields := by
  rw [joined_eq, List.splitOn_intercalate sep h hne]

/-- What is in no field and is not the separator is not in the line. -/
theorem not_mem_joined {sep c : Char} {fields : List (List Char)}
    (hsep : c ≠ sep) (h : ∀ f ∈ fields, c ∉ f) : c ∉ joined sep fields := by
  induction fields with
  | nil => exact List.not_mem_nil
  | cons f fs ih =>
      have hf := h f List.mem_cons_self
      have hfs := ih fun g hg => h g (List.mem_cons_of_mem _ hg)
      cases fs with
      | nil => exact hf
      | cons g gs =>
          intro hc
          rcases List.mem_append.mp hc with hc | hc
          · exact hf hc
          · exact (List.mem_cons.mp hc).elim hsep hfs

-- =================================================================== tables

/-- A header and rows of as many fields. -/
structure Table where
  header : List (List Char)
  rows : List (List (List Char))
  rows_length : ∀ row ∈ rows, row.length = header.length

namespace Table

/-- The table as text, one line a row. -/
def written (sep : Char) (t : Table) : List Char :=
  unlines ((t.header :: t.rows).map (joined sep))

/-- Every field can be told from the separator and the end of the
line. -/
structure Clean (sep : Char) (t : Table) : Prop where
  sep_ne : sep ≠ '\n'
  header_ne : t.header ≠ []
  fields : ∀ row ∈ t.header :: t.rows, ∀ f ∈ row, sep ∉ f ∧ '\n' ∉ f

/-- The fields of a named column, the first of that name. -/
def column (t : Table) (name : List Char) : Option (List (List Char)) :=
  t.rows.mapM fun row => row[t.header.idxOf name]?

end Table

/-- A table from its text, if the lines have as many fields as the
first. -/
def readTable (sep : Char) (text : List Char) : Option Table :=
  match (lines text).map (·.splitOn sep) with
  | [] => none
  | header :: rows =>
      if h : ∀ row ∈ rows, row.length = header.length then
        some ⟨header, rows, h⟩
      else none

/-- A clean table can be read back. -/
theorem readTable_written {sep : Char} {t : Table} (h : t.Clean sep) :
    readTable sep (t.written sep) = some t := by
  have hne : ∀ row ∈ t.header :: t.rows, row ≠ [] := by
    intro row hrow
    rcases List.mem_cons.mp hrow with rfl | hrow
    · exact h.header_ne
    · rw [← List.length_pos_iff, t.rows_length row hrow, List.length_pos_iff]
      exact h.header_ne
  have hlines : lines (t.written sep)
      = (t.header :: t.rows).map (joined sep) := by
    refine lines_unlines fun l hl => ?_
    obtain ⟨row, hrow, rfl⟩ := List.mem_map.mp hl
    exact not_mem_joined h.sep_ne.symm fun f hf => (h.fields row hrow f hf).2
  have hsplit : (lines (t.written sep)).map (·.splitOn sep)
      = t.header :: t.rows := by
    rw [hlines, List.map_map]
    refine (List.map_congr_left fun row hrow => ?_).trans (List.map_id _)
    exact splitOn_joined (hne row hrow) fun f hf => (h.fields row hrow f hf).1
  rw [readTable, hsplit]
  exact dif_pos t.rows_length

/-- A column of rows that are made alike. -/
theorem Table.column_map {α : Type} {t : Table} {as : List α}
    {row : α → List (List Char)} {name : List Char} {cell : α → List Char}
    (hrows : t.rows = as.map row)
    (hcell : ∀ a, (row a)[t.header.idxOf name]? = some (cell a)) :
    t.column name = some (as.map cell) := by
  rw [Table.column, hrows, List.mapM_map]
  clear hrows
  induction as with
  | nil => rfl
  | cons a as ih =>
      rw [List.mapM_cons, ih]
      show (row a)[t.header.idxOf name]? >>= _ = _
      rw [hcell a]
      rfl

-- ============================================================= padded cells

/-- `%-{width}s`: the text, filled up with blanks on its right. -/
def padded (width : Nat) (f : List Char) : List Char :=
  f ++ List.replicate (width - f.length) ' '

/-- What stands between separators. -/
def words (isSep : Char → Bool) (text : List Char) : List (List Char) :=
  (text.splitOnP isSep).filter (· ≠ [])

/-- A word of its own: some text, and no separator in it. -/
def IsWord (isSep : Char → Bool) (f : List Char) : Prop :=
  f ≠ [] ∧ ∀ c ∈ f, isSep c = false

section Words

variable {isSep : Char → Bool} {f rest : List Char}

theorem isWord_of_not_mem (hne : f ≠ [])
    (h : ∀ c, isSep c = true → c ∉ f) : IsWord isSep f := by
  refine ⟨hne, fun c hc => ?_⟩
  exact Bool.eq_false_iff.mpr fun hsep => h c hsep hc

theorem isWord_decimal (n : Nat) (hsep : ∀ c, isSep c → c.isDigit = false) :
    IsWord isSep (decimal n) := by
  refine isWord_of_not_mem (decimal_ne_nil n) fun c hc hmem => ?_
  have hdigit := isDigit_of_mem_decimal hmem
  rw [hsep c hc] at hdigit
  cases hdigit

theorem words_nil : words isSep [] = [] := rfl

/-- A separator where no word is goes unseen. -/
theorem words_sep {c : Char} (hc : isSep c = true) :
    words isSep (c :: rest) = words isSep rest := by
  unfold words
  have h := List.splitOnP_append_cons (p := isSep) [] rest hc
  rw [List.nil_append, List.splitOnP_nil, List.singleton_append] at h
  rw [h, List.filter_cons_of_neg (by simp)]

theorem words_cons {c : Char} (hf : IsWord isSep f) (hc : isSep c = true) :
    words isSep (f ++ c :: rest) = f :: words isSep rest := by
  unfold words
  rw [List.splitOnP_append_cons_of_forall_mem hf.2 c hc,
    List.filter_cons_of_pos (by simpa using hf.1)]

/-- The last word needs no separator behind it. -/
theorem words_last (hf : IsWord isSep f) : words isSep f = [f] := by
  unfold words
  rw [List.splitOnP_eq_singleton hf.2,
    List.filter_cons_of_pos (by simpa using hf.1), List.filter_nil]

theorem words_blanks (hblank : isSep ' ' = true) (n : Nat) :
    words isSep (List.replicate n ' ' ++ rest) = words isSep rest := by
  induction n with
  | zero => rfl
  | succ n ih =>
      rw [List.replicate_succ, List.cons_append, words_sep hblank, ih]

/-- A cell is one word, whether it was filled up or is too long for
that, if it ends the text or a separator follows. -/
theorem words_padded (width : Nat) (hf : IsWord isSep f)
    (hblank : isSep ' ' = true)
    (hrest : rest = [] ∨ ∃ c r, rest = c :: r ∧ isSep c = true) :
    words isSep (padded width f ++ rest) = f :: words isSep rest := by
  unfold padded
  rw [List.append_assoc]
  cases width - f.length with
  | zero =>
      obtain rfl | ⟨c, r, rfl, hc⟩ := hrest
      · rw [List.replicate_zero, List.append_nil, List.append_nil,
          words_last hf, words_nil]
      · exact (words_cons hf hc).trans
          (congrArg (f :: ·) (words_sep hc).symm)
  | succ n =>
      rw [List.replicate_succ, List.cons_append, words_cons hf hblank,
        words_blanks hblank]

end Words

-- ============================================================ aligned lines

/-- Cells, each behind a separator. -/
def cells : List (Char × Nat) → List (List Char) → List Char
  | (c, width) :: fmt, f :: fs => c :: padded width f ++ cells fmt fs
  | _, _ => []

/-- A line of cells, the first without a separator. -/
def aligned (width : Nat) (fmt : List (Char × Nat)) :
    List (List Char) → List Char
  | f :: fs => padded width f ++ cells fmt fs
  | [] => []

section Aligned

variable {isSep : Char → Bool} {fmt : List (Char × Nat)}

theorem cells_head (hsep : ∀ x ∈ fmt, isSep x.1 = true)
    (fs : List (List Char)) :
    cells fmt fs = [] ∨ ∃ c r, cells fmt fs = c :: r ∧ isSep c = true := by
  cases fmt with
  | nil => exact .inl rfl
  | cons x fmt =>
      cases fs with
      | nil => exact .inl rfl
      | cons f fs =>
          exact .inr ⟨x.1, padded x.2 f ++ cells fmt fs, rfl,
            hsep x List.mem_cons_self⟩

theorem words_cells {fs : List (List Char)} (hlen : fs.length = fmt.length)
    (hword : ∀ f ∈ fs, IsWord isSep f) (hblank : isSep ' ' = true)
    (hsep : ∀ x ∈ fmt, isSep x.1 = true) :
    words isSep (cells fmt fs) = fs := by
  induction fmt generalizing fs with
  | nil =>
      obtain rfl := List.length_eq_zero_iff.mp hlen
      rfl
  | cons x fmt ih =>
      cases fs with
      | nil => cases hlen
      | cons f fs =>
          have hsep' := fun y hy => hsep y (List.mem_cons_of_mem x hy)
          show words isSep (x.1 :: (padded x.2 f ++ cells fmt fs)) = _
          rw [words_sep (hsep x List.mem_cons_self),
            words_padded x.2 (hword f List.mem_cons_self) hblank
              (cells_head hsep' fs),
            ih (Nat.succ.inj hlen)
              (fun g hg => hword g (List.mem_cons_of_mem _ hg)) hsep']

/-- The cells of an aligned line are its words. -/
theorem words_aligned {fields : List (List Char)} (width : Nat)
    (hlen : fields.length = fmt.length + 1)
    (hword : ∀ f ∈ fields, IsWord isSep f) (hblank : isSep ' ' = true)
    (hsep : ∀ x ∈ fmt, isSep x.1 = true) :
    words isSep (aligned width fmt fields) = fields := by
  cases fields with
  | nil => cases hlen
  | cons f fs =>
      rw [aligned, words_padded width (hword f List.mem_cons_self) hblank
        (cells_head hsep fs),
        words_cells (Nat.succ.inj hlen)
          (fun g hg => hword g (List.mem_cons_of_mem _ hg)) hblank hsep]

theorem not_mem_padded {c : Char} {f : List Char} (width : Nat)
    (hf : c ∉ f) (hblank : c ≠ ' ') : c ∉ padded width f := by
  intro hc
  rcases List.mem_append.mp hc with hc | hc
  · exact hf hc
  · exact hblank (List.eq_of_mem_replicate hc)

theorem not_mem_cells {c : Char} {fs : List (List Char)}
    (hf : ∀ f ∈ fs, c ∉ f) (hblank : c ≠ ' ')
    (hsep : ∀ x ∈ fmt, c ≠ x.1) : c ∉ cells fmt fs := by
  induction fmt generalizing fs with
  | nil => exact List.not_mem_nil
  | cons x fmt ih =>
      cases fs with
      | nil => exact List.not_mem_nil
      | cons f fs =>
          intro hc
          rcases List.mem_cons.mp hc with hc | hc
          · exact hsep x List.mem_cons_self hc
          rcases List.mem_append.mp hc with hc | hc
          · exact not_mem_padded x.2 (hf f List.mem_cons_self) hblank hc
          · exact ih (fun g hg => hf g (List.mem_cons_of_mem _ hg))
              (fun y hy => hsep y (List.mem_cons_of_mem _ hy)) hc

/-- An aligned line is one line. -/
theorem not_mem_aligned {c : Char} {fields : List (List Char)}
    (width : Nat) (hf : ∀ f ∈ fields, c ∉ f) (hblank : c ≠ ' ')
    (hsep : ∀ x ∈ fmt, c ≠ x.1) : c ∉ aligned width fmt fields := by
  cases fields with
  | nil => exact List.not_mem_nil
  | cons f fs =>
      intro hc
      rcases List.mem_append.mp hc with hc | hc
      · exact not_mem_padded width (hf f List.mem_cons_self) hblank hc
      · exact not_mem_cells (fun g hg => hf g (List.mem_cons_of_mem _ hg))
          hblank hsep hc

end Aligned

/-- What the programs put between cells: blanks, and rules of colons or
bars. -/
def cellSep (c : Char) : Bool := c = ' ' || c = ':' || c = '|'

theorem cellSep_cases {c : Char} (h : cellSep c = true) :
    c = ' ' ∨ c = ':' ∨ c = '|' := by
  simpa [cellSep, or_assoc] using h

theorem cellSep_not_digit (c : Char) (h : cellSep c = true) :
    c.isDigit = false := by
  rcases cellSep_cases h with rfl | rfl | rfl
  all_goals rfl

end XdpIds.Text
