/-
The listing, from the frames to its reader.

Left alone, the dump's loop goes through the map once, in the map's
order, and ends (`dump_alone`). What it prints can be read back
(`readListing_listing`): no value has a blank or a bar in it, and no row
looks like the line that ends the listing. With what the map holds after
a run, `listing_exact` says what the numbers on paper are worth: the rows
are the pairs whose entries were not evicted, each with exactly its
frames since, and the columns, with what the evictions took, add up to
the run.
-/
import XdpIds.CountIps.Listing
import XdpIds.CountIps.Proofs.Address
import XdpIds.CountIps.Proofs.Dump
import XdpIds.CountIps.Proofs.Evicting

namespace XdpIds.CountIps

open Cursor Keyed Text Transition

variable {table : Table UInt64 IpCount} {row : UInt64 × IpCount} {n : Nat}
  {rows : List (UInt64 × IpCount)} {seconds : Int}

-- ============================================================ a dump left alone

/-- The key the loop has in hand between two rows. -/
def lastKey (done : List (UInt64 × IpCount)) : Option UInt64 :=
  done.getLast?.map Prod.fst

/-- The key after the rows printed is the next entry's. -/
theorem nextKey_lastKey {done rest : List (UInt64 × IpCount)}
    (h : table.entries = done ++ rest) :
    table.nextKey (lastKey done) = rest.head?.map Prod.fst := by
  have hkeys : table.keys = done.map Prod.fst ++ rest.map Prod.fst := by
    rw [Table.keys, h, List.map_append]
  rcases List.eq_nil_or_concat done with rfl | ⟨done, e, rfl⟩
  · show table.keys.head? = _
    rw [hkeys]
    simp
  · have hlast : lastKey (done.concat e) = some e.1 := by
      simp [lastKey]
    have hsplit : table.keys
        = done.map Prod.fst ++ e.1 :: rest.map Prod.fst := by
      rw [hkeys, List.concat_eq_append, List.map_append, List.append_assoc]
      rfl
    rw [hlast, Table.nextKey_after hsplit, List.head?_map]

/-- From between two rows, through the rest and to the end. -/
theorem dump_rest (rest : List (UInt64 × IpCount)) :
    ∀ {done : List (UInt64 × IpCount)} {value : IpCount},
      table.entries = done ++ rest →
      ∃ last, run dumpStep ⟨table, .next (lastKey done), value, done⟩
          (List.replicate (2 * rest.length + 1) .dump)
        = some ⟨table, .ended, last, done ++ rest⟩ := by
  induction rest with
  | nil =>
      intro done value h
      have hnext := nextKey_lastKey h
      refine ⟨value, ?_⟩
      show run dumpStep _ [.dump] = _
      rw [run_cons (Dumps.step (.finish rfl hnext)), List.append_nil]
      rfl
  | cons e rest ih =>
      intro done value h
      have hnext := nextKey_lastKey h
      have hfound : table.get e.1 = some e.2 := by
        refine Table.get_eq_some.mpr ?_
        rw [h]
        simp
      have hrest : table.entries = (done ++ [e]) ++ rest := by
        rw [h, List.append_assoc]
        rfl
      obtain ⟨last, hrun⟩ := @ih (done ++ [e]) e.2 hrest
      have hlast : lastKey (done ++ [e]) = some e.1 := by simp [lastKey]
      have hprint := Dumps.step (s := ⟨table, .lookup e.1, value, done⟩)
        (.print rfl)
      rw [hfound] at hprint
      rw [hlast] at hrun
      refine ⟨last, ?_⟩
      rw [List.length_cons, show 2 * (rest.length + 1) + 1
          = (2 * rest.length + 1) + 1 + 1 by omega,
        List.replicate_succ, List.replicate_succ,
        run_cons (Dumps.step (.advance rfl hnext)), run_cons hprint]
      refine hrun.trans ?_
      rw [List.append_assoc]
      rfl

/-- Left alone, the dump prints the map's entries, in its order, and
ends. -/
theorem dump_alone (table : Table UInt64 IpCount) (value : IpCount) :
    ∃ last, run dumpStep (.start table value)
        (List.replicate (2 * table.entries.length + 1) .dump)
      = some ⟨table, .ended, last, table.entries⟩ :=
  @dump_rest table table.entries [] value rfl

-- ================================================================ reading a row

/-- What stands between the values of a row. -/
def barSep (c : Char) : Bool := c = ' ' || c = '|'

/-- A row of the listing. -/
structure ListingRow where
  n : Nat
  source : List Char
  destination : List Char
  packets : Nat
  bytes : Nat
deriving DecidableEq, Repr

/-- A row from its values. -/
def readRow : List (List Char) → Option ListingRow
  | [n, source, destination, packets, bytes] => do
      let n ← decimal? n
      let packets ← decimal? packets
      let bytes ← decimal? bytes
      return ⟨n, source, destination, packets, bytes⟩
  | _ => none

/-- The `n`-th row, as it is read. -/
def asRead (n : Nat) (row : UInt64 × IpCount) : ListingRow :=
  ⟨n, (decode row.1).1.toList, (decode row.1).2.toList,
    row.2.count.toNat, row.2.totBytes.toNat⟩

theorem barSep_cases {c : Char} (h : barSep c = true) : c = ' ' ∨ c = '|' := by
  simpa [barSep] using h

theorem barSep_not_digit (c : Char) (h : barSep c = true) :
    c.isDigit = false := by
  rcases barSep_cases h with rfl | rfl <;> rfl

/-- The names the dump has for errors. -/
theorem errorName_cases (code : UInt32) :
    errorName code = "1:TooShortEth" ∨ errorName code = "2:NotIP"
      ∨ errorName code = "3:TooShortIP" ∨ errorName code = "UNKNOWN" := by
  unfold errorName
  split_ifs <;> simp

/-- A column of a key is an address or a name. -/
theorem decode_cases (key : UInt64) :
    (∃ a a', decode key = (inetNtop a, inetNtop a'))
      ∨ ∃ code, decode key = ("ERROR", errorName code) := by
  unfold decode
  dsimp only
  split
  · exact .inr ⟨_, rfl⟩
  · exact .inl ⟨_, _, rfl⟩

theorem isWord_errorName (code : UInt32) :
    IsWord barSep (errorName code).toList := by
  rcases errorName_cases code with h | h | h | h
  all_goals
    rw [h]
    simp [IsWord, barSep]

theorem isWord_decode (key : UInt64) :
    IsWord barSep (decode key).1.toList
      ∧ IsWord barSep (decode key).2.toList := by
  rcases decode_cases key with ⟨a, a', h⟩ | ⟨code, h⟩
  · rw [h]
    exact ⟨isWord_inetNtop a barSep_not_digit rfl,
      isWord_inetNtop a' barSep_not_digit rfl⟩
  · rw [h]
    refine ⟨?_, isWord_errorName code⟩
    simp [IsWord, barSep]

theorem isWord_rowFields {f : List Char} (hf : f ∈ rowFields n row) :
    IsWord barSep f := by
  have hdecode := isWord_decode row.1
  simp only [rowFields, List.mem_cons, List.not_mem_nil, or_false] at hf
  rcases hf with rfl | rfl | rfl | rfl | rfl
  · exact isWord_decimal _ barSep_not_digit
  · exact hdecode.1
  · exact hdecode.2
  · exact isWord_decimal _ barSep_not_digit
  · exact isWord_decimal _ barSep_not_digit

theorem words_rowLine (n : Nat) (row : UInt64 × IpCount) :
    words barSep (rowLine n row) = rowFields n row := by
  have hlen : (rowFields n row).length = rowFormat.length + 1 := by
    simp [rowFields, rowFormat]
  refine words_aligned 4 hlen (fun f hf => isWord_rowFields hf) rfl ?_
  simp [rowFormat, barSep]

/-- A row comes back as itself. -/
theorem readRow_rowLine (n : Nat) (row : UInt64 × IpCount) :
    readRow (words barSep (rowLine n row)) = some (asRead n row) := by
  rw [words_rowLine]
  simp only [readRow, rowFields, decimal?_decimal]
  rfl

-- ========================================================= reading the listing

/-- The rows of a listing: what stands between the rule and the end. -/
def readListing (text : List Char) : Option (List ListingRow) :=
  (((lines text).drop 2).takeWhile fun line => line ≠ listingEnd).mapM
    fun line => readRow (words barSep line)

theorem newline_errorName (code : UInt32) :
    '\n' ∉ (errorName code).toList := by
  rcases errorName_cases code with h | h | h | h
  all_goals
    rw [h]
    simp

theorem newline_rowFields {f : List Char} (hf : f ∈ rowFields n row) :
    '\n' ∉ f := by
  have hdecode : '\n' ∉ (decode row.1).1.toList
      ∧ '\n' ∉ (decode row.1).2.toList := by
    rcases decode_cases row.1 with ⟨a, a', h⟩ | ⟨code, h⟩
    · rw [h]
      exact ⟨not_mem_inetNtop a rfl (by simp),
        not_mem_inetNtop a' rfl (by simp)⟩
    · rw [h]
      exact ⟨by simp, newline_errorName code⟩
  simp only [rowFields, List.mem_cons, List.not_mem_nil, or_false] at hf
  rcases hf with rfl | rfl | rfl | rfl | rfl
  · exact not_mem_decimal _ rfl
  · exact hdecode.1
  · exact hdecode.2
  · exact not_mem_decimal _ rfl
  · exact not_mem_decimal _ rfl

/-- No row is the line that ends the listing. -/
theorem rowLine_ne_end (n : Nat) (row : UInt64 × IpCount) :
    rowLine n row ≠ listingEnd := by
  intro h
  have hwords := words_rowLine n row
  rw [h] at hwords
  have hlen := congrArg List.length hwords
  have hone : (words barSep listingEnd).length = 1 := by
    decide
  rw [hone] at hlen
  simp [rowFields] at hlen

theorem newline_secondsLine (seconds : Int) : '\n' ∉ secondsLine seconds := by
  intro h
  rcases List.mem_append.mp h with h | h
  · rcases List.mem_cons.mp h with h | h
    · simp at h
    · exact not_mem_integer seconds rfl (by simp) h
  · simp at h

/-- The lines of a listing. -/
theorem lines_listing (rows : List (UInt64 × IpCount)) (seconds : Int) :
    lines (listing rows seconds)
      = listingHeader :: listingRule
        :: (rows.zipIdx 1).map (fun r => rowLine r.2 r.1)
          ++ [listingEnd, secondsLine seconds] := by
  refine lines_unlines fun l hl => ?_
  rcases List.mem_append.mp hl with hl | hl
  · rcases List.mem_cons.mp hl with rfl | hl
    · exact not_mem_aligned 4 (by simp) (by simp) (by simp)
    rcases List.mem_cons.mp hl with rfl | hl
    · simp [listingRule]
    obtain ⟨r, -, rfl⟩ := List.mem_map.mp hl
    exact not_mem_aligned 4 (fun f hf => newline_rowFields hf) (by simp)
      (by simp [rowFormat])
  · rcases List.mem_pair.mp hl with rfl | rfl
    · decide
    · exact newline_secondsLine seconds

/-- A listing of any rows can be read back. -/
theorem readListing_listing (rows : List (UInt64 × IpCount))
    (seconds : Int) :
    readListing (listing rows seconds)
      = some ((rows.zipIdx 1).map fun r => asRead r.2 r.1) := by
  have htake : ((lines (listing rows seconds)).drop 2).takeWhile
        (fun line => line ≠ listingEnd)
      = (rows.zipIdx 1).map fun r => rowLine r.2 r.1 := by
    rw [lines_listing, List.cons_append, List.cons_append,
      List.drop_succ_cons, List.drop_succ_cons, List.drop_zero,
      List.takeWhile_append_of_pos, List.takeWhile_cons_of_neg (by simp),
      List.append_nil]
    intro line hline
    obtain ⟨r, -, rfl⟩ := List.mem_map.mp hline
    simpa using rowLine_ne_end r.2 r.1
  rw [readListing, htake]
  induction rows.zipIdx 1 with
  | nil => rfl
  | cons r rows ih =>
      rw [List.map_cons, List.mapM_cons, ih, readRow_rowLine]
      rfl

-- ======================================================= what the rows are worth

/-- A row says what its pair's frames were. -/
structure RowFor (frames : List Sample) (row : ListingRow) : Prop where
  packets : row.packets = frames.length
  bytes : row.bytes = totBytes frames
  addresses : ∀ s ∈ frames, s.frame.IsIp → ¬ TakenForError s.frame →
    inetPton row.source = some s.frame.saddr
      ∧ inetPton row.destination = some s.frame.daddr
  error : ∀ s ∈ frames, ¬ s.frame.IsIp →
    row.source = "ERROR".toList
      ∧ row.destination = (errorLabel s.frame.headerExit).toList

variable {cs : List (Change Sample UInt64)}

/-- A frame is among those of its own key. -/
theorem key_of_mem {key : UInt64} {s : Sample} {l : List Sample}
    (h : s ∈ framesOf key l) : ipKey s.frame = key := by
  obtain ⟨-, hkey⟩ := List.mem_filter.mp h
  exact Option.some.inj (of_decide_eq_true hkey)

/-- The row of an entry that is its frames' account. -/
theorem rowFor_asRead {key : UInt64} {ipc : IpCount} {l : List Sample}
    (hholds : Holds (some ipc) (framesOf key l)) (n : Nat) :
    RowFor (framesOf key l) (asRead n (key, ipc)) := by
  obtain ⟨-, hcount, hbytes⟩ := hholds
  refine ⟨hcount, hbytes, ?_, ?_⟩
  · intro s hs hip hplain
    have hexit := headerExit_zero_iff.mpr hip
    have hdecode : decode key = (inetNtop s.frame.saddr,
        inetNtop s.frame.daddr) := by
      rw [← key_of_mem hs, ipKey_ip hexit, decode_pairKey,
        if_neg fun h => hplain (takenForError_iff.mp h)]
    show inetPton (decode key).1.toList = _
      ∧ inetPton (decode key).2.toList = _
    rw [hdecode]
    exact ⟨inetPton_inetNtop _, inetPton_inetNtop _⟩
  · intro s hs hip
    have hexit : s.frame.headerExit ≠ 0 := mt headerExit_zero_iff.mp hip
    have hdecode : decode key = ("ERROR", errorLabel s.frame.headerExit) := by
      rw [← key_of_mem hs, ipKey_error hexit]
      exact decode_errorKey ((headerExit_cases s.frame).resolve_left hexit)
    show (decode key).1.toList = _ ∧ (decode key).2.toList = _
    rw [hdecode]
    exact ⟨rfl, rfl⟩

/-- The map of a run holds the account of what survived. -/
theorem entries_hold (hfits : ∀ key, Fits (framesOf key (surviving cs)))
    (htable : lruRun (fun _ => none) cs = .ok table.get)
    {e : UInt64 × IpCount} (he : e ∈ table.entries) :
    Holds (some e.2) (framesOf e.1 (surviving cs)) := by
  have hget : table.get
      = fun key => entryOf (framesOf key (surviving cs)) :=
    Except.ok.inj (htable.symm.trans (lruRun_eq cs))
  have hfound := Table.get_eq_some.mpr he
  rw [hget] at hfound
  rw [← hfound]
  exact entryOf_holds (hfits e.1)

/-- Its keys are those of what survived. -/
theorem keys_survive
    (htable : lruRun (fun _ => none) cs = .ok table.get) :
    table.keys.toFinset = keysOf (surviving cs) := by
  have hget : table.get
      = fun key => entryOf (framesOf key (surviving cs)) :=
    Except.ok.inj (htable.symm.trans (lruRun_eq cs))
  ext key
  rw [List.mem_toFinset, ← Table.get_isSome, hget, ← framesOf_ne_nil]
  show (entryOf _).isSome = true ↔ _
  unfold entryOf
  split_ifs with h <;> simp [h]

/-- A column of weights over the rows is the survivors' weight. -/
theorem sum_entries (hfits : ∀ key, Fits (framesOf key (surviving cs)))
    (htable : lruRun (fun _ => none) cs = .ok table.get)
    (field : UInt64 × IpCount → Nat) {weight : Sample → Nat}
    (hfield : ∀ e ∈ table.entries,
      Holds (some e.2) (framesOf e.1 (surviving cs)) →
      field e = ((framesOf e.1 (surviving cs)).map weight).sum) :
    (table.entries.map field).sum = ((surviving cs).map weight).sum := by
  have hcolumn : table.entries.map field = table.keys.map fun key =>
      ((framesOf key (surviving cs)).map weight).sum := by
    rw [Table.keys, List.map_map]
    refine List.map_congr_left fun e he => ?_
    exact hfield e he (entries_hold hfits htable he)
  rw [hcolumn, ← sum_framesOf, ← keys_survive htable]
  exact (List.sum_toFinset _ table.nodup).symm

/-- What a finished dump tells of a run of frames and evictions: it ends,
its listing reads back as one row for each pair that has an entry, each
with the frames of the pair since it was last evicted, and the columns
add up to the run, but for what the evictions took. -/
theorem listing_exact (table : Table UInt64 IpCount) (value : IpCount)
    (seconds : Int) (hfits : ∀ key, Fits (framesOf key (surviving cs)))
    (htable : lruRun (fun _ => none) cs = .ok table.get) :
    ∃ s rows, run dumpStep (.start table value)
        (List.replicate (2 * table.entries.length + 1) .dump) = some s
      ∧ s.phase = .ended
      ∧ readListing (listing s.rows seconds) = some rows
      ∧ rows.map (·.n) = List.range' 1 table.entries.length
      ∧ table.keys.toFinset = keysOf (surviving cs)
      ∧ List.Forall₂ (fun key row =>
          RowFor (framesOf key (surviving cs)) row) table.keys rows
      ∧ (rows.map (·.packets)).sum + (evicted cs).length
        = (Keyed.events cs).length
      ∧ (rows.map (·.bytes)).sum + totBytes (evicted cs)
        = totBytes (Keyed.events cs) := by
  obtain ⟨last, hrun⟩ := dump_alone table value
  have hproj : ∀ {α : Type} (f : UInt64 × IpCount → α),
      (table.entries.zipIdx 1).map (fun r => f r.1) = table.entries.map f := by
    intro α f
    exact (List.map_map ..).symm.trans
      (congrArg _ (List.zipIdx_map_fst 1 table.entries))
  refine ⟨_, _, hrun, rfl, readListing_listing table.entries seconds, ?_,
    keys_survive htable, ?_, ?_, ?_⟩
  · rw [List.map_map]
    exact List.zipIdx_map_snd 1 table.entries
  · rw [Table.keys, ← hproj, List.forall₂_map_left_iff,
      List.forall₂_map_right_iff, List.forall₂_same]
    intro r hr
    have hmem := List.mem_map_of_mem (f := Prod.fst) hr
    rw [List.zipIdx_map_fst] at hmem
    exact rowFor_asRead (entries_hold hfits htable hmem) r.2
  · have hlength : ∀ l : List Sample, l.length = (l.map fun _ => 1).sum := by
      simp
    have hcolumn := sum_entries hfits htable (fun e => e.2.count.toNat)
      fun e _ he => he.2.1.trans (hlength _)
    rw [List.map_map]
    show ((table.entries.zipIdx 1).map fun r => r.1.2.count.toNat).sum + _ = _
    rw [hproj fun e => e.2.count.toNat, hcolumn, hlength (evicted cs),
      hlength (Keyed.events cs), surviving_evicted]
  · have hcolumn := sum_entries hfits htable (fun e => e.2.totBytes.toNat)
      fun e _ he => he.2.2
    rw [List.map_map]
    show ((table.entries.zipIdx 1).map fun r => r.1.2.totBytes.toNat).sum + _
      = _
    rw [hproj fun e => e.2.totBytes.toNat, hcolumn]
    exact surviving_evicted (fun s => s.frame.len) cs

/-- Two frames of a pair that is evicted in between. -/
def udpTwice : List (Change Sample UInt64) :=
  [.event ⟨udpFrom 68, 0⟩, .drop (ipKey (udpFrom 68)),
    .event ⟨udpFrom 68, 0⟩]

/-- The map they leave. -/
def udpTable : Table UInt64 IpCount :=
  ⟨[(ipKey (udpFrom 68), ⟨1, 42⟩)], by simp⟩

/-- One frame is listed, and one was lost. -/
theorem listing_exact_udpTwice :
    ∃ s rows, run dumpStep (.start udpTable ⟨0, 0⟩)
        (List.replicate (2 * udpTable.entries.length + 1) .dump) = some s
      ∧ readListing (listing s.rows 10) = some rows
      ∧ (rows.map (·.packets)).sum + 1 = 2 := by
  have hsurvive : surviving udpTwice = [⟨udpFrom 68, 0⟩] := by
    simp [udpTwice, surviving, Keyed.kept, Keyed.dropped, Sample.key]
  have hlost : evicted udpTwice = [⟨udpFrom 68, 0⟩] := by
    simp [udpTwice, evicted, Keyed.lost, Keyed.dropped, Sample.key]
  have hone : Fits [⟨udpFrom 68, 0⟩] := by
    constructor
    · simp
    · simp [totBytes, udpFrom_len]
  have hfits : ∀ key, Fits (framesOf key (surviving udpTwice)) := by
    rw [hsurvive]
    exact fun key => hone.framesOf key
  have htable : lruRun (fun _ => none) udpTwice = .ok udpTable.get := by
    rw [lruRun_eq, hsurvive]
    congr 1
    funext key
    by_cases hkey : ipKey (udpFrom 68) = key
    · simp [framesOf, Keyed.eventsOf, Sample.key, Table.get, udpTable, hkey,
        entryOf, totBytes, udpFrom_len]
    · simp [framesOf, Keyed.eventsOf, Sample.key, Table.get, udpTable, hkey,
        entryOf]
  obtain ⟨s, rows, hrun, -, hread, -, -, -, hpackets, -⟩ :=
    listing_exact udpTable ⟨0, 0⟩ 10 hfits htable
  rw [hlost] at hpackets
  exact ⟨s, rows, hrun, hread, hpackets⟩

end XdpIds.CountIps
