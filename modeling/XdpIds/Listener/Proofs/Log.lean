/-
A listener's log as text, and reading it back.

`readLog_printed` undoes the printing in both formats: no value contains
a separator, so a row is its ten values whatever their widths, in the
aligned format too, where a value can be wider than its cell. And
`printHist_printed` says what print_hist.py makes of the comma-separated
one: it finds its columns by name, and its two series are those of the
events to iperf's port and of the others.

`foldlM_printNetevent` is the callback over a list of events: it prints
them all, numbered, as long as the count fits its `int`.
-/
import XdpIds.CountIps.Proofs.Address
import XdpIds.Listener.Log

namespace XdpIds.Listener

open CountIps (inetNtop inetPton inetPton_inetNtop isWord_inetNtop
  not_mem_inetNtop)
open Text

variable {printAll : Bool} {n : Nat} {e : NetEvent} {events : List NetEvent}

-- ================================================================ the values

theorem length_eventFields (n : Nat) (e : NetEvent) :
    (eventFields n e).length = 10 := rfl

theorem length_headerFields (printAll : Bool) :
    (headerFields printAll).length = 10 := by
  cases printAll <;> rfl

/-- The values are numbers and addresses. -/
theorem eventFields_cases {f : List Char} (hf : f ∈ eventFields n e) :
    (∃ m, f = decimal m) ∨ ∃ a, f = (inetNtop a).toList := by
  simp only [eventFields, List.mem_cons, List.not_mem_nil, or_false] at hf
  rcases hf with h | h | h | h | h | h | h | h | h | h
  case inr.inl => exact .inr ⟨_, h⟩
  case inr.inr.inr.inl => exact .inr ⟨_, h⟩
  all_goals exact .inl ⟨_, h⟩

theorem not_mem_eventFields {f : List Char} {c : Char}
    (hdigit : c.isDigit = false) (hdot : c ≠ '.')
    (hf : f ∈ eventFields n e) : c ∉ f := by
  rcases eventFields_cases hf with ⟨m, rfl⟩ | ⟨a, rfl⟩
  · exact not_mem_decimal m hdigit
  · exact not_mem_inetNtop a hdigit hdot

theorem isWord_eventFields {f : List Char} (hf : f ∈ eventFields n e) :
    IsWord cellSep f := by
  rcases eventFields_cases hf with ⟨m, rfl⟩ | ⟨a, rfl⟩
  · exact isWord_decimal m cellSep_not_digit
  · exact isWord_inetNtop a cellSep_not_digit rfl

-- ================================================================= one line

/-- The values of a line. -/
def fieldsOf (printAll : Bool) (line : List Char) : List (List Char) :=
  if printAll then line.splitOn ',' else words cellSep line

/-- A line comes apart into the values it was made of. -/
theorem fieldsOf_eventLine (printAll : Bool) (n : Nat) (e : NetEvent) :
    fieldsOf printAll (eventLine printAll (eventFields n e))
      = eventFields n e := by
  cases printAll with
  | true =>
      exact splitOn_joined (List.cons_ne_nil _ _) fun f hf =>
        not_mem_eventFields rfl (by decide) hf
  | false =>
      have hlen : (eventFields n e).length = eventFormat.length + 1 :=
        (length_eventFields n e).trans rfl
      exact words_aligned 4 hlen (fun f hf => isWord_eventFields hf) rfl
        (by decide)

/-- A line is one line. -/
theorem newline_eventLine {fields : List (List Char)}
    (h : ∀ f ∈ fields, '\n' ∉ f) : '\n' ∉ eventLine printAll fields := by
  cases printAll with
  | true => exact not_mem_joined (by decide) h
  | false => exact not_mem_aligned 4 h (by decide) (by decide)

theorem newline_headerFields : ∀ f ∈ headerFields printAll, '\n' ∉ f := by
  cases printAll <;> decide

-- ================================================================== one text

theorem printed_eq (printAll : Bool) (events : List NetEvent) :
    printed printAll events
      = unlines ((headerFields printAll :: eventRows 1 events).map
          (eventLine printAll)) := by
  rw [printed, printNeteventHeader, List.map_cons, unlines_cons]
  simp [unlines]

/-- The lines of a log. -/
theorem lines_printed (printAll : Bool) (events : List NetEvent) :
    lines (printed printAll events)
      = (headerFields printAll :: eventRows 1 events).map
          (eventLine printAll) := by
  rw [printed_eq]
  refine lines_unlines fun l hl => ?_
  obtain ⟨row, hrow, rfl⟩ := List.mem_map.mp hl
  rcases List.mem_cons.mp hrow with rfl | hrow
  · exact newline_eventLine newline_headerFields
  · obtain ⟨r, -, rfl⟩ := List.mem_map.mp hrow
    exact newline_eventLine fun f hf =>
      not_mem_eventFields rfl (by decide) hf

/-- An event from its values, without the decision, which no line
has. -/
def readEvent : List (List Char) → Option (NetEvent × Nat)
  | [n, srcIp, srcPort, dstIp, dstPort, protocol, size, parsing, class_,
      tot] => do
      let n ← decimal? n
      let srcIp ← inetPton srcIp
      let srcPort ← decimal? srcPort
      let dstIp ← inetPton dstIp
      let dstPort ← decimal? dstPort
      let protocol ← decimal? protocol
      let size ← decimal? size
      let parsing ← decimal? parsing
      let class_ ← decimal? class_
      let tot ← decimal? tot
      return (⟨srcIp, dstIp, .ofNat srcPort, .ofNat dstPort,
        .ofNat protocol, .ofNat size, .ofNat parsing, .ofNat class_,
        .ofNat tot, false⟩, n)
  | _ => none

theorem readEvent_eventFields (n : Nat) (e : NetEvent) :
    readEvent (eventFields n e) = some ({ e with decision := false }, n) := by
  simp only [readEvent, eventFields, decimal?_decimal, inetPton_inetNtop]
  show some _ = _
  simp only [UInt16.ofNat_toNat, UInt8.ofNat_toNat, UInt32.ofNat_toNat]

/-- The numbered events of a log, its first line skipped. -/
def readLog (printAll : Bool) (log : List Char) :
    Option (List (NetEvent × Nat)) :=
  (lines log).tail.mapM fun line => readEvent (fieldsOf printAll line)

/-- Both formats can be read back: a log of any events is those events,
numbered from 1. -/
theorem readLog_printed (printAll : Bool) (events : List NetEvent) :
    readLog printAll (printed printAll events)
      = some ((events.map fun e => { e with decision := false }).zipIdx
          1) := by
  rw [readLog, lines_printed, List.map_cons, List.tail_cons, eventRows,
    List.map_map, List.zipIdx_map]
  induction events.zipIdx 1 with
  | nil => rfl
  | cons r rows ih =>
      rw [List.map_cons, List.mapM_cons, ih, List.map_cons]
      show readEvent (fieldsOf printAll
        (eventLine printAll (eventFields r.2 r.1))) >>= _ = _
      rw [fieldsOf_eventLine, readEvent_eventFields]
      rfl

-- =============================================================== the columns

/-- The columns of numbers. -/
inductive Column where
  | portS
  | portD
  | protocol
  | size
  | timeParsing
  | timeClass
  | timeTotal
deriving DecidableEq, Repr

namespace Column

/-- A column's name in the header. -/
def name : Column → List Char
  | .portS => "portS".toList
  | .portD => "portD".toList
  | .protocol => "protocol".toList
  | .size => "size".toList
  | .timeParsing => "time_parsing".toList
  | .timeClass => "time_class".toList
  | .timeTotal => "time_total".toList

/-- What an event has in the column. -/
def value : Column → NetEvent → Nat
  | .portS, e => e.srcPort.toNat
  | .portD, e => e.dstPort.toNat
  | .protocol, e => e.protocol.toNat
  | .size, e => e.packetSize.toNat
  | .timeParsing, e => e.tParsing.toNat
  | .timeClass, e => e.tClassification.toNat
  | .timeTotal, e => e.tTot.toNat

end Column

/-- The log as a table. -/
def logTable (events : List NetEvent) : Table where
  header := headerFields true
  rows := eventRows 1 events
  rows_length := by
    intro row hrow
    obtain ⟨r, -, rfl⟩ := List.mem_map.mp hrow
    rw [length_eventFields, length_headerFields]

theorem readTable_printed (events : List NetEvent) :
    readTable ',' (printed true events) = some (logTable events) := by
  have hclean : (logTable events).Clean ',' := by
    refine ⟨by decide, List.cons_ne_nil _ _, fun row hrow => ?_⟩
    rcases List.mem_cons.mp hrow with rfl | hrow
    · show ∀ f ∈ headerFields true, _
      decide
    · obtain ⟨r, -, rfl⟩ := List.mem_map.mp hrow
      exact fun f hf => ⟨not_mem_eventFields rfl (by decide) hf,
        not_mem_eventFields rfl (by decide) hf⟩
  have hwritten : printed true events = (logTable events).written ',' :=
    printed_eq true events
  rw [hwritten, readTable_written hclean]

/-- A column of the log, by its name. -/
theorem column_logTable (c : Column) (events : List NetEvent) :
    (logTable events).column c.name
      = some ((events.map c.value).map decimal) := by
  have hcolumn : (logTable events).column c.name
      = some ((events.zipIdx 1).map fun r => decimal (c.value r.1)) :=
    Table.column_map rfl fun r => by cases c <;> rfl
  rw [hcolumn, List.map_map]
  congr 1
  exact (List.map_map (l := events.zipIdx 1) (f := Prod.fst)
    (g := decimal ∘ c.value)).symm.trans
      (congrArg _ (List.zipIdx_map_fst 1 events))

/-- print_hist.py splits the log by iperf's port. -/
theorem printHist_printed (c : Column) (events : List NetEvent) :
    printHist c.name (printed true events)
      = some (((events.filter fun e => e.dstPort.toNat = 5201).map c.value),
          (events.filter fun e => e.dstPort.toNat ≠ 5201).map c.value) := by
  have hzip : (events.map Column.portD.value).zip (events.map c.value)
      = events.map fun e => (e.dstPort.toNat, c.value e) :=
    List.zip_map' ..
  rw [printHist, readTable_printed]
  show ((logTable events).column Column.portD.name >>= _) = _
  rw [column_logTable]
  show ((events.map Column.portD.value).map decimal).mapM decimal? >>= _ = _
  rw [mapM_decimal?]
  show ((logTable events).column c.name >>= _) = _
  rw [column_logTable]
  show ((events.map c.value).map decimal).mapM decimal? >>= _ = _
  rw [mapM_decimal?]
  show some _ = _
  rw [hzip, List.filter_map, List.filter_map, List.map_map, List.map_map]
  rfl

-- ================================================================= the loop

/-- The callback over a list of events: a numbered line each, until the
count overflows. -/
theorem foldlM_printNetevent (events : List NetEvent) {s s' : Printer}
    (h : events.foldlM (printNetevent sizeofNetevent) s = some s') :
    s' = { ctx := ⟨s.ctx.nEvents + events.length, s.ctx.printAll⟩
           stdout := s.stdout
             ++ unlines ((eventRows (s.ctx.nEvents + 1) events).map
                (eventLine s.ctx.printAll))
           stderr := s.stderr } := by
  induction events generalizing s with
  | nil =>
      obtain rfl := Option.some.inj h
      rw [eventRows, List.zipIdx_nil]
      simp [unlines]
  | cons e events ih =>
      rw [List.foldlM_cons] at h
      obtain ⟨t, ht, hrest⟩ := Option.bind_eq_some_iff.mp h
      have hlt : ¬ 2 ^ 31 ≤ s.ctx.nEvents + 1 := by
        intro hle
        rw [printNetevent, if_pos hle] at ht
        cases ht
      rw [printNetevent, if_neg hlt, if_neg (Nat.lt_irrefl _)] at ht
      obtain rfl := Option.some.inj ht
      rw [ih hrest, eventRows, eventRows, List.zipIdx_cons, List.map_cons,
        List.map_cons, unlines_cons]
      simp [unlines, Nat.add_assoc, Nat.add_comm 1]

/-- Below 2^31 it prints them all. -/
theorem foldlM_printNetevent_ne_none {events : List NetEvent} {s : Printer}
    (h : s.ctx.nEvents + events.length < 2 ^ 31) :
    events.foldlM (printNetevent sizeofNetevent) s ≠ none := by
  induction events generalizing s with
  | nil => exact Option.some_ne_none s
  | cons e events ih =>
      rw [List.length_cons] at h
      rw [List.foldlM_cons, printNetevent, if_neg (by omega),
        if_neg (Nat.lt_irrefl _)]
      exact ih (by show s.ctx.nEvents + 1 + events.length < 2 ^ 31; omega)

end XdpIds.Listener
