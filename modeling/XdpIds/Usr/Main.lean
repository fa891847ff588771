/-
The `main`s of the five user-space programs: what they call, in which
order, on every way out.

# A run

`Setup` is what the calls of a run's setup return, a `Turn` what one
iteration of its loop meets: whether a signal has set `exiting`, what the
poll returns, the time. A run is the list of its calls and its exit code,
and is given once its loop is left; with the turns so far it may still be
in it.

`Progress` is a `main` between two statements. Once `left`, by a `goto
cleanup` or by leaving the loop, no stage does anything any more
(`Progress.stage`).

# The programs

The three listeners are one `main` up to how they attach. dt_xdp fills
its map between creating the ring and the loop. count_IPs has no ring;
its listing reads `map_fd`, a variable that is declared behind the first
three `goto cleanup`s.
-/
import XdpIds.Tree.Node

namespace XdpIds.Usr

open XdpIds.Tree (DT_NODE_NB)

-- =============================================================== arguments

/-- A C string. -/
abbrev CString := List Char

/-- `isspace`. -/
def isSpace (c : Char) : Bool := c = ' ' || (9 ≤ c.toNat && c.toNat ≤ 13)

/-- The number of the leading digits. -/
def digits (s : CString) : Int :=
  Nat.ofDigitChars 10 (s.takeWhile Char.isDigit) 0

/-- `atoi`, where the result is an `int`. -/
def atoi (s : CString) : Option Int :=
  let value := match s.dropWhile isSpace with
    | '-' :: rest => -digits rest
    | '+' :: rest => digits rest
    | rest => digits rest
  if -2 ^ 31 ≤ value ∧ value < 2 ^ 31 then some value else none

/-- `struct handle_event_ctx` as it is created, and `benchmark_time`. -/
structure HeCtx where
  printAll : Bool
  benchmarkTime : Int
deriving DecidableEq, Repr

/-- `init_he_ctx`; `benchmark_time` is 0 before. -/
def initHeCtx (argv : List CString) : Option HeCtx :=
  match argv with
  | [_, all] => (atoi all).map fun a => ⟨a != 0, 0⟩
  | [_, all, time] =>
      (atoi time).bind fun t =>
        (atoi all).map fun a => ⟨a != 0, if t < 0 then 0 else t⟩
  | _ => some ⟨false, 0⟩

/-- `init_bench_time`. -/
def initBenchTime (argv : List CString) : Option Int :=
  match argv with
  | _ :: time :: _ => (atoi time).map fun t => if t < 0 then 0 else t
  | _ => some 0

-- ==================================================================== runs

/-- The calls of the programs that take, use or give back something. -/
inductive Call where
  | openSkel (ok : Bool)
  | load (err : Int)
  | attach (err : Int)
  | nametoindex (ifindex : Nat)
  | attachLink (ok : Bool)
  | ringNew (ok : Bool)
  | mapFd (fd : Int)
  | updateElem (ok : Bool)
  | header
  | poll (err : Int)
  /-- count_IPs's listing, by the `map_fd` it reads; `none` is a variable
  that was never written. -/
  | list (mapFd : Option Int)
  /-- `ring_buffer__free(rb)`, where `rb` may still be NULL. -/
  | ringFree (live : Bool)
  | destroy
deriving DecidableEq, Repr

/-- One iteration of a main loop. -/
structure Turn where
  exiting : Bool
  poll : Int
  now : Int

/-- A finished run. -/
structure Run where
  calls : List Call
  exit : Int

/-- A `main` between two statements. -/
structure Progress where
  calls : List Call
  err : Int
  left : Bool

namespace Progress

/-- A call that may assign `err` and may `goto cleanup`. -/
def stage (p : Progress) (call : Call) (assigns : Option Int)
    (failed : Bool) : Progress :=
  if p.left then p else ⟨p.calls ++ [call], assigns.getD p.err, failed⟩

/-- A call that does neither. -/
def does (p : Progress) (call : Call) : Progress := p.stage call none false

/-- `rb` is not NULL: a call has returned it a ring. -/
def rb (p : Progress) : Bool := p.calls.contains (.ringNew true)

end Progress

/-- `while (!exiting)`, with the turns it has been through. -/
def loop (body : Turn → Progress → Progress) :
    Progress → List Turn → Option Progress
  | p, [] => if p.left then some p else none
  | p, t :: turns =>
      if p.left || t.exiting then some p else loop body (body t p) turns

/-- `-EINTR`. -/
def negEINTR : Int := -4

-- =============================================================== listeners

/-- How a listener attaches. -/
inductive Hook where
  | tracepoint
  | xdp
  | tc
deriving DecidableEq, Repr

/-- What the calls of a run's setup return; each program uses some. -/
structure Setup where
  opened : Bool
  load : Int
  attach : Int
  ifindex : Nat
  linked : Bool
  ring : Bool
  mapFd : Int
  nodesFd : Int
  update : Nat → Bool

/-- The attach stage: the tracepoint's assigns `err`, the others' do
not. -/
def Hook.attach (hook : Hook) (s : Setup) (p : Progress) : Progress :=
  match hook with
  | .tracepoint => p.stage (.attach s.attach) (some s.attach) (s.attach != 0)
  | .xdp | .tc =>
      (p.stage (.nametoindex s.ifindex) none (s.ifindex == 0)).stage
        (.attachLink s.linked) none (!s.linked)

/-- The body of a listener's loop. -/
def listenBody (benchmarkTime start : Int) (t : Turn) (p : Progress) :
    Progress :=
  if t.poll = negEINTR then p.stage (.poll t.poll) (some 0) true
  else if t.poll < 0 then p.stage (.poll t.poll) (some t.poll) true
  else p.stage (.poll t.poll) (some t.poll)
    (benchmarkTime != 0 && benchmarkTime < t.now - start)

/-- A listener from `open` to `cleanup`. -/
def Hook.body (hook : Hook) (s : Setup) (benchmarkTime start : Int)
    (turns : List Turn) : Option Progress :=
  let p := Progress.stage ⟨[.openSkel true], 0, false⟩ (.load s.load)
    (some s.load) (s.load != 0)
  let p := hook.attach s p
  let p := p.stage (.ringNew s.ring) (if s.ring then none else some (-1))
    (!s.ring)
  loop (listenBody benchmarkTime start) (p.does .header) turns

/-- A listener's `main`. -/
def Hook.main (hook : Hook) (argv : List CString) (s : Setup) (start : Int)
    (turns : List Turn) : Option Run :=
  (initHeCtx argv).bind fun he =>
    if s.opened then
      (hook.body s he.benchmarkTime start turns).map fun p =>
        ⟨p.calls ++ [.ringFree p.rb, .destroy], if p.err < 0 then 1 else 0⟩
    else some ⟨[.openSkel false], 1⟩

-- ================================================================== dt_xdp

/-- `fill_dt_nodes_array`, `n` entries from index `i` on: it stops at the
first update that fails. -/
def fillNodes (update : Nat → Bool) : Nat → Nat → Progress → Progress
  | 0, _, p => p
  | n + 1, i, p =>
      fillNodes update n (i + 1)
        (p.stage (.updateElem (update i)) none (!update i))

/-- The test for the table header: `%` binds tighter than `-`. -/
def headerDue (now start : Int) : Bool := now - start.tmod 30 == 0

/-- The body of dt_xdp's loop. -/
def dtBody (benchmarkTime start : Int) (t : Turn) (p : Progress) : Progress :=
  let p := p.stage (.poll t.poll) (some t.poll) false
  let p := if headerDue t.now start then p.does .header else p
  if t.poll = negEINTR then { p with err := 0, left := true }
  else { p with
    left := t.poll < 0
      || (0 < benchmarkTime && benchmarkTime ≤ t.now - start) }

/-- dt_xdp's `main`. -/
def dtMain (argv : List CString) (s : Setup) (start : Int)
    (turns : List Turn) : Option Run :=
  (initBenchTime argv).bind fun benchmarkTime =>
    if s.opened then
      let p := Progress.stage ⟨[.openSkel true], 0, false⟩ (.load s.load)
        (some s.load) (s.load != 0)
      let p := Hook.xdp.attach s p
      let p := (p.stage (.ringNew s.ring) none (!s.ring)).does .header
      let p := p.stage (.mapFd s.mapFd) none (s.mapFd < 0)
      let p := p.stage (.mapFd s.nodesFd) none (s.nodesFd < 0)
      let p := fillNodes s.update DT_NODE_NB 0 p
      (loop (dtBody benchmarkTime start) p turns).map fun p =>
        ⟨p.calls ++ [.ringFree p.rb, .destroy], 0⟩
    else some ⟨[.openSkel false], 1⟩

-- =============================================================== count_IPs

/-- The body of count_IPs's loop. -/
def countBody (benchmarkTime start : Int) (t : Turn) (p : Progress) :
    Progress :=
  { p with left := 0 < benchmarkTime && benchmarkTime ≤ t.now - start }

/-- count_IPs's `main`. -/
def countMain (argv : List CString) (s : Setup) (start : Int)
    (turns : List Turn) : Option Run :=
  (initBenchTime argv).bind fun benchmarkTime =>
    if s.opened then
      let p := Progress.stage ⟨[.openSkel true], 0, false⟩ (.load s.load)
        (some s.load) (s.load != 0)
      let p := Hook.xdp.attach s p
      let mapFd := if p.left then none else some s.mapFd
      let p := p.stage (.mapFd s.mapFd) none (s.mapFd < 0)
      (loop (countBody benchmarkTime start) p turns).map fun p =>
        ⟨p.calls ++ [.list mapFd, .destroy], 0⟩
    else some ⟨[.openSkel false], 1⟩

end XdpIds.Usr
