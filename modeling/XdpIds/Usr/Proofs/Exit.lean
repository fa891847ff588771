/-
When a run of a user-space program ends, and what it tells by its exit
code and its output.

A loop is left at its first turn that stops it (`loop_isSome_iff`), and a
`main` that is on its way out before its loop passes through it
(`loop_left`). `exit_truthful_iff` is about the listeners' exit codes,
`header_once` about the table header that dt_xdp means to print again
every 30 s, `runs_end_iff` about the loops.
-/
import XdpIds.Usr.Proofs.Lawful

namespace XdpIds.Usr

-- =============================================================== exit codes

/-- The attach stage succeeds. -/
def Hook.Attaches (hook : Hook) (s : Setup) : Prop :=
  match hook with
  | .tracepoint => s.attach = 0
  | .xdp | .tc => s.ifindex ≠ 0 ∧ s.linked = true

/-- The listener gets to its loop. -/
def Hook.SetsUp (hook : Hook) (s : Setup) : Prop :=
  s.opened = true ∧ s.load = 0 ∧ hook.Attaches s ∧ s.ring = true

/-- The turn does not end a listener's loop. -/
def GoesOn (benchmarkTime start : Int) (t : Turn) : Prop :=
  t.exiting = false ∧ 0 ≤ t.poll
    ∧ (benchmarkTime = 0 ∨ t.now - start ≤ benchmarkTime)

/-- The turn that ends the loop is one whose poll failed. -/
def PollFailed (benchmarkTime start : Int) (turns : List Turn) : Prop :=
  ∃ before t after, turns = before ++ t :: after
    ∧ (∀ b ∈ before, GoesOn benchmarkTime start b)
    ∧ t.exiting = false ∧ t.poll < 0 ∧ t.poll ≠ negEINTR

theorem pollFailed_cons {benchmarkTime start : Int} {t : Turn}
    {turns : List Turn} :
    PollFailed benchmarkTime start (t :: turns)
      ↔ (t.exiting = false ∧ t.poll < 0 ∧ t.poll ≠ negEINTR)
        ∨ (GoesOn benchmarkTime start t
          ∧ PollFailed benchmarkTime start turns) := by
  constructor
  · rintro ⟨before, t', after, heq, hbefore, ht'⟩
    cases before with
    | nil =>
        obtain ⟨rfl, -⟩ := List.cons.inj heq
        exact Or.inl ht'
    | cons b before =>
        obtain ⟨rfl, rfl⟩ := List.cons.inj heq
        exact Or.inr ⟨hbefore _ List.mem_cons_self, before, t', after, rfl,
          fun b hb => hbefore b (List.mem_cons_of_mem _ hb), ht'⟩
  · rintro (ht | ⟨hon, before, t', after, rfl, hbefore, ht'⟩)
    · exact ⟨[], t, turns, rfl, by simp, ht⟩
    · refine ⟨t :: before, t', after, rfl, fun b hb => ?_, ht'⟩
      rcases List.mem_cons.mp hb with rfl | hb
      · exact hon
      · exact hbefore b hb

theorem loop_left {body : Turn → Progress → Progress} {p : Progress}
    (hleft : p.left = true) (turns : List Turn) :
    loop body p turns = some p := by
  cases turns with
  | nil => exact if_pos hleft
  | cons t turns => exact if_pos (by rw [hleft]; rfl)

/-- The turn ends the loop by itself. -/
def listenStops (benchmarkTime start : Int) (t : Turn) : Bool :=
  t.poll < 0 || (benchmarkTime != 0 && benchmarkTime < t.now - start)

theorem listenBody_eq {benchmarkTime start : Int} {t : Turn} {p : Progress}
    (hleft : p.left = false) :
    listenBody benchmarkTime start t p
      = ⟨p.calls ++ [.poll t.poll], if t.poll = negEINTR then 0 else t.poll,
        listenStops benchmarkTime start t⟩ := by
  unfold listenBody listenStops Progress.stage
  by_cases hintr : t.poll = negEINTR
  · simp [hleft, hintr, negEINTR]
  · by_cases hneg : t.poll < 0
    · simp [hleft, hintr, hneg]
    · simp [hleft, hintr, hneg]

theorem goesOn_iff {benchmarkTime start : Int} {t : Turn} :
    GoesOn benchmarkTime start t
      ↔ t.exiting = false ∧ listenStops benchmarkTime start t = false := by
  unfold GoesOn listenStops
  simp
  omega

/-- A listener's loop ends in an error when a poll fails. -/
theorem loop_listen {benchmarkTime start : Int} {p p' : Progress}
    {turns : List Turn} (hleft : p.left = false) (herr : 0 ≤ p.err)
    (h : loop (listenBody benchmarkTime start) p turns = some p') :
    p'.err < 0 ↔ PollFailed benchmarkTime start turns := by
  induction turns generalizing p with
  | nil =>
      rw [loop, hleft] at h
      cases h
  | cons t turns ih =>
      rw [loop, hleft, Bool.false_or] at h
      rw [pollFailed_cons, goesOn_iff]
      cases hexit : t.exiting with
      | true =>
          rw [hexit, if_pos rfl] at h
          obtain rfl := Option.some.inj h
          simp [herr]
      | false =>
          rw [hexit, if_neg (by simp), listenBody_eq hleft] at h
          cases hstop : listenStops benchmarkTime start t with
          | true =>
              rw [hstop, loop_left rfl] at h
              obtain rfl := Option.some.inj h
              by_cases hintr : t.poll = negEINTR
              · simp [hintr]
              · simp [hintr]
          | false =>
              rw [hstop] at h
              have hpoll : 0 ≤ t.poll := (goesOn_iff.mpr ⟨hexit, hstop⟩).2.1
              have herr' : 0 ≤ if t.poll = negEINTR then 0 else t.poll := by
                split
                · exact Int.le_refl 0
                · exact hpoll
              rw [ih rfl herr' h]
              simp [Int.not_lt.mpr hpoll]

/-- A listener behind its setup. -/
def Hook.afterSetup (hook : Hook) (s : Setup) : Progress :=
  (hook.attach s (Progress.stage ⟨[.openSkel true], 0, false⟩ (.load s.load)
    (some s.load) (s.load != 0))).stage (.ringNew s.ring)
    (if s.ring then none else some (-1)) (!s.ring)

/-- A listener on the interface that could not be attached. -/
def Hook.Silent (hook : Hook) (s : Setup) : Prop :=
  hook ≠ .tracepoint ∧ s.opened = true ∧ s.load = 0
    ∧ (s.ifindex = 0 ∨ s.linked = false)

/-- The setup gets to the loop with no error, or is on its way out with
one, unless it is silent. -/
theorem afterSetup_cases {hook : Hook} {s : Setup}
    (hopened : s.opened = true) (hload : s.load ≤ 0)
    (hattach : s.attach ≤ 0) :
    (hook.SetsUp s ∧ ¬ hook.Silent s
        ∧ (hook.afterSetup s).left = false ∧ (hook.afterSetup s).err = 0)
      ∨ (¬ hook.SetsUp s ∧ (hook.afterSetup s).left = true
        ∧ ((hook.afterSetup s).err < 0 ↔ ¬ hook.Silent s)) := by
  unfold Hook.afterSetup Hook.SetsUp Hook.Silent Hook.Attaches Hook.attach
  by_cases hzero : s.load = 0
  · -- what is left is the attach stage and the ring
    cases hook with
    | tracepoint =>
        by_cases hatt : s.attach = 0
        · cases s.ring <;> simp [Progress.stage, hopened, hzero, hatt]
        · have hneg : s.attach < 0 := by omega
          simp [Progress.stage, hopened, hzero, hatt, hneg]
    | xdp | tc =>
        by_cases hindex : s.ifindex = 0
        · simp [Progress.stage, hopened, hzero, hindex]
        · cases s.linked <;> cases s.ring <;>
            simp [Progress.stage, hopened, hzero, hindex]
  · have hneg : s.load < 0 := by omega
    cases hook <;> simp [Progress.stage, hopened, hzero, hneg]

theorem does_keeps (p : Progress) (call : Call) :
    (p.does call).left = p.left ∧ (p.does call).err = p.err := by
  unfold Progress.does Progress.stage
  cases hleft : p.left <;> simp [hleft]

/-- A listener's exit code is 0 when it got to its loop and left it
without a failed poll, exactly if it is not one that missed its interface:
the XDP and the TC listener leave with 0 when the interface is not there
or cannot be attached to. -/
theorem exit_truthful_iff {hook : Hook} {argv : List CString} {s : Setup}
    {start : Int} {turns : List Turn} {r : Run} {he : HeCtx}
    (hload : s.load ≤ 0) (hattach : s.attach ≤ 0)
    (hargs : initHeCtx argv = some he)
    (h : hook.main argv s start turns = some r) :
    (r.exit = 0 ↔ hook.SetsUp s ∧ ¬ PollFailed he.benchmarkTime start turns)
      ↔ ¬ (hook ≠ .tracepoint ∧ s.opened = true ∧ s.load = 0
        ∧ (s.ifindex = 0 ∨ s.linked = false)) := by
  show _ ↔ ¬ hook.Silent s
  rw [Hook.main, hargs, Option.bind_some] at h
  split at h
  · next hopened =>
      obtain ⟨p, hloop, rfl⟩ := Option.map_eq_some_iff.mp h
      change loop (listenBody he.benchmarkTime start)
        ((hook.afterSetup s).does .header) turns = some p at hloop
      obtain ⟨hsame, herr⟩ := does_keeps (hook.afterSetup s) .header
      have hexit : (if p.err < 0 then (1 : Int) else 0) = 0 ↔ ¬ p.err < 0 := by
        split <;> simp [*]
      rcases @afterSetup_cases hook s hopened hload hattach with
        ⟨hset, hsilent, hleft, hzero⟩ | ⟨hset, hleft, hsilent⟩
      · have hfailed := loop_listen (hsame.trans hleft)
          (by rw [herr, hzero]) hloop
        simp [hexit, hfailed, hset, hsilent]
      · rw [loop_left (hsame.trans hleft)] at hloop
        obtain rfl := Option.some.inj hloop
        rw [hexit, herr, hsilent]
        simp [hset]
  · next hclosed =>
      obtain rfl := Option.some.inj h
      simp [Hook.SetsUp, Hook.Silent, hclosed]

/-- The XDP listener without its interface: exit code 0, no loop. -/
theorem exit_truthful_iff_noInterface :
    ∃ r, Hook.xdp.main ["net_listener_xdp".toList] noInterface 100 [] = some r
      ∧ ¬ (r.exit = 0 ↔ Hook.xdp.SetsUp noInterface
        ∧ ¬ PollFailed 0 100 []) := by
  refine ⟨_, rfl, fun h => ?_⟩
  have hiff := @exit_truthful_iff .xdp ["net_listener_xdp".toList] noInterface
    100 [] _ ⟨false, 0⟩ (by simp [noInterface]) (by simp [noInterface]) rfl rfl
  exact (hiff.mp h) ⟨by simp, rfl, rfl, Or.inl rfl⟩

-- =============================================================== the header

/-- How often the table header has been printed. -/
def Progress.headers (p : Progress) : Nat := p.calls.count .header

theorem stage_headers (p : Progress) {call : Call} (assigns : Option Int)
    (failed : Bool) (hcall : call ≠ .header) :
    (p.stage call assigns failed).headers = p.headers := by
  unfold Progress.stage Progress.headers
  split
  · rfl
  · simp [List.count_append, hcall]

theorem fillNodes_headers (update : Nat → Bool) (n i : Nat) (p : Progress) :
    (fillNodes update n i p).headers = p.headers := by
  induction n generalizing i p with
  | zero => rfl
  | succ n ih => rw [fillNodes, ih, stage_headers _ _ _ (by simp)]

/-- From half a minute after the epoch on, the test never holds. -/
theorem headerDue_false {now start : Int} (hstart : 0 ≤ start)
    (hnow : 30 ≤ now) : headerDue now start = false := by
  have hmod : start.tmod 30 = start % 30 := Int.tmod_eq_emod_of_nonneg hstart
  unfold headerDue
  rw [hmod]
  simp
  omega

theorem loop_headers {body : Turn → Progress → Progress} {p p' : Progress}
    {turns : List Turn}
    (hbody : ∀ t ∈ turns, ∀ p, (body t p).headers = p.headers)
    (h : loop body p turns = some p') : p'.headers = p.headers := by
  induction turns generalizing p with
  | nil =>
      unfold loop at h
      split at h
      · rw [Option.some.inj h]
      · cases h
  | cons t turns ih =>
      unfold loop at h
      split at h
      · rw [Option.some.inj h]
      · rw [ih (fun t' ht' => hbody t' (List.mem_cons_of_mem _ ht')) h,
          hbody t List.mem_cons_self]

theorem dtBody_headers {benchmarkTime start : Int} {t : Turn}
    (hdue : headerDue t.now start = false) (p : Progress) :
    (dtBody benchmarkTime start t p).headers = p.headers := by
  have hpoll := stage_headers p (some t.poll) false
    (show Call.poll t.poll ≠ .header by simp)
  unfold dtBody
  simp only [hdue]
  split
  · exact hpoll
  · exact hpoll

theorem does_header_le (p : Progress) :
    (p.does .header).headers ≤ p.headers + 1 := by
  unfold Progress.does Progress.stage Progress.headers
  split
  · omega
  · simp [List.count_append]

/-- dt_xdp prints the table header at most once, however long it runs. -/
theorem header_once {argv : List CString} {s : Setup} {start : Int}
    {turns : List Turn} {r : Run} (hstart : 0 ≤ start)
    (hnow : ∀ t ∈ turns, 30 ≤ t.now)
    (h : dtMain argv s start turns = some r) :
    r.calls.count .header ≤ 1 := by
  obtain ⟨benchmarkTime, -, h⟩ := Option.bind_eq_some_iff.mp h
  split at h
  · obtain ⟨p, hloop, rfl⟩ := Option.map_eq_some_iff.mp h
    have hkeep := loop_headers (fun t ht p =>
      dtBody_headers (headerDue_false hstart (hnow t ht)) p) hloop
    rw [fillNodes_headers, stage_headers _ _ _ (by simp),
      stage_headers _ _ _ (by simp)] at hkeep
    have hsetup : ∀ q : Progress, ((Hook.xdp.attach s q).stage
        (.ringNew s.ring) none (!s.ring)).headers = q.headers := by
      intro q
      unfold Hook.attach
      rw [stage_headers _ _ _ (by simp), stage_headers _ _ _ (by simp),
        stage_headers _ _ _ (by simp)]
    have hone := does_header_le ((Hook.xdp.attach s (Progress.stage
      ⟨[.openSkel true], 0, false⟩ (.load s.load) (some s.load)
        (s.load != 0))).stage (.ringNew s.ring) none (!s.ring))
    rw [hsetup, stage_headers _ _ _ (by simp)] at hone
    have hcount : (p.calls ++ [Call.ringFree p.rb, .destroy]).count .header
        = p.headers := by
      simp [Progress.headers, List.count_append]
    rw [hcount, hkeep]
    exact hone
  · obtain rfl := Option.some.inj h
    simp

set_option maxRecDepth 4000 in
/-- Two minutes, with the half-minute marks. -/
theorem header_once_twoMinutes :
    ∃ r, dtMain ["dt_xdp".toList, "120".toList]
        ⟨true, 0, 0, 2, true, true, 3, 4, fun _ => true⟩ 1000
        [⟨false, 0, 1000⟩, ⟨false, 3, 1030⟩, ⟨false, 0, 1120⟩] = some r
      ∧ r.calls.count .header ≤ 1 := by
  refine ⟨_, rfl, ?_⟩
  refine @header_once ["dt_xdp".toList, "120".toList]
    ⟨true, 0, 0, 2, true, true, 3, 4, fun _ => true⟩ 1000
    [⟨false, 0, 1000⟩, ⟨false, 3, 1030⟩, ⟨false, 0, 1120⟩] _ (by simp) ?_ rfl
  simp

-- ============================================================== the way out

section End

variable {benchmarkTime start : Int} {p : Progress}

/-- A loop whose body stops on some turns is left when one of them comes,
or a signal. -/
theorem loop_isSome_iff {body : Turn → Progress → Progress}
    {stops : Turn → Bool}
    (hbody : ∀ t p, p.left = false → (body t p).left = stops t)
    (hleft : p.left = false) (turns : List Turn) :
    (loop body p turns).isSome = true
      ↔ ∃ t ∈ turns, t.exiting = true ∨ stops t = true := by
  induction turns generalizing p with
  | nil => simp [loop, hleft]
  | cons t turns ih =>
      rw [loop, hleft, Bool.false_or]
      cases hexit : t.exiting with
      | true => simp [hexit]
      | false =>
          rw [if_neg (by simp)]
          cases hstop : stops t with
          | true =>
              rw [loop_left ((hbody t p hleft).trans hstop)]
              simp [hstop]
          | false =>
              rw [ih ((hbody t p hleft).trans hstop)]
              simp [hexit, hstop]

/-- The turn ends dt_xdp's loop by itself. -/
def dtStops (benchmarkTime start : Int) (t : Turn) : Bool :=
  t.poll < 0 || (0 < benchmarkTime && benchmarkTime ≤ t.now - start)

theorem dtBody_left (t : Turn) :
    (dtBody benchmarkTime start t p).left
      = dtStops benchmarkTime start t := by
  unfold dtBody dtStops
  simp only
  split
  · next hintr => simp [hintr, negEINTR]
  · rfl

/-- The turn ends count_IPs's loop by itself. -/
def countStops (benchmarkTime start : Int) (t : Turn) : Bool :=
  0 < benchmarkTime && benchmarkTime ≤ t.now - start

theorem countBody_left (t : Turn) :
    (countBody benchmarkTime start t p).left
      = countStops benchmarkTime start t := rfl

theorem stage_left {call : Call} {assigns : Option Int} {failed : Bool} :
    (p.stage call assigns failed).left = (p.left || failed) := by
  unfold Progress.stage
  cases hleft : p.left <;> simp [hleft]

theorem fillNodes_left (update : Nat → Bool) (n i : Nat) :
    (fillNodes update n i p).left = false
      ↔ p.left = false ∧ ∀ j, i ≤ j → j < i + n → update j = true := by
  induction n generalizing i p with
  | zero => simp [fillNodes]; omega
  | succ n ih =>
      rw [fillNodes, ih, stage_left, Bool.or_eq_false_iff,
        Bool.not_eq_false']
      constructor
      · rintro ⟨⟨hleft, hi⟩, hrest⟩
        refine ⟨hleft, fun j hij hj => ?_⟩
        rcases Nat.eq_or_lt_of_le hij with rfl | hlt
        · exact hi
        · exact hrest j hlt (by omega)
      · rintro ⟨hleft, hall⟩
        exact ⟨⟨hleft, hall i (Nat.le_refl i) (by omega)⟩,
          fun j hij hj => hall j (by omega) (by omega)⟩

end End

/-- dt_xdp gets to its loop. -/
def DtSetsUp (s : Setup) : Prop :=
  s.opened = true ∧ s.load = 0 ∧ s.ifindex ≠ 0 ∧ s.linked = true
    ∧ s.ring = true ∧ 0 ≤ s.mapFd ∧ 0 ≤ s.nodesFd
    ∧ ∀ i < Tree.DT_NODE_NB, s.update i = true

/-- count_IPs gets to its loop. -/
def CountSetsUp (s : Setup) : Prop :=
  s.opened = true ∧ s.load = 0 ∧ s.ifindex ≠ 0 ∧ s.linked = true
    ∧ 0 ≤ s.mapFd

theorem Hook.main_isSome_iff {hook : Hook} {argv : List CString} {s : Setup}
    {he : HeCtx} (hargs : initHeCtx argv = some he) (hset : hook.SetsUp s)
    (start : Int) (turns : List Turn) :
    (hook.main argv s start turns).isSome = true
      ↔ ∃ t ∈ turns, t.exiting = true
        ∨ listenStops he.benchmarkTime start t = true := by
  have hleft : ((hook.afterSetup s).does .header).left = false := by
    rw [(does_keeps _ _).1]
    unfold Hook.afterSetup
    obtain ⟨-, hload, hattach, hring⟩ := hset
    rw [stage_left, hring]
    cases hook with
    | tracepoint =>
        have hatt : s.attach = 0 := hattach
        simp [Hook.attach, stage_left, hload, hatt]
    | xdp | tc =>
        obtain ⟨hindex, hlinked⟩ := hattach
        simp [Hook.attach, stage_left, hload, hindex, hlinked]
  rw [Hook.main, hargs, Option.bind_some, if_pos hset.1, Option.isSome_map]
  apply loop_isSome_iff (fun t p hp => ?_) hleft
  rw [listenBody_eq hp]

theorem dtMain_isSome_iff {argv : List CString} {s : Setup}
    {benchmarkTime : Int} (hargs : initBenchTime argv = some benchmarkTime)
    (hset : DtSetsUp s) (start : Int) (turns : List Turn) :
    (dtMain argv s start turns).isSome = true
      ↔ ∃ t ∈ turns, t.exiting = true
        ∨ dtStops benchmarkTime start t = true := by
  obtain ⟨hopened, hload, hindex, hlinked, hring, hfd, hnodes, hupdate⟩ := hset
  rw [dtMain, hargs, Option.bind_some, if_pos hopened, Option.isSome_map]
  apply loop_isSome_iff fun t p _ => dtBody_left t
  rw [fillNodes_left]
  refine ⟨?_, fun j _ hj => hupdate j (by omega)⟩
  have hfd' : ¬ s.mapFd < 0 := by omega
  have hnodes' : ¬ s.nodesFd < 0 := by omega
  simp [Progress.does, Hook.attach, stage_left, hload, hindex, hlinked, hring,
    hfd', hnodes']

theorem countMain_isSome_iff {argv : List CString} {s : Setup}
    {benchmarkTime : Int} (hargs : initBenchTime argv = some benchmarkTime)
    (hset : CountSetsUp s) (start : Int) (turns : List Turn) :
    (countMain argv s start turns).isSome = true
      ↔ ∃ t ∈ turns, t.exiting = true
        ∨ countStops benchmarkTime start t = true := by
  obtain ⟨hopened, hload, hindex, hlinked, hfd⟩ := hset
  rw [countMain, hargs, Option.bind_some, if_pos hopened, Option.isSome_map]
  apply loop_isSome_iff fun t p _ => countBody_left t
  have hfd' : ¬ s.mapFd < 0 := by omega
  simp [Hook.attach, stage_left, hload, hindex, hlinked, hfd']

/-- No argument makes the benchmark time negative. -/
theorem initBenchTime_nonneg {argv : List CString} {b : Int}
    (h : initBenchTime argv = some b) : 0 ≤ b := by
  unfold initBenchTime at h
  split at h
  · obtain ⟨t, -, rfl⟩ := Option.map_eq_some_iff.mp h
    split <;> omega
  · obtain rfl := Option.some.inj h
    exact Int.le_refl 0

theorem initHeCtx_nonneg {argv : List CString} {he : HeCtx}
    (h : initHeCtx argv = some he) : 0 ≤ he.benchmarkTime := by
  unfold initHeCtx at h
  split at h
  · obtain ⟨a, -, rfl⟩ := Option.map_eq_some_iff.mp h
    exact Int.le_refl 0
  · obtain ⟨t, -, h⟩ := Option.bind_eq_some_iff.mp h
    obtain ⟨a, -, rfl⟩ := Option.map_eq_some_iff.mp h
    simp only
    split <;> omega
  · obtain rfl := Option.some.inj h
    exact Int.le_refl 0

/-- When the loops are left. The benchmark time is not negative, whatever
the arguments; past its setup a run ends when a signal, a failed poll or
the end of a positive benchmark time comes, and at nothing else. The
listeners wait until more than the benchmark time is over, the other two
until it is. -/
theorem runs_end_iff (argv : List CString) (s : Setup) (start : Int)
    (turns : List Turn) :
    (∀ (hook : Hook) (he : HeCtx), initHeCtx argv = some he →
      0 ≤ he.benchmarkTime ∧ (hook.SetsUp s →
        ((hook.main argv s start turns).isSome = true
          ↔ ∃ t ∈ turns, t.exiting = true ∨ t.poll < 0
            ∨ (0 < he.benchmarkTime
              ∧ he.benchmarkTime < t.now - start))))
    ∧ ∀ b, initBenchTime argv = some b →
      0 ≤ b ∧ (DtSetsUp s →
        ((dtMain argv s start turns).isSome = true
          ↔ ∃ t ∈ turns, t.exiting = true ∨ t.poll < 0
            ∨ (0 < b ∧ b ≤ t.now - start)))
      ∧ (CountSetsUp s →
        ((countMain argv s start turns).isSome = true
          ↔ ∃ t ∈ turns, t.exiting = true
            ∨ (0 < b ∧ b ≤ t.now - start))) := by
  refine ⟨fun hook he hargs => ⟨initHeCtx_nonneg hargs, fun hset => ?_⟩,
    fun b hargs => ⟨initBenchTime_nonneg hargs, fun hset => ?_,
      fun hset => ?_⟩⟩
  · have hnonneg := initHeCtx_nonneg hargs
    have hpos : he.benchmarkTime ≠ 0 ↔ 0 < he.benchmarkTime := by omega
    rw [Hook.main_isSome_iff hargs hset]
    simp [listenStops, hpos]
  · rw [dtMain_isSome_iff hargs hset]
    simp [dtStops]
  · rw [countMain_isSome_iff hargs hset]
    simp [countStops]

/-- Ten seconds: the listener goes on where dt_xdp stops. -/
theorem runs_end_iff_tenSeconds :
    (Hook.tc.main ["net_listener_tc".toList, "1".toList, "10".toList]
        ⟨true, 0, 0, 2, true, true, 3, 4, fun _ => true⟩ 1000
        [⟨false, 0, 1010⟩]).isSome = false
      ∧ (dtMain ["dt_xdp".toList, "10".toList]
        ⟨true, 0, 0, 2, true, true, 3, 4, fun _ => true⟩ 1000
        [⟨false, 0, 1010⟩]).isSome = true := by
  have hlisten := ((runs_end_iff ["net_listener_tc".toList, "1".toList,
    "10".toList] ⟨true, 0, 0, 2, true, true, 3, 4, fun _ => true⟩ 1000
    [⟨false, 0, 1010⟩]).1 .tc ⟨true, 10⟩ rfl).2
    ⟨rfl, rfl, ⟨by simp, rfl⟩, rfl⟩
  have hdt := ((runs_end_iff ["dt_xdp".toList, "10".toList]
    ⟨true, 0, 0, 2, true, true, 3, 4, fun _ => true⟩ 1000
    [⟨false, 0, 1010⟩]).2 10 rfl).2.1
    ⟨rfl, rfl, by simp, rfl, rfl, by simp, by simp, fun _ _ => rfl⟩
  refine ⟨?_, hdt.mpr (by simp)⟩
  rw [← Bool.not_eq_true, hlisten]
  simp

end XdpIds.Usr
