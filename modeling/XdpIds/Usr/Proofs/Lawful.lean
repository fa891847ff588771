/-
The handles of a user-space program's run: what it opens, uses and gives
back, on every way out.

`lawful` is the discipline of the libraries' handles: a skeleton is
loaded once, used after that, and destroyed once, after the ring that
reads one of its maps; only a ring that is there is polled or freed, and
NULL is freed only where there is none.

`Live` is what is known of a `main` between two statements, and its rules
follow the statements: a stage, the loop, the two ways of cleaning up.
With them every run of the listeners and of dt_xdp is lawful and gives
back what it took at its end (`Tidy`), and a run of count_IPs is lawful
unless it lists a map it never looked up (`runs_lawful`).
-/
import XdpIds.Lib.Transition
import XdpIds.Usr.Main

namespace XdpIds.Usr

open Transition (run run_append)

-- ============================================================= the discipline

/-- What a program has open. -/
structure Handles where
  skel : Bool
  loaded : Bool
  ring : Bool
deriving DecidableEq, Repr

/-- Nothing open. -/
def Handles.closed : Handles := ⟨false, false, false⟩

/-- What a call needs, and what is open after it. -/
def lawful (h : Handles) : Call → Option Handles
  | .openSkel ok => if h.skel then none else some { h with skel := ok }
  | .load err =>
      if h.skel && !h.loaded then some { h with loaded := err == 0 } else none
  | .attach _ | .attachLink _ | .mapFd _ | .updateElem _ =>
      if h.skel && h.loaded then some h else none
  | .nametoindex _ | .header => some h
  | .ringNew ok =>
      if h.skel && h.loaded && !h.ring then some { h with ring := ok }
      else none
  | .poll _ => if h.ring then some h else none
  | .list mapFd => if h.skel && mapFd.isSome then some h else none
  | .ringFree live =>
      if h.ring = live then some { h with ring := false } else none
  | .destroy => if h.skel && !h.ring then some .closed else none

/-- A ring is freed once. -/
example : run lawful ⟨true, true, true⟩ [.ringFree true, .ringFree true]
    = none := by decide

/-- The call gives nothing back. -/
def Call.keeps : Call → Bool
  | .ringFree _ | .destroy => false
  | _ => true

/-- The calls are lawful and leave nothing open. A skeleton that was
opened is destroyed once, at the end, and the ring is freed once, before
it; what is freed is NULL if no ring was created. -/
structure Tidy (opened : Bool) (calls : List Call) : Prop where
  closes : run lawful .closed calls = some .closed
  ends : opened = true → ∃ uses : List Call,
    calls = uses ++ [.ringFree (uses.contains (.ringNew true)), .destroy]
      ∧ ∀ call ∈ uses, call.keeps = true

/-- The calls so far are lawful and give nothing back, `rb` is the ring,
`a` holds of what is open, and so does `q` unless the program is on its
way out. -/
def Live (p : Progress) (a q : Handles → Prop) : Prop :=
  (∀ call ∈ p.calls, call.keeps = true)
    ∧ ∃ h, run lawful .closed p.calls = some h ∧ h.ring = p.rb ∧ a h
      ∧ (p.left = false → q h)

/-- The skeleton is open. -/
def Open (h : Handles) : Prop := h.skel = true

/-- The skeleton is open, and no ring. -/
def Bare (h : Handles) : Prop := h.skel = true ∧ h.ring = false

section Rules

variable {p : Progress} {a a' q q' : Handles → Prop}

/-- A ring is there once it was created, until it is freed. -/
theorem lawful_ring {h h' : Handles} {call : Call} (hkeeps : call.keeps = true)
    (hstep : lawful h call = some h') :
    h'.ring = (h.ring || decide (Call.ringNew true = call)) := by
  cases call with
  | ringFree live => cases hkeeps
  | destroy => cases hkeeps
  | ringNew ok =>
      obtain ⟨hcan, heq⟩ := Option.ite_none_right_eq_some.mp hstep
      obtain rfl := Option.some.inj heq
      simp only [Bool.and_eq_true, Bool.not_eq_true'] at hcan
      simp [hcan.2]
  | openSkel ok =>
      obtain ⟨-, heq⟩ := Option.ite_none_left_eq_some.mp hstep
      obtain rfl := Option.some.inj heq
      simp
  | nametoindex ifindex =>
      obtain rfl := Option.some.inj hstep
      simp
  | header =>
      obtain rfl := Option.some.inj hstep
      simp
  | _ =>
      obtain ⟨-, heq⟩ := Option.ite_none_right_eq_some.mp hstep
      obtain rfl := Option.some.inj heq
      simp

/-- A stage that is lawful where it is made. -/
theorem Live.stage {call : Call} {assigns : Option Int} {failed : Bool}
    (hkeeps : call.keeps = true) (hp : Live p a q) (ha : ∀ h, a h → a' h)
    (hcall : ∀ h, a h → q h → ∃ h', lawful h call = some h'
      ∧ a' h' ∧ (failed = false → q' h')) :
    Live (p.stage call assigns failed) a' q' := by
  obtain ⟨hkept, h, hrun, hring, hopen, hq⟩ := hp
  unfold Progress.stage
  cases hleft : p.left with
  | true =>
      refine ⟨hkept, h, hrun, hring, ha h hopen, fun hno => ?_⟩
      rw [if_pos rfl, hleft] at hno
      cases hno
  | false =>
      obtain ⟨h', hstep, hopen', hq'⟩ := hcall h hopen (hq hleft)
      refine ⟨fun c hc => ?_, h', ?_, ?_, hopen', hq'⟩
      · rcases List.mem_append.mp hc with hc | hc
        · exact hkept c hc
        · rw [List.mem_singleton.mp hc]
          exact hkeeps
      · rw [if_neg (by simp), run_append, hrun, Option.bind_some, run, hstep]
        rfl
      · rw [lawful_ring hkeeps hstep, hring, if_neg (by simp)]
        simp [Progress.rb]

/-- What each turn keeps, the loop keeps. -/
theorem Live.loop {body : Turn → Progress → Progress} {turns : List Turn}
    {p' : Progress} (hp : Live p a q)
    (hbody : ∀ t p, p.left = false → Live p a q → Live (body t p) a q)
    (h : loop body p turns = some p') : Live p' a q := by
  induction turns generalizing p with
  | nil =>
      unfold Usr.loop at h
      split at h
      · obtain rfl := Option.some.inj h
        exact hp
      · cases h
  | cons t turns ih =>
      unfold Usr.loop at h
      split at h
      · obtain rfl := Option.some.inj h
        exact hp
      · next hon =>
          have hleft : p.left = false := by
            simp only [Bool.or_eq_true, not_or, Bool.not_eq_true] at hon
            exact hon.1
          exact ih (hbody t p hleft hp) h

/-- Freeing the ring and destroying the skeleton closes everything. -/
theorem Live.cleanup (hp : Live p Open q) (opened : Bool) :
    Tidy opened (p.calls ++ [.ringFree p.rb, .destroy]) := by
  obtain ⟨hkept, h, hrun, hring, hskel, -⟩ := hp
  have hskel' : h.skel = true := hskel
  refine ⟨?_, fun _ => ⟨p.calls, rfl, hkept⟩⟩
  rw [run_append, hrun, Option.bind_some]
  simp [run, lawful, hskel', hring]

/-- A skeleton that could not be opened leaves nothing to do. -/
theorem tidy_unopened {opened : Bool} (h : ¬ opened = true) :
    Tidy opened [.openSkel false] :=
  ⟨rfl, fun ho => absurd ho h⟩

/-- So does listing a map and destroying the skeleton, when there is a map
to list. -/
theorem Live.listing (hp : Live p Bare q) (mapFd : Option Int) :
    run lawful .closed (p.calls ++ [.list mapFd, .destroy]) = some .closed
      ↔ mapFd.isSome = true := by
  obtain ⟨-, h, hrun, -, hbare, -⟩ := hp
  rw [run_append, hrun, Option.bind_some]
  cases mapFd with
  | none => simp [run, lawful]
  | some fd => simp [run, lawful, hbare.1, hbare.2]

end Rules

-- =================================================================== setups

/-- The skeleton is loaded. -/
def Loaded (h : Handles) : Prop := h.loaded = true

/-- The skeleton is loaded, and the ring is there. -/
def Ringing (h : Handles) : Prop := h.loaded = true ∧ h.ring = true

section Setup

variable {p : Progress} {s : Setup} {a q : Handles → Prop}

theorem live_load (err : Int) :
    Live (Progress.stage ⟨[.openSkel true], 0, false⟩ (.load err) (some err)
      (err != 0)) Bare Loaded := by
  have hopen : Live ⟨[.openSkel true], 0, false⟩ Bare fun h =>
      h.loaded = false :=
    ⟨by simp [Call.keeps], ⟨true, false, false⟩, rfl, rfl, ⟨rfl, rfl⟩,
      fun _ => rfl⟩
  refine hopen.stage rfl (fun _ h => h) fun h hbare hq =>
    ⟨{ h with loaded := err == 0 }, ?_, hbare, fun herr => ?_⟩
  · simp [lawful, hbare.1, hq]
  · simpa [Loaded] using herr

/-- A call that changes nothing that is open. -/
theorem Live.uses {call : Call} {assigns : Option Int} {failed : Bool}
    (hkeeps : call.keeps = true) (hp : Live p a q)
    (hcall : ∀ h, a h → q h → lawful h call = some h) :
    Live (p.stage call assigns failed) a q :=
  hp.stage hkeeps (fun _ h => h) fun h ha hq =>
    ⟨h, hcall h ha hq, ha, fun _ => hq⟩

theorem Live.attached (hp : Live p Bare Loaded) (hook : Hook) :
    Live (hook.attach s p) Bare Loaded := by
  have huse : ∀ h, Bare h → Loaded h → (h.skel && h.loaded) = true := by
    intro h hbare hloaded
    rw [hbare.1, hloaded]
    rfl
  cases hook with
  | tracepoint => exact hp.uses rfl fun h hb hq => if_pos (huse h hb hq)
  | xdp =>
      exact Live.uses rfl (hp.uses rfl fun h _ _ => rfl) fun h hb hq =>
        if_pos (huse h hb hq)
  | tc =>
      exact Live.uses rfl (hp.uses rfl fun h _ _ => rfl) fun h hb hq =>
        if_pos (huse h hb hq)

theorem Live.ring (hp : Live p Bare Loaded) (ok : Bool)
    (assigns : Option Int) :
    Live (p.stage (.ringNew ok) assigns (!ok)) Open Ringing := by
  refine hp.stage rfl (fun _ h => h.1) fun h hbare hq =>
    ⟨{ h with ring := ok }, ?_, hbare.1, fun hok => ⟨hq, ?_⟩⟩
  · have hloaded : h.loaded = true := hq
    simp [lawful, hbare.1, hbare.2, hloaded]
  · simpa using hok

theorem Live.fd (hp : Live p a q) (hskel : ∀ h, a h → h.skel = true)
    (hloaded : ∀ h, q h → h.loaded = true) (fd : Int) (failed : Bool) :
    Live (p.stage (.mapFd fd) none failed) a q :=
  hp.uses rfl fun h ha hq => by simp [lawful, hskel h ha, hloaded h hq]

theorem Live.fill (hp : Live p Open Ringing) (update : Nat → Bool)
    (n i : Nat) : Live (fillNodes update n i p) Open Ringing := by
  induction n generalizing p i with
  | zero => exact hp
  | succ n ih =>
      refine ih (hp.uses rfl fun h hskel hq => ?_) (i + 1)
      have hskel' : h.skel = true := hskel
      simp [lawful, hskel', hq.1]

theorem Live.polled (hp : Live p Open Ringing) (err : Int)
    (assigns : Option Int) (failed : Bool) :
    Live (p.stage (.poll err) assigns failed) Open Ringing :=
  hp.uses rfl fun h _ hq => by simp [lawful, hq.2]

theorem Live.header (hp : Live p a q) : Live (p.does .header) a q :=
  hp.uses rfl fun _ _ _ => rfl

/-- Leaving changes nothing that is open. -/
theorem Live.leaves (hp : Live p a q) {err : Int} {left : Bool}
    (hleft : p.left = false) :
    Live { p with err := err, left := left } a q := by
  obtain ⟨hkept, h, hrun, hring, ha, hq⟩ := hp
  exact ⟨hkept, h, hrun, hring, ha, fun _ => hq hleft⟩

end Setup

-- ================================================================= the runs

theorem Hook.main_tidy {hook : Hook} {argv : List CString} {s : Setup}
    {start : Int} {turns : List Turn} {r : Run}
    (h : hook.main argv s start turns = some r) :
    Tidy s.opened r.calls := by
  obtain ⟨he, -, h⟩ := Option.bind_eq_some_iff.mp h
  split at h
  · obtain ⟨p, hloop, rfl⟩ := Option.map_eq_some_iff.mp h
    have hring := ((live_load s.load).attached (s := s) hook).ring s.ring
      (if s.ring then none else some (-1))
    refine (hring.header.loop (fun t p _ hp => ?_) hloop).cleanup _
    unfold listenBody
    split
    · exact hp.polled _ _ _
    · split
      · exact hp.polled _ _ _
      · exact hp.polled _ _ _
  · next hopened =>
      obtain rfl := Option.some.inj h
      exact tidy_unopened hopened

theorem dtMain_tidy {argv : List CString} {s : Setup} {start : Int}
    {turns : List Turn} {r : Run} (h : dtMain argv s start turns = some r) :
    Tidy s.opened r.calls := by
  obtain ⟨benchmarkTime, -, h⟩ := Option.bind_eq_some_iff.mp h
  split at h
  · obtain ⟨p, hloop, rfl⟩ := Option.map_eq_some_iff.mp h
    have hring := (((live_load s.load).attached (s := s) .xdp).ring s.ring
      none).header
    have hfds := (hring.fd (fun _ h => h) (fun _ h => h.1) s.mapFd
      (s.mapFd < 0)).fd (fun _ h => h) (fun _ h => h.1) s.nodesFd
      (s.nodesFd < 0)
    have hfill := hfds.fill s.update Tree.DT_NODE_NB 0
    refine (hfill.loop (fun t p hleft hp => ?_) hloop).cleanup _
    have hpoll := hp.polled t.poll (some t.poll) false
    have hheader : Live (if headerDue t.now start then
        (p.stage (.poll t.poll) (some t.poll) false).does .header
        else p.stage (.poll t.poll) (some t.poll) false) Open Ringing := by
      split
      · exact hpoll.header
      · exact hpoll
    have hstays : (if headerDue t.now start then
        (p.stage (.poll t.poll) (some t.poll) false).does .header
        else p.stage (.poll t.poll) (some t.poll) false).left = false := by
      split <;> simp [Progress.does, Progress.stage, hleft]
    unfold dtBody
    simp only
    split
    · exact hheader.leaves hstays
    · exact hheader.leaves hstays
  · next hopened =>
      obtain rfl := Option.some.inj h
      exact tidy_unopened hopened

/-- What is behind the attach stages is reached when none of them
fails. -/
theorem attach_left (s : Setup) :
    (Hook.xdp.attach s (Progress.stage ⟨[.openSkel true], 0, false⟩
      (.load s.load) (some s.load) (s.load != 0))).left = false
      ↔ s.load = 0 ∧ s.ifindex ≠ 0 ∧ s.linked = true := by
  by_cases hload : s.load = 0
  · by_cases hindex : s.ifindex = 0
    · simp [Hook.attach, Progress.stage, hload, hindex]
    · simp [Hook.attach, Progress.stage, hload, hindex]
  · simp [Hook.attach, Progress.stage, hload]

/-- count_IPs's runs are lawful exactly when its listing has a map to
read: the early ways out leave `map_fd` unwritten. -/
theorem countMain_lawful_iff {argv : List CString} {s : Setup} {start : Int}
    {turns : List Turn} {r : Run}
    (h : countMain argv s start turns = some r) :
    run lawful .closed r.calls = some .closed
      ↔ (s.opened = true → s.load = 0 ∧ s.ifindex ≠ 0 ∧ s.linked = true) := by
  obtain ⟨benchmarkTime, -, h⟩ := Option.bind_eq_some_iff.mp h
  split at h
  · next hopened =>
      obtain ⟨p, hloop, rfl⟩ := Option.map_eq_some_iff.mp h
      have hfd := ((live_load s.load).attached (s := s) .xdp).fd
        (fun _ h => h.1) (fun _ h => h) s.mapFd (s.mapFd < 0)
      have hlive := hfd.loop (fun t p hleft hp => hp.leaves hleft) hloop
      rw [hlive.listing, forall_prop_of_true hopened, ← attach_left]
      split <;> simp_all
  · next hopened =>
      obtain rfl := Option.some.inj h
      exact iff_of_true rfl fun ho => absurd ho hopened

/-- Every way out gives back what was taken, once, and uses nothing before
it is there: always in the listeners and in dt_xdp, in count_IPs exactly
when its listing has a map to read. -/
theorem runs_lawful (argv : List CString) (s : Setup) (start : Int)
    (turns : List Turn) (r : Run) :
    (∀ hook : Hook, hook.main argv s start turns = some r →
      Tidy s.opened r.calls)
    ∧ (dtMain argv s start turns = some r → Tidy s.opened r.calls)
    ∧ (countMain argv s start turns = some r →
      (run lawful .closed r.calls = some .closed
        ↔ (s.opened = true →
          s.load = 0 ∧ s.ifindex ≠ 0 ∧ s.linked = true))) :=
  ⟨fun _ => Hook.main_tidy, dtMain_tidy, countMain_lawful_iff⟩

/-- Everything succeeds but the search for the interface. -/
def noInterface : Setup :=
  ⟨true, 0, 0, 0, true, true, 3, 4, fun _ => true⟩

/-- Without its interface count_IPs lists a map it has no descriptor
of. -/
theorem runs_lawful_noInterface :
    ∃ r, countMain ["count_IPs_xdp".toList] noInterface 100 [] = some r
      ∧ run lawful .closed r.calls ≠ some .closed := by
  refine ⟨_, rfl, fun h => ?_⟩
  have hiff := (runs_lawful ["count_IPs_xdp".toList] noInterface 100 []
    _).2.2 rfl
  exact ((hiff.mp h) rfl).2.1 rfl

end XdpIds.Usr
