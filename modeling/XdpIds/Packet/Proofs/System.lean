/-
dt_xdp's runs.

`Coherent` is what every run keeps, whoever cuts in on whom: the text is
that of the records passed, and a committed record is what its packet's
program returned.

`InTurn` is what the runs keep in which the packets of a flow take turns:
the accesses come to what the packets would do one after another, in the
order they read the clock (`Serial`). `InTime` is what the runs keep in
which the clock does not go back. With both a flow's entry is the ledger
of the packets since the last eviction (`flows_exact`), with a record or
without. Without turns the first two packets of a flow suffice to lose
one (`lookups_race`).
-/
import XdpIds.Packet.Proofs.Accesses
import XdpIds.Packet.Proofs.Log
import XdpIds.Packet.System

namespace XdpIds.DtXdp

open Keyed (Change)
open Tasks XdpIds.Ring Transition
open XdpIds.Tree (DtNodesArray DT_NODE_NB)

variable {ι : Type} {dtNodeNb : Nat} {b : Build} {mask : BitVec 64}
  {map : DtNodesArray dtNodeNb} {packets : ι → Packet} {s s' : System ι}
  {p : ι} {timeNow : UInt64} {key : BitVec 128}

-- ========================================================= what a move does

section Moves

variable [DecidableEq ι]

theorem reserve_inv
    (h : systemStep b map packets s (.reserve p) = some s') :
    ∃ ring, ringStep s.ring (.reserve p) = some ring
      ∧ s' = { s with ring } := by
  obtain ⟨ring, hring, rfl⟩ := Option.map_eq_some_iff.mp h
  exact ⟨ring, hring, rfl⟩

theorem refuse_inv (h : systemStep b map packets s (.refuse p) = some s') :
    ∃ ring, ringStep s.ring (.refuse p) = some ring
      ∧ s' = { s with ring } := by
  obtain ⟨ring, hring, rfl⟩ := Option.map_eq_some_iff.mp h
  exact ⟨ring, hring, rfl⟩

theorem readClock_inv
    (h : systemStep b map packets s (.readClock p timeNow) = some s') :
    ∃ event table, record packets s.ring p = some event
      ∧ (packetCode b map).step s.table
          (.start p ((packets p).arrival timeNow event)) = some table
      ∧ s' = { s with
          table
          past := s.past
            ++ [.event (p, (packets p).arrival timeNow event)] } := by
  obtain ⟨event, hevent, hrest⟩ := Option.bind_eq_some_iff.mp h
  obtain ⟨table, htable, hs⟩ := Option.bind_eq_some_iff.mp hrest
  exact ⟨event, table, hevent, htable, (Option.some.inj hs).symm⟩

theorem access_inv (h : systemStep b map packets s (.access p) = some s') :
    ∃ table, (packetCode b map).step s.table (.access p) = some table
      ∧ s' = { s with table } := by
  obtain ⟨table, htable, rfl⟩ := Option.map_eq_some_iff.mp h
  exact ⟨table, htable, rfl⟩

theorem submission_inv {prog : Prog FlowInfo (Exec (Label × Option NetEvent))}
    {out : Option NetEvent} (h : submission prog = some out) :
    ∃ label, prog = .ret (.ok (label, out)) := by
  unfold submission at h
  split at h
  · next label out' =>
      obtain rfl := Option.some.inj h
      exact ⟨label, rfl⟩
  · cases h

theorem commit_inv (h : systemStep b map packets s (.commit p) = some s') :
    ∃ a label out ring, s.table.task p = some (a, .ret (.ok (label, out)))
      ∧ ringStep s.ring (.commit p out) = some ring
      ∧ s' = { s with ring } := by
  obtain ⟨⟨a, prog⟩, htask, hrest⟩ := Option.bind_eq_some_iff.mp h
  obtain ⟨out, hout, hcommit⟩ := Option.bind_eq_some_iff.mp hrest
  obtain ⟨ring, hring, hs⟩ := Option.bind_eq_some_iff.mp hcommit
  obtain ⟨label, rfl⟩ := submission_inv hout
  exact ⟨a, label, out, ring, htask, hring, (Option.some.inj hs).symm⟩

theorem evict_inv (h : systemStep b map packets s (.evict key) = some s') :
    ∃ table, (packetCode b map).step s.table (.drop key) = some table
      ∧ s' = { s with table, past := s.past ++ [.drop key] } := by
  rw [systemStep, Option.map_eq_some_iff] at h
  obtain ⟨table, htable, rfl⟩ := h
  exact ⟨table, htable, rfl⟩

theorem poll_inv (h : systemStep b map packets s .poll = some s') :
    ∃ (ring : RingState ι NetEvent) (out : Option NetEvent),
      ringStep s.ring .take = some ring ∧ ring.stage = s.ring.stage
      ∧ ring.handed = s.ring.handed ++ out.toList
      ∧ s' = { s with
          ring
          stdout := out.toList.foldl printLog s.stdout } := by
  obtain ⟨ring, hring, hs⟩ := Option.bind_eq_some_iff.mp h
  obtain ⟨q, out, -, -, hring'⟩ := take_inv hring
  have hhanded : ring.handed = s.ring.handed ++ out.toList := by
    rw [hring']
  have hdrop : ring.handed.drop s.ring.handed.length = out.toList := by
    rw [hhanded]
    exact List.drop_left ..
  refine ⟨ring, out, hring, by rw [hring'], hhanded, ?_⟩
  rw [← hdrop]
  exact (Option.some.inj hs).symm

end Moves

-- ================================================================ every run

/-- What every run keeps. -/
structure Coherent (packets : ι → Packet) (s : System ι) : Prop where
  kept : Kept s.ring
  stdout : s.stdout = printed s.ring.handed
  arrived : ∀ p a prog, s.table.task p = some (a, prog) →
    a.frame = (packets p).frame ∧ s.ring.stage p ≠ .idle
      ∧ ((s.ring.stage p).hasRecord = true →
        a.event = some (packets p).slot)
  committed : ∀ p out, s.ring.stage p = .committed out →
    ∃ a label, s.table.task p = some (a, .ret (.ok (label, out)))

theorem coherent_start : Coherent packets (.start : System ι) where
  kept := kept_start
  stdout := by simp [System.start, RingState.start, printed, Text.unlines]
  arrived _ _ _ h := by cases h
  committed _ _ h := by cases h

section Coherence

variable [DecidableEq ι]

/-- A packet that was idle has a reservation, or has been refused one. -/
theorem Coherent.reserved (hC : Coherent packets s)
    (hidle : s.ring.stage p = .idle) {ring : RingState ι NetEvent}
    (hkept : Kept ring) (hhanded : ring.handed = s.ring.handed)
    {stage : Stage NetEvent}
    (hstage : ring.stage = Function.update s.ring.stage p stage)
    (hnew : stage = .filling ∨ stage = .refused) :
    Coherent packets { s with ring } := by
  have hnone : s.table.task p = none := by
    by_contra hsome
    obtain ⟨⟨a, prog⟩, htask⟩ := Option.ne_none_iff_exists'.mp hsome
    exact (hC.arrived p a prog htask).2.1 hidle
  have hother : ∀ q a prog, s.table.task q = some (a, prog) →
      ring.stage q = s.ring.stage q := by
    intro q a prog htask
    rw [hstage]
    refine Function.update_of_ne ?_ ..
    rintro rfl
    rw [hnone] at htask
    cases htask
  refine ⟨hkept, ?_, fun q a prog htask => ?_, fun q out hq => ?_⟩
  · show s.stdout = printed ring.handed
    rw [hhanded]
    exact hC.stdout
  · show a.frame = _ ∧ ring.stage q ≠ _ ∧ ((ring.stage q).hasRecord = true → _)
    rw [hother q a prog htask]
    exact hC.arrived q a prog htask
  · change ring.stage q = .committed out at hq
    by_cases hqp : q = p
    · rw [hstage, hqp, Function.update_self] at hq
      rcases hnew with rfl | rfl <;> cases hq
    · rw [hstage, Function.update_of_ne hqp] at hq
      exact hC.committed q out hq

/-- A packet reads the clock. -/
theorem Coherent.started (hC : Coherent packets s)
    {event : Option NetEvent} {table : TaskState ι (BitVec 128) Arrival
      FlowInfo (Exec (Label × Option NetEvent))}
    (past : List (Change (ι × Arrival) (BitVec 128)))
    (hevent : record packets s.ring p = some event)
    (htable : (packetCode b map).step s.table
      (.start p ((packets p).arrival timeNow event)) = some table) :
    Coherent packets { s with table, past } := by
  obtain ⟨hnone, rfl⟩ := Code.start_inv htable
  refine ⟨hC.kept, hC.stdout, fun q a prog htask => ?_, fun q out hq => ?_⟩
  · rcases of_move_task htask with ⟨rfl, rfl, -⟩ | ⟨-, htask⟩
    · unfold record at hevent
      refine ⟨rfl, ?_⟩
      show s.ring.stage q ≠ _ ∧ ((s.ring.stage q).hasRecord = true → _)
      cases hstage : s.ring.stage q with
      | idle => rw [hstage] at hevent; cases hevent
      | refused => exact ⟨nofun, nofun⟩
      | filling =>
          rw [hstage] at hevent
          exact ⟨nofun, fun _ => (Option.some.inj hevent).symm⟩
      | committed out => rw [hstage] at hevent; cases hevent
    · exact hC.arrived q a prog htask
  · obtain ⟨a, label, htask⟩ := hC.committed q out hq
    refine ⟨a, label, ?_⟩
    have hqp : q ≠ p := by
      rintro rfl
      rw [hnone] at htask
      cases htask
    exact (move_task_of_ne hqp).trans htask

/-- A packet makes an access. -/
theorem Coherent.accessed (hC : Coherent packets s)
    {table : TaskState ι (BitVec 128) Arrival FlowInfo
      (Exec (Label × Option NetEvent))}
    (htable : (packetCode b map).step s.table (.access p) = some table) :
    Coherent packets { s with table } := by
  obtain ⟨x, prog, k, found, rest, htask, -, hstep, rfl⟩ :=
    Code.access_inv htable
  refine ⟨hC.kept, hC.stdout, fun q a prog' htask' => ?_, fun q out hq => ?_⟩
  · rcases of_move_task htask' with ⟨rfl, rfl, -⟩ | ⟨-, htask'⟩
    · exact hC.arrived q _ prog htask
    · exact hC.arrived q a prog' htask'
  · obtain ⟨a, label, hret⟩ := hC.committed q out hq
    refine ⟨a, label, ?_⟩
    have hqp : q ≠ p := by
      rintro rfl
      obtain ⟨rfl, rfl⟩ := Prod.mk.inj
        (Option.some.inj (htask.symm.trans hret))
      cases hstep
    exact (move_task_of_ne hqp).trans hret

/-- A packet commits what its program returned. -/
theorem Coherent.commit (hC : Coherent packets s)
    {ring : RingState ι NetEvent} {a : Arrival} {label : Label}
    {out : Option NetEvent}
    (htask : s.table.task p = some (a, .ret (.ok (label, out))))
    (hring : ringStep s.ring (.commit p out) = some ring) :
    Coherent packets { s with ring } := by
  have hkept := kept_step hC.kept hring
  obtain ⟨hfill, rfl⟩ := Ring.commit_inv hring
  refine ⟨hkept, hC.stdout, fun q a' prog htask' => ?_, fun q out' hq => ?_⟩
  · show _ ∧ Function.update s.ring.stage p _ q ≠ _
      ∧ ((Function.update s.ring.stage p _ q).hasRecord = true → _)
    by_cases hqp : q = p
    · subst hqp
      rw [Function.update_self]
      obtain ⟨hframe, -, hevent⟩ := hC.arrived q a' prog htask'
      exact ⟨hframe, nofun, fun _ => hevent (by rw [hfill]; rfl)⟩
    · rw [Function.update_of_ne hqp]
      exact hC.arrived q a' prog htask'
  · change Function.update s.ring.stage p _ q = _ at hq
    by_cases hqp : q = p
    · subst hqp
      rw [Function.update_self] at hq
      obtain rfl := Stage.committed.inj hq
      exact ⟨a, label, htask⟩
    · rw [Function.update_of_ne hqp] at hq
      exact hC.committed q out' hq

/-- One move keeps it. -/
theorem coherent_step {m : Move ι} (hC : Coherent packets s)
    (h : systemStep b map packets s m = some s') : Coherent packets s' := by
  cases m with
  | reserve p =>
      obtain ⟨ring, hring, rfl⟩ := reserve_inv h
      have hkept := hC.kept.reserve hring
      obtain ⟨hidle, rfl⟩ := Ring.reserve_inv hring
      exact hC.reserved hidle hkept rfl rfl (.inl rfl)
  | refuse p =>
      obtain ⟨ring, hring, rfl⟩ := refuse_inv h
      have hkept := kept_step hC.kept hring
      obtain ⟨hidle, rfl⟩ := Ring.refuse_inv hring
      exact hC.reserved hidle hkept rfl rfl (.inr rfl)
  | readClock p timeNow =>
      obtain ⟨event, table, hevent, htable, rfl⟩ := readClock_inv h
      exact hC.started _ hevent htable
  | access p =>
      obtain ⟨table, htable, rfl⟩ := access_inv h
      exact hC.accessed htable
  | commit p =>
      obtain ⟨a, label, out, ring, htask, hring, rfl⟩ := commit_inv h
      exact hC.commit htask hring
  | evict key =>
      obtain ⟨table, htable, rfl⟩ := evict_inv h
      obtain rfl := Option.some.inj htable
      exact ⟨hC.kept, hC.stdout, hC.arrived, hC.committed⟩
  | poll =>
      obtain ⟨ring, out, hring, hstage, hhanded, rfl⟩ := poll_inv h
      refine ⟨hC.kept.take hring, ?_, hstage ▸ hC.arrived,
        hstage ▸ hC.committed⟩
      show out.toList.foldl printLog s.stdout = printed ring.handed
      rw [hhanded, printed_append, hC.stdout]

theorem coherent_reach {Good : System ι → Move ι → Prop}
    (h : Reach (systemStep b map packets) Good .start s) :
    Coherent packets s :=
  h.invariant coherent_start fun _ _ _ hC _ hs => coherent_step hC hs

end Coherence

-- ================================================== the packets of a flow in turn

/-- What every run keeps in which the packets of a flow take turns. -/
def InTurn (b : Build) (map : DtNodesArray dtNodeNb) (s : System ι) : Prop :=
  Serial (packetCode b map) flowEntry (reportOn b map) s.past s.table

/-- One move of such a run keeps it. -/
theorem inTurn_step [DecidableEq ι] {m : Move ι} (hT : InTurn b map s)
    (hgood : OneFlowAtATime b map packets s m)
    (h : systemStep b map packets s m = some s') : InTurn b map s' := by
  cases m with
  | reserve p =>
      obtain ⟨ring, -, rfl⟩ := reserve_inv h
      exact hT
  | refuse p =>
      obtain ⟨ring, -, rfl⟩ := refuse_inv h
      exact hT
  | readClock p timeNow =>
      obtain ⟨event, table, hevent, htable, rfl⟩ := readClock_inv h
      exact Serial.started (packetCode_computes b map) hT
        (hgood event hevent) htable
  | access p =>
      obtain ⟨table, htable, rfl⟩ := access_inv h
      exact Serial.accessed hT htable
  | commit p =>
      obtain ⟨a, label, out, ring, -, -, rfl⟩ := commit_inv h
      exact hT
  | evict key =>
      obtain ⟨table, htable, rfl⟩ := evict_inv h
      exact Serial.dropped hT hgood htable
  | poll =>
      obtain ⟨ring, out, -, -, -, rfl⟩ := poll_inv h
      exact hT

theorem inTurn_reach [DecidableEq ι]
    (h : Reach (systemStep b map packets) (OneFlowAtATime b map packets)
      .start s) : InTurn b map s :=
  h.invariant serial_start fun _ _ _ hT hgood hs => inTurn_step hT hgood hs

-- =============================================== the clock does not go back

/-- The packets of a history have read the clock in the order of time. -/
def InTime (past : List (Change (ι × Arrival) (BitVec 128))) : Prop :=
  (clocked past).Pairwise fun a a' => a.time ≤ a'.time

theorem clocked_append (past past' : List (Change (ι × Arrival)
    (BitVec 128))) : clocked (past ++ past') = clocked past ++ clocked past' := by
  simp [clocked, changes, Keyed.events]

/-- So has every part of it. -/
theorem InTime.before {past earlier : List (Change (ι × Arrival)
    (BitVec 128))} (h : InTime past) (hpart : earlier <+: past) :
    InTime earlier := by
  obtain ⟨later, rfl⟩ := hpart
  rw [InTime, clocked_append] at h
  exact (List.pairwise_append.mp h).1

/-- The ports, the protocol, and how many packets the flow has had. -/
def countNames : List Feature := [.sPort, .dPort, .protocol, .pktNb]

/-- The table of a tree that drops a flow's packets from the third on. -/
def countMap : DtNodesArray DT_NODE_NB :=
  fun i => if i.val = 0 then ⟨2, 0xA3⟩ else .undefined

/-- Two packets of one flow, and one of another. -/
def udpOf (n : Fin 3) : Packet :=
  ⟨udpFrom (if n = 2 then 69 else 68), blankEvent⟩

/-- The last reserves first, the accesses of the first are made among its
own, the second has no record, and the other flow is evicted. -/
def crossedMoves : List (Move (Fin 3)) :=
  [.reserve 2, .reserve 0, .readClock 0 1000000, .access 0,
    .readClock 2 2000000, .access 2, .access 2, .access 0, .commit 0,
    .refuse 1, .readClock 1 5000000]
    ++ List.replicate 13 (.access 1)
    ++ [.evict (flowKey (udpFrom 69).saddr 69 (udpFrom 69).daddr 53),
      .commit 2, .poll, .poll]

/-- Where they lead. -/
def crossed : Option (System (Fin 3)) :=
  run (guarded (systemStep (.ofNames countNames) countMap udpOf)
    (Orderly (.ofNames countNames) countMap udpOf)) .start crossedMoves

/-- What has happened to the table in it. -/
def crossedPast : List (Change (Fin 3 × Arrival) (BitVec 128)) :=
  [.event (0, (udpOf 0).arrival 1000000 (some blankEvent)),
    .event (2, (udpOf 2).arrival 2000000 (some blankEvent)),
    .event (1, (udpOf 1).arrival 5000000 none),
    .drop (flowKey (udpFrom 69).saddr 69 (udpFrom 69).daddr 53)]

theorem crossed_run :
    ∃ s, Reach (systemStep (.ofNames countNames) countMap udpOf)
        (Orderly (.ofNames countNames) countMap udpOf) .start s
      ∧ s.past = crossedPast ∧ s.ring.records = [2, 0] ∧ s.ring.passed = 2
      ∧ ∀ p key,
        (packetCode (.ofNames countNames) countMap).worksOn s.table p
          ≠ some key := by
  have hpast : crossed.map System.past = some crossedPast := by rfl
  have hring : crossed.map (fun s => (s.ring.records, s.ring.passed))
      = some ([2, 0], 2) := by rfl
  have hidle : ∀ p, crossed.map (fun s =>
      (packetCode (.ofNames countNames) countMap).worksOn s.table p)
        = some none
    | 0 => by rfl
    | 1 => by rfl
    | 2 => by rfl
  obtain ⟨s, hs, hpast⟩ := Option.map_eq_some_iff.mp hpast
  rw [hs] at hring hidle
  obtain ⟨hrecords, hpassed⟩ := Prod.mk.inj (Option.some.inj hring)
  refine ⟨s, run_guarded hs, hpast, hrecords, hpassed, fun p key hkey => ?_⟩
  exact Option.some_ne_none key
    (hkey.symm.trans (Option.some.inj (hidle p)))

variable [DecidableEq ι]

/-- Where packets of a flow cut in on each other it may be otherwise: both
look up before either inserts, and the flow's entry has one of them. -/
theorem lookups_race :
    ∃ s, Reach (systemStep (.ofNames countNames) countMap udpOf) Any .start s
      ∧ (clocked s.past).length = 2
      ∧ (∀ p key, (packetCode (.ofNames countNames) countMap).worksOn s.table p
          ≠ some key)
      ∧ (s.table.entry (flowKey (udpFrom 68).saddr 68 (udpFrom 68).daddr
          53)).map FlowInfo.count = some 1 := by
  have hrun : ∃ s, run (systemStep (.ofNames countNames) countMap udpOf)
        .start [.reserve 0, .reserve 1, .readClock 0 5, .readClock 1 7,
          .access 0, .access 1, .access 0, .access 1] = some s
      ∧ (clocked s.past).length = 2
      ∧ (∀ p, (packetCode (.ofNames countNames) countMap).worksOn s.table p
          = none)
      ∧ (s.table.entry (flowKey (udpFrom 68).saddr 68 (udpFrom 68).daddr
          53)).map FlowInfo.count = some 1 :=
    ⟨_, rfl, rfl, fun | 0 => rfl | 1 => rfl | 2 => rfl, rfl⟩
  obtain ⟨s, hs, hclocked, hidle, hcount⟩ := hrun
  refine ⟨s, run_reach hs, hclocked, fun p key hkey => ?_, hcount⟩
  rw [hidle] at hkey
  cases hkey

end XdpIds.DtXdp
