/-
Flow accounting on several CPUs.

`Ordered` is the condition on a run: an insert finds no entry, a write of
`last_seen` finds the value its packet read, and neither happens while a
packet with an earlier clock reading has yet to look at `last_seen`. In
every run whose accesses all meet it the books balance
(`parallel_exact`).

The invariant has one clause per packet (`Ok`), which is about the
entry's `last_seen` alone, and one about the entry (`Balanced`): the
count and the bytes are the tallies of what each packet has added so
far, and the milliseconds added or about to be added fit between a clock
reading and `last_seen`.

A packet that is left alone does what `parse_update` does at one go
(`run_alone`). Without the condition the first two packets suffice: both
look up before either inserts, and one of them is not counted
(`two_inserts`).
-/
import XdpIds.Lib.Threads
import XdpIds.Packet.Parallel
import XdpIds.Packet.Proofs.Ledger
import Mathlib.Tactic.Linarith

namespace XdpIds

open Threads Transition

variable {ι : Type} [DecidableEq ι] {frame : ι → Frame}
  {s s' : FlowState ι} {p : ι}

-- ============================================================ what a step does

/-- The accesses, each with what it finds and what it leaves. -/
inductive Moves (frame : ι → Frame) (s : FlowState ι) :
    Access ι → FlowState ι → Prop
  | clock {p t} (hp : s.phase p = .arrived) (ht : s.clock ≤ t) :
      Moves frame s (.readClock p t)
        { s.move p s.entry (.clocked t) with clock := t }
  | hit {p t fi} (hp : s.phase p = .clocked t) (he : s.entry = some fi) :
      Moves frame s (.next p) (s.move p (some fi) (.found t))
  | miss {p t} (hp : s.phase p = .clocked t) (he : s.entry = none) :
      Moves frame s (.next p) (s.move p none (.missed t))
  | insert {p t} (hp : s.phase p = .missed t) (he : s.entry = none) :
      Moves frame s (.next p)
        (s.move p (some (.create t (frame p).len)) (.done t))
  | lost {p t fi} (hp : s.phase p = .missed t) (he : s.entry = some fi) :
      Moves frame s (.next p) (s.move p (some fi) (.done t))
  | read {p t fi} (hp : s.phase p = .found t) (he : s.entry = some fi) :
      Moves frame s (.next p) (s.move p (some fi) (.seen t fi.lastSeen))
  | write {p t lastSeen fi} (hp : s.phase p = .seen t lastSeen)
      (he : s.entry = some fi) :
      Moves frame s (.next p)
        (s.move p (some { fi with lastSeen := t })
          (.stamped t ((t - lastSeen) / 1000000)))
  | count {p t iatMs fi} (hp : s.phase p = .stamped t iatMs)
      (he : s.entry = some fi) :
      Moves frame s (.next p)
        (s.move p (some { fi with count := fi.count + 1 })
          (.counted t iatMs))
  | size {p t iatMs fi} (hp : s.phase p = .counted t iatMs)
      (he : s.entry = some fi) :
      Moves frame s (.next p)
        (s.move p (some { fi with
            totBytes := fi.totBytes + UInt64.ofNat (frame p).len })
          (.sized t iatMs))
  | total {p t iatMs fi} (hp : s.phase p = .sized t iatMs)
      (he : s.entry = some fi) :
      Moves frame s (.next p)
        (s.move p (some { fi with totIat := fi.totIat + iatMs }) (.done t))

theorem flowStep_moves {a : Access ι} (h : flowStep frame s a = some s') :
    Moves frame s a s' := by
  cases a with
  | readClock p t =>
      rw [flowStep] at h
      split at h
      · next hc =>
          obtain rfl := Option.some.inj h
          exact .clock hc.1 hc.2
      · cases h
  | next p =>
      rw [flowStep, FlowState.next] at h
      split at h
      · next hp he =>
          obtain rfl := Option.some.inj h
          exact .hit hp he
      · next hp he =>
          obtain rfl := Option.some.inj h
          exact .miss hp he
      · next hp he =>
          obtain rfl := Option.some.inj h
          exact .insert hp he
      · next hp he =>
          obtain rfl := Option.some.inj h
          exact .lost hp he
      · next hp he =>
          obtain rfl := Option.some.inj h
          exact .read hp he
      · next hp he =>
          obtain rfl := Option.some.inj h
          exact .write hp he
      · next hp he =>
          obtain rfl := Option.some.inj h
          exact .count hp he
      · next hp he =>
          obtain rfl := Option.some.inj h
          exact .size hp he
      · next hp he =>
          obtain rfl := Option.some.inj h
          exact .total hp he
      · cases h

theorem Moves.step {a : Access ι} (h : Moves frame s a s') :
    flowStep frame s a = some s' := by
  cases h with
  | clock hp ht => exact if_pos ⟨hp, ht⟩
  | hit hp he | miss hp he | insert hp he | lost hp he | read hp he
  | write hp he | count hp he | size hp he | total hp he =>
      rw [flowStep, FlowState.next, hp, he]

-- ================================================================= left alone

@[simp] theorem move_phase_self (s : FlowState ι) (p : ι)
    (entry : Option FlowInfo) (next : Phase) :
    (s.move p entry next).phase p = next := Function.update_self ..

/-- One access more, before those of a run. -/
theorem run_next {n : Nat} {t : FlowState ι} (hs : Moves frame s (.next p) t)
    (hrun : run (flowStep frame) t (List.replicate n (.next p)) = some s') :
    run (flowStep frame) s (List.replicate (n + 1) (.next p)) = some s' :=
  (run_cons hs.step _).trans hrun

/-- A packet's accesses without interruption, after its clock reading. -/
theorem run_clocked {timeNow : UInt64} (hp : s.phase p = .clocked timeNow) :
    ∃ n s', run (flowStep frame) s (List.replicate n (.next p)) = some s'
      ∧ s'.phase p = .done timeNow
      ∧ s'.entry = some (flowPacket s.entry timeNow (frame p).len).1 := by
  cases he : s.entry with
  | none =>
      have hinsert : Moves frame (s.move p none (.missed timeNow)) (.next p) _ :=
        .insert (move_phase_self ..) rfl
      exact ⟨2, _, run_next (.miss hp he) (run_next hinsert rfl),
        move_phase_self .., rfl⟩
  | some fi =>
      let s₁ := s.move p (some fi) (.found timeNow)
      let s₂ := s₁.move p (some fi) (.seen timeNow fi.lastSeen)
      let seen := { fi with lastSeen := timeNow }
      let s₃ := s₂.move p (some seen) (.stamped timeNow (fi.iatMs timeNow))
      let counted := { seen with count := fi.count + 1 }
      let s₄ := s₃.move p (some counted) (.counted timeNow (fi.iatMs timeNow))
      let sized := { counted with
        totBytes := fi.totBytes + UInt64.ofNat (frame p).len }
      let s₅ := s₄.move p (some sized) (.sized timeNow (fi.iatMs timeNow))
      let s₆ := s₅.move p (some (fi.update timeNow (frame p).len))
        (.done timeNow)
      have h₁ : Moves frame s (.next p) s₁ := .hit hp he
      have h₂ : Moves frame s₁ (.next p) s₂ := .read (move_phase_self ..) rfl
      have h₃ : Moves frame s₂ (.next p) s₃ := .write (move_phase_self ..) rfl
      have h₄ : Moves frame s₃ (.next p) s₄ := .count (move_phase_self ..) rfl
      have h₅ : Moves frame s₄ (.next p) s₅ := .size (move_phase_self ..) rfl
      have h₆ : Moves frame s₅ (.next p) s₆ := .total (move_phase_self ..) rfl
      refine ⟨6, s₆, ?_, move_phase_self .., rfl⟩
      exact run_next h₁ (run_next h₂ (run_next h₃ (run_next h₄
        (run_next h₅ (run_next h₆ rfl)))))

/-- A packet of a flow that is left alone leaves the entry that
`parse_update` leaves, from the same one. -/
theorem run_alone {b : Build} {mask : BitVec 64} (hb : b.Declares mask)
    (hflow : FlowSelected mask) {a : Arrival} {key : BitVec 128}
    (hkey : a.key b = some key) {flows : FlowMap}
    (hentry : s.entry = flows key) (hframe : frame p = a.frame)
    (hp : s.phase p = .arrived) (hclock : s.clock ≤ a.time) :
    ∃ n s' r, run (flowStep frame) s
          (.readClock p a.time :: List.replicate n (.next p)) = some s'
      ∧ s'.phase p = .done a.time ∧ receive b flows a = .ok (0, r)
      ∧ r.flows = Function.update flows key s'.entry := by
  let s₁ : FlowState ι :=
    { s.move p s.entry (.clocked a.time) with clock := a.time }
  have hread : Moves frame s (.readClock p a.time) s₁ := .clock hp hclock
  have hclocked : s₁.phase p = .clocked a.time :=
    move_phase_self s p s.entry (.clocked a.time)
  obtain ⟨n, s', hrun, hdone, hleft⟩ := @run_clocked ι _ frame s₁ p _ hclocked
  obtain ⟨sport, dport, r, hreceive, hflows, -⟩ :=
    receive_some hb hflow hkey flows
  refine ⟨n, s', r, (run_cons hread.step _).trans hrun, hdone, hreceive, ?_⟩
  change s'.entry = some (flowPacket s.entry a.time (frame p).len).1 at hleft
  rw [hflows, hleft, hentry, hframe, account, Keyed.absorb, hkey]

-- ============================================================== the condition

/-- The clock reading of a packet that has yet to look at
`last_seen`. -/
def Phase.unread : Phase → Option UInt64
  | .clocked t | .found t => some t
  | _ => none

/-- No packet with an earlier clock reading has yet to look at
`last_seen`. -/
def NoneEarlier (s : FlowState ι) (t : UInt64) : Prop :=
  ∀ q, ∀ u ∈ (s.phase q).unread, t ≤ u

/-- The accesses from a phase that keep the books in order. -/
def OrderedFrom (s : FlowState ι) : Phase → Prop
  | .missed t => s.entry = none ∧ NoneEarlier s t
  | .seen t lastSeen =>
      s.entry.map (·.lastSeen) = some lastSeen ∧ NoneEarlier s t
  | _ => True

/-- The accesses that keep the books in order. -/
def Ordered (s : FlowState ι) : Access ι → Prop
  | .readClock _ _ => True
  | .next p => OrderedFrom s (s.phase p)

-- by way of the option, which holds one clock reading at most
instance [Fintype ι] (s : FlowState ι) (t : UInt64) :
    Decidable (NoneEarlier s t) :=
  @Fintype.decidableForallFintype ι
    (fun q => ∀ u ∈ (s.phase q).unread, t ≤ u)
    (fun _ => Option.decidableForallMem _) _

instance [Fintype ι] (s : FlowState ι) :
    ∀ ph, Decidable (OrderedFrom s ph)
  | .missed _ => inferInstanceAs (Decidable (_ ∧ _))
  | .seen _ _ => inferInstanceAs (Decidable (_ ∧ _))
  | .arrived | .clocked _ | .found _ | .stamped _ _ | .counted _ _
  | .sized _ _ | .done _ => .isTrue trivial

instance [Fintype ι] (s : FlowState ι) : ∀ a, Decidable (Ordered s a)
  | .readClock _ _ => .isTrue trivial
  | .next p => inferInstanceAs (Decidable (OrderedFrom s (s.phase p)))

-- ============================================================== the invariant

/-- A packet's phase, against the clock and the entry's `last_seen`. -/
def Ok (clock : UInt64) (last : Option UInt64) : Phase → Prop
  | .arrived => True
  | .clocked t => t ≤ clock ∧ ∀ l, last = some l → l ≤ t
  | .missed t => t ≤ clock
  | .found t => t ≤ clock ∧ last.isSome ∧ ∀ l, last = some l → l ≤ t
  | .seen t lastSeen => t ≤ clock ∧ last.isSome ∧ lastSeen ≤ t
  | .stamped t _ | .counted t _ | .sized t _ | .done t =>
      t ≤ clock ∧ last.isSome

/-- What a packet has added to the count. -/
def Phase.counts : Phase → Nat
  | .counted .. | .sized .. | .done _ => 1
  | _ => 0

/-- What a packet of a given length has added to the bytes. -/
def Phase.bytes (len : Nat) : Phase → Nat
  | .sized .. | .done _ => len
  | _ => 0

/-- The milliseconds a packet has yet to add. -/
def Phase.owes : Phase → Nat
  | .stamped _ iatMs | .counted _ iatMs | .sized _ iatMs => iatMs.toNat
  | _ => 0

/-- Some packet has this clock reading. -/
def Reads (phase : ι → Phase) (t : UInt64) : Prop :=
  ∃ p, (phase p).time = some t

section Phases

variable {clock clock' : UInt64} {last last' : Option UInt64} {ph : Phase}

theorem Ok.time_le (h : Ok clock last ph) {t : UInt64}
    (ht : ph.time = some t) : t ≤ clock := by
  cases ph with
  | arrived => cases ht
  | missed u => exact Option.some.inj ht ▸ h
  | _ => exact Option.some.inj ht ▸ h.1

/-- Whoever has yet to look will find nothing later than its clock
reading. -/
theorem Ok.unread (h : Ok clock last ph) {u l : UInt64}
    (hu : u ∈ ph.unread) (hl : last = some l) : l ≤ u := by
  cases ph with
  | clocked t =>
      obtain rfl := Option.some.inj hu
      exact h.2 l hl
  | found t =>
      obtain rfl := Option.some.inj hu
      exact h.2.2 l hl
  | _ => cases hu

/-- A packet's own clause survives what others do: the clock moving on,
and a `last_seen` that is no later than it has yet to find. -/
theorem Ok.mono (h : Ok clock last ph) (hclock : clock ≤ clock')
    (hsome : last.isSome → last'.isSome)
    (hunread : ∀ u l, u ∈ ph.unread → last' = some l → l ≤ u) :
    Ok clock' last' ph := by
  have hle : ∀ {t : UInt64}, t ≤ clock → t ≤ clock' := fun ht =>
    UInt64.le_trans ht hclock
  cases ph with
  | arrived => trivial
  | clocked t => exact ⟨hle h.1, fun l hl => hunread t l rfl hl⟩
  | missed t => exact hle h
  | found t =>
      exact ⟨hle h.1, hsome h.2.1, fun l hl => hunread t l rfl hl⟩
  | seen t lastSeen => exact ⟨hle h.1, hsome h.2.1, h.2.2⟩
  | _ => exact ⟨hle h.1, hsome h.2⟩

/-- Without an entry nobody has added anything. -/
theorem Ok.absent (h : Ok clock none ph) (len : Nat) :
    ph.counts = 0 ∧ ph.bytes len = 0 ∧ ph.owes = 0 := by
  cases ph with
  | arrived => exact ⟨rfl, rfl, rfl⟩
  | clocked t => exact ⟨rfl, rfl, rfl⟩
  | missed t => exact ⟨rfl, rfl, rfl⟩
  | found t => exact ⟨rfl, rfl, rfl⟩
  | seen t lastSeen => exact ⟨rfl, rfl, rfl⟩
  | _ => cases h.2

end Phases

theorem Reads.move {phase : ι → Phase} {new : Phase} {t : UInt64}
    (h : Reads phase t)
    (hkeep : ∀ u, (phase p).time = some u → new.time = some u) :
    Reads (Function.update phase p new) t := by
  obtain ⟨q, hq⟩ := h
  refine ⟨q, ?_⟩
  by_cases hqp : q = p
  · subst hqp
    rw [Function.update_self]
    exact hkeep t hq
  · rw [Function.update_of_ne hqp]
    exact hq

/-- The clauses of all packets after one of them moved. -/
theorem ok_move {phase : ι → Phase} {clock clock' : UInt64}
    {last last' : Option UInt64} {new : Phase}
    (h : ∀ q, Ok clock last (phase q)) (hclock : clock ≤ clock')
    (hsome : last.isSome → last'.isSome)
    (hunread : ∀ q u l, u ∈ (phase q).unread → last' = some l → l ≤ u)
    (hnew : Ok clock' last' new) (q : ι) :
    Ok clock' last' (Function.update phase p new q) := by
  by_cases hqp : q = p
  · subst hqp
    rw [Function.update_self]
    exact hnew
  · rw [Function.update_of_ne hqp]
    exact (h q).mono hclock hsome fun u l hu hl => hunread q u l hu hl

/-- A move that neither the clock nor `last_seen` notices. -/
theorem ok_same {phase : ι → Phase} {clock : UInt64} {last : Option UInt64}
    {new : Phase} (h : ∀ q, Ok clock last (phase q))
    (hnew : Ok clock last new) (q : ι) :
    Ok clock last (Function.update phase p new q) :=
  ok_move h (UInt64.le_refl clock) id
    (fun q _ _ hu hl => (h q).unread hu hl) hnew q

variable [Fintype ι]

/-- The entry against the packets' phases. -/
structure Balanced (frame : ι → Frame) (phase : ι → Phase)
    (fi : FlowInfo) : Prop where
  count : fi.count.toNat = tally (fun _ => Phase.counts) phase
  bytes : fi.totBytes.toNat
    = tally (fun p => Phase.bytes (frame p).len) phase
  last : Reads phase fi.lastSeen
  span : ∃ first, Reads phase first
    ∧ (fi.totIat.toNat + tally (fun _ => Phase.owes) phase) * 10 ^ 6
        + first.toNat ≤ fi.lastSeen.toNat

/-- The state along an ordered run. -/
structure Books (frame : ι → Frame) (s : FlowState ι) : Prop where
  ok : ∀ p, Ok s.clock (s.entry.map (·.lastSeen)) (s.phase p)
  balanced : ∀ fi, s.entry = some fi → Balanced frame s.phase fi

omit [DecidableEq ι] in
theorem books_start : Books frame (.start : FlowState ι) :=
  ⟨fun _ => trivial, fun _ h => by cases h⟩

omit [DecidableEq ι] in
/-- What a packet about to move finds: the clauses against the entry it
looks at, and its own among them. -/
theorem Books.found {e : Option FlowInfo} {ph : Phase} (hI : Books frame s)
    (hp : s.phase p = ph) (he : s.entry = e) :
    (∀ q, Ok s.clock (e.map (·.lastSeen)) (s.phase q))
      ∧ Ok s.clock (e.map (·.lastSeen)) ph := by
  obtain ⟨hok, -⟩ := hI
  rw [he] at hok
  refine ⟨hok, ?_⟩
  rw [← hp]
  exact hok p

/-- One packet moves and the entry changes by what it adds. -/
theorem Balanced.move {phase : ι → Phase} {fi fi' : FlowInfo}
    {old new : Phase} (hb : Balanced frame phase fi) (hp : phase p = old)
    (hkeep : ∀ u, old.time = some u → new.time = some u)
    (hcount : fi'.count.toNat + old.counts = fi.count.toNat + new.counts)
    (hbytes : fi'.totBytes.toNat + old.bytes (frame p).len
      = fi.totBytes.toNat + new.bytes (frame p).len)
    (hlast : Reads (Function.update phase p new) fi'.lastSeen)
    (hspan : (fi'.totIat.toNat + new.owes) * 10 ^ 6 + fi.lastSeen.toNat
      ≤ (fi.totIat.toNat + old.owes) * 10 ^ 6 + fi'.lastSeen.toNat) :
    Balanced frame (Function.update phase p new) fi' := by
  subst hp
  obtain ⟨hcount₀, hbytes₀, -, first, hfirst, hspan₀⟩ := hb
  refine ⟨?_, ?_, hlast, first, hfirst.move hkeep, ?_⟩
  · have hmove := tally_move (fun _ => Phase.counts) phase p new
    omega
  · have hmove := tally_move (fun q => Phase.bytes (frame q).len) phase p new
    omega
  · have hmove := tally_move (fun _ => Phase.owes) phase p new
    linarith

/-- A move that leaves the entry alone. -/
theorem Balanced.idle {phase : ι → Phase} {fi : FlowInfo} {old new : Phase}
    (hb : Balanced frame phase fi) (hp : phase p = old)
    (hkeep : ∀ u, old.time = some u → new.time = some u)
    (hcounts : old.counts = new.counts)
    (hbytes : old.bytes (frame p).len = new.bytes (frame p).len)
    (howes : old.owes = new.owes) :
    Balanced frame (Function.update phase p new) fi := by
  refine hb.move hp hkeep (by omega) (by omega) ?_ (by omega)
  exact hb.last.move (hp ▸ hkeep)

-- ================================================================== one step

omit [DecidableEq ι] [Fintype ι] in
/-- A clock reading some packet has is no later than the clock. -/
theorem Reads.le_clock {clock : UInt64} {last : Option UInt64}
    {phase : ι → Phase} {t : UInt64} (ht : Reads phase t)
    (hok : ∀ q, Ok clock last (phase q)) : t ≤ clock := by
  obtain ⟨q, hq⟩ := ht
  exact (hok q).time_le hq

/-- The first entry, and nobody else has added anything yet. -/
theorem Balanced.insert {phase : ι → Phase} {clock t : UInt64}
    (hok : ∀ q, Ok clock none (phase q)) (hp : phase p = .missed t) :
    Balanced frame (Function.update phase p (.done t))
      (.create t (frame p).len) := by
  have hc := tally_move (fun _ => Phase.counts) phase p (.done t)
  have hs := tally_move (fun q => Phase.bytes (frame q).len) phase p (.done t)
  have ho := tally_move (fun _ => Phase.owes) phase p (.done t)
  rw [hp] at hc hs ho
  rw [tally_zero fun q => ((hok q).absent 0).1] at hc
  rw [tally_zero fun q => ((hok q).absent (frame q).len).2.1] at hs
  rw [tally_zero fun q => ((hok q).absent 0).2.2] at ho
  have hreads : Reads (Function.update phase p (.done t)) t :=
    ⟨p, by rw [Function.update_self]; rfl⟩
  have hlen : (UInt64.ofNat (frame p).len).toNat = (frame p).len := by
    have hlt := (frame p).len_lt
    rw [UInt64.toNat_ofNat']
    exact Nat.mod_eq_of_lt (show (frame p).len < 2 ^ 64 by
      unfold Frame.len; omega)
  refine ⟨hc.symm, ?_, hreads, t, hreads, ?_⟩
  · show (UInt64.ofNat (frame p).len).toNat = _
    rw [hlen, ← Nat.zero_add (frame p).len]
    exact hs.symm
  · have hnone : tally (fun _ => Phase.owes)
        (Function.update phase p (.done t)) = 0 := ho
    rw [hnone]
    show (0 + 0) * 10 ^ 6 + t.toNat ≤ t.toNat
    omega

/-- The milliseconds of a gap that does not underflow. -/
theorem gap_le {t l : UInt64} (hle : l ≤ t) :
    ((t - l) / 1000000).toNat * 10 ^ 6 + l.toNat ≤ t.toNat := by
  have hle' : l.toNat ≤ t.toNat := UInt64.le_iff_toNat_le.mp hle
  have hdiv := Nat.div_mul_le_self (t.toNat - l.toNat) (10 ^ 6)
  rw [UInt64.toNat_div, UInt64.toNat_sub_of_le _ _ hle]
  calc (t.toNat - l.toNat) / 10 ^ 6 * 10 ^ 6 + l.toNat
      ≤ t.toNat - l.toNat + l.toNat := Nat.add_le_add_right hdiv _
    _ = t.toNat := Nat.sub_add_cancel hle'

theorem Phase.counts_le (ph : Phase) : ph.counts ≤ 1 := by
  cases ph with
  | counted _ _ => exact Nat.le_refl 1
  | sized _ _ => exact Nat.le_refl 1
  | done _ => exact Nat.le_refl 1
  | _ => exact Nat.zero_le 1

theorem Phase.bytes_le (len : Nat) (ph : Phase) : ph.bytes len ≤ len := by
  cases ph with
  | sized _ _ => exact Nat.le_refl len
  | done _ => exact Nat.le_refl len
  | _ => exact Nat.zero_le len

/-- A packet that is not in the count yet finds room in it. -/
theorem Balanced.count_add {phase : ι → Phase} {fi : FlowInfo}
    (hb : Balanced frame phase fi) (hcard : Fintype.card ι < 2 ^ 32)
    (hp : (phase p).counts = 0) :
    (fi.count + 1).toNat = fi.count.toNat + 1 := by
  have hroom := tally_slack (fun q => (phase q).counts_le) p
  rw [← Finset.card_eq_sum_ones, ← hb.count, hp] at hroom
  have hlt : fi.count.toNat + 1 < 2 ^ 32 := by
    rw [Finset.card_univ] at hroom
    omega
  rw [UInt32.toNat_add]
  exact Nat.mod_eq_of_lt hlt

/-- A packet whose bytes are not in the total yet finds room in it. -/
theorem Balanced.bytes_add {phase : ι → Phase} {fi : FlowInfo}
    (hb : Balanced frame phase fi) (hbytes : ∑ q, (frame q).len < 2 ^ 64)
    (hp : (phase p).bytes (frame p).len = 0) :
    (fi.totBytes + UInt64.ofNat (frame p).len).toNat
      = fi.totBytes.toNat + (frame p).len := by
  have hroom := tally_slack (fun q => (phase q).bytes_le (frame q).len) p
  rw [← hb.bytes, hp] at hroom
  rw [UInt64.toNat_add, UInt64.toNat_ofNat']
  omega

/-- Ordered accesses keep the books. -/
theorem books_step (hcard : Fintype.card ι < 2 ^ 32)
    (hbytes : ∑ q, (frame q).len < 2 ^ 64) (hI : Books frame s)
    {a : Access ι} (hgood : Ordered s a) (hs : Moves frame s a s') :
    Books frame s' := by
  have hbal := hI.balanced
  cases hs with
  | @clock p t hp ht =>
      have hok := hI.ok
      constructor
      · refine ok_move hok ht id (fun q u l hu hl => (hok q).unread hu hl) ?_
        refine ⟨UInt64.le_refl t, fun l hl => ?_⟩
        obtain ⟨fi, hfi, rfl⟩ := Option.map_eq_some_iff.mp hl
        exact UInt64.le_trans ((hbal fi hfi).last.le_clock hok) ht
      · intro fi hfi
        exact (hbal fi hfi).idle hp (fun u hu => by cases hu) rfl rfl rfl
  | @hit p t fi hp he =>
      obtain ⟨hok, hph⟩ := hI.found hp he
      constructor
      · exact ok_same hok ⟨hph.1, rfl, hph.2⟩
      · intro fi' hfi
        obtain rfl := Option.some.inj hfi
        exact (hbal fi he).idle hp (fun u hu => hu) rfl rfl rfl
  | @miss p t hp he =>
      obtain ⟨hok, hph⟩ := hI.found hp he
      constructor
      · exact ok_same hok hph.1
      · intro fi hfi
        cases hfi
  | @insert p t hp he =>
      obtain ⟨hok, hph⟩ := hI.found hp he
      rw [Ordered, hp, OrderedFrom] at hgood
      constructor
      · refine ok_move hok (UInt64.le_refl _) (fun _ => rfl) ?_ ⟨hph, rfl⟩
        intro q u l hu hl
        obtain rfl := Option.some.inj hl
        exact hgood.2 q u hu
      · intro fi hfi
        obtain rfl := Option.some.inj hfi
        exact Balanced.insert hok hp
  | @lost p t fi hp he =>
      rw [Ordered, hp, OrderedFrom, he] at hgood
      cases hgood.1
  | @read p t fi hp he =>
      obtain ⟨hok, hph⟩ := hI.found hp he
      constructor
      · exact ok_same hok ⟨hph.1, rfl, hph.2.2 _ rfl⟩
      · intro fi' hfi
        obtain rfl := Option.some.inj hfi
        exact (hbal fi he).idle hp (fun u hu => hu) rfl rfl rfl
  | @write p t lastSeen fi hp he =>
      obtain ⟨hok, hph⟩ := hI.found hp he
      rw [Ordered, hp, OrderedFrom, he] at hgood
      obtain ⟨hlast, hearlier⟩ := hgood
      obtain rfl := Option.some.inj hlast
      constructor
      · refine ok_move hok (UInt64.le_refl _) id ?_ ⟨hph.1, rfl⟩
        intro q u l hu hl
        obtain rfl := Option.some.inj hl
        exact hearlier q u hu
      · intro fi' hfi
        obtain rfl := Option.some.inj hfi
        refine (hbal fi he).move hp (fun u hu => hu) rfl rfl ?_ ?_
        · exact ⟨p, by rw [Function.update_self]; rfl⟩
        · have hgap := gap_le hph.2.2
          show (fi.totIat.toNat + ((t - fi.lastSeen) / 1000000).toNat) * 10 ^ 6
            + fi.lastSeen.toNat ≤ (fi.totIat.toNat + 0) * 10 ^ 6 + t.toNat
          linarith
  | @count p t iatMs fi hp he =>
      obtain ⟨hok, hph⟩ := hI.found hp he
      constructor
      · exact ok_same hok hph
      · intro fi' hfi
        obtain rfl := Option.some.inj hfi
        have hb := hbal fi he
        refine hb.move hp (fun u hu => hu) ?_ rfl ?_ (Nat.le_refl _)
        · exact hb.count_add hcard (by rw [hp]; rfl)
        · exact hb.last.move (hp ▸ fun u hu => hu)
  | @size p t iatMs fi hp he =>
      obtain ⟨hok, hph⟩ := hI.found hp he
      constructor
      · exact ok_same hok hph
      · intro fi' hfi
        obtain rfl := Option.some.inj hfi
        have hb := hbal fi he
        refine hb.move hp (fun u hu => hu) rfl ?_ ?_ (Nat.le_refl _)
        · exact hb.bytes_add hbytes (by rw [hp]; rfl)
        · exact hb.last.move (hp ▸ fun u hu => hu)
  | @total p t iatMs fi hp he =>
      obtain ⟨hok, hph⟩ := hI.found hp he
      constructor
      · exact ok_same hok hph
      · intro fi' hfi
        obtain rfl := Option.some.inj hfi
        have hb := hbal fi he
        refine hb.move hp (fun u hu => hu) rfl rfl ?_ ?_
        · exact hb.last.move (hp ▸ fun u hu => hu)
        · have hle : (fi.totIat + iatMs).toNat
              ≤ fi.totIat.toNat + iatMs.toNat := by
            rw [UInt64.toNat_add]
            exact Nat.mod_le _ _
          show ((fi.totIat + iatMs).toNat + 0) * 10 ^ 6 + fi.lastSeen.toNat
            ≤ (fi.totIat.toNat + iatMs.toNat) * 10 ^ 6 + fi.lastSeen.toNat
          linarith

-- ================================================================= whole runs

/-- The books along an ordered run. -/
theorem books_reach (hcard : Fintype.card ι < 2 ^ 32)
    (hbytes : ∑ q, (frame q).len < 2 ^ 64)
    (hrun : Reach (flowStep frame) Ordered .start s) : Books frame s :=
  hrun.invariant books_start fun _ _ _ hI hgood hs =>
    books_step hcard hbytes hI hgood (flowStep_moves hs)

/-- In every run of ordered accesses no difference of times underflows,
and when all packets are handled the entry holds their number, their
bytes and no more milliseconds than lie between any bounds on their clock
readings. -/
theorem parallel_exact {frame : ι → Frame} {s : FlowState ι}
    (hsome : 0 < Fintype.card ι) (hcard : Fintype.card ι < 2 ^ 32)
    (hbytes : ∑ q, (frame q).len < 2 ^ 64)
    (hrun : Reach (flowStep frame) Ordered .start s) :
    (∀ p t lastSeen, s.phase p = .seen t lastSeen → lastSeen ≤ t)
      ∧ (s.Finished → ∃ fi, s.entry = some fi
        ∧ fi.count.toNat = Fintype.card ι
        ∧ fi.totBytes.toNat = ∑ q, (frame q).len
        ∧ ∀ lo hi : UInt64,
            (∀ p t, (s.phase p).time = some t → lo ≤ t ∧ t ≤ hi) →
            fi.totIat.toNat ≤ (hi.toNat - lo.toNat) / 10 ^ 6) := by
  obtain ⟨hok, hbal⟩ := books_reach hcard hbytes hrun
  constructor
  · intro p t lastSeen hp
    have hph := hok p
    rw [hp] at hph
    exact hph.2.2
  · intro hdone
    obtain ⟨p₀⟩ := Fintype.card_pos_iff.mp hsome
    obtain ⟨t₀, hp₀⟩ := hdone p₀
    have hph := hok p₀
    rw [hp₀] at hph
    obtain ⟨fi, hfi⟩ : ∃ fi, s.entry = some fi := by
      cases he : s.entry with
      | none => rw [he] at hph; cases hph.2
      | some fi => exact ⟨fi, rfl⟩
    obtain ⟨hcount, hsize, hlast, first, hfirst, hspan⟩ := hbal fi hfi
    refine ⟨fi, hfi, ?_, ?_, ?_⟩
    · rw [hcount, ← Finset.card_univ, Finset.card_eq_sum_ones]
      refine tally_eq fun q => ?_
      obtain ⟨t, hq⟩ := hdone q
      rw [hq]
      rfl
    · rw [hsize]
      refine tally_eq fun q => ?_
      obtain ⟨t, hq⟩ := hdone q
      rw [hq]
      rfl
    · intro lo hi hbounds
      obtain ⟨q, hq⟩ := hfirst
      obtain ⟨r, hr⟩ := hlast
      have hlo : lo.toNat ≤ first.toNat :=
        UInt64.le_iff_toNat_le.mp (hbounds q first hq).1
      have hhi : fi.lastSeen.toNat ≤ hi.toNat :=
        UInt64.le_iff_toNat_le.mp (hbounds r _ hr).2
      rw [Nat.le_div_iff_mul_le (by decide)]
      apply Nat.le_sub_of_add_le
      linarith [Nat.zero_le (tally (fun _ => Phase.owes) s.phase)]

/-- Two UDP packets of one flow. -/
def twoPackets (_ : Fin 2) : Frame := udpFrom 68

theorem twoPackets_bytes : ∑ q, (twoPackets q).len = 84 := rfl

/-- The second packet two milliseconds after the first, which is through
by then. -/
def oneByOne : List (Access (Fin 2)) :=
  [.readClock 0 5000000, .next 0, .next 0, .readClock 1 7000000, .next 1,
    .next 1, .next 1, .next 1, .next 1, .next 1]

theorem parallel_exact_twoPackets :
    ∃ s fi, Reach (flowStep twoPackets) Ordered .start s
      ∧ s.entry = some fi ∧ fi.count.toNat = 2 ∧ fi.totBytes.toNat = 84 := by
  have hrun : (run (guarded (flowStep twoPackets) Ordered) .start
      oneByOne).map (fun s => (s.phase 0, s.phase 1))
      = some (.done 5000000, .done 7000000) := by
    decide +kernel
  obtain ⟨s, hs, hphase⟩ := Option.map_eq_some_iff.mp hrun
  have hreach := run_guarded hs
  have hdone : s.Finished := by
    intro p
    match p with
    | 0 => exact ⟨_, (Prod.mk.inj hphase).1⟩
    | 1 => exact ⟨_, (Prod.mk.inj hphase).2⟩
  have hcard : Fintype.card (Fin 2) = 2 := Fintype.card_fin 2
  obtain ⟨fi, hfi, hcount, hbytes, -⟩ :=
    (parallel_exact (by omega) (by omega) (by rw [twoPackets_bytes]; omega)
      hreach).2 hdone
  rw [hcard] at hcount
  rw [twoPackets_bytes] at hbytes
  exact ⟨s, fi, hreach, hfi, hcount, hbytes⟩

/-- Two packets that look up before either inserts count as one, and a
packet that looks up after a later one's insert finds a `last_seen` ahead
of its own clock reading. -/
theorem two_inserts :
    (∃ s, Reach (flowStep twoPackets) Any .start s ∧ s.Finished
        ∧ s.entry.map (·.count) = some 1)
      ∧ ∃ s t lastSeen, Reach (flowStep twoPackets) Any .start s
        ∧ s.phase 0 = .seen t lastSeen ∧ t < lastSeen := by
  constructor
  · have hrun : (run (flowStep twoPackets) .start
        [.readClock 0 5, .readClock 1 7, .next 0, .next 1, .next 0,
          .next 1]).map
        (fun s => (s.phase 0, s.phase 1, s.entry.map (·.count)))
        = some (.done 5, .done 7, some 1) := by
      decide +kernel
    obtain ⟨s, hs, hphase⟩ := Option.map_eq_some_iff.mp hrun
    obtain ⟨h0, h1, hcount⟩ : s.phase 0 = .done 5 ∧ s.phase 1 = .done 7
        ∧ s.entry.map (·.count) = some 1 := by
      simpa using hphase
    refine ⟨s, run_reach hs, ?_, hcount⟩
    intro p
    match p with
    | 0 => exact ⟨5, h0⟩
    | 1 => exact ⟨7, h1⟩
  · have hrun : (run (flowStep twoPackets) .start
        [.readClock 0 5, .readClock 1 7, .next 1, .next 1, .next 0,
          .next 0]).map (·.phase 0) = some (.seen 5 7) := by
      decide +kernel
    obtain ⟨s, hs, hphase⟩ := Option.map_eq_some_iff.mp hrun
    exact ⟨s, 5, 7, run_reach hs, hphase, by decide⟩

end XdpIds
