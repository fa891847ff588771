/-
The dump against the traffic.

`Undisturbed` is the condition on a run: nobody evicts the key the loop
has in hand. In every run whose steps all meet it, each row is an entry
its key had at some moment of the dump, and a key that stayed in the map
throughout is printed once at most (`dump_faithful`).

The invariant (`Faithful`) follows the key in hand: it is in the map, so a
lookup finds it, and every printed key that has stayed stands before it,
so none comes up again. The kernel's steps move no key that they leave in
(`kernelMove_before`), which is all that the invariant needs of them; and
they are the steps of the kernel program (`countStep_kernelMove`).

Without the condition both halves fail on a full map
(`evicted_in_hand`): an eviction between the two calls makes the loop
print what is in its buffer, and one after a row makes it start over.
-/
import XdpIds.CountIps.Dump
import XdpIds.CountIps.Proofs.Parallel

namespace XdpIds.CountIps

open Cursor Transition

variable {s s' : DumpState} {move : DumpMove} {a c : UInt64}
  {t : Table UInt64 IpCount} {past : List DumpState}

-- ============================================================ what a step does

/-- The steps, each with what it finds and what it leaves. -/
inductive Dumps (s : DumpState) : DumpMove → DumpState → Prop
  | advance {key k} (hp : s.phase = .next key)
      (hk : s.table.nextKey key = some k) :
      Dumps s .dump { s with phase := .lookup k }
  | finish {key} (hp : s.phase = .next key)
      (hk : s.table.nextKey key = none) :
      Dumps s .dump { s with phase := .ended }
  | print {k} (hp : s.phase = .lookup k) :
      Dumps s .dump { s with
        value := (s.table.get k).getD s.value
        rows := s.rows ++ [(k, (s.table.get k).getD s.value)]
        phase := .next (some k) }
  | kernel {m} (hne : m ≠ .dump) :
      Dumps s m { s with table := kernelMove s.table m }

theorem dumpStep_dumps (h : dumpStep s move = some s') :
    Dumps s move s' := by
  cases move with
  | dump =>
      rw [dumpStep, DumpState.dump] at h
      cases hp : s.phase with
      | next key =>
          rw [hp] at h
          cases hk : s.table.nextKey key with
          | some k =>
              simp only [hk] at h
              obtain rfl := Option.some.inj h
              exact .advance hp hk
          | none =>
              simp only [hk] at h
              obtain rfl := Option.some.inj h
              exact .finish hp hk
      | lookup k =>
          rw [hp] at h
          obtain rfl := Option.some.inj h
          exact .print hp
      | ended =>
          rw [hp] at h
          cases h
  | _ =>
      obtain rfl := Option.some.inj h
      exact .kernel (by simp)

theorem Dumps.step (h : Dumps s move s') : dumpStep s move = some s' := by
  cases h with
  | advance hp hk => simp [dumpStep, DumpState.dump, hp, hk]
  | finish hp hk => simp [dumpStep, DumpState.dump, hp, hk]
  | print hp => simp [dumpStep, DumpState.dump, hp]
  | kernel hne => cases move <;> first | rfl | exact absurd rfl hne

-- ============================================================ the kernel's steps

/-- Keys that a kernel step leaves in keep their order. -/
theorem kernelMove_before (h : t.Before a c)
    (ha : a ∈ (kernelMove t move).keys) (hc : c ∈ (kernelMove t move).keys) :
    (kernelMove t move).Before a c := by
  cases move with
  | dump => exact h
  | insert key pktSize place => exact h.insertAt place
  | addCount key => exact h.modify _
  | addBytes key pktSize => exact h.modify _
  | evict key =>
      rw [kernelMove, Table.keys_erase, List.mem_filter] at ha hc
      apply h.erase
      · simpa using ha.2
      · simpa using hc.2

/-- Only an eviction takes a key out, its own. -/
theorem kernelMove_keeps (h : c ∈ t.keys) (hmove : move ≠ .evict c) :
    c ∈ (kernelMove t move).keys := by
  cases move with
  | dump => exact h
  | insert key pktSize place => exact (Table.keys_insertAt place).subset h
  | addCount key =>
      rw [kernelMove, Table.keys_modify]
      exact h
  | addBytes key pktSize =>
      rw [kernelMove, Table.keys_modify]
      exact h
  | evict key =>
      have hne : c ≠ key := fun heq => hmove (heq ▸ rfl)
      rw [kernelMove, Table.keys_erase, List.mem_filter]
      exact ⟨h, by simpa using hne⟩

/-- What the kernel program does to the map is one of these steps, or
nothing. -/
theorem countStep_kernelMove {ι : Type} [DecidableEq ι]
    {sample : ι → Sample} {p : ι} {u u' : CountState ι}
    (h : countStep sample u p = some u') (ht : t.get = u.map) :
    u'.map = u.map ∨ ∃ move, (kernelMove t move).get = u'.map := by
  cases countStep_moves h with
  | hit _ _ => exact .inl rfl
  | miss _ _ => exact .inl rfl
  | lost _ _ => exact .inl rfl
  | @count key pktSize ipc hp he =>
      refine .inr ⟨.addCount key, ?_⟩
      rw [← ht] at he
      rw [kernelMove, Table.get_modify _ he, ht]
      rfl
  | @size key pktSize ipc hp he =>
      refine .inr ⟨.addBytes key pktSize, ?_⟩
      rw [← ht] at he
      rw [kernelMove, Table.get_modify _ he, ht]
      rfl
  | @insert key pktSize hp he =>
      refine .inr ⟨.insert key pktSize 0, ?_⟩
      rw [← ht] at he
      rw [kernelMove, Table.get_insertAt _ (Table.get_eq_none.mp he), ht]
      rfl

-- ============================================================== the condition

/-- The key in hand: the one the loop was given last. -/
def DumpPhase.key : DumpPhase → Option UInt64
  | .next key => key
  | .lookup nextKey => some nextKey
  | .ended => none

/-- The steps that leave the key in hand in the map. -/
def Undisturbed (s : DumpState) : DumpMove → Prop
  | .evict key => s.phase.key ≠ some key
  | _ => True

instance (s : DumpState) : ∀ move, Decidable (Undisturbed s move)
  | .evict _ => inferInstanceAs (Decidable (_ ≠ _))
  | .dump | .insert _ _ _ | .addCount _ | .addBytes _ _ => .isTrue trivial

-- ============================================================== the invariant

/-- In the map at every moment so far. -/
def Stayed (past : List DumpState) (key : UInt64) : Prop :=
  ∀ m ∈ past, key ∈ m.table.keys

/-- The loop has left a key behind. -/
def Behind (t : Table UInt64 IpCount) (key : UInt64) : DumpPhase → Prop
  | .next none => False
  | .next (some c) => key = c ∨ t.Before key c
  | .lookup c => t.Before key c
  | .ended => True

/-- The keys printed so far. -/
def DumpState.printed (s : DumpState) : List UInt64 := s.rows.map Prod.fst

/-- The state along an undisturbed run, and the moments up to it. -/
structure Faithful (s : DumpState) (past : List DumpState) : Prop where
  now : s ∈ past
  inHand : ∀ key, s.phase.key = some key → key ∈ s.table.keys
  held : ∀ row ∈ s.rows, ∃ m ∈ past, m.table.get row.1 = some row.2
  behind : ∀ key ∈ s.printed, Stayed past key →
    Behind s.table key s.phase
  once : ∀ key, Stayed past key → s.printed.count key ≤ 1

theorem Stayed.earlier (h : Stayed (s' :: past) a) : Stayed past a :=
  fun m hm => h m (List.mem_cons_of_mem _ hm)

theorem faithful_start (table : Table UInt64 IpCount) (value : IpCount) :
    Faithful (.start table value) [.start table value] where
  now := List.mem_cons_self
  inHand := fun _ h => by cases h
  held := fun _ h => by cases h
  behind := fun _ h => by cases h
  once := fun _ _ => Nat.zero_le 1

/-- A step that prints nothing, and keeps the key in hand and what is
behind it. -/
theorem Faithful.quiet (hI : Faithful s past) (hrows : s'.rows = s.rows)
    (hhand : ∀ key, s'.phase.key = some key → key ∈ s'.table.keys)
    (hbehind : ∀ key, key ∈ s'.table.keys → Behind s.table key s.phase →
      Behind s'.table key s'.phase) :
    Faithful s' (s' :: past) where
  now := List.mem_cons_self
  inHand := hhand
  held := by
    rw [hrows]
    intro row hrow
    obtain ⟨m, hm, hget⟩ := hI.held row hrow
    exact ⟨m, List.mem_cons_of_mem _ hm, hget⟩
  behind := by
    unfold DumpState.printed
    rw [hrows]
    intro key hkey hstay
    exact hbehind key (hstay s' List.mem_cons_self)
      (hI.behind key hkey hstay.earlier)
  once := by
    unfold DumpState.printed
    rw [hrows]
    exact fun key hstay => hI.once key hstay.earlier

/-- What is behind stays behind when the loop moves on. -/
theorem behind_advance {key : Option UInt64} {k : UInt64}
    (hhand : ∀ c, key = some c → c ∈ t.keys)
    (hk : t.nextKey key = some k) (h : Behind t a (.next key)) :
    t.Before a k := by
  cases key with
  | none => cases h
  | some c => exact t.nextKey_before (hhand c rfl) hk h

/-- What is behind stays behind when the kernel moves. -/
theorem behind_kernel {phase : DumpPhase}
    (ha : a ∈ (kernelMove t move).keys)
    (hhand : ∀ c, phase.key = some c → c ∈ (kernelMove t move).keys)
    (h : Behind t a phase) : Behind (kernelMove t move) a phase := by
  cases phase with
  | next key =>
      cases key with
      | none => cases h
      | some c =>
          exact h.imp_right fun hb => kernelMove_before hb ha (hhand c rfl)
  | lookup c => exact kernelMove_before h ha (hhand c rfl)
  | ended => trivial

/-- The row of a key that is in the map, and not behind. -/
theorem Faithful.print (hI : Faithful s past) {k : UInt64}
    (hp : s.phase = .lookup k) (hs : s'.table = s.table)
    (hphase : s'.phase = .next (some k))
    (hrows : s'.rows = s.rows ++ [(k, (s.table.get k).getD s.value)]) :
    Faithful s' (s' :: past) := by
  have hk : k ∈ s.table.keys := hI.inHand k (by rw [hp]; rfl)
  obtain ⟨v, hv⟩ := Option.isSome_iff_exists.mp (Table.get_isSome.mpr hk)
  have hprinted : s'.printed = s.printed ++ [k] := by
    unfold DumpState.printed
    rw [hrows, List.map_append]
    rfl
  have hbefore : ∀ key ∈ s.printed, Stayed past key →
      s.table.Before key k := by
    intro key hkey hstay
    have hb := hI.behind key hkey hstay
    rw [hp] at hb
    exact hb
  constructor
  · exact List.mem_cons_self
  · rw [hphase, hs]
    intro key hkey
    obtain rfl := Option.some.inj hkey
    exact hk
  · rw [hrows, hv]
    intro row hrow
    rcases List.mem_append.mp hrow with hold | hnew
    · obtain ⟨m, hm, hget⟩ := hI.held row hold
      exact ⟨m, List.mem_cons_of_mem _ hm, hget⟩
    · obtain rfl := List.mem_singleton.mp hnew
      exact ⟨s, List.mem_cons_of_mem _ hI.now, hv⟩
  · rw [hprinted, hphase, hs]
    intro key hkey hstay
    rcases List.mem_append.mp hkey with hold | hnew
    · exact .inr (hbefore key hold hstay.earlier)
    · exact .inl (List.mem_singleton.mp hnew)
  · rw [hprinted]
    intro key hstay
    have honce := hI.once key hstay.earlier
    rw [List.count_append]
    by_cases hkey : k = key
    · subst hkey
      -- a printed key that stayed would be before itself
      have hnot : k ∉ s.printed := fun h =>
        (hbefore k h hstay.earlier).ne rfl
      simp [List.count_eq_zero.mpr hnot]
    · simp [hkey, honce]

/-- Undisturbed steps keep the dump faithful. -/
theorem faithful_step (hI : Faithful s past) (hgood : Undisturbed s move)
    (hs : Dumps s move s') : Faithful s' (s' :: past) := by
  cases hs with
  | @advance key k hp hk =>
      have hhand : ∀ c, key = some c → c ∈ s.table.keys := fun c hc =>
        hI.inHand c (by rw [hp]; exact hc)
      apply hI.quiet
      · rfl
      · intro c hc
        obtain rfl := Option.some.inj hc
        exact s.table.nextKey_mem hk
      · intro a _ hb
        rw [hp] at hb
        exact behind_advance hhand hk hb
  | finish hp hk =>
      apply hI.quiet
      · rfl
      · intro c hc
        cases hc
      · exact fun _ _ _ => trivial
  | @print k hp =>
      exact hI.print hp rfl rfl rfl
  | kernel hne =>
      have hhand : ∀ c, s.phase.key = some c →
          c ∈ (kernelMove s.table move).keys := by
        intro c hc
        apply kernelMove_keeps (hI.inHand c hc)
        intro hmove
        subst hmove
        exact hgood hc
      apply hI.quiet
      · rfl
      · exact hhand
      · exact fun a ha hb => behind_kernel ha hhand hb

-- ================================================================= whole runs

/-- In every run in which nobody evicts the key in hand, every row printed
is an entry its key had at some moment of the dump, and no key that stayed
throughout is printed twice. -/
theorem dump_faithful {table : Table UInt64 IpCount} {value : IpCount}
    {s : DumpState} {past : List DumpState}
    (hrun : Reach (logged dumpStep) (fun s move => Undisturbed s.1 move)
      (.start table value, [.start table value]) (s, past)) :
    (∀ row ∈ s.rows, ∃ m ∈ past, m.table.get row.1 = some row.2)
      ∧ ∀ key, (∀ m ∈ past, key ∈ m.table.keys) →
        (s.rows.map Prod.fst).count key ≤ 1 := by
  have hI := hrun.invariant (I := fun s => Faithful s.1 s.2)
    (faithful_start table value) fun s move s' hI hgood hs => by
      obtain ⟨hstep, hpast⟩ := logged_inv hs
      rw [hpast]
      exact faithful_step hI hgood (dumpStep_dumps hstep)
  exact ⟨hI.held, hI.once⟩

/-- Two entries. -/
def twoEntries : Table UInt64 IpCount :=
  ⟨[(1, ⟨3, 180⟩), (2, ⟨1, 60⟩)], by decide⟩

/-- A dump of them while one is counted up, and a third comes in before
them. -/
def busyDump : List DumpMove :=
  [.dump, .addCount 1, .dump, .insert 9 60 0, .dump, .dump, .dump]

/-- The first is printed with a count that it had for a moment. -/
theorem dump_faithful_busyDump :
    ∃ (s : DumpState) (past : List DumpState),
      Reach (logged dumpStep) (fun s move => Undisturbed s.1 move)
          (.start twoEntries ⟨0, 0⟩, [.start twoEntries ⟨0, 0⟩]) (s, past)
        ∧ s.phase = .ended
        ∧ s.rows = [(1, ⟨4, 180⟩), (2, ⟨1, 60⟩)]
        ∧ ∃ m ∈ past, m.table.get 1 = some ⟨4, 180⟩ := by
  have hrun : (run (guarded (logged dumpStep)
        fun s move => Undisturbed s.1 move)
      (.start twoEntries ⟨0, 0⟩, [.start twoEntries ⟨0, 0⟩])
      busyDump).map (fun s => (s.1.phase, s.1.rows))
      = some (.ended, [(1, ⟨4, 180⟩), (2, ⟨1, 60⟩)]) := by
    decide +kernel
  obtain ⟨⟨s, past⟩, hs, hend⟩ := Option.map_eq_some_iff.mp hrun
  obtain ⟨hphase, hrows⟩ := Prod.mk.inj hend
  have hreach := run_guarded hs
  have hrow : (1, ⟨4, 180⟩) ∈ s.rows := by
    rw [hrows]
    exact List.mem_cons_self
  have hheld := (dump_faithful hreach).1 _ hrow
  exact ⟨s, past, hreach, hphase, hrows, hheld⟩

-- ================================================== a key that goes while in hand

/-- An eviction between the two calls: the row has what the buffer held,
whatever that is. -/
theorem stale_row {k : UInt64} {value : IpCount}
    (hk : t.nextKey none = some k) (hvalue : t.get k ≠ some value) :
    ∃ s past, Reach (logged dumpStep) Any
        (.start t value, [.start t value]) (s, past)
      ∧ (k, value) ∈ s.rows ∧ ∀ m ∈ past, m.table.get k ≠ some value := by
  have hgone : (t.erase k).get k = none := by
    rw [Table.get_erase]
    exact Function.update_self ..
  let s₀ := DumpState.start t value
  let s₁ : DumpState := { s₀ with phase := .lookup k }
  let s₂ : DumpState := { s₁ with table := t.erase k }
  let row := ((t.erase k).get k).getD value
  let s₃ : DumpState := ⟨t.erase k, .next (some k), row, [(k, row)]⟩
  have h₁ : dumpStep s₀ .dump = some s₁ := Dumps.step (.advance rfl hk)
  have h₂ : dumpStep s₁ (.evict k) = some s₂ :=
    Dumps.step (.kernel (by simp))
  have h₃ : dumpStep s₂ .dump = some s₃ := Dumps.step (.print rfl)
  refine ⟨s₃, [s₃, s₂, s₁, s₀], ?_, ?_, ?_⟩
  · apply logged_step _ trivial h₃
    apply logged_step _ trivial h₂
    exact logged_step .start trivial h₁
  · have hrow : row = value := by simp [row, hgone]
    simp [s₃, hrow]
  · simp [s₃, s₂, s₁, s₀, DumpState.start, hgone, hvalue]

/-- An eviction of the key of the last row: the loop starts over, and
prints the first key again. -/
theorem row_again {a b : UInt64} (ha : t.nextKey none = some a)
    (hb : t.nextKey (some a) = some b) (value : IpCount) :
    ∃ s past, Reach (logged dumpStep) Any
        (.start t value, [.start t value]) (s, past)
      ∧ (∀ m ∈ past, a ∈ m.table.keys)
      ∧ (s.rows.map Prod.fst).count a = 2 := by
  have hmem := t.nextKey_mem ha
  have hne : a ≠ b := (t.nextKey_before hmem hb (.inl rfl)).ne
  have hgone : b ∉ (t.erase b).keys := by simp [Table.keys_erase]
  have hkept : a ∈ (t.erase b).keys := by simp [Table.keys_erase, hmem, hne]
  have hfirst : (t.erase b).nextKey (some b) = some a := by
    rw [Table.nextKey_gone hgone, Table.nextKey_erase ha hne]
  let rowOf (u : Table UInt64 IpCount) (k : UInt64) (old : IpCount) :=
    (u.get k).getD old
  let va := rowOf t a value
  let vb := rowOf t b va
  let vc := rowOf (t.erase b) a vb
  let s₀ := DumpState.start t value
  let s₁ : DumpState := { s₀ with phase := .lookup a }
  let s₂ : DumpState := ⟨t, .next (some a), va, [(a, va)]⟩
  let s₃ : DumpState := { s₂ with phase := .lookup b }
  let s₄ : DumpState := ⟨t, .next (some b), vb, [(a, va), (b, vb)]⟩
  let s₅ : DumpState := { s₄ with table := t.erase b }
  let s₆ : DumpState := { s₅ with phase := .lookup a }
  let s₇ : DumpState :=
    ⟨t.erase b, .next (some a), vc, [(a, va), (b, vb), (a, vc)]⟩
  have h₁ : dumpStep s₀ .dump = some s₁ := Dumps.step (.advance rfl ha)
  have h₂ : dumpStep s₁ .dump = some s₂ := Dumps.step (.print rfl)
  have h₃ : dumpStep s₂ .dump = some s₃ := Dumps.step (.advance rfl hb)
  have h₄ : dumpStep s₃ .dump = some s₄ := Dumps.step (.print rfl)
  have h₅ : dumpStep s₄ (.evict b) = some s₅ :=
    Dumps.step (.kernel (by simp))
  have h₆ : dumpStep s₅ .dump = some s₆ := Dumps.step (.advance rfl hfirst)
  have h₇ : dumpStep s₆ .dump = some s₇ := Dumps.step (.print rfl)
  refine ⟨s₇, [s₇, s₆, s₅, s₄, s₃, s₂, s₁, s₀], ?_, ?_, ?_⟩
  · apply logged_step _ trivial h₇
    apply logged_step _ trivial h₆
    apply logged_step _ trivial h₅
    apply logged_step _ trivial h₄
    apply logged_step _ trivial h₃
    apply logged_step _ trivial h₂
    exact logged_step .start trivial h₁
  · simp [s₇, s₆, s₅, s₄, s₃, s₂, s₁, s₀, DumpState.start, hmem, hkept]
  · simp [s₇, Ne.symm hne]

/-- A map of 4096 entries. -/
def fullTable : Table UInt64 IpCount where
  entries := (List.range 4096).map fun i => (UInt64.ofNat i, ⟨1, 60⟩)
  nodup := by
    rw [List.map_map]
    apply List.Nodup.map_on _ List.nodup_range
    intro i hi j hj heq
    have hi' := List.mem_range.mp hi
    have hj' := List.mem_range.mp hj
    have hnat := congrArg UInt64.toNat heq
    simp only [Function.comp_apply, UInt64.toNat_ofNat'] at hnat
    omega

/-- On a full map both evictions do harm: a row that no moment of the dump
bears out, and a second row for a key that stayed throughout. -/
theorem evicted_in_hand :
    fullTable.entries.length = 4096
    ∧ (∃ s past, Reach (logged dumpStep) Any
        (.start fullTable ⟨7, 7⟩, [.start fullTable ⟨7, 7⟩]) (s, past)
      ∧ (0, ⟨7, 7⟩) ∈ s.rows ∧ ∀ m ∈ past, m.table.get 0 ≠ some ⟨7, 7⟩)
    ∧ ∃ s past, Reach (logged dumpStep) Any
        (.start fullTable ⟨7, 7⟩, [.start fullTable ⟨7, 7⟩]) (s, past)
      ∧ (∀ m ∈ past, 0 ∈ m.table.keys)
      ∧ (s.rows.map Prod.fst).count 0 = 2 := by
  have hfirst : fullTable.nextKey none = some 0 := by decide +kernel
  have hsecond : fullTable.nextKey (some 0) = some 1 := by decide +kernel
  have hentry : fullTable.get 0 ≠ some ⟨7, 7⟩ := by decide +kernel
  exact ⟨by simp [fullTable], stale_row hfirst hentry,
    row_again hfirst hsecond _⟩

end XdpIds.CountIps
