/-
Tasks that work on the entries of a keyed store, one access at a time and
in any interleaving, while entries may be dropped.

A `Prog` is a sequential program on one entry: it looks the entry up, puts
one where there is none, or works on the one it has found, and goes on
with what it read. `Prog.run` is the program without interruption.

# The condition

A task is started on an input that has a key, and then makes its accesses
among those of the others. `OneAtATime` asks that no task is started, and
no entry dropped, while a task is at work on the same key. Tasks of
different keys interleave as they like.

# The result

`Serial` is what runs under the condition keep. The history is the order
in which tasks were started and entries dropped. A task returns what its
program returns on the entry that the history before it leaves, and an
entry nobody works on is the one the whole history leaves. So such a run
is one of the store's changes, one after another (`Keyed.change`).
-/
import XdpIds.Lib.Evicting
import XdpIds.Lib.Transition
import Mathlib.Data.List.Nodup

namespace XdpIds.Tasks

open Keyed (Change change events)

variable {ι κ τ α β γ : Type}

-- ================================================================= programs

/-- A program on an entry. -/
inductive Prog (α β : Type) where
  | ret (b : β)
  /-- The entry is looked up. -/
  | lookup (next : Option α → Prog α β)
  /-- An entry is put where there is none. -/
  | insert (a : α) (next : Prog α β)
  /-- An entry that was found is read and changed, in one access. -/
  | modify (f : α → α) (next : α → Prog α β)

namespace Prog

/-- One program after another. -/
def bind : Prog α β → (β → Prog α γ) → Prog α γ
  | .ret b, f => f b
  | .lookup next, f => .lookup fun found => (next found).bind f
  | .insert a next, f => .insert a (next.bind f)
  | .modify g next, f => .modify g fun a => (next a).bind f

instance : Monad (Prog α) where
  pure := .ret
  bind := bind

/-- The entry, if there is one. -/
def find : Prog α (Option α) := .lookup .ret

/-- An entry where there is none. -/
def put (a : α) : Prog α Unit := .insert a (.ret ())

/-- A field of the entry that was found. -/
def load (field : α → γ) : Prog α γ := .modify id fun a => .ret (field a)

/-- A change of the entry that was found. -/
def store (f : α → α) : Prog α Unit := .modify f fun _ => .ret ()

/-- The next access: the entry it leaves and the rest of the program. There
is none on an entry that was found and is gone. -/
def step : Prog α β → Option α → Option (Option α × Prog α β)
  | .ret _, _ => none
  | .lookup next, found => some (found, next found)
  | .insert a next, found => some (some (found.getD a), next)
  | .modify f next, some a => some (some (f a), next a)
  | .modify _ _, none => none

/-- The program without interruption: what it returns and the entry it
leaves. -/
def run : Prog α β → Option α → Option (β × Option α)
  | .ret b, found => some (b, found)
  | .lookup next, found => (next found).run found
  | .insert a next, found => next.run (some (found.getD a))
  | .modify f next, some a => (next a).run (some (f a))
  | .modify _ _, none => none

/-- The program has returned. -/
def returned : Prog α β → Bool
  | .ret _ => true
  | _ => false

variable {prog rest : Prog α β} {found found' : Option α}

theorem run_bind (prog : Prog α β) (f : β → Prog α γ) (found : Option α) :
    (prog >>= f).run found
      = (prog.run found).bind fun r => (f r.1).run r.2 := by
  show (prog.bind f).run found = _
  induction prog generalizing found with
  | ret b => rfl
  | lookup next ih => exact ih found found
  | insert a next ih => exact ih _
  | modify g next ih =>
      cases found with
      | none => rfl
      | some a => exact ih a _

/-- An access is the head of the run. -/
theorem run_step (h : prog.step found = some (found', rest)) :
    prog.run found = rest.run found' := by
  cases prog with
  | ret b => cases h
  | lookup next =>
      obtain ⟨rfl, rfl⟩ := Prod.mk.inj (Option.some.inj h)
      rfl
  | insert a next =>
      obtain ⟨rfl, rfl⟩ := Prod.mk.inj (Option.some.inj h)
      rfl
  | modify f next =>
      cases found with
      | none => cases h
      | some a =>
          obtain ⟨rfl, rfl⟩ := Prod.mk.inj (Option.some.inj h)
          rfl

theorem not_returned_of_step (h : prog.step found = some (found', rest)) :
    prog.returned = false := by
  cases prog with
  | ret b => cases h
  | _ => rfl

/-- A program that returns has come to its result. -/
theorem eq_ret (h : prog.returned = true) : ∃ b, prog = .ret b := by
  cases prog with
  | ret b => exact ⟨b, rfl⟩
  | _ => cases h

end Prog

-- ==================================================================== tasks

/-- What is done for an input: on whose entry, and by which program. -/
structure Code (τ κ α β : Type) where
  key : τ → Option κ
  prog : τ → Prog α β

/-- The store, and the tasks that have been started, each with its input
and the rest of its program. -/
structure TaskState (ι κ τ α β : Type) where
  entry : κ → Option α
  task : ι → Option (τ × Prog α β)

/-- An empty store, and no task. -/
def TaskState.start : TaskState ι κ τ α β := ⟨fun _ => none, fun _ => none⟩

/-- A task is started, or makes its next access; an entry is dropped. -/
inductive TaskMove (ι κ τ : Type) where
  | start (p : ι) (x : τ)
  | access (p : ι)
  | drop (k : κ)

/-- A task goes on with the rest of its program, and leaves the store
so. -/
def TaskState.move [DecidableEq ι] (s : TaskState ι κ τ α β) (p : ι)
    (entry : κ → Option α) (x : τ) (rest : Prog α β) :
    TaskState ι κ τ α β :=
  ⟨entry, Function.update s.task p (some (x, rest))⟩

/-- One move. -/
def Code.step [DecidableEq ι] [DecidableEq κ] (code : Code τ κ α β)
    (s : TaskState ι κ τ α β) :
    TaskMove ι κ τ → Option (TaskState ι κ τ α β)
  | .start p x =>
      match s.task p with
      | none => some (s.move p s.entry x (code.prog x))
      | some _ => none
  | .access p => do
      let (x, prog) ← s.task p
      let k ← code.key x
      let (found, rest) ← prog.step (s.entry k)
      return s.move p (Function.update s.entry k found) x rest
  | .drop k => some { s with entry := Function.update s.entry k none }

/-- The key a task is at work on. -/
def Code.worksOn (code : Code τ κ α β) (s : TaskState ι κ τ α β) (p : ι) :
    Option κ :=
  (s.task p).bind fun task =>
    if task.2.returned then none else code.key task.1

/-- The tasks of a key, and the drops of its entry, come one after
another. -/
def Code.OneAtATime (code : Code τ κ α β) (s : TaskState ι κ τ α β) :
    TaskMove ι κ τ → Prop
  | .start _ x => ∀ q, code.worksOn s q = none ∨ code.worksOn s q ≠ code.key x
  | .access _ => True
  | .drop k => ∀ q, code.worksOn s q ≠ some k

instance [Fintype ι] [DecidableEq κ] (code : Code τ κ α β)
    (s : TaskState ι κ τ α β) : ∀ m, Decidable (code.OneAtATime s m)
  | .start _ x => inferInstanceAs
      (Decidable (∀ q, code.worksOn s q = none ∨ code.worksOn s q ≠ code.key x))
  | .access _ => inferInstanceAs (Decidable True)
  | .drop k => inferInstanceAs (Decidable (∀ q, code.worksOn s q ≠ some k))

-- ======================================================== what is worked on

section WorksOn

variable {code : Code τ κ α β} {s : TaskState ι κ τ α β} {p q : ι} {x : τ}
  {k : κ} {prog : Prog α β} {entry : κ → Option α}

theorem worksOn_eq (h : s.task p = some (x, prog)) :
    code.worksOn s p = if prog.returned then none else code.key x := by
  rw [Code.worksOn, h]
  rfl

/-- A task at work was started and has not returned. -/
theorem of_worksOn (h : code.worksOn s p = some k) :
    ∃ x prog, s.task p = some (x, prog) ∧ prog.returned = false
      ∧ code.key x = some k := by
  cases htask : s.task p with
  | none =>
      rw [Code.worksOn, htask] at h
      cases h
  | some task =>
      obtain ⟨x, prog⟩ := task
      rw [worksOn_eq htask] at h
      split at h
      · cases h
      · next hret => exact ⟨x, prog, rfl, Bool.eq_false_iff.mpr hret, h⟩

/-- A task that was started and is not at work on its key has
returned. -/
theorem eq_ret_of_idle (h : s.task p = some (x, prog))
    (hkey : code.key x = some k) (hidle : code.worksOn s p ≠ some k) :
    ∃ b, prog = .ret b := by
  rw [worksOn_eq h, hkey] at hidle
  refine Prog.eq_ret ?_
  by_contra hno
  exact hidle (if_neg hno)

variable [DecidableEq ι]

@[simp] theorem move_task_self (s : TaskState ι κ τ α β) :
    (s.move p entry x prog).task p = some (x, prog) :=
  Function.update_self ..

theorem move_task_of_ne (h : q ≠ p) :
    (s.move p entry x prog).task q = s.task q := Function.update_of_ne h ..

/-- Whose rest of a program it is. -/
theorem of_move_task {y : τ} {rest : Prog α β}
    (h : (s.move p entry x prog).task q = some (y, rest)) :
    (q = p ∧ y = x ∧ rest = prog) ∨ (q ≠ p ∧ s.task q = some (y, rest)) := by
  by_cases hqp : q = p
  · subst hqp
    rw [move_task_self] at h
    obtain ⟨rfl, rfl⟩ := Prod.mk.inj (Option.some.inj h)
    exact Or.inl ⟨rfl, rfl, rfl⟩
  · rw [move_task_of_ne hqp] at h
    exact Or.inr ⟨hqp, h⟩

theorem worksOn_move_self (s : TaskState ι κ τ α β) :
    code.worksOn (s.move p entry x prog) p
      = if prog.returned then none else code.key x :=
  worksOn_eq (move_task_self s)

theorem worksOn_move_of_ne (h : q ≠ p) :
    code.worksOn (s.move p entry x prog) q = code.worksOn s q := by
  rw [Code.worksOn, move_task_of_ne h]
  rfl

end WorksOn

-- ================================================================== histories

/-- A change of the store, whichever task makes it. -/
def forget : Change (ι × τ) κ → Change τ κ
  | .event e => .event e.2
  | .drop k => .drop k

/-- The store's changes in a history. -/
def changes (past : List (Change (ι × τ) κ)) : List (Change τ κ) :=
  past.map forget

/-- The tasks started in a history. -/
def started (past : List (Change (ι × τ) κ)) : List ι :=
  (events past).map Prod.fst

section Histories

variable {past past' : List (Change (ι × τ) κ)} {p : ι} {x : τ} {k : κ}

theorem started_append (past past' : List (Change (ι × τ) κ)) :
    started (past ++ past') = started past ++ started past' := by
  rw [started, events, List.filterMap_append, List.map_append]
  rfl

@[simp] theorem started_event :
    started [(.event (p, x) : Change (ι × τ) κ)] = [p] := rfl

@[simp] theorem started_drop :
    started [(.drop k : Change (ι × τ) κ)] = [] := rfl

/-- What was started has a place in the history. -/
theorem mem_events {e : ι × τ} : e ∈ events past
    ↔ ∃ earlier, earlier ++ [.event e] <+: past := by
  constructor
  · intro he
    obtain ⟨c, hc, hce⟩ := List.mem_filterMap.mp he
    cases c with
    | drop k => cases hce
    | event e' =>
        obtain rfl := Option.some.inj hce
        obtain ⟨earlier, later, rfl⟩ := List.append_of_mem hc
        exact ⟨earlier, later, by simp⟩
  · rintro ⟨earlier, later, rfl⟩
    simp [events]

theorem mem_started : p ∈ started past
    ↔ ∃ x earlier, earlier ++ [.event (p, x)] <+: past := by
  constructor
  · intro hp
    obtain ⟨⟨p', x⟩, he, rfl⟩ := List.mem_map.mp hp
    exact ⟨x, mem_events.mp he⟩
  · rintro ⟨x, hplace⟩
    exact List.mem_map.mpr ⟨(p, x), mem_events.mpr hplace, rfl⟩

/-- A place in a history that has grown by one. -/
theorem place_cases {earlier : List (Change (ι × τ) κ)} {c : Change (ι × τ) κ}
    (h : earlier ++ [.event (p, x)] <+: past ++ [c]) :
    (earlier = past ∧ c = .event (p, x))
      ∨ earlier ++ [.event (p, x)] <+: past := by
  rcases List.prefix_concat_iff.mp h with h | h
  · obtain ⟨hearlier, hc⟩ := List.append_inj' h rfl
    exact Or.inl ⟨hearlier, (List.singleton_inj.mp hc).symm⟩
  · exact Or.inr h

end Histories

-- ============================================================ the invariant

/-- What each program makes of the entry it is started on. -/
structure Code.Computes [DecidableEq κ] (code : Code τ κ α β)
    (upd : Option α → τ → α) (out : Option α → τ → β) : Prop where
  keyed : ∀ x k found, code.key x = some k →
    (code.prog x).run found = some (out found x, some (upd found x))
  keyless : ∀ x, code.key x = none → code.prog x = .ret (out none x)

section Serial

variable [DecidableEq κ]

/-- The store a history leaves. -/
def Code.table (code : Code τ κ α β) (upd : Option α → τ → α)
    (past : List (Change (ι × τ) κ)) : κ → Option α :=
  (changes past).foldl (change code.key upd) fun _ => none

/-- The entry that an input finds after a history. -/
def Code.finds (code : Code τ κ α β) (upd : Option α → τ → α)
    (past : List (Change (ι × τ) κ)) (x : τ) : Option α :=
  (code.key x).bind (code.table upd past)

/-- A task that was started after `earlier` comes to the result of its
program there: it has it, or is at work and will leave the history's
entry with it. -/
def Comes (code : Code τ κ α β) (upd : Option α → τ → α)
    (out : Option α → τ → β) (past : List (Change (ι × τ) κ))
    (s : TaskState ι κ τ α β) (earlier : List (Change (ι × τ) κ)) (p : ι)
    (x : τ) : Prop :=
  ∃ prog, s.task p = some (x, prog)
    ∧ (∀ k, code.worksOn s p = some k → prog.run (s.entry k)
      = some (out (code.finds upd earlier x) x, code.table upd past k))
    ∧ (code.worksOn s p = none →
      prog = .ret (out (code.finds upd earlier x) x))

/-- What every run keeps in which the tasks of a key come one after
another. -/
structure Serial (code : Code τ κ α β) (upd : Option α → τ → α)
    (out : Option α → τ → β) (past : List (Change (ι × τ) κ))
    (s : TaskState ι κ τ α β) : Prop where
  nodup : (started past).Nodup
  mem : ∀ p, s.task p ≠ none → p ∈ started past
  comes : ∀ earlier p x, earlier ++ [.event (p, x)] <+: past →
    Comes code upd out past s earlier p x
  alone : ∀ p q k, code.worksOn s p = some k → code.worksOn s q = some k →
    p = q
  /-- An entry nobody works on is what the history leaves. -/
  settled : ∀ k, (∀ p, code.worksOn s p ≠ some k) →
    s.entry k = code.table upd past k

variable {code : Code τ κ α β} {upd : Option α → τ → α}
  {out : Option α → τ → β} {past past' : List (Change (ι × τ) κ)}
  {s s' : TaskState ι κ τ α β}

theorem serial_start :
    Serial code upd out [] (.start : TaskState ι κ τ α β) where
  nodup := .nil
  mem _ h := absurd rfl h
  comes _ _ _ h := by simp at h
  alone _ _ _ h := by cases h
  settled _ _ := rfl

-- ================================================================ the store

theorem table_concat (past : List (Change (ι × τ) κ))
    (c : Change (ι × τ) κ) :
    code.table upd (past ++ [c])
      = change code.key upd (code.table upd past) (forget c) := by
  simp [Code.table, changes]

/-- A task that is started changes the entry of its key. -/
theorem table_event {p : ι} {x : τ} {k : κ} (hk : code.key x = some k) :
    code.table upd (past ++ [.event (p, x)]) k
      = some (upd (code.finds upd past x) x) := by
  rw [table_concat, Code.finds, hk]
  exact Keyed.absorb_self hk

/-- And no other. -/
theorem table_event_of_ne {p : ι} {x : τ} {k : κ}
    (hk : code.key x ≠ some k) :
    code.table upd (past ++ [.event (p, x)]) k = code.table upd past k := by
  rw [table_concat]
  exact Keyed.absorb_of_ne hk

theorem table_drop (k : κ) :
    code.table upd (past ++ [.drop k])
      = Function.update (code.table upd past) k none := table_concat ..

/-- A task does not notice what happens to other keys. -/
theorem Comes.frame {earlier : List (Change (ι × τ) κ)} {p : ι} {x : τ}
    (h : Comes code upd out past s earlier p x) (htask : s'.task p = s.task p)
    (hentry : ∀ k, code.worksOn s p = some k → s'.entry k = s.entry k)
    (htable : ∀ k, code.worksOn s p = some k →
      code.table upd past' k = code.table upd past k) :
    Comes code upd out past' s' earlier p x := by
  obtain ⟨prog, hprog, hwork, hresult⟩ := h
  have hsame : code.worksOn s' p = code.worksOn s p := by
    rw [Code.worksOn, htask]
    rfl
  refine ⟨prog, htask.trans hprog, fun k hk => ?_, fun hk => ?_⟩
  · rw [hsame] at hk
    rw [hentry k hk, htable k hk]
    exact hwork k hk
  · exact hresult (hsame.symm.trans hk)

/-- What a task comes to is not changed by its own access. -/
theorem Comes.accessed {earlier : List (Change (ι × τ) κ)} {p : ι}
    {x y : τ} {k : κ} {prog rest : Prog α β} {found : Option α}
    (h : Comes code upd out past s earlier p y)
    (htask : s.task p = some (x, prog)) (hkey : code.key x = some k)
    (hstep : prog.step (s.entry k) = some (found, rest)) :
    y = x ∧ rest.run found
      = some (out (code.finds upd earlier x) x, code.table upd past k) := by
  obtain ⟨prog', htask', hpending, -⟩ := h
  obtain ⟨rfl, rfl⟩ := Prod.mk.inj
    (Option.some.inj (htask'.symm.trans htask))
  have hworks : code.worksOn s p = some k := by
    rw [worksOn_eq htask, Prog.not_returned_of_step hstep]
    exact hkey
  exact ⟨rfl, (Prog.run_step hstep).symm.trans (hpending k hworks)⟩

/-- A task has a place, with its own input, and comes to its result from
there. -/
theorem Serial.placed (hS : Serial code upd out past s) {p : ι} {x : τ}
    {prog : Prog α β} (htask : s.task p = some (x, prog)) :
    ∃ earlier, earlier ++ [.event (p, x)] <+: past
      ∧ Comes code upd out past s earlier p x := by
  obtain ⟨y, earlier, hplace⟩ := mem_started.mp
    (hS.mem p (by rw [htask]; exact Option.some_ne_none _))
  obtain ⟨prog', htask', -⟩ := hS.comes earlier p y hplace
  obtain ⟨rfl, -⟩ := Prod.mk.inj (Option.some.inj (htask.symm.trans htask'))
  exact ⟨earlier, hplace, hS.comes earlier p x hplace⟩

/-- The tasks in the history are those that were started. -/
theorem Serial.started_iff (hS : Serial code upd out past s) (p : ι) :
    p ∈ started past ↔ s.task p ≠ none := by
  refine ⟨fun hp => ?_, hS.mem p⟩
  obtain ⟨x, earlier, hplace⟩ := mem_started.mp hp
  obtain ⟨prog, htask, -⟩ := hS.comes earlier p x hplace
  rw [htask]
  exact Option.some_ne_none _

/-- A task that has not been started has no place. -/
theorem Serial.not_placed (hS : Serial code upd out past s)
    {p q : ι} {y : τ} (htask : s.task p = none)
    {earlier : List (Change (ι × τ) κ)}
    (h : earlier ++ [.event (q, y)] <+: past) : q ≠ p := by
  rintro rfl
  exact (hS.started_iff q).mp (mem_started.mpr ⟨y, earlier, h⟩) htask

-- ================================================================= the moves

section Steps

variable [DecidableEq ι] {p : ι} {x : τ} {k : κ}

theorem Code.start_inv (h : code.step s (.start p x) = some s') :
    s.task p = none ∧ s' = s.move p s.entry x (code.prog x) := by
  cases htask : s.task p with
  | none =>
      rw [Code.step, htask] at h
      exact ⟨rfl, (Option.some.inj h).symm⟩
  | some task =>
      rw [Code.step, htask] at h
      cases h

theorem Code.access_inv (h : code.step s (.access p) = some s') :
    ∃ x prog k found rest, s.task p = some (x, prog)
      ∧ code.key x = some k ∧ prog.step (s.entry k) = some (found, rest)
      ∧ s' = s.move p (Function.update s.entry k found) x rest := by
  obtain ⟨⟨x, prog⟩, htask, h⟩ := Option.bind_eq_some_iff.mp h
  obtain ⟨k, hk, h⟩ := Option.bind_eq_some_iff.mp h
  obtain ⟨⟨found, rest⟩, hstep, h⟩ := Option.bind_eq_some_iff.mp h
  exact ⟨x, prog, k, found, rest, htask, hk, hstep,
    (Option.some.inj h).symm⟩

/-- A started task is on its way to its result. -/
theorem Comes.started (hC : code.Computes upd out)
    (hentry : ∀ k, code.key x = some k →
      s.entry k = code.table upd past k) :
    Comes code upd out (past ++ [.event (p, x)])
      (s.move p s.entry x (code.prog x)) past p x := by
  have hfinds : ∀ k, code.key x = some k →
      code.finds upd past x = code.table upd past k := by
    intro k hk
    rw [Code.finds, hk]
    rfl
  refine ⟨_, move_task_self s, fun k hk => ?_, fun hk => ?_⟩
  · rw [worksOn_move_self] at hk
    split at hk
    · cases hk
    · show (code.prog x).run (s.entry k) = _
      rw [table_event hk, hentry k hk, ← hfinds k hk]
      exact hC.keyed x k _ hk
  · cases hkey : code.key x with
    | none =>
        rw [Code.finds, hkey]
        exact hC.keyless x hkey
    | some k =>
        obtain ⟨b, hb⟩ := eq_ret_of_idle (move_task_self s) hkey (by
          rw [hk]
          exact nofun)
        have hrun := hC.keyed x k (code.finds upd past x) hkey
        rw [hb] at hrun ⊢
        rw [(Prod.mk.inj (Option.some.inj hrun)).1]

/-- A task is started while nobody is at work on its key. -/
theorem Serial.started (hC : code.Computes upd out)
    (hS : Serial code upd out past s)
    (hgood : code.OneAtATime s (.start p x))
    (h : code.step s (.start p x) = some s') :
    Serial code upd out (past ++ [.event (p, x)]) s' := by
  obtain ⟨htask, rfl⟩ := Code.start_inv h
  have hfree : ∀ q k, code.key x = some k → code.worksOn s q ≠ some k := by
    intro q k hk hq
    rcases hgood q with hnone | hne
    · rw [hnone] at hq
      cases hq
    · exact hne (hq.trans hk.symm)
  have hnew : ∀ k, code.worksOn (s.move p s.entry x (code.prog x)) p = some k →
      code.key x = some k := by
    intro k hk
    rw [worksOn_move_self] at hk
    split at hk
    · cases hk
    · exact hk
  have hcomes : Comes code upd out (past ++ [.event (p, x)])
      (s.move p s.entry x (code.prog x)) past p x :=
    .started hC fun k hk => hS.settled k fun q => hfree q k hk
  refine ⟨?_, fun q hq => ?_, fun earlier q y hplace => ?_,
    fun q r k hq hr => ?_, fun k hk => ?_⟩
  · rw [started_append, started_event]
    exact List.concat_eq_append ▸ hS.nodup.concat fun hp =>
      (hS.started_iff p).mp hp htask
  · rw [started_append, started_event, List.mem_append, List.mem_singleton]
    by_cases hqp : q = p
    · exact Or.inr hqp
    · rw [move_task_of_ne hqp] at hq
      exact Or.inl (hS.mem q hq)
  · rcases place_cases hplace with ⟨rfl, heq⟩ | hplace
    · obtain ⟨rfl, rfl⟩ := Prod.mk.inj (Change.event.inj heq)
      exact hcomes
    · refine (hS.comes earlier q y hplace).frame
        (move_task_of_ne (hS.not_placed htask hplace)) (fun _ _ => rfl) ?_
      exact fun k hk => table_event_of_ne fun hkey => hfree q k hkey hk
  · by_cases hqp : q = p
    · by_cases hrp : r = p
      · rw [hqp, hrp]
      · rw [worksOn_move_of_ne hrp] at hr
        exact absurd hr (hfree r k (hnew k (hqp ▸ hq)))
    · rw [worksOn_move_of_ne hqp] at hq
      by_cases hrp : r = p
      · exact absurd hq (hfree q k (hnew k (hrp ▸ hr)))
      · rw [worksOn_move_of_ne hrp] at hr
        exact hS.alone q r k hq hr
  · show s.entry k = _
    have hold : s.entry k = code.table upd past k := by
      refine hS.settled k fun q hq => ?_
      by_cases hqp : q = p
      · rw [hqp, Code.worksOn, htask] at hq
        cases hq
      · exact hk q ((worksOn_move_of_ne hqp).trans hq)
    by_cases hkey : code.key x = some k
    · -- a program that returns without an access leaves what it found
      obtain ⟨b, hb⟩ := eq_ret_of_idle (move_task_self s) hkey (hk p)
      have hrun := hC.keyed x k (s.entry k) hkey
      rw [hb] at hrun
      have hfinds : code.finds upd past x = s.entry k := by
        rw [Code.finds, hkey, hold]
        rfl
      rw [table_event hkey, hfinds]
      exact (Prod.mk.inj (Option.some.inj hrun)).2
    · rw [table_event_of_ne hkey]
      exact hold

/-- A task makes an access. -/
theorem Serial.accessed (hS : Serial code upd out past s)
    (h : code.step s (.access p) = some s') :
    Serial code upd out past s' := by
  obtain ⟨x, prog, k, found, rest, htask, hkey, hstep, rfl⟩ :=
    Code.access_inv h
  have hret := Prog.not_returned_of_step hstep
  have hworks : code.worksOn s p = some k := by
    rw [worksOn_eq htask, hret]
    exact hkey
  have hwas : ∀ q k', code.worksOn
      (s.move p (Function.update s.entry k found) x rest) q = some k' →
      code.worksOn s q = some k' := by
    intro q k' hq
    by_cases hqp : q = p
    · subst hqp
      rw [worksOn_move_self] at hq
      split at hq
      · cases hq
      · rw [hworks, ← hkey]
        exact hq
    · rwa [worksOn_move_of_ne hqp] at hq
  obtain ⟨earlier, hplace, hcomes⟩ := hS.placed htask
  refine ⟨hS.nodup, fun q hq => ?_, fun earlier' q y hplace' => ?_,
    fun q r k' hq hr => hS.alone q r k' (hwas q k' hq) (hwas r k' hr),
    fun k' hk => ?_⟩
  · by_cases hqp : q = p
    · rw [hqp]
      exact mem_started.mpr ⟨x, earlier, hplace⟩
    · rw [move_task_of_ne hqp] at hq
      exact hS.mem q hq
  · by_cases hqp : q = p
    · subst hqp
      obtain ⟨rfl, hrest⟩ :=
        (hS.comes earlier' q y hplace').accessed htask hkey hstep
      refine ⟨rest, move_task_self s, fun k' hk => ?_, fun hk => ?_⟩
      · obtain rfl := Option.some.inj ((hwas q k' hk).symm.trans hworks)
        show rest.run (Function.update s.entry k' found k') = _
        rw [Function.update_self]
        exact hrest
      · obtain ⟨b, rfl⟩ := eq_ret_of_idle (move_task_self s) hkey (by
          rw [hk]
          exact nofun)
        rw [(Prod.mk.inj (Option.some.inj hrest)).1]
    · refine (hS.comes earlier' q y hplace').frame (move_task_of_ne hqp)
        (fun k' hk => Function.update_of_ne ?_ ..) fun _ _ => rfl
      rintro rfl
      exact hqp (hS.alone q p k' hk hworks)
  · show Function.update s.entry k found k' = _
    by_cases hkk : k' = k
    · subst hkk
      rw [Function.update_self]
      obtain ⟨b, rfl⟩ := eq_ret_of_idle (move_task_self s) hkey (hk p)
      obtain ⟨-, hrest⟩ := hcomes.accessed htask hkey hstep
      exact (Prod.mk.inj (Option.some.inj hrest)).2
    · rw [Function.update_of_ne hkk]
      refine hS.settled k' fun q hq => ?_
      by_cases hqp : q = p
      · rw [hqp, hworks] at hq
        exact hkk (Option.some.inj hq).symm
      · exact hk q ((worksOn_move_of_ne hqp).trans hq)

/-- An entry is dropped that nobody is at work on. -/
theorem Serial.dropped (hS : Serial code upd out past s)
    (hgood : code.OneAtATime s (.drop k))
    (h : code.step s (.drop k) = some s') :
    Serial code upd out (past ++ [.drop k]) s' := by
  obtain rfl := Option.some.inj h
  refine ⟨?_, fun q hq => ?_, fun earlier q y hplace => ?_, hS.alone,
    fun k' hk => ?_⟩
  · rw [started_append, started_drop, List.append_nil]
    exact hS.nodup
  · rw [started_append, started_drop, List.append_nil]
    exact hS.mem q hq
  · rcases place_cases hplace with ⟨-, hdrop⟩ | hplace
    · cases hdrop
    · have hne : ∀ k', code.worksOn s q = some k' → k' ≠ k := by
        rintro k' hk rfl
        exact hgood q hk
      refine (hS.comes earlier q y hplace).frame rfl
        (fun k' hk => Function.update_of_ne (hne k' hk) ..) fun k' hk => ?_
      rw [table_drop, Function.update_of_ne (hne k' hk)]
  · show Function.update s.entry k none k' = _
    rw [table_drop]
    by_cases hkk : k' = k
    · rw [hkk, Function.update_self, Function.update_self]
    · rw [Function.update_of_ne hkk, Function.update_of_ne hkk]
      exact hS.settled k' hk

end Steps

end Serial

end XdpIds.Tasks
