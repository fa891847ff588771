/-
Ordered tables, and walking one by key while others change it.

A `Table` holds entries under distinct keys in some order. Whoever walks
it keeps nothing but the last key it was given and asks for the one
after it (`nextKey`); a key that is no longer there starts the walk over.

`Before t a b` is the order of two keys that are present. It is stated
as a sublist of the keys, so it survives whatever leaves both in place:
an insertion anywhere and the removal of a third key. `nextKey_before` is
the step of the walk: the next key comes after every key that is not
after the last one.
-/
import Mathlib.Data.List.Nodup
import Mathlib.Logic.Function.Basic

namespace XdpIds.Cursor

variable {κ α : Type} [DecidableEq κ]

-- ==================================================================== tables

/-- Entries in order, under distinct keys. -/
structure Table (κ α : Type) where
  entries : List (κ × α)
  nodup : (entries.map Prod.fst).Nodup

namespace Table

/-- The keys, in order. -/
def keys (t : Table κ α) : List κ := t.entries.map Prod.fst

/-- The entry of a key. -/
def get (t : Table κ α) (k : κ) : Option α :=
  (t.entries.find? fun e => e.1 = k).map Prod.snd

/-- Insert a new key at a place of the order; nothing happens if the key
is there. -/
def insertAt (t : Table κ α) (i : Nat) (k : κ) (v : α) : Table κ α :=
  if h : k ∈ t.keys then t
  else
    { entries := t.entries.take i ++ (k, v) :: t.entries.drop i
      nodup := by
        have hperm : (t.entries.take i ++ (k, v) :: t.entries.drop i).Perm
            ((k, v) :: t.entries) :=
          List.perm_middle.trans (by rw [List.take_append_drop])
        apply (hperm.map Prod.fst).nodup_iff.mpr
        exact List.nodup_cons.mpr ⟨h, t.nodup⟩ }

/-- Change the entry of a key, if it is there. -/
def modify (t : Table κ α) (k : κ) (f : α → α) : Table κ α where
  entries := t.entries.map fun e => if e.1 = k then (e.1, f e.2) else e
  nodup := by
    rw [List.map_map]
    convert t.nodup using 2
    funext e
    show (if e.1 = k then (e.1, f e.2) else e).1 = e.1
    split <;> rfl

/-- Remove a key. -/
def erase (t : Table κ α) (k : κ) : Table κ α where
  entries := t.entries.filter fun e => e.1 ≠ k
  nodup := t.nodup.sublist (List.filter_sublist.map Prod.fst)

variable {t : Table κ α} {k a b c : κ} {v : α}

/-- A key's entry is the one it stands with. -/
theorem get_eq_some : t.get k = some v ↔ (k, v) ∈ t.entries := by
  obtain ⟨entries, hnodup⟩ := t
  unfold get
  induction entries with
  | nil => simp
  | cons e es ih =>
      rw [List.map_cons, List.nodup_cons] at hnodup
      rw [List.find?_cons, List.mem_cons]
      by_cases he : e.1 = k
      · have hnone : (k, v) ∉ es := fun h =>
          hnodup.1 (he ▸ List.mem_map_of_mem (f := Prod.fst) h)
        simp [he, hnone, Prod.ext_iff, eq_comm]
      · have hne : (k, v) ≠ e := fun h => he (h ▸ rfl)
        simp only [he, decide_false, hne, false_or]
        exact ih hnodup.2

theorem get_isSome : (t.get k).isSome ↔ k ∈ t.keys := by
  unfold keys
  rw [Option.isSome_iff_exists, List.mem_map]
  constructor
  · rintro ⟨v, hv⟩
    exact ⟨(k, v), get_eq_some.mp hv, rfl⟩
  · rintro ⟨⟨_, v⟩, he, rfl⟩
    exact ⟨v, get_eq_some.mpr he⟩

theorem get_eq_none : t.get k = none ↔ k ∉ t.keys := by
  rw [← get_isSome, Option.not_isSome_iff_eq_none]

-- ================================================= the operations, key by key

/-- An insertion of a new key. -/
theorem get_insertAt (i : Nat) (h : k ∉ t.keys) :
    (t.insertAt i k v).get = Function.update t.get k (some v) := by
  have hmem : ∀ e, e ∈ (t.insertAt i k v).entries
      ↔ e = (k, v) ∨ e ∈ t.entries := by
    intro e
    have hsplit : e ∈ t.entries
        ↔ e ∈ t.entries.take i ∨ e ∈ t.entries.drop i := by
      rw [← List.mem_append, List.take_append_drop]
    unfold insertAt
    rw [dif_neg h, List.mem_append, List.mem_cons, hsplit]
    tauto
  funext a
  ext w
  rw [get_eq_some, hmem]
  by_cases ha : a = k
  · subst ha
    have hnone : (a, w) ∉ t.entries := fun he =>
      h (List.mem_map_of_mem (f := Prod.fst) he)
    simp [hnone, eq_comm]
  · rw [Function.update_of_ne ha, get_eq_some]
    simp [ha]

/-- A change of one entry. -/
theorem get_modify (f : α → α) (h : t.get k = some v) :
    (t.modify k f).get = Function.update t.get k (some (f v)) := by
  funext a
  ext w
  have hmem : (a, w) ∈ (t.modify k f).entries
      ↔ ∃ x, (a, x) ∈ t.entries ∧ (if a = k then f x else x) = w := by
    unfold modify
    rw [List.mem_map]
    constructor
    · rintro ⟨⟨a', x⟩, he, heq⟩
      by_cases ha : a' = k
      · simp only [ha, if_true, Prod.mk.injEq] at heq
        obtain ⟨rfl, rfl⟩ := heq
        exact ⟨x, ha ▸ he, if_pos rfl⟩
      · simp only [ha, if_false, Prod.mk.injEq] at heq
        obtain ⟨rfl, rfl⟩ := heq
        exact ⟨x, he, if_neg ha⟩
    · rintro ⟨x, he, rfl⟩
      refine ⟨(a, x), he, ?_⟩
      by_cases ha : a = k <;> simp [ha]
  rw [get_eq_some, hmem]
  by_cases ha : a = k
  · subst ha
    rw [Function.update_self]
    constructor
    · rintro ⟨x, he, rfl⟩
      rw [get_eq_some.mpr he] at h
      simp [Option.some.inj h]
    · intro hw
      exact ⟨v, get_eq_some.mp h, by simpa using hw⟩
  · rw [Function.update_of_ne ha, get_eq_some]
    simp [ha]

/-- A removal. -/
theorem get_erase : (t.erase k).get = Function.update t.get k none := by
  funext a
  ext w
  rw [get_eq_some]
  unfold erase
  rw [List.mem_filter]
  by_cases ha : a = k
  · simp [ha]
  · rw [Function.update_of_ne ha, get_eq_some]
    simp [ha]

-- ============================================================= order of keys

/-- An insertion keeps the other keys as they stand. -/
theorem keys_insertAt (i : Nat) : t.keys.Sublist (t.insertAt i k v).keys := by
  unfold insertAt
  split
  · exact List.Sublist.refl _
  · have hdrop : (t.entries.drop i).Sublist ((k, v) :: t.entries.drop i) :=
      List.sublist_cons_self ..
    have hsub := (List.Sublist.refl (t.entries.take i)).append hdrop
    rw [List.take_append_drop] at hsub
    exact hsub.map Prod.fst

theorem keys_modify (f : α → α) : (t.modify k f).keys = t.keys := by
  unfold keys modify
  rw [List.map_map]
  apply List.map_congr_left
  intro e _
  show (if e.1 = k then (e.1, f e.2) else e).1 = e.1
  split <;> rfl

theorem keys_erase : (t.erase k).keys = t.keys.filter fun a => a ≠ k := by
  unfold keys erase
  rw [List.filter_map]
  rfl

/-- Key `a` stands before key `b`. -/
def Before (t : Table κ α) (a b : κ) : Prop := [a, b].Sublist t.keys

omit [DecidableEq κ] in
theorem Before.left (h : t.Before a b) : a ∈ t.keys :=
  h.subset List.mem_cons_self

omit [DecidableEq κ] in
theorem Before.ne (h : t.Before a b) : a ≠ b := by
  rintro rfl
  have hnodup := t.nodup.sublist h
  simp at hnodup

theorem Before.insertAt (h : t.Before a b) (i : Nat) :
    (t.insertAt i k v).Before a b :=
  h.trans (keys_insertAt i)

theorem Before.modify (h : t.Before a b) (f : α → α) :
    (t.modify k f).Before a b := by
  unfold Before
  rw [keys_modify]
  exact h

/-- Removing a third key does not move the two. -/
theorem Before.erase (h : t.Before a b) (ha : a ≠ k) (hb : b ≠ k) :
    (t.erase k).Before a b := by
  have hsub := h.filter fun c => c ≠ k
  unfold Before
  rw [keys_erase]
  simpa [ha, hb] using hsub

-- ================================================================== the walk

/-- The key after the last one given; the first key, if there is no last
one or it is gone. -/
def nextKey (t : Table κ α) : Option κ → Option κ
  | none => t.keys.head?
  | some c =>
      if c ∈ t.keys then (t.keys.dropWhile fun k => k ≠ c)[1]?
      else t.keys.head?

/-- The walk starts over from a key that is gone. -/
theorem nextKey_gone (h : c ∉ t.keys) :
    t.nextKey (some c) = t.nextKey none := by
  simp [nextKey, h]

/-- The first key stays first when another one is removed. -/
theorem nextKey_erase (h : t.nextKey none = some a) (hne : a ≠ k) :
    (t.erase k).nextKey none = some a := by
  obtain ⟨r, hr⟩ := List.head?_eq_some_iff.mp h
  rw [nextKey, keys_erase, hr]
  simp [hne]

theorem nextKey_mem {last : Option κ} (h : t.nextKey last = some k) :
    k ∈ t.keys := by
  cases last with
  | none => exact List.mem_of_mem_head? h
  | some c =>
      rw [nextKey] at h
      split at h
      · exact (List.dropWhile_sublist _).subset (List.mem_of_getElem? h)
      · exact List.mem_of_mem_head? h

/-- A key that is present is followed by the next one, with nothing
between them. -/
theorem nextKey_split (hc : c ∈ t.keys) (h : t.nextKey (some c) = some k) :
    ∃ l r, t.keys = l ++ c :: k :: r := by
  rw [nextKey, if_pos hc] at h
  obtain ⟨l, r, hsplit⟩ := List.append_of_mem hc
  have hnotin : ∀ x ∈ l, x ≠ c := by
    have hnodup : t.keys.Nodup := t.nodup
    rw [hsplit] at hnodup
    rintro x hx rfl
    exact List.disjoint_of_nodup_append hnodup hx List.mem_cons_self
  have hdrop : t.keys.dropWhile (fun k => k ≠ c) = c :: r := by
    rw [hsplit, List.dropWhile_append_of_pos (by simpa using hnotin)]
    simp
  rw [hdrop] at h
  cases r with
  | nil => simp at h
  | cons k' r =>
      obtain rfl : k' = k := by simpa using h
      exact ⟨l, r, hsplit⟩

/-- The walk goes from a key to the one that stands behind it. -/
theorem nextKey_after {l r : List κ} (h : t.keys = l ++ c :: r) :
    t.nextKey (some c) = r.head? := by
  have hnotin : ∀ x ∈ l, x ≠ c := by
    have hnodup : t.keys.Nodup := t.nodup
    rw [h] at hnodup
    rintro x hx rfl
    exact List.disjoint_of_nodup_append hnodup hx List.mem_cons_self
  have hdrop : t.keys.dropWhile (fun k => k ≠ c) = c :: r := by
    rw [h, List.dropWhile_append_of_pos (by simpa using hnotin)]
    simp
  have hc : c ∈ t.keys := by simp [h]
  rw [nextKey, if_pos hc, hdrop, List.getElem?_cons_succ,
    List.head?_eq_getElem?]

/-- The next key stands behind the last one and behind every key before
it. -/
theorem nextKey_before (hc : c ∈ t.keys) (h : t.nextKey (some c) = some k)
    (ha : a = c ∨ t.Before a c) : t.Before a k := by
  obtain ⟨l, r, hsplit⟩ := nextKey_split hc h
  unfold Before
  rw [hsplit]
  rcases ha with rfl | hbefore
  · exact List.sublist_append_of_sublist_right (by simp)
  · have hmem : a ∈ l := by
      have hne := hbefore.ne
      have hnodup : t.keys.Nodup := t.nodup
      unfold Before at hbefore
      rw [hsplit] at hnodup hbefore
      obtain ⟨p, q, hpq, hp, hq⟩ := List.sublist_append_iff.mp hbefore
      cases p with
      | nil =>
          -- both from `c` on, so `c` again behind itself
          obtain rfl : q = [a, c] := by simpa using hpq.symm
          have htail := List.Sublist.of_cons_of_ne hne hq
          have hagain : c ∈ k :: r := htail.subset (by simp)
          have hcons := (List.nodup_append.mp hnodup).2.1
          exact absurd hagain (List.nodup_cons.mp hcons).1
      | cons x p =>
          obtain ⟨rfl, -⟩ := List.cons.inj hpq
          exact hp.subset List.mem_cons_self
    have hleft : [a].Sublist l := List.singleton_sublist.mpr hmem
    have hright : [k].Sublist (c :: k :: r) := by simp
    exact hleft.append hright

end Table

end XdpIds.Cursor
