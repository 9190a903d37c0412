import Mathlib

/-!
# Bounded tables with swap-with-last removal

A `BoundedTable α cap` is a fixed array of `cap` slots together with a counter:
the first `count` slots are live, the rest hold leftovers nobody reads. New
entries go to slot `count`; an entry is removed by copying the last live slot
over it and decrementing the counter, so removal does not keep the order. The
bound on the counter is a field, so an overfull table cannot be built.

What clients of the table see is `live`, the list of live entries. Each
operation is described by its effect on `live`:

* `live_push`: appending at a free slot appends to `live`;
* `live_removeAt_perm`: swap-with-last removal takes one entry out, up to
  permutation.

The keyed operations (`hasKey`, `removeKey`) are the ones the table is used
with; `mem_keys_removeKey`, `mem_live_removeKey` and `nodup_keys_removeKey`
describe removal on a table whose keys are distinct.
-/

/-- A fixed array of `cap` slots of which the first `count` are live. -/
structure BoundedTable (α : Type*) (cap : ℕ) where
  slots : Fin cap → α
  count : ℕ
  /-- The live prefix fits the array. -/
  count_le : count ≤ cap

namespace BoundedTable

variable {α κ : Type*} {cap : ℕ}

/-- The table with no live entry, every slot holding `a`. -/
def empty (a : α) : BoundedTable α cap := ⟨fun _ => a, 0, Nat.zero_le cap⟩

/-- The entry in live slot `i`. -/
def get (t : BoundedTable α cap) (i : Fin t.count) : α :=
  t.slots (i.castLE t.count_le)

/-- The live entries, in slot order. -/
def live (t : BoundedTable α cap) : List α := List.ofFn t.get

/-- Write `a` to the first free slot; a full table is left as it is. -/
def push (t : BoundedTable α cap) (a : α) : BoundedTable α cap :=
  if h : t.count < cap then
    ⟨Function.update t.slots ⟨t.count, h⟩ a, t.count + 1, h⟩
  else t

/-- Copy the last live slot over live slot `i` and shrink the live prefix. -/
def removeAt (t : BoundedTable α cap) (i : Fin t.count) : BoundedTable α cap where
  slots := Function.update t.slots (i.castLE t.count_le)
    (t.get ⟨t.count - 1, Nat.sub_one_lt_of_lt i.isLt⟩)
  count := t.count - 1
  count_le := (Nat.sub_le _ _).trans t.count_le

/-- Drop every entry, leaving the slots as they are. -/
def clear (t : BoundedTable α cap) : BoundedTable α cap := ⟨t.slots, 0, Nat.zero_le cap⟩

/-! ### The live entries under each operation -/

@[simp] theorem length_live (t : BoundedTable α cap) : t.live.length = t.count :=
  List.length_ofFn

theorem mem_live {t : BoundedTable α cap} {a : α} : a ∈ t.live ↔ ∃ i, t.get i = a := by
  rw [live, List.mem_ofFn']
  rfl

theorem get_mem_live (t : BoundedTable α cap) (i : Fin t.count) : t.get i ∈ t.live :=
  mem_live.mpr ⟨i, rfl⟩

theorem live_push {t : BoundedTable α cap} (h : t.count < cap) (a : α) :
    (t.push a).live = t.live ++ [a] := by
  unfold push
  rw [dif_pos h]
  change List.ofFn _ = List.ofFn _ ++ [a]
  rw [List.ofFn_succ_last]
  congr 1
  · -- the old entries are not touched, the new slot is behind them
    congr 1
    funext i
    change Function.update t.slots _ a _ = t.slots _
    refine Function.update_of_ne ?_ _ _
    exact Fin.ne_of_val_ne (Nat.ne_of_lt i.isLt)
  · -- the new slot holds the new entry
    change [Function.update t.slots _ a _] = [a]
    rw [show (Fin.last t.count).castLE h = ⟨t.count, h⟩ from rfl, Function.update_self]

/-- On lists, swap-with-last removal overwrites position `i` of the list without
its last entry by that last entry (and does nothing more when `i` was the last
position). It takes out exactly the entry at `i`. -/
theorem perm_getElem_cons_set_dropLast {l : List α} {i : ℕ} (hi : i < l.length)
    (hne : l ≠ []) : l.Perm (l[i] :: l.dropLast.set i (l.getLast hne)) := by
  have hl : l = l.dropLast ++ [l.getLast hne] := (List.dropLast_append_getLast hne).symm
  generalize l.dropLast = init, l.getLast hne = b at hl
  subst hl
  -- `b` is the last entry; removing it is the case in which nothing is overwritten
  by_cases hin : i < init.length
  · have hsplit : init = init.take i ++ init[i] :: init.drop (i + 1) := by
      rw [List.getElem_cons_drop, List.take_append_drop]
    rw [List.getElem_append_left hin, List.set_eq_take_append_cons_drop, if_pos hin]
    conv_lhs => rw [hsplit]
    rw [List.append_assoc, List.cons_append]
    refine List.perm_middle.trans (List.Perm.cons _ ?_)
    exact List.Perm.append_left _ (List.perm_append_singleton _ _)
  · have hset : init.set i b = init := List.set_eq_of_length_le (not_lt.mp hin)
    have hlast : (init ++ [b])[i] = b := by
      rw [List.getElem_append_right (not_lt.mp hin), List.getElem_singleton]
    rw [hset, hlast]
    exact List.perm_append_singleton _ _

theorem live_ne_nil {t : BoundedTable α cap} (i : Fin t.count) : t.live ≠ [] :=
  List.ne_nil_of_mem (t.get_mem_live i)

theorem live_removeAt (t : BoundedTable α cap) (i : Fin t.count) :
    (t.removeAt i).live = t.live.dropLast.set i (t.live.getLast (live_ne_nil i)) := by
  apply List.ext_getElem
  · simp [removeAt]
  · intro k hk _
    -- the slot that is copied is the last live one
    have hlast : t.live.getLast (live_ne_nil i)
        = t.get ⟨t.count - 1, Nat.sub_one_lt_of_lt i.isLt⟩ := by
      rw [List.getLast_eq_getElem]
      simp [live]
    simp only [List.getElem_set, List.getElem_dropLast, hlast]
    simp only [live, List.getElem_ofFn]
    change Function.update t.slots _ _ _ = _
    by_cases hik : i.val = k
    · subst hik
      rw [if_pos rfl]
      exact Function.update_self _ _ _
    · rw [if_neg hik]
      exact Function.update_of_ne (Fin.ne_of_val_ne (Ne.symm hik)) _ _

/-- **Swap-with-last removal takes out exactly one entry.** -/
theorem live_removeAt_perm (t : BoundedTable α cap) (i : Fin t.count) :
    t.live.Perm (t.get i :: (t.removeAt i).live) := by
  have hi : i.val < t.live.length := by rw [length_live]; exact i.isLt
  have hget : t.get i = t.live[i.val] := by simp [live]
  rw [live_removeAt, hget]
  exact perm_getElem_cons_set_dropLast hi (live_ne_nil i)

/-! ### Keyed tables -/

section Keys

variable {key : α → κ} {t : BoundedTable α cap} {k : κ}

/-- The keys of the live entries. -/
def keys (key : α → κ) (t : BoundedTable α cap) : List κ := t.live.map key

@[simp] theorem length_keys : (t.keys key).length = t.count := by
  rw [keys, List.length_map, length_live]

theorem keys_push (h : t.count < cap) (a : α) :
    (t.push a).keys key = t.keys key ++ [key a] := by
  rw [keys, live_push h, List.map_append, List.map_singleton, keys]

theorem mem_keys : k ∈ t.keys key ↔ ∃ i, key (t.get i) = k := by
  simp only [keys, List.mem_map, mem_live]
  exact ⟨fun ⟨_, ⟨i, hi⟩, hk⟩ => ⟨i, hi ▸ hk⟩, fun ⟨i, hi⟩ => ⟨_, ⟨i, rfl⟩, hi⟩⟩

end Keys

section Lookup

variable [DecidableEq κ] (key : α → κ)

/-- The first live slot whose entry has key `k`. -/
def findKey? (t : BoundedTable α cap) (k : κ) : Option (Fin t.count) :=
  Fin.find? fun i => key (t.get i) = k

/-- Some live entry has key `k`. -/
def hasKey (t : BoundedTable α cap) (k : κ) : Bool := (t.findKey? key k).isSome

/-- Remove the first live entry with key `k`, if there is one. -/
def removeKey (t : BoundedTable α cap) (k : κ) : BoundedTable α cap :=
  match t.findKey? key k with
  | some i => t.removeAt i
  | none => t

variable {key} {t : BoundedTable α cap} {k k' : κ}

@[simp] theorem hasKey_iff : t.hasKey key k = true ↔ k ∈ t.keys key := by
  rw [hasKey, findKey?, Fin.isSome_find?_iff, mem_keys]
  simp only [decide_eq_true_eq]

theorem removeKey_of_notMem (h : k ∉ t.keys key) : t.removeKey key k = t := by
  have hnone : t.findKey? key k = none := by
    rw [← hasKey_iff, hasKey, Bool.not_eq_true, Option.isSome_eq_false_iff,
      Option.isNone_iff_eq_none] at h
    exact h
  rw [removeKey, hnone]

/-- Removing a key that is present takes one entry with that key out. -/
theorem live_removeKey_perm (h : k ∈ t.keys key) :
    ∃ a, key a = k ∧ t.live.Perm (a :: (t.removeKey key k).live) := by
  obtain ⟨i, hi⟩ := Option.isSome_iff_exists.mp (hasKey_iff.mpr h)
  have hk : key (t.get i) = k := by
    simpa only [decide_eq_true_eq] using Fin.eq_true_of_find?_eq_some hi
  have hrem : t.removeKey key k = t.removeAt i := by rw [removeKey, hi]
  rw [hrem]
  exact ⟨t.get i, hk, t.live_removeAt_perm i⟩

/-- Removing a key that is present takes one occurrence of it out. -/
theorem keys_removeKey_perm (h : k ∈ t.keys key) :
    (t.keys key).Perm (k :: (t.removeKey key k).keys key) := by
  obtain ⟨a, rfl, hperm⟩ := live_removeKey_perm h
  exact hperm.map key

theorem count_removeKey (h : k ∈ t.keys key) :
    t.count = (t.removeKey key k).count + 1 := by
  have hlen := (keys_removeKey_perm h).length_eq
  rwa [length_keys, List.length_cons, length_keys] at hlen

theorem nodup_keys_removeKey (hnd : (t.keys key).Nodup) :
    ((t.removeKey key k).keys key).Nodup := by
  by_cases h : k ∈ t.keys key
  · exact (List.nodup_cons.mp ((keys_removeKey_perm h).nodup_iff.mp hnd)).2
  · rwa [removeKey_of_notMem h]

/-- On a table with distinct keys, `removeKey` removes exactly the key it is
given. -/
theorem mem_keys_removeKey (hnd : (t.keys key).Nodup) :
    k' ∈ (t.removeKey key k).keys key ↔ k' ∈ t.keys key ∧ k' ≠ k := by
  by_cases h : k ∈ t.keys key
  · have hperm := keys_removeKey_perm h
    -- the keys are distinct, so the occurrence taken out was the only one
    have hk : k ∉ (t.removeKey key k).keys key :=
      (List.nodup_cons.mp (hperm.nodup_iff.mp hnd)).1
    rw [hperm.mem_iff, List.mem_cons]
    refine ⟨?_, ?_⟩
    · intro hmem
      exact ⟨Or.inr hmem, fun heq => hk (heq ▸ hmem)⟩
    · rintro ⟨heq | hmem, hne⟩
      · exact absurd heq hne
      · exact hmem
  · rw [removeKey_of_notMem h]
    exact ⟨fun hmem => ⟨hmem, fun heq => h (heq ▸ hmem)⟩, And.left⟩

/-- The same for the entries: all that is left out is the entry with that key. -/
theorem mem_live_removeKey (hnd : (t.keys key).Nodup) {a : α} :
    a ∈ (t.removeKey key k).live ↔ a ∈ t.live ∧ key a ≠ k := by
  by_cases h : k ∈ t.keys key
  · have hk : k ∉ (t.removeKey key k).keys key := fun hmem =>
      ((mem_keys_removeKey hnd).mp hmem).2 rfl
    obtain ⟨b, hb, hperm⟩ := live_removeKey_perm h
    rw [hperm.mem_iff, List.mem_cons]
    refine ⟨?_, ?_⟩
    · intro hmem
      refine ⟨Or.inr hmem, ?_⟩
      rintro rfl
      exact hk (List.mem_map_of_mem hmem)
    · rintro ⟨rfl | hmem, hne⟩
      · exact absurd hb hne
      · exact hmem
  · rw [removeKey_of_notMem h]
    exact ⟨fun hmem => ⟨hmem, fun heq => h (heq ▸ List.mem_map_of_mem hmem)⟩, And.left⟩

end Lookup

end BoundedTable
