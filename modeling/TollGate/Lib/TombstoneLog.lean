import Mathlib

/-!
# Logs with tombstones

A log is an array of numbered entries to which new ones are appended with the next
number. An entry is removed by a mark, and marked entries are squeezed out later by a
loop that copies the others to the front of the same array.

* `Sound` is what holds of such a log: the numbers rise and are all used up, and no two
  live entries have the same key;
* `Sound.append`, `Sound.killed` and `Sound.filter` say that the operations keep it;
* `compactLoop_eq` says that the loop, which overwrites the array it reads, leaves the
  live entries in their order.
-/

namespace TombstoneLog

variable {α κ : Type*} {key : α → κ} {seq : α → ℕ} {dead : α → Bool}

/-- The live entries. -/
def live (dead : α → Bool) (log : List α) : List α := log.filter fun a => !dead a

/-- The numbers rise, all of them are below the next one, and no two live entries have
the same key. -/
structure Sound (key : α → κ) (seq : α → ℕ) (dead : α → Bool) (next : ℕ) (log : List α) :
    Prop where
  rising : (log.map seq).Pairwise (· < ·)
  below : ∀ a ∈ log, seq a < next
  distinct : ((live dead log).map key).Nodup

/-- The entry is as it was, or is dead and keeps its number. -/
def Kept (seq : α → ℕ) (dead : α → Bool) (a' a : α) : Prop :=
  a' = a ∨ (dead a' = true ∧ seq a' = seq a)

/-! ### The operations -/

theorem Sound.nil (next : ℕ) : Sound key seq dead next [] :=
  ⟨List.Pairwise.nil, by simp, List.nodup_nil⟩

theorem live_append (log log' : List α) :
    live dead (log ++ log') = live dead log ++ live dead log' :=
  List.filter_append _ _

theorem mem_live {log : List α} {a : α} : a ∈ live dead log ↔ a ∈ log ∧ dead a = false := by
  simp [live]

variable {next : ℕ} {log log' : List α}

/-- A new entry with the next number and a key that no live entry has. -/
theorem Sound.append (h : Sound key seq dead next log) {a : α} (hseq : seq a = next)
    (hkey : ∀ b ∈ log, dead b = false → key b ≠ key a) :
    Sound key seq dead (next + 1) (log ++ [a]) := by
  refine ⟨?_, ?_, ?_⟩
  · rw [List.map_append, List.pairwise_append]
    refine ⟨h.rising, List.pairwise_singleton _ _, ?_⟩
    intro n hn m hm
    obtain ⟨b, hb, rfl⟩ := List.mem_map.mp hn
    rw [List.map_singleton, List.mem_singleton] at hm
    rw [hm, hseq]
    exact h.below b hb
  · intro b hb
    rcases List.mem_append.mp hb with hb | hb
    · exact (h.below b hb).trans (Nat.lt_succ_self next)
    · rw [List.mem_singleton.mp hb, hseq]
      exact Nat.lt_succ_self next
  · -- the new key is none of the live ones
    rw [live_append, List.map_append, List.nodup_append']
    refine ⟨h.distinct, ?_, ?_⟩
    · cases hdead : dead a <;> simp [live, hdead]
    · intro k hk hk'
      obtain ⟨b, hb, rfl⟩ := List.mem_map.mp hk
      obtain ⟨c, hc, hck⟩ := List.mem_map.mp hk'
      obtain ⟨hb, hlive⟩ := mem_live.mp hb
      have hca : c = a := List.mem_singleton.mp (mem_live.mp hc).1
      exact hkey b hb hlive (hck.symm.trans (congrArg key hca))

/-- The live entries of a log in which entries were killed were live before. -/
theorem live_sublist_of_killed (h : List.Forall₂ (Kept seq dead) log' log) :
    (live dead log').Sublist (live dead log) := by
  induction h with
  | nil => exact List.Sublist.refl _
  | @cons a' a log' log hkept _ ih =>
    unfold live at ih ⊢
    -- the entry stays on both sides, or it is gone on the left
    rcases hkept with rfl | ⟨hdead, -⟩
    · rw [List.filter_cons, List.filter_cons]
      split
      · exact ih.cons_cons a'
      · exact ih
    · rw [List.filter_cons_of_neg (by simp [hdead]), List.filter_cons]
      split
      · exact ih.cons a
      · exact ih

theorem map_seq_of_killed (h : List.Forall₂ (Kept seq dead) log' log) :
    log'.map seq = log.map seq := by
  induction h with
  | nil => rfl
  | cons hkept _ ih =>
    rw [List.map_cons, List.map_cons, ih]
    rcases hkept with rfl | ⟨-, hseq⟩
    · rfl
    · rw [hseq]

/-- Killing entries. -/
theorem Sound.killed (h : Sound key seq dead next log)
    (hkilled : List.Forall₂ (Kept seq dead) log' log) : Sound key seq dead next log' := by
  have hmap := map_seq_of_killed hkilled
  refine ⟨hmap ▸ h.rising, ?_, ?_⟩
  · intro a ha
    have hseq : seq a ∈ log.map seq := hmap ▸ List.mem_map_of_mem ha
    obtain ⟨b, hb, hba⟩ := List.mem_map.mp hseq
    exact hba ▸ h.below b hb
  · exact h.distinct.sublist ((live_sublist_of_killed hkilled).map key)

/-- Dropping entries. -/
theorem Sound.sublist (h : Sound key seq dead next log) (hsub : log'.Sublist log) :
    Sound key seq dead next log' := by
  refine ⟨h.rising.sublist (hsub.map seq), ?_, ?_⟩
  · intro a ha
    exact h.below a (hsub.subset ha)
  · exact h.distinct.sublist ((hsub.filter _).map key)

theorem Sound.filter (h : Sound key seq dead next log) (p : α → Bool) :
    Sound key seq dead next (log.filter p) :=
  h.sublist List.filter_sublist

/-- An entry is known by its number. -/
theorem Sound.eq_of_seq_eq (h : Sound key seq dead next log) {a b : α} (ha : a ∈ log) (hb : b ∈ log)
    (hseq : seq a = seq b) : a = b := by
  have hnodup : (log.map seq).Nodup := h.rising.imp ne_of_lt
  exact List.inj_on_of_nodup_map hnodup ha hb hseq

theorem killed_refl (log : List α) : List.Forall₂ (Kept seq dead) log log :=
  List.forall₂_same.mpr fun _ _ => .inl rfl

/-- Killing the entry at one place. -/
theorem killed_modify {kill : α → α} (hkill : ∀ a, Kept seq dead (kill a) a) (log : List α)
    (i : ℕ) : List.Forall₂ (Kept seq dead) (log.modify i kill) log := by
  induction log generalizing i with
  | nil => simp
  | cons a log ih =>
    cases i with
    | zero =>
      rw [List.modify_zero_cons]
      exact .cons (hkill a) (killed_refl log)
    | succ i =>
      rw [List.modify_succ_cons]
      exact .cons (.inl rfl) (ih i)

theorem live_cons (a : α) (log : List α) :
    live dead (a :: log) = if dead a then live dead log else a :: live dead log := by
  cases h : dead a <;> simp [live, h]

/-- Killing the live entry with a key, which is found by a search from the front. -/
theorem live_kill_key [DecidableEq κ] {kill : α → α} (hkill : ∀ a, dead (kill a) = true) (k : κ)
    {log : List α} (h : ((live dead log).map key).Nodup) :
    live dead ((log.findIdx? fun a => key a = k && !dead a).elim log fun i => log.modify i kill) =
      (live dead log).filter fun a => key a ≠ k := by
  induction log with
  | nil => rfl
  | cons a log ih =>
    rw [List.findIdx?_cons]
    cases htest : (decide (key a = k) && !dead a) with
    | true =>
      -- the entry is the first one; no other live entry has its key
      simp only [Bool.and_eq_true, decide_eq_true_eq, Bool.not_eq_true'] at htest
      obtain ⟨hkey, hlive⟩ := htest
      rw [live_cons, if_neg (by simp [hlive]), List.map_cons, List.nodup_cons] at h
      rw [if_pos rfl, Option.elim_some, List.modify_zero_cons, live_cons, if_pos (hkill a),
        live_cons, if_neg (by simp [hlive]), List.filter_cons_of_neg (by simp [hkey])]
      refine (List.filter_eq_self.mpr fun b hb => decide_eq_true ?_).symm
      intro hb'
      exact h.1 (List.mem_map.mpr ⟨b, hb, hb'.trans hkey.symm⟩)
    | false =>
      -- the search goes on, one place further
      have hmap : ((log.findIdx? fun a => key a = k && !dead a).map (· + 1)).elim (a :: log)
          (fun i => (a :: log).modify i kill) =
          a :: (log.findIdx? fun a => key a = k && !dead a).elim log
            fun i => log.modify i kill := by
        cases log.findIdx? fun a => key a = k && !dead a with
        | none => rfl
        | some i => exact List.modify_succ_cons _ _ _ _
      rw [if_neg Bool.false_ne_true, hmap, live_cons, live_cons]
      cases hdead : dead a with
      | true =>
        rw [live_cons, if_pos hdead] at h
        exact ih h
      | false =>
        have hkey : key a ≠ k := by simpa [hdead] using htest
        rw [live_cons, if_neg (by simp [hdead]), List.map_cons, List.nodup_cons] at h
        rw [if_neg Bool.false_ne_true, if_neg Bool.false_ne_true,
          List.filter_cons_of_pos (by simp [hkey]), ih h.2]

/-- Killing the entries that pass a test leaves the other ones. -/
theorem live_map_kill {kill : α → α} (hkill : ∀ a, dead (kill a) = true) (p : α → Bool)
    (log : List α) :
    live dead (log.map fun a => if p a then kill a else a) =
      (live dead log).filter fun a => !p a := by
  induction log with
  | nil => rfl
  | cons a log ih =>
    rw [List.map_cons, live_cons, live_cons, ih]
    cases hp : p a with
    | true =>
      rw [if_pos rfl, if_pos (hkill a)]
      cases dead a <;> simp [hp]
    | false =>
      rw [if_neg Bool.false_ne_true]
      cases dead a <;> simp [hp]

variable (seq dead) in
/-- Killing the entries that pass a test. -/
theorem killed_map (kill : α → α) (hkill : ∀ a, Kept seq dead (kill a) a) (log : List α) :
    List.Forall₂ (Kept seq dead) (log.map kill) log := by
  rw [List.forall₂_map_left_iff]
  exact List.forall₂_same.mpr fun a _ => hkill a

/-! ### Compaction in place -/

/-- One turn of the loop: the entry at the read position is copied to the write position
unless it is dead. -/
def compactStep (dead : α → Bool) (s : List α × ℕ) (read : ℕ) : List α × ℕ :=
  match s.1[read]? with
  | none => s
  | some a => if dead a then s else (s.1.set s.2 a, s.2 + 1)

/-- The loop over the array: the array afterwards and the number of entries kept. -/
def compactLoop (dead : α → Bool) (log : List α) : List α × ℕ :=
  (List.range log.length).foldl (compactStep dead) (log, 0)

variable (dead) in
/-- Once `k` entries were read, the array begins with the live ones among them, and the
entries that are still to be read are where they were. -/
theorem compactLoop_invariant (log : List α) {k : ℕ} (hk : k ≤ log.length) :
    let s := (List.range k).foldl (compactStep dead) (log, 0)
    s.1.length = log.length ∧ s.2 ≤ k ∧ s.1.take s.2 = live dead (log.take k) ∧
      s.1.drop k = log.drop k := by
  induction k with
  | zero => simp [live]
  | succ k ih =>
    obtain ⟨hlen, hle, htake, hdrop⟩ := ih (by omega)
    rw [List.range_succ, List.foldl_append, List.foldl_cons, List.foldl_nil]
    generalize (List.range k).foldl (compactStep dead) (log, 0) = s at hlen hle htake hdrop
    have hlt : k < log.length := hk
    -- the write position is not past the read position, so what is read is unchanged
    have hread : s.1[k]? = some log[k] := by
      have h := congrArg List.head? hdrop
      rwa [List.head?_drop, List.head?_drop, List.getElem?_eq_getElem hlt] at h
    have htail : s.1.drop (k + 1) = log.drop (k + 1) := by
      rw [← List.drop_drop, hdrop, List.drop_drop]
    have hlast : live dead (log.take (k + 1)) = live dead (log.take k) ++ live dead [log[k]] := by
      rw [← live_append, List.take_concat_get']
    have hstep : compactStep dead s k =
        if dead log[k] then s else (s.1.set s.2 log[k], s.2 + 1) := by
      rw [compactStep, hread]
    rw [hstep, hlast]
    cases hdead : dead log[k] with
    | true =>
      -- a dead entry is not copied
      rw [if_pos rfl]
      refine ⟨hlen, hle.trans (Nat.le_succ k), ?_, htail⟩
      simpa [live, hdead] using htake
    | false =>
      have hset : (s.1.set s.2 log[k]).take (s.2 + 1) = s.1.take s.2 ++ [log[k]] := by
        rw [List.take_succ_eq_append_getElem (by rw [List.length_set]; omega),
          List.getElem_set_self, List.take_set_of_le le_rfl]
      rw [if_neg Bool.false_ne_true]
      refine ⟨?_, Nat.succ_le_succ hle, ?_, ?_⟩
      · rw [List.length_set, hlen]
      · rw [hset, htake]
        simp [live, hdead]
      · rw [List.drop_set_of_lt (by omega), htail]

variable (dead) in
/-- **Compaction.** The array begins with the live entries in their order. -/
theorem compactLoop_eq (log : List α) :
    (compactLoop dead log).1.take (compactLoop dead log).2 = live dead log ∧
      (compactLoop dead log).2 = (live dead log).length := by
  obtain ⟨hlen, hle, htake, -⟩ := compactLoop_invariant dead log le_rfl
  rw [List.take_length] at htake
  refine ⟨htake, ?_⟩
  have hlength := congrArg List.length htake
  rw [List.length_take, hlen, Nat.min_eq_left hle] at hlength
  exact hlength

variable (dead) in
theorem length_compactLoop (log : List α) : (compactLoop dead log).1.length = log.length :=
  (compactLoop_invariant dead log le_rfl).1

end TombstoneLog
