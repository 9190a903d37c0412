import Mathlib

/-!
# Logs with checkpoints

A log is kept in memory and copied to disk from time to time. An append writes the copy
only when the length of the log comes to a multiple of `k`; a rewriting of the log writes
it always. A crash loads the copy, as far as the memory has room.

What a crash loses are the entries behind the copy, and these are the last ones that were
appended, fewer than `k` of them (`mem_of_crash`).
-/

namespace Checkpoint

variable {α : Type*}

/-- The log in memory, its copy on disk, and all entries that were ever appended. -/
structure State (α : Type*) where
  memory : List α
  disk : List α
  appended : List α

/-- What happens to the log. -/
inductive Op (α : Type*) where
  | skip
  | append (a : α)
  | rewrite (log : List α)
  | crash (room : ℕ)

/-- One operation, with a checkpoint at every `k`th length. -/
def step (k : ℕ) (s : State α) : Op α → State α
  | .skip => s
  | .append a =>
    { memory := s.memory ++ [a]
      disk := if (s.memory.length + 1) % k = 0 then s.memory ++ [a] else s.disk
      appended := s.appended ++ [a] }
  | .rewrite log => { s with memory := log, disk := log }
  | .crash room => { s with memory := s.disk.take room }

/-- The memory is a part of the copy and the entries behind it. These were appended last,
and no checkpoint fell due since. -/
def Recent (k : ℕ) (s : State α) : Prop :=
  ∃ room recent, s.memory = s.disk.take room ++ recent ∧ recent <:+ s.appended ∧
    s.memory.length / k = (s.disk.take room).length / k

theorem recent_start (k : ℕ) : Recent k (⟨[], [], []⟩ : State α) :=
  ⟨0, [], rfl, List.suffix_rfl, rfl⟩

/-- The copy is the memory. -/
theorem recent_of_eq {k : ℕ} {s : State α} (h : s.disk = s.memory) : Recent k s := by
  refine ⟨s.disk.length, [], ?_, List.nil_suffix, ?_⟩
  · rw [List.take_length, List.append_nil, h]
  · rw [List.take_length, h]

theorem Recent.step {k : ℕ} {s : State α} (h : Recent k s) (op : Op α) :
    Recent k (step k s op) := by
  cases op with
  | skip => exact h
  | rewrite log => exact recent_of_eq rfl
  | crash room =>
    refine ⟨room, [], ?_, List.nil_suffix, rfl⟩
    exact (List.append_nil _).symm
  | append a =>
    unfold Checkpoint.step
    dsimp only
    split
    next => exact recent_of_eq rfl
    next hdue =>
      -- one more entry behind the copy, and the quotient stays
      obtain ⟨room, recent, hmemory, hsuffix, hquot⟩ := h
      refine ⟨room, recent ++ [a], ?_, ?_, ?_⟩
      · rw [← List.append_assoc, ← hmemory]
      · exact (List.suffix_append_inj_of_length_eq rfl).mpr ⟨hsuffix, rfl⟩
      · rw [List.length_append, List.length_singleton, ← hquot]
        exact Nat.succ_div_of_not_dvd fun hdvd => hdue (Nat.mod_eq_zero_of_dvd hdvd)

/-- **What a crash loses.** An entry of the memory is still there after the crash, or it is
one of the last `k - 1` that were appended, or the memory has no room for it. -/
theorem Recent.mem_of_crash {k : ℕ} (hk : 0 < k) {s : State α} (h : Recent k s) (room : ℕ) {a : α}
    (ha : a ∈ s.memory) :
    a ∈ (Checkpoint.step k s (.crash room)).memory ∨
      a ∈ s.appended.drop (s.appended.length - (k - 1)) ∨ a ∈ s.disk.drop room := by
  obtain ⟨kept, recent, hmemory, hsuffix, hquot⟩ := h
  rw [hmemory] at ha
  rcases List.mem_append.mp ha with hdisk | hrecent
  · have hmem : a ∈ s.disk := List.mem_of_mem_take hdisk
    rw [← List.take_append_drop room s.disk] at hmem
    rcases List.mem_append.mp hmem with hin | hout
    · exact .inl hin
    · exact .inr (.inr hout)
  · refine .inr (.inl ?_)
    -- fewer than `k` entries stand behind the copy
    have hlt : recent.length < k := by
      have hlength := congrArg List.length hmemory
      rw [List.length_append] at hlength
      rw [hlength] at hquot
      have hfirst := Nat.div_add_mod ((s.disk.take kept).length) k
      have hboth := Nat.div_add_mod ((s.disk.take kept).length + recent.length) k
      have hrest := Nat.mod_lt ((s.disk.take kept).length + recent.length) hk
      rw [hquot] at hboth
      omega
    obtain ⟨front, hfront⟩ := hsuffix
    rw [← hfront, List.length_append, List.drop_append_of_le_length (by omega)]
    exact List.mem_append_right _ hrecent

end Checkpoint
