import Mathlib

/-!
# Fixed windows

A limiter with a fixed window counts what it allows, of each kind on its own, and forgets its
counts with the first request that comes a period or more after the window began. The next window
begins with that request, so the windows of a run need not follow one another at once.

In any interval as long as a period there are requests of two windows at most: a third one would
begin two periods after the first (`allowedIn_le`).
-/

namespace FixedWindow

/-- The length of a window, and how much of each kind it allows. -/
structure Config (κ : Type*) where
  period : ℕ
  limit : κ → ℕ

/-- A window: when it began, and what it has allowed. -/
@[ext]
structure Window (κ : Type*) where
  start : ℕ
  count : κ → ℕ

variable {κ : Type*}

/-- A window in which nothing was allowed so far. -/
def Window.fresh (now : ℕ) : Window κ := ⟨now, fun _ => 0⟩

/-- The window at a time: the same, or a new one. -/
def Window.at (c : Config κ) (w : Window κ) (now : ℕ) : Window κ :=
  if c.period ≤ now - w.start then .fresh now else w

/-- The requests come after the window began, in the order of time. -/
def Ordered (w : Window κ) (rs : List (ℕ × κ)) : Prop :=
  (w.start :: rs.map Prod.fst).Pairwise (· ≤ ·)

section Order

variable {c : Config κ} {k' : κ} {now : ℕ} {w : Window κ} {rs : List (ℕ × κ)}

theorem Ordered.head (h : Ordered w ((now, k') :: rs)) : w.start ≤ now :=
  (List.pairwise_cons.mp h).1 now List.mem_cons_self

/-- The requests that are left come after the window that the first one leaves. -/
theorem Ordered.tail (h : Ordered w ((now, k') :: rs)) {w' : Window κ} (hw' : w'.start ≤ now) :
    Ordered w' rs := by
  obtain ⟨-, h⟩ := List.pairwise_cons.mp h
  obtain ⟨hnow, hrs⟩ := List.pairwise_cons.mp h
  exact List.pairwise_cons.mpr ⟨fun t ht => hw'.trans (hnow t ht), hrs⟩

theorem start_at_le (h : w.start ≤ now) : (w.at c now).start ≤ now := by
  unfold Window.at
  split
  · exact le_rfl
  · exact h

end Order

variable [DecidableEq κ]

/-- One more of a kind. -/
def Window.add (w : Window κ) (k : κ) : Window κ :=
  { w with count := Function.update w.count k (w.count k + 1) }

/-- One request: the window afterwards, and whether it is allowed. -/
def check (c : Config κ) (w : Window κ) (now : ℕ) (k : κ) : Window κ × Bool :=
  let w := w.at c now
  if c.limit k ≤ w.count k then (w, false) else (w.add k, true)

/-- The answers to requests, each with its time and kind. -/
def answers (c : Config κ) : Window κ → List (ℕ × κ) → List ((ℕ × κ) × Bool)
  | _, [] => []
  | w, r :: rs => (r, (check c w r.1 r.2).2) :: answers c (check c w r.1 r.2).1 rs

/-- The answer allows a request of the kind, in the period from `t` on. -/
def Counts (c : Config κ) (k : κ) (t : ℕ) (a : (ℕ × κ) × Bool) : Prop :=
  a.2 = true ∧ a.1.2 = k ∧ t ≤ a.1.1 ∧ a.1.1 < t + c.period

instance (c : Config κ) (k : κ) (t : ℕ) (a : (ℕ × κ) × Bool) : Decidable (Counts c k t a) :=
  inferInstanceAs (Decidable (_ ∧ _ ∧ _ ∧ _))

/-- How many requests of the kind are allowed in the period from `t` on. -/
def allowedIn (c : Config κ) (k : κ) (t : ℕ) (w : Window κ) (rs : List (ℕ × κ)) : ℕ :=
  (answers c w rs).countP fun a => Counts c k t a

section Bounds

variable {c : Config κ} {k k' : κ} {t now : ℕ} {w : Window κ} {rs : List (ℕ × κ)}

theorem start_check (c : Config κ) (w : Window κ) (now : ℕ) (k : κ) :
    (check c w now k).1.start = (w.at c now).start := by
  unfold check
  dsimp only
  split
  · rfl
  · rfl

/-- A request counts once, and not at all if it comes too early or too late. -/
theorem allowedIn_cons : allowedIn c k t w ((now, k') :: rs) =
    allowedIn c k t (check c w now k').1 rs +
      if Counts c k t ((now, k'), (check c w now k').2) then 1 else 0 := by
  unfold allowedIn
  rw [answers, List.countP_cons]
  simp only [decide_eq_true_eq]

/-- From the end of the period on nothing counts. -/
theorem allowedIn_eq_zero (h : ∀ r ∈ rs, t + c.period ≤ r.1) : allowedIn c k t w rs = 0 := by
  induction rs generalizing w with
  | nil => rfl
  | cons r rs ih =>
    obtain ⟨hr, hrs⟩ := List.forall_mem_cons.mp h
    rw [allowedIn_cons, ih hrs, if_neg fun hcounts => absurd hcounts.2.2.2 (not_lt.mpr hr)]

/-- What a request takes from the room that the window has left. -/
theorem room_check (c : Config κ) (k k' : κ) (t now : ℕ) (w : Window κ) :
    c.limit k - (check c w now k').1.count k +
    (if Counts c k t ((now, k'), (check c w now k').2) then 1 else 0) ≤
      c.limit k - (w.at c now).count k := by
  unfold check
  dsimp only
  by_cases hfull : c.limit k' ≤ (w.at c now).count k'
  · rw [if_pos hfull, if_neg fun hcounts => absurd hcounts.1 Bool.false_ne_true]
    exact le_rfl
  · rw [if_neg hfull]
    by_cases hk : k' = k
    · -- the room shrinks by one, whether the request lies in the period or not
      subst hk
      have hcount : ((w.at c now).add k').count k' = (w.at c now).count k' + 1 :=
        Function.update_self ..
      rw [hcount]
      split
      · omega
      · omega
    · -- another kind has its own count
      have hcount : ((w.at c now).add k').count k = (w.at c now).count k :=
        Function.update_of_ne (Ne.symm hk) ..
      rw [hcount, if_neg fun hcounts => hk hcounts.2.1]
      exact le_rfl

/-- A period that begins before the window holds requests of this window only. -/
theorem allowedIn_le_of_le_start (hrs : Ordered w rs) (ht : t ≤ w.start) :
    allowedIn c k t w rs ≤ c.limit k - w.count k := by
  -- each request hands the window on, with less room
  induction rs generalizing w with
  | nil => exact Nat.zero_le _
  | cons r rs ih =>
    obtain ⟨now, k'⟩ := r
    have hnow := hrs.head
    by_cases hover : c.period ≤ now - w.start
    · -- the period is over when the next window begins
      refine (allowedIn_eq_zero fun r hr => ?_).le.trans (Nat.zero_le _)
      have hle : now ≤ r.1 := by
        obtain rfl | hr := List.mem_cons.mp hr
        · exact le_rfl
        · exact (List.pairwise_cons.mp (List.pairwise_cons.mp hrs).2).1 _ (List.mem_map_of_mem hr)
      omega
    · have hsame : w.at c now = w := if_neg hover
      have hstart : (check c w now k').1.start = w.start := by rw [start_check, hsame]
      have hroom := room_check c k k' t now w
      have hrest := ih (hrs.tail (hstart.trans_le hnow)) (ht.trans_eq hstart.symm)
      rw [hsame] at hroom
      rw [allowedIn_cons]
      omega

/-- A period that begins while the window lasts holds requests of this window and of the next. -/
theorem allowedIn_le_of_le_end (hrs : Ordered w rs) (ht : t ≤ w.start + c.period) :
    allowedIn c k t w rs ≤ (c.limit k - w.count k) + c.limit k := by
  induction rs generalizing w with
  | nil => exact Nat.zero_le _
  | cons r rs ih =>
    obtain ⟨now, k'⟩ := r
    have hnow := hrs.head
    have hroom := room_check c k k' t now w
    rw [allowedIn_cons]
    by_cases hover : c.period ≤ now - w.start
    · -- the next window begins inside of the period, and is the last one in it
      have hfresh : w.at c now = .fresh now := if_pos hover
      have hstart : (check c w now k').1.start = now := by
        rw [start_check, hfresh]
        rfl
      have hrest := allowedIn_le_of_le_start (k := k) (c := c) (hrs.tail hstart.le)
        (by omega : t ≤ (check c w now k').1.start)
      have hzero : (Window.fresh now : Window κ).count k = 0 := rfl
      rw [hfresh, hzero] at hroom
      omega
    · have hsame : w.at c now = w := if_neg hover
      have hstart : (check c w now k').1.start = w.start := by rw [start_check, hsame]
      have hrest := ih (hrs.tail (hstart.trans_le hnow)) (by omega)
      rw [hsame] at hroom
      omega

/-- **Two windows at most.** In no period more than twice the limit is allowed. -/
theorem allowedIn_le (hrs : Ordered w rs) (k : κ) (t : ℕ) :
    allowedIn c k t w rs ≤ 2 * c.limit k := by
  induction rs generalizing w with
  | nil => exact Nat.zero_le _
  | cons r rs ih =>
    obtain ⟨now, k'⟩ := r
    by_cases ht : t ≤ w.start + c.period
    · have hle := allowedIn_le_of_le_end (k := k) hrs ht
      omega
    · -- the window is over when the period begins
      have hrest := ih (hrs.tail ((start_check c w now k').trans_le (start_at_le hrs.head)))
      rw [allowedIn_cons]
      by_cases hcounts : Counts c k t ((now, k'), (check c w now k').2)
      · have hbegun : t ≤ now := hcounts.2.2.1
        have hfresh : w.at c now = .fresh now := if_pos (by omega)
        have hstart : (check c w now k').1.start = now := by
          rw [start_check, hfresh]
          rfl
        have hroom := room_check c k k' t now w
        have hlater := allowedIn_le_of_le_start (k := k) (c := c) (hrs.tail hstart.le)
          (hbegun.trans_eq hstart.symm)
        have hzero : (Window.fresh now : Window κ).count k = 0 := rfl
        rw [hfresh, hzero] at hroom
        omega
      · rw [if_neg hcounts]
        exact hrest

end Bounds

end FixedWindow
