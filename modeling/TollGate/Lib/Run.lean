import Mathlib

/-!
# Runs of a deterministic machine

A machine is a step function `step : σ → ω → σ` that takes an operation (or an
event) to the next state; whatever the environment decides (a clock reading, the
answer of a remote server) is part of the operation. A run is a finite list of
operations, executed left to right.

The rules a development needs are collected here once:

* `StepRun.run_induction`: a property of states that holds at the start and is
  kept by every step holds after every run;
* `StepRun.run_history`: the same for a property that may also read the list of
  operations executed so far;
* `StepRun.run_guarded`: as `run_induction`, for runs whose steps meet a condition;
* `StepRun.run_loss`: a quantity that may only fall is unchanged over a run exactly if
  no step of it loses anything;
* `StepRun.always_iff`: a property that a step keeps exactly under a condition holds in all
  states of a run exactly if its steps all meet the condition;
* `StepRun.run_rel`: two runs over the same operations stay related when every
  step keeps them related;
* `StepRun.run_project`: a part of the state that moves as a machine of its own runs over the
  operations that are an event for it;
* `StepRun.foldlM_induction`: the rule for a machine whose operations are not possible in every
  state, so that a run is a `foldlM` in `Option`.

`StepRun.Occurs` says that something happened in a run, after what was before it;
`StepRun.occurs_concat` is the rule by which a history grows.

`StepRun.sweep` is the `for` loop over the slots of a fixed array, and
`StepRun.sweep_induction` its loop-invariant rule.
-/

namespace StepRun

variable {σ σ' ω : Type*}

/-- The state after executing `ops` from `s`. -/
def run (step : σ → ω → σ) (s : σ) (ops : List ω) : σ :=
  ops.foldl step s

variable (step : σ → ω → σ)

@[simp] theorem run_nil (s : σ) : run step s [] = s := rfl

@[simp] theorem run_cons (s : σ) (op : ω) (ops : List ω) :
    run step s (op :: ops) = run step (step s op) ops := rfl

@[simp] theorem run_append (s : σ) (ops ops' : List ω) :
    run step s (ops ++ ops') = run step (run step s ops) ops' :=
  List.foldl_append

theorem run_concat (s : σ) (ops : List ω) (op : ω) :
    run step s (ops ++ [op]) = step (run step s ops) op := by
  rw [run_append, run_cons, run_nil]

variable {step}

/-- **Invariant rule.** What every step preserves, every run preserves. -/
theorem run_induction {P : σ → Prop} (hstep : ∀ s op, P s → P (step s op))
    {s : σ} (h : P s) (ops : List ω) : P (run step s ops) := by
  induction ops generalizing s with
  | nil => exact h
  | cons op ops ih => exact ih (hstep s op h)

/-- **History rule.** As `run_induction`, for a property that reads the
operations executed so far. -/
theorem run_history {s : σ} {P : List ω → σ → Prop} (h0 : P [] s)
    (hstep : ∀ ops op, P ops (run step s ops) →
      P (ops ++ [op]) (step (run step s ops) op)) (ops : List ω) :
    P ops (run step s ops) := by
  -- the last operation is split off, so that the history is a list that grows at its end
  induction ops using List.reverseRecOn with
  | nil => exact h0
  | append_singleton ops op ih =>
    rw [run_concat]
    exact hstep ops op ih

variable (step) in
/-- Every operation of the run meets the condition `G` in the state it is executed
in. -/
def AllSteps (G : σ → ω → Prop) (s : σ) : List ω → Prop
  | [] => True
  | op :: ops => G s op ∧ AllSteps G (step s op) ops

/-- **Guarded rule.** A property that a step keeps under a condition on the state
before it and the operation is kept by every run whose steps all meet it. -/
theorem run_guarded {P : σ → Prop} {G : σ → ω → Prop}
    (hstep : ∀ s op, P s → G s op → P (step s op)) {s : σ} (h : P s) {ops : List ω}
    (hG : AllSteps step G s ops) : P (run step s ops) := by
  induction ops generalizing s with
  | nil => exact h
  | cons op ops ih =>
    obtain ⟨hop, hops⟩ := hG
    exact ih (hstep s op h hop) hops

theorem allSteps_append {G : σ → ω → Prop} {s : σ} (ops ops' : List ω) :
    AllSteps step G s (ops ++ ops') ↔
      AllSteps step G s ops ∧ AllSteps step G (run step s ops) ops' := by
  induction ops generalizing s with
  | nil => exact (and_iff_right trivial).symm
  | cons op ops ih =>
    rw [List.cons_append, AllSteps, AllSteps, ih, and_assoc, run_cons]

/-- The condition holds wherever the run stands. -/
theorem allSteps_iff {G : σ → ω → Prop} {s : σ} {ops : List ω} :
    AllSteps step G s ops ↔
      ∀ front op back, ops = front ++ op :: back → G (run step s front) op := by
  refine ⟨?_, ?_⟩
  · rintro h front op back rfl
    exact ((allSteps_append front (op :: back)).mp h).2.1
  · intro h
    induction ops generalizing s with
    | nil => trivial
    | cons op ops ih =>
      refine ⟨h [] op ops rfl, ih fun front op' back hops => ?_⟩
      exact h (op :: front) op' back (congrArg (op :: ·) hops)

/-- A condition on the operations alone. -/
theorem allSteps_const {G : ω → Prop} {s : σ} {ops : List ω} :
    AllSteps step (fun _ => G) s ops ↔ ∀ op ∈ ops, G op := by
  induction ops generalizing s with
  | nil => exact iff_of_true trivial fun _ h => absurd h List.not_mem_nil
  | cons op ops ih => rw [AllSteps, ih, List.forall_mem_cons]

/-- **Loss rule.** A quantity that no step raises, and that a step keeps exactly when it meets the
condition `K`, is after the run what it was before exactly if all steps meet `K`. -/
theorem run_loss {α : Type*} [PartialOrder α] {f : σ → α} {P : σ → Prop} {G K : σ → ω → Prop}
    (hstep : ∀ s op, P s → G s op →
      P (step s op) ∧ f (step s op) ≤ f s ∧ (f (step s op) = f s ↔ K s op))
    {s : σ} (h : P s) {ops : List ω} (hG : AllSteps step G s ops) :
    f (run step s ops) ≤ f s ∧ (f (run step s ops) = f s ↔ AllSteps step K s ops) := by
  induction ops generalizing s with
  | nil => exact ⟨le_rfl, iff_of_true rfl trivial⟩
  | cons op ops ih =>
    obtain ⟨hop, hops⟩ := hG
    obtain ⟨hP, hle, hkeep⟩ := hstep s op h hop
    obtain ⟨hle', hkeep'⟩ := ih hP hops
    refine ⟨hle'.trans hle, ?_, ?_⟩
    · intro heq
      -- between two equal ends nothing was lost
      have hfirst : f (step s op) = f s := le_antisymm hle (heq ▸ hle')
      exact ⟨hkeep.mp hfirst, hkeep'.mp (heq.trans hfirst.symm)⟩
    · rintro ⟨hK, hrest⟩
      exact (hkeep'.mpr hrest).trans (hkeep.mpr hK)

variable (step) in
/-- The property holds in every state of the run, from the first to the last. -/
def Always (P : σ → Prop) (s : σ) (ops : List ω) : Prop :=
  ∀ front back, ops = front ++ back → P (run step s front)

theorem always_cons {P : σ → Prop} {s : σ} {op : ω} {ops : List ω} :
    Always step P s (op :: ops) ↔ P s ∧ Always step P (step s op) ops := by
  refine ⟨?_, ?_⟩
  · intro h
    refine ⟨h [] (op :: ops) rfl, fun front back hops => ?_⟩
    exact h (op :: front) back (congrArg (op :: ·) hops)
  · rintro ⟨hfirst, hrest⟩ front back hops
    cases front with
    | nil => exact hfirst
    | cons op' front =>
      rw [List.cons_append, List.cons.injEq] at hops
      obtain ⟨rfl, hops⟩ := hops
      exact hrest front back hops

/-- **Exact rule.** Where a step keeps `P` exactly if it meets the condition `G`, all states
of a run have `P` exactly if all its steps meet `G`. -/
theorem always_iff {P : σ → Prop} {G : σ → ω → Prop}
    (hstep : ∀ s op, P s → (P (step s op) ↔ G s op)) {s : σ} (h : P s) {ops : List ω} :
    Always step P s ops ↔ AllSteps step G s ops := by
  induction ops generalizing s with
  | nil =>
    refine iff_of_true ?_ trivial
    intro front back hops
    obtain ⟨rfl, -⟩ := List.append_eq_nil_iff.mp hops.symm
    exact h
  | cons op ops ih =>
    rw [always_cons, AllSteps, ← hstep s op h]
    refine ⟨?_, ?_⟩
    · rintro ⟨-, hrest⟩
      have hnext : P (step s op) := hrest [] ops rfl
      exact ⟨hnext, (ih hnext).mp hrest⟩
    · rintro ⟨hnext, hrest⟩
      exact ⟨h, (ih hnext).mpr hrest⟩

/-- **Two-run rule.** Runs over the same operations stay related when each of
these operations keeps them related. -/
theorem run_rel {step' : σ' → ω → σ'} {R : σ → σ' → Prop} (ops : List ω)
    (hstep : ∀ op ∈ ops, ∀ s s', R s s' → R (step s op) (step' s' op))
    {s : σ} {s' : σ'} (h : R s s') : R (run step s ops) (run step' s' ops) := by
  induction ops generalizing s s' with
  | nil => exact h
  | cons op ops ih =>
    refine ih (fun op' hop' => hstep op' (List.mem_cons_of_mem op hop')) ?_
    exact hstep op List.mem_cons_self s s' h

/-! ### A part of a machine -/

section Part

variable {ω' : Type*} {step' : σ' → ω' → σ'} {P : σ → Prop} (part : σ → σ')
  (event : ω → Option ω')

/-- **Projection rule.** Where a part of the state moves as a machine of its own, by the operations
that are an event for it, a run of the whole is a run of the part over its events. -/
theorem run_project (hP : ∀ s op, P s → P (step s op))
    (hpart : ∀ s op, P s →
      part (step s op) = (event op).elim (part s) fun e => step' (part s) e)
    {s : σ} (h : P s) (ops : List ω) :
    part (run step s ops) = run step' (part s) (ops.filterMap event) := by
  induction ops generalizing s with
  | nil => rfl
  | cons op ops ih =>
    have hop := hpart s op h
    rw [run_cons, ih (hP s op h), hop]
    cases hevent : event op with
    | none => rw [List.filterMap_cons_none hevent, Option.elim_none]
    | some e => rw [List.filterMap_cons_some hevent, Option.elim_some, run_cons]

/-- A condition on the part is met in all steps of the whole if it is met at all events. -/
theorem allSteps_project {G : σ → ω → Prop} {G' : σ' → ω' → Prop}
    (hP : ∀ s op, P s → P (step s op))
    (hpart : ∀ s op, P s →
      part (step s op) = (event op).elim (part s) fun e => step' (part s) e)
    (hG : ∀ s op, P s → (G s op ↔ ∀ e, event op = some e → G' (part s) e))
    {s : σ} (h : P s) (ops : List ω) :
    AllSteps step G s ops ↔ AllSteps step' G' (part s) (ops.filterMap event) := by
  induction ops generalizing s with
  | nil => exact Iff.rfl
  | cons op ops ih =>
    have hop := hpart s op h
    rw [AllSteps, ih (hP s op h), hop, hG s op h]
    cases hevent : event op with
    | none =>
      rw [List.filterMap_cons_none hevent, Option.elim_none]
      exact and_iff_right nofun
    | some e =>
      rw [List.filterMap_cons_some hevent, Option.elim_some, AllSteps]
      exact and_congr_left' ⟨fun hall => hall e rfl, fun he e' heq => Option.some.inj heq ▸ he⟩

end Part

/-! ### Operations that are not always possible -/

/-- **Rule for runs that may get stuck.** A relation of the state before a run, its operations and
the state after it holds of every run that comes to its end, if it holds of the empty run and a step
can be put in front of any run. -/
theorem foldlM_induction {mayStep : σ → ω → Option σ} {R : σ → List ω → σ → Prop}
    (hnil : ∀ s, R s [] s)
    (hcons : ∀ {s op next ops last}, mayStep s op = some next → R next ops last →
      R s (op :: ops) last)
    {s last : σ} {ops : List ω} (hrun : ops.foldlM mayStep s = some last) : R s ops last := by
  induction ops generalizing s with
  | nil =>
    cases hrun
    exact hnil last
  | cons op ops ih =>
    rw [List.foldlM_cons, Option.bind_eq_bind, Option.bind_eq_some_iff] at hrun
    obtain ⟨next, hnext, hrest⟩ := hrun
    exact hcons hnext (ih hrest)

/-! ### What occurs in a run -/

/-- Somewhere among the operations stands one of which, after the operations before it,
`P` holds. -/
def Occurs (P : List ω → ω → Prop) (ops : List ω) : Prop :=
  ∃ front op back, ops = front ++ op :: back ∧ P front op

theorem not_occurs_nil {P : List ω → ω → Prop} : ¬ Occurs P [] := by
  rintro ⟨front, op, back, hops, -⟩
  exact absurd hops (by simp)

theorem occurs_concat {P : List ω → ω → Prop} {ops : List ω} {op : ω} :
    Occurs P (ops ++ [op]) ↔ Occurs P ops ∨ P ops op := by
  refine ⟨?_, ?_⟩
  · rintro ⟨front, op', back, hops, hP⟩
    -- the operation that is meant is the last one, or stands before it
    rcases List.eq_nil_or_concat back with rfl | ⟨back, last, rfl⟩
    · obtain ⟨rfl, hop⟩ := List.append_inj' hops rfl
      obtain rfl := List.singleton_inj.mp hop
      exact Or.inr hP
    · rw [List.concat_eq_append, ← List.cons_append, ← List.append_assoc] at hops
      exact Or.inl ⟨front, op', back, (List.append_inj' hops rfl).1, hP⟩
  · rintro (⟨front, op', back, rfl, hP⟩ | hP)
    · exact ⟨front, op', back ++ [op], by simp, hP⟩
    · exact ⟨ops, op, [], rfl, hP⟩

theorem Occurs.append {P : List ω → ω → Prop} {ops : List ω} (h : Occurs P ops) (ops' : List ω) :
    Occurs P (ops ++ ops') := by
  obtain ⟨front, op, back, rfl, hP⟩ := h
  exact ⟨front, op, back ++ ops', by simp, hP⟩

/-! ### Loops over the slots of an array -/

/-- `for (i = 0; i < n; i++) f(i)`. -/
def sweep {n : ℕ} (f : σ → Fin n → σ) (s : σ) : σ :=
  (List.finRange n).foldl f s

/-- **Loop rule.** `P k` is the invariant once the first `k` slots were visited. -/
theorem sweep_induction {n : ℕ} {f : σ → Fin n → σ} {P : ℕ → σ → Prop}
    (hstep : ∀ (i : Fin n) s, P i s → P (i + 1) (f s i)) {s : σ} (h0 : P 0 s) :
    P n (sweep f s) := by
  unfold sweep
  induction n with
  | zero => exact h0
  | succ n ih =>
    -- the first `n` slots are the loop of one slot less; the last one is one more turn
    rw [List.finRange_succ_last, List.foldl_append, List.foldl_map]
    exact hstep (Fin.last n) _ (ih fun i s => hstep i.castSucc s)

end StepRun
