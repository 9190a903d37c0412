import TollGate.Lib.Run
import TollGate.Relay.RateLimiter
import TollGate.Relay.Subscriptions

/-!
# The budgets of connections

The rate limiter knows sockets, and a connection has one only while it is open. Neither `on_close`
nor the disconnect callback calls `rate_limiter_reset`, so a bucket stays when its connection is
gone. The next connection on the socket finds the counts of the one before, and after sixteen
different sockets there is no bucket for another.

`Budgets` is the limiter with the open connections, numbered in the order in which they were
opened, and with the numbers of the connections whose messages each counter has counted.
`freshBudgets_iff` says that every connection has a budget of its own exactly if each first message
of a connection finds no bucket of its socket and a free one, or one whose minute is over.
-/

namespace TollGate

namespace Relay

open StepRun

/-- The limits that `local_relay_init` sets. -/
def deployedRates : RateConfig := ⟨60, 30⟩

/-- The rate limiter and the connections. -/
structure Budgets where
  limiter : RateLimiter
  /-- The open sockets: the descriptor of each, and the number of its connection. -/
  sockets : List (Int32 × ℕ)
  /-- So many connections there were. -/
  opened : ℕ
  /-- The connections that have sent an `EVENT` or a `REQ`. -/
  spoken : List ℕ
  /-- The connections of the messages that each counter has counted. -/
  counted : Fin rateLimiterMaxBuckets → RateType → List ℕ

/-- What happens on the sockets. -/
inductive Traffic where
  | openConn (fd : Int32)
  | closeConn (fd : Int32)
  /-- An `EVENT` or a `REQ`, with the two readings of the clock. -/
  | message (fd : Int32) (type : RateType) (opened now : UInt32)

namespace Budgets

/-- After `local_relay_init`. -/
def init : Budgets := ⟨.init (some deployedRates), [], 0, [], fun _ _ => []⟩

/-- The messages that the counters of a bucket still count when it is served. -/
def kept (s : Budgets) (i : Fin rateLimiterMaxBuckets) (b : RateBucket) (now : UInt32)
    (type : RateType) : List ℕ :=
  if (s.limiter.buckets i).isNone || b.expired now then [] else s.counted i type

/-- The messages that they count then, with the one of the connection `k`. -/
def tally (s : Budgets) (i : Fin rateLimiterMaxBuckets) (b : RateBucket) (k : ℕ) (type : RateType)
    (now : UInt32) (allowed : Bool) (type' : RateType) : List ℕ :=
  if allowed = true ∧ type' = type then k :: s.kept i b now type' else s.kept i b now type'

/-- The connection `k` on `fd` sends a message. -/
def message (s : Budgets) (fd : Int32) (k : ℕ) (type : RateType) (opened now : UInt32) :
    Budgets :=
  let r := s.limiter.check fd type opened now
  { s with
    limiter := r.1
    spoken := k :: s.spoken
    counted := match (s.limiter.getBucket fd opened).2 with
      | none => s.counted
      | some (i, b) => Function.update s.counted i (s.tally i b k type now r.2) }

/-- One step. Descriptors are not given out twice at a time, and messages come on open sockets
only. A close leaves the limiter as it is. -/
def step (s : Budgets) : Traffic → Budgets
  | .openConn fd =>
    if s.sockets.length < wsMaxConnections ∧ fd ∉ s.sockets.map Prod.fst then
      { s with sockets := (fd, s.opened) :: s.sockets, opened := s.opened + 1 }
    else s
  | .closeConn fd => { s with sockets := s.sockets.filter (·.1 ≠ fd) }
  | .message fd type opened now =>
    match s.sockets.find? (·.1 = fd) with
    | none => s
    | some (_, k) => s.message fd k type opened now

/-- The counters of every connection that has sent something count its own messages only. -/
def OwnCounts (s : Budgets) : Prop :=
  ∀ fd k, (fd, k) ∈ s.sockets → k ∈ s.spoken → ∃ i b, s.limiter.buckets i = some b ∧ b.fd = fd ∧
    ∀ type, (b.count type).toNat = (s.counted i type).length ∧ ∀ k' ∈ s.counted i type, k' = k

/-- The event is the first message of the connection `k`. -/
def First (s : Budgets) (ev : Traffic) (fd : Int32) (k : ℕ) (type : RateType)
    (opened now : UInt32) : Prop :=
  ev = .message fd type opened now ∧ (fd, k) ∈ s.sockets ∧ k ∉ s.spoken

/-- The first message of a connection is allowed. -/
def FirstAllowed (s : Budgets) (ev : Traffic) : Prop :=
  ∀ fd k type opened now, s.First ev fd k type opened now →
    (s.limiter.check fd type opened now).2 = true

/-- The first message of a connection finds a bucket of its socket whose minute is over, or none
and a free one. -/
def Fresh (s : Budgets) (ev : Traffic) : Prop :=
  ∀ fd k type opened now, s.First ev fd k type opened now →
    (∃ i b, s.limiter.buckets i = some b ∧ b.fd = fd ∧ b.expired now = true) ∨
      s.limiter.Unknown fd ∧ ∃ i, s.limiter.buckets i = none

end Budgets

/-! ### What a bucket counts -/

namespace RateBucket

variable {b : RateBucket} {type : RateType} {now : UInt32}

theorem count_renew (b : RateBucket) (now : UInt32) (type : RateType) :
    (b.renew now).count type = if b.expired now then 0 else b.count type := by
  unfold renew
  split
  · cases type with
    | event => rfl
    | req => rfl
  · rfl

/-- A message below the limit is allowed. -/
theorem serve_allowed {config : RateConfig}
    (h : ((b.renew now).count type).toNat < (config.limit type).toNat) :
    (b.serve config type now).2 = true := by
  unfold serve
  dsimp only
  rw [if_neg (UInt16.not_le.mpr (UInt16.lt_iff_toNat_lt.mpr h))]

/-- A message that is not allowed was counted to the limit. -/
theorem limit_le_of_not_allowed {config : RateConfig} (h : (b.serve config type now).2 ≠ true) :
    (config.limit type).toNat ≤ ((b.renew now).count type).toNat := by
  by_contra hlt
  exact h (serve_allowed (not_le.mp hlt))

/-- What is counted behind a message. -/
theorem count_serve (config : RateConfig) (b : RateBucket) (type type' : RateType) (now : UInt32) :
    ((b.serve config type now).1.count type').toNat = ((b.renew now).count type').toNat +
      if (b.serve config type now).2 = true ∧ type' = type then 1 else 0 := by
  unfold serve
  dsimp only
  by_cases hfull : (b.renew now).count type ≥ config.limit type
  · simp [hfull]
  · have hwindow := window_increment (UInt16.not_le.mp hfull)
    have hcount : (((b.renew now).increment type).count type').toNat =
        ((b.renew now).window.add type).count type' :=
      congrArg (fun w => w.count type') hwindow
    simp only [if_neg hfull, true_and]
    rw [hcount]
    by_cases htype : type' = type
    · subst htype
      rw [if_pos rfl]
      exact Function.update_self ..
    · rw [if_neg htype]
      exact Function.update_of_ne htype ..

end RateBucket

namespace Budgets

variable {s : Budgets} {fd : Int32} {k : ℕ} {type : RateType} {opened now : UInt32}

/-! ### What holds in every run -/

/-- The limiter and the connections that it has counted. -/
structure Inv (s : Budgets) : Prop where
  config : s.limiter.config = deployedRates
  distinct : s.limiter.Distinct
  fds_nodup : (s.sockets.map Prod.fst).Nodup
  numbers_nodup : (s.sockets.map Prod.snd).Nodup
  sockets_lt : ∀ p ∈ s.sockets, p.2 < s.opened
  spoken_lt : ∀ k ∈ s.spoken, k < s.opened
  counts : ∀ i b, s.limiter.buckets i = some b →
    ∀ type, (b.count type).toNat = (s.counted i type).length
  nonempty : ∀ i b, s.limiter.buckets i = some b → ∃ type k, k ∈ s.counted i type
  counted_spoken : ∀ i b, s.limiter.buckets i = some b →
    ∀ type, ∀ k ∈ s.counted i type, k ∈ s.spoken

theorem inv_init : init.Inv := by
  have hempty : ∀ i b, init.limiter.buckets i ≠ some b := fun _ _ => nofun
  refine ⟨rfl, fun i _ b _ hb => absurd hb (hempty i b), .nil, .nil, fun _ hp => ?_, fun _ hk => ?_,
    fun i b hb => absurd hb (hempty i b), fun i b hb => absurd hb (hempty i b),
    fun i b hb => absurd hb (hempty i b)⟩
  · exact absurd hp List.not_mem_nil
  · exact absurd hk List.not_mem_nil

/-- The bucket `b` in the place `i` serves a message on `fd`: that of the socket, or a new one. -/
def Serves (s : Budgets) (fd : Int32) (opened : UInt32) (i : Fin rateLimiterMaxBuckets)
    (b : RateBucket) : Prop :=
  s.limiter.buckets i = some b ∧ b.fd = fd ∨
    s.limiter.Unknown fd ∧ s.limiter.buckets i = none ∧ b = .new fd opened

theorem Serves.fd_eq {i : Fin rateLimiterMaxBuckets} {b : RateBucket}
    (h : s.Serves fd opened i b) : b.fd = fd := by
  obtain ⟨-, hfd⟩ | ⟨-, -, rfl⟩ := h
  · exact hfd
  · rfl

/-- A message is served by a bucket, or there is none for it. -/
theorem message_cases (s : Budgets) (fd : Int32) (k : ℕ) (type : RateType)
    (opened now : UInt32) :
    (∃ i b, s.Serves fd opened i b ∧
      (s.limiter.check fd type opened now).2 = (b.serve s.limiter.config type now).2 ∧
      s.message fd k type opened now =
        { s with
          limiter := { s.limiter with
            buckets := s.limiter.buckets.put i (b.serve s.limiter.config type now).1 }
          spoken := k :: s.spoken
          counted := Function.update s.counted i
            (s.tally i b k type now (b.serve s.limiter.config type now).2) }) ∨
    (s.limiter.Unknown fd ∧ (∀ i, s.limiter.buckets i ≠ none) ∧
      s.message fd k type opened now = { s with spoken := k :: s.spoken }) := by
  unfold message
  obtain ⟨i, b, hb, hfd, hget, hcheck⟩ | ⟨hunknown, i, hfree, hget, hcheck⟩ |
      ⟨hunknown, hfull, hget, hcheck⟩ := s.limiter.check_cases fd type opened now
  · refine .inl ⟨i, b, .inl ⟨hb, hfd⟩, congrArg Prod.snd hcheck, ?_⟩
    simp only [hget, hcheck]
  · refine .inl ⟨i, _, .inr ⟨hunknown, hfree, rfl⟩, congrArg Prod.snd hcheck, ?_⟩
    simp only [hget, hcheck]
  · refine .inr ⟨hunknown, hfull, ?_⟩
    simp only [hget, hcheck]

/-- A bucket that serves a message counts what is kept. -/
theorem count_renew_eq (h : s.Inv) {i : Fin rateLimiterMaxBuckets} {b : RateBucket}
    (hb : s.Serves fd opened i b) (type : RateType) (now : UInt32) :
    ((b.renew now).count type).toNat = (s.kept i b now type).length := by
  rw [RateBucket.count_renew]
  unfold kept
  obtain ⟨hold, -⟩ | ⟨-, hfree, rfl⟩ := hb
  · by_cases hexpired : b.expired now = true
    · simp [hexpired]
    · rw [if_neg hexpired, if_neg (by simp [hold, hexpired])]
      exact h.counts i b hold type
  · have hzero : (RateBucket.new fd opened).count type = 0 := by
      cases type with
      | event => rfl
      | req => rfl
    simp [hfree, hzero]

theorem kept_subset (s : Budgets) (i : Fin rateLimiterMaxBuckets) (b : RateBucket)
    (now : UInt32) (type : RateType) : s.kept i b now type ⊆ s.counted i type := by
  unfold kept
  split
  · exact List.nil_subset _
  · exact List.Subset.refl _

/-- Nothing is kept of a place that is free. -/
theorem kept_of_free {i : Fin rateLimiterMaxBuckets} (hfree : s.limiter.buckets i = none)
    (b : RateBucket) (now : UInt32) (type : RateType) : s.kept i b now type = [] := by
  unfold kept
  rw [if_pos (by simp [hfree])]

/-- Nor of a bucket whose minute is over. -/
theorem kept_of_expired {i : Fin rateLimiterMaxBuckets} {b : RateBucket}
    (hexpired : b.expired now = true) : s.kept i b now type = [] := by
  unfold kept
  rw [if_pos (by simp [hexpired])]

theorem mem_tally {i : Fin rateLimiterMaxBuckets} {b : RateBucket} {allowed : Bool}
    {type' : RateType} {k' : ℕ} (h : k' ∈ s.tally i b k type now allowed type') :
    k' = k ∨ k' ∈ s.kept i b now type' := by
  unfold tally at h
  split at h
  · exact List.mem_cons.mp h
  · exact .inr h

theorem mem_tally_of_mem_kept {i : Fin rateLimiterMaxBuckets} {b : RateBucket} {allowed : Bool}
    {type' : RateType} {k' : ℕ} (h : k' ∈ s.kept i b now type') :
    k' ∈ s.tally i b k type now allowed type' := by
  unfold tally
  split
  · exact List.mem_cons_of_mem _ h
  · exact h

theorem length_tally (s : Budgets) (i : Fin rateLimiterMaxBuckets) (b : RateBucket) (k : ℕ)
    (type : RateType) (now : UInt32) (allowed : Bool) (type' : RateType) :
    (s.tally i b k type now allowed type').length =
      (s.kept i b now type').length + if allowed = true ∧ type' = type then 1 else 0 := by
  unfold tally
  split
  · exact List.length_cons
  · rfl

/-! ### The invariant -/

/-- A bucket that has served a message has counted one. -/
theorem exists_mem_tally (h : s.Inv) {i : Fin rateLimiterMaxBuckets} {b : RateBucket}
    (hb : s.Serves fd opened i b) (k : ℕ) (type : RateType) (now : UInt32) :
    ∃ type' k', k' ∈ s.tally i b k type now (b.serve s.limiter.config type now).2 type' := by
  by_cases hallowed : (b.serve s.limiter.config type now).2 = true
  · refine ⟨type, k, ?_⟩
    unfold tally
    rw [if_pos ⟨hallowed, rfl⟩]
    exact List.mem_cons_self
  · -- a refusal comes at the limit, and no limit is zero
    have hlimit := RateBucket.limit_le_of_not_allowed hallowed
    rw [count_renew_eq h hb, h.config] at hlimit
    have hpos : 0 < (s.kept i b now type).length := by
      refine lt_of_lt_of_le ?_ hlimit
      cases type with
      | event => exact Nat.zero_lt_succ 59
      | req => exact Nat.zero_lt_succ 29
    obtain ⟨k', hk'⟩ := List.exists_mem_of_length_pos hpos
    refine ⟨type, k', ?_⟩
    unfold tally
    rwa [if_neg fun hboth => hallowed hboth.1]

theorem inv_message (h : s.Inv) (hk : (fd, k) ∈ s.sockets) (type : RateType)
    (opened now : UInt32) : (s.message fd k type opened now).Inv := by
  have hlt := h.sockets_lt _ hk
  have hspoken : ∀ k' ∈ k :: s.spoken, k' < s.opened := by
    intro k' hk'
    obtain rfl | hk' := List.mem_cons.mp hk'
    · exact hlt
    · exact h.spoken_lt k' hk'
  have hconfig : (s.message fd k type opened now).limiter.config = deployedRates :=
    (s.limiter.config_check fd type opened now).trans h.config
  have hdistinct : (s.message fd k type opened now).limiter.Distinct :=
    RateLimiter.distinct_check h.distinct fd type opened now
  obtain ⟨i, b, hb, -, hmessage⟩ | ⟨-, -, hmessage⟩ := s.message_cases fd k type opened now
  · rw [hmessage] at hconfig hdistinct ⊢
    refine ⟨hconfig, hdistinct, h.fds_nodup, h.numbers_nodup, h.sockets_lt, hspoken, ?_, ?_, ?_⟩
    · intro j b' hb' type'
      dsimp only
      obtain ⟨rfl, rfl⟩ | ⟨hj, hold⟩ := Slots.put_eq_some.mp hb'
      · rw [Function.update_self, length_tally, RateBucket.count_serve, count_renew_eq h hb]
      · rw [Function.update_of_ne hj]
        exact h.counts j b' hold type'
    · intro j b' hb'
      dsimp only
      obtain ⟨rfl, -⟩ | ⟨hj, hold⟩ := Slots.put_eq_some.mp hb'
      · rw [Function.update_self]
        exact exists_mem_tally h hb k type now
      · rw [Function.update_of_ne hj]
        exact h.nonempty j b' hold
    · intro j b' hb' type' k' hk'
      dsimp only at hk' ⊢
      obtain ⟨rfl, -⟩ | ⟨hj, hold⟩ := Slots.put_eq_some.mp hb'
      · rw [Function.update_self] at hk'
        obtain rfl | hkept := mem_tally hk'
        · exact List.mem_cons_self
        · obtain ⟨hb, -⟩ | ⟨-, hfree, -⟩ := hb
          · exact List.mem_cons_of_mem _
              (h.counted_spoken _ _ hb type' k' (s.kept_subset _ _ _ _ hkept))
          · rw [kept_of_free hfree] at hkept
            exact absurd hkept List.not_mem_nil
      · rw [Function.update_of_ne hj] at hk'
        exact List.mem_cons_of_mem _ (h.counted_spoken j b' hold type' k' hk')
  · rw [hmessage]
    exact ⟨h.config, h.distinct, h.fds_nodup, h.numbers_nodup, h.sockets_lt, hspoken, h.counts,
      h.nonempty, fun i b hb type' k' hk' =>
        List.mem_cons_of_mem _ (h.counted_spoken i b hb type' k' hk')⟩

/-- A socket has one number, and the lookup finds it. -/
theorem find_sockets (h : s.Inv) :
    s.sockets.find? (·.1 = fd) = some (fd, k) ↔ (fd, k) ∈ s.sockets := by
  refine ⟨List.mem_of_find?_eq_some, fun hmem => ?_⟩
  cases hfind : s.sockets.find? (·.1 = fd) with
  | none =>
    have hne := List.find?_eq_none.mp hfind _ hmem
    exact absurd (decide_eq_true rfl) hne
  | some p =>
    have hfd : p.1 = fd := by simpa using List.find?_some hfind
    exact congrArg some
      (List.inj_on_of_nodup_map h.fds_nodup (List.mem_of_find?_eq_some hfind) hmem hfd)

/-- A message on an open socket is one of its connection; another does nothing. -/
theorem step_message (h : s.Inv) (fd : Int32) (type : RateType) (opened now : UInt32) :
    (∃ k, (fd, k) ∈ s.sockets ∧
      s.step (.message fd type opened now) = s.message fd k type opened now) ∨
    (∀ k, (fd, k) ∉ s.sockets) ∧ s.step (.message fd type opened now) = s := by
  cases hfind : s.sockets.find? (·.1 = fd) with
  | none =>
    refine .inr ⟨fun k hmem => ?_, ?_⟩
    · rw [(find_sockets h).mpr hmem] at hfind
      cases hfind
    · rw [step, hfind]
  | some p =>
    have hfd : p.1 = fd := by simpa using List.find?_some hfind
    refine .inl ⟨p.2, ?_, ?_⟩
    · rw [← hfd]
      exact List.mem_of_find?_eq_some hfind
    · rw [step, hfind]

theorem inv_step (h : s.Inv) (ev : Traffic) : (s.step ev).Inv := by
  cases ev with
  | openConn fd =>
    rw [step]
    split
    · rename_i hfree
      refine ⟨h.config, h.distinct, ?_, ?_, ?_, ?_, h.counts, h.nonempty, h.counted_spoken⟩
      · exact List.nodup_cons.mpr ⟨hfree.2, h.fds_nodup⟩
      · -- the number is a new one
        refine List.nodup_cons.mpr ⟨fun hmem => ?_, h.numbers_nodup⟩
        obtain ⟨p, hp, hnumber⟩ := List.mem_map.mp hmem
        exact absurd hnumber (h.sockets_lt p hp).ne
      · intro p hp
        obtain rfl | hp := List.mem_cons.mp hp
        · exact Nat.lt_succ_self _
        · exact Nat.lt_succ_of_lt (h.sockets_lt p hp)
      · exact fun k hk => Nat.lt_succ_of_lt (h.spoken_lt k hk)
    · exact h
  | closeConn fd =>
    have hsub : (s.sockets.filter (·.1 ≠ fd)).Sublist s.sockets := List.filter_sublist
    exact ⟨h.config, h.distinct, h.fds_nodup.sublist (hsub.map _),
      h.numbers_nodup.sublist (hsub.map _), fun p hp => h.sockets_lt p (hsub.subset hp),
      h.spoken_lt, h.counts, h.nonempty, h.counted_spoken⟩
  | message fd type opened now =>
    obtain ⟨k, hk, hstep⟩ | ⟨-, hstep⟩ := step_message h fd type opened now
    · rw [hstep]
      exact inv_message h hk type opened now
    · rwa [hstep]

/-! ### Fresh budgets -/

/-- A message on `fd` finds a bucket of its socket whose minute is over, or none and a free one. -/
def FindsFresh (s : Budgets) (fd : Int32) (now : UInt32) : Prop :=
  (∃ i b, s.limiter.buckets i = some b ∧ b.fd = fd ∧ b.expired now = true) ∨
    s.limiter.Unknown fd ∧ ∃ i, s.limiter.buckets i = none

/-- The condition for the first message of the connection `k`. -/
theorem fresh_message (h : s.Inv) (hk : (fd, k) ∈ s.sockets) :
    s.Fresh (.message fd type opened now) ↔ (k ∉ s.spoken → s.FindsFresh fd now) := by
  refine ⟨fun hfresh hnew => hfresh fd k type opened now ⟨rfl, hk, hnew⟩, ?_⟩
  rintro hfresh fd' k' type' opened' now' ⟨hev, hk', hnew⟩
  cases hev
  have hsame := Option.some.inj (((find_sockets h).mpr hk).symm.trans ((find_sockets h).mpr hk'))
  exact hfresh ((Prod.mk.inj hsame).2 ▸ hnew)

/-- The first message of a connection that finds such a bucket is allowed. -/
theorem firstAllowed_of_fresh (h : s.Inv) {ev : Traffic} (hfresh : s.Fresh ev) :
    s.FirstAllowed ev := by
  intro fd k type opened now hfirst
  have hpos : 0 < (s.limiter.config.limit type).toNat := by
    rw [h.config]
    cases type with
    | event => exact Nat.zero_lt_succ 59
    | req => exact Nat.zero_lt_succ 29
  obtain ⟨j, b', hb', hfd', hexpired⟩ | ⟨hunknown, j, hfree⟩ :=
    hfresh fd k type opened now hfirst
  · obtain ⟨i, b, hb, hfd, -, hcheck⟩ | ⟨hunknown, -⟩ | ⟨hunknown, -⟩ :=
      s.limiter.check_cases fd type opened now
    · -- the same bucket, which counts anew from now on
      obtain rfl := h.distinct i j b b' hb hb' (hfd.trans hfd'.symm)
      obtain rfl : b = b' := Option.some.inj (hb.symm.trans hb')
      rw [hcheck]
      refine RateBucket.serve_allowed ?_
      rw [RateBucket.count_renew, if_pos hexpired]
      exact hpos
    · exact absurd hfd' (hunknown j b' hb')
    · exact absurd hfd' (hunknown j b' hb')
  · obtain ⟨i, b, hb, hfd, -⟩ | ⟨-, i, -, -, hcheck⟩ | ⟨-, hfull, -⟩ :=
      s.limiter.check_cases fd type opened now
    · exact absurd hfd (hunknown i b hb)
    · rw [hcheck]
      refine RateBucket.serve_allowed ?_
      have hzero : (RateBucket.new fd opened).count type = 0 := by
        cases type with
        | event => rfl
        | req => rfl
      rw [RateBucket.count_renew, hzero, ite_self]
      exact hpos
    · exact absurd hfree (hfull j)

/-- A bucket of the socket counts the messages of the connection `k` only. -/
def OwnBucket (s : Budgets) (fd : Int32) (k : ℕ) : Prop :=
  ∃ i b, s.limiter.buckets i = some b ∧ b.fd = fd ∧
    ∀ type, (b.count type).toNat = (s.counted i type).length ∧ ∀ k' ∈ s.counted i type, k' = k

/-- A message leaves the buckets and the counts of the other connections alone. -/
theorem ownBucket_message_of_ne (h : s.Inv) (hown : s.OwnCounts) {fd' : Int32} {k' : ℕ}
    (hk : (fd, k) ∈ s.sockets) (hk' : (fd', k') ∈ s.sockets) (hne : fd' ≠ fd)
    (hspoken : k' ∈ k :: s.spoken) : (s.message fd k type opened now).OwnBucket fd' k' := by
  have hold : k' ∈ s.spoken := by
    obtain rfl | hold := List.mem_cons.mp hspoken
    · -- one number has one socket
      have hsame := List.inj_on_of_nodup_map h.numbers_nodup hk hk' rfl
      exact absurd (congrArg Prod.fst hsame).symm hne
    · exact hold
  obtain ⟨j, b', hb', hfd', hcounts⟩ := hown fd' k' hk' hold
  obtain ⟨i, b, hb, -, hmessage⟩ | ⟨-, -, hmessage⟩ := s.message_cases fd k type opened now
  · -- the place that is written is neither free nor the other's
    have hji : j ≠ i := by
      rintro rfl
      obtain ⟨hb, hfd⟩ | ⟨-, hfree, -⟩ := hb
      · obtain rfl := Option.some.inj (hb.symm.trans hb')
        exact hne (hfd'.symm.trans hfd)
      · rw [hfree] at hb'
        cases hb'
    rw [hmessage]
    refine ⟨j, b', Slots.put_eq_some.mpr (.inr ⟨hji, hb'⟩), hfd', ?_⟩
    dsimp only
    rwa [Function.update_of_ne hji]
  · rw [hmessage]
    exact ⟨j, b', hb', hfd', hcounts⟩

/-- What a bucket keeps when it serves a message is from earlier messages of the connection, if the
message finds a fresh budget when it is the first. -/
theorem eq_of_mem_kept (h : s.Inv) (hown : s.OwnCounts) (hk : (fd, k) ∈ s.sockets)
    (hfresh : k ∉ s.spoken → s.FindsFresh fd now) {i : Fin rateLimiterMaxBuckets} {b : RateBucket}
    (hb : s.Serves fd opened i b) {k' : ℕ} (hkept : k' ∈ s.kept i b now type) : k' = k := by
  obtain ⟨hold, hfd⟩ | ⟨-, hfree, -⟩ := hb
  · by_cases hspoken : k ∈ s.spoken
    · obtain ⟨j, b', hb', hfd', hcounts⟩ := hown fd k hk hspoken
      obtain rfl := h.distinct j i b' b hb' hold (hfd'.trans hfd.symm)
      exact (hcounts type).2 k' (s.kept_subset _ _ _ _ hkept)
    · -- a bucket whose minute is over keeps nothing
      obtain ⟨j, b', hb', hfd', hexpired⟩ | ⟨hunknown, -⟩ := hfresh hspoken
      · obtain rfl := h.distinct j i b' b hb' hold (hfd'.trans hfd.symm)
        obtain rfl := Option.some.inj (hb'.symm.trans hold)
        rw [kept_of_expired hexpired] at hkept
        exact absurd hkept List.not_mem_nil
      · exact absurd hfd (hunknown i b hold)
  · rw [kept_of_free hfree] at hkept
    exact absurd hkept List.not_mem_nil

/-- Behind a message its own connection has a bucket that counts for it alone. -/
theorem ownBucket_message (h : s.Inv) (hown : s.OwnCounts) (hk : (fd, k) ∈ s.sockets)
    (hfresh : k ∉ s.spoken → s.FindsFresh fd now) :
    (s.message fd k type opened now).OwnBucket fd k := by
  obtain ⟨i, b, hb, -, hmessage⟩ | ⟨hunknown, hfull, -⟩ := s.message_cases fd k type opened now
  · have hslot : (s.message fd k type opened now).limiter.buckets i =
        some (b.serve s.limiter.config type now).1 := by
      rw [hmessage]
      exact Function.update_self ..
    refine ⟨i, _, hslot, (b.fd_serve _ type now).trans hb.fd_eq, fun type' =>
      ⟨(inv_message h hk type opened now).counts i _ hslot type', fun k' hk' => ?_⟩⟩
    rw [hmessage] at hk'
    dsimp only at hk'
    rw [Function.update_self] at hk'
    obtain rfl | hkept := mem_tally hk'
    · rfl
    · exact eq_of_mem_kept h hown hk hfresh hb hkept
  · -- no bucket is left for the socket
    by_cases hspoken : k ∈ s.spoken
    · obtain ⟨j, b, hb, hfd, -⟩ := hown fd k hk hspoken
      exact absurd hfd (hunknown j b hb)
    · obtain ⟨j, b, hb, hfd, -⟩ | ⟨-, j, hfree⟩ := hfresh hspoken
      · exact absurd hfd (hunknown j b hb)
      · exact absurd hfree (hfull j)

/-- A first message that leaves its connection with such a bucket has found a fresh budget. -/
theorem findsFresh_of_ownBucket (h : s.Inv) (hnew : k ∉ s.spoken)
    (hafter : (s.message fd k type opened now).OwnBucket fd k) : s.FindsFresh fd now := by
  obtain ⟨j, b', hb', hfd', hcounts⟩ := hafter
  obtain ⟨i, b, hb, -, hmessage⟩ | ⟨hunknown, -, hmessage⟩ := s.message_cases fd k type opened now
  · obtain ⟨hold, hfd⟩ | ⟨hunknown, hfree, -⟩ := hb
    · -- what the bucket had counted is of others, so the minute is over
      refine .inl ⟨i, b, hold, hfd, ?_⟩
      by_contra hexpired
      rw [hmessage] at hb' hcounts
      have hji : j = i := by
        by_contra hji
        obtain ⟨hj, -⟩ | ⟨-, hold'⟩ := Slots.put_eq_some.mp hb'
        · exact hji hj
        · exact hji (h.distinct j i b' b hold' hold (hfd'.trans hfd.symm))
      subst hji
      obtain ⟨type', k', hk'⟩ := h.nonempty j b hold
      have hkept : k' ∈ s.kept j b now type' := by
        unfold kept
        rwa [if_neg (by simp [hold, hexpired])]
      dsimp only at hcounts
      rw [Function.update_self] at hcounts
      obtain rfl := (hcounts type').2 k' (mem_tally_of_mem_kept hkept)
      exact hnew (h.counted_spoken j b hold type' k' hk')
    · exact .inr ⟨hunknown, i, hfree⟩
  · rw [hmessage] at hb'
    exact absurd hfd' (hunknown j b' hb')

/-- Behind a message every connection still counts its own, exactly if the message is a later one
or finds a fresh budget. -/
theorem ownCounts_message (h : s.Inv) (hown : s.OwnCounts) (hk : (fd, k) ∈ s.sockets) :
    (s.message fd k type opened now).OwnCounts ↔ (k ∉ s.spoken → s.FindsFresh fd now) := by
  refine ⟨?_, ?_⟩
  · intro hafter hnew
    exact findsFresh_of_ownBucket h hnew (hafter fd k hk List.mem_cons_self)
  · intro hfresh fd' k' hk' hspoken
    by_cases hfd : fd' = fd
    · subst hfd
      obtain rfl : k' = k := congrArg Prod.snd (List.inj_on_of_nodup_map h.fds_nodup hk' hk rfl)
      exact ownBucket_message h hown hk hfresh
    · exact ownBucket_message_of_ne h hown hk hk' hfd hspoken

theorem ownCounts_step (h : s.Inv) (hown : s.OwnCounts) (ev : Traffic) :
    (s.step ev).OwnCounts ↔ s.Fresh ev := by
  cases ev with
  | openConn fd =>
    refine iff_of_true ?_ ?_
    · rw [step]
      split
      · intro fd' k' hk' hspoken
        obtain heq | hk' := List.mem_cons.mp hk'
        · -- the new connection has sent nothing yet
          obtain rfl := congrArg Prod.snd heq
          exact absurd rfl (h.spoken_lt _ hspoken).ne
        · exact hown fd' k' hk' hspoken
      · exact hown
    · rintro fd' k type opened now ⟨hev, -⟩
      cases hev
  | closeConn fd =>
    refine iff_of_true ?_ ?_
    · exact fun fd' k' hk' hspoken => hown fd' k' (List.mem_of_mem_filter hk') hspoken
    · rintro fd' k type opened now ⟨hev, -⟩
      cases hev
  | message fd type opened now =>
    obtain ⟨k, hk, hstep⟩ | ⟨hnone, hstep⟩ := step_message h fd type opened now
    · rw [hstep, ownCounts_message h hown hk, fresh_message h hk]
    · rw [hstep]
      refine iff_of_true hown ?_
      rintro fd' k type' opened' now' ⟨hev, hk, -⟩
      cases hev
      exact absurd hk (hnone k)

theorem ownCounts_init : init.OwnCounts := fun _ _ hk _ => absurd hk List.not_mem_nil

end Budgets

/-- **Fresh budgets.** The counters of every connection count its own messages only, and its first
message is allowed, exactly if each first message finds a bucket of its socket whose minute is
over, or none and a free one. -/
theorem freshBudgets_iff (evs : List Traffic) :
    (Always Budgets.step Budgets.OwnCounts .init evs ∧
        AllSteps Budgets.step Budgets.FirstAllowed .init evs) ↔
      AllSteps Budgets.step Budgets.Fresh .init evs := by
  have hexact : Always Budgets.step (fun s => s.Inv ∧ s.OwnCounts) .init evs ↔
      AllSteps Budgets.step Budgets.Fresh .init evs := by
    -- behind a state that is right, one step is right exactly if its budget is fresh
    refine always_iff ?_ ⟨Budgets.inv_init, Budgets.ownCounts_init⟩
    rintro s ev ⟨hinv, hown⟩
    rw [← Budgets.ownCounts_step hinv hown ev]
    exact and_iff_right (Budgets.inv_step hinv ev)
  have hinv (front : List Traffic) : (run Budgets.step .init front).Inv :=
    run_induction (P := Budgets.Inv) (fun _ ev h => Budgets.inv_step h ev) Budgets.inv_init front
  rw [← hexact]
  refine ⟨?_, ?_⟩
  · rintro ⟨hown, -⟩ front back hevs
    exact ⟨hinv front, hown front back hevs⟩
  · intro hboth
    refine ⟨fun front back hevs => (hboth front back hevs).2, allSteps_iff.mpr ?_⟩
    intro front ev back hevs
    exact Budgets.firstAllowed_of_fresh (hinv front)
      (allSteps_iff.mp (hexact.mp hboth) front ev back hevs)

/-- A connection that sends an event and goes, and the next one on its socket. -/
def sameSocket : List Traffic :=
  [.openConn 54, .message 54 .event 100 100, .closeConn 54, .openConn 54,
    .message 54 .event 101 101]

/-- The second connection finds the event of the first in its counter. -/
theorem sameSocket_counts_both :
    ¬ (Always Budgets.step Budgets.OwnCounts .init sameSocket ∧
      AllSteps Budgets.step Budgets.FirstAllowed .init sameSocket) := by
  rintro ⟨hown, -⟩
  have hbucket : (run Budgets.step .init sameSocket).limiter.buckets 0 = some ⟨54, 2, 0, 100⟩ := rfl
  have hcounted : (run Budgets.step .init sameSocket).counted 0 .event = [1, 0] := rfl
  have hothers : ∀ i ≠ 0, (run Budgets.step .init sameSocket).limiter.buckets i = none := by decide
  obtain ⟨i, b, hb, -, hcounts⟩ := hown sameSocket [] rfl 54 1 (by decide) (by decide)
  have hi : i = 0 := by
    by_contra hi
    rw [hothers i hi] at hb
    cases hb
  subst hi
  have hmem : 0 ∈ (run Budgets.step .init sameSocket).counted 0 .event := by
    rw [hcounted]
    exact List.mem_cons_of_mem _ List.mem_cons_self
  exact Nat.zero_ne_one ((hcounts .event).2 0 hmem)

end Relay

end TollGate
