import TollGate.Lib.FixedWindow
import TollGate.Lib.Slots

/-!
# The rate limiter of the relay

`rate_limiter.c` keeps a bucket for each socket that has sent something, sixteen at most. A
bucket has a window of a minute with a counter for events and one for requests. It is made for
the first message of a socket, and it stays, as nothing calls `rate_limiter_reset`. For the
messages of one socket the table is then a single window (`countP_answers_of_bucket`), so what
holds of a fixed window holds of each socket (`allowed_in_minute_le`).

The clock is read once when a bucket is made and once more for the check.
-/

namespace TollGate

namespace Relay

/-- `RATE_LIMITER_MAX_BUCKETS`. -/
abbrev rateLimiterMaxBuckets : ℕ := 16

/-- `rate_type_t`. -/
inductive RateType where
  | event
  | req
deriving DecidableEq

/-- `rate_config_t`. -/
structure RateConfig where
  eventsPerMinute : UInt16
  reqsPerMinute : UInt16

/-- `rate_bucket_t` of an active bucket. -/
structure RateBucket where
  fd : Int32
  eventCount : UInt16
  reqCount : UInt16
  windowStart : UInt32
deriving DecidableEq

/-- `rate_limiter_t`. -/
structure RateLimiter where
  config : RateConfig
  buckets : Slots RateBucket rateLimiterMaxBuckets

/-- What a minute allows of a type. -/
def RateConfig.limit (config : RateConfig) : RateType → UInt16
  | .event => config.eventsPerMinute
  | .req => config.reqsPerMinute

namespace RateBucket

/-- The counter of a type. -/
def count (b : RateBucket) : RateType → UInt16
  | .event => b.eventCount
  | .req => b.reqCount

/-- One more in the counter of a type. -/
def increment (b : RateBucket) : RateType → RateBucket
  | .event => { b with eventCount := b.eventCount + 1 }
  | .req => { b with reqCount := b.reqCount + 1 }

/-- A new bucket. -/
def new (fd : Int32) (opened : UInt32) : RateBucket := ⟨fd, 0, 0, opened⟩

/-- The minute of the window is over. -/
def expired (b : RateBucket) (now : UInt32) : Bool := now - b.windowStart ≥ 60

/-- The bucket with a new window, if the minute is over. -/
def renew (b : RateBucket) (now : UInt32) : RateBucket :=
  if b.expired now then { b with eventCount := 0, reqCount := 0, windowStart := now } else b

/-- The part of `rate_limiter_check` behind `get_bucket`. -/
def serve (config : RateConfig) (b : RateBucket) (type : RateType) (now : UInt32) :
    RateBucket × Bool :=
  let b := b.renew now
  if b.count type ≥ config.limit type then (b, false) else (b.increment type, true)

end RateBucket

namespace RateLimiter

/-- `rate_limiter_init`. -/
def init (config : Option RateConfig) : RateLimiter := ⟨config.getD ⟨30, 60⟩, .empty⟩

/-- `get_bucket`: the place of the bucket, and what stands there. -/
def getBucket (rl : RateLimiter) (fd : Int32) (opened : UInt32) :
    RateLimiter × Option (Fin rateLimiterMaxBuckets × RateBucket) :=
  match rl.buckets.find (·.fd = fd) with
  | some i => (rl, (rl.buckets i).map (i, ·))
  | none =>
    match rl.buckets.firstFree with
    | some i =>
      let b := RateBucket.new fd opened
      ({ rl with buckets := rl.buckets.put i b }, some (i, b))
    | none => (rl, none)

/-- `rate_limiter_check`. -/
def check (rl : RateLimiter) (fd : Int32) (type : RateType) (opened now : UInt32) :
    RateLimiter × Bool :=
  match rl.getBucket fd opened with
  | (rl, none) => (rl, false)
  | (rl, some (i, b)) =>
    let r := b.serve rl.config type now
    ({ rl with buckets := rl.buckets.put i r.1 }, r.2)

end RateLimiter

/-! ### Runs of checks -/

/-- A call of `rate_limiter_check`, with the two readings of the clock. -/
structure Check where
  fd : Int32
  type : RateType
  opened : UInt32
  now : UInt32

/-- The readings of the clock, in seconds. -/
def readings (cs : List Check) : List ℕ := cs.flatMap fun c => [c.opened.toNat, c.now.toNat]

/-- The clock does not go back. -/
def Clock (cs : List Check) : Prop := (readings cs).Pairwise (· ≤ ·)

instance (cs : List Check) : Decidable (Clock cs) :=
  inferInstanceAs (Decidable (List.Pairwise _ _))

/-- The calls, with the answer to each. -/
def RateLimiter.answers : RateLimiter → List Check → List (Check × Bool)
  | _, [] => []
  | rl, c :: cs =>
    let r := rl.check c.fd c.type c.opened c.now
    (c, r.2) :: answers r.1 cs

/-- A message of the socket and the type is allowed in the minute from `t` on. -/
def AllowedIn (fd : Int32) (type : RateType) (t : ℕ) (a : Check × Bool) : Prop :=
  a.2 = true ∧ a.1.fd = fd ∧ a.1.type = type ∧ t ≤ a.1.now.toNat ∧ a.1.now.toNat < t + 60

instance (fd : Int32) (type : RateType) (t : ℕ) (a : Check × Bool) :
    Decidable (AllowedIn fd type t a) :=
  inferInstanceAs (Decidable (_ ∧ _ ∧ _ ∧ _ ∧ _))

/-! ### A bucket and its window -/

namespace RateBucket

theorem fd_serve (config : RateConfig) (b : RateBucket) (type : RateType) (now : UInt32) :
    (b.serve config type now).1.fd = b.fd := by
  have hrenew : (b.renew now).fd = b.fd := by
    unfold renew
    split
    · rfl
    · rfl
  unfold serve
  dsimp only
  split
  · exact hrenew
  · cases type with
    | event => exact hrenew
    | req => exact hrenew

/-- The window of a bucket. -/
def window (b : RateBucket) : FixedWindow.Window RateType where
  start := b.windowStart.toNat
  count type := (b.count type).toNat

/-- One more is counted below the limit. -/
theorem window_increment {b : RateBucket} {type : RateType} {n : UInt16} (h : b.count type < n) :
    (b.increment type).window = b.window.add type := by
  -- below a limit of sixteen bits the counter does not wrap
  have hlt : (b.count type).toNat + 1 < 2 ^ 16 := by
    have hn := n.toNat_lt
    rw [UInt16.lt_iff_toNat_lt] at h
    omega
  have hsucc : (b.count type + 1).toNat = (b.count type).toNat + 1 := by
    rw [UInt16.toNat_add]
    exact Nat.mod_eq_of_lt hlt
  ext type'
  · cases type with
    | event => rfl
    | req => rfl
  · cases type with
    | event =>
      cases type' with
      | event => exact hsucc
      | req => rfl
    | req =>
      cases type' with
      | event => rfl
      | req => exact hsucc

end RateBucket

/-- The windows that the limiter works with. -/
def RateConfig.windows (config : RateConfig) : FixedWindow.Config RateType where
  period := 60
  limit type := (config.limit type).toNat

/-- The bucket is a fixed window. -/
theorem RateBucket.window_serve (config : RateConfig) {b : RateBucket} {now : UInt32}
    (hnow : b.windowStart ≤ now) (type : RateType) :
    ((b.serve config type now).1.window, (b.serve config type now).2) =
      FixedWindow.check config.windows b.window now.toNat type := by
  have hrenew : (b.renew now).window = b.window.at config.windows now.toNat := by
    have hover : b.expired now = true ↔ config.windows.period ≤ now.toNat - b.window.start := by
      rw [expired, decide_eq_true_eq, ge_iff_le, UInt32.le_iff_toNat_le,
        UInt32.toNat_sub_of_le _ _ hnow]
      rfl
    unfold renew FixedWindow.Window.at
    by_cases hexpired : b.expired now = true
    · rw [if_pos hexpired, if_pos (hover.mp hexpired)]
      ext type'
      · rfl
      · cases type' with
        | event => rfl
        | req => rfl
    · rw [if_neg hexpired, if_neg fun h => hexpired (hover.mpr h)]
  unfold serve FixedWindow.check
  rw [← hrenew]
  have hfull : (b.renew now).count type ≥ config.limit type ↔
      config.windows.limit type ≤ (b.renew now).window.count type := UInt16.le_iff_toNat_le
  by_cases hlimit : (b.renew now).count type ≥ config.limit type
  · simp only [if_pos hlimit, if_pos (hfull.mp hlimit)]
  · simp only [if_neg hlimit, if_neg fun h => hlimit (hfull.mpr h)]
    rw [window_increment (UInt16.not_le.mp hlimit)]

/-- A window begins with a check at the latest. -/
theorem RateBucket.windowStart_serve_le (config : RateConfig) {b : RateBucket} {now : UInt32}
    (hnow : b.windowStart ≤ now) (type : RateType) :
    (b.serve config type now).1.windowStart.toNat ≤ now.toNat := by
  have hstart : (b.serve config type now).1.windowStart.toNat = _ :=
    congrArg (fun r => r.1.start) (window_serve config hnow type)
  rw [hstart, FixedWindow.start_check]
  exact FixedWindow.start_at_le (UInt32.le_iff_toNat_le.mp hnow)

/-! ### What a check does -/

namespace RateLimiter

variable {rl : RateLimiter} {fd : Int32}

/-- No bucket is for this socket. -/
def Unknown (rl : RateLimiter) (fd : Int32) : Prop := ∀ i b, rl.buckets i = some b → b.fd ≠ fd

/-- There is one bucket at most for a socket. -/
def Distinct (rl : RateLimiter) : Prop :=
  ∀ i j b b', rl.buckets i = some b → rl.buckets j = some b' → b.fd = b'.fd → i = j

/-- A check serves the bucket of the socket, or a new one, or finds none. -/
theorem check_cases (rl : RateLimiter) (fd : Int32) (type : RateType) (opened now : UInt32) :
    (∃ i b, rl.buckets i = some b ∧ b.fd = fd ∧
      rl.getBucket fd opened = (rl, some (i, b)) ∧
      rl.check fd type opened now =
        ({ rl with buckets := rl.buckets.put i (b.serve rl.config type now).1 },
          (b.serve rl.config type now).2)) ∨
    (rl.Unknown fd ∧ ∃ i, rl.buckets i = none ∧
      (rl.getBucket fd opened).2 = some (i, .new fd opened) ∧
      rl.check fd type opened now =
        ({ rl with buckets :=
            rl.buckets.put i ((RateBucket.new fd opened).serve rl.config type now).1 },
          ((RateBucket.new fd opened).serve rl.config type now).2)) ∨
    (rl.Unknown fd ∧ (∀ i, rl.buckets i ≠ none) ∧ (rl.getBucket fd opened).2 = none ∧
      rl.check fd type opened now = (rl, false)) := by
  unfold check getBucket
  cases hfind : rl.buckets.find (·.fd = fd) with
  | some i =>
    obtain ⟨b, hb, hfd⟩ := Slots.find_eq_some hfind
    refine .inl ⟨i, b, hb, of_decide_eq_true hfd, ?_, ?_⟩
    · simp only [hb, Option.map_some]
    · simp only [hb, Option.map_some]
  | none =>
    have hunknown : rl.Unknown fd := by
      intro i b hb
      have htest := Slots.find_eq_none hfind hb
      simpa only [decide_eq_false_iff_not] using htest
    cases hfree : rl.buckets.firstFree with
    | some i =>
      refine .inr (.inl ⟨hunknown, i, Slots.firstFree_eq_some hfree, rfl, ?_⟩)
      -- the bucket is written twice in the same place
      simp only [Slots.put, Function.update_idem]
    | none =>
      exact .inr (.inr ⟨hunknown, Slots.firstFree_eq_none hfree, rfl, rfl⟩)

theorem distinct_check (h : rl.Distinct) (fd : Int32) (type : RateType)
    (opened now : UInt32) :
    (rl.check fd type opened now).1.Distinct := by
  -- what stands in the place that is written is for the socket
  have hput : ∀ (i : Fin rateLimiterMaxBuckets) (new : RateBucket), new.fd = fd →
      (∀ j b, j ≠ i → rl.buckets j = some b → b.fd ≠ fd) →
        ({ rl with buckets := rl.buckets.put i new } : RateLimiter).Distinct := by
    intro i new hnew hothers j j' b b' hb hb' hfd
    obtain ⟨hj, hnew'⟩ | ⟨hj, hold⟩ := Slots.put_eq_some.mp hb
    · obtain ⟨hj', -⟩ | ⟨hj', hold'⟩ := Slots.put_eq_some.mp hb'
      · rw [hj, hj']
      · exact absurd (hfd.symm.trans (hnew' ▸ hnew)) (hothers j' b' hj' hold')
    · obtain ⟨hj', hnew'⟩ | ⟨hj', hold'⟩ := Slots.put_eq_some.mp hb'
      · exact absurd (hfd.trans (hnew' ▸ hnew)) (hothers j b hj hold)
      · exact h j j' b b' hold hold' hfd
  obtain ⟨i, b, hb, hfd, -, hcheck⟩ | ⟨hunknown, i, -, -, hcheck⟩ | ⟨-, -, -, hcheck⟩ :=
    rl.check_cases fd type opened now
  · rw [hcheck]
    refine hput i _ ((b.fd_serve rl.config type now).trans hfd) fun j b' hj hb' hfd' => ?_
    exact hj (h j i b' b hb' hb (hfd'.trans hfd.symm))
  · rw [hcheck]
    exact hput i _ (RateBucket.fd_serve ..) fun j b _ hb => hunknown j b hb
  · rwa [hcheck]

theorem config_check (rl : RateLimiter) (fd : Int32) (type : RateType) (opened now : UInt32) :
    (rl.check fd type opened now).1.config = rl.config := by
  obtain ⟨i, b, -, -, -, hcheck⟩ | ⟨-, i, -, -, hcheck⟩ | ⟨-, -, -, hcheck⟩ :=
    rl.check_cases fd type opened now
  all_goals rw [hcheck]

/-- A check for one socket leaves the buckets of the others alone. -/
theorem buckets_check_of_ne {i : Fin rateLimiterMaxBuckets} {b : RateBucket} (hne : b.fd ≠ fd)
    (type : RateType) (opened now : UInt32) :
    (rl.check fd type opened now).1.buckets i = some b ↔ rl.buckets i = some b := by
  -- the place that is written holds nothing else than a bucket of the socket
  have hput : ∀ (j : Fin rateLimiterMaxBuckets) (new : RateBucket), new.fd = fd →
      (∀ b', rl.buckets j = some b' → b'.fd = fd) →
        (rl.buckets.put j new i = some b ↔ rl.buckets i = some b) := by
    intro j new hnew hold
    rw [Slots.put_eq_some]
    refine ⟨?_, fun hb => .inr ⟨?_, hb⟩⟩
    · rintro (⟨-, rfl⟩ | ⟨-, hb⟩)
      · exact absurd hnew hne
      · exact hb
    · rintro rfl
      exact hne (hold b hb)
  obtain ⟨j, b', hb', hfd, -, hcheck⟩ | ⟨-, j, hfree, -, hcheck⟩ | ⟨-, -, -, hcheck⟩ :=
    rl.check_cases fd type opened now
  · rw [hcheck]
    refine hput j _ ((b'.fd_serve rl.config type now).trans hfd) fun b'' hb'' => ?_
    rw [hb'] at hb''
    exact Option.some.inj hb'' ▸ hfd
  · rw [hcheck]
    refine hput j _ (RateBucket.fd_serve ..) fun b'' hb'' => ?_
    rw [hfree] at hb''
    cases hb''
  · rw [hcheck]

end RateLimiter

/-! ### The messages of one socket -/

/-- The messages of the socket, as requests to a fixed window. -/
def ownRequests (fd : Int32) (cs : List Check) : List (ℕ × RateType) :=
  (cs.filter (·.fd = fd)).map fun c => (c.now.toNat, c.type)

theorem ownRequests_cons_of_eq {c : Check} (cs : List Check) :
    ownRequests c.fd (c :: cs) = (c.now.toNat, c.type) :: ownRequests c.fd cs := by
  rw [ownRequests, List.filter_cons_of_pos (by simp)]
  rfl

theorem ownRequests_cons_of_ne {fd : Int32} {c : Check} (h : c.fd ≠ fd) (cs : List Check) :
    ownRequests fd (c :: cs) = ownRequests fd cs := by
  rw [ownRequests, List.filter_cons_of_neg (by simp [h])]
  rfl

theorem readings_cons (c : Check) (cs : List Check) :
    readings (c :: cs) = c.opened.toNat :: c.now.toNat :: readings cs := rfl

/-- The times of the requests are among the readings. -/
theorem ownRequests_sublist (fd : Int32) (cs : List Check) :
    ((ownRequests fd cs).map Prod.fst).Sublist (readings cs) := by
  induction cs with
  | nil => exact .slnil
  | cons c cs ih =>
    rw [readings_cons]
    by_cases hfd : c.fd = fd
    · subst hfd
      rw [ownRequests_cons_of_eq]
      exact (ih.cons_cons _).cons _
    · rw [ownRequests_cons_of_ne hfd]
      exact (ih.cons _).cons _

section OneSocket

variable {rl : RateLimiter} {fd : Int32} {cs : List Check} {type : RateType} {t : ℕ}

theorem countP_answers_cons (c : Check) :
    (rl.answers (c :: cs)).countP (fun a => AllowedIn fd type t a) =
      ((rl.check c.fd c.type c.opened c.now).1.answers cs).countP
          (fun a => AllowedIn fd type t a) +
        if AllowedIn fd type t (c, (rl.check c.fd c.type c.opened c.now).2) then 1 else 0 := by
  rw [RateLimiter.answers, List.countP_cons]
  simp only [decide_eq_true_eq]

/-- A message that a bucket serves is one of its window. -/
theorem countP_answers_served {c : Check} {b : RateBucket} (hle : b.windowStart ≤ c.now)
    (hanswer : (rl.check c.fd c.type c.opened c.now).2 = (b.serve rl.config c.type c.now).2)
    (hrest : ((rl.check c.fd c.type c.opened c.now).1.answers cs).countP
        (fun a => AllowedIn c.fd type t a) =
      FixedWindow.allowedIn rl.config.windows type t (b.serve rl.config c.type c.now).1.window
        (ownRequests c.fd cs)) :
    (rl.answers (c :: cs)).countP (fun a => AllowedIn c.fd type t a) =
      FixedWindow.allowedIn rl.config.windows type t b.window (ownRequests c.fd (c :: cs)) := by
  rw [countP_answers_cons, hrest, hanswer, ownRequests_cons_of_eq, FixedWindow.allowedIn_cons,
    ← RateBucket.window_serve rl.config hle c.type]
  refine congrArg₂ (· + ·) rfl (if_congr ?_ rfl rfl)
  exact and_congr_right fun _ => and_iff_right rfl

/-- **One socket, one window.** Once a socket has a bucket, its messages are answered as by a
fixed window, whatever the others send. -/
theorem countP_answers_of_bucket (hdistinct : rl.Distinct) {i : Fin rateLimiterMaxBuckets}
    {b : RateBucket} (hb : rl.buckets i = some b)
    (hclock : (b.windowStart.toNat :: readings cs).Pairwise (· ≤ ·)) (type : RateType) (t : ℕ) :
    (rl.answers cs).countP (fun a => AllowedIn b.fd type t a) =
      FixedWindow.allowedIn rl.config.windows type t b.window (ownRequests b.fd cs) := by
  induction cs generalizing rl b with
  | nil => rfl
  | cons c cs ih =>
    rw [readings_cons] at hclock
    obtain ⟨hstart, hreadings⟩ := List.pairwise_cons.mp hclock
    obtain ⟨hnow, hrest⟩ := List.pairwise_cons.mp (List.pairwise_cons.mp hreadings).2
    have hafter := RateLimiter.distinct_check hdistinct c.fd c.type c.opened c.now
    have hconfig := rl.config_check c.fd c.type c.opened c.now
    by_cases hfd : c.fd = b.fd
    · -- its own message: the window takes the same step
      obtain ⟨i', b', hb', hfd', -, hcheck⟩ | ⟨hunknown, -⟩ | ⟨hunknown, -⟩ :=
        rl.check_cases c.fd c.type c.opened c.now
      · obtain rfl := hdistinct i' i b' b hb' hb (hfd'.trans hfd)
        obtain rfl : b' = b := Option.some.inj (hb'.symm.trans hb)
        have hle : b'.windowStart ≤ c.now := UInt32.le_iff_toNat_le.mpr
          (hstart _ (List.mem_cons_of_mem _ List.mem_cons_self))
        have hslot : (rl.check c.fd c.type c.opened c.now).1.buckets i' =
            some (b'.serve rl.config c.type c.now).1 := by
          rw [hcheck]
          exact Function.update_self ..
        have hlater : ((b'.serve rl.config c.type c.now).1.windowStart.toNat ::
            readings cs).Pairwise (· ≤ ·) :=
          List.pairwise_cons.mpr ⟨fun t ht =>
            (RateBucket.windowStart_serve_le rl.config hle c.type).trans (hnow t ht), hrest⟩
        have hcount := ih hafter hslot hlater
        rw [b'.fd_serve, hconfig, ← hfd] at hcount
        rw [← hfd]
        exact countP_answers_served hle (congrArg Prod.snd hcheck) hcount
      · exact absurd hfd.symm (hunknown i b hb)
      · exact absurd hfd.symm (hunknown i b hb)
    · -- a message of another socket leaves the bucket in its place
      have hslot := (RateLimiter.buckets_check_of_ne (Ne.symm hfd) c.type c.opened c.now).mpr hb
      have hlater : (b.windowStart.toNat :: readings cs).Pairwise (· ≤ ·) :=
        List.pairwise_cons.mpr ⟨fun t ht => hstart t
          (List.mem_cons_of_mem _ (List.mem_cons_of_mem _ ht)), hrest⟩
      rw [countP_answers_cons, ih hafter hslot hlater, hconfig, ownRequests_cons_of_ne hfd,
        if_neg fun hallowed => hfd hallowed.2.1, Nat.add_zero]

/-- A socket without a bucket gets one with its first message, or never. -/
theorem countP_answers_of_unknown (hdistinct : rl.Distinct) (hunknown : rl.Unknown fd)
    (hclock : Clock cs) :
    (rl.answers cs).countP (fun a => AllowedIn fd type t a) ≤
      2 * (rl.config.limit type).toNat := by
  induction cs generalizing rl with
  | nil => exact Nat.zero_le _
  | cons c cs ih =>
    have hafter := RateLimiter.distinct_check hdistinct c.fd c.type c.opened c.now
    have hconfig := rl.config_check c.fd c.type c.opened c.now
    unfold Clock at hclock ih
    rw [readings_cons] at hclock
    obtain ⟨hopened, hreadings⟩ := List.pairwise_cons.mp hclock
    obtain ⟨hnow, hrest⟩ := List.pairwise_cons.mp hreadings
    by_cases hfd : c.fd = fd
    · subst hfd
      obtain ⟨i, b, hb, hfd, -⟩ | ⟨-, i, -, -, hcheck⟩ | ⟨-, -, -, hcheck⟩ :=
        rl.check_cases c.fd c.type c.opened c.now
      · exact absurd hfd (hunknown i b hb)
      · -- from here on it has a window
        have hle : (RateBucket.new c.fd c.opened).windowStart ≤ c.now :=
          UInt32.le_iff_toNat_le.mpr (hopened _ List.mem_cons_self)
        have hslot : (rl.check c.fd c.type c.opened c.now).1.buckets i =
            some ((RateBucket.new c.fd c.opened).serve rl.config c.type c.now).1 := by
          rw [hcheck]
          exact Function.update_self ..
        have hlater := List.pairwise_cons.mpr ⟨fun t ht =>
          (RateBucket.windowStart_serve_le rl.config hle c.type).trans (hnow t ht), hrest⟩
        have hcount := countP_answers_of_bucket hafter hslot hlater type t
        rw [RateBucket.fd_serve, hconfig] at hcount
        rw [countP_answers_served hle (congrArg Prod.snd hcheck) hcount]
        refine FixedWindow.allowedIn_le (hclock.sublist ?_) type t
        rw [ownRequests_cons_of_eq]
        exact ((ownRequests_sublist c.fd cs).cons_cons _).cons_cons _
      · -- no place is left, and the table stays as it is
        rw [countP_answers_cons, hcheck]
        simpa [AllowedIn] using ih hdistinct hunknown hrest
    · have hstill : (rl.check c.fd c.type c.opened c.now).1.Unknown fd := by
        intro i b hb hbfd
        subst hbfd
        exact hunknown i b ((RateLimiter.buckets_check_of_ne (Ne.symm hfd) _ _ _).mp hb) rfl
      have hcount := ih hafter hstill hrest
      rw [hconfig] at hcount
      rw [countP_answers_cons, if_neg fun hallowed => hfd hallowed.2.1]
      exact hcount

end OneSocket

/-- **The rate bound.** Whatever sockets send what and when, in sixty seconds no socket is allowed
more than twice its limit of a type. -/
theorem allowed_in_minute_le (config : Option RateConfig) (cs : List Check) (hclock : Clock cs)
    (fd : Int32) (type : RateType) (t : ℕ) :
    ((RateLimiter.init config).answers cs).countP (fun a => AllowedIn fd type t a) ≤
      2 * ((RateLimiter.init config).config.limit type).toNat := by
  have hempty : ∀ i b, (RateLimiter.init config).buckets i ≠ some b := fun _ _ => nofun
  refine countP_answers_of_unknown ?_ (fun i b hb => absurd hb (hempty i b)) hclock
  exact fun i _ b _ hb => absurd hb (hempty i b)

/-- A limit of one event, and a window that a request began: the last event of this window and the
first of the next. -/
def twoEvents : List Check :=
  [⟨5, .req, 0, 0⟩, ⟨5, .event, 59, 59⟩, ⟨5, .event, 60, 60⟩, ⟨5, .event, 61, 61⟩]

theorem allowed_in_minute_two :
    ((RateLimiter.init (some ⟨1, 1⟩)).answers twoEvents).countP
        (fun a => AllowedIn 5 .event 1 a) = 2 ∧
      ((RateLimiter.init (some ⟨1, 1⟩)).answers twoEvents).countP
        (fun a => AllowedIn 5 .event 1 a) ≤ 2 * (1 : UInt16).toNat :=
  ⟨by decide, allowed_in_minute_le (some ⟨1, 1⟩) twoEvents (by decide) 5 .event 1⟩

end Relay

end TollGate
