import TollGate.Lib.Run
import TollGate.Wallet.Send

/-!
# Waiting for the keysets

Before a wallet can do anything it needs the keysets of its mint. `ensure_keysets` waits, loads
them, and after a failure waits longer the next time; the other operations of the wallet wait
meanwhile, since the lock is held. `ensureKeysets_eq` relates it to what the wallet's operations
see of it.

The delay is a second shifted by the number of failures, cut to half a minute afterwards, and a
jitter. After 22 failures the shift has lost the sign bit and what is cut is negative.
`keyset_backoff_iff` says exactly which calls keep the delays as they are meant to be. Shifts by
the width of the type and beyond have no meaning in the language; `beyond` is what they give.
-/

namespace TollGate

namespace Wallet

open StepRun

/-! ### The source operations -/

/-- `KEYSET_BASE_DELAY_MS`. -/
abbrev keysetBaseDelayMs : Int32 := 1000

/-- `KEYSET_MAX_DELAY_MS`. -/
abbrev keysetMaxDelayMs : Int32 := 30000

/-- `KEYSET_JITTER_MS`. -/
abbrev keysetJitterMs : Int32 := 500

/-- A wallet in its slot, with `s_keyset_attempts`. -/
structure KeysetSlot where
  wallet : CashuWallet
  attempts : Int32

/-- What a call meets: a random number, and the keysets if they can be loaded. -/
structure KeysetCall where
  random : UInt32
  loaded : Option (List Keyset)

/-- A wait: what is left of the shifted delay, and the delay with the jitter. -/
structure Wait where
  clamped : Int32
  delayMs : Int32
deriving DecidableEq

section Call

variable (beyond : Int32 → Int32)

/-- `KEYSET_BASE_DELAY_MS << attempts`. -/
def shiftedDelay (attempts : Int32) : Int32 :=
  if 0 ≤ attempts ∧ attempts < 32 then keysetBaseDelayMs <<< attempts else beyond attempts

/-- The wait after some failed attempts. -/
def keysetWait (attempts : Int32) (random : UInt32) : Wait :=
  let clamped := if shiftedDelay beyond attempts > keysetMaxDelayMs then keysetMaxDelayMs
    else shiftedDelay beyond attempts
  ⟨clamped, clamped + (random % keysetJitterMs.toUInt32).toInt32⟩

/-- `ensure_keysets` on a slot with a wallet: the slot, the wait if there is one, and the result. -/
def KeysetSlot.ensure (s : KeysetSlot) (c : KeysetCall) : KeysetSlot × Option Wait × Bool :=
  if s.wallet.keysetsLoaded then (s, none, true)
  else if !s.wallet.keysets.isEmpty then
    ({ s with wallet := { s.wallet with keysetsLoaded := true } }, none, true)
  else
    let wait := keysetWait beyond s.attempts c.random
    match c.loaded with
    | some keysets =>
      (⟨{ s.wallet with keysets := keysets, keysetsLoaded := true }, 0⟩, some wait, true)
    | none => ({ s with attempts := s.attempts + 1 }, some wait, false)

/-- The slot, and the waits so far. -/
structure KeysetRun where
  slot : KeysetSlot
  waits : List Wait

/-- One call. -/
def KeysetRun.step (s : KeysetRun) (c : KeysetCall) : KeysetRun :=
  ⟨(s.slot.ensure beyond c).1, s.waits ++ (s.slot.ensure beyond c).2.1.toList⟩

end Call

/-- A slot in which no attempt has failed, after `init_wallet`. -/
def KeysetRun.start (w : CashuWallet) : KeysetRun := ⟨⟨w, 0⟩, []⟩

/-- A call in this state waits. -/
def KeysetSlot.Waits (s : KeysetSlot) : Prop :=
  s.wallet.keysetsLoaded = false ∧ s.wallet.keysets.isEmpty = true

/-! ### What the waits are to be -/

/-- Each wait is in its bounds, and but for the jitter none is shorter than one before it. After
a load that succeeds there is none any more. -/
structure BackOff (waits : List Wait) : Prop where
  bounds : ∀ w ∈ waits, keysetBaseDelayMs.toInt ≤ w.delayMs.toInt ∧
    w.delayMs.toInt < keysetMaxDelayMs.toInt + keysetJitterMs.toInt
  rising : waits.Pairwise fun a b => a.clamped.toInt ≤ b.clamped.toInt

/-! ### One wait -/

variable {beyond : Int32 → Int32}

/-- The operations of the wallet see the result, and not the wait. -/
theorem ensureKeysets_eq (lib : Library) (s : KeysetSlot) (c : KeysetCall)
    (hload : lib.loadKeysets s.wallet = c.loaded) :
    ensureKeysets lib s.wallet = ((s.ensure beyond c).1.wallet, (s.ensure beyond c).2.2) := by
  unfold ensureKeysets KeysetSlot.ensure
  rw [hload]
  split
  · rfl
  · split
    · rfl
    · cases c.loaded <;> rfl

theorem ensure_of_waits {s : KeysetSlot} (h : s.Waits) (c : KeysetCall) :
    (s.ensure beyond c).2.1 = some (keysetWait beyond s.attempts c.random) ∧
      ((s.ensure beyond c).1.Waits → (s.ensure beyond c).1.attempts = s.attempts + 1) := by
  unfold KeysetSlot.ensure
  rw [if_neg (by simp [h.1]), if_neg (by simp [h.2])]
  cases c.loaded with
  | some keysets => exact ⟨rfl, fun hwaits => absurd hwaits.1 (by simp)⟩
  | none => exact ⟨rfl, fun _ => rfl⟩

theorem ensure_of_not {s : KeysetSlot} (h : ¬s.Waits) (c : KeysetCall) :
    (s.ensure beyond c).2.1 = none ∧ ¬(s.ensure beyond c).1.Waits := by
  unfold KeysetSlot.ensure
  split_ifs with hloaded hempty
  · exact ⟨rfl, h⟩
  · exact ⟨rfl, fun hwaits => absurd hwaits.1 (by simp)⟩
  · exact absurd ⟨by simpa using hloaded, by simpa using hempty⟩ h

theorem toInt_jitter (random : UInt32) :
    ((random % keysetJitterMs.toUInt32).toInt32).toInt = (random.toNat % 500 : ℕ) := by
  have hnat : (random % keysetJitterMs.toUInt32).toNat = random.toNat % 500 := by
    rw [UInt32.toNat_mod]
    rfl
  have hlt : (random % keysetJitterMs.toUInt32).toNat < 500 := by omega
  rw [← hnat]
  show (random % keysetJitterMs.toUInt32).toBitVec.toInt = _
  rw [BitVec.toInt_eq_toNat_of_lt]
  · rfl
  · show 2 * (random % keysetJitterMs.toUInt32).toNat < 2 ^ 32
    omega

/-- The jitter is added without a wrap. -/
theorem toInt_delayMs {attempts : Int32} {random : UInt32}
    (hlow : -2 ^ 30 ≤ (keysetWait beyond attempts random).clamped.toInt)
    (hhigh : (keysetWait beyond attempts random).clamped.toInt < 2 ^ 30) :
    (keysetWait beyond attempts random).delayMs.toInt =
      (keysetWait beyond attempts random).clamped.toInt + (random.toNat % 500 : ℕ) := by
  show ((keysetWait beyond attempts random).clamped + _).toInt = _
  rw [Int32.toInt_add, toInt_jitter]
  refine Int.bmod_eq_of_le ?_ ?_ <;> omega

/-- What the shift leaves after up to 21 failures. -/
theorem clamped_of_le {n : ℕ} (hn : n ≤ 21) (random : UInt32) :
    (keysetWait beyond (Int32.ofNat n) random).clamped.toInt =
      if n < 5 then 1000 * 2 ^ n else 30000 := by
  interval_cases n <;> rfl

/-- And after the next one. -/
theorem clamped_overflow (random : UInt32) :
    (keysetWait beyond 22 random).clamped.toInt = -100663296 := by
  have hshift : shiftedDelay beyond 22 = -100663296 := by
    unfold shiftedDelay
    rw [if_pos (by decide)]
    decide
  unfold keysetWait
  dsimp only
  rw [hshift, if_neg (by decide)]
  decide

/-! ### Runs -/

/-- The waits are those after no failure, after one, after two and so on. -/
structure Counts (beyond : Int32 → Int32) (s : KeysetRun) : Prop where
  waits : ∀ i w, s.waits[i]? = some w → ∃ random, w = keysetWait beyond (Int32.ofNat i) random
  attempts : s.slot.Waits → s.slot.attempts = Int32.ofNat s.waits.length

section Runs

variable {s : KeysetRun}

theorem Counts.step (h : Counts beyond s) (c : KeysetCall) : Counts beyond (s.step beyond c) := by
  by_cases hwaits : s.slot.Waits
  · obtain ⟨hwait, hnext⟩ := @ensure_of_waits beyond _ hwaits c
    have hlist : (s.step beyond c).waits =
        s.waits ++ [keysetWait beyond s.slot.attempts c.random] := by
      show s.waits ++ Option.toList _ = _
      rw [hwait]
      rfl
    refine ⟨fun i w hget => ?_, fun hagain => ?_⟩
    · rw [hlist] at hget
      by_cases hi : i < s.waits.length
      · rw [List.getElem?_append_left hi] at hget
        exact h.waits i w hget
      · -- the wait that is new
        obtain ⟨hlt, hget⟩ := List.getElem?_eq_some_iff.mp hget
        rw [List.length_append, List.length_singleton] at hlt
        obtain rfl : i = s.waits.length := by omega
        rw [List.getElem_concat_length rfl] at hget
        exact ⟨c.random, by rw [← hget, h.attempts hwaits]⟩
    · rw [hlist, List.length_append, List.length_singleton]
      refine (hnext hagain).trans ?_
      rw [h.attempts hwaits, Int32.ofNat_add]
      rfl
  · obtain ⟨hnone, hnot⟩ := @ensure_of_not beyond _ hwaits c
    have hlist : (s.step beyond c).waits = s.waits := by
      show s.waits ++ Option.toList _ = _
      rw [hnone, Option.toList_none, List.append_nil]
    exact ⟨hlist ▸ h.waits, fun hagain => absurd hagain hnot⟩

/-- Up to 22 waits are as they are meant to be. -/
theorem Counts.backOff (h : Counts beyond s) (hlength : s.waits.length ≤ 22) :
    BackOff s.waits := by
  refine ⟨fun w hw => ?_, List.pairwise_iff_getElem.mpr fun i j hi hj hij => ?_⟩
  · obtain ⟨i, hget⟩ := List.mem_iff_getElem?.mp hw
    have hi : i < s.waits.length := (List.getElem?_eq_some_iff.mp hget).1
    obtain ⟨random, rfl⟩ := h.waits i w hget
    have hclamped := @clamped_of_le beyond i (by omega) random
    have hrange : (1000 : ℤ) ≤ (if i < 5 then 1000 * 2 ^ i else 30000) ∧
        (if i < 5 then 1000 * 2 ^ i else 30000) ≤ (30000 : ℤ) := by
      split_ifs with hsmall
      · interval_cases i <;> decide
      · decide
    rw [← hclamped] at hrange
    rw [toInt_delayMs (by omega) (by omega)]
    show (1000 : ℤ) ≤ _ ∧ _ < (30000 : ℤ) + 500
    omega
  · obtain ⟨random, hwait⟩ := h.waits i _ (List.getElem?_eq_getElem hi)
    obtain ⟨random', hwait'⟩ := h.waits j _ (List.getElem?_eq_getElem hj)
    rw [hwait, hwait', clamped_of_le (show i ≤ 21 by omega), clamped_of_le (show j ≤ 21 by omega)]
    have hpow : i < 5 → (1000 : ℤ) * 2 ^ i ≤ 30000 := fun hi => by
      interval_cases i <;> decide
    split_ifs with hi' hj'
    · exact mul_le_mul_of_nonneg_left (pow_le_pow_right₀ (by decide) hij.le) (by decide)
    · exact hpow hi'
    · omega
    · exact le_rfl

/-- The next one is not. -/
theorem Counts.length_le (h : Counts beyond s) (hback : BackOff s.waits) :
    s.waits.length ≤ 22 := by
  by_contra hlength
  have hlt : 22 < s.waits.length := not_le.mp hlength
  obtain ⟨random, hwait⟩ := h.waits 22 _ (List.getElem?_eq_getElem hlt)
  have hbound := (hback.bounds _ (List.getElem_mem hlt)).1
  have hclamped := @clamped_overflow beyond random
  have hjitter : random.toNat % 500 < 500 := Nat.mod_lt _ (by decide)
  rw [hwait, show Int32.ofNat 22 = 22 from rfl, toInt_delayMs (by omega) (by omega),
    hclamped] at hbound
  have hbase : keysetBaseDelayMs.toInt = 1000 := rfl
  omega

/-- A call keeps the waits as they are meant to be, exactly if it does not wait or at most 21
failures came before it. -/
theorem Counts.step_iff (h : Counts beyond s) (hback : BackOff s.waits) (c : KeysetCall) :
    BackOff (s.step beyond c).waits ↔ (s.slot.Waits → s.slot.attempts ≤ 21) := by
  have hlength := h.length_le hback
  by_cases hwaits : s.slot.Waits
  · have hnext : (s.step beyond c).waits.length = s.waits.length + 1 := by
      show (s.waits ++ Option.toList _).length = _
      rw [(ensure_of_waits hwaits c).1, List.length_append]
      rfl
    have hattempts : s.slot.attempts ≤ 21 ↔ s.waits.length ≤ 21 := by
      rw [h.attempts hwaits]
      generalize s.waits.length = n at hlength
      interval_cases n <;> decide
    rw [forall_prop_of_true hwaits, hattempts]
    refine ⟨fun hstep => ?_, fun hle => (h.step c).backOff (by omega)⟩
    have hle := (h.step c).length_le hstep
    omega
  · have hsame : (s.step beyond c).waits = s.waits := by
      show s.waits ++ Option.toList _ = _
      rw [(ensure_of_not hwaits c).1, Option.toList_none, List.append_nil]
    exact iff_of_true (hsame ▸ hback) fun hagain => absurd hagain hwaits

theorem counts_start (w : CashuWallet) : Counts beyond (.start w) :=
  ⟨fun _ _ hget => absurd hget (by simp [KeysetRun.start]), fun _ => rfl⟩

end Runs

/-- **Back-off stays bounded** in all states of a run exactly if every call of it that waits comes
after at most 21 failures. -/
theorem keyset_backoff_iff (beyond : Int32 → Int32) (w : CashuWallet) (calls : List KeysetCall) :
    Always (KeysetRun.step beyond) (fun s => BackOff s.waits) (.start w) calls ↔
      AllSteps (KeysetRun.step beyond) (fun s _ => s.slot.Waits → s.slot.attempts ≤ 21)
        (.start w) calls := by
  have hcounts : ∀ calls, Counts beyond (run (KeysetRun.step beyond) (.start w) calls) :=
    run_induction (fun _ c h => h.step c) (counts_start w)
  have hstart : BackOff (KeysetRun.start w).waits := ⟨nofun, List.Pairwise.nil⟩
  -- the counts are right in every state, so that they may be added to the property
  rw [← always_iff (P := fun s => Counts beyond s ∧ BackOff s.waits) ?_ ⟨counts_start w, hstart⟩]
  · refine forall₂_congr fun front back => imp_congr_right fun _ => ?_
    exact (and_iff_right (hcounts front)).symm
  · rintro s c ⟨h, hback⟩
    exact (and_iff_right (h.step c)).trans (h.step_iff hback c)

/-- A wallet whose mint is not reached. -/
def unreachedWallet : CashuWallet := ⟨cstr "https://mint", [], false, []⟩

/-- After 22 failures the wait is negative. -/
theorem keyset_backoff_overflows :
    ¬BackOff (run (KeysetRun.step fun _ => 0) (.start unreachedWallet)
      (List.replicate 23 ⟨0, none⟩)).waits := by
  intro h
  have hwait := h.bounds ⟨-100663296, -100663296⟩ (by decide)
  exact absurd hwait.1 (by decide)

end Wallet

end TollGate
