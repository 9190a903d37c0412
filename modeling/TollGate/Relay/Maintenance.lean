import TollGate.Relay.Restart

/-!
# Maintenance of the store

`storage_cleanup_task` purges the store every minute and compacts its index every ten. A
reader passes over expired and deleted entries by itself, so that it makes no difference
whether this was done before: `maintenance_invisible`.

The argument is that of a reader which looks only at the live entries that are not over
(`Engine.current`) and at their files. A purge takes entries from the index that are over
already, and unlinks files of no others.
-/

namespace TollGate

namespace Relay

open TombstoneLog StepRun

/-- A turn of `storage_cleanup_task` at the store. -/
inductive Upkeep where
  | purge (now : UInt32)
  | compact

/-- The engine after the turn. -/
def Engine.upkeep (s : Engine) : Upkeep → Engine
  | .purge now => (s.purgeExpired now).1
  | .compact => s.compactIndex.1

/-- The clock at a purge was not ahead of `t`. -/
def Upkeep.Before (t : UInt32) : Upkeep → Prop
  | .purge now => now ≤ t
  | .compact => True

/-- The live entries whose time is not over. -/
def Engine.current (s : Engine) (t : UInt32) : List IndexEntry :=
  (live IndexEntry.deleted s.index).filter fun e => !e.expired t

theorem queryEventsJson_eq (s : Engine) (heap : CStr → List UInt8) (t : UInt32) (kind : Int32)
    (author : Option CStr) (limit : Int32) :
    s.queryEventsJson heap t kind author limit =
      (((s.current t).reverse.filter fun e => Engine.indexTest heap kind author e &&
        (s.readEvent e).isSome).take (Engine.clampLimit limit)).map fun e =>
          (s.files e.path).getD [] := by
  have hseen : (s.index.reverse.filter fun e => !e.deleted && !e.expired t) =
      (s.current t).reverse := by
    unfold Engine.current live
    rw [List.filter_filter, List.filter_reverse]
    simp only [Bool.and_comm]
  unfold Engine.queryEventsJson Engine.queryEntries
  rw [queryLoop_eq, hseen, List.map_map]
  rfl

/-- A reader looks at the current entries and their files. -/
theorem queryEventsJson_congr {s s' : Engine} {t : UInt32} (hcurrent : s'.current t = s.current t)
    (hfiles : ∀ e ∈ s'.current t, s'.files e.path = s.files e.path) (heap : CStr → List UInt8)
    (kind : Int32) (author : Option CStr) (limit : Int32) :
    s'.queryEventsJson heap t kind author limit = s.queryEventsJson heap t kind author limit := by
  have hread : ∀ e ∈ (s'.current t).reverse, s'.readEvent e = s.readEvent e := by
    intro e he
    unfold Engine.readEvent
    rw [hfiles e (List.mem_reverse.mp he)]
  rw [queryEventsJson_eq, queryEventsJson_eq, ← hcurrent,
    List.filter_congr fun e he => by rw [hread e he]]
  refine List.map_congr_left fun e he => ?_
  -- what is sent is the text in the file of a current entry
  have hmem : e ∈ s'.current t :=
    List.mem_reverse.mp (List.mem_filter.mp (List.mem_of_mem_take he)).1
  exact congrArg (fun text => text.getD []) (hfiles e hmem)

theorem upkeep_shrinks {s : Engine} (h : SoundIndex s.nextFileIndex.toNat s.index)
    (turn : Upkeep) : Shrinks s (s.upkeep turn) := by
  cases turn with
  | purge now => exact shrinks_purgeExpired h now
  | compact => exact shrinks_compactIndex h

/-- What is over at one time is over at every later time. -/
theorem expired_of_le {e : IndexEntry} {now t : UInt32} (hle : now ≤ t)
    (h : e.expired now = true) : e.expired t = true := by
  unfold IndexEntry.expired at h ⊢
  rw [Bool.and_eq_true, decide_eq_true_eq, decide_eq_true_eq] at h ⊢
  exact ⟨h.1, UInt32.lt_of_lt_of_le h.2 hle⟩

theorem current_upkeep (s : Engine) {t : UInt32} {turn : Upkeep} (hbefore : turn.Before t) :
    (s.upkeep turn).current t = s.current t := by
  unfold Engine.current
  cases turn with
  | purge now =>
    rw [show live IndexEntry.deleted (s.upkeep (.purge now)).index = _ from
      live_purgeExpired s now, List.filter_filter]
    refine List.filter_congr fun e _ => ?_
    -- a purged entry is over at the time of the query
    cases hpurges : Engine.purges now e with
    | false => simp
    | true =>
      unfold Engine.purges at hpurges
      rw [Bool.and_eq_true] at hpurges
      rw [expired_of_le hbefore hpurges.2]
      rfl
  | compact =>
    have hindex : (s.upkeep .compact).index = live IndexEntry.deleted s.index :=
      index_compactIndex s
    rw [hindex]
    unfold live
    rw [List.filter_filter, List.filter_filter, List.filter_filter]
    refine List.filter_congr fun e _ => ?_
    cases e.deleted <;> simp

/-- One turn leaves the current entries and their files. -/
theorem queryEventsJson_upkeep {s : Engine} (h : SoundIndex s.nextFileIndex.toNat s.index)
    {t : UInt32} {turn : Upkeep} (hbefore : turn.Before t) (heap : CStr → List UInt8)
    (kind : Int32) (author : Option CStr) (limit : Int32) :
    (s.upkeep turn).queryEventsJson heap t kind author limit =
      s.queryEventsJson heap t kind author limit := by
  refine queryEventsJson_congr (current_upkeep s hbefore) ?_ heap kind author limit
  intro e he
  exact ((upkeep_shrinks h turn).left e (List.mem_filter.mp he).1).2

theorem queryEventsJson_upkeeps {s : Engine} (h : SoundIndex s.nextFileIndex.toNat s.index)
    {t : UInt32} {turns : List Upkeep} (hbefore : ∀ turn ∈ turns, turn.Before t)
    (heap : CStr → List UInt8) (kind : Int32) (author : Option CStr) (limit : Int32) :
    (run Engine.upkeep s turns).queryEventsJson heap t kind author limit =
      s.queryEventsJson heap t kind author limit := by
  induction turns generalizing s with
  | nil => rfl
  | cons turn turns ih =>
    have hshrinks := upkeep_shrinks h turn
    rw [run_cons, ih (hshrinks.next ▸ hshrinks.sound)
      fun turn' hturn' => hbefore turn' (List.mem_cons_of_mem turn hturn')]
    exact queryEventsJson_upkeep h (hbefore turn List.mem_cons_self) heap kind author limit

/-- **Maintenance is invisible.** In every store that a run of calls and restarts with fewer
than `2 ^ 32` saves leads to, a query has the same answer whether purges, at times that are
not later, and compactions were done before it or not. -/
theorem maintenance_invisible (spiram : Bool) (defaultTtlSec : UInt32) (ops : List DeviceOp)
    (hcount : (run Device.step (Device.new spiram defaultTtlSec) ops).store.saved.length <
      2 ^ 32) (turns : List Upkeep) (t : UInt32) (hbefore : ∀ turn ∈ turns, turn.Before t)
    (heap : CStr → List UInt8) (kind : Int32) (author : Option CStr) (limit : Int32) :
    let s := (run Device.step (Device.new spiram defaultTtlSec) ops).engine
    (run Engine.upkeep s turns).queryEventsJson heap t kind author limit =
      s.queryEventsJson heap t kind author limit :=
  queryEventsJson_upkeeps (consistent_device spiram defaultTtlSec ops hcount).sound hbefore heap
    kind author limit

/-- The entry of the second event in the worn store. -/
def twinEntry : IndexEntry :=
  { IndexEntry.zero with
    eventId := (parseEventMeta (fun _ => []) twinEvent).id
    expiresAt := 150 }

/-- Two entries of one path, the first of which is over. -/
theorem purge_twinEvent {s : Engine} (hindex : s.index = [zeroEntry, twinEntry])
    (hfile : s.files twinEntry.path = some twinEvent) :
    s.queryEventsJson (fun _ => []) 120 0 none 1 = [twinEvent] ∧
      (s.upkeep (.purge 120)).queryEventsJson (fun _ => []) 120 0 none 1 = [] := by
  have hpath : twinEntry.path = zeroEntry.path := by decide
  have hpurged : [zeroEntry, twinEntry].filter (Engine.purges 120) = [zeroEntry] := by
    decide
  have hcurrent : s.current 120 = [twinEntry] := by
    unfold Engine.current
    rw [hindex]
    decide
  have hbefore : (Upkeep.purge 120).Before 120 := UInt32.le_refl 120
  -- the file that is unlinked with the first entry is the second one's
  have hfile' : (s.upkeep (.purge 120)).files twinEntry.path = none := by
    rw [show (s.upkeep (.purge 120)).files = _ from (purgeExpired_fields s 120).2.2.2, hindex,
      hpurged, List.foldl_cons, List.foldl_nil, hpath]
    exact Function.update_self _ _ _
  have hread : s.readEvent twinEntry = some twinEvent := by
    unfold Engine.readEvent
    rw [hfile]
    exact if_neg (by decide)
  have hread' : (s.upkeep (.purge 120)).readEvent twinEntry = none := by
    unfold Engine.readEvent
    rw [hfile']
  rw [queryEventsJson_eq, queryEventsJson_eq, current_upkeep s hbefore, hcurrent]
  refine ⟨?_, ?_⟩
  · rw [List.reverse_singleton, List.filter_cons_of_pos (by rw [hread]; rfl), List.filter_nil]
    exact congrArg (fun file => [file.getD []]) hfile
  · rw [List.reverse_singleton, List.filter_cons_of_neg (by simp [hread'])]
    rfl

theorem engine_step_save (d : Device) (heap : CStr → List UInt8) (now : UInt32) (opened : Bool)
    (json : CStr) : (d.step (.call (.save heap now opened json))).engine =
      (d.engine.saveEventJson heap now opened json).1 := rfl

/-- When the file numbers begin again, a purge takes the file of another event. -/
theorem purge_visible :
    (run Device.step (Device.new true 100)
        (wornStore ++ [.call (.save (fun _ => []) 50 true twinEvent)])).engine.queryEventsJson
          (fun _ => []) 120 0 none 1 = [twinEvent] ∧
      ((run Device.step (Device.new true 100)
        (wornStore ++ [.call (.save (fun _ => []) 50 true twinEvent)])).engine.upkeep
          (.purge 120)).queryEventsJson (fun _ => []) 120 0 none 1 = [] := by
  obtain ⟨hindex, hnext, hmax, httl⟩ := run_wornStore
  rw [run_concat, engine_step_save]
  generalize (run Device.step (Device.new true 100) wornStore).engine = s
    at hindex hnext hmax httl ⊢
  have hentry : s.newEntry (fun _ => []) 50 twinEvent = twinEntry := by
    unfold Engine.newEntry
    rw [httl, hnext]
    decide
  obtain ⟨hok, -⟩ := saved_twinEvent hindex hnext hmax
  rcases saveEventJson_cases s (fun _ => []) 50 true twinEvent with
    ⟨-, herr⟩ | ⟨-, -, -, -, hindex', -, -, hfiles'⟩
  · exact absurd hok herr
  rw [hentry, hindex] at hindex'
  rw [hentry] at hfiles'
  exact purge_twinEvent hindex' ((congrFun hfiles' _).trans (Function.update_self _ _ _))

/-- A store with two events, one of which is over at the time 120. -/
def halfExpired : List DeviceOp :=
  [.call (.save (fun _ => []) 5 true zeroEvent), .call (.save (fun _ => []) 60 true marker)]

theorem maintenance_invisible_halfExpired :
    (run Device.step (Device.new true 100) halfExpired).engine.queryEventsJson (fun _ => []) 120 0
        none 10 = [marker] ∧
      (run Engine.upkeep (run Device.step (Device.new true 100) halfExpired).engine
        [.purge 110, .compact]).queryEventsJson (fun _ => []) 120 0 none 10 = [marker] := by
  have hquery : (run Device.step (Device.new true 100) halfExpired).engine.queryEventsJson
      (fun _ => []) 120 0 none 10 = [marker] := by
    decide
  have hsaved : (run Device.step (Device.new true 100) halfExpired).store.saved.length = 2 := by
    decide
  refine ⟨hquery, ?_⟩
  rw [maintenance_invisible true 100 halfExpired (by rw [hsaved]; norm_num) [.purge 110, .compact]
    120 (by simp [Upkeep.Before])]
  exact hquery

end Relay

end TollGate
