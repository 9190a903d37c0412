import TollGate.Firmware.Services

/-!
# The uplink and the services

The Wi-Fi and IP event handlers of `tollgate_main.c`, with the flags and the
function-static task handle they decide by. Getting an address spawns the task that
runs `start_services`, unless the handle says that it was spawned before; losing the
connection or the address runs `stop_services`. Without a configured network `app_main`
spawns a task of its own at its end, the fallback, which runs `start_services` too.
`Uplink.step` is the machine of these events, the ends of the two tasks and everything
that happens inside the device meanwhile; on the tables and service flags each of its
steps is one of `Firmware.step`, or none (`Uplink.reach_firmware`).

The handle is never cleared, so the task is spawned once per boot, and `app_main` ends
once. The state after any run is therefore read off three facts about the history of each
task (`Uplink.reach_tracks`): it was spawned, it has finished, the services were stopped
afterwards. `Uplink.services_come_iff` follows: every got-IP event finds the services
running or coming up exactly if none of them comes after such a stop, and the first
attempt to spawn the task succeeds, unless the services of the fallback are up. After the
stop nothing brings the services back (`Uplink.services_never_return`); an uplink that
drops once and reconnects is enough (`Uplink.reconnect_without_services`).
-/

namespace TollGate

/-- The event comes from the handlers of the station, not from the device itself. -/
def Firmware.Event.ofStation : Firmware.Event → Bool
  | .startServices => true
  | .stopServices => true
  | _ => false

/-- `MAX_STA_RETRY`. -/
def maxStaRetry : ℕ := 5

/-- The state that the event handlers of `tollgate_main.c` share. -/
structure Uplink where
  firmware : Firmware
  /-- `s_svc_task` is not `NULL`. -/
  svcTask : Bool
  /-- `services_start_task` was spawned and has not finished. -/
  starting : Bool
  /-- `s_retry_count`. -/
  retryCount : ℕ
  /-- `s_sta_connecting`. -/
  staConnecting : Bool
  /-- `app_main` has come to its last loop. -/
  booted : Bool
  /-- The task `svc_start_fb` was spawned and has not finished. -/
  fallbackStarting : Bool

namespace Uplink

open StepRun

/-- What happens to the uplink. -/
inductive Event where
  /-- `WIFI_EVENT_STA_START`. -/
  | staStart
  /-- `IP_EVENT_STA_GOT_IP`, with the success of `xTaskCreate` if it comes to it. -/
  | gotIp (created : Bool)
  /-- `WIFI_EVENT_STA_DISCONNECTED`, with the success of `tollgate_config_get_next_wifi`. -/
  | staDisconnected (nextNetwork : Bool)
  /-- `IP_EVENT_STA_LOST_IP`. -/
  | lostIp
  /-- `services_start_task` has run `start_services` and deletes itself. -/
  | startTaskDone
  /-- The end of `app_main`, with the success of `tollgate_config_get_wifi`, and of
  `xTaskCreate` if it comes to it. -/
  | bootDone (configured created : Bool)
  /-- `svc_start_fb` has run `start_services` and deletes itself. -/
  | fallbackDone
  /-- The access point, the portal and the sessions go on meanwhile. -/
  | device (ev : {ev : Firmware.Event // ev.ofStation = false})

/-- Power-on. -/
def boot : Uplink := ⟨.boot, false, false, 0, false, false, false⟩

/-- The got-IP branch of `ip_event_handler`. -/
def ipGotHandler (s : Uplink) (created : Bool) : Uplink :=
  let s := { s with retryCount := 0 }
  if s.svcTask then s
  -- a failed `xTaskCreate` leaves the handle `NULL`
  else if created then { s with svcTask := true, starting := true }
  else s

/-- The disconnect branch of `wifi_event_handler`. -/
def staDisconnectedHandler (s : Uplink) (nextNetwork : Bool) : Uplink :=
  let s := { s with retryCount := s.retryCount + 1, staConnecting := false }
  let s :=
    if s.firmware.servicesRunning then { s with firmware := s.firmware.stopServices } else s
  if s.retryCount < maxStaRetry then { s with staConnecting := true }
  else if nextNetwork then { s with retryCount := 0, staConnecting := true }
  else s

/-- The last lines of `app_main` in front of its loop, which are run once. The handle of the task
is not kept. -/
def appMainEnd (s : Uplink) (configured created : Bool) : Uplink :=
  if s.booted then s
  else { s with booted := true, fallbackStarting := !configured && created }

/-- One event. -/
def step (s : Uplink) : Event → Uplink
  | .staStart => if s.staConnecting then s else { s with staConnecting := true }
  | .gotIp created => s.ipGotHandler created
  | .staDisconnected nextNetwork => s.staDisconnectedHandler nextNetwork
  | .lostIp => { s with firmware := s.firmware.stopServices }
  | .startTaskDone =>
    if s.starting then { s with firmware := s.firmware.startServices, starting := false } else s
  | .bootDone configured created => s.appMainEnd configured created
  | .fallbackDone =>
    if s.fallbackStarting then
      { s with firmware := s.firmware.startServices, fallbackStarting := false }
    else s
  | .device ev => { s with firmware := s.firmware.step ev.1 }

/-- The state after a run of events from power-on. -/
def reach (evs : List Event) : Uplink := run step boot evs

theorem reach_concat (evs : List Event) (ev : Event) : reach (evs ++ [ev]) = (reach evs).step ev :=
  run_concat step boot evs ev

/-- The services are running, or the task of the handler that starts them is on its way. -/
def ServicesComing (s : Uplink) : Prop :=
  s.firmware.servicesRunning = true ∨ s.starting = true

/-! ### The history -/

/-- The event runs `stop_services`. -/
def Event.stops : Event → Bool
  | .staDisconnected _ => true
  | .lostIp => true
  | _ => false

/-- A got-IP event found the task could be spawned. -/
def Spawned (evs : List Event) : Prop := Occurs (fun _ ev => ev = .gotIp true) evs

/-- The spawned task has finished. -/
def Started (evs : List Event) : Prop :=
  Occurs (fun front ev => ev = .startTaskDone ∧ Spawned front) evs

/-- The services were stopped after they had been started. -/
def Stopped (evs : List Event) : Prop :=
  Occurs (fun front ev => ev.stops = true ∧ Started front) evs

/-- `app_main` has come to its end. -/
def Booted (evs : List Event) : Prop :=
  Occurs (fun _ ev => ∃ configured created, ev = .bootDone configured created) evs

/-- `app_main` spawned the fallback when it came to its end. -/
def FallbackSpawned (evs : List Event) : Prop :=
  Occurs (fun front ev => ev = .bootDone false true ∧ ¬ Booted front) evs

/-- The fallback has finished. -/
def FallbackStarted (evs : List Event) : Prop :=
  Occurs (fun front ev => ev = .fallbackDone ∧ FallbackSpawned front) evs

/-- The services were stopped after the fallback had started them. -/
def FallbackStopped (evs : List Event) : Prop :=
  Occurs (fun front ev => ev.stops = true ∧ FallbackStarted front) evs

/-- The fallback has started the services, and they were not stopped since. -/
def FallbackUp (evs : List Event) : Prop := FallbackStarted evs ∧ ¬ FallbackStopped evs

theorem Started.spawned {evs : List Event} (h : Started evs) : Spawned evs := by
  obtain ⟨front, ev, back, rfl, -, hfront⟩ := h
  exact hfront.append (ev :: back)

theorem Stopped.started {evs : List Event} (h : Stopped evs) : Started evs := by
  obtain ⟨front, ev, back, rfl, -, hfront⟩ := h
  exact hfront.append (ev :: back)

theorem FallbackSpawned.booted {evs : List Event} (h : FallbackSpawned evs) : Booted evs := by
  obtain ⟨front, ev, back, rfl, rfl, -⟩ := h
  exact ⟨front, .bootDone false true, back, rfl, false, true, rfl⟩

theorem FallbackStarted.spawned {evs : List Event} (h : FallbackStarted evs) :
    FallbackSpawned evs := by
  obtain ⟨front, ev, back, rfl, -, hfront⟩ := h
  exact hfront.append (ev :: back)

theorem FallbackStopped.started {evs : List Event} (h : FallbackStopped evs) :
    FallbackStarted evs := by
  obtain ⟨front, ev, back, rfl, -, hfront⟩ := h
  exact hfront.append (ev :: back)

/-! ### One more event -/

section Histories

variable {evs : List Event} {ev : Event}

theorem spawned_concat : Spawned (evs ++ [ev]) ↔ Spawned evs ∨ ev = .gotIp true := occurs_concat

theorem started_concat :
    Started (evs ++ [ev]) ↔ Started evs ∨ ev = .startTaskDone ∧ Spawned evs := occurs_concat

theorem stopped_concat :
    Stopped (evs ++ [ev]) ↔ Stopped evs ∨ ev.stops = true ∧ Started evs := occurs_concat

theorem booted_concat :
    Booted (evs ++ [ev]) ↔ Booted evs ∨ ∃ configured created, ev = .bootDone configured created :=
  occurs_concat

theorem fallbackSpawned_concat :
    FallbackSpawned (evs ++ [ev]) ↔
      FallbackSpawned evs ∨ ev = .bootDone false true ∧ ¬ Booted evs := occurs_concat

theorem fallbackStarted_concat :
    FallbackStarted (evs ++ [ev]) ↔
      FallbackStarted evs ∨ ev = .fallbackDone ∧ FallbackSpawned evs := occurs_concat

theorem fallbackStopped_concat :
    FallbackStopped (evs ++ [ev]) ↔
      FallbackStopped evs ∨ ev.stops = true ∧ FallbackStarted evs := occurs_concat

end Histories

/-! ### What a step does to the flags -/

section Steps

variable (s : Uplink)

@[simp] theorem servicesRunning_startServices (f : Firmware) :
    f.startServices.servicesRunning = true := by
  unfold Firmware.startServices
  split
  · next h => exact h
  · rfl

@[simp] theorem servicesRunning_stopServices (f : Firmware) :
    f.stopServices.servicesRunning = false := by
  unfold Firmware.stopServices
  split
  · next h => simpa using h
  · rfl

theorem stopServices_of_not_running {f : Firmware} (h : f.servicesRunning = false) :
    f.stopServices = f := by
  unfold Firmware.stopServices
  rw [h]
  rfl

/-- Nothing inside the device starts or stops the services. -/
theorem servicesRunning_device (f : Firmware) {ev : Firmware.Event} (h : ev.ofStation = false) :
    (f.step ev).servicesRunning = f.servicesRunning := by
  cases ev with
  | apStart =>
    change f.startApServices.servicesRunning = _
    unfold Firmware.startApServices
    split <;> rfl
  | startServices => exact absurd h nofun
  | stopServices => exact absurd h nofun
  | grantAccess m ip =>
    simp only [Firmware.step]
    split <;> rfl
  | resetAuthentication =>
    simp only [Firmware.step]
    split <;> rfl
  | share posted env ip sh => rfl
  | session op => rfl

/-- The disconnect handler, on the flags that matter here: `stop_services` changes nothing
when the services are not running, so its guard may be dropped. -/
theorem staDisconnectedHandler_flags (nextNetwork : Bool) :
    (s.staDisconnectedHandler nextNetwork).firmware = s.firmware.stopServices ∧
      (s.staDisconnectedHandler nextNetwork).svcTask = s.svcTask ∧
      (s.staDisconnectedHandler nextNetwork).starting = s.starting ∧
      (s.staDisconnectedHandler nextNetwork).booted = s.booted ∧
      (s.staDisconnectedHandler nextNetwork).fallbackStarting = s.fallbackStarting := by
  unfold staDisconnectedHandler
  dsimp only
  cases hrun : s.firmware.servicesRunning with
  | false =>
    rw [stopServices_of_not_running hrun]
    simp only [Bool.false_eq_true, if_false]
    split_ifs <;> exact ⟨rfl, rfl, rfl, rfl, rfl⟩
  | true =>
    simp only [if_true]
    split_ifs <;> exact ⟨rfl, rfl, rfl, rfl, rfl⟩

/-- A step acts on the tables and service flags as at most one event of the firmware. -/
theorem step_firmware (ev : Event) :
    (s.step ev).firmware = s.firmware ∨ ∃ fev, (s.step ev).firmware = s.firmware.step fev := by
  cases ev with
  | staStart =>
    refine Or.inl ?_
    simp only [step]
    split <;> rfl
  | gotIp created =>
    refine Or.inl ?_
    simp only [step, ipGotHandler]
    split_ifs <;> rfl
  | staDisconnected nextNetwork =>
    exact Or.inr ⟨.stopServices, (s.staDisconnectedHandler_flags nextNetwork).1⟩
  | lostIp => exact Or.inr ⟨.stopServices, rfl⟩
  | startTaskDone =>
    simp only [step]
    split
    · exact Or.inr ⟨.startServices, rfl⟩
    · exact Or.inl rfl
  | bootDone configured created =>
    refine Or.inl ?_
    simp only [step, appMainEnd]
    split <;> rfl
  | fallbackDone =>
    simp only [step]
    split
    · exact Or.inr ⟨.startServices, rfl⟩
    · exact Or.inl rfl
  | device ev => exact Or.inr ⟨ev.1, rfl⟩

end Steps

/-- **The machine of the uplink is one of the firmware's.** What it does to the tables
and the service flags is a run of firmware events. -/
theorem reach_firmware (evs : List Event) :
    ∃ fevs, (reach evs).firmware = Firmware.reach fevs := by
  refine run_induction (P := fun s : Uplink => ∃ fevs, s.firmware = Firmware.reach fevs) ?_
    ⟨[], rfl⟩ evs
  rintro s ev ⟨fevs, hf⟩
  obtain h | ⟨fev, h⟩ := s.step_firmware ev
  · exact ⟨fevs, h.trans hf⟩
  · exact ⟨fevs ++ [fev], by rw [h, hf, Firmware.reach_snoc]⟩

/-! ### The state is the history -/

/-- The flags say what has happened so far. The services may have been started by either task, and
a stop counts against a task that has finished before it. -/
structure Tracks (evs : List Event) (s : Uplink) : Prop where
  svcTask : s.svcTask = true ↔ Spawned evs
  starting : s.starting = true ↔ Spawned evs ∧ ¬ Started evs
  booted : s.booted = true ↔ Booted evs
  fallback : s.fallbackStarting = true ↔ FallbackSpawned evs ∧ ¬ FallbackStarted evs
  running : s.firmware.servicesRunning = true ↔ (Started evs ∧ ¬ Stopped evs) ∨ FallbackUp evs

variable {evs : List Event} {s : Uplink}

theorem Tracks.boot : Tracks [] boot where
  svcTask := iff_of_false nofun not_occurs_nil
  starting := iff_of_false nofun fun h => not_occurs_nil h.1
  booted := iff_of_false nofun not_occurs_nil
  fallback := iff_of_false nofun fun h => not_occurs_nil h.1
  running := iff_of_false nofun fun h => h.elim (fun h => not_occurs_nil h.1)
    fun h => not_occurs_nil h.1

/-- What is to be shown for one more event: each flag against the history with the event behind
it. -/
theorem Tracks.concat {ev : Event} {s' : Uplink}
    (htask : s'.svcTask = true ↔ Spawned evs ∨ ev = .gotIp true)
    (hstarting : s'.starting = true ↔ (Spawned evs ∨ ev = .gotIp true) ∧
      ¬ (Started evs ∨ ev = .startTaskDone ∧ Spawned evs))
    (hbooted : s'.booted = true ↔
      Booted evs ∨ ∃ configured created, ev = .bootDone configured created)
    (hfallback : s'.fallbackStarting = true ↔
      (FallbackSpawned evs ∨ ev = .bootDone false true ∧ ¬ Booted evs) ∧
        ¬ (FallbackStarted evs ∨ ev = .fallbackDone ∧ FallbackSpawned evs))
    (hrunning : s'.firmware.servicesRunning = true ↔
      (Started evs ∨ ev = .startTaskDone ∧ Spawned evs) ∧
          ¬ (Stopped evs ∨ ev.stops = true ∧ Started evs) ∨
        (FallbackStarted evs ∨ ev = .fallbackDone ∧ FallbackSpawned evs) ∧
          ¬ (FallbackStopped evs ∨ ev.stops = true ∧ FallbackStarted evs)) :
    Tracks (evs ++ [ev]) s' where
  svcTask := by rw [htask, spawned_concat]
  starting := by rw [hstarting, spawned_concat, started_concat]
  booted := by rw [hbooted, booted_concat]
  fallback := by rw [hfallback, fallbackSpawned_concat, fallbackStarted_concat]
  running := by
    rw [hrunning, FallbackUp, started_concat, stopped_concat, fallbackStarted_concat,
      fallbackStopped_concat]

/-- An event that none of the facts is about. -/
theorem Tracks.idle (h : Tracks evs s) (ev : Event) (hspawn : ev ≠ .gotIp true)
    (hdone : ev ≠ .startTaskDone) (hstop : ev.stops = false)
    (hboot : ∀ configured created, ev ≠ .bootDone configured created)
    (hfallback : ev ≠ .fallbackDone) {s' : Uplink} (htask : s'.svcTask = s.svcTask)
    (hstarting : s'.starting = s.starting) (hbooted : s'.booted = s.booted)
    (hfalling : s'.fallbackStarting = s.fallbackStarting)
    (hrun : s'.firmware.servicesRunning = s.firmware.servicesRunning) :
    Tracks (evs ++ [ev]) s' := by
  refine .concat ?_ ?_ ?_ ?_ ?_ <;>
    simp only [hspawn, hdone, hstop, hboot, hfallback, exists_false, or_false, false_and,
      Bool.false_eq_true]
  · rw [htask, h.svcTask]
  · rw [hstarting, h.starting]
  · rw [hbooted, h.booted]
  · rw [hfalling, h.fallback]
  · rw [hrun, h.running, FallbackUp]

/-- An event that stops the services: whatever had been started is stopped. -/
theorem Tracks.stop (h : Tracks evs s) {ev : Event} (hstop : ev.stops = true) {s' : Uplink}
    (htask : s'.svcTask = s.svcTask) (hstarting : s'.starting = s.starting)
    (hbooted : s'.booted = s.booted) (hfalling : s'.fallbackStarting = s.fallbackStarting)
    (hrun : s'.firmware.servicesRunning = false) : Tracks (evs ++ [ev]) s' := by
  have hspawn : ev ≠ .gotIp true := by rintro rfl; exact absurd hstop nofun
  have hdone : ev ≠ .startTaskDone := by rintro rfl; exact absurd hstop nofun
  have hfallback : ev ≠ .fallbackDone := by rintro rfl; exact absurd hstop nofun
  have hboot : ∀ configured created, ev ≠ .bootDone configured created := by
    rintro configured created rfl
    exact absurd hstop nofun
  refine .concat ?_ ?_ ?_ ?_ ?_ <;>
    simp only [hspawn, hdone, hstop, hboot, hfallback, exists_false, or_false, false_and, true_and]
  · rw [htask, h.svcTask]
  · rw [hstarting, h.starting]
  · rw [hbooted, h.booted]
  · rw [hfalling, h.fallback]
  · rw [hrun]
    refine iff_of_false Bool.false_ne_true ?_
    rintro (⟨hstart, hnot⟩ | ⟨hstart, hnot⟩)
    · exact hnot (Or.inr hstart)
    · exact hnot (Or.inr hstart)

/-- The task of the handler is spawned, where it was not spawned before. -/
theorem Tracks.spawn (h : Tracks evs s) :
    Tracks (evs ++ [.gotIp true]) (s.ipGotHandler true) := by
  have hback : Started evs → Spawned evs := Started.spawned
  refine .concat ?_ ?_ ?_ ?_ ?_ <;>
    simp only [Event.stops, reduceCtorEq, exists_false, or_false, or_true, false_and, true_and,
      ipGotHandler]
  · split
    · next htask => exact iff_of_true htask trivial
    · exact iff_of_true rfl trivial
  · split
    · next htask => exact h.starting.trans (and_iff_right (h.svcTask.mp htask))
    · next htask =>
      -- a task that was never spawned has not finished
      exact iff_of_true rfl fun hstart => htask (h.svcTask.mpr (hback hstart))
  · split <;> exact h.booted
  · split <;> exact h.fallback
  · split <;> exact h.running

/-- The task of the handler has finished. -/
theorem Tracks.done (h : Tracks evs s) :
    Tracks (evs ++ [.startTaskDone]) (s.step .startTaskDone) := by
  have hback : Started evs → Spawned evs := Started.spawned
  have hstart : Stopped evs → Started evs := Stopped.started
  have hstarting := h.starting
  have hrunning := h.running
  rw [FallbackUp] at hrunning
  refine .concat ?_ ?_ ?_ ?_ ?_ <;>
    simp only [Event.stops, reduceCtorEq, exists_false, or_false, false_and, true_and,
      Bool.false_eq_true, Uplink.step]
  · split <;> exact h.svcTask
  · split
    · exact iff_of_false Bool.false_ne_true fun hb => hb.2 (Or.inr hb.1)
    · next hnot =>
      -- no task is on its way: it has finished before, or was never spawned
      rw [hstarting] at hnot ⊢
      tauto
  · split <;> exact h.booted
  · split <;> exact h.fallback
  · split
    · next hset =>
      obtain ⟨hspawn, hnot⟩ := hstarting.mp hset
      exact iff_of_true (servicesRunning_startServices _)
        (Or.inl ⟨Or.inr hspawn, fun hstop => hnot (hstart hstop)⟩)
    · next hnot =>
      rw [hstarting] at hnot
      rw [hrunning]
      tauto

/-- The end of `app_main`, which comes once. -/
theorem Tracks.bootDone (h : Tracks evs s) (configured created : Bool) :
    Tracks (evs ++ [.bootDone configured created]) (s.appMainEnd configured created) := by
  have hback : FallbackSpawned evs → Booted evs := FallbackSpawned.booted
  have hstart : FallbackStarted evs → FallbackSpawned evs := FallbackStarted.spawned
  have hbooted := h.booted
  have hfallback := h.fallback
  refine .concat ?_ ?_ ?_ ?_ ?_ <;>
    simp only [Event.stops, reduceCtorEq, or_false, false_and, Bool.false_eq_true,
      Event.bootDone.injEq, appMainEnd]
  · split <;> exact h.svcTask
  · split <;> exact h.starting
  · split
    · next hset => exact iff_of_true hset (Or.inr ⟨configured, created, rfl, rfl⟩)
    · exact iff_of_true rfl (Or.inr ⟨configured, created, rfl, rfl⟩)
  · split
    · next hset =>
      rw [hfallback]
      have hboot := hbooted.mp hset
      tauto
    · next hset =>
      have hboot : ¬ Booted evs := fun hb => hset (hbooted.mpr hb)
      rw [Bool.and_eq_true, Bool.not_eq_true']
      tauto
  · split <;> exact h.running

/-- The fallback has finished. -/
theorem Tracks.fallbackDone (h : Tracks evs s) :
    Tracks (evs ++ [.fallbackDone]) (s.step .fallbackDone) := by
  have hback : FallbackStarted evs → FallbackSpawned evs := FallbackStarted.spawned
  have hstart : FallbackStopped evs → FallbackStarted evs := FallbackStopped.started
  have hfallback := h.fallback
  have hrunning := h.running
  rw [FallbackUp] at hrunning
  refine .concat ?_ ?_ ?_ ?_ ?_ <;>
    simp only [Event.stops, reduceCtorEq, exists_false, or_false, false_and, true_and,
      Bool.false_eq_true, Uplink.step]
  · split <;> exact h.svcTask
  · split <;> exact h.starting
  · split <;> exact h.booted
  · split
    · exact iff_of_false Bool.false_ne_true fun hb => hb.2 (Or.inr hb.1)
    · next hnot =>
      rw [hfallback] at hnot ⊢
      tauto
  · split
    · next hset =>
      obtain ⟨hspawn, hnot⟩ := hfallback.mp hset
      exact iff_of_true (servicesRunning_startServices _)
        (Or.inr ⟨Or.inr hspawn, fun hstop => hnot (hstart hstop)⟩)
    · next hnot =>
      rw [hfallback] at hnot
      rw [hrunning]
      tauto

theorem Tracks.step (h : Tracks evs s) (ev : Event) : Tracks (evs ++ [ev]) (s.step ev) := by
  cases ev with
  | staStart =>
    refine h.idle .staStart nofun nofun rfl nofun nofun ?_ ?_ ?_ ?_ ?_ <;>
      simp only [Uplink.step] <;> split <;> rfl
  | gotIp created =>
    cases created with
    | true => exact h.spawn
    | false =>
      refine h.idle (.gotIp false) nofun nofun rfl nofun nofun ?_ ?_ ?_ ?_ ?_ <;>
        simp only [Uplink.step, ipGotHandler] <;> split <;> rfl
  | staDisconnected nextNetwork =>
    obtain ⟨hf, htask, hstarting, hbooted, hfalling⟩ := s.staDisconnectedHandler_flags nextNetwork
    refine h.stop rfl htask hstarting hbooted hfalling ?_
    change (s.staDisconnectedHandler nextNetwork).firmware.servicesRunning = false
    rw [hf, servicesRunning_stopServices]
  | lostIp => exact h.stop rfl rfl rfl rfl rfl (servicesRunning_stopServices _)
  | startTaskDone => exact h.done
  | bootDone configured created => exact h.bootDone configured created
  | fallbackDone => exact h.fallbackDone
  | device ev =>
    exact h.idle (.device ev) nofun nofun rfl nofun nofun rfl rfl rfl rfl
      (servicesRunning_device s.firmware ev.2)

theorem reach_tracks (evs : List Event) : Tracks evs (reach evs) :=
  run_history (P := Tracks) Tracks.boot (fun _ ev h => h.step ev) evs

/-! ### Reconnecting -/

/-- What a got-IP event leaves. -/
theorem servicesComing_gotIp_iff (pre : List Event) (created : Bool) :
    ServicesComing (reach (pre ++ [.gotIp created])) ↔
      FallbackUp pre ∨ ¬ Stopped pre ∧ (Spawned pre ∨ created = true) := by
  have h := reach_tracks (pre ++ [.gotIp created])
  unfold ServicesComing
  rw [h.running, h.starting]
  simp only [FallbackUp, spawned_concat, started_concat, stopped_concat, fallbackStarted_concat,
    fallbackStopped_concat, Event.stops, reduceCtorEq, or_false, false_and, Bool.false_eq_true,
    Event.gotIp.injEq]
  -- what was stopped had been started, and what was started had been spawned
  have hback : Stopped pre → Started pre := Stopped.started
  have hfront : Started pre → Spawned pre := Started.spawned
  tauto

/-- **When the services come back with the uplink.** Along every run of events: after
every got-IP event the services are running or coming up, if and only if no got-IP event
comes after the services were stopped, and every one before the first spawned task gets
its task; one that finds the services of the fallback running needs neither. -/
theorem services_come_iff (evs : List Event) :
    (∀ (pre post : List Event) (created : Bool), evs = pre ++ .gotIp created :: post →
      ServicesComing (reach (pre ++ [.gotIp created]))) ↔
    (∀ (pre post : List Event) (created : Bool), evs = pre ++ .gotIp created :: post →
      FallbackUp pre ∨ ¬ Stopped pre ∧ (Spawned pre ∨ created = true)) := by
  refine forall_congr' fun pre => forall_congr' fun post => forall_congr' fun created => ?_
  exact imp_congr_right fun _ => servicesComing_gotIp_iff pre created

/-- **Stopped services stay stopped.** After `stop_services` no run of events, however
many addresses the station gets, starts them again. The fallback has been stopped too, or
is never spawned. -/
theorem services_never_return {pre post : List Event} (h : Stopped pre)
    (hfallback : FallbackStopped pre ∨ ¬ FallbackSpawned (pre ++ post)) :
    ¬ ServicesComing (reach (pre ++ post)) := by
  have hstopped : Stopped (pre ++ post) := h.append post
  have hdown : ¬ FallbackUp (pre ++ post) := by
    rintro ⟨hstart, hnot⟩
    rcases hfallback with hstop | hnever
    · exact hnot (hstop.append post)
    · exact hnever hstart.spawned
  have htracks := reach_tracks (pre ++ post)
  unfold ServicesComing
  rw [htracks.running, htracks.starting]
  rintro ((⟨-, hnot⟩ | hup) | ⟨-, hnot⟩)
  · exact hnot hstopped
  · exact hdown hup
  · exact hnot hstopped.started

/-- The uplink comes up, the services start, the station loses its connection for a
moment and gets its address again: no task is spawned and no service runs. -/
theorem reconnect_without_services :
    ¬ ∀ (evs pre post : List Event) (created : Bool), evs = pre ++ .gotIp created :: post →
      ServicesComing (reach (pre ++ [.gotIp created])) := by
  intro h
  have hcoming := h _ [.gotIp true, .startTaskDone, .staDisconnected false] [] true rfl
  refine services_never_return ?_ (Or.inr ?_) hcoming
  · refine ⟨[.gotIp true, .startTaskDone], .staDisconnected false, [], rfl, rfl, ?_⟩
    exact ⟨[.gotIp true], .startTaskDone, [], rfl, rfl, [], .gotIp true, [], rfl, rfl⟩
  · -- `app_main` does not come to its end in this run
    rintro ⟨front, ev, back, hevs, rfl, -⟩
    have hmem : Event.bootDone false true ∈ front ++ .bootDone false true :: back := by simp
    rw [← hevs] at hmem
    simp at hmem

end Uplink

end TollGate
