import GridApps.Kettle.GridMonitor

/-! The application delegate under the life cycle of an iOS application. -/
namespace GridApps.Kettle
open Transition

inductive Phase where
  | active | inactive | background | terminated
  deriving DecidableEq, Repr

/-- What the system delivers: the life-cycle messages and the loading of the main view. -/
inductive LifeEvent where
  | applicationWillResignActive
  | applicationDidBecomeActive
  | applicationDidEnterBackground
  | applicationWillEnterForeground
  | applicationWillTerminate
  | viewDidLoad
  deriving DecidableEq, Repr

/-- The application after `didFinishLaunching`: `loads` counts the calls of `viewDidLoad`,
`lastEvent` is what was delivered last. -/
structure App where
  phase : Phase
  monitor : GridMonitor
  loads : ℕ
  lastEvent : Option LifeEvent
  deriving DecidableEq, Repr

namespace App

def launched : App := ⟨.inactive, .init, 0, none⟩

/-- The phases between which the system moves the application. -/
def transition : LifeEvent → Phase → Option Phase
  | .applicationWillResignActive, .active => some .inactive
  | .applicationDidBecomeActive, .inactive => some .active
  | .applicationDidEnterBackground, .inactive => some .background
  | .applicationWillEnterForeground, .background => some .inactive
  | .applicationWillTerminate, .terminated => none
  | .applicationWillTerminate, _ => some .terminated
  | .viewDidLoad, .terminated => none
  | .viewDidLoad, phase => some phase
  | _, _ => none

/-- What the code does with the monitor. The delegate implements neither
`applicationDidBecomeActive:` nor `applicationDidEnterBackground:`. -/
def handle (a : App) : LifeEvent → GridMonitor
  | .applicationWillResignActive => a.monitor.pauseMonitoring
  | .applicationDidBecomeActive => a.monitor
  | .applicationDidEnterBackground => a.monitor
  | .applicationWillEnterForeground => a.monitor.resumeMonitoring.1
  | .applicationWillTerminate => a.monitor.pauseMonitoring
  | .viewDidLoad => (a.monitor.startWithCallback a.loads).1

def step (a : App) (event : LifeEvent) : Option App :=
  (transition event a.phase).map fun phase =>
    { phase := phase
      monitor := a.handle event
      loads := if event = .viewDidLoad then a.loads + 1 else a.loads
      lastEvent := some event }

/-- In use with its view loaded, the application has its monitor running. -/
def Monitored (a : App) : Prop :=
  a.phase = .active → 0 < a.loads → a.monitor.monitorRunning = true

/-- The application, its view loaded, does not become active straight after it resigned. -/
def NoDirectReturn (a : App) (event : LifeEvent) : Prop :=
  event = .applicationDidBecomeActive → 0 < a.loads →
    a.lastEvent ≠ some .applicationWillResignActive

/-- While the application is inactive the monitor is paused exactly when the resignation
was the last thing delivered. -/
structure Tracked (a : App) : Prop where
  active : a.Monitored
  inactive : a.phase = .inactive → 0 < a.loads →
    (a.monitor.monitorRunning = false ↔ a.lastEvent = some .applicationWillResignActive)

theorem step_eq_some {a a' : App} {event : LifeEvent} (h : a.step event = some a') :
    transition event a.phase = some a'.phase ∧ a'.monitor = a.handle event ∧
      a'.loads = (if event = .viewDidLoad then a.loads + 1 else a.loads) ∧
      a'.lastEvent = some event := by
  obtain ⟨phase, hp, rfl⟩ := Option.map_eq_some_iff.mp h
  exact ⟨hp, rfl, rfl, rfl⟩

theorem startWithCallback_running (m : GridMonitor) (callback : ℕ) :
    (m.startWithCallback callback).1.monitorRunning = true :=
  GridMonitor.resumeMonitoring_running _

theorem Tracked.step {a a' : App} {event : LifeEvent} (h : a.Tracked)
    (hq : a.NoDirectReturn event) (hstep : a.step event = some a') : a'.Tracked := by
  obtain ⟨hp, hm, hl, he⟩ := step_eq_some hstep
  cases event with
  | applicationWillResignActive =>
    cases hph : a.phase <;> simp only [hph, transition] at hp <;> try contradiction
    have hp' := Option.some.inj hp
    refine ⟨fun h => by simp [← hp'] at h, fun _ _ => ?_⟩
    simp [hm, he, handle, GridMonitor.pauseMonitoring]
  | applicationDidBecomeActive =>
    cases hph : a.phase <;> simp only [hph, transition] at hp <;> try contradiction
    have hp' := Option.some.inj hp
    refine ⟨fun _ hpos => ?_, fun h => by simp [← hp'] at h⟩
    have hloads : 0 < a.loads := by simpa [hl] using hpos
    have hrun := mt (h.inactive hph hloads).mp (hq rfl hloads)
    simpa [hm, handle] using hrun
  | applicationDidEnterBackground =>
    cases hph : a.phase <;> simp only [hph, transition] at hp <;> try contradiction
    have hp' := Option.some.inj hp
    exact ⟨fun h => by simp [← hp'] at h, fun h => by simp [← hp'] at h⟩
  | applicationWillEnterForeground =>
    cases hph : a.phase <;> simp only [hph, transition] at hp <;> try contradiction
    have hp' := Option.some.inj hp
    refine ⟨fun h => by simp [← hp'] at h, fun _ _ => ?_⟩
    simp [hm, he, handle]
  | applicationWillTerminate =>
    have hp' : a'.phase = .terminated := by
      cases hph : a.phase <;> simp only [hph, transition] at hp
      all_goals first | contradiction | exact (Option.some.inj hp).symm
    exact ⟨fun h => by simp [hp'] at h, fun h => by simp [hp'] at h⟩
  | viewDidLoad =>
    have hrun : a'.monitor.monitorRunning = true := by
      rw [hm]
      exact startWithCallback_running _ _
    exact ⟨fun _ _ => hrun, fun _ _ => by simp [hrun, he]⟩

theorem Tracked.direct_return {a a' : App} {event : LifeEvent} (h : a.Tracked)
    (hq : ¬ a.NoDirectReturn event) (hstep : a.step event = some a') : ¬ a'.Monitored := by
  obtain ⟨hp, hm, hl, -⟩ := step_eq_some hstep
  simp only [NoDirectReturn, Classical.not_imp, not_not] at hq
  obtain ⟨rfl, hloads, hlast⟩ := hq
  cases hph : a.phase <;> simp only [hph, transition] at hp <;> try contradiction
  have hpaused := (h.inactive hph hloads).mpr hlast
  intro hmon
  have hrun := hmon (Option.some.inj hp).symm (by simpa [hl] using hloads)
  simp [hm, handle, hpaused] at hrun

/-- The monitor runs in every state in which the application is in use, if and only if the
application never becomes active again straight after it resigned. -/
theorem monitored_iff_noDirectReturn (events : List LifeEvent) :
    AllStates step Monitored launched events ↔ AllSteps step NoDirectReturn launched events := by
  apply allStates_iff_allSteps Tracked
  · exact fun _ h => h.active
  · exact fun _ _ _ h hq hstep => h.step hq hstep
  · exact fun _ _ _ h hq hstep => h.direct_return hq hstep
  · exact ⟨fun h => by simp [launched] at h, fun _ h => by simp [launched] at h⟩

/-- A dialog of the system takes the focus and gives it back. -/
theorem monitored_fails : ¬ ∀ (events : List LifeEvent) (a : App),
    run step launched events = some a → a.Monitored := by
  intro h
  have ha := h [.viewDidLoad, .applicationDidBecomeActive, .applicationWillResignActive,
    .applicationDidBecomeActive] _ rfl
  exact absurd (ha rfl (by decide)) (by decide)

end App
end GridApps.Kettle
