import GridApps.Kettle.GridMonitor

/-! How many executions of `startMonitor` can be alive at once. -/
namespace GridApps.Kettle.State
open Transition

theorem aliveLoops_setLoop {s : State} {i : ℕ} {l : MonitorLoop}
    (hi : s.loops[i]? = some l) (l' : MonitorLoop) :
    (s.setLoop i l').aliveLoops + l.alive.toNat = s.aliveLoops + l'.alive.toNat := by
  obtain ⟨hlt, hl⟩ := List.getElem?_eq_some_iff.mp hi
  have hpos : l.alive = true → 0 < s.loops.countP MonitorLoop.alive := fun ha =>
    List.countP_pos_iff.mpr ⟨l, List.mem_of_getElem? hi, ha⟩
  simp only [aliveLoops, setLoop_loops, List.countP_set hlt, hl]
  cases ha : l.alive with
  | false => cases l'.alive <;> simp
  | true =>
    have := hpos ha
    cases l'.alive <;> simp <;> omega

theorem aliveLoops_resume (s : State) :
    s.resume.aliveLoops = s.aliveLoops + (!s.monitor.monitorRunning).toNat := by
  cases h : s.monitor.monitorRunning <;>
    simp [resume, aliveLoops, h, List.countP_append, MonitorLoop.start, MonitorLoop.alive]

/-- The step performs `startMonitor` in the background. -/
def Spawns (s : State) : Action → Prop
  | .startWithCallback _ | .resumeMonitoring => s.monitor.monitorRunning = false
  | _ => False

/-- A step that starts monitoring finds no earlier loop still inside its while loop. -/
def SpawnsIdle (s : State) (a : Action) : Prop := s.Spawns a → s.aliveLoops = 0

def OneLoop (s : State) : Prop := s.monitor.monitorRunning = true → s.aliveLoops ≤ 1

theorem step_spawns {s s' : State} {a : Action} (h : s.step a = some s') (ha : s.Spawns a) :
    s'.monitor.monitorRunning = true ∧ s'.aliveLoops = s.aliveLoops + 1 := by
  cases a with
  | startWithCallback callback =>
    obtain rfl := Option.some.inj h
    refine ⟨by simp [resume], ?_⟩
    have hr : (s.install callback).monitor.monitorRunning = false := ha
    rw [aliveLoops_resume, hr]
    rfl
  | resumeMonitoring =>
    obtain rfl := Option.some.inj h
    have hr : s.monitor.monitorRunning = false := ha
    refine ⟨by simp [resume], ?_⟩
    rw [aliveLoops_resume, hr]
    rfl
  | _ => exact False.elim ha

/-- No other step makes more loops alive: a loop that moves was alive already. -/
theorem step_aliveLoops_le {s s' : State} {a : Action} (h : s.step a = some s')
    (ha : ¬ s.Spawns a) : s'.aliveLoops ≤ s.aliveLoops := by
  have moved {i : ℕ} {l : MonitorLoop} (hi : s.loops[i]? = some l)
      (hl : l.point ≠ .left) (l' : MonitorLoop) :
      (s.setLoop i l').aliveLoops ≤ s.aliveLoops := by
    have hset := aliveLoops_setLoop hi l'
    have hone : l.alive = true := decide_eq_true hl
    have := Bool.toNat_le l'.alive
    rw [hone, Bool.toNat_true] at hset
    omega
  cases step_effect h with
  | startWithCallback callback =>
    have hr : (s.install callback).monitor.monitorRunning = true := by
      simpa [Spawns, install] using ha
    rw [aliveLoops_resume, hr]
    exact le_rfl
  | pauseMonitoring => exact le_rfl
  | resumeMonitoring =>
    have hr : s.monitor.monitorRunning = true := by simpa [Spawns] using ha
    rw [aliveLoops_resume, hr]
    exact le_rfl
  | whileGuard i l hi hp => exact moved hi (by simp [hp]) _
  | checkMonitors i l result hi hp =>
    have hset := moved hi (by simp [hp]) { l with point := .switch result }
    simpa only [aliveLoops, observe_loops] using hset
  | dispatch i l result hi hp => exact moved hi (by simp [hp]) _
  | sleep i l hi hp => exact moved hi (by simp [hp]) _
  | runBlock block rest callback hqueue hcallback => exact le_rfl

/-- Along a run there is never a second loop while monitoring goes on, if and only if
monitoring is never started while an earlier loop is alive. -/
theorem oneLoop_iff_spawnsIdle (actions : List Action) :
    AllStates step OneLoop initial actions ↔ AllSteps step SpawnsIdle initial actions := by
  apply allStates_iff_allSteps (fun s => s.aliveLoops ≤ 1)
  · intro s hs _
    exact hs
  · intro s a s' hs hq hstep
    by_cases ha : s.Spawns a
    · have hidle := hq ha
      have hsp := (step_spawns hstep ha).2
      omega
    · exact (step_aliveLoops_le hstep ha).trans hs
  · intro s a s' hs hq hstep hone
    obtain ⟨ha, hbusy⟩ := Classical.not_imp.mp hq
    obtain ⟨hrun, hsp⟩ := step_spawns hstep ha
    have := hone hrun
    omega
  · exact Nat.zero_le 1

/-- Monitoring is paused and resumed while the first loop sleeps. -/
theorem oneLoop_fails : ¬ ∀ (actions : List Action) (s : State),
    run step initial actions = some s → s.OneLoop := by
  intro h
  have hs := h [.startWithCallback 0, .whileGuard 0, .checkMonitors 0 .gridGood, .dispatch 0,
    .pauseMonitoring, .resumeMonitoring] _ rfl
  exact absurd (hs rfl) (by decide)

end GridApps.Kettle.State
