import GridApps.Transition.Runs
import Mathlib.Tactic

/-! The grid monitor of the app: the object shared by all threads, the background
executions of `startMonitor`, and the blocks they queue for the main thread. -/
namespace GridApps.Kettle
open Transition

inductive MonitorCheck where
  | gridGood | gridBad | doNotKnow
  deriving DecidableEq, Repr

/-- The BOOL the callback gets for a check that knew the answer. -/
def MonitorCheck.verdict : MonitorCheck → Option Bool
  | .gridGood => some true
  | .gridBad => some false
  | .doNotKnow => none

/-- The instance variables. A callback is known by the number of the `viewDidLoad`
that built it. -/
structure GridMonitor where
  monitorRunning : Bool
  callback : Option ℕ
  deriving DecidableEq, Repr

namespace GridMonitor

def init : GridMonitor := ⟨false, none⟩

def pauseMonitoring (m : GridMonitor) : GridMonitor := { m with monitorRunning := false }

/-- The second component tells whether `startMonitor` is performed in the background;
otherwise only the NSLog line is written. -/
def resumeMonitoring (m : GridMonitor) : GridMonitor × Bool :=
  if !m.monitorRunning then ({ m with monitorRunning := true }, true) else (m, false)

def startWithCallback (m : GridMonitor) (callback : ℕ) : GridMonitor × Bool :=
  resumeMonitoring { m with callback := some callback }

@[simp] theorem resumeMonitoring_running (m : GridMonitor) :
    m.resumeMonitoring.1.monitorRunning = true := by
  cases h : m.monitorRunning <;> simp [resumeMonitoring, h]

@[simp] theorem resumeMonitoring_callback (m : GridMonitor) :
    m.resumeMonitoring.1.callback = m.callback := by
  cases h : m.monitorRunning <;> simp [resumeMonitoring, h]

@[simp] theorem resumeMonitoring_spawns (m : GridMonitor) :
    m.resumeMonitoring.2 = !m.monitorRunning := by
  cases h : m.monitorRunning <;> simp [resumeMonitoring, h]

end GridMonitor

/-- Where one execution of `startMonitor` stands. `switch` holds the result of the check
that has returned; `left` is the state after the while loop. -/
inductive LoopPoint where
  | whileGuard
  | checkMonitors
  | switch (result : MonitorCheck)
  | sleep
  | left
  deriving DecidableEq, Repr

/-- The locals of one execution of `startMonitor` that survive an iteration. -/
structure MonitorLoop where
  previousState : Bool
  firstRun : Bool
  point : LoopPoint
  deriving DecidableEq, Repr

namespace MonitorLoop

def start : MonitorLoop := ⟨true, true, .whileGuard⟩

def alive (l : MonitorLoop) : Bool := decide (l.point ≠ .left)

def evalGuard (l : MonitorLoop) (monitorRunning : Bool) : MonitorLoop :=
  { l with point := if monitorRunning then .checkMonitors else .left }

/-- `currentGridState` after the switch on the result. -/
def currentGridState (l : MonitorLoop) : MonitorCheck → Bool
  | .gridGood => true
  | .gridBad => false
  | .doNotKnow => l.previousState

/-- `goodRun` after the switch; it was set to YES before the check. -/
def goodRun : MonitorCheck → Bool
  | .doNotKnow => false
  | _ => true

/-- The `if` after the switch. The second component is the value captured by the block
that is dispatched, if one is. -/
def afterCheck (l : MonitorLoop) (result : MonitorCheck) : MonitorLoop × Option Bool :=
  if goodRun result && (l.firstRun || (l.previousState != l.currentGridState result)) then
    (⟨l.currentGridState result, false, .sleep⟩, some (l.currentGridState result))
  else ({ l with point := .sleep }, none)

theorem afterCheck_of_verdict_none {l : MonitorLoop} {result : MonitorCheck}
    (h : result.verdict = none) : l.afterCheck result = ({ l with point := .sleep }, none) := by
  cases result with
  | doNotKnow => rfl
  | _ => contradiction

theorem afterCheck_of_verdict {l : MonitorLoop} {result : MonitorCheck} {v : Bool}
    (h : result.verdict = some v) :
    l.afterCheck result = if l.firstRun || (l.previousState != v) then
      (⟨v, false, .sleep⟩, some v) else ({ l with point := .sleep }, none) := by
  cases result with
  | doNotKnow => contradiction
  | _ => obtain rfl := Option.some.inj h; rfl

end MonitorLoop

/-- Everything the threads share, with what can be observed of the run so far: the argument
of the last call of the installed callback, the answer of the last check that had one, and
whether there was such a check since the callback was installed. -/
structure State where
  monitor : GridMonitor
  loops : List MonitorLoop
  mainQueue : List Bool
  told : Option Bool
  lastVerdict : Option Bool
  checkedSince : Bool
  deriving DecidableEq, Repr

inductive Action where
  | startWithCallback (callback : ℕ)
  | pauseMonitoring
  | resumeMonitoring
  | whileGuard (i : ℕ)
  | checkMonitors (i : ℕ) (result : MonitorCheck)
  | dispatch (i : ℕ)
  | sleep (i : ℕ)
  | runBlock
  deriving DecidableEq, Repr

namespace State

def initial : State := ⟨.init, [], [], none, none, false⟩

def setLoop (s : State) (i : ℕ) (l : MonitorLoop) : State := { s with loops := s.loops.set i l }

def resume (s : State) : State :=
  { s with
    monitor := s.monitor.resumeMonitoring.1
    loops := if s.monitor.resumeMonitoring.2 then s.loops ++ [.start] else s.loops }

def install (s : State) (callback : ℕ) : State :=
  { s with
    monitor := { s.monitor with callback := some callback }
    told := none
    checkedSince := false }

/-- A check has returned; only an answer is remembered. -/
def observe (s : State) (result : MonitorCheck) : State :=
  match result.verdict with
  | some v => { s with lastVerdict := some v, checkedSince := true }
  | none => s

def aliveLoops (s : State) : ℕ := s.loops.countP MonitorLoop.alive

/-- The next step of loop `i`, if it stands at `point`. -/
def loopAt (s : State) (i : ℕ) (point : LoopPoint) : Option MonitorLoop :=
  s.loops[i]?.filter fun l => decide (l.point = point)

/-- One step of one thread. A block finds `_callback` when it runs, not when it is queued;
calling a nil block ends the process, so no step is left. -/
def step (s : State) : Action → Option State
  | .startWithCallback callback => some (s.install callback).resume
  | .pauseMonitoring => some { s with monitor := s.monitor.pauseMonitoring }
  | .resumeMonitoring => some s.resume
  | .whileGuard i => (s.loopAt i .whileGuard).map fun l =>
      s.setLoop i (l.evalGuard s.monitor.monitorRunning)
  | .checkMonitors i result => (s.loopAt i .checkMonitors).map fun l =>
      (s.setLoop i { l with point := .switch result }).observe result
  | .dispatch i => s.loops[i]?.bind fun l => match l.point with
      | .switch result => some { s.setLoop i (l.afterCheck result).1 with
          mainQueue := s.mainQueue ++ (l.afterCheck result).2.toList }
      | _ => none
  | .sleep i => (s.loopAt i .sleep).map fun l => s.setLoop i { l with point := .whileGuard }
  | .runBlock => match s.mainQueue, s.monitor.callback with
      | block :: rest, some _ => some { s with mainQueue := rest, told := some block }
      | _, _ => none

@[simp] theorem setLoop_loops (s : State) (i : ℕ) (l : MonitorLoop) :
    (s.setLoop i l).loops = s.loops.set i l := rfl

@[simp] theorem setLoop_monitor (s : State) (i : ℕ) (l : MonitorLoop) :
    (s.setLoop i l).monitor = s.monitor := rfl

@[simp] theorem setLoop_mainQueue (s : State) (i : ℕ) (l : MonitorLoop) :
    (s.setLoop i l).mainQueue = s.mainQueue := rfl

@[simp] theorem setLoop_told (s : State) (i : ℕ) (l : MonitorLoop) :
    (s.setLoop i l).told = s.told := rfl

@[simp] theorem setLoop_lastVerdict (s : State) (i : ℕ) (l : MonitorLoop) :
    (s.setLoop i l).lastVerdict = s.lastVerdict := rfl

@[simp] theorem setLoop_checkedSince (s : State) (i : ℕ) (l : MonitorLoop) :
    (s.setLoop i l).checkedSince = s.checkedSince := rfl

@[simp] theorem observe_loops (s : State) (result : MonitorCheck) :
    (s.observe result).loops = s.loops := by cases result <;> rfl

@[simp] theorem observe_monitor (s : State) (result : MonitorCheck) :
    (s.observe result).monitor = s.monitor := by cases result <;> rfl

@[simp] theorem observe_mainQueue (s : State) (result : MonitorCheck) :
    (s.observe result).mainQueue = s.mainQueue := by cases result <;> rfl

@[simp] theorem observe_told (s : State) (result : MonitorCheck) :
    (s.observe result).told = s.told := by cases result <;> rfl

theorem loopAt_eq_some {s : State} {i : ℕ} {point : LoopPoint} {l : MonitorLoop} :
    s.loopAt i point = some l ↔ s.loops[i]? = some l ∧ l.point = point := by
  simp [loopAt, Option.filter_eq_some_iff]

/-- Everything a step can do, with the conditions under which it does it. -/
inductive Effect (s : State) : Action → State → Prop
  | startWithCallback (callback : ℕ) :
      Effect s (.startWithCallback callback) (s.install callback).resume
  | pauseMonitoring : Effect s .pauseMonitoring { s with monitor := s.monitor.pauseMonitoring }
  | resumeMonitoring : Effect s .resumeMonitoring s.resume
  | whileGuard (i : ℕ) (l : MonitorLoop) (hi : s.loops[i]? = some l)
      (hp : l.point = .whileGuard) :
      Effect s (.whileGuard i) (s.setLoop i (l.evalGuard s.monitor.monitorRunning))
  | checkMonitors (i : ℕ) (l : MonitorLoop) (result : MonitorCheck)
      (hi : s.loops[i]? = some l) (hp : l.point = .checkMonitors) :
      Effect s (.checkMonitors i result)
        ((s.setLoop i { l with point := .switch result }).observe result)
  | dispatch (i : ℕ) (l : MonitorLoop) (result : MonitorCheck) (hi : s.loops[i]? = some l)
      (hp : l.point = .switch result) :
      Effect s (.dispatch i) { s.setLoop i (l.afterCheck result).1 with
        mainQueue := s.mainQueue ++ (l.afterCheck result).2.toList }
  | sleep (i : ℕ) (l : MonitorLoop) (hi : s.loops[i]? = some l) (hp : l.point = .sleep) :
      Effect s (.sleep i) (s.setLoop i { l with point := .whileGuard })
  | runBlock (block : Bool) (rest : List Bool) (callback : ℕ)
      (hqueue : s.mainQueue = block :: rest) (hcallback : s.monitor.callback = some callback) :
      Effect s .runBlock { s with mainQueue := rest, told := some block }

theorem step_effect {s s' : State} {a : Action} (h : s.step a = some s') : Effect s a s' := by
  cases a with
  | startWithCallback callback => exact Option.some.inj h ▸ .startWithCallback callback
  | pauseMonitoring => exact Option.some.inj h ▸ .pauseMonitoring
  | resumeMonitoring => exact Option.some.inj h ▸ .resumeMonitoring
  | whileGuard i =>
    obtain ⟨l, hl, rfl⟩ := Option.map_eq_some_iff.mp h
    obtain ⟨hi, hp⟩ := loopAt_eq_some.mp hl
    exact .whileGuard i l hi hp
  | checkMonitors i result =>
    obtain ⟨l, hl, rfl⟩ := Option.map_eq_some_iff.mp h
    obtain ⟨hi, hp⟩ := loopAt_eq_some.mp hl
    exact .checkMonitors i l result hi hp
  | dispatch i =>
    obtain ⟨l, hi, hl⟩ := Option.bind_eq_some_iff.mp h
    split at hl
    · next result hp => exact Option.some.inj hl ▸ .dispatch i l result hi hp
    · contradiction
  | sleep i =>
    obtain ⟨l, hl, rfl⟩ := Option.map_eq_some_iff.mp h
    obtain ⟨hi, hp⟩ := loopAt_eq_some.mp hl
    exact .sleep i l hi hp
  | runBlock =>
    simp only [step] at h
    split at h
    · next block rest callback hqueue hcallback =>
      exact Option.some.inj h ▸ .runBlock block rest callback hqueue hcallback
    · contradiction

end State
end GridApps.Kettle
