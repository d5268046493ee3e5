import GridApps.Kettle.GridMonitor
import GridApps.Transition.Destutter

/-! What one execution of `startMonitor` reports of the results that it sees. -/
namespace GridApps.Kettle
open Transition

namespace MonitorLoop

/-- What the loop is about to dispatch. -/
def due (l : MonitorLoop) : List Bool :=
  match l.point with
  | .switch result => (l.afterCheck result).2.toList
  | _ => []

theorem due_of_point {l : MonitorLoop} (h : ∀ result, l.point ≠ .switch result) : l.due = [] := by
  unfold due
  split
  · next result hp => exact absurd hp (h result)
  · rfl

theorem due_afterCheck (l : MonitorLoop) (result : MonitorCheck) :
    (l.afterCheck result).1.due = [] := by
  apply due_of_point
  intro r
  unfold afterCheck
  split_ifs <;> simp

end MonitorLoop

namespace Action

/-- The result that loop `i` sees. -/
def result (i : ℕ) : Action → Option MonitorCheck
  | .checkMonitors j result => if j = i then some result else none
  | _ => none

end Action

/-- The results that loop `i` knows the answer from, in the order in which it sees them. -/
def known (i : ℕ) (actions : List Action) : List Bool :=
  (actions.filterMap (Action.result i)).filterMap MonitorCheck.verdict

namespace State

def due (s : State) (i : ℕ) : List Bool := (s.loops[i]?.map MonitorLoop.due).getD []

/-- The blocks that a step dispatches to the main queue, each with the number of its loop. -/
def dispatched (s : State) : Action → List (ℕ × Bool)
  | .dispatch i => (s.due i).map fun value => (i, value)
  | _ => []

/-- The values that a step calls the callback with. -/
def called (s : State) : Action → List Bool
  | .runBlock => s.mainQueue.take 1
  | _ => []

/-- The values that loop `i` reports along a run. -/
def reports (i : ℕ) (s : State) (actions : List Action) : List Bool :=
  ((outputs step dispatched s actions).filter fun block => decide (block.1 = i)).map Prod.snd

/-- The main queue is first in, first out. -/
theorem run_called {s t : State} {actions : List Action} (h : run step s actions = some t) :
    s.mainQueue ++ (outputs step dispatched s actions).map Prod.snd =
      outputs step called s actions ++ t.mainQueue := by
  refine run_induction (P := fun actions t =>
    s.mainQueue ++ (outputs step dispatched s actions).map Prod.snd =
      outputs step called s actions ++ t.mainQueue) (by simp [outputs]) ?_ h
  intro before a t t' ht hstep ih
  rw [outputs_concat ht hstep, outputs_concat ht hstep, List.map_append, ← List.append_assoc, ih,
    List.append_assoc, List.append_assoc]
  congr 1
  cases step_effect hstep with
  | startWithCallback callback => simp [dispatched, called, resume, install]
  | resumeMonitoring => simp [dispatched, called, resume]
  | dispatch i l result hi hp =>
    simp [dispatched, called, due, hi, MonitorLoop.due, hp, Function.comp_def]
  | runBlock block rest callback hqueue hcallback => simp [dispatched, called, hqueue]
  | _ => simp [dispatched, called]

theorem known_concat (i : ℕ) (before : List Action) (a : Action) :
    known i (before ++ [a]) =
      known i before ++ ((a.result i).bind MonitorCheck.verdict).toList := by
  cases h : a.result i with
  | none => simp [known, h]
  | some result => cases hv : result.verdict <;> simp [known, h, hv]

theorem reports_concat {s t t' : State} {before : List Action} {a : Action} (i : ℕ)
    (ht : run step s before = some t) (hstep : step t a = some t') :
    reports i s (before ++ [a]) = reports i s before ++
      ((t.dispatched a).filter fun block => decide (block.1 = i)).map Prod.snd := by
  rw [reports, outputs_concat ht hstep, List.filter_append, List.map_append, reports]

/-- What the flags of loop `i` say of its reports, and these of the results it has seen. -/
structure Watched (i : ℕ) (s : State) (before : List Action) (t : State) (l : MonitorLoop) :
    Prop where
  loop : t.loops[i]? = some l
  last : (reports i s before).getLast? = if l.firstRun then none else some l.previousState
  collapsed : reports i s before ++ l.due = (known i before).destutter (· ≠ ·)

variable {i : ℕ} {s t t' : State} {before : List Action} {l : MonitorLoop} {a : Action}

/-- Between two results the last report is the last known result, if there is one. -/
theorem Watched.last_known (h : Watched i s before t l) (hdue : l.due = []) :
    (known i before).getLast? = if l.firstRun then none else some l.previousState := by
  rw [← getLast?_destutter_ne, ← h.collapsed, hdue, List.append_nil, h.last]

/-- A step that neither sees a result for loop `i` nor dispatches one of its reports. -/
theorem Watched.move {l' : MonitorLoop} (h : Watched i s before t l)
    (ht : run step s before = some t) (hstep : step t a = some t')
    (hloop : t'.loops[i]? = some l') (hfirst : l'.firstRun = l.firstRun)
    (hprevious : l'.previousState = l.previousState) (hdue : l'.due = l.due)
    (hresult : a.result i = none) (hdispatched : ∀ block ∈ t.dispatched a, block.1 ≠ i) :
    Watched i s (before ++ [a]) t' l' := by
  have hreports : reports i s (before ++ [a]) = reports i s before := by
    rw [reports_concat i ht hstep, List.filter_eq_nil_iff.mpr (by simpa using hdispatched)]
    simp
  have hknown : known i (before ++ [a]) = known i before := by simp [known_concat, hresult]
  refine ⟨hloop, ?_, ?_⟩
  · rw [hreports, h.last, hfirst, hprevious]
  · rw [hreports, hknown, hdue, h.collapsed]

/-- A new result is due to be reported if it is known and not the last known one. -/
theorem Watched.checkMonitors {result : MonitorCheck} (h : Watched i s before t l)
    (ht : run step s before = some t) (hstep : step t (.checkMonitors i result) = some t')
    (hp : l.point = .checkMonitors)
    (hloop : t'.loops[i]? = some { l with point := .switch result }) :
    Watched i s (before ++ [.checkMonitors i result]) t' { l with point := .switch result } := by
  have hreports : reports i s (before ++ [.checkMonitors i result]) = reports i s before := by
    simp [reports_concat i ht hstep, dispatched]
  have hdue : l.due = [] := MonitorLoop.due_of_point (by simp [hp])
  have hcollapsed := h.collapsed
  rw [hdue, List.append_nil] at hcollapsed
  refine ⟨hloop, by rw [hreports]; exact h.last, ?_⟩
  rw [hreports, known_concat, hcollapsed]
  simp only [Action.result, if_true, Option.bind_some, MonitorLoop.due]
  cases hv : result.verdict with
  | none => simp [MonitorLoop.afterCheck_of_verdict_none hv]
  | some v =>
    rw [MonitorLoop.afterCheck_of_verdict hv, Option.toList_some, destutter_concat_ne,
      h.last_known hdue]
    cases l.firstRun <;> cases l.previousState <;> cases v <;> simp

/-- The report that was due is dispatched, and the flags remember it. -/
theorem Watched.dispatch {result : MonitorCheck} (h : Watched i s before t l)
    (ht : run step s before = some t) (hstep : step t (.dispatch i) = some t')
    (hp : l.point = .switch result) (hloop : t'.loops[i]? = some (l.afterCheck result).1) :
    Watched i s (before ++ [.dispatch i]) t' (l.afterCheck result).1 := by
  have hreports : reports i s (before ++ [.dispatch i]) = reports i s before ++ l.due := by
    rw [reports_concat i ht hstep]
    simp [dispatched, State.due, h.loop, List.filter_map, Function.comp_def]
  have hknown : known i (before ++ [.dispatch i]) = known i before := by
    simp [known_concat, Action.result]
  refine ⟨hloop, ?_, ?_⟩
  · rw [hreports, MonitorLoop.due, hp]
    simp only [MonitorLoop.afterCheck]
    split_ifs <;> simp_all [h.last]
  · rw [hreports, MonitorLoop.due_afterCheck, List.append_nil, hknown, h.collapsed]

/-- A step of loop `j` at one of the points between a dispatch and the next check. -/
theorem Watched.pass {j : ℕ} {m m' : MonitorLoop} (h : Watched i s before t l)
    (ht : run step s before = some t) (hstep : t.step a = some t') (hj : t.loops[j]? = some m)
    (hloops : t'.loops = t.loops.set j m') (hfirst : m'.firstRun = m.firstRun)
    (hprevious : m'.previousState = m.previousState) (hdue : m.due = []) (hdue' : m'.due = [])
    (hresult : a.result i = none) (hdispatched : t.dispatched a = []) :
    ∃ l', Watched i s (before ++ [a]) t' l' := by
  have hnone : ∀ block ∈ t.dispatched a, block.1 ≠ i := by simp [hdispatched]
  by_cases hji : j = i
  · subst hji
    obtain rfl := Option.some.inj (h.loop.symm.trans hj)
    have hloop : t'.loops[j]? = some m' := by
      rw [hloops, List.getElem?_set_self (List.getElem?_eq_some_iff.mp hj).1]
    exact ⟨m', h.move ht hstep hloop hfirst hprevious (hdue'.trans hdue.symm) hresult hnone⟩
  · have hloop : t'.loops[i]? = some l := by rw [hloops, List.getElem?_set_ne hji, h.loop]
    exact ⟨l, h.move ht hstep hloop rfl rfl rfl hresult hnone⟩

/-- A loop that is added has a number of its own. -/
theorem resume_loop (h : s.loops[i]? = some l) : s.resume.loops[i]? = some l := by
  cases hspawn : s.monitor.resumeMonitoring.2 with
  | true =>
    simp only [resume, hspawn, if_true]
    rw [List.getElem?_append_left (List.getElem?_eq_some_iff.mp h).1, h]
  | false => simpa only [resume, hspawn, Bool.false_eq_true, if_false] using h

theorem Watched.step (h : Watched i s before t l) (ht : run step s before = some t)
    (hstep : t.step a = some t') : ∃ l', Watched i s (before ++ [a]) t' l' := by
  cases step_effect hstep with
  | startWithCallback callback =>
    have hloop := resume_loop (s := t.install callback) h.loop
    exact ⟨l, h.move ht hstep hloop rfl rfl rfl rfl (by simp [dispatched])⟩
  | pauseMonitoring => exact ⟨l, h.move ht hstep h.loop rfl rfl rfl rfl (by simp [dispatched])⟩
  | resumeMonitoring =>
    have hloop := resume_loop h.loop
    exact ⟨l, h.move ht hstep hloop rfl rfl rfl rfl (by simp [dispatched])⟩
  | whileGuard j m hj hp =>
    refine h.pass ht hstep hj rfl rfl rfl (MonitorLoop.due_of_point (by simp [hp])) ?_ rfl rfl
    apply MonitorLoop.due_of_point
    cases t.monitor.monitorRunning <;> simp [MonitorLoop.evalGuard]
  | checkMonitors j m result hj hp =>
    have hlt := (List.getElem?_eq_some_iff.mp hj).1
    by_cases hji : j = i
    · subst hji
      obtain rfl := Option.some.inj (h.loop.symm.trans hj)
      exact ⟨_, h.checkMonitors ht hstep hp (by simp [hlt])⟩
    · refine ⟨l, h.move ht hstep ?_ rfl rfl rfl (by simp [Action.result, hji])
        (by simp [dispatched])⟩
      rw [observe_loops, setLoop_loops, List.getElem?_set_ne hji, h.loop]
  | dispatch j m result hj hp =>
    have hlt := (List.getElem?_eq_some_iff.mp hj).1
    by_cases hji : j = i
    · subst hji
      obtain rfl := Option.some.inj (h.loop.symm.trans hj)
      exact ⟨_, h.dispatch ht hstep hp (by simp [hlt])⟩
    · have hloop : (t.setLoop j (m.afterCheck result).1).loops[i]? = some l := by
        rw [setLoop_loops, List.getElem?_set_ne hji, h.loop]
      refine ⟨l, h.move ht hstep hloop rfl rfl rfl rfl fun block hblock => ?_⟩
      obtain ⟨value, -, rfl⟩ := List.mem_map.mp hblock
      exact hji
  | sleep j m hj hp =>
    exact h.pass ht hstep hj rfl rfl rfl (MonitorLoop.due_of_point (by simp [hp]))
      (MonitorLoop.due_of_point (by simp)) rfl rfl
  | runBlock block rest callback hqueue hcallback =>
    exact ⟨l, h.move ht hstep h.loop rfl rfl rfl rfl (by simp [dispatched])⟩

theorem run_watched (hstart : s.loops[i]? = some .start) (h : run State.step s before = some t) :
    ∃ l, Watched i s before t l := by
  refine run_induction (P := fun before t => ∃ l, Watched i s before t l) ?_ ?_ h
  · exact ⟨.start, hstart, rfl, rfl⟩
  · rintro before a t t' ht hstep ⟨l, hl⟩
    exact hl.step ht hstep

/-- What the execution that runs loop `i` reports: with what it is about to dispatch, the known
results with their repeats collapsed. The main queue passes the reports of all loops on in the
order in which they come; if there is no other loop, the callback gets those of loop `i`. -/
structure ChangeDetection (i : ℕ) (s : State) (actions : List Action) (t : State) : Prop where
  collapsed : reports i s actions ++ t.due i = (known i actions).destutter (· ≠ ·)
  first : (reports i s actions ++ t.due i).head? = (known i actions).head?
  changes : (reports i s actions ++ t.due i).IsChain (· ≠ ·)
  last : (reports i s actions ++ t.due i).getLast? = (known i actions).getLast?
  queue : s.mainQueue ++ (outputs step dispatched s actions).map Prod.snd =
    outputs step called s actions ++ t.mainQueue
  alone : s.mainQueue = [] → (∀ block ∈ outputs step dispatched s actions, block.1 = i) →
    outputs step called s actions ++ t.mainQueue ++ t.due i = (known i actions).destutter (· ≠ ·)

theorem reports_of_run {actions : List Action} (hstart : s.loops[i]? = some .start)
    (h : run step s actions = some t) :
    reports i s actions ++ t.due i = (known i actions).destutter (· ≠ ·) := by
  obtain ⟨l, hl⟩ := run_watched hstart h
  have hdue : t.due i = l.due := by simp [due, hl.loop]
  exact hdue ▸ hl.collapsed

/-- Without another loop the callback gets what loop `i` reports. -/
theorem called_of_run {actions : List Action} (hstart : s.loops[i]? = some .start)
    (h : run step s actions = some t) (hqueue : s.mainQueue = [])
    (honly : ∀ block ∈ outputs step dispatched s actions, block.1 = i) :
    outputs step called s actions ++ t.mainQueue ++ t.due i =
      (known i actions).destutter (· ≠ ·) := by
  have hall : reports i s actions = (outputs step dispatched s actions).map Prod.snd := by
    rw [reports, List.filter_eq_self.mpr (by simpa using honly)]
  rw [← run_called h, hqueue, List.nil_append, ← hall, reports_of_run hstart h]

theorem changeDetection_of_run {actions : List Action} (hstart : s.loops[i]? = some .start)
    (h : run step s actions = some t) : ChangeDetection i s actions t := by
  have hcollapsed := reports_of_run hstart h
  refine ⟨hcollapsed, ?_, ?_, ?_, run_called h, called_of_run hstart h⟩
  · rw [hcollapsed, head?_destutter_ne]
  · rw [hcollapsed]
    exact List.isChain_destutter _ _
  · rw [hcollapsed, getLast?_destutter_ne]

/-- Monitoring has just been started. -/
def watching : State := ⟨⟨true, some 0⟩, [.start], [], none, none, false⟩

/-- An unknown result first, then a good grid twice with an unknown result in between, and a bad
one. -/
def fiveRounds : List Action :=
  [.whileGuard 0, .checkMonitors 0 .doNotKnow, .dispatch 0, .sleep 0,
    .whileGuard 0, .checkMonitors 0 .gridGood, .dispatch 0, .sleep 0, .runBlock,
    .whileGuard 0, .checkMonitors 0 .doNotKnow, .dispatch 0, .sleep 0,
    .whileGuard 0, .checkMonitors 0 .gridGood, .dispatch 0, .sleep 0,
    .whileGuard 0, .checkMonitors 0 .gridBad, .dispatch 0, .runBlock]

/-- The callback is called twice, and nothing is left to be called. -/
theorem changeDetection_of_run_first :
    ∃ t, run step watching fiveRounds = some t ∧ t.mainQueue = [] ∧ t.due 0 = [] ∧
      outputs step called watching fiveRounds = [true, false] ∧
      ChangeDetection 0 watching fiveRounds t :=
  ⟨_, rfl, rfl, rfl, rfl, changeDetection_of_run rfl rfl⟩

/-- Loop `i` stands at `point`. -/
def At (s : State) (i : ℕ) (point : LoopPoint) : Prop :=
  ∃ l, s.loops[i]? = some l ∧ l.point = point

/-- A step of loop `i` to `point` with the monitor as it was. -/
def LoopStep (s : State) (a : Action) (i : ℕ) (point : LoopPoint) : Prop :=
  ∃ t, s.step a = some t ∧ t.At i point ∧ t.monitor = s.monitor

theorem at_setLoop {point : LoopPoint} (hi : s.loops[i]? = some l) (l' : MonitorLoop)
    (hp : l'.point = point) : (s.setLoop i l').At i point :=
  ⟨l', by simp [(List.getElem?_eq_some_iff.mp hi).1], hp⟩

theorem loopStep_whileGuard (h : s.At i .whileGuard) (hrunning : s.monitor.monitorRunning = true) :
    s.LoopStep (.whileGuard i) i .checkMonitors := by
  obtain ⟨l, hi, hp⟩ := h
  refine ⟨s.setLoop i (l.evalGuard s.monitor.monitorRunning), ?_, at_setLoop hi _ ?_, rfl⟩
  · simp [step, loopAt_eq_some.mpr ⟨hi, hp⟩]
  · simp [MonitorLoop.evalGuard, hrunning]

theorem loopStep_checkMonitors (h : s.At i .checkMonitors) (result : MonitorCheck) :
    s.LoopStep (.checkMonitors i result) i (.switch result) := by
  obtain ⟨l, hi, hp⟩ := h
  refine ⟨(s.setLoop i { l with point := .switch result }).observe result, ?_, ?_, by simp⟩
  · simp [step, loopAt_eq_some.mpr ⟨hi, hp⟩]
  · rw [At, observe_loops]
    exact at_setLoop hi _ rfl

theorem loopStep_dispatch {result : MonitorCheck} (h : s.At i (.switch result)) :
    s.LoopStep (.dispatch i) i .sleep := by
  obtain ⟨l, hi, hp⟩ := h
  refine ⟨{ s.setLoop i (l.afterCheck result).1 with
    mainQueue := s.mainQueue ++ (l.afterCheck result).2.toList }, ?_, ?_, rfl⟩
  · simp [step, hi, hp]
  · apply at_setLoop hi
    unfold MonitorLoop.afterCheck
    split_ifs <;> rfl

theorem loopStep_sleep (h : s.At i .sleep) : s.LoopStep (.sleep i) i .whileGuard := by
  obtain ⟨l, hi, hp⟩ := h
  refine ⟨s.setLoop i { l with point := .whileGuard }, ?_, at_setLoop hi _ rfl, rfl⟩
  simp [step, loopAt_eq_some.mpr ⟨hi, hp⟩]

/-- With a callback the main thread gets through its queue. -/
theorem run_runBlock (hcallback : s.monitor.callback ≠ none) :
    ∃ t, run step s (List.replicate s.mainQueue.length .runBlock) = some t ∧ t.mainQueue = [] ∧
      t.loops = s.loops ∧ t.monitor = s.monitor := by
  obtain ⟨c, hc⟩ := Option.ne_none_iff_exists'.mp hcallback
  induction hqueue : s.mainQueue generalizing s with
  | nil => exact ⟨s, rfl, hqueue, rfl, rfl⟩
  | cons block rest ih =>
    have hblock : s.step .runBlock = some { s with mainQueue := rest, told := some block } := by
      simp [step, hqueue, hc]
    obtain ⟨t, ht, hkept⟩ := @ih { s with mainQueue := rest, told := some block } hcallback hc rfl
    exact ⟨t, by simpa [List.replicate_succ, run, hblock] using ht, hkept⟩

/-- Loop `i` is before a round, monitoring goes on with a callback, and nothing is queued. -/
structure Turning (s : State) (i : ℕ) : Prop where
  loop : s.At i .whileGuard
  running : s.monitor.monitorRunning = true
  callback : s.monitor.callback ≠ none
  queue : s.mainQueue = []

/-- A round of loop `i` that sees `result`, and `blocks` steps of the main thread after it. -/
def round (i : ℕ) (result : MonitorCheck) (blocks : ℕ) : List Action :=
  [.whileGuard i, .checkMonitors i result, .dispatch i, .sleep i] ++ .replicate blocks .runBlock

theorem filterMap_round (result : MonitorCheck) (blocks : ℕ) :
    (round i result blocks).filterMap (Action.result i) = [result] := by
  have hblocks : (List.replicate blocks Action.runBlock).filterMap (Action.result i) = [] :=
    List.filterMap_eq_nil_iff.mpr fun a ha => List.eq_of_mem_replicate ha ▸ rfl
  have hsees : Action.result i (.checkMonitors i result) = some result := if_pos rfl
  rw [round, List.filterMap_append, hblocks, List.filterMap_cons_none rfl,
    List.filterMap_cons_some hsees]
  rfl

theorem dispatched_of_mem_round {result : MonitorCheck} {blocks : ℕ}
    (ha : a ∈ round i result blocks) (s : State) : ∀ block ∈ s.dispatched a, block.1 = i := by
  intro block hblock
  cases a with
  | dispatch j =>
    obtain ⟨value, -, rfl⟩ := List.mem_map.mp hblock
    simpa [round] using ha
  | _ => simp [dispatched] at hblock

theorem Turning.round (h : s.Turning i) (result : MonitorCheck) :
    ∃ blocks t, run State.step s (round i result blocks) = some t ∧ t.Turning i := by
  obtain ⟨s₁, hs₁, hat₁, hm₁⟩ := loopStep_whileGuard h.loop h.running
  obtain ⟨s₂, hs₂, hat₂, hm₂⟩ := loopStep_checkMonitors hat₁ result
  obtain ⟨s₃, hs₃, hat₃, hm₃⟩ := loopStep_dispatch hat₂
  obtain ⟨s₄, hs₄, hat₄, hm₄⟩ := loopStep_sleep hat₃
  have hmonitor : s₄.monitor = s.monitor := by rw [hm₄, hm₃, hm₂, hm₁]
  obtain ⟨t, ht, hqueue, hloops, hm⟩ := run_runBlock (s := s₄) (hmonitor ▸ h.callback)
  refine ⟨s₄.mainQueue.length, t, ?_, ?_, ?_, ?_, hqueue⟩
  · simp [State.round, run, hs₁, hs₂, hs₃, hs₄, ht]
  · rw [At, hloops]
    exact hat₄
  · rw [hm, hmonitor, h.running]
  · rw [hm, hmonitor]
    exact h.callback

/-- Whatever the results are, there is a run in which loop `i` sees them and no other loop and no
call of the app interferes. -/
theorem Turning.exists_run (h : s.Turning i) (results : List MonitorCheck) :
    ∃ actions t, run State.step s actions = some t ∧ t.Turning i ∧
      (∀ a ∈ actions, ∃ result blocks, a ∈ State.round i result blocks) ∧
      actions.filterMap (Action.result i) = results := by
  induction results generalizing s with
  | nil => exact ⟨[], s, rfl, h, by simp, rfl⟩
  | cons result results ih =>
    obtain ⟨blocks, s', hs', hturning⟩ := h.round result
    obtain ⟨actions, t, ht, hend, hrounds, hresults⟩ := ih hturning
    refine ⟨State.round i result blocks ++ actions, t, ?_, hend, fun a ha => ?_, ?_⟩
    · rw [run_append, hs']
      exact ht
    · exact (List.mem_append.mp ha).elim (fun ha => ⟨result, blocks, ha⟩) (hrounds a)
    · rw [List.filterMap_append, filterMap_round, hresults]
      rfl

/-- Every sequence of results is one that a loop can see, and the callback is called with the known
ones among them, their repeats collapsed, before the next round. -/
theorem exists_run_called (hstart : s.loops[i]? = some .start)
    (hrunning : s.monitor.monitorRunning = true) (hcallback : s.monitor.callback ≠ none)
    (hqueue : s.mainQueue = []) (results : List MonitorCheck) :
    ∃ actions t, run step s actions = some t ∧ .pauseMonitoring ∉ actions ∧
      actions.filterMap (Action.result i) = results ∧
      outputs step called s actions =
        (results.filterMap MonitorCheck.verdict).destutter (· ≠ ·) := by
  obtain ⟨actions, t, ht, hend, hrounds, hresults⟩ :=
    Turning.exists_run ⟨⟨.start, hstart, rfl⟩, hrunning, hcallback, hqueue⟩ results
  refine ⟨actions, t, ht, fun hpause => ?_, hresults, ?_⟩
  · obtain ⟨result, blocks, hmem⟩ := hrounds _ hpause
    simp [round] at hmem
  · have honly : ∀ block ∈ outputs step dispatched s actions, block.1 = i := by
      apply forall_mem_outputs
      intro a ha
      obtain ⟨result, blocks, hmem⟩ := hrounds a ha
      exact dispatched_of_mem_round hmem
    have hdue : t.due i = [] := by
      obtain ⟨l, hi, hp⟩ := hend.loop
      have hnone : l.due = [] := MonitorLoop.due_of_point (by simp [hp])
      simp [due, hi, hnone]
    have hcalled := called_of_run hstart ht hqueue honly
    rw [hend.queue, hdue, List.append_nil, List.append_nil, known, hresults] at hcalled
    exact hcalled

end State
end GridApps.Kettle
