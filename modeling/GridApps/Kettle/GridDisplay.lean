import GridApps.Kettle.OneLoop

/-! Agreement between what the installed callback was last told and the last verdict. -/
namespace GridApps.Kettle
open Transition

namespace MonitorLoop

/-- The loop holds a result that it is going to dispatch. -/
def reports (l : MonitorLoop) : Bool :=
  match l.point with
  | .switch result => (l.afterCheck result).2.isSome
  | _ => false

theorem reports_iff {l : MonitorLoop} : l.reports = true ↔
    ∃ result v, l.point = .switch result ∧ result.verdict = some v ∧
      (l.firstRun || (l.previousState != v)) = true := by
  constructor
  · intro h
    unfold reports at h
    split at h
    · next result hp =>
      cases hv : result.verdict with
      | none => simp [afterCheck_of_verdict_none hv] at h
      | some v =>
        rw [afterCheck_of_verdict hv] at h
        by_cases hr : (l.firstRun || (l.previousState != v)) = true
        · exact ⟨result, v, hp, hv, hr⟩
        · simp [hr] at h
    · contradiction
  · rintro ⟨result, v, hp, hv, hr⟩
    simp only [reports, hp, afterCheck_of_verdict hv, if_pos hr, Option.isSome_some]

theorem not_reports_of_point {l : MonitorLoop} (h : ∀ result, l.point ≠ .switch result) :
    l.reports = false := by
  by_contra hr
  obtain ⟨result, v, hp, -⟩ := reports_iff.mp (Bool.eq_true_of_not_eq_false hr)
  exact h result hp

end MonitorLoop

namespace State

/-- What the callback will have been told last once the main queue is empty. -/
def drained (s : State) : Option Bool := s.mainQueue.getLast?.or s.told

/-- Nothing is under way, and some answer came in since the callback was installed:
then the callback was last told the last answer. -/
def Agrees (s : State) : Prop :=
  s.mainQueue = [] → (∀ l ∈ s.loops, ∀ result, l.point ≠ .switch result) →
  s.monitor.callback ≠ none → s.checkedSince = true →
  ∃ v, s.lastVerdict = some v ∧ s.told = some v

/-- A report to the callback is still to come: a block is queued, or every loop that is
alive has not reported yet or is about to. -/
def ReportDue (s : State) : Prop :=
  s.mainQueue ≠ [] ∨ ∀ l ∈ s.loops, l.alive = true → l.firstRun = true ∨ l.reports = true

/-- Monitoring starts with no loop alive, and a callback that replaces another while
monitoring goes on does so while a report is due. -/
def InstallsFresh (s : State) (a : Action) : Prop :=
  s.SpawnsIdle a ∧ match a with
    | .startWithCallback _ => s.monitor.monitorRunning = true → s.ReportDue
    | _ => True

/-- What the run has made of one loop: an answer it holds is the last verdict, and an
answer it would not dispatch is the one already told or queued. -/
structure LoopSound (s : State) (l : MonitorLoop) : Prop where
  pending : ∀ result v, l.point = .switch result → result.verdict = some v →
    s.lastVerdict = some v
  told : l.firstRun = true ∨ s.drained = some l.previousState ∨ l.reports = true

structure Sound (s : State) : Prop where
  alone : s.aliveLoops ≤ 1
  loops : ∀ (i : ℕ) (l : MonitorLoop), s.loops[i]? = some l → l.alive = true → s.LoopSound l
  shown : s.checkedSince = true → (∃ v, s.lastVerdict = some v ∧ s.drained = some v) ∨
    ∃ (i : ℕ) (l : MonitorLoop), s.loops[i]? = some l ∧ l.alive = true ∧ l.reports = true

theorem Sound.initial : Sound initial where
  alone := Nat.zero_le 1
  loops i l h := by simp [State.initial] at h
  shown h := by simp [State.initial] at h

/-- Two alive loops at different places count as two. -/
theorem alive_unique {s : State} (hone : s.aliveLoops ≤ 1) {i j : ℕ} {l m : MonitorLoop}
    (hi : s.loops[i]? = some l) (hl : l.alive = true) (hj : s.loops[j]? = some m)
    (hm : m.alive = true) : i = j := by
  by_contra hij
  let dead : MonitorLoop := { l with point := .left }
  have hset := aliveLoops_setLoop hi dead
  have hj' : (s.setLoop i dead).loops[j]? = some m := by
    rw [setLoop_loops, List.getElem?_set_ne hij, hj]
  have hpos : 0 < (s.setLoop i dead).aliveLoops :=
    List.countP_pos_iff.mpr ⟨m, List.mem_of_getElem? hj', hm⟩
  rw [hl, show dead.alive = false from rfl, Bool.toNat_true, Bool.toNat_false] at hset
  omega

theorem Sound.agrees {s : State} (h : s.Sound) : s.Agrees := by
  intro hq hp _ hc
  have hd : s.drained = s.told := by simp [drained, hq]
  rcases h.shown hc with ⟨v, hv, ht⟩ | ⟨i, l, hi, _, hr⟩
  · exact ⟨v, hv, hd ▸ ht⟩
  · obtain ⟨result, _, hpt, -⟩ := MonitorLoop.reports_iff.mp hr
    exact absurd hpt (hp l (List.mem_of_getElem? hi) result)

/-- The alive loop `i` moves to `l'`: the facts about the other loops hold of no loop,
so those about `l'` and about the display are enough. -/
theorem Sound.setLoop {s t : State} {i : ℕ} {l : MonitorLoop} (h : s.Sound)
    (hi : s.loops[i]? = some l) (hl : l.alive = true) (l' : MonitorLoop)
    (ht : t.loops = s.loops.set i l')
    (hsound : l'.alive = true → t.LoopSound l')
    (hshown : t.checkedSince = true → (∃ v, t.lastVerdict = some v ∧ t.drained = some v) ∨
      (l'.alive = true ∧ l'.reports = true)) : t.Sound := by
  obtain ⟨hlt, -⟩ := List.getElem?_eq_some_iff.mp hi
  have hself : t.loops[i]? = some l' := by rw [ht, List.getElem?_set_self hlt]
  refine ⟨?_, fun j m hj hm => ?_, fun hc => ?_⟩
  · have hset := aliveLoops_setLoop hi l'
    have hcount : t.aliveLoops = (s.setLoop i l').aliveLoops := by
      simp only [aliveLoops, ht, setLoop_loops]
    have := Bool.toNat_le l'.alive
    have := h.alone
    rw [hl, Bool.toNat_true] at hset
    omega
  · by_cases hij : i = j
    · subst hij
      obtain rfl := Option.some.inj (hself.symm.trans hj)
      exact hsound hm
    · rw [ht, List.getElem?_set_ne hij] at hj
      exact absurd (alive_unique h.alone hi hl hj hm) hij
  · rcases hshown hc with hv | ⟨ha, hr⟩
    · exact .inl hv
    · exact .inr ⟨i, l', hself, ha, hr⟩

/-- A state that has the loops of `s` and shows what `s` shows is as sound as `s`. -/
theorem Sound.same {s t : State} (h : s.Sound) (hl : t.loops = s.loops)
    (hd : t.drained = s.drained) (hv : t.lastVerdict = s.lastVerdict)
    (hc : t.checkedSince = true → s.checkedSince = true) : t.Sound where
  alone := by simpa only [aliveLoops, hl] using h.alone
  loops i l hi ha := by
    rw [hl] at hi
    have hs := h.loops i l hi ha
    exact ⟨fun result v hp hr => hv.trans (hs.pending result v hp hr), by rw [hd]; exact hs.told⟩
  shown hct := by
    rw [hl, hv, hd]
    exact h.shown (hc hct)

theorem Sound.not_reports {s : State} (h : s.Sound) {i : ℕ} {l : MonitorLoop}
    (hi : s.loops[i]? = some l) (hl : l.alive = true) (hr : l.reports = false)
    (hc : s.checkedSince = true) : ∃ v, s.lastVerdict = some v ∧ s.drained = some v := by
  rcases h.shown hc with hv | ⟨j, m, hj, hm, hrm⟩
  · exact hv
  · obtain rfl := alive_unique h.alone hi hl hj hm
    obtain rfl := Option.some.inj (hi.symm.trans hj)
    exact absurd hrm (by simp [hr])

/-- A loop that neither held a result nor takes one keeps what is known about it. -/
theorem Sound.move {s : State} {i : ℕ} {l : MonitorLoop} {point : LoopPoint} (h : s.Sound)
    (hi : s.loops[i]? = some l) (hl : l.alive = true)
    (hp : ∀ result, l.point ≠ .switch result) (hp' : ∀ result, point ≠ .switch result) :
    (s.setLoop i { l with point := point }).Sound := by
  have hr := MonitorLoop.not_reports_of_point hp
  refine h.setLoop hi hl _ rfl (fun _ => ⟨fun result v hpt _ => absurd hpt (hp' result), ?_⟩)
    fun hc => .inl (h.not_reports hi hl hr hc)
  rcases (h.loops i l hi hl).told with hf | hd | hrep
  · exact .inl hf
  · exact .inr (.inl hd)
  · exact absurd hrep (by simp [hr])

theorem Sound.check {s : State} {i : ℕ} {l : MonitorLoop} (h : s.Sound)
    (hi : s.loops[i]? = some l) (hp : l.point = .checkMonitors) (result : MonitorCheck) :
    ((s.setLoop i { l with point := .switch result }).observe result).Sound := by
  have hl : l.alive = true := by simp [MonitorLoop.alive, hp]
  have hr : l.reports = false := by simp [MonitorLoop.reports, hp]
  have htold : l.firstRun = true ∨ s.drained = some l.previousState := by
    simpa [hr] using (h.loops i l hi hl).told
  apply h.setLoop hi hl { l with point := .switch result } (by simp)
  · intro _
    refine ⟨fun result' v hpt hv => ?_, ?_⟩
    · obtain rfl := LoopPoint.switch.inj hpt
      simp [observe, hv]
    · have hd : ((s.setLoop i { l with point := .switch result }).observe result).drained =
          s.drained := by simp [drained]
      rw [hd]
      exact htold.elim .inl fun hd => .inr (.inl hd)
  · cases hv : result.verdict with
    | none =>
      simp only [observe, hv]
      exact fun hc => .inl (h.not_reports hi hl hr hc)
    | some v =>
      simp only [observe, hv]
      intro _
      by_cases hrep : (l.firstRun || (l.previousState != v)) = true
      · exact .inr ⟨rfl, MonitorLoop.reports_iff.mpr ⟨result, v, rfl, hv, hrep⟩⟩
      · obtain ⟨hf, hprev⟩ : l.firstRun = false ∧ l.previousState = v := by simpa using hrep
        refine .inl ⟨v, rfl, ?_⟩
        have hd := htold.resolve_left (by simp [hf])
        simpa [drained, hprev] using hd

theorem Sound.dispatch {s : State} {i : ℕ} {l : MonitorLoop} {result : MonitorCheck}
    (h : s.Sound) (hi : s.loops[i]? = some l) (hp : l.point = .switch result) :
    { s.setLoop i (l.afterCheck result).1 with
      mainQueue := s.mainQueue ++ (l.afterCheck result).2.toList }.Sound := by
  have hl : l.alive = true := by simp [MonitorLoop.alive, hp]
  have hloop := h.loops i l hi hl
  by_cases hr : l.reports = true
  · obtain ⟨result', v, hp', hv, hrep⟩ := MonitorLoop.reports_iff.mp hr
    obtain rfl := LoopPoint.switch.inj (hp.symm.trans hp')
    have hlast := hloop.pending result v hp hv
    rw [MonitorLoop.afterCheck_of_verdict hv, if_pos hrep]
    refine h.setLoop hi hl _ rfl (fun _ => ⟨fun _ _ hpt => by contradiction, .inr (.inl ?_)⟩)
      fun _ => .inl ⟨v, hlast, ?_⟩
    all_goals simp [drained]
  · have hac : l.afterCheck result = ({ l with point := .sleep }, none) := by
      cases hv : result.verdict with
      | none => exact MonitorLoop.afterCheck_of_verdict_none hv
      | some v =>
        rw [MonitorLoop.afterCheck_of_verdict hv, if_neg]
        exact fun hrep => hr (MonitorLoop.reports_iff.mpr ⟨result, v, hp, hv, hrep⟩)
    have hr' : l.reports = false := Bool.eq_false_of_not_eq_true hr
    simp only [hac, Option.toList_none, List.append_nil]
    refine h.setLoop hi hl _ rfl (fun _ => ⟨fun _ _ hpt => by contradiction, ?_⟩)
      fun hc => .inl (h.not_reports hi hl hr' hc)
    rcases hloop.told with hf | hd | hrep
    · exact .inl hf
    · exact .inr (.inl hd)
    · exact absurd hrep hr

theorem Sound.runBlock {s : State} {block : Bool} {rest : List Bool} (h : s.Sound)
    (hq : s.mainQueue = block :: rest) :
    { s with mainQueue := rest, told := some block }.Sound := by
  refine h.same rfl ?_ rfl id
  simp only [drained, hq]
  cases rest with
  | nil => rfl
  | cons b rest => simp [List.getLast?_cons]

theorem Sound.resume {s : State} (h : s.Sound)
    (hidle : s.monitor.monitorRunning = false → s.aliveLoops = 0) : s.resume.Sound := by
  cases hrun : s.monitor.monitorRunning with
  | true => exact h.same (by simp [State.resume, hrun]) rfl rfl id
  | false =>
    have hzero := hidle hrun
    have hdead : ∀ l ∈ s.loops, l.alive ≠ true := by
      simpa [aliveLoops, List.countP_eq_zero] using hzero
    have hloops : s.resume.loops = s.loops ++ [.start] := by simp [State.resume, hrun]
    refine ⟨?_, fun i l hi ha => ?_, fun hc => ?_⟩
    · simp [aliveLoops_resume, hzero, hrun]
    · have hl : l = .start := by
        rcases List.mem_append.mp (List.mem_of_getElem? (hloops ▸ hi)) with hm | hm
        · exact absurd ha (hdead l hm)
        · exact List.mem_singleton.mp hm
      subst hl
      exact ⟨fun _ _ hpt => by contradiction, .inl rfl⟩
    · rcases h.shown hc with hv | ⟨i, l, hi, ha, _⟩
      · exact .inl hv
      · exact absurd ha (hdead l (List.mem_of_getElem? hi))

theorem Sound.install {s : State} (h : s.Sound) (callback : ℕ)
    (hdue : s.aliveLoops = 0 ∨ s.ReportDue) : (s.install callback).Sound := by
  refine ⟨h.alone, fun i l hi ha => ?_, fun hc => by contradiction⟩
  have hs := h.loops i l hi ha
  have hm := List.mem_of_getElem? hi
  refine ⟨hs.pending, ?_⟩
  rcases hdue with hzero | hq | hall
  · exact absurd ha (List.countP_eq_zero.mp hzero l hm)
  · have hd : (s.install callback).drained = s.drained := by
      obtain ⟨b, hb⟩ := Option.ne_none_iff_exists'.mp (mt List.getLast?_eq_none_iff.mp hq)
      simp [drained, State.install, hb]
    rw [hd]
    exact hs.told
  · exact (hall l hm ha).elim .inl fun hr => .inr (.inr hr)

theorem Sound.step {s s' : State} {a : Action} (h : s.Sound) (hq : s.InstallsFresh a)
    (hstep : s.step a = some s') : s'.Sound := by
  obtain ⟨hidle, hfresh⟩ := hq
  cases step_effect hstep with
  | startWithCallback callback =>
    refine (h.install callback ?_).resume hidle
    cases hrun : s.monitor.monitorRunning with
    | false => exact .inl (hidle hrun)
    | true => exact .inr (hfresh hrun)
  | pauseMonitoring => exact h.same rfl rfl rfl id
  | resumeMonitoring => exact h.resume hidle
  | whileGuard i l hi hp =>
    refine h.move hi (by simp [MonitorLoop.alive, hp]) (by simp [hp]) fun result => ?_
    cases s.monitor.monitorRunning <;> simp
  | checkMonitors i l result hi hp => exact h.check hi hp result
  | dispatch i l result hi hp => exact h.dispatch hi hp
  | sleep i l hi hp => exact h.move hi (by simp [MonitorLoop.alive, hp]) (by simp [hp]) (by simp)
  | runBlock block rest callback hqueue hcallback => exact h.runBlock hqueue

/-- Whenever callbacks are installed only while nothing runs or a report is due, and no two
loops overlap, the callback knows the last verdict in every quiet state. -/
theorem agrees_of_installsFresh (actions : List Action)
    (h : AllSteps State.step InstallsFresh initial actions) :
    AllStates State.step Agrees initial actions :=
  (h.allStates (fun _ _ _ hs hq hstep => hs.step hq hstep) Sound.initial).mono
    fun _ hs => hs.agrees

instance (s : State) (a : Action) : Decidable (s.InstallsFresh a) := by
  unfold InstallsFresh SpawnsIdle Spawns ReportDue
  cases a <;> dsimp only <;> infer_instance

/-- The view is loaded again while the block with the first verdict is queued. Then a pause that
outlasts the loop, and a resumption that reports a new verdict. -/
theorem agrees_of_installsFresh_restart :
    AllStates State.step Agrees initial [.startWithCallback 0, .whileGuard 0,
      .checkMonitors 0 .gridGood, .dispatch 0, .startWithCallback 1, .runBlock,
      .pauseMonitoring, .sleep 0,
      .whileGuard 0, .resumeMonitoring, .whileGuard 1, .checkMonitors 1 .gridBad, .dispatch 1,
      .runBlock] :=
  agrees_of_installsFresh _ (by decide)

/-- The view is loaded again while the verdict stays the same: the new callback is never
called. -/
theorem agrees_fails : ¬ ∀ (actions : List Action) (s : State),
    run State.step initial actions = some s → s.Agrees := by
  intro h
  have hs := h [.startWithCallback 0, .whileGuard 0, .checkMonitors 0 .gridGood, .dispatch 0,
    .runBlock, .sleep 0, .startWithCallback 1, .whileGuard 0, .checkMonitors 0 .gridGood,
    .dispatch 0] _ rfl
  have hasleep : ∀ l ∈ [(⟨true, false, .sleep⟩ : MonitorLoop)], ∀ result,
      l.point ≠ .switch result := by simp
  obtain ⟨v, -, ht⟩ := hs rfl hasleep (by decide) rfl
  exact Option.some_ne_none v ht.symm

end State
end GridApps.Kettle
