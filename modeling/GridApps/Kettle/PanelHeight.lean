import GridApps.Kettle.NotificationPanel
import GridApps.Transition.Runs

/-! The height of the notification panel: the shows change it, and a drag writes back the height
that was saved when it began. -/
namespace GridApps.Kettle
open Transition

namespace NotificationViewController

theorem panAction_frame_height (c : NotificationViewController) (state : GestureState)
    (translation : ℚ) : (c.panAction state translation).1.frame.height =
      if state = .began then c.frame.height else c.notificationFrame.height := by
  cases state <;> rfl

@[simp] theorem panAction_initialFrame (c : NotificationViewController) (state : GestureState)
    (translation : ℚ) : (c.panAction state translation).1.initialFrame = c.initialFrame := by
  cases state <;> rfl

@[simp] theorem panAction_buttonHidden (c : NotificationViewController) (state : GestureState)
    (translation : ℚ) : (c.panAction state translation).1.buttonHidden = c.buttonHidden := by
  cases state <;> rfl

@[simp] theorem animation_frame_height (c : NotificationViewController) (slide : Slide) :
    (c.animation slide).frame.height = c.frame.height := by
  cases slide <;> rfl

end NotificationViewController

/-- The notification on the panel after an event. -/
def Notification.after (shown : Notification) : PanelEvent → Notification
  | .showNotification kind _ _ => kind
  | _ => shown

/-- The notification on the panel after the events; `viewDidLoad` shows the first one. -/
def lastShown (events : List PanelEvent) : Notification := events.foldl Notification.after .unknown

theorem lastShown_concat (before : List PanelEvent) (event : PanelEvent) :
    lastShown (before ++ [event]) = (lastShown before).after event := by
  simp [lastShown]

namespace MainThread

/-- No slide and no completion handler is pending. -/
def Quiet (s : MainThread) : Prop := s.mainQueue = [] ∧ s.completions = 0

/-- The height for what is shown: the reminder button needs some of it. -/
def shownHeight (s : MainThread) : ℚ :=
  if s.panel.buttonHidden then s.panel.initialFrame.height - buttonSizeDiff
  else s.panel.initialFrame.height

def HeightShown (s : MainThread) : Prop := s.panel.frame.height = s.shownHeight

/-- A pan event does not bring an old height back: it starts the gesture, or the frame that was
saved for the gesture has the height that the panel has now. -/
def FreshPan (s : MainThread) : PanelEvent → Prop
  | .pan state _ => state = .began ∨ s.panel.notificationFrame.height = s.panel.frame.height
  | _ => True

/-- A run ends with no slide and no completion handler pending only if the panel has the height
that its last notification needs. -/
def EndsResized (nib : NotificationViewController) (events : List PanelEvent) : Prop :=
  ∀ s, run step (viewDidLoad nib) events = some s → s.Quiet →
    s.panel.frame.height =
      if lastShown events = .sad then nib.frame.height else nib.frame.height - buttonSizeDiff

theorem viewDidLoad_heightShown (nib : NotificationViewController) :
    (viewDidLoad nib).HeightShown := rfl

/-- One step: the height stays right unless the event is a pan with an old height. -/
theorem step_heightShown_iff {s s' : MainThread} {event : PanelEvent}
    (h : s.step event = some s') (hs : s.HeightShown) : s'.HeightShown ↔ s.FreshPan event := by
  cases step_effect h with
  | showNotification kind title message => exact iff_of_true (by cases kind <;> rfl) trivial
  | pan state translation =>
    simp only [HeightShown, shownHeight] at hs
    simp only [HeightShown, shownHeight, FreshPan, ← hs,
      NotificationViewController.panAction_frame_height,
      NotificationViewController.panAction_initialFrame,
      NotificationViewController.panAction_buttonHidden]
    split_ifs with hbegan
    · simp [hbegan]
    · simp [hbegan]
  | runBlock slide rest hqueue =>
    refine iff_of_true ?_ trivial
    exact (NotificationViewController.animation_frame_height _ slide).trans hs
  | tap => exact iff_of_true hs trivial
  | timer timers htimers => exact iff_of_true hs trivial
  | completion completions hcompletions => exact iff_of_true hs trivial

theorem allStates_heightShown_iff (nib : NotificationViewController) (events : List PanelEvent) :
    AllStates step HeightShown (viewDidLoad nib) events ↔
      AllSteps step FreshPan (viewDidLoad nib) events :=
  allStates_iff_allSteps HeightShown (fun _ hs => hs)
    (fun _ _ _ hs hfresh hstep => (step_heightShown_iff hstep hs).mpr hfresh)
    (fun _ _ _ hs hstale hstep hs' => hstale ((step_heightShown_iff hstep hs).mp hs'))
    (viewDidLoad_heightShown nib) events

/-- The button is visible while the sad notification is the last one shown. -/
theorem run_shown {nib : NotificationViewController} {events : List PanelEvent} {s : MainThread}
    (h : run step (viewDidLoad nib) events = some s) :
    s.panel.initialFrame = nib.frame ∧ s.panel.buttonHidden = decide (lastShown events ≠ .sad) := by
  refine run_induction (P := fun events s => s.panel.initialFrame = nib.frame ∧
    s.panel.buttonHidden = decide (lastShown events ≠ .sad)) ⟨rfl, rfl⟩ ?_ h
  rintro before event t s - hstep ⟨hinit, hhidden⟩
  rw [lastShown_concat]
  cases step_effect hstep with
  | showNotification kind title message => cases kind <;> exact ⟨hinit, rfl⟩
  | pan state translation =>
    exact ⟨by simpa using hinit,
      (NotificationViewController.panAction_buttonHidden _ _ _).trans hhidden⟩
  | _ => exact ⟨hinit, hhidden⟩

theorem endsResized_iff {nib : NotificationViewController} {events : List PanelEvent} :
    EndsResized nib events ↔
      ∀ s, run step (viewDidLoad nib) events = some s → s.Quiet → s.HeightShown := by
  refine forall₃_congr fun s hs _ => ?_
  obtain ⟨hinit, hhidden⟩ := run_shown hs
  by_cases hsad : lastShown events = .sad <;>
    simp [HeightShown, shownHeight, hinit, hhidden, hsad]

/-- The end of a slide or of an animation. -/
def IsEnding (event : PanelEvent) : Prop := event = .runBlock ∨ event = .completion

theorem completions_end (s : MainThread) : ∃ ending t, (∀ event ∈ ending, IsEnding event) ∧
    run step s ending = some t ∧ t.mainQueue = s.mainQueue ∧ t.completions = 0 ∧
    (t.HeightShown ↔ s.HeightShown) := by
  obtain ⟨panel, mainQueue, completions, timers⟩ := s
  induction completions generalizing panel with
  | zero => exact ⟨[], _, by simp, rfl, rfl, rfl, Iff.rfl⟩
  | succ completions ih =>
    obtain ⟨ending, t, hending, hrun, hqueue, hcompletions, hheight⟩ := ih panel.completion
    refine ⟨.completion :: ending, t, ?_, hrun, hqueue, hcompletions, hheight⟩
    exact List.forall_mem_cons.mpr ⟨.inr rfl, hending⟩

/-- Whatever is pending can come to its end, and this does not change the height. -/
theorem quiet_reachable (s : MainThread) : ∃ ending t, (∀ event ∈ ending, IsEnding event) ∧
    run step s ending = some t ∧ t.Quiet ∧ (t.HeightShown ↔ s.HeightShown) := by
  obtain ⟨panel, mainQueue, completions, timers⟩ := s
  induction mainQueue generalizing panel completions with
  | nil =>
    obtain ⟨ending, t, hending, hrun, hqueue, hcompletions, hheight⟩ :=
      completions_end ⟨panel, [], completions, timers⟩
    exact ⟨ending, t, hending, hrun, ⟨hqueue, hcompletions⟩, hheight⟩
  | cons slide rest ih =>
    obtain ⟨ending, t, hending, hrun, hquiet, hheight⟩ :=
      ih { panel with frame := (panel.animation slide).frame } (completions + 1)
    refine ⟨.runBlock :: ending, t, List.forall_mem_cons.mpr ⟨.inl rfl, hending⟩, hrun, hquiet, ?_⟩
    simpa [HeightShown, shownHeight] using hheight

/-- However a run goes on once its slides and animations come to their ends, no resize is lost,
exactly if no pan event of the run brings an old height back. -/
theorem endsResized_iff_freshPan (nib : NotificationViewController) (events : List PanelEvent) :
    (∀ before ending, before <+: events → (∀ event ∈ ending, IsEnding event) →
      EndsResized nib (before ++ ending)) ↔ AllSteps step FreshPan (viewDidLoad nib) events := by
  rw [← allStates_heightShown_iff, allStates_iff_prefixes]
  constructor
  · intro hends before hbefore s hs
    obtain ⟨ending, t, hending, hrun, hquiet, hheight⟩ := quiet_reachable s
    refine hheight.mp (endsResized_iff.mp (hends before ending hbefore hending) t ?_ hquiet)
    rw [run_append, hs, Option.bind_some, hrun]
  · intro hright before ending hbefore hending
    refine endsResized_iff.mpr fun t ht _ => ?_
    rw [run_append] at ht
    obtain ⟨s, hs, ht⟩ := Option.bind_eq_some_iff.mp ht
    have hfresh : AllSteps step FreshPan s ending := by
      refine allSteps_of_forall fun event hevent s => ?_
      rcases hending event hevent with rfl | rfl <;> trivial
    have hall : AllStates step HeightShown s ending := by
      refine hfresh.allStates (fun s event s' hs hfresh hstep => ?_) (hright before hbefore s hs)
      exact (step_heightShown_iff hstep hs).mpr hfresh
    exact allStates_iff_prefixes.mp hall ending (List.prefix_refl ending) t ht

/-- The sad notification comes while a finger is on the panel; the next movement of the finger
takes the height back that the reminder button needs. -/
theorem endsResized_fails : ¬ EndsResized .phoneNib [.pan .began 0,
    .showNotification .sad "Oh no.." "We are a little low on power right now!", .pan .changed 0,
    .runBlock, .runBlock, .completion, .completion] := by
  intro h
  have hheight := h _ rfl ⟨rfl, rfl⟩
  exact absurd hheight (by decide +kernel)

end MainThread
end GridApps.Kettle
