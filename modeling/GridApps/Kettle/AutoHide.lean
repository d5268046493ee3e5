import GridApps.Kettle.NotificationPanel
import GridApps.Transition.Runs

/-! When the timers of the notification panel slide it up. -/
namespace GridApps.Kettle
open Transition

namespace PanelEvent

def isShow : PanelEvent → Bool
  | .showNotification .. => true
  | _ => false

def isTouch : PanelEvent → Bool
  | .tap => true
  | .pan .. => true
  | _ => false

def isTimer : PanelEvent → Bool
  | .timer => true
  | _ => false

end PanelEvent

namespace MainThread

/-! The show whose timer fires after the events `before` has the number of the timers that
fired before; `viewDidLoad` is show 0. -/

/-- There was no later show. -/
def Newest (before : List PanelEvent) : Prop :=
  before.countP PanelEvent.isShow = before.countP PanelEvent.isTimer

def TouchedSinceShow (before : List PanelEvent) : Prop :=
  ∃ front touch back, before = front ++ touch :: back ∧ touch.isTouch = true ∧
    before.countP PanelEvent.isTimer ≤ front.countP PanelEvent.isShow

/-- Since the last timer fired, or since `viewDidLoad` if none did. -/
def TouchedSinceFiring (before : List PanelEvent) : Prop :=
  ∃ front touch back, before = front ++ touch :: back ∧ touch.isTouch = true ∧
    ∀ event ∈ back, event.isTimer = false

/-- Every timer slides the panel up if and only if its show is the newest and nothing was
touched since. -/
def HidesInTime (nib : NotificationViewController) (events : List PanelEvent) : Prop :=
  ∀ before after s s', events = before ++ .timer :: after →
    run step (viewDidLoad nib) before = some s → s.step .timer = some s' →
    (s'.mainQueue = s.mainQueue ++ [.slideUp] ↔ Newest before ∧ ¬ TouchedSinceShow before)

/-- Whenever a timer fires, the touches since the last firing tell what those since its show
would; an earlier show's timer needs one. -/
def FlagSuffices (events : List PanelEvent) : Prop :=
  ∀ before after, events = before ++ .timer :: after →
    Newest before ∧ (TouchedSinceFiring before ↔ TouchedSinceShow before) ∨
      ¬ Newest before ∧ TouchedSinceFiring before

theorem touchedSinceFiring_iff (before : List PanelEvent) : TouchedSinceFiring before ↔
    Since (fun event => event.isTouch = true) (fun event => event.isTimer = true) before := by
  simp only [TouchedSinceFiring, Since, Bool.not_eq_true]

theorem touchedSinceFiring_concat (before : List PanelEvent) (event : PanelEvent) :
    TouchedSinceFiring (before ++ [event]) ↔
      event.isTouch = true ∨ event.isTimer = false ∧ TouchedSinceFiring before := by
  simp only [touchedSinceFiring_iff, since_concat, Bool.not_eq_true]

/-- The flag is set by every touch and cleared by every timer; nothing else writes it. -/
theorem step_pendingTap {s s' : MainThread} {event : PanelEvent} (h : s.step event = some s') :
    s'.panel.pendingTapInNotification = true ↔ event.isTouch = true ∨
      event.isTimer = false ∧ s.panel.pendingTapInNotification = true := by
  cases step_effect h <;> simp [PanelEvent.isTouch, PanelEvent.isTimer]

theorem viewDidLoad_pendingTap (nib : NotificationViewController) :
    (viewDidLoad nib).panel.pendingTapInNotification = false := rfl

/-- Along a run the flag tells whether there was a touch since the last firing. -/
theorem run_pendingTap {nib : NotificationViewController} {before : List PanelEvent}
    {s : MainThread} (h : run step (viewDidLoad nib) before = some s) :
    s.panel.pendingTapInNotification = true ↔ TouchedSinceFiring before := by
  refine run_induction (P := fun before s => s.panel.pendingTapInNotification = true ↔
    TouchedSinceFiring before) ?_ ?_ h
  · simp [viewDidLoad_pendingTap, TouchedSinceFiring]
  · intro before event t s _ hstep ih
    rw [touchedSinceFiring_concat, ← ih, step_pendingTap hstep]

theorem timer_slidesUp_iff {s s' : MainThread} (h : s.step .timer = some s') :
    s'.mainQueue = s.mainQueue ++ [.slideUp] ↔ s.panel.pendingTapInNotification = false := by
  cases step_effect h with
  | timer timers htimers =>
    cases hpending : s.panel.pendingTapInNotification <;>
      simp [NotificationViewController.autoHide, hpending]

theorem step_timer_of_run {nib : NotificationViewController} {before after : List PanelEvent}
    {t : MainThread} (h : run step (viewDidLoad nib) (before ++ .timer :: after) = some t) :
    ∃ s s', run step (viewDidLoad nib) before = some s ∧ s.step .timer = some s' := by
  rw [run_append] at h
  obtain ⟨s, hs, hrest⟩ := Option.bind_eq_some_iff.mp h
  obtain ⟨s', hs', -⟩ := Option.bind_eq_some_iff.mp hrest
  exact ⟨s, s', hs, hs'⟩

/-- The timers of a run do what they should exactly if one flag for all of them is enough. -/
theorem hidesInTime_iff {nib : NotificationViewController} {events : List PanelEvent}
    {t : MainThread} (h : run step (viewDidLoad nib) events = some t) :
    HidesInTime nib events ↔ FlagSuffices events := by
  have hslides : ∀ before s s', run step (viewDidLoad nib) before = some s →
      s.step .timer = some s' →
      (s'.mainQueue = s.mainQueue ++ [.slideUp] ↔ ¬ TouchedSinceFiring before) := by
    intro before s s' hs hs'
    rw [timer_slidesUp_iff hs', ← run_pendingTap hs, Bool.not_eq_true]
  constructor
  · rintro hides before after rfl
    obtain ⟨s, s', hs, hs'⟩ := step_timer_of_run h
    have hright := hides before after s s' rfl hs hs'
    rw [hslides before s s' hs hs'] at hright
    tauto
  · intro hflag before after s s' hsplit hs hs'
    rw [hslides before s s' hs hs']
    have hcond := hflag before after hsplit
    tauto

/-- The first notification, left alone until its timer fires. -/
theorem hidesInTime_iff_first : HidesInTime .phoneNib [.timer] ↔ FlagSuffices [.timer] :=
  hidesInTime_iff (t := ((viewDidLoad .phoneNib).step .timer).get rfl) rfl

/-- A notification is shown before the timer of the first one fires, and this timer slides the
new notification away. -/
theorem hidesInTime_fails :
    ¬ HidesInTime .phoneNib [.showNotification .happy "Great!"
      "Pop the kettle on, the grid is meeting demand!", .timer] := by
  intro h
  have hright := h [.showNotification .happy "Great!"
    "Pop the kettle on, the grid is meeting demand!"] [] _ _ rfl rfl rfl
  have hnewest := (hright.mp rfl).1
  exact absurd hnewest (by unfold Newest; decide)

end MainThread
end GridApps.Kettle
