import GridApps.Kettle.CheckMonitors
import GridApps.Kettle.DeviceToken
import GridApps.Kettle.NotificationPanel
import GridApps.Transition.Runs

/-! The reminder button: what a tap promises, and the answers that come later. -/
namespace GridApps.Kettle
open Numeral Transition

def NotificationViewController.disableButton (c : NotificationViewController) :
    NotificationViewController :=
  { c with buttonTitle := "... will do!", buttonEnabled := false }

/-- The request to the server of the application. -/
structure NSMutableURLRequest where
  url : String
  HTTPMethod : String
  HTTPBody : Text
  deriving DecidableEq, Repr

def requestNotify (token : DeviceToken) : NSMutableURLRequest where
  url := "http://home.elsmorian.com:8081/requestnotify"
  HTTPMethod := "POST"
  HTTPBody := ['t', 'o', 'k', 'e', 'n', '='] ++
    (convertTokenToDeviceID token.bytes).get (by rw [convertTokenToDeviceID_eq]; rfl)

/-- What the system tells of a registration, and the connection of the POST that follows it. -/
inductive DelegateCall where
  | didRegister (token : DeviceToken)
  | didFailToRegister
  | didFinishLoading
  | didFailWithError (localizedDescription : String)

/-- What has become of the registration that a tap starts. -/
inductive Attempt where
  | registering
  | posting (request : NSMutableURLRequest)
  | finished
  | failed
  deriving DecidableEq, Repr

/-- The delegate methods. A registration error is only logged; a finished POST is ignored. -/
def Attempt.next : Attempt → DelegateCall → Option Attempt
  | .registering, .didRegister token => some (.posting (requestNotify token))
  | .registering, .didFailToRegister => some .failed
  | .posting _, .didFinishLoading => some .finished
  | .posting _, .didFailWithError _ => some .failed
  | _, _ => none

def DelegateCall.alerts : DelegateCall → List Alert
  | .didFailWithError localizedDescription => [⟨"Error", localizedDescription, none⟩]
  | _ => []

/-- The attempts are in the order of the taps. -/
structure ReminderApp where
  panel : NotificationViewController
  attempts : List Attempt
  alerts : List Alert
  deriving DecidableEq, Repr

/-- A delegate call is for the attempt with its number. -/
inductive ReminderEvent where
  | pleaseAddAReminder
  | delegate (attempt : ℕ) (call : DelegateCall)
  | happy
  | sad

namespace ReminderEvent

/-- A registration error or a failed POST. -/
def isFailure : ReminderEvent → Bool
  | .delegate _ .didFailToRegister => true
  | .delegate _ (.didFailWithError _) => true
  | _ => false

end ReminderEvent

namespace ReminderApp

def viewDidLoad (nib : NotificationViewController) : ReminderApp :=
  ⟨(MainThread.viewDidLoad nib).panel, [], []⟩

/-- A button that is hidden or disabled cannot be tapped. -/
def step (s : ReminderApp) : ReminderEvent → Option ReminderApp
  | .pleaseAddAReminder =>
    if s.panel.buttonHidden = false ∧ s.panel.buttonEnabled = true then
      some { s with panel := s.panel.disableButton, attempts := s.attempts ++ [.registering] }
    else none
  | .delegate i call => (s.attempts[i]?).bind fun attempt => (attempt.next call).map fun next =>
    { s with attempts := s.attempts.set i next, alerts := s.alerts ++ call.alerts }
  | .happy =>
    let message := "Pop the kettle on, the grid is meeting demand!"
    some { s with panel := s.panel.showHappyNotification "Great!" message }
  | .sad =>
    let message := " The grid is under demand, maybe wait a bit before boiling the kettle..."
    some { s with panel := s.panel.showSadNotification "Hold up!" message }

/-- What the button says is true: the last tap still has a registration or a POST outstanding,
or its POST has finished. -/
def Promised (s : ReminderApp) : Prop :=
  s.panel.buttonHidden = false → s.panel.buttonEnabled = false →
    s.panel.buttonTitle = "... will do!" →
    ∃ attempt, s.attempts.getLast? = some attempt ∧ attempt ≠ .failed

/-- After a failure the user can tap again. -/
def Retryable (s : ReminderApp) (event : ReminderEvent) : Prop :=
  event.isFailure = true → ∀ s', s.step event = some s' → s'.panel.buttonEnabled = true

def KeepsPromises (nib : NotificationViewController) (events : List ReminderEvent) : Prop :=
  AllStates step Promised (viewDidLoad nib) events ∧
    AllSteps step Retryable (viewDidLoad nib) events

/-- The grid was reported bad again after the last tap. -/
def SadSinceTap (before : List ReminderEvent) : Prop :=
  Since (· = .sad) (· = .pleaseAddAReminder) before

/-- Every failure comes when the grid has already been reported bad again. -/
def FailuresAfterSad (events : List ReminderEvent) : Prop :=
  ∀ before failure after, events = before ++ failure :: after → failure.isFailure = true →
    SadSinceTap before

theorem next_failed_iff {old new : Attempt} {call : DelegateCall} (i : ℕ)
    (h : old.next call = some new) :
    new = .failed ↔ (ReminderEvent.delegate i call).isFailure = true := by
  cases old <;> cases call <;> simp only [Attempt.next, reduceCtorEq, Option.some.injEq] at h <;>
    simp [← h, ReminderEvent.isFailure]

/-- Everything a step can do to the button and to the attempts. -/
inductive Effect (s s' : ReminderApp) : ReminderEvent → Prop
  | pleaseAddAReminder (hpanel : s'.panel = s.panel.disableButton)
      (hattempts : s'.attempts = s.attempts ++ [.registering]) : Effect s s' .pleaseAddAReminder
  | delegate (i : ℕ) (call : DelegateCall) (old new : Attempt) (hi : s.attempts[i]? = some old)
      (hnext : old.next call = some new) (hpanel : s'.panel = s.panel)
      (hattempts : s'.attempts = s.attempts.set i new) : Effect s s' (.delegate i call)
  | happy (title message : String) (hattempts : s'.attempts = s.attempts)
      (hpanel : s'.panel = s.panel.showHappyNotification title message) : Effect s s' .happy
  | sad (title message : String) (hattempts : s'.attempts = s.attempts)
      (hpanel : s'.panel = s.panel.showSadNotification title message) : Effect s s' .sad

theorem step_effect {s s' : ReminderApp} {event : ReminderEvent} (h : s.step event = some s') :
    Effect s s' event := by
  cases event with
  | pleaseAddAReminder =>
    simp only [step] at h
    split_ifs at h with hbutton
    obtain rfl := Option.some.inj h
    exact .pleaseAddAReminder rfl rfl
  | delegate i call =>
    obtain ⟨old, hi, h⟩ := Option.bind_eq_some_iff.mp h
    obtain ⟨new, hnext, rfl⟩ := Option.map_eq_some_iff.mp h
    exact .delegate i call old new hi hnext rfl rfl
  | happy =>
    obtain rfl := Option.some.inj h
    exact .happy _ _ rfl rfl
  | sad =>
    obtain rfl := Option.some.inj h
    exact .sad _ _ rfl rfl

/-- The button is enabled by a bad grid and disabled by a tap, and before the first tap it is not
shown disabled. -/
structure Tracked (before : List ReminderEvent) (s : ReminderApp) : Prop where
  untapped : s.attempts = [] → s.panel.buttonHidden = false → s.panel.buttonEnabled = true
  enabled : s.attempts ≠ [] → (s.panel.buttonEnabled = true ↔ SadSinceTap before)

theorem sadSinceTap_concat {before : List ReminderEvent} {event : ReminderEvent} :
    SadSinceTap (before ++ [event]) ↔
      event = .sad ∨ event ≠ .pleaseAddAReminder ∧ SadSinceTap before := since_concat

theorem run_tracked {nib : NotificationViewController} {events : List ReminderEvent}
    {s : ReminderApp} (h : run step (viewDidLoad nib) events = some s) : Tracked events s := by
  refine run_induction (P := Tracked) ?_ ?_ h
  · exact ⟨fun _ hvisible => by contradiction, fun hne => absurd rfl hne⟩
  · intro before event s s' _ hstep hs
    cases step_effect hstep with
    | pleaseAddAReminder hpanel hattempts =>
      refine ⟨fun hnil => by simp [hattempts] at hnil, fun _ => ?_⟩
      simp [hpanel, sadSinceTap_concat, NotificationViewController.disableButton]
    | delegate i call old new hi hnext hpanel hattempts =>
      have hne : s.attempts ≠ [] := List.ne_nil_of_mem (List.mem_of_getElem? hi)
      refine ⟨fun hnil => ?_, fun _ => ?_⟩
      · rw [hattempts, List.set_eq_nil_iff] at hnil
        exact absurd hnil hne
      · simp [hpanel, sadSinceTap_concat, hs.enabled hne]
    | happy title message hattempts hpanel =>
      refine ⟨fun _ hvisible => ?_, fun hne => ?_⟩
      · rw [hpanel] at hvisible
        contradiction
      · rw [hpanel, sadSinceTap_concat]
        exact (hs.enabled (hattempts ▸ hne)).trans (by simp)
    | sad title message hattempts hpanel =>
      refine ⟨fun _ _ => by rw [hpanel]; rfl, fun _ => ?_⟩
      rw [hpanel, sadSinceTap_concat]
      exact iff_of_true rfl (.inl rfl)

/-- The button of an attempt is as it was before its delegate call. -/
theorem step_isFailure {s s' : ReminderApp} {event : ReminderEvent} (h : s.step event = some s')
    (hfailure : event.isFailure = true) : s.attempts ≠ [] ∧ s'.panel = s.panel := by
  cases step_effect h with
  | delegate i call old new hi hnext hpanel hattempts =>
    exact ⟨List.ne_nil_of_mem (List.mem_of_getElem? hi), hpanel⟩
  | _ => contradiction

theorem getLast?_set_failed {attempts : List Attempt} {i : ℕ} {new : Attempt}
    (h : (attempts.set i new).getLast? = some .failed) :
    new = .failed ∨ attempts.getLast? = some .failed := by
  rw [List.getLast?_eq_getElem?, List.length_set, List.getElem?_set] at h
  split_ifs at h
  · exact .inl (Option.some.inj h)
  · exact .inr (by rwa [List.getLast?_eq_getElem?])

/-- While the button stays disabled, no failure has come for the last tap. -/
theorem run_last {nib : NotificationViewController} {events : List ReminderEvent}
    {s : ReminderApp} (hsad : FailuresAfterSad events)
    (h : run step (viewDidLoad nib) events = some s) (hdisabled : s.panel.buttonEnabled = false) :
    s.attempts.getLast? ≠ some .failed := by
  refine run_induction (P := fun events s => FailuresAfterSad events →
    s.panel.buttonEnabled = false → s.attempts.getLast? ≠ some .failed) ?_ ?_ h hsad hdisabled
  · simp [viewDidLoad]
  · intro before event s s' hrun hstep ih hsad hdisabled
    have hbefore : FailuresAfterSad before := fun front failure after hsplit =>
      hsad front failure (after ++ [event]) (by simp [hsplit])
    cases step_effect hstep with
    | pleaseAddAReminder hpanel hattempts => simp [hattempts]
    | delegate i call old new hi hnext hpanel hattempts =>
      rw [hpanel] at hdisabled
      intro hlast
      rcases getLast?_set_failed (hattempts ▸ hlast) with hnew | hlast
      · have hfailure := (next_failed_iff i hnext).mp hnew
        have hne := (step_isFailure hstep hfailure).1
        have henabled := ((run_tracked hrun).enabled hne).mpr (hsad before _ [] rfl hfailure)
        rw [hdisabled] at henabled
        contradiction
      · exact ih hbefore hdisabled hlast
    | happy title message hattempts hpanel =>
      rw [hpanel] at hdisabled
      rw [hattempts]
      exact ih hbefore hdisabled
    | sad title message hattempts hpanel =>
      rw [hpanel] at hdisabled
      contradiction

/-- Along a run the button keeps what it promises exactly if every failure comes after another
report of a bad grid: nothing else enables it again. -/
theorem keepsPromises_iff {nib : NotificationViewController} {events : List ReminderEvent}
    {t : ReminderApp} (h : run step (viewDidLoad nib) events = some t) :
    KeepsPromises nib events ↔ FailuresAfterSad events := by
  constructor
  · rintro ⟨-, hretry⟩ before failure after rfl hfailure
    rw [run_append] at h
    obtain ⟨s, hs, hrest⟩ := Option.bind_eq_some_iff.mp h
    obtain ⟨s', hs', -⟩ := Option.bind_eq_some_iff.mp hrest
    have henabled := allSteps_iff_prefixes.mp hretry before failure after s s' rfl hs hs'
      hfailure s' hs'
    obtain ⟨hne, hpanel⟩ := step_isFailure hs' hfailure
    exact ((run_tracked hs).enabled hne).mp (hpanel ▸ henabled)
  · intro hsad
    refine ⟨allStates_iff_prefixes.mpr ?_, allSteps_iff_prefixes.mpr ?_⟩
    · rintro before ⟨after, rfl⟩ s hs hvisible hdisabled -
      have hbefore : FailuresAfterSad before := fun front failure rest hsplit =>
        hsad front failure (rest ++ after) (by simp [hsplit])
      have hlast := run_last hbefore hs hdisabled
      cases hattempts : s.attempts.getLast? with
      | none =>
        have hnil := List.getLast?_eq_none_iff.mp hattempts
        have henabled := (run_tracked hs).untapped hnil hvisible
        rw [hdisabled] at henabled
        contradiction
      | some attempt => exact ⟨attempt, rfl, fun hfailed => hlast (hfailed ▸ hattempts)⟩
    · intro before failure after s s' hsplit hs hs' hfailure s₁ hs₁
      obtain ⟨hne, -⟩ := step_isFailure hs' hfailure
      have hsince := hsad before failure after hsplit hfailure
      have henabled := ((run_tracked hs).enabled hne).mpr hsince
      rw [(step_isFailure hs₁ hfailure).2, henabled]

/-- A registration is refused after another report of a bad grid. -/
theorem keepsPromises_iff_retaken : KeepsPromises .phoneNib
    [.sad, .pleaseAddAReminder, .sad, .delegate 0 .didFailToRegister] ↔
      FailuresAfterSad [.sad, .pleaseAddAReminder, .sad, .delegate 0 .didFailToRegister] :=
  keepsPromises_iff (t := (run step (viewDidLoad .phoneNib)
    [.sad, .pleaseAddAReminder, .sad, .delegate 0 .didFailToRegister]).get rfl) rfl

/-- The registration is refused, and the button goes on to say that it will do. -/
theorem keepsPromises_fails : ¬ KeepsPromises .phoneNib
    [.sad, .pleaseAddAReminder, .delegate 0 .didFailToRegister] := by
  rintro ⟨hpromised, -⟩
  obtain ⟨attempt, hlast, hattempt⟩ := allStates_iff_prefixes.mp hpromised _
    (List.prefix_refl _) _ rfl rfl rfl rfl
  exact hattempt (Option.some.inj hlast).symm

end ReminderApp
end GridApps.Kettle
