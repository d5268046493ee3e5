import Mathlib.Data.Rat.Floor
import Mathlib.Tactic

/-! The notification panel: its controller, and the main thread that delivers notifications,
gestures, timers, queued slides and the ends of animations to it. -/
namespace GridApps.Kettle

structure CGRect where
  x : ℚ
  y : ℚ
  width : ℚ
  height : ℚ
  deriving DecidableEq, Repr

def topMargin : ℚ := 0

def topBarToPreserve : ℚ := 115

def buttonSizeDiff : ℚ := 40

def overdrag : ℚ := 20

inductive WindowShade where
  | happy | sad | indifferent
  deriving DecidableEq, Repr

/-- The instance variables, with the properties of the subviews that the methods set. `frame`
is the frame of the view. -/
structure NotificationViewController where
  frame : CGRect
  notificationFrame : CGRect
  initialFrame : CGRect
  pendingTapInNotification : Bool
  overdragging : Bool
  notificationHeaderLabel : String
  notificationLabel : String
  buttonHidden : Bool
  buttonEnabled : Bool
  buttonTitle : String
  windowShadeImage : WindowShade
  deriving DecidableEq, Repr

/-- What is passed to `animateWithDuration:animations:`: the new frame is the view's frame at
once, the completion handler runs later. -/
structure Animation where
  duration : ℚ
  frame : CGRect
  deriving DecidableEq, Repr

/-- A block that one of the slide methods dispatches to the main queue. -/
inductive Slide where
  | slideDown | slideUp | slideUpABit
  deriving DecidableEq, Repr

inductive GestureState where
  | began | changed | ended | cancelled
  deriving DecidableEq, Repr

/-- Conversion of a CGFloat to an int, as for the argument of `abs`. -/
def truncate (q : ℚ) : ℤ := if 0 ≤ q then ⌊q⌋ else ⌈q⌉

namespace NotificationViewController

/-- The controller as `MainViewController_iPhone.xib` leaves it, its instance variables zero. -/
def phoneNib : NotificationViewController where
  frame := ⟨10, -20, 300, 270⟩
  notificationFrame := ⟨0, 0, 0, 0⟩
  initialFrame := ⟨0, 0, 0, 0⟩
  pendingTapInNotification := false
  overdragging := false
  notificationHeaderLabel := "Great!"
  notificationLabel := "Dear Grid, please answer my qstn\nHello hello"
  buttonHidden := false
  buttonEnabled := true
  buttonTitle := "Send me a notification"
  windowShadeImage := .happy

def enableButton (c : NotificationViewController) : NotificationViewController :=
  { c with buttonTitle := "Send me a notification", buttonEnabled := true }

/-- The common text of the methods that show a notification, up to
`showAndHideNotificationsInATimelyFashion`. -/
def showNotification (c : NotificationViewController) (title message : String) (hidden : Bool)
    (height : ℚ) (image : WindowShade) : NotificationViewController :=
  { c with
    notificationHeaderLabel := title
    notificationLabel := message
    buttonHidden := hidden
    frame := { c.frame with height := height }
    windowShadeImage := image }

def showHappyNotification (c : NotificationViewController) (title message : String) :
    NotificationViewController :=
  c.showNotification title message true (c.initialFrame.height - buttonSizeDiff) .happy

def showSadNotification (c : NotificationViewController) (title message : String) :
    NotificationViewController :=
  c.enableButton.showNotification title message false c.initialFrame.height .sad

def showUnknownStateNotification (c : NotificationViewController) (title message : String) :
    NotificationViewController :=
  c.showNotification title message true (c.initialFrame.height - buttonSizeDiff) .indifferent

/-- The block of `showAndHideNotificationsInATimelyFashion` that runs after five seconds. -/
def autoHide (c : NotificationViewController) : NotificationViewController × List Slide :=
  ({ c with pendingTapInNotification := false },
    if !c.pendingTapInNotification then [.slideUp] else [])

def slideDown (c : NotificationViewController) : Animation :=
  let newY := topMargin - overdrag
  let part := c.frame.y + newY
  ⟨1 / 2 * (part / c.frame.height), { c.frame with y := newY }⟩

def slideUp (c : NotificationViewController) : Animation :=
  let newY := -c.frame.height + topBarToPreserve
  let part := newY - c.frame.y
  ⟨1 / 2 * (part / c.frame.height), { c.frame with y := newY }⟩

def slideUpABit (c : NotificationViewController) : Animation :=
  ⟨1 / 10, { c.frame with y := -overdrag }⟩

def animation (c : NotificationViewController) : Slide → Animation
  | .slideDown => c.slideDown
  | .slideUp => c.slideUp
  | .slideUpABit => c.slideUpABit

/-- The completion handler of every slide. -/
def completion (c : NotificationViewController) : NotificationViewController :=
  { c with notificationFrame := c.frame }

/-- The slide that the end of a gesture asks for. `abs` is the one for integers. -/
def finishPan (c : NotificationViewController) : List Slide :=
  let originy := c.frame.y
  let distanceMoved := originy - c.notificationFrame.y
  let completeMovement := decide (c.frame.height * (1 / 10) < |truncate distanceMoved|)
  if originy = 0 ∧ c.overdragging then [.slideUp]
  else if -overdrag < originy ∧ originy ≤ 0 then [.slideUpABit]
  else if completeMovement then
    if 0 < distanceMoved then [.slideDown] else [.slideUp]
  else []

/-- The frame for a translation, with the bounds checks. Both compare the value before either
of them corrects it. -/
def draggedFrame (c : NotificationViewController) (translation : ℚ) : CGRect :=
  let potentialNewY := c.notificationFrame.y + translation
  let minHeight := -c.notificationFrame.height + topBarToPreserve
  let y := if potentialNewY < minHeight then minHeight else potentialNewY
  { c.notificationFrame with y := if 0 < potentialNewY then 0 else y }

/-- A gesture starts from the frame of the view; at the bottom it is an overdrag. -/
def beginPan (c : NotificationViewController) : NotificationViewController :=
  { c with
    notificationFrame := c.frame
    overdragging := c.overdragging || decide (c.frame.y = -overdrag) }

def panAction (c : NotificationViewController) (state : GestureState) (translation : ℚ) :
    NotificationViewController × List Slide :=
  let c := { c with pendingTapInNotification := true }
  match state with
  | .began =>
    let c := c.beginPan
    ({ c with frame := c.draggedFrame translation }, [])
  | .ended =>
    ({ c with overdragging := false, frame := c.draggedFrame translation }, c.finishPan)
  | .changed => ({ c with frame := c.draggedFrame translation }, [])
  | .cancelled => ({ c with frame := c.draggedFrame translation }, [])

def tappedInTheNotification (c : NotificationViewController) : NotificationViewController :=
  { c with pendingTapInNotification := true }

@[simp] theorem showNotification_pendingTap (c : NotificationViewController)
    (title message : String) (hidden : Bool) (height : ℚ) (image : WindowShade) :
    (c.showNotification title message hidden height image).pendingTapInNotification =
      c.pendingTapInNotification := rfl

@[simp] theorem panAction_pendingTap (c : NotificationViewController) (state : GestureState)
    (translation : ℚ) : (c.panAction state translation).1.pendingTapInNotification = true := by
  cases state <;> rfl

@[simp] theorem tapped_pendingTap (c : NotificationViewController) :
    c.tappedInTheNotification.pendingTapInNotification = true := rfl

@[simp] theorem autoHide_pendingTap (c : NotificationViewController) :
    c.autoHide.1.pendingTapInNotification = false := rfl

@[simp] theorem completion_pendingTap (c : NotificationViewController) :
    c.completion.pendingTapInNotification = c.pendingTapInNotification := rfl

end NotificationViewController

/-- The main thread: the blocks in its queue, how many completion handlers and how many timers
are outstanding. -/
structure MainThread where
  panel : NotificationViewController
  mainQueue : List Slide
  completions : ℕ
  timers : ℕ
  deriving DecidableEq, Repr

inductive Notification where
  | happy | sad | unknown
  deriving DecidableEq, Repr

inductive PanelEvent where
  | showNotification (kind : Notification) (title message : String)
  | tap
  | pan (state : GestureState) (translation : ℚ)
  | timer
  | runBlock
  | completion
  deriving DecidableEq, Repr

namespace MainThread

/-- `slideDown` is queued and a timer is started. -/
def showAndHideNotificationsInATimelyFashion (s : MainThread) : MainThread :=
  { s with mainQueue := s.mainQueue ++ [.slideDown], timers := s.timers + 1 }

def showNotification (s : MainThread) (kind : Notification) (title message : String) : MainThread :=
  let panel := match kind with
    | .happy => s.panel.showHappyNotification title message
    | .sad => s.panel.showSadNotification title message
    | .unknown => s.panel.showUnknownStateNotification title message
  { s with panel := panel }.showAndHideNotificationsInATimelyFashion

/-- The main thread after `viewDidLoad`, for the controller as the nib file leaves it. -/
def viewDidLoad (nib : NotificationViewController) : MainThread :=
  let panel := { nib with initialFrame := nib.frame, pendingTapInNotification := false }
  MainThread.showNotification ⟨panel, [], 0, 0⟩ .unknown "Hi there!"
    "Checking if this is a good time for tea!"

/-- One event on the main thread. The timers fire in the order in which they were started. -/
def step (s : MainThread) : PanelEvent → Option MainThread
  | .showNotification kind title message => some (s.showNotification kind title message)
  | .tap => some { s with panel := s.panel.tappedInTheNotification }
  | .pan state translation => some { s with
      panel := (s.panel.panAction state translation).1
      mainQueue := s.mainQueue ++ (s.panel.panAction state translation).2 }
  | .timer => match s.timers with
    | 0 => none
    | timers + 1 => some { s with
        panel := s.panel.autoHide.1
        mainQueue := s.mainQueue ++ s.panel.autoHide.2
        timers := timers }
  | .runBlock => match s.mainQueue with
    | [] => none
    | slide :: rest => some { s with
        panel := { s.panel with frame := (s.panel.animation slide).frame }
        mainQueue := rest
        completions := s.completions + 1 }
  | .completion => match s.completions with
    | 0 => none
    | completions + 1 => some { s with panel := s.panel.completion, completions := completions }

@[simp] theorem showNotification_pendingTap (s : MainThread) (kind : Notification)
    (title message : String) :
    (s.showNotification kind title message).panel.pendingTapInNotification =
      s.panel.pendingTapInNotification := by
  cases kind <;> rfl

/-- Everything a step can do, with the conditions under which it does it. -/
inductive Effect (s : MainThread) : PanelEvent → MainThread → Prop
  | showNotification (kind : Notification) (title message : String) :
      Effect s (.showNotification kind title message) (s.showNotification kind title message)
  | tap : Effect s .tap { s with panel := s.panel.tappedInTheNotification }
  | pan (state : GestureState) (translation : ℚ) :
      Effect s (.pan state translation) { s with
        panel := (s.panel.panAction state translation).1
        mainQueue := s.mainQueue ++ (s.panel.panAction state translation).2 }
  | timer (timers : ℕ) (htimers : s.timers = timers + 1) :
      Effect s .timer { s with
        panel := s.panel.autoHide.1
        mainQueue := s.mainQueue ++ s.panel.autoHide.2
        timers := timers }
  | runBlock (slide : Slide) (rest : List Slide) (hqueue : s.mainQueue = slide :: rest) :
      Effect s .runBlock { s with
        panel := { s.panel with frame := (s.panel.animation slide).frame }
        mainQueue := rest
        completions := s.completions + 1 }
  | completion (completions : ℕ) (hcompletions : s.completions = completions + 1) :
      Effect s .completion { s with panel := s.panel.completion, completions := completions }

theorem step_effect {s s' : MainThread} {event : PanelEvent} (h : s.step event = some s') :
    Effect s event s' := by
  cases event with
  | showNotification kind title message =>
    exact Option.some.inj h ▸ .showNotification kind title message
  | tap => exact Option.some.inj h ▸ .tap
  | pan state translation => exact Option.some.inj h ▸ .pan state translation
  | timer =>
    simp only [step] at h
    split at h
    · contradiction
    · next timers htimers => exact Option.some.inj h ▸ .timer timers htimers
  | runBlock =>
    simp only [step] at h
    split at h
    · contradiction
    · next slide rest hqueue => exact Option.some.inj h ▸ .runBlock slide rest hqueue
  | completion =>
    simp only [step] at h
    split at h
    · contradiction
    · next completions hcompletions =>
      exact Option.some.inj h ▸ .completion completions hcompletions

end MainThread
end GridApps.Kettle
