import GridApps.Kettle.PanelHeight

/-! Where the notification panel can be: between the top edge of the screen and the position in
which only the strip for the finger is left of it. -/
namespace GridApps.Kettle
open Transition

namespace NotificationViewController

/-- A gesture that starts takes its frame from the view. -/
theorem panAction_notificationFrame (c : NotificationViewController) (state : GestureState)
    (translation : ℚ) : (c.panAction state translation).1.notificationFrame =
      if state = .began then c.frame else c.notificationFrame := by
  cases state <;> rfl

/-- The bounds of a drag are those of the saved height. They are in order if it is not less than
the strip, and then one of the corrections at most is made. -/
theorem draggedFrame_bounds (c : NotificationViewController) (translation : ℚ)
    (h : topBarToPreserve ≤ c.notificationFrame.height) :
    topBarToPreserve - c.notificationFrame.height ≤ (c.draggedFrame translation).y ∧
      (c.draggedFrame translation).y ≤ 0 := by
  have horder : -c.notificationFrame.height + topBarToPreserve ≤ 0 := by linarith
  simp only [draggedFrame]
  constructor <;> split_ifs <;> linarith

theorem panAction_bounds (c : NotificationViewController) (state : GestureState) (translation : ℚ)
    (h : topBarToPreserve ≤ (c.panAction state translation).1.frame.height) :
    topBarToPreserve - (c.panAction state translation).1.frame.height ≤
        (c.panAction state translation).1.frame.y ∧
      (c.panAction state translation).1.frame.y ≤ 0 := by
  cases state with
  | began => exact c.beginPan.draggedFrame_bounds translation h
  | changed => exact c.draggedFrame_bounds translation h
  | ended => exact c.draggedFrame_bounds translation h
  | cancelled => exact c.draggedFrame_bounds translation h

end NotificationViewController

/-- The two heights of the panel, with the reminder button and without it. -/
def IsPanelHeight (initialHeight height : ℚ) : Prop :=
  height = initialHeight ∨ height = initialHeight - buttonSizeDiff

theorem IsPanelHeight.le {initialHeight height : ℚ} (h : IsPanelHeight initialHeight height)
    (hinitial : 175 ≤ initialHeight) : topBarToPreserve + overdrag ≤ height := by
  norm_num [topBarToPreserve, overdrag]
  rcases h with rfl | rfl
  · linarith
  · norm_num [buttonSizeDiff]
    linarith

def HasBegun (events : List PanelEvent) : Prop := ∃ translation, .pan .began translation ∈ events

/-- What comes of a gesture comes after the event that begins it. -/
def GesturesBegin (events : List PanelEvent) : Prop :=
  ∀ before state translation after, events = before ++ .pan state translation :: after →
    state = .began ∨ HasBegun before

namespace MainThread

def OnScreen (s : MainThread) : Prop :=
  .slideDown ∉ s.mainQueue →
    topBarToPreserve - s.panel.frame.height ≤ s.panel.frame.y ∧ s.panel.frame.y ≤ 0

/-- The frame of the panel, and the saved one after the first gesture has begun. -/
structure Positioned (initialHeight : ℚ) (begun : Prop) (s : MainThread) : Prop where
  initialFrame : s.panel.initialFrame.height = initialHeight
  height : IsPanelHeight initialHeight s.panel.frame.height
  saved : begun → IsPanelHeight initialHeight s.panel.notificationFrame.height
  onScreen : s.OnScreen

variable {initialHeight : ℚ} {begun : Prop} {s s' : MainThread}

theorem Positioned.of_begun {begun' : Prop} (hs : Positioned initialHeight begun s)
    (h : begun' → begun) : Positioned initialHeight begun' s :=
  { hs with saved := fun hbegun => hs.saved (h hbegun) }

/-- Only the position of a pending `slideDown` is unknown, and every show has one. -/
theorem Positioned.showNotification (hs : Positioned initialHeight begun s) (kind : Notification)
    (title message : String) :
    Positioned initialHeight begun (s.showNotification kind title message) where
  initialFrame := by cases kind <;> exact hs.initialFrame
  height := by
    cases kind with
    | happy => exact .inr (congrArg (· - buttonSizeDiff) hs.initialFrame)
    | sad => exact .inl hs.initialFrame
    | unknown => exact .inr (congrArg (· - buttonSizeDiff) hs.initialFrame)
  saved := by cases kind <;> exact hs.saved
  onScreen := fun hpending => absurd (List.mem_append_right _ (List.mem_singleton_self _)) hpending

theorem Positioned.pan (hs : Positioned initialHeight begun s) (hinitial : 175 ≤ initialHeight)
    {state : GestureState} (hbegan : state = .began ∨ begun) (translation : ℚ)
    (mainQueue : List Slide) :
    Positioned initialHeight True
      { s with panel := (s.panel.panAction state translation).1, mainQueue := mainQueue } := by
  have hheight : IsPanelHeight initialHeight
      (s.panel.panAction state translation).1.frame.height := by
    rw [NotificationViewController.panAction_frame_height]
    split_ifs with h
    · exact hs.height
    · exact hs.saved (hbegan.resolve_left h)
  refine ⟨?_, hheight, fun _ => ?_, fun _ => ?_⟩
  · exact (congrArg CGRect.height (s.panel.panAction_initialFrame state translation)).trans
      hs.initialFrame
  · simp only [NotificationViewController.panAction_notificationFrame]
    split_ifs with h
    · exact hs.height
    · exact hs.saved (hbegan.resolve_left h)
  · have hle := hheight.le hinitial
    exact s.panel.panAction_bounds state translation <| by norm_num [overdrag] at hle; linarith

/-- A slide computes its target from the height that it finds; the targets are on the screen. -/
theorem Positioned.runBlock (hs : Positioned initialHeight begun s) (hinitial : 175 ≤ initialHeight)
    {slide : Slide} {rest : List Slide} (hqueue : s.mainQueue = slide :: rest) :
    Positioned initialHeight begun { s with
      panel := { s.panel with frame := (s.panel.animation slide).frame }
      mainQueue := rest
      completions := s.completions + 1 } := by
  have hheight := NotificationViewController.animation_frame_height s.panel slide
  have hle := hs.height.le hinitial
  refine ⟨hs.initialFrame, hheight ▸ hs.height, hs.saved, fun hpending => ?_⟩
  simp only [hheight]
  norm_num [topBarToPreserve, overdrag] at hle
  cases slide <;>
    norm_num [NotificationViewController.animation, NotificationViewController.slideDown,
      NotificationViewController.slideUp, NotificationViewController.slideUpABit, topMargin,
      topBarToPreserve, overdrag] <;> linarith

theorem step_positioned {event : PanelEvent} (h : s.step event = some s')
    (hs : Positioned initialHeight begun s) (hinitial : 175 ≤ initialHeight)
    (hbegan : ∀ state translation, event = .pan state translation → state = .began ∨ begun) :
    Positioned initialHeight (begun ∨ HasBegun [event]) s' := by
  cases step_effect h with
  | showNotification kind title message =>
    exact (hs.showNotification kind title message).of_begun (by simp [HasBegun])
  | tap => exact { hs with saved := fun hb => hs.saved (by simpa [HasBegun] using hb) }
  | pan state translation =>
    exact (hs.pan hinitial (hbegan state translation rfl) translation _).of_begun fun _ => trivial
  | timer timers htimers =>
    refine { hs with saved := fun hb => hs.saved (by simpa [HasBegun] using hb), onScreen := ?_ }
    exact fun hpending => hs.onScreen fun hmem => hpending (List.mem_append_left _ hmem)
  | runBlock slide rest hqueue =>
    exact (hs.runBlock hinitial hqueue).of_begun (by simp [HasBegun])
  | completion completions hcompletions => exact { hs with saved := fun _ => hs.height }

theorem viewDidLoad_positioned (nib : NotificationViewController) :
    Positioned nib.frame.height False (viewDidLoad nib) where
  initialFrame := rfl
  height := .inr rfl
  saved := False.elim
  onScreen := fun hpending => absurd (List.mem_singleton_self _) hpending

theorem run_positioned {nib : NotificationViewController} {events : List PanelEvent}
    {t : MainThread} (hheight : 175 ≤ nib.frame.height) (hbegin : GesturesBegin events)
    (h : run step (viewDidLoad nib) events = some t) :
    Positioned nib.frame.height (HasBegun events) t := by
  refine run_induction (P := fun events t => GesturesBegin events →
    Positioned nib.frame.height (HasBegun events) t) ?_ ?_ h hbegin
  · exact fun _ => (viewDidLoad_positioned nib).of_begun (by simp [HasBegun])
  · intro before event s s' _ hstep ih hbegin
    have hpos := ih fun front state translation after hsplit =>
      hbegin front state translation (after ++ [event]) (by simp [hsplit])
    have hbegan : ∀ state translation, event = .pan state translation →
        state = .began ∨ HasBegun before := by
      rintro state translation rfl
      exact hbegin before state translation [] rfl
    refine (step_positioned hstep hpos hheight hbegan).of_begun fun hb => ?_
    obtain ⟨translation, hmem⟩ := hb
    exact (List.mem_append.mp hmem).imp (fun h => ⟨translation, h⟩) (fun h => ⟨translation, h⟩)

/-- The panel stays on the screen, wherever the nib file puts it: until the `slideDown` of
`viewDidLoad` has run, this one is pending. -/
theorem onScreen_of_gesturesBegin {nib : NotificationViewController} {events : List PanelEvent}
    (hheight : 175 ≤ nib.frame.height) (hbegin : GesturesBegin events) :
    AllStates step OnScreen (viewDidLoad nib) events := by
  refine allStates_iff_prefixes.mpr fun before hbefore s hs => ?_
  obtain ⟨after, rfl⟩ := hbefore
  have hfront : GesturesBegin before := fun front state translation rest hsplit =>
    hbegin front state translation (rest ++ after) (by simp [hsplit])
  exact (run_positioned hheight hfront hs).onScreen

/-- A drag far beyond the top edge and its end, with a notification in between. -/
theorem onScreen_of_gesturesBegin_drag : AllStates step OnScreen (viewDidLoad .phoneNib)
    [.runBlock, .pan .began 0, .showNotification .sad "Oh no.."
      "We are a little low on power right now!", .pan .changed 400, .pan .ended (-400)] := by
  refine onScreen_of_gesturesBegin (by norm_num [NotificationViewController.phoneNib]) ?_
  intro before state translation after hsplit
  rcases before with _ | ⟨first, _ | ⟨second, before⟩⟩
  · simp at hsplit
  · simp only [List.cons_append, List.nil_append, List.cons.injEq, PanelEvent.pan.injEq] at hsplit
    exact .inl hsplit.2.1.1.symm
  · simp only [List.cons_append, List.cons.injEq] at hsplit
    exact .inr ⟨0, by simp [← hsplit.2.1]⟩

end MainThread
end GridApps.Kettle
