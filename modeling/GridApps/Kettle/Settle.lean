import GridApps.Kettle.NotificationPanel
import GridApps.Transition.Runs

/-! Which slide the end of a drag asks for. -/
namespace GridApps.Kettle
open Transition

theorem abs_truncate (q : ℚ) : |truncate q| = ⌊|q|⌋ := by
  unfold truncate
  split_ifs with h
  · rw [abs_of_nonneg h, abs_of_nonneg (Int.floor_nonneg.mpr h)]
  · have hneg : q < 0 := not_le.mp h
    rw [abs_of_neg hneg, Int.floor_neg, abs_of_nonpos (Int.ceil_nonpos.mpr hneg.le)]

/-- What a drag from `y₀` to `y₁` asks for, by its distance alone. -/
def settle (y₀ y₁ height : ℚ) : List Slide :=
  if y₁ = 0 ∧ y₀ = -overdrag then [.slideUp]
  else if -overdrag < y₁ ∧ y₁ ≤ 0 then [.slideUpABit]
  else if height / 10 < y₁ - y₀ then [.slideDown]
  else if height / 10 < y₀ - y₁ then [.slideUp]
  else []

/-- The least distance whose whole points are more than a tenth of the height. -/
def leastWhole (height : ℚ) : ℚ := ⌊height / 10⌋ + 1

/-- The panel has left `y₀` by more than a tenth of the height and `start`, on the same side, by
the least whole distance, or it has left neither so far. -/
inductive Measured (start y₀ y₁ height : ℚ) : Prop
  | down (hmoved : height / 10 < y₁ - y₀) (hstart : start < y₁)
      (hpoints : leastWhole height ≤ y₁ - start)
  | up (hmoved : height / 10 < y₀ - y₁) (hback : y₁ - y₀ ≤ height / 10) (hstart : y₁ ≤ start)
      (hpoints : leastWhole height ≤ start - y₁)
  | still (hdown : y₁ - y₀ ≤ height / 10) (hup : y₀ - y₁ ≤ height / 10)
      (hpoints : |y₁ - start| < leastWhole height)

theorem lt_floor_iff_leastWhole_le (height q : ℚ) :
    height / 10 < ⌊q⌋ ↔ leastWhole height ≤ q := by
  have hint : ∀ n : ℤ, height / 10 < n ↔ ⌊height / 10⌋ + 1 ≤ n := fun n => by
    rw [← Int.floor_lt, Int.add_one_le_iff]
  rw [hint, Int.le_floor, leastWhole]
  push_cast
  rfl

/-- What is measured in whole points from `start` tells the same as the distance from `y₀` does. -/
theorem measured_iff (start y₀ y₁ height : ℚ) :
    Measured start y₀ y₁ height ↔
      (height / 10 < ⌊|y₁ - start|⌋ ∧ start < y₁ ↔ height / 10 < y₁ - y₀) ∧
      (height / 10 < ⌊|y₁ - start|⌋ ∧ ¬ start < y₁ ↔
        ¬ height / 10 < y₁ - y₀ ∧ height / 10 < y₀ - y₁) := by
  rw [lt_floor_iff_leastWhole_le]
  constructor
  · rintro (⟨hmoved, hstart, hpoints⟩ | ⟨hmoved, hback, hstart, hpoints⟩ | ⟨hdown, hup, hpoints⟩)
    · have hfar : leastWhole height ≤ |y₁ - start| := hpoints.trans (le_abs_self _)
      simp [hmoved, hstart, hfar]
    · have hfar : leastWhole height ≤ |y₁ - start| :=
        hpoints.trans (abs_sub_comm y₁ start ▸ le_abs_self _)
      simp [hmoved, hback.not_gt, hstart.not_gt, hfar]
    · simp [hdown.not_gt, hup.not_gt, hpoints.not_ge]
  · rintro ⟨hdown, hup⟩
    by_cases hfar : leastWhole height ≤ |y₁ - start|
    · by_cases hstart : start < y₁
      · rw [abs_of_pos (sub_pos.mpr hstart)] at hfar
        exact .down (hdown.mp ⟨by rwa [abs_of_pos (sub_pos.mpr hstart)], hstart⟩) hstart hfar
      · obtain ⟨hback, hmoved⟩ := hup.mp ⟨hfar, hstart⟩
        rw [abs_of_nonpos (sub_nonpos.mpr (not_lt.mp hstart)), neg_sub] at hfar
        exact .up hmoved (not_lt.mp hback) (not_lt.mp hstart) hfar
    · have hnotDown : ¬ height / 10 < y₁ - y₀ := fun h => hfar (hdown.mpr h).1
      have hnotUp : ¬ height / 10 < y₀ - y₁ := fun h => hfar (hup.mpr ⟨hnotDown, h⟩).1
      exact .still (not_lt.mp hnotDown) (not_lt.mp hnotUp) (not_le.mp hfar)

/-- Without a completion handler only the distances between a tenth of the height and the least
whole one are measured wrong. -/
theorem measured_self_iff {y₀ y₁ height : ℚ} (hheight : 0 ≤ height) :
    Measured y₀ y₀ y₁ height ↔
      |y₁ - y₀| ≤ height / 10 ∨ leastWhole height ≤ |y₁ - y₀| := by
  have htenth : 0 ≤ height / 10 := by positivity
  have hwhole : height / 10 < leastWhole height := Int.lt_floor_add_one _
  constructor
  · rintro (⟨-, -, hpoints⟩ | ⟨-, -, -, hpoints⟩ | ⟨hdown, hup, -⟩)
    · exact .inr (hpoints.trans (le_abs_self _))
    · exact .inr (hpoints.trans (abs_sub_comm y₁ y₀ ▸ le_abs_self _))
    · exact .inl (abs_sub_le_iff.mpr ⟨hdown, hup⟩)
  · rintro (hnear | hfar)
    · obtain ⟨hdown, hup⟩ := abs_sub_le_iff.mp hnear
      exact .still hdown hup (hnear.trans_lt hwhole)
    · rcases le_abs.mp hfar with hdown | hup
      · exact .down (by linarith) (by linarith) hdown
      · exact .up (by linarith) (by linarith) (by linarith) (by linarith)

theorem downOrUp_eq_iff {far moved down up : Prop} [Decidable far] [Decidable moved]
    [Decidable down] [Decidable up] :
    (if far then if moved then [Slide.slideDown] else [.slideUp] else []) =
        (if down then [.slideDown] else if up then [.slideUp] else []) ↔
      (far ∧ moved ↔ down) ∧ (far ∧ ¬ moved ↔ ¬ down ∧ up) := by
  by_cases far <;> by_cases moved <;> by_cases down <;> by_cases up <;> simp [*]

namespace NotificationViewController

theorem finishPan_eq_settle_iff (c : NotificationViewController) (y₀ : ℚ) :
    c.finishPan = settle y₀ c.frame.y c.frame.height ↔
      (c.frame.y = 0 → (c.overdragging = true ↔ y₀ = -overdrag)) ∧
      (¬ (-overdrag < c.frame.y ∧ c.frame.y ≤ 0) →
        Measured c.notificationFrame.y y₀ c.frame.y c.frame.height) := by
  have hfar : decide (c.frame.height * (1 / 10) < |truncate (c.frame.y - c.notificationFrame.y)|) =
      decide (c.frame.height / 10 < ⌊|c.frame.y - c.notificationFrame.y|⌋) := by
    rw [abs_truncate, mul_one_div]
  simp only [finishPan, settle, hfar, sub_pos, decide_eq_true_eq]
  by_cases hzero : c.frame.y = 0
  · have hbit : -overdrag < c.frame.y ∧ c.frame.y ≤ 0 := by norm_num [hzero, overdrag]
    by_cases hflag : c.overdragging = true <;> by_cases hy : y₀ = -overdrag <;>
      simp [hzero, hflag, hy, overdrag]
  · by_cases hbit : -overdrag < c.frame.y ∧ c.frame.y ≤ 0
    · simp [hzero, hbit]
    · simp only [hzero, hbit, false_and, if_false, IsEmpty.forall_iff, true_and, not_false_iff,
        forall_const, downOrUp_eq_iff, measured_iff]

end NotificationViewController

namespace PanelEvent

/-- What can come while a gesture goes on: everything but the start or the end of a gesture. -/
def isMidway : PanelEvent → Bool
  | .pan .changed _ => true
  | .pan _ _ => false
  | _ => true

end PanelEvent

namespace MainThread

/-- Where a completion handler finds the panel. -/
def settled (s : MainThread) : PanelEvent → List ℚ
  | .completion => [s.panel.frame.y]
  | _ => []

/-- The place from which the code measures a drag: where the last completion handler during it
found the panel, and the start if there was none. -/
def measuredFrom (s : MainThread) (during : List PanelEvent) (y₀ : ℚ) : ℚ :=
  (outputs step settled s during).getLastD y₀

/-- A gesture began with the panel at the bottom, and none has ended since. -/
def OverdragLeft (nib : NotificationViewController) (history : List PanelEvent) : Prop :=
  Since (fun moment => moment.1.panel.frame.y = -overdrag ∧ ∃ t, moment.2 = .pan .began t)
    (fun moment => ∃ t, moment.2 = .pan .ended t) (trace step (viewDidLoad nib) history)

/-- The end of the gesture that begins after `history` asks for the slide that its distance
needs. -/
def SettlesByDistance (nib : NotificationViewController) (history : List PanelEvent)
    (begin finish : ℚ) (during : List PanelEvent) : Prop :=
  ∀ s s₁ s₂, run step (viewDidLoad nib) history = some s →
    run step s (.pan .began begin :: during) = some s₁ → s₁.step (.pan .ended finish) = some s₂ →
    s₂.mainQueue = s₁.mainQueue ++ settle s.panel.frame.y s₁.panel.frame.y s₁.panel.frame.height

/-- Only a gesture that begins sets the flag, and only one that ends clears it. -/
theorem step_overdragging {s s' : MainThread} {event : PanelEvent} (h : s.step event = some s') :
    s'.panel.overdragging = true ↔
      (s.panel.frame.y = -overdrag ∧ ∃ t, event = .pan .began t) ∨
        (¬ ∃ t, event = .pan .ended t) ∧ s.panel.overdragging = true := by
  cases step_effect h with
  | showNotification kind title message =>
    cases kind <;> simp [MainThread.showNotification, showAndHideNotificationsInATimelyFashion,
      NotificationViewController.showHappyNotification,
      NotificationViewController.showSadNotification,
      NotificationViewController.showUnknownStateNotification,
      NotificationViewController.showNotification, NotificationViewController.enableButton]
  | tap => simp [NotificationViewController.tappedInTheNotification]
  | pan state translation =>
    cases state <;> simp [NotificationViewController.panAction,
      NotificationViewController.beginPan, or_comm]
  | timer timers htimers => simp [NotificationViewController.autoHide]
  | runBlock slide rest hqueue => simp
  | completion completions hcompletions => simp [NotificationViewController.completion]

theorem run_overdragging {nib : NotificationViewController} (hnib : nib.overdragging = false)
    {history : List PanelEvent} {s : MainThread}
    (h : run step (viewDidLoad nib) history = some s) :
    s.panel.overdragging = true ↔ OverdragLeft nib history := by
  refine run_induction (P := fun history s =>
    s.panel.overdragging = true ↔ OverdragLeft nib history) ?_ ?_ h
  · have hfalse : (viewDidLoad nib).panel.overdragging = false := hnib
    exact iff_of_false (by simp [hfalse]) (not_since_nil _ _)
  · intro before event s s' hs hstep ih
    rw [step_overdragging hstep, OverdragLeft, trace_concat hs hstep, since_concat, ih,
      OverdragLeft]

/-- During a gesture only a completion handler moves the place from which it is measured. -/
theorem step_midway {s s' : MainThread} {event : PanelEvent} (h : s.step event = some s')
    (hmid : event.isMidway = true) :
    s'.panel.overdragging = s.panel.overdragging ∧
      s'.panel.notificationFrame.y = (s.settled event).getLastD s.panel.notificationFrame.y := by
  cases step_effect h with
  | showNotification kind title message => cases kind <;> exact ⟨rfl, rfl⟩
  | pan state translation =>
    cases state with
    | changed => exact ⟨rfl, rfl⟩
    | _ => contradiction
  | _ => exact ⟨rfl, rfl⟩

theorem run_midway {s t : MainThread} {during : List PanelEvent}
    (hmid : ∀ event ∈ during, event.isMidway = true) (h : run step s during = some t) :
    t.panel.overdragging = s.panel.overdragging ∧
      t.panel.notificationFrame.y = s.measuredFrom during s.panel.notificationFrame.y := by
  refine run_induction (P := fun during t => (∀ event ∈ during, event.isMidway = true) →
    t.panel.overdragging = s.panel.overdragging ∧
      t.panel.notificationFrame.y = s.measuredFrom during s.panel.notificationFrame.y)
    (fun _ => ⟨rfl, rfl⟩) ?_ h hmid
  intro before event t t' ht hstep ih hmid
  obtain ⟨hflag, hframe⟩ := ih fun e he => hmid e (by simp [he])
  obtain ⟨hflag', hframe'⟩ := step_midway hstep (hmid event (by simp))
  refine ⟨hflag'.trans hflag, ?_⟩
  rw [hframe', hframe, measuredFrom, measuredFrom, outputs_concat ht hstep]
  cases event <;> simp [settled]

theorem run_gesture {s s₁ : MainThread} {begin : ℚ} {during : List PanelEvent}
    (hmid : ∀ event ∈ during, event.isMidway = true)
    (h : run step s (.pan .began begin :: during) = some s₁) :
    (s₁.panel.overdragging = true ↔
      s.panel.overdragging = true ∨ s.panel.frame.y = -overdrag) ∧
    s₁.panel.notificationFrame.y =
      s.measuredFrom (.pan .began begin :: during) s.panel.frame.y := by
  obtain ⟨s₀, hs₀, h⟩ := Option.bind_eq_some_iff.mp h
  obtain ⟨hflag, hframe⟩ := run_midway hmid h
  have hmeasured : s.measuredFrom (.pan .began begin :: during) s.panel.frame.y =
      s₀.measuredFrom during s.panel.frame.y := by
    simp [measuredFrom, outputs, hs₀, settled]
  obtain rfl := Option.some.inj hs₀
  rw [hflag, hframe, hmeasured]
  exact ⟨by simp [NotificationViewController.panAction, NotificationViewController.beginPan], rfl⟩

/-- A drag settles the panel by its own distance exactly if no overdrag of a gesture that was
cancelled is left when it ends at the top edge, and elsewhere the panel has left the place where the
drag began by more than a tenth of the height, and the place from which it is measured by the least
whole distance on the same side, or neither. -/
theorem settlesByDistance_iff {nib : NotificationViewController} (hnib : nib.overdragging = false)
    {history during : List PanelEvent} {begin finish : ℚ} {s s₁ : MainThread}
    (hs : run step (viewDidLoad nib) history = some s)
    (hs₁ : run step s (.pan .began begin :: during) = some s₁)
    (hmid : ∀ event ∈ during, event.isMidway = true) :
    SettlesByDistance nib history begin finish during ↔
      (s₁.panel.frame.y = 0 → OverdragLeft nib history → s.panel.frame.y = -overdrag) ∧
      (¬ (-overdrag < s₁.panel.frame.y ∧ s₁.panel.frame.y ≤ 0) →
        Measured (s.measuredFrom (.pan .began begin :: during) s.panel.frame.y) s.panel.frame.y
          s₁.panel.frame.y s₁.panel.frame.height) := by
  obtain ⟨hflag, hframe⟩ := run_gesture hmid hs₁
  have hsettles : SettlesByDistance nib history begin finish during ↔
      s₁.panel.finishPan = settle s.panel.frame.y s₁.panel.frame.y s₁.panel.frame.height := by
    constructor
    · intro h
      exact List.append_cancel_left (h s s₁ _ hs hs₁ rfl)
    · intro h t t₁ t₂ ht ht₁ ht₂
      obtain rfl := Option.some.inj (hs.symm.trans ht)
      obtain rfl := Option.some.inj (hs₁.symm.trans ht₁)
      obtain rfl := Option.some.inj ht₂
      exact congrArg (s₁.mainQueue ++ ·) h
  rw [hsettles, NotificationViewController.finishPan_eq_settle_iff, hframe, hflag,
    run_overdragging hnib hs]
  refine and_congr_left fun _ => imp_congr_right fun _ => ?_
  constructor
  · exact fun h hleft => h.mp (.inl hleft)
  · exact fun h => ⟨fun hor => hor.elim h id, .inr⟩

/-- A drag of thirty points from the bottom. -/
theorem settlesByDistance_iff_thirty :
    SettlesByDistance .phoneNib [.runBlock, .completion] 0 (-30) [.pan .changed (-30)] := by
  refine (settlesByDistance_iff rfl rfl rfl (by simp [PanelEvent.isMidway])).mpr ⟨?_, ?_⟩
  · intro hzero
    exact absurd hzero (by decide +kernel)
  · intro _
    apply (measured_self_iff (by decide +kernel)).mpr
    right
    decide +kernel

/-- A drag of twenty-three and a half points, with twenty-three for a tenth of the height. -/
theorem settlesByDistance_fails :
    ¬ SettlesByDistance .phoneNib [.runBlock, .completion] 0 (-47 / 2)
      [.pan .changed (-47 / 2)] := by
  intro h
  exact absurd (h _ _ _ rfl rfl rfl) (by decide +kernel)

end MainThread
end GridApps.Kettle
