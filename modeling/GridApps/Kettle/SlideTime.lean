import GridApps.Kettle.OnScreen

/-! How long the slides take. -/
namespace GridApps.Kettle
open Transition

namespace NotificationViewController

/-- Where a slide ends. -/
def target (c : NotificationViewController) : Slide → ℚ
  | .slideDown => -overdrag
  | .slideUp => topBarToPreserve - c.frame.height
  | .slideUpABit => -overdrag

/-- The duration is that of the way that is left, at half a second for the height. -/
structure MeasuresDistance (c : NotificationViewController) (slide : Slide) : Prop where
  duration_eq : (c.animation slide).duration =
    1 / 2 * |c.target slide - c.frame.y| / c.frame.height
  nonneg : 0 ≤ (c.animation slide).duration
  zero_only : (c.animation slide).duration = 0 → c.frame.y = c.target slide

/-- The places in which the panel can be. -/
structure Reachable (frame : CGRect) : Prop where
  height : topBarToPreserve + overdrag ≤ frame.height
  low : topBarToPreserve - frame.height ≤ frame.y
  high : frame.y ≤ 0

variable {c : NotificationViewController}

@[simp] theorem animation_frame_y (c : NotificationViewController) (slide : Slide) :
    (c.animation slide).frame.y = c.target slide := by
  cases slide with
  | slideDown => simp [animation, slideDown, target, topMargin]
  | slideUp => simp [animation, slideUp, target, sub_eq_neg_add]
  | slideUpABit => rfl

theorem Reachable.height_pos (h : Reachable c.frame) : 0 < c.frame.height := by
  have hheight := h.height
  norm_num [topBarToPreserve, overdrag] at hheight
  linarith

/-- The two summands have the same sign. -/
theorem slideDown_duration_neg (h : Reachable c.frame) : (c.animation .slideDown).duration < 0 := by
  have hpart : c.frame.y + (topMargin - overdrag) < 0 := by
    have hhigh := h.high
    norm_num [topMargin, overdrag]
    linarith
  have hquotient := div_neg_of_neg_of_pos hpart h.height_pos
  simp only [animation, slideDown]
  linarith

/-- The difference is taken the wrong way round. -/
theorem slideUp_duration (h : Reachable c.frame) : (c.animation .slideUp).duration =
    -(1 / 2 * |c.target .slideUp - c.frame.y| / c.frame.height) := by
  have hpart : c.target .slideUp - c.frame.y ≤ 0 := sub_nonpos.mpr h.low
  rw [abs_of_nonpos hpart]
  simp only [animation, slideUp, target]
  ring

/-- A slide over a distance never takes time. -/
theorem duration_nonpos (h : Reachable c.frame) {slide : Slide} (hslide : slide ≠ .slideUpABit) :
    (c.animation slide).duration ≤ 0 := by
  cases slide with
  | slideDown => exact (slideDown_duration_neg h).le
  | slideUp =>
    rw [slideUp_duration h, neg_nonpos]
    exact div_nonneg (by positivity) h.height_pos.le
  | slideUpABit => exact absurd rfl hslide

/-- The duration measures the distance exactly if it is the one of a `slideUp` that has no way to
go. -/
theorem measuresDistance_iff (h : Reachable c.frame) {slide : Slide}
    (hslide : slide ≠ .slideUpABit) :
    c.MeasuresDistance slide ↔
      slide = .slideUp ∧ c.frame.y = topBarToPreserve - c.frame.height := by
  cases slide with
  | slideDown =>
    refine iff_of_false (fun hmeasures => ?_) (by simp)
    exact absurd hmeasures.nonneg (slideDown_duration_neg h).not_ge
  | slideUp =>
    constructor
    · intro hmeasures
      have hzero := (duration_nonpos h hslide).antisymm hmeasures.nonneg
      exact ⟨rfl, hmeasures.zero_only hzero⟩
    · rintro ⟨-, hy⟩
      have hnone : c.target .slideUp - c.frame.y = 0 := sub_eq_zero.mpr hy.symm
      have hzero : (c.animation .slideUp).duration = 0 := by
        simp [slideUp_duration h, hnone]
      exact ⟨by simp [hzero, hnone], hzero.ge, fun _ => hy⟩
  | slideUpABit => exact absurd rfl hslide

/-- The panel is at the top already. -/
theorem measuresDistance_iff_top :
    MeasuresDistance { phoneNib with frame := ⟨10, -115, 300, 230⟩ } .slideUp ↔
      Slide.slideUp = .slideUp ∧ (-115 : ℚ) = topBarToPreserve - 230 :=
  measuresDistance_iff (c := { phoneNib with frame := ⟨10, -115, 300, 230⟩ })
    ⟨by norm_num [topBarToPreserve, overdrag], by norm_num [topBarToPreserve], by norm_num⟩
    (by simp)

/-- The panel is down; the slide up from there has a negative duration. -/
theorem measuresDistance_fails :
    Reachable ⟨10, -20, 300, 230⟩ ∧
      ¬ MeasuresDistance { phoneNib with frame := ⟨10, -20, 300, 230⟩ } .slideUp := by
  refine ⟨⟨?_, ?_, ?_⟩, fun h => absurd h.nonneg (by decide +kernel)⟩
  · norm_num [topBarToPreserve, overdrag]
  · norm_num [topBarToPreserve]
  · norm_num

end NotificationViewController

namespace MainThread

end MainThread
end GridApps.Kettle
