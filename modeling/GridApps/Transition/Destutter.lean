import Mathlib.Data.List.Destutter

/-! Collapsing consecutive repeats of a list that grows at its end. -/
namespace GridApps.Transition

variable {α : Type*} [DecidableEq α]

theorem destutter'_concat_ne (a v : α) (l : List α) :
    (l ++ [v]).destutter' (· ≠ ·) a =
      if (a :: l).getLast? = some v then l.destutter' (· ≠ ·) a
      else l.destutter' (· ≠ ·) a ++ [v] := by
  induction l generalizing a with
  | nil => by_cases h : a = v <;> simp [h]
  | cons b l ih =>
    rw [List.getLast?_cons_cons]
    by_cases h : a = b
    · subst h
      simpa [List.destutter'_cons] using ih a
    · rw [List.cons_append, List.destutter'_cons_pos _ h, List.destutter'_cons_pos _ h, ih b]
      split_ifs <;> rfl

/-- A value at the end is kept unless it repeats the last one. -/
theorem destutter_concat_ne (l : List α) (v : α) :
    (l ++ [v]).destutter (· ≠ ·) =
      if l.getLast? = some v then l.destutter (· ≠ ·) else l.destutter (· ≠ ·) ++ [v] := by
  cases l with
  | nil => rfl
  | cons a l => exact destutter'_concat_ne a v l

theorem getLast?_destutter_ne (l : List α) : (l.destutter (· ≠ ·)).getLast? = l.getLast? := by
  induction l using List.reverseRecOn with
  | nil => rfl
  | append_singleton l v ih =>
    rw [destutter_concat_ne]
    split_ifs with h
    · rw [ih, h, List.getLast?_concat]
    · rw [List.getLast?_concat, List.getLast?_concat]

theorem head?_destutter_ne (l : List α) : (l.destutter (· ≠ ·)).head? = l.head? := by
  induction l using List.reverseRecOn with
  | nil => rfl
  | append_singleton l v ih =>
    rw [destutter_concat_ne, List.head?_append]
    split_ifs with h
    · rw [ih]
      cases l with
      | nil => contradiction
      | cons a l => rfl
    · rw [List.head?_append, ih]

end GridApps.Transition
