import Mathlib.Data.List.Infix

/-! Finite runs of a partial labelled step, and the properties of every state
and of every step of a run. -/
namespace GridApps.Transition

variable {S A : Type*} (step : S → A → Option S)

/-- The labels are performed in order; one that is not possible ends the run in `none`. -/
def run : S → List A → Option S
  | s, [] => some s
  | s, a :: as => (step s a).bind fun s' => run s' as

/-- `P` holds in every state the labels lead through, the first one included. -/
def AllStates (P : S → Prop) : S → List A → Prop
  | s, [] => P s
  | s, a :: as => P s ∧ ∀ s', step s a = some s' → AllStates P s' as

/-- `Q` holds of every step taken, as a property of the state before it and of its label. -/
def AllSteps (Q : S → A → Prop) : S → List A → Prop
  | _, [] => True
  | s, a :: as => ∀ s', step s a = some s' → Q s a ∧ AllSteps Q s' as

instance decidableAllSteps {Q : S → A → Prop} [∀ s a, Decidable (Q s a)] :
    ∀ s as, Decidable (AllSteps step Q s as)
  | _, [] => isTrue trivial
  | s, a :: as =>
    match h : step s a with
    | none => isTrue fun s' hs' => by rw [h] at hs'; contradiction
    | some s' =>
      have := decidableAllSteps (Q := Q) s' as
      decidable_of_iff (Q s a ∧ AllSteps step Q s' as) <| by simp [AllSteps, h]

theorem run_append (s : S) (as bs : List A) :
    run step s (as ++ bs) = (run step s as).bind fun s' => run step s' bs := by
  induction as generalizing s with
  | nil => rfl
  | cons a as ih =>
    simp only [List.cons_append, run]
    cases step s a with
    | none => rfl
    | some s' => exact ih s'

/-- A step that another one follows through a map of the states: so does a run. -/
theorem run_map {S' : Type*} {step' : S' → A → Option S'} {f : S → S'}
    (hstep : ∀ s a, step' (f s) a = (step s a).map f) (s : S) (as : List A) :
    run step' (f s) as = (run step s as).map f := by
  induction as generalizing s with
  | nil => rfl
  | cons a as ih =>
    simp only [run, hstep]
    cases step s a with
    | none => rfl
    | some s' => exact ih s'

variable {step}

theorem run_concat {s t : S} {as : List A} {a : A} :
    run step s (as ++ [a]) = some t ↔ ∃ s', run step s as = some s' ∧ step s' a = some t := by
  rw [run_append, Option.bind_eq_some_iff]
  refine exists_congr fun s' => and_congr_right fun _ => ?_
  cases h : step s' a <;> simp [run, h]

/-- Induction on a run from its first state: what the history and the state have in common is
kept by every step. -/
theorem run_induction {s : S} {P : List A → S → Prop} (hnil : P [] s)
    (hconcat : ∀ as a t t', run step s as = some t → step t a = some t' → P as t →
      P (as ++ [a]) t')
    {as : List A} {t : S} (h : run step s as = some t) : P as t := by
  induction as using List.reverseRecOn generalizing t with
  | nil => exact Option.some.inj h ▸ hnil
  | append_singleton as a ih =>
    obtain ⟨s', hs', ht⟩ := run_concat.mp h
    exact hconcat as a s' t hs' ht (ih hs')

theorem AllStates.head {P : S → Prop} {s : S} {as : List A} (h : AllStates step P s as) :
    P s := by
  cases as with
  | nil => exact h
  | cons a as => exact h.1

/-- `AllStates` speaks of exactly the states reached by the prefixes of the labels. -/
theorem allStates_iff_prefixes {P : S → Prop} {s : S} {as : List A} :
    AllStates step P s as ↔ ∀ bs, bs <+: as → ∀ t, run step s bs = some t → P t := by
  induction as generalizing s with
  | nil => simp [AllStates, run]
  | cons a as ih =>
    simp only [AllStates, ih]
    constructor
    · rintro ⟨hs, h⟩ bs hbs t ht
      cases bs with
      | nil => exact Option.some.inj ht ▸ hs
      | cons b bs =>
        obtain ⟨rfl, hpre⟩ := List.cons_prefix_cons.mp hbs
        obtain ⟨s', hs', ht⟩ := Option.bind_eq_some_iff.mp ht
        exact h s' hs' bs hpre t ht
    · intro h
      refine ⟨h [] List.nil_prefix s rfl, fun s' hs' bs hbs t ht => ?_⟩
      apply h (a :: bs) (List.cons_prefix_cons.mpr ⟨rfl, hbs⟩) t
      simp only [run, hs', Option.bind_some, ht]

/-- `AllSteps` speaks of exactly the steps taken after the prefixes of the labels. -/
theorem allSteps_iff_prefixes {Q : S → A → Prop} {s : S} {as : List A} :
    AllSteps step Q s as ↔ ∀ before a after t t', as = before ++ a :: after →
      run step s before = some t → step t a = some t' → Q t a := by
  induction as generalizing s with
  | nil => simp [AllSteps]
  | cons a as ih =>
    simp only [AllSteps, ih]
    constructor
    · rintro h before b after t t' hsplit ht ht'
      cases before with
      | nil =>
        obtain ⟨rfl, rfl⟩ := List.cons.inj hsplit
        obtain rfl := Option.some.inj ht
        exact (h t' ht').1
      | cons c before =>
        obtain ⟨rfl, htail⟩ := List.cons.inj hsplit
        obtain ⟨s', hs', ht⟩ := Option.bind_eq_some_iff.mp ht
        exact (h s' hs').2 before b after t t' htail ht ht'
    · intro h s' hs'
      refine ⟨h [] a as s s' rfl rfl hs', fun before b after t t' hsplit ht ht' => ?_⟩
      refine h (a :: before) b after t t' (congrArg (a :: ·) hsplit) ?_ ht'
      simp only [run, hs', Option.bind_some, ht]

theorem AllStates.mono {P P' : S → Prop} (hP : ∀ s, P s → P' s) {s : S} {as : List A}
    (h : AllStates step P s as) : AllStates step P' s as := by
  rw [allStates_iff_prefixes] at h ⊢
  exact fun bs hbs t ht => hP t (h bs hbs t ht)

/-- Steps admitted whatever the state before them are admitted along every run. -/
theorem allSteps_of_forall {Q : S → A → Prop} {s : S} {as : List A}
    (h : ∀ a ∈ as, ∀ s, Q s a) : AllSteps step Q s as := by
  induction as generalizing s with
  | nil => trivial
  | cons a as ih =>
    obtain ⟨ha, has⟩ := List.forall_mem_cons.mp h
    exact fun s' _ => ⟨ha s, ih has⟩

/-- The run rule: what every admitted step preserves holds in every state of a run
all of whose steps are admitted. -/
theorem AllSteps.allStates {Inv : S → Prop} {Q : S → A → Prop}
    (hstep : ∀ s a s', Inv s → Q s a → step s a = some s' → Inv s')
    {s : S} {as : List A} (hs : Inv s) (h : AllSteps step Q s as) : AllStates step Inv s as := by
  induction as generalizing s with
  | nil => exact hs
  | cons a as ih =>
    refine ⟨hs, fun s' hs' => ?_⟩
    obtain ⟨hq, h⟩ := h s' hs'
    exact ih (hstep s a s' hs hq hs') h

/-- What every step preserves holds in every state of every run. -/
theorem allStates_of_step {Inv : S → Prop} (hstep : ∀ s a s', Inv s → step s a = some s' → Inv s')
    {s : S} (hs : Inv s) (as : List A) : AllStates step Inv s as := by
  refine AllSteps.allStates (Q := fun _ _ => True) ?_ hs (allSteps_of_forall fun _ _ _ => trivial)
  exact fun s a s' hs _ h => hstep s a s' hs h

/-- When an admitted step preserves an invariant that contains `P`, and a step that is
not admitted ends outside `P`, then `P` holds along a run exactly when all its steps
are admitted. -/
theorem allStates_iff_allSteps (Inv : S → Prop) {P : S → Prop} {Q : S → A → Prop}
    (hP : ∀ s, Inv s → P s)
    (hstep : ∀ s a s', Inv s → Q s a → step s a = some s' → Inv s')
    (hbad : ∀ s a s', Inv s → ¬ Q s a → step s a = some s' → ¬ P s')
    {s : S} (hs : Inv s) (as : List A) :
    AllStates step P s as ↔ AllSteps step Q s as := by
  refine ⟨fun h => ?_, fun h => (h.allStates hstep hs).mono hP⟩
  induction as generalizing s with
  | nil => trivial
  | cons a as ih =>
    intro s' hs'
    have hq : Q s a := by
      by_contra hq
      exact hbad s a s' hs hq hs' (h.2 s' hs').head
    exact ⟨hq, ih (hstep s a s' hs hq hs') (h.2 s' hs')⟩

variable (step) in
/-- What the steps of a run put out, in order. -/
def outputs {B : Type*} (out : S → A → List B) : S → List A → List B
  | _, [] => []
  | s, a :: as => match step s a with
    | none => []
    | some s' => out s a ++ outputs out s' as

theorem outputs_concat {B : Type*} {out : S → A → List B} {s t t' : S} {as : List A} {a : A}
    (ht : run step s as = some t) (ht' : step t a = some t') :
    outputs step out s (as ++ [a]) = outputs step out s as ++ out t a := by
  induction as generalizing s with
  | nil =>
    obtain rfl := Option.some.inj ht
    simp [outputs, ht']
  | cons b as ih =>
    obtain ⟨s', hs', ht⟩ := Option.bind_eq_some_iff.mp ht
    simp only [List.cons_append, outputs, hs', ih ht, List.append_assoc]

theorem forall_mem_outputs {B : Type*} {out : S → A → List B} {P : B → Prop} {s : S} {as : List A}
    (h : ∀ a ∈ as, ∀ s, ∀ b ∈ out s a, P b) : ∀ b ∈ outputs step out s as, P b := by
  induction as generalizing s with
  | nil => simp [outputs]
  | cons a as ih =>
    obtain ⟨ha, has⟩ := List.forall_mem_cons.mp h
    intro b hb
    unfold outputs at hb
    split at hb
    · simp at hb
    · exact (List.mem_append.mp hb).elim (ha s b) (ih has b)

variable (step) in
/-- The steps of a run: the state before it and the label. -/
def trace : S → List A → List (S × A) := outputs step fun s a => [(s, a)]

theorem trace_concat {s t t' : S} {as : List A} {a : A} (ht : run step s as = some t)
    (ht' : step t a = some t') : trace step s (as ++ [a]) = trace step s as ++ [(t, a)] :=
  outputs_concat ht ht'

/-- Since the last label with `Q`, or since the start, there was one with `P`. -/
def Since (P Q : A → Prop) (as : List A) : Prop :=
  ∃ front a back, as = front ++ a :: back ∧ P a ∧ ∀ b ∈ back, ¬ Q b

theorem not_since_nil (P Q : A → Prop) : ¬ Since P Q [] := by
  rintro ⟨front, a, back, hsplit, -⟩
  simp at hsplit

theorem since_concat {P Q : A → Prop} {as : List A} {a : A} :
    Since P Q (as ++ [a]) ↔ P a ∨ ¬ Q a ∧ Since P Q as := by
  constructor
  · rintro ⟨front, b, back, hsplit, hb, hback⟩
    rcases List.eq_nil_or_concat back with rfl | ⟨back, last, rfl⟩
    · obtain ⟨-, hlast⟩ := List.append_inj' hsplit rfl
      obtain rfl := List.head_eq_of_cons_eq hlast
      exact .inl hb
    · rw [List.concat_eq_append, ← List.cons_append, ← List.append_assoc] at hsplit
      obtain ⟨rfl, hlast⟩ := List.append_inj' hsplit rfl
      obtain rfl := List.head_eq_of_cons_eq hlast
      exact .inr ⟨hback _ (by simp), front, b, back, rfl, hb, fun e he => hback e (by simp [he])⟩
  · rintro (hb | ⟨ha, front, b, back, rfl, hb, hback⟩)
    · exact ⟨as, a, [], rfl, hb, by simp⟩
    · refine ⟨front, b, back ++ [a], by simp, hb, fun e he => ?_⟩
      rcases List.mem_append.mp he with he | he
      · exact hback e he
      · exact List.mem_singleton.mp he ▸ ha

end GridApps.Transition
