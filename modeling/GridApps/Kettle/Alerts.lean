import GridApps.Kettle.CheckMonitors

/-! Which alerts the user is shown. -/
namespace GridApps.Kettle

/-- The keys of `msgIds`, and the alert views that were shown. -/
structure Utilities where
  msgIds : List String
  alertViews : List Alert

namespace Utilities

def init : Utilities := ⟨[], []⟩

/-- An alert without an identity is always shown, another one the first time. -/
def shouldShowAlertForId (u : Utilities) : Option String → Utilities × Bool
  | none => (u, true)
  | some msgId =>
    if msgId ∈ u.msgIds then (u, false) else ({ u with msgIds := u.msgIds ++ [msgId] }, true)

def showAlert (u : Utilities) (alert : Alert) : Utilities :=
  let r := u.shouldShowAlertForId alert.msgIdentity
  if r.2 then { r.1 with alertViews := r.1.alertViews ++ [alert] } else r.1

def showAlerts (u : Utilities) (alerts : List Alert) : Utilities := alerts.foldl showAlert u

theorem showAlert_eq (u : Utilities) (alert : Alert) :
    (∃ msgId ∈ u.msgIds, alert.msgIdentity = some msgId ∧ u.showAlert alert = u) ∨
      (∀ msgId ∈ u.msgIds, alert.msgIdentity ≠ some msgId) ∧
        u.showAlert alert =
          ⟨u.msgIds ++ alert.msgIdentity.toList, u.alertViews ++ [alert]⟩ := by
  unfold showAlert
  cases alert.msgIdentity with
  | none => exact .inr ⟨by simp, by simp [shouldShowAlertForId]⟩
  | some msgId =>
    by_cases hmem : msgId ∈ u.msgIds
    · exact .inl ⟨msgId, hmem, rfl, by simp [shouldShowAlertForId, hmem]⟩
    · refine .inr ⟨fun other hother h => ?_, by simp [shouldShowAlertForId, hmem]⟩
      exact hmem (Option.some.inj h ▸ hother)

/-- The identities that are kept are those of the alerts that were shown, each shown once. -/
structure Sound (u : Utilities) : Prop where
  shown : u.alertViews.filterMap Alert.msgIdentity = u.msgIds
  distinct : u.msgIds.Nodup

theorem sound_init : init.Sound := ⟨rfl, List.nodup_nil⟩

theorem Sound.showAlert {u : Utilities} (h : u.Sound) (alert : Alert) :
    (u.showAlert alert).Sound := by
  rcases u.showAlert_eq alert with ⟨msgId, -, -, hsame⟩ | ⟨hnew, hshown⟩
  · rwa [hsame]
  · rw [hshown]
    constructor
    · rw [List.filterMap_append, h.shown]
      cases hid : alert.msgIdentity <;> simp [hid]
    · cases hid : alert.msgIdentity with
      | none => simpa using h.distinct
      | some msgId =>
        apply List.nodup_append.mpr
        refine ⟨h.distinct, List.nodup_singleton _, fun other hother msgId' hmsgId' heq => ?_⟩
        obtain rfl := List.mem_singleton.mp hmsgId'
        exact hnew other hother (by rw [hid, heq])

/-- What an alert leaves behind: it is told, and what was shown stays. -/
theorem showAlert_told {u : Utilities} (h : u.Sound) (alert : Alert) :
    alert.msgIdentity ∈ (u.showAlert alert).alertViews.map Alert.msgIdentity ∧
      u.alertViews <+: (u.showAlert alert).alertViews := by
  rcases u.showAlert_eq alert with ⟨msgId, hmem, hid, hsame⟩ | ⟨-, hshown⟩
  · rw [← h.shown] at hmem
    obtain ⟨earlier, hearlier, hmsgId⟩ := List.mem_filterMap.mp hmem
    rw [hsame]
    exact ⟨List.mem_map.mpr ⟨earlier, hearlier, hmsgId.trans hid.symm⟩, List.prefix_refl _⟩
  · rw [hshown]
    exact ⟨by simp, List.prefix_append _ _⟩

/-- A run of messages: every alert was shown, or another one with its identity. -/
theorem Sound.showAlerts {u : Utilities} (h : u.Sound) (alerts : List Alert) :
    (u.showAlerts alerts).Sound ∧ u.alertViews <+: (u.showAlerts alerts).alertViews ∧
      ∀ alert ∈ alerts,
        alert.msgIdentity ∈ (u.showAlerts alerts).alertViews.map Alert.msgIdentity := by
  induction alerts generalizing u with
  | nil => exact ⟨h, List.prefix_refl _, by simp⟩
  | cons alert alerts ih =>
    obtain ⟨htold, hpre⟩ := showAlert_told h alert
    obtain ⟨hsound, hpre', hall⟩ := ih (h.showAlert alert)
    refine ⟨hsound, hpre.trans hpre', List.forall_mem_cons.mpr ⟨?_, hall⟩⟩
    exact List.map_subset Alert.msgIdentity hpre'.subset htold

/-- Only what it is told is shown. -/
theorem alertViews_showAlerts (u : Utilities) (alerts : List Alert) :
    ∀ alert ∈ (u.showAlerts alerts).alertViews, alert ∈ u.alertViews ∨ alert ∈ alerts := by
  induction alerts generalizing u with
  | nil => exact fun alert => .inl
  | cons first alerts ih =>
    intro alert halert
    rcases ih (u.showAlert first) alert halert with hview | hlater
    · rcases u.showAlert_eq first with ⟨-, -, -, hsame⟩ | ⟨-, hshown⟩
      · exact .inl (hsame ▸ hview)
      · rw [hshown] at hview
        rcases List.mem_append.mp hview with hview | hfirst
        · exact .inl hview
        · exact .inr (List.mem_singleton.mp hfirst ▸ List.mem_cons_self)
    · exact .inr (List.mem_cons_of_mem first hlater)

end Utilities

/-- The error variable has nothing, or one of the two errors of the monitors. -/
def Told (error : Option TeaError) : Prop := ∀ e ∈ error, e = noInternet ∨ e = cannotParseJson

theorem told_gridStatus (decision : Id → Message Bool) (response : Response)
    {error : Option TeaError} {answer : Answer}
    (h : gridStatus decision response error = .ok answer) (herror : Told error) :
    Told answer.2 := by
  cases hjson : response.json? with
  | none =>
    unfold gridStatus at h
    cases response with
    | noData =>
      obtain rfl := Except.ok.inj h
      exact fun e he => .inl (Option.some.inj he).symm
    | data bytes =>
      have hnone : bytes.bind jsonObjectWithData = none := hjson
      simp only [hnone] at h
      obtain rfl := Except.ok.inj h
      exact fun e he => .inr (Option.some.inj he).symm
  | some json =>
    rw [gridStatus_some decision hjson] at h
    cases hresult : decision (some json) with
    | error exception => simp [hresult, Except.map] at h
    | ok result =>
      rw [hresult] at h
      obtain rfl := Except.ok.inj h
      exact herror

theorem told_enumerate {monitors : List Call}
    (hmonitors : ∀ monitor ∈ monitors, ∀ error answer, monitor error = .ok answer →
      Told error → Told answer.2)
    {s t : Enumeration} (h : enumerate monitors s = .ok t) (hs : Told s.error) : Told t.error := by
  induction monitors generalizing s with
  | nil =>
    obtain rfl := Except.ok.inj h
    exact hs
  | cons monitor monitors ih =>
    obtain ⟨hmonitor, hrest⟩ := List.forall_mem_cons.mp hmonitors
    rw [enumerate, visit] at h
    cases hanswer : monitor s.error with
    | error exception => simp [hanswer, Except.map, Except.bind] at h
    | ok answer =>
      have htold : Told answer.2 := hmonitor s.error answer hanswer hs
      obtain ⟨returnOK, error⟩ := answer
      cases error with
      | none =>
        simp only [hanswer, Except.map, Except.bind] at h
        obtain rfl := Except.ok.inj h
        exact htold
      | some e =>
        simp only [hanswer, Except.map, Except.bind] at h
        exact ih hrest h htold

/-- The checks that return, for what the two servers answer. -/
def checks (answers : List (Bool × Response × Response)) : List Check :=
  answers.filterMap fun r => (GridMonitor.checkMonitors r.1 r.2.1 r.2.2).toOption

theorem msgIdentity_of_mem_checks {answers : List (Bool × Response × Response)} {alert : Alert}
    (h : alert ∈ (checks answers).flatMap Check.alerts) :
    alert.msgIdentity ∈ [noInternet.identifier, cannotParseJson.identifier] := by
  obtain ⟨check, hcheck, halert⟩ := List.mem_flatMap.mp h
  obtain ⟨⟨returnOK, chris, canITurnItOn⟩, -, hreturns⟩ := List.mem_filterMap.mp hcheck
  rw [GridMonitor.checkMonitors, Kettle.checkMonitors] at hreturns
  cases henum : enumerate [ChrisMonitor.gridStatus chris, CanITurnItOn.gridStatus canITurnItOn]
      ⟨none, returnOK, 0⟩ with
  | error exception => simp [henum, Except.map, Except.toOption] at hreturns
  | ok s =>
    have htold : Told s.error := by
      refine told_enumerate ?_ henum (by simp [Told])
      simp only [List.forall_mem_cons, List.not_mem_nil, false_imp_iff, implies_true, and_true]
      exact ⟨fun error answer => told_gridStatus ChrisMonitor.decision chris,
        fun error answer => told_gridStatus CanITurnItOn.decision canITurnItOn⟩
    simp only [henum, Except.map, Except.toOption, Option.some.injEq] at hreturns
    subst hreturns
    cases herror : s.error with
    | none => simp [herror] at halert
    | some e =>
      simp only [herror, List.mem_singleton] at halert
      subst halert
      rcases htold e herror with rfl | rfl
      · exact List.mem_cons_self
      · exact List.mem_cons_of_mem _ List.mem_cons_self

/-- However many checks fail, the user is told of every kind of failure, of each once. -/
theorem alertViews_checks (answers : List (Bool × Response × Response)) :
    let alerts := (checks answers).flatMap Check.alerts
    let views := (Utilities.init.showAlerts alerts).alertViews
    (views.map Alert.msgIdentity).Nodup ∧ views.length ≤ 2 ∧
      ∀ alert ∈ alerts, alert.msgIdentity ∈ views.map Alert.msgIdentity := by
  intro alerts views
  obtain ⟨hsound, -, htold⟩ := Utilities.sound_init.showAlerts alerts
  have hknown : ∀ view ∈ views,
      view.msgIdentity ∈ [noInternet.identifier, cannotParseJson.identifier] := by
    intro view hview
    rcases Utilities.alertViews_showAlerts Utilities.init alerts view hview with hinit | halert
    · contradiction
    · exact msgIdentity_of_mem_checks halert
  have hnodup : (views.map Alert.msgIdentity).Nodup := by
    have hsome : views.map Alert.msgIdentity = (views.filterMap Alert.msgIdentity).map some := by
      symm
      rw [List.map_filterMap]
      apply List.filterMap_eq_map_iff_forall_eq_some.mpr
      intro view hview
      rcases List.mem_pair.mp (hknown view hview) with hid | hid <;> rw [hid] <;> rfl
    rw [hsome, hsound.shown]
    exact hsound.distinct.map (Option.some_injective String)
  refine ⟨hnodup, ?_, htold⟩
  have hsubset : views.map Alert.msgIdentity ⊆
      [noInternet.identifier, cannotParseJson.identifier] := by
    intro msgId hmsgId
    obtain ⟨view, hview, rfl⟩ := List.mem_map.mp hmsgId
    exact hknown view hview
  have hlength := (hnodup.subperm hsubset).length_le
  simpa using hlength

end GridApps.Kettle
