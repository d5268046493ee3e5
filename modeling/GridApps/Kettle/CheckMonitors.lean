import GridApps.Kettle.GridMonitor
import GridApps.Kettle.Monitors

/-! One check of the grid monitor: its monitors are asked in turn until one knows the answer. -/
namespace GridApps.Kettle

/-- A call of `gridStatus:`, given the error variable. -/
abbrev Call := Option TeaError → Message Answer

/-- The `__block` variables of `checkMonitors`, and how many monitors were asked. -/
structure Enumeration where
  error : Option TeaError
  returnOK : Bool
  queried : ℕ
  deriving DecidableEq

/-- A message `showAlert:message:msgIdentity:` to `Utilities`, whether or not an alert for its
identity was shown before. -/
structure Alert where
  title : String
  message : String
  msgIdentity : Option String
  deriving DecidableEq, Repr

structure Check where
  result : MonitorCheck
  queried : ℕ
  alerts : List Alert
  deriving DecidableEq, Repr

/-- The block, with `*stop`. -/
def visit (s : Enumeration) (monitor : Call) : Message (Enumeration × Bool) :=
  (monitor s.error).map fun answer =>
    match answer.2 with
    | none => (⟨none, answer.1, s.queried + 1⟩, true)
    | some error => (⟨some error, s.returnOK, s.queried + 1⟩, false)

def enumerate : List Call → Enumeration → Message Enumeration
  | [], s => .ok s
  | monitor :: monitors, s =>
    (visit s monitor).bind fun r => if r.2 then .ok r.1 else enumerate monitors r.1

/-- ARC sets the error variable to `nil`; the BOOL starts with any value. -/
def checkMonitors (returnOK : Bool) (monitors : List Call) : Message Check :=
  (enumerate monitors ⟨none, returnOK, 0⟩).map fun s =>
    match s.error with
    | some error => ⟨.doNotKnow, s.queried, [⟨error.title, error.description, error.identifier⟩]⟩
    | none => ⟨if s.returnOK then .gridGood else .gridBad, s.queried, []⟩

/-- The list of monitors in the source, each with the answer of its server. -/
def GridMonitor.checkMonitors (returnOK : Bool) (chris canITurnItOn : Response) :
    Message Check :=
  Kettle.checkMonitors returnOK
    [ChrisMonitor.gridStatus chris, CanITurnItOn.gridStatus canITurnItOn]

/-- How a call that returns has ended. -/
inductive Outcome where
  | succeed (answer : Bool)
  | fail (error : TeaError)
  deriving DecidableEq, Repr

namespace Outcome

def Failed : Outcome → Prop
  | .succeed _ => False
  | .fail _ => True

instance : DecidablePred Failed
  | .succeed _ => .isFalse id
  | .fail _ => .isTrue trivial

/-- Only a failing monitor writes the error variable. -/
def gridStatus : Outcome → Call
  | .succeed answer, error => .ok (answer, error)
  | .fail e, _ => .ok (false, some e)

end Outcome

/-- A call of either monitor raises or has an outcome, which does not depend on the error
variable. -/
theorem gridStatus_outcome (decision : Id → Message Bool) (response : Response) :
    (∃ exception, ∀ error, gridStatus decision response error = .error exception) ∨
      ∃ o : Outcome, gridStatus decision response = o.gridStatus := by
  cases hjson : response.json? with
  | none =>
    obtain ⟨e, he⟩ := gridStatus_none decision hjson
    exact .inr ⟨.fail e, funext he⟩
  | some json =>
    cases hd : decision (some json) with
    | error exception =>
      refine .inl ⟨exception, fun error => ?_⟩
      rw [gridStatus_some decision hjson, hd]
      rfl
    | ok answer =>
      refine .inr ⟨.succeed answer, funext fun error => ?_⟩
      rw [gridStatus_some decision hjson, hd]
      rfl

/-- What the list of monitors is for: the first that succeeds decides, and it is the last one
asked. -/
structure FallsBack (outcomes : List Outcome) (check : Check) : Prop where
  decides : ∀ before answer after, outcomes = before ++ .succeed answer :: after →
    (∀ o ∈ before, o.Failed) →
    check.result.verdict = some answer ∧ check.queried = before.length + 1 ∧ check.alerts = []
  doNotKnow_iff : check.result = .doNotKnow ∧ check.alerts.length = 1 ↔ ∀ o ∈ outcomes, o.Failed

/-- Once an error is set, no later monitor can clear it. -/
theorem enumerate_of_error (outcomes : List Outcome) {s : Enumeration} {e : TeaError}
    (h : s.error = some e) : ∃ e', enumerate (outcomes.map Outcome.gridStatus) s =
      .ok ⟨some e', s.returnOK, s.queried + outcomes.length⟩ := by
  induction outcomes generalizing s e with
  | nil => exact ⟨e, by rw [← h]; rfl⟩
  | cons o outcomes ih =>
    have hvisit : ∃ e', visit s o.gridStatus =
        .ok (⟨some e', s.returnOK, s.queried + 1⟩, false) := by
      cases o with
      | succeed answer => exact ⟨e, by simp [visit, Outcome.gridStatus, h, Except.map]⟩
      | fail e' => exact ⟨e', rfl⟩
    obtain ⟨e₁, hvisit⟩ := hvisit
    obtain ⟨e', he'⟩ := ih (s := ⟨some e₁, s.returnOK, s.queried + 1⟩) rfl
    refine ⟨e', ?_⟩
    rw [List.map_cons, enumerate, hvisit, List.length_cons, Nat.add_comm outcomes.length,
      ← Nat.add_assoc]
    exact he'

theorem checkMonitors_succeed (returnOK answer : Bool) (outcomes : List Outcome) :
    checkMonitors returnOK ((Outcome.succeed answer :: outcomes).map Outcome.gridStatus) =
      .ok ⟨if answer then .gridGood else .gridBad, 1, []⟩ := rfl

theorem checkMonitors_fail (returnOK : Bool) (e : TeaError) (outcomes : List Outcome) :
    ∃ alert, checkMonitors returnOK ((Outcome.fail e :: outcomes).map Outcome.gridStatus) =
      .ok ⟨.doNotKnow, outcomes.length + 1, [alert]⟩ := by
  obtain ⟨e', he'⟩ := enumerate_of_error outcomes (s := ⟨some e, returnOK, 1⟩) rfl
  have henum : enumerate ((Outcome.fail e :: outcomes).map Outcome.gridStatus)
      ⟨none, returnOK, 0⟩ = .ok ⟨some e', returnOK, 1 + outcomes.length⟩ := he'
  refine ⟨⟨e'.title, e'.description, e'.identifier⟩, ?_⟩
  rw [checkMonitors, henum, Nat.add_comm]
  rfl

/-- A check is right if the first monitor succeeds or all of them fail, and only then. -/
theorem fallsBack_iff (returnOK : Bool) (o : Outcome) (outcomes : List Outcome) :
    ∃ check, checkMonitors returnOK ((o :: outcomes).map Outcome.gridStatus) = .ok check ∧
      (FallsBack (o :: outcomes) check ↔ ¬ o.Failed ∨ ∀ o' ∈ o :: outcomes, o'.Failed) := by
  cases o with
  | succeed answer =>
    refine ⟨_, checkMonitors_succeed returnOK answer outcomes, ?_⟩
    refine iff_of_true ⟨fun before b after hsplit hbefore => ?_, ?_⟩ (.inl id)
    · cases before with
      | nil =>
        obtain ⟨hhead, -⟩ := List.cons.inj hsplit
        obtain rfl := Outcome.succeed.inj hhead
        cases answer <;> exact ⟨rfl, rfl, rfl⟩
      | cons o' before =>
        obtain ⟨rfl, -⟩ := List.cons.inj hsplit
        exact (hbefore _ List.mem_cons_self).elim
    · refine iff_of_false (fun h => ?_) fun h => h _ List.mem_cons_self
      exact absurd h.2 (by simp)
  | fail e =>
    obtain ⟨alert, hcheck⟩ := checkMonitors_fail returnOK e outcomes
    refine ⟨_, hcheck, fun h => .inr (h.doNotKnow_iff.mp ⟨rfl, rfl⟩), fun h => ?_⟩
    have hall : ∀ o' ∈ Outcome.fail e :: outcomes, o'.Failed :=
      h.resolve_left fun hsucceeds => hsucceeds trivial
    refine ⟨fun before answer after hsplit _ => ?_, iff_of_true ⟨rfl, rfl⟩ hall⟩
    have hmem : Outcome.succeed answer ∈ Outcome.fail e :: outcomes := by
      rw [hsplit]
      exact List.mem_append_right _ List.mem_cons_self
    exact (hall _ hmem).elim

/-- The first monitor has no connection and the second answers YES. -/
theorem fallsBack_fails :
    ∃ check, checkMonitors false ([.fail noInternet, .succeed true].map Outcome.gridStatus) =
      .ok check ∧ check.result = .doNotKnow ∧ check.alerts.length = 1 ∧
      ¬ FallsBack [.fail noInternet, .succeed true] check := by
  refine ⟨_, rfl, rfl, rfl, fun h => ?_⟩
  obtain ⟨hverdict, -⟩ := h.decides [.fail noInternet] true [] rfl (by simp [Outcome.Failed])
  contradiction

/-- Without JSON from the first server the app never knows the answer, whatever the second
server says. -/
theorem GridMonitor.checkMonitors_of_noJson (returnOK : Bool) {chris : Response}
    (h : chris.json? = none) (canITurnItOn : Response) :
    (∃ exception, GridMonitor.checkMonitors returnOK chris canITurnItOn = .error exception) ∨
      ∃ alert, GridMonitor.checkMonitors returnOK chris canITurnItOn =
        .ok ⟨.doNotKnow, 2, [alert]⟩ := by
  obtain ⟨e, he⟩ := gridStatus_none ChrisMonitor.decision h
  have hchris : ChrisMonitor.gridStatus chris = (Outcome.fail e).gridStatus := funext he
  rcases gridStatus_outcome CanITurnItOn.decision canITurnItOn with ⟨exception, hcan⟩ | ⟨o, hcan⟩
  · refine .inl ⟨exception, ?_⟩
    have hcan' : CanITurnItOn.gridStatus canITurnItOn (some e) = .error exception :=
      hcan (some e)
    rw [GridMonitor.checkMonitors, hchris]
    simp [Kettle.checkMonitors, enumerate, visit, Outcome.gridStatus, hcan', Except.map,
      Except.bind]
  · have hcan' : CanITurnItOn.gridStatus canITurnItOn = o.gridStatus := hcan
    obtain ⟨alert, hcheck⟩ := checkMonitors_fail returnOK e [o]
    refine .inr ⟨alert, ?_⟩
    rw [GridMonitor.checkMonitors, hchris, hcan']
    exact hcheck

/-- The second server answers with an object. -/
theorem GridMonitor.checkMonitors_of_noJson_noData :
    (∃ exception, GridMonitor.checkMonitors false .noData (.data (some ['{', '}'])) =
        .error exception) ∨
      ∃ alert, GridMonitor.checkMonitors false .noData (.data (some ['{', '}'])) =
        .ok ⟨.doNotKnow, 2, [alert]⟩ :=
  GridMonitor.checkMonitors_of_noJson false rfl (.data (some ['{', '}']))

end GridApps.Kettle
