import GridApps.Kettle.Foundation

/-! The two grid monitors: how `gridStatus:` reads the answer of its server. -/
namespace GridApps.Kettle
open Json Numeral

structure TeaError where
  title : String
  description : String
  identifier : Option String
  deriving DecidableEq, Repr

/-- What `dataWithContentsOfURL:` gives: `nil`, or bytes. Bytes are known by the text they
encode, `none` if they encode none. -/
inductive Response where
  | noData
  | data (bytes : Option Text)

/-- The BOOL that is returned, and the error variable afterwards. -/
abbrev Answer := Bool × Option TeaError

def noInternet : TeaError :=
  ⟨"What a shame",
    "It seems we cannot connect to the tea-server. Are you certain you are connected to the internet? Maybe try again later?",
    some "NoInternet"⟩

def cannotParseJson : TeaError :=
  ⟨"Oh my", "Something seems to be terribly wrong at the moment. Maybe try again later?",
    some "CannotParseJson"⟩

/-- The common text of the two methods; `decision` is what they do with the parsed JSON. The
error variable is written only where there is no JSON. -/
def gridStatus (decision : Id → Message Bool) (response : Response) (error : Option TeaError) :
    Message Answer :=
  match response with
  | .noData => .ok (false, some noInternet)
  | .data bytes =>
    match bytes.bind jsonObjectWithData with
    | none => .ok (false, some cannotParseJson)
    | some json => (decision (some json)).map fun result => (result, error)

/-- The parsed JSON of an answer that has some. -/
def Response.json? : Response → Option Value
  | .noData => none
  | .data bytes => bytes.bind jsonObjectWithData

namespace ChrisMonitor

def instructionKey : CodeUnits :=
  units ['i', 'n', 's', 't', 'r', 'u', 'c', 't', 'i', 'o', 'n']

def yes : CodeUnits := units ['y', 'e', 's']

def decision (json : Id) : Message Bool := do
  let instruction ← objectForKey instructionKey json
  isEqualToString yes instruction

def gridStatus (response : Response) (error : Option TeaError) : Message Answer :=
  Kettle.gridStatus decision response error

/-- A string under `instruction`. -/
def Carries (json : Value) : Prop :=
  ∃ members s, json = .obj members ∧ members.lookup instructionKey = some (.str s)

end ChrisMonitor

namespace CanITurnItOn

def decisionKey : CodeUnits := units ['d', 'e', 'c', 'i', 's', 'i', 'o', 'n']

def frequencyKey : CodeUnits := units ['f', 'r', 'e', 'q', 'u', 'e', 'n', 'c', 'y']

def decision (json : Id) : Message Bool := do
  let decision ← objectForKey decisionKey json
  let frequency ← doubleValue (← objectForKey frequencyKey decision)
  return frequency.ge 50

def gridStatus (response : Response) (error : Option TeaError) : Message Answer :=
  Kettle.gridStatus decision response error

/-- Booleans are numbers for Foundation but not in JSON. -/
inductive IsNumber : Value → Prop where
  | int (n : ℤ) : IsNumber (.int n)
  | float (x : Binary64) : IsNumber (.float x)

/-- An object under `decision` with a number under `frequency`. -/
def Carries (json : Value) : Prop :=
  ∃ members ms x, json = .obj members ∧ members.lookup decisionKey = some (.obj ms) ∧
    ms.lookup frequencyKey = some x ∧ IsNumber x

end CanITurnItOn

theorem gridStatus_none (decision : Id → Message Bool) {response : Response}
    (h : response.json? = none) :
    ∃ e, ∀ error, gridStatus decision response error = .ok (false, some e) := by
  cases response with
  | noData => exact ⟨noInternet, fun _ => rfl⟩
  | data bytes =>
    change bytes.bind jsonObjectWithData = none at h
    exact ⟨cannotParseJson, fun error => by rw [gridStatus, h]⟩

theorem gridStatus_some (decision : Id → Message Bool) {response : Response} {json : Value}
    (h : response.json? = some json) (error : Option TeaError) :
    gridStatus decision response error =
      (decision (some json)).map fun result => (result, error) := by
  cases response with
  | noData => contradiction
  | data bytes =>
    change bytes.bind jsonObjectWithData = some json at h
    rw [gridStatus, h]

/-- The body is JSON of the shape `carries` describes. -/
def Response.Carries (response : Response) (carries : Value → Prop) : Prop :=
  ∃ json, response.json? = some json ∧ carries json

/-- The call returns; without a decision in the body it sets the error and returns NO. -/
def NeverGuesses (carries : Value → Prop) (call : Response → Option TeaError → Message Answer)
    (response : Response) : Prop :=
  ∃ answer, call response none = .ok answer ∧
    (answer.2 = none → response.Carries carries) ∧
    (¬ response.Carries carries → answer.2 ≠ none ∧ answer.1 = false)

/-- Past the parser no error is ever set, so everything depends on the body. -/
theorem neverGuesses_gridStatus_iff {carries : Value → Prop} {decision : Id → Message Bool}
    (hcarries : ∀ json, carries json → ∃ b, decision (some json) = .ok b) (response : Response) :
    NeverGuesses carries (gridStatus decision) response ↔
      response.json? = none ∨ response.Carries carries := by
  constructor
  · rintro ⟨answer, hcall, hnil, -⟩
    cases hjson : response.json? with
    | none => exact .inl rfl
    | some json =>
      rw [gridStatus_some decision hjson] at hcall
      cases hd : decision (some json) with
      | error e =>
        rw [hd] at hcall
        contradiction
      | ok b =>
        rw [hd] at hcall
        obtain rfl := Except.ok.inj hcall
        exact .inr (hnil rfl)
  · rintro (hjson | hbody)
    · obtain ⟨e, he⟩ := gridStatus_none decision hjson
      exact ⟨_, he none, fun h => absurd h (by simp), fun _ => ⟨by simp, rfl⟩⟩
    · obtain ⟨json, hjson, hc⟩ := hbody
      obtain ⟨b, hb⟩ := hcarries json hc
      have hcall : gridStatus decision response none = .ok (b, none) := by
        rw [gridStatus_some decision hjson, hb]
        rfl
      exact ⟨_, hcall, fun _ => ⟨json, hjson, hc⟩, fun h => absurd ⟨json, hjson, hc⟩ h⟩

theorem ChrisMonitor.decision_of_carries {json : Value} (h : Carries json) :
    ∃ b, decision (some json) = .ok b := by
  obtain ⟨members, s, rfl, hs⟩ := h
  refine ⟨Decidable.decide (s = yes), ?_⟩
  change isEqualToString yes (members.lookup instructionKey) = _
  rw [hs]
  rfl

theorem CanITurnItOn.decision_of_carries {json : Value} (h : Carries json) :
    ∃ b, decision (some json) = .ok b := by
  obtain ⟨members, ms, x, rfl, hms, hx, hnumber⟩ := h
  have hfreq : decision (some (.obj members)) =
      (doubleValue (some x)).map fun frequency => frequency.ge 50 := by
    simp only [decision, objectForKey, bind, Except.bind, hms, hx]
    rfl
  cases hnumber with
  | int n => exact ⟨_, hfreq⟩
  | float x => exact ⟨_, hfreq⟩

/-- A monitor deals with an answer as it should exactly if it cannot parse it or finds its
decision in it. -/
theorem neverGuesses_iff (response : Response) :
    (NeverGuesses ChrisMonitor.Carries ChrisMonitor.gridStatus response ↔
      response.json? = none ∨ response.Carries ChrisMonitor.Carries) ∧
    (NeverGuesses CanITurnItOn.Carries CanITurnItOn.gridStatus response ↔
      response.json? = none ∨ response.Carries CanITurnItOn.Carries) :=
  ⟨neverGuesses_gridStatus_iff (fun _ => ChrisMonitor.decision_of_carries) response,
    neverGuesses_gridStatus_iff (fun _ => CanITurnItOn.decision_of_carries) response⟩

/-- An empty array is sent a message only dictionaries know, and an empty object is an answer
NO without an error. -/
theorem neverGuesses_fails :
    ChrisMonitor.gridStatus (.data (some ['[', ']'])) none = .error .objectForKey ∧
    CanITurnItOn.gridStatus (.data (some ['{', '}'])) none = .ok (false, none) ∧
    ¬ (∀ response, NeverGuesses ChrisMonitor.Carries ChrisMonitor.gridStatus response ∧
      NeverGuesses CanITurnItOn.Carries CanITurnItOn.gridStatus response) := by
  have hraises : ChrisMonitor.gridStatus (.data (some ['[', ']'])) none =
      .error .objectForKey := by rfl
  have hno : (ofRat 0).ge 50 = false := by decide +kernel
  have hguess : CanITurnItOn.gridStatus (.data (some ['{', '}'])) none =
      .ok ((ofRat 0).ge 50, none) := by rfl
  refine ⟨hraises, by rw [hguess, hno], fun h => ?_⟩
  obtain ⟨answer, hcall, -⟩ := (h (.data (some ['[', ']']))).1
  rw [hraises] at hcall
  contradiction

end GridApps.Kettle
