import GridApps.Kettle.CheckMonitors
import GridApps.Webserver.FreqServe

/-! The two ways the app gets its advice: the instruction of `freqServe.py`, and the frequency
of the other server, which it compares with 50 itself. -/
namespace GridApps.Advice
open Json Numeral Kettle Webserver

/-- A JSON number or string, decoded. -/
inductive Frequency where
  | int (n : ℤ)
  | decimal (x : Finite64)
  | string (s : CodeUnits)

namespace Frequency

def value : Frequency → Value
  | .int n => .int n
  | .decimal x => .float (.finite x)
  | .string s => .str s

def IsNumber : Frequency → Prop
  | .string _ => False
  | _ => True

/-- The frequency is a number that is at least 50, or a string that reads as one. -/
def AtLeast50 : Frequency → Prop
  | .int n => 50 ≤ n
  | .decimal x => 50 ≤ x.value
  | .string s => (stringDouble s).ge 50 = true

/-- The body `{"decision": {"frequency": v}}`. -/
def decisionBody (v : Frequency) : Text :=
  dumps (.obj [(CanITurnItOn.decisionKey, .obj [(CanITurnItOn.frequencyKey, v.value)])])

end Frequency

def AnswersYes (call : Call) : Prop := call none = .ok (true, none)

/-- Both monitors say YES or neither does, and none does below 50. -/
def Agree (body : Text) (v : Frequency) : Prop :=
  (AnswersYes (ChrisMonitor.gridStatus (.data (some body))) ↔
    AnswersYes (CanITurnItOn.gridStatus (.data (some v.decisionBody)))) ∧
  (AnswersYes (ChrisMonitor.gridStatus (.data (some body))) → v.AtLeast50) ∧
  (AnswersYes (CanITurnItOn.gridStatus (.data (some v.decisionBody))) → v.AtLeast50)

/-- The response for a report with these members is JSON: all its decimals are finite. What is
under `instruction` is overwritten. -/
def Serves (members : Members) : Prop :=
  ∀ m ∈ members, m.1 ≠ instructionKey → AllGood Scalar.Strict m.2

theorem answersYes_gridStatus_iff (decision : Id → Message Bool) (body : Text) :
    AnswersYes (gridStatus decision (.data (some body))) ↔
      ∃ json, loads standard body = some json ∧ decision (some json) = .ok true := by
  cases hjson : loads standard body with
  | none =>
    obtain ⟨e, he⟩ := gridStatus_none decision
      (show Response.json? (.data (some body)) = none from hjson)
    simp [AnswersYes, he]
  | some json =>
    have hcall := gridStatus_some decision
      (show Response.json? (.data (some body)) = some json from hjson) none
    rw [AnswersYes, hcall]
    cases hd : decision (some json) <;> simp [Except.map, hd]

/-- 50 as a binary64 number. -/
theorem canonical_fifty : Canonical (50 * 2 ^ 47) (-47) := by decide

theorem scaled_fifty : scaled (50 * 2 ^ 47) (-47) = 50 := by norm_num [scaled]

theorem ofRat_int_ge_fifty (n : ℤ) : (ofRat n).ge 50 = true ↔ 50 ≤ n := by
  constructor
  · intro h
    by_contra hlt
    have hle : (n : ℚ) ≤ scaled (49 * 2 ^ 47) (-47) := by
      have : (n : ℚ) ≤ 49 := by exact_mod_cast (by omega : n ≤ 49)
      norm_num [scaled]
      exact this
    have hnot := not_ofRat_ge (by decide) hle (show scaled (49 * 2 ^ 47) (-47) < 50 by
      norm_num [scaled])
    rw [h] at hnot
    contradiction
  · intro h
    have hle : scaled (50 * 2 ^ 47) (-47) ≤ (n : ℚ) := by
      rw [scaled_fifty]
      exact_mod_cast h
    have hge := ofRat_ge canonical_fifty hle
    rwa [scaled_fifty] at hge

theorem Frequency.doubleValue_ge (v : Frequency) :
    ∃ x, doubleValue (some v.value) = .ok x ∧ (x.ge 50 = true ↔ v.AtLeast50) := by
  cases v with
  | int n => exact ⟨_, rfl, ofRat_int_ge_fifty n⟩
  | decimal x => exact ⟨_, rfl, decide_eq_true_iff⟩
  | string s => exact ⟨_, rfl, Iff.rfl⟩

theorem Frequency.strict_value (v : Frequency) : AllGood Scalar.Strict v.value := by
  cases v with
  | int n => exact (allGood_scalar _).mpr (Scalar.strict_int n)
  | decimal x => exact (allGood_scalar _).mpr ((Scalar.strict_float_iff _).mpr rfl)
  | string s => exact (allGood_scalar _).mpr (Scalar.strict_str _)

/-- A dictionary of one member. -/
theorem distinct_single {x : Value} (hx : x.Distinct) (k : CodeUnits) :
    (Value.obj [(k, x)]).Distinct :=
  Value.distinct_obj (List.nodup_singleton k) (by simpa using hx)

theorem strict_single {x : Value} (hx : AllGood Scalar.Strict x) (k : CodeUnits) :
    AllGood Scalar.Strict (.obj [(k, x)]) :=
  (allGood_obj _).mpr (by simpa [MemberGood] using ⟨Scalar.strict_str k, hx⟩)

theorem Frequency.loads_decisionBody (v : Frequency) : loads standard v.decisionBody =
    some (.obj [(CanITurnItOn.decisionKey, .obj [(CanITurnItOn.frequencyKey, v.value)])]) := by
  have hdistinct : v.value.Distinct := by cases v <;> exact Value.distinct_scalar _
  exact loads_dumps (distinct_single (distinct_single hdistinct _) _)
    (strict_single (strict_single v.strict_value _) _)

theorem canITurnItOn_iff (v : Frequency) :
    AnswersYes (CanITurnItOn.gridStatus (.data (some v.decisionBody))) ↔ v.AtLeast50 := by
  obtain ⟨x, hx, hge⟩ := v.doubleValue_ge
  have hdecision : CanITurnItOn.decision (some (.obj [(CanITurnItOn.decisionKey,
      .obj [(CanITurnItOn.frequencyKey, v.value)])])) = .ok (x.ge 50) := by
    simp only [CanITurnItOn.decision, objectForKey, bind, Except.bind, List.lookup_cons_self, hx]
    rfl
  change AnswersYes (gridStatus CanITurnItOn.decision _) ↔ _
  rw [answersYes_gridStatus_iff, v.loads_decisionBody, ← hge]
  simp [hdecision]

theorem Frequency.below50_iff (v : Frequency) :
    below50 v.value = false ↔ ¬ v.IsNumber ∨ v.AtLeast50 := by
  cases v with
  | int n => simp [value, below50, IsNumber, AtLeast50]
  | decimal x => simp [value, below50, Binary64.lt, IsNumber, AtLeast50]
  | string s => simp [value, below50, IsNumber]

variable {member : Text} {members : Members} {v : Frequency}

/-- The response to a report, as a value. -/
def answered (members : Members) (freq : Value) : Value :=
  .obj (Members.setItem instructionKey (.str (if below50 freq then no else yes)) members)

theorem GET_eq {freq : Value} (hreport : readReport member = some (.obj members))
    (hfreq : members.lookup freqKey = some freq) :
    JsonRequest.GET member = some (dumps (answered members freq)) := by
  simp [JsonRequest.GET, hreport, hfreq, answered]

theorem distinct_answered (h : (Value.obj members).Distinct) (freq : Value) :
    (answered members freq).Distinct := by
  refine Value.distinct_obj (Members.setItem_nodup h.keys _ _) fun m hm => ?_
  rcases Members.mem_setItem hm with rfl | hm
  · exact Value.distinct_scalar _
  · exact h.member hm

theorem strict_answered_iff (h : (Value.obj members).Distinct) (freq : Value) :
    AllGood Scalar.Strict (answered members freq) ↔ Serves members := by
  rw [answered, allGood_obj]
  simp only [Members.mem_setItem_iff h.keys, MemberGood, Scalar.strict_str, true_and]
  constructor
  · exact fun hgood m hm hne => hgood m (.inr ⟨hm, hne⟩)
  · rintro hserves m (rfl | ⟨hm, hne⟩)
    · exact (allGood_scalar _).mpr (Scalar.strict_str _)
    · exact hserves m hm hne

theorem decision_answered (members : Members) (freq : Value) :
    ChrisMonitor.decision (some (answered members freq)) = .ok (!below50 freq) := by
  have hlookup : (Members.setItem instructionKey (.str (if below50 freq then no else yes))
      members).lookup ChrisMonitor.instructionKey =
      some (.str (if below50 freq then no else yes)) :=
    Members.lookup_setItem_self _ _ _
  simp only [ChrisMonitor.decision, answered, objectForKey, bind, Except.bind, hlookup,
    isEqualToString]
  cases below50 freq <;> rfl

theorem chrisMonitor_iff (h : (Value.obj members).Distinct) :
    AnswersYes (ChrisMonitor.gridStatus (.data (some (dumps (answered members v.value))))) ↔
      Serves members ∧ (¬ v.IsNumber ∨ v.AtLeast50) := by
  change AnswersYes (gridStatus ChrisMonitor.decision _) ↔ _
  rw [answersYes_gridStatus_iff, ← v.below50_iff, ← strict_answered_iff h v.value]
  by_cases hstrict : AllGood Scalar.Strict (answered members v.value)
  · rw [loads_dumps (distinct_answered h _) hstrict]
    simp [decision_answered, hstrict]
  · rw [loads_dumps_eq_none (distinct_answered h _) hstrict]
    simp [hstrict]

/-- The two paths agree on a frequency exactly if the response is JSON and the frequency a
number or not below 50, or the response is no JSON and the frequency below 50. -/
theorem agree_iff (hreport : readReport member = some (.obj members))
    (hfreq : members.lookup freqKey = some v.value) :
    ∃ body, JsonRequest.GET member = some body ∧
      (Agree body v ↔ Serves members ∧ (v.IsNumber ∨ v.AtLeast50) ∨
        ¬ Serves members ∧ ¬ v.AtLeast50) := by
  refine ⟨_, GET_eq hreport hfreq, ?_⟩
  rw [Agree, chrisMonitor_iff (loads_distinct plainNames_python hreport), canITurnItOn_iff]
  tauto

/-- The report `{'freq': 51}`. -/
theorem agree_iff_fiftyOne :
    ∃ body, JsonRequest.GET ['{', '\'', 'f', 'r', 'e', 'q', '\'', ':', ' ', '5', '1', '}'] =
      some body ∧ (Agree body (.int 51) ↔
        Serves [(freqKey, .int 51)] ∧ ((Frequency.int 51).IsNumber ∨
          (Frequency.int 51).AtLeast50) ∨
        ¬ Serves [(freqKey, .int 51)] ∧ ¬ (Frequency.int 51).AtLeast50) :=
  agree_iff (v := .int 51) (by rfl) (by rfl)

/-- The report `{'freq': '10'}`: a string counts as at least 50, whatever it says. -/
theorem agree_fails :
    ∃ members body,
      readReport ['{', '\'', 'f', 'r', 'e', 'q', '\'', ':', ' ', '\'', '1', '0', '\'', '}'] =
        some (.obj members) ∧
      members.lookup freqKey = some (Frequency.string (units ['1', '0'])).value ∧
      JsonRequest.GET ['{', '\'', 'f', 'r', 'e', 'q', '\'', ':', ' ', '\'', '1', '0', '\'', '}'] =
        some body ∧
      AnswersYes (ChrisMonitor.gridStatus (.data (some body))) ∧
      ¬ (Frequency.string (units ['1', '0'])).AtLeast50 ∧
      ¬ Agree body (.string (units ['1', '0'])) := by
  have hreport : readReport
      ['{', '\'', 'f', 'r', 'e', 'q', '\'', ':', ' ', '\'', '1', '0', '\'', '}'] =
      some (.obj [(freqKey, (Frequency.string (units ['1', '0'])).value)]) := by rfl
  have hbelow : ¬ (Frequency.string (units ['1', '0'])).AtLeast50 := by
    change ¬ (stringDouble (units ['1', '0'])).ge 50 = true
    decide +kernel
  have hserves : Serves [(freqKey, (Frequency.string (units ['1', '0'])).value)] := by
    intro m hm _
    obtain rfl := List.mem_singleton.mp hm
    exact (Frequency.string (units ['1', '0'])).strict_value
  have hyes := (chrisMonitor_iff (v := .string (units ['1', '0']))
    (loads_distinct plainNames_python hreport)).mpr ⟨hserves, .inl id⟩
  exact ⟨_, _, hreport, rfl, GET_eq hreport rfl, hyes, hbelow, fun h => hbelow (h.2.1 hyes)⟩

end GridApps.Advice
