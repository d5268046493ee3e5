import GridApps.Json.Dumps
import GridApps.Numeral.PyFloat
import GridApps.Webserver.FreqServe
import GridApps.Webserver.PushSender

/-! The test server `freqServeTest.py`, whose frequency is set by a request. -/
namespace GridApps.Webserver
open Json Numeral Transition

/-- What a query has under `freq`: nothing, or bytes, known by the text that they encode, `none`
if they encode none. -/
inductive FreqParam where
  | missing
  | value (bytes : Option Text)
  deriving DecidableEq, Repr

inductive TestRequest where
  | setfreq (freq : FreqParam)
  | json
  deriving DecidableEq, Repr

namespace FreqServeTest

/-- `freq = 50;` -/
def initialFreq : Value := .int 50

/-- The dictionary that both pages send. -/
def out (freq : Value) : Value :=
  .obj [(freqKey, freq), (instructionKey, .str (if atLeast50 freq then yes else no))]

namespace JsonRequest

def GET (freq : Value) : Text := dumps (out freq)

end JsonRequest

variable (tables : UnicodeTables)

/-- `float(web.input(freq=50).freq)`; `none` if it raises. -/
def floatOf : FreqParam → Option Binary64
  | .missing => some (ofRat 50)
  | .value bytes => bytes.bind (pyFloat tables)

namespace Setjson

/-- The new value of the global variable and the response. -/
def GET (freq : FreqParam) : Option (Value × Text) :=
  (floatOf tables freq).map fun x => (.float x, dumps (out (.float x)))

end Setjson

/-- The global variable after a request. An exception comes before the assignment. -/
def step (freq : Value) : TestRequest → Option Value
  | .setfreq param => some ((Setjson.GET tables param).elim freq Prod.fst)
  | .json => some freq

/-- The body of a successful response. -/
def response (freq : Value) : TestRequest → Option Text
  | .setfreq param => (Setjson.GET tables param).map Prod.snd
  | .json => some (JsonRequest.GET freq)

/-- The number that a request sets. -/
def setTo : TestRequest → Option Binary64
  | .setfreq param => floatOf tables param
  | .json => none

/-- The number that was set last, and 50 before the first one. -/
def lastSet (requests : List TestRequest) : Value :=
  ((requests.filterMap (setTo tables)).getLast?).elim initialFreq .float

variable {tables}

theorem step_eq (freq : Value) (request : TestRequest) :
    step tables freq request = some ((setTo tables request).elim freq .float) := by
  cases request with
  | json => rfl
  | setfreq param =>
    simp only [step, Setjson.GET, setTo]
    cases floatOf tables param <;> rfl

theorem response_eq_some_iff {freq : Value} {request : TestRequest} {body : Text} :
    response tables freq request = some body ↔
      (request = .json ∧ body = dumps (out freq)) ∨
        ∃ x, setTo tables request = some x ∧ body = dumps (out (.float x)) := by
  cases request with
  | json => simp [response, JsonRequest.GET, setTo, eq_comm]
  | setfreq param => simp [response, Setjson.GET, setTo, eq_comm]

theorem lastSet_concat (before : List TestRequest) (request : TestRequest) :
    lastSet tables (before ++ [request]) =
      (setTo tables request).elim (lastSet tables before) .float := by
  cases h : setTo tables request <;> simp [lastSet, h]

/-- The global variable holds what was set last. -/
theorem run_step (requests : List TestRequest) :
    run (step tables) initialFreq requests = some (lastSet tables requests) := by
  induction requests using List.reverseRecOn with
  | nil => rfl
  | append_singleton before request ih =>
    exact run_concat.mpr ⟨_, ih, by rw [step_eq, lastSet_concat]⟩

variable (tables) in
theorem lastSet_cases (requests : List TestRequest) :
    lastSet tables requests = initialFreq ∨
      ∃ request ∈ requests, ∃ x, setTo tables request = some x ∧
        lastSet tables requests = .float x := by
  cases h : (requests.filterMap (setTo tables)).getLast? with
  | none => exact .inl (by rw [lastSet, h]; rfl)
  | some x =>
    obtain ⟨request, hrequest, hset⟩ := List.mem_filterMap.mp (List.mem_of_getLast? h)
    exact .inr ⟨request, hrequest, x, hset, by rw [lastSet, h]; rfl⟩

theorem distinct_out {freq : Value} (h : freq.Distinct) : (out freq).Distinct := by
  refine Value.distinct_obj (by simp [freqKey, instructionKey, units]) ?_
  simpa using ⟨h, Value.distinct_scalar _⟩

theorem strict_out_iff (freq : Value) :
    AllGood Scalar.Strict (out freq) ↔ AllGood Scalar.Strict freq := by
  rw [out, allGood_obj]
  simp [MemberGood, Scalar.strict_str, allGood_scalar]

/-- The global variable is 50 or a number that was set. -/
theorem distinct_lastSet (requests : List TestRequest) : (lastSet tables requests).Distinct := by
  rcases lastSet_cases tables requests with h | ⟨request, -, x, -, h⟩ <;>
    exact h ▸ Value.distinct_scalar _

/-- A body is JSON exactly if its frequency is a finite number. -/
theorem loads_out_float_iff (x : Binary64) :
    (∃ v, loads standard (dumps (out (.float x))) = some v) ↔ x.isFinite = true := by
  have hdistinct : (out (.float x)).Distinct := distinct_out (Value.distinct_scalar _)
  have hfinite : AllGood Scalar.Strict (out (.float x)) ↔ x.isFinite = true :=
    (strict_out_iff _).trans ((allGood_scalar _).trans (Scalar.strict_float_iff x))
  rw [← hfinite]
  by_cases hstrict : AllGood Scalar.Strict (out (.float x))
  · exact iff_of_true ⟨_, loads_dumps hdistinct hstrict⟩ hstrict
  · rw [loads_dumps_eq_none hdistinct hstrict]
    exact iff_of_false (by simp) hstrict

/-- The requests that set a number that is not finite. -/
theorem finite_iff (requests : List TestRequest) :
    (∀ request ∈ requests, ∀ x, setTo tables request = some x → x.isFinite = true) ↔
      ∀ t, .setfreq (.value (some t)) ∈ requests → ¬ OutOfRange tables t := by
  constructor
  · intro h t ht hrange
    obtain ⟨x, hx, hfinite⟩ := (exists_pyFloat_not_isFinite_iff tables t).mpr hrange
    exact hfinite (h _ ht x hx)
  · intro h request hrequest x hset
    by_contra hfinite
    obtain (_ | _ | t) | _ := request
    · obtain rfl := Option.some.inj hset
      exact hfinite (by decide +kernel)
    · contradiction
    · exact h t hrequest ((exists_pyFloat_not_isFinite_iff tables t).mp ⟨x, hset, hfinite⟩)
    · contradiction

/-- A number that is sent as Python writes it is the one that is set. -/
theorem setTo_literal (x : Finite64) :
    setTo tables (.setfreq (.value (some x.literal.text))) = some (.finite x) := by
  have hread := pyFloat_text tables x.literal_wellFormed.int_ne_nil
  simp only [setTo, floatOf, Option.bind_some, hread, x.literal_float]

/-- It stays the last one until a request sets another number. -/
theorem lastSet_append_of_none {before after : List TestRequest}
    (h : ∀ request ∈ after, setTo tables request = none) :
    lastSet tables (before ++ after) = lastSet tables before := by
  rw [lastSet, List.filterMap_append, List.filterMap_eq_nil_iff.mpr h, List.append_nil, lastSet]

/-- A finite number that is set as Python writes it is served, exactly and with its instruction,
until another one is set. -/
theorem loads_response_of_set (x : Finite64) (before after : List TestRequest)
    (h : ∀ request ∈ after, setTo tables request = none) :
    ∃ freq, run (step tables) initialFreq
        (before ++ .setfreq (.value (some x.literal.text)) :: after) = some freq ∧
      (response tables freq .json).bind (loads standard) = some (out (.float (.finite x))) := by
  refine ⟨_, run_step _, ?_⟩
  have hlast : lastSet tables (before ++ .setfreq (.value (some x.literal.text)) :: after) =
      .float (.finite x) := by
    rw [← List.singleton_append, ← List.append_assoc, lastSet_append_of_none h, lastSet_concat,
      setTo_literal]
    rfl
  have hstrict : AllGood Scalar.Strict (out (.float (.finite x))) :=
    (strict_out_iff _).mpr ((allGood_scalar _).mpr ((Scalar.strict_float_iff _).mpr rfl))
  rw [hlast, response, Option.bind_some]
  exact loads_dumps (distinct_out (Value.distinct_scalar _)) hstrict

/-- The number 1, with a request before it, and after it another one and bytes that are no text. -/
theorem loads_response_of_set_one :
    ∃ freq, run (step asciiTables) initialFreq ([.json] ++ .setfreq (.value (some
        (⟨false, 2 ^ 52, -52, by decide⟩ : Finite64).literal.text)) ::
          [.json, .setfreq (.value none)]) = some freq ∧
      (response asciiTables freq .json).bind (loads standard) =
        some (out (.float (.finite ⟨false, 2 ^ 52, -52, by decide⟩))) :=
  loads_response_of_set ⟨false, 2 ^ 52, -52, by decide⟩ [.json] [.json, .setfreq (.value none)]
    (by simp [setTo, floatOf])

end FreqServeTest
end GridApps.Webserver
