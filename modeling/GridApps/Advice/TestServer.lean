import GridApps.Advice.SameReading
import GridApps.Webserver.FreqServeTest

/-! The app's monitor in front of the test server `freqServeTest.py`. -/
namespace GridApps.Advice
open Json Numeral Transition Kettle Webserver FreqServeTest

/-- The frequency is a number from 50 on. -/
def FromFifty (freq : Value) : Prop :=
  ∃ s q, freq = .scalar s ∧ s.rational? = some q ∧ 50 ≤ q

/-- What the answer to a request should be, after the requests `before` and with `freq` in the
global variable. -/
structure AnswersWell (tables : UnicodeTables) (before : List TestRequest) (freq : Value)
    (request : TestRequest) : Prop where
  valid : ∀ body, response tables freq request = some body →
    ∃ v, loads standard body = some v
  keeps : setTo tables request = none → step tables freq request = some freq
  reports : request = .json → ∃ body members, response tables freq request = some body ∧
    loads standard body = some (.obj members) ∧
    members.lookup freqKey = some (lastSet tables before)
  monitor : request = .json → ∃ body result, response tables freq request = some body ∧
    ChrisMonitor.gridStatus (.data (some body)) none = .ok (result, none) ∧
    (result = true ↔ FromFifty (lastSet tables before))

/-- So it is for each of the requests, in order. -/
def AlwaysParses (tables : UnicodeTables) (requests : List TestRequest) : Prop :=
  ∀ before request after freq, requests = before ++ request :: after →
    run (step tables) initialFreq before = some freq → AnswersWell tables before freq request

variable {tables : UnicodeTables}

theorem decision_out (freq : Value) :
    ChrisMonitor.decision (some (out freq)) = .ok (atLeast50 freq) := by
  have hlookup : [(freqKey, freq),
      (instructionKey, .str (if atLeast50 freq then yes else no))].lookup
      ChrisMonitor.instructionKey = some (.str (if atLeast50 freq then yes else no)) := by
    rfl
  simp only [ChrisMonitor.decision, out, objectForKey, bind, Except.bind, hlookup, isEqualToString]
  cases atLeast50 freq <;> rfl

theorem fromFifty_iff {s : Scalar} {q : ℚ} (h : s.rational? = some q) :
    FromFifty (.scalar s) ↔ atLeast50 (.scalar s) = true := by
  rw [(decisions_of_rational h).1]
  constructor
  · rintro ⟨s', q', hs, hq, hfifty⟩
    obtain rfl := Value.scalar.inj hs
    exact Option.some.inj (h.symm.trans hq) ▸ hfifty
  · exact fun hfifty => ⟨s, q, rfl, h, hfifty⟩

/-- Both the 50 of the start and a finite number are numbers that JSON has. -/
theorem lastSet_finite {requests : List TestRequest}
    (hfinite : ∀ request ∈ requests, ∀ x, setTo tables request = some x → x.isFinite = true) :
    ∃ s q, lastSet tables requests = .scalar s ∧ s.rational? = some q ∧
      AllGood Scalar.Strict (.scalar s) := by
  rcases lastSet_cases tables requests with h | ⟨request, hrequest, x, hset, h⟩
  · exact ⟨.int 50, 50, h, rfl, (allGood_scalar _).mpr (Scalar.strict_int 50)⟩
  · have hx := hfinite request hrequest x hset
    cases x with
    | finite x =>
      exact ⟨_, x.value, h, rfl, (allGood_scalar _).mpr ((Scalar.strict_float_iff _).mpr rfl)⟩
    | infinity neg => contradiction
    | nan => contradiction

/-- A `/json` request, when the number that was set last is finite. -/
theorem answersWell_json {before : List TestRequest}
    (hfinite : ∀ request ∈ before, ∀ x, setTo tables request = some x → x.isFinite = true) :
    AnswersWell tables before (lastSet tables before) .json := by
  obtain ⟨s, q, hlast, hq, hstrict⟩ := lastSet_finite hfinite
  have hread : loads standard (dumps (out (lastSet tables before))) =
      some (out (lastSet tables before)) :=
    loads_dumps (distinct_out (distinct_lastSet before))
      ((strict_out_iff _).mpr (hlast ▸ hstrict))
  have hjson : Response.json? (.data (some (dumps (out (lastSet tables before))))) =
      some (out (lastSet tables before)) := hread
  have hcall : ChrisMonitor.gridStatus (.data (some (dumps (out (lastSet tables before))))) none =
      .ok (atLeast50 (lastSet tables before), none) := by
    rw [ChrisMonitor.gridStatus, gridStatus_some _ hjson, decision_out]
    rfl
  refine ⟨fun body hbody => ?_, fun _ => rfl, fun _ => ⟨_, _, rfl, hread, rfl⟩,
    fun _ => ⟨_, _, rfl, hcall, ?_⟩⟩
  · obtain rfl := Option.some.inj hbody
    exact ⟨_, hread⟩
  · rw [hlast, fromFifty_iff hq]

/-- The server always answers with what the app can parse exactly if no request has a value that
is read as an infinity or as NaN. -/
theorem alwaysParses_iff (tables : UnicodeTables) (requests : List TestRequest) :
    AlwaysParses tables requests ↔
      ∀ t, .setfreq (.value (some t)) ∈ requests → ¬ OutOfRange tables t := by
  rw [← finite_iff]
  constructor
  · intro h request hrequest x hset
    obtain ⟨before, after, rfl⟩ := List.append_of_mem hrequest
    have hvalid := (h before request after _ rfl (run_step before)).valid
    exact (loads_out_float_iff x).mp
      (hvalid _ (response_eq_some_iff.mpr (.inr ⟨x, hset, rfl⟩)))
  · rintro hfinite before request after freq rfl hfreq
    obtain rfl := Option.some.inj ((run_step before).symm.trans hfreq)
    cases request with
    | json => exact answersWell_json fun r hr => hfinite r (List.mem_append_left _ hr)
    | setfreq param =>
      refine ⟨fun body hbody => ?_, fun hset => by rw [step_eq, hset]; rfl,
        fun hjson => by contradiction, fun hjson => by contradiction⟩
      rcases response_eq_some_iff.mp hbody with ⟨hjson, -⟩ | ⟨x, hset, rfl⟩
      · contradiction
      · exact (loads_out_float_iff x).mpr (hfinite _ (by simp) x hset)

/-- The request `/setfreq?freq=nan` is answered, and after it the monitor cannot parse `/json`. -/
theorem alwaysParses_fails :
    run (step asciiTables) initialFreq [.setfreq (.value (some ['n', 'a', 'n']))] =
        some (.float .nan) ∧
      ChrisMonitor.gridStatus (.data (response asciiTables (.float .nan) .json)) none =
        .ok (false, some cannotParseJson) ∧
      ¬ AlwaysParses asciiTables [.setfreq (.value (some ['n', 'a', 'n'])), .json] := by
  have hrun : run (step asciiTables) initialFreq [.setfreq (.value (some ['n', 'a', 'n']))] =
      some (.float .nan) := by rfl
  have hcall : ChrisMonitor.gridStatus (.data (response asciiTables (.float .nan) .json)) none =
      .ok (false, some cannotParseJson) := by rfl
  refine ⟨hrun, hcall, fun h => ?_⟩
  obtain ⟨body, result, hbody, hanswer, -⟩ :=
    (h [.setfreq (.value (some ['n', 'a', 'n']))] .json [] _ rfl hrun).monitor rfl
  rw [← hbody, hcall] at hanswer
  cases hanswer

end GridApps.Advice
