import GridApps.Bytes.Struct
import GridApps.Webserver.FreqRead

/-! The main loop of `freqRead.py` over the lines of the serial port. -/
namespace GridApps.Webserver
open Json Numeral Redis Struct Transition

def typeKey : CodeUnits := units ['t', 'y', 'p', 'e']

def dataKey : CodeUnits := units ['d', 'a', 't', 'a']

def log : CodeUnits := units ['l', 'o', 'g']

def report : CodeUnits := units ['r', 'e', 'p', 'o', 'r', 't']

/-- `key in rxJson`: a key, an item or a part of a string. Anything else raises. -/
def isIn (key : CodeUnits) : Value → Option Bool
  | .obj members => some (members.lookup key).isSome
  | .arr items => some (items.any fun item => item.pyEq (.str key))
  | .str s => some (decide (key <:+: s))
  | _ => none

/-- `rxJson[key]`, for a key that is a string. -/
def getItem (key : CodeUnits) : Value → Option Value
  | .obj members => members.lookup key
  | _ => none

/-- What `ser.readline()` returns, and `time.time()` after it. -/
structure SerialLine where
  clock : ℚ
  bytes : Bytes
  deriving DecidableEq, Repr

namespace FreqRead

section
variable (jsonLoads : Bytes → Option Value) (lib : Library) (maxint : ℕ)

/-- The two branches for a value with a type and data. -/
def handleData (type data : Value) : Option (Option Text) :=
  if type.pyEq (.str log) then (pyStr lib maxint data).map fun _ => none
  else if type.pyEq (.str report) then (pyStr lib maxint data).map some
  else some none

/-- The body of the main loop after the line is decoded, with the member that it adds. -/
def handleValue (rxJson : Value) : Option (Option Text) :=
  (isIn typeKey rxJson).bind fun hasType =>
    if hasType then (isIn dataKey rxJson).bind fun hasData =>
      if hasData then (getItem typeKey rxJson).bind fun type =>
        (getItem dataKey rxJson).bind fun data => handleData lib maxint type data
      else some none
    else some none

/-- One round of the main loop. The reports that were handed to Redis so far are the state. -/
def step (readings : List Reading) (line : SerialLine) : Option (List Reading) :=
  (jsonLoads line.bytes).bind fun rxJson => (handleValue lib maxint rxJson).map fun member =>
    readings ++ (member.map fun text => ⟨line.clock, text⟩).toList

end

/-- The data of an object that is a report. -/
def reported : Value → Option Value
  | .obj members => (members.lookup typeKey).bind fun type =>
      if type.pyEq (.str report) then members.lookup dataKey else none
  | _ => none

section
variable (jsonLoads : Bytes → Option Value) (lib : Library) (maxint : ℕ)

/-- The loop reads all lines, and stores `str` of the data of each report. -/
def Survives (lines : List SerialLine) : Prop :=
  ∃ readings, run (step jsonLoads lib maxint) [] lines = some readings ∧
    readings.map (fun r => some r.text) =
      (lines.filterMap fun line => (jsonLoads line.bytes).bind reported).map (pyStr lib maxint)

end

/-- The types with a branch that prints the data. -/
def Printed (type : Value) : Prop := type = .str log ∨ type = .str report

def IsAscii (v : Value) : Prop := ∀ k, v = .str k → ∀ u ∈ k, u.toNat < 0x80

/-- The values that the body of the loop gets through: objects, but not with a log or a report
of text outside ASCII, and arrays and strings that do not contain both words. -/
def Harmless : Value → Prop
  | .obj members => ∀ type data, members.lookup typeKey = some type →
      members.lookup dataKey = some data → Printed type → IsAscii data
  | .arr items => ¬ (.str typeKey ∈ items ∧ .str dataKey ∈ items)
  | .str s => ¬ (typeKey <:+: s ∧ dataKey <:+: s)
  | .scalar _ => False

theorem pyStr_isSome_iff (lib : Library) (maxint : ℕ) (v : Value) :
    (pyStr lib maxint v).isSome = true ↔ IsAscii v := by
  cases v with
  | arr items => simp [pyStr, IsAscii]
  | obj members => simp [pyStr, IsAscii]
  | scalar s =>
    cases s with
    | str k => simp [pyStr, IsAscii, Option.isSome_iff_exists]
    | float x => cases x <;> simp [pyStr, IsAscii]
    | _ => simp [pyStr, IsAscii]

variable {lib : Library} {maxint : ℕ}

/-- A value of a type and data: the body raises exactly if it prints text outside ASCII. -/
theorem handleData_isSome_iff (type data : Value) :
    (handleData lib maxint type data).isSome = true ↔ (Printed type → IsAscii data) := by
  unfold handleData Printed
  simp only [← Value.pyEq_str_iff]
  split_ifs with hlog hreport
  · simp [hlog, pyStr_isSome_iff]
  · simp [hreport, pyStr_isSome_iff]
  · simp [hlog, hreport]

theorem handleData_member {type data : Value} {member : Option Text}
    (h : handleData lib maxint type data = some member) :
    member.map some = if type.pyEq (.str report) then some (pyStr lib maxint data) else none := by
  unfold handleData at h
  split_ifs at h with hlog hreport
  · obtain ⟨text, -, rfl⟩ := Option.map_eq_some_iff.mp h
    obtain rfl := Value.pyEq_str_iff.mp hlog
    rfl
  · obtain ⟨text, htext, rfl⟩ := Option.map_eq_some_iff.mp h
    rw [if_pos hreport, htext, Option.map_some]
  · obtain rfl := Option.some.inj h
    rw [if_neg hreport, Option.map_none]

theorem handleValue_obj (members : Members) : handleValue lib maxint (.obj members) =
    match members.lookup typeKey, members.lookup dataKey with
    | some type, some data => handleData lib maxint type data
    | _, _ => some none := by
  simp only [handleValue, isIn, getItem]
  cases members.lookup typeKey <;> cases members.lookup dataKey <;> rfl

/-- The body of the loop raises exactly for the values that are not harmless. -/
theorem handleValue_isSome_iff (v : Value) :
    (handleValue lib maxint v).isSome = true ↔ Harmless v := by
  cases v with
  | obj members =>
    rw [handleValue_obj]
    cases htype : members.lookup typeKey <;> cases hdata : members.lookup dataKey <;>
      simp [Harmless, htype, hdata, handleData_isSome_iff]
  | arr items =>
    have hmem (k : CodeUnits) :
        items.any (fun item => item.pyEq (.str k)) = true ↔ .str k ∈ items := by
      simp [List.any_eq_true, Value.pyEq_str_iff]
    simp only [handleValue, isIn, getItem, Harmless, ← hmem]
    cases items.any (fun item => item.pyEq (.str typeKey)) <;>
      cases items.any (fun item => item.pyEq (.str dataKey)) <;> simp
  | scalar s =>
    cases s with
    | str s =>
      simp only [handleValue, isIn, getItem, Harmless]
      by_cases htype : typeKey <:+: s <;> by_cases hdata : dataKey <:+: s <;> simp [htype, hdata]
    | _ => simp [handleValue, isIn, Harmless]

/-- Only an object has something to add. -/
theorem member_eq_none {v : Value} {member : Option Text} (hget : getItem typeKey v = none)
    (h : handleValue lib maxint v = some member) : member = none := by
  obtain ⟨hasType, -, h⟩ := Option.bind_eq_some_iff.mp h
  split_ifs at h
  · obtain ⟨hasData, -, h⟩ := Option.bind_eq_some_iff.mp h
    split_ifs at h
    · simp [hget] at h
    · exact (Option.some.inj h).symm
  · exact (Option.some.inj h).symm

/-- What the body adds is `str` of the data of a report. -/
theorem handleValue_member {v : Value} {member : Option Text}
    (h : handleValue lib maxint v = some member) :
    member.map some = (reported v).map (pyStr lib maxint) := by
  cases v with
  | obj members =>
    rw [handleValue_obj] at h
    simp only [reported]
    cases htype : members.lookup typeKey with
    | none =>
      simp only [htype] at h
      obtain rfl := Option.some.inj h
      rfl
    | some type =>
      cases hdata : members.lookup dataKey with
      | none =>
        simp only [htype, hdata] at h
        obtain rfl := Option.some.inj h
        simp
      | some data =>
        simp only [htype, hdata] at h
        rw [handleData_member h, Option.bind_some]
        split_ifs <;> rfl
  | arr items =>
    obtain rfl := member_eq_none rfl h
    rfl
  | scalar s =>
    obtain rfl := member_eq_none rfl h
    rfl

variable {jsonLoads : Bytes → Option Value}

theorem step_eq_some_iff {readings readings' : List Reading} {line : SerialLine} :
    step jsonLoads lib maxint readings line = some readings' ↔
      ∃ rxJson member, jsonLoads line.bytes = some rxJson ∧
        handleValue lib maxint rxJson = some member ∧
        readings' = readings ++ (member.map fun text => ⟨line.clock, text⟩).toList := by
  simp only [step, Option.bind_eq_some_iff, Option.map_eq_some_iff]
  constructor
  · rintro ⟨rxJson, hload, member, hmember, rfl⟩
    exact ⟨rxJson, member, hload, hmember, rfl⟩
  · rintro ⟨rxJson, member, hload, hmember, rfl⟩
    exact ⟨rxJson, hload, member, hmember, rfl⟩

/-- One round of the loop stores what it should, if it ends at all. -/
theorem step_readings {readings readings' : List Reading} {line : SerialLine}
    (h : step jsonLoads lib maxint readings line = some readings') :
    readings'.map (fun r => some r.text) = readings.map (fun r => some r.text) ++
      (((jsonLoads line.bytes).bind reported).map (pyStr lib maxint)).toList := by
  obtain ⟨rxJson, member, hload, hmember, rfl⟩ := step_eq_some_iff.mp h
  rw [hload, Option.bind_some, ← handleValue_member hmember, List.map_append]
  cases member <;> rfl

/-- The rounds that end store what they should. -/
theorem run_readings {lines : List SerialLine} {readings readings' : List Reading}
    (h : run (step jsonLoads lib maxint) readings lines = some readings') :
    readings'.map (fun r => some r.text) = readings.map (fun r => some r.text) ++
      (lines.filterMap fun line =>
        (jsonLoads line.bytes).bind reported).map (pyStr lib maxint) := by
  refine run_induction (P := fun lines readings' => readings'.map (fun r => some r.text) =
    readings.map (fun r => some r.text) ++ (lines.filterMap fun line =>
      (jsonLoads line.bytes).bind reported).map (pyStr lib maxint)) (by simp) ?_ h
  intro before line t t' _ hstep ih
  rw [step_readings hstep, ih, List.filterMap_append, List.map_append, List.append_assoc]
  cases h : (jsonLoads line.bytes).bind reported <;> simp [h]

theorem exists_step_iff {readings : List Reading} {line : SerialLine} :
    (∃ readings', step jsonLoads lib maxint readings line = some readings') ↔
      ∃ rxJson, jsonLoads line.bytes = some rxJson ∧ Harmless rxJson := by
  simp only [step_eq_some_iff, ← @handleValue_isSome_iff lib maxint,
    Option.isSome_iff_exists]
  constructor
  · rintro ⟨-, rxJson, member, hload, hmember, -⟩
    exact ⟨rxJson, hload, member, hmember⟩
  · rintro ⟨rxJson, hload, member, hmember⟩
    exact ⟨_, rxJson, member, hload, hmember, rfl⟩

theorem exists_run_iff {readings : List Reading} {lines : List SerialLine} :
    (∃ readings', run (step jsonLoads lib maxint) readings lines = some readings') ↔
      ∀ line ∈ lines, ∃ rxJson, jsonLoads line.bytes = some rxJson ∧ Harmless rxJson := by
  induction lines generalizing readings with
  | nil => simp [run]
  | cons line lines ih =>
    rw [List.forall_mem_cons, ← @exists_step_iff lib maxint jsonLoads readings line]
    simp only [run, Option.bind_eq_some_iff]
    constructor
    · rintro ⟨t, s', hs', ht⟩
      exact ⟨⟨s', hs'⟩, ih.mp ⟨t, ht⟩⟩
    · rintro ⟨⟨s', hs'⟩, hlines⟩
      obtain ⟨t, ht⟩ := ih.mpr hlines
      exact ⟨t, s', hs', ht⟩

/-- The loop gets through the lines and stores their reports exactly if each of them is JSON of a
harmless value. -/
theorem survives_iff (jsonLoads : Bytes → Option Value) (lib : Library) (maxint : ℕ)
    (lines : List SerialLine) : Survives jsonLoads lib maxint lines ↔
      ∀ line ∈ lines, ∃ rxJson, jsonLoads line.bytes = some rxJson ∧ Harmless rxJson := by
  rw [← @exists_run_iff lib maxint jsonLoads []]
  refine exists_congr fun readings => and_iff_left_of_imp fun h => ?_
  simpa using run_readings h

/-- The line as JSON in UTF-8, which the decoder takes a `str` for. -/
def utf8Loads (bytes : Bytes) : Option Value :=
  (ByteArray.utf8Decode? bytes.toByteArray).bind fun t => loads python t.toList

theorem utf8Loads_flatMap (t : Text) : utf8Loads (t.flatMap String.utf8EncodeChar) =
    loads python t := by
  have hdecode : ByteArray.utf8Decode? (t.flatMap String.utf8EncodeChar).toByteArray =
      some t.toArray := List.utf8Decode?_utf8Encode
  rw [utf8Loads, hdecode, Option.bind_some]

/-- The value as the line that an encoder writes. -/
def jsonLine (clock : ℚ) (v : Value) : SerialLine :=
  ⟨clock, (dumps v).flatMap String.utf8EncodeChar⟩

/-- Lines that an encoder has written, each of a harmless value, are all read. -/
theorem survives_jsonLines (lib : Library) (maxint : ℕ) (values : List (ℚ × Value))
    (hvalues : ∀ x ∈ values, x.2.Distinct ∧ Harmless x.2) :
    Survives utf8Loads lib maxint (values.map fun x => jsonLine x.1 x.2) := by
  have hlines : ∀ line ∈ values.map fun x => jsonLine x.1 x.2,
      ∃ rxJson, utf8Loads line.bytes = some rxJson ∧ Harmless rxJson := by
    intro line hline
    obtain ⟨x, hx, rfl⟩ := List.mem_map.mp hline
    obtain ⟨hdistinct, hharmless⟩ := hvalues x hx
    exact ⟨x.2, (utf8Loads_flatMap _).trans (loads_dumps_python hdistinct), hharmless⟩
  obtain ⟨readings, hrun⟩ := (@exists_run_iff lib maxint utf8Loads []).mpr hlines
  exact ⟨readings, hrun, by simpa using run_readings hrun⟩

/-- Two seconds without a line: `readline` returns the empty string. -/
theorem survives_fails : ¬ Survives utf8Loads .simplejson (2 ^ 63 - 1) [⟨0, []⟩] := by
  rintro ⟨readings, hrun, -⟩
  have hload : utf8Loads [] = none := utf8Loads_flatMap []
  simp [run, step, hload] at hrun

end FreqRead
end GridApps.Webserver
