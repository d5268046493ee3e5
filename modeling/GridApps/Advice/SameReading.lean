import GridApps.Advice.TwoPaths
import GridApps.Webserver.FreqRead
import GridApps.Webserver.PushSender

/-! The readings of the push sender and of the advice server while `freqRead.py` handles
reports: it writes the set in Redis, and the sender reads a collection in Mongo. -/
namespace GridApps.Advice
open Json Numeral Redis Transition Webserver

/-- `frequency:received`, in Redis and in Mongo. -/
structure Stores where
  freqSet : FreqSet
  freqColl : List FreqDoc

namespace Stores

def handleReport (limits : Limits Text) (s : Stores) (r : Reading) : Option Stores :=
  (FreqRead.handleReport limits s.freqSet r).map fun freqSet => { s with freqSet := freqSet }

/-- The reading on which the sender decides. -/
def SenderReads (s : Stores) (freq : Value) : Prop :=
  ∃ doc, newestDoc s.freqColl = some doc ∧ doc.freq = some (.json freq)

/-- The reading from which the server answers. -/
def ServerReads (s : Stores) (freq : Value) : Prop :=
  ∃ member members, newestMember s.freqSet = some member ∧
    readReport member = some (.obj members) ∧ members.lookup freqKey = some freq

/-- A round of the sender gets to the tokens. -/
def Sends (s : Stores) : Prop := finds50 s.freqColl = some true

/-- The response has the instruction `yes`. -/
def AnswersYes (s : Stores) : Prop :=
  ∃ member body members, newestMember s.freqSet = some member ∧
    JsonRequest.GET member = some body ∧ loads python body = some (.obj members) ∧
    members.lookup instructionKey = some (.str yes)

/-- Sender and server have the same reading and come to the same decision. -/
structure SameReading (s : Stores) : Prop where
  reading : ∃ f g, s.SenderReads f ∧ s.ServerReads g ∧ f.pyEq g = true
  decision : s.Sends ↔ s.AnswersYes

/-- So it is after each of the reports. -/
def FollowsReports (limits : Limits Text) (freqColl : List FreqDoc) (readings : List Reading) :
    Prop :=
  ∀ before r, before ++ [r] <+: readings →
    ∃ s, run (handleReport limits) ⟨none, freqColl⟩ (before ++ [r]) = some s ∧ s.SameReading

end Stores

/-- The second of the last report with this text. -/
def lastStamp (readings : List Reading) (t : Text) : Option ℤ :=
  ZSet.lastScore (readings.map fun r => (stamp r.clock, r.text)) t

/-- No text of the reports has a later second, or the same one and comes after this one. -/
def Leads (readings : List Reading) (t : Text) : Prop :=
  ∃ s, lastStamp readings t = some s ∧
    ∀ t' s', lastStamp readings t' = some s' → s' < s ∨ s' = s ∧ t' ≤ t

/-- The report has the `freq` of the newest document. -/
def Repeats (freqColl : List FreqDoc) (t : Text) : Prop :=
  ∃ doc f members g, newestDoc freqColl = some doc ∧ doc.freq = some (.json f) ∧
    readReport t = some (.obj members) ∧ members.lookup freqKey = some g ∧ f.pyEq g = true

theorem decisions_of_rational {a : Scalar} {q : ℚ} (h : a.rational? = some q) :
    (atLeast50 (.scalar a) = true ↔ 50 ≤ q) ∧ (below50 (.scalar a) = true ↔ q < 50) := by
  cases a with
  | null => cases h
  | str k => cases h
  | bool b =>
    obtain rfl := Option.some.inj h
    cases b <;> norm_num [atLeast50, below50]
  | int n =>
    obtain rfl := Option.some.inj h
    simp only [atLeast50, below50, decide_eq_true_iff]
    exact ⟨by exact_mod_cast Iff.rfl, by exact_mod_cast Iff.rfl⟩
  | float x =>
    cases x with
    | finite x =>
      obtain rfl := Option.some.inj h
      simp [atLeast50, below50, Binary64.ge, Binary64.lt]
    | infinity neg => cases h
    | nan => cases h

theorem decisions_of_not_rational {a : Scalar} (h : a.rational? = none) (hnan : a ≠ .float .nan) :
    atLeast50 (.scalar a) = !below50 (.scalar a) := by
  cases a with
  | null => rfl
  | str k => rfl
  | bool b => cases h
  | int n => cases h
  | float x =>
    cases x with
    | finite x => cases h
    | infinity neg => simp [atLeast50, below50, Binary64.ge, Binary64.lt]
    | nan => exact absurd rfl hnan

theorem decisions_of_pyEq {a b : Scalar} (h : a.pyEq b = true) :
    atLeast50 (.scalar a) = !below50 (.scalar b) := by
  unfold Scalar.pyEq at h
  cases ha : a.rational? with
  | some q =>
    cases hb : b.rational? with
    | some r =>
      simp only [ha, hb, decide_eq_true_eq] at h
      subst h
      rw [Bool.eq_iff_iff, (decisions_of_rational ha).1, Bool.not_eq_true', ← not_lt,
        ← (decisions_of_rational hb).2, Bool.not_eq_true]
    | none => simp [ha, hb] at h
  | none =>
    cases hb : b.rational? with
    | some r => simp [ha, hb] at h
    | none =>
      simp only [ha, hb, Bool.and_eq_true, decide_eq_true_eq] at h
      obtain ⟨rfl, hnan⟩ := h
      exact decisions_of_not_rational ha hnan

/-- Two equal values are at least 50 or below it together. -/
theorem atLeast50_of_pyEq {f g : Value} (h : f.pyEq g = true) : atLeast50 f = !below50 g := by
  cases f with
  | scalar a =>
    cases g with
    | scalar b => exact decisions_of_pyEq (by rwa [Value.pyEq] at h)
    | _ => simp [Value.pyEq] at h
  | arr xs =>
    cases g with
    | arr ys => rfl
    | _ => simp [Value.pyEq] at h
  | obj ms =>
    cases g with
    | obj ns => rfl
    | _ => simp [Value.pyEq] at h

namespace Stores

variable {s : Stores}

theorem sends_iff {f : Value} (h : s.SenderReads f) : s.Sends ↔ atLeast50 f = true := by
  obtain ⟨doc, hdoc, hfreq⟩ := h
  simp [Sends, finds50, hdoc, hfreq, FreqValue.atLeast50]

theorem answersYes_iff {g : Value} (h : s.ServerReads g) : s.AnswersYes ↔ below50 g = false := by
  obtain ⟨member, members, hmember, hreport, hfreq⟩ := h
  have hdistinct := distinct_answered (loads_distinct plainNames_python hreport) g
  have hbody := GET_eq hreport hfreq
  have hread := loads_dumps_python hdistinct
  have hinstruction : (Members.setItem instructionKey (.str (if below50 g then no else yes))
      members).lookup instructionKey = some (.str (if below50 g then no else yes)) :=
    Members.lookup_setItem_self _ _ _
  have hanswer : s.AnswersYes ↔ (if below50 g then no else yes) = yes := by
    constructor
    · rintro ⟨member', body, out, hmember', hget, hout, hyes⟩
      obtain rfl := Option.some.inj (hmember.symm.trans hmember')
      obtain rfl := Option.some.inj (hbody.symm.trans hget)
      obtain rfl := Value.obj.inj (Option.some.inj (hread.symm.trans hout))
      simpa [hinstruction] using hyes
    · intro hyes
      exact ⟨member, _, _, hmember, hbody, hread, by rw [hinstruction, hyes]⟩
  rw [hanswer]
  cases below50 g
  · simp
  · simp [show no ≠ yes by decide]

/-- The same reading comes with the same decision. -/
theorem sameReading_iff :
    s.SameReading ↔ ∃ f g, s.SenderReads f ∧ s.ServerReads g ∧ f.pyEq g = true := by
  refine ⟨SameReading.reading, fun h => ⟨h, ?_⟩⟩
  obtain ⟨f, g, hf, hg, heq⟩ := h
  rw [sends_iff hf, answersYes_iff hg, atLeast50_of_pyEq heq, Bool.not_eq_true']

/-- The reports never get to the collection. -/
theorem run_freqColl (limits : Limits Text) (freqColl : List FreqDoc) (freqSet : FreqSet)
    (readings : List Reading) : run (handleReport limits) ⟨freqSet, freqColl⟩ readings =
      (run (FreqRead.handleReport limits) freqSet readings).map fun freqSet =>
        ⟨freqSet, freqColl⟩ := by
  have hstep : ∀ freqSet r, handleReport limits ⟨freqSet, freqColl⟩ r =
      (FreqRead.handleReport limits freqSet r).map fun freqSet => ⟨freqSet, freqColl⟩ :=
    fun _ _ => rfl
  exact run_map _ hstep freqSet readings

/-- Reports are handled without a failure, and the server has the leading text. -/
theorem exists_run (limits : Limits Text) (freqColl : List FreqDoc) (readings : List Reading) :
    ∃ freqSet, run (handleReport limits) ⟨none, freqColl⟩ readings = some ⟨freqSet, freqColl⟩ ∧
      (readings ≠ [] → ∃ t, newestMember freqSet = some t) ∧
      ∀ t, newestMember freqSet = some t ↔ Leads readings t := by
  obtain ⟨freqSet, hrun, hreflects⟩ := ZSet.Reflects.nil.zaddAll limits
    (readings.map fun r => (stamp r.clock, r.text))
  refine ⟨freqSet, ?_, fun hne => hreflects.exists_head (by simpa using hne), fun t => ?_⟩
  · rw [run_freqColl, run_handleReport, hrun, Option.map_some]
  · rw [newestMember, hreflects.head?_zrevrange_eq_some_iff]
    simp only [entry_le_iff, entry_score, entry_member]
    rfl

/-- With one leading text, the reading is the same exactly if that text repeats the document. -/
theorem sameReading_iff_repeats {freqSet : FreqSet} {freqColl : List FreqDoc} {t : Text}
    (ht : newestMember freqSet = some t) :
    SameReading ⟨freqSet, freqColl⟩ ↔ Repeats freqColl t := by
  rw [sameReading_iff]
  constructor
  · rintro ⟨f, g, ⟨doc, hdoc, hf⟩, ⟨member, members, hmember, hreport, hg⟩, heq⟩
    obtain rfl := Option.some.inj (ht.symm.trans hmember)
    exact ⟨doc, f, members, g, hdoc, hf, hreport, hg, heq⟩
  · rintro ⟨doc, f, members, g, hdoc, hf, hreport, hg, heq⟩
    exact ⟨f, g, ⟨doc, hdoc, hf⟩, ⟨t, members, ht, hreport, hg⟩, heq⟩

/-- Sender and server have the same reading after each report exactly if every report that is at
any time the leading one repeats the newest document of the collection. -/
theorem followsReports_iff (limits : Limits Text) (freqColl : List FreqDoc)
    (readings : List Reading) : FollowsReports limits freqColl readings ↔
      ∀ before, before <+: readings → ∀ t, Leads before t → Repeats freqColl t := by
  constructor
  · intro h before hbefore t ht
    obtain ⟨freqSet, hrun, -, hleads⟩ := exists_run limits freqColl before
    rcases List.eq_nil_or_concat before with rfl | ⟨front, r, rfl⟩
    · obtain ⟨s, hs, -⟩ := ht
      contradiction
    · rw [List.concat_eq_append] at hbefore hrun
      obtain ⟨s, hs, hsame⟩ := h front r hbefore
      obtain rfl := Option.some.inj (hrun.symm.trans hs)
      exact (sameReading_iff_repeats ((hleads t).mpr ht)).mp hsame
  · intro h before r hprefix
    obtain ⟨freqSet, hrun, hnewest, hleads⟩ := exists_run limits freqColl (before ++ [r])
    obtain ⟨t, ht⟩ := hnewest (by simp)
    have hrepeats := h (before ++ [r]) hprefix t ((hleads t).mp ht)
    exact ⟨_, hrun, (sameReading_iff_repeats ht).mpr hrepeats⟩

/-- The report `{'freq': 50}`, and nothing has put a document into the collection: the server
answers `yes`, and the sender does not get to the tokens. -/
theorem followsReports_fails :
    ∃ s, run (handleReport ⟨128, 64, List.length⟩) ⟨none, []⟩
        [⟨1, ['{', '\'', 'f', 'r', 'e', 'q', '\'', ':', ' ', '5', '0', '}']⟩] = some s ∧
      s.AnswersYes ∧ ¬ s.Sends ∧ ¬ FollowsReports ⟨128, 64, List.length⟩ []
        [⟨1, ['{', '\'', 'f', 'r', 'e', 'q', '\'', ':', ' ', '5', '0', '}']⟩] := by
  let text : Text := ['{', '\'', 'f', 'r', 'e', 'q', '\'', ':', ' ', '5', '0', '}']
  have hanswer : (run (FreqRead.handleReport ⟨128, 64, List.length⟩) none [⟨1, text⟩]).bind
      newestMember = some text := by decide +kernel
  obtain ⟨freqSet, hreports, hnewest⟩ := Option.bind_eq_some_iff.mp hanswer
  have hrun : run (handleReport ⟨128, 64, List.length⟩) ⟨none, []⟩ [⟨1, text⟩] =
      some ⟨freqSet, []⟩ := by
    rw [run_freqColl, hreports, Option.map_some]
  have hreads : ServerReads ⟨freqSet, []⟩ (.int 50) :=
    ⟨text, [(freqKey, .int 50)], hnewest, by rfl, by rfl⟩
  refine ⟨_, hrun, (answersYes_iff hreads).mpr (by decide), by simp [Sends, finds50, newestDoc], ?_⟩
  intro h
  obtain ⟨s, hs, hsame⟩ := h [] _ (List.prefix_refl _)
  obtain rfl := Option.some.inj (hrun.symm.trans hs)
  obtain ⟨f, g, ⟨doc, hdoc, -⟩, -⟩ := hsame.reading
  exact absurd hdoc (by simp [newestDoc])

end Stores
end GridApps.Advice
