import GridApps.Redis.SortedSet
import GridApps.Webserver.StoredReport
import GridApps.Transition.Runs
import Mathlib.Data.Char
import Mathlib.Data.List.Lex

/-! The serial reader `freqRead.py`, which stores each report under the second it came in. -/
namespace GridApps.Webserver
open Redis Json Numeral Transition

/-- A report that the reader handles: `time.time()` at that moment and `str(rxJson['data'])`. -/
structure Reading where
  clock : ℚ
  text : Text

/-- Python's `int`, which truncates. -/
def stamp (clock : ℚ) : ℤ := if clock < 0 then ⌈clock⌉ else ⌊clock⌋

/-- `frequency:received`; the key need not exist. -/
abbrev FreqSet := Option (ZSet ℤ Text)

namespace FreqRead

/-- The body of the main loop for a report. -/
def handleReport (limits : Limits Text) (freqSet : FreqSet) (r : Reading) : Option FreqSet :=
  (ZSet.zadd limits freqSet (stamp r.clock) r.text).map some

end FreqRead

/-- `r.zrevrange(freqSet, 0, 0)[0]` -/
def newestMember (freqSet : FreqSet) : Option Text := (ZSet.zrevrange freqSet 0 0).head?

theorem stamp_mono {a b : ℚ} (h : a ≤ b) : stamp a ≤ stamp b := by
  unfold stamp
  split_ifs with ha hb hb
  · exact Int.ceil_le_ceil h
  · have hceil : ⌈a⌉ ≤ 0 := Int.ceil_le.mpr (by simpa using ha.le)
    exact hceil.trans (Int.floor_nonneg.mpr (not_lt.mp hb))
  · exact absurd (h.trans_lt hb) ha
  · exact Int.floor_le_floor h

theorem run_handleReport (limits : Limits Text) (readings : List Reading) (freqSet : FreqSet) :
    run (FreqRead.handleReport limits) freqSet readings =
      ZSet.zaddAll limits freqSet (readings.map fun r => (stamp r.clock, r.text)) := by
  induction readings generalizing freqSet with
  | nil => rfl
  | cons r readings ih =>
    rw [run, FreqRead.handleReport, List.map_cons, ZSet.zaddAll, Option.bind_map]
    exact Option.bind_congr fun z _ => ih (some z)

/-- Every report is stored, and the server answers from the last one exactly when no report of
the same second has a greater text. -/
theorem newestMember_iff (limits : Limits Text) (readings : List Reading) (last : Reading)
    (hclock : ((readings ++ [last]).map Reading.clock).Pairwise (· ≤ ·)) :
    ∃ freqSet, run (FreqRead.handleReport limits) none (readings ++ [last]) = some freqSet ∧
      (newestMember freqSet = some last.text ↔
        ∀ r ∈ readings, stamp r.clock = stamp last.clock → r.text ≤ last.text) := by
  obtain ⟨freqSet, hrun, hreflects⟩ := ZSet.Reflects.nil.zaddAll limits
    ((readings ++ [last]).map fun r => (stamp r.clock, r.text))
  refine ⟨freqSet, by rw [run_handleReport, hrun], ?_⟩
  rw [List.nil_append, List.map_append, List.map_singleton] at hreflects
  have hmono : ((readings.map (fun r => (stamp r.clock, r.text)) ++
      [(stamp last.clock, last.text)]).map Prod.fst).Pairwise (· ≤ ·) := by
    have hstamps : ((readings ++ [last]).map fun r => stamp r.clock).Pairwise (· ≤ ·) := by
      rw [List.pairwise_map] at hclock ⊢
      exact hclock.imp stamp_mono
    simpa [List.map_map, Function.comp_def] using hstamps
  rw [newestMember, hreflects.head?_zrevrange_eq_last_iff hmono]
  simp only [List.forall_mem_map]

/-- Two reports of different seconds. -/
theorem newestMember_iff_seconds :
    ∃ freqSet, run (FreqRead.handleReport ⟨128, 64, List.length⟩) none
        ([⟨1, ['{', '5', '}']⟩] ++ [⟨2, ['{', '4', '}']⟩]) = some freqSet ∧
      (newestMember freqSet = some ['{', '4', '}'] ↔
        ∀ r ∈ [(⟨1, ['{', '5', '}']⟩ : Reading)], stamp r.clock = stamp 2 →
          r.text ≤ ['{', '4', '}']) :=
  newestMember_iff ⟨128, 64, List.length⟩ [⟨1, ['{', '5', '}']⟩] ⟨2, ['{', '4', '}']⟩ (by simp)

/-- The report `{"freq": n}`. -/
def freqReport (n : ℤ) : Report where
  members := [(freqKey, .int n)]
  distinct := by simp [Value.Distinct, Value.objects, Value.memberObjects]

/-- A reading of 50 and, in the same second, one of 49: the server goes on answering from 50. -/
theorem newestMember_fails :
    ¬ ∀ (readings : List Reading) (last : Reading) (freqSet : FreqSet),
      ((readings ++ [last]).map Reading.clock).Pairwise (· ≤ ·) →
      run (FreqRead.handleReport ⟨128, 64, List.length⟩) none (readings ++ [last]) =
        some freqSet →
      newestMember freqSet = some last.text := by
  intro h
  let first : Reading := ⟨1, (freqReport 50).stored .simplejson (2 ^ 63 - 1)⟩
  let last : Reading := ⟨3 / 2, (freqReport 49).stored .simplejson (2 ^ 63 - 1)⟩
  have hanswer : (run (FreqRead.handleReport ⟨128, 64, List.length⟩) none
      ([first] ++ [last])).bind newestMember = some first.text := by decide +kernel
  obtain ⟨freqSet, hrun, hfirst⟩ := Option.bind_eq_some_iff.mp hanswer
  have hlast := h [first] last freqSet (by decide +kernel) hrun
  rw [hfirst] at hlast
  exact absurd hlast (by decide +kernel)

end GridApps.Webserver
