import GridApps.Redis.ZsetCommands

/-! What the commands on a sorted set mean, as functions of its entries in order. The replies do not
depend on the encoding, on the limits for it, on addresses or on random levels. -/
namespace GridApps.Redis

variable {A S M : Type} [LinearOrder S] [LinearOrder M] {l l' : List (Entry S M)} {score : S}
  {ele : M}

namespace Sorted

def scoreOf (ele : M) (l : List (Entry S M)) : Option S :=
  (l.find? fun e => decide (e.member = ele)).map Entry.score

def put (score : S) (ele : M) (l : List (Entry S M)) : List (Entry S M) :=
  (l.filter fun e => decide (e.member ≠ ele)).orderedInsert (· ≤ ·) (entry score ele)

/-- One element of `ZADD` or `ZINCRBY`, its score and whether it is new. -/
def addElement (plus : S → S → Option S) (incr : Bool) (score : S) (ele : M)
    (l : List (Entry S M)) : List (Entry S M) × Option (S × Bool) :=
  match scoreOf ele l with
  | none => (put score ele l, some (score, true))
  | some curscore =>
    match newScore plus incr score curscore with
    | none => (l, none)
    | some score => (put score ele l, some (score, false))

/-- The entries after some additions, and how many of the members were new. -/
def addAll : List (S × M) → List (Entry S M) → List (Entry S M) × ℕ
  | [], l => (l, 0)
  | element :: elements, l =>
    let r := addAll elements (put element.1 element.2 l)
    (r.1, if (scoreOf element.2 l).isNone then r.2 + 1 else r.2)

/-- The entries after a command, and its reply. -/
def exec (plus : S → S → Option S) (l : List (Entry S M)) :
    ZCommand S M → List (Entry S M) × ZReply S M
  | .zadd first more =>
    let r := addAll (first :: more) l
    (r.1, .integer r.2)
  | .zincrby increment ele =>
    match scoreOf ele l with
    | none => (put increment ele l, .double increment)
    | some score =>
      match plus increment score with
      | none => (l, .nanerr)
      | some score => (put score ele l, .double score)
  | .zrem eles =>
    let kept := l.filter fun e => !eles.contains e.member
    (kept, .integer (l.length - kept.length))
  | .zremrangebyscore range =>
    (l.filter fun e => !inRange range e, .integer (l.filter (inRange range)).length)
  | .zremrangebyrank start stop =>
    let removed := between start stop l
    (l.filter fun e => !removed.contains e, .integer removed.length)
  | .zrange reverse start stop withscores =>
    (l, .multibulk ((between start stop (if reverse then l.reverse else l)).map (bulk withscores)))
  | .zrangebyscore reverse range offset limit withscores =>
    (l, .multibulk ((page offset limit
      ((if reverse then l.reverse else l).filter (inRange range))).map (bulk withscores)))
  | .zcount range => (l, .integer (l.filter (inRange range)).length)
  | .zcard => (l, .integer l.length)
  | .zscore ele =>
    (l, match scoreOf ele l with
      | some score => .double score
      | none => .nullbulk)
  | .zrank reverse ele =>
    (l, match (l.map Entry.member).idxOf? ele with
      | some i => .integer (if reverse then (l.length : ℤ) - 1 - i else i)
      | none => .nullbulk)

def run (plus : S → S → Option S) (l : List (Entry S M)) :
    List (ZCommand S M) → List (Entry S M) × List (ZReply S M)
  | [] => (l, [])
  | c :: cs =>
    let r := exec plus l c
    let rs := run plus r.1 cs
    (rs.1, r.2 :: rs.2)

end Sorted

open Sorted

/-- Entries in order are those of a set. -/
theorem Ordered.ext (h : Ordered l) (h' : Ordered l') (hmem : ∀ e, e ∈ l ↔ e ∈ l') : l = l' := by
  have hperm := (List.perm_ext_iff_of_nodup h.members.of_map h'.members.of_map).mpr hmem
  exact hperm.eq_of_pairwise (fun _ _ _ _ => le_antisymm) h.sorted h'.sorted

omit [LinearOrder S] in
theorem zzlFind_eq_scoreOf (ele : M) (l : List (Entry S M)) : zzlFind ele l = scoreOf ele l := by
  induction l with
  | nil => rfl
  | cons e l ih =>
    rw [zzlFind, scoreOf, List.find?_cons]
    by_cases he : e.member = ele
    · simp [he]
    · simp [he, ih, scoreOf]

theorem Ordered.scoreOf_eq_some_iff (h : Ordered l) :
    scoreOf ele l = some score ↔ entry score ele ∈ l := by
  rw [← zzlFind_eq_scoreOf, zzlFind_eq_some h.members]

omit [LinearOrder S] in
theorem scoreOf_eq_none_iff : scoreOf ele l = none ↔ ele ∉ l.map Entry.member := by
  rw [scoreOf, Option.map_eq_none_iff, List.find?_eq_none, List.mem_map]
  simp only [decide_eq_true_eq]
  exact ⟨fun hne ⟨e, he, heq⟩ => hne e he heq, fun hne e he heq => hne ⟨e, he, heq⟩⟩

theorem Ordered.puts_put (h : Ordered l) (score : S) (ele : M) :
    Puts l score ele (put score ele l) := by
  have hfilter : Ordered (l.filter fun e => decide (e.member ≠ ele)) :=
    h.sublist List.filter_sublist
  have hele : ele ∉ (l.filter fun e => decide (e.member ≠ ele)).map Entry.member := by simp
  have hputs := Puts.insert hfilter score hele
  refine ⟨hputs.ordered, fun e => (hputs.mem_iff e).trans ?_⟩
  simp

theorem Ordered.put_ne_nil (h : Ordered l) (score : S) (ele : M) : put score ele l ≠ [] :=
  List.ne_nil_of_mem (((h.puts_put score ele).mem_iff _).mpr (.inl rfl))

theorem Puts.eq_put (hputs : Puts l score ele l') (h : Ordered l) : l' = put score ele l :=
  hputs.ordered.ext (h.puts_put score ele).ordered fun e =>
    (hputs.mem_iff e).trans ((h.puts_put score ele).mem_iff e).symm

theorem Ordered.scoreOf_put (h : Ordered l) (score : S) (ele : M) :
    (fun m => scoreOf m (put score ele l)) =
      Function.update (fun m => scoreOf m l) ele (some score) := by
  have hputs := h.puts_put score ele
  funext m
  refine Option.ext fun s => ?_
  rw [hputs.ordered.scoreOf_eq_some_iff, hputs.mem_iff, entry_eq, entry_score, entry_member,
    Function.update_apply]
  split_ifs with hm
  · simp [hm, eq_comm]
  · simp [hm, h.scoreOf_eq_some_iff]

variable {hashFunction : M → ℕ}

/-- The value has the entries `l`. -/
def Zobj.Holds (hashFunction : M → ℕ) (l : List (Entry S M)) : Zobj A S M → Prop
  | .ziplist zl => zl = l
  | .skiplist zs => zs.zsl.Holds l ∧ zs.dict.Holds hashFunction fun m => scoreOf m l

/-- A key exists as long as its set is not empty. -/
structure Keeps (hashFunction : M → ℕ) (zobj : Option (Zobj A S M)) (l : List (Entry S M)) :
    Prop where
  ordered : Ordered l
  holds : match zobj with
    | none => l = []
    | some z => z.Holds hashFunction l ∧ l ≠ []

theorem keeps_none : Keeps hashFunction (none : Option (Zobj A S M)) [] :=
  ⟨⟨.nil, List.nodup_nil⟩, rfl⟩

variable [DecidableEq A]

theorem Supply.holds_zslInsert (supply : Supply A S M) {zsl : Zskiplist A S M} (h : zsl.Holds l)
    (hord : Ordered l) (score : S) (hele : ele ∉ l.map Entry.member) :
    ∃ zsl', supply.zslInsert score ele zsl = some zsl' ∧ zsl'.Holds (put score ele l) := by
  obtain ⟨zsl', hinsert, h'⟩ := h.zslInsert hord.sorted score ele
    (Zskiplist.zslRandomLevel_pos (supply.draws zsl)) (Zskiplist.zslRandomLevel_le _)
    (supply.fresh zsl l h)
  refine ⟨zsl', hinsert, ?_⟩
  rwa [zslInsert_eq, (Puts.insert hord score hele).eq_put hord] at h'

theorem Zset.holds_add (supply : Supply A S M) {zs : Zset A S M}
    (h : Zobj.Holds hashFunction l (.skiplist zs)) (hord : Ordered l) (score : S)
    (hele : scoreOf ele l = none) :
    ∃ zs', zs.add hashFunction supply score ele = some zs' ∧
      Zobj.Holds hashFunction (put score ele l) (.skiplist zs') := by
  obtain ⟨hzsl, hdict⟩ := h
  obtain ⟨zsl', hinsert, hzsl'⟩ :=
    supply.holds_zslInsert hzsl hord score (scoreOf_eq_none_iff.mp hele)
  obtain ⟨dict', hadd, hdict'⟩ := hdict.dictAdd supply.dictCanResize ele score
  simp only [hele, Option.isNone_none, if_true] at hadd hdict'
  rw [← hord.scoreOf_put] at hdict'
  refine ⟨⟨dict', zsl'⟩, ?_, hzsl', hdict'⟩
  simp only [Zset.add, hinsert, Option.bind_eq_bind, Option.bind_some, hadd]
  rfl

omit [LinearOrder S] [DecidableEq A] in
theorem Zset.holds_create :
    Zobj.Holds hashFunction ([] : List (Entry S M)) (.skiplist (Zset.create : Zset A S M)) :=
  ⟨Zskiplist.holds_zslCreate, Dict.holds_dictCreate hashFunction⟩

/-- The conversion goes through the entries in order. -/
theorem Zset.foldlM_add (supply : Supply A S M) (front back : List (Entry S M))
    (hord : Ordered (front ++ back)) {zs : Zset A S M}
    (h : Zobj.Holds hashFunction front (.skiplist zs)) :
    ∃ zs', back.foldlM (fun zs e => zs.add hashFunction supply e.score e.member) zs = some zs' ∧
      Zobj.Holds hashFunction (front ++ back) (.skiplist zs') := by
  induction back generalizing front zs with
  | nil => exact ⟨zs, rfl, by rwa [List.append_nil]⟩
  | cons e back ih =>
    have hfront : Ordered front := hord.sublist (List.sublist_append_left front _)
    have hassoc : front ++ e :: back = front ++ [e] ++ back := List.append_cons front e back
    have hnext : Ordered (front ++ [e]) :=
      hord.sublist (hassoc ▸ List.sublist_append_left (front ++ [e]) back)
    have hnot : e.member ∉ front.map Entry.member := by
      have hmembers := hnext.members
      rw [List.map_append, List.nodup_append] at hmembers
      exact fun hmem => hmembers.2.2 _ hmem _ (by simp) rfl
    obtain ⟨s, hadd, hs⟩ := zs.holds_add supply h hfront e.score (scoreOf_eq_none_iff.mpr hnot)
    have hput : put e.score e.member front = front ++ [e] := by
      refine (hfront.puts_put e.score e.member).ordered.ext hnext fun a => ?_
      rw [(hfront.puts_put e.score e.member).mem_iff, List.mem_append, List.mem_singleton]
      have hne : a ∈ front → a.member ≠ e.member := fun ha heq =>
        hnot (heq ▸ List.mem_map_of_mem ha)
      rw [and_iff_left_of_imp hne, or_comm]
      rfl
    rw [hput] at hs
    rw [hassoc] at hord ⊢
    obtain ⟨zs', hfold, h'⟩ := ih (front ++ [e]) hord hs
    exact ⟨zs', by rw [List.foldlM_cons, hadd]; exact hfold, h'⟩

theorem Zset.holds_convert (hashFunction : M → ℕ) (supply : Supply A S M) (hord : Ordered l)
    (hne : l ≠ []) :
    ∃ zs, Zset.convert (A := A) hashFunction supply l = some zs ∧
      Zobj.Holds hashFunction l (.skiplist zs) := by
  rw [Zset.convert, if_neg (by simpa using hne)]
  exact Zset.foldlM_add supply [] l hord Zset.holds_create

/-- The score of an element that is in the skip list already. -/
theorem Zset.holds_update (supply : Supply A S M) {zsl : Zskiplist A S M} {dict : Dict M S}
    (hzsl : zsl.Holds l) (hdict : dict.Holds hashFunction fun m => scoreOf m l)
    (hsize : dict.ht0.size ≠ 0) (hord : Ordered l) {curscore : S}
    (hcur : scoreOf ele l = some curscore) (score : S) :
    ∃ zsl' zsl'' dict', zsl.zslDelete curscore ele = some (zsl', true) ∧
      supply.zslInsert score ele zsl' = some zsl'' ∧
      dict.dictSetHashVal hashFunction ele score = some dict' ∧
      Zobj.Holds hashFunction (put score ele l) (.skiplist ⟨dict', zsl''⟩) := by
  have hmem := hord.scoreOf_eq_some_iff.mp hcur
  have herase : Ordered (l.erase (entry curscore ele)) := hord.sublist List.erase_sublist
  have hnot := hord.notMem_erase hmem
  obtain ⟨zsl', hdelete, hzsl'⟩ :=
    hzsl.zslDelete_of_some hord.sorted (zslDelete_eq hord.sorted hmem)
  obtain ⟨zsl'', hinsert, hzsl''⟩ := supply.holds_zslInsert hzsl' herase score hnot
  have hkey : (fun m => scoreOf m l) ele ≠ none := by simp [hcur]
  obtain ⟨dict', hset, hdict'⟩ := hdict.dictSetHashVal hsize hkey score
  rw [← hord.scoreOf_put] at hdict'
  rw [← (Puts.insert herase score hnot).eq_put herase,
    (Puts.replace hord score hmem).eq_put hord] at hzsl''
  exact ⟨zsl', zsl'', dict', hdelete, hinsert, hset, hzsl'', hdict'⟩

theorem Zobj.zaddElement_ziplist (limits : Limits M) (plus : S → S → Option S) (incr : Bool)
    (supply : Supply A S M) (hord : Ordered l) (score : S) (ele : M) :
    ∃ z', Zobj.zaddElement hashFunction limits plus incr supply score ele (.ziplist l) =
        some (z', (addElement plus incr score ele l).2) ∧
      z'.Holds hashFunction (addElement plus incr score ele l).1 := by
  rw [Zobj.zaddElement, zzlFind_eq_scoreOf, addElement]
  cases hfound : scoreOf ele l with
  | none =>
    have hele := scoreOf_eq_none_iff.mp hfound
    have hput : zzlInsert ele score l = put score ele l := by
      rw [zzlInsert_eq hele, (Puts.insert hord score hele).eq_put hord]
    simp only [hput]
    split_ifs with hlimits
    · obtain ⟨zs, hconvert, hzs⟩ := Zset.holds_convert hashFunction supply
        (hord.puts_put score ele).ordered (hord.put_ne_nil score ele)
      exact ⟨.skiplist zs, by rw [hconvert]; rfl, hzs⟩
    · exact ⟨.ziplist (put score ele l), rfl, rfl⟩
  | some curscore =>
    have hmem := hord.scoreOf_eq_some_iff.mp hfound
    simp only
    cases hnew : newScore plus incr score curscore with
    | none => exact ⟨.ziplist l, rfl, rfl⟩
    | some score =>
      simp only
      split_ifs with hscore
      · refine ⟨_, rfl, ?_⟩
        rw [zzlDelete_eq hord.members hmem, zzlInsert_eq (hord.notMem_erase hmem),
          (Puts.replace hord score hmem).eq_put hord]
        rfl
      · obtain rfl : score = curscore := not_not.mp hscore
        exact ⟨_, rfl, (Puts.same hord hmem).eq_put hord⟩

theorem Zobj.Holds.zaddElement_skiplist (limits : Limits M) (plus : S → S → Option S)
    (incr : Bool) (supply : Supply A S M) {zs : Zset A S M}
    (h : Zobj.Holds hashFunction l (.skiplist zs)) (hord : Ordered l) (score : S) (ele : M) :
    ∃ z', Zobj.zaddElement hashFunction limits plus incr supply score ele (.skiplist zs) =
        some (z', (addElement plus incr score ele l).2) ∧
      z'.Holds hashFunction (addElement plus incr score ele l).1 := by
  obtain ⟨hzsl, hdict⟩ := h
  obtain ⟨dict, hfind, hdict', hsize⟩ := hdict.dictFind ele
  simp only [Zobj.zaddElement, hfind, Option.bind_eq_bind, Option.bind_some, addElement]
  cases hfound : scoreOf ele l with
  | none =>
    have hfresh : Zobj.Holds hashFunction l (.skiplist ⟨dict, zs.zsl⟩) := ⟨hzsl, hdict'⟩
    obtain ⟨zs', hadd, hzs'⟩ := Zset.holds_add supply hfresh hord score hfound
    exact ⟨.skiplist zs', by simp only [hadd, Option.bind_some]; rfl, hzs'⟩
  | some curscore =>
    simp only
    cases hnew : newScore plus incr score curscore with
    | none => exact ⟨.skiplist ⟨dict, zs.zsl⟩, rfl, hzsl, hdict'⟩
    | some score =>
      simp only
      split_ifs with hscore
      · obtain ⟨zsl', zsl'', dict'', hdelete, hinsert, hset, hholds⟩ := Zset.holds_update supply
          hzsl hdict' (hsize (by simp [hfound])) hord hfound score
        refine ⟨.skiplist ⟨dict'', zsl''⟩, ?_, hholds⟩
        simp only [hdelete, Option.bind_some, if_true, hinsert, hset]
        rfl
      · obtain rfl : score = curscore := not_not.mp hscore
        have hsame := (Puts.same hord (hord.scoreOf_eq_some_iff.mp hfound)).eq_put hord
        exact ⟨_, rfl, hsame ▸ ⟨hzsl, hdict'⟩⟩

theorem Zobj.Holds.zaddElement (limits : Limits M) (plus : S → S → Option S) (incr : Bool)
    (supply : Supply A S M) {z : Zobj A S M} (h : z.Holds hashFunction l) (hord : Ordered l)
    (score : S) (ele : M) :
    ∃ z', z.zaddElement hashFunction limits plus incr supply score ele =
        some (z', (addElement plus incr score ele l).2) ∧
      z'.Holds hashFunction (addElement plus incr score ele l).1 := by
  cases z with
  | ziplist zl =>
    obtain rfl : zl = l := h
    exact zaddElement_ziplist limits plus incr supply hord score ele
  | skiplist zs => exact h.zaddElement_skiplist limits plus incr supply hord score ele

omit [DecidableEq A] in
theorem addElement_false (plus : S → S → Option S) (score : S) (ele : M) (l : List (Entry S M)) :
    addElement plus false score ele l =
      (put score ele l, some (score, (scoreOf ele l).isNone)) := by
  rw [addElement]
  cases scoreOf ele l with
  | none => rfl
  | some curscore => rfl

theorem Ordered.addAll (h : Ordered l) (elements : List (S × M)) :
    Ordered (addAll elements l).1 := by
  induction elements generalizing l with
  | nil => exact h
  | cons element elements ih => exact ih (h.puts_put element.1 element.2).ordered

theorem Ordered.addAll_ne_nil (h : Ordered l) (first : S × M) (more : List (S × M)) :
    (Sorted.addAll (first :: more) l).1 ≠ [] := by
  induction more generalizing first l with
  | nil => exact h.put_ne_nil first.1 first.2
  | cons element more ih => exact ih (h.puts_put first.1 first.2).ordered element

theorem Zobj.Holds.zaddLoop (limits : Limits M) (plus : S → S → Option S)
    (elements : List (Supply A S M × S × M)) (score : S) (added : ℕ) {z : Zobj A S M}
    (h : z.Holds hashFunction l) (hord : Ordered l) :
    ∃ z', z.zaddLoop hashFunction limits plus false elements score added =
        some (z', .integer ↑(added + (addAll (elements.map Prod.snd) l).2)) ∧
      z'.Holds hashFunction (addAll (elements.map Prod.snd) l).1 := by
  induction elements generalizing score added z l with
  | nil => exact ⟨z, rfl, h⟩
  | cons element elements ih =>
    obtain ⟨supply, score', ele⟩ := element
    obtain ⟨z', helement, hz'⟩ := h.zaddElement limits plus false supply hord score' ele
    rw [addElement_false] at helement hz'
    obtain ⟨z'', hloop, hz''⟩ := ih score'
      (if (scoreOf ele l).isNone then added + 1 else added) hz' (hord.puts_put score' ele).ordered
    refine ⟨z'', ?_, hz''⟩
    simp only [Zobj.zaddLoop, helement, Option.bind_eq_bind, Option.bind_some, Bool.not_false,
      Bool.true_and, hloop, List.map_cons, Sorted.addAll]
    split_ifs
    · rw [Nat.add_assoc, Nat.add_comm 1]
    · rfl

omit [DecidableEq A] in
/-- The value that an addition begins with. -/
theorem Keeps.getD {zobj : Option (Zobj A S M)} (h : Keeps hashFunction zobj l) (long : Prop)
    [Decidable long] :
    (zobj.getD (if long then .skiplist Zset.create else .ziplist [])).Holds hashFunction l := by
  have hholds := h.holds
  cases zobj with
  | none =>
    obtain rfl : l = [] := hholds
    rw [Option.getD_none]
    split_ifs
    · exact Zset.holds_create
    · rfl
  | some z => exact hholds.1

theorem Keeps.zadd (limits : Limits M) (plus : S → S → Option S) (supply : ℕ → Supply A S M)
    (first : S × M) (more : List (S × M)) {zobj : Option (Zobj A S M)}
    (h : Keeps hashFunction zobj l) :
    ∃ zobj', (ZCommand.zadd first more).exec hashFunction limits plus supply zobj =
        some (zobj', .integer (addAll (first :: more) l).2) ∧
      Keeps hashFunction zobj' (addAll (first :: more) l).1 := by
  have helements : ((first :: more).mapIdx fun j element => (supply j, element)).map Prod.snd =
      first :: more := by
    refine List.ext_getElem? fun j => ?_
    rw [List.getElem?_map, List.getElem?_mapIdx, Option.map_map]
    exact Option.map_id'
  obtain ⟨z', hloop, hz'⟩ :=
    (h.getD (limits.entries = 0 ∨ limits.value < limits.length first.2)).zaddLoop limits plus
      ((first :: more).mapIdx fun j element => (supply j, element)) first.1 0 h.ordered
  rw [helements] at hloop hz'
  rw [Nat.zero_add] at hloop
  refine ⟨some z', ?_, h.ordered.addAll _, hz', h.ordered.addAll_ne_nil first more⟩
  rw [ZCommand.exec, zaddGenericCommand, hloop]
  rfl

theorem Keeps.zincrby (limits : Limits M) (plus : S → S → Option S) (supply : ℕ → Supply A S M)
    (increment : S) (ele : M) {zobj : Option (Zobj A S M)} (h : Keeps hashFunction zobj l) :
    ∃ zobj', (ZCommand.zincrby increment ele).exec hashFunction limits plus supply zobj =
        some (zobj', (exec plus l (.zincrby increment ele)).2) ∧
      Keeps hashFunction zobj' (exec plus l (.zincrby increment ele)).1 := by
  obtain ⟨z', helement, hz'⟩ :=
    (h.getD (limits.entries = 0 ∨ limits.value < limits.length ele)).zaddElement limits plus true
      (supply 0) h.ordered increment ele
  have hput (score : S) := (h.ordered.puts_put score ele).ordered
  refine ⟨some z', ?_, ?_⟩
  · rw [ZCommand.exec, zaddGenericCommand, List.mapIdx_cons, List.mapIdx_nil, Zobj.zaddLoop,
      helement]
    rw [addElement, exec]
    cases scoreOf ele l with
    | none => rfl
    | some score => cases hplus : plus increment score <;> simp [newScore, hplus, Zobj.zaddLoop]
  · rw [addElement] at hz'
    rw [exec]
    cases hfound : scoreOf ele l with
    | none =>
      rw [hfound] at hz'
      exact ⟨hput increment, hz', h.ordered.put_ne_nil increment ele⟩
    | some score =>
      have hne : l ≠ [] := List.ne_nil_of_mem (h.ordered.scoreOf_eq_some_iff.mp hfound)
      simp only [hfound, newScore, if_true] at hz'
      simp only
      cases hplus : plus increment score with
      | none =>
        rw [hplus] at hz'
        exact ⟨h.ordered, hz', hne⟩
      | some sum =>
        rw [hplus] at hz'
        exact ⟨hput sum, hz', h.ordered.put_ne_nil sum ele⟩

theorem Ordered.scoreOf_filter (h : Ordered l) (p : Entry S M → Bool) :
    (fun m => scoreOf m (l.filter fun e => !p e)) =
      Zskiplist.without (fun m => scoreOf m l) (l.filter p) := by
  funext m
  refine Option.ext fun s => ?_
  rw [(h.sublist List.filter_sublist).scoreOf_eq_some_iff, List.mem_filter, Zskiplist.without]
  split_ifs with hm
  · obtain ⟨e, he, rfl⟩ := List.mem_map.mp hm
    obtain ⟨hel, hp⟩ := List.mem_filter.mp he
    refine iff_of_false (fun hs => ?_) (by simp)
    rw [h.eq_of_member hs.1 hel rfl, hp] at hs
    exact absurd hs.2 (by simp)
  · rw [h.scoreOf_eq_some_iff]
    refine and_iff_left_of_imp fun hs => ?_
    rw [Bool.not_eq_true', Bool.eq_false_iff]
    exact fun hp => hm (List.mem_map.mpr ⟨_, List.mem_filter.mpr ⟨hs, hp⟩, rfl⟩)

theorem Ordered.scoreOf_erase (h : Ordered l) (hcur : entry score ele ∈ l) :
    (fun m => scoreOf m (l.erase (entry score ele))) =
      Function.update (fun m => scoreOf m l) ele none := by
  funext m
  refine Option.ext fun s => ?_
  rw [(h.sublist List.erase_sublist).scoreOf_eq_some_iff, h.mem_erase hcur, entry_member,
    Function.update_apply]
  split_ifs with hm
  · simp [hm]
  · simp [hm, h.scoreOf_eq_some_iff]

theorem Ordered.erase_eq_filter (h : Ordered l) (hcur : entry score ele ∈ l) :
    l.erase (entry score ele) = l.filter fun e => decide (e.member ≠ ele) :=
  (h.sublist List.erase_sublist).ext (h.sublist List.filter_sublist) fun e => by
    rw [h.mem_erase hcur, List.mem_filter, decide_eq_true_eq]

omit [LinearOrder S] [DecidableEq A] in
theorem Dict.Holds.shrinkIfNeeded {dict : Dict M S} {f : M → Option S}
    (h : dict.Holds hashFunction f) (dictCanResize : Bool) :
    (dict.shrinkIfNeeded dictCanResize).Holds hashFunction f := by
  rw [Dict.shrinkIfNeeded]
  split_ifs
  · exact h.same (h.valid.dictResize dictCanResize)
  · exact h

omit [DecidableEq A] in
theorem Ordered.dictSize_eq (h : Ordered l) {dict : Dict M S}
    (hdict : dict.Holds hashFunction fun m => scoreOf m l) : dict.dictSize = l.length := by
  have hset : {m | (scoreOf m l).isSome} = ((l.map Entry.member).toFinset : Set M) := by
    ext m
    rw [Set.mem_ofPred_eq, Option.isSome_iff_ne_none, Ne, scoreOf_eq_none_iff, not_not,
      Finset.mem_coe, List.mem_toFinset]
  rw [hdict.dictSize_eq, hset, Set.ncard_coe_finset, List.toFinset_card_of_nodup h.members,
    List.length_map]

omit [DecidableEq A] in
theorem Keeps.keepList (hord : Ordered l) :
    Keeps hashFunction (Zobj.keepList l : Option (Zobj A S M)) l := by
  refine ⟨hord, ?_⟩
  rw [Zobj.keepList]
  split_ifs with hempty
  · exact List.eq_nil_of_length_eq_zero hempty
  · exact ⟨rfl, fun hnil => hempty (hnil ▸ rfl)⟩

omit [DecidableEq A] in
theorem Keeps.keepZset (hord : Ordered l) (dictCanResize : Bool) {dict : Dict M S}
    {zsl : Zskiplist A S M} (hzsl : zsl.Holds l)
    (hdict : dict.Holds hashFunction fun m => scoreOf m l) :
    Keeps hashFunction (Zobj.keepZset dictCanResize dict zsl) l := by
  refine ⟨hord, ?_⟩
  have hshrunk := hdict.shrinkIfNeeded dictCanResize
  rw [Zobj.keepZset, hord.dictSize_eq hshrunk]
  split_ifs with hempty
  · exact List.eq_nil_of_length_eq_zero hempty
  · exact ⟨⟨hzsl, hshrunk⟩, fun hnil => hempty (hnil ▸ rfl)⟩

/-- A turn of the loop of `ZREM` for a member that is not there. -/
theorem Zobj.Holds.zremLoop_none (dictCanResize : Bool) (eles : List M) (deleted : ℕ)
    {z : Zobj A S M} (h : z.Holds hashFunction l) (hfound : scoreOf ele l = none) :
    ∃ z', Redis.zremLoop hashFunction dictCanResize (ele :: eles) deleted z =
        Redis.zremLoop hashFunction dictCanResize eles deleted z' ∧
      z'.Holds hashFunction l := by
  cases z with
  | ziplist zl =>
    obtain rfl : zl = l := h
    refine ⟨.ziplist zl, ?_, rfl⟩
    rw [Redis.zremLoop, zzlFind_eq_scoreOf, hfound]
  | skiplist zs =>
    obtain ⟨dict, hfind, hdict, -⟩ := h.2.dictFind ele
    refine ⟨.skiplist ⟨dict, zs.zsl⟩, ?_, h.1, hdict⟩
    simp only [Redis.zremLoop, hfind, hfound, Option.bind_eq_bind, Option.bind_some]

/-- A turn that deletes an element. The key goes with its last one. -/
theorem Zobj.Holds.zremLoop_some (dictCanResize : Bool) (eles : List M) (deleted : ℕ)
    {z : Zobj A S M} (h : z.Holds hashFunction l) (hord : Ordered l) (hcur : entry score ele ∈ l) :
    ∃ z', Redis.zremLoop hashFunction dictCanResize (ele :: eles) deleted z =
        (if (l.erase (entry score ele)).length = 0 then some (none, deleted + 1)
          else Redis.zremLoop hashFunction dictCanResize eles (deleted + 1) z') ∧
      z'.Holds hashFunction (l.erase (entry score ele)) := by
  have hfound := hord.scoreOf_eq_some_iff.mpr hcur
  have herase : Ordered (l.erase (entry score ele)) := hord.sublist List.erase_sublist
  cases z with
  | ziplist zl =>
    obtain rfl : zl = l := h
    refine ⟨.ziplist (zl.erase (entry score ele)), ?_, rfl⟩
    simp only [Redis.zremLoop, zzlFind_eq_scoreOf, hfound, zzlDelete_eq hord.members hcur]
  | skiplist zs =>
    obtain ⟨dict, hfind, hdict, -⟩ := h.2.dictFind ele
    obtain ⟨zsl, hdelete, hzsl⟩ := h.1.zslDelete_of_some hord.sorted
      (zslDelete_eq hord.sorted hcur)
    obtain ⟨dict', hdictDelete, hdict'⟩ := hdict.dictDelete ele
    rw [← hord.scoreOf_erase hcur] at hdict'
    have hshrunk := hdict'.shrinkIfNeeded dictCanResize
    refine ⟨.skiplist ⟨dict'.shrinkIfNeeded dictCanResize, zsl⟩, ?_, hzsl, hshrunk⟩
    simp only [Redis.zremLoop, hfind, hfound, hdelete, hdictDelete, Option.bind_eq_bind,
      Option.bind_some, if_true, herase.dictSize_eq hshrunk]
    rfl

omit [LinearOrder S] [DecidableEq A] in
theorem filter_notContains_cons (ele : M) (eles : List M) :
    (l.filter fun e => !(ele :: eles).contains e.member) =
      (l.filter fun e => decide (e.member ≠ ele)).filter fun e => !eles.contains e.member := by
  rw [List.filter_filter]
  refine List.filter_congr fun e _ => ?_
  rw [List.contains_cons, Bool.not_or, Bool.and_comm, decide_not]
  rfl

theorem Keeps.zremLoop (dictCanResize : Bool) (eles : List M) (deleted : ℕ) {z : Zobj A S M}
    (h : Keeps hashFunction (some z) l) :
    ∃ zobj' n, zremLoop hashFunction dictCanResize eles deleted z = some (zobj', deleted + n) ∧
      Keeps hashFunction zobj' (l.filter fun e => !eles.contains e.member) ∧
      n + (l.filter fun e => !eles.contains e.member).length = l.length := by
  induction eles generalizing deleted z l with
  | nil => exact ⟨some z, 0, rfl, by simpa using h, by simp⟩
  | cons ele eles ih =>
    obtain ⟨hord, hz, hne⟩ := h
    rw [filter_notContains_cons]
    cases hfound : scoreOf ele l with
    | none =>
      have hsame : (l.filter fun e => decide (e.member ≠ ele)) = l :=
        List.filter_eq_self.mpr fun e he => decide_eq_true fun heq =>
          scoreOf_eq_none_iff.mp hfound (heq ▸ List.mem_map_of_mem he)
      obtain ⟨z', hturn, hz'⟩ := hz.zremLoop_none dictCanResize eles deleted hfound
      rw [hsame, hturn]
      exact ih deleted ⟨hord, hz', hne⟩
    | some score =>
      have hcur := hord.scoreOf_eq_some_iff.mp hfound
      have herase : Ordered (l.erase (entry score ele)) := hord.sublist List.erase_sublist
      have hlength := List.length_erase_add_one hcur
      obtain ⟨z', hturn, hz'⟩ := hz.zremLoop_some dictCanResize eles deleted hord hcur
      rw [← hord.erase_eq_filter hcur, hturn]
      split_ifs with hempty
      · rw [List.eq_nil_of_length_eq_zero hempty]
        exact ⟨none, 1, rfl, keeps_none, by simp; omega⟩
      · obtain ⟨zobj', n, hloop, hkeeps, hn⟩ :=
          ih (deleted + 1) ⟨herase, hz', fun hnil => hempty (hnil ▸ rfl)⟩
        exact ⟨zobj', n + 1, by rw [hloop, Nat.add_assoc, Nat.add_comm 1], hkeeps, by omega⟩

omit [LinearOrder S] [LinearOrder M] [DecidableEq A] in
theorem filter_of_pairwise {p : Entry S M → Bool}
    (h : l.Pairwise fun a b => p b = true → p a = true) :
    l.filter p = l.takeWhile p ∧ (l.filter fun e => !p e) = l.dropWhile p := by
  induction l with
  | nil => exact ⟨rfl, rfl⟩
  | cons e l ih =>
    obtain ⟨he, hl⟩ := List.pairwise_cons.mp h
    cases hp : p e with
    | true => simp [hp, (ih hl).1, (ih hl).2]
    | false =>
      have hnone : ∀ a ∈ l, p a = false := fun a ha => Bool.eq_false_iff.mpr fun hpa =>
        Bool.eq_false_iff.mp hp (he a ha hpa)
      simp only [List.filter_cons, hp, Bool.false_eq_true, if_false, List.takeWhile_cons,
        List.dropWhile_cons, Bool.not_false, if_true]
      exact ⟨List.filter_eq_nil_iff.mpr fun a ha => by simp [hnone a ha],
        congrArg (e :: ·) (List.filter_eq_self.mpr fun a ha => by simp [hnone a ha])⟩

omit [LinearOrder S] [LinearOrder M] [DecidableEq A] in
theorem zzlFrom_spec (enters : S → Bool) {stays : S → Bool}
    (h : l.Pairwise fun a b => stays b.score = true → stays a.score = true) :
    zzlFrom enters stays l = [] ∧ (∀ e ∈ l, (enters e.score && stays e.score) = false) ∨
      ∃ front e back, l = front ++ e :: back ∧ zzlFrom enters stays l = e :: back ∧
        (enters e.score && stays e.score) = true ∧ ∀ e ∈ front, enters e.score = false := by
  induction l with
  | nil => exact .inl ⟨rfl, fun _ he => absurd he List.not_mem_nil⟩
  | cons e l ih =>
    obtain ⟨he, hl⟩ := List.pairwise_cons.mp h
    cases henters : enters e.score with
    | true =>
      cases hstays : stays e.score with
      | true =>
        exact .inr ⟨[], e, l, rfl, by rw [zzlFrom, if_pos henters, if_pos hstays],
          by rw [henters, hstays]; rfl, fun _ he => absurd he List.not_mem_nil⟩
      | false =>
        refine .inl ⟨by rw [zzlFrom, if_pos henters, if_neg (by simp [hstays])], fun a ha => ?_⟩
        rcases List.mem_cons.mp ha with rfl | ha
        · rw [hstays, Bool.and_false]
        · rw [Bool.eq_false_iff.mpr fun hs => Bool.eq_false_iff.mp hstays (he a ha hs),
            Bool.and_false]
    | false =>
      rw [zzlFrom, if_neg (by simp [henters])]
      rcases ih hl with ⟨hnil, hnone⟩ | ⟨front, a, back, rfl, hfrom, ha, hfront⟩
      · exact .inl ⟨hnil, List.forall_mem_cons.mpr ⟨by rw [henters, Bool.false_and], hnone⟩⟩
      · exact .inr ⟨e :: front, a, back, rfl, hfrom, ha,
          List.forall_mem_cons.mpr ⟨henters, hfront⟩⟩

omit [LinearOrder M] [DecidableEq A] in
theorem zzlIsInRange_eq (range : Zrangespec S) (l : List (Entry S M)) :
    zzlIsInRange range l = (!alwaysEmpty range &&
      l.getLast?.any (fun e => zslValueGteMin e.score range) &&
      l.head?.any fun e => zslValueLteMax e.score range) := by
  rw [zzlIsInRange]
  cases alwaysEmpty range with
  | true => rfl
  | false =>
    cases l with
    | nil => rfl
    | cons e l =>
      rw [List.getLast?_eq_some_getLast (List.cons_ne_nil e l)]
      cases hmin : zslValueGteMin ((e :: l).getLast (List.cons_ne_nil e l)).score range <;>
        simp [hmin]

/-- Where a traversal of the list starts: at the first entry in range, if there is one. -/
theorem zzlStart_spec (hsorted : l.Pairwise (· ≤ ·)) (reverse : Bool) (range : Zrangespec S) :
    (if reverse then zzlLastInRange range l else zzlFirstInRange range l) = [] ∧
        (∀ e ∈ l, inRange range e = false) ∨
      ∃ front e back, (if reverse then l.reverse else l) = front ++ e :: back ∧
        (if reverse then zzlLastInRange range l else zzlFirstInRange range l) = e :: back ∧
        inRange range e = true ∧ ∀ e ∈ front, inRange range e = false := by
  have hmono := (Zskiplist.pairwise_direction hsorted reverse range).imp And.left
  have heq : (if reverse then zzlLastInRange range l else zzlFirstInRange range l) =
      if zzlIsInRange range l then zzlFrom (staysInRange (!reverse) range)
        (staysInRange reverse range) (if reverse then l.reverse else l) else [] := by
    cases reverse <;> rfl
  rw [heq]
  by_cases hin : zzlIsInRange range l = true
  · rw [if_pos hin]
    rcases zzlFrom_spec (staysInRange (!reverse) range) hmono with
      ⟨hnil, hnone⟩ | ⟨front, e, back, hd, hfrom, he, hfront⟩
    · refine .inl ⟨hnil, fun e he => ?_⟩
      rw [Zskiplist.inRange_eq reverse]
      exact hnone e (by split_ifs <;> simpa using he)
    · refine .inr ⟨front, e, back, hd, hfrom, ?_, fun a ha => ?_⟩
      · rwa [Zskiplist.inRange_eq reverse]
      · rw [Zskiplist.inRange_eq reverse, hfront a ha, Bool.false_and]
  · rw [if_neg hin]
    rw [zzlIsInRange_eq, Bool.not_eq_true] at hin
    exact .inl ⟨rfl, Zskiplist.inRange_eq_false_of_ends hsorted hin⟩

theorem zzlRangeByScore_eq (hsorted : l.Pairwise (· ≤ ·)) (reverse : Bool) (range : Zrangespec S)
    (offset limit : ℤ) :
    zzlRangeByScore reverse range offset limit l =
      page offset limit ((if reverse then l.reverse else l).filter (inRange range)) := by
  rw [zzlRangeByScore]
  rcases zzlStart_spec hsorted reverse range with ⟨hnil, hnone⟩ | ⟨front, e, back, hd, hs, he, hf⟩
  · have hfilter : (if reverse then l.reverse else l).filter (inRange range) = [] := by
      refine List.filter_eq_nil_iff.mpr fun e he => ?_
      rw [hnone e (by split_ifs at he <;> simpa using he)]
      exact Bool.false_ne_true
    rw [hnil, hfilter, page]
    simp [skipOffset, replyWhile]
  · rw [hs, replyWhile_of_inRange (Zskiplist.inRange_eq reverse range) hd
      (Zskiplist.pairwise_direction hsorted reverse range) he hf]

theorem zzlDeleteRangeByScore_eq (hsorted : l.Pairwise (· ≤ ·)) (range : Zrangespec S) :
    zzlDeleteRangeByScore range l =
      (l.filter fun e => !inRange range e, (l.filter (inRange range)).length) := by
  rw [zzlDeleteRangeByScore]
  rcases zzlStart_spec hsorted false range with ⟨hnil, hnone⟩ | ⟨front, e, back, hd, hs, he, hfront⟩
  · simp only [Bool.false_eq_true, if_false] at hnil
    rw [hnil, List.filter_eq_self.mpr fun e he => by simp [hnone e he],
      List.filter_eq_nil_iff.mpr fun e he => by simp [hnone e he]]
    simp
  · simp only [Bool.false_eq_true, if_false] at hd hs
    subst hd
    have hback := (List.pairwise_append.mp hsorted).2.1
    obtain ⟨htake, hdrop⟩ := filter_of_pairwise (p := fun e => zslValueLteMax e.score range)
      (hback.imp fun hle => zslValueLteMax_mono (Zskiplist.Entry.score_le hle))
    have hmin : ∀ a ∈ e :: back, zslValueGteMin a.score range = true := fun a ha => by
      rw [inRange, Bool.and_eq_true] at he
      rcases List.mem_cons.mp ha with rfl | ha
      · exact he.1
      · exact zslValueGteMin_mono
          (Zskiplist.Entry.score_le ((List.pairwise_cons.mp hback).1 a ha)) he.1
    have hin : ∀ a ∈ e :: back, inRange range a = zslValueLteMax a.score range := fun a ha => by
      rw [inRange, hmin a ha, Bool.true_and]
    have hkept : (front ++ e :: back).filter (inRange range) =
        (e :: back).takeWhile fun e => zslValueLteMax e.score range := by
      rw [List.filter_append, List.filter_eq_nil_iff.mpr fun a ha => by simp [hfront a ha],
        List.nil_append, List.filter_congr hin, htake]
    have hothers : ((front ++ e :: back).filter fun e => !inRange range e) =
        front ++ (e :: back).dropWhile fun e => zslValueLteMax e.score range := by
      rw [List.filter_append, List.filter_eq_self.mpr fun a ha => by simp [hfront a ha],
        List.filter_congr fun a ha => congrArg not (hin a ha), hdrop]
    rw [hs, hkept, hothers, List.length_append, Nat.add_sub_cancel, List.take_left]

omit [LinearOrder S] [LinearOrder M] [DecidableEq A] in
theorem zzlReplies_eq {n : ℕ} (hn : n ≤ l.length) : zzlReplies n l = some (l.take n) := by
  induction l generalizing n with
  | nil =>
    obtain rfl : n = 0 := Nat.le_zero.mp hn
    rfl
  | cons e l ih =>
    cases n with
    | zero => rfl
    | succ n =>
      rw [zzlReplies, ih (Nat.le_of_succ_le_succ hn)]
      rfl

omit [LinearOrder S] [DecidableEq A] in
theorem zzlRank_eq (ele : M) (rank : ℕ) (l : List (Entry S M)) :
    zzlRank ele rank l = ((l.map Entry.member).idxOf? ele).map (· + rank) := by
  induction l generalizing rank with
  | nil => rfl
  | cons e l ih =>
    rw [zzlRank, List.map_cons, List.idxOf?_cons, ih]
    by_cases he : e.member = ele
    · simp [he]
    · simp [he, Function.comp_def, Nat.add_comm, Nat.add_left_comm]

theorem Ordered.idxOf?_eq (h : Ordered l) (hmem : entry score ele ∈ l) :
    (l.map Entry.member).idxOf? ele = some (l.idxOf (entry score ele)) := by
  induction l with
  | nil => exact absurd hmem List.not_mem_nil
  | cons e l ih =>
    rw [List.map_cons, List.idxOf?_cons]
    by_cases he : e = entry score ele
    · rw [he, List.idxOf_cons_self]
      simp
    · have hne : e.member ≠ ele := fun heq => he (h.eq_of_member List.mem_cons_self hmem heq)
      rw [ih (h.sublist (List.sublist_cons_self e l)) (List.mem_of_ne_of_mem (Ne.symm he) hmem),
        List.idxOf_cons_ne l he]
      simp [hne]

variable {z : Zobj A S M}

omit [LinearOrder S] [DecidableEq A] in
theorem Zobj.Holds.zsetLength (h : z.Holds hashFunction l) : z.zsetLength = l.length := by
  cases z with
  | ziplist zl => exact congrArg List.length h
  | skiplist zs =>
    obtain ⟨ts, hts, rfl⟩ := h.1
    rw [Zobj.zsetLength, hts.length, List.length_map]

theorem Keeps.zremrangebyscore (h : Keeps hashFunction (some z) l) (dictCanResize : Bool)
    (range : Zrangespec S) :
    ∃ zobj', z.zremrangebyscore hashFunction dictCanResize range =
        some (zobj', (l.filter (inRange range)).length) ∧
      Keeps hashFunction zobj' (l.filter fun e => !inRange range e) := by
  obtain ⟨hord, hz, -⟩ := h
  have hkept : Ordered (l.filter fun e => !inRange range e) := hord.sublist List.filter_sublist
  cases z with
  | ziplist zl =>
    obtain rfl : zl = l := hz
    rw [Zobj.zremrangebyscore, zzlDeleteRangeByScore_eq hord.sorted]
    exact ⟨_, rfl, Keeps.keepList hkept⟩
  | skiplist zs =>
    obtain ⟨zsl', dict', hdelete, hzsl, hdict⟩ :=
      hz.1.zslDeleteRangeByScore hord.sorted range hz.2
    rw [← hord.scoreOf_filter] at hdict
    refine ⟨_, ?_, Keeps.keepZset hkept dictCanResize hzsl hdict⟩
    rw [Zobj.zremrangebyscore, hdelete]
    rfl

/-- What is left when the entries of some ranks are taken out. -/
theorem Ordered.filter_between (h : Ordered l) (first n : ℕ) :
    l.filter ((l.drop first).take n).contains = (l.drop first).take n ∧
      (l.filter fun e => !((l.drop first).take n).contains e) =
        l.take first ++ l.drop (first + n) := by
  have hsplit : l.take first ++ ((l.drop first).take n ++ l.drop (first + n)) = l := by
    rw [← List.drop_drop, List.take_append_drop, List.take_append_drop]
  have hnodup := h.members.of_map
  rw [← hsplit, List.nodup_append, List.nodup_append] at hnodup
  obtain ⟨-, ⟨-, -, hrest⟩, hfront⟩ := hnodup
  have hmiddle := Zskiplist.filter_middle ((l.drop first).take n).contains
    (l.take first) ((l.drop first).take n) (l.drop (first + n))
    (fun e he => by
      rw [List.contains_eq_mem]
      exact decide_eq_false fun hmem => hfront e he e (List.mem_append_left _ hmem) rfl)
    (fun e he => by rwa [List.contains_eq_mem, decide_eq_true_eq])
    (fun e he => by
      rw [List.contains_eq_mem]
      exact decide_eq_false fun hmem => hrest e hmem e he rfl)
  rwa [hsplit] at hmiddle

theorem Keeps.zremrangebyrank (h : Keeps hashFunction (some z) l) (dictCanResize : Bool)
    (start stop : ℤ) :
    ∃ zobj', z.zremrangebyrank hashFunction dictCanResize start stop =
        some (zobj', (between start stop l).length) ∧
      Keeps hashFunction zobj' (l.filter fun e => !(between start stop l).contains e) := by
  obtain ⟨hord, hz, hne⟩ := h
  rw [between_eq, Zobj.zremrangebyrank, hz.zsetLength]
  cases hsanitize : sanitize l.length start stop with
  | none =>
    have hall : (l.filter fun e => !([] : List (Entry S M)).contains e) = l := by simp
    exact ⟨some z, rfl, hall.symm ▸ ⟨hord, hz, hne⟩⟩
  | some r =>
    obtain ⟨first, n⟩ := r
    obtain ⟨hn, hle⟩ := sanitize_le hsanitize
    obtain ⟨hremoved, hothers⟩ := hord.filter_between first n
    have hlength : ((l.drop first).take n).length = n := by
      rw [List.length_take, List.length_drop]
      omega
    have hkept : Ordered (l.take first ++ l.drop (first + n)) :=
      hothers ▸ hord.sublist List.filter_sublist
    simp only [hothers, hlength]
    cases z with
    | ziplist zl =>
      obtain rfl : zl = l := hz
      refine ⟨_, ?_, Keeps.keepList hkept⟩
      have hnum : first + n - (first + 1) + 1 = n := by omega
      simp only [zzlDeleteRangeByRank, Nat.add_sub_cancel, hnum]
    | skiplist zs =>
      obtain ⟨zsl', dict', hdelete, hzsl, hdict⟩ :=
        hz.1.zslDeleteRangeByRank (Nat.add_one_pos first) (by omega : first + 1 ≤ first + n) hz.2
      have hmid : (l.take (first + n)).drop (first + 1 - 1) = (l.drop first).take n := by
        rw [List.drop_take, Nat.add_sub_cancel, Nat.add_sub_cancel_left]
      rw [hmid] at hdelete hdict
      rw [Nat.add_sub_cancel] at hzsl
      rw [← hremoved, ← hord.scoreOf_filter, hothers] at hdict
      refine ⟨_, ?_, Keeps.keepZset hkept dictCanResize hzsl hdict⟩
      simp only [hdelete, hlength, Option.bind_eq_bind, Option.bind_some]
      rfl

omit [LinearOrder S] [DecidableEq A] in
theorem Zobj.Holds.zrange (h : z.Holds hashFunction l) (reverse : Bool) (start stop : ℤ) :
    z.zrange reverse start stop = some (between start stop (if reverse then l.reverse else l)) := by
  have hlength : (if reverse then l.reverse else l).length = l.length := by
    split_ifs
    · exact List.length_reverse
    · rfl
  rw [between_eq, hlength, Zobj.zrange, h.zsetLength]
  cases hsanitize : sanitize l.length start stop with
  | none => rfl
  | some r =>
    obtain ⟨first, n⟩ := r
    obtain ⟨hn, hle⟩ := sanitize_le hsanitize
    cases z with
    | ziplist zl =>
      obtain rfl : zl = l := h
      exact zzlReplies_eq (by rw [List.length_drop, hlength]; omega)
    | skiplist zs => exact h.1.zslRange reverse (by omega) hle

omit [DecidableEq A] in
theorem Zobj.Holds.zrangebyscore (h : z.Holds hashFunction l) (hord : Ordered l) (reverse : Bool)
    (range : Zrangespec S) (offset limit : ℤ) :
    z.zrangebyscore reverse range offset limit =
      some (page offset limit ((if reverse then l.reverse else l).filter (inRange range))) := by
  cases z with
  | ziplist zl =>
    obtain rfl : zl = l := h
    rw [Zobj.zrangebyscore, zzlRangeByScore_eq hord.sorted]
  | skiplist zs => exact h.1.zslRangeByScore hord.sorted reverse range offset limit

omit [DecidableEq A] in
theorem Keeps.zscore (h : Keeps hashFunction (some z) l) (ele : M) :
    ∃ z', z.zscore hashFunction ele = some (z', scoreOf ele l) ∧
      Keeps hashFunction (some z') l := by
  obtain ⟨hord, hz, hne⟩ := h
  cases z with
  | ziplist zl =>
    obtain rfl : zl = l := hz
    exact ⟨.ziplist zl, by rw [Zobj.zscore, zzlFind_eq_scoreOf], hord, rfl, hne⟩
  | skiplist zs =>
    obtain ⟨dict, hfind, hdict, -⟩ := hz.2.dictFind ele
    exact ⟨.skiplist ⟨dict, zs.zsl⟩, by rw [Zobj.zscore, hfind]; rfl, hord, ⟨hz.1, hdict⟩, hne⟩

omit [DecidableEq A] in
theorem Keeps.zrank (h : Keeps hashFunction (some z) l) (ele : M) :
    ∃ z', z.zrank hashFunction ele =
        some (z', ((l.map Entry.member).idxOf? ele).map (· + 1)) ∧
      Keeps hashFunction (some z') l := by
  obtain ⟨hord, hz, hne⟩ := h
  cases z with
  | ziplist zl =>
    obtain rfl : zl = l := hz
    refine ⟨.ziplist zl, ?_, hord, rfl, hne⟩
    rw [Zobj.zrank, if_neg (by simpa using hne), zzlRank_eq]
  | skiplist zs =>
    obtain ⟨dict, hfind, hdict, -⟩ := hz.2.dictFind ele
    refine ⟨.skiplist ⟨dict, zs.zsl⟩, ?_, hord, ⟨hz.1, hdict⟩, hne⟩
    simp only [Zobj.zrank, hfind, Option.bind_eq_bind, Option.bind_some]
    cases hfound : scoreOf ele l with
    | none =>
      rw [List.idxOf?_eq_none_iff.mpr (scoreOf_eq_none_iff.mp hfound)]
      rfl
    | some score =>
      have hmem := hord.scoreOf_eq_some_iff.mp hfound
      have hscore : ∀ e ∈ l, e.member = ele → e.score = score := fun e he heq =>
        (entry_eq.mp (hord.eq_of_member he hmem heq)).1
      have hrank := hz.1.zslGetRank hord hscore
      rw [if_pos hmem] at hrank
      rw [hord.idxOf?_eq hmem]
      simp only [hrank, Option.bind_some]
      rfl

theorem Keeps.exec_none (limits : Limits M) (plus : S → S → Option S) (supply : ℕ → Supply A S M)
    (h : Keeps hashFunction (none : Option (Zobj A S M)) l) (c : ZCommand S M) :
    ∃ zobj', c.exec hashFunction limits plus supply none =
        some (zobj', (Sorted.exec plus l c).2) ∧
      Keeps hashFunction zobj' (Sorted.exec plus l c).1 := by
  cases c with
  | zadd first more => exact h.zadd limits plus supply first more
  | zincrby increment ele => exact h.zincrby limits plus supply increment ele
  | zrange reverse start stop withscores =>
    obtain rfl : l = [] := h.holds
    exact ⟨none, by cases reverse <;> rfl, h⟩
  | zrangebyscore reverse range offset limit withscores =>
    obtain rfl : l = [] := h.holds
    exact ⟨none, by cases reverse <;> simp [ZCommand.exec, Sorted.exec, page], h⟩
  | _ =>
    obtain rfl : l = [] := h.holds
    exact ⟨none, rfl, h⟩

theorem Keeps.exec_some (limits : Limits M) (plus : S → S → Option S) (supply : ℕ → Supply A S M)
    (h : Keeps hashFunction (some z) l) (c : ZCommand S M) :
    ∃ zobj', c.exec hashFunction limits plus supply (some z) =
        some (zobj', (Sorted.exec plus l c).2) ∧
      Keeps hashFunction zobj' (Sorted.exec plus l c).1 := by
  have hz : z.Holds hashFunction l := h.holds.1
  cases c with
  | zadd first more => exact h.zadd limits plus supply first more
  | zincrby increment ele => exact h.zincrby limits plus supply increment ele
  | zrem eles =>
    obtain ⟨zobj', n, hrem, h', hn⟩ := h.zremLoop (supply 0).dictCanResize eles 0
    refine ⟨zobj', ?_, h'⟩
    rw [ZCommand.exec, hrem, Sorted.exec]
    simp only [Option.map_some, ← hn]
    congr 3
    omega
  | zremrangebyscore range =>
    obtain ⟨zobj', hrem, h'⟩ := h.zremrangebyscore (supply 0).dictCanResize range
    exact ⟨zobj', by rw [ZCommand.exec, hrem]; rfl, h'⟩
  | zremrangebyrank start stop =>
    obtain ⟨zobj', hrem, h'⟩ := h.zremrangebyrank (supply 0).dictCanResize start stop
    exact ⟨zobj', by rw [ZCommand.exec, hrem]; rfl, h'⟩
  | zrange reverse start stop withscores =>
    exact ⟨some z, by rw [ZCommand.exec, hz.zrange]; rfl, h⟩
  | zrangebyscore reverse range offset limit withscores =>
    exact ⟨some z, by rw [ZCommand.exec, hz.zrangebyscore h.ordered]; rfl, h⟩
  | zcount range => exact ⟨some z, by rw [ZCommand.exec, hz.zrangebyscore h.ordered]; rfl, h⟩
  | zcard => exact ⟨some z, by rw [ZCommand.exec, hz.zsetLength]; rfl, h⟩
  | zscore ele =>
    obtain ⟨z', hscore, h'⟩ := h.zscore ele
    exact ⟨some z', by rw [ZCommand.exec, hscore]; rfl, h'⟩
  | zrank reverse ele =>
    obtain ⟨z', hrank, h'⟩ := h.zrank ele
    refine ⟨some z', ?_, h'⟩
    rw [ZCommand.exec, hrank, Sorted.exec, hz.zsetLength]
    cases (l.map Entry.member).idxOf? ele with
    | none => rfl
    | some i =>
      simp only [Option.map_some, Nat.cast_add, Nat.cast_one, add_sub_cancel_right]
      congr 4
      omega

theorem Keeps.exec (limits : Limits M) (plus : S → S → Option S) (supply : ℕ → Supply A S M)
    {zobj : Option (Zobj A S M)} (h : Keeps hashFunction zobj l) (c : ZCommand S M) :
    ∃ zobj', c.exec hashFunction limits plus supply zobj =
        some (zobj', (Sorted.exec plus l c).2) ∧
      Keeps hashFunction zobj' (Sorted.exec plus l c).1 := by
  cases zobj with
  | none => exact h.exec_none limits plus supply c
  | some z => exact h.exec_some limits plus supply c

/-- A run of commands, each with what it is supplied with. -/
def ZCommand.execAll (hashFunction : M → ℕ) (limits : Limits M) (plus : S → S → Option S)
    (zobj : Option (Zobj A S M)) :
    List (ZCommand S M × (ℕ → Supply A S M)) → Option (Option (Zobj A S M) × List (ZReply S M))
  | [] => some (zobj, [])
  | (c, supply) :: cs =>
    (c.exec hashFunction limits plus supply zobj).bind fun r =>
      (ZCommand.execAll hashFunction limits plus r.1 cs).map fun rs => (rs.1, r.2 :: rs.2)

theorem Keeps.execAll (limits : Limits M) (plus : S → S → Option S)
    (cs : List (ZCommand S M × (ℕ → Supply A S M))) {zobj : Option (Zobj A S M)}
    (h : Keeps hashFunction zobj l) :
    ∃ zobj', ZCommand.execAll hashFunction limits plus zobj cs =
        some (zobj', (Sorted.run plus l (cs.map Prod.fst)).2) ∧
      Keeps hashFunction zobj' (Sorted.run plus l (cs.map Prod.fst)).1 := by
  induction cs generalizing zobj l with
  | nil => exact ⟨zobj, rfl, h⟩
  | cons command cs ih =>
    obtain ⟨c, supply⟩ := command
    obtain ⟨zobj', hexec, hkeeps⟩ := h.exec limits plus supply c
    obtain ⟨zobj'', hrun, h'⟩ := ih hkeeps
    exact ⟨zobj'', by rw [ZCommand.execAll, hexec, Option.bind_some, hrun]; rfl, h'⟩

omit [DecidableEq A] in
theorem Sorted.run_append (plus : S → S → Option S) (l : List (Entry S M))
    (cs cs' : List (ZCommand S M)) :
    Sorted.run plus l (cs ++ cs') =
      ((Sorted.run plus (Sorted.run plus l cs).1 cs').1,
        (Sorted.run plus l cs).2 ++ (Sorted.run plus (Sorted.run plus l cs).1 cs').2) := by
  induction cs generalizing l with
  | nil => rfl
  | cons c cs ih =>
    rw [List.cons_append, Sorted.run, ih]
    rfl

end GridApps.Redis
