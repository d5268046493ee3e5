import GridApps.Redis.Dict
import GridApps.Redis.Zskiplist
import Mathlib.Data.List.TakeWhile

/-! Ranks and ranges of the skip list of `t_zset.c`: elements by rank, the replies to `ZRANGE` and
`ZREVRANGE`, and the deletion of ranges. -/
namespace GridApps.Redis
open SkipList

variable {A S M : Type}

structure Zrangespec (S : Type) where
  min : S
  max : S
  minex : Bool
  maxex : Bool

section Pages

variable {α : Type}

/-- `while (ln && offset--)` over a list; a negative offset never gets to 0. -/
def skipOffset (offset : ℤ) : List α → List α
  | [] => []
  | e :: l => if offset = 0 then e :: l else skipOffset (offset - 1) l

/-- `while (ln && limit--)`, as long as the entries stay in range. -/
def replyWhile (stays : α → Bool) (limit : ℤ) : List α → List α
  | [] => []
  | e :: l =>
    if limit = 0 then [] else if stays e then e :: replyWhile stays (limit - 1) l else []

/-- The elements from an offset on, at most so many of them as a limit that is not negative. -/
def page (offset limit : ℤ) (l : List α) : List α :=
  if offset < 0 then []
  else if limit < 0 then l.drop offset.toNat
  else (l.drop offset.toNat).take limit.toNat

theorem skipOffset_eq (offset : ℤ) (l : List α) :
    skipOffset offset l = if offset < 0 then [] else l.drop offset.toNat := by
  induction l generalizing offset with
  | nil => simp [skipOffset]
  | cons e l ih =>
    rw [skipOffset, ih]
    rcases lt_trichotomy offset 0 with hneg | rfl | hpos
    · rw [if_neg hneg.ne, if_pos (by omega), if_pos hneg]
    · rfl
    · obtain ⟨n, rfl⟩ : ∃ n : ℕ, offset = n + 1 := ⟨(offset - 1).toNat, by omega⟩
      rw [if_neg (by omega), if_neg (by omega), if_neg (by omega), add_sub_cancel_right,
        Int.toNat_natCast, show ((n : ℤ) + 1).toNat = n + 1 by omega, List.drop_succ_cons]

theorem replyWhile_eq (stays : α → Bool) (limit : ℤ) (l : List α) :
    replyWhile stays limit l =
      if limit < 0 then l.takeWhile stays else (l.takeWhile stays).take limit.toNat := by
  induction l generalizing limit with
  | nil => simp [replyWhile]
  | cons e l ih =>
    rw [replyWhile, ih]
    cases hstays : stays e with
    | false => simp [hstays]
    | true =>
      rw [List.takeWhile_cons_of_pos hstays, if_pos rfl]
      rcases lt_trichotomy limit 0 with hneg | rfl | hpos
      · rw [if_neg hneg.ne, if_pos (by omega), if_pos hneg]
      · rfl
      · obtain ⟨n, rfl⟩ : ∃ n : ℕ, limit = n + 1 := ⟨(limit - 1).toNat, by omega⟩
        rw [if_neg (by omega), if_neg (by omega), if_neg (by omega), add_sub_cancel_right,
          Int.toNat_natCast, show ((n : ℤ) + 1).toNat = n + 1 by omega, List.take_succ_cons]

/-- When the entries in range come first, the loops give a page of them. -/
theorem replyWhile_skipOffset {stays : α → Bool} {mid rest : List α}
    (hmid : ∀ e ∈ mid, stays e = true) (hrest : ∀ e ∈ rest, stays e = false) (offset limit : ℤ) :
    replyWhile stays limit (skipOffset offset (mid ++ rest)) = page offset limit mid := by
  have htake (n : ℕ) : ((mid ++ rest).drop n).takeWhile stays = mid.drop n := by
    rw [List.drop_append, List.takeWhile_append_of_pos fun e he => hmid e (List.mem_of_mem_drop he)]
    cases hdrop : rest.drop (n - mid.length) with
    | nil => simp
    | cons e back =>
      have he := hrest e (List.mem_of_mem_drop (hdrop ▸ List.mem_cons_self))
      simp [he]
  rw [replyWhile_eq, skipOffset_eq, page]
  by_cases hneg : offset < 0
  · rw [if_pos hneg, if_pos hneg]
    simp
  · rw [if_neg hneg, if_neg hneg, htake]

/-- Along a list in order, what is in range is in one piece. -/
theorem replyWhile_of_inRange {stays enters inside : α → Bool}
    (hinside : ∀ e, inside e = (enters e && stays e)) {d front back : List (α)}
    {e : α} (hd : d = front ++ e :: back)
    (hmono : d.Pairwise fun a b => (stays b = true → stays a = true) ∧
      (enters a = true → enters b = true))
    (he : inside e = true) (hfront : ∀ e ∈ front, inside e = false) (offset limit : ℤ) :
    replyWhile stays limit (skipOffset offset (e :: back)) =
      page offset limit (d.filter inside) := by
  subst hd
  have hmono' := (List.pairwise_append.mp hmono).2.1
  rw [hinside, Bool.and_eq_true] at he
  have henters : ∀ a ∈ e :: back, enters a = true := fun a ha => by
    rcases List.mem_cons.mp ha with rfl | ha
    · exact he.1
    · exact ((List.pairwise_cons.mp hmono').1 a ha).2 he.1
  have hmid : ∀ a ∈ (e :: back).takeWhile stays, stays a = true := fun a ha =>
    List.mem_takeWhile_imp ha
  have hrest : ∀ a ∈ (e :: back).dropWhile stays, stays a = false := fun a ha => by
    have hsub := List.Pairwise.sublist (List.dropWhile_sublist stays) hmono'
    have hhead := List.head?_dropWhile_not stays (e :: back)
    cases hdrop : (e :: back).dropWhile stays with
    | nil => simp [hdrop] at ha
    | cons b rest =>
      rw [hdrop] at ha hsub hhead
      have hb : stays b = false := by simpa using hhead
      rcases List.mem_cons.mp ha with rfl | ha
      · exact hb
      · exact Bool.eq_false_iff.mpr fun hstays =>
          Bool.eq_false_iff.mp hb (((List.pairwise_cons.mp hsub).1 a ha).1 hstays)
  have hfilter : (e :: back).filter inside = (e :: back).takeWhile stays := by
    conv_lhs => rw [← List.takeWhile_append_dropWhile (p := stays) (l := e :: back)]
    have hsubset := List.takeWhile_subset stays (l := e :: back)
    rw [List.filter_append, List.filter_eq_self.mpr fun a ha => by
        rw [hinside, henters a (hsubset ha), hmid a ha]
        rfl,
      List.filter_eq_nil_iff.mpr fun a ha => by simp [hinside, hrest a ha], List.append_nil]
  rw [List.filter_append, List.filter_eq_nil_iff.mpr fun a ha => by simp [hfront a ha],
    List.nil_append, hfilter]
  conv_lhs => rw [← List.takeWhile_append_dropWhile (p := stays) (l := e :: back)]
  exact replyWhile_skipOffset hmid hrest offset limit

end Pages

section Spec

variable [LinearOrder S]

def zslValueGteMin (value : S) (spec : Zrangespec S) : Bool :=
  if spec.minex then decide (spec.min < value) else decide (spec.min ≤ value)

def zslValueLteMax (value : S) (spec : Zrangespec S) : Bool :=
  if spec.maxex then decide (value < spec.max) else decide (value ≤ spec.max)

/-- A traversal goes on while this holds. -/
def staysInRange (reverse : Bool) (range : Zrangespec S) (score : S) : Bool :=
  if reverse then zslValueGteMin score range else zslValueLteMax score range

/-- Ranges that will always be empty. -/
def alwaysEmpty (range : Zrangespec S) : Bool :=
  decide (range.max < range.min ∨ range.min = range.max ∧ (range.minex ∨ range.maxex))

def inRange {M : Type} (range : Zrangespec S) (e : Entry S M) : Bool :=
  zslValueGteMin e.score range && zslValueLteMax e.score range

theorem zslValueGteMin_mono {range : Zrangespec S} {s t : S} (hst : s ≤ t)
    (h : zslValueGteMin s range = true) : zslValueGteMin t range = true := by
  unfold zslValueGteMin at h ⊢
  split_ifs at h ⊢
  · exact decide_eq_true ((of_decide_eq_true h).trans_le hst)
  · exact decide_eq_true ((of_decide_eq_true h).trans hst)

theorem zslValueLteMax_mono {range : Zrangespec S} {s t : S} (hst : s ≤ t)
    (h : zslValueLteMax t range = true) : zslValueLteMax s range = true := by
  unfold zslValueLteMax at h ⊢
  split_ifs at h ⊢
  · exact decide_eq_true (hst.trans_lt (of_decide_eq_true h))
  · exact decide_eq_true (hst.trans (of_decide_eq_true h))

theorem not_inRange_of_alwaysEmpty {M : Type} {range : Zrangespec S} (h : alwaysEmpty range = true)
    (e : Entry S M) : inRange range e = false := by
  rw [Bool.eq_false_iff]
  intro hin
  rw [inRange, Bool.and_eq_true, zslValueGteMin, zslValueLteMax] at hin
  obtain ⟨hmin, hmax⟩ := hin
  rcases of_decide_eq_true h with hlt | ⟨heq, hex⟩
  · split_ifs at hmin hmax <;> simp only [decide_eq_true_eq] at hmin hmax <;> order
  · rw [heq] at hmin
    split_ifs at hmin hmax <;> simp only [decide_eq_true_eq] at hmin hmax <;>
      first | order | simp_all

end Spec

/-- The position of a rank in a list; negative ranks count from its end. -/
def position (length : ℕ) (rank : ℤ) : ℤ := if rank < 0 then length + rank else rank

/-- What is at the positions from `start` to `stop`. -/
def between {α : Type} (start stop : ℤ) (l : List α) : List α :=
  (l.zipIdx.filter fun p =>
    decide (position l.length start ≤ p.2 ∧ (p.2 : ℤ) ≤ position l.length stop)).map Prod.fst

theorem filter_zipIdx {α : Type} (l : List α) (k start stop : ℕ) :
    ((l.zipIdx k).filter fun p => decide (start ≤ p.2 ∧ p.2 < stop)).map Prod.fst =
      (l.drop (start - k)).take (stop - max start k) := by
  induction l generalizing k with
  | nil => simp
  | cons a l ih =>
    rw [List.zipIdx_cons, List.filter_cons]
    rcases Nat.lt_or_ge k start with hlt | hge
    · obtain ⟨n, hn⟩ : ∃ n, start - k = n + 1 := ⟨start - k - 1, by omega⟩
      rw [if_neg (by simp [hlt]), ih, hn, List.drop_succ_cons, show start - (k + 1) = n by omega,
        show max start (k + 1) = max start k by omega]
    · rw [show start - k = 0 by omega, List.drop_zero, show max start k = k by omega]
      rcases Nat.lt_or_ge k stop with hstop | hstop
      · obtain ⟨n, hn⟩ : ∃ n, stop - k = n + 1 := ⟨stop - k - 1, by omega⟩
        rw [if_pos (by simp [hge, hstop]), List.map_cons, ih, hn, List.take_succ_cons,
          show start - (k + 1) = 0 by omega, List.drop_zero,
          show stop - max start (k + 1) = n by omega]
      · rw [if_neg (by simp [hstop]), ih, show stop - max start (k + 1) = 0 by omega,
          show stop - k = 0 by omega]
        simp

/-- The indexes as the commands sanitize them: the first position, and how many there are from it
on. -/
def sanitize (llen : ℕ) (start stop : ℤ) : Option (ℕ × ℕ) :=
  let start := if start < 0 then llen + start else start
  let stop := if stop < 0 then llen + stop else stop
  let start := if start < 0 then 0 else start
  if start > stop ∨ start ≥ llen then none
  else
    let stop := if stop ≥ llen then (llen : ℤ) - 1 else stop
    some (start.toNat, (stop - start + 1).toNat)

theorem sanitize_le {llen : ℕ} {start stop : ℤ} {first n : ℕ}
    (h : sanitize llen start stop = some (first, n)) : 0 < n ∧ first + n ≤ llen := by
  unfold sanitize at h
  simp only [Option.ite_none_left_eq_some, Option.some_inj, Prod.mk.injEq] at h
  obtain ⟨hne, hfirst, hn⟩ := h
  rw [not_or] at hne
  split_ifs at hne hfirst hn <;> omega

theorem between_eq {α : Type} (start stop : ℤ) (l : List α) :
    between start stop l =
      match sanitize l.length start stop with
      | none => []
      | some (first, n) => (l.drop first).take n := by
  have hfilter : between start stop l =
      (l.drop (position l.length start).toNat).take
        ((position l.length stop + 1).toNat - (position l.length start).toNat) := by
    have hnat := filter_zipIdx l 0 (position l.length start).toNat
      (position l.length stop + 1).toNat
    rw [Nat.sub_zero, Nat.max_eq_left (Nat.zero_le _)] at hnat
    rw [← hnat, between]
    congr 2
    funext p
    exact decide_eq_decide.mpr (by omega)
  rw [hfilter]
  have hfirst (first : ℤ) : (if first < 0 then 0 else first) = max first 0 := by
    split_ifs <;> omega
  unfold sanitize
  rw [show (if start < 0 then (l.length : ℤ) + start else start) = position l.length start from rfl,
    show (if stop < 0 then (l.length : ℤ) + stop else stop) = position l.length stop from rfl]
  generalize position l.length start = first
  generalize position l.length stop = last
  simp only [hfirst]
  split_ifs with hempty hlast
  · rcases hempty with hgt | hge
    · rw [show (last + 1).toNat - first.toNat = 0 by omega, List.take_zero]
    · rw [List.drop_eq_nil_of_le (by omega), List.take_nil]
  · simp only
    rw [show first.toNat = (max first 0).toNat by omega,
      List.take_of_length_le (by rw [List.length_drop]; omega),
      List.take_of_length_le (by rw [List.length_drop]; omega)]
  · rw [show first.toNat = (max first 0).toNat by omega]
    congr 1
    omega

namespace Zskiplist

/-- A search that is over as soon as `stop` holds of the end over one level. -/
def descend (zsl : Zskiplist A S M) (go : ZskiplistNode A S M → ℕ → Bool)
    (stop : Option A × ℕ → Option Bool) : Option (Option (Option A × ℕ)) :=
  SkipList.descend zsl.read (fun y rank => (zsl.nodes y).map fun node => go node rank) stop
    (zsl.length + 1) zsl.level (none, 0)

/-- `some none` is `NULL`; rank 0 is that of the header. -/
def zslGetElementByRank (rank : ℕ) (zsl : Zskiplist A S M) : Option (Option (Option A)) :=
  (zsl.descend (fun _ traversed => decide (traversed ≤ rank)) fun p =>
    some (decide (p.2 = rank))).map (Option.map Prod.fst)

/-- `reverse ? ln->backward : ln->level[0].forward` -/
def next (reverse : Bool) (zsl : Zskiplist A S M) (ln : A) (node : ZskiplistNode A S M) :
    Option (Option A) :=
  if reverse then some node.backward else (zsl.read (some ln) 0).map Link.forward

/-- The replies for `rangelen` nodes from `ln` on; `none` is a failed assertion. -/
def zrangeLoop (reverse : Bool) (zsl : Zskiplist A S M) : ℕ → Option A → Option (List (Entry S M))
  | 0, _ => some []
  | _ + 1, none => none
  | rangelen + 1, some ln => do
    let node ← zsl.nodes ln
    let next ← zsl.next reverse ln node
    let replies ← zrangeLoop reverse zsl rangelen next
    return node.entry :: replies

/-- The node that `zslGetElementByRank` gives; the header has no element to reply. -/
def rankedNode (rank : ℕ) (zsl : Zskiplist A S M) : Option (Option A) :=
  (zsl.zslGetElementByRank rank).bind fun x =>
    match x with
    | none => some none
    | some none => none
    | some (some a) => some (some a)

/-- The starting point is trivial at either end. -/
def rangeStart (reverse : Bool) (start : ℕ) (zsl : Zskiplist A S M) : Option (Option A) :=
  if reverse then
    if 0 < start then zsl.rankedNode (zsl.length - start) else some zsl.tail
  else
    if 0 < start then zsl.rankedNode (start + 1) else (zsl.read none 0).map Link.forward

/-- The elements of a reply to `ZRANGE` or `ZREVRANGE`, from a sanitized index on. -/
def zslRange (reverse : Bool) (start rangelen : ℕ) (zsl : Zskiplist A S M) :
    Option (List (Entry S M)) :=
  (zsl.rangeStart reverse start).bind (zrangeLoop reverse zsl rangelen)

section Scores

variable [LinearOrder S] [LinearOrder M]

/-- `x->obj && equalStringObjects(x->obj,o)` -/
def hasObj (zsl : Zskiplist A S M) (obj : M) : Option A → Option Bool
  | none => some false
  | some a => (zsl.nodes a).map fun node => decide (node.obj = obj)

/-- 0 when the element is not found. -/
def zslGetRank (score : S) (obj : M) (zsl : Zskiplist A S M) : Option ℕ :=
  (zsl.descend (fun node _ => decide (node.score < score ∨ node.score = score ∧ node.obj ≤ obj))
    fun p => zsl.hasObj obj p.1).map fun x =>
      match x with
      | none => 0
      | some p => p.2

def zslIsInRange (range : Zrangespec S) (zsl : Zskiplist A S M) : Option Bool :=
  if alwaysEmpty range then some false
  else
    match zsl.tail with
    | none => some false
    | some x => do
      let last ← zsl.nodes x
      if !zslValueGteMin last.score range then return false
      else
        let link ← zsl.read none 0
        match link.forward with
        | none => return false
        | some x =>
          let first ← zsl.nodes x
          return zslValueLteMax first.score range

def zslFirstInRange (range : Zrangespec S) (zsl : Zskiplist A S M) : Option (Option A) := do
  if ← zsl.zslIsInRange range then
    let found ← zsl.search fun node _ => !zslValueGteMin node.score range
    let bottom ← found[0]?
    let link ← zsl.read bottom.1 0
    -- `redisAssert(x != NULL)`
    let x ← link.forward
    let node ← zsl.nodes x
    return if zslValueLteMax node.score range then some x else none
  else return none

def zslLastInRange (range : Zrangespec S) (zsl : Zskiplist A S M) : Option (Option A) := do
  if ← zsl.zslIsInRange range then
    let found ← zsl.search fun node _ => zslValueLteMax node.score range
    let bottom ← found[0]?
    -- The header is behind no node, so `x` is one.
    let x ← bottom.1
    let node ← zsl.nodes x
    return if zslValueGteMin node.score range then some x else none
  else return none

/-- `while (ln && offset--)` -/
def skipNodes (reverse : Bool) (zsl : Zskiplist A S M) : ℕ → ℤ → Option A → Option (Option A)
  | 0, _, _ => none
  | _ + 1, _, none => some none
  | fuel + 1, offset, some ln =>
    if offset = 0 then some (some ln)
    else do
      let node ← zsl.nodes ln
      let next ← zsl.next reverse ln node
      skipNodes reverse zsl fuel (offset - 1) next

/-- The nodes from `ln` on, until one is no longer in range. -/
def replyNodes (reverse : Bool) (range : Zrangespec S) (zsl : Zskiplist A S M) :
    ℕ → ℤ → Option A → Option (List (Entry S M))
  | 0, _, _ => none
  | _ + 1, _, none => some []
  | fuel + 1, limit, some ln =>
    if limit = 0 then some []
    else do
      let node ← zsl.nodes ln
      if staysInRange reverse range node.score then
        let next ← zsl.next reverse ln node
        let replies ← replyNodes reverse range zsl fuel (limit - 1) next
        return node.entry :: replies
      else return []

def scoreStart (reverse : Bool) (range : Zrangespec S) (zsl : Zskiplist A S M) :
    Option (Option A) :=
  if reverse then zsl.zslLastInRange range else zsl.zslFirstInRange range

/-- The elements of a reply to `ZRANGEBYSCORE` or `ZREVRANGEBYSCORE`. -/
def zslRangeByScore (reverse : Bool) (range : Zrangespec S) (offset limit : ℤ)
    (zsl : Zskiplist A S M) : Option (List (Entry S M)) := do
  let ln ← zsl.scoreStart reverse range
  let ln ← zsl.skipNodes reverse (zsl.length + 1) offset ln
  zsl.replyNodes reverse range (zsl.length + 1) limit ln

variable [DecidableEq A] (hashFunction : M → ℕ)

/-- The nodes from `x` on are deleted while `go` holds of them; `found` is where the search for the
first one ended. -/
def deleteWhile (go : ZskiplistNode A S M → ℕ → Bool) (found : List (Option A × ℕ)) :
    ℕ → Zskiplist A S M → Dict M S → Option A → ℕ → ℕ → Option (Zskiplist A S M × Dict M S × ℕ)
  | 0, _, _, _, _, _ => none
  | _ + 1, zsl, dict, none, _, removed => some (zsl, dict, removed)
  | fuel + 1, zsl, dict, some x, traversed, removed => do
    let node ← zsl.nodes x
    if go node traversed then
      let next ← zsl.read (some x) 0
      let zsl ← zsl.zslDeleteNode x found
      let (dict, _) ← dict.dictDelete hashFunction node.obj
      deleteWhile go found fuel (zsl.zslFreeNode x) dict next.forward (traversed + 1) (removed + 1)
    else return (zsl, dict, removed)

def zslDeleteRangeByScore (range : Zrangespec S) (dict : Dict M S) (zsl : Zskiplist A S M) :
    Option (Zskiplist A S M × Dict M S × ℕ) := do
  let found ← zsl.search fun node _ =>
    if range.minex then decide (node.score ≤ range.min) else decide (node.score < range.min)
  let bottom ← found[0]?
  let link ← zsl.read bottom.1 0
  deleteWhile hashFunction (fun node _ =>
      if range.maxex then decide (node.score < range.max) else decide (node.score ≤ range.max))
    found (zsl.length + 1) zsl dict link.forward 0 0

/-- `start` and `stop` count from 1. -/
def zslDeleteRangeByRank (start stop : ℕ) (dict : Dict M S) (zsl : Zskiplist A S M) :
    Option (Zskiplist A S M × Dict M S × ℕ) := do
  let found ← zsl.search fun _ traversed => decide (traversed < start)
  let bottom ← found[0]?
  let link ← zsl.read bottom.1 0
  deleteWhile hashFunction (fun _ traversed => decide (traversed ≤ stop)) found (zsl.length + 1) zsl
    dict link.forward (bottom.2 + 1) 0

end Scores

variable {zsl : Zskiplist A S M} {ts front back : List (Tower A (Entry S M))}
  {l : List (Entry S M)}

theorem Represents.descend_none (h : Represents zsl (front ++ back))
    {go : ZskiplistNode A S M → ℕ → Bool} (accepts : Entry S M → ℕ → Bool)
    (hgo : ∀ node rank, go node rank = accepts node.entry rank)
    (hfront : ∀ k, (hk : k < front.length) → accepts front[k].val (k + 1) = true)
    (hback : ∀ k, (hk : k < back.length) → accepts back[k].val (front.length + k + 1) = false)
    {stop : Option A × ℕ → Option Bool}
    (hstop : ∀ i, stop (lastTall i (none, 0) 0 front) = some false) :
    zsl.descend go stop = some none := by
  obtain ⟨haccepted, hrejected, hfuel⟩ := h.answers accepts hgo hfront hback
  exact descend_eq_none haccepted hrejected h.linked hfuel fun i _ => hstop i

/-- The search stops right behind `front`, and nowhere else. -/
theorem Represents.descend_some (h : Represents zsl (front ++ back))
    {go : ZskiplistNode A S M → ℕ → Bool} (accepts : Entry S M → ℕ → Bool)
    (hgo : ∀ node rank, go node rank = accepts node.entry rank)
    (hfront : ∀ k, (hk : k < front.length) → accepts front[k].val (k + 1) = true)
    (hback : ∀ k, (hk : k < back.length) → accepts back[k].val (front.length + k + 1) = false)
    {stop : Option A × ℕ → Option Bool} (holds : Option A × ℕ → Bool)
    (hstop : ∀ i, stop (lastTall i (none, 0) 0 front) =
      some (holds (lastTall i (none, 0) 0 front)))
    (hbottom : holds (lastAddr none front, front.length) = true)
    (honly : ∀ i, holds (lastTall i (none, 0) 0 front) = true →
      (lastTall i (none, 0) 0 front).1 = lastAddr none front ∨
        (lastTall i (none, 0) 0 front).2 = front.length) :
    zsl.descend go stop = some (some (lastAddr none front, front.length)) := by
  obtain ⟨haccepted, hrejected, hfuel⟩ := h.answers accepts hgo hfront hback
  have hpos : ∀ t ∈ front, 0 < t.height := fun t ht =>
    (h.heights t (List.mem_append_left back ht)).1
  have haddrs : (front.map Tower.addr).Nodup :=
    h.addrs.sublist ((List.sublist_append_left front back).map _)
  have hzero := lastTall_zero none 0 hpos
  rw [Nat.zero_add] at hzero
  rw [← hzero] at hbottom ⊢
  exact descend_eq_some haccepted hrejected h.level_pos h.linked hfuel holds (fun i _ => hstop i)
    hbottom fun i _ hi => lastTall_eq_of_last hpos haddrs rfl (honly i hi)

theorem Represents.zslGetElementByRank (h : Represents zsl ts) {rank : ℕ} (hrank : 0 < rank) :
    zsl.zslGetElementByRank rank = some (ts[rank - 1]?.map fun t => some t.addr) := by
  rw [← List.take_append_drop rank ts] at h
  have hgo (node : ZskiplistNode A S M) (r : ℕ) : decide (r ≤ rank) = decide (r ≤ rank) := rfl
  have hfront (k : ℕ) (hk : k < (ts.take rank).length) : decide (k + 1 ≤ rank) = true := by
    rw [List.length_take] at hk
    exact decide_eq_true (by omega)
  have hback (k : ℕ) (hk : k < (ts.drop rank).length) :
      decide ((ts.take rank).length + k + 1 ≤ rank) = false := by
    rw [List.length_drop] at hk
    rw [List.length_take]
    exact decide_eq_false (by omega)
  rcases lt_or_ge ts.length rank with hlt | hle
  · have hnone : zsl.descend (fun _ traversed => decide (traversed ≤ rank))
        (fun p => some (decide (p.2 = rank))) = some none :=
      h.descend_none (fun _ r => decide (r ≤ rank)) hgo hfront hback fun i => by
        have hend := lastTall_snd_le i (ts.take rank)
        rw [List.length_take] at hend
        simp only [Option.some_inj, decide_eq_false_iff_not]
        omega
    rw [Zskiplist.zslGetElementByRank, hnone, List.getElem?_eq_none (by omega)]
    rfl
  · have hlength : (ts.take rank).length = rank := by
      rw [List.length_take]
      omega
    have hsome : zsl.descend (fun _ traversed => decide (traversed ≤ rank))
        (fun p => some (decide (p.2 = rank))) = some (some _) :=
      h.descend_some (fun _ r => decide (r ≤ rank)) hgo hfront hback
        (fun p => decide (p.2 = rank)) (fun _ => rfl) (decide_eq_true hlength)
        fun i hi => .inr ((of_decide_eq_true hi).trans hlength.symm)
    obtain ⟨n, rfl⟩ : ∃ n, rank = n + 1 := ⟨rank - 1, by omega⟩
    have hlast : (ts.take (n + 1)).getLast? = some ts[n] := by
      rw [List.take_succ_eq_append_getElem (by omega), List.getLast?_concat]
    rw [Zskiplist.zslGetElementByRank, hsome, lastAddr_eq, hlast, Nat.add_sub_cancel,
      List.getElem?_eq_getElem (by omega)]
    rfl

theorem Represents.rankedNode (h : Represents zsl ts) {rank : ℕ} (hrank : 0 < rank) :
    zsl.rankedNode rank = some (ts[rank - 1]?.map Tower.addr) := by
  rw [Zskiplist.rankedNode, h.zslGetElementByRank hrank]
  cases ts[rank - 1]? <;> rfl

/-- From `ln` on, in one of the directions, there are the entries `rest`. -/
def At (reverse : Bool) (zsl : Zskiplist A S M) (ln : Option A) (rest : List (Entry S M)) : Prop :=
  ∃ front back, Represents zsl (front ++ back) ∧
    if reverse then ln = lastAddr none front ∧ rest = (front.map Tower.val).reverse
    else ln = back.head?.map Tower.addr ∧ rest = back.map Tower.val

theorem At.nil {reverse : Bool} {ln : Option A} (h : At reverse zsl ln []) : ln = none := by
  obtain ⟨front, back, -, hat⟩ := h
  cases reverse with
  | false =>
    obtain ⟨rfl, hnil⟩ := hat
    rw [List.map_eq_nil_iff.mp hnil.symm]
    rfl
  | true =>
    obtain ⟨rfl, hnil⟩ := hat
    rw [List.map_eq_nil_iff.mp (List.reverse_eq_nil_iff.mp hnil.symm)]
    rfl

/-- One step of a traversal. -/
theorem At.cons {reverse : Bool} {ln : Option A} {e : Entry S M} {rest : List (Entry S M)}
    (h : At reverse zsl ln (e :: rest)) :
    ∃ a node ln', ln = some a ∧ zsl.nodes a = some node ∧ node.entry = e ∧
      zsl.next reverse a node = some ln' ∧ At reverse zsl ln' rest := by
  obtain ⟨front, back, hts, hat⟩ := h
  cases reverse with
  | false =>
    obtain ⟨rfl, hrest⟩ := hat
    obtain ⟨t, back, rfl, rfl, rfl⟩ := List.map_eq_cons_iff.mp hrest.symm
    obtain ⟨node, hnode, hentry⟩ := exists_node hts.stored (t := t) (by simp)
    have hlink := (hts.linked 0 hts.level_pos).chained.append_right.1 (hts.heights t (by simp)).1
    have hnext : (linkTo 0 back).forward = back.head?.map Tower.addr :=
      linkTo_zero fun u hu => (hts.heights u (by simp [hu])).1
    rw [List.append_cons] at hts
    refine ⟨t.addr, node, _, rfl, hnode, hentry, ?_, front ++ [t], back, hts, rfl, rfl⟩
    rw [next, if_neg Bool.false_ne_true, hlink, Option.map_some, hnext]
  | true =>
    obtain ⟨rfl, hrest⟩ := hat
    rw [← List.map_reverse] at hrest
    obtain ⟨t, front', hfront, rfl, rfl⟩ := List.map_eq_cons_iff.mp hrest.symm
    obtain rfl : front = front'.reverse ++ [t] := by
      rw [← List.reverse_cons, ← hfront, List.reverse_reverse]
    have hstored := (stored_append.mp (stored_append.mp hts.stored).1).2.1
    obtain ⟨node, hnode, hinfo⟩ := Option.map_eq_some_iff.mp hstored
    rw [List.append_assoc] at hts
    refine ⟨t.addr, node, lastAddr none front'.reverse, ?_, hnode, congrArg Prod.fst hinfo,
      congrArg (fun e => some (Prod.fst (Prod.snd e))) hinfo, front'.reverse, _, hts, rfl, ?_⟩
    · rw [lastAddr_append]
      rfl
    · rw [← List.map_reverse, List.reverse_reverse]

theorem At.zrangeLoop {reverse : Bool} {ln : Option A} {rest : List (Entry S M)}
    (h : At reverse zsl ln rest) {n : ℕ} (hn : n ≤ rest.length) :
    zsl.zrangeLoop reverse n ln = some (rest.take n) := by
  induction n generalizing ln rest with
  | zero => rfl
  | succ n ih =>
    cases rest with
    | nil => exact absurd hn (by simp)
    | cons e rest =>
      obtain ⟨a, node, ln', rfl, hnode, rfl, hnext, h'⟩ := h.cons
      have hrest := ih h' (Nat.succ_le_succ_iff.mp hn)
      simp [Zskiplist.zrangeLoop, hnode, hnext, hrest]

/-- Where a reply of `ZRANGE` begins. -/
theorem Represents.forward_start (h : Represents zsl ts) {first : ℕ} (hfirst : first < ts.length) :
    (if 0 < first then zsl.rankedNode (first + 1) else (zsl.read none 0).map Link.forward) =
      some ((ts.drop first).head?.map Tower.addr) := by
  split_ifs with hpos
  · rw [h.rankedNode (Nat.add_one_pos first), Nat.add_sub_cancel, List.head?_drop]
  · obtain rfl : first = 0 := by omega
    rw [(h.linked 0 h.level_pos).head, Option.map_some, List.drop_zero,
      linkTo_zero fun t ht => (h.heights t ht).1]

/-- Where a reply of `ZREVRANGE` begins. -/
theorem Represents.backward_start (h : Represents zsl ts) {first : ℕ} (hfirst : first < ts.length) :
    (if 0 < first then zsl.rankedNode (ts.length - first) else some zsl.tail) =
      some (lastAddr none (ts.take (ts.length - first))) := by
  split_ifs with hpos
  · obtain ⟨n, hn⟩ : ∃ n, ts.length - first = n + 1 := ⟨ts.length - first - 1, by omega⟩
    have hlast : (ts.take (n + 1)).getLast? = some ts[n] := by
      rw [List.take_succ_eq_append_getElem (by omega), List.getLast?_concat]
    rw [hn, h.rankedNode (Nat.add_one_pos n), Nat.add_sub_cancel, lastAddr_eq, hlast,
      List.getElem?_eq_getElem (by omega)]
    rfl
  · obtain rfl : first = 0 := by omega
    rw [h.tail, Nat.sub_zero, List.take_length]

/-- The replies are the elements at the positions, and no assertion fails. -/
theorem Holds.zslRange (h : Holds zsl l) (reverse : Bool) {start rangelen : ℕ}
    (hstart : start < l.length) (hrangelen : start + rangelen ≤ l.length) :
    zsl.zslRange reverse start rangelen =
      some (((if reverse then l.reverse else l).drop start).take rangelen) := by
  obtain ⟨ts, hts, rfl⟩ := h
  rw [List.length_map] at hstart hrangelen
  rw [Zskiplist.zslRange, rangeStart, hts.length]
  cases reverse with
  | false =>
    simp only [Bool.false_eq_true, if_false]
    rw [hts.forward_start hstart, Option.bind_some, ← List.map_drop]
    rw [← List.take_append_drop start ts] at hts
    have hat : At false zsl _ _ := ⟨_, _, hts, rfl, rfl⟩
    exact hat.zrangeLoop (by simp; omega)
  | true =>
    simp only [if_true]
    rw [hts.backward_start hstart, Option.bind_some, ← List.map_reverse, ← List.map_drop,
      List.drop_reverse, List.map_reverse]
    rw [← List.take_append_drop (ts.length - start) ts] at hts
    have hat : At true zsl _ _ := ⟨_, _, hts, rfl, rfl⟩
    exact hat.zrangeLoop (by simp; omega)

section Scores

variable [LinearOrder S] [LinearOrder M]

omit [LinearOrder S] in
theorem Represents.hasObj (h : Represents zsl (front ++ back)) (obj : M) (i : ℕ) :
    (zsl.hasObj obj (lastTall i (none, 0) 0 front).1 = some false) ∨
      ∃ t ∈ front, (lastTall i (none, 0) 0 front).1 = some t.addr ∧
        zsl.hasObj obj (some t.addr) = some (decide (t.val.member = obj)) := by
  rcases lastTall_fst_mem i (none, 0) 0 front with hnone | hmem
  · rw [hnone]
    exact .inl rfl
  · obtain ⟨t, ht, haddr⟩ := List.mem_map.mp hmem
    obtain ⟨node, hnode, hentry⟩ := exists_node h.stored (List.mem_append_left back ht)
    refine .inr ⟨t, ht, haddr.symm, ?_⟩
    rw [Zskiplist.hasObj, hnode, ← hentry]
    rfl

theorem entry_le (node : ZskiplistNode A S M) (score : S) (obj : M) :
    decide (node.score < score ∨ node.score = score ∧ node.obj ≤ obj) =
      decide (node.entry ≤ entry score obj) :=
  decide_eq_decide.mpr (entry_le_iff (a := node.entry) (b := entry score obj)).symm

/-- What stands before a tower is not greater than its entry, what stands behind is greater, and
both have other members. -/
theorem around_of_ordered {t : Tower A (Entry S M)}
    (hord : Ordered ((front ++ t :: back).map Tower.val)) :
    (∀ u ∈ front, u.val ≤ t.val ∧ u.val.member ≠ t.val.member) ∧ ∀ u ∈ back, ¬ u.val ≤ t.val := by
  have hsorted := hord.sorted
  have hmembers := hord.members
  simp only [List.map_append, List.map_cons, List.pairwise_append, List.pairwise_cons] at hsorted
  simp only [List.map_append, List.map_cons, List.nodup_append, List.nodup_cons] at hmembers
  constructor
  · intro u hu
    have hval : u.val ∈ front.map Tower.val := List.mem_map_of_mem hu
    exact ⟨hsorted.2.2 _ hval _ List.mem_cons_self,
      hmembers.2.2 _ (List.mem_map_of_mem hval) _ List.mem_cons_self⟩
  · intro u hu hle
    have hval : u.val ∈ back.map Tower.val := List.mem_map_of_mem hu
    have heq : u.val = t.val := hle.antisymm (hsorted.2.1.1 _ hval)
    exact hmembers.2.1.1 (heq ▸ List.mem_map_of_mem hval)

theorem Represents.zslGetRank_of_mem {t : Tower A (Entry S M)} {score : S} {obj : M}
    (h : Represents zsl (front ++ t :: back)) (ht : t.val = entry score obj)
    (hord : Ordered ((front ++ t :: back).map Tower.val)) :
    zsl.zslGetRank score obj = some (front.length + 1) := by
  obtain ⟨hbefore, hbehind⟩ := around_of_ordered hord
  have hobj : t.val.member = obj := (entry_eq.mp ht).2
  rw [List.append_cons] at h
  have hfront (k : ℕ) (hk : k < (front ++ [t]).length) :
      decide ((front ++ [t])[k].val ≤ entry score obj) = true := by
    apply decide_eq_true
    rw [← ht]
    rcases List.mem_append.mp (List.getElem_mem hk) with hmem | hmem
    · exact (hbefore _ hmem).1
    · exact (congrArg Tower.val (List.mem_singleton.mp hmem)).le
  have hback (k : ℕ) (hk : k < back.length) : decide (back[k].val ≤ entry score obj) = false := by
    apply decide_eq_false
    rw [← ht]
    exact hbehind _ (List.getElem_mem hk)
  have hlast : lastAddr none (front ++ [t]) = some t.addr := by
    rw [lastAddr_append]
    rfl
  have hhas : zsl.hasObj obj (some t.addr) = some true := by
    obtain ⟨node, hnode, hentry⟩ := exists_node h.stored (t := t) (by simp)
    have hmember : node.obj = obj := (entry_eq.mp (hentry.trans ht)).2
    simp [Zskiplist.hasObj, hnode, hmember]
  have hsome : zsl.descend (fun node _ =>
      decide (node.score < score ∨ node.score = score ∧ node.obj ≤ obj))
      (fun p => zsl.hasObj obj p.1) = some (some (lastAddr none (front ++ [t]), _)) :=
    h.descend_some (fun e _ => decide (e ≤ entry score obj)) (fun node _ => entry_le node score obj)
    hfront hback (fun p => zsl.hasObj obj p.1 == some true) (fun i => by
      rcases h.hasObj obj i with hfalse | ⟨u, -, haddr, hu⟩
      · rw [hfalse]
        rfl
      · rw [haddr, hu]
        cases decide (u.val.member = obj) <;> rfl)
    (by rw [hlast, hhas]; rfl)
    fun i hi => by
      rcases h.hasObj obj i with hfalse | ⟨u, hu, haddr, hmember⟩
      · rw [hfalse] at hi
        contradiction
      · rw [haddr, hmember] at hi
        have huobj : u.val.member = obj := by simpa using hi
        rcases List.mem_append.mp hu with hu | hu
        · exact absurd (huobj.trans hobj.symm) (hbefore u hu).2
        · rw [haddr, hlast, List.mem_singleton.mp hu]
          exact .inl rfl
  rw [Zskiplist.zslGetRank, hsome, List.length_append]
  rfl

theorem Represents.zslGetRank_of_notMem (h : Represents zsl ts)
    (hsorted : (ts.map Tower.val).Pairwise (· ≤ ·)) (score : S) {obj : M}
    (hobj : ∀ t ∈ ts, t.val.member ≠ obj) : zsl.zslGetRank score obj = some 0 := by
  obtain ⟨lfront, lback, heq, hle, hgt⟩ := exists_split (P := fun e => e ≤ entry score obj)
    (fun _ _ hab hb => hab.trans hb) hsorted
  obtain ⟨front, back, rfl, rfl, rfl⟩ := List.map_eq_append_iff.mp heq
  have hnone : zsl.descend (fun node _ =>
      decide (node.score < score ∨ node.score = score ∧ node.obj ≤ obj))
      (fun p => zsl.hasObj obj p.1) = some none :=
    h.descend_none (fun e _ => decide (e ≤ entry score obj)) (fun node _ => entry_le node score obj)
    (fun k hk => decide_eq_true (hle _ (List.mem_map_of_mem (List.getElem_mem hk))))
    (fun k hk => decide_eq_false (hgt _ (List.mem_map_of_mem (List.getElem_mem hk))))
    fun i => by
      rcases h.hasObj obj i with hfalse | ⟨t, ht, haddr, hmember⟩
      · exact hfalse
      · simp only [haddr, hmember, decide_eq_false (hobj t (List.mem_append_left back ht))]
  rw [Zskiplist.zslGetRank, hnone]
  rfl

/-- The rank of an element whose score is known, counted from 1. -/
theorem Holds.zslGetRank (h : Holds zsl l) (hord : Ordered l) {score : S} {obj : M}
    (hscore : ∀ e ∈ l, e.member = obj → e.score = score) :
    zsl.zslGetRank score obj =
      some (if entry score obj ∈ l then l.idxOf (entry score obj) + 1 else 0) := by
  split_ifs with hmem
  · obtain ⟨lfront, lback, rfl⟩ := List.append_of_mem hmem
    obtain ⟨front, back', hts, rfl, hback⟩ := h.split
    obtain ⟨t, back, rfl, ht, rfl⟩ := List.map_eq_cons_iff.mp hback
    have hnot : entry score obj ∉ front.map Tower.val := by
      have hnodup := List.nodup_append.mp hord.members.of_map
      exact fun hmem => hnodup.2.2 _ hmem _ List.mem_cons_self rfl
    rw [hts.zslGetRank_of_mem ht (by rwa [List.map_append, List.map_cons, ht]),
      List.idxOf_append_of_notMem hnot, List.idxOf_cons_self, List.length_map]
  · obtain ⟨ts, hts, rfl⟩ := h
    refine hts.zslGetRank_of_notMem hord.sorted score fun t ht hobj => hmem ?_
    have hval := List.mem_map_of_mem (f := Tower.val) ht
    rwa [entry_eq.mpr ⟨hscore _ hval hobj, hobj⟩] at hval

theorem Entry.score_le {a b : Entry S M} (h : a ≤ b) : a.score ≤ b.score := by
  rcases entry_le_iff.mp h with hlt | ⟨heq, -⟩
  · exact hlt.le
  · exact heq.le

omit [LinearOrder M] in
/-- Only the two ends of the list are looked at. -/
theorem Holds.zslIsInRange (h : Holds zsl l) (range : Zrangespec S) :
    zsl.zslIsInRange range = some (!alwaysEmpty range &&
      l.getLast?.any (fun e => zslValueGteMin e.score range) &&
      l.head?.any fun e => zslValueLteMax e.score range) := by
  obtain ⟨ts, hts, rfl⟩ := h
  rw [Zskiplist.zslIsInRange, hts.tail]
  cases halways : alwaysEmpty range with
  | true => rfl
  | false =>
    rw [if_neg Bool.false_ne_true]
    cases ts using List.reverseRecOn with
    | nil => rfl
    | append_singleton before last =>
      obtain ⟨lastNode, hlastNode, hlastEntry⟩ := exists_node hts.stored (t := last) (by simp)
      obtain ⟨first, rest, hfirst⟩ := List.exists_cons_of_ne_nil (l := before ++ [last]) (by simp)
      obtain ⟨firstNode, hfirstNode, hfirstEntry⟩ :=
        exists_node hts.stored (t := first) (by simp [hfirst])
      have hlink := (hts.linked 0 hts.level_pos).head
      rw [hfirst, linkTo_of_tall (hts.heights first (by simp [hfirst])).1] at hlink
      have hlast : lastAddr none (before ++ [last]) = some last.addr := by
        rw [lastAddr_append]
        rfl
      have hlastScore : lastNode.score = last.val.score := congrArg Entry.score hlastEntry
      have hfirstScore : firstNode.score = first.val.score := congrArg Entry.score hfirstEntry
      rw [hlast, List.getLast?_map, List.getLast?_concat, hfirst]
      cases hmin : zslValueGteMin last.val.score range <;>
        simp [hlastNode, hlink, hfirstNode, hlastScore, hfirstScore, hmin]

theorem inRange_eq_false_of_ends (hsorted : l.Pairwise (· ≤ ·)) {range : Zrangespec S}
    (h : (!alwaysEmpty range && l.getLast?.any (fun e => zslValueGteMin e.score range) &&
      l.head?.any fun e => zslValueLteMax e.score range) = false) :
    ∀ e ∈ l, inRange range e = false := by
  intro e he
  rw [Bool.eq_false_iff]
  intro hin
  have hends := hin
  rw [inRange, Bool.and_eq_true] at hends
  rw [Bool.and_eq_false_iff, Bool.and_eq_false_iff, Bool.not_eq_false'] at h
  rcases h with (hempty | hlast) | hfirst
  · exact absurd hin (by simp [not_inRange_of_alwaysEmpty hempty])
  · obtain ⟨before, last, rfl⟩ := (List.eq_nil_or_concat l).resolve_left (List.ne_nil_of_mem he)
    rw [List.concat_eq_append] at *
    have hle : e ≤ last := by
      rcases List.mem_append.mp he with he | he
      · exact (List.pairwise_append.mp hsorted).2.2 e he last (by simp)
      · exact (List.mem_singleton.mp he).le
    rw [List.getLast?_concat] at hlast
    exact absurd (zslValueGteMin_mono (Entry.score_le hle) hends.1) (by simpa using hlast)
  · obtain ⟨first, rest, rfl⟩ := List.exists_cons_of_ne_nil (List.ne_nil_of_mem he)
    have hle : first ≤ e := by
      rcases List.mem_cons.mp he with rfl | he
      · exact le_rfl
      · exact (List.pairwise_cons.mp hsorted).1 e he
    exact absurd (zslValueLteMax_mono (Entry.score_le hle) hends.2) (by simpa using hfirst)

omit [LinearOrder M] in
theorem exists_of_ends {range : Zrangespec S}
    (h : (!alwaysEmpty range && l.getLast?.any (fun e => zslValueGteMin e.score range) &&
      l.head?.any fun e => zslValueLteMax e.score range) = true) :
    (∃ e ∈ l, zslValueGteMin e.score range = true) ∧
      ∃ e ∈ l, zslValueLteMax e.score range = true := by
  rw [Bool.and_eq_true, Bool.and_eq_true, Option.any_eq_true, Option.any_eq_true] at h
  obtain ⟨⟨-, last, hlast, hmin⟩, first, hfirst, hmax⟩ := h
  exact ⟨⟨last, List.mem_of_getLast? hlast, hmin⟩, first, List.mem_of_head? hfirst, hmax⟩

/-- Where a search by score ends, in a list in order. -/
theorem Holds.exists_scoreSearch (h : Holds zsl l) (hsorted : l.Pairwise (· ≤ ·)) (go : S → Bool)
    (hgo : ∀ s t, s ≤ t → go t = true → go s = true) :
    ∃ front back, Represents zsl (front ++ back) ∧ l = front.map Tower.val ++ back.map Tower.val ∧
      (∀ t ∈ front, go t.val.score = true) ∧ (∀ t ∈ back, go t.val.score = false) ∧
      zsl.search (fun node _ => go node.score) = some (ends front zsl.level) := by
  obtain ⟨lfront, lback, rfl, hfront, hback⟩ := exists_split (P := fun e => go e.score = true)
    (fun _ _ hle ht => hgo _ _ (Entry.score_le hle) ht) hsorted
  obtain ⟨front, back, hts, rfl, rfl⟩ := h.split
  have hfront' : ∀ t ∈ front, go t.val.score = true := fun t ht => hfront _ (List.mem_map_of_mem ht)
  have hback' : ∀ t ∈ back, go t.val.score = false := fun t ht =>
    Bool.eq_false_iff.mpr (hback _ (List.mem_map_of_mem ht))
  exact ⟨front, back, hts, rfl, hfront', hback', hts.search_eq (fun e _ => go e.score)
    (fun _ _ => rfl) (fun _ hk => hfront' _ (List.getElem_mem hk))
    fun _ hk => hback' _ (List.getElem_mem hk)⟩

/-- Where a reply by score starts: at the first entry in range, if there is one. -/
def StartsAt (reverse : Bool) (zsl : Zskiplist A S M) (range : Zrangespec S)
    (l : List (Entry S M)) (ln : Option A) : Prop :=
  ln = none ∧ (∀ e ∈ l, inRange range e = false) ∨
    ∃ front e back, (if reverse then l.reverse else l) = front ++ e :: back ∧
      At reverse zsl ln (e :: back) ∧ inRange range e = true ∧ ∀ e ∈ front, inRange range e = false

theorem Holds.zslFirstInRange (h : Holds zsl l) (hsorted : l.Pairwise (· ≤ ·))
    (range : Zrangespec S) :
    ∃ ln, zsl.zslFirstInRange range = some ln ∧ StartsAt false zsl range l ln := by
  rw [Zskiplist.zslFirstInRange, h.zslIsInRange, Option.bind_eq_bind, Option.bind_some]
  split_ifs with hends
  · obtain ⟨front, back, hts, rfl, hfront, hback, hsearch⟩ :=
      h.exists_scoreSearch hsorted (fun s => !zslValueGteMin s range) fun s t hst ht => by
        simp only [Bool.not_eq_true'] at ht ⊢
        exact Bool.eq_false_iff.mpr fun hs => Bool.eq_false_iff.mp ht (zslValueGteMin_mono hst hs)
    have hlow : ∀ e ∈ front.map Tower.val, zslValueGteMin e.score range = false := by
      intro e he
      obtain ⟨t, ht, rfl⟩ := List.mem_map.mp he
      exact (Bool.not_eq_true' _).mp (hfront t ht)
    have hfront' : ∀ e ∈ front.map Tower.val, inRange range e = false := fun e he => by
      rw [inRange, hlow e he, Bool.false_and]
    cases back with
    | nil =>
      obtain ⟨⟨e, he, hmin⟩, -⟩ := exists_of_ends hends
      rw [List.map_nil, List.append_nil] at he
      exact absurd hmin (by simp [hlow e he])
    | cons t back =>
      obtain ⟨node, hnode, hentry⟩ := exists_node hts.stored (t := t) (by simp)
      have hmin : zslValueGteMin t.val.score range = true :=
        (Bool.not_eq_false' _).mp (hback t List.mem_cons_self)
      have hscore : node.score = t.val.score := congrArg Entry.score hentry
      refine ⟨if zslValueLteMax t.val.score range then some t.addr else none, ?_, ?_⟩
      · simp [hsearch, hts.ends_zero, hts.read_lastAddr, hscore,
          linkTo_of_tall (hts.heights t (by simp)).1, hnode]
      · cases hmax : zslValueLteMax t.val.score range with
        | true =>
          exact .inr ⟨_, t.val, back.map Tower.val, rfl, ⟨front, t :: back, hts, rfl, rfl⟩,
            by rw [inRange, hmin, hmax]; rfl, hfront'⟩
        | false =>
          refine .inl ⟨rfl, fun e he => ?_⟩
          rcases List.mem_append.mp he with he | he
          · exact hfront' e he
          · have hle : t.val ≤ e := by
              rcases List.mem_cons.mp he with rfl | he
              · exact le_rfl
              · exact (List.pairwise_cons.mp (List.pairwise_append.mp hsorted).2.1).1 e he
            rw [inRange, Bool.eq_false_iff.mpr fun hin => Bool.eq_false_iff.mp hmax
              (zslValueLteMax_mono (Entry.score_le hle) hin), Bool.and_false]
  · exact ⟨none, rfl, .inl ⟨rfl, inRange_eq_false_of_ends hsorted (Bool.eq_false_iff.mpr hends)⟩⟩

theorem Holds.zslLastInRange (h : Holds zsl l) (hsorted : l.Pairwise (· ≤ ·))
    (range : Zrangespec S) :
    ∃ ln, zsl.zslLastInRange range = some ln ∧ StartsAt true zsl range l ln := by
  rw [Zskiplist.zslLastInRange, h.zslIsInRange, Option.bind_eq_bind, Option.bind_some]
  split_ifs with hends
  · obtain ⟨front, back, hts, rfl, hfront, hback, hsearch⟩ :=
      h.exists_scoreSearch hsorted (fun s => zslValueLteMax s range) fun s t hst ht =>
        zslValueLteMax_mono hst ht
    have hhigh : ∀ e ∈ back.map Tower.val, zslValueLteMax e.score range = false := by
      intro e he
      obtain ⟨t, ht, rfl⟩ := List.mem_map.mp he
      exact hback t ht
    have hback' : ∀ e ∈ back.map Tower.val, inRange range e = false := fun e he => by
      rw [inRange, hhigh e he, Bool.and_false]
    cases front using List.reverseRecOn with
    | nil =>
      obtain ⟨-, e, he, hmax⟩ := exists_of_ends hends
      exact absurd hmax (by simp [hhigh e he])
    | append_singleton front t =>
      obtain ⟨node, hnode, hentry⟩ := exists_node hts.stored (t := t) (by simp)
      have hmax : zslValueLteMax t.val.score range = true := hfront t (by simp)
      have hscore : node.score = t.val.score := congrArg Entry.score hentry
      have hlast : lastAddr none (front ++ [t]) = some t.addr := by
        rw [lastAddr_append]
        rfl
      refine ⟨if zslValueGteMin t.val.score range then some t.addr else none, ?_, ?_⟩
      · simp [hsearch, hts.ends_zero, hscore, hnode, hlast]
      · cases hmin : zslValueGteMin t.val.score range with
        | true =>
          refine .inr ⟨(back.map Tower.val).reverse, t.val, (front.map Tower.val).reverse, ?_,
            ⟨front ++ [t], back, hts, hlast.symm, by simp⟩, by rw [inRange, hmin, hmax]; rfl,
            fun e he => hback' e (List.mem_reverse.mp he)⟩
          simp
        | false =>
          refine .inl ⟨rfl, fun e he => ?_⟩
          rcases List.mem_append.mp he with he | he
          · have hle : e ≤ t.val := by
              rw [List.map_append, List.map_singleton, List.mem_append, List.mem_singleton] at he
              rcases he with he | rfl
              · rw [List.map_append, List.pairwise_append, List.pairwise_append] at hsorted
                exact hsorted.1.2.2 e he t.val (by simp)
              · exact le_rfl
            rw [inRange, Bool.eq_false_iff.mpr fun hin => Bool.eq_false_iff.mp hmin
              (zslValueGteMin_mono (Entry.score_le hle) hin), Bool.false_and]
          · exact hback' e he
  · exact ⟨none, rfl, .inl ⟨rfl, inRange_eq_false_of_ends hsorted (Bool.eq_false_iff.mpr hends)⟩⟩

omit [LinearOrder S] [LinearOrder M] in
theorem At.length_le {reverse : Bool} {ln : Option A} {rest : List (Entry S M)}
    (h : At reverse zsl ln rest) : rest.length ≤ zsl.length := by
  obtain ⟨front, back, hts, hat⟩ := h
  rw [hts.length, List.length_append]
  cases reverse with
  | false =>
    obtain ⟨-, rfl⟩ := hat
    simp
  | true =>
    obtain ⟨-, rfl⟩ := hat
    simp

omit [LinearOrder S] [LinearOrder M] in
theorem At.skipNodes {reverse : Bool} {ln : Option A} {rest : List (Entry S M)}
    (h : At reverse zsl ln rest) {fuel : ℕ} (hfuel : rest.length < fuel) (offset : ℤ) :
    ∃ ln', zsl.skipNodes reverse fuel offset ln = some ln' ∧
      At reverse zsl ln' (skipOffset offset rest) := by
  induction rest generalizing ln fuel offset with
  | nil =>
    obtain ⟨fuel, rfl⟩ : ∃ n, fuel = n + 1 := ⟨fuel - 1, by simp at hfuel; omega⟩
    obtain rfl := h.nil
    exact ⟨none, rfl, h⟩
  | cons e rest ih =>
    obtain ⟨fuel, rfl⟩ : ∃ n, fuel = n + 1 := ⟨fuel - 1, by simp at hfuel; omega⟩
    obtain ⟨a, node, ln', rfl, hnode, -, hnext, h'⟩ := h.cons
    rw [Zskiplist.skipNodes, skipOffset]
    split_ifs with hzero
    · exact ⟨some a, rfl, h⟩
    · obtain ⟨ln'', hskip, h''⟩ := ih h' (by simpa using hfuel) (offset - 1)
      refine ⟨ln'', ?_, h''⟩
      simp only [hnode, Option.bind_eq_bind, Option.bind_some, hnext, hskip]

omit [LinearOrder M] in
theorem At.replyNodes {reverse : Bool} {ln : Option A} {rest : List (Entry S M)}
    (h : At reverse zsl ln rest) {fuel : ℕ} (hfuel : rest.length < fuel) (range : Zrangespec S)
    (limit : ℤ) :
    zsl.replyNodes reverse range fuel limit ln =
      some (replyWhile (fun e => staysInRange reverse range e.score) limit rest) := by
  induction rest generalizing ln fuel limit with
  | nil =>
    obtain ⟨fuel, rfl⟩ : ∃ n, fuel = n + 1 := ⟨fuel - 1, by simp at hfuel; omega⟩
    rw [h.nil]
    rfl
  | cons e rest ih =>
    obtain ⟨fuel, rfl⟩ : ∃ n, fuel = n + 1 := ⟨fuel - 1, by simp at hfuel; omega⟩
    obtain ⟨a, node, ln', rfl, hnode, rfl, hnext, h'⟩ := h.cons
    have hrest := ih h' (by simpa using hfuel) (limit - 1)
    have hscore : node.entry.score = node.score := rfl
    rw [Zskiplist.replyNodes, replyWhile, hscore]
    split_ifs with hzero hstays
    · rfl
    · simp [hnode, hnext, hrest, hstays]
    · simp [hnode, hstays]

omit [LinearOrder M] in
theorem inRange_eq (reverse : Bool) (range : Zrangespec S) (e : Entry S M) :
    inRange range e =
      (staysInRange (!reverse) range e.score && staysInRange reverse range e.score) := by
  cases reverse with
  | false => rfl
  | true => exact Bool.and_comm _ _

/-- In either direction a traversal comes into the range once, and leaves it once. -/
theorem pairwise_direction (hsorted : l.Pairwise (· ≤ ·)) (reverse : Bool) (range : Zrangespec S) :
    (if reverse then l.reverse else l).Pairwise fun a b =>
      (staysInRange reverse range b.score = true → staysInRange reverse range a.score = true) ∧
        (staysInRange (!reverse) range a.score = true →
          staysInRange (!reverse) range b.score = true) := by
  cases reverse with
  | false =>
    exact hsorted.imp fun hle => ⟨zslValueLteMax_mono (Entry.score_le hle),
      zslValueGteMin_mono (Entry.score_le hle)⟩
  | true =>
    refine List.pairwise_reverse.mpr (hsorted.imp fun hle => ?_)
    exact ⟨zslValueGteMin_mono (Entry.score_le hle), zslValueLteMax_mono (Entry.score_le hle)⟩

/-- The traversal gives a page of the entries in range, in its direction. -/
theorem Holds.zslRangeByScore (h : Holds zsl l) (hsorted : l.Pairwise (· ≤ ·)) (reverse : Bool)
    (range : Zrangespec S) (offset limit : ℤ) :
    zsl.zslRangeByScore reverse range offset limit =
      some (page offset limit
        ((if reverse then l.reverse else l).filter (inRange range))) := by
  have hstart : ∃ ln, zsl.scoreStart reverse range = some ln ∧
      StartsAt reverse zsl range l ln := by
    cases reverse with
    | false => exact h.zslFirstInRange hsorted range
    | true => exact h.zslLastInRange hsorted range
  obtain ⟨ln, hln, hstarts⟩ := hstart
  rw [Zskiplist.zslRangeByScore, hln, Option.bind_eq_bind, Option.bind_some]
  rcases hstarts with ⟨rfl, hnone⟩ | ⟨front, e, back, hd, hat, he, hfront⟩
  · have hfilter : (if reverse then l.reverse else l).filter (inRange range) = [] := by
      refine List.filter_eq_nil_iff.mpr fun e he => ?_
      rw [hnone e (by split_ifs at he <;> simpa using he)]
      exact Bool.false_ne_true
    rw [hfilter, page]
    simp [Zskiplist.skipNodes, Zskiplist.replyNodes]
  · have hfuel := Nat.lt_succ_of_le hat.length_le
    obtain ⟨ln', hskip, hat'⟩ := hat.skipNodes hfuel offset
    have hfuel' := Nat.lt_succ_of_le hat'.length_le
    rw [hskip, Option.bind_some, hat'.replyNodes hfuel' range limit,
      replyWhile_of_inRange (inRange_eq reverse range) hd (pairwise_direction hsorted reverse range)
        he hfront]

/-- The scores without those of the members of some entries. -/
def without (f : M → Option S) (l : List (Entry S M)) : M → Option S := fun m =>
  if m ∈ l.map Entry.member then none else f m

omit [LinearOrder S] in
theorem without_nil (f : M → Option S) : without f [] = f := by
  funext m
  simp [without]

omit [LinearOrder S] in
theorem without_cons (f : M → Option S) (e : Entry S M) (l : List (Entry S M)) :
    without (Function.update f e.member none) l = without f (e :: l) := by
  funext m
  by_cases hm : m = e.member
  · simp [without, hm]
  · simp only [without, Function.update_of_ne hm, List.map_cons, List.mem_cons, hm, false_or]

omit [LinearOrder S] [LinearOrder M] in
/-- The first node that a search does not pass, as the deletions begin there. -/
theorem Represents.forward_lastAddr (h : Represents zsl (front ++ back)) :
    (zsl.read (lastAddr none front) 0).map Link.forward = some (back.head?.map Tower.addr) := by
  rw [h.read_lastAddr, Option.map_some,
    linkTo_zero fun t ht => (h.heights t (List.mem_append_right front ht)).1]

variable [DecidableEq A] {hashFunction : M → ℕ} {dict : Dict M S} {f : M → Option S}

omit [LinearOrder S] in
/-- A run of deletions takes out the nodes of `mid`. Where the search ended stays the place that
they are unlinked from. -/
theorem Represents.deleteWhile {mid : List (Tower A (Entry S M))}
    (h : Represents zsl (front ++ (mid ++ back))) {top : ℕ} (htop : zsl.level ≤ top)
    (go : ZskiplistNode A S M → ℕ → Bool) (accepts : Entry S M → ℕ → Bool)
    (hgo : ∀ node rank, go node rank = accepts node.entry rank) (traversed : ℕ)
    (hmid : ∀ k, (hk : k < mid.length) → accepts mid[k].val (traversed + k) = true)
    (hback : ∀ t ∈ back.head?, accepts t.val (traversed + mid.length) = false) (fuel : ℕ)
    (hfuel : mid.length < fuel) (hdict : dict.Holds hashFunction f) (removed : ℕ) :
    ∃ zsl' dict', deleteWhile hashFunction go (ends front top) fuel zsl dict
        ((mid ++ back).head?.map Tower.addr) traversed removed =
      some (zsl', dict', removed + mid.length) ∧
      Represents zsl' (front ++ back) ∧
      dict'.Holds hashFunction (without f (mid.map Tower.val)) := by
  induction mid generalizing zsl traversed fuel dict f removed with
  | nil =>
    obtain ⟨fuel, rfl⟩ : ∃ n, fuel = n + 1 := ⟨fuel - 1, by simp at hfuel; omega⟩
    refine ⟨zsl, dict, ?_, h, by rwa [List.map_nil, without_nil]⟩
    cases back with
    | nil => rfl
    | cons t back =>
      obtain ⟨node, hnode, hentry⟩ := exists_node h.stored (t := t) (by simp)
      have hstop : go node traversed = false := by
        rw [hgo, hentry]
        exact hback t rfl
      simp only [List.nil_append, List.head?_cons, Option.map_some, Zskiplist.deleteWhile, hnode,
        Option.bind_eq_bind, Option.bind_some, hstop, Bool.false_eq_true, if_false]
      rfl
  | cons t mid ih =>
    rw [List.cons_append] at h ⊢
    obtain ⟨fuel, rfl⟩ : ∃ n, fuel = n + 1 := ⟨fuel - 1, by simp at hfuel; omega⟩
    obtain ⟨node, hnode, hentry⟩ := exists_node h.stored (t := t) (by simp)
    have hgo' : go node traversed = true := by
      rw [hgo, hentry]
      exact hmid 0 (Nat.succ_pos _)
    have hlink := (h.linked 0 h.level_pos).chained.append_right.1 (h.heights t (by simp)).1
    have hnext : (linkTo 0 (mid ++ back)).forward = (mid ++ back).head?.map Tower.addr :=
      linkTo_zero fun u hu => (h.heights u (by simp [List.mem_append.mp hu])).1
    obtain ⟨zsl', hdelete, h', hlevel⟩ := h.zslDeleteNode htop
    have hlevel' : (zsl'.zslFreeNode t.addr).level ≤ top := hlevel.trans htop
    obtain ⟨dict', hdictDelete, hdict'⟩ := hdict.dictDelete node.obj
    obtain ⟨zsl'', dict'', hrest, hend, hdict''⟩ := ih h' hlevel' (traversed + 1)
      (fun k hk => by
        have hmid' := hmid (k + 1) (Nat.succ_lt_succ hk)
        rwa [List.getElem_cons_succ, ← Nat.add_assoc, Nat.add_right_comm] at hmid')
      (fun u hu => by
        have hback' := hback u hu
        rwa [List.length_cons, ← Nat.add_assoc, Nat.add_right_comm] at hback')
      fuel (by simpa using hfuel) hdict' (removed + 1)
    refine ⟨zsl'', dict'', ?_, hend, ?_⟩
    · simp only [List.head?_cons, Option.map_some, Zskiplist.deleteWhile, hnode,
        Option.bind_eq_bind, Option.bind_some, hgo', if_true, hlink, hdelete, hdictDelete, hnext]
      rw [hrest, List.length_cons, Nat.add_assoc, Nat.add_comm 1]
    · have hobj : node.obj = t.val.member := congrArg Entry.member hentry
      rwa [hobj, without_cons] at hdict''

theorem filter_middle {α : Type} (p : α → Bool) (front mid rest : List α)
    (hfront : ∀ e ∈ front, p e = false) (hmid : ∀ e ∈ mid, p e = true)
    (hrest : ∀ e ∈ rest, p e = false) :
    (front ++ (mid ++ rest)).filter p = mid ∧
      ((front ++ (mid ++ rest)).filter fun e => !p e) = front ++ rest := by
  simp only [List.filter_append]
  constructor
  · rw [List.filter_eq_nil_iff.mpr fun e he => by simp [hfront e he],
      List.filter_eq_self.mpr hmid, List.filter_eq_nil_iff.mpr fun e he => by simp [hrest e he],
      List.nil_append, List.append_nil]
  · rw [List.filter_eq_self.mpr fun e he => by simp [hfront e he],
      List.filter_eq_nil_iff.mpr fun e he => by simp [hmid e he],
      List.filter_eq_self.mpr fun e he => by simp [hrest e he], List.nil_append]

/-- The entries in range are deleted, from the list and from the dictionary, and counted. -/
theorem Holds.zslDeleteRangeByScore (h : Holds zsl l) (hsorted : l.Pairwise (· ≤ ·))
    (range : Zrangespec S) (hdict : dict.Holds hashFunction f) :
    ∃ zsl' dict', zsl.zslDeleteRangeByScore hashFunction range dict =
        some (zsl', dict', (l.filter (inRange range)).length) ∧
      Holds zsl' (l.filter fun e => !inRange range e) ∧
      dict'.Holds hashFunction (without f (l.filter (inRange range))) := by
  have hbelow (s : S) : (if range.minex then decide (s ≤ range.min) else decide (s < range.min)) =
      !zslValueGteMin s range := by
    rw [zslValueGteMin]
    split_ifs
    · rw [← decide_not, decide_eq_decide, not_lt]
    · rw [← decide_not, decide_eq_decide, not_le]
  obtain ⟨front, back, hts, rfl, hfront, hback, hsearch⟩ :=
    h.exists_scoreSearch hsorted (fun s => !zslValueGteMin s range) fun s t hst ht => by
      simp only [Bool.not_eq_true'] at ht ⊢
      exact Bool.eq_false_iff.mpr fun hs => Bool.eq_false_iff.mp ht (zslValueGteMin_mono hst hs)
  obtain ⟨lmid, lrest, heq, hmid, hrest⟩ :=
    exists_split (P := fun e => zslValueLteMax e.score range = true)
      (fun _ _ hle hmax => zslValueLteMax_mono (Entry.score_le hle) hmax)
      (List.pairwise_append.mp hsorted).2.1
  obtain ⟨mid, rest, rfl, rfl, rfl⟩ := List.map_eq_append_iff.mp heq
  obtain ⟨zsl', dict', hrun, hend, hdict'⟩ := hts.deleteWhile le_rfl
    (fun node _ => zslValueLteMax node.score range) (fun e _ => zslValueLteMax e.score range)
    (fun _ _ => rfl) 0 (fun k hk => hmid _ (List.mem_map_of_mem (List.getElem_mem hk)))
    (fun t ht => Bool.eq_false_iff.mpr
      (hrest _ (List.mem_map_of_mem (List.mem_of_mem_head? ht))))
    (zsl.length + 1) (by rw [hts.length]; simp; omega) hdict 0
  have hin {t : Tower A (Entry S M)} (ht : t ∈ mid) : inRange range t.val = true := by
    have hmin := hback t (List.mem_append_left rest ht)
    rw [Bool.not_eq_false'] at hmin
    rw [inRange, hmin, hmid _ (List.mem_map_of_mem ht)]
    rfl
  have hlow {t : Tower A (Entry S M)} (ht : t ∈ front) : inRange range t.val = false := by
    rw [inRange, (Bool.not_eq_true' _).mp (hfront t ht), Bool.false_and]
  have hhigh {t : Tower A (Entry S M)} (ht : t ∈ rest) : inRange range t.val = false := by
    rw [inRange, Bool.eq_false_iff.mpr (hrest _ (List.mem_map_of_mem ht)), Bool.and_false]
  obtain ⟨hkept, hothers⟩ := filter_middle (inRange range) (front.map Tower.val)
    (mid.map Tower.val) (rest.map Tower.val)
    (by simpa using fun t ht => hlow ht) (by simpa using fun t ht => hin ht)
    (by simpa using fun t ht => hhigh ht)
  rw [← List.map_append] at hkept hothers
  refine ⟨zsl', dict', ?_, ⟨_, hend, List.map_append.trans hothers.symm⟩, hkept ▸ hdict'⟩
  obtain ⟨link, hread, hforward⟩ := Option.map_eq_some_iff.mp hts.forward_lastAddr
  simp only [Zskiplist.zslDeleteRangeByScore, hbelow, hsearch, Option.bind_eq_bind,
    Option.bind_some, hts.ends_zero, hread, hforward, hkept, List.length_map]
  rw [← Nat.zero_add mid.length]
  exact hrun

omit [LinearOrder S] in
/-- The entries of the ranks are deleted, from the list and from the dictionary, and counted. -/
theorem Holds.zslDeleteRangeByRank (h : Holds zsl l) {start stop : ℕ} (hstart : 0 < start)
    (hstop : start ≤ stop) (hdict : dict.Holds hashFunction f) :
    ∃ zsl' dict', zsl.zslDeleteRangeByRank hashFunction start stop dict =
        some (zsl', dict', ((l.take stop).drop (start - 1)).length) ∧
      Holds zsl' (l.take (start - 1) ++ l.drop stop) ∧
      dict'.Holds hashFunction (without f ((l.take stop).drop (start - 1))) := by
  obtain ⟨ts, hts, rfl⟩ := h
  obtain ⟨before, rfl⟩ : ∃ before, start = before + 1 := ⟨start - 1, by omega⟩
  rw [Nat.add_sub_cancel]
  have hsplit : ts = ts.take before ++ ((ts.take stop).drop before ++ ts.drop stop) := by
    have hdrop : ts.drop stop = (ts.drop before).drop (stop - before) := by
      rw [List.drop_drop, Nat.add_sub_cancel' (by omega)]
    rw [List.drop_take, hdrop, List.take_append_drop, List.take_append_drop]
  have hmid : ((ts.take stop).drop before).length = min stop ts.length - before := by
    rw [List.length_drop, List.length_take]
  have hfront : (ts.take before).length = min before ts.length := List.length_take
  have hts' := hsplit ▸ hts
  have hsearch : zsl.search (fun _ traversed => decide (traversed < before + 1)) =
      some (ends (ts.take before) zsl.level) :=
    hts'.search_eq (fun _ traversed => decide (traversed < before + 1)) (fun _ _ => rfl)
      (fun k hk => decide_eq_true (by omega)) fun k hk => decide_eq_false (by
        rw [List.length_append, hmid, List.length_drop] at hk
        omega)
  obtain ⟨zsl', dict', hrun, hend, hdict'⟩ := hts'.deleteWhile le_rfl
    (fun _ traversed => decide (traversed ≤ stop)) (fun _ traversed => decide (traversed ≤ stop))
    (fun _ _ => rfl) ((ts.take before).length + 1) (fun k hk => decide_eq_true (by omega))
    (fun t ht => decide_eq_false (by
      have hne : (ts.drop stop).length ≠ 0 := by
        intro hzero
        rw [List.eq_nil_of_length_eq_zero hzero] at ht
        simp at ht
      rw [List.length_drop] at hne
      omega))
    (zsl.length + 1) (by rw [hts.length]; omega) hdict 0
  refine ⟨zsl', dict', ?_, ⟨_, hend, by simp⟩, by rwa [← List.map_take, ← List.map_drop]⟩
  obtain ⟨link, hread, hforward⟩ := Option.map_eq_some_iff.mp hts'.forward_lastAddr
  simp only [Zskiplist.zslDeleteRangeByRank, hsearch, Option.bind_eq_bind,
    Option.bind_some, hts'.ends_zero, hread, hforward]
  rw [hrun, Nat.zero_add, ← List.map_take, ← List.map_drop, List.length_map]

end Scores

end Zskiplist
end GridApps.Redis
