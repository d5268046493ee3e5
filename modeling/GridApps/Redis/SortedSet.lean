import Mathlib.Data.List.Sort
import Mathlib.Data.Prod.Lex
import Mathlib.Tactic

/-! Sorted sets as `t_zset.c` keeps them: a list of entries in order while they are few and
short, a skip list with a dictionary from then on. -/
namespace GridApps.Redis

variable {S M : Type}

/-- A member with its score; entries are ordered by score and then by member. -/
abbrev Entry (S M : Type) := S ×ₗ M

def entry (score : S) (ele : M) : Entry S M := toLex (score, ele)

def Entry.score (e : Entry S M) : S := (ofLex e).1

def Entry.member (e : Entry S M) : M := (ofLex e).2

@[simp] theorem entry_score (score : S) (ele : M) : (entry score ele).score = score := rfl

@[simp] theorem entry_member (score : S) (ele : M) : (entry score ele).member = ele := rfl

theorem entry_eq {score : S} {ele : M} {e : Entry S M} :
    e = entry score ele ↔ e.score = score ∧ e.member = ele :=
  Prod.ext_iff

variable [LinearOrder S] [LinearOrder M]

def zzlFind (ele : M) : List (Entry S M) → Option S
  | [] => none
  | e :: zl => if e.member = ele then some e.score else zzlFind ele zl

/-- The entry that `zzlFind` points to is removed. -/
def zzlDelete (ele : M) : List (Entry S M) → List (Entry S M)
  | [] => []
  | e :: zl => if e.member = ele then zl else e :: zzlDelete ele zl

def zzlInsert (ele : M) (score : S) : List (Entry S M) → List (Entry S M)
  | [] => [entry score ele]
  | e :: zl =>
    if score < e.score then entry score ele :: e :: zl
    else if e.score = score ∧ ele < e.member then entry score ele :: e :: zl
    else e :: zzlInsert ele score zl

/-- The search goes past a node. -/
def Passes (score : S) (obj : M) (x : Entry S M) : Prop :=
  x.score < score ∨ x.score = score ∧ x.member < obj

instance (score : S) (obj : M) (x : Entry S M) : Decidable (Passes score obj x) := by
  unfold Passes
  infer_instance

def zslInsert (score : S) (obj : M) : List (Entry S M) → List (Entry S M)
  | [] => [entry score obj]
  | x :: zsl =>
    if Passes score obj x then x :: zslInsert score obj zsl else entry score obj :: x :: zsl

/-- `none` when the node is not found. -/
def zslDelete (score : S) (obj : M) : List (Entry S M) → Option (List (Entry S M))
  | [] => none
  | x :: zsl =>
    if Passes score obj x then (zslDelete score obj zsl).map (x :: ·)
    else if score = x.score ∧ x.member = obj then some zsl
    else none

inductive ZSet (S M : Type) where
  | ziplist (zl : List (Entry S M))
  | skiplist (zsl : List (Entry S M)) (dict : M → Option S)

/-- `zset-max-ziplist-entries` and `zset-max-ziplist-value`, and the length of a member. -/
structure Limits (M : Type) where
  entries : ℕ
  value : ℕ
  length : M → ℕ

namespace ZSet

def entries : ZSet S M → List (Entry S M)
  | ziplist zl => zl
  | skiplist zsl _ => zsl

def empty (limits : Limits M) (ele : M) : ZSet S M :=
  if limits.entries = 0 ∨ limits.value < limits.length ele then skiplist [] fun _ => none
  else ziplist []

/-- One node of `zsetConvert`; an element that is in the dictionary fails an assertion. -/
def convertNode (zs : List (Entry S M) × (M → Option S)) (e : Entry S M) :
    Option (List (Entry S M) × (M → Option S)) :=
  if (zs.2 e.member).isSome then none
  else some (zslInsert e.score e.member zs.1, Function.update zs.2 e.member (some e.score))

def zsetConvert (zl : List (Entry S M)) : Option (ZSet S M) :=
  (zl.foldlM convertNode ([], fun _ => none)).map fun zs => skiplist zs.1 zs.2

/-- `ZADD` of one element to the value of a key, which need not exist. `none` is a failed
assertion. -/
def zadd (limits : Limits M) (zobj : Option (ZSet S M)) (score : S) (ele : M) :
    Option (ZSet S M) :=
  match zobj.getD (empty limits ele) with
  | ziplist zl =>
    match zzlFind ele zl with
    | some curscore =>
      if score ≠ curscore then some (ziplist (zzlInsert ele score (zzlDelete ele zl)))
      else some (ziplist zl)
    | none =>
      let zl := zzlInsert ele score zl
      if limits.entries < zl.length ∨ limits.value < limits.length ele then zsetConvert zl
      else some (ziplist zl)
  | skiplist zsl dict =>
    match dict ele with
    | some curscore =>
      if score ≠ curscore then
        (zslDelete curscore ele zsl).map fun zsl =>
          skiplist (zslInsert score ele zsl) (Function.update dict ele (some score))
      else some (skiplist zsl dict)
    | none =>
      some (skiplist (zslInsert score ele zsl) (Function.update dict ele (some score)))

/-- `ZREVRANGE` by rank; negative ranks count from the other end. -/
def zrevrange (zobj : Option (ZSet S M)) (start stop : ℤ) : List M :=
  match zobj with
  | none => []
  | some z =>
    let llen : ℤ := z.entries.length
    let start := max (if start < 0 then llen + start else start) 0
    let stop := if stop < 0 then llen + stop else stop
    if start > stop ∨ start ≥ llen then []
    else
      let stop := if stop ≥ llen then llen - 1 else stop
      ((z.entries.reverse.drop start.toNat).take (stop - start + 1).toNat).map Entry.member

end ZSet
theorem entry_lt_iff {a b : Entry S M} :
    a < b ↔ a.score < b.score ∨ a.score = b.score ∧ a.member < b.member :=
  Prod.Lex.lt_iff

theorem entry_le_iff {a b : Entry S M} :
    a ≤ b ↔ a.score < b.score ∨ a.score = b.score ∧ a.member ≤ b.member :=
  Prod.Lex.le_iff

theorem passes_iff {score : S} {obj : M} {x : Entry S M} :
    Passes score obj x ↔ x < entry score obj := by
  rw [entry_lt_iff, entry_score, entry_member, Passes]

/-- Entries in order, one for each member. -/
structure Ordered (l : List (Entry S M)) : Prop where
  sorted : l.Pairwise (· ≤ ·)
  members : (l.map Entry.member).Nodup

/-- `l'` is `l` with `score` as the score of `ele`. -/
structure Puts (l : List (Entry S M)) (score : S) (ele : M) (l' : List (Entry S M)) : Prop where
  ordered : Ordered l'
  mem_iff : ∀ e, e ∈ l' ↔ e = entry score ele ∨ e ∈ l ∧ e.member ≠ ele

theorem Ordered.sublist {l l' : List (Entry S M)} (h : Ordered l) (hl : l'.Sublist l) :
    Ordered l' :=
  ⟨h.sorted.sublist hl, h.members.sublist (hl.map _)⟩

theorem Ordered.eq_of_member {l : List (Entry S M)} (h : Ordered l) {a b : Entry S M}
    (ha : a ∈ l) (hb : b ∈ l) (hab : a.member = b.member) : a = b :=
  List.inj_on_of_nodup_map h.members ha hb hab

/-- The last entry is the greatest one. -/
theorem Ordered.exists_top {l : List (Entry S M)} (h : Ordered l) (hne : l ≠ []) :
    ∃ top, l.getLast? = some top ∧ top ∈ l ∧ ∀ e ∈ l, e ≤ top := by
  obtain ⟨front, top, rfl⟩ := (List.eq_nil_or_concat l).resolve_left hne
  rw [List.concat_eq_append] at h ⊢
  refine ⟨top, List.getLast?_concat, by simp, fun e he => ?_⟩
  rcases List.mem_append.mp he with he | he
  · exact (List.pairwise_append.mp h.sorted).2.2 e he top (List.mem_singleton_self top)
  · exact (List.mem_singleton.mp he).le

theorem zslInsert_eq (score : S) (obj : M) (l : List (Entry S M)) :
    zslInsert score obj l = l.orderedInsert (· ≤ ·) (entry score obj) := by
  induction l with
  | nil => rfl
  | cons x l ih =>
    have hpasses : Passes score obj x ↔ ¬ entry score obj ≤ x := by
      rw [not_le, passes_iff]
    by_cases hx : Passes score obj x
    · rw [zslInsert, if_pos hx, ih, List.orderedInsert_of_not_le _ _ (hpasses.mp hx)]
    · rw [zslInsert, if_neg hx,
        List.orderedInsert_cons_of_le _ _ (not_not.mp fun h => hx (hpasses.mpr h))]

theorem zzlInsert_eq {score : S} {ele : M} {l : List (Entry S M)}
    (h : ele ∉ l.map Entry.member) :
    zzlInsert ele score l = l.orderedInsert (· ≤ ·) (entry score ele) := by
  induction l with
  | nil => rfl
  | cons e l ih =>
    rw [List.map_cons, List.mem_cons, not_or] at h
    have hle : entry score ele ≤ e ↔ score < e.score ∨ e.score = score ∧ ele < e.member := by
      rw [entry_le_iff, entry_score, entry_member, eq_comm (a := score), le_iff_lt_or_eq,
        or_iff_left h.1]
    rw [zzlInsert, ih h.2, List.orderedInsert_cons]
    by_cases hscore : score < e.score
    · rw [if_pos hscore, if_pos (hle.mpr (.inl hscore))]
    · by_cases htie : e.score = score ∧ ele < e.member
      · rw [if_neg hscore, if_pos htie, if_pos (hle.mpr (.inr htie))]
      · rw [if_neg hscore, if_neg htie, if_neg fun h => (hle.mp h).elim hscore htie]

theorem zzlDelete_eq {score : S} {ele : M} {l : List (Entry S M)}
    (h : (l.map Entry.member).Nodup) (hmem : entry score ele ∈ l) :
    zzlDelete ele l = l.erase (entry score ele) := by
  induction l with
  | nil => exact absurd hmem List.not_mem_nil
  | cons e l ih =>
    rw [List.map_cons, List.nodup_cons] at h
    by_cases he : e = entry score ele
    · rw [zzlDelete, he, if_pos (entry_member score ele), List.erase_cons_head]
    · have hl := List.mem_of_ne_of_mem (Ne.symm he) hmem
      have hne : e.member ≠ ele := by
        rintro rfl
        exact h.1 (List.mem_map.mpr ⟨_, hl, rfl⟩)
      rw [zzlDelete, if_neg hne, ih h.2 hl, List.erase_cons_tail (by simpa using he)]

theorem zslDelete_eq {score : S} {obj : M} {l : List (Entry S M)} (h : l.Pairwise (· ≤ ·))
    (hmem : entry score obj ∈ l) :
    zslDelete score obj l = some (l.erase (entry score obj)) := by
  induction l with
  | nil => exact absurd hmem List.not_mem_nil
  | cons x l ih =>
    obtain ⟨hx, hl⟩ := List.pairwise_cons.mp h
    by_cases heq : x = entry score obj
    · have hpasses : ¬ Passes score obj x := fun h => (passes_iff.mp h).ne heq
      obtain ⟨hscore, hobj⟩ := entry_eq.mp heq
      rw [zslDelete, if_neg hpasses, if_pos ⟨hscore.symm, hobj⟩, heq, List.erase_cons_head]
    · have hmem := List.mem_of_ne_of_mem (Ne.symm heq) hmem
      have hpasses : Passes score obj x := passes_iff.mpr ((hx _ hmem).lt_of_ne heq)
      rw [zslDelete, if_pos hpasses, ih hl hmem, List.erase_cons_tail (by simpa using heq)]
      rfl

omit [LinearOrder S] in
theorem zzlFind_eq_some {l : List (Entry S M)} (h : (l.map Entry.member).Nodup) {score : S}
    {ele : M} : zzlFind ele l = some score ↔ entry score ele ∈ l := by
  induction l with
  | nil => simp [zzlFind]
  | cons e l ih =>
    rw [List.map_cons, List.nodup_cons] at h
    by_cases he : e.member = ele
    · have hnot : entry score ele ∉ l := by
        intro hl
        exact h.1 (List.mem_map.mpr ⟨_, hl, he.symm⟩)
      rw [zzlFind, if_pos he, Option.some_inj, List.mem_cons, or_iff_left hnot,
        eq_comm (a := entry score ele), entry_eq, and_iff_left he]
    · rw [zzlFind, if_neg he, ih h.2, List.mem_cons, or_iff_right]
      rintro rfl
      exact he rfl

omit [LinearOrder S] in
theorem notMem_of_zzlFind {l : List (Entry S M)} {ele : M} (h : zzlFind ele l = none) :
    ele ∉ l.map Entry.member := by
  induction l with
  | nil => exact List.not_mem_nil
  | cons e l ih =>
    rw [zzlFind] at h
    split_ifs at h with he
    rw [List.map_cons, List.mem_cons, not_or]
    exact ⟨Ne.symm he, ih h⟩

variable {l : List (Entry S M)} {score curscore : S} {ele : M}

theorem Puts.insert (h : Ordered l) (score : S) (hele : ele ∉ l.map Entry.member) :
    Puts l score ele (l.orderedInsert (· ≤ ·) (entry score ele)) := by
  have hperm := List.perm_orderedInsert (· ≤ ·) (entry score ele) l
  refine ⟨⟨h.sorted.orderedInsert _ _, ?_⟩, fun e => ?_⟩
  · rw [(hperm.map Entry.member).nodup_iff, List.map_cons]
    exact List.nodup_cons.mpr ⟨hele, h.members⟩
  · rw [List.mem_orderedInsert]
    have hne : e ∈ l → e.member ≠ ele := by
      rintro he rfl
      exact hele (List.mem_map_of_mem he)
    rw [and_iff_left_of_imp hne]

theorem Ordered.mem_erase (h : Ordered l) (hcur : entry curscore ele ∈ l) (e : Entry S M) :
    e ∈ l.erase (entry curscore ele) ↔ e ∈ l ∧ e.member ≠ ele := by
  rw [h.members.of_map.mem_erase_iff, and_comm]
  refine and_congr_right fun he => not_congr ⟨?_, fun heq => h.eq_of_member he hcur heq⟩
  rintro rfl
  rfl

theorem Ordered.notMem_erase (h : Ordered l) (hcur : entry curscore ele ∈ l) :
    ele ∉ (l.erase (entry curscore ele)).map Entry.member := by
  intro hmap
  obtain ⟨e, he, heq⟩ := List.mem_map.mp hmap
  exact ((h.mem_erase hcur e).mp he).2 heq

theorem Puts.replace (h : Ordered l) (score : S) (hcur : entry curscore ele ∈ l) :
    Puts l score ele ((l.erase (entry curscore ele)).orderedInsert (· ≤ ·) (entry score ele)) := by
  have hputs := Puts.insert (h.sublist List.erase_sublist) score (h.notMem_erase hcur)
  refine ⟨hputs.ordered, fun e => ?_⟩
  rw [hputs.mem_iff, h.mem_erase hcur, and_assoc, and_self]

theorem Puts.same (h : Ordered l) (hcur : entry score ele ∈ l) : Puts l score ele l := by
  refine ⟨h, fun e => ⟨fun he => ?_, fun he => ?_⟩⟩
  · by_cases heq : e.member = ele
    · exact .inl (h.eq_of_member he hcur heq)
    · exact .inr ⟨he, heq⟩
  · rcases he with rfl | he
    · exact hcur
    · exact he.1

/-- The dictionary has exactly the scores in the list. -/
def Indexes (dict : M → Option S) (l : List (Entry S M)) : Prop :=
  ∀ m s, dict m = some s ↔ entry s m ∈ l

theorem Indexes.update {dict : M → Option S} {l' : List (Entry S M)} (h : Indexes dict l)
    (hputs : Puts l score ele l') : Indexes (Function.update dict ele (some score)) l' := by
  intro m s
  rw [hputs.mem_iff, entry_eq, entry_score, entry_member, Function.update_apply]
  split_ifs with hm
  · simp [hm, eq_comm]
  · simp [hm, h m s]

omit [LinearOrder S] [LinearOrder M] in
theorem Indexes.eq_none_iff {dict : M → Option S} (h : Indexes dict l) :
    dict ele = none ↔ ele ∉ l.map Entry.member := by
  rw [Option.eq_none_iff_forall_ne_some]
  constructor
  · intro hnone hele
    obtain ⟨e, he, rfl⟩ := List.mem_map.mp hele
    exact hnone e.score ((h _ _).mpr he)
  · intro hele s hs
    exact hele (List.mem_map.mpr ⟨_, (h _ _).mp hs, rfl⟩)

namespace ZSet

/-- The entries are in order, and the dictionary agrees with them. -/
def Valid : ZSet S M → Prop
  | ziplist zl => Ordered zl
  | skiplist zsl dict => Ordered zsl ∧ Indexes dict zsl

/-- The entries under a key; there are none if it does not exist. -/
def entriesOf (zobj : Option (ZSet S M)) : List (Entry S M) := (zobj.map entries).getD []

theorem zslInsert_last {l : List (Entry S M)} (h : ∀ x ∈ l, x < entry score ele) :
    zslInsert score ele l = l ++ [entry score ele] := by
  induction l with
  | nil => rfl
  | cons x l ih =>
    obtain ⟨hx, hl⟩ := List.forall_mem_cons.mp h
    rw [zslInsert, if_pos (passes_iff.mpr hx), ih hl, List.cons_append]

theorem foldlM_convertNode (rest front : List (Entry S M)) (dict : M → Option S)
    (h : Ordered (front ++ rest)) (hdict : Indexes dict front) :
    ∃ dict', rest.foldlM convertNode (front, dict) = some (front ++ rest, dict') ∧
      Indexes dict' (front ++ rest) := by
  induction rest generalizing front dict with
  | nil => exact ⟨dict, by simp, by simpa using hdict⟩
  | cons e rest ih =>
    have hfront : Ordered front := h.sublist (List.sublist_append_left front _)
    have hele : e.member ∉ front.map Entry.member := by
      have hnodup := h.members
      rw [List.map_append, List.nodup_append] at hnodup
      exact fun hmem => hnodup.2.2 _ hmem _ (List.mem_map_of_mem List.mem_cons_self) rfl
    have hlt : ∀ x ∈ front, x < entry e.score e.member := by
      intro x hx
      have hle := (List.pairwise_append.mp h.sorted).2.2 x hx e List.mem_cons_self
      refine hle.lt_of_ne fun heq => hele ?_
      exact heq ▸ List.mem_map_of_mem hx
    have hputs : Puts front e.score e.member (front ++ [e]) := by
      have hinsert := Puts.insert hfront e.score hele
      rwa [← zslInsert_eq, zslInsert_last hlt] at hinsert
    have hstep : convertNode (front, dict) e =
        some (front ++ [e], Function.update dict e.member (some e.score)) := by
      simp only [convertNode, hdict.eq_none_iff.mpr hele, zslInsert_last hlt]
      rfl
    have hassoc : front ++ e :: rest = (front ++ [e]) ++ rest := by simp
    obtain ⟨dict', hfold, hindex⟩ := ih _ _ (hassoc ▸ h) (hdict.update hputs)
    refine ⟨dict', ?_, hassoc ▸ hindex⟩
    rw [List.foldlM_cons, hstep, hassoc, ← hfold]
    rfl

theorem zsetConvert_eq {zl : List (Entry S M)} (h : Ordered zl) :
    ∃ dict, zsetConvert zl = some (skiplist zl dict) ∧ Indexes dict zl := by
  obtain ⟨dict, hfold, hdict⟩ := foldlM_convertNode zl [] (fun _ => none) h
    (by simp [Indexes])
  exact ⟨dict, by rw [zsetConvert, hfold]; rfl, hdict⟩

theorem valid_empty (limits : Limits M) (ele : M) :
    (empty limits ele : ZSet S M).Valid ∧ (empty limits ele : ZSet S M).entries = [] := by
  have hnil : Ordered ([] : List (Entry S M)) := ⟨.nil, List.nodup_nil⟩
  unfold empty
  split_ifs
  · exact ⟨⟨hnil, by simp [Indexes]⟩, rfl⟩
  · exact ⟨hnil, rfl⟩

theorem zadd_ziplist (limits : Limits M) {zl : List (Entry S M)} (hord : Ordered zl) (score : S)
    (ele : M) : ∃ z, zadd limits (some (ziplist zl)) score ele = some z ∧ z.Valid ∧
      Puts zl score ele z.entries := by
  cases hfind : zzlFind ele zl with
  | some curscore =>
    have hcur := (zzlFind_eq_some hord.members).mp hfind
    by_cases hscore : score = curscore
    · have hputs := Puts.same hord (hscore ▸ hcur)
      exact ⟨ziplist zl, by simp [zadd, hfind, hscore], hord, hputs⟩
    · have hputs := Puts.replace hord score hcur
      rw [← zzlInsert_eq (hord.notMem_erase hcur), ← zzlDelete_eq hord.members hcur] at hputs
      exact ⟨ziplist (zzlInsert ele score (zzlDelete ele zl)), by simp [zadd, hfind, hscore],
        hputs.ordered, hputs⟩
  | none =>
    have hele := notMem_of_zzlFind hfind
    have hputs := Puts.insert hord score hele
    rw [← zzlInsert_eq hele] at hputs
    by_cases hlarge : limits.entries < (zzlInsert ele score zl).length ∨
        limits.value < limits.length ele
    · obtain ⟨dict, hconvert, hdict⟩ := zsetConvert_eq hputs.ordered
      exact ⟨skiplist (zzlInsert ele score zl) dict, by simp [zadd, hfind, hlarge, hconvert],
        ⟨hputs.ordered, hdict⟩, hputs⟩
    · exact ⟨ziplist (zzlInsert ele score zl), by simp [zadd, hfind, hlarge], hputs.ordered,
        hputs⟩

theorem zadd_skiplist (limits : Limits M) {zsl : List (Entry S M)} {dict : M → Option S}
    (hord : Ordered zsl) (hdict : Indexes dict zsl) (score : S) (ele : M) :
    ∃ z, zadd limits (some (skiplist zsl dict)) score ele = some z ∧ z.Valid ∧
      Puts zsl score ele z.entries := by
  cases hfind : dict ele with
  | some curscore =>
    have hcur := (hdict ele curscore).mp hfind
    by_cases hscore : score = curscore
    · have hputs := Puts.same hord (hscore ▸ hcur)
      exact ⟨skiplist zsl dict, by simp [zadd, hfind, hscore], ⟨hord, hdict⟩, hputs⟩
    · have hputs := Puts.replace hord score hcur
      rw [← zslInsert_eq] at hputs
      exact ⟨skiplist (zslInsert score ele (zsl.erase (entry curscore ele)))
          (Function.update dict ele (some score)),
        by simp [zadd, hfind, hscore, zslDelete_eq hord.sorted hcur],
        ⟨hputs.ordered, hdict.update hputs⟩, hputs⟩
  | none =>
    have hputs := Puts.insert hord score (hdict.eq_none_iff.mp hfind)
    rw [← zslInsert_eq] at hputs
    exact ⟨skiplist (zslInsert score ele zsl) (Function.update dict ele (some score)),
      by simp [zadd, hfind], ⟨hputs.ordered, hdict.update hputs⟩, hputs⟩

theorem zadd_spec (limits : Limits M) {zobj : Option (ZSet S M)} (h : ∀ z ∈ zobj, z.Valid)
    (score : S) (ele : M) :
    ∃ z, zadd limits zobj score ele = some z ∧ z.Valid ∧
      Puts (entriesOf zobj) score ele z.entries := by
  have hsome : ∀ z : ZSet S M, z.Valid → ∃ z', zadd limits (some z) score ele = some z' ∧
      z'.Valid ∧ Puts z.entries score ele z'.entries := by
    intro z hz
    cases z with
    | ziplist zl => exact zadd_ziplist limits hz score ele
    | skiplist zsl dict => exact zadd_skiplist limits hz.1 hz.2 score ele
  cases zobj with
  | some z => exact hsome z (h z rfl)
  | none =>
    obtain ⟨hvalid, hnil⟩ := valid_empty (S := S) limits ele
    have hempty := hsome _ hvalid
    rwa [hnil] at hempty

omit [LinearOrder S] [LinearOrder M] in
theorem zrevrange_zero (zobj : Option (ZSet S M)) :
    zrevrange zobj 0 0 = ((entriesOf zobj).getLast?.map Entry.member).toList := by
  cases zobj with
  | none => rfl
  | some z =>
    have hentries : entriesOf (some z) = z.entries := rfl
    rw [hentries, zrevrange, ← List.head?_reverse]
    cases hrev : z.entries.reverse with
    | nil =>
      have hnil : z.entries = [] := List.reverse_eq_nil_iff.mp hrev
      simp [hnil]
    | cons e l =>
      have hlength : (z.entries.length : ℤ) = l.length + 1 := by
        rw [← List.length_reverse, hrev]
        simp
      simp only [hlength]
      have hpos : ¬ ((0 : ℤ) ≥ l.length + 1) := by omega
      simp [hpos]

/-- The additions are made in order. -/
def zaddAll (limits : Limits M) (zobj : Option (ZSet S M)) :
    List (S × M) → Option (Option (ZSet S M))
  | [] => some zobj
  | (score, ele) :: history =>
    (zadd limits zobj score ele).bind fun z => zaddAll limits (some z) history

/-- The score that the last addition of a member gave it. -/
def lastScore (history : List (S × M)) (m : M) : Option S :=
  (history.reverse.find? fun r => decide (r.2 = m)).map Prod.fst

/-- A valid set of the members of the history with their last scores. -/
structure Reflects (zobj : Option (ZSet S M)) (history : List (S × M)) : Prop where
  valid : ∀ z ∈ zobj, z.Valid
  ordered : Ordered (entriesOf zobj)
  mem_iff : ∀ m s, entry s m ∈ entriesOf zobj ↔ lastScore history m = some s

omit [LinearOrder S] in
theorem lastScore_concat (history : List (S × M)) (score : S) (ele m : M) :
    lastScore (history ++ [(score, ele)]) m =
      if ele = m then some score else lastScore history m := by
  rw [lastScore, List.reverse_concat, List.find?_cons]
  by_cases h : ele = m
  · simp [h]
  · simp [h, lastScore]

theorem Reflects.nil : Reflects (none : Option (ZSet S M)) [] :=
  ⟨fun _ hz => by contradiction, ⟨.nil, List.nodup_nil⟩, fun m s => by simp [entriesOf, lastScore]⟩

theorem Reflects.zadd (limits : Limits M) {zobj : Option (ZSet S M)} {history : List (S × M)}
    (h : Reflects zobj history) (score : S) (ele : M) :
    ∃ z, zadd limits zobj score ele = some z ∧ Reflects (some z) (history ++ [(score, ele)]) := by
  obtain ⟨z, hz, hvalid, hputs⟩ := zadd_spec limits h.valid score ele
  refine ⟨z, hz, ?_, hputs.ordered, fun m s => ?_⟩
  · intro z' hz'
    exact Option.some.inj hz' ▸ hvalid
  · have hentries : entriesOf (some z) = z.entries := rfl
    rw [hentries, hputs.mem_iff, entry_eq, entry_score, entry_member, h.mem_iff, lastScore_concat]
    by_cases hm : ele = m
    · simp [hm, eq_comm]
    · simp [hm, Ne.symm hm]

/-- No addition fails, and the set reflects all of them. -/
theorem Reflects.zaddAll (limits : Limits M) (history' : List (S × M)) {zobj : Option (ZSet S M)}
    {history : List (S × M)} (h : Reflects zobj history) :
    ∃ zobj', zaddAll limits zobj history' = some zobj' ∧
      Reflects zobj' (history ++ history') := by
  induction history' generalizing zobj history with
  | nil => exact ⟨zobj, rfl, by simpa using h⟩
  | cons r history' ih =>
    obtain ⟨z, hz, hreflects⟩ := h.zadd limits r.1 r.2
    obtain ⟨zobj', hrun, hend⟩ := ih hreflects
    exact ⟨zobj', by rw [ZSet.zaddAll, hz]; exact hrun, by simpa using hend⟩

omit [LinearOrder S] in
theorem mem_of_lastScore {history : List (S × M)} {m : M} {s : S}
    (h : lastScore history m = some s) : (s, m) ∈ history := by
  obtain ⟨r, hr, rfl⟩ := Option.map_eq_some_iff.mp h
  have hm : r.2 = m := by simpa using List.find?_some hr
  rw [← hm]
  exact List.mem_reverse.mp (List.mem_of_find?_eq_some hr)

/-- Under scores that do not decrease, the last score is the highest. -/
theorem le_lastScore {history : List (S × M)} (h : (history.map Prod.fst).Pairwise (· ≤ ·))
    {r : S × M} (hr : r ∈ history) : ∃ s, lastScore history r.2 = some s ∧ r.1 ≤ s := by
  induction history using List.reverseRecOn with
  | nil => exact absurd hr List.not_mem_nil
  | append_singleton history last ih =>
    rw [List.map_append, List.pairwise_append] at h
    rw [lastScore_concat]
    by_cases hm : last.2 = r.2
    · refine ⟨last.1, if_pos hm, ?_⟩
      rcases List.mem_append.mp hr with hr | hr
      · exact h.2.2 _ (List.mem_map_of_mem hr) _ (by simp)
      · rw [List.mem_singleton.mp hr]
    · rw [if_neg hm]
      apply ih h.1
      refine (List.mem_append.mp hr).resolve_right fun hr => hm ?_
      rw [List.mem_singleton.mp hr]

omit [LinearOrder S] [LinearOrder M] in
theorem head?_zrevrange (zobj : Option (ZSet S M)) :
    (zrevrange zobj 0 0).head? = (entriesOf zobj).getLast?.map Entry.member := by
  rw [zrevrange_zero, Option.head?_toList]

/-- There is a member on top as soon as something was added. -/
theorem Reflects.exists_head {zobj : Option (ZSet S M)} {history : List (S × M)}
    (h : Reflects zobj history) (hne : history ≠ []) :
    ∃ m, (zrevrange zobj 0 0).head? = some m := by
  obtain ⟨front, last, rfl⟩ := (List.eq_nil_or_concat history).resolve_left hne
  have hmem : entry last.1 last.2 ∈ entriesOf zobj := by
    rw [h.mem_iff, List.concat_eq_append, lastScore_concat, if_pos rfl]
  obtain ⟨top, htop, -⟩ := h.ordered.exists_top (List.ne_nil_of_mem hmem)
  exact ⟨top.member, by rw [head?_zrevrange, htop, Option.map_some]⟩

/-- The member on top is the greatest one among those with the greatest last score. -/
theorem Reflects.head?_zrevrange_eq_some_iff {zobj : Option (ZSet S M)} {history : List (S × M)}
    (h : Reflects zobj history) {m : M} : (zrevrange zobj 0 0).head? = some m ↔
      ∃ s, lastScore history m = some s ∧
        ∀ m' s', lastScore history m' = some s' → entry s' m' ≤ entry s m := by
  rw [head?_zrevrange, Option.map_eq_some_iff]
  constructor
  · rintro ⟨e, hlast, rfl⟩
    obtain ⟨top, htop, hmem, hle⟩ :=
      h.ordered.exists_top (List.ne_nil_of_mem (List.mem_of_getLast? hlast))
    obtain rfl := Option.some.inj (hlast.symm.trans htop)
    exact ⟨e.score, (h.mem_iff _ _).mp hmem, fun m' s' hs' => hle _ ((h.mem_iff _ _).mpr hs')⟩
  · rintro ⟨s, hs, hle⟩
    have hmem := (h.mem_iff m s).mpr hs
    obtain ⟨top, htop, htopMem, htopLe⟩ := h.ordered.exists_top (List.ne_nil_of_mem hmem)
    have hmax : top ≤ entry s m := hle top.member top.score ((h.mem_iff _ _).mp htopMem)
    exact ⟨top, htop, congrArg Entry.member (hmax.antisymm (htopLe _ hmem))⟩

/-- The newest addition is on top exactly when it is the greatest member of its score. -/
theorem Reflects.head?_zrevrange_eq_last_iff {zobj : Option (ZSet S M)} {history : List (S × M)}
    {last : S × M} (h : Reflects zobj (history ++ [last]))
    (hmono : ((history ++ [last]).map Prod.fst).Pairwise (· ≤ ·)) :
    (zrevrange zobj 0 0).head? = some last.2 ↔ ∀ r ∈ history, r.1 = last.1 → r.2 ≤ last.2 := by
  have hlast : lastScore (history ++ [last]) last.2 = some last.1 := by
    rw [lastScore_concat, if_pos rfl]
  rw [h.head?_zrevrange_eq_some_iff]
  constructor
  · rintro ⟨s, hs, hle⟩ r hr hscore
    obtain rfl := Option.some.inj (hlast.symm.trans hs)
    obtain ⟨s', hs', hrs⟩ := le_lastScore hmono (List.mem_append_left [last] hr)
    rcases entry_le_iff.mp (hle _ _ hs') with hlt | ⟨-, hmember⟩
    · exact absurd hlt (not_lt.mpr (hscore ▸ hrs))
    · exact hmember
  · intro hties
    refine ⟨last.1, hlast, fun m s hs => ?_⟩
    rcases List.mem_append.mp (mem_of_lastScore hs) with hmem | hmem
    · rw [List.map_append, List.pairwise_append] at hmono
      have hscore : s ≤ last.1 :=
        hmono.2.2 _ (List.mem_map_of_mem (f := Prod.fst) hmem) _ (by simp)
      exact entry_le_iff.mpr (hscore.lt_or_eq.imp_right fun heq => ⟨heq, hties _ hmem heq⟩)
    · rw [← List.mem_singleton.mp hmem]

end ZSet
end GridApps.Redis
