import GridApps.Redis.SortedSet
import GridApps.SkipList.Towers

/-! The skip list of `t_zset.c` in memory: nodes with an array of levels, linked by address. The
addresses and the random levels of new nodes are arguments. -/
namespace GridApps.Redis
open SkipList

variable {A S M : Type}

structure ZskiplistNode (A S M : Type) where
  obj : M
  score : S
  backward : Option A
  level : List (Link A)

/-- The header holds no element. `none` as an address is that of the header where a node is
searched from, and `NULL` elsewhere. -/
structure Zskiplist (A S M : Type) where
  header : List (Link A)
  nodes : A → Option (ZskiplistNode A S M)
  tail : Option A
  length : ℕ
  level : ℕ

def zskiplistMaxlevel : ℕ := 32

namespace ZskiplistNode

def entry (node : ZskiplistNode A S M) : Entry S M := Redis.entry node.score node.obj

end ZskiplistNode

namespace Zskiplist

def zslCreate : Zskiplist A S M where
  header := List.replicate zskiplistMaxlevel ⟨none, 0⟩
  nodes _ := none
  tail := none
  length := 0
  level := 1

/-- `draws` is how often the random number is below `ZSKIPLIST_P`. -/
def zslRandomLevel (draws : ℕ) : ℕ :=
  if 1 + draws < zskiplistMaxlevel then 1 + draws else zskiplistMaxlevel

theorem zslRandomLevel_pos (draws : ℕ) : 0 < zslRandomLevel draws := by
  rw [zslRandomLevel]
  split_ifs
  · omega
  · exact Nat.succ_pos 31

theorem zslRandomLevel_le (draws : ℕ) : zslRandomLevel draws ≤ zskiplistMaxlevel := by
  rw [zslRandomLevel]
  split_ifs <;> omega

/-- `x->level[i]` -/
def read (zsl : Zskiplist A S M) : Memory A
  | none, i => zsl.header[i]?
  | some a, i => (zsl.nodes a).bind fun node => node.level[i]?

/-- Search from the header: over each level while `go` holds of the next node and its rank. -/
def search (zsl : Zskiplist A S M) (go : ZskiplistNode A S M → ℕ → Bool) :
    Option (List (Option A × ℕ)) :=
  SkipList.search zsl.read (fun y rank => (zsl.nodes y).map fun node => go node rank)
    (zsl.length + 1) zsl.level none 0

section Writes

variable [DecidableEq A]

def setLink (zsl : Zskiplist A S M) (x : Option A) (i : ℕ) (link : Link A) : Zskiplist A S M :=
  match x with
  | none => { zsl with header := zsl.header.set i link }
  | some a =>
    { zsl with
      nodes := Function.update zsl.nodes a
        ((zsl.nodes a).map fun node => { node with level := node.level.set i link }) }

/-- `y->backward = x` -/
def setBackward (zsl : Zskiplist A S M) (y : A) (x : Option A) : Zskiplist A S M :=
  { zsl with
    nodes := Function.update zsl.nodes y
      ((zsl.nodes y).map fun node => { node with backward := x }) }

/-- A level that the list did not have yet. -/
def raiseLevel (zsl : Zskiplist A S M) (i : ℕ) : Option (Zskiplist A S M) := do
  let link ← zsl.read none i
  return zsl.setLink none i { link with span := zsl.length }

/-- A new level begins at the header, where the search over it would have ended. -/
def raise (level : ℕ) (zsl : Zskiplist A S M) (found : List (Option A × ℕ)) :
    Option (Zskiplist A S M × List (Option A × ℕ)) :=
  if zsl.level < level then do
    let zsl' ← (List.range' zsl.level (level - zsl.level)).foldlM raiseLevel zsl
    return ({ zsl' with level := level }, found ++ List.replicate (level - zsl.level) (none, 0))
  else some (zsl, found)

def zslCreateNode (zsl : Zskiplist A S M) (level : ℕ) (x : A) (score : S) (obj : M) :
    Zskiplist A S M :=
  { zsl with
    nodes := Function.update zsl.nodes x
      (some ⟨obj, score, none, List.replicate level ⟨none, 0⟩⟩) }

/-- Over a level of the new node it goes in where the search ended. -/
def linkLevel (x : A) (found : List (Option A × ℕ)) (zsl : Zskiplist A S M) (i : ℕ) :
    Option (Zskiplist A S M) := do
  let bottom ← found[0]?
  let update ← found[i]?
  let link ← zsl.read update.1 i
  return (zsl.setLink (some x) i ⟨link.forward, link.span - (bottom.2 - update.2)⟩).setLink
    update.1 i ⟨some x, bottom.2 - update.2 + 1⟩

/-- A level that the new node does not reach. -/
def stretchLevel (found : List (Option A × ℕ)) (zsl : Zskiplist A S M) (i : ℕ) :
    Option (Zskiplist A S M) := do
  let update ← found[i]?
  let link ← zsl.read update.1 i
  return zsl.setLink update.1 i { link with span := link.span + 1 }

/-- The backward pointer behind a node, or the tail. -/
def setBack (zsl : Zskiplist A S M) (next : Option A) (x : Option A) : Zskiplist A S M :=
  match next with
  | some y => zsl.setBackward y x
  | none => { zsl with tail := x }

/-- Over one level the node `x` is taken out where the search ended, if it is there. -/
def unlinkLevel (x : A) (found : List (Option A × ℕ)) (zsl : Zskiplist A S M) (i : ℕ) :
    Option (Zskiplist A S M) := do
  let update ← found[i]?
  let link ← zsl.read update.1 i
  if link.forward = some x then
    let xlink ← zsl.read (some x) i
    return zsl.setLink update.1 i ⟨xlink.forward, link.span + xlink.span - 1⟩
  else return zsl.setLink update.1 i { link with span := link.span - 1 }

omit [DecidableEq A] in
/-- `while(zsl->level > 1 && zsl->header->level[zsl->level-1].forward == NULL) zsl->level--;` -/
def lowered (zsl : Zskiplist A S M) : ℕ → Option ℕ
  | 0 => some 0
  | level + 1 =>
    if 0 < level then do
      let link ← zsl.read none level
      if link.forward = none then lowered zsl level else return level + 1
    else some (level + 1)

def zslDeleteNode (zsl : Zskiplist A S M) (x : A) (found : List (Option A × ℕ)) :
    Option (Zskiplist A S M) := do
  let zsl ← (List.range zsl.level).foldlM (unlinkLevel x found) zsl
  let link ← zsl.read (some x) 0
  let node ← zsl.nodes x
  let zsl := zsl.setBack link.forward node.backward
  let level ← zsl.lowered zsl.level
  return { zsl with level := level, length := zsl.length - 1 }

def zslFreeNode (zsl : Zskiplist A S M) (x : A) : Zskiplist A S M :=
  { zsl with nodes := Function.update zsl.nodes x none }

variable [LinearOrder S] [LinearOrder M]

def zslInsert (level : ℕ) (x : A) (score : S) (obj : M) (zsl : Zskiplist A S M) :
    Option (Zskiplist A S M) := do
  let found ← zsl.search fun node _ => decide (Passes score obj node.entry)
  let (zsl, found) ← zsl.raise level found
  let zsl := zsl.zslCreateNode level x score obj
  let zsl ← (List.range level).foldlM (linkLevel x found) zsl
  let zsl ← (List.range' level (zsl.level - level)).foldlM (stretchLevel found) zsl
  let bottom ← found[0]?
  let zsl := zsl.setBackward x bottom.1
  let link ← zsl.read (some x) 0
  let zsl := zsl.setBack link.forward (some x)
  return { zsl with length := zsl.length + 1 }

/-- The result says whether the element was found. -/
def zslDelete (score : S) (obj : M) (zsl : Zskiplist A S M) : Option (Zskiplist A S M × Bool) := do
  let found ← zsl.search fun node _ => decide (Passes score obj node.entry)
  let bottom ← found[0]?
  let link ← zsl.read bottom.1 0
  match link.forward with
  | none => return (zsl, false)
  | some x =>
    let node ← zsl.nodes x
    if score = node.score ∧ node.obj = obj then
      let zsl ← zsl.zslDeleteNode x found
      return (zsl.zslFreeNode x, true)
    else return (zsl, false)

end Writes

/-- The entry of a node, its backward pointer and how many levels it has. -/
def info (zsl : Zskiplist A S M) (a : A) : Option (Entry S M × Option A × ℕ) :=
  (zsl.nodes a).map fun node => (node.entry, node.backward, node.level.length)

/-- All but the links. -/
structure SameFrame (zsl zsl' : Zskiplist A S M) : Prop where
  header : zsl'.header.length = zsl.header.length
  info : zsl'.info = zsl.info
  tail : zsl'.tail = zsl.tail
  length : zsl'.length = zsl.length
  level : zsl'.level = zsl.level

variable {zsl zsl' : Zskiplist A S M}

theorem SameFrame.refl (zsl : Zskiplist A S M) : SameFrame zsl zsl := ⟨rfl, rfl, rfl, rfl, rfl⟩

theorem SameFrame.trans {zsl'' : Zskiplist A S M} (h : SameFrame zsl zsl')
    (h' : SameFrame zsl' zsl'') : SameFrame zsl zsl'' where
  header := h'.header.trans h.header
  info := h'.info.trans h.info
  tail := h'.tail.trans h.tail
  length := h'.length.trans h.length
  level := h'.level.trans h.level

theorem isSome_read_none {i : ℕ} : (zsl.read none i).isSome ↔ i < zsl.header.length := by
  simp [read]

section

variable [DecidableEq A]

theorem sameFrame_setLink (zsl : Zskiplist A S M) (x : Option A) (i : ℕ) (link : Link A) :
    SameFrame zsl (zsl.setLink x i link) := by
  cases x with
  | none => exact ⟨by simp [setLink], rfl, rfl, rfl, rfl⟩
  | some a =>
    refine ⟨rfl, funext fun b => ?_, rfl, rfl, rfl⟩
    by_cases hb : b = a
    · subst hb
      cases h : zsl.nodes b <;> simp [info, setLink, h, ZskiplistNode.entry]
    · simp [info, setLink, hb]

theorem read_setLink {x : Option A} {i : ℕ} (h : (zsl.read x i).isSome) (link : Link A)
    (y : Option A) (j : ℕ) :
    (zsl.setLink x i link).read y j = if y = x ∧ j = i then some link else zsl.read y j := by
  cases x with
  | none =>
    cases y with
    | none =>
      have hi := isSome_read_none.mp h
      by_cases hj : j = i
      · subst hj
        simp [read, setLink, hi]
      · simp [read, setLink, hj, Ne.symm hj]
    | some b => simp [read, setLink]
  | some a =>
    cases y with
    | none => simp [read, setLink]
    | some b =>
      by_cases hb : b = a
      · subst hb
        cases hnode : zsl.nodes b with
        | none => simp [read, hnode] at h
        | some node =>
          simp only [read, hnode, Option.bind_some, isSome_getElem?] at h
          by_cases hj : j = i
          · subst hj
            simp [read, setLink, hnode, h]
          · simp [read, setLink, hnode, hj, Ne.symm hj]
      · simp [read, setLink, hb]

@[simp] theorem read_setBackward (zsl : Zskiplist A S M) (a : A) (x : Option A) :
    (zsl.setBackward a x).read = zsl.read := by
  funext y j
  cases y with
  | none => rfl
  | some b =>
    by_cases hb : b = a
    · subst hb
      cases h : zsl.nodes b <;> simp [read, setBackward, h]
    · simp [read, setBackward, hb]

theorem info_setBackward (zsl : Zskiplist A S M) (a : A) (x : Option A) (b : A) :
    (zsl.setBackward a x).info b =
      if b = a then (zsl.info a).map fun node => (node.1, x, node.2.2) else zsl.info b := by
  by_cases hb : b = a
  · subst hb
    cases h : zsl.nodes b <;> simp [info, setBackward, h, ZskiplistNode.entry]
  · simp [info, setBackward, hb]

end

/-- The list in memory is that of the nodes `ts`. -/
structure Represents (zsl : Zskiplist A S M) (ts : List (Tower A (Entry S M))) : Prop where
  addrs : (ts.map Tower.addr).Nodup
  header : zsl.header.length = zskiplistMaxlevel
  level_pos : 0 < zsl.level
  level_le : zsl.level ≤ zskiplistMaxlevel
  heights : ∀ t ∈ ts, 0 < t.height ∧ t.height ≤ zsl.level
  free : ∀ a, (∀ t ∈ ts, t.addr ≠ a) → zsl.info a = none
  stored : Stored zsl.info none ts
  linked : ∀ i < zsl.level, Linked zsl.read i ts
  above : ∀ i, zsl.level ≤ i → i < zskiplistMaxlevel → ∃ span, zsl.read none i = some ⟨none, span⟩
  tail : zsl.tail = lastAddr none ts
  length : zsl.length = ts.length

variable {ts front back : List (Tower A (Entry S M))}

theorem represents_zslCreate : Represents (zslCreate : Zskiplist A S M) [] where
  addrs := List.nodup_nil
  header := List.length_replicate
  level_pos := Nat.one_pos
  level_le := Nat.one_le_ofNat
  heights _ ht := absurd ht List.not_mem_nil
  free _ _ := rfl
  stored := trivial
  linked i hi := by
    refine ⟨?_, trivial⟩
    obtain rfl : i = 0 := Nat.lt_one_iff.mp hi
    rfl
  above i _ hi := ⟨0, by simp [read, zslCreate, hi]⟩
  tail := rfl
  length := rfl

theorem exists_node {prev : Option A} (h : Stored zsl.info prev ts) {t : Tower A (Entry S M)}
    (ht : t ∈ ts) : ∃ node, zsl.nodes t.addr = some node ∧ node.entry = t.val := by
  obtain ⟨back, hinfo⟩ := h.exists_of_mem ht
  obtain ⟨node, hnode, heq⟩ := Option.map_eq_some_iff.mp hinfo
  exact ⟨node, hnode, congrArg Prod.fst heq⟩

/-- A condition on entries and ranks answers for the nodes. -/
theorem answers {prev : Option A} (h : Stored zsl.info prev ts)
    {go : ZskiplistNode A S M → ℕ → Bool} {accepts : Entry S M → ℕ → Bool}
    (hgo : ∀ node rank, go node rank = accepts node.entry rank) {answer : Bool} {rank : ℕ}
    (hts : ∀ k, (hk : k < ts.length) → accepts ts[k].val (rank + k + 1) = answer) :
    Answers (fun y rank => (zsl.nodes y).map fun node => go node rank) answer rank ts := by
  induction ts generalizing prev rank with
  | nil => trivial
  | cons t ts ih =>
    obtain ⟨node, hnode, hentry⟩ := exists_node h List.mem_cons_self
    refine ⟨?_, ih h.2 fun k hk => ?_⟩
    · simp only [hnode, Option.map_some, hgo, hentry]
      exact congrArg some (hts 0 (Nat.succ_pos _))
    · have hnext := hts (k + 1) (Nat.succ_lt_succ hk)
      rwa [List.getElem_cons_succ, ← Nat.add_assoc, Nat.add_right_comm rank k 1] at hnext

/-- Where the search over each level ends when the nodes of `front` are accepted. -/
def ends (front : List (Tower A (Entry S M))) (top : ℕ) : List (Option A × ℕ) :=
  (List.range top).map fun i => lastTall i (none, 0) 0 front

theorem Represents.answers (h : Represents zsl (front ++ back))
    {go : ZskiplistNode A S M → ℕ → Bool} (accepts : Entry S M → ℕ → Bool)
    (hgo : ∀ node rank, go node rank = accepts node.entry rank)
    (hfront : ∀ k, (hk : k < front.length) → accepts front[k].val (k + 1) = true)
    (hback : ∀ k, (hk : k < back.length) →
      accepts back[k].val (front.length + k + 1) = false) :
    Answers (fun y rank => (zsl.nodes y).map fun node => go node rank) true 0 front ∧
      Answers (fun y rank => (zsl.nodes y).map fun node => go node rank) false front.length back ∧
      front.length < zsl.length + 1 := by
  obtain ⟨hstored, hstored'⟩ := stored_append.mp h.stored
  refine ⟨Zskiplist.answers hstored hgo (by simpa using hfront),
    Zskiplist.answers hstored' hgo hback, ?_⟩
  rw [h.length, List.length_append]
  omega

theorem Represents.search_eq (h : Represents zsl (front ++ back))
    {go : ZskiplistNode A S M → ℕ → Bool} (accepts : Entry S M → ℕ → Bool)
    (hgo : ∀ node rank, go node rank = accepts node.entry rank)
    (hfront : ∀ k, (hk : k < front.length) → accepts front[k].val (k + 1) = true)
    (hback : ∀ k, (hk : k < back.length) →
      accepts back[k].val (front.length + k + 1) = false) :
    zsl.search go = some (ends front zsl.level) := by
  obtain ⟨haccepted, hrejected, hfuel⟩ := h.answers accepts hgo hfront hback
  exact SkipList.search_eq (p := (none, 0)) haccepted hrejected h.linked hfuel fun i _ => .inl rfl

@[simp] theorem getElem?_ends {top i : ℕ} (h : i < top) :
    (ends front top)[i]? = some (lastTall i (none, 0) 0 front) := by
  simp [ends, h]

theorem Represents.front_ne_back (h : Represents zsl (front ++ back)) {u t : Tower A (Entry S M)}
    (hu : u ∈ front) (ht : t ∈ back) : u.addr ≠ t.addr := by
  have haddrs := h.addrs
  rw [List.map_append, List.nodup_append] at haddrs
  exact haddrs.2.2 _ (List.mem_map_of_mem hu) _ (List.mem_map_of_mem ht)

theorem Represents.ends_zero (h : Represents zsl (front ++ back)) :
    (ends front zsl.level)[0]? = some (lastAddr none front, front.length) := by
  rw [getElem?_ends h.level_pos, lastTall_zero none 0
    fun t ht => (h.heights t (List.mem_append_left back ht)).1, Nat.zero_add]

theorem Represents.read_lastAddr (h : Represents zsl (front ++ back)) :
    zsl.read (lastAddr none front) 0 = some (linkTo 0 back) := by
  have hlast := (h.linked 0 h.level_pos).read_last
  rwa [lastTall_zero none 0 fun t ht => (h.heights t (List.mem_append_left back ht)).1,
    Nat.zero_add, Nat.sub_self, Nat.zero_add] at hlast

section Insert

variable [DecidableEq A]

/-- New levels are empty, and the search over them would have ended at the header. -/
theorem Represents.raise (h : Represents zsl (front ++ back)) {level : ℕ}
    (hlevel : level ≤ zskiplistMaxlevel) :
    ∃ zsl', zsl.raise level (ends front zsl.level) = some (zsl', ends front zsl'.level) ∧
      Represents zsl' (front ++ back) ∧ level ≤ zsl'.level := by
  rw [Zskiplist.raise]
  split_ifs with hraise
  · have hlow : ∀ i, zsl.level ≤ i → ∀ t ∈ front ++ back, ¬ i < t.height := by
      intro i hi t ht
      have hheight := (h.heights t ht).2
      omega
    have hstep : ∀ s i, zsl.level ≤ i → i < zsl.level + (level - zsl.level) → SameFrame zsl s →
        (∀ y, s.read y i = zsl.read y i) → ∃ s', raiseLevel s i = some s' ∧ SameFrame zsl s' ∧
          Linked s'.read i (front ++ back) ∧ ∀ y j, j ≠ i → s'.read y j = s.read y j := by
      intro s i hi hn hframe hsame
      obtain ⟨span, hspan⟩ := h.above i hi (by omega)
      have hread : s.read none i = some ⟨none, span⟩ := (hsame none).trans hspan
      have hset := read_setLink (by rw [hread]; rfl) ⟨none, s.length⟩
      refine ⟨s.setLink none i ⟨none, s.length⟩, by simp [raiseLevel, hread],
        hframe.trans (sameFrame_setLink s none i _), ⟨?_, chained_of_low (hlow i hi)⟩, ?_⟩
      · rw [hset, if_pos ⟨rfl, rfl⟩, linkTo_of_forall_low (hlow i hi), hframe.length, h.length]
      · intro y j hj
        rw [hset, if_neg fun heq => hj heq.2]
    obtain ⟨zsl', hloop, hframe, hnew, hother⟩ := foldlM_levels read
      (fun i s s' hsame (hlinked : Linked s.read i (front ++ back)) => hlinked.of_same hsame)
      (SameFrame.refl zsl) zsl.level (level - zsl.level) hstep
    have hends : ends front zsl.level ++ List.replicate (level - zsl.level) (none, 0) =
        ends front level := by
      rw [ends, ends, ← Nat.add_sub_cancel' hraise.le, List.range_add, List.map_append,
        Nat.add_sub_cancel_left, List.map_map]
      congr 1
      refine (List.eq_replicate_iff.mpr ⟨by simp, fun p hp => ?_⟩).symm
      obtain ⟨k, -, rfl⟩ := List.mem_map.mp hp
      exact lastTall_of_low fun t ht =>
        hlow (zsl.level + k) (Nat.le_add_right _ k) t (List.mem_append_left back ht)
    refine ⟨{ zsl' with level := level }, ?_, ?_, le_rfl⟩
    · rw [hloop]
      exact congrArg some (congrArg (Prod.mk _) hends)
    · exact {
        addrs := h.addrs
        header := hframe.header.trans h.header
        level_pos := h.level_pos.trans hraise
        level_le := hlevel
        heights := fun t ht => ⟨(h.heights t ht).1, (h.heights t ht).2.trans hraise.le⟩
        free := fun a ha => (congrFun hframe.info a).trans (h.free a ha)
        stored := hframe.info ▸ h.stored
        linked := fun i (hi : i < level) => by
          rcases lt_or_ge i zsl.level with hlt | hge
          · exact (h.linked i hlt).of_same fun y => hother y i (.inl hlt)
          · exact hnew i hge (by omega)
        above := fun i (hi : level ≤ i) hmax => by
          rw [show Zskiplist.read { zsl' with level := level } none i = zsl'.read none i from rfl,
            hother none i (.inr (by omega))]
          exact h.above i (by omega) hmax
        tail := hframe.tail.trans h.tail
        length := hframe.length.trans h.length }
  · exact ⟨zsl, rfl, h, not_lt.mp hraise⟩

theorem read_zslCreateNode (zsl : Zskiplist A S M) (level : ℕ) (x : A) (score : S) (obj : M)
    (y : Option A) (i : ℕ) : (zsl.zslCreateNode level x score obj).read y i =
      if y = some x then (List.replicate level ⟨none, 0⟩)[i]? else zsl.read y i := by
  cases y with
  | none => simp [read, zslCreateNode]
  | some a =>
    by_cases ha : a = x
    · simp [read, zslCreateNode, ha]
    · simp [read, zslCreateNode, ha]

theorem info_zslCreateNode (zsl : Zskiplist A S M) (level : ℕ) (x : A) (score : S) (obj : M)
    (a : A) : (zsl.zslCreateNode level x score obj).info a =
      if a = x then some (entry score obj, none, level) else zsl.info a := by
  by_cases ha : a = x
  · simp [info, zslCreateNode, ha, ZskiplistNode.entry]
  · simp [info, zslCreateNode, ha]

/-- The pointer back to `prev`, of the first node of `back` or of the list itself, is changed. -/
theorem setBack_spec {prev : Option A} (hstored : Stored zsl.info prev back)
    (hpos : ∀ t ∈ back, 0 < t.height) (haddrs : (back.map Tower.addr).Nodup)
    (htail : zsl.tail = lastAddr prev back) (x : Option A) :
    ∃ zsl', zsl.setBack (linkTo 0 back).forward x = zsl' ∧ zsl'.read = zsl.read ∧
      zsl'.header = zsl.header ∧ zsl'.length = zsl.length ∧ zsl'.level = zsl.level ∧
      (∀ a, (∀ t ∈ back, t.addr ≠ a) → zsl'.info a = zsl.info a) ∧
      Stored zsl'.info x back ∧ zsl'.tail = lastAddr x back := by
  refine ⟨_, rfl, ?_⟩
  rw [linkTo_zero hpos]
  cases back with
  | nil => exact ⟨by funext y i; cases y <;> rfl, rfl, rfl, rfl, fun _ _ => rfl, trivial, rfl⟩
  | cons t back =>
    obtain ⟨hinfo, hback⟩ := hstored
    rw [List.map_cons, List.nodup_cons] at haddrs
    have hne : ∀ u ∈ back, u.addr ≠ t.addr := by
      intro u hu heq
      exact haddrs.1 (heq ▸ List.mem_map_of_mem hu)
    refine ⟨read_setBackward _ _ _, rfl, rfl, rfl, fun a ha => ?_, ⟨?_, ?_⟩, htail⟩
    · rw [List.head?_cons, Option.map_some, setBack, info_setBackward,
        if_neg (Ne.symm (ha t List.mem_cons_self))]
    · rw [List.head?_cons, Option.map_some, setBack, info_setBackward, if_pos rfl, hinfo]
      rfl
    · refine hback.congr fun u hu => ?_
      rw [List.head?_cons, Option.map_some, setBack, info_setBackward, if_neg (hne u hu)]

variable {x : A} {level : ℕ} {score : S} {obj : M}

/-- A node that is in no chain yet leaves the levels as they are. -/
theorem Represents.linked_create (h : Represents zsl ts) (hx : ∀ t ∈ ts, t.addr ≠ x) {i : ℕ}
    (hi : i < zsl.level) : Linked (zsl.zslCreateNode level x score obj).read i ts := by
  refine (h.linked i hi).congr ?_ fun t ht => ?_
  · rw [read_zslCreateNode, if_neg (Option.some_ne_none x).symm]
  · rw [read_zslCreateNode, if_neg fun heq => hx t ht (Option.some.inj heq)]

/-- Over its own levels the new node is linked in. -/
theorem Represents.linkLevels (h : Represents zsl (front ++ back))
    (hx : ∀ t ∈ front ++ back, t.addr ≠ x) (hle : level ≤ zsl.level)
    (hnodup : ((front ++ ⟨x, level, entry score obj⟩ :: back).map Tower.addr).Nodup) :
    ∃ s, (List.range level).foldlM (linkLevel x (ends front zsl.level))
        (zsl.zslCreateNode level x score obj) = some s ∧
      SameFrame (zsl.zslCreateNode level x score obj) s ∧
      (∀ i < level, Linked s.read i (front ++ ⟨x, level, entry score obj⟩ :: back)) ∧
      ∀ y i, level ≤ i → s.read y i = (zsl.zslCreateNode level x score obj).read y i := by
  have hstep : ∀ s i, 0 ≤ i → i < 0 + level →
      SameFrame (zsl.zslCreateNode level x score obj) s →
      (∀ y, s.read y i = (zsl.zslCreateNode level x score obj).read y i) →
      ∃ s', linkLevel x (ends front zsl.level) s i = some s' ∧
        SameFrame (zsl.zslCreateNode level x score obj) s' ∧
        Linked s'.read i (front ++ ⟨x, level, entry score obj⟩ :: back) ∧
        ∀ y j, j ≠ i → s'.read y j = s.read y j := by
    intro s i _ hi hframe hsame
    rw [Nat.zero_add] at hi
    have hlinked : Linked s.read i (front ++ back) :=
      (h.linked_create hx (by omega)).of_same hsame
    have hlast := hlinked.read_last
    have hne : (lastTall i (none, 0) 0 front).1 ≠ some x :=
      lastTall_fst_ne fun t ht => hx t (List.mem_append_left back ht)
    have hxread : s.read (some x) i = some ⟨none, 0⟩ := by
      rw [hsame, read_zslCreateNode, if_pos rfl, List.getElem?_replicate_of_lt hi]
    have hset := read_setLink (by rw [hxread]; rfl) (linkTo i back)
    have hbound : ((s.setLink (some x) i (linkTo i back)).read
        (lastTall i (none, 0) 0 front).1 i).isSome = true := by
      rw [hset, if_neg fun heq => hne heq.1, hlast]
      rfl
    have hset' := read_setLink hbound ⟨some x, front.length - (lastTall i (none, 0) 0 front).2 + 1⟩
    refine ⟨(s.setLink (some x) i (linkTo i back)).setLink (lastTall i (none, 0) 0 front).1 i
        ⟨some x, front.length - (lastTall i (none, 0) 0 front).2 + 1⟩, ?_,
      hframe.trans ((sameFrame_setLink _ _ _ _).trans (sameFrame_setLink _ _ _ _)),
      hlinked.splice ⟨fun _ => ?_, ?_⟩ ?_ ?_ hnodup, ?_⟩
    · simp [linkLevel, h.ends_zero, getElem?_ends (hi.trans_le hle), hlast]
    · rw [hset', if_neg fun heq => hne heq.1.symm, hset, if_pos ⟨rfl, rfl⟩]
    · refine hlinked.chained.append_right.congr fun t ht => ?_
      have hfront := lastTall_fst_ne (i := i) fun u hu => h.front_ne_back hu ht
      rw [hset', if_neg fun heq => hfront heq.1.symm, hset,
        if_neg fun heq => hx t (List.mem_append_right front ht) (Option.some.inj heq.1)]
    · rw [hset', if_pos ⟨rfl, rfl⟩, linkTo_of_tall hi]
    · intro y hy hlast
      rw [hset', if_neg fun heq => hlast heq.1, hset,
        if_neg fun heq => hy _ List.mem_cons_self heq.1]
    · intro y j hj
      rw [hset', if_neg fun heq => hj heq.2, hset, if_neg fun heq => hj heq.2]
  rw [List.range_eq_range']
  obtain ⟨s, hloop, hframe, hnew, hother⟩ := foldlM_levels read
    (fun i s s' hsame (hlinked : Linked s.read i _) => hlinked.of_same hsame) (SameFrame.refl _) 0
    level hstep
  exact ⟨s, hloop, hframe, fun i hi => hnew i (Nat.zero_le i) (by omega),
    fun y i hi => hother y i (.inr (by omega))⟩

/-- Over the other levels the links that go past it become longer. -/
theorem Represents.stretchLevels (h : Represents zsl (front ++ back))
    (hx : ∀ t ∈ front ++ back, t.addr ≠ x)
    (hnodup : ((front ++ ⟨x, level, entry score obj⟩ :: back).map Tower.addr).Nodup)
    {s₀ : Zskiplist A S M}
    (hsame₀ : ∀ y i, level ≤ i → s₀.read y i = (zsl.zslCreateNode level x score obj).read y i) :
    ∃ s, (List.range' level (zsl.level - level)).foldlM (stretchLevel (ends front zsl.level)) s₀ =
        some s ∧
      SameFrame s₀ s ∧
      (∀ i, level ≤ i → i < zsl.level →
        Linked s.read i (front ++ ⟨x, level, entry score obj⟩ :: back)) ∧
      ∀ y i, i < level ∨ zsl.level ≤ i → s.read y i = s₀.read y i := by
  have hstep : ∀ s i, level ≤ i → i < level + (zsl.level - level) → SameFrame s₀ s →
      (∀ y, s.read y i = s₀.read y i) →
      ∃ s', stretchLevel (ends front zsl.level) s i = some s' ∧ SameFrame s₀ s' ∧
        Linked s'.read i (front ++ ⟨x, level, entry score obj⟩ :: back) ∧
        ∀ y j, j ≠ i → s'.read y j = s.read y j := by
    intro s i hi hn hframe hsame
    have hlinked : Linked s.read i (front ++ back) :=
      (h.linked_create hx (by omega)).of_same fun y => (hsame y).trans (hsame₀ y i hi)
    have hlast := hlinked.read_last
    have hset := read_setLink (by rw [hlast]; rfl) ⟨(linkTo i back).forward,
      front.length - (lastTall i (none, 0) 0 front).2 + (linkTo i back).span + 1⟩
    have hlow : ¬ i < (⟨x, level, entry score obj⟩ : Tower A (Entry S M)).height := not_lt.mpr hi
    refine ⟨s.setLink (lastTall i (none, 0) 0 front).1 i ⟨(linkTo i back).forward,
        front.length - (lastTall i (none, 0) 0 front).2 + (linkTo i back).span + 1⟩, ?_,
      hframe.trans (sameFrame_setLink _ _ _ _),
      hlinked.splice ⟨fun htall => absurd htall hlow, ?_⟩ ?_ ?_ hnodup, ?_⟩
    · simp [stretchLevel, getElem?_ends (show i < zsl.level by omega), hlast]
    · refine hlinked.chained.append_right.congr fun t ht => ?_
      have hfront := lastTall_fst_ne (i := i) fun u hu => h.front_ne_back hu ht
      rw [hset, if_neg fun heq => hfront heq.1.symm]
    · rw [hset, if_pos ⟨rfl, rfl⟩, linkTo_of_low hlow]
      rfl
    · intro y _ hne
      rw [hset, if_neg fun heq => hne heq.1]
    · intro y j hj
      rw [hset, if_neg fun heq => hj heq.2]
  obtain ⟨s, hloop, hframe, hnew, hother⟩ := foldlM_levels read
    (fun i s s' hsame (hlinked : Linked s.read i _) => hlinked.of_same hsame) (SameFrame.refl s₀)
    level (zsl.level - level) hstep
  exact ⟨s, hloop, hframe, fun i hi hn => hnew i hi (by omega),
    fun y i hi => hother y i (by omega)⟩

/-- The new node is in the chains of all its levels. The pointers back, the tail and the length are
still those of the list without it. -/
structure LinkedIn (zsl s : Zskiplist A S M) (front back : List (Tower A (Entry S M))) (x : A)
    (level : ℕ) (score : S) (obj : M) : Prop where
  frame : SameFrame (zsl.zslCreateNode level x score obj) s
  linked : ∀ i < zsl.level, Linked s.read i (front ++ ⟨x, level, entry score obj⟩ :: back)
  above : ∀ i, zsl.level ≤ i → s.read none i = zsl.read none i

theorem Represents.linkIn (h : Represents zsl (front ++ back))
    (hx : ∀ t ∈ front ++ back, t.addr ≠ x) (hle : level ≤ zsl.level)
    (hnodup : ((front ++ ⟨x, level, entry score obj⟩ :: back).map Tower.addr).Nodup) :
    ∃ s s', (List.range level).foldlM (linkLevel x (ends front zsl.level))
        (zsl.zslCreateNode level x score obj) = some s ∧
      (List.range' level (s.level - level)).foldlM (stretchLevel (ends front zsl.level)) s =
        some s' ∧ LinkedIn zsl s' front back x level score obj := by
  obtain ⟨s, hlink, hframe, hnew, hsame⟩ := h.linkLevels hx hle hnodup
  obtain ⟨s', hstretch, hframe', hnew', hsame'⟩ := h.stretchLevels hx hnodup hsame
  have hlevel : s.level = zsl.level := hframe.level
  refine ⟨s, s', hlink, hlevel ▸ hstretch, hframe.trans hframe', fun i hi => ?_, fun i hi => ?_⟩
  · rcases lt_or_ge i level with hlt | hge
    · exact (hnew i hlt).of_same fun y => hsame' y i (.inl hlt)
    · exact hnew' i hge hi
  · rw [hsame' none i (.inr hi), hsame none i (hle.trans hi), read_zslCreateNode,
      if_neg (Option.some_ne_none x).symm]

/-- The pointers back to the new node and from it are set. -/
theorem LinkedIn.setBacks {s : Zskiplist A S M} (hs : LinkedIn zsl s front back x level score obj)
    (h : Represents zsl (front ++ back)) (hx : ∀ t ∈ front ++ back, t.addr ≠ x) :
    ∃ zsl', (s.setBackward x (lastAddr none front)).setBack (linkTo 0 back).forward (some x) =
        zsl' ∧ zsl'.read = s.read ∧ zsl'.header = s.header ∧ zsl'.length = s.length ∧
      zsl'.level = s.level ∧ (∀ a, a ≠ x → (∀ t ∈ back, t.addr ≠ a) → zsl'.info a = zsl.info a) ∧
      Stored zsl'.info none (front ++ ⟨x, level, entry score obj⟩ :: back) ∧
      zsl'.tail = lastAddr none (front ++ ⟨x, level, entry score obj⟩ :: back) := by
  have hother (a : A) (ha : a ≠ x) :
      (s.setBackward x (lastAddr none front)).info a = zsl.info a := by
    rw [info_setBackward, if_neg ha, hs.frame.info, info_zslCreateNode, if_neg ha]
  have hnew : (s.setBackward x (lastAddr none front)).info x =
      some (entry score obj, lastAddr none front, level) := by
    rw [info_setBackward, if_pos rfl, hs.frame.info, info_zslCreateNode, if_pos rfl]
    rfl
  obtain ⟨hfront, hback⟩ := stored_append.mp h.stored
  have hback' : Stored (s.setBackward x (lastAddr none front)).info (lastAddr none front) back :=
    hback.congr fun t ht => hother _ (hx t (List.mem_append_right front ht))
  have htail : (s.setBackward x (lastAddr none front)).tail =
      lastAddr (lastAddr none front) back := by
    rw [← lastAddr_append, ← h.tail]
    exact hs.frame.tail
  obtain ⟨zsl', hset, hread, hheader, hlength, hlevel, hinfo, hstored, htail'⟩ :=
    setBack_spec hback' (fun t ht => (h.heights t (List.mem_append_right front ht)).1)
      (h.addrs.sublist ((List.sublist_append_right front back).map _)) htail (some x)
  rw [read_setBackward] at hread
  have hkept (a : A) (ha : a ≠ x) (hne : ∀ t ∈ back, t.addr ≠ a) : zsl'.info a = zsl.info a :=
    (hinfo a hne).trans (hother a ha)
  refine ⟨zsl', hset, hread, hheader, hlength, hlevel, hkept,
    stored_append.mpr ⟨hfront.congr fun t ht => ?_, ?_, hstored⟩, ?_⟩
  · exact hkept _ (hx t (List.mem_append_left back ht)) fun u hu => (h.front_ne_back ht hu).symm
  · exact (hinfo x fun t ht => hx t (List.mem_append_right front ht)).trans hnew
  · rw [lastAddr_append]
    exact htail'

/-- With its pointers and the new length this is the list with the new node. -/
theorem LinkedIn.represents {s : Zskiplist A S M}
    (hs : LinkedIn zsl s front back x level score obj) (h : Represents zsl (front ++ back))
    (hpos : 0 < level) (hle : level ≤ zsl.level) (hx : ∀ t ∈ front ++ back, t.addr ≠ x)
    (hnodup : ((front ++ ⟨x, level, entry score obj⟩ :: back).map Tower.addr).Nodup) :
    ∃ zsl', (s.setBackward x (lastAddr none front)).setBack (linkTo 0 back).forward (some x) =
        zsl' ∧ Represents { zsl' with length := zsl'.length + 1 }
          (front ++ ⟨x, level, entry score obj⟩ :: back) := by
  obtain ⟨zsl', hset, hread, hheader, hlength, hlevel, hinfo, hstored, htail⟩ := hs.setBacks h hx
  have hlevel' : zsl'.level = zsl.level := hlevel.trans hs.frame.level
  have hmem {t : Tower A (Entry S M)} (ht : t ∈ front ++ back) :
      t ∈ front ++ ⟨x, level, entry score obj⟩ :: back :=
    ((List.sublist_cons_self _ back).append_left front).subset ht
  refine ⟨zsl', hset, {
    addrs := hnodup
    header := (congrArg List.length hheader).trans (hs.frame.header.trans h.header)
    level_pos := hlevel' ▸ h.level_pos
    level_le := hlevel'.le.trans h.level_le
    heights := ?_
    free := fun a ha => ?_
    stored := hstored
    linked := fun i hi =>
      (hs.linked i (hlevel' ▸ hi)).of_same fun y => congrFun (congrFun hread y) i
    above := fun i hi hmax => ?_
    tail := htail
    length := ?_ }⟩
  · show ∀ t ∈ front ++ ⟨x, level, entry score obj⟩ :: back, 0 < t.height ∧ t.height ≤ zsl'.level
    rw [hlevel']
    intro t ht
    rcases List.mem_cons.mp (List.perm_middle.subset ht) with rfl | ht
    · exact ⟨hpos, hle⟩
    · exact h.heights t ht
  · have hax : a ≠ x := fun heq => ha ⟨x, level, entry score obj⟩ (by simp) heq.symm
    have hfree := h.free a fun t ht => ha t (hmem ht)
    exact (hinfo a hax fun t ht => ha t (by simp [ht])).trans hfree
  · obtain ⟨span, hspan⟩ := h.above i (hlevel' ▸ hi) hmax
    have habove := (hs.above i (hlevel' ▸ hi)).trans hspan
    exact ⟨span, (congrFun (congrFun hread none) i).trans habove⟩
  · have hlen : zsl'.length = (front ++ back).length :=
      hlength.trans (hs.frame.length.trans h.length)
    simp only [hlen, List.length_append, List.length_cons]
    omega

variable [LinearOrder S] [LinearOrder M]

/-- A new node is linked in behind the nodes that the search passes, whatever its height. -/
theorem Represents.zslInsert (h : Represents zsl (front ++ back)) (hpos : 0 < level)
    (hlevel : level ≤ zskiplistMaxlevel) (hx : ∀ t ∈ front ++ back, t.addr ≠ x)
    (hfront : ∀ t ∈ front, Passes score obj t.val) (hback : ∀ t ∈ back, ¬ Passes score obj t.val) :
    ∃ zsl', zslInsert level x score obj zsl = some zsl' ∧
      Represents zsl' (front ++ ⟨x, level, entry score obj⟩ :: back) := by
  have hsearch := h.search_eq (fun e _ => decide (Passes score obj e)) (fun _ _ => rfl)
    (fun k hk => decide_eq_true (hfront _ (List.getElem_mem hk)))
    (fun k hk => decide_eq_false (hback _ (List.getElem_mem hk)))
  obtain ⟨zsl₁, hraise, h₁, hle⟩ := h.raise hlevel
  have hnodup : ((front ++ ⟨x, level, entry score obj⟩ :: back).map Tower.addr).Nodup := by
    rw [((List.perm_middle).map Tower.addr).nodup_iff, List.map_cons, List.nodup_cons]
    refine ⟨fun hmem => ?_, h.addrs⟩
    obtain ⟨t, ht, heq⟩ := List.mem_map.mp hmem
    exact hx t ht heq
  obtain ⟨s, s', hlink, hstretch, hlinked⟩ := h₁.linkIn hx hle hnodup
  obtain ⟨zsl', hbacks, h'⟩ := hlinked.represents h₁ hpos hle hx hnodup
  have hxread : s'.read (some x) 0 = some (linkTo 0 back) :=
    (hlinked.linked 0 h₁.level_pos).chained.append_right.1 hpos
  refine ⟨_, ?_, h'⟩
  simp only [Zskiplist.zslInsert, Option.bind_eq_bind, hsearch, Option.bind_some, hraise, hlink,
    hstretch, h₁.ends_zero, read_setBackward, hxread, hbacks]
  rfl

end Insert

theorem lowered_spec {n : ℕ} (hn : 0 < n) (hle : n ≤ zsl.header.length) :
    ∃ m, zsl.lowered n = some m ∧ 0 < m ∧ m ≤ n ∧
      ∀ i, m ≤ i → i < n → ∃ span, zsl.read none i = some ⟨none, span⟩ := by
  induction n with
  | zero => exact absurd hn (lt_irrefl 0)
  | succ n ih =>
    rw [lowered]
    split_ifs with hpos
    · obtain ⟨⟨forward, span⟩, hread⟩ := Option.isSome_iff_exists.mp
        (isSome_read_none.mpr (Nat.lt_of_succ_le hle))
      cases forward with
      | none =>
        obtain ⟨m, hm, hm0, hmn, hempty⟩ := ih hpos (by omega)
        refine ⟨m, by simpa [hread] using hm, hm0, by omega, fun i hi hin => ?_⟩
        rcases Nat.lt_succ_iff_lt_or_eq.mp hin with hlt | rfl
        · exact hempty i hi hlt
        · exact ⟨span, hread⟩
      | some y => exact ⟨n + 1, by simp [hread], Nat.succ_pos n, le_rfl, fun i _ _ => by omega⟩
    · exact ⟨n + 1, rfl, Nat.succ_pos n, le_rfl, fun i _ _ => by omega⟩

/-- No node reaches a level that is empty. -/
theorem height_le_of_empty {m n : ℕ} (hlinked : ∀ i < n, Linked zsl.read i ts)
    (hempty : ∀ i, m ≤ i → i < n → ∃ span, zsl.read none i = some ⟨none, span⟩)
    (hheights : ∀ u ∈ ts, u.height ≤ n) : ∀ u ∈ ts, u.height ≤ m := by
  intro u hu
  by_contra hgt
  have hn := hheights u hu
  obtain ⟨span, hspan⟩ := hempty (u.height - 1) (by omega) (by omega)
  rw [(hlinked (u.height - 1) (by omega)).head] at hspan
  have hforward := congrArg Link.forward (Option.some.inj hspan)
  exact linkTo_forward_eq_none.mp hforward u hu (by omega)

theorem Represents.addr_ne_of_middle {t : Tower A (Entry S M)}
    (h : Represents zsl (front ++ t :: back)) :
    ∀ u ∈ front ++ back, u.addr ≠ t.addr := by
  intro u hu heq
  have hnodup := ((List.perm_middle (a := t)).map Tower.addr).nodup_iff.mp h.addrs
  exact (List.nodup_cons.mp hnodup).1 (heq ▸ List.mem_map_of_mem hu)

section Delete

variable [DecidableEq A] {t : Tower A (Entry S M)}

/-- Over every level the links go past the node from then on. -/
theorem Represents.unlinkLevels (h : Represents zsl (front ++ t :: back)) {top : ℕ}
    (htop : zsl.level ≤ top) :
    ∃ s, (List.range zsl.level).foldlM (unlinkLevel t.addr (ends front top)) zsl = some s ∧
      (SameFrame zsl s ∧ ∀ i, s.read (some t.addr) i = zsl.read (some t.addr) i) ∧
      (∀ i < zsl.level, Linked s.read i (front ++ back)) ∧
      ∀ y i, zsl.level ≤ i → s.read y i = zsl.read y i := by
  have hnodup : ((front ++ back).map Tower.addr).Nodup :=
    h.addrs.sublist (((List.sublist_cons_self t back).append_left front).map _)
  have hstep : ∀ s i, 0 ≤ i → i < 0 + zsl.level →
      (SameFrame zsl s ∧ ∀ i, s.read (some t.addr) i = zsl.read (some t.addr) i) →
      (∀ y, s.read y i = zsl.read y i) →
      ∃ s', unlinkLevel t.addr (ends front top) s i = some s' ∧
        (SameFrame zsl s' ∧ ∀ i, s'.read (some t.addr) i = zsl.read (some t.addr) i) ∧
        Linked s'.read i (front ++ back) ∧ ∀ y j, j ≠ i → s'.read y j = s.read y j := by
    intro s i _ hi hkeeps hsame
    rw [Nat.zero_add] at hi
    have hlinked := (h.linked i hi).of_same hsame
    have hchain := hlinked.chained.append_right
    have hlast := hlinked.read_last
    have hne {u : Tower A (Entry S M)} (hu : u ∈ t :: back) :
        (lastTall i (none, 0) 0 front).1 ≠ some u.addr :=
      lastTall_fst_ne fun w hw => h.front_ne_back hw hu
    have hset := read_setLink (by rw [hlast]; rfl) ⟨(linkTo i back).forward,
      front.length - (lastTall i (none, 0) 0 front).2 + (linkTo i back).span⟩
    refine ⟨s.setLink (lastTall i (none, 0) 0 front).1 i ⟨(linkTo i back).forward,
        front.length - (lastTall i (none, 0) 0 front).2 + (linkTo i back).span⟩, ?_,
      ⟨hkeeps.1.trans (sameFrame_setLink _ _ _ _), fun j => ?_⟩,
      hlinked.splice ?_ ?_ (fun y _ hy => ?_) hnodup, fun y j hj => ?_⟩
    · by_cases htall : i < t.height
      · rw [linkTo_of_tall htall] at hlast
        simp [unlinkLevel, getElem?_ends (hi.trans_le htop), hlast, hchain.1 htall]
      · rw [linkTo_of_low htall] at hlast
        have hforward : (linkTo i back).forward ≠ some t.addr := by
          intro heq
          obtain ⟨u, hu, -, haddr⟩ := linkTo_forward_mem heq
          have haddrs := h.addrs
          rw [List.map_append, List.nodup_append, List.map_cons, List.nodup_cons] at haddrs
          exact haddrs.2.1.1 (haddr ▸ List.mem_map_of_mem hu)
        simp [unlinkLevel, getElem?_ends (hi.trans_le htop), hlast, hforward]
    · rw [hset, if_neg fun heq => hne List.mem_cons_self heq.1.symm, hkeeps.2]
    · refine hchain.2.congr fun u hu => ?_
      rw [hset, if_neg fun heq => hne (List.mem_cons_of_mem t hu) heq.1.symm]
    · rw [hset, if_pos ⟨rfl, rfl⟩]
    · rw [hset, if_neg fun heq => hy heq.1]
    · rw [hset, if_neg fun heq => hj heq.2]
  rw [List.range_eq_range']
  obtain ⟨s, hloop, hkeeps, hnew, hother⟩ := foldlM_levels read
    (fun i s s' hsame (hlinked : Linked s.read i _) => hlinked.of_same hsame)
    ⟨SameFrame.refl zsl, fun _ => rfl⟩ 0 zsl.level hstep
  exact ⟨s, hloop, hkeeps, fun i hi => hnew i (Nat.zero_le i) (by omega),
    fun y i hi => hother y i (.inr (by omega))⟩

theorem info_zslFreeNode (zsl : Zskiplist A S M) (x a : A) :
    (zsl.zslFreeNode x).info a = if a = x then none else zsl.info a := by
  by_cases ha : a = x
  · simp [info, zslFreeNode, ha]
  · simp [info, zslFreeNode, ha]

theorem read_zslFreeNode {x : A} {y : Option A} (hy : y ≠ some x) (i : ℕ) :
    (zsl.zslFreeNode x).read y i = zsl.read y i := by
  cases y with
  | none => rfl
  | some a =>
    have ha : a ≠ x := fun heq => hy (congrArg some heq)
    simp [read, zslFreeNode, ha]

/-- The pointer back to the node is led past it, and its memory is given back. -/
theorem Represents.setBack_past (h : Represents zsl (front ++ t :: back)) {s : Zskiplist A S M}
    (hframe : SameFrame zsl s) :
    ∃ s', s.setBack (linkTo 0 back).forward (lastAddr none front) = s' ∧ s'.read = s.read ∧
      s'.header = s.header ∧ s'.length = s.length ∧ s'.level = s.level ∧
      (∀ a, a ≠ t.addr → (∀ u ∈ back, u.addr ≠ a) →
        (s'.zslFreeNode t.addr).info a = zsl.info a) ∧
      Stored (s'.zslFreeNode t.addr).info none (front ++ back) ∧
      s'.tail = lastAddr none (front ++ back) := by
  obtain ⟨hfront, -, hback⟩ := stored_append.mp h.stored
  have hne := h.addr_ne_of_middle
  have hsublist : back.Sublist (front ++ t :: back) :=
    (List.sublist_cons_self t back).trans (List.sublist_append_right front (t :: back))
  have htail : s.tail = lastAddr (some t.addr) back :=
    hframe.tail.trans (h.tail.trans (lastAddr_append none front (t :: back)))
  rw [← hframe.info] at hback
  obtain ⟨s', hset, hread, hheader, hlength, hlevel, hinfo, hstored, htail'⟩ :=
    setBack_spec hback (fun u hu => (h.heights u (hsublist.subset hu)).1)
      (h.addrs.sublist (hsublist.map _)) htail (lastAddr none front)
  have hkept (a : A) (ha : a ≠ t.addr) (hout : ∀ u ∈ back, u.addr ≠ a) :
      (s'.zslFreeNode t.addr).info a = zsl.info a := by
    rw [info_zslFreeNode, if_neg ha, hinfo a hout, hframe.info]
  refine ⟨s', hset, hread, hheader, hlength, hlevel, hkept,
    stored_append.mpr ⟨hfront.congr fun u hu => ?_, hstored.congr fun u hu => ?_⟩, ?_⟩
  · exact hkept _ (hne u (List.mem_append_left back hu)) fun w hw =>
      (h.front_ne_back hu (List.mem_cons_of_mem t hw)).symm
  · rw [info_zslFreeNode, if_neg (hne u (List.mem_append_right front hu))]
  · rw [lastAddr_append]
    exact htail'

/-- A node is taken out, and its memory is given back. -/
theorem Represents.zslDeleteNode (h : Represents zsl (front ++ t :: back)) {top : ℕ}
    (htop : zsl.level ≤ top) :
    ∃ zsl', zsl.zslDeleteNode t.addr (ends front top) = some zsl' ∧
      Represents (zsl'.zslFreeNode t.addr) (front ++ back) ∧ zsl'.level ≤ zsl.level := by
  obtain ⟨s, hloop, ⟨hframe, hxread⟩, hlinked, hother⟩ := h.unlinkLevels htop
  obtain ⟨s', hset, hread, hheader, hlength, hlevel, hinfo, hstored, htail⟩ :=
    h.setBack_past hframe
  have hpos : 0 < t.height := (h.heights t (by simp)).1
  have hxzero : s.read (some t.addr) 0 = some (linkTo 0 back) := by
    rw [hxread, (h.linked 0 h.level_pos).chained.append_right.1 hpos]
  obtain ⟨node, hnode, hentry⟩ :=
    Option.map_eq_some_iff.mp (hframe.info ▸ (stored_append.mp h.stored).2.1)
  have hbackward : node.backward = lastAddr none front := congrArg (fun e => e.2.1) hentry
  have hlevel' : s'.level = zsl.level := hlevel.trans hframe.level
  have hheader' : s'.header.length = zskiplistMaxlevel :=
    (congrArg List.length hheader).trans (hframe.header.trans h.header)
  obtain ⟨m, hlowered, hm, hle, hempty⟩ := lowered_spec (hlevel' ▸ h.level_pos)
    (by rw [hheader', hlevel']; exact h.level_le)
  rw [hlevel'] at hle hempty
  have hread' (y : Option A) (i : ℕ) : s'.read y i = s.read y i := by rw [hread]
  have hsublist : (front ++ back).Sublist (front ++ t :: back) :=
    (List.sublist_cons_self t back).append_left front
  refine ⟨{ s' with level := m, length := s'.length - 1 }, ?_, {
    addrs := h.addrs.sublist (hsublist.map _)
    header := hheader'
    level_pos := hm
    level_le := hle.trans h.level_le
    heights := fun u hu => ⟨(h.heights u (hsublist.subset hu)).1, ?_⟩
    free := fun a ha => ?_
    stored := hstored
    linked := fun i hi => ?_
    above := fun i hi hmax => ?_
    tail := htail
    length := ?_ }, hle⟩
  · simp only [Zskiplist.zslDeleteNode, Option.bind_eq_bind, hloop, Option.bind_some, hxzero,
      hnode, hbackward, hset, hlowered]
    rfl
  · refine height_le_of_empty hlinked (fun i hi hn => ?_)
      (fun w hw => (h.heights w (hsublist.subset hw)).2) u hu
    obtain ⟨span, hspan⟩ := hempty i hi hn
    exact ⟨span, (hread' none i).symm.trans hspan⟩
  · by_cases hax : a = t.addr
    · exact (info_zslFreeNode _ _ _).trans (if_pos hax)
    · have hfree := h.free a fun u hu => by
        rcases List.mem_cons.mp (List.perm_middle.subset hu) with rfl | hu
        · exact Ne.symm hax
        · exact ha u hu
      exact (hinfo a hax fun u hu => ha u (List.mem_append_right front hu)).trans hfree
  · refine (hlinked i (lt_of_lt_of_le hi hle)).congr (hread' none i) fun u hu => ?_
    rw [read_zslFreeNode fun heq => h.addr_ne_of_middle u hu (Option.some.inj heq)]
    exact hread' (some u.addr) i
  · rcases lt_or_ge i zsl.level with hlt | hge
    · exact hempty i hi hlt
    · obtain ⟨span, hspan⟩ := h.above i hge hmax
      exact ⟨span, (hread' none i).trans ((hother none i hge).trans hspan)⟩
  · have hlen : s'.length = _ := hlength.trans (hframe.length.trans h.length)
    simp only [zslFreeNode, hlen, List.length_append, List.length_cons]
    omega

end Delete

/-- The list in memory has the entries `l`, in this order. -/
def Holds (zsl : Zskiplist A S M) (l : List (Entry S M)) : Prop :=
  ∃ ts, Represents zsl ts ∧ ts.map Tower.val = l

theorem holds_zslCreate : Holds (zslCreate : Zskiplist A S M) [] := ⟨[], represents_zslCreate, rfl⟩

theorem Represents.addr_ne (h : Represents zsl ts) {x : A} (hx : zsl.nodes x = none) :
    ∀ t ∈ ts, t.addr ≠ x := by
  rintro t ht rfl
  obtain ⟨node, hnode, -⟩ := exists_node h.stored ht
  exact absurd (hnode.symm.trans hx) (Option.some_ne_none node)

/-- Two parts of the entries are two parts of the nodes. -/
theorem Holds.split {l l' : List (Entry S M)} (h : Holds zsl (l ++ l')) :
    ∃ front back, Represents zsl (front ++ back) ∧ front.map Tower.val = l ∧
      back.map Tower.val = l' := by
  obtain ⟨ts, hts, hval⟩ := h
  obtain ⟨front, back, rfl, hfront, hback⟩ := List.map_eq_append_iff.mp hval
  exact ⟨front, back, hts, hfront, hback⟩

variable [LinearOrder S] [LinearOrder M] {score : S} {obj : M} {l : List (Entry S M)}

/-- In order, the entries that meet a condition on all up to some place are in front. -/
theorem exists_split {P : Entry S M → Prop} (hP : ∀ a b, a ≤ b → P b → P a)
    (hsorted : l.Pairwise (· ≤ ·)) :
    ∃ front back, l = front ++ back ∧ (∀ e ∈ front, P e) ∧ ∀ e ∈ back, ¬ P e := by
  induction l with
  | nil => exact ⟨[], [], rfl, by simp, by simp⟩
  | cons e l ih =>
    obtain ⟨hle, hl⟩ := List.pairwise_cons.mp hsorted
    by_cases he : P e
    · obtain ⟨front, back, rfl, hfront, hback⟩ := ih hl
      exact ⟨e :: front, back, rfl, List.forall_mem_cons.mpr ⟨he, hfront⟩, hback⟩
    · exact ⟨[], e :: l, rfl, by simp,
        List.forall_mem_cons.mpr ⟨he, fun e' he' h' => he (hP e e' (hle e' he') h')⟩⟩

theorem exists_passed_split (score : S) (obj : M) (hsorted : l.Pairwise (· ≤ ·)) :
    ∃ front back, l = front ++ back ∧ (∀ e ∈ front, Passes score obj e) ∧
      ∀ e ∈ back, ¬ Passes score obj e :=
  exists_split (fun _ _ hle hpasses => passes_iff.mpr (hle.trans_lt (passes_iff.mp hpasses)))
    hsorted

theorem zslInsert_append {front back : List (Entry S M)}
    (hfront : ∀ e ∈ front, Passes score obj e) (hback : ∀ e ∈ back, ¬ Passes score obj e) :
    Redis.zslInsert score obj (front ++ back) = front ++ entry score obj :: back := by
  induction front with
  | nil =>
    cases back with
    | nil => rfl
    | cons e back => exact if_neg (hback e List.mem_cons_self)
  | cons e front ih =>
    obtain ⟨he, hfront⟩ := List.forall_mem_cons.mp hfront
    rw [List.cons_append, Redis.zslInsert, if_pos he, ih hfront]
    rfl

theorem not_passes_self (score : S) (obj : M) : ¬ Passes score obj (entry score obj) :=
  fun h => lt_irrefl _ (passes_iff.mp h)

theorem zslDelete_append_cons {front : List (Entry S M)}
    (hfront : ∀ e ∈ front, Passes score obj e) (back : List (Entry S M)) :
    Redis.zslDelete score obj (front ++ entry score obj :: back) = some (front ++ back) := by
  induction front with
  | nil =>
    rw [List.nil_append, Redis.zslDelete, if_neg (not_passes_self score obj),
      if_pos ⟨entry_score score obj, entry_member score obj⟩]
    rfl
  | cons e front ih =>
    obtain ⟨he, hfront⟩ := List.forall_mem_cons.mp hfront
    rw [List.cons_append, Redis.zslDelete, if_pos he, ih hfront]
    rfl

theorem zslDelete_append_of_ne {front back : List (Entry S M)}
    (hfront : ∀ e ∈ front, Passes score obj e) (hback : ∀ e ∈ back, ¬ Passes score obj e)
    (hne : ∀ e ∈ back.head?, e ≠ entry score obj) :
    Redis.zslDelete score obj (front ++ back) = none := by
  induction front with
  | nil =>
    cases back with
    | nil => rfl
    | cons e back =>
      have he := hne e rfl
      rw [Ne, entry_eq, eq_comm (a := e.score)] at he
      rw [List.nil_append, Redis.zslDelete, if_neg (hback e List.mem_cons_self), if_neg he]
  | cons e front ih =>
    obtain ⟨he, hfront⟩ := List.forall_mem_cons.mp hfront
    rw [List.cons_append, Redis.zslDelete, if_pos he, ih hfront]
    rfl

/-- Where the search for an element ends, in a list in order. -/
theorem Holds.exists_search (h : Holds zsl l) (hsorted : l.Pairwise (· ≤ ·)) (score : S) (obj : M) :
    ∃ front back, Represents zsl (front ++ back) ∧ (front ++ back).map Tower.val = l ∧
      (∀ e ∈ front.map Tower.val, Passes score obj e) ∧
      (∀ e ∈ back.map Tower.val, ¬ Passes score obj e) ∧
      zsl.search (fun node _ => decide (Passes score obj node.entry)) =
        some (ends front zsl.level) ∧
      (ends front zsl.level)[0]? = some (lastAddr none front, front.length) ∧
      zsl.read (lastAddr none front) 0 = some (linkTo 0 back) := by
  obtain ⟨lfront, lback, rfl, hfront, hback⟩ := exists_passed_split score obj hsorted
  obtain ⟨front, back, hts, rfl, rfl⟩ := h.split
  have hsearch := hts.search_eq (fun e _ => decide (Passes score obj e)) (fun _ _ => rfl)
    (fun k hk => decide_eq_true (hfront _ (List.mem_map_of_mem (List.getElem_mem hk))))
    (fun k hk => decide_eq_false (hback _ (List.mem_map_of_mem (List.getElem_mem hk))))
  exact ⟨front, back, hts, List.map_append, hfront, hback, hsearch, hts.ends_zero,
    hts.read_lastAddr⟩

variable [DecidableEq A]

theorem Holds.zslInsert (h : Holds zsl l) (hsorted : l.Pairwise (· ≤ ·)) (score : S) (obj : M)
    {level : ℕ} (hpos : 0 < level) (hlevel : level ≤ zskiplistMaxlevel) {x : A}
    (hx : zsl.nodes x = none) :
    ∃ zsl', Zskiplist.zslInsert level x score obj zsl = some zsl' ∧
      Holds zsl' (Redis.zslInsert score obj l) := by
  obtain ⟨front, back, rfl, hfront, hback⟩ := exists_passed_split score obj hsorted
  obtain ⟨tfront, tback, hts, rfl, rfl⟩ := h.split
  obtain ⟨zsl', hinsert, h'⟩ := hts.zslInsert hpos hlevel (hts.addr_ne hx)
    (fun t ht => hfront _ (List.mem_map_of_mem ht)) (fun t ht => hback _ (List.mem_map_of_mem ht))
  refine ⟨zsl', hinsert, _, h', ?_⟩
  rw [zslInsert_append hfront hback, List.map_append, List.map_cons]

theorem Holds.zslDelete_of_some (h : Holds zsl l) (hsorted : l.Pairwise (· ≤ ·))
    {l' : List (Entry S M)} (hdelete : Redis.zslDelete score obj l = some l') :
    ∃ zsl', Zskiplist.zslDelete score obj zsl = some (zsl', true) ∧ Holds zsl' l' := by
  obtain ⟨front, back, hts, rfl, hfront, hback, hsearch, hzero, hread⟩ :=
    h.exists_search hsorted score obj
  rw [List.map_append] at hdelete
  cases back with
  | nil =>
    rw [zslDelete_append_of_ne hfront hback (by simp)] at hdelete
    contradiction
  | cons t back =>
    by_cases ht : t.val = entry score obj
    · rw [List.map_cons, ht, zslDelete_append_cons hfront, ← List.map_append] at hdelete
      obtain ⟨zsl', hnode, h', -⟩ := hts.zslDeleteNode le_rfl
      obtain ⟨node, hget, hentry⟩ := exists_node hts.stored (t := t) (by simp)
      obtain ⟨hscore, hobj⟩ := entry_eq.mp (hentry.trans ht)
      have htall := linkTo_of_tall (hts.heights t (by simp)).1 back
      have hfound : score = node.score ∧ node.obj = obj := ⟨hscore.symm, hobj⟩
      refine ⟨zsl'.zslFreeNode t.addr, ?_, front ++ back, h', Option.some.inj hdelete⟩
      simp only [Zskiplist.zslDelete, Option.bind_eq_bind, hsearch, Option.bind_some, hzero, hread,
        htall, hget]
      rw [if_pos hfound, hnode]
      rfl
    · rw [zslDelete_append_of_ne hfront hback (by simpa using ht)] at hdelete
      contradiction

end Zskiplist
end GridApps.Redis
