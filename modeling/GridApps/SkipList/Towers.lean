import Mathlib.Data.List.Nodup
import Mathlib.Tactic

/-! Skip lists in memory. Every level is a chain of links through the nodes that reach it, and
each link knows how many nodes it goes forward by. -/
namespace GridApps.SkipList

variable {A α : Type*}

/-- A node in the order of the list: where it is, how many levels it has and what it holds. -/
structure Tower (A α : Type*) where
  addr : A
  height : ℕ
  val : α

structure Link (A : Type*) where
  forward : Option A
  span : ℕ
  deriving DecidableEq, Repr

/-- The links of the nodes, and under `none` those of the header. A read out of bounds gives
`none`. -/
abbrev Memory (A : Type*) := Option A → ℕ → Option (Link A)

/-- The link over level `i` from right in front of `ts`. Without a node to go to it still counts
the nodes. -/
def linkTo (i : ℕ) : List (Tower A α) → Link A
  | [] => ⟨none, 0⟩
  | t :: ts =>
    if i < t.height then ⟨some t.addr, 1⟩
    else ⟨(linkTo i ts).forward, (linkTo i ts).span + 1⟩

/-- Over level `i` the nodes of `ts` have the right links. -/
def Chained (read : Memory A) (i : ℕ) : List (Tower A α) → Prop
  | [] => True
  | t :: ts => (i < t.height → read (some t.addr) i = some (linkTo i ts)) ∧ Chained read i ts

structure Linked (read : Memory A) (i : ℕ) (ts : List (Tower A α)) : Prop where
  head : read none i = some (linkTo i ts)
  chained : Chained read i ts

/-- Follow the links over level `i` while `go` accepts the next node and its rank. `none` is a bad
access, or too little fuel. -/
def walk (read : Memory A) (go : A → ℕ → Option Bool) (i : ℕ) :
    ℕ → Option A → ℕ → Option (Option A × ℕ)
  | 0, _, _ => none
  | fuel + 1, x, rank =>
    (read x i).bind fun link =>
      match link.forward with
      | none => some (x, rank)
      | some y => (go y (rank + link.span)).bind fun accepted =>
          if accepted then walk read go i fuel (some y) (rank + link.span) else some (x, rank)

/-- Walk over the levels below `i`, from the highest one down; where each walk ends the next one
begins. The ends are listed from level 0 on. -/
def search (read : Memory A) (go : A → ℕ → Option Bool) (fuel : ℕ) :
    ℕ → Option A → ℕ → Option (List (Option A × ℕ))
  | 0, _, _ => some []
  | i + 1, x, rank =>
    (walk read go i fuel x rank).bind fun p =>
      (search read go fuel i p.1 p.2).map fun ends => ends ++ [p]

/-- As `search`, but it is over at the first end that `stop` accepts. -/
def descend (read : Memory A) (go : A → ℕ → Option Bool) (stop : Option A × ℕ → Option Bool)
    (fuel : ℕ) : ℕ → Option A × ℕ → Option (Option (Option A × ℕ))
  | 0, _ => some none
  | i + 1, p =>
    (walk read go i fuel p.1 p.2).bind fun p =>
      (stop p).bind fun stopped =>
        if stopped then some (some p) else descend read go stop fuel i p

/-- The last node of `ts` that reaches level `i`, with its rank, or else `best`. In front of `ts`
there are `rank` nodes. -/
def lastTall (i : ℕ) : Option A × ℕ → ℕ → List (Tower A α) → Option A × ℕ
  | best, _, [] => best
  | best, rank, t :: ts =>
    lastTall i (if i < t.height then (some t.addr, rank + 1) else best) (rank + 1) ts

/-- The answer of `go` for each of the nodes, the first of which has rank `rank + 1`. -/
def Answers (go : A → ℕ → Option Bool) (answer : Bool) : ℕ → List (Tower A α) → Prop
  | _, [] => True
  | rank, t :: ts => go t.addr (rank + 1) = some answer ∧ Answers go answer (rank + 1) ts

variable {read : Memory A} {go : A → ℕ → Option Bool} {i rank : ℕ}

theorem linkTo_of_tall {t : Tower A α} (h : i < t.height) (ts : List (Tower A α)) :
    linkTo i (t :: ts) = ⟨some t.addr, 1⟩ := by
  rw [linkTo, if_pos h]

theorem linkTo_of_low {t : Tower A α} (h : ¬ i < t.height) (ts : List (Tower A α)) :
    linkTo i (t :: ts) = ⟨(linkTo i ts).forward, (linkTo i ts).span + 1⟩ := by
  rw [linkTo, if_neg h]

theorem Chained.append_right {front back : List (Tower A α)} (h : Chained read i (front ++ back)) :
    Chained read i back := by
  induction front with
  | nil => exact h
  | cons t front ih => exact ih h.2

theorem Answers.append_right {answer : Bool} {front back : List (Tower A α)}
    (h : Answers go answer rank (front ++ back)) :
    Answers go answer (rank + front.length) back := by
  induction front generalizing rank with
  | nil => exact h
  | cons t front ih =>
    rw [List.length_cons, ← Nat.add_assoc, Nat.add_right_comm]
    exact ih h.2

/-- The node that a link leads to is answered as all of them are. -/
theorem Answers.linkTo {answer : Bool} {ts : List (Tower A α)} (h : Answers go answer rank ts)
    {y : A} (hy : (linkTo i ts).forward = some y) :
    go y (rank + (SkipList.linkTo i ts).span) = some answer := by
  induction ts generalizing rank with
  | nil => cases hy
  | cons t ts ih =>
    by_cases htall : i < t.height
    · rw [linkTo_of_tall htall] at hy ⊢
      obtain rfl := Option.some.inj hy
      exact h.1
    · rw [linkTo_of_low htall] at hy ⊢
      have hgo := ih h.2 hy
      rwa [show rank + ((SkipList.linkTo i ts).span + 1) = rank + 1 + (SkipList.linkTo i ts).span
        by omega]

/-- A walk goes to the last accepted node of its level. -/
theorem walk_eq {front back : List (Tower A α)} (hfront : Answers go true rank front)
    (hback : Answers go false (rank + front.length) back)
    (hchain : Chained read i (front ++ back)) {x : Option A} {r fuel : ℕ} (hr : r ≤ rank)
    (hx : read x i = some ⟨(linkTo i (front ++ back)).forward,
      rank - r + (linkTo i (front ++ back)).span⟩)
    (hfuel : front.length < fuel) :
    walk read go i fuel x r = some (lastTall i (x, r) rank front) := by
  induction front generalizing rank x r fuel with
  | nil =>
    obtain ⟨fuel, rfl⟩ : ∃ n, fuel = n + 1 := ⟨fuel - 1, by simp at hfuel; omega⟩
    rw [walk, hx, Option.bind_some, lastTall]
    cases hnext : (linkTo i ([] ++ back)).forward with
    | none => rfl
    | some y =>
      have hgo := hback.linkTo hnext
      rw [List.length_nil, Nat.add_zero, List.nil_append] at *
      simp only
      rw [show r + (rank - r + (linkTo i back).span) = rank + (linkTo i back).span by omega, hgo]
      rfl
  | cons t front ih =>
    obtain ⟨hgo, hfront⟩ := hfront
    obtain ⟨hlink, hchain⟩ := hchain
    rw [List.length_cons] at hfuel hback
    rw [show rank + (front.length + 1) = rank + 1 + front.length by omega] at hback
    rw [lastTall]
    rw [List.cons_append] at hx
    by_cases htall : i < t.height
    · obtain ⟨fuel, rfl⟩ : ∃ n, fuel = n + 1 := ⟨fuel - 1, by omega⟩
      rw [linkTo_of_tall htall] at hx
      rw [walk, hx, Option.bind_some, if_pos htall]
      simp only
      rw [show r + (rank - r + 1) = rank + 1 by omega, hgo, Option.bind_some, if_pos rfl]
      apply ih hfront hback hchain le_rfl _ (by omega)
      rw [hlink htall, Nat.sub_self, Nat.zero_add]
      rfl
    · rw [linkTo_of_low htall] at hx
      rw [if_neg htall]
      apply ih hfront hback hchain (by omega) _ (by omega)
      have hspan : rank - r + ((linkTo i (front ++ back)).span + 1) =
          rank + 1 - r + (linkTo i (front ++ back)).span := by omega
      rw [hx, hspan]

theorem lastTall_append (i : ℕ) (best : Option A × ℕ) (rank : ℕ) (front back : List (Tower A α)) :
    lastTall i best rank (front ++ back) =
      lastTall i (lastTall i best rank front) (rank + front.length) back := by
  induction front generalizing best rank with
  | nil => rfl
  | cons t front ih =>
    rw [List.cons_append, lastTall, ih, lastTall, List.length_cons]
    congr 1
    omega

/-- Either no node reaches the level, or the last one that does is found. -/
theorem lastTall_cases (i : ℕ) (best : Option A × ℕ) (rank : ℕ) (ts : List (Tower A α)) :
    lastTall i best rank ts = best ∨ ∃ front t back, ts = front ++ t :: back ∧ i < t.height ∧
      lastTall i best rank ts = (some t.addr, rank + front.length + 1) := by
  induction ts generalizing best rank with
  | nil => exact .inl rfl
  | cons t ts ih =>
    rw [lastTall]
    rcases ih (if i < t.height then (some t.addr, rank + 1) else best) (rank + 1) with
      hbest | ⟨front, u, back, rfl, htall, hlast⟩
    · by_cases htall : i < t.height
      · rw [if_pos htall] at hbest ⊢
        exact .inr ⟨[], t, ts, rfl, htall, hbest⟩
      · rw [if_neg htall] at hbest ⊢
        exact .inl hbest
    · refine .inr ⟨t :: front, u, back, rfl, htall, ?_⟩
      rw [hlast, List.length_cons]
      congr 1
      omega

/-- The end of a walk over a level above `i` is a place to go on from over level `i`. -/
def Anchor (i : ℕ) (front : List (Tower A α)) (p : Option A × ℕ) : Prop :=
  p = (none, 0) ∨ ∃ before t after, front = before ++ t :: after ∧ i < t.height ∧
    p = (some t.addr, before.length + 1)

theorem anchor_lastTall {j : ℕ} (h : j ≤ i) (front : List (Tower A α)) :
    Anchor j front (lastTall i (none, 0) 0 front) := by
  rcases lastTall_cases i (none, 0) 0 front with hbest | ⟨before, t, after, rfl, htall, hlast⟩
  · exact .inl hbest
  · refine .inr ⟨before, t, after, rfl, by omega, ?_⟩
    rw [hlast, Nat.zero_add]

theorem walk_of_anchor {front back : List (Tower A α)} (hfront : Answers go true 0 front)
    (hback : Answers go false front.length back) (hlinked : Linked read i (front ++ back))
    {p : Option A × ℕ} (hp : Anchor i front p) {fuel : ℕ} (hfuel : front.length < fuel) :
    walk read go i fuel p.1 p.2 = some (lastTall i (none, 0) 0 front) := by
  rcases hp with rfl | ⟨before, t, after, rfl, htall, rfl⟩
  · refine walk_eq hfront (by rwa [Nat.zero_add]) hlinked.chained le_rfl ?_ hfuel
    rw [hlinked.head, Nat.sub_zero, Nat.zero_add]
  · have hchain := (List.append_assoc before (t :: after) back ▸ hlinked.chained).append_right
    rw [List.append_cons, lastTall_append]
    rw [List.append_cons] at hfront hback
    have hlast : lastTall i (none, 0) 0 (before ++ [t]) = (some t.addr, before.length + 1) := by
      rw [lastTall_append, lastTall, lastTall, if_pos htall, Nat.zero_add]
    rw [hlast]
    have hafter := hfront.append_right
    rw [List.length_append, List.length_singleton, Nat.zero_add] at hafter ⊢
    refine walk_eq hafter ?_ hchain.2 le_rfl ?_ ?_
    · rwa [List.length_append, List.length_append, List.length_singleton] at hback
    · rw [hchain.1 htall, Nat.sub_self, Nat.zero_add]
      rfl
    · rw [List.length_append, List.length_cons] at hfuel
      omega

/-- On each level the search ends at the last accepted node. -/
theorem search_eq {front back : List (Tower A α)} (hfront : Answers go true 0 front)
    (hback : Answers go false front.length back) {top : ℕ}
    (hlinked : ∀ i < top, Linked read i (front ++ back)) {fuel : ℕ} (hfuel : front.length < fuel)
    {p : Option A × ℕ} (hp : ∀ i < top, Anchor i front p) :
    search read go fuel top p.1 p.2 =
      some ((List.range top).map fun i => lastTall i (none, 0) 0 front) := by
  induction top generalizing p with
  | zero => rfl
  | succ i ih =>
    have hwalk := walk_of_anchor hfront hback (hlinked i (Nat.lt_succ_self i))
      (hp i (Nat.lt_succ_self i)) hfuel
    have hbelow := ih (fun j hj => hlinked j (by omega))
      (p := lastTall i (none, 0) 0 front) fun j hj => anchor_lastTall hj.le front
    rw [search, hwalk, Option.bind_some, hbelow, Option.map_some, List.range_succ, List.map_append]
    rfl

theorem descend_eq {front back : List (Tower A α)} (hfront : Answers go true 0 front)
    (hback : Answers go false front.length back) {top : ℕ}
    (hlinked : ∀ i < top, Linked read i (front ++ back)) {fuel : ℕ} (hfuel : front.length < fuel)
    {stop : Option A × ℕ → Option Bool} (holds : Option A × ℕ → Bool)
    (hstop : ∀ i < top, stop (lastTall i (none, 0) 0 front) =
      some (holds (lastTall i (none, 0) 0 front)))
    {p : Option A × ℕ} (hp : ∀ i < top, Anchor i front p) :
    descend read go stop fuel top p =
      some (((List.range top).reverse.map fun i => lastTall i (none, 0) 0 front).find? holds) := by
  induction top generalizing p with
  | zero => rfl
  | succ i ih =>
    have hwalk := walk_of_anchor hfront hback (hlinked i (Nat.lt_succ_self i))
      (hp i (Nat.lt_succ_self i)) hfuel
    rw [descend, hwalk, Option.bind_some, hstop i (Nat.lt_succ_self i), Option.bind_some,
      List.range_succ, List.reverse_concat, List.map_cons, List.find?_cons]
    cases holds (lastTall i (none, 0) 0 front) with
    | true => rfl
    | false =>
      exact ih (fun j hj => hlinked j (by omega)) (fun j hj => hstop j (by omega))
        fun j hj => anchor_lastTall hj.le front

theorem descend_eq_none {front back : List (Tower A α)} (hfront : Answers go true 0 front)
    (hback : Answers go false front.length back) {top : ℕ}
    (hlinked : ∀ i < top, Linked read i (front ++ back)) {fuel : ℕ} (hfuel : front.length < fuel)
    {stop : Option A × ℕ → Option Bool}
    (hstop : ∀ i < top, stop (lastTall i (none, 0) 0 front) = some false) :
    descend read go stop fuel top (none, 0) = some none := by
  rw [descend_eq hfront hback hlinked hfuel (fun _ => false) hstop fun i _ => .inl rfl]
  simp

/-- When only one of the places is accepted, and the bottom level ends there. -/
theorem descend_eq_some {front back : List (Tower A α)} (hfront : Answers go true 0 front)
    (hback : Answers go false front.length back) {top : ℕ} (htop : 0 < top)
    (hlinked : ∀ i < top, Linked read i (front ++ back)) {fuel : ℕ} (hfuel : front.length < fuel)
    {stop : Option A × ℕ → Option Bool} (holds : Option A × ℕ → Bool)
    (hstop : ∀ i < top, stop (lastTall i (none, 0) 0 front) =
      some (holds (lastTall i (none, 0) 0 front)))
    (hbottom : holds (lastTall 0 (none, 0) 0 front) = true)
    (honly : ∀ i < top, holds (lastTall i (none, 0) 0 front) = true →
      lastTall i (none, 0) 0 front = lastTall 0 (none, 0) 0 front) :
    descend read go stop fuel top (none, 0) = some (some (lastTall 0 (none, 0) 0 front)) := by
  rw [descend_eq hfront hback hlinked hfuel holds hstop fun i _ => .inl rfl]
  cases hfind :
      ((List.range top).reverse.map fun i => lastTall i (none, 0) 0 front).find? holds with
  | none =>
    refine absurd hbottom (List.find?_eq_none.mp hfind _ ?_)
    exact List.mem_map.mpr ⟨0, by simpa using htop, rfl⟩
  | some p =>
    obtain ⟨i, hi, rfl⟩ := List.mem_map.mp (List.mem_of_find?_eq_some hfind)
    rw [honly i (by simpa using hi) (List.find?_some hfind)]

theorem lastTall_fst_mem (i : ℕ) (best : Option A × ℕ) (rank : ℕ) (ts : List (Tower A α)) :
    (lastTall i best rank ts).1 = best.1 ∨
      (lastTall i best rank ts).1 ∈ ts.map fun t => some t.addr := by
  rcases lastTall_cases i best rank ts with hbest | ⟨front, t, back, rfl, -, hlast⟩
  · exact .inl (congrArg Prod.fst hbest)
  · rw [hlast]
    exact .inr (by simp)

theorem Chained.congr {read' : Memory A} {ts : List (Tower A α)} (h : Chained read i ts)
    (hsame : ∀ t ∈ ts, read' (some t.addr) i = read (some t.addr) i) : Chained read' i ts := by
  induction ts with
  | nil => trivial
  | cons t ts ih =>
    refine ⟨fun htall => ?_, ih h.2 fun u hu => hsame u (List.mem_cons_of_mem t hu)⟩
    rw [hsame t List.mem_cons_self, h.1 htall]

/-- What the link at the end of a search is. -/
theorem read_lastTall {front back : List (Tower A α)} (hchain : Chained read i (front ++ back))
    {x : Option A} {r : ℕ} (hr : r ≤ rank)
    (hx : read x i = some ⟨(linkTo i (front ++ back)).forward,
      rank - r + (linkTo i (front ++ back)).span⟩) :
    read (lastTall i (x, r) rank front).1 i = some ⟨(linkTo i back).forward,
      rank + front.length - (lastTall i (x, r) rank front).2 + (linkTo i back).span⟩ := by
  induction front generalizing rank x r with
  | nil => exact hx
  | cons t front ih =>
    obtain ⟨hlink, hchain⟩ := hchain
    rw [List.cons_append] at hx
    rw [lastTall, List.length_cons, ← Nat.add_assoc, Nat.add_right_comm]
    by_cases htall : i < t.height
    · rw [if_pos htall]
      apply ih hchain le_rfl
      rw [hlink htall, Nat.sub_self, Nat.zero_add]
      rfl
    · rw [if_neg htall]
      apply ih hchain (by omega)
      rw [linkTo_of_low htall] at hx
      have hspan : rank - r + ((linkTo i (front ++ back)).span + 1) =
          rank + 1 - r + (linkTo i (front ++ back)).span := by omega
      rw [hx, hspan]

theorem Linked.read_last {front back : List (Tower A α)} (h : Linked read i (front ++ back)) :
    read (lastTall i (none, 0) 0 front).1 i = some ⟨(linkTo i back).forward,
      front.length - (lastTall i (none, 0) 0 front).2 + (linkTo i back).span⟩ := by
  have hread := read_lastTall h.chained (x := none) (le_refl 0) (by
    rw [h.head, Nat.sub_self, Nat.zero_add])
  rwa [Nat.zero_add] at hread

variable {read' : Memory A}

/-- Only the link at the end of the search depends on what follows. -/
theorem chained_splice {front back back' : List (Tower A α)}
    (hchain : Chained read i (front ++ back)) (hback : Chained read' i back') {x : Option A}
    {r : ℕ} (hr : r ≤ rank)
    (hx : read x i = some ⟨(linkTo i (front ++ back)).forward,
      rank - r + (linkTo i (front ++ back)).span⟩)
    (hlast : read' (lastTall i (x, r) rank front).1 i = some ⟨(linkTo i back').forward,
      rank + front.length - (lastTall i (x, r) rank front).2 + (linkTo i back').span⟩)
    (hsame : ∀ y ∈ x :: front.map (fun t => some t.addr),
      y ≠ (lastTall i (x, r) rank front).1 → read' y i = read y i)
    (hnodup : (x :: front.map (fun t => some t.addr)).Nodup) :
    read' x i = some ⟨(linkTo i (front ++ back')).forward,
      rank - r + (linkTo i (front ++ back')).span⟩ ∧ Chained read' i (front ++ back') := by
  induction front generalizing rank x r with
  | nil => exact ⟨hlast, hback⟩
  | cons t front ih =>
    obtain ⟨hlink, hchain⟩ := hchain
    rw [List.cons_append] at hx
    rw [List.map_cons] at hsame hnodup
    rw [lastTall, List.length_cons, ← Nat.add_assoc, Nat.add_right_comm] at hlast
    rw [lastTall] at hsame
    by_cases htall : i < t.height
    · rw [if_pos htall] at hlast hsame
      have ht : read (some t.addr) i = some ⟨(linkTo i (front ++ back)).forward,
          rank + 1 - (rank + 1) + (linkTo i (front ++ back)).span⟩ := by
        rw [hlink htall, Nat.sub_self, Nat.zero_add]
        rfl
      obtain ⟨hread, hrest⟩ := ih hchain le_rfl ht hlast
        (fun y hy => hsame y (List.mem_cons_of_mem x hy)) hnodup.of_cons
      have hne : x ≠ (lastTall i (some t.addr, rank + 1) (rank + 1) front).1 := by
        rintro rfl
        refine (List.nodup_cons.mp hnodup).1 ?_
        rcases lastTall_fst_mem i (some t.addr, rank + 1) (rank + 1) front with heq | hmem
        · rw [heq]
          exact List.mem_cons_self
        · exact List.mem_cons_of_mem _ hmem
      refine ⟨?_, fun _ => ?_, hrest⟩
      · rw [hsame x List.mem_cons_self hne, hx, List.cons_append, linkTo_of_tall htall,
          linkTo_of_tall htall]
      · rw [hread, Nat.sub_self, Nat.zero_add]
        rfl
    · rw [if_neg htall] at hlast hsame
      rw [linkTo_of_low htall] at hx
      have hsublist : (x :: front.map fun u => some u.addr).Sublist
          (x :: some t.addr :: front.map fun u => some u.addr) :=
        (List.sublist_cons_self _ _).cons_cons x
      have hspan (n : ℕ) : rank - r + (n + 1) = rank + 1 - r + n := by omega
      obtain ⟨hread, hrest⟩ := ih hchain (by omega) (by rw [hx, hspan]) hlast
        (fun y hy => hsame y (hsublist.subset hy)) (hnodup.sublist hsublist)
      refine ⟨?_, fun h => absurd h htall, hrest⟩
      rw [hread, List.cons_append, linkTo_of_low htall, hspan]

theorem Linked.splice {front back back' : List (Tower A α)} (h : Linked read i (front ++ back))
    (hback : Chained read' i back')
    (hlast : read' (lastTall i (none, 0) 0 front).1 i = some ⟨(linkTo i back').forward,
      front.length - (lastTall i (none, 0) 0 front).2 + (linkTo i back').span⟩)
    (hsame : ∀ y, (∀ t ∈ back', y ≠ some t.addr) →
      y ≠ (lastTall i (none, 0) 0 front).1 → read' y i = read y i)
    (hnodup : ((front ++ back').map Tower.addr).Nodup) : Linked read' i (front ++ back') := by
  rw [List.map_append, List.nodup_append] at hnodup
  obtain ⟨hfront, -, hdisjoint⟩ := hnodup
  have hmap : (front.map fun t => some t.addr).Nodup := by
    rw [show (front.map fun t => some t.addr) = (front.map Tower.addr).map some by simp]
    exact hfront.map (Option.some_injective A)
  have hhead : read none i = some ⟨(linkTo i (front ++ back)).forward,
      0 - 0 + (linkTo i (front ++ back)).span⟩ := by
    rw [h.head, Nat.sub_self, Nat.zero_add]
  have houtside : ∀ y ∈ none :: front.map (fun t => some t.addr), ∀ t ∈ back', y ≠ some t.addr := by
    rintro y hy t ht rfl
    obtain ⟨u, hu, heq⟩ : ∃ u ∈ front, u.addr = t.addr := by simpa using hy
    exact hdisjoint _ (List.mem_map_of_mem hu) _ (List.mem_map_of_mem ht) heq
  obtain ⟨hread, hchain⟩ := chained_splice h.chained hback le_rfl hhead (by rwa [Nat.zero_add])
    (fun y hy => hsame y (houtside y hy)) (List.nodup_cons.mpr ⟨by simp, hmap⟩)
  refine ⟨?_, hchain⟩
  rw [hread, Nat.sub_self, Nat.zero_add]

theorem Linked.congr {ts : List (Tower A α)} (h : Linked read i ts)
    (hhead : read' none i = read none i)
    (hsame : ∀ t ∈ ts, read' (some t.addr) i = read (some t.addr) i) : Linked read' i ts :=
  ⟨hhead.trans h.head, h.chained.congr hsame⟩

theorem Linked.of_same {ts : List (Tower A α)} (h : Linked read i ts)
    (hsame : ∀ y, read' y i = read y i) : Linked read' i ts :=
  h.congr (hsame none) fun t _ => hsame (some t.addr)

/-- A level that no node reaches. -/
theorem chained_of_low {ts : List (Tower A α)} (h : ∀ t ∈ ts, ¬ i < t.height) :
    Chained read i ts := by
  induction ts with
  | nil => trivial
  | cons t ts ih =>
    obtain ⟨ht, hts⟩ := List.forall_mem_cons.mp h
    exact ⟨fun htall => absurd htall ht, ih hts⟩

theorem linkTo_of_forall_low {ts : List (Tower A α)} (h : ∀ t ∈ ts, ¬ i < t.height) :
    linkTo i ts = ⟨none, ts.length⟩ := by
  induction ts with
  | nil => rfl
  | cons t ts ih =>
    obtain ⟨ht, hts⟩ := List.forall_mem_cons.mp h
    rw [linkTo_of_low ht, ih hts]
    rfl

theorem lastTall_of_low {best : Option A × ℕ} {ts : List (Tower A α)}
    (h : ∀ t ∈ ts, ¬ i < t.height) : lastTall i best rank ts = best := by
  rcases lastTall_cases i best rank ts with hbest | ⟨front, t, back, rfl, htall, -⟩
  · exact hbest
  · exact absurd htall (h t (by simp))

theorem linkTo_zero {ts : List (Tower A α)} (h : ∀ t ∈ ts, 0 < t.height) :
    (linkTo 0 ts).forward = ts.head?.map Tower.addr := by
  cases ts with
  | nil => rfl
  | cons t ts => exact congrArg Link.forward (linkTo_of_tall (h t List.mem_cons_self) ts)

theorem linkTo_forward_mem {ts : List (Tower A α)} {a : A} (h : (linkTo i ts).forward = some a) :
    ∃ t ∈ ts, i < t.height ∧ t.addr = a := by
  induction ts with
  | nil => cases h
  | cons t ts ih =>
    by_cases htall : i < t.height
    · rw [linkTo_of_tall htall] at h
      exact ⟨t, List.mem_cons_self, htall, Option.some.inj h⟩
    · rw [linkTo_of_low htall] at h
      obtain ⟨u, hu, hux⟩ := ih h
      exact ⟨u, List.mem_cons_of_mem t hu, hux⟩

theorem linkTo_forward_eq_none {ts : List (Tower A α)} :
    (linkTo i ts).forward = none ↔ ∀ t ∈ ts, ¬ i < t.height := by
  induction ts with
  | nil => simp [linkTo]
  | cons t ts ih =>
    by_cases htall : i < t.height
    · simp [linkTo_of_tall htall, htall]
    · rw [linkTo_of_low htall, List.forall_mem_cons, ih, and_iff_right htall]

/-- A search does not end at a node that is not in front. -/
theorem lastTall_fst_ne {front : List (Tower A α)} {a : A} (h : ∀ t ∈ front, t.addr ≠ a) :
    (lastTall i (none, 0) 0 front).1 ≠ some a := by
  rcases lastTall_fst_mem i (none, 0) 0 front with hnone | hmem
  · rw [hnone]
    exact (Option.some_ne_none a).symm
  · intro heq
    obtain ⟨t, ht, haddr⟩ := List.mem_map.mp hmem
    exact h t ht (Option.some.inj (haddr.trans heq))

/-- The address of the last node, or else `prev`. -/
def lastAddr : Option A → List (Tower A α) → Option A
  | prev, [] => prev
  | _, t :: ts => lastAddr (some t.addr) ts

/-- Every node is in memory with its value, the address of the node in front of it and its height;
in front of the first one is `prev`. -/
def Stored (info : A → Option (α × Option A × ℕ)) : Option A → List (Tower A α) → Prop
  | _, [] => True
  | prev, t :: ts => info t.addr = some (t.val, prev, t.height) ∧ Stored info (some t.addr) ts

theorem lastAddr_append (prev : Option A) (front back : List (Tower A α)) :
    lastAddr prev (front ++ back) = lastAddr (lastAddr prev front) back := by
  induction front generalizing prev with
  | nil => rfl
  | cons t front ih => exact ih _

theorem lastAddr_eq (prev : Option A) (ts : List (Tower A α)) :
    lastAddr prev ts = (ts.getLast?.map Tower.addr).or prev := by
  induction ts generalizing prev with
  | nil => rfl
  | cons t ts ih =>
    rw [lastAddr, ih, List.getLast?_cons]
    cases ts.getLast? <;> rfl

/-- Over the bottom level a search ends right in front of what is not accepted. -/
theorem lastTall_zero (prev : Option A) (rank : ℕ) {ts : List (Tower A α)}
    (h : ∀ t ∈ ts, 0 < t.height) :
    lastTall 0 (prev, rank) rank ts = (lastAddr prev ts, rank + ts.length) := by
  induction ts generalizing prev rank with
  | nil => rfl
  | cons t ts ih =>
    obtain ⟨ht, hts⟩ := List.forall_mem_cons.mp h
    rw [lastTall, if_pos ht, ih _ _ hts, lastAddr, List.length_cons]
    congr 1
    omega

theorem lastTall_snd_le (i : ℕ) (ts : List (Tower A α)) :
    (lastTall i (none, 0) 0 ts).2 ≤ ts.length := by
  rcases lastTall_cases i (none, 0) 0 ts with hbest | ⟨front, t, back, rfl, -, hlast⟩
  · rw [hbest]
    exact Nat.zero_le _
  · rw [hlast, List.length_append, List.length_cons]
    simp only
    omega

/-- A search that ends at the last node does so with its rank. -/
theorem lastTall_eq_of_last {ts : List (Tower A α)} (hpos : ∀ t ∈ ts, 0 < t.height)
    (hnodup : (ts.map Tower.addr).Nodup) {p : Option A × ℕ} (hp : p = lastTall i (none, 0) 0 ts)
    (hlast : p.1 = lastAddr none ts ∨ p.2 = ts.length) : p = lastTall 0 (none, 0) 0 ts := by
  rw [lastTall_zero none 0 hpos, Nat.zero_add]
  rcases lastTall_cases i (none, 0) 0 ts with hbest | ⟨front, t, back, rfl, -, htall⟩
  · rw [hbest] at hp
    subst hp
    cases ts with
    | nil => rfl
    | cons t ts =>
      rw [lastAddr_eq, List.getLast?_cons] at hlast
      simp at hlast
  · rw [htall, Nat.zero_add] at hp
    subst hp
    cases back using List.reverseRecOn with
    | nil => rw [lastAddr_append, List.length_append]; rfl
    | append_singleton back u =>
      rw [← List.cons_append, ← List.append_assoc, lastAddr_append, List.length_append] at hlast
      simp only [lastAddr, Option.some_inj, List.length_append, List.length_cons] at hlast
      rcases hlast with haddr | hrank
      · rw [List.map_append, List.nodup_append, List.map_cons, List.nodup_cons] at hnodup
        exact absurd (by simp [haddr]) hnodup.2.1.1
      · omega

variable {info info' : A → Option (α × Option A × ℕ)}

theorem stored_append {prev : Option A} {front back : List (Tower A α)} :
    Stored info prev (front ++ back) ↔
      Stored info prev front ∧ Stored info (lastAddr prev front) back := by
  induction front generalizing prev with
  | nil => simp [Stored, lastAddr]
  | cons t front ih => rw [List.cons_append, Stored, Stored, ih, lastAddr, and_assoc]

theorem Stored.congr {prev : Option A} {ts : List (Tower A α)} (h : Stored info prev ts)
    (hsame : ∀ t ∈ ts, info' t.addr = info t.addr) : Stored info' prev ts := by
  induction ts generalizing prev with
  | nil => trivial
  | cons t ts ih =>
    exact ⟨(hsame t List.mem_cons_self).trans h.1,
      ih h.2 fun u hu => hsame u (List.mem_cons_of_mem t hu)⟩

theorem Stored.exists_of_mem {prev : Option A} {ts : List (Tower A α)} (h : Stored info prev ts)
    {t : Tower A α} (ht : t ∈ ts) : ∃ back, info t.addr = some (t.val, back, t.height) := by
  induction ts generalizing prev with
  | nil => exact absurd ht List.not_mem_nil
  | cons u ts ih =>
    rcases List.mem_cons.mp ht with rfl | ht
    · exact ⟨prev, h.1⟩
    · exact ih h.2 ht

/-- A loop each turn of which settles one level, and leaves the other ones alone, settles all of
them. `Keeps` holds between the turns. -/
theorem foldlM_levels {σ : Type*} (mem : σ → Memory A) {f : σ → ℕ → Option σ} {Keeps : σ → Prop}
    {Done : ℕ → σ → Prop}
    (hdone : ∀ i s s', (∀ y, mem s' y i = mem s y i) → Done i s → Done i s')
    {s₀ : σ} (h₀ : Keeps s₀) (start n : ℕ)
    (hstep : ∀ s i, start ≤ i → i < start + n → Keeps s → (∀ y, mem s y i = mem s₀ y i) →
      ∃ s', f s i = some s' ∧ Keeps s' ∧ Done i s' ∧ ∀ y j, j ≠ i → mem s' y j = mem s y j) :
    ∃ s', (List.range' start n).foldlM f s₀ = some s' ∧ Keeps s' ∧
      (∀ i, start ≤ i → i < start + n → Done i s') ∧
      ∀ y j, j < start ∨ start + n ≤ j → mem s' y j = mem s₀ y j := by
  induction n generalizing start s₀ with
  | zero => exact ⟨s₀, rfl, h₀, fun i _ _ => by omega, fun _ _ _ => rfl⟩
  | succ n ih =>
    obtain ⟨s, hs, hkeeps, hdoneStart, hother⟩ :=
      hstep s₀ start le_rfl (by omega) h₀ fun _ => rfl
    obtain ⟨s', hs', hkeeps', hdone', hother'⟩ := ih hkeeps (start + 1) fun t i hi hn ht hsame =>
      hstep t i (by omega) (by omega) ht fun y => (hsame y).trans (hother y i (by omega))
    refine ⟨s', ?_, hkeeps', fun i hi hn => ?_, fun y j hj => ?_⟩
    · rw [List.range'_succ, List.foldlM_cons, hs]
      exact hs'
    · rcases Nat.eq_or_lt_of_le hi with rfl | hlt
      · exact hdone start s s' (fun y => hother' y start (.inl (by omega))) hdoneStart
      · exact hdone' i hlt (by omega)
    · rw [hother' y j (by omega), hother y j (by omega)]

end GridApps.SkipList
