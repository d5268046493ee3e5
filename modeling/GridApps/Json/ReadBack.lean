import GridApps.Json.Scanner

/-! Printing values with a separator of a comma and a space, and when a scan reads the text
back. The text of the scalars is a parameter. -/
namespace GridApps.Json

open GridApps.Numeral

namespace Value

variable (scalarText : Scalar → Text)

mutual

def print : Value → Text
  | .scalar s => scalarText s
  | .arr xs => '[' :: printItems xs
  | .obj ms => '{' :: printMembers ms

def printItems : List Value → Text
  | [] => [']']
  | x :: xs => print x ++ printMoreItems xs

def printMoreItems : List Value → Text
  | [] => [']']
  | x :: xs => ',' :: ' ' :: (print x ++ printMoreItems xs)

def printMembers : List (CodeUnits × Value) → Text
  | [] => ['}']
  | (k, x) :: ms => scalarText (.str k) ++ ':' :: ' ' :: (print x ++ printMoreMembers ms)

def printMoreMembers : List (CodeUnits × Value) → Text
  | [] => ['}']
  | (k, x) :: ms =>
    ',' :: ' ' :: (scalarText (.str k) ++ ':' :: ' ' :: (print x ++ printMoreMembers ms))

end

end Value

namespace Value

/-- A relation between the texts of the scalars that respects the other printed characters and
putting texts together is one between the printed values. -/
theorem print_rel {R : Text → Text → Prop}
    (happend : ∀ t t' u u', R t t' → R u u' → R (t ++ u) (t' ++ u'))
    (hmark : ∀ c ∈ ['[', ']', '{', '}', ',', ':', ' '], R [c] [c]) {f g : Scalar → Text}
    {v : Value} (h : ∀ s ∈ v.scalars, R (f s) (g s)) : R (v.print f) (v.print g) := by
  have hcons : ∀ c ∈ ['[', ']', '{', '}', ',', ':', ' '], ∀ t t', R t t' → R (c :: t) (c :: t') :=
    fun c hc t t' ht => happend [c] [c] t t' (hmark c hc) ht
  induction v using Value.induct with
  | scalar s => exact h s (List.mem_singleton_self s)
  | arr xs ih =>
    rw [scalars, itemScalars_eq] at h
    have hprint : ∀ x ∈ xs, R (x.print f) (x.print g) :=
      fun x hx => ih x hx fun s hs => h s (List.mem_flatMap_of_mem hx hs)
    have hmore : ∀ ys, (∀ y ∈ ys, R (y.print f) (y.print g)) →
        R (printMoreItems f ys) (printMoreItems g ys) := by
      intro ys hys
      induction ys with
      | nil => exact hmark ']' (by simp)
      | cons y ys ihys =>
        obtain ⟨hy, hys⟩ := List.forall_mem_cons.mp hys
        have hitem := happend _ _ _ _ hy (ihys hys)
        exact hcons ',' (by simp) _ _ (hcons ' ' (by simp) _ _ hitem)
    cases xs with
    | nil => exact hcons '[' (by simp) _ _ (hmark ']' (by simp))
    | cons x xs =>
      obtain ⟨hx, hxs⟩ := List.forall_mem_cons.mp hprint
      exact hcons '[' (by simp) _ _ (happend _ _ _ _ hx (hmore xs hxs))
  | obj ms ih =>
    rw [scalars, memberScalars_eq] at h
    have hprint : ∀ m ∈ ms, R (f (.str m.1)) (g (.str m.1)) ∧ R (m.2.print f) (m.2.print g) :=
      fun m hm => ⟨h _ (List.mem_flatMap_of_mem hm List.mem_cons_self), ih m hm fun s hs =>
        h s (List.mem_flatMap_of_mem hm (List.mem_cons_of_mem _ hs))⟩
    have hmember : ∀ m ∈ ms, ∀ t t', R t t' →
        R (f (.str m.1) ++ ':' :: ' ' :: (m.2.print f ++ t))
          (g (.str m.1) ++ ':' :: ' ' :: (m.2.print g ++ t')) := by
      intro m hm t t' ht
      have hvalue := happend _ _ _ _ (hprint m hm).2 ht
      exact happend _ _ _ _ (hprint m hm).1
        (hcons ':' (by simp) _ _ (hcons ' ' (by simp) _ _ hvalue))
    have hmore : ∀ ns : Members, (∀ m ∈ ns, m ∈ ms) →
        R (printMoreMembers f ns) (printMoreMembers g ns) := by
      intro ns hns
      induction ns with
      | nil => exact hmark '}' (by simp)
      | cons m ns ihns =>
        obtain ⟨hm, hns⟩ := List.forall_mem_cons.mp hns
        exact hcons ',' (by simp) _ _ (hcons ' ' (by simp) _ _ (hmember m hm _ _ (ihns hns)))
    cases ms with
    | nil => exact hcons '{' (by simp) _ _ (hmark '}' (by simp))
    | cons m ms =>
      exact hcons '{' (by simp) _ _ (hmember m List.mem_cons_self _ _
        (hmore ms fun n hn => List.mem_cons_of_mem m hn))

theorem print_map {h : Char → Char} (hmark : ∀ c ∈ ['[', ']', '{', '}', ',', ':', ' '], h c = c)
    (f : Scalar → Text) (v : Value) :
    (v.print f).map h = v.print fun s => (f s).map h := by
  apply print_rel (R := fun t t' => t.map h = t')
  · rintro t t' u u' rfl rfl
    exact List.map_append
  · exact fun c hc => congrArg (fun d => [d]) (hmark c hc)
  · exact fun s _ => rfl

end Value

/-- Nothing follows, or what may follow a value inside an array or an object. -/
def Delimited (t : Text) : Prop := ∀ c ∈ t.head?, c = ',' ∨ c = ']' ∨ c = '}'

/-- The text does not go on as the text after a value must. -/
def Stuck (t : Text) : Prop :=
  ∃ c u, t = c :: u ∧ ¬ IsWhite c ∧ c ≠ ',' ∧ c ≠ ']' ∧ c ≠ '}'

/-- The text starts with a character that can be the first of a value. -/
def Starts (t : Text) : Prop := ∃ c u, t = c :: u ∧ ¬ IsWhite c ∧ c ≠ ']' ∧ c ≠ '}'

/-- The scanner `names` reads the texts of the scalars in `Good`, and gets stuck at those of the
scalars in `Bad`. -/
structure ReadsBack (names : Constants) (scalarText : Scalar → Text) (Good Bad : Scalar → Prop) :
    Prop where
  starts : ∀ s, Starts (scalarText s)
  good : ∀ s fuel rest, Good s → (∀ k, s ≠ .str k) → Delimited rest →
    scanOnce names (fuel + 1) (scalarText s ++ rest) = some (.scalar s, rest)
  bad : ∀ s fuel rest r, Bad s → (∀ k, s ≠ .str k) → Delimited rest →
    scanOnce names (fuel + 1) (scalarText s ++ rest) = some r → Stuck r.2
  goodString : ∀ k, Good (.str k) → ∃ body, scalarText (.str k) = '"' :: body ∧
    ∀ rest, scanString (body ++ rest) = some (k, rest)
  badString : ∀ k, Bad (.str k) →
    (∀ rest fuel, scanOnce names fuel (scalarText (.str k) ++ rest) = none) ∧
    ∀ body, scalarText (.str k) = '"' :: body → ∀ rest, scanString (body ++ rest) = none

theorem Delimited.numberEnd {t : Text} (h : Delimited t) : NumberEnd t := by
  intro c hc
  rcases h c hc with rfl | rfl | rfl <;> decide

theorem skipWhite_cons {c : Char} (hc : ¬ IsWhite c) (t : Text) : skipWhite (c :: t) = c :: t := by
  simp [skipWhite, hc]

theorem skipWhite_space (t : Text) : skipWhite (' ' :: t) = skipWhite t := by
  simp [skipWhite, IsWhite]

theorem Starts.skipWhite_append {t : Text} (h : Starts t) (u : Text) :
    skipWhite (t ++ u) = t ++ u := by
  obtain ⟨c, t, rfl, hc, -⟩ := h
  exact skipWhite_cons hc _

theorem Starts.append {t : Text} (h : Starts t) (u : Text) : Starts (t ++ u) := by
  obtain ⟨c, t, rfl, hc⟩ := h
  exact ⟨c, t ++ u, rfl, hc⟩

theorem Starts.expect_none {t : Text} (h : Starts t) :
    expect ']' (skipWhite t) = none ∧ expect '}' (skipWhite t) = none := by
  obtain ⟨c, t, rfl, hc, hbracket, hbrace⟩ := h
  rw [skipWhite_cons hc]
  simp [expect, next, hbracket, hbrace]

theorem delimited_comma (t : Text) : Delimited (',' :: t) := by
  simp [Delimited]

theorem delimited_bracket (t : Text) : Delimited (']' :: t) := by
  simp [Delimited]

theorem delimited_brace (t : Text) : Delimited ('}' :: t) := by
  simp [Delimited]

theorem Stuck.skipWhite {t : Text} (h : Stuck t) : skipWhite t = t := by
  obtain ⟨c, u, rfl, hc, -⟩ := h
  exact skipWhite_cons hc u

theorem Stuck.ne_cons {t : Text} (h : Stuck t) (u : Text) :
    t ≠ ',' :: u ∧ t ≠ ']' :: u ∧ t ≠ '}' :: u := by
  obtain ⟨c, v, rfl, -, hcomma, hbracket, hbrace⟩ := h
  simp [hcomma, hbracket, hbrace]

open Value

variable {names : Constants} {scalarText : Scalar → Text} {Good Bad : Scalar → Prop}

def AllGood (Good : Scalar → Prop) (v : Value) : Prop := ∀ s ∈ v.scalars, Good s

/-- With fuel for the text, a scan reads `v` back if its scalars are good, and else it fails or
gets stuck. -/
structure Faithful (names : Constants) (scalarText : Scalar → Text) (Good : Scalar → Prop)
    (fuel : ℕ) (v : Value) : Prop where
  reads : AllGood Good v → ∀ rest, Delimited rest → (print scalarText v ++ rest).length < fuel →
    scanOnce names fuel (print scalarText v ++ rest) = some (v, rest)
  jams : ¬ AllGood Good v → ∀ rest, Delimited rest →
    (print scalarText v ++ rest).length < fuel →
    ∀ r, scanOnce names fuel (print scalarText v ++ rest) = some r → Stuck r.2

theorem starts_print (h : ∀ s, Starts (scalarText s)) (v : Value) :
    Starts (print scalarText v) := by
  cases v with
  | scalar s => exact h s
  | arr xs => exact ⟨'[', _, rfl, by simp [IsWhite]⟩
  | obj ms => exact ⟨'{', _, rfl, by simp [IsWhite]⟩

theorem delimited_printMoreItems (scalarText : Scalar → Text) (xs : List Value) (rest : Text) :
    Delimited (printMoreItems scalarText xs ++ rest) := by
  cases xs with
  | nil => exact delimited_bracket rest
  | cons x xs => exact delimited_comma _

theorem delimited_printMoreMembers (scalarText : Scalar → Text) (ms : Members) (rest : Text) :
    Delimited (printMoreMembers scalarText ms ++ rest) := by
  cases ms with
  | nil => exact delimited_brace rest
  | cons m ms => exact delimited_comma _

theorem scanItems_of_stuck {scan : Text → Option (Value × Text)} {t : Text}
    (h : ∀ r, scan (skipWhite t) = some r → Stuck r.2) (fuel : ℕ) :
    scanItems scan fuel t = none := by
  cases fuel with
  | zero => rfl
  | succ fuel =>
    rw [Option.eq_none_iff_forall_ne_some]
    intro r hr
    obtain ⟨x, rest, hx, hnext⟩ := scanItems_succ_eq_some hr
    have hstuck := h _ hx
    rcases hnext with ⟨back, -, hback, -⟩ | ⟨back, hback, -⟩
    · exact (hstuck.ne_cons back).1 (hstuck.skipWhite ▸ hback)
    · exact (hstuck.ne_cons back).2.1 (hstuck.skipWhite ▸ hback)

theorem scanItems_step {scan : Text → Option (Value × Text)} {t rest : Text} {x : Value}
    (h : scan (skipWhite t) = some (x, rest)) (n : ℕ) :
    scanItems scan (n + 1) t = (next (skipWhite rest)).bind fun r =>
      if r.1 = ',' then (scanItems scan n r.2).map fun xs => (x :: xs.1, xs.2)
      else if r.1 = ']' then some ([x], r.2)
      else none := by
  rw [scanItems, h, Option.bind_some]

variable {fuel : ℕ} {t rest : Text} {x : Value}

/-- The text after `x` in a text whose front is `x`. -/
theorem Faithful.scan_eq (hx : Faithful names scalarText Good fuel x) (hgood : AllGood Good x)
    (ht : skipWhite t = print scalarText x ++ rest) (hrest : Delimited rest)
    (hfuel : t.length < fuel) : scanOnce names fuel (skipWhite t) = some (x, rest) := by
  have hlength := skipWhite_length t
  rw [ht] at hlength ⊢
  exact hx.reads hgood rest hrest (by omega)

theorem Faithful.stuck (hx : Faithful names scalarText Good fuel x) (hbad : ¬ AllGood Good x)
    (ht : skipWhite t = print scalarText x ++ rest) (hrest : Delimited rest)
    (hfuel : t.length < fuel) (r : Value × Text)
    (hr : scanOnce names fuel (skipWhite t) = some r) : Stuck r.2 := by
  have hlength := skipWhite_length t
  rw [ht] at hlength hr
  exact hx.jams hbad rest hrest (by omega) r hr

theorem scanItems_print (hstarts : ∀ s, Starts (scalarText s)) (x : Value) (xs : List Value)
    (h : ∀ y ∈ x :: xs, Faithful names scalarText Good fuel y) {n : ℕ} {t : Text} (rest : Text)
    (ht : skipWhite t = print scalarText x ++ (printMoreItems scalarText xs ++ rest))
    (hn : t.length < n) (hfuel : t.length < fuel) :
    ((∀ y ∈ x :: xs, AllGood Good y) →
      scanItems (scanOnce names fuel) n t = some (x :: xs, rest)) ∧
    (¬ (∀ y ∈ x :: xs, AllGood Good y) → scanItems (scanOnce names fuel) n t = none) := by
  have hdelim := delimited_printMoreItems scalarText xs rest
  have hfirst := h x List.mem_cons_self
  by_cases hx : AllGood Good x
  · obtain ⟨n, rfl⟩ : ∃ m, n = m + 1 := ⟨n - 1, by omega⟩
    have hstep := scanItems_step (hfirst.scan_eq hx ht hdelim hfuel) n
    cases xs with
    | nil =>
      refine ⟨fun _ => ?_, fun hbad => absurd (by simpa using hx) hbad⟩
      rw [hstep]
      rfl
    | cons y ys =>
      let back : Text := ' ' :: (print scalarText y ++ (printMoreItems scalarText ys ++ rest))
      have hmore : printMoreItems scalarText (y :: ys) ++ rest = ',' :: back := by
        simp [printMoreItems, back]
      have hback : skipWhite back =
          print scalarText y ++ (printMoreItems scalarText ys ++ rest) := by
        rw [skipWhite_space, (starts_print hstarts y).skipWhite_append]
      have hlength : back.length < t.length := by
        have hwhite := skipWhite_length t
        rw [ht, hmore, List.length_append, List.length_cons] at hwhite
        omega
      obtain ⟨hgood, hbad⟩ := scanItems_print hstarts y ys
        (fun z hz => h z (List.mem_cons_of_mem x hz)) (n := n) rest hback (by omega) (by omega)
      have hcomma : scanItems (scanOnce names fuel) (n + 1) t =
          (scanItems (scanOnce names fuel) n back).map fun xs => (x :: xs.1, xs.2) := by
        rw [hstep, hmore, skipWhite_cons (by simp [IsWhite])]
        rfl
      rw [hcomma]
      constructor
      · intro hall
        rw [hgood fun z hz => hall z (List.mem_cons_of_mem x hz)]
        rfl
      · intro hsome
        rw [hbad fun hall => hsome (List.forall_mem_cons.mpr ⟨hx, hall⟩)]
        rfl
  · exact ⟨fun hgood => absurd (hgood x List.mem_cons_self) hx,
      fun _ => scanItems_of_stuck (hfirst.stuck hx ht hdelim hfuel) n⟩

theorem scanMembers_key {scan : Text → Option (Value × Text)} {t₁ t₃ : Text} {k : CodeUnits}
    (hquote : skipWhite t = '"' :: t₁) (hkey : scanString t₁ = some (k, ':' :: t₃)) (n : ℕ) :
    scanMembers scan (n + 1) t = (scan (skipWhite t₃)).bind fun x =>
      (next (skipWhite x.2)).bind fun r =>
        if r.1 = ',' then (scanMembers scan n r.2).map fun ms => ((k, x.1) :: ms.1, ms.2)
        else if r.1 = '}' then some ([(k, x.1)], r.2)
        else none := by
  have hcolon : expect ':' (skipWhite (':' :: t₃)) = some t₃ := by
    rw [skipWhite_cons (by simp [IsWhite]), expect_eq_some]
  rw [scanMembers, expect_eq_some.mpr hquote, Option.bind_some, hkey, Option.bind_some, hcolon,
    Option.bind_some]

theorem scanMembers_of_stuck {scan : Text → Option (Value × Text)} {t₁ t₃ : Text} {k : CodeUnits}
    (hquote : skipWhite t = '"' :: t₁) (hkey : scanString t₁ = some (k, ':' :: t₃))
    (h : ∀ r, scan (skipWhite t₃) = some r → Stuck r.2) (n : ℕ) :
    scanMembers scan n t = none := by
  cases n with
  | zero => rfl
  | succ n =>
    rw [scanMembers_key hquote hkey, Option.bind_eq_none_iff]
    intro x hx
    have hstuck := h x hx
    rw [hstuck.skipWhite, Option.bind_eq_none_iff]
    intro r hr
    rw [next_eq_some] at hr
    have hne := hstuck.ne_cons r.2
    rw [hr] at hne
    have hcomma : r.1 ≠ ',' := fun hc => hne.1 (by rw [hc])
    have hbrace : r.1 ≠ '}' := fun hc => hne.2.2 (by rw [hc])
    rw [if_neg hcomma, if_neg hbrace]

theorem scanMembers_of_badKey (h : ReadsBack names scalarText Good Bad) {k : CodeUnits}
    (hbad : Bad (.str k)) (ht : skipWhite t = scalarText (.str k) ++ rest)
    (scan : Text → Option (Value × Text)) (n : ℕ) : scanMembers scan n t = none := by
  cases n with
  | zero => rfl
  | succ n =>
    rw [scanMembers, Option.bind_eq_none_iff]
    intro t₁ ht₁
    obtain ⟨c, body, hbody, -⟩ := h.starts (.str k)
    rw [expect_eq_some, ht, hbody, List.cons_append, List.cons_eq_cons] at ht₁
    obtain ⟨rfl, rfl⟩ := ht₁
    rw [(h.badString k hbad).2 body hbody, Option.bind_none]

def MemberGood (Good : Scalar → Prop) (m : CodeUnits × Value) : Prop :=
  Good (.str m.1) ∧ AllGood Good m.2

variable {m : CodeUnits × Value}

/-- The way to the value of a member whose key is read back. -/
theorem scanned_key (h : ReadsBack names scalarText Good Bad) (hk : Good (.str m.1))
    (ht : skipWhite t = scalarText (.str m.1) ++ ':' :: ' ' :: (print scalarText m.2 ++ rest)) :
    ∃ t₁ t₃, skipWhite t = '"' :: t₁ ∧ scanString t₁ = some (m.1, ':' :: t₃) ∧
      skipWhite t₃ = print scalarText m.2 ++ rest ∧ t₃.length < t.length := by
  obtain ⟨body, hbody, hread⟩ := h.goodString m.1 hk
  have hquote : skipWhite t = '"' :: (body ++ ':' :: ' ' :: (print scalarText m.2 ++ rest)) := by
    rw [ht, hbody, List.cons_append]
  have hvalue : skipWhite (' ' :: (print scalarText m.2 ++ rest)) =
      print scalarText m.2 ++ rest := by
    rw [skipWhite_space, (starts_print h.starts m.2).skipWhite_append]
  have hlength := skipWhite_length t
  rw [ht, List.length_append, List.length_cons] at hlength
  exact ⟨_, _, hquote, hread _, hvalue, by omega⟩

theorem scanMembers_bad (h : ReadsBack names scalarText Good Bad)
    (hm : Faithful names scalarText Good fuel m.2) (hkey : ¬ Good (.str m.1) → Bad (.str m.1))
    (hbad : ¬ MemberGood Good m)
    (ht : skipWhite t = scalarText (.str m.1) ++ ':' :: ' ' :: (print scalarText m.2 ++ rest))
    (hrest : Delimited rest) (hfuel : t.length < fuel) (n : ℕ) :
    scanMembers (scanOnce names fuel) n t = none := by
  by_cases hk : Good (.str m.1)
  · obtain ⟨t₁, t₃, hquote, hkey, hvalue, hlength⟩ := scanned_key h hk ht
    exact scanMembers_of_stuck hquote hkey
      (hm.stuck (fun hx => hbad ⟨hk, hx⟩) hvalue hrest (hlength.trans hfuel)) n
  · exact scanMembers_of_badKey h (hkey hk) ht _ n

theorem scanMembers_good (h : ReadsBack names scalarText Good Bad)
    (hm : Faithful names scalarText Good fuel m.2) (hgood : MemberGood Good m)
    (ht : skipWhite t = scalarText (.str m.1) ++ ':' :: ' ' :: (print scalarText m.2 ++ rest))
    (hrest : Delimited rest) (hfuel : t.length < fuel) (n : ℕ) :
    scanMembers (scanOnce names fuel) (n + 1) t = (next (skipWhite rest)).bind fun r =>
      if r.1 = ',' then (scanMembers (scanOnce names fuel) n r.2).map fun ms => (m :: ms.1, ms.2)
      else if r.1 = '}' then some ([m], r.2)
      else none := by
  obtain ⟨t₁, t₃, hquote, hkey, hvalue, hlength⟩ := scanned_key h hgood.1 ht
  rw [scanMembers_key hquote hkey, hm.scan_eq hgood.2 hvalue hrest (hlength.trans hfuel),
    Option.bind_some]

theorem scanMembers_print (h : ReadsBack names scalarText Good Bad) (m : CodeUnits × Value)
    (ms : Members) (hms : ∀ m' ∈ m :: ms, Faithful names scalarText Good fuel m'.2)
    (hkeys : ∀ m' ∈ m :: ms, ¬ Good (.str m'.1) → Bad (.str m'.1)) {n : ℕ} {t : Text}
    (rest : Text)
    (ht : skipWhite t = scalarText (.str m.1) ++
      ':' :: ' ' :: (print scalarText m.2 ++ (printMoreMembers scalarText ms ++ rest)))
    (hn : t.length < n) (hfuel : t.length < fuel) :
    ((∀ m' ∈ m :: ms, MemberGood Good m') →
      scanMembers (scanOnce names fuel) n t = some (m :: ms, rest)) ∧
    (¬ (∀ m' ∈ m :: ms, MemberGood Good m') →
      scanMembers (scanOnce names fuel) n t = none) := by
  have hdelim := delimited_printMoreMembers scalarText ms rest
  have hfirst := hms m List.mem_cons_self
  by_cases hm : MemberGood Good m
  · obtain ⟨n, rfl⟩ : ∃ m, n = m + 1 := ⟨n - 1, by omega⟩
    have hstep := scanMembers_good h hfirst hm ht hdelim hfuel n
    cases ms with
    | nil =>
      refine ⟨fun _ => ?_, fun hbad => absurd (by simpa using hm) hbad⟩
      rw [hstep]
      rfl
    | cons m' ms =>
      let back : Text := ' ' :: (scalarText (.str m'.1) ++
        ':' :: ' ' :: (print scalarText m'.2 ++ (printMoreMembers scalarText ms ++ rest)))
      have hmore : printMoreMembers scalarText (m' :: ms) ++ rest = ',' :: back := by
        simp [printMoreMembers, back]
      have hback : skipWhite back = scalarText (.str m'.1) ++
          ':' :: ' ' :: (print scalarText m'.2 ++ (printMoreMembers scalarText ms ++ rest)) := by
        rw [skipWhite_space, (h.starts _).skipWhite_append]
      have hlength : back.length < t.length := by
        have hwhite := skipWhite_length t
        simp only [ht, hmore, List.length_append, List.length_cons] at hwhite
        omega
      obtain ⟨hgood, hbad⟩ := scanMembers_print h m' ms
        (fun m'' hm'' => hms m'' (List.mem_cons_of_mem m hm''))
        (fun m'' hm'' => hkeys m'' (List.mem_cons_of_mem m hm'')) (n := n) rest hback (by omega)
        (by omega)
      have hcomma : scanMembers (scanOnce names fuel) (n + 1) t =
          (scanMembers (scanOnce names fuel) n back).map fun ms => (m :: ms.1, ms.2) := by
        rw [hstep, hmore, skipWhite_cons (by simp [IsWhite])]
        rfl
      rw [hcomma]
      constructor
      · intro hall
        rw [hgood fun m'' hm'' => hall m'' (List.mem_cons_of_mem m hm'')]
        rfl
      · intro hsome
        rw [hbad fun hall => hsome (List.forall_mem_cons.mpr ⟨hm, hall⟩)]
        rfl
  · exact ⟨fun hgood => absurd (hgood m List.mem_cons_self) hm,
      fun _ => scanMembers_bad h hfirst (hkeys m List.mem_cons_self) hm ht hdelim hfuel n⟩

theorem allGood_scalar (s : Scalar) : AllGood Good (.scalar s) ↔ Good s := by
  simp [AllGood, scalars]

theorem allGood_arr (xs : List Value) :
    AllGood Good (.arr xs) ↔ ∀ x ∈ xs, AllGood Good x := by
  simp only [AllGood, scalars, itemScalars_eq, List.mem_flatMap]
  constructor
  · exact fun h x hx s hs => h s ⟨x, hx, hs⟩
  · rintro h s ⟨x, hx, hs⟩
    exact h x hx s hs

theorem allGood_obj (ms : Members) : AllGood Good (.obj ms) ↔ ∀ m ∈ ms, MemberGood Good m := by
  simp only [AllGood, MemberGood, scalars, memberScalars_eq, List.mem_flatMap]
  constructor
  · intro h m hm
    exact ⟨h _ ⟨m, hm, List.mem_cons_self⟩,
      fun s hs => h s ⟨m, hm, List.mem_cons_of_mem _ hs⟩⟩
  · rintro h s ⟨m, hm, hs⟩
    rcases List.mem_cons.mp hs with rfl | hs
    · exact (h m hm).1
    · exact (h m hm).2 s hs

theorem faithful_scalar (h : ReadsBack names scalarText Good Bad) {s : Scalar}
    (hbad : ¬ Good s → Bad s) (fuel : ℕ) :
    Faithful names scalarText Good (fuel + 1) (.scalar s) := by
  by_cases hs : ∃ k, s = .str k
  · obtain ⟨k, rfl⟩ := hs
    constructor
    · intro hgood rest _ _
      obtain ⟨body, hbody, hkey⟩ := h.goodString k ((allGood_scalar _).mp hgood)
      rw [print, hbody, List.cons_append, scanOnce, if_pos rfl, hkey]
      rfl
    · intro hnot rest _ _ r hr
      rw [print, (h.badString k (hbad (mt (allGood_scalar _).mpr hnot))).1] at hr
      contradiction
  · rw [not_exists] at hs
    constructor
    · exact fun hgood rest hrest _ => h.good s fuel rest ((allGood_scalar s).mp hgood) hs hrest
    · exact fun hnot rest hrest _ r =>
        h.bad s fuel rest r (hbad (mt (allGood_scalar s).mpr hnot)) hs hrest

theorem faithful_arr (h : ReadsBack names scalarText Good Bad) {xs : List Value} {fuel : ℕ}
    (hxs : ∀ x ∈ xs, Faithful names scalarText Good fuel x) :
    Faithful names scalarText Good (fuel + 1) (.arr xs) := by
  cases xs with
  | nil =>
    constructor
    · intro _ rest _ _
      simp [print, printItems, scanOnce, skipWhite_cons, IsWhite, expect, next]
    · exact fun hbad => absurd ((allGood_arr []).mpr (by simp)) hbad
  | cons x xs =>
    have hscan : ∀ rest : Text, (print scalarText (.arr (x :: xs)) ++ rest).length < fuel + 1 →
        scanOnce names (fuel + 1) (print scalarText (.arr (x :: xs)) ++ rest) =
          (scanItems (scanOnce names fuel) fuel
            (print scalarText x ++ (printMoreItems scalarText xs ++ rest))).map
              fun r => (.arr r.1, r.2) := by
      intro rest _
      have hempty := ((starts_print h.starts x).append
        (printMoreItems scalarText xs ++ rest)).expect_none.1
      rw [print, printItems, List.cons_append, List.append_assoc, scanOnce, if_neg (by decide),
        if_pos rfl, hempty]
    have hitems : ∀ rest : Text, (print scalarText (.arr (x :: xs)) ++ rest).length < fuel + 1 →
        _ := fun rest hrest =>
      scanItems_print h.starts x xs hxs (n := fuel) rest
        ((starts_print h.starts x).skipWhite_append _) (by simpa [print, printItems] using hrest)
        (by simpa [print, printItems] using hrest)
    constructor
    · intro hgood rest _ hfuel
      rw [hscan rest hfuel, (hitems rest hfuel).1 ((allGood_arr _).mp hgood)]
      rfl
    · intro hbad rest _ hfuel r hr
      rw [hscan rest hfuel, (hitems rest hfuel).2 (mt (allGood_arr _).mpr hbad)] at hr
      contradiction

theorem faithful_obj (h : ReadsBack names scalarText Good Bad) {ms : Members} {fuel : ℕ}
    (hkeys : (ms.map Prod.fst).Nodup)
    (hms : ∀ m ∈ ms, Faithful names scalarText Good fuel m.2)
    (hbad : ∀ m ∈ ms, ¬ Good (.str m.1) → Bad (.str m.1)) :
    Faithful names scalarText Good (fuel + 1) (.obj ms) := by
  cases ms with
  | nil =>
    constructor
    · intro _ rest _ _
      simp [print, printMembers, scanOnce, skipWhite_cons, IsWhite, expect, next]
    · exact fun hbad => absurd ((allGood_obj []).mpr (by simp)) hbad
  | cons m ms =>
    have htext : ∀ rest : Text, print scalarText (.obj (m :: ms)) ++ rest =
        '{' :: (scalarText (.str m.1) ++
          ':' :: ' ' :: (print scalarText m.2 ++ (printMoreMembers scalarText ms ++ rest))) := by
      intro rest
      simp [print, printMembers]
    have hscan : ∀ rest : Text, scanOnce names (fuel + 1)
        (print scalarText (.obj (m :: ms)) ++ rest) =
          (scanMembers (scanOnce names fuel) fuel (scalarText (.str m.1) ++
            ':' :: ' ' :: (print scalarText m.2 ++ (printMoreMembers scalarText ms ++ rest)))).map
              fun r => (.obj (Members.ofPairs r.1), r.2) := by
      intro rest
      have hempty := ((h.starts (.str m.1)).append (':' :: ' ' ::
        (print scalarText m.2 ++ (printMoreMembers scalarText ms ++ rest)))).expect_none.2
      rw [htext, scanOnce, if_neg (by decide), if_neg (by decide), if_pos rfl, hempty]
    have hmembers : ∀ rest : Text,
        (print scalarText (.obj (m :: ms)) ++ rest).length < fuel + 1 → _ := fun rest hrest =>
      scanMembers_print h m ms hms hbad (n := fuel) rest ((h.starts (.str m.1)).skipWhite_append _)
        (by simpa [htext] using hrest) (by simpa [htext] using hrest)
    constructor
    · intro hgood rest _ hfuel
      rw [hscan rest, (hmembers rest hfuel).1 ((allGood_obj _).mp hgood), Option.map_some,
        Members.ofPairs_of_nodup hkeys]
    · intro hbad rest _ hfuel r hr
      rw [hscan rest, (hmembers rest hfuel).2 (mt (allGood_obj _).mpr hbad)] at hr
      contradiction

theorem faithful (h : ReadsBack names scalarText Good Bad) {v : Value} (hv : v.Distinct)
    (hbad : ∀ s ∈ v.scalars, ¬ Good s → Bad s) (fuel : ℕ) :
    Faithful names scalarText Good fuel v := by
  induction v using Value.induct generalizing fuel with
  | scalar s =>
    cases fuel with
    | zero => exact ⟨fun _ _ _ hf => absurd hf (by omega), fun _ _ _ hf => absurd hf (by omega)⟩
    | succ fuel => exact faithful_scalar h (hbad s (List.mem_singleton_self s)) fuel
  | arr xs ih =>
    rw [scalars, itemScalars_eq] at hbad
    cases fuel with
    | zero => exact ⟨fun _ _ _ hf => absurd hf (by omega), fun _ _ _ hf => absurd hf (by omega)⟩
    | succ fuel =>
      apply faithful_arr h
      intro x hx
      exact ih x hx (hv.item hx) (fun s hs => hbad s (List.mem_flatMap_of_mem hx hs)) fuel
  | obj ms ih =>
    rw [scalars, memberScalars_eq] at hbad
    cases fuel with
    | zero => exact ⟨fun _ _ _ hf => absurd hf (by omega), fun _ _ _ hf => absurd hf (by omega)⟩
    | succ fuel =>
      apply faithful_obj h hv.keys
      · intro m hm
        exact ih m hm (hv.member hm) (fun s hs =>
          hbad s (List.mem_flatMap_of_mem hm (List.mem_cons_of_mem _ hs))) fuel
      · exact fun m hm => hbad _ (List.mem_flatMap_of_mem hm List.mem_cons_self)

theorem loads_print (h : ReadsBack names scalarText Good Bad) {v : Value} (hv : v.Distinct)
    (hgood : AllGood Good v) : loads names (print scalarText v) = some v := by
  have hread := (faithful h hv (fun s hs hnot => absurd (hgood s hs) hnot) _).reads hgood []
    (by simp [Delimited]) (Nat.lt_succ_self _)
  have hwhite := (starts_print h.starts v).skipWhite_append []
  rw [List.append_nil] at hread hwhite
  rw [loads, hwhite, hread]
  rfl

theorem loads_print_eq_none (h : ReadsBack names scalarText Good Bad) {v : Value}
    (hv : v.Distinct) (hbad : ∀ s ∈ v.scalars, ¬ Good s → Bad s) (hnot : ¬ AllGood Good v) :
    loads names (print scalarText v) = none := by
  have hstuck := (faithful h hv hbad _).jams hnot [] (by simp [Delimited]) (Nat.lt_succ_self _)
  have hwhite := (starts_print h.starts v).skipWhite_append []
  rw [List.append_nil] at hstuck hwhite
  rw [loads, hwhite, Option.bind_eq_none_iff]
  intro r hr
  have hrest := hstuck r hr
  rw [if_neg]
  rw [hrest.skipWhite]
  obtain ⟨c, u, hcu, -⟩ := hrest
  simp [hcu]

end GridApps.Json
