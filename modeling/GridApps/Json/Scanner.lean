import GridApps.Json.Value
import GridApps.Numeral.Hex
import GridApps.Numeral.Shortest
import Mathlib.Data.List.TakeWhile

/-! A scanner for JSON texts. The named constants it knows are a parameter: the standard has
three, Python's decoder three more. -/
namespace GridApps.Json

open GridApps.Numeral

abbrev Constants := List (Text × Scalar)

/-- The names that the JSON grammar has. -/
def standard : Constants :=
  [(['n', 'u', 'l', 'l'], .null), (['t', 'r', 'u', 'e'], .bool true),
    (['f', 'a', 'l', 's', 'e'], .bool false)]

/-- The names that Python's `json.loads` accepts. -/
def python : Constants :=
  standard ++ [(['N', 'a', 'N'], .float .nan),
    (['I', 'n', 'f', 'i', 'n', 'i', 't', 'y'], .float (.infinity false)),
    (['-', 'I', 'n', 'f', 'i', 'n', 'i', 't', 'y'], .float (.infinity true))]

def IsWhite (c : Char) : Prop := c = ' ' ∨ c = '\t' ∨ c = '\n' ∨ c = '\r'

instance (c : Char) : Decidable (IsWhite c) := by
  unfold IsWhite
  infer_instance

def skipWhite (t : Text) : Text := t.dropWhile fun c => decide (IsWhite c)

def next : Text → Option (Char × Text)
  | [] => none
  | c :: t => some (c, t)

def expect (c : Char) (t : Text) : Option Text :=
  (next t).bind fun r => if r.1 = c then some r.2 else none

def unitsOfChar (c : Char) : CodeUnits :=
  if c.toNat < 0x10000 then [c.toNat.toUInt16]
  else [(0xD800 + (c.toNat - 0x10000) / 0x400).toUInt16,
    (0xDC00 + (c.toNat - 0x10000) % 0x400).toUInt16]

def hexValue (digits : List ℕ) : ℕ := digits.foldl (fun n d => 16 * n + d) 0

/-- The escapes of one letter. -/
def escapeUnit? (c : Char) : Option UInt16 :=
  if c = '"' then some 0x22
  else if c = '\\' then some 0x5C
  else if c = '/' then some 0x2F
  else if c = 'b' then some 0x08
  else if c = 'f' then some 0x0C
  else if c = 'n' then some 0x0A
  else if c = 'r' then some 0x0D
  else if c = 't' then some 0x09
  else none

/-- Where in a string the scan is: between its characters, after a backslash, or after some of
the digits of a `\\u` escape. -/
inductive StringState where
  | plain
  | escape
  | hex (digits : List ℕ)

def consUnits (us : CodeUnits) (r : CodeUnits × Text) : CodeUnits × Text := (us ++ r.1, r.2)

def scanFrom : StringState → Text → Option (CodeUnits × Text)
  | _, [] => none
  | .plain, c :: t =>
    if c = '"' then some ([], t)
    else if c = '\\' then scanFrom .escape t
    else if c.toNat < 0x20 then none
    else (scanFrom .plain t).map (consUnits (unitsOfChar c))
  | .escape, c :: t =>
    if c = 'u' then scanFrom (.hex []) t
    else (escapeUnit? c).bind fun u => (scanFrom .plain t).map (consUnits [u])
  | .hex digits, c :: t =>
    (hexDigit? c).bind fun d =>
      if digits.length = 3 then
        (scanFrom .plain t).map (consUnits [(hexValue (digits ++ [d])).toUInt16])
      else scanFrom (.hex (digits ++ [d])) t

/-- A string after its opening quote, up to and with the closing one. -/
def scanString (t : Text) : Option (CodeUnits × Text) := scanFrom .plain t

def literalScalar (l : Literal) : Scalar := if l.isInt then .int l.toInt else .float l.float

def scanScalar (names : Constants) (t : Text) : Option (Value × Text) :=
  match scanNumber t with
  | some r => some (.scalar (literalScalar r.1), r.2)
  | none => names.findSome? fun name =>
      if name.1 <+: t then some (.scalar name.2, t.drop name.1.length) else none

/-- The items of an array that is not empty, up to and with the closing bracket. -/
def scanItems (scan : Text → Option (Value × Text)) : ℕ → Text → Option (List Value × Text)
  | 0, _ => none
  | fuel + 1, t =>
    (scan (skipWhite t)).bind fun x =>
      (next (skipWhite x.2)).bind fun r =>
        if r.1 = ',' then (scanItems scan fuel r.2).map fun xs => (x.1 :: xs.1, xs.2)
        else if r.1 = ']' then some ([x.1], r.2)
        else none

/-- Likewise for the members of an object. -/
def scanMembers (scan : Text → Option (Value × Text)) : ℕ → Text → Option (Members × Text)
  | 0, _ => none
  | fuel + 1, t =>
    (expect '"' (skipWhite t)).bind fun t =>
      (scanString t).bind fun k =>
        (expect ':' (skipWhite k.2)).bind fun t =>
          (scan (skipWhite t)).bind fun x =>
            (next (skipWhite x.2)).bind fun r =>
              if r.1 = ',' then
                (scanMembers scan fuel r.2).map fun ms => ((k.1, x.1) :: ms.1, ms.2)
              else if r.1 = '}' then some ([(k.1, x.1)], r.2)
              else none

/-- The value in front of a text. -/
def scanOnce (names : Constants) : ℕ → Text → Option (Value × Text)
  | 0, _ => none
  | _ + 1, [] => none
  | fuel + 1, c :: t =>
    if c = '"' then (scanString t).map fun r => (.str r.1, r.2)
    else if c = '[' then
      match expect ']' (skipWhite t) with
      | some rest => some (.arr [], rest)
      | none => (scanItems (scanOnce names fuel) fuel t).map fun r => (.arr r.1, r.2)
    else if c = '{' then
      match expect '}' (skipWhite t) with
      | some rest => some (.obj [], rest)
      | none => (scanMembers (scanOnce names fuel) fuel t).map fun r =>
          (.obj (Members.ofPairs r.1), r.2)
    else scanScalar names (c :: t)

def loads (names : Constants) (t : Text) : Option Value :=
  (scanOnce names (t.length + 1) (skipWhite t)).bind fun r =>
    if skipWhite r.2 = [] then some r.1 else none

@[simp] theorem next_eq_some {t r : Text} {c : Char} : next t = some (c, r) ↔ t = c :: r := by
  cases t <;> simp [next]

@[simp] theorem expect_eq_some {c : Char} {t r : Text} : expect c t = some r ↔ t = c :: r := by
  cases t with
  | nil => simp [expect, next]
  | cons d t =>
    by_cases hd : d = c
    · simp [expect, next, hd]
    · simp [expect, next, hd]

/-- `r` is what is left of `t` after characters that satisfy `p`. -/
def Skips (p : Char → Prop) (t r : Text) : Prop := ∃ front, t = front ++ r ∧ ∀ c ∈ front, p c

namespace Skips

variable {p q : Char → Prop} {t u r : Text}

theorem refl (p : Char → Prop) (t : Text) : Skips p t t :=
  ⟨[], rfl, fun _ hc => absurd hc List.not_mem_nil⟩

theorem trans (htu : Skips p t u) (hur : Skips p u r) : Skips p t r := by
  obtain ⟨front, rfl, hfront⟩ := htu
  obtain ⟨back, rfl, hback⟩ := hur
  refine ⟨front ++ back, (List.append_assoc _ _ _).symm, fun c hc => ?_⟩
  exact (List.mem_append.mp hc).elim (hfront c) (hback c)

theorem mono (h : Skips p t r) (hpq : ∀ c, p c → q c) : Skips q t r := by
  obtain ⟨front, ht, hfront⟩ := h
  exact ⟨front, ht, fun c hc => hpq c (hfront c hc)⟩

theorem single {c : Char} (hc : p c) (t : Text) : Skips p (c :: t) t :=
  ⟨[c], rfl, by simpa using hc⟩

end Skips

theorem skips_skipWhite (t : Text) : Skips IsWhite t (skipWhite t) := by
  refine ⟨t.takeWhile fun c => decide (IsWhite c), List.takeWhile_append_dropWhile.symm, ?_⟩
  intro c hc
  simpa using List.mem_takeWhile_imp hc

/-- Backslashes and single quotes occur in strings only. -/
def Plain (c : Char) : Prop := c ≠ '\\' ∧ c ≠ '\''

theorem plain_of_charDigit {c : Char} {d : Fin 10} (h : charDigit? c = some d) : Plain c := by
  constructor
  · rintro rfl
    exact absurd h (by decide +revert)
  · rintro rfl
    exact absurd h (by decide +revert)

theorem IsWhite.plain {c : Char} (h : IsWhite c) : Plain c := by
  rcases h with rfl | rfl | rfl | rfl <;> simp [Plain]

theorem skips_spanDigits (t : Text) : Skips Plain t (spanDigits t).2 := by
  induction t with
  | nil => exact Skips.refl _ _
  | cons c t ih =>
    rw [spanDigits]
    cases hc : charDigit? c with
    | none => exact Skips.refl _ _
    | some d => exact (Skips.single (plain_of_charDigit hc) t).trans ih

theorem skips_scanSign (t : Text) : Skips Plain t (scanSign t).2 := by
  cases t with
  | nil => exact Skips.refl _ _
  | cons c t =>
    rw [scanSign]
    split_ifs with hc
    · exact Skips.single (by simp [Plain, hc]) t
    · exact Skips.refl _ _

theorem skips_scanInt {t : Text} {r : Digits × Text} (h : scanInt t = some r) :
    Skips Plain t r.2 := by
  cases t with
  | nil => simp [scanInt] at h
  | cons c t =>
    rw [scanInt] at h
    split_ifs at h with hc hd
    · obtain rfl := Option.some.inj h
      exact Skips.single (by simp [Plain, hc]) t
    · obtain rfl := Option.some.inj h
      exact skips_spanDigits _

theorem skips_scanFrac (t : Text) : Skips Plain t (scanFrac t).2 := by
  cases t with
  | nil => exact Skips.refl _ _
  | cons c t =>
    rw [scanFrac]
    split_ifs with hc
    · exact (Skips.single (by simp [Plain, hc.1]) t).trans (skips_spanDigits t)
    · exact Skips.refl _ _

theorem skips_scanExpSign (t : Text) : Skips Plain t (scanExpSign t).2 := by
  cases t with
  | nil => exact Skips.refl _ _
  | cons c t =>
    rw [scanExpSign]
    split_ifs with hm hp
    · exact Skips.single (by simp [Plain, hm]) t
    · exact Skips.single (by simp [Plain, hp]) t
    · exact Skips.refl _ _

theorem skips_scanExp (t : Text) : Skips Plain t (scanExp t).2 := by
  cases t with
  | nil => exact Skips.refl _ _
  | cons c t =>
    rw [scanExp]
    split_ifs with hc
    · have hplain : Plain c := by
        rcases hc with rfl | rfl <;> simp [Plain]
      have hdigits : Skips Plain (c :: t) (spanDigits (scanExpSign t).2).2 :=
        ((Skips.single hplain t).trans (skips_scanExpSign t)).trans (skips_spanDigits _)
      dsimp only
      split_ifs
      · exact Skips.refl _ _
      · exact hdigits
      · exact hdigits
    · exact Skips.refl _ _

theorem skips_scanNumber {t : Text} {r : Literal × Text} (h : scanNumber t = some r) :
    Skips Plain t r.2 := by
  obtain ⟨int, hint, rfl⟩ := Option.map_eq_some_iff.mp h
  exact (((skips_scanSign t).trans (skips_scanInt hint)).trans (skips_scanFrac _)).trans
    (skips_scanExp _)

/-- The names are no strings, and neither are the constants. -/
def PlainNames (names : Constants) : Prop :=
  ∀ name ∈ names, (∀ c ∈ name.1, Plain c) ∧ ∀ k, name.2 ≠ .str k

theorem plainNames_python : PlainNames python := by
  simp [PlainNames, python, standard, Plain]

/-- A number is scanned, or one of the names. -/
theorem scanScalar_cases {names : Constants} {t : Text} {r : Value × Text}
    (h : scanScalar names t = some r) :
    (∃ l, scanNumber t = some l ∧ r = (.scalar (literalScalar l.1), l.2)) ∨
      ∃ name ∈ names, t = name.1 ++ r.2 ∧ r.1 = .scalar name.2 := by
  unfold scanScalar at h
  cases hn : scanNumber t with
  | some l =>
    rw [hn] at h
    exact .inl ⟨l, rfl, (Option.some.inj h).symm⟩
  | none =>
    rw [hn] at h
    obtain ⟨name, hname, hr⟩ := List.exists_of_findSome?_eq_some h
    split_ifs at hr with hfront
    obtain rfl := Option.some.inj hr
    obtain ⟨back, rfl⟩ := hfront
    exact .inr ⟨name, hname, by rw [List.drop_left], rfl⟩

theorem skips_scanScalar {names : Constants} (hnames : PlainNames names) {t : Text}
    {r : Value × Text} (h : scanScalar names t = some r) : Skips Plain t r.2 := by
  rcases scanScalar_cases h with ⟨l, hl, rfl⟩ | ⟨name, hname, htext, -⟩
  · exact skips_scanNumber hl
  · exact ⟨name.1, htext, (hnames name hname).1⟩

theorem scanItems_succ_eq_some {scan : Text → Option (Value × Text)} {fuel : ℕ} {t : Text}
    {r : List Value × Text} (h : scanItems scan (fuel + 1) t = some r) :
    ∃ x rest, scan (skipWhite t) = some (x, rest) ∧
      ((∃ back xs, skipWhite rest = ',' :: back ∧ scanItems scan fuel back = some xs ∧
          r = (x :: xs.1, xs.2)) ∨
        ∃ back, skipWhite rest = ']' :: back ∧ r = ([x], back)) := by
  rw [scanItems] at h
  obtain ⟨⟨x, rest⟩, hx, h⟩ := Option.bind_eq_some_iff.mp h
  obtain ⟨⟨c, back⟩, hc, h⟩ := Option.bind_eq_some_iff.mp h
  refine ⟨x, rest, hx, ?_⟩
  dsimp only at h hc
  rw [next_eq_some] at hc
  split_ifs at h with hcomma hclose
  · obtain ⟨xs, hxs, rfl⟩ := Option.map_eq_some_iff.mp h
    exact .inl ⟨back, xs, hcomma ▸ hc, hxs, rfl⟩
  · exact .inr ⟨back, hclose ▸ hc, (Option.some.inj h).symm⟩

theorem scanMembers_succ_eq_some {scan : Text → Option (Value × Text)} {fuel : ℕ} {t : Text}
    {r : Members × Text} (h : scanMembers scan (fuel + 1) t = some r) :
    ∃ t₁ k t₂ t₃ x rest, skipWhite t = '"' :: t₁ ∧ scanString t₁ = some (k, t₂) ∧
      skipWhite t₂ = ':' :: t₃ ∧ scan (skipWhite t₃) = some (x, rest) ∧
      ((∃ back ms, skipWhite rest = ',' :: back ∧ scanMembers scan fuel back = some ms ∧
          r = ((k, x) :: ms.1, ms.2)) ∨
        ∃ back, skipWhite rest = '}' :: back ∧ r = ([(k, x)], back)) := by
  rw [scanMembers] at h
  obtain ⟨t₁, ht₁, h⟩ := Option.bind_eq_some_iff.mp h
  obtain ⟨⟨k, t₂⟩, hk, h⟩ := Option.bind_eq_some_iff.mp h
  obtain ⟨t₃, ht₃, h⟩ := Option.bind_eq_some_iff.mp h
  obtain ⟨⟨x, rest⟩, hx, h⟩ := Option.bind_eq_some_iff.mp h
  obtain ⟨⟨c, back⟩, hc, h⟩ := Option.bind_eq_some_iff.mp h
  refine ⟨t₁, k, t₂, t₃, x, rest, expect_eq_some.mp ht₁, hk, expect_eq_some.mp ht₃, hx, ?_⟩
  dsimp only at h hc
  rw [next_eq_some] at hc
  split_ifs at h with hcomma hclose
  · obtain ⟨ms, hms, rfl⟩ := Option.map_eq_some_iff.mp h
    exact .inl ⟨back, ms, hcomma ▸ hc, hms, rfl⟩
  · exact .inr ⟨back, hclose ▸ hc, (Option.some.inj h).symm⟩

/-- `T` is kept by whatever is scanned, and every string scanned has `P`. -/
structure Tracks (T : Text → Prop) (P : CodeUnits → Prop) : Prop where
  skip : ∀ c t, T (c :: t) → Plain c → T t
  string : ∀ t r, T t → scanString t = some r → P r.1 ∧ T r.2

/-- `Q` holds of every value that a scan puts together from strings with `P`. -/
structure Builds (P : CodeUnits → Prop) (Q : Value → Prop) : Prop where
  scalar : ∀ s, (∀ k, s = .str k → P k) → Q (.scalar s)
  arr : ∀ xs, (∀ x ∈ xs, Q x) → Q (.arr xs)
  obj : ∀ ps : Members, (∀ m ∈ ps, P m.1 ∧ Q m.2) → Q (.obj (Members.ofPairs ps))

theorem scanScalar_eq_some {names : Constants} (hnames : PlainNames names) {t : Text}
    {r : Value × Text} (h : scanScalar names t = some r) :
    ∃ s, r.1 = .scalar s ∧ ∀ k, s ≠ .str k := by
  rcases scanScalar_cases h with ⟨l, -, rfl⟩ | ⟨name, hname, -, hr⟩
  · refine ⟨literalScalar l.1, rfl, fun k hk => ?_⟩
    unfold literalScalar at hk
    split_ifs at hk
  · exact ⟨name.2, hr, (hnames name hname).2⟩

namespace Tracks

variable {T : Text → Prop} {P : CodeUnits → Prop} {Q : Value → Prop}

theorem skips (hT : Tracks T P) {t r : Text} (h : Skips Plain t r) (ht : T t) : T r := by
  obtain ⟨front, rfl, hfront⟩ := h
  induction front with
  | nil => exact ht
  | cons c front ih =>
    obtain ⟨hc, hfront⟩ := List.forall_mem_cons.mp hfront
    exact ih hfront (hT.skip c _ ht hc)

theorem skipWhite (hT : Tracks T P) {t : Text} (ht : T t) : T (skipWhite t) :=
  hT.skips ((skips_skipWhite t).mono fun _ => IsWhite.plain) ht

theorem after (hT : Tracks T P) {c : Char} (hc : Plain c) {t r : Text}
    (h : Json.skipWhite t = c :: r) (ht : T t) : T r :=
  hT.skip c r (h ▸ hT.skipWhite ht) hc

theorem scanItems (hT : Tracks T P) {scan : Text → Option (Value × Text)}
    (hscan : ∀ t r, T t → scan t = some r → Q r.1 ∧ T r.2) (fuel : ℕ) {t : Text}
    (ht : T t) {r : List Value × Text} (h : scanItems scan fuel t = some r) :
    (∀ x ∈ r.1, Q x) ∧ T r.2 := by
  induction fuel generalizing t r with
  | zero => simp [Json.scanItems] at h
  | succ fuel ih =>
    obtain ⟨x, rest, hx, hnext⟩ := scanItems_succ_eq_some h
    obtain ⟨hitem, hrest⟩ := hscan _ _ (hT.skipWhite ht) hx
    rcases hnext with ⟨back, xs, hback, hxs, rfl⟩ | ⟨back, hback, rfl⟩
    · obtain ⟨htail, hend⟩ := ih (hT.after (by simp [Plain]) hback hrest) hxs
      exact ⟨List.forall_mem_cons.mpr ⟨hitem, htail⟩, hend⟩
    · exact ⟨by simpa using hitem, hT.after (by simp [Plain]) hback hrest⟩

theorem scanMembers (hT : Tracks T P) {scan : Text → Option (Value × Text)}
    (hscan : ∀ t r, T t → scan t = some r → Q r.1 ∧ T r.2) (fuel : ℕ) {t : Text}
    (ht : T t) {r : Members × Text} (h : scanMembers scan fuel t = some r) :
    (∀ m ∈ r.1, P m.1 ∧ Q m.2) ∧ T r.2 := by
  induction fuel generalizing t r with
  | zero => simp [Json.scanMembers] at h
  | succ fuel ih =>
    obtain ⟨t₁, k, t₂, t₃, x, rest, hquote, hk, hcolon, hx, hnext⟩ := scanMembers_succ_eq_some h
    obtain ⟨hkey, ht₂⟩ := hT.string _ _ (hT.after (by simp [Plain]) hquote ht) hk
    have ht₃ : T t₃ := hT.after (by simp [Plain]) hcolon ht₂
    obtain ⟨hmember, hrest⟩ := hscan _ _ (hT.skipWhite ht₃) hx
    rcases hnext with ⟨back, ms, hback, hms, rfl⟩ | ⟨back, hback, rfl⟩
    · obtain ⟨htail, hend⟩ := ih (hT.after (by simp [Plain]) hback hrest) hms
      exact ⟨List.forall_mem_cons.mpr ⟨⟨hkey, hmember⟩, htail⟩, hend⟩
    · exact ⟨by simpa using ⟨hkey, hmember⟩, hT.after (by simp [Plain]) hback hrest⟩

/-- The scan rule: from what its strings have, and from how values are put together, every
scanned value has `Q`. -/
theorem scanOnce (hT : Tracks T P) (hQ : Builds P Q) {names : Constants}
    (hnames : PlainNames names) (fuel : ℕ) {t : Text} (ht : T t) {r : Value × Text}
    (h : scanOnce names fuel t = some r) : Q r.1 ∧ T r.2 := by
  induction fuel generalizing t r with
  | zero => simp [Json.scanOnce] at h
  | succ fuel ih =>
    cases t with
    | nil => simp [Json.scanOnce] at h
    | cons c t =>
      rw [Json.scanOnce] at h
      split_ifs at h with hquote hbracket hbrace
      · obtain ⟨s, hs, rfl⟩ := Option.map_eq_some_iff.mp h
        obtain ⟨hstring, hrest⟩ := hT.string _ _ (hT.skip c t ht (by simp [Plain, hquote])) hs
        exact ⟨hQ.scalar _ fun k hk => Scalar.str.inj hk ▸ hstring, hrest⟩
      · have ht' : T t := hT.skip c t ht (by simp [Plain, hbracket])
        cases hempty : expect ']' (Json.skipWhite t) with
        | some rest =>
          rw [hempty] at h
          obtain rfl := Option.some.inj h
          have hrest := hT.after (by simp [Plain]) (expect_eq_some.mp hempty) ht'
          exact ⟨hQ.arr [] (by simp), hrest⟩
        | none =>
          rw [hempty] at h
          obtain ⟨xs, hxs, rfl⟩ := Option.map_eq_some_iff.mp h
          obtain ⟨hitems, hrest⟩ := hT.scanItems (fun _ _ ht h => ih ht h) fuel ht' hxs
          exact ⟨hQ.arr _ hitems, hrest⟩
      · have ht' : T t := hT.skip c t ht (by simp [Plain, hbrace])
        cases hempty : expect '}' (Json.skipWhite t) with
        | some rest =>
          rw [hempty] at h
          obtain rfl := Option.some.inj h
          have hrest := hT.after (by simp [Plain]) (expect_eq_some.mp hempty) ht'
          exact ⟨hQ.obj [] (by simp), hrest⟩
        | none =>
          rw [hempty] at h
          obtain ⟨ms, hms, rfl⟩ := Option.map_eq_some_iff.mp h
          obtain ⟨hmembers, hrest⟩ := hT.scanMembers (fun _ _ ht h => ih ht h) fuel ht' hms
          exact ⟨hQ.obj _ hmembers, hrest⟩
      · obtain ⟨s, hs, hne⟩ := scanScalar_eq_some hnames h
        rw [hs]
        exact ⟨hQ.scalar s fun k hk => absurd hk (hne k),
          hT.skips (skips_scanScalar hnames h) ht⟩

theorem loads (hT : Tracks T P) (hQ : Builds P Q) {names : Constants}
    (hnames : PlainNames names) {t : Text} (ht : T t) {v : Value}
    (h : loads names t = some v) : Q v := by
  obtain ⟨r, hr, hv⟩ := Option.bind_eq_some_iff.mp h
  split_ifs at hv
  obtain rfl := Option.some.inj hv
  exact (hT.scanOnce hQ hnames _ (hT.skipWhite ht) hr).1

end Tracks

/-- Every string of the value, keys included. -/
def Value.Strings (P : CodeUnits → Prop) (v : Value) : Prop := ∀ k, .str k ∈ v.scalars → P k

theorem builds_strings (P : CodeUnits → Prop) : Builds P (Value.Strings P) where
  scalar s h k hk := h k (List.mem_singleton.mp hk).symm
  arr xs h k hk := by
    rw [Value.scalars, Value.itemScalars_eq] at hk
    obtain ⟨x, hx, hk⟩ := List.mem_flatMap.mp hk
    exact h x hx k hk
  obj ps h k hk := by
    rw [Value.scalars, Value.memberScalars_eq] at hk
    obtain ⟨m, hm, hk⟩ := List.mem_flatMap.mp hk
    obtain ⟨hkey, hmember⟩ := h m (Members.mem_ofPairs hm)
    rcases List.mem_cons.mp hk with hk | hk
    · exact Scalar.str.inj hk ▸ hkey
    · exact hmember k hk

theorem builds_distinct : Builds (fun _ => True) Value.Distinct where
  scalar s _ := Value.distinct_scalar s
  arr _ h := Value.distinct_arr h
  obj ps h := Value.distinct_obj (Members.ofPairs_nodup ps) fun m hm =>
    (h m (Members.mem_ofPairs hm)).2

theorem tracks_all : Tracks (fun _ => True) fun _ => True where
  skip _ _ _ _ := trivial
  string _ _ _ _ := ⟨trivial, trivial⟩

/-- What is accepted is well formed: no object in it has a key twice. -/
theorem loads_distinct {names : Constants} (hnames : PlainNames names) {t : Text} {v : Value}
    (h : loads names t = some v) : v.Distinct :=
  tracks_all.loads builds_distinct hnames trivial h

theorem scanFrom_length {st : StringState} {t : Text} {r : CodeUnits × Text}
    (h : scanFrom st t = some r) : r.2.length < t.length := by
  induction t generalizing st r with
  | nil => simp [scanFrom] at h
  | cons c t ih =>
    rw [List.length_cons]
    have hmap : ∀ us r, (scanFrom .plain t).map (consUnits us) = some r →
        r.2.length < t.length + 1 := by
      intro us r hr
      obtain ⟨s, hs, rfl⟩ := Option.map_eq_some_iff.mp hr
      exact (ih hs).trans (Nat.lt_succ_self _)
    cases st with
    | plain =>
      rw [scanFrom] at h
      split_ifs at h
      · simp [← Option.some.inj h]
      · exact (ih h).trans (Nat.lt_succ_self _)
      · exact hmap _ r h
    | escape =>
      rw [scanFrom] at h
      split_ifs at h
      · exact (ih h).trans (Nat.lt_succ_self _)
      · obtain ⟨u, -, h⟩ := Option.bind_eq_some_iff.mp h
        exact hmap _ r h
    | hex digits =>
      rw [scanFrom] at h
      obtain ⟨d, -, h⟩ := Option.bind_eq_some_iff.mp h
      split_ifs at h
      · exact hmap _ r h
      · exact (ih h).trans (Nat.lt_succ_self _)

theorem scanString_length {t : Text} {r : CodeUnits × Text} (h : scanString t = some r) :
    r.2.length < t.length := scanFrom_length h

theorem tracks_length (L : ℕ) : Tracks (fun t => t.length ≤ L) fun _ => True where
  skip _ _ ht _ := (Nat.le_succ _).trans ht
  string _ _ ht h := ⟨trivial, (scanString_length h).le.trans ht⟩

theorem skipWhite_length (t : Text) : (skipWhite t).length ≤ t.length :=
  (tracks_length t.length).skipWhite le_rfl

variable {names : Constants}

theorem scanOnce_length (hnames : PlainNames names) {fuel : ℕ} {t : Text} {r : Value × Text}
    (h : scanOnce names fuel t = some r) : r.2.length ≤ t.length :=
  ((tracks_length t.length).scanOnce builds_distinct hnames fuel le_rfl h).2

theorem next_skipWhite_length {t : Text} {r : Char × Text} (h : next (skipWhite t) = some r) :
    r.2.length < t.length := by
  have hwhite := skipWhite_length t
  rw [show skipWhite t = r.1 :: r.2 from next_eq_some.mp h, List.length_cons] at hwhite
  exact hwhite

theorem expect_skipWhite_length {c : Char} {t r : Text} (h : expect c (skipWhite t) = some r) :
    r.length < t.length := by
  have hwhite := skipWhite_length t
  rw [expect_eq_some.mp h, List.length_cons] at hwhite
  exact hwhite

/-- Scans that agree, and do not lengthen the text, agree as parts of a longer scan. -/
theorem scanItems_congr {scan scan' : Text → Option (Value × Text)} {L : ℕ}
    (hscan : ∀ t, t.length ≤ L → scan t = scan' t)
    (hlength : ∀ t r, scan t = some r → r.2.length ≤ t.length) {fuel fuel' : ℕ} {t : Text}
    (ht : t.length ≤ L) (hfuel : t.length < fuel) (hfuel' : t.length < fuel') :
    scanItems scan fuel t = scanItems scan' fuel' t := by
  induction fuel generalizing t fuel' with
  | zero => omega
  | succ fuel ih =>
    obtain ⟨fuel', rfl⟩ : ∃ n, fuel' = n + 1 := ⟨fuel' - 1, by omega⟩
    have hwhite := skipWhite_length t
    rw [scanItems, scanItems, ← hscan _ (by omega)]
    apply Option.bind_congr
    intro x hx
    have hx := hlength _ _ hx
    apply Option.bind_congr
    intro r hr
    have hrest := next_skipWhite_length hr
    have hmore : scanItems scan fuel r.2 = scanItems scan' fuel' r.2 :=
      ih (by omega) (by omega) (by omega)
    rw [hmore]

theorem scanMembers_congr {scan scan' : Text → Option (Value × Text)} {L : ℕ}
    (hscan : ∀ t, t.length ≤ L → scan t = scan' t)
    (hlength : ∀ t r, scan t = some r → r.2.length ≤ t.length) {fuel fuel' : ℕ} {t : Text}
    (ht : t.length ≤ L) (hfuel : t.length < fuel) (hfuel' : t.length < fuel') :
    scanMembers scan fuel t = scanMembers scan' fuel' t := by
  induction fuel generalizing t fuel' with
  | zero => omega
  | succ fuel ih =>
    obtain ⟨fuel', rfl⟩ : ∃ n, fuel' = n + 1 := ⟨fuel' - 1, by omega⟩
    rw [scanMembers, scanMembers]
    apply Option.bind_congr
    intro t₁ ht₁
    have hquote := expect_skipWhite_length ht₁
    apply Option.bind_congr
    intro k hk
    have hk := scanString_length hk
    apply Option.bind_congr
    intro t₃ ht₃
    have hcolon := expect_skipWhite_length ht₃
    have hvalue := skipWhite_length t₃
    rw [← hscan _ (by omega)]
    apply Option.bind_congr
    intro x hx
    have hx := hlength _ _ hx
    apply Option.bind_congr
    intro r hr
    have hrest := next_skipWhite_length hr
    have hmore : scanMembers scan fuel r.2 = scanMembers scan' fuel' r.2 :=
      ih (by omega) (by omega) (by omega)
    rw [hmore]

/-- Fuel above the length of the text is enough. -/
theorem scanOnce_fuel (hnames : PlainNames names) {fuel fuel' : ℕ} {t : Text}
    (hfuel : t.length < fuel) (hfuel' : t.length < fuel') :
    scanOnce names fuel t = scanOnce names fuel' t := by
  induction fuel generalizing t fuel' with
  | zero => omega
  | succ fuel ih =>
    obtain ⟨fuel', rfl⟩ : ∃ n, fuel' = n + 1 := ⟨fuel' - 1, by omega⟩
    cases t with
    | nil => rfl
    | cons c t =>
      rw [List.length_cons] at hfuel hfuel'
      have hscan : ∀ u : Text, u.length ≤ t.length →
          scanOnce names fuel u = scanOnce names fuel' u := fun u hu => ih (by omega) (by omega)
      have hlength : ∀ u r, scanOnce names fuel u = some r → r.2.length ≤ u.length :=
        fun u r => scanOnce_length hnames
      have hitems : scanItems (scanOnce names fuel) fuel t =
          scanItems (scanOnce names fuel') fuel' t :=
        scanItems_congr hscan hlength le_rfl (by omega) (by omega)
      have hmembers : scanMembers (scanOnce names fuel) fuel t =
          scanMembers (scanOnce names fuel') fuel' t :=
        scanMembers_congr hscan hlength le_rfl (by omega) (by omega)
      rw [scanOnce, scanOnce, hitems, hmembers]

/-- The fuel that `loads` gives is not the reason when it fails. -/
theorem loads_fuel (hnames : PlainNames names) {t : Text} {fuel : ℕ}
    (h : t.length < fuel) :
    loads names t = (scanOnce names fuel (skipWhite t)).bind fun r =>
      if skipWhite r.2 = [] then some r.1 else none := by
  have hwhite := skipWhite_length t
  rw [loads, scanOnce_fuel hnames (by omega) (by omega : _ < fuel)]

end GridApps.Json
