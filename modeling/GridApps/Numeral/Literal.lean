import Mathlib.Data.Nat.Digits.Defs
import Mathlib.Data.Rat.Floor
import Mathlib.Tactic

/-! Decimal number literals: their digits, their text and their exact value. -/
namespace GridApps.Numeral

abbrev Text := List Char

/-- Decimal digits, the most significant one first. -/
abbrev Digits := List (Fin 10)

abbrev zeroDigit : Fin 10 := 0

def digitChar (d : Fin 10) : Char := Char.ofNat (48 + d.val)

def charDigit? (c : Char) : Option (Fin 10) :=
  if h : 48 ≤ c.toNat ∧ c.toNat < 58 then some ⟨c.toNat - 48, by omega⟩ else none

def digitsText (ds : Digits) : Text := ds.map digitChar

/-- The longest run of digits in front. -/
def spanDigits : Text → Digits × Text
  | [] => ([], [])
  | c :: t =>
    match charDigit? c with
    | some d => (d :: (spanDigits t).1, (spanDigits t).2)
    | none => ([], c :: t)

def natOf (ds : Digits) : ℕ := ds.foldl (fun n d => 10 * n + d.val) 0

/-- No digit for zero, and no leading zero otherwise. -/
def digitsOf (n : ℕ) : Digits := ((Nat.digits 10 n).map (Fin.ofNat 10)).reverse

def numeral (n : ℕ) : Digits := if n = 0 then [0] else digitsOf n

/-- A number of the form `-?int(.frac)?([eE][+-]?exp)?`. -/
structure Literal where
  neg : Bool
  int : Digits
  frac : Digits
  exp : Option ℤ
  deriving DecidableEq, Repr

namespace Literal

def isInt (l : Literal) : Bool := l.frac.isEmpty && l.exp.isNone

def toInt (l : Literal) : ℤ := if l.neg then -natOf l.int else natOf l.int

def magnitude (l : Literal) : ℚ :=
  natOf (l.int ++ l.frac) * 10 ^ (l.exp.getD 0 - l.frac.length)

/-- At least two digits, as C prints an exponent. -/
def expDigits (n : ℕ) : Digits := if n < 10 then 0 :: numeral n else numeral n

def expText : Option ℤ → Text
  | none => []
  | some e => 'e' :: (if e < 0 then '-' else '+') :: digitsText (expDigits e.natAbs)

def fracText : Digits → Text
  | [] => []
  | ds => '.' :: digitsText ds

def text (l : Literal) : Text :=
  (if l.neg then ['-'] else []) ++ digitsText l.int ++ fracText l.frac ++ expText l.exp

/-- A zero in front of other digits is no number of the grammar. -/
def WellFormed (l : Literal) : Prop := l.int = [0] ∨ l.int.head?.any (· ≠ 0) = true

theorem WellFormed.int_ne_nil {l : Literal} (h : l.WellFormed) : l.int ≠ [] := by
  rcases h with hzero | hhead
  · simp [hzero]
  · intro hnil
    simp [hnil] at hhead

end Literal

def scanSign : Text → Bool × Text
  | [] => (false, [])
  | c :: t => if c = '-' then (true, t) else (false, c :: t)

/-- A leading zero is a number by itself. -/
def scanInt : Text → Option (Digits × Text)
  | [] => none
  | c :: t =>
    if c = '0' then some ([0], t)
    else if (spanDigits (c :: t)).1 = [] then none
    else some (spanDigits (c :: t))

/-- A point without a digit after it is left alone. -/
def scanFrac : Text → Digits × Text
  | [] => ([], [])
  | c :: t =>
    if c = '.' ∧ (spanDigits t).1 ≠ [] then spanDigits t else ([], c :: t)

def scanExpSign : Text → Bool × Text
  | [] => (false, [])
  | c :: t => if c = '-' then (true, t) else if c = '+' then (false, t) else (false, c :: t)

/-- Likewise for an `e` without a number after it. -/
def scanExp : Text → Option ℤ × Text
  | [] => (none, [])
  | c :: t =>
    if c = 'e' ∨ c = 'E' then
      let sign := scanExpSign t
      let digits := spanDigits sign.2
      if digits.1 = [] then (none, c :: t)
      else (some (if sign.1 then -natOf digits.1 else natOf digits.1), digits.2)
    else (none, c :: t)

def scanNumber (t : Text) : Option (Literal × Text) :=
  (scanInt (scanSign t).2).map fun int =>
    let frac := scanFrac int.2
    let exp := scanExp frac.2
    (⟨(scanSign t).1, int.1, frac.1, exp.1⟩, exp.2)

@[simp] theorem charDigit_digitChar (d : Fin 10) : charDigit? (digitChar d) = some d := by
  revert d
  decide

@[simp] theorem natOf_nil : natOf [] = 0 := rfl

theorem natOf_concat (ds : Digits) (d : Fin 10) : natOf (ds ++ [d]) = 10 * natOf ds + d.val := by
  simp [natOf]

theorem natOf_append (ds es : Digits) :
    natOf (ds ++ es) = natOf ds * 10 ^ es.length + natOf es := by
  induction es using List.reverseRecOn with
  | nil => simp
  | append_singleton es e ih =>
    rw [← List.append_assoc, natOf_concat, natOf_concat, ih, List.length_append,
      List.length_singleton, pow_succ]
    ring

theorem natOf_cons (d : Fin 10) (ds : Digits) :
    natOf (d :: ds) = d.val * 10 ^ ds.length + natOf ds := by
  rw [← List.singleton_append, natOf_append]
  simp [natOf]

@[simp] theorem natOf_replicate_zero (n : ℕ) : natOf (List.replicate n 0) = 0 := by
  induction n with
  | zero => rfl
  | succ n ih => simp [List.replicate_succ, natOf_cons, ih]

theorem natOf_reverse (ds : Digits) : natOf ds.reverse = Nat.ofDigits 10 (ds.map Fin.val) := by
  induction ds with
  | nil => rfl
  | cons d ds ih =>
    rw [List.reverse_cons, natOf_concat, ih, List.map_cons, Nat.ofDigits_cons]
    exact Nat.add_comm _ _

@[simp] theorem natOf_digitsOf (n : ℕ) : natOf (digitsOf n) = n := by
  rw [digitsOf, natOf_reverse, List.map_map]
  have hmap : (Nat.digits 10 n).map (Fin.val ∘ Fin.ofNat 10) = Nat.digits 10 n := by
    rw [List.map_congr_left (g := id), List.map_id]
    intro d hd
    exact Nat.mod_eq_of_lt (Nat.digits_lt_base (by norm_num) hd)
  rw [hmap, Nat.ofDigits_digits]

@[simp] theorem natOf_numeral (n : ℕ) : natOf (numeral n) = n := by
  unfold numeral
  split_ifs with h
  · simp [h, natOf]
  · exact natOf_digitsOf n

theorem digitsOf_ne_nil {n : ℕ} (h : n ≠ 0) : digitsOf n ≠ [] := by
  simp [digitsOf, Nat.digits_ne_nil_iff_ne_zero, h]

theorem numeral_ne_nil (n : ℕ) : numeral n ≠ [] := by
  unfold numeral
  split_ifs with h
  · exact List.cons_ne_nil _ _
  · exact digitsOf_ne_nil h

/-- The leading digit of a number that is not zero is not zero. -/
theorem digitsOf_head {n : ℕ} (h : n ≠ 0) : (digitsOf n).head?.any (· ≠ 0) = true := by
  have hne : Nat.digits 10 n ≠ [] := Nat.digits_ne_nil_iff_ne_zero.mpr h
  have hlast := Nat.getLast_digit_ne_zero 10 h
  have hlt : (Nat.digits 10 n).getLast hne < 10 :=
    Nat.digits_lt_base (by norm_num) (List.getLast_mem hne)
  rw [digitsOf, List.head?_reverse, List.getLast?_map, List.getLast?_eq_getLast_of_ne_nil hne]
  simp only [Option.map_some, Option.any_some, decide_eq_true_eq]
  intro hz
  have := congrArg Fin.val hz
  rw [Fin.val_ofNat, Nat.mod_eq_of_lt hlt] at this
  exact hlast this

/-- What follows a number must not continue it. -/
def NumberEnd (t : Text) : Prop :=
  ∀ c ∈ t.head?, charDigit? c = none ∧ c ≠ '.' ∧ c ≠ 'e' ∧ c ≠ 'E'

def DigitEnd (t : Text) : Prop := ∀ c ∈ t.head?, charDigit? c = none

theorem digitsText_cons_append (d : Fin 10) (ds : Digits) (t : Text) :
    digitsText (d :: ds) ++ t = digitChar d :: (digitsText ds ++ t) := rfl

theorem NumberEnd.digitEnd {t : Text} (h : NumberEnd t) : DigitEnd t := fun c hc => (h c hc).1

theorem spanDigits_digitsText (ds : Digits) {t : Text} (h : DigitEnd t) :
    spanDigits (digitsText ds ++ t) = (ds, t) := by
  induction ds with
  | nil =>
    cases t with
    | nil => rfl
    | cons c t => simp [digitsText, spanDigits, h c rfl]
  | cons d ds ih =>
    rw [digitsText_cons_append]
    simp [spanDigits, ih]

theorem scanExp_expText (e : Option ℤ) {t : Text} (h : NumberEnd t) :
    scanExp (Literal.expText e ++ t) = (e, t) := by
  cases e with
  | none =>
    cases t with
    | nil => rfl
    | cons c t =>
      obtain ⟨-, -, he, hE⟩ := h c rfl
      simp [Literal.expText, scanExp, he, hE]
  | some e =>
    have hne : Literal.expDigits e.natAbs ≠ [] := by
      unfold Literal.expDigits
      split_ifs
      · exact List.cons_ne_nil _ _
      · exact numeral_ne_nil _
    have hval : natOf (Literal.expDigits e.natAbs) = e.natAbs := by
      unfold Literal.expDigits
      split_ifs
      · rw [natOf_cons, natOf_numeral, Fin.val_zero, zero_mul, zero_add]
      · exact natOf_numeral _
    have hspan := spanDigits_digitsText (Literal.expDigits e.natAbs) h.digitEnd
    have hsign : scanExpSign ((if e < 0 then '-' else '+') ::
        (digitsText (Literal.expDigits e.natAbs) ++ t)) =
        (decide (e < 0), digitsText (Literal.expDigits e.natAbs) ++ t) := by
      by_cases hneg : e < 0 <;> simp [scanExpSign, hneg]
    simp only [Literal.expText, List.cons_append, scanExp, hsign, hspan, hne, hval,
      true_or, if_true, if_false]
    congr 2
    by_cases hneg : e < 0
    · simp only [hneg, decide_true, if_true]
      omega
    · simp only [hneg, decide_false, if_false, Bool.false_eq_true]
      omega

theorem digitEnd_expText (e : Option ℤ) {t : Text} (h : NumberEnd t) :
    DigitEnd (Literal.expText e ++ t) := by
  cases e with
  | none => exact h.digitEnd
  | some e =>
    intro c hc
    obtain rfl := Option.some.inj hc
    decide

theorem digitEnd_fracText (ds : Digits) {t : Text} (h : DigitEnd t) :
    DigitEnd (Literal.fracText ds ++ t) := by
  cases ds with
  | nil => exact h
  | cons d ds =>
    intro c hc
    obtain rfl := Option.some.inj hc
    decide

theorem scanFrac_fracText (ds : Digits) {t : Text} (h : DigitEnd t)
    (hdot : t.head? ≠ some '.') : scanFrac (Literal.fracText ds ++ t) = (ds, t) := by
  cases ds with
  | nil =>
    cases t with
    | nil => rfl
    | cons c t =>
      have hc : c ≠ '.' := fun hc => hdot (congrArg some hc)
      simp [Literal.fracText, scanFrac, hc]
  | cons d ds =>
    have hspan := spanDigits_digitsText (d :: ds) h
    change scanFrac ('.' :: (digitsText (d :: ds) ++ t)) = _
    simp [scanFrac, hspan]

theorem digitChar_ne_zero {d : Fin 10} (h : d ≠ 0) : digitChar d ≠ '0' := by
  revert d
  decide

theorem digitChar_ne_minus (d : Fin 10) : digitChar d ≠ '-' := by
  revert d
  decide

theorem scanInt_digitsText {ds : Digits} (hds : ds = [0] ∨ ds.head?.any (· ≠ 0) = true)
    {t : Text} (h : DigitEnd t) : scanInt (digitsText ds ++ t) = some (ds, t) := by
  rcases hds with rfl | hhead
  · rfl
  · cases ds with
    | nil => contradiction
    | cons d ds =>
      have hd : d ≠ 0 := by simpa using hhead
      have hspan := spanDigits_digitsText (d :: ds) h
      rw [digitsText_cons_append] at hspan ⊢
      simp [scanInt, hspan, digitChar_ne_zero hd]

theorem scanSign_digitsText {ds : Digits} (hne : ds ≠ []) (t : Text) :
    scanSign (digitsText ds ++ t) = (false, digitsText ds ++ t) := by
  cases ds with
  | nil => contradiction
  | cons d ds =>
    rw [digitsText_cons_append]
    simp [scanSign, digitChar_ne_minus]

/-- Scanning a literal's text gives the literal and what follows it. -/
theorem scanNumber_text {l : Literal} (hl : l.WellFormed) {t : Text} (h : NumberEnd t) :
    scanNumber (l.text ++ t) = some (l, t) := by
  have hexp := scanExp_expText l.exp h
  have hfrac := scanFrac_fracText l.frac (digitEnd_expText l.exp h) (by
    cases hx : l.exp with
    | none => exact fun hd => (h '.' hd).2.1 rfl
    | some e => simp [Literal.expText])
  have hint : scanInt (digitsText l.int ++
      (Literal.fracText l.frac ++ (Literal.expText l.exp ++ t))) =
      some (l.int, Literal.fracText l.frac ++ (Literal.expText l.exp ++ t)) := by
    apply scanInt_digitsText hl
    exact digitEnd_fracText l.frac (digitEnd_expText l.exp h)
  have hsign : scanSign (l.text ++ t) = (l.neg, digitsText l.int ++
      (Literal.fracText l.frac ++ (Literal.expText l.exp ++ t))) := by
    cases hneg : l.neg with
    | true => simp [Literal.text, hneg, scanSign, List.append_assoc]
    | false =>
      simp only [Literal.text, hneg, Bool.false_eq_true, if_false, List.nil_append,
        List.append_assoc]
      exact scanSign_digitsText hl.int_ne_nil _
  simp only [scanNumber, hsign, hint, Option.map_some, hfrac, hexp]

end GridApps.Numeral
