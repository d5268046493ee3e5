import GridApps.Numeral.Shortest
import Mathlib.Data.List.DropRight

/-! Python 2's `float` of a unicode string. The tables of the Unicode database are a parameter. -/
namespace GridApps.Numeral

/-- Which characters are white space, and which are decimal digits. In ASCII this is fixed. -/
structure UnicodeTables where
  isSpace : Char → Bool
  decimal : Char → Option (Fin 10)
  isSpace_ascii : ∀ c, c.toNat < 0x80 →
    isSpace c = decide (9 ≤ c.toNat ∧ c.toNat ≤ 13 ∨ 28 ≤ c.toNat ∧ c.toNat ≤ 32)
  decimal_ascii : ∀ c, c.toNat < 0x80 → decimal c = charDigit? c

/-- The tables of ASCII alone. -/
def asciiTables : UnicodeTables where
  isSpace c := decide (9 ≤ c.toNat ∧ c.toNat ≤ 13 ∨ 28 ≤ c.toNat ∧ c.toNat ≤ 32)
  decimal := charDigit?
  isSpace_ascii _ _ := rfl
  decimal_ascii _ _ := rfl

/-- `PyUnicode_EncodeDecimal`: one byte for each character. -/
def encodeChar (tables : UnicodeTables) (c : Char) : Option Char :=
  if tables.isSpace c then some ' '
  else match tables.decimal c with
    | some d => some (digitChar d)
    | none => if 0 < c.toNat ∧ c.toNat < 0x100 then some c else none

def strip (t : Text) : Text := (t.dropWhile (· = ' ')).rdropWhile (· = ' ')

/-- The number in front of a text, and what follows it. A digit on one side of the point is
enough. -/
def strtod (t : Text) : Option (Literal × Text) :=
  let sign := scanExpSign t
  let int := spanDigits sign.2
  let frac := match int.2 with
    | '.' :: rest => spanDigits rest
    | rest => ([], rest)
  let exp := scanExp frac.2
  if int.1 = [] ∧ frac.1 = [] then none else some (⟨sign.1, int.1, frac.1, exp.1⟩, exp.2)

/-- The spellings in letters, of either case. -/
def parseInfOrNan (t : Text) : Option Binary64 :=
  let sign := scanExpSign t
  let word := sign.2.map Char.toLower
  if word = ['i', 'n', 'f'] ∨ word = ['i', 'n', 'f', 'i', 'n', 'i', 't', 'y'] then
    some (.infinity sign.1)
  else if word = ['n', 'a', 'n'] then some .nan
  else none

/-- `none` is a `ValueError`. Numbers that are too large become infinite. -/
def pyFloat (tables : UnicodeTables) (t : Text) : Option Binary64 :=
  (t.mapM (encodeChar tables)).bind fun encoded =>
    match strtod (strip encoded) with
    | some (l, rest) => if rest = [] then some l.float else none
    | none => parseInfOrNan (strip encoded)

/-- The characters of the texts of literals. -/
def literalChars : Text :=
  ['-', '+', '.', 'e', '0', '1', '2', '3', '4', '5', '6', '7', '8', '9']

theorem digitChar_mem_literalChars (d : Fin 10) : digitChar d ∈ literalChars := by
  revert d
  decide

theorem digitsText_subset_literalChars (ds : Digits) : digitsText ds ⊆ literalChars := by
  intro c hc
  obtain ⟨d, -, rfl⟩ := List.mem_map.mp hc
  exact digitChar_mem_literalChars d

theorem Literal.text_subset_literalChars (l : Literal) : l.text ⊆ literalChars := by
  have hsign : (if l.neg then ['-'] else []) ⊆ literalChars := by
    split_ifs <;> simp [literalChars]
  have hfrac : fracText l.frac ⊆ literalChars := by
    cases l.frac with
    | nil => exact List.nil_subset _
    | cons d ds =>
      exact List.cons_subset.mpr ⟨by decide, digitsText_subset_literalChars _⟩
  have hexp : expText l.exp ⊆ literalChars := by
    cases l.exp with
    | none => exact List.nil_subset _
    | some e =>
      refine List.cons_subset.mpr ⟨by decide, List.cons_subset.mpr ⟨?_, ?_⟩⟩
      · split_ifs <;> decide
      · exact digitsText_subset_literalChars _
  exact List.append_subset.mpr ⟨List.append_subset.mpr ⟨List.append_subset.mpr
    ⟨hsign, digitsText_subset_literalChars _⟩, hfrac⟩, hexp⟩

theorem encodeChar_of_mem_literalChars (tables : UnicodeTables) {c : Char}
    (h : c ∈ literalChars) : encodeChar tables c = some c := by
  have hcheck : ∀ c ∈ literalChars, c.toNat < 0x80 ∧ encodeChar asciiTables c = some c := by
    simp only [literalChars, List.forall_mem_cons, List.not_mem_nil, false_implies, implies_true]
    decide
  obtain ⟨hascii, hencode⟩ := hcheck c h
  have hsame : encodeChar tables c = encodeChar asciiTables c := by
    rw [encodeChar, tables.isSpace_ascii c hascii, tables.decimal_ascii c hascii]
    rfl
  rw [hsame, hencode]

theorem mapM_encodeChar (tables : UnicodeTables) {t : Text} (h : t ⊆ literalChars) :
    t.mapM (encodeChar tables) = some t := by
  induction t with
  | nil => rfl
  | cons c t ih =>
    obtain ⟨hc, ht⟩ := List.cons_subset.mp h
    simp [encodeChar_of_mem_literalChars tables hc, ih ht]

theorem strip_of_subset {t : Text} (h : t ⊆ literalChars) : strip t = t := by
  have hne : ∀ c ∈ t, ¬ c = ' ' := by
    rintro c hc rfl
    exact absurd (h hc) (by decide)
  have hfront : t.dropWhile (fun c => decide (c = ' ')) = t :=
    List.dropWhile_eq_self_iff.mpr fun hpos => by simpa using hne _ (List.getElem_mem hpos)
  have hback : t.rdropWhile (fun c => decide (c = ' ')) = t :=
    List.rdropWhile_eq_self_iff.mpr fun hnil => by simpa using hne _ (List.getLast_mem hnil)
  rw [strip, hfront, hback]

theorem scanExpSign_digitsText {ds : Digits} (hne : ds ≠ []) (t : Text) :
    scanExpSign (digitsText ds ++ t) = (false, digitsText ds ++ t) := by
  have hsign : ∀ d : Fin 10, digitChar d ≠ '-' ∧ digitChar d ≠ '+' := by decide
  cases ds with
  | nil => contradiction
  | cons d ds =>
    rw [digitsText_cons_append, scanExpSign, if_neg (hsign d).1, if_neg (hsign d).2]

theorem strtod_text {l : Literal} (hint : l.int ≠ []) : strtod l.text = some (l, []) := by
  have hend : NumberEnd [] := by simp [NumberEnd]
  have hexp := scanExp_expText l.exp hend
  have hexpEnd := digitEnd_expText l.exp hend
  rw [List.append_nil] at hexp hexpEnd
  have hfracEnd := digitEnd_fracText l.frac hexpEnd
  have hsign : scanExpSign l.text =
      (l.neg, digitsText l.int ++ (Literal.fracText l.frac ++ Literal.expText l.exp)) := by
    cases hneg : l.neg with
    | true => simp [Literal.text, hneg, scanExpSign]
    | false =>
      simp only [Literal.text, hneg, Bool.false_eq_true, if_false, List.nil_append,
        List.append_assoc]
      exact scanExpSign_digitsText hint _
  have hfrac : (match Literal.fracText l.frac ++ Literal.expText l.exp with
      | '.' :: rest => spanDigits rest
      | rest => ([], rest)) = (l.frac, Literal.expText l.exp) := by
    cases hf : l.frac with
    | nil => cases l.exp <;> rfl
    | cons d ds => exact spanDigits_digitsText (d :: ds) hexpEnd
  simp only [strtod, hsign, spanDigits_digitsText l.int hfracEnd, hfrac, hexp, hint, false_and,
    if_false]

/-- `float(repr(x)) == x`, and so for every literal. -/
theorem pyFloat_text (tables : UnicodeTables) {l : Literal} (hint : l.int ≠ []) :
    pyFloat tables l.text = some l.float := by
  have hsubset := l.text_subset_literalChars
  rw [pyFloat, mapM_encodeChar tables hsubset, Option.bind_some, strip_of_subset hsubset,
    strtod_text hint]
  rfl

/-- The texts of the infinities, of NaN and of numbers that overflow. -/
def OutOfRange (tables : UnicodeTables) (t : Text) : Prop :=
  ∃ encoded, t.mapM (encodeChar tables) = some encoded ∧
    ((∃ x, parseInfOrNan (strip encoded) = some x) ∨
      ∃ l, strtod (strip encoded) = some (l, []) ∧ overflow ≤ l.magnitude)

theorem Literal.isFinite_float_iff (l : Literal) :
    l.float.isFinite = true ↔ l.magnitude < overflow :=
  isFinite_ofMagnitude_iff l.neg
    (mul_nonneg (Nat.cast_nonneg _) (zpow_nonneg (by norm_num) _))

theorem charDigit?_eq_none_of_toLower {c : Char} (h : c.toLower = 'i' ∨ c.toLower = 'n') :
    charDigit? c = none := by
  rw [charDigit?, dif_neg]
  rintro ⟨-, hdigit⟩
  have hsame : c.toLower = c := dif_neg fun hupper => absurd (show 65 ≤ c.toNat from hupper.1)
    (by omega)
  rw [hsame] at h
  rcases h with rfl | rfl <;> revert hdigit <;> decide

/-- A word for what is not finite starts with a letter. -/
theorem parseInfOrNan_eq_some {t : Text} {x : Binary64} (h : parseInfOrNan t = some x) :
    ¬ x.isFinite = true ∧
      ∃ c rest, (scanExpSign t).2 = c :: rest ∧ (c.toLower = 'i' ∨ c.toLower = 'n') := by
  simp only [parseInfOrNan] at h
  split_ifs at h with hinf hnan
  · obtain rfl := Option.some.inj h
    refine ⟨by simp [Binary64.isFinite], ?_⟩
    rcases hinf with hinf | hinf <;>
      · obtain ⟨c, rest, hsign, hc, -⟩ := List.map_eq_cons_iff.mp hinf
        exact ⟨c, rest, hsign, .inl hc⟩
  · obtain rfl := Option.some.inj h
    obtain ⟨c, rest, hsign, hc, -⟩ := List.map_eq_cons_iff.mp hnan
    exact ⟨by simp [Binary64.isFinite], c, rest, hsign, .inr hc⟩

theorem strtod_eq_none_of_parseInfOrNan {t : Text} {x : Binary64}
    (h : parseInfOrNan t = some x) : strtod t = none := by
  obtain ⟨-, c, rest, hsign, hc⟩ := parseInfOrNan_eq_some h
  have hdigit := charDigit?_eq_none_of_toLower hc
  have hpoint : c ≠ '.' := by
    rintro rfl
    revert hc
    decide
  simp [strtod, hsign, spanDigits, hdigit, hpoint]

/-- `float` reads a text as something that is not finite exactly if the text is one of these. -/
theorem exists_pyFloat_not_isFinite_iff (tables : UnicodeTables) (t : Text) :
    (∃ x, pyFloat tables t = some x ∧ ¬ x.isFinite = true) ↔ OutOfRange tables t := by
  constructor
  · rintro ⟨x, hx, hfinite⟩
    obtain ⟨encoded, hencoded, hread⟩ := Option.bind_eq_some_iff.mp hx
    refine ⟨encoded, hencoded, ?_⟩
    split at hread
    · rename_i l rest hstrtod
      split_ifs at hread with hrest
      obtain rfl := Option.some.inj hread
      rw [l.isFinite_float_iff, not_lt] at hfinite
      exact .inr ⟨l, hrest ▸ hstrtod, hfinite⟩
    · exact .inl ⟨x, hread⟩
  · rintro ⟨encoded, hencoded, ⟨x, hx⟩ | ⟨l, hl, hoverflow⟩⟩
    · refine ⟨x, ?_, (parseInfOrNan_eq_some hx).1⟩
      rw [pyFloat, hencoded, Option.bind_some, strtod_eq_none_of_parseInfOrNan hx]
      exact hx
    · refine ⟨l.float, ?_, by rwa [l.isFinite_float_iff, not_lt]⟩
      rw [pyFloat, hencoded, Option.bind_some, hl]
      rfl

end GridApps.Numeral
