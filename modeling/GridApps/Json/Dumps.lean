import GridApps.Json.ReadBack

/-! The texts of integers, decimals and strings, and the encoder `json.dumps`. -/
namespace GridApps.Json

open GridApps.Numeral

def intLiteral (n : ℤ) : Literal := ⟨decide (n < 0), numeral n.natAbs, [], none⟩

def intText (n : ℤ) : Text := (intLiteral n).text

theorem numeral_wellFormed (n : ℕ) : numeral n = [0] ∨ (numeral n).head?.any (· ≠ 0) = true := by
  unfold numeral
  split_ifs with hn
  · exact .inl rfl
  · exact .inr (digitsOf_head hn)

theorem intLiteral_wellFormed (n : ℤ) : (intLiteral n).WellFormed :=
  numeral_wellFormed n.natAbs

theorem literalScalar_intLiteral (n : ℤ) : literalScalar (intLiteral n) = .int n := by
  have hint : (intLiteral n).toInt = n := by
    simp only [intLiteral, Literal.toInt, natOf_numeral, decide_eq_true_eq]
    split_ifs with hn <;> omega
  rw [literalScalar, if_pos (by rfl), hint]

theorem literalScalar_literal (x : Finite64) : literalScalar x.literal = .float (.finite x) := by
  rw [literalScalar, x.literal_isInt, if_neg Bool.false_ne_true, x.literal_float]

theorem digitChar_starts (d : Fin 10) : ¬ IsWhite (digitChar d) ∧ digitChar d ≠ ']' ∧
    digitChar d ≠ '}' ∧ digitChar d ≠ '"' ∧ digitChar d ≠ '[' ∧ digitChar d ≠ '{' := by
  revert d
  decide

/-- The first character of a number is a sign or a digit. -/
theorem number_head {l : Literal} (hl : l.WellFormed) : ∃ c u, l.text = c :: u ∧ ¬ IsWhite c ∧
    c ≠ ']' ∧ c ≠ '}' ∧ c ≠ '"' ∧ c ≠ '[' ∧ c ≠ '{' := by
  cases hneg : l.neg with
  | true =>
    refine ⟨'-', digitsText l.int ++ Literal.fracText l.frac ++ Literal.expText l.exp, ?_, ?_⟩
    · simp [Literal.text, hneg]
    · decide
  | false =>
    obtain ⟨d, ds, hd⟩ := List.exists_cons_of_ne_nil hl.int_ne_nil
    refine ⟨digitChar d, digitsText ds ++ (Literal.fracText l.frac ++ Literal.expText l.exp), ?_,
      digitChar_starts d⟩
    simp [Literal.text, hneg, hd, digitsText]

theorem starts_number {l : Literal} (hl : l.WellFormed) : Starts l.text := by
  obtain ⟨c, u, htext, hwhite, hbracket, hbrace, -⟩ := number_head hl
  exact ⟨c, u, htext, hwhite, hbracket, hbrace⟩

theorem scanOnce_number (names : Constants) {l : Literal} (hl : l.WellFormed) (fuel : ℕ)
    {rest : Text} (hrest : NumberEnd rest) :
    scanOnce names (fuel + 1) (l.text ++ rest) = some (.scalar (literalScalar l), rest) := by
  have hscan := scanNumber_text hl hrest
  obtain ⟨c, u, htext, -, -, -, hquote, hbracket, hbrace⟩ := number_head hl
  rw [htext, List.cons_append] at hscan ⊢
  rw [scanOnce, if_neg hquote, if_neg hbracket, if_neg hbrace, scanScalar, hscan]

theorem plain_number {l : Literal} (hl : l.WellFormed) : ∀ c ∈ l.text, Plain c := by
  have hscan := scanNumber_text hl (t := []) (by simp [NumberEnd])
  rw [List.append_nil] at hscan
  obtain ⟨front, htext, hfront⟩ := skips_scanNumber hscan
  rw [htext, List.append_nil]
  exact hfront

theorem scanString_plain {c : Char} (hquote : c ≠ '"') (hback : c ≠ '\\') (hlow : 0x20 ≤ c.toNat)
    (t : Text) : scanString (c :: t) = (scanString t).map (consUnits (unitsOfChar c)) := by
  rw [scanString, scanFrom, if_neg hquote, if_neg hback, if_neg (by omega)]
  rfl

theorem scanString_backslash (t : Text) : scanString ('\\' :: t) = scanFrom .escape t := by
  rw [scanString, scanFrom, if_neg (by decide), if_pos rfl]

theorem scanString_escape {e : Char} {u : UInt16} (he : escapeUnit? e = some u) (t : Text) :
    scanString ('\\' :: e :: t) = (scanString t).map (consUnits [u]) := by
  have hne : e ≠ 'u' := by
    rintro rfl
    simp [escapeUnit?] at he
  rw [scanString_backslash, scanFrom, if_neg hne, he]
  rfl

theorem scanString_badEscape {e : Char} (he : escapeUnit? e = none) (hne : e ≠ 'u') (t : Text) :
    scanString ('\\' :: e :: t) = none := by
  rw [scanString_backslash, scanFrom, if_neg hne, he]
  rfl

/-- A string whose units are written one after the other, each so that it is read back. -/
theorem scanString_flatMap {unitText : UInt16 → Text} {k : CodeUnits}
    (h : ∀ u ∈ k, ∀ t, scanString (unitText u ++ t) = (scanString t).map (consUnits [u]))
    (rest : Text) : scanString (k.flatMap unitText ++ '"' :: rest) = some (k, rest) := by
  induction k with
  | nil => simp [scanString, scanFrom]
  | cons u k ih =>
    obtain ⟨hu, hk⟩ := List.forall_mem_cons.mp h
    rw [List.flatMap_cons, List.append_assoc, hu, ih hk]
    rfl

theorem scanString_flatMap_eq_none {unitText : UInt16 → Text} {k : CodeUnits}
    (h : ∀ u ∈ k, (∀ t, scanString (unitText u ++ t) = (scanString t).map (consUnits [u])) ∨
      ∀ t, scanString (unitText u ++ t) = none)
    (hbad : ∃ u ∈ k, ∀ t, scanString (unitText u ++ t) = none) (rest : Text) :
    scanString (k.flatMap unitText ++ rest) = none := by
  induction k with
  | nil => simp at hbad
  | cons u k ih =>
    obtain ⟨hu, hk⟩ := List.forall_mem_cons.mp h
    rw [List.flatMap_cons, List.append_assoc]
    rcases hu with hu | hu
    · obtain ⟨v, hv, hnone⟩ := hbad
      rcases List.mem_cons.mp hv with rfl | hv
      · exact hnone _
      · rw [hu, ih hk ⟨v, hv, hnone⟩]
        rfl
    · exact hu _

/-- Four hexadecimal digits. -/
def hex4 (u : UInt16) : Text :=
  [hexChar (u.toNat / 0x1000), hexChar (u.toNat / 0x100 % 0x10), hexChar (u.toNat / 0x10 % 0x10),
    hexChar (u.toNat % 0x10)]

theorem scanFrom_hex4 (u : UInt16) (t : Text) :
    scanFrom (.hex []) (hex4 u ++ t) = (scanString t).map (consUnits [u]) := by
  have hlt := u.toNat_lt
  have hvalue : (hexValue [u.toNat / 0x1000, u.toNat / 0x100 % 0x10, u.toNat / 0x10 % 0x10,
      u.toNat % 0x10]).toUInt16 = u := by
    have hnat : hexValue [u.toNat / 0x1000, u.toNat / 0x100 % 0x10, u.toNat / 0x10 % 0x10,
        u.toNat % 0x10] = u.toNat := by
      simp only [hexValue, List.foldl_cons, List.foldl_nil]
      omega
    rw [hnat]
    exact UInt16.ofNat_toNat
  have hd₁ := hexDigit_hexChar (n := u.toNat / 0x1000) (by omega)
  have hd₂ := hexDigit_hexChar (n := u.toNat / 0x100 % 0x10) (by omega)
  have hd₃ := hexDigit_hexChar (n := u.toNat / 0x10 % 0x10) (by omega)
  have hd₄ := hexDigit_hexChar (n := u.toNat % 0x10) (by omega)
  simp only [hex4, List.cons_append, List.nil_append, scanFrom, hd₁, hd₂, hd₃, hd₄,
    Option.bind_some, List.length_nil, List.length_cons]
  simpa [scanString] using congrArg (fun v => (scanFrom .plain t).map (consUnits [v])) hvalue

theorem scanString_hex4 (u : UInt16) (t : Text) :
    scanString ('\\' :: 'u' :: (hex4 u ++ t)) = (scanString t).map (consUnits [u]) := by
  rw [scanString_backslash, scanFrom, if_pos rfl, scanFrom_hex4]

/-- A printable ASCII character stands for itself. -/
theorem unitsOfChar_ofNat {u : UInt16} (h : u.toNat < 0x7F) :
    (Char.ofNat u.toNat).toNat = u.toNat ∧ unitsOfChar (Char.ofNat u.toNat) = [u] := by
  have hnat : (Char.ofNat u.toNat).toNat = u.toNat := by
    have hvalid : u.toNat.isValidChar := .inl (by omega)
    rw [Char.ofNat, dif_pos hvalid]
    rfl
  refine ⟨hnat, ?_⟩
  rw [unitsOfChar, hnat, if_pos (by omega)]
  exact congrArg (fun v => [v]) UInt16.ofNat_toNat

theorem charOfNat_ne {u : UInt16} (h : u.toNat < 0x7F) {c : Char} (hc : u.toNat ≠ c.toNat) :
    Char.ofNat u.toNat ≠ c := by
  rintro rfl
  exact hc (unitsOfChar_ofNat h).1.symm

theorem scanString_ascii {u : UInt16} (hlow : 0x20 ≤ u.toNat) (hhigh : u.toNat < 0x7F)
    (hquote : u ≠ 0x22) (hback : u ≠ 0x5C) (t : Text) :
    scanString (Char.ofNat u.toNat :: t) = (scanString t).map (consUnits [u]) := by
  obtain ⟨hnat, hunits⟩ := unitsOfChar_ofNat hhigh
  have hq : u.toNat ≠ '"'.toNat := fun h => hquote (UInt16.toNat.inj h)
  have hb : u.toNat ≠ '\\'.toNat := fun h => hback (UInt16.toNat.inj h)
  rw [scanString_plain (charOfNat_ne hhigh hq) (charOfNat_ne hhigh hb) (by omega), hunits]

/-- One unit under `ensure_ascii`. -/
def asciiUnit (u : UInt16) : Text :=
  if u = 0x22 then ['\\', '"']
  else if u = 0x5C then ['\\', '\\']
  else if u = 0x0A then ['\\', 'n']
  else if u = 0x0D then ['\\', 'r']
  else if u = 0x09 then ['\\', 't']
  else if u = 0x0C then ['\\', 'f']
  else if u = 0x08 then ['\\', 'b']
  else if 0x20 ≤ u.toNat ∧ u.toNat < 0x7F then [Char.ofNat u.toNat]
  else '\\' :: 'u' :: hex4 u

def asciiString (k : CodeUnits) : Text := '"' :: (k.flatMap asciiUnit ++ ['"'])

def dumpsFloat : Binary64 → Text
  | .finite x => x.literal.text
  | .infinity neg => (if neg then ['-'] else []) ++ ['I', 'n', 'f', 'i', 'n', 'i', 't', 'y']
  | .nan => ['N', 'a', 'N']

def dumpsScalar : Scalar → Text
  | .null => ['n', 'u', 'l', 'l']
  | .bool b => if b then ['t', 'r', 'u', 'e'] else ['f', 'a', 'l', 's', 'e']
  | .int n => intText n
  | .float x => dumpsFloat x
  | .str k => asciiString k

def dumps (v : Value) : Text := v.print dumpsScalar

theorem scanString_asciiUnit (u : UInt16) (t : Text) :
    scanString (asciiUnit u ++ t) = (scanString t).map (consUnits [u]) := by
  unfold asciiUnit
  split_ifs with hquote hback hn hr ht hf hb hascii
  · exact hquote ▸ scanString_escape (by decide) t
  · exact hback ▸ scanString_escape (by decide) t
  · exact hn ▸ scanString_escape (by decide) t
  · exact hr ▸ scanString_escape (by decide) t
  · exact ht ▸ scanString_escape (by decide) t
  · exact hf ▸ scanString_escape (by decide) t
  · exact hb ▸ scanString_escape (by decide) t
  · exact scanString_ascii hascii.1 hascii.2 hquote hback t
  · exact scanString_hex4 u t

/-- The scalars that a strict reader accepts. -/
def Scalar.Strict (s : Scalar) : Prop := ∀ x, s = .float x → x.isFinite = true

theorem Scalar.strict_int (n : ℤ) : (Scalar.int n).Strict := fun x hx => by cases hx

theorem Scalar.strict_str (k : CodeUnits) : (Scalar.str k).Strict := fun x hx => by cases hx

theorem Scalar.strict_float_iff (x : Binary64) : (Scalar.float x).Strict ↔ x.isFinite = true :=
  ⟨fun h => h x rfl, fun h _ hx => Scalar.float.inj hx ▸ h⟩

theorem scanOnce_scalar (names : Constants) {c : Char} (hc : c ≠ '"' ∧ c ≠ '[' ∧ c ≠ '{')
    (fuel : ℕ) (t : Text) : scanOnce names (fuel + 1) (c :: t) = scanScalar names (c :: t) := by
  rw [scanOnce, if_neg hc.1, if_neg hc.2.1, if_neg hc.2.2]

theorem starts_dumpsScalar (s : Scalar) : Starts (dumpsScalar s) := by
  cases s with
  | null => exact ⟨'n', _, rfl, by decide⟩
  | bool b => cases b <;> exact ⟨_, _, rfl, by decide⟩
  | int n => exact starts_number (intLiteral_wellFormed n)
  | float x =>
    cases x with
    | finite x => exact starts_number x.literal_wellFormed
    | infinity neg => cases neg <;> exact ⟨_, _, rfl, by decide⟩
    | nan => exact ⟨_, _, rfl, by decide⟩
  | str k => exact ⟨'"', _, rfl, by decide⟩

theorem scanOnce_intText (names : Constants) (n : ℤ) (fuel : ℕ) {rest : Text}
    (hrest : NumberEnd rest) :
    scanOnce names (fuel + 1) (intText n ++ rest) = some (.int n, rest) := by
  have hread := scanOnce_number names (intLiteral_wellFormed n) fuel hrest
  rwa [literalScalar_intLiteral] at hread

theorem scanOnce_finite (names : Constants) (x : Finite64) (fuel : ℕ) {rest : Text}
    (hrest : NumberEnd rest) :
    scanOnce names (fuel + 1) (x.literal.text ++ rest) = some (.float (.finite x), rest) := by
  have hread := scanOnce_number names x.literal_wellFormed fuel hrest
  rwa [literalScalar_literal] at hread

theorem asciiString_quoted (k : CodeUnits) : ∃ body, asciiString k = '"' :: body ∧
    ∀ rest, scanString (body ++ rest) = some (k, rest) := by
  refine ⟨_, rfl, fun rest => ?_⟩
  rw [List.append_assoc]
  exact scanString_flatMap (fun u _ => scanString_asciiUnit u) rest

/-- A strict reader accepts what `json.dumps` writes if there is no `NaN` and no infinity. -/
theorem readsBack_dumps :
    ReadsBack standard dumpsScalar Scalar.Strict fun s => ¬ s.Strict where
  starts := starts_dumpsScalar
  good s fuel rest hgood hstr hrest := by
    cases s with
    | null => exact scanOnce_scalar standard (by decide) fuel _
    | bool b => cases b <;> exact scanOnce_scalar standard (by decide) fuel _
    | int n => exact scanOnce_intText standard n fuel hrest.numberEnd
    | float x =>
      cases x with
      | finite x => exact scanOnce_finite standard x fuel hrest.numberEnd
      | infinity neg => exact absurd (hgood _ rfl) (by simp [Binary64.isFinite])
      | nan => exact absurd (hgood _ rfl) (by simp [Binary64.isFinite])
    | str k => exact absurd rfl (hstr k)
  bad s fuel rest r hbad hstr _ hr := by
    cases s with
    | float x =>
      cases x with
      | finite x => exact absurd ((Scalar.strict_float_iff _).mpr rfl) hbad
      | infinity neg =>
        cases neg with
        | false => cases (scanOnce_scalar standard (by decide) fuel _).symm.trans hr
        | true => cases (scanOnce_scalar standard (by decide) fuel _).symm.trans hr
      | nan => cases (scanOnce_scalar standard (by decide) fuel _).symm.trans hr
    | _ => exact absurd (fun y hy => by cases hy) hbad
  goodString k _ := asciiString_quoted k
  badString k hbad := absurd (Scalar.strict_str k) hbad

theorem loads_dumps {v : Value} (hv : v.Distinct) (h : AllGood Scalar.Strict v) :
    loads standard (dumps v) = some v :=
  loads_print readsBack_dumps hv h

theorem loads_dumps_eq_none {v : Value} (hv : v.Distinct) (h : ¬ AllGood Scalar.Strict v) :
    loads standard (dumps v) = none :=
  loads_print_eq_none readsBack_dumps hv (fun _ _ hs => hs) h

/-- Python itself reads all that `json.dumps` writes. -/
theorem readsBack_dumps_python :
    ReadsBack python dumpsScalar (fun _ => True) fun _ => False where
  starts := starts_dumpsScalar
  good s fuel rest _ hstr hrest := by
    cases s with
    | null => exact scanOnce_scalar python (by decide) fuel _
    | bool b => cases b <;> exact scanOnce_scalar python (by decide) fuel _
    | int n => exact scanOnce_intText python n fuel hrest.numberEnd
    | float x =>
      cases x with
      | finite x => exact scanOnce_finite python x fuel hrest.numberEnd
      | infinity neg => cases neg <;> exact scanOnce_scalar python (by decide) fuel _
      | nan => exact scanOnce_scalar python (by decide) fuel _
    | str k => exact absurd rfl (hstr k)
  bad _ _ _ _ hbad := hbad.elim
  goodString k _ := asciiString_quoted k
  badString _ hbad := hbad.elim

theorem loads_dumps_python {v : Value} (hv : v.Distinct) : loads python (dumps v) = some v :=
  loads_print readsBack_dumps_python hv fun _ _ => trivial

end GridApps.Json
