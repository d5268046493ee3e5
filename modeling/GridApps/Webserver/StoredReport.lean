import GridApps.Json.Repr
import GridApps.Webserver.FreqServe

/-! A report between `freqRead.py`, which stores its `repr`, and `freqServe.py`, which reads that
as JSON. -/
namespace GridApps.Webserver
open Json Numeral

/-- The object under `data` of a decoded report line. -/
structure Report where
  members : Members
  distinct : (Value.obj members).Distinct

/-- `str(rxJson['data'])` with the decoder that was imported. -/
def Report.stored (d : Report) (lib : Library) (maxint : ℕ) : Text :=
  repr lib maxint (.obj d.members)

/-- What the server reads out is equal to what was stored. -/
def Report.RoundTrips (d : Report) (lib : Library) (maxint : ℕ) : Prop :=
  ∃ v, readReport (d.stored lib maxint) = some v ∧ Value.pyEq (.obj d.members) v = true

/-- A unit that `repr` leaves alone, or escapes in the way of JSON. -/
def CleanUnit (u : UInt16) : Prop :=
  (0x20 ≤ u.toNat ∧ u.toNat < 0x7F ∨ u = 0x09 ∨ u = 0x0A ∨ u = 0x0D) ∧ u ≠ 0x22 ∧ u ≠ 0x27

/-- The scalars on which Python literals and JSON agree. -/
def Recoverable (lib : Library) (maxint : ℕ) : Scalar → Prop
  | .null => False
  | .bool _ => False
  | .int n => -maxint - 1 ≤ n ∧ n ≤ maxint
  | .float x => x.isFinite = true
  | .str k => lib = .simplejson ∧ ∀ u ∈ k, CleanUnit u

/-- No single quote, and only the escapes of a `repr`. An escaped double quote comes from an
escaped single one. -/
inductive Escaped (quotes : Prop) : Text → Prop
  | nil : Escaped quotes []
  | plain {c t} : Plain c → Escaped quotes t → Escaped quotes (c :: t)
  | letter {e t} : e ∈ ['\\', 'n', 'r', 't', 'x', 'U'] ∨ quotes ∧ e = '"' → Escaped quotes t →
      Escaped quotes ('\\' :: e :: t)
  | unit {u t} : 0x100 ≤ u.toNat → Escaped quotes t →
      Escaped quotes ('\\' :: 'u' :: (hex4 u ++ t))

namespace Escaped

variable {quotes : Prop} {t u : Text}

theorem append (ht : Escaped quotes t) (hu : Escaped quotes u) : Escaped quotes (t ++ u) := by
  induction ht with
  | nil => exact hu
  | plain hc _ ih => exact ih.plain hc
  | letter he _ ih => exact ih.letter he
  | unit hv _ ih =>
    simp only [List.cons_append, List.append_assoc]
    exact ih.unit hv

theorem of_plain (h : ∀ c ∈ t, Plain c) : Escaped quotes t := by
  induction t with
  | nil => exact .nil
  | cons c t ih =>
    obtain ⟨hc, ht⟩ := List.forall_mem_cons.mp h
    exact (ih ht).plain hc

/-- What a string scanned from such a text holds. -/
def Permits (quotes : Prop) (k : CodeUnits) : Prop :=
  ∀ u ∈ k, u ≠ 0x27 ∧ (¬ quotes → u ≠ 0x22)

theorem permits_char {c : Char} (hc : Plain c) (hquote : c ≠ '"') :
    Permits quotes (unitsOfChar c) := by
  have hne : ∀ n : ℕ, n < 0x10000 → n ≠ 0x27 → n ≠ 0x22 →
      n.toUInt16 ≠ 0x27 ∧ n.toUInt16 ≠ 0x22 := by
    intro n hn h27 h22
    have hnat : n.toUInt16.toNat = n := Nat.mod_eq_of_lt hn
    constructor
    · intro h
      exact h27 (hnat ▸ congrArg UInt16.toNat h)
    · intro h
      exact h22 (hnat ▸ congrArg UInt16.toNat h)
  have hvalid : c.toNat < 0x110000 := by
    rcases c.valid with h | h
    · exact h.trans (by decide)
    · exact h.2
  intro u hu
  unfold unitsOfChar at hu
  split_ifs at hu with hlow
  · obtain rfl := List.mem_singleton.mp hu
    have hchar : ∀ d : Char, c ≠ d → c.toNat ≠ d.toNat := fun d hd h =>
      hd (by rw [← Char.ofNat_toNat c, h, Char.ofNat_toNat])
    have hboth := hne c.toNat hlow (hchar '\'' hc.2) (hchar '"' hquote)
    exact ⟨hboth.1, fun _ => hboth.2⟩
  · rw [List.mem_pair] at hu
    rcases hu with rfl | rfl
    · have hboth := hne (0xD800 + (c.toNat - 0x10000) / 0x400) (by omega) (by omega) (by omega)
      exact ⟨hboth.1, fun _ => hboth.2⟩
    · have hboth := hne (0xDC00 + (c.toNat - 0x10000) % 0x400) (by omega) (by omega) (by omega)
      exact ⟨hboth.1, fun _ => hboth.2⟩

theorem permits_letter {e : Char} (he : e ∈ ['\\', 'n', 'r', 't', 'x', 'U'] ∨ quotes ∧ e = '"')
    {u : UInt16} (hu : escapeUnit? e = some u) : Permits quotes [u] := by
  intro v hv
  obtain rfl := List.mem_singleton.mp hv
  rcases he with he | ⟨hquotes, rfl⟩
  · simp only [List.mem_cons, List.not_mem_nil, or_false] at he
    rcases he with rfl | rfl | rfl | rfl | rfl | rfl <;> cases hu <;>
      exact ⟨by decide, fun _ => by decide⟩
  · cases hu
    exact ⟨by decide, fun hnot => absurd hquotes hnot⟩

theorem permits_scan {us : CodeUnits} (hus : Permits quotes us) {t : Text}
    (ih : ∀ r, scanString t = some r → Permits quotes r.1 ∧ Escaped quotes r.2)
    {r : CodeUnits × Text} (h : (scanString t).map (consUnits us) = some r) :
    Permits quotes r.1 ∧ Escaped quotes r.2 := by
  obtain ⟨s, hs, rfl⟩ := Option.map_eq_some_iff.mp h
  obtain ⟨hk, hrest⟩ := ih s hs
  exact ⟨fun u hu => (List.mem_append.mp hu).elim (hus u) (hk u), hrest⟩

theorem scanString (ht : Escaped quotes t) {r : CodeUnits × Text}
    (h : scanString t = some r) : Permits quotes r.1 ∧ Escaped quotes r.2 := by
  induction ht generalizing r with
  | nil => simp [Json.scanString, scanFrom] at h
  | @plain c t hc ht ih =>
    by_cases hquote : c = '"'
    · rw [Json.scanString, scanFrom, if_pos hquote] at h
      obtain rfl := Option.some.inj h
      exact ⟨fun u hu => absurd hu List.not_mem_nil, ht⟩
    · by_cases hlow : c.toNat < 0x20
      · rw [Json.scanString, scanFrom, if_neg hquote, if_neg hc.1, if_pos hlow] at h
        contradiction
      · rw [scanString_plain hquote hc.1 (by omega)] at h
        exact permits_scan (permits_char hc hquote) (fun _ => ih) h
  | @letter e t he ht ih =>
    cases hunit : escapeUnit? e with
    | none =>
      rw [scanString_badEscape hunit] at h
      · contradiction
      · rintro rfl
        simp at he
    | some u =>
      rw [scanString_escape hunit] at h
      exact permits_scan (permits_letter he hunit) (fun _ => ih) h
  | @unit u t hu ht ih =>
    rw [scanString_hex4] at h
    refine permits_scan (fun v hv => ?_) (fun _ => ih) h
    obtain rfl := List.mem_singleton.mp hv
    constructor
    · rintro rfl
      exact absurd hu (by decide)
    · rintro - rfl
      exact absurd hu (by decide)

end Escaped

theorem tracks_escaped (quotes : Prop) :
    Tracks (Escaped quotes) (Escaped.Permits quotes) where
  skip c t ht hc := by
    cases ht with
    | plain _ ht => exact ht
    | letter => exact absurd rfl hc.1
    | unit => exact absurd rfl hc.1
  string _ _ ht h := ht.scanString h

theorem plain_hexChar {n : ℕ} (h : n < 16) : Plain (hexChar n) := by
  interval_cases n <;> exact ⟨by decide, by decide⟩

theorem plain_hex4 (u : UInt16) : ∀ c ∈ hex4 u, Plain c := by
  have hlt := u.toNat_lt
  simp only [hex4, List.forall_mem_cons, List.not_mem_nil, false_imp_iff, implies_true, and_true]
  exact ⟨plain_hexChar (by omega), plain_hexChar (by omega), plain_hexChar (by omega),
    plain_hexChar (by omega)⟩

@[simp] theorem replaceQuotes_append (t u : Text) :
    replaceQuotes (t ++ u) = replaceQuotes t ++ replaceQuotes u := List.map_append

theorem replaceQuotes_plain {t : Text} (h : ∀ c ∈ t, Plain c) : replaceQuotes t = t := by
  rw [replaceQuotes, List.map_congr_left (g := id), List.map_id]
  exact fun c hc => if_neg (h c hc).2

variable {quotes : Prop}

theorem escaped_replace {t : Text} (h : ∀ c ∈ t, c ≠ '\\') : Escaped quotes (replaceQuotes t) := by
  apply Escaped.of_plain
  intro c hc
  obtain ⟨d, hd, rfl⟩ := List.mem_map.mp hc
  split_ifs with hquote
  · exact ⟨by decide, by decide⟩
  · exact ⟨h d hd, hquote⟩

/-- Only a single quote is escaped as a quote. -/
theorem escaped_reprUnit {quote : Char} {u : UInt16}
    (h : u.toNat = quote.toNat → quotes ∧ quote = '\'') :
    Escaped quotes (replaceQuotes (reprUnit quote u)) := by
  have hletter : ∀ e ∈ ['\\', 'n', 'r', 't'], Escaped quotes (replaceQuotes ['\\', e]) := by
    intro e he
    simp only [List.mem_cons, List.not_mem_nil, or_false] at he
    rcases he with rfl | rfl | rfl | rfl <;> exact .letter (.inl (by decide)) .nil
  unfold reprUnit
  split_ifs with hescape hwide ht hn hr hlow
  · rcases hescape with hquote | rfl
    · obtain ⟨hquotes, rfl⟩ := h hquote
      rw [hquote]
      exact .letter (.inr ⟨hquotes, rfl⟩) .nil
    · exact hletter _ (by decide)
  · have htext : replaceQuotes ('\\' :: 'u' :: hex4 u) = '\\' :: 'u' :: (hex4 u ++ []) := by
      rw [List.append_nil]
      exact congrArg (fun t => '\\' :: 'u' :: t) (replaceQuotes_plain (plain_hex4 u))
    rw [htext]
    exact .unit hwide .nil
  · exact hletter _ (by decide)
  · exact hletter _ (by decide)
  · exact hletter _ (by decide)
  · have hhex : ∀ c ∈ hex2 u, c ≠ '\\' := by
      simp only [hex2, List.forall_mem_cons, List.not_mem_nil, false_imp_iff, implies_true,
        and_true]
      exact ⟨(plain_hexChar (by omega)).1, (plain_hexChar (by omega)).1⟩
    exact .letter (.inl (by decide)) (escaped_replace hhex)
  · rw [not_or] at hescape
    apply escaped_replace
    intro c hc
    obtain rfl := List.mem_singleton.mp hc
    exact charOfNat_ne (by omega) fun h => hescape.2 (UInt16.toNat.inj h)

theorem escaped_reprPair (u v : UInt16) : Escaped quotes (replaceQuotes (reprPair u v)) := by
  refine .letter (.inl (by decide)) (escaped_replace fun c hc => ?_)
  rcases List.mem_append.mp hc with hc | hc
  · exact (plain_hex4 _ c hc).1
  · exact (plain_hex4 _ c hc).1

theorem escaped_reprUnits {quote : Char} {k : CodeUnits}
    (h : ∀ u ∈ k, u.toNat = quote.toNat → quotes ∧ quote = '\'') :
    Escaped quotes (replaceQuotes (reprUnits quote k)) := by
  fun_induction reprUnits quote k with
  | case1 => exact .nil
  | case2 u => exact escaped_reprUnit (h u (List.mem_singleton_self u))
  | case3 u v k _ ih =>
    rw [replaceQuotes_append]
    exact (escaped_reprPair u v).append (ih fun w hw =>
      h w (List.mem_cons_of_mem _ (List.mem_cons_of_mem _ hw)))
  | case4 u v k _ ih =>
    rw [replaceQuotes_append]
    exact (escaped_reprUnit (h u List.mem_cons_self)).append (ih fun w hw =>
      h w (List.mem_cons_of_mem _ hw))

theorem escaped_reprString (lib : Library) {k : CodeUnits} (h : 0x27 ∈ k → quotes) :
    Escaped quotes (replaceQuotes (reprString lib k)) := by
  have hquote : quoteFor k ≠ '\\' := by
    unfold quoteFor
    split_ifs <;> decide
  have hunits : Escaped quotes (replaceQuotes (reprUnits (quoteFor k) k)) := by
    apply escaped_reprUnits
    intro u hu hq
    unfold quoteFor at hq ⊢
    split_ifs at hq ⊢ with hsingle
    · have hdouble : u = 0x22 := UInt16.toNat.inj hq
      exact absurd (hdouble ▸ hu) hsingle.2
    · have hsingle : u = 0x27 := UInt16.toNat.inj hq
      exact ⟨h (hsingle ▸ hu), rfl⟩
  have hfront : Escaped quotes (replaceQuotes (if lib.isUnicode k then ['u'] else [])) := by
    apply escaped_replace
    split_ifs <;> simp
  have hmark : Escaped quotes (replaceQuotes [quoteFor k]) :=
    escaped_replace fun c hc => List.mem_singleton.mp hc ▸ hquote
  have hbody := hmark.append (hunits.append hmark)
  rw [← replaceQuotes_append, ← replaceQuotes_append] at hbody
  rw [reprString, replaceQuotes_append]
  exact hfront.append hbody

theorem escaped_reprScalar (lib : Library) (maxint : ℕ) {s : Scalar}
    (h : ∀ k, s = .str k → 0x27 ∈ k → quotes) :
    Escaped quotes (replaceQuotes (reprScalar lib maxint s)) := by
  cases s with
  | null => exact escaped_replace (by simp [reprScalar])
  | bool b => cases b <;> exact escaped_replace (by simp [reprScalar])
  | int n =>
    apply escaped_replace
    intro c hc
    rcases List.mem_append.mp hc with hc | hc
    · exact (plain_number (intLiteral_wellFormed n) c hc).1
    · split_ifs at hc
      · exact absurd hc List.not_mem_nil
      · rw [List.mem_singleton.mp hc]
        decide
  | float x =>
    apply escaped_replace
    cases x with
    | finite x => exact fun c hc => (plain_number x.literal_wellFormed c hc).1
    | infinity neg => cases neg <;> simp [reprScalar, reprFloat]
    | nan => simp [reprScalar, reprFloat]
  | str k => exact escaped_reprString lib (h k rfl)

theorem escaped_repr (lib : Library) (maxint : ℕ) {v : Value}
    (h : v.Strings fun k => 0x27 ∈ k → quotes) :
    Escaped quotes (replaceQuotes (repr lib maxint v)) := by
  refine Value.print_rel (R := fun t _ => Escaped quotes (replaceQuotes t)) (g := fun _ => [])
    ?_ ?_ ?_
  · intro t _ u _ ht hu
    rw [replaceQuotes_append]
    exact ht.append hu
  · intro c hc
    exact escaped_replace fun d hd => by
      rw [List.mem_singleton.mp hd]
      rintro rfl
      simp at hc
  · exact fun s hs => escaped_reprScalar lib maxint fun k hk => h k (hk ▸ hs)

/-- A report that is read back has no quote of either kind in a string. -/
theorem Report.RoundTrips.noQuotes {d : Report} {lib : Library} {maxint : ℕ}
    (h : d.RoundTrips lib maxint) :
    (Value.obj d.members).Strings fun k => ∀ u ∈ k, u ≠ 0x27 ∧ u ≠ 0x22 := by
  obtain ⟨v, hv, heq⟩ := h
  have hread : ∀ quotes, ((Value.obj d.members).Strings fun k => 0x27 ∈ k → quotes) →
      (Value.obj d.members).Strings (Escaped.Permits quotes) := by
    intro quotes hquotes k hk
    have hstrings := (tracks_escaped quotes).loads (builds_strings _) plainNames_python
      (escaped_repr lib maxint hquotes) hv
    exact hstrings k (Value.str_mem_of_pyEq heq hk)
  have hsingle := hread True fun _ _ _ => trivial
  have hboth := hread False fun k hk hmem => (hsingle k hk _ hmem).1 rfl
  exact fun k hk u hu => ⟨(hboth k hk u hu).1, (hboth k hk u hu).2 not_false⟩

/-- The text of a scalar in the stored report after the quotes are replaced. -/
def readText (lib : Library) (maxint : ℕ) (s : Scalar) : Text :=
  replaceQuotes (reprScalar lib maxint s)

theorem replaceQuotes_repr (lib : Library) (maxint : ℕ) (v : Value) :
    replaceQuotes (repr lib maxint v) = v.print (readText lib maxint) :=
  Value.print_map (by simp) _ v

theorem readText_int (lib : Library) (maxint : ℕ) (n : ℤ) :
    readText lib maxint (.int n) =
      intText n ++ if -maxint - 1 ≤ n ∧ n ≤ maxint then [] else ['L'] := by
  have hplain := replaceQuotes_plain (plain_number (intLiteral_wellFormed n))
  rw [readText, reprScalar, reprInt, replaceQuotes_append, intText, hplain]
  split_ifs <;> rfl

theorem readText_finite (lib : Library) (maxint : ℕ) (x : Finite64) :
    readText lib maxint (.float (.finite x)) = x.literal.text :=
  replaceQuotes_plain (plain_number x.literal_wellFormed)

theorem readText_str (lib : Library) (maxint : ℕ) (k : CodeUnits) :
    readText lib maxint (.str k) = (if lib.isUnicode k then ['u'] else []) ++
      '"' :: (replaceQuotes (reprUnits (quoteFor k) k) ++ ['"']) := by
  have hquote : replaceQuotes [quoteFor k] = ['"'] := by
    unfold quoteFor
    split_ifs <;> rfl
  have hfront : replaceQuotes (if lib.isUnicode k then ['u'] else []) =
      if lib.isUnicode k then ['u'] else [] := by
    split_ifs <;> rfl
  have hbody : replaceQuotes (quoteFor k :: (reprUnits (quoteFor k) k ++ [quoteFor k])) =
      '"' :: (replaceQuotes (reprUnits (quoteFor k) k) ++ ['"']) := by
    rw [← List.singleton_append, replaceQuotes_append, replaceQuotes_append, hquote]
    rfl
  rw [readText, reprScalar, reprString, replaceQuotes_append, hfront, hbody]

/-- A string of ASCII characters without quotes is written unit by unit. -/
theorem reprUnits_ascii {k : CodeUnits} (h : ∀ u ∈ k, u.toNat < 0x80) (quote : Char) :
    reprUnits quote k = k.flatMap (reprUnit quote) := by
  fun_induction reprUnits quote k with
  | case1 => rfl
  | case2 u => simp
  | case3 u v k hpair =>
    have hu := h u List.mem_cons_self
    have := hpair.1.1
    omega
  | case4 u v k _ ih =>
    rw [List.flatMap_cons, ih fun w hw => h w (List.mem_cons_of_mem _ hw)]

theorem replaceQuotes_flatMap (f : UInt16 → Text) (k : CodeUnits) :
    replaceQuotes (k.flatMap f) = k.flatMap fun u => replaceQuotes (f u) :=
  List.map_flatMap

theorem scanString_reprUnit {u : UInt16} (h : CleanUnit u) (t : Text) :
    scanString (replaceQuotes (reprUnit '\'' u) ++ t) = (scanString t).map (consUnits [u]) := by
  obtain ⟨⟨hlow, hhigh⟩ | rfl | rfl | rfl, hdouble, hsingle⟩ := h
  · by_cases hback : u = 0x5C
    · rw [hback]
      exact scanString_escape (by decide) t
    · have hq : u.toNat ≠ '\''.toNat := fun h => hsingle (UInt16.toNat.inj h)
      have hb : u.toNat ≠ '\\'.toNat := fun h => hback (UInt16.toNat.inj h)
      have hplain : ∀ c ∈ [Char.ofNat u.toNat], Plain c := by
        intro c hc
        rw [List.mem_singleton.mp hc]
        exact ⟨charOfNat_ne hhigh hb, charOfNat_ne hhigh hq⟩
      have hne : ∀ v : UInt16, v.toNat < 0x20 → u ≠ v := by
        rintro v hv rfl
        omega
      rw [reprUnit, if_neg (not_or.mpr ⟨hq, hback⟩), if_neg (by omega),
        if_neg (hne 0x09 (by decide)), if_neg (hne 0x0A (by decide)),
        if_neg (hne 0x0D (by decide)), if_neg (by omega), replaceQuotes_plain hplain]
      exact scanString_ascii hlow hhigh hdouble hback t
  · exact scanString_escape (by decide) t
  · exact scanString_escape (by decide) t
  · exact scanString_escape (by decide) t

theorem scanString_reprUnit_eq_none {u : UInt16} (hascii : u.toNat < 0x80) (hdouble : u ≠ 0x22)
    (hsingle : u ≠ 0x27) (h : ¬ CleanUnit u) (t : Text) :
    scanString (replaceQuotes (reprUnit '\'' u) ++ t) = none := by
  rw [CleanUnit, not_and_or, not_or, not_or, not_or] at h
  obtain ⟨hprint, htab, hnewline, hreturn⟩ := h.resolve_right fun h => h ⟨hdouble, hsingle⟩
  have hq : u.toNat ≠ '\''.toNat := fun h => hsingle (UInt16.toNat.inj h)
  have hback : u ≠ 0x5C := by
    rintro rfl
    exact hprint (by decide)
  rw [reprUnit, if_neg (not_or.mpr ⟨hq, hback⟩), if_neg (by omega), if_neg htab, if_neg hnewline,
    if_neg hreturn, if_pos (by omega)]
  exact scanString_badEscape (by decide) (by decide) _

/-- The scalars whose text stops the scan, where no string has a quote. -/
def Unreadable (lib : Library) (maxint : ℕ) (s : Scalar) : Prop :=
  ¬ Recoverable lib maxint s ∧ ∀ k, s = .str k → ∀ u ∈ k, u ≠ 0x27 ∧ u ≠ 0x22

theorem isUnicode_eq_false {lib : Library} {k : CodeUnits} (h : lib.isUnicode k = false) :
    lib = .simplejson ∧ ∀ u ∈ k, u.toNat < 0x80 := by
  cases lib with
  | simplejson =>
    simp only [Library.isUnicode, List.any_eq_false, decide_eq_true_eq] at h
    exact ⟨rfl, fun u hu => by have := h u hu; omega⟩
  | json => contradiction

theorem CleanUnit.lt {u : UInt16} (h : CleanUnit u) : u.toNat < 0x80 := by
  obtain ⟨⟨-, h⟩ | rfl | rfl | rfl, -⟩ := h
  · omega
  · decide
  · decide
  · decide

/-- The body of a byte string without quotes. -/
theorem readText_ascii {lib : Library} {maxint : ℕ} {k : CodeUnits}
    (hlib : lib.isUnicode k = false) (hsingle : ∀ u ∈ k, u ≠ 0x27) :
    readText lib maxint (.str k) =
      '"' :: (k.flatMap (fun u => replaceQuotes (reprUnit '\'' u)) ++ ['"']) := by
  have hquote : quoteFor k = '\'' := if_neg fun h => hsingle _ h.1 rfl
  rw [readText_str, hlib, hquote, reprUnits_ascii (isUnicode_eq_false hlib).2,
    replaceQuotes_flatMap, if_neg Bool.false_ne_true, List.nil_append]

theorem starts_readText (lib : Library) (maxint : ℕ) (s : Scalar) :
    Starts (readText lib maxint s) := by
  cases s with
  | null => exact ⟨'N', _, rfl, by decide⟩
  | bool b => cases b <;> exact ⟨_, _, rfl, by decide⟩
  | int n =>
    rw [readText_int]
    exact (starts_number (intLiteral_wellFormed n)).append _
  | float x =>
    cases x with
    | finite x =>
      rw [readText_finite]
      exact starts_number x.literal_wellFormed
    | infinity neg => cases neg <;> exact ⟨_, _, rfl, by decide⟩
    | nan => exact ⟨_, _, rfl, by decide⟩
  | str k =>
    rw [readText_str]
    split_ifs <;> exact ⟨_, _, rfl, by decide⟩

/-- Numbers in range are read as they were. -/
theorem scanOnce_readText {lib : Library} {maxint : ℕ} {s : Scalar}
    (hgood : Recoverable lib maxint s) (hstr : ∀ k, s ≠ .str k) (fuel : ℕ) {rest : Text}
    (hrest : Delimited rest) :
    scanOnce python (fuel + 1) (readText lib maxint s ++ rest) = some (.scalar s, rest) := by
  cases s with
  | null => exact hgood.elim
  | bool b => exact hgood.elim
  | int n =>
    have hrange : -(maxint : ℤ) - 1 ≤ n ∧ n ≤ maxint := hgood
    have hread := scanOnce_number python (intLiteral_wellFormed n) fuel hrest.numberEnd
    rw [readText_int, if_pos hrange, List.append_nil]
    rwa [literalScalar_intLiteral] at hread
  | float x =>
    cases x with
    | finite x =>
      have hread := scanOnce_number python x.literal_wellFormed fuel hrest.numberEnd
      rwa [literalScalar_literal, ← readText_finite lib maxint] at hread
    | infinity neg => contradiction
    | nan => contradiction
  | str k => exact absurd rfl (hstr k)

/-- A long integer is read up to its `L`; the other texts are not read at all. -/
theorem stuck_readText {lib : Library} {maxint : ℕ} {s : Scalar}
    (hbad : ¬ Recoverable lib maxint s) (hstr : ∀ k, s ≠ .str k) {fuel : ℕ} {rest : Text}
    {r : Value × Text}
    (hr : scanOnce python (fuel + 1) (readText lib maxint s ++ rest) = some r) : Stuck r.2 := by
  cases s with
  | null => cases (scanOnce_scalar python (by decide) fuel _).symm.trans hr
  | bool b => cases b <;> cases (scanOnce_scalar python (by decide) fuel _).symm.trans hr
  | int n =>
    have hend : NumberEnd ('L' :: rest) := by
      intro c hc
      obtain rfl := Option.some.inj hc
      decide
    have hrange : ¬ (-(maxint : ℤ) - 1 ≤ n ∧ n ≤ maxint) := hbad
    rw [readText_int, if_neg hrange, List.append_assoc] at hr
    obtain rfl := Option.some.inj
      ((scanOnce_number python (intLiteral_wellFormed n) fuel hend).symm.trans hr)
    exact ⟨'L', rest, rfl, by decide⟩
  | float x =>
    cases x with
    | finite x => exact absurd rfl hbad
    | infinity neg => cases neg <;> cases (scanOnce_scalar python (by decide) fuel _).symm.trans hr
    | nan => cases (scanOnce_scalar python (by decide) fuel _).symm.trans hr
  | str k => exact absurd rfl (hstr k)

theorem scanString_readText {lib : Library} {maxint : ℕ} {k : CodeUnits}
    (hgood : Recoverable lib maxint (.str k)) :
    ∃ body, readText lib maxint (.str k) = '"' :: body ∧
      ∀ rest, scanString (body ++ rest) = some (k, rest) := by
  obtain ⟨rfl, hclean⟩ := hgood
  have hlib : Library.simplejson.isUnicode k = false := by
    simp only [Library.isUnicode, List.any_eq_false, decide_eq_true_eq]
    exact fun u hu => not_le.mpr (hclean u hu).lt
  refine ⟨_, readText_ascii hlib fun u hu => (hclean u hu).2.2, fun rest => ?_⟩
  rw [List.append_assoc]
  exact scanString_flatMap (fun u hu => scanString_reprUnit (hclean u hu)) rest

/-- A byte string with a unit that is not clean ends in an escape that JSON does not have. -/
theorem scanString_eq_none_of_unclean {k : CodeUnits} (hascii : ∀ u ∈ k, u.toNat < 0x80)
    (hquotes : ∀ u ∈ k, u ≠ 0x27 ∧ u ≠ 0x22) (hunclean : ∃ u ∈ k, ¬ CleanUnit u) (rest : Text) :
    scanString (k.flatMap (fun u => replaceQuotes (reprUnit '\'' u)) ++ rest) = none := by
  apply scanString_flatMap_eq_none
  · intro u hu
    by_cases hclean : CleanUnit u
    · exact .inl (scanString_reprUnit hclean)
    · exact .inr (scanString_reprUnit_eq_none (hascii u hu) (hquotes u hu).2
        (hquotes u hu).1 hclean)
  · obtain ⟨u, hu, hclean⟩ := hunclean
    exact ⟨u, hu, scanString_reprUnit_eq_none (hascii u hu) (hquotes u hu).2
      (hquotes u hu).1 hclean⟩

theorem readText_unreadable {lib : Library} {maxint : ℕ} {k : CodeUnits}
    (hbad : Unreadable lib maxint (.str k)) :
    (∀ rest fuel, scanOnce python fuel (readText lib maxint (.str k) ++ rest) = none) ∧
    ∀ body, readText lib maxint (.str k) = '"' :: body →
      ∀ rest, scanString (body ++ rest) = none := by
  obtain ⟨hnot, hquotes⟩ := hbad
  have hquotes := hquotes k rfl
  cases hlib : lib.isUnicode k with
  | true =>
    rw [readText_str, hlib, if_pos rfl]
    refine ⟨fun rest fuel => ?_, fun body hbody => ?_⟩
    · cases fuel with
      | zero => rfl
      | succ fuel => exact scanOnce_scalar python (by decide) fuel _
    · exact absurd (List.cons_eq_cons.mp hbody).1 (by decide)
  | false =>
    obtain ⟨rfl, hascii⟩ := isUnicode_eq_false hlib
    have hunclean : ∃ u ∈ k, ¬ CleanUnit u := by
      by_contra hall
      exact hnot ⟨rfl, fun u hu => by_contra fun hclean => hall ⟨u, hu, hclean⟩⟩
    have hscan := scanString_eq_none_of_unclean hascii hquotes hunclean
    rw [readText_ascii hlib fun u hu => (hquotes u hu).1]
    refine ⟨fun rest fuel => ?_, fun body hbody rest => ?_⟩
    · cases fuel with
      | zero => rfl
      | succ fuel =>
        rw [List.cons_append, scanOnce, if_pos rfl, List.append_assoc, hscan]
        rfl
    · rw [← (List.cons_eq_cons.mp hbody).2, List.append_assoc]
      exact hscan _

theorem readsBack_readText (lib : Library) (maxint : ℕ) :
    ReadsBack python (readText lib maxint) (Recoverable lib maxint) (Unreadable lib maxint) where
  starts := starts_readText lib maxint
  good _ fuel _ hgood hstr hrest := scanOnce_readText hgood hstr fuel hrest
  bad _ _ _ _ hbad hstr _ hr := stuck_readText hbad.1 hstr hr
  goodString _ hgood := scanString_readText hgood
  badString _ hbad := readText_unreadable hbad

theorem not_nan_of_recoverable {lib : Library} {maxint : ℕ} {v : Value}
    (h : AllGood (Recoverable lib maxint) v) : ∀ s ∈ v.scalars, s ≠ .float .nan := by
  rintro s hs rfl
  exact Bool.false_ne_true (h _ hs)

/-- A report is read back as it was exactly when all that it holds are numbers in range and, if
`simplejson` decoded it, strings of plain ASCII text without quotes. -/
theorem Report.roundTrips_iff (d : Report) (lib : Library) (maxint : ℕ) :
    d.RoundTrips lib maxint ↔ ∀ s ∈ (Value.obj d.members).scalars, Recoverable lib maxint s := by
  constructor
  · intro h
    have hquotes := h.noQuotes
    obtain ⟨v, hv, -⟩ := h
    by_contra hnot
    rw [readReport, Report.stored, replaceQuotes_repr,
      loads_print_eq_none (readsBack_readText lib maxint) d.distinct _ hnot] at hv
    · contradiction
    · exact fun s hs hs' => ⟨hs', fun k hk => hquotes k (hk ▸ hs)⟩
  · intro h
    refine ⟨_, ?_, Value.pyEq_refl d.distinct (not_nan_of_recoverable h)⟩
    rw [readReport, Report.stored, replaceQuotes_repr]
    exact loads_print (readsBack_readText lib maxint) d.distinct h

/-- One Boolean is enough. -/
theorem Report.roundTrips_fails :
    ¬ ∀ (d : Report) (lib : Library) (maxint : ℕ), d.RoundTrips lib maxint := by
  intro h
  obtain ⟨v, hv, -⟩ := h ⟨[(units ['a'], .bool true)], by decide⟩ .simplejson (2 ^ 63 - 1)
  have hnone : (readReport (Report.stored ⟨[(units ['a'], .bool true)], by decide⟩
      .simplejson (2 ^ 63 - 1))).isNone = true := by decide
  rw [hv] at hnone
  contradiction

end GridApps.Webserver
