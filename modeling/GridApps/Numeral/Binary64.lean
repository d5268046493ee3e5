import Mathlib.Data.Int.Log
import Mathlib.Data.Rat.Floor
import Mathlib.Tactic

/-! IEEE 754 binary64 numbers with exact rational values, and correct rounding:
to the nearest number, ties to an even significand. -/
namespace GridApps.Numeral

/-- The nearest integer, the even one of two that are equally near. -/
def roundEven (q : ℚ) : ℤ :=
  if 2 * (q - ⌊q⌋) < 1 then ⌊q⌋
  else if 1 < 2 * (q - ⌊q⌋) then ⌊q⌋ + 1
  else if 2 ∣ ⌊q⌋ then ⌊q⌋ else ⌊q⌋ + 1

theorem le_roundEven {k : ℤ} {q : ℚ} (h : (k : ℚ) ≤ q) : k ≤ roundEven q := by
  have hk := Int.le_floor.mpr h
  unfold roundEven
  split_ifs <;> omega

theorem roundEven_le {k : ℤ} {q : ℚ} (h : q ≤ (k : ℚ)) : roundEven q ≤ k := by
  rcases h.eq_or_lt with heq | hlt
  · simp [roundEven, heq]
  · have hk := Int.floor_lt.mpr hlt
    unfold roundEven
    split_ifs <;> omega

/-- The finite numbers, one pair for each: subnormal at the least exponent, otherwise
with a leading bit. -/
def Canonical (mant : ℕ) (exp : ℤ) : Prop :=
  mant < 2 ^ 53 ∧ -1074 ≤ exp ∧ exp ≤ 971 ∧ (exp = -1074 ∨ 2 ^ 52 ≤ mant)

instance (mant : ℕ) (exp : ℤ) : Decidable (Canonical mant exp) := by
  unfold Canonical
  infer_instance

def scaled (mant : ℕ) (exp : ℤ) : ℚ := mant * 2 ^ exp

structure Finite64 where
  neg : Bool
  mant : ℕ
  exp : ℤ
  canonical : Canonical mant exp
  deriving DecidableEq, Repr

def Finite64.magnitude (x : Finite64) : ℚ := scaled x.mant x.exp

def Finite64.value (x : Finite64) : ℚ := if x.neg then -x.magnitude else x.magnitude

inductive Binary64 where
  | finite (x : Finite64)
  | infinity (neg : Bool)
  | nan
  deriving DecidableEq, Repr

/-- The exponent of the last bit that is kept of `q`. -/
def expOf (q : ℚ) : ℤ := if q = 0 then -1074 else max (Int.log 2 q - 52) (-1074)

def mantOf (q : ℚ) : ℕ := (roundEven (q / 2 ^ expOf q)).toNat

def pack (neg : Bool) (mant : ℕ) (exp : ℤ) : Binary64 :=
  if h : Canonical mant exp then .finite ⟨neg, mant, exp, h⟩ else .infinity neg

/-- Round the magnitude `q`; a significand that rounds up to `2 ^ 53` moves to the next
exponent. -/
def ofMagnitude (neg : Bool) (q : ℚ) : Binary64 :=
  if mantOf q = 2 ^ 53 then pack neg (2 ^ 52) (expOf q + 1) else pack neg (mantOf q) (expOf q)

def ofRat (q : ℚ) : Binary64 := ofMagnitude (decide (q < 0)) |q|

namespace Binary64

/-- The comparisons with a number; both are false of a NaN. -/
def ge (x : Binary64) (q : ℚ) : Bool :=
  match x with
  | .finite x => decide (q ≤ x.value)
  | .infinity neg => !neg
  | .nan => false

def lt (x : Binary64) (q : ℚ) : Bool :=
  match x with
  | .finite x => decide (x.value < q)
  | .infinity neg => neg
  | .nan => false

def isFinite : Binary64 → Bool
  | .finite _ => true
  | _ => false

end Binary64

theorem two_zpow_pos (e : ℤ) : (0 : ℚ) < 2 ^ e := zpow_pos two_pos e

theorem scaled_nonneg (m : ℕ) (e : ℤ) : 0 ≤ scaled m e :=
  mul_nonneg m.cast_nonneg (two_zpow_pos e).le

theorem expOf_ge (q : ℚ) : -1074 ≤ expOf q := by
  unfold expOf
  split_ifs
  · exact le_rfl
  · exact le_max_right _ _

theorem lt_two_zpow_expOf {q : ℚ} (hq : 0 ≤ q) : q < 2 ^ (expOf q + 53) := by
  rcases hq.eq_or_lt with rfl | hpos
  · exact two_zpow_pos _
  · have hlog := Int.lt_zpow_succ_log_self one_lt_two q
    apply hlog.trans_le
    have he : Int.log 2 q - 52 ≤ expOf q := by
      rw [expOf, if_neg hpos.ne']
      exact le_max_left _ _
    exact zpow_le_zpow_right₀ one_le_two (by omega)

/-- Above the least exponent the quotient has its leading bit. -/
theorem two_zpow_expOf_le {q : ℚ} (hq : 0 ≤ q) (he : expOf q ≠ -1074) :
    (2 : ℚ) ^ (expOf q + 52) ≤ q := by
  have hne : q ≠ 0 := by
    intro h
    exact he (if_pos h)
  have hpos : 0 < q := lt_of_le_of_ne hq hne.symm
  have hlog : expOf q = Int.log 2 q - 52 := by
    rw [expOf, if_neg hne] at he ⊢
    exact max_eq_left (by omega)
  have hself := Int.zpow_log_le_self one_lt_two hpos
  rwa [hlog, sub_add_cancel]

theorem mantOf_cast {q : ℚ} (hq : 0 ≤ q) : (mantOf q : ℤ) = roundEven (q / 2 ^ expOf q) := by
  apply Int.toNat_of_nonneg
  apply le_roundEven
  exact_mod_cast div_nonneg hq (two_zpow_pos _).le

theorem le_mantOf {q : ℚ} (hq : 0 ≤ q) {k : ℕ} (h : scaled k (expOf q) ≤ q) : k ≤ mantOf q := by
  have hk : ((k : ℤ) : ℚ) ≤ q / 2 ^ expOf q := by
    rw [le_div_iff₀ (two_zpow_pos _)]
    exact_mod_cast h
  have := le_roundEven hk
  rw [← mantOf_cast hq] at this
  exact_mod_cast this

theorem mantOf_le {q : ℚ} (hq : 0 ≤ q) {k : ℕ} (h : q ≤ scaled k (expOf q)) : mantOf q ≤ k := by
  have hk : q / 2 ^ expOf q ≤ ((k : ℤ) : ℚ) := by
    rw [div_le_iff₀ (two_zpow_pos _)]
    exact_mod_cast h
  have := roundEven_le hk
  rw [← mantOf_cast hq] at this
  exact_mod_cast this

theorem scaled_two_pow (k : ℕ) (e : ℤ) : scaled (2 ^ k) e = 2 ^ (e + k) := by
  rw [scaled, zpow_add₀ two_ne_zero]
  push_cast
  rw [zpow_natCast, mul_comm]

theorem mantOf_le_two_pow {q : ℚ} (hq : 0 ≤ q) : mantOf q ≤ 2 ^ 53 := by
  apply mantOf_le hq
  rw [scaled_two_pow]
  exact (lt_two_zpow_expOf hq).le

theorem two_pow_le_mantOf {q : ℚ} (hq : 0 ≤ q) (he : expOf q ≠ -1074) : 2 ^ 52 ≤ mantOf q := by
  apply le_mantOf hq
  rw [scaled_two_pow]
  exact two_zpow_expOf_le hq he

/-- A number on a grid at least as coarse as `2 ^ e` is a multiple of `2 ^ e`. -/
theorem scaled_refine (m : ℕ) {e e' : ℤ} (h : e ≤ e') :
    scaled m e' = scaled (m * 2 ^ (e' - e).toNat) e := by
  have hsplit : (2 : ℚ) ^ e' = 2 ^ (e' - e).toNat * 2 ^ e := by
    rw [← zpow_natCast, Int.toNat_of_nonneg (by omega), ← zpow_add₀ two_ne_zero]
    congr 1
    omega
  rw [scaled, scaled, hsplit]
  push_cast
  ring

theorem scaled_lt {m : ℕ} {e : ℤ} (h : m < 2 ^ 53) : scaled m e < 2 ^ (e + 53) := by
  have hm : (m : ℚ) < 2 ^ 53 := by exact_mod_cast h
  have := mul_lt_mul_of_pos_right hm (two_zpow_pos e)
  rw [scaled]
  apply this.trans_le
  rw [zpow_add₀ two_ne_zero, mul_comm]
  exact le_of_eq (by norm_num)

/-- What `q` is rounded to before it is packed. -/
def rounded (q : ℚ) : ℚ := scaled (mantOf q) (expOf q)

theorem scaled_mono {m n : ℕ} (h : m ≤ n) (e : ℤ) : scaled m e ≤ scaled n e :=
  mul_le_mul_of_nonneg_right (by exact_mod_cast h) (two_zpow_pos e).le

theorem le_rounded {q : ℚ} (hq : 0 ≤ q) {m : ℕ} {e : ℤ} (hc : Canonical m e)
    (h : scaled m e ≤ q) : scaled m e ≤ rounded q := by
  rcases le_or_gt (expOf q) e with he | he
  · rw [scaled_refine m he] at h ⊢
    exact scaled_mono (le_mantOf hq h) _
  · have hne : expOf q ≠ -1074 := by have := hc.2.1; omega
    have hlow := scaled_mono (two_pow_le_mantOf hq hne) (expOf q)
    rw [scaled_two_pow] at hlow
    refine (scaled_lt hc.1).le.trans (le_trans ?_ hlow)
    exact zpow_le_zpow_right₀ one_le_two (by push_cast; omega)

theorem rounded_le {q : ℚ} (hq : 0 ≤ q) {m : ℕ} {e : ℤ} (hc : Canonical m e)
    (h : q ≤ scaled m e) : rounded q ≤ scaled m e := by
  rcases le_or_gt (expOf q) e with he | he
  · rw [scaled_refine m he] at h ⊢
    exact scaled_mono (mantOf_le hq h) _
  · have hne : expOf q ≠ -1074 := by have := hc.2.1; omega
    have hbig : q < q := calc
      q ≤ scaled m e := h
      _ < 2 ^ (e + 53) := scaled_lt hc.1
      _ ≤ 2 ^ (expOf q + 52) := zpow_le_zpow_right₀ one_le_two (by omega)
      _ ≤ q := two_zpow_expOf_le hq hne
    exact absurd hbig (lt_irrefl q)

theorem expOf_le {q : ℚ} (hq : 0 ≤ q) {m : ℕ} {e : ℤ} (hc : Canonical m e)
    (h : q ≤ scaled m e) : expOf q ≤ 971 := by
  by_contra hgt
  have hbig : q < q := calc
    q ≤ scaled m e := h
    _ < 2 ^ (e + 53) := scaled_lt hc.1
    _ ≤ 2 ^ (expOf q + 52) := zpow_le_zpow_right₀ one_le_two (by have := hc.2.2.1; omega)
    _ ≤ q := two_zpow_expOf_le hq (by omega)
  exact lt_irrefl q hbig

/-- Up to the largest finite number nothing overflows. -/
theorem ofMagnitude_finite (neg : Bool) {q : ℚ} (hq : 0 ≤ q) {m : ℕ} {e : ℤ}
    (hc : Canonical m e) (h : q ≤ scaled m e) :
    ∃ x : Finite64, ofMagnitude neg q = .finite x ∧ x.neg = neg ∧ x.magnitude = rounded q := by
  have hle := expOf_le hq hc h
  have hge := expOf_ge q
  unfold ofMagnitude
  split_ifs with hm
  · have hcarry : rounded q = scaled (2 ^ 52) (expOf q + 1) := by
      rw [rounded, hm, scaled_two_pow, scaled_two_pow]
      congr 1
      push_cast
      omega
    have hlt : expOf q < 971 := by
      by_contra hnlt
      have hround := rounded_le hq hc h
      rw [hcarry, scaled_two_pow] at hround
      have hbig : (2 : ℚ) ^ (e + 53) ≤ 2 ^ (expOf q + 1 + (52 : ℕ)) :=
        zpow_le_zpow_right₀ one_le_two (by have := hc.2.2.1; push_cast; omega)
      exact absurd (scaled_lt hc.1) (not_lt.mpr (hbig.trans hround))
    have hcan : Canonical (2 ^ 52) (expOf q + 1) :=
      ⟨by norm_num, by omega, by omega, .inr le_rfl⟩
    exact ⟨⟨neg, _, _, hcan⟩, dif_pos hcan, rfl, hcarry.symm⟩
  · have hcan : Canonical (mantOf q) (expOf q) := by
      refine ⟨lt_of_le_of_ne (mantOf_le_two_pow hq) hm, hge, hle, ?_⟩
      rcases eq_or_ne (expOf q) (-1074) with he | he
      · exact .inl he
      · exact .inr (two_pow_le_mantOf hq he)
    exact ⟨⟨neg, _, _, hcan⟩, dif_pos hcan, rfl, rfl⟩

/-- Different canonical pairs are different numbers. -/
theorem canonical_inj {m n : ℕ} {d e : ℤ} (hm : Canonical m d) (hn : Canonical n e)
    (h : scaled m d = scaled n e) : m = n ∧ d = e := by
  have key {m n : ℕ} {d e : ℤ} (hm : Canonical m d) (hn : Canonical n e)
      (h : scaled m d = scaled n e) : d ≤ e := by
    by_contra hlt
    have hlow : 2 ^ 52 ≤ m := by
      rcases hm.2.2.2 with hd | hd
      · have := hn.2.1; omega
      · exact hd
    have hbig : scaled m d < scaled m d := calc
      scaled m d = scaled n e := h
      _ < 2 ^ (e + 53) := scaled_lt hn.1
      _ ≤ 2 ^ (d + (52 : ℕ)) := zpow_le_zpow_right₀ one_le_two (by push_cast; omega)
      _ = scaled (2 ^ 52) d := (scaled_two_pow 52 d).symm
      _ ≤ scaled m d := scaled_mono hlow d
    exact lt_irrefl _ hbig
  have hde : d = e := le_antisymm (key hm hn h) (key hn hm h.symm)
  subst hde
  have hmul := mul_right_cancel₀ (two_zpow_pos d).ne' h
  exact ⟨by exact_mod_cast hmul, rfl⟩

/-- A finite number is rounded to itself. -/
theorem ofMagnitude_magnitude (x : Finite64) : ofMagnitude x.neg x.magnitude = .finite x := by
  have hq : 0 ≤ x.magnitude := scaled_nonneg _ _
  obtain ⟨y, hy, hneg, hmag⟩ := ofMagnitude_finite x.neg hq x.canonical le_rfl
  have hval : y.magnitude = x.magnitude := by
    rw [hmag]
    exact le_antisymm (rounded_le hq x.canonical le_rfl) (le_rounded hq x.canonical le_rfl)
  obtain ⟨hm, he⟩ := canonical_inj y.canonical x.canonical hval
  rw [hy]
  obtain ⟨n, m, e, hc⟩ := y
  obtain ⟨n', m', e', hc'⟩ := x
  simp only at hneg hm he
  subst hneg hm he
  rfl

theorem ofMagnitude_cases (neg : Bool) (q : ℚ) :
    (∃ x : Finite64, ofMagnitude neg q = .finite x ∧ x.neg = neg ∧ x.magnitude = rounded q) ∨
      ofMagnitude neg q = .infinity neg := by
  unfold ofMagnitude
  split_ifs with hm
  · unfold pack
    split_ifs with hc
    · refine .inl ⟨_, rfl, rfl, ?_⟩
      rw [Finite64.magnitude, rounded, hm, scaled_two_pow, scaled_two_pow]
      congr 1
      push_cast
      omega
    · exact .inr rfl
  · unfold pack
    split_ifs with hc
    · exact .inl ⟨_, rfl, rfl, rfl⟩
    · exact .inr rfl

/-- A number at or above a nonnegative finite one is not rounded below it. -/
theorem ofRat_ge {q : ℚ} {m : ℕ} {e : ℤ} (hc : Canonical m e) (h : scaled m e ≤ q) :
    (ofRat q).ge (scaled m e) = true := by
  have hq : 0 ≤ q := (scaled_nonneg m e).trans h
  rw [ofRat, abs_of_nonneg hq, decide_eq_false hq.not_gt]
  rcases ofMagnitude_cases false q with ⟨x, hx, hneg, hmag⟩ | hinf
  · rw [hx]
    simp only [Binary64.ge, Finite64.value, hneg, hmag, decide_eq_true_eq]
    exact le_rounded hq hc h
  · rw [hinf]
    rfl

/-- A number at or below a nonnegative finite one is not rounded above it. -/
theorem not_ofRat_ge {q r : ℚ} {m : ℕ} {e : ℤ} (hc : Canonical m e) (h : q ≤ scaled m e)
    (hr : scaled m e < r) : (ofRat q).ge r = false := by
  unfold ofRat
  rcases le_or_gt 0 q with hq | hq
  · rw [abs_of_nonneg hq, decide_eq_false hq.not_gt]
    obtain ⟨x, hx, hneg, hmag⟩ := ofMagnitude_finite false hq hc h
    rw [hx]
    simp only [Binary64.ge, Finite64.value, hneg, hmag, decide_eq_false_iff_not, not_le]
    exact (rounded_le hq hc h).trans_lt hr
  · rw [decide_eq_true hq]
    rcases ofMagnitude_cases true |q| with ⟨x, hx, hneg, -⟩ | hinf
    · rw [hx]
      simp only [Binary64.ge, Finite64.value, hneg, decide_eq_false_iff_not, not_le]
      have h0 : 0 ≤ x.magnitude := scaled_nonneg _ _
      exact (neg_nonpos.mpr h0).trans_lt ((scaled_nonneg m e).trans_lt hr)
    · rw [hinf]
      rfl

/-- Half a unit above the largest finite number. -/
def overflow : ℚ := scaled (2 ^ 54 - 1) 970

/-- The midpoint below an even integer is rounded up to it. -/
theorem roundEven_lt_iff {k : ℤ} (hk : 2 ∣ k) (q : ℚ) : roundEven q < k ↔ 2 * q < 2 * k - 1 := by
  have hup (h : 1 ≤ 2 * (q - ⌊q⌋)) : ⌊q⌋ + 1 < k ↔ 2 * q < 2 * k - 1 := by
    constructor
    · intro hlt
      have hsucc : (⌊q⌋ : ℚ) + 1 + 1 ≤ k := by exact_mod_cast hlt
      have hfloor := Int.lt_floor_add_one q
      linarith
    · intro hlt
      have hcast : (⌊q⌋ : ℚ) + 1 < k := by linarith
      exact_mod_cast hcast
  unfold roundEven
  split_ifs with hbelow habove heven
  · constructor
    · intro hlt
      have hsucc : (⌊q⌋ : ℚ) + 1 ≤ k := by exact_mod_cast hlt
      linarith
    · intro hlt
      have hfloor := Int.floor_le q
      have hcast : (⌊q⌋ : ℚ) < k := by linarith
      exact_mod_cast hcast
  · exact hup habove.le
  · rw [← hup (not_lt.mp hbelow)]
    omega
  · exact hup (not_lt.mp hbelow)

theorem mantOf_lt_iff {q : ℚ} (hq : 0 ≤ q) :
    mantOf q < 2 ^ 53 ↔ 2 * q < scaled (2 ^ 54 - 1) (expOf q) := by
  have hround := roundEven_lt_iff (k := 2 ^ 53) (by norm_num) (q / 2 ^ expOf q)
  rw [← mantOf_cast hq, ← mul_div_assoc, div_lt_iff₀ (two_zpow_pos _)] at hround
  norm_num [scaled] at hround ⊢
  exact_mod_cast hround

theorem isFinite_pack (neg : Bool) (mant : ℕ) (exp : ℤ) :
    (pack neg mant exp).isFinite = true ↔ Canonical mant exp := by
  unfold pack
  split_ifs with h
  · exact iff_of_true rfl h
  · exact iff_of_false (by simp [Binary64.isFinite]) h

/-- Numbers overflow from half a unit above the largest finite one. -/
theorem isFinite_ofMagnitude_iff (neg : Bool) {q : ℚ} (hq : 0 ≤ q) :
    (ofMagnitude neg q).isFinite = true ↔ q < overflow := by
  rcases lt_trichotomy (expOf q) 971 with hlt | heq | hgt
  · have hbound : q ≤ scaled (2 ^ 52) 971 := by
      rw [scaled_two_pow]
      exact (lt_two_zpow_expOf hq).le.trans (zpow_le_zpow_right₀ one_le_two (by push_cast; omega))
    obtain ⟨x, hx, -⟩ := ofMagnitude_finite neg hq (by decide) hbound
    have hsmall : scaled (2 ^ 52) 971 < overflow := by
      rw [scaled_refine _ (by norm_num : (970 : ℤ) ≤ 971)]
      exact mul_lt_mul_of_pos_right (by norm_num) (two_zpow_pos _)
    exact iff_of_true (hx ▸ rfl) (hbound.trans_lt hsmall)
  · have hhalf : q < overflow ↔ mantOf q < 2 ^ 53 := by
      rw [mantOf_lt_iff hq, heq, overflow, scaled, scaled]
      have hsucc : (2 : ℚ) ^ (971 : ℤ) = 2 * 2 ^ (970 : ℤ) := zpow_one_add₀ two_ne_zero 970
      rw [hsucc, mul_left_comm]
      exact (mul_lt_mul_iff_right₀ two_pos).symm
    rw [hhalf]
    unfold ofMagnitude
    split_ifs with hm
    · rw [isFinite_pack, heq, hm]
      exact iff_of_false (by decide) (lt_irrefl _)
    · have hmant : mantOf q < 2 ^ 53 := lt_of_le_of_ne (mantOf_le_two_pow hq) hm
      have hlow : 2 ^ 52 ≤ mantOf q := two_pow_le_mantOf hq (by omega)
      rw [isFinite_pack, heq]
      exact iff_of_true ⟨hmant, by decide, by decide, .inr hlow⟩ hmant
  · have hbound : (2 : ℚ) ^ (1024 : ℤ) ≤ q :=
      (zpow_le_zpow_right₀ one_le_two (by omega)).trans (two_zpow_expOf_le hq (by omega))
    have hlarge : overflow < 2 ^ (1024 : ℤ) := calc
      overflow < scaled (2 ^ 54) 970 := mul_lt_mul_of_pos_right (by norm_num) (two_zpow_pos _)
      _ = 2 ^ (1024 : ℤ) := scaled_two_pow 54 970
    refine iff_of_false ?_ (hlarge.le.trans hbound).not_gt
    unfold ofMagnitude
    split_ifs
    · rw [isFinite_pack]
      exact fun hc => absurd hc.2.2.1 (by omega)
    · rw [isFinite_pack]
      exact fun hc => absurd hc.2.2.1 (by omega)

end GridApps.Numeral
