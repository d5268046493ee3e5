import GridApps.Numeral.Binary64
import GridApps.Numeral.Literal

/-! The shortest decimal that reads back as a given binary64 number, and its layout as
a literal: positional for moderate exponents, with an exponent otherwise. -/
namespace GridApps.Numeral

/-- The value of a literal as a binary64 number. -/
def Literal.float (l : Literal) : Binary64 := ofMagnitude l.neg l.magnitude

/-- The decimal `d * 10 ^ (-s)`. -/
def decimal (d : ℕ) (s : ℤ) : ℚ := d * 10 ^ (-s)

/-- `10 ^ (decimalPoint q - 1) ≤ q < 10 ^ decimalPoint q` for positive `q`. -/
def decimalPoint (q : ℚ) : ℤ := Int.log 10 q + 1

namespace Finite64

/-- The decimal rounds to `x`. -/
def Reads (x : Finite64) (p : ℕ × ℤ) : Prop :=
  ofMagnitude x.neg (decimal p.1 p.2) = .finite x

instance (x : Finite64) (p : ℕ × ℤ) : Decidable (x.Reads p) := by
  unfold Reads
  infer_instance

/-- The nearest decimal with `n` digits that reads as `x`. -/
def candidate (x : Finite64) (n : ℕ) : Option (ℕ × ℤ) :=
  let s := n - decimalPoint x.magnitude
  let q := x.magnitude * 10 ^ s
  let low := ⌊q⌋.toNat
  if x.Reads ((roundEven q).toNat, s) then some ((roundEven q).toNat, s)
  else if x.Reads (low, s) then some (low, s)
  else if x.Reads (low + 1, s) then some (low + 1, s)
  else none

/-- The exact value, which has at most 1074 decimal places. -/
def exactDecimal (x : Finite64) : ℕ × ℤ := (x.mant * 2 ^ (x.exp + 1074).toNat * 5 ^ 1074, 1074)

/-- The search goes on with one digit more. Its end is not met, as seventeen digits are
enough for every number; the exact value keeps it total. -/
def search (x : Finite64) : ℕ → ℕ → ℕ × ℤ
  | 0, _ => x.exactDecimal
  | fuel + 1, n => (x.candidate n).getD (search x fuel (n + 1))

def stripZeros : ℕ → ℕ × ℤ → ℕ × ℤ
  | 0, p => p
  | fuel + 1, p =>
    if p.1 % 10 = 0 then stripZeros fuel (p.1 / 10, p.2 - 1) else p

def shortest (x : Finite64) : ℕ × ℤ :=
  let p := x.search 17 1
  stripZeros (digitsOf p.1).length p

end Finite64

namespace Literal

/-- The digits `ds` with the decimal point after the first `point` of them. -/
def layout (neg : Bool) (ds : Digits) (point : ℤ) : Literal :=
  if -4 < point ∧ point ≤ 16 then
    if point ≤ 0 then ⟨neg, [zeroDigit], List.replicate (-point).toNat zeroDigit ++ ds, none⟩
    else if ds.length ≤ point then
      ⟨neg, ds ++ List.replicate (point - ds.length).toNat zeroDigit, [zeroDigit], none⟩
    else ⟨neg, ds.take point.toNat, ds.drop point.toNat, none⟩
  else ⟨neg, ds.take 1, ds.drop 1, some (point - 1)⟩

end Literal

/-- The literal that is printed for a finite number. -/
def Finite64.literal (x : Finite64) : Literal :=
  if x.mant = 0 then ⟨x.neg, [zeroDigit], [zeroDigit], none⟩
  else
    let p := x.shortest
    Literal.layout x.neg (digitsOf p.1) ((digitsOf p.1).length - p.2)

namespace Finite64

theorem candidate_reads {x : Finite64} {n : ℕ} {p : ℕ × ℤ} (h : x.candidate n = some p) :
    x.Reads p := by
  unfold candidate at h
  dsimp only at h
  split_ifs at h with h1 h2 h3
  · exact Option.some.inj h ▸ h1
  · exact Option.some.inj h ▸ h2
  · exact Option.some.inj h ▸ h3

theorem decimal_of_scaled (m : ℕ) {e : ℤ} (k : ℕ) (he : -k ≤ e) :
    decimal (m * 2 ^ (e + k).toNat * 5 ^ k) k = scaled m e := by
  have hcast : (((e + k).toNat : ℕ) : ℤ) = e + k := Int.toNat_of_nonneg (by omega)
  have h2 : (2 : ℚ) ^ (e + k).toNat = 2 ^ e * 2 ^ k := by
    rw [← zpow_natCast, hcast, zpow_add₀ two_ne_zero, zpow_natCast]
  have h10 : (10 : ℚ) ^ (-(k : ℤ)) = (2 ^ k)⁻¹ * (5 ^ k)⁻¹ := by
    rw [zpow_neg, zpow_natCast, ← mul_inv, ← mul_pow]
    norm_num
  rw [decimal, scaled, h10]
  push_cast
  rw [h2]
  field_simp

theorem decimal_exactDecimal (x : Finite64) :
    decimal x.exactDecimal.1 x.exactDecimal.2 = x.magnitude :=
  decimal_of_scaled x.mant 1074 x.canonical.2.1

theorem search_reads (x : Finite64) (fuel n : ℕ) : x.Reads (x.search fuel n) := by
  induction fuel generalizing n with
  | zero =>
    rw [Reads, search, decimal_exactDecimal]
    exact ofMagnitude_magnitude x
  | succ fuel ih =>
    rw [search]
    cases h : x.candidate n with
    | none => exact ih (n + 1)
    | some p => exact candidate_reads h

theorem decimal_stripZeros (fuel : ℕ) (p : ℕ × ℤ) :
    decimal (stripZeros fuel p).1 (stripZeros fuel p).2 = decimal p.1 p.2 := by
  induction fuel generalizing p with
  | zero => rfl
  | succ fuel ih =>
    rw [stripZeros]
    split_ifs with h
    · rw [ih]
      have hten : p.1 = p.1 / 10 * 10 := (Nat.div_mul_cancel (Nat.dvd_of_mod_eq_zero h)).symm
      have hcast : (p.1 : ℚ) = ((p.1 / 10 : ℕ) : ℚ) * 10 := by exact_mod_cast hten
      rw [decimal, decimal, hcast, show -(p.2 - 1) = 1 + -p.2 by ring,
        zpow_add₀ (by norm_num : (10 : ℚ) ≠ 0), zpow_one]
      ring
    · rfl

theorem shortest_reads (x : Finite64) : x.Reads x.shortest := by
  rw [Reads, shortest, decimal_stripZeros]
  exact x.search_reads 17 1

end Finite64

theorem ten_zpow_add (a b : ℤ) : (10 : ℚ) ^ (a + b) = 10 ^ a * 10 ^ b :=
  zpow_add₀ (by norm_num) a b

theorem Literal.layout_magnitude (neg : Bool) (ds : Digits) (point : ℤ) :
    (layout neg ds point).magnitude = natOf ds * 10 ^ (point - ds.length) := by
  unfold layout
  split_ifs with hpos hle hlen
  · have hlist : natOf ([0] ++ (List.replicate (-point).toNat 0 ++ ds)) = natOf ds := by
      rw [natOf_append, natOf_append, natOf_replicate_zero]
      simp [natOf]
    simp only [magnitude, hlist, List.length_append, List.length_replicate, Option.getD_none]
    congr 2
    push_cast
    omega
  · have hlist : natOf (ds ++ List.replicate (point - ds.length).toNat 0 ++ [0]) =
        natOf ds * 10 ^ (point - ds.length).toNat * 10 := by
      rw [natOf_concat, natOf_append, natOf_replicate_zero, List.length_replicate, Fin.val_zero]
      ring
    simp only [magnitude, hlist, List.length_singleton, Option.getD_none]
    push_cast
    rw [← zpow_natCast, Int.toNat_of_nonneg (by omega), mul_assoc, ← zpow_one_add₀ (by norm_num),
      mul_assoc, ← ten_zpow_add]
    congr 2
    ring
  · simp only [magnitude, List.take_append_drop, List.length_drop, Option.getD_none]
    congr 2
    omega
  · simp only [magnitude, List.take_append_drop, List.length_drop, Option.getD_some]
    cases ds with
    | nil => simp
    | cons d ds =>
      congr 2
      simp only [List.length_cons]
      omega

theorem Literal.layout_wellFormed (neg : Bool) {ds : Digits}
    (h : ds.head?.any (· ≠ 0) = true) (point : ℤ) : (layout neg ds point).WellFormed := by
  cases ds with
  | nil => contradiction
  | cons d ds =>
    have hd : d ≠ 0 := by simpa using h
    unfold layout
    split_ifs with hpos hle hlen
    · exact .inl rfl
    · exact .inr (by simpa using hd)
    · obtain ⟨k, hk⟩ : ∃ k, point.toNat = k + 1 := ⟨point.toNat - 1, by omega⟩
      exact .inr (by simpa [hk] using hd)
    · exact .inr (by simpa using hd)

/-- The printed literal is never read as an integer. -/
theorem Literal.layout_isInt (neg : Bool) {ds : Digits} (h : ds ≠ []) (point : ℤ) :
    (layout neg ds point).isInt = false := by
  unfold layout isInt
  split_ifs with hpos hle hlen
  · simp [h]
  · simp
  · have hdrop : ds.drop point.toNat ≠ [] := by
      intro hnil
      have := List.drop_eq_nil_iff.mp hnil
      omega
    simp [hdrop]
  · simp

theorem layout_neg (neg : Bool) (ds : Digits) (point : ℤ) :
    (Literal.layout neg ds point).neg = neg := by
  unfold Literal.layout
  split_ifs <;> rfl

namespace Finite64

theorem shortest_ne_zero {x : Finite64} (h : x.mant ≠ 0) : x.shortest.1 ≠ 0 := by
  intro hz
  have hread := x.shortest_reads
  have hzero : (⟨x.neg, 0, -1074, by decide⟩ : Finite64).magnitude = 0 := by
    simp [magnitude, scaled]
  have hself := ofMagnitude_magnitude ⟨x.neg, 0, -1074, by decide⟩
  rw [hzero] at hself
  rw [Reads, hz, decimal, Nat.cast_zero, zero_mul, hself] at hread
  have := Binary64.finite.inj hread
  rw [← this] at h
  exact h rfl

theorem literal_float (x : Finite64) : x.literal.float = .finite x := by
  unfold literal
  split_ifs with hz
  · have hmag : (⟨x.neg, [0], [0], none⟩ : Literal).magnitude = x.magnitude := by
      simp [Literal.magnitude, natOf, magnitude, scaled, hz]
    rw [Literal.float, hmag]
    exact ofMagnitude_magnitude x
  · have hread := x.shortest_reads
    simp only [Literal.float, layout_neg, Literal.layout_magnitude, natOf_digitsOf]
    rw [sub_sub_cancel_left]
    exact hread

theorem literal_wellFormed (x : Finite64) : x.literal.WellFormed := by
  unfold literal
  split_ifs with hz
  · exact .inl rfl
  · exact Literal.layout_wellFormed _ (digitsOf_head (shortest_ne_zero hz)) _

theorem literal_isInt (x : Finite64) : x.literal.isInt = false := by
  unfold literal
  split_ifs with hz
  · rfl
  · exact Literal.layout_isInt _ (digitsOf_ne_nil (shortest_ne_zero hz)) _

end Finite64
end GridApps.Numeral
