import GridApps.Bytes.Struct

/-! Decimal numbers in bytes. -/
namespace GridApps.Numeral
open Struct

def digitByte (d : Fin 10) : UInt8 := (48 + d.val).toUInt8

def byteDigit? (b : UInt8) : Option (Fin 10) :=
  if h : 48 ≤ b.toNat ∧ b.toNat < 58 then some ⟨b.toNat - 48, by omega⟩ else none

/-- As C prints an unsigned number. -/
def decimalBytes (n : ℕ) : Bytes := (numeral n).map digitByte

/-- As C prints a signed number. -/
def signedDecimal (v : ℤ) : Bytes :=
  if v < 0 then 45 :: decimalBytes v.natAbs else decimalBytes v.natAbs

@[simp] theorem byteDigit_digitByte (d : Fin 10) : byteDigit? (digitByte d) = some d := by
  revert d
  decide

theorem byteDigit_eq_some_iff {b : UInt8} {d : Fin 10} :
    byteDigit? b = some d ↔ b = digitByte d := by
  constructor
  · intro h
    unfold byteDigit? at h
    split_ifs at h with hb
    obtain rfl := Option.some.inj h
    apply UInt8.toNat_inj.mp
    unfold digitByte
    rw [UInt8.toNat_ofNat', Nat.mod_eq_of_lt (by simp only; omega)]
    simp only
    omega
  · rintro rfl
    exact byteDigit_digitByte d

theorem digitByte_injective : Function.Injective digitByte := fun d e h => by
  have hd := byteDigit_digitByte d
  rw [h, byteDigit_digitByte] at hd
  exact (Option.some.inj hd).symm

theorem map_digitByte_inj {ds es : Digits} : ds.map digitByte = es.map digitByte ↔ ds = es :=
  (List.map_injective_iff.mpr digitByte_injective).eq_iff

theorem digitsOf_step {n : ℕ} (h : n ≠ 0) :
    digitsOf n = digitsOf (n / 10) ++ [Fin.ofNat 10 n] := by
  unfold digitsOf
  rw [Nat.digits_def' (by norm_num) (Nat.pos_of_ne_zero h), List.map_cons, List.reverse_cons]
  congr 2
  exact Fin.ext (Nat.mod_mod n 10)

theorem numeral_of_lt {n : ℕ} (h : n < 10) : numeral n = [Fin.ofNat 10 n] := by
  interval_cases n <;> decide +kernel

theorem numeral_step {n : ℕ} (h : 10 ≤ n) :
    numeral n = numeral (n / 10) ++ [Fin.ofNat 10 n] := by
  have hquot : n / 10 ≠ 0 := by omega
  unfold numeral
  rw [if_neg (by omega), if_neg hquot]
  exact digitsOf_step (by omega)

/-- Digits without a leading zero are those of their number. -/
theorem numeral_natOf {d : Fin 10} {ds : Digits} (h : d ≠ 0 ∨ ds = []) :
    numeral (natOf (d :: ds)) = d :: ds := by
  induction ds using List.reverseRecOn with
  | nil =>
    revert d
    decide
  | append_singleton ds e ih =>
    have hd : d ≠ 0 := h.resolve_right (by simp)
    have hpos : 0 < natOf (d :: ds) := by
      rw [natOf_cons]
      have hval : 0 < d.val := Nat.pos_of_ne_zero fun hz => hd (Fin.ext hz)
      positivity
    rw [← List.cons_append, natOf_concat, numeral_step (by omega)]
    have hquot : (10 * natOf (d :: ds) + e.val) / 10 = natOf (d :: ds) := by omega
    have hrem : Fin.ofNat 10 (10 * natOf (d :: ds) + e.val) = e := by
      apply Fin.ext
      simp only [Fin.val_ofNat]
      omega
    rw [hquot, hrem, ih (.inl hd)]

/-- The first digit, which is zero only for zero. -/
theorem exists_numeral (n : ℕ) :
    ∃ d ds, numeral n = d :: ds ∧ (d = 0 → n = 0 ∧ ds = []) := by
  obtain ⟨d, ds, hds⟩ := List.exists_cons_of_ne_nil (numeral_ne_nil n)
  refine ⟨d, ds, hds, fun hd => ?_⟩
  unfold numeral at hds
  split_ifs at hds with hn
  · exact ⟨hn, (List.cons.inj hds).2.symm⟩
  · have hhead := digitsOf_head hn
    rw [hds, hd] at hhead
    simp at hhead

theorem numeral_length_le {n k : ℕ} (hk : 0 < k) (h : n < 10 ^ k) : (numeral n).length ≤ k := by
  induction k generalizing n with
  | zero => omega
  | succ k ih =>
    rcases Nat.lt_or_ge n 10 with hn | hn
    · simp [numeral_of_lt hn]
    · have hk' : 0 < k := by
        rcases Nat.eq_zero_or_pos k with rfl | hk'
        · omega
        · exact hk'
      have hquot : n / 10 < 10 ^ k := by
        apply Nat.div_lt_of_lt_mul
        rwa [pow_succ, Nat.mul_comm] at h
      rw [numeral_step hn, List.length_append]
      exact Nat.succ_le_succ (ih hk' hquot)

theorem decimalBytes_ne_nil (n : ℕ) : decimalBytes n ≠ [] := by
  unfold decimalBytes
  simpa using numeral_ne_nil n

theorem mem_decimalBytes {n : ℕ} {b : UInt8} (h : b ∈ decimalBytes n) : ∃ d, b = digitByte d := by
  obtain ⟨d, -, rfl⟩ := List.mem_map.mp h
  exact ⟨d, rfl⟩

end GridApps.Numeral
