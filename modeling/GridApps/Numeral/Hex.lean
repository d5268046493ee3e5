import Mathlib.Tactic

/-! Hexadecimal digits. -/
namespace GridApps.Numeral

def hexDigit? (c : Char) : Option ℕ :=
  if '0' ≤ c ∧ c ≤ '9' then some (c.toNat - 48)
  else if 'a' ≤ c ∧ c ≤ 'f' then some (c.toNat - 87)
  else if 'A' ≤ c ∧ c ≤ 'F' then some (c.toNat - 55)
  else none

def hexChar (n : ℕ) : Char := Char.ofNat (if n < 10 then 48 + n else 87 + n)

/-- The digits that `%02x` writes. -/
def IsLowerHex (c : Char) : Prop := '0' ≤ c ∧ c ≤ '9' ∨ 'a' ≤ c ∧ c ≤ 'f'

instance : DecidablePred IsLowerHex := fun _ => inferInstanceAs (Decidable (_ ∨ _))

theorem isLowerHex_hexChar {n : ℕ} (h : n < 16) : IsLowerHex (hexChar n) := by
  interval_cases n <;> decide

theorem hexDigit_hexChar {n : ℕ} (h : n < 16) : hexDigit? (hexChar n) = some n := by
  interval_cases n <;> rfl

end GridApps.Numeral
