import GridApps.Numeral.Hex
import GridApps.Numeral.Literal

/-! Byte strings: hexadecimal text, and the packed fields of Python's `struct` in network
order. -/
namespace GridApps.Struct
open Numeral

abbrev Bytes := List UInt8

/-- The bytes of ASCII text. -/
def ascii (t : Text) : Bytes := t.map fun c => c.toNat.toUInt8

/-- The format `%02x`. -/
def hexByte (b : UInt8) : Text := [hexChar (b.toNat / 0x10), hexChar (b.toNat % 0x10)]

def hexlify (bs : Bytes) : Text := bs.flatMap hexByte

/-- `none` for text of odd length or with other characters than hexadecimal digits. -/
def unhexlify : Text → Option Bytes
  | [] => some []
  | [_] => none
  | a :: b :: t =>
    (hexDigit? a).bind fun high => (hexDigit? b).bind fun low =>
      (unhexlify t).map fun bs => (0x10 * high + low).toUInt8 :: bs

theorem unhexlify_hexlify (bs : Bytes) : unhexlify (hexlify bs) = some bs := by
  induction bs with
  | nil => rfl
  | cons b bs ih =>
    have hlt := b.toNat_lt
    have hhigh := hexDigit_hexChar (n := b.toNat / 0x10) (by omega)
    have hlow := hexDigit_hexChar (n := b.toNat % 0x10) (by omega)
    have hbyte : (0x10 * (b.toNat / 0x10) + b.toNat % 0x10).toUInt8 = b := by
      rw [Nat.div_add_mod]
      exact UInt8.ofNat_toNat
    change unhexlify (hexChar (b.toNat / 0x10) :: hexChar (b.toNat % 0x10) :: hexlify bs) = _
    rw [unhexlify, hhigh, hlow, ih, Option.bind_some, Option.bind_some, Option.map_some, hbyte]

theorem hexlify_length (bs : Bytes) : (hexlify bs).length = 2 * bs.length := by
  induction bs with
  | nil => rfl
  | cons b bs ih =>
    rw [hexlify, List.flatMap_cons, List.length_append, ← hexlify, ih]
    simp only [hexByte, List.length_cons, List.length_nil]
    omega

theorem isLowerHex_of_mem_hexlify {bs : Bytes} {c : Char} (h : c ∈ hexlify bs) :
    IsLowerHex c := by
  obtain ⟨b, -, hc⟩ := List.mem_flatMap.mp h
  have hlt := b.toNat_lt
  rcases List.mem_pair.mp hc with rfl | rfl
  · exact isLowerHex_hexChar (by omega)
  · exact isLowerHex_hexChar (by omega)

/-- There are no spaces to clear out. -/
theorem filter_hexlify (bs : Bytes) :
    (hexlify bs).filter (fun c => decide (c ≠ ' ')) = hexlify bs := by
  refine List.filter_eq_self.mpr fun c hc => decide_eq_true ?_
  rintro rfl
  exact absurd (isLowerHex_of_mem_hexlify hc) (by decide)

/-- Two bytes, the high one first. -/
def be16 (n : ℕ) : Bytes := [(n / 0x100).toUInt8, (n % 0x100).toUInt8]

/-- The fields of a format: a character, an unsigned byte, an unsigned short and a string of a
fixed width. -/
inductive Field where
  | c (b : UInt8)
  | B (n : ℕ)
  | H (n : ℕ)
  | s (width : ℕ) (bytes : Bytes)

/-- A number out of range raises; a string is cut or padded with zeros. -/
def Field.pack : Field → Option Bytes
  | c b => some [b]
  | B n => if n < 0x100 then some [n.toUInt8] else none
  | H n => if n < 0x10000 then some (be16 n) else none
  | s width bytes => some (bytes.take width ++ List.replicate (width - bytes.length) 0)

def pack : List Field → Option Bytes
  | [] => some []
  | f :: fs => f.pack.bind fun front => (pack fs).map fun back => front ++ back

def take16 : Bytes → Option (ℕ × Bytes)
  | high :: low :: bs => some (0x100 * high.toNat + low.toNat, bs)
  | _ => none

def takeBytes (n : ℕ) (bs : Bytes) : Option (Bytes × Bytes) :=
  if n ≤ bs.length then some (bs.take n, bs.drop n) else none

theorem take16_be16 {n : ℕ} (h : n < 0x10000) (bs : Bytes) :
    take16 (be16 n ++ bs) = some (n, bs) := by
  have hhigh : (n / 0x100).toUInt8.toNat = n / 0x100 := Nat.mod_eq_of_lt (by omega)
  have hlow : (n % 0x100).toUInt8.toNat = n % 0x100 := Nat.mod_eq_of_lt (by omega)
  simp only [be16, List.cons_append, List.nil_append, take16, hhigh, hlow, Nat.div_add_mod]

theorem takeBytes_append (front back : Bytes) :
    takeBytes front.length (front ++ back) = some (front, back) := by
  simp [takeBytes]

theorem takeBytes_length {n : ℕ} {bs : Bytes} {r : Bytes × Bytes} (h : takeBytes n bs = some r) :
    r.1.length = n := by
  rw [takeBytes] at h
  split_ifs at h with hn
  rw [← Option.some.inj h]
  exact List.length_take_of_le hn

end GridApps.Struct
