import GridApps.Bytes.Struct
import Mathlib.Data.Set.Function

/-! The device token of the push service, as the application sends it. -/
namespace GridApps.Kettle
open Numeral Struct

/-- The token that the system hands out: 32 bytes. -/
structure DeviceToken where
  bytes : Bytes
  length_eq : bytes.length = 32

/-- Two digits for each of 32 bytes; `none` when the token is shorter and the loop reads past
its end. -/
def convertTokenToDeviceID (token : Bytes) : Option Text :=
  (List.range 32).foldlM
    (fun deviceID i => (token[i]?).map fun byte => deviceID ++ hexByte byte) []

theorem foldlM_hexByte (token : Bytes) {n : ℕ} (h : n ≤ token.length) :
    (List.range n).foldlM
      (fun deviceID i => (token[i]?).map fun byte => deviceID ++ hexByte byte) [] =
      some (hexlify (token.take n)) := by
  induction n with
  | zero => rfl
  | succ n ih =>
    have hn : n < token.length := h
    have htake : hexlify (token.take (n + 1)) = hexlify (token.take n) ++ hexByte token[n] := by
      rw [List.take_succ_eq_append_getElem hn, hexlify, List.flatMap_append,
        List.flatMap_singleton]
      rfl
    rw [List.range_succ, List.foldlM_append, ih hn.le, htake]
    rw [Option.bind_eq_bind, Option.bind_some, List.foldlM_cons, List.getElem?_eq_getElem hn]
    rfl

/-- A loop that goes on past the end of the token. -/
theorem foldlM_hexByte_eq_none (token : Bytes) {n : ℕ} (h : token.length < n) :
    (List.range n).foldlM
      (fun deviceID i => (token[i]?).map fun byte => deviceID ++ hexByte byte) [] = none := by
  induction n with
  | zero => exact absurd h (Nat.not_lt_zero _)
  | succ n ih =>
    rw [List.range_succ, List.foldlM_append]
    rcases Nat.lt_succ_iff_lt_or_eq.mp h with hlt | rfl
    · rw [ih hlt]
      rfl
    · rw [foldlM_hexByte token le_rfl, Option.bind_eq_bind, Option.bind_some, List.foldlM_cons,
        List.getElem?_eq_none le_rfl]
      rfl

theorem convertTokenToDeviceID_of_le {token : Bytes} (h : 32 ≤ token.length) :
    convertTokenToDeviceID token = some (hexlify (token.take 32)) := foldlM_hexByte token h

theorem convertTokenToDeviceID_of_lt {token : Bytes} (h : token.length < 32) :
    convertTokenToDeviceID token = none := foldlM_hexByte_eq_none token h

theorem convertTokenToDeviceID_eq (t : DeviceToken) :
    convertTokenToDeviceID t.bytes = some (hexlify t.bytes) := by
  rw [convertTokenToDeviceID_of_le t.length_eq.ge, List.take_of_length_le t.length_eq.le]

/-- `Notify.py`: spaces are cleared out of the identifier, and it is decoded. -/
def byteToken (deviceToken : Text) : Option Bytes :=
  unhexlify (deviceToken.filter fun c => decide (c ≠ ' '))

/-- Two lower-case digits for each byte of the token, which can be read back from them. -/
structure Identifies (deviceID : Text) (token : Bytes) : Prop where
  length_eq : deviceID.length = 2 * token.length
  digits : ∀ c ∈ deviceID, IsLowerHex c
  decodes : byteToken deviceID = some token

/-- Each of the tokens gets an identifier, without a byte outside of it being read, and no two of
them get the same one. -/
structure Faithful (tokens : Set Bytes) : Prop where
  identifies : ∀ token ∈ tokens, ∃ deviceID,
    convertTokenToDeviceID token = some deviceID ∧ Identifies deviceID token
  injective : Set.InjOn convertTokenToDeviceID tokens

theorem identifies_hexlify (token : Bytes) : Identifies (hexlify token) token where
  length_eq := hexlify_length token
  digits _ hc := isLowerHex_of_mem_hexlify hc
  decodes := by rw [byteToken, filter_hexlify, unhexlify_hexlify]

/-- A token is identified exactly if the loop ends where the token does. -/
theorem exists_identifies_iff (token : Bytes) :
    (∃ deviceID, convertTokenToDeviceID token = some deviceID ∧ Identifies deviceID token) ↔
      token.length = 32 := by
  constructor
  · rintro ⟨deviceID, hconvert, hid⟩
    rcases lt_or_ge token.length 32 with hlt | hle
    · rw [convertTokenToDeviceID_of_lt hlt] at hconvert
      contradiction
    · rw [convertTokenToDeviceID_of_le hle] at hconvert
      have hlength := hid.length_eq
      rw [← Option.some.inj hconvert, hexlify_length, List.length_take_of_le hle] at hlength
      omega
  · intro h
    exact ⟨_, convertTokenToDeviceID_eq ⟨token, h⟩, identifies_hexlify token⟩

/-- The identifiers of some tokens are faithful exactly if all of these have 32 bytes. -/
theorem faithful_iff (tokens : Set Bytes) :
    Faithful tokens ↔ ∀ token ∈ tokens, token.length = 32 := by
  constructor
  · intro h token htoken
    exact (exists_identifies_iff token).mp (h.identifies token htoken)
  · intro h
    refine ⟨fun token htoken => (exists_identifies_iff token).mpr (h token htoken), ?_⟩
    intro token htoken token' htoken' heq
    rw [convertTokenToDeviceID_eq ⟨token, h token htoken⟩,
      convertTokenToDeviceID_eq ⟨token', h token' htoken'⟩] at heq
    have hdecode := congrArg unhexlify (Option.some.inj heq)
    rw [unhexlify_hexlify, unhexlify_hexlify] at hdecode
    exact Option.some.inj hdecode

/-- A byte after the first 32 is left out; of a shorter token, what lies behind it is read. -/
theorem faithful_fails :
    convertTokenToDeviceID (List.replicate 33 0) = convertTokenToDeviceID (List.replicate 32 0) ∧
      convertTokenToDeviceID (List.replicate 31 0) = none ∧ ¬ Faithful Set.univ := by
  have hsame : convertTokenToDeviceID (List.replicate 33 0) =
      convertTokenToDeviceID (List.replicate 32 0) := by decide
  refine ⟨hsame, by decide, fun h => ?_⟩
  exact absurd (h.injective trivial trivial hsame) (by decide)

end GridApps.Kettle
