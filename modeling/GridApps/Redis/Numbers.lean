import GridApps.Bytes.Decimal

/-! The numbers in `util.c` and in the protocol: their text, and reading them back. -/
namespace GridApps.Redis
open Numeral Struct

def ullongMax : ℕ := 2 ^ 64 - 1

def llongMax : ℕ := 2 ^ 63 - 1

/-- A number that fits into a `long long`. -/
def IsLongLong (v : ℤ) : Prop := -2 ^ 63 ≤ v ∧ v < 2 ^ 63

/-- Digits are put in front of `p`, at most so many as the buffer is long. -/
def ll2stringLoop : ℕ → ℕ → Bytes → Bytes
  | 0, _, p => p
  | room + 1, v, p =>
    let p := (48 + v % 10).toUInt8 :: p
    if v / 10 = 0 then p else ll2stringLoop room (v / 10) p

/-- The text is cut so that it fits into `len` bytes with its end. -/
def ll2string (len : ℕ) (value : ℤ) : Bytes :=
  if len = 0 then []
  else
    let p := ll2stringLoop 32 value.natAbs []
    let p := if value < 0 then 45 :: p else p
    if len < p.length + 1 then p.take (len - 1) else p

/-- The digits that follow the first one; every byte has to be one, and the number has to fit into
64 bits at every digit. -/
def string2llLoop (v : ℕ) : Bytes → Option ℕ
  | [] => some v
  | c :: p =>
    match byteDigit? c with
    | none => none
    | some d =>
      if ullongMax / 10 < v then none
      else if ullongMax - d.val < v * 10 then none
      else string2llLoop (v * 10 + d.val) p

/-- The number has to fit into a `long long`. -/
def withSign (negative : Bool) (v : ℕ) : Option ℤ :=
  if negative then if llongMax + 1 < v then none else some (-v)
  else if llongMax < v then none
  else some v

/-- What is behind the sign; the first digit is zero in the text of zero only. -/
def string2llDigits (negative : Bool) (slen : ℕ) : Bytes → Option ℤ
  | [] => none
  | c :: p =>
    match byteDigit? c with
    | none => none
    | some d =>
      if d.val = 0 then if slen = 1 then some 0 else none
      else (string2llLoop d.val p).bind (withSign negative)

def string2ll (s : Bytes) : Option ℤ :=
  if s.isEmpty then none
  else if s = [48] then some 0
  else if s.head? = some 45 then string2llDigits true s.length s.tail
  else string2llDigits false s.length s

/-- A carriage return ends the number; with another byte than a digit it is -1. -/
def readLongLongLoop (mult v : ℤ) : Bytes → ℤ
  | [] => -1
  | c :: s =>
    if c = 13 then mult * v
    else
      match byteDigit? c with
      | some d => readLongLongLoop mult (v * 10 + d.val) s
      | none => -1

def readLongLong : Bytes → ℤ
  | [] => -1
  | c :: s =>
    if c = 45 then readLongLongLoop (-1) 0 s
    else if c = 43 then readLongLongLoop 1 0 s
    else readLongLongLoop 1 0 (c :: s)

theorem ofNat_digit (v : ℕ) : (48 + v % 10).toUInt8 = digitByte (Fin.ofNat 10 v) := rfl

theorem ll2stringLoop_eq {room v : ℕ} (hroom : 0 < room) (hv : v < 10 ^ room) (p : Bytes) :
    ll2stringLoop room v p = decimalBytes v ++ p := by
  induction room generalizing v p with
  | zero => omega
  | succ room ih =>
    unfold ll2stringLoop decimalBytes
    rw [ofNat_digit]
    split_ifs with hlast
    · rw [numeral_of_lt (by omega)]
      rfl
    · have hroom' : 0 < room := by
        rcases Nat.eq_zero_or_pos room with rfl | hroom'
        · omega
        · exact hroom'
      have hquot : v / 10 < 10 ^ room := by
        apply Nat.div_lt_of_lt_mul
        rwa [pow_succ, Nat.mul_comm] at hv
      rw [ih hroom' hquot, numeral_step (by omega), List.map_append, List.append_assoc]
      rfl

theorem natAbs_lt {v : ℤ} (h : IsLongLong v) : v.natAbs < 10 ^ 20 := by
  unfold IsLongLong at h
  omega

theorem signedDecimal_length_le {v : ℤ} (h : IsLongLong v) : (signedDecimal v).length ≤ 21 := by
  have hdigits : (decimalBytes v.natAbs).length ≤ 20 := by
    unfold decimalBytes
    rw [List.length_map]
    exact numeral_length_le (by norm_num) (natAbs_lt h)
  unfold signedDecimal
  split_ifs
  · exact Nat.succ_le_succ hdigits
  · omega

/-- The buffers of the callers are long enough. -/
theorem ll2string_eq {len : ℕ} (hlen : 21 < len) {v : ℤ} (h : IsLongLong v) :
    ll2string len v = signedDecimal v := by
  have hroom : v.natAbs < 10 ^ 32 := (natAbs_lt h).trans (by norm_num)
  have hshort := signedDecimal_length_le h
  unfold ll2string
  rw [if_neg (by omega), ll2stringLoop_eq (by norm_num) hroom, List.append_nil]
  exact if_neg (by
    change ¬ len < (signedDecimal v).length + 1
    omega)

/-- A number that gets digits behind it. -/
theorem natOf_digits (d : Fin 10) (ds : Digits) :
    natOf (d :: ds) = ds.foldl (fun n d => 10 * n + d.val) d.val := by
  simp [natOf]

theorem le_foldl_digits (v : ℕ) (ds : Digits) :
    v ≤ ds.foldl (fun n d => 10 * n + d.val) v := by
  induction ds generalizing v with
  | nil => exact le_rfl
  | cons d ds ih =>
    have hstep : v ≤ 10 * v + d.val := by omega
    exact hstep.trans (ih _)

/-- The loop reads digits, as long as their number fits. -/
theorem string2llLoop_eq_some_iff {v w : ℕ} (hv : v ≤ ullongMax) {p : Bytes} :
    string2llLoop v p = some w ↔
      ∃ ds : Digits, p = ds.map digitByte ∧ w = ds.foldl (fun n d => 10 * n + d.val) v ∧
        w ≤ ullongMax := by
  induction p generalizing v with
  | nil =>
    constructor
    · intro h
      obtain rfl := Option.some.inj h
      exact ⟨[], rfl, rfl, hv⟩
    · rintro ⟨ds, hds, rfl, -⟩
      obtain rfl := List.map_eq_nil_iff.mp hds.symm
      rfl
  | cons c p ih =>
    unfold string2llLoop
    cases hc : byteDigit? c with
    | none =>
      refine iff_of_false (by simp) ?_
      rintro ⟨ds, hds, -, -⟩
      obtain ⟨d, ds, rfl, rfl, -⟩ := List.map_eq_cons_iff.mp hds.symm
      simp at hc
    | some d =>
      obtain rfl := byteDigit_eq_some_iff.mp hc
      have hfits : (¬ ullongMax / 10 < v ∧ ¬ ullongMax - d.val < v * 10) ↔
          v * 10 + d.val ≤ ullongMax := by
        unfold ullongMax
        omega
      have hcons : (∃ ds : Digits, digitByte d :: p = ds.map digitByte ∧
            w = ds.foldl (fun n d => 10 * n + d.val) v ∧ w ≤ ullongMax) ↔
          ∃ ds : Digits, p = ds.map digitByte ∧
            w = ds.foldl (fun n d => 10 * n + d.val) (v * 10 + d.val) ∧ w ≤ ullongMax := by
        constructor
        · rintro ⟨ds, hds, hw, hle⟩
          obtain ⟨e, ds, rfl, he, rfl⟩ := List.map_eq_cons_iff.mp hds.symm
          obtain rfl := digitByte_injective he
          exact ⟨ds, rfl, by rw [hw, List.foldl_cons, Nat.mul_comm], hle⟩
        · rintro ⟨ds, rfl, hw, hle⟩
          exact ⟨d :: ds, rfl, by rw [hw, List.foldl_cons, Nat.mul_comm], hle⟩
      rw [hcons]
      by_cases hfit : v * 10 + d.val ≤ ullongMax
      · obtain ⟨hdiv, hsub⟩ := hfits.mpr hfit
        simp only [if_neg hdiv, if_neg hsub]
        exact ih hfit
      · have hnone : (if ullongMax / 10 < v then none
            else if ullongMax - d.val < v * 10 then none
            else string2llLoop (v * 10 + d.val) p) = none := by
          by_cases hdiv : ullongMax / 10 < v
          · exact if_pos hdiv
          · rw [if_neg hdiv]
            exact if_pos (not_not.mp fun hsub => hfit (hfits.mp ⟨hdiv, hsub⟩))
        simp only [hnone]
        refine iff_of_false (by simp) ?_
        rintro ⟨ds, -, rfl, hle⟩
        exact hfit ((le_foldl_digits _ ds).trans hle)

/-- A first digit that is not zero, and the loop behind it. -/
theorem digits_eq_some_iff {c : UInt8} {p : Bytes} {w : ℕ} :
    (∃ d : Fin 10, d ≠ 0 ∧ byteDigit? c = some d ∧ string2llLoop d.val p = some w) ↔
      c :: p = decimalBytes w ∧ 0 < w ∧ w ≤ ullongMax := by
  have hsmall (d : Fin 10) : d.val ≤ ullongMax := by
    unfold ullongMax
    omega
  constructor
  · rintro ⟨d, hd, hc, hloop⟩
    obtain ⟨ds, rfl, rfl, hle⟩ := (string2llLoop_eq_some_iff (hsmall d)).mp hloop
    rw [← natOf_digits] at hle ⊢
    have hval : 0 < d.val := Nat.pos_of_ne_zero fun hz => hd (Fin.ext hz)
    refine ⟨?_, hval.trans_le ?_, hle⟩
    · unfold decimalBytes
      rw [numeral_natOf (.inl hd), List.map_cons, byteDigit_eq_some_iff.mp hc]
    · rw [natOf_digits]
      exact le_foldl_digits _ ds
  · rintro ⟨hdecimal, hpos, hle⟩
    obtain ⟨d, ds, hds, hzero⟩ := exists_numeral w
    unfold decimalBytes at hdecimal
    rw [hds, List.map_cons, List.cons.injEq] at hdecimal
    obtain ⟨rfl, rfl⟩ := hdecimal
    have hw : w = natOf (d :: ds) := by rw [← hds, natOf_numeral]
    exact ⟨d, fun hd => hpos.ne' (hzero hd).1, byteDigit_digitByte d,
      (string2llLoop_eq_some_iff (hsmall d)).mpr ⟨ds, rfl, by rw [hw, natOf_digits], hle⟩⟩

theorem decimalBytes_zero : decimalBytes 0 = [48] := rfl

theorem decimalBytes_injective : Function.Injective decimalBytes := fun m n h => by
  have hdigits := map_digitByte_inj.mp h
  rw [← natOf_numeral m, hdigits, natOf_numeral]

theorem digitByte_ne_minus (d : Fin 10) : digitByte d ≠ 45 := by
  revert d
  decide

/-- A sign is not a digit. -/
theorem decimalBytes_head_ne (n : ℕ) (p : Bytes) : decimalBytes n ≠ 45 :: p := by
  intro h
  obtain ⟨d, hd⟩ := mem_decimalBytes (h ▸ List.mem_cons_self : (45 : UInt8) ∈ decimalBytes n)
  exact digitByte_ne_minus d hd.symm

theorem withSign_eq_some_iff {negative : Bool} {w : ℕ} {v : ℤ} :
    withSign negative w = some v ↔ IsLongLong v ∧ v = if negative then -(w : ℤ) else w := by
  unfold withSign IsLongLong llongMax
  cases negative with
  | true =>
    simp only [if_true]
    split_ifs
    · exact iff_of_false (by simp) (by omega)
    · rw [Option.some_inj]
      omega
  | false =>
    simp only [Bool.false_eq_true, if_false]
    split_ifs
    · exact iff_of_false (by simp) (by omega)
    · rw [Option.some_inj]
      omega

theorem string2llDigits_eq_some_iff {negative : Bool} {slen : ℕ} {p : Bytes} {v : ℤ}
    (h : p.head? = some 48 → slen ≠ 1) :
    string2llDigits negative slen p = some v ↔
      ∃ w, p = decimalBytes w ∧ 0 < w ∧ IsLongLong v ∧ v = if negative then -(w : ℤ) else w := by
  cases p with
  | nil =>
    refine iff_of_false (by simp [string2llDigits]) ?_
    rintro ⟨w, hw, -⟩
    exact decimalBytes_ne_nil w hw.symm
  | cons c p =>
    unfold string2llDigits
    constructor
    · intro hsome
      cases hc : byteDigit? c with
      | none => simp [hc] at hsome
      | some d =>
        simp only [hc, Fin.val_eq_zero_iff] at hsome
        by_cases hd : d = 0
        · have hzero : c = 48 := by
            rw [byteDigit_eq_some_iff.mp hc, hd]
            rfl
          rw [if_pos hd, if_neg (h (by rw [hzero]; rfl))] at hsome
          contradiction
        · rw [if_neg hd] at hsome
          obtain ⟨w, hloop, hw⟩ := Option.bind_eq_some_iff.mp hsome
          obtain ⟨hdecimal, hpos, -⟩ := digits_eq_some_iff.mp ⟨d, hd, hc, hloop⟩
          exact ⟨w, hdecimal, hpos, withSign_eq_some_iff.mp hw⟩
    · rintro ⟨w, hdecimal, hpos, hlong, hv⟩
      have hle : w ≤ ullongMax := by
        unfold IsLongLong at hlong
        unfold ullongMax
        split_ifs at hv <;> omega
      obtain ⟨d, hd, hc, hloop⟩ := digits_eq_some_iff.mpr ⟨hdecimal, hpos, hle⟩
      simp only [hc, Fin.val_eq_zero_iff, if_neg hd, hloop, Option.bind_some]
      exact withSign_eq_some_iff.mpr ⟨hlong, hv⟩

theorem signedDecimal_eq_zero_iff {v : ℤ} : signedDecimal v = [48] ↔ v = 0 := by
  unfold signedDecimal
  split_ifs with hneg
  · refine iff_of_false (fun h => ?_) hneg.ne
    exact absurd (List.cons.inj h).1 (by decide)
  · rw [← decimalBytes_zero, decimalBytes_injective.eq_iff]
    omega

theorem string2ll_eq_some {s : Bytes} {v : ℤ} :
    string2ll s = some v ↔ IsLongLong v ∧ s = signedDecimal v := by
  unfold string2ll
  by_cases hzero : s = [48]
  · subst hzero
    simp only [List.isEmpty_cons, Bool.false_eq_true, if_false, if_true, Option.some_inj]
    rw [eq_comm (a := [48]), signedDecimal_eq_zero_iff]
    unfold IsLongLong
    omega
  · cases s with
    | nil =>
      refine iff_of_false (by simp) ?_
      rintro ⟨-, h⟩
      unfold signedDecimal at h
      split_ifs at h
      exact decimalBytes_ne_nil _ h.symm
    | cons c p =>
      have hne : (c :: p).isEmpty = false := rfl
      rw [hne, if_neg Bool.false_ne_true, if_neg hzero]
      have hv : signedDecimal v ≠ [48] → v ≠ 0 := fun h => signedDecimal_eq_zero_iff.not.mp h
      by_cases hsign : (c :: p).head? = some 45
      · obtain rfl : c = 45 := Option.some.inj hsign
        rw [if_pos hsign, List.tail_cons, string2llDigits_eq_some_iff (by
          intro hp
          cases p <;> simp at hp ⊢)]
        unfold signedDecimal
        constructor
        · rintro ⟨w, rfl, hpos, hlong, hw⟩
          simp only [if_true] at hw
          rw [if_pos (by omega), show v.natAbs = w by omega]
          exact ⟨hlong, rfl⟩
        · rintro ⟨hlong, h⟩
          split_ifs at h with hneg
          · exact ⟨v.natAbs, (List.cons.inj h).2, by omega, hlong, by simp only [if_true]; omega⟩
          · exact absurd h.symm (decimalBytes_head_ne _ _)
      · rw [if_neg hsign, string2llDigits_eq_some_iff (by
          intro hp hone
          cases p <;> simp_all)]
        unfold signedDecimal
        constructor
        · rintro ⟨w, hdecimal, hpos, hlong, hw⟩
          simp only [Bool.false_eq_true, if_false] at hw
          rw [if_neg (by omega), show v.natAbs = w by omega]
          exact ⟨hlong, hdecimal⟩
        · rintro ⟨hlong, h⟩
          split_ifs at h with hneg
          · exact absurd (by rw [h]; rfl) hsign
          · refine ⟨v.natAbs, h, ?_, hlong, by simp only [Bool.false_eq_true, if_false]; omega⟩
            have hnot : v ≠ 0 := by
              rintro rfl
              exact hzero h
            omega

/-- The texts that are read as a number are those that the numbers are written as, and the number is
the one that was written. -/
theorem string2ll_eq_some_iff {s : Bytes} {v : ℤ} :
    string2ll s = some v ↔ IsLongLong v ∧ s = ll2string 32 v := by
  rw [string2ll_eq_some]
  exact and_congr_right fun h => by rw [ll2string_eq (by norm_num) h]

theorem readLongLongLoop_digits (mult v : ℤ) (ds : Digits) (s : Bytes) :
    readLongLongLoop mult v (ds.map digitByte ++ 13 :: s) =
      mult * (v * 10 ^ ds.length + natOf ds) := by
  induction ds generalizing v with
  | nil =>
    unfold readLongLongLoop
    simp
  | cons d ds ih =>
    have hne : digitByte d ≠ 13 := by
      revert d
      decide
    rw [List.map_cons, List.cons_append, readLongLongLoop, if_neg hne]
    simp only [byteDigit_digitByte]
    rw [ih, natOf_cons, List.length_cons]
    push_cast
    ring

/-- A number is read up to the end of its line. -/
theorem readLongLong_signedDecimal (v : ℤ) (s : Bytes) :
    readLongLong (signedDecimal v ++ 13 :: s) = v := by
  have hloop (mult : ℤ) : readLongLongLoop mult 0 (decimalBytes v.natAbs ++ 13 :: s) =
      mult * v.natAbs := by
    unfold decimalBytes
    rw [readLongLongLoop_digits, natOf_numeral]
    ring
  unfold signedDecimal
  split_ifs with hneg
  · rw [List.cons_append, readLongLong, if_pos rfl, hloop]
    omega
  · have hplus (d : Fin 10) : digitByte d ≠ 43 := by
      revert d
      decide
    obtain ⟨c, p, hp⟩ := List.exists_cons_of_ne_nil (decimalBytes_ne_nil v.natAbs)
    obtain ⟨d, rfl⟩ := mem_decimalBytes (hp ▸ List.mem_cons_self : c ∈ decimalBytes v.natAbs)
    have hpos := hloop 1
    rw [hp, List.cons_append] at hpos ⊢
    rw [readLongLong, if_neg (digitByte_ne_minus d), if_neg (hplus d), hpos]
    omega

end GridApps.Redis
