import GridApps.Numeral.Binary64
import GridApps.Numeral.Literal

/-! JSON values as a dynamically typed program holds them, with Python's equality. -/
namespace GridApps.Json

open GridApps.Numeral

/-- A string by its UTF-16 code units; surrogates need not be paired. -/
abbrev CodeUnits := List UInt16

/-- ASCII text as code units. -/
def units (t : Text) : CodeUnits := t.map fun c => c.toNat.toUInt16

inductive Scalar where
  | null
  | bool (b : Bool)
  | int (n : ℤ)
  | float (x : Binary64)
  | str (s : CodeUnits)
  deriving DecidableEq

/-- An object lists its members in the order in which they are iterated. -/
inductive Value where
  | scalar (s : Scalar)
  | arr (items : List Value)
  | obj (members : List (CodeUnits × Value))

abbrev Members := List (CodeUnits × Value)

/-- Assignment to a key of a dictionary. -/
def Members.setItem (k : CodeUnits) (x : Value) : Members → Members
  | [] => [(k, x)]
  | m :: ms => if m.1 = k then (k, x) :: ms else m :: setItem k x ms

/-- Of several pairs with one key the last counts. -/
def Members.ofPairs (ps : Members) : Members := ps.foldl (fun ms p => ms.setItem p.1 p.2) []

/-- The value as a rational, with a Boolean as a number like in Python. -/
def Scalar.rational? : Scalar → Option ℚ
  | .bool b => some (if b then 1 else 0)
  | .int n => some n
  | .float (.finite x) => some x.value
  | _ => none

/-- Python's `==`: numbers of any two types compare by value. -/
def Scalar.pyEq (a b : Scalar) : Bool :=
  match a.rational?, b.rational? with
  | some q, some r => decide (q = r)
  | none, none => decide (a = b) && decide (a ≠ .float .nan)
  | _, _ => false

namespace Value

@[match_pattern] abbrev null : Value := .scalar .null
@[match_pattern] abbrev bool (b : Bool) : Value := .scalar (.bool b)
@[match_pattern] abbrev int (n : ℤ) : Value := .scalar (.int n)
@[match_pattern] abbrev float (x : Binary64) : Value := .scalar (.float x)
@[match_pattern] abbrev str (s : CodeUnits) : Value := .scalar (.str s)

mutual

/-- The scalars of a value, the keys of its objects included, in the order of printing. -/
def scalars : Value → List Scalar
  | .scalar s => [s]
  | .arr xs => itemScalars xs
  | .obj ms => memberScalars ms

def itemScalars : List Value → List Scalar
  | [] => []
  | x :: xs => scalars x ++ itemScalars xs

def memberScalars : List (CodeUnits × Value) → List Scalar
  | [] => []
  | (k, x) :: ms => .str k :: (scalars x ++ memberScalars ms)

end

mutual

/-- The objects in a value, itself included. -/
def objects : Value → List (List (CodeUnits × Value))
  | .scalar _ => []
  | .arr xs => itemObjects xs
  | .obj ms => ms :: memberObjects ms

def itemObjects : List Value → List (List (CodeUnits × Value))
  | [] => []
  | x :: xs => objects x ++ itemObjects xs

def memberObjects : List (CodeUnits × Value) → List (List (CodeUnits × Value))
  | [] => []
  | (_, x) :: ms => objects x ++ memberObjects ms

end

/-- No object has a key twice. -/
def Distinct (v : Value) : Prop := ∀ ms ∈ v.objects, (ms.map Prod.fst).Nodup

instance (v : Value) : Decidable v.Distinct := by
  unfold Distinct
  infer_instance

mutual

/-- Python's `==` of decoded values; dictionaries compare as maps. -/
def pyEq : Value → Value → Bool
  | .scalar a, .scalar b => a.pyEq b
  | .arr xs, .arr ys => itemsEq xs ys
  | .obj ms, .obj ns => decide (ms.length = ns.length) && membersEq ms ns
  | _, _ => false

def itemsEq : List Value → List Value → Bool
  | [], [] => true
  | x :: xs, y :: ys => pyEq x y && itemsEq xs ys
  | _, _ => false

def membersEq : List (CodeUnits × Value) → List (CodeUnits × Value) → Bool
  | [], _ => true
  | (k, x) :: ms, ns => (ns.lookup k).any (fun y => pyEq x y) && membersEq ms ns

end

@[elab_as_elim]
theorem induct {p : Value → Prop} (scalar : ∀ s, p (.scalar s))
    (arr : ∀ xs, (∀ x ∈ xs, p x) → p (.arr xs))
    (obj : ∀ ms : Members, (∀ m ∈ ms, p m.2) → p (.obj ms)) (v : Value) : p v := by
  apply Value.rec (motive_1 := p) (motive_2 := fun xs => ∀ x ∈ xs, p x)
    (motive_3 := fun ms => ∀ m ∈ ms, p m.2) (motive_4 := fun m => p m.2) scalar arr obj
  · exact fun x hx => absurd hx List.not_mem_nil
  · exact fun x xs hx hxs => List.forall_mem_cons.mpr ⟨hx, hxs⟩
  · exact fun m hm => absurd hm List.not_mem_nil
  · exact fun m ms hm hms => List.forall_mem_cons.mpr ⟨hm, hms⟩
  · exact fun _ _ hx => hx

theorem itemScalars_eq (xs : List Value) : itemScalars xs = xs.flatMap scalars := by
  induction xs with
  | nil => rfl
  | cons x xs ih => rw [itemScalars, ih, List.flatMap_cons]

theorem memberScalars_eq (ms : Members) :
    memberScalars ms = ms.flatMap fun m => .str m.1 :: scalars m.2 := by
  induction ms with
  | nil => rfl
  | cons m ms ih => rw [memberScalars, ih, List.flatMap_cons, List.cons_append]

theorem itemObjects_eq (xs : List Value) : itemObjects xs = xs.flatMap objects := by
  induction xs with
  | nil => rfl
  | cons x xs ih => rw [itemObjects, ih, List.flatMap_cons]

theorem memberObjects_eq (ms : Members) :
    memberObjects ms = ms.flatMap fun m => objects m.2 := by
  induction ms with
  | nil => rfl
  | cons m ms ih => rw [memberObjects, ih, List.flatMap_cons]

end Value

theorem mem_of_lookup {ms : Members} {k : CodeUnits} {x : Value} (h : ms.lookup k = some x) :
    (k, x) ∈ ms := by
  obtain ⟨front, back, hms, -⟩ := List.lookup_eq_some_iff.mp h
  simp [hms]

theorem lookup_of_mem {ms : Members} (hnodup : (ms.map Prod.fst).Nodup) {m : CodeUnits × Value}
    (hm : m ∈ ms) : ms.lookup m.1 = some m.2 := by
  induction ms with
  | nil => exact absurd hm List.not_mem_nil
  | cons n ms ih =>
    obtain ⟨hn, hms⟩ := List.nodup_cons.mp hnodup
    rcases List.mem_cons.mp hm with rfl | hm
    · exact List.lookup_cons_self
    · have hne : m.1 ≠ n.1 := fun h => hn (h ▸ List.mem_map_of_mem hm)
      rw [List.lookup_cons, beq_false_of_ne hne]
      exact ih hms hm

namespace Members

theorem setItem_of_notMem {k : CodeUnits} {ms : Members} (h : k ∉ ms.map Prod.fst)
    (x : Value) : ms.setItem k x = ms ++ [(k, x)] := by
  induction ms with
  | nil => rfl
  | cons m ms ih =>
    rw [List.map_cons, List.mem_cons, not_or] at h
    rw [setItem, if_neg (Ne.symm h.1), ih h.2, List.cons_append]

theorem keys_setItem (k : CodeUnits) (x : Value) (ms : Members) :
    (ms.setItem k x).map Prod.fst =
      if k ∈ ms.map Prod.fst then ms.map Prod.fst else ms.map Prod.fst ++ [k] := by
  induction ms with
  | nil => rfl
  | cons m ms ih =>
    by_cases hm : m.1 = k
    · simp [setItem, hm]
    · by_cases hk : k ∈ ms.map Prod.fst
      · simp [setItem, hm, ih, hk]
      · simp [setItem, hm, ih, hk, Ne.symm hm]

theorem setItem_nodup {ms : Members} (h : (ms.map Prod.fst).Nodup) (k : CodeUnits) (x : Value) :
    ((ms.setItem k x).map Prod.fst).Nodup := by
  rw [keys_setItem]
  split_ifs with hk
  · exact h
  · apply List.nodup_append.mpr ⟨h, List.nodup_singleton k, ?_⟩
    rintro a ha b hb rfl
    exact hk (List.mem_singleton.mp hb ▸ ha)

theorem mem_setItem {k : CodeUnits} {x : Value} {ms : Members} {m : CodeUnits × Value}
    (h : m ∈ ms.setItem k x) : m = (k, x) ∨ m ∈ ms := by
  induction ms with
  | nil => exact .inl (List.mem_singleton.mp h)
  | cons n ms ih =>
    rw [setItem] at h
    split_ifs at h with hn
    · rcases List.mem_cons.mp h with rfl | h
      · exact .inl rfl
      · exact .inr (List.mem_cons_of_mem _ h)
    · rcases List.mem_cons.mp h with rfl | h
      · exact .inr List.mem_cons_self
      · exact (ih h).imp_right (List.mem_cons_of_mem _)

/-- A dictionary has one member for each key, so nothing is left under the key. -/
theorem mem_setItem_iff {ms : Members} (h : (ms.map Prod.fst).Nodup) {k : CodeUnits} {x : Value}
    {m : CodeUnits × Value} : m ∈ ms.setItem k x ↔ m = (k, x) ∨ m ∈ ms ∧ m.1 ≠ k := by
  induction ms with
  | nil => simp [setItem]
  | cons n ms ih =>
    obtain ⟨hn, hms⟩ := List.nodup_cons.mp h
    rw [setItem]
    split_ifs with hk
    · have hback : m ∈ ms → m.1 ≠ k := fun hm hmk => hn (hk ▸ hmk ▸ List.mem_map_of_mem hm)
      have hfront : m = n → m.1 = k := fun hmn => hmn ▸ hk
      rw [List.mem_cons, List.mem_cons]
      refine or_congr_right ⟨fun hm => ⟨.inr hm, hback hm⟩, ?_⟩
      rintro ⟨hmn | hm, hne⟩
      · exact absurd (hfront hmn) hne
      · exact hm
    · have hfront : m = n → m.1 ≠ k := fun hmn => hmn ▸ hk
      rw [List.mem_cons, List.mem_cons, ih hms, or_left_comm, or_and_right,
        and_iff_left_of_imp hfront]

theorem lookup_setItem_self (k : CodeUnits) (x : Value) (ms : Members) :
    (ms.setItem k x).lookup k = some x := by
  induction ms with
  | nil => exact List.lookup_cons_self
  | cons n ms ih =>
    rw [setItem]
    split_ifs with hn
    · exact List.lookup_cons_self
    · rw [List.lookup_cons, beq_false_of_ne (Ne.symm hn)]
      exact ih

theorem foldl_setItem_of_nodup (ps : Members) {ms : Members}
    (h : ((ms ++ ps).map Prod.fst).Nodup) :
    ps.foldl (fun ms p => ms.setItem p.1 p.2) ms = ms ++ ps := by
  induction ps generalizing ms with
  | nil => simp
  | cons p ps ih =>
    have hp : p.1 ∉ ms.map Prod.fst := by
      rw [List.map_append, List.map_cons, List.nodup_append] at h
      exact fun hm => h.2.2 _ hm _ List.mem_cons_self rfl
    rw [List.foldl_cons, setItem_of_notMem hp, ih]
    · simp
    · simpa using h

theorem ofPairs_of_nodup {ps : Members} (h : (ps.map Prod.fst).Nodup) : ofPairs ps = ps :=
  foldl_setItem_of_nodup ps h

theorem foldl_setItem_nodup (ps : Members) {ms : Members} (h : (ms.map Prod.fst).Nodup) :
    ((ps.foldl (fun ms p => ms.setItem p.1 p.2) ms).map Prod.fst).Nodup := by
  induction ps generalizing ms with
  | nil => exact h
  | cons p ps ih => exact ih (setItem_nodup h p.1 p.2)

theorem ofPairs_nodup (ps : Members) : ((ofPairs ps).map Prod.fst).Nodup :=
  foldl_setItem_nodup ps List.nodup_nil

theorem mem_foldl_setItem (ps : Members) {ms : Members} {m : CodeUnits × Value}
    (h : m ∈ ps.foldl (fun ms p => ms.setItem p.1 p.2) ms) : m ∈ ms ∨ m ∈ ps := by
  induction ps generalizing ms with
  | nil => exact .inl h
  | cons p ps ih =>
    rcases ih h with hm | hm
    · rcases mem_setItem hm with rfl | hm
      · exact .inr List.mem_cons_self
      · exact .inl hm
    · exact .inr (List.mem_cons_of_mem _ hm)

theorem mem_ofPairs {ps : Members} {m : CodeUnits × Value} (h : m ∈ ofPairs ps) : m ∈ ps :=
  (mem_foldl_setItem ps h).resolve_left List.not_mem_nil

end Members

theorem Scalar.pyEq_refl {s : Scalar} (h : s ≠ .float .nan) : s.pyEq s = true := by
  unfold pyEq
  cases hr : s.rational? with
  | none => simp [h]
  | some q => simp

theorem Scalar.pyEq_str {k : CodeUnits} {b : Scalar} (h : Scalar.pyEq (.str k) b = true) :
    b = .str k := by
  have hk : (Scalar.str k).rational? = none := rfl
  unfold pyEq at h
  rw [hk] at h
  cases hb : b.rational? with
  | none =>
    simp only [hb, Bool.and_eq_true, decide_eq_true_eq] at h
    exact h.1.symm
  | some q => simp [hb] at h

namespace Value

theorem Distinct.item {xs : List Value} (h : (Value.arr xs).Distinct) {x : Value} (hx : x ∈ xs) :
    x.Distinct := by
  intro ms hms
  apply h
  rw [objects, itemObjects_eq]
  exact List.mem_flatMap_of_mem hx hms

theorem Distinct.keys {ms : Members} (h : (Value.obj ms).Distinct) : (ms.map Prod.fst).Nodup :=
  h ms List.mem_cons_self

theorem Distinct.member {ms : Members} (h : (Value.obj ms).Distinct) {m : CodeUnits × Value}
    (hm : m ∈ ms) : m.2.Distinct := by
  intro ns hns
  apply h
  rw [objects, memberObjects_eq]
  exact List.mem_cons_of_mem _ (List.mem_flatMap_of_mem hm hns)

theorem distinct_scalar (s : Scalar) : (Value.scalar s).Distinct :=
  fun _ hms => absurd hms List.not_mem_nil

theorem distinct_arr {xs : List Value} (h : ∀ x ∈ xs, x.Distinct) : (Value.arr xs).Distinct := by
  intro ms hms
  rw [objects, itemObjects_eq] at hms
  obtain ⟨x, hx, hms⟩ := List.mem_flatMap.mp hms
  exact h x hx ms hms

theorem distinct_obj {ms : Members} (hkeys : (ms.map Prod.fst).Nodup)
    (h : ∀ m ∈ ms, m.2.Distinct) : (Value.obj ms).Distinct := by
  intro ns hns
  rw [objects, memberObjects_eq] at hns
  rcases List.mem_cons.mp hns with rfl | hns
  · exact hkeys
  · obtain ⟨m, hm, hns⟩ := List.mem_flatMap.mp hns
    exact h m hm ns hns

theorem itemsEq_iff (xs ys : List Value) :
    itemsEq xs ys = true ↔ List.Forall₂ (fun x y => pyEq x y = true) xs ys := by
  induction xs generalizing ys with
  | nil => cases ys <;> simp [itemsEq]
  | cons x xs ih => cases ys <;> simp [itemsEq, ih]

theorem membersEq_iff (ms ns : Members) :
    membersEq ms ns = true ↔ ∀ m ∈ ms, ∃ y, ns.lookup m.1 = some y ∧ pyEq m.2 y = true := by
  induction ms with
  | nil => simp [membersEq]
  | cons m ms ih => simp [membersEq, ih, Option.any_eq_true]

/-- Only a string is equal to a string. -/
theorem pyEq_str_iff {v : Value} {k : CodeUnits} : v.pyEq (.str k) = true ↔ v = .str k := by
  cases v with
  | scalar s =>
    cases s with
    | float x => cases x <;> simp [pyEq, Scalar.pyEq, Scalar.rational?]
    | _ => simp [pyEq, Scalar.pyEq, Scalar.rational?]
  | arr items => simp [pyEq]
  | obj members => simp [pyEq]

theorem pyEq_refl {v : Value} (hv : v.Distinct) (hnan : ∀ s ∈ v.scalars, s ≠ .float .nan) :
    pyEq v v = true := by
  induction v using induct with
  | scalar s => exact Scalar.pyEq_refl (hnan s (List.mem_singleton_self s))
  | arr xs ih =>
    rw [pyEq, itemsEq_iff, List.forall₂_same]
    intro x hx
    apply ih x hx (hv.item hx)
    intro s hs
    apply hnan
    rw [scalars, itemScalars_eq]
    exact List.mem_flatMap_of_mem hx hs
  | obj ms ih =>
    rw [pyEq, Bool.and_eq_true, membersEq_iff]
    refine ⟨decide_eq_true rfl, fun m hm => ⟨m.2, lookup_of_mem hv.keys hm, ?_⟩⟩
    apply ih m hm (hv.member hm)
    intro s hs
    apply hnan
    rw [scalars, memberScalars_eq]
    exact List.mem_flatMap_of_mem hm (List.mem_cons_of_mem _ hs)

/-- Equal values hold the same strings. -/
theorem str_mem_of_pyEq {v w : Value} (h : pyEq v w = true) {k : CodeUnits}
    (hk : .str k ∈ v.scalars) : .str k ∈ w.scalars := by
  induction v using induct generalizing w with
  | scalar s =>
    obtain rfl := List.mem_singleton.mp hk
    cases w with
    | scalar b =>
      rw [pyEq] at h
      exact List.mem_singleton.mpr (Scalar.pyEq_str h).symm
    | arr ys => simp [pyEq] at h
    | obj ns => simp [pyEq] at h
  | arr xs ih =>
    cases w with
    | scalar b => simp [pyEq] at h
    | obj ns => simp [pyEq] at h
    | arr ys =>
      rw [pyEq, itemsEq_iff] at h
      rw [scalars, itemScalars_eq] at hk ⊢
      obtain ⟨x, hx, hkx⟩ := List.mem_flatMap.mp hk
      obtain ⟨i, hi, rfl⟩ := List.getElem_of_mem hx
      have hlen := h.length_eq
      have hxy := (List.forall₂_iff_get.mp h).2 i hi (hlen ▸ hi)
      exact List.mem_flatMap_of_mem (List.getElem_mem _) (ih _ hx hxy hkx)
  | obj ms ih =>
    cases w with
    | scalar b => simp [pyEq] at h
    | arr ys => simp [pyEq] at h
    | obj ns =>
      rw [pyEq, Bool.and_eq_true, membersEq_iff] at h
      rw [scalars, memberScalars_eq] at hk ⊢
      obtain ⟨m, hm, hkm⟩ := List.mem_flatMap.mp hk
      obtain ⟨y, hy, heq⟩ := h.2 m hm
      apply List.mem_flatMap_of_mem (mem_of_lookup hy)
      rcases List.mem_cons.mp hkm with hkey | hkm
      · exact hkey ▸ List.mem_cons_self
      · exact List.mem_cons_of_mem _ (ih m hm heq hkm)

end Value
end GridApps.Json
