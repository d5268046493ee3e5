import Mathlib.Data.List.Nodup
import Mathlib.Data.List.Perm.Basic
import Mathlib.Tactic

/-! Tables of buckets. Which bucket a key belongs to is a function of the key and of the table; the
entries of a table are counted up to their order. -/
namespace GridApps.HashTable

variable {K V : Type*}

abbrev Buckets (K V : Type*) := List (List (K × V))

/-- Every entry is in the bucket of its key. -/
def Placed (index : K → ℕ) (table : Buckets K V) : Prop :=
  ∀ i bucket, table[i]? = some bucket → ∀ e ∈ bucket, index e.1 = i

variable {index : K → ℕ} {table : Buckets K V} {i : ℕ} {bucket : List (K × V)}

theorem Placed.mem_flatten (h : Placed index table) {e : K × V} :
    e ∈ table.flatten ↔ ∃ bucket, table[index e.1]? = some bucket ∧ e ∈ bucket := by
  rw [List.mem_flatten]
  constructor
  · rintro ⟨bucket, hbucket, he⟩
    obtain ⟨i, hi⟩ := List.mem_iff_getElem?.mp hbucket
    obtain rfl := h i bucket hi e he
    exact ⟨bucket, hi, he⟩
  · rintro ⟨bucket, hbucket, he⟩
    exact ⟨bucket, List.mem_of_getElem? hbucket, he⟩

theorem placed_replicate (index : K → ℕ) (n : ℕ) :
    Placed index (List.replicate n [] : Buckets K V) := by
  intro i bucket hi e he
  rw [List.eq_of_mem_replicate (List.mem_of_getElem? hi)] at he
  exact absurd he List.not_mem_nil

theorem flatten_replicate_nil (n : ℕ) : (List.replicate n [] : Buckets K V).flatten = [] := by
  rw [List.flatten_eq_nil_iff]
  exact fun _ h => List.eq_of_mem_replicate h

theorem Placed.set (h : Placed index table) (hbucket : ∀ e ∈ bucket, index e.1 = i) :
    Placed index (table.set i bucket) := by
  intro j bucket' hj e he
  by_cases hij : i = j
  · subst hij
    rw [List.getElem?_set] at hj
    rw [if_pos rfl] at hj
    split_ifs at hj with hlt
    exact hbucket e (Option.some.inj hj ▸ he)
  · rw [List.getElem?_set_ne hij] at hj
    exact h j bucket' hj e he

/-- What is in the table besides one bucket. -/
theorem exists_others (h : table[i]? = some bucket) :
    ∃ others, table.flatten.Perm (bucket ++ others) ∧
      ∀ bucket', (table.set i bucket').flatten.Perm (bucket' ++ others) := by
  induction table generalizing i with
  | nil => simp at h
  | cons b table ih =>
    cases i with
    | zero =>
      obtain rfl := Option.some.inj h
      exact ⟨table.flatten, .refl _, fun _ => .refl _⟩
    | succ i =>
      obtain ⟨others, hperm, hset⟩ := ih h
      have hswap (l : List (K × V)) : (b ++ (l ++ others)).Perm (l ++ (b ++ others)) := by
        rw [← List.append_assoc, ← List.append_assoc]
        exact List.perm_append_comm.append_right others
      exact ⟨b ++ others, (hperm.append_left b).trans (hswap bucket),
        fun bucket' => ((hset bucket').append_left b).trans (hswap bucket')⟩

section Keys

variable [DecidableEq K] {l l' : List (K × V)} {key : K}

/-- The value of a key in a list of entries. -/
def valueOf (key : K) (l : List (K × V)) : Option V :=
  (l.find? fun e => decide (e.1 = key)).map Prod.snd

theorem valueOf_cons (e : K × V) (l : List (K × V)) :
    valueOf key (e :: l) = if e.1 = key then some e.2 else valueOf key l := by
  rw [valueOf, valueOf, List.find?_cons]
  by_cases hkey : e.1 = key <;> simp [hkey]

theorem valueOf_eq_some_iff (h : (l.map Prod.fst).Nodup) {val : V} :
    valueOf key l = some val ↔ (key, val) ∈ l := by
  induction l with
  | nil => simp [valueOf]
  | cons e l ih =>
    rw [List.map_cons, List.nodup_cons] at h
    rw [valueOf_cons, List.mem_cons]
    split_ifs with hkey
    · subst hkey
      have hnot : (e.1, val) ∉ l := fun hmem => h.1 (List.mem_map.mpr ⟨_, hmem, rfl⟩)
      rw [or_iff_left hnot, Option.some_inj, Prod.ext_iff]
      exact ⟨fun heq => ⟨rfl, heq.symm⟩, fun heq => heq.2.symm⟩
    · have hne : (key, val) ≠ e := fun heq => hkey (heq ▸ rfl)
      rw [ih h.2, or_iff_right hne]

theorem valueOf_eq_none_iff : valueOf key l = none ↔ key ∉ l.map Prod.fst := by
  rw [valueOf, Option.map_eq_none_iff, List.find?_eq_none, List.mem_map]
  simp only [decide_eq_true_eq]
  exact ⟨fun hne ⟨e, he, heq⟩ => hne e he heq, fun hne e he heq => hne ⟨e, he, heq⟩⟩

/-- The order of the entries does not matter. -/
theorem valueOf_perm (hperm : l.Perm l') (h : (l.map Prod.fst).Nodup) (key : K) :
    valueOf key l = valueOf key l' := by
  have h' := (hperm.map Prod.fst).nodup_iff.mp h
  refine Option.ext fun val => ?_
  rw [valueOf_eq_some_iff h, valueOf_eq_some_iff h', hperm.mem_iff]

/-- The list without the entry of a key. -/
def erase (key : K) (l : List (K × V)) : List (K × V) := l.eraseP fun e => decide (e.1 = key)

theorem perm_erase (h : (l.map Prod.fst).Nodup) {val : V} (hmem : (key, val) ∈ l) :
    l.Perm ((key, val) :: erase key l) := by
  obtain ⟨e, front, back, hfront, hkey, hl, herase⟩ :=
    List.exists_of_eraseP (p := fun e => decide (e.1 = key)) hmem (decide_eq_true rfl)
  have he : e = (key, val) := by
    have hmem' : e ∈ l := hl ▸ List.mem_append_right front List.mem_cons_self
    exact List.inj_on_of_nodup_map h hmem' hmem (of_decide_eq_true hkey)
  rw [erase, herase, hl, he]
  exact List.perm_middle

/-- The list with another value in the entry of a key. -/
def assign (key : K) (val : V) : List (K × V) → List (K × V)
  | [] => []
  | e :: l => if e.1 = key then (e.1, val) :: l else e :: assign key val l

theorem perm_assign {val : V} (hmem : key ∈ l.map Prod.fst) :
    (assign key val l).Perm ((key, val) :: erase key l) := by
  induction l with
  | nil => exact absurd hmem List.not_mem_nil
  | cons e l ih =>
    rw [assign, erase, List.eraseP_cons]
    by_cases hkey : e.1 = key
    · rw [if_pos hkey, decide_eq_true hkey, hkey]
      exact .refl _
    · rw [if_neg hkey, decide_eq_false hkey]
      have hmem' : key ∈ l.map Prod.fst := by
        rw [List.map_cons, List.mem_cons] at hmem
        exact hmem.resolve_left (Ne.symm hkey)
      exact ((ih hmem').cons e).trans (.swap _ _ _)

end Keys

end GridApps.HashTable
