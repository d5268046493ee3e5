import GridApps.HashTable.Buckets

/-! The hash tables of `dict.c`. While a dictionary is resized it has two of them, and the entries
are moved bucket by bucket by the commands that use it. -/
namespace GridApps.Redis
open HashTable

variable {K V : Type}

/-- `size` and `sizemask` are those of the array; a `NULL` table is an empty one. -/
structure Dictht (K V : Type) where
  table : Buckets K V
  used : ℕ

/-- A `rehashidx` of -1 is `none`. -/
structure Dict (K V : Type) where
  ht0 : Dictht K V
  ht1 : Dictht K V
  rehashidx : Option ℕ
  iterators : ℕ

def dictHtInitialSize : ℕ := 4

def dictForceResizeRatio : ℕ := 5

namespace Dictht

def size (ht : Dictht K V) : ℕ := ht.table.length

def sizemask (ht : Dictht K V) : ℕ := ht.size - 1

def dictReset : Dictht K V := ⟨[], 0⟩

/-- The bucket of a key, or `none` out of bounds. -/
def bucket (hashFunction : K → ℕ) (key : K) (ht : Dictht K V) : Option (List (K × V)) :=
  ht.table[hashFunction key &&& ht.sizemask]?

def setBucket (hashFunction : K → ℕ) (key : K) (bucket : List (K × V)) (used : ℕ)
    (ht : Dictht K V) : Dictht K V :=
  ⟨ht.table.set (hashFunction key &&& ht.sizemask) bucket, used⟩

/-- An entry goes in at the head of its bucket. -/
def push (hashFunction : K → ℕ) (ht : Dictht K V) (e : K × V) : Option (Dictht K V) := do
  let bucket ← ht.bucket hashFunction e.1
  return ht.setBucket hashFunction e.1 (e :: bucket) (ht.used + 1)

end Dictht

namespace Dict

def dictCreate : Dict K V := ⟨.dictReset, .dictReset, none, 0⟩

def dictSize (d : Dict K V) : ℕ := d.ht0.used + d.ht1.used

def dictSlots (d : Dict K V) : ℕ := d.ht0.size + d.ht1.size

def dictIsRehashing (d : Dict K V) : Bool := d.rehashidx.isSome

/-- `i` is doubled until it is at least `size`; `size` doublings are enough. -/
def nextPower (size : ℕ) : ℕ → ℕ → ℕ
  | 0, i => i
  | fuel + 1, i => if size ≤ i then i else nextPower size fuel (i * 2)

def dictNextPower (size : ℕ) : ℕ := nextPower size size dictHtInitialSize

/-- The result says whether it was `DICT_OK`. -/
def dictExpand (size : ℕ) (d : Dict K V) : Dict K V × Bool :=
  if d.dictIsRehashing ∨ size < d.ht0.used then (d, false)
  else
    let n : Dictht K V := ⟨List.replicate (dictNextPower size) [], 0⟩
    if d.ht0.size = 0 then ({ d with ht0 := n }, true)
    else ({ d with ht1 := n, rehashidx := some 0 }, true)

def dictResize (dictCanResize : Bool) (d : Dict K V) : Dict K V × Bool :=
  if !dictCanResize ∨ d.dictIsRehashing then (d, false)
  else
    let minimal := d.ht0.used
    dictExpand (if minimal < dictHtInitialSize then dictHtInitialSize else minimal) d

def htNeedsResize (d : Dict K V) : Bool :=
  decide (d.dictSlots ≠ 0 ∧ d.dictSize ≠ 0 ∧ dictHtInitialSize < d.dictSlots ∧
    d.dictSize * 100 / d.dictSlots < 10)

def dictExpandIfNeeded (dictCanResize : Bool) (d : Dict K V) : Dict K V × Bool :=
  if d.dictIsRehashing then (d, true)
  else if d.ht0.size = 0 then dictExpand dictHtInitialSize d
  else if d.ht0.size ≤ d.ht0.used ∧
      (dictCanResize ∨ dictForceResizeRatio < d.ht0.used / d.ht0.size) then
    dictExpand ((if d.ht0.used < d.ht0.size then d.ht0.size else d.ht0.used) * 2) d
  else (d, true)

section Operations

variable (hashFunction : K → ℕ)

/-- The first bucket from `rehashidx` on that is not empty is moved. -/
def rehashBucket (d : Dict K V) : Option (Dict K V) := do
  let start ← d.rehashidx
  let skipped ← (d.ht0.table.drop start).findIdx? fun bucket => !bucket.isEmpty
  let bucket ← d.ht0.table[start + skipped]?
  let ht1 ← bucket.foldlM (Dictht.push hashFunction) d.ht1
  return { d with
    ht0 := ⟨d.ht0.table.set (start + skipped) [], d.ht0.used - bucket.length⟩
    ht1 := ht1
    rehashidx := some (start + skipped + 1) }

def rehashLoop : ℕ → Dict K V → Option (Dict K V × Bool)
  | 0, d => some (d, true)
  | n + 1, d =>
    if d.ht0.used = 0 then
      some ({ d with ht0 := d.ht1, ht1 := .dictReset, rehashidx := none }, false)
    else (d.rehashBucket hashFunction).bind (rehashLoop n)

/-- The result says whether there are still keys to move. -/
def dictRehash (n : ℕ) (d : Dict K V) : Option (Dict K V × Bool) :=
  if d.dictIsRehashing then rehashLoop hashFunction n d else some (d, false)

def dictRehashStep (d : Dict K V) : Option (Dict K V) :=
  if d.iterators = 0 then (dictRehash hashFunction 1 d).map Prod.fst else some d

/-- `if (dictIsRehashing(d)) _dictRehashStep(d);` -/
def stepIfRehashing (d : Dict K V) : Option (Dict K V) :=
  if d.dictIsRehashing then d.dictRehashStep hashFunction else some d

variable [DecidableEq K]

def dictFind (key : K) (d : Dict K V) : Option (Dict K V × Option V) :=
  if d.ht0.size = 0 then some (d, none)
  else do
    let d ← d.stepIfRehashing hashFunction
    let bucket ← d.ht0.bucket hashFunction key
    match valueOf key bucket with
    | some val => return (d, some val)
    | none =>
      if d.dictIsRehashing then
        let bucket ← d.ht1.bucket hashFunction key
        return (d, valueOf key bucket)
      else return (d, none)

/-- Whether the key is there, in the tables as they are expanded for it. -/
def dictKeyIndex (dictCanResize : Bool) (key : K) (d : Dict K V) : Option (Dict K V × Bool) := do
  let (d, ok) := d.dictExpandIfNeeded dictCanResize
  if !ok then return (d, true)
  else
    let bucket ← d.ht0.bucket hashFunction key
    if (valueOf key bucket).isSome then return (d, true)
    else if d.dictIsRehashing then
      let bucket ← d.ht1.bucket hashFunction key
      return (d, (valueOf key bucket).isSome)
    else return (d, false)

/-- The result says whether it was `DICT_OK`. -/
def dictAdd (dictCanResize : Bool) (key : K) (val : V) (d : Dict K V) :
    Option (Dict K V × Bool) := do
  let d ← d.stepIfRehashing hashFunction
  let (d, found) ← d.dictKeyIndex hashFunction dictCanResize key
  if found then return (d, false)
  else if d.dictIsRehashing then
    let ht1 ← d.ht1.push hashFunction (key, val)
    return ({ d with ht1 := ht1 }, true)
  else
    let ht0 ← d.ht0.push hashFunction (key, val)
    return ({ d with ht0 := ht0 }, true)

/-- The value of the entry of a key is written, once `dictFind` has found it. -/
def dictSetHashVal (key : K) (val : V) (d : Dict K V) : Option (Dict K V) := do
  let bucket ← d.ht0.bucket hashFunction key
  if (valueOf key bucket).isSome then
    return { d with ht0 := d.ht0.setBucket hashFunction key (assign key val bucket) d.ht0.used }
  else
    let bucket ← d.ht1.bucket hashFunction key
    return { d with ht1 := d.ht1.setBucket hashFunction key (assign key val bucket) d.ht1.used }

/-- The result says whether the key was added from scratch. -/
def dictReplace (dictCanResize : Bool) (key : K) (val : V) (d : Dict K V) :
    Option (Dict K V × Bool) := do
  let (d, added) ← d.dictAdd hashFunction dictCanResize key val
  if added then return (d, true)
  else
    let (d, _) ← d.dictFind hashFunction key
    let d ← d.dictSetHashVal hashFunction key val
    return (d, false)

def dictGenericDelete (key : K) (d : Dict K V) : Option (Dict K V × Bool) :=
  if d.ht0.size = 0 then some (d, false)
  else do
    let d ← d.stepIfRehashing hashFunction
    let bucket ← d.ht0.bucket hashFunction key
    if (valueOf key bucket).isSome then
      return ({ d with ht0 :=
        d.ht0.setBucket hashFunction key (erase key bucket) (d.ht0.used - 1) }, true)
    else if d.dictIsRehashing then
      let bucket ← d.ht1.bucket hashFunction key
      if (valueOf key bucket).isSome then
        return ({ d with ht1 :=
          d.ht1.setBucket hashFunction key (erase key bucket) (d.ht1.used - 1) }, true)
      else return (d, false)
    else return (d, false)

def dictDelete (key : K) (d : Dict K V) : Option (Dict K V × Bool) :=
  d.dictGenericDelete hashFunction key

end Operations

end Dict

namespace Dictht

variable {hashFunction : K → ℕ} {ht ht' : Dictht K V}

/-- The size is 0 or a power of two, and every entry is in the bucket of its hash. -/
structure Valid (hashFunction : K → ℕ) (ht : Dictht K V) : Prop where
  size : ht.size = 0 ∨ ∃ n, ht.size = 2 ^ n
  placed : Placed (fun key => hashFunction key &&& ht.sizemask) ht.table
  used : ht.used = ht.table.flatten.length

theorem valid_dictReset : Valid hashFunction (dictReset : Dictht K V) :=
  ⟨.inl rfl, fun i bucket hi => by simp [dictReset] at hi, rfl⟩

theorem valid_replicate {size : ℕ} (h : ∃ n, size = 2 ^ n) :
    Valid hashFunction (⟨List.replicate size [], 0⟩ : Dictht K V) where
  size := .inr (by simpa [Dictht.size] using h)
  placed := placed_replicate _ _
  used := by rw [flatten_replicate_nil]; rfl

/-- There is a bucket for every key. -/
theorem exists_bucket (hashFunction : K → ℕ) (h : ht.size ≠ 0) (key : K) :
    ∃ bucket, ht.bucket hashFunction key = some bucket := by
  have hlt : hashFunction key &&& ht.sizemask < ht.table.length := by
    have hle : hashFunction key &&& ht.sizemask ≤ ht.sizemask := Nat.and_le_right
    have hpos : ht.table.length ≠ 0 := h
    have hmask : ht.sizemask = ht.table.length - 1 := rfl
    omega
  exact ⟨_, List.getElem?_eq_getElem hlt⟩

theorem size_setBucket (key : K) (bucket : List (K × V)) (used : ℕ) :
    (ht.setBucket hashFunction key bucket used).size = ht.size :=
  List.length_set

/-- What another content of the bucket of a key does to the table. -/
theorem Valid.setBucket (h : Valid hashFunction ht) {key : K} {bucket : List (K × V)}
    (hbucket : ht.bucket hashFunction key = some bucket) :
    (∀ e, e.1 = key → (e ∈ ht.table.flatten ↔ e ∈ bucket)) ∧
      ∃ others, ht.table.flatten.Perm (bucket ++ others) ∧
        ∀ bucket' used', (∀ e ∈ bucket', e ∈ bucket ∨ e.1 = key) →
          used' = bucket'.length + others.length →
          Valid hashFunction (ht.setBucket hashFunction key bucket' used') ∧
            (ht.setBucket hashFunction key bucket' used').table.flatten.Perm
              (bucket' ++ others) := by
  obtain ⟨others, hperm, hset⟩ := exists_others hbucket
  refine ⟨fun e he => ?_, others, hperm, fun bucket' used' hmem hused => ⟨?_, hset bucket'⟩⟩
  · rw [h.placed.mem_flatten, he]
    refine ⟨fun ⟨b, hb, hmem⟩ => ?_, fun hmem => ⟨bucket, hbucket, hmem⟩⟩
    rwa [Option.some.inj (hbucket.symm.trans hb)]
  · refine ⟨?_, ?_, ?_⟩
    · rw [size_setBucket]
      exact h.size
    · rw [sizemask, size_setBucket]
      refine h.placed.set fun e he => ?_
      rcases hmem e he with hold | hkey
      · exact h.placed _ _ hbucket e hold
      · rw [hkey]
    · exact hused.trans ((hset bucket').length_eq.trans List.length_append).symm

theorem Valid.push (h : Valid hashFunction ht) (hsize : ht.size ≠ 0) (e : K × V) :
    ∃ ht', ht.push hashFunction e = some ht' ∧ Valid hashFunction ht' ∧ ht'.size = ht.size ∧
      ht'.table.flatten.Perm (e :: ht.table.flatten) := by
  obtain ⟨bucket, hbucket⟩ := exists_bucket hashFunction hsize e.1
  obtain ⟨-, others, hperm, hset⟩ := h.setBucket hbucket
  obtain ⟨hvalid, hperm'⟩ := hset (e :: bucket) (ht.used + 1)
    (List.forall_mem_cons.mpr ⟨.inr rfl, fun _ => .inl⟩) (by
      rw [h.used, hperm.length_eq, List.length_append, List.length_cons]
      omega)
  refine ⟨_, by rw [Dictht.push, hbucket]; rfl, hvalid, size_setBucket _ _ _, ?_⟩
  exact hperm'.trans (hperm.symm.cons e)

theorem Valid.foldlM_push (h : Valid hashFunction ht) (hsize : ht.size ≠ 0) (l : List (K × V)) :
    ∃ ht', l.foldlM (Dictht.push hashFunction) ht = some ht' ∧ Valid hashFunction ht' ∧
      ht'.size = ht.size ∧ ht'.table.flatten.Perm (l ++ ht.table.flatten) := by
  induction l generalizing ht with
  | nil => exact ⟨ht, rfl, h, rfl, .refl _⟩
  | cons e l ih =>
    obtain ⟨s, hpush, hvalid, hs, hperm⟩ := h.push hsize e
    obtain ⟨ht', hfold, hvalid', hsize', hperm'⟩ := ih hvalid (hs ▸ hsize)
    refine ⟨ht', ?_, hvalid', hsize'.trans hs, ?_⟩
    · rw [List.foldlM_cons, hpush]
      exact hfold
    · exact hperm'.trans ((hperm.append_left l).trans List.perm_middle)

end Dictht

namespace Dict

variable {hashFunction : K → ℕ} {d d' : Dict K V}

/-- The entries of both tables. -/
def entries (d : Dict K V) : List (K × V) := d.ht0.table.flatten ++ d.ht1.table.flatten

/-- The second table is in use exactly while the first one is moved to it, and the buckets in front
of `rehashidx` have been moved. -/
structure Valid (hashFunction : K → ℕ) (d : Dict K V) : Prop where
  ht0 : d.ht0.Valid hashFunction
  ht1 : d.ht1.Valid hashFunction
  idle : d.rehashidx = none → d.ht1 = .dictReset
  moving : ∀ i, d.rehashidx = some i → d.ht0.size ≠ 0 ∧ d.ht1.size ≠ 0 ∧
    ∀ bucket ∈ d.ht0.table.take i, bucket = []
  keys : (d.entries.map Prod.fst).Nodup

theorem valid_dictCreate : Valid hashFunction (dictCreate : Dict K V) where
  ht0 := Dictht.valid_dictReset
  ht1 := Dictht.valid_dictReset
  idle _ := rfl
  moving i hi := by simp [dictCreate] at hi
  keys := List.nodup_nil

theorem Valid.dictSize_eq (h : Valid hashFunction d) : d.dictSize = d.entries.length := by
  rw [dictSize, h.ht0.used, h.ht1.used, entries, List.length_append]

theorem exists_nextPower (size fuel n : ℕ) : ∃ m, nextPower size fuel (2 ^ n) = 2 ^ m := by
  induction fuel generalizing n with
  | zero => exact ⟨n, rfl⟩
  | succ fuel ih =>
    rw [nextPower]
    split_ifs
    · exact ⟨n, rfl⟩
    · rw [← pow_succ]
      exact ih (n + 1)

theorem exists_dictNextPower (size : ℕ) : ∃ n, dictNextPower size = 2 ^ n :=
  exists_nextPower size size 2

/-- The tables may differ, but not their entries. -/
structure Same (hashFunction : K → ℕ) (d d' : Dict K V) : Prop where
  valid : Valid hashFunction d'
  perm : d'.entries.Perm d.entries
  iterators : d'.iterators = d.iterators

theorem Valid.same (h : Valid hashFunction d) : Same hashFunction d d := ⟨h, .refl _, rfl⟩

theorem Same.trans {d'' : Dict K V} (h : Same hashFunction d d') (h' : Same hashFunction d' d'') :
    Same hashFunction d d'' :=
  ⟨h'.valid, h'.perm.trans h.perm, h'.iterators.trans h.iterators⟩

/-- A new table is empty. -/
theorem Valid.dictExpand (h : Valid hashFunction d) {size : ℕ} (hidle : d.rehashidx = none)
    (hsize : d.ht0.used ≤ size) :
    (d.dictExpand size).2 = true ∧ Same hashFunction d (d.dictExpand size).1 ∧
      (d.dictExpand size).1.ht0.size ≠ 0 := by
  have hpower := exists_dictNextPower size
  have hpos : (List.replicate (dictNextPower size) [] : Buckets K V).length ≠ 0 := by
    obtain ⟨n, hn⟩ := hpower
    rw [List.length_replicate, hn]
    exact (Nat.two_pow_pos n).ne'
  have hnew : (⟨List.replicate (dictNextPower size) [], 0⟩ : Dictht K V).Valid hashFunction :=
    Dictht.valid_replicate hpower
  have hflatten := flatten_replicate_nil (K := K) (V := V) (dictNextPower size)
  rw [Dict.dictExpand, if_neg (by simp [dictIsRehashing, hidle, hsize])]
  by_cases hempty : d.ht0.size = 0
  · have hentries : d.ht0.table.flatten = [] := by
      rw [List.eq_nil_of_length_eq_zero hempty]
      rfl
    rw [if_pos hempty]
    refine ⟨rfl, ⟨⟨hnew, h.ht1, h.idle, fun i hi => ?_, ?_⟩, ?_, rfl⟩, hpos⟩
    · rw [hidle] at hi
      contradiction
    · have hkeys := h.keys
      rw [entries, hentries] at hkeys
      rw [entries, hflatten]
      exact hkeys
    · rw [entries, entries, hflatten, hentries]
  · have hentries : d.ht1.table.flatten = [] := by
      rw [h.idle hidle]
      rfl
    rw [if_neg hempty]
    refine ⟨rfl,
      ⟨⟨h.ht0, hnew, fun hnone => by contradiction, fun i hi => ?_, ?_⟩, ?_, rfl⟩, hempty⟩
    · obtain rfl := Option.some.inj hi
      exact ⟨hempty, hpos, fun bucket hbucket => absurd hbucket (by simp)⟩
    · have hkeys := h.keys
      rw [entries, hentries] at hkeys
      rw [entries, hflatten]
      exact hkeys
    · rw [entries, entries, hflatten, hentries]

theorem Valid.dictResize (h : Valid hashFunction d) (dictCanResize : Bool) :
    Same hashFunction d (d.dictResize dictCanResize).1 := by
  rw [Dict.dictResize]
  by_cases hkeep : !dictCanResize ∨ d.dictIsRehashing
  · rw [if_pos hkeep]
    exact h.same
  · have hidle : d.rehashidx = none := by
      simpa [dictIsRehashing] using (not_or.mp hkeep).2
    rw [if_neg hkeep]
    exact (h.dictExpand hidle (by split_ifs <;> omega)).2.1

theorem Valid.dictExpandIfNeeded (h : Valid hashFunction d) (dictCanResize : Bool) :
    (d.dictExpandIfNeeded dictCanResize).2 = true ∧
      Same hashFunction d (d.dictExpandIfNeeded dictCanResize).1 ∧
      (d.dictExpandIfNeeded dictCanResize).1.ht0.size ≠ 0 := by
  rw [Dict.dictExpandIfNeeded]
  by_cases hmoving : d.dictIsRehashing = true
  · obtain ⟨i, hi⟩ := Option.isSome_iff_exists.mp hmoving
    rw [if_pos hmoving]
    exact ⟨rfl, h.same, (h.moving i hi).1⟩
  · have hidle : d.rehashidx = none := by simpa [dictIsRehashing] using hmoving
    rw [if_neg hmoving]
    by_cases hempty : d.ht0.size = 0
    · have hused := h.ht0.used
      rw [List.eq_nil_of_length_eq_zero hempty] at hused
      rw [if_pos hempty]
      exact h.dictExpand hidle (hused ▸ Nat.zero_le _)
    · rw [if_neg hempty]
      by_cases hfull : d.ht0.size ≤ d.ht0.used ∧
          (dictCanResize ∨ dictForceResizeRatio < d.ht0.used / d.ht0.size)
      · rw [if_pos hfull]
        exact h.dictExpand hidle (by split_ifs <;> omega)
      · rw [if_neg hfull]
        exact ⟨rfl, h.same, hempty⟩

/-- There is a bucket to move as long as the first table has entries. -/
theorem Valid.exists_bucket (h : Valid hashFunction d) {i : ℕ} (hi : d.rehashidx = some i)
    (hused : d.ht0.used ≠ 0) :
    ∃ k bucket, (d.ht0.table.drop i).findIdx? (fun bucket => !bucket.isEmpty) = some k ∧
      d.ht0.table[i + k]? = some bucket ∧ bucket ≠ [] ∧
      ∀ bucket ∈ d.ht0.table.take (i + k), bucket = [] := by
  obtain ⟨-, -, hmoved⟩ := h.moving i hi
  cases hfind : (d.ht0.table.drop i).findIdx? fun bucket => !bucket.isEmpty with
  | none =>
    refine absurd ?_ hused
    rw [h.ht0.used, List.length_eq_zero_iff, List.flatten_eq_nil_iff]
    intro bucket hbucket
    rw [← List.take_append_drop i d.ht0.table, List.mem_append] at hbucket
    rcases hbucket with hbucket | hbucket
    · exact hmoved bucket hbucket
    · simpa using List.findIdx?_eq_none_iff.mp hfind bucket hbucket
  | some k =>
    obtain ⟨hk, hbucket, hskipped⟩ := List.findIdx?_eq_some_iff_getElem.mp hfind
    refine ⟨k, _, rfl, List.getElem?_drop ▸ List.getElem?_eq_getElem hk, by simpa using hbucket,
      fun bucket hmem => ?_⟩
    rw [List.take_add, List.mem_append] at hmem
    rcases hmem with hmem | hmem
    · exact hmoved bucket hmem
    · obtain ⟨j, hj, rfl⟩ := List.mem_take_iff_getElem.mp hmem
      simpa using hskipped j (by omega)

theorem Valid.rehashBucket (h : Valid hashFunction d) {i : ℕ} (hi : d.rehashidx = some i)
    (hused : d.ht0.used ≠ 0) :
    ∃ d' j, d.rehashBucket hashFunction = some d' ∧ Same hashFunction d d' ∧
      d'.rehashidx = some j ∧ d'.ht0.used < d.ht0.used := by
  obtain ⟨hsize0, hsize1, -⟩ := h.moving i hi
  obtain ⟨k, bucket, hfind, hbucket, hne, hempty⟩ := h.exists_bucket hi hused
  obtain ⟨others, hperm, hset⟩ := exists_others hbucket
  obtain ⟨ht1, hfold, hvalid1, hsize1', hperm1⟩ := h.ht1.foldlM_push hsize1 bucket
  have hused' : d.ht0.used = bucket.length + others.length := by
    rw [h.ht0.used, hperm.length_eq, List.length_append]
  have hpos := List.length_pos_iff.mpr hne
  have hentries : ((d.ht0.table.set (i + k) []).flatten ++ ht1.table.flatten).Perm d.entries := by
    have hmove := ((hset []).append hperm1).trans
      (List.perm_append_comm_assoc ([] ++ others) bucket d.ht1.table.flatten)
    rw [List.nil_append, ← List.append_assoc] at hmove
    exact hmove.trans (hperm.symm.append_right _)
  have hsize : (d.ht0.table.set (i + k) []).length = d.ht0.size := List.length_set
  refine ⟨{ d with
    ht0 := ⟨d.ht0.table.set (i + k) [], d.ht0.used - bucket.length⟩
    ht1 := ht1
    rehashidx := some (i + k + 1) }, _, ?_, ⟨⟨⟨?_, ?_, ?_⟩, hvalid1, ?_, ?_, ?_⟩, hentries, rfl⟩,
    rfl, ?_⟩
  · simp only [Dict.rehashBucket, hi, Option.bind_eq_bind, Option.bind_some, hfind, hbucket, hfold]
    rfl
  · rw [Dictht.size, hsize]
    exact h.ht0.size
  · rw [Dictht.sizemask, Dictht.size, hsize]
    exact h.ht0.placed.set fun e he => absurd he List.not_mem_nil
  · rw [(hset []).length_eq, hused']
    simp
  · intro hnone
    contradiction
  · rintro j hj
    obtain rfl := Option.some.inj hj
    refine ⟨by rw [Dictht.size, hsize]; exact hsize0, hsize1'.symm ▸ hsize1, fun b hb => ?_⟩
    obtain ⟨hlt, -⟩ := List.getElem?_eq_some_iff.mp hbucket
    rw [List.take_set, List.take_add_one, hbucket, Option.toList_some,
      List.set_append_right _ _ (by simp), List.length_take, min_eq_left hlt.le, Nat.sub_self,
      List.set_cons_zero, List.mem_append, List.mem_singleton] at hb
    exact hb.elim (hempty b) id
  · exact ((hentries.map Prod.fst).nodup_iff).mpr h.keys
  · rw [hused']
    simp
    omega

/-- Each turn of the loop moves a bucket, until the first table is given up. -/
theorem Valid.rehashLoop (h : Valid hashFunction d) {i : ℕ} (hi : d.rehashidx = some i) (n : ℕ) :
    ∃ d' more, rehashLoop hashFunction n d = some (d', more) ∧ Same hashFunction d d' ∧
      d'.ht0.size ≠ 0 ∧ (more = false → d'.rehashidx = none) ∧
      (d.ht0.used < n → more = false) := by
  induction n generalizing d i with
  | zero =>
    exact ⟨d, true, rfl, h.same, (h.moving i hi).1, fun hmore => by contradiction,
      fun hlt => by omega⟩
  | succ n ih =>
    rw [Dict.rehashLoop]
    split_ifs with hused
    · have hentries : d.ht0.table.flatten = [] := by
        rw [← List.length_eq_zero_iff, ← h.ht0.used, hused]
      refine ⟨_, false, rfl, ⟨⟨h.ht1, Dictht.valid_dictReset, fun _ => rfl, fun i hi => ?_, ?_⟩, ?_,
        rfl⟩, (h.moving i hi).2.1, fun _ => rfl, fun _ => rfl⟩
      · contradiction
      · have hkeys := h.keys
        rw [entries, hentries] at hkeys
        simpa [entries, Dictht.dictReset] using hkeys
      · simp [entries, hentries, Dictht.dictReset]
    · obtain ⟨s, j, hbucket, hsame, hj, hlt⟩ := h.rehashBucket hi hused
      obtain ⟨d', more, hloop, hsame', hsize, hdone, henough⟩ := ih hsame.valid hj
      refine ⟨d', more, ?_, hsame.trans hsame', hsize, hdone, fun hn => henough (by omega)⟩
      rw [hbucket, Option.bind_some, hloop]

theorem Valid.dictRehash (h : Valid hashFunction d) (n : ℕ) :
    ∃ d' more, d.dictRehash hashFunction n = some (d', more) ∧ Same hashFunction d d' ∧
      (d.ht0.size ≠ 0 → d'.ht0.size ≠ 0) ∧ (more = false → d'.rehashidx = none) ∧
      (d.ht0.used < n → more = false) := by
  rw [Dict.dictRehash]
  split_ifs with hmoving
  · obtain ⟨i, hi⟩ := Option.isSome_iff_exists.mp hmoving
    obtain ⟨d', more, hloop, hsame, hsize, hdone, henough⟩ := h.rehashLoop hi n
    exact ⟨d', more, hloop, hsame, fun _ => hsize, hdone, henough⟩
  · exact ⟨d, false, rfl, h.same, id, fun _ => by simpa [dictIsRehashing] using hmoving,
      fun _ => rfl⟩

theorem Valid.stepIfRehashing (h : Valid hashFunction d) :
    ∃ d', d.stepIfRehashing hashFunction = some d' ∧ Same hashFunction d d' ∧
      (d.ht0.size ≠ 0 → d'.ht0.size ≠ 0) := by
  rw [Dict.stepIfRehashing]
  split_ifs with hmoving
  · rw [dictRehashStep]
    split_ifs with hiterators
    · obtain ⟨d', more, hrehash, hsame, hsize, -⟩ := h.dictRehash 1
      exact ⟨d', by rw [hrehash]; rfl, hsame, hsize⟩
    · exact ⟨d, rfl, h.same, id⟩
  · exact ⟨d, rfl, h.same, id⟩

variable [DecidableEq K] {key : K}

theorem Valid.valueOf_bucket {ht : Dictht K V} (h : ht.Valid hashFunction)
    (hkeys : (ht.table.flatten.map Prod.fst).Nodup) {bucket : List (K × V)}
    (hbucket : ht.bucket hashFunction key = some bucket) :
    valueOf key bucket = valueOf key ht.table.flatten := by
  obtain ⟨hmem, others, hperm, -⟩ := h.setBucket hbucket
  have hnodup := (hperm.map Prod.fst).nodup_iff.mp hkeys
  rw [List.map_append] at hnodup
  refine Option.ext fun val => ?_
  rw [valueOf_eq_some_iff hkeys, valueOf_eq_some_iff hnodup.of_append_left, hmem _ rfl]

/-- The buckets of a key are all that has to be looked at. -/
theorem Valid.find (h : Valid hashFunction d) (hsize : d.ht0.size ≠ 0) (key : K) :
    ∃ bucket, d.ht0.bucket hashFunction key = some bucket ∧
      valueOf key bucket = valueOf key d.ht0.table.flatten ∧
      (d.dictIsRehashing = true → ∃ bucket', d.ht1.bucket hashFunction key = some bucket' ∧
        valueOf key bucket' = valueOf key d.ht1.table.flatten) ∧
      (d.dictIsRehashing = false → d.ht1.table.flatten = []) ∧
      valueOf key d.entries =
        (valueOf key d.ht0.table.flatten).or (valueOf key d.ht1.table.flatten) := by
  have hkeys := h.keys
  rw [entries, List.map_append] at hkeys
  obtain ⟨bucket, hbucket⟩ := Dictht.exists_bucket hashFunction hsize key
  refine ⟨bucket, hbucket, Valid.valueOf_bucket h.ht0 hkeys.of_append_left hbucket,
    fun hmoving => ?_, fun hidle => ?_, ?_⟩
  · obtain ⟨i, hi⟩ := Option.isSome_iff_exists.mp hmoving
    obtain ⟨bucket', hbucket'⟩ := Dictht.exists_bucket hashFunction (h.moving i hi).2.1 key
    exact ⟨bucket', hbucket', Valid.valueOf_bucket h.ht1 hkeys.of_append_right hbucket'⟩
  · rw [h.idle (by simpa [dictIsRehashing] using hidle)]
    rfl
  · rw [entries, valueOf, List.find?_append, Option.map_or]
    rfl

/-- The dictionary holds a finite map. -/
structure Holds (hashFunction : K → ℕ) (d : Dict K V) (f : K → Option V) : Prop where
  valid : Valid hashFunction d
  valueOf_eq : ∀ key, valueOf key d.entries = f key

variable {f : K → Option V}

theorem holds_dictCreate (hashFunction : K → ℕ) :
    Holds hashFunction (dictCreate : Dict K V) fun _ => none :=
  ⟨valid_dictCreate, fun _ => rfl⟩

theorem Holds.same (h : Holds hashFunction d f) (hsame : Same hashFunction d d') :
    Holds hashFunction d' f :=
  ⟨hsame.valid, fun key => (valueOf_perm hsame.perm hsame.valid.keys key).trans (h.valueOf_eq key)⟩

theorem Holds.dictFind (h : Holds hashFunction d f) (key : K) :
    ∃ d', d.dictFind hashFunction key = some (d', f key) ∧ Holds hashFunction d' f ∧
      (f key ≠ none → d'.ht0.size ≠ 0) := by
  rw [Dict.dictFind]
  split_ifs with hempty
  · have hnone : f key = none := by
      have hidle : d.rehashidx = none := by
        by_contra hmoving
        obtain ⟨i, hi⟩ := Option.ne_none_iff_exists'.mp hmoving
        exact (h.valid.moving i hi).1 hempty
      rw [← h.valueOf_eq, entries, h.valid.idle hidle, List.eq_nil_of_length_eq_zero hempty]
      rfl
    exact ⟨d, by rw [hnone], h, fun hne => absurd hnone hne⟩
  · obtain ⟨s, hstep, hsame, hsize⟩ := h.valid.stepIfRehashing
    have hs := h.same hsame
    obtain ⟨bucket, hbucket, hvalue, hmoving, hidle, hentries⟩ := hs.valid.find (hsize hempty) key
    rw [hs.valueOf_eq, ← hvalue] at hentries
    refine ⟨s, ?_, hs, fun _ => hsize hempty⟩
    simp only [hstep, Option.bind_eq_bind, Option.bind_some, hbucket]
    cases hfound : valueOf key bucket with
    | some val =>
      rw [hentries, hfound]
      rfl
    | none =>
      rw [hentries, hfound, Option.none_or]
      simp only
      split_ifs with hrehashing
      · obtain ⟨bucket', hbucket', hvalue'⟩ := hmoving hrehashing
        rw [hbucket', Option.bind_some, hvalue']
        rfl
      · rw [hidle (by simpa using hrehashing)]
        rfl

theorem Valid.dictKeyIndex (h : Valid hashFunction d) (dictCanResize : Bool) (key : K) :
    ∃ d', d.dictKeyIndex hashFunction dictCanResize key =
        some (d', (valueOf key d.entries).isSome) ∧
      Same hashFunction d d' ∧ d'.ht0.size ≠ 0 := by
  obtain ⟨hok, hsame, hsize⟩ := h.dictExpandIfNeeded dictCanResize
  rw [Dict.dictKeyIndex]
  generalize d.dictExpandIfNeeded dictCanResize = r at hok hsame hsize ⊢
  obtain ⟨s, ok⟩ := r
  obtain rfl : ok = true := hok
  obtain ⟨bucket, hbucket, hvalue, hmoving, hidle, hentries⟩ := hsame.valid.find hsize key
  have hperm := valueOf_perm hsame.perm hsame.valid.keys key
  rw [hentries, ← hvalue] at hperm
  refine ⟨s, ?_, hsame, hsize⟩
  simp only [Bool.not_true, Bool.false_eq_true, if_false, hbucket, Option.bind_eq_bind,
    Option.bind_some]
  rw [← hperm]
  cases hfound : valueOf key bucket with
  | some val => rfl
  | none =>
    rw [Option.none_or]
    simp only [Option.isSome_none, Bool.false_eq_true, if_false]
    split_ifs with hrehashing
    · obtain ⟨bucket', hbucket', hvalue'⟩ := hmoving hrehashing
      rw [hbucket', Option.bind_some, hvalue']
      rfl
    · rw [hidle (by simpa using hrehashing)]
      rfl

/-- An entry more. -/
theorem Holds.insert (h : Holds hashFunction d f) {val : V}
    (hvalid : Valid hashFunction d') (hperm : d'.entries.Perm ((key, val) :: d.entries)) :
    Holds hashFunction d' (Function.update f key (some val)) := by
  refine ⟨hvalid, fun k => ?_⟩
  rw [valueOf_perm hperm hvalid.keys, valueOf_cons, h.valueOf_eq]
  by_cases hk : key = k
  · simp [hk]
  · simp [hk, Ne.symm hk]

/-- The keys of an entry more are distinct. -/
theorem Holds.nodup_cons (h : Holds hashFunction d f) (val : V) (hkey : f key = none) :
    (((key, val) :: d.entries).map Prod.fst).Nodup := by
  rw [← h.valueOf_eq] at hkey
  exact List.nodup_cons.mpr ⟨valueOf_eq_none_iff.mp hkey, h.valid.keys⟩

theorem Holds.dictAdd (h : Holds hashFunction d f) (dictCanResize : Bool) (key : K) (val : V) :
    ∃ d', d.dictAdd hashFunction dictCanResize key val = some (d', (f key).isNone) ∧
      Holds hashFunction d' (if (f key).isNone then Function.update f key (some val) else f) := by
  obtain ⟨s, hstep, hsame, -⟩ := h.valid.stepIfRehashing
  obtain ⟨s', hindex, hsame', hsize⟩ := hsame.valid.dictKeyIndex dictCanResize key
  rw [(h.same hsame).valueOf_eq] at hindex
  have hs := (h.same hsame).same hsame'
  simp only [Dict.dictAdd, hstep, hindex, Option.bind_eq_bind, Option.bind_some]
  cases hfound : f key with
  | some val => exact ⟨s', rfl, hs⟩
  | none =>
    have hkeys := hs.nodup_cons val hfound
    simp only [Option.isSome_none, Bool.false_eq_true, if_false, Option.isNone_none, if_true]
    by_cases hmoving : s'.dictIsRehashing = true
    · obtain ⟨i, hi⟩ := Option.isSome_iff_exists.mp hmoving
      obtain ⟨hsize0, hsize1, hmoved⟩ := hs.valid.moving i hi
      obtain ⟨ht1, hpush, hvalid1, hsame1, hperm1⟩ := hs.valid.ht1.push hsize1 (key, val)
      have hperm : ({ s' with ht1 := ht1 } : Dict K V).entries.Perm ((key, val) :: s'.entries) :=
        (hperm1.append_left _).trans List.perm_middle
      refine ⟨{ s' with ht1 := ht1 }, by rw [if_pos hmoving, hpush]; rfl,
        hs.insert ⟨hs.valid.ht0, hvalid1, fun hnone => ?_, fun j hj => ?_, ?_⟩ hperm⟩
      · exact absurd (hi.symm.trans hnone) (Option.some_ne_none i)
      · obtain rfl := Option.some.inj (hi.symm.trans hj)
        exact ⟨hsize0, hsame1.symm ▸ hsize1, hmoved⟩
      · exact (hperm.map Prod.fst).nodup_iff.mpr hkeys
    · have hidle : s'.rehashidx = none := by simpa [dictIsRehashing] using hmoving
      obtain ⟨ht0, hpush, hvalid0, hsame0, hperm0⟩ := hs.valid.ht0.push hsize (key, val)
      have hperm : ({ s' with ht0 := ht0 } : Dict K V).entries.Perm ((key, val) :: s'.entries) :=
        hperm0.append_right _
      refine ⟨{ s' with ht0 := ht0 }, by rw [if_neg hmoving, hpush]; rfl,
        hs.insert ⟨hvalid0, hs.valid.ht1, hs.valid.idle, fun j hj => ?_, ?_⟩ hperm⟩
      · exact absurd (hidle.symm.trans hj) (Option.some_ne_none j).symm
      · exact (hperm.map Prod.fst).nodup_iff.mpr hkeys

/-- The entry of a key becomes `new` when its bucket is written, and the others stay. -/
def Edits (hashFunction : K → ℕ) (key : K) (bucket others : List (K × V)) (used : ℕ)
    (write : List (K × V) → ℕ → Dict K V) : Prop :=
  ∀ new bucket' used', bucket'.Perm (new ++ erase key bucket) → (∀ e ∈ new, e.1 = key) →
    ((new ++ others).map Prod.fst).Nodup → used' = used - 1 + new.length →
    Valid hashFunction (write bucket' used') ∧ (write bucket' used').entries.Perm (new ++ others)

theorem edit_table {ht : Dictht K V} (h : ht.Valid hashFunction)
    (hkeys : (ht.table.flatten.map Prod.fst).Nodup) {bucket : List (K × V)}
    (hbucket : ht.bucket hashFunction key = some bucket) {val : V}
    (hval : valueOf key bucket = some val) :
    ∃ others, ht.table.flatten.Perm ((key, val) :: others) ∧
      ∀ (new bucket' : List (K × V)) (used : ℕ), bucket'.Perm (new ++ erase key bucket) →
        (∀ e ∈ new, e.1 = key) → used = ht.used - 1 + new.length →
        (ht.setBucket hashFunction key bucket' used).Valid hashFunction ∧
          (ht.setBucket hashFunction key bucket' used).table.flatten.Perm (new ++ others) := by
  obtain ⟨-, others, hperm, hset⟩ := h.setBucket hbucket
  have hnodup := (hperm.map Prod.fst).nodup_iff.mp hkeys
  rw [List.map_append] at hnodup
  have hbucketKeys := hnodup.of_append_left
  have herase := perm_erase hbucketKeys ((valueOf_eq_some_iff hbucketKeys).mp hval)
  refine ⟨erase key bucket ++ others, hperm.trans (herase.append_right others),
    fun new bucket' used hbucket' hnew hused => ?_⟩
  have hmem : ∀ e ∈ bucket', e ∈ bucket ∨ e.1 = key := fun e he => by
    rcases List.mem_append.mp (hbucket'.mem_iff.mp he) with he | he
    · exact .inr (hnew e he)
    · exact .inl (List.mem_of_mem_eraseP he)
  have hlength : used = bucket'.length + others.length := by
    have hused' := h.used.trans hperm.length_eq
    rw [List.length_append, herase.length_eq, List.length_cons] at hused'
    rw [hused, hbucket'.length_eq, List.length_append]
    omega
  obtain ⟨hvalid, hperm'⟩ := hset bucket' used hmem hlength
  refine ⟨hvalid, hperm'.trans ?_⟩
  rw [← List.append_assoc]
  exact hbucket'.append_right others

omit [DecidableEq K] in
/-- The bucket of a key that is there is one that has not been moved. -/
theorem Valid.take_setBucket (h : Valid hashFunction d) {i : ℕ} (hi : d.rehashidx = some i)
    {bucket : List (K × V)} (hbucket : d.ht0.bucket hashFunction key = some bucket)
    (hne : bucket ≠ []) (bucket' : List (K × V)) (used : ℕ) :
    (d.ht0.setBucket hashFunction key bucket' used).table.take i = d.ht0.table.take i := by
  have hle : i ≤ hashFunction key &&& d.ht0.sizemask := by
    by_contra hlt
    refine hne ((h.moving i hi).2.2 bucket ?_)
    rw [List.mem_iff_getElem?]
    exact ⟨_, (List.getElem?_take_of_lt (not_le.mp hlt)).trans hbucket⟩
  rw [Dictht.setBucket, List.take_set_of_le hle]

theorem Valid.edit0 (h : Valid hashFunction d) {bucket : List (K × V)}
    (hbucket : d.ht0.bucket hashFunction key = some bucket) {val : V}
    (hval : valueOf key bucket = some val) :
    ∃ others, d.entries.Perm ((key, val) :: others) ∧
      Edits hashFunction key bucket others d.ht0.used fun bucket used =>
        { d with ht0 := d.ht0.setBucket hashFunction key bucket used } := by
  have hkeys := h.keys
  rw [entries, List.map_append] at hkeys
  obtain ⟨others, hperm, hedit⟩ := edit_table h.ht0 hkeys.of_append_left hbucket hval
  refine ⟨others ++ d.ht1.table.flatten, hperm.append_right _,
    fun new bucket' used hbucket' hnew hnodup hused => ?_⟩
  obtain ⟨hvalid, hperm'⟩ := hedit new bucket' used hbucket' hnew hused
  have hentries := hperm'.append_right d.ht1.table.flatten
  rw [List.append_assoc] at hentries
  refine ⟨⟨hvalid, h.ht1, h.idle, fun i hi => ?_, (hentries.map Prod.fst).nodup_iff.mpr hnodup⟩,
    hentries⟩
  obtain ⟨hsize0, hsize1, hmoved⟩ := h.moving i hi
  have hne : bucket ≠ [] := by
    rintro rfl
    simp [valueOf] at hval
  refine ⟨(Dictht.size_setBucket key bucket' used).symm ▸ hsize0, hsize1, ?_⟩
  rw [h.take_setBucket hi hbucket hne]
  exact hmoved

theorem Valid.edit1 (h : Valid hashFunction d) (hmoving : d.dictIsRehashing = true)
    {bucket : List (K × V)} (hbucket : d.ht1.bucket hashFunction key = some bucket) {val : V}
    (hval : valueOf key bucket = some val) :
    ∃ others, d.entries.Perm ((key, val) :: others) ∧
      Edits hashFunction key bucket others d.ht1.used fun bucket used =>
        { d with ht1 := d.ht1.setBucket hashFunction key bucket used } := by
  have hkeys := h.keys
  rw [entries, List.map_append] at hkeys
  obtain ⟨others, hperm, hedit⟩ := edit_table h.ht1 hkeys.of_append_right hbucket hval
  refine ⟨d.ht0.table.flatten ++ others, (hperm.append_left _).trans List.perm_middle,
    fun new bucket' used hbucket' hnew hnodup hused => ?_⟩
  obtain ⟨hvalid, hperm'⟩ := hedit new bucket' used hbucket' hnew hused
  have hentries := (hperm'.append_left d.ht0.table.flatten).trans
    (List.perm_append_comm_assoc d.ht0.table.flatten new others)
  obtain ⟨i, hi⟩ := Option.isSome_iff_exists.mp hmoving
  refine ⟨⟨h.ht0, hvalid, fun hnone => ?_, fun j hj => ?_,
    (hentries.map Prod.fst).nodup_iff.mpr hnodup⟩, hentries⟩
  · exact absurd (hi.symm.trans hnone) (Option.some_ne_none i)
  · obtain ⟨hsize0, hsize1, hmoved⟩ := h.moving j hj
    exact ⟨hsize0, (Dictht.size_setBucket key bucket' used).symm ▸ hsize1, hmoved⟩

theorem Holds.others (h : Holds hashFunction d f) {val : V} {others : List (K × V)}
    (hperm : d.entries.Perm ((key, val) :: others)) :
    (others.map Prod.fst).Nodup ∧ key ∉ others.map Prod.fst ∧
      ∀ k, valueOf k others = if k = key then none else f k := by
  have hkeys := (hperm.map Prod.fst).nodup_iff.mp h.valid.keys
  obtain ⟨hnot, hnodup⟩ := List.nodup_cons.mp (List.map_cons ▸ hkeys)
  refine ⟨hnodup, hnot, fun k => ?_⟩
  split_ifs with hk
  · rw [hk]
    exact valueOf_eq_none_iff.mpr hnot
  · rw [← h.valueOf_eq, valueOf_perm hperm h.valid.keys, valueOf_cons, if_neg (Ne.symm hk)]

theorem Holds.unlink (h : Holds hashFunction d f) {val : V} {bucket others : List (K × V)}
    {used : ℕ} {write : List (K × V) → ℕ → Dict K V}
    (hperm : d.entries.Perm ((key, val) :: others))
    (hedits : Edits hashFunction key bucket others used write) :
    Holds hashFunction (write (erase key bucket) (used - 1)) (Function.update f key none) := by
  obtain ⟨hnodup, -, hothers⟩ := h.others hperm
  obtain ⟨hvalid, hperm'⟩ := hedits [] (erase key bucket) (used - 1) (.refl _) (by simp) hnodup rfl
  refine ⟨hvalid, fun k => ?_⟩
  rw [valueOf_perm hperm' hvalid.keys, List.nil_append, hothers, Function.update_apply]

theorem used_ne_zero {ht : Dictht K V} (h : ht.Valid hashFunction) {val : V}
    (hval : valueOf key ht.table.flatten = some val) : ht.used ≠ 0 := by
  intro hused
  rw [List.eq_nil_of_length_eq_zero (h.used.symm.trans hused)] at hval
  contradiction

theorem mem_keys_of_valueOf {l : List (K × V)} {val : V} (hval : valueOf key l = some val) :
    key ∈ l.map Prod.fst := by
  by_contra hnot
  rw [valueOf_eq_none_iff.mpr hnot] at hval
  contradiction

theorem Holds.write (h : Holds hashFunction d f) {val val' : V} {bucket others : List (K × V)}
    {used : ℕ} {write : List (K × V) → ℕ → Dict K V} (hused : used ≠ 0)
    (hperm : d.entries.Perm ((key, val) :: others)) (hbucket : key ∈ bucket.map Prod.fst)
    (hedits : Edits hashFunction key bucket others used write) :
    Holds hashFunction (write (assign key val' bucket) used)
      (Function.update f key (some val')) := by
  obtain ⟨hnodup, hnot, hothers⟩ := h.others hperm
  obtain ⟨hvalid, hperm'⟩ := hedits [(key, val')] _ used (perm_assign hbucket) (by simp)
    (List.nodup_cons.mpr ⟨hnot, hnodup⟩) (by simp; omega)
  refine ⟨hvalid, fun k => ?_⟩
  rw [valueOf_perm hperm' hvalid.keys, List.singleton_append, valueOf_cons, hothers,
    Function.update_apply]
  by_cases hk : k = key
  · simp [hk]
  · simp [hk, Ne.symm hk]

theorem Holds.dictDelete (h : Holds hashFunction d f) (key : K) :
    ∃ d', d.dictDelete hashFunction key = some (d', (f key).isSome) ∧
      Holds hashFunction d' (Function.update f key none) := by
  have hupdate (hnone : f key = none) : Function.update f key none = f := by
    rw [← hnone, Function.update_eq_self]
  rw [Dict.dictDelete, dictGenericDelete]
  split_ifs with hempty
  · have hnone : f key = none := by
      obtain ⟨d', hfind, -, hsize⟩ := h.dictFind key
      rw [Dict.dictFind, if_pos hempty] at hfind
      exact (congrArg Prod.snd (Option.some.inj hfind)).symm
    exact ⟨d, by rw [hnone]; rfl, by rwa [hupdate hnone]⟩
  · obtain ⟨s, hstep, hsame, hsize⟩ := h.valid.stepIfRehashing
    have hs := h.same hsame
    obtain ⟨bucket, hbucket, hvalue, hmoving, hidle, hentries⟩ := hs.valid.find (hsize hempty) key
    rw [hs.valueOf_eq, ← hvalue] at hentries
    simp only [hstep, Option.bind_eq_bind, Option.bind_some, hbucket]
    cases hfound : valueOf key bucket with
    | some val =>
      obtain ⟨others, hperm, hedits⟩ := hs.valid.edit0 hbucket hfound
      exact ⟨_, by rw [hentries, hfound]; rfl, hs.unlink hperm hedits⟩
    | none =>
      rw [hfound, Option.none_or] at hentries
      simp only [Option.isSome_none, Bool.false_eq_true, if_false]
      by_cases hrehashing : s.dictIsRehashing = true
      · obtain ⟨bucket', hbucket', hvalue'⟩ := hmoving hrehashing
        rw [← hvalue'] at hentries
        rw [if_pos hrehashing, hbucket', Option.bind_some, hentries]
        cases hfound' : valueOf key bucket' with
        | some val =>
          obtain ⟨others, hperm, hedits⟩ := hs.valid.edit1 hrehashing hbucket' hfound'
          exact ⟨_, rfl, hs.unlink hperm hedits⟩
        | none => exact ⟨s, rfl, by rwa [hupdate (hentries.trans hfound')]⟩
      · have hnone : f key = none := by
          rw [hentries, hidle (by simpa using hrehashing)]
          rfl
        exact ⟨s, by rw [if_neg hrehashing, hnone]; rfl, by rwa [hupdate hnone]⟩

theorem Holds.dictSetHashVal (h : Holds hashFunction d f) (hsize : d.ht0.size ≠ 0)
    (hkey : f key ≠ none) (val : V) :
    ∃ d', d.dictSetHashVal hashFunction key val = some d' ∧
      Holds hashFunction d' (Function.update f key (some val)) := by
  obtain ⟨bucket, hbucket, hvalue, hmoving, hidle, hentries⟩ := h.valid.find hsize key
  rw [h.valueOf_eq, ← hvalue] at hentries
  simp only [Dict.dictSetHashVal, Option.bind_eq_bind, hbucket, Option.bind_some]
  cases hfound : valueOf key bucket with
  | some old =>
    obtain ⟨others, hperm, hedits⟩ := h.valid.edit0 hbucket hfound
    exact ⟨_, rfl, h.write (used_ne_zero h.valid.ht0 (hvalue.symm.trans hfound)) hperm
      (mem_keys_of_valueOf hfound) hedits⟩
  | none =>
    rw [hfound, Option.none_or] at hentries
    by_cases hrehashing : d.dictIsRehashing = true
    · obtain ⟨bucket', hbucket', hvalue'⟩ := hmoving hrehashing
      obtain ⟨old, hold⟩ := Option.ne_none_iff_exists'.mp (hentries ▸ hkey)
      have hfound' := hvalue'.trans hold
      obtain ⟨others, hperm, hedits⟩ := h.valid.edit1 hrehashing hbucket' hfound'
      exact ⟨_, by rw [hbucket']; rfl, h.write (used_ne_zero h.valid.ht1 hold) hperm
        (mem_keys_of_valueOf hfound') hedits⟩
    · rw [hidle (by simpa using hrehashing)] at hentries
      exact absurd hentries hkey

theorem Holds.dictReplace (h : Holds hashFunction d f) (dictCanResize : Bool) (key : K) (val : V) :
    ∃ d', d.dictReplace hashFunction dictCanResize key val = some (d', (f key).isNone) ∧
      Holds hashFunction d' (Function.update f key (some val)) := by
  obtain ⟨s, hadd, hs⟩ := h.dictAdd dictCanResize key val
  simp only [Dict.dictReplace, hadd, Option.bind_eq_bind, Option.bind_some]
  cases hfound : f key with
  | none =>
    rw [hfound] at hs
    exact ⟨s, rfl, hs⟩
  | some old =>
    rw [hfound] at hs
    obtain ⟨s', hfind, hs', hsize⟩ := Holds.dictFind (f := f) hs key
    have hne : f key ≠ none := by simp [hfound]
    obtain ⟨d', hset, hd'⟩ := hs'.dictSetHashVal (hsize hne) hne val
    refine ⟨d', ?_, hd'⟩
    simp only [Option.isNone_some, Bool.false_eq_true, if_false, hfind, Option.bind_some, hset]
    rfl

theorem Holds.dictSize_eq (h : Holds hashFunction d f) :
    d.dictSize = Set.ncard {key | (f key).isSome} := by
  have hset : {key | (f key).isSome} = ((d.entries.map Prod.fst).toFinset : Set K) := by
    ext key
    rw [Set.mem_ofPred_eq, ← h.valueOf_eq, Finset.mem_coe, List.mem_toFinset,
      Option.isSome_iff_ne_none, Ne, valueOf_eq_none_iff, not_not]
  rw [hset, Set.ncard_coe_finset, List.toFinset_card_of_nodup h.valid.keys, List.length_map,
    h.valid.dictSize_eq]

inductive Op (K V : Type) where
  | find (key : K)
  | add (dictCanResize : Bool) (key : K) (val : V)
  | replace (dictCanResize : Bool) (key : K) (val : V)
  | delete (key : K)
  | resize (dictCanResize : Bool)
  | rehash (n : ℕ)

/-- The value that was found, or whether the key was new, or there. Resizing and moving buckets has
no result that a caller reads. -/
inductive Result (V : Type) where
  | value (val : Option V)
  | flag (ok : Bool)
  | unit
  deriving DecidableEq

def step (hashFunction : K → ℕ) (d : Dict K V) : Op K V → Option (Dict K V × Result V)
  | .find key => (d.dictFind hashFunction key).map fun r => (r.1, .value r.2)
  | .add dictCanResize key val =>
    (d.dictAdd hashFunction dictCanResize key val).map fun r => (r.1, .flag r.2)
  | .replace dictCanResize key val =>
    (d.dictReplace hashFunction dictCanResize key val).map fun r => (r.1, .flag r.2)
  | .delete key => (d.dictDelete hashFunction key).map fun r => (r.1, .flag r.2)
  | .resize dictCanResize => some ((d.dictResize dictCanResize).1, .unit)
  | .rehash n => (d.dictRehash hashFunction n).map fun r => (r.1, .unit)

def run (hashFunction : K → ℕ) (d : Dict K V) : List (Op K V) → Option (Dict K V × List (Result V))
  | [] => some (d, [])
  | op :: ops =>
    (d.step hashFunction op).bind fun r =>
      (run hashFunction r.1 ops).map fun rs => (rs.1, r.2 :: rs.2)

/-- What an operation does to a finite map. -/
def mapStep (f : K → Option V) : Op K V → (K → Option V) × Result V
  | .find key => (f, .value (f key))
  | .add _ key val =>
    (if (f key).isNone then Function.update f key (some val) else f, .flag (f key).isNone)
  | .replace _ key val => (Function.update f key (some val), .flag (f key).isNone)
  | .delete key => (Function.update f key none, .flag (f key).isSome)
  | .resize _ => (f, .unit)
  | .rehash _ => (f, .unit)

def mapRun (f : K → Option V) : List (Op K V) → (K → Option V) × List (Result V)
  | [] => (f, [])
  | op :: ops =>
    let r := mapStep f op
    let rs := mapRun r.1 ops
    (rs.1, r.2 :: rs.2)

theorem Holds.step (h : Holds hashFunction d f) (op : Op K V) :
    ∃ d', d.step hashFunction op = some (d', (mapStep f op).2) ∧
      Holds hashFunction d' (mapStep f op).1 := by
  cases op with
  | find key =>
    obtain ⟨d', hfind, h', -⟩ := h.dictFind key
    exact ⟨d', by rw [Dict.step, hfind]; rfl, h'⟩
  | add dictCanResize key val =>
    obtain ⟨d', hadd, h'⟩ := h.dictAdd dictCanResize key val
    exact ⟨d', by rw [Dict.step, hadd]; rfl, h'⟩
  | replace dictCanResize key val =>
    obtain ⟨d', hreplace, h'⟩ := h.dictReplace dictCanResize key val
    exact ⟨d', by rw [Dict.step, hreplace]; rfl, h'⟩
  | delete key =>
    obtain ⟨d', hdelete, h'⟩ := h.dictDelete key
    exact ⟨d', by rw [Dict.step, hdelete]; rfl, h'⟩
  | resize dictCanResize => exact ⟨_, rfl, h.same (h.valid.dictResize dictCanResize)⟩
  | rehash n =>
    obtain ⟨d', more, hrehash, hsame, -⟩ := h.valid.dictRehash n
    exact ⟨d', by rw [Dict.step, hrehash]; rfl, h.same hsame⟩

theorem Holds.run (h : Holds hashFunction d f) (ops : List (Op K V)) :
    ∃ d', d.run hashFunction ops = some (d', (mapRun f ops).2) ∧
      Holds hashFunction d' (mapRun f ops).1 := by
  induction ops generalizing d f with
  | nil => exact ⟨d, rfl, h⟩
  | cons op ops ih =>
    obtain ⟨s, hstep, hs⟩ := h.step op
    obtain ⟨d', hrun, h'⟩ := ih hs
    exact ⟨d', by rw [Dict.run, hstep, Option.bind_some, hrun]; rfl, h'⟩

end Dict
end GridApps.Redis
