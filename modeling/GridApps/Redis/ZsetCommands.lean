import GridApps.Redis.ZskiplistRange

/-! The commands of `t_zset.c` on the value of one key, in both encodings: a list of entries, or a
skip list in memory with a dictionary. -/
namespace GridApps.Redis

variable {A S M : Type}

structure Zset (A S M : Type) where
  dict : Dict M S
  zsl : Zskiplist A S M

inductive Zobj (A S M : Type) where
  | ziplist (zl : List (Entry S M))
  | skiplist (zs : Zset A S M)

/-- What is not decided by the command: the address and the random level of a new node, and whether
dictionaries may be resized. The address that `zmalloc` gives is free. -/
structure Supply (A S M : Type) where
  zmalloc : Zskiplist A S M → A
  draws : Zskiplist A S M → ℕ
  dictCanResize : Bool
  fresh : ∀ (zsl : Zskiplist A S M) l, zsl.Holds l → zsl.nodes (zmalloc zsl) = none

inductive ZReply (S M : Type) where
  | integer (n : ℤ)
  | double (score : S)
  | nullbulk
  | multibulk (replies : List (M × Option S))
  | nanerr
  deriving DecidableEq

inductive ZCommand (S M : Type) where
  | zadd (first : S × M) (more : List (S × M))
  | zincrby (increment : S) (ele : M)
  | zrem (eles : List M)
  | zremrangebyscore (range : Zrangespec S)
  | zremrangebyrank (start stop : ℤ)
  | zrange (reverse : Bool) (start stop : ℤ) (withscores : Bool)
  | zrangebyscore (reverse : Bool) (range : Zrangespec S) (offset limit : ℤ) (withscores : Bool)
  | zcount (range : Zrangespec S)
  | zcard
  | zscore (ele : M)
  | zrank (reverse : Bool) (ele : M)

/-- The scores are part of a reply when they are asked for. -/
def bulk (withscores : Bool) (e : Entry S M) : M × Option S :=
  (e.member, if withscores then some e.score else none)

def Dict.shrinkIfNeeded {K V : Type} (dictCanResize : Bool) (d : Dict K V) : Dict K V :=
  if d.htNeedsResize then (d.dictResize dictCanResize).1 else d

variable [DecidableEq A] [LinearOrder S] [LinearOrder M]

/-- The replies for `rangelen` elements; `none` is a failed assertion. -/
def zzlReplies : ℕ → List (Entry S M) → Option (List (Entry S M))
  | 0, _ => some []
  | _ + 1, [] => none
  | rangelen + 1, e :: zl => (zzlReplies rangelen zl).map (e :: ·)

def zzlIsInRange (range : Zrangespec S) (zl : List (Entry S M)) : Bool :=
  if alwaysEmpty range then false
  else
    match zl.getLast?, zl.head? with
    | some last, some first =>
      if !zslValueGteMin last.score range then false else zslValueLteMax first.score range
    | _, _ => false

/-- The entries from the first one on that `enters` the range, if it is in it. -/
def zzlFrom (enters stays : S → Bool) : List (Entry S M) → List (Entry S M)
  | [] => []
  | e :: zl =>
    if enters e.score then if stays e.score then e :: zl else [] else zzlFrom enters stays zl

/-- The list from the first element in range on. -/
def zzlFirstInRange (range : Zrangespec S) (zl : List (Entry S M)) : List (Entry S M) :=
  if zzlIsInRange range zl then
    zzlFrom (zslValueGteMin · range) (zslValueLteMax · range) zl
  else []

/-- The list from the last element in range on, backwards. -/
def zzlLastInRange (range : Zrangespec S) (zl : List (Entry S M)) : List (Entry S M) :=
  if zzlIsInRange range zl then
    zzlFrom (zslValueLteMax · range) (zslValueGteMin · range) zl.reverse
  else []

def zzlRangeByScore (reverse : Bool) (range : Zrangespec S) (offset limit : ℤ)
    (zl : List (Entry S M)) : List (Entry S M) :=
  replyWhile (fun e => staysInRange reverse range e.score) limit
    (skipOffset offset (if reverse then zzlLastInRange range zl else zzlFirstInRange range zl))

/-- The list is cut at the first element in range; from there on the elements are deleted as long as
they are in range. -/
def zzlDeleteRangeByScore (range : Zrangespec S) (zl : List (Entry S M)) :
    List (Entry S M) × ℕ :=
  let eptr := zzlFirstInRange range zl
  let inside (e : Entry S M) := zslValueLteMax e.score range
  (zl.take (zl.length - eptr.length) ++ eptr.dropWhile inside, (eptr.takeWhile inside).length)

/-- `start` and `stop` count from 1. -/
def zzlDeleteRangeByRank (start stop : ℕ) (zl : List (Entry S M)) : List (Entry S M) × ℕ :=
  let num := stop - start + 1
  (zl.take (start - 1) ++ zl.drop (start - 1 + num), num)

/-- From 1 on; `none` when the element is not in the list. -/
def zzlRank (ele : M) : ℕ → List (Entry S M) → Option ℕ
  | _, [] => none
  | rank, e :: zl => if e.member = ele then some rank else zzlRank ele (rank + 1) zl

section Adding

variable (hashFunction : M → ℕ)

def Supply.zslInsert (supply : Supply A S M) (score : S) (obj : M) (zsl : Zskiplist A S M) :
    Option (Zskiplist A S M) :=
  Zskiplist.zslInsert (Zskiplist.zslRandomLevel (supply.draws zsl)) (supply.zmalloc zsl) score obj
    zsl

def Zset.create : Zset A S M := ⟨.dictCreate, .zslCreate⟩

/-- A new element of a set in the skip list encoding; it fails an assertion when the dictionary has
it already. -/
def Zset.add (supply : Supply A S M) (score : S) (ele : M) (zs : Zset A S M) :
    Option (Zset A S M) := do
  let zsl ← supply.zslInsert score ele zs.zsl
  let (dict, ok) ← zs.dict.dictAdd hashFunction supply.dictCanResize ele score
  if ok then return ⟨dict, zsl⟩ else none

def Zset.convert (supply : Supply A S M) (zl : List (Entry S M)) : Option (Zset A S M) :=
  if zl.isEmpty then none
  else zl.foldlM (fun zs e => zs.add hashFunction supply e.score e.member) Zset.create

/-- `score += curscore` for `ZINCRBY`; `plus` gives `none` for NaN. -/
def newScore (plus : S → S → Option S) (incr : Bool) (score curscore : S) : Option S :=
  if incr then plus score curscore else some score

/-- One element of `ZADD` or `ZINCRBY`. With the value comes the score and whether it is new, or
nothing when the score would be NaN. -/
def Zobj.zaddElement (limits : Limits M) (plus : S → S → Option S) (incr : Bool)
    (supply : Supply A S M) (score : S) (ele : M) :
    Zobj A S M → Option (Zobj A S M × Option (S × Bool))
  | .ziplist zl =>
    match zzlFind ele zl with
    | some curscore =>
      match newScore plus incr score curscore with
      | none => some (.ziplist zl, none)
      | some score =>
        if score ≠ curscore then
          some (.ziplist (zzlInsert ele score (zzlDelete ele zl)), some (score, false))
        else some (.ziplist zl, some (score, false))
    | none =>
      let zl := zzlInsert ele score zl
      if limits.entries < zl.length ∨ limits.value < limits.length ele then
        (Zset.convert hashFunction supply zl).map fun zs => (.skiplist zs, some (score, true))
      else some (.ziplist zl, some (score, true))
  | .skiplist zs => do
    let (dict, found) ← zs.dict.dictFind hashFunction ele
    match found with
    | some curscore =>
      match newScore plus incr score curscore with
      | none => return (.skiplist ⟨dict, zs.zsl⟩, none)
      | some score =>
        if score ≠ curscore then
          let (zsl, deleted) ← zs.zsl.zslDelete curscore ele
          if deleted then
            let zsl ← supply.zslInsert score ele zsl
            let dict ← dict.dictSetHashVal hashFunction ele score
            return (.skiplist ⟨dict, zsl⟩, some (score, false))
          else none
        else return (.skiplist ⟨dict, zs.zsl⟩, some (score, false))
    | none =>
      let zs ← Zset.add hashFunction supply score ele ⟨dict, zs.zsl⟩
      return (.skiplist zs, some (score, true))

/-- `score` and `added` are those after the elements that came before. -/
def Zobj.zaddLoop (limits : Limits M) (plus : S → S → Option S) (incr : Bool) :
    List (Supply A S M × S × M) → S → ℕ → Zobj A S M → Option (Zobj A S M × ZReply S M)
  | [], score, added, zobj => some (zobj, if incr then .double score else .integer added)
  | (supply, score, ele) :: elements, _, added, zobj => do
    let (zobj, result) ← zobj.zaddElement hashFunction limits plus incr supply score ele
    match result with
    | none => return (zobj, .nanerr)
    | some (score, new) =>
      zaddLoop limits plus incr elements score (if !incr && new then added + 1 else added) zobj

def zaddGenericCommand (limits : Limits M) (plus : S → S → Option S) (incr : Bool)
    (supply : ℕ → Supply A S M) (first : S × M) (more : List (S × M))
    (zobj : Option (Zobj A S M)) : Option (Zobj A S M × ZReply S M) :=
  let zobj := zobj.getD
    (if limits.entries = 0 ∨ limits.value < limits.length first.2 then .skiplist Zset.create
      else .ziplist [])
  Zobj.zaddLoop hashFunction limits plus incr
    ((first :: more).mapIdx fun j element => (supply j, element)) first.1 0 zobj

/-- The key is deleted with the last element. -/
def zremLoop (dictCanResize : Bool) :
    List M → ℕ → Zobj A S M → Option (Option (Zobj A S M) × ℕ)
  | [], deleted, zobj => some (some zobj, deleted)
  | ele :: eles, deleted, .ziplist zl =>
    match zzlFind ele zl with
    | some _ =>
      let zl := zzlDelete ele zl
      if zl.length = 0 then some (none, deleted + 1)
      else zremLoop dictCanResize eles (deleted + 1) (.ziplist zl)
    | none => zremLoop dictCanResize eles deleted (.ziplist zl)
  | ele :: eles, deleted, .skiplist zs => do
    let (dict, found) ← zs.dict.dictFind hashFunction ele
    match found with
    | some score =>
      let (zsl, ok) ← zs.zsl.zslDelete score ele
      if ok then
        let (dict, _) ← dict.dictDelete hashFunction ele
        let dict := dict.shrinkIfNeeded dictCanResize
        if dict.dictSize = 0 then return (none, deleted + 1)
        else zremLoop dictCanResize eles (deleted + 1) (.skiplist ⟨dict, zsl⟩)
      else none
    | none => zremLoop dictCanResize eles deleted (.skiplist ⟨dict, zs.zsl⟩)

/-- The value after a deletion, unless it is empty. -/
def Zobj.keepList (zl : List (Entry S M)) : Option (Zobj A S M) :=
  if zl.length = 0 then none else some (.ziplist zl)

def Zobj.keepZset (dictCanResize : Bool) (dict : Dict M S) (zsl : Zskiplist A S M) :
    Option (Zobj A S M) :=
  let dict := dict.shrinkIfNeeded dictCanResize
  if dict.dictSize = 0 then none else some (.skiplist ⟨dict, zsl⟩)

def Zobj.zremrangebyscore (dictCanResize : Bool) (range : Zrangespec S) :
    Zobj A S M → Option (Option (Zobj A S M) × ℕ)
  | .ziplist zl =>
    let (zl, deleted) := zzlDeleteRangeByScore range zl
    some (Zobj.keepList zl, deleted)
  | .skiplist zs => do
    let (zsl, dict, deleted) ← zs.zsl.zslDeleteRangeByScore hashFunction range zs.dict
    return (Zobj.keepZset dictCanResize dict zsl, deleted)

def Zobj.zsetLength : Zobj A S M → ℕ
  | .ziplist zl => zl.length
  | .skiplist zs => zs.zsl.length

def Zobj.zremrangebyrank (dictCanResize : Bool) (start stop : ℤ) (zobj : Zobj A S M) :
    Option (Option (Zobj A S M) × ℕ) :=
  match sanitize zobj.zsetLength start stop with
  | none => some (some zobj, 0)
  | some (first, n) =>
    match zobj with
    | .ziplist zl =>
      let (zl, deleted) := zzlDeleteRangeByRank (first + 1) (first + n) zl
      some (Zobj.keepList zl, deleted)
    | .skiplist zs => do
      let (zsl, dict, deleted) ←
        zs.zsl.zslDeleteRangeByRank hashFunction (first + 1) (first + n) zs.dict
      return (Zobj.keepZset dictCanResize dict zsl, deleted)

def Zobj.zrange (reverse : Bool) (start stop : ℤ) (zobj : Zobj A S M) :
    Option (List (Entry S M)) :=
  match sanitize zobj.zsetLength start stop with
  | none => some []
  | some (first, n) =>
    match zobj with
    | .ziplist zl => zzlReplies n ((if reverse then zl.reverse else zl).drop first)
    | .skiplist zs => zs.zsl.zslRange reverse first n

def Zobj.zrangebyscore (reverse : Bool) (range : Zrangespec S) (offset limit : ℤ) :
    Zobj A S M → Option (List (Entry S M))
  | .ziplist zl => some (zzlRangeByScore reverse range offset limit zl)
  | .skiplist zs => zs.zsl.zslRangeByScore reverse range offset limit

def Zobj.zscore (ele : M) : Zobj A S M → Option (Zobj A S M × Option S)
  | .ziplist zl => some (.ziplist zl, zzlFind ele zl)
  | .skiplist zs => do
    let (dict, score) ← zs.dict.dictFind hashFunction ele
    return (.skiplist ⟨dict, zs.zsl⟩, score)

/-- The rank from 1 on; one of 0 fails an assertion. -/
def Zobj.zrank (ele : M) : Zobj A S M → Option (Zobj A S M × Option ℕ)
  | .ziplist zl => if zl.isEmpty then none else some (.ziplist zl, zzlRank ele 1 zl)
  | .skiplist zs => do
    let (dict, found) ← zs.dict.dictFind hashFunction ele
    match found with
    | some score =>
      let rank ← zs.zsl.zslGetRank score ele
      if rank = 0 then none else return (.skiplist ⟨dict, zs.zsl⟩, some rank)
    | none => return (.skiplist ⟨dict, zs.zsl⟩, none)

/-- A command on the value of a key, which need not exist. `none` is a failed assertion or a bad
access. -/
def ZCommand.exec (limits : Limits M) (plus : S → S → Option S) (supply : ℕ → Supply A S M)
    (zobj : Option (Zobj A S M)) : ZCommand S M → Option (Option (Zobj A S M) × ZReply S M)
  | .zadd first more =>
    (zaddGenericCommand hashFunction limits plus false supply first more zobj).map fun r =>
      (some r.1, r.2)
  | .zincrby increment ele =>
    (zaddGenericCommand hashFunction limits plus true supply (increment, ele) [] zobj).map fun r =>
      (some r.1, r.2)
  | .zrem eles =>
    match zobj with
    | none => some (none, .integer 0)
    | some z =>
      (zremLoop hashFunction (supply 0).dictCanResize eles 0 z).map fun r => (r.1, .integer r.2)
  | .zremrangebyscore range =>
    match zobj with
    | none => some (none, .integer 0)
    | some z =>
      (z.zremrangebyscore hashFunction (supply 0).dictCanResize range).map fun r =>
        (r.1, .integer r.2)
  | .zremrangebyrank start stop =>
    match zobj with
    | none => some (none, .integer 0)
    | some z =>
      (z.zremrangebyrank hashFunction (supply 0).dictCanResize start stop).map fun r =>
        (r.1, .integer r.2)
  | .zrange reverse start stop withscores =>
    match zobj with
    | none => some (none, .multibulk [])
    | some z =>
      (z.zrange reverse start stop).map fun l => (some z, .multibulk (l.map (bulk withscores)))
  | .zrangebyscore reverse range offset limit withscores =>
    match zobj with
    | none => some (none, .multibulk [])
    | some z =>
      (z.zrangebyscore reverse range offset limit).map fun l =>
        (some z, .multibulk (l.map (bulk withscores)))
  | .zcount range =>
    match zobj with
    | none => some (none, .integer 0)
    | some z => (z.zrangebyscore false range 0 (-1)).map fun l => (some z, .integer l.length)
  | .zcard =>
    match zobj with
    | none => some (none, .integer 0)
    | some z => some (some z, .integer z.zsetLength)
  | .zscore ele =>
    match zobj with
    | none => some (none, .nullbulk)
    | some z =>
      (z.zscore hashFunction ele).map fun r =>
        (some r.1, match r.2 with
          | some score => .double score
          | none => .nullbulk)
  | .zrank reverse ele =>
    match zobj with
    | none => some (none, .nullbulk)
    | some z =>
      (z.zrank hashFunction ele).map fun r =>
        (some r.1, match r.2 with
          | some rank => .integer (if reverse then (z.zsetLength : ℤ) - rank else (rank : ℤ) - 1)
          | none => .nullbulk)

end Adding

end GridApps.Redis
