import GridApps.Redis.FormatCommand

/-! The reader of `hiredis` for the replies of a server. Arrays that are not complete are kept on a
stack, so that a reply can come in any pieces. -/
namespace GridApps.Redis
open Numeral Struct Transition

inductive Reply where
  | string (str : Bytes)
  | array (elements : List Reply)
  | integer (v : ℤ)
  | nil
  | status (str : Bytes)
  | error (str : Bytes)

/-- What an item was announced as. -/
inductive ItemType where
  | error
  | status
  | integer
  | string
  | array
  deriving DecidableEq

def ItemType.ofByte (b : UInt8) : Option ItemType :=
  if b = 45 then some .error
  else if b = 43 then some .status
  else if b = 58 then some .integer
  else if b = 36 then some .string
  else if b = 42 then some .array
  else none

inductive ReaderError where
  | typeByte (byte : UInt8)
  | nested
  deriving DecidableEq

/-- An array with room for more elements. -/
structure ReadTask where
  elements : ℕ
  done : List Reply
  room : done.length < elements

/-- `rstack` are the arrays around the item that is read, the innermost first, `type` is the type of
that item, and `replies` are the replies that were returned. -/
structure Reader where
  err : Option ReaderError
  rstack : List ReadTask
  type : Option ItemType
  replies : List Reply

def redisReaderCreate : Reader := ⟨none, [], none, []⟩

/-- The index of the end of a line. -/
def seekNewline : Bytes → Option ℕ
  | [] => none
  | [_] => none
  | b :: b' :: s => if b = 13 ∧ b' = 10 then some 0 else (seekNewline (b' :: s)).map (· + 1)

namespace Reader

/-- The reader that has the reply to the item. -/
def moveToNextTask (r : Reader) : List ReadTask → Reply → Reader
  | [], obj => { r with rstack := [], type := none, replies := r.replies ++ [obj] }
  | task :: rstack, obj =>
    if h : task.done.length + 1 = task.elements then
      moveToNextTask r rstack (.array (task.done ++ [obj]))
    else
      { r with
        rstack := ⟨task.elements, task.done ++ [obj], by
          have := task.room
          simp only [List.length_append, List.length_singleton]
          omega⟩ :: rstack
        type := none }

def finish (r : Reader) (obj : Reply) : Reader := r.moveToNextTask r.rstack obj

/-- The input is dropped. -/
def setError (r : Reader) (e : ReaderError) : Turn Reader UInt8 :=
  .wait { r with err := some e, rstack := [], type := none } []

def processLineItem (r : Reader) (type : ItemType) (buf : Bytes) : Turn Reader UInt8 :=
  match seekNewline buf with
  | none => .wait r buf
  | some len =>
    let obj := match type with
      | .integer => Reply.integer (readLongLong buf)
      | .status => .status (buf.take len)
      | _ => .error (buf.take len)
    .next (r.finish obj) (buf.drop (len + 2))

/-- A length that is negative is that of no string. -/
def processBulkItem (r : Reader) (buf : Bytes) : Turn Reader UInt8 :=
  match seekNewline buf with
  | none => .wait r buf
  | some newline =>
    let len := readLongLong buf
    if len < 0 then .next (r.finish .nil) (buf.drop (newline + 2))
    else if newline + 2 + (len.toNat + 2) ≤ buf.length then
      .next (r.finish (.string ((buf.drop (newline + 2)).take len.toNat)))
        (buf.drop (newline + 2 + (len.toNat + 2)))
    else .wait r buf

def processMultiBulkItem (r : Reader) (buf : Bytes) : Turn Reader UInt8 :=
  if r.rstack.length = 8 then r.setError .nested
  else
    match seekNewline buf with
    | none => .wait r buf
    | some newline =>
      let elements := readLongLong buf
      let rest := buf.drop (newline + 2)
      if elements = -1 then .next (r.finish .nil) rest
      else if h : 0 < elements.toNat then
        .next { r with rstack := ⟨elements.toNat, [], h⟩ :: r.rstack, type := none } rest
      else .next (r.finish (.array [])) rest

def processTyped (r : Reader) (buf : Bytes) : ItemType → Turn Reader UInt8
  | .string => r.processBulkItem buf
  | .array => r.processMultiBulkItem buf
  | type => r.processLineItem type buf

/-- The type is kept when the rest of the item is not there. A reader with an error takes no
input. -/
def processItem (r : Reader) (buf : Bytes) : Turn Reader UInt8 :=
  if r.err.isSome then .wait r []
  else
    match r.type with
    | some type => r.processTyped buf type
    | none =>
      match buf with
      | [] => .wait r []
      | b :: rest =>
        match ItemType.ofByte b with
        | none => r.setError (.typeByte b)
        | some type => { r with type := some type }.processTyped rest type

end Reader

theorem seekNewline_lt {s : Bytes} {i : ℕ} (h : seekNewline s = some i) : i + 2 ≤ s.length := by
  induction s generalizing i with
  | nil => simp [seekNewline] at h
  | cons b s ih =>
    cases s with
    | nil => simp [seekNewline] at h
    | cons b' s =>
      unfold seekNewline at h
      split_ifs at h
      · obtain rfl := Option.some.inj h
        simp
      · obtain ⟨j, hj, rfl⟩ := Option.map_eq_some_iff.mp h
        have hlt := ih hj
        simp only [List.length_cons] at hlt ⊢
        omega

theorem seekNewline_append {s : Bytes} {i : ℕ} (h : seekNewline s = some i) (t : Bytes) :
    seekNewline (s ++ t) = some i := by
  induction s generalizing i with
  | nil => simp [seekNewline] at h
  | cons b s ih =>
    cases s with
    | nil => simp [seekNewline] at h
    | cons b' s =>
      unfold seekNewline at h
      rw [List.cons_append, List.cons_append, seekNewline]
      split_ifs at h ⊢
      · exact h
      · obtain ⟨j, hj, rfl⟩ := Option.map_eq_some_iff.mp h
        rw [← List.cons_append, ih hj]
        rfl

theorem readLongLongLoop_append (mult v : ℤ) {s : Bytes} (h : 13 ∈ s) (t : Bytes) :
    readLongLongLoop mult v (s ++ t) = readLongLongLoop mult v s := by
  induction s generalizing v with
  | nil => simp at h
  | cons c s ih =>
    rw [List.cons_append, readLongLongLoop, readLongLongLoop]
    by_cases hc : c = 13
    · rw [if_pos hc, if_pos hc]
    · rw [if_neg hc, if_neg hc]
      have hs : 13 ∈ s := by
        rcases List.mem_cons.mp h with rfl | hs
        · exact absurd rfl hc
        · exact hs
      cases byteDigit? c with
      | none => rfl
      | some d => exact ih _ hs

theorem mem_of_seekNewline {s : Bytes} {i : ℕ} (h : seekNewline s = some i) : 13 ∈ s := by
  induction s generalizing i with
  | nil => simp [seekNewline] at h
  | cons b s ih =>
    cases s with
    | nil => simp [seekNewline] at h
    | cons b' s =>
      unfold seekNewline at h
      split_ifs at h with hcrlf
      · rw [hcrlf.1]
        exact List.mem_cons_self
      · obtain ⟨j, hj, rfl⟩ := Option.map_eq_some_iff.mp h
        exact List.mem_cons_of_mem _ (ih hj)

/-- A number is all there when its line is. -/
theorem readLongLong_append {s : Bytes} {i : ℕ} (h : seekNewline s = some i) (t : Bytes) :
    readLongLong (s ++ t) = readLongLong s := by
  have hmem := mem_of_seekNewline h
  cases s with
  | nil => simp at hmem
  | cons c s =>
    have htail (hc : c ≠ 13) : 13 ∈ s := by
      rcases List.mem_cons.mp hmem with rfl | hs
      · exact absurd rfl hc
      · exact hs
    rw [List.cons_append, readLongLong, readLongLong]
    by_cases hminus : c = 45
    · rw [if_pos hminus, if_pos hminus, readLongLongLoop_append _ _ (htail (by simp [hminus]))]
    · rw [if_neg hminus, if_neg hminus]
      by_cases hplus : c = 43
      · rw [if_pos hplus, if_pos hplus, readLongLongLoop_append _ _ (htail (by simp [hplus]))]
      · rw [if_neg hplus, if_neg hplus, ← List.cons_append, readLongLongLoop_append _ _ hmem]

namespace Reader

/-- What an item comes to: more input changes nothing when it is complete, and it is what an item
that waits goes on with. -/
structure Item (f : Bytes → Turn Reader UInt8) (r : Reader) (buf : Bytes) : Prop where
  next : ∀ {r' rest}, f buf = .next r' rest →
    rest.length < buf.length ∧ ∀ more, f (buf ++ more) = .next r' (rest ++ more)
  wait : ∀ {r' rest}, f buf = .wait r' rest →
    r' = r ∧ rest = buf ∨
      r'.err.isSome ∧ rest = [] ∧ ∀ more, f (buf ++ more) = .wait r' []

theorem processLineItem_item (r : Reader) (type : ItemType) (buf : Bytes) :
    Item (r.processLineItem type) r buf := by
  unfold processLineItem
  constructor
  · intro r' rest h
    cases hline : seekNewline buf with
    | none => simp [hline] at h
    | some len =>
      have hlt := seekNewline_lt hline
      simp only [hline, Turn.next.injEq] at h
      obtain ⟨rfl, rfl⟩ := h
      refine ⟨by rw [List.length_drop]; omega, fun more => ?_⟩
      simp only [seekNewline_append hline, readLongLong_append hline,
        List.take_append_of_le_length (by omega : len ≤ buf.length),
        List.drop_append_of_le_length hlt]
  · intro r' rest h
    cases hline : seekNewline buf with
    | none =>
      simp only [hline, Turn.wait.injEq] at h
      exact .inl ⟨h.1.symm, h.2.symm⟩
    | some len => simp [hline] at h

theorem processBulkItem_item (r : Reader) (buf : Bytes) : Item r.processBulkItem r buf := by
  unfold processBulkItem
  constructor
  · intro r' rest h
    cases hline : seekNewline buf with
    | none => simp [hline] at h
    | some newline =>
      have hlt := seekNewline_lt hline
      simp only [hline] at h
      split_ifs at h with hneg hlong
      · obtain ⟨rfl, rfl⟩ := Turn.next.inj h
        refine ⟨by rw [List.length_drop]; omega, fun more => ?_⟩
        simp only [seekNewline_append hline, readLongLong_append hline, if_pos hneg,
          List.drop_append_of_le_length hlt]
      · obtain ⟨rfl, rfl⟩ := Turn.next.inj h
        refine ⟨by rw [List.length_drop]; omega, fun more => ?_⟩
        have hlong' : newline + 2 + ((readLongLong buf).toNat + 2) ≤ (buf ++ more).length := by
          rw [List.length_append]
          omega
        have htake : (readLongLong buf).toNat ≤ (buf.drop (newline + 2)).length := by
          rw [List.length_drop]
          omega
        simp only [seekNewline_append hline, readLongLong_append hline, if_neg hneg, if_pos hlong',
          List.drop_append_of_le_length hlt, List.take_append_of_le_length htake,
          List.drop_append_of_le_length hlong]
  · intro r' rest h
    cases hline : seekNewline buf with
    | none =>
      simp only [hline, Turn.wait.injEq] at h
      exact .inl ⟨h.1.symm, h.2.symm⟩
    | some newline =>
      simp only [hline] at h
      split_ifs at h
      obtain ⟨rfl, rfl⟩ := Turn.wait.inj h
      exact .inl ⟨rfl, rfl⟩

theorem processMultiBulkItem_item (r : Reader) (buf : Bytes) :
    Item r.processMultiBulkItem r buf := by
  unfold processMultiBulkItem
  by_cases hdepth : r.rstack.length = 8
  · simp only [if_pos hdepth]
    constructor
    · intro r' rest h
      cases h
    · intro r' rest h
      obtain ⟨rfl, rfl⟩ := Turn.wait.inj h
      exact .inr ⟨rfl, rfl, fun more => rfl⟩
  · simp only [if_neg hdepth]
    constructor
    · intro r' rest h
      cases hline : seekNewline buf with
      | none => simp [hline] at h
      | some newline =>
        have hlt := seekNewline_lt hline
        have hshort : (buf.drop (newline + 2)).length < buf.length := by
          rw [List.length_drop]
          omega
        simp only [hline] at h
        simp only [seekNewline_append hline, readLongLong_append hline,
          List.drop_append_of_le_length hlt]
        split_ifs at h ⊢
        · obtain ⟨rfl, rfl⟩ := Turn.next.inj h
          exact ⟨hshort, fun more => rfl⟩
        · obtain ⟨rfl, rfl⟩ := Turn.next.inj h
          exact ⟨hshort, fun more => rfl⟩
        · obtain ⟨rfl, rfl⟩ := Turn.next.inj h
          exact ⟨hshort, fun more => rfl⟩
    · intro r' rest h
      cases hline : seekNewline buf with
      | none =>
        simp only [hline, Turn.wait.injEq] at h
        exact .inl ⟨h.1.symm, h.2.symm⟩
      | some newline =>
        simp only [hline] at h
        split_ifs at h

theorem processTyped_item (r : Reader) (buf : Bytes) (type : ItemType) :
    Item (fun buf => r.processTyped buf type) r buf := by
  cases type with
  | error => exact processLineItem_item r .error buf
  | status => exact processLineItem_item r .status buf
  | integer => exact processLineItem_item r .integer buf
  | string => exact processBulkItem_item r buf
  | array => exact processMultiBulkItem_item r buf

theorem processItem_of_err {r : Reader} (h : r.err.isSome) (buf : Bytes) :
    r.processItem buf = .wait r [] := by
  unfold processItem
  rw [if_pos h]

theorem processItem_of_type {r : Reader} (herr : r.err = none) {type : ItemType}
    (htype : r.type = some type) (buf : Bytes) : r.processItem buf = r.processTyped buf type := by
  unfold processItem
  simp [herr, htype]

theorem processItem_cons {r : Reader} (herr : r.err = none) (htype : r.type = none) (b : UInt8)
    (rest : Bytes) :
    r.processItem (b :: rest) =
      match ItemType.ofByte b with
      | none => r.setError (.typeByte b)
      | some type => { r with type := some type }.processTyped rest type := by
  unfold processItem
  simp [herr, htype]

/-- A turn of `redisReaderGetReply`, for as long as there are replies. -/
def turn (r : Reader) (buf : Bytes) : Option (Turn Reader UInt8) := some (r.processItem buf)

/-- An item resumes where the reader comes to it from `buf₀`, whether it starts with the type byte
or behind it, and where it comes back to it after it waited. -/
theorem Item.resumes {f : Bytes → Turn Reader UInt8} {r r₀ : Reader} {buf buf₀ : Bytes}
    (h : Item f r buf) (hlen : buf.length ≤ buf₀.length)
    (hfirst : ∀ more, r₀.processItem (buf₀ ++ more) = f (buf ++ more))
    (hagain : ∀ more, r.processItem (buf ++ more) = f (buf ++ more)) :
    Resumes turn ⊤ r₀ buf₀ (some (f buf)) := by
  cases hitem : f buf with
  | next r' rest =>
    obtain ⟨hlt, hmore⟩ := h.next hitem
    exact ⟨hlt.trans_le hlen, fun more _ => congrArg some ((hfirst more).trans (hmore more))⟩
  | wait r' rest =>
    rcases h.wait hitem with ⟨rfl, rfl⟩ | ⟨herr, rfl, hmore⟩
    · exact ⟨hlen, fun more _ => congrArg some ((hfirst more).trans (hagain more).symm)⟩
    · refine ⟨Nat.zero_le _, fun more _ => congrArg some ?_⟩
      rw [hfirst, hmore, processItem_of_err herr]

theorem resumes (r : Reader) (buf : Bytes) : Resumes turn ⊤ r buf (turn r buf) := by
  unfold turn
  by_cases herr : r.err.isSome
  · rw [processItem_of_err herr]
    refine ⟨Nat.zero_le _, fun more _ => congrArg some ?_⟩
    rw [processItem_of_err herr, processItem_of_err herr]
  · have hnone : r.err = none := by
      rwa [Option.not_isSome_iff_eq_none] at herr
    cases htype : r.type with
    | some type =>
      have htyped := processItem_of_type hnone htype
      rw [htyped]
      exact (processTyped_item r buf type).resumes le_rfl (fun _ => htyped _) fun _ => htyped _
    | none =>
      cases buf with
      | nil =>
        have hwait : r.processItem [] = .wait r [] := by
          unfold processItem
          simp [hnone, htype]
        rw [hwait]
        exact ⟨le_rfl, fun more _ => rfl⟩
      | cons b tail =>
        have hcons := processItem_cons hnone htype b
        cases hbyte : ItemType.ofByte b with
        | none =>
          simp only [hbyte] at hcons
          rw [hcons]
          refine ⟨Nat.zero_le _, fun more _ => congrArg some ?_⟩
          rw [List.cons_append, hcons, processItem_of_err rfl]
          rfl
        | some type =>
          simp only [hbyte] at hcons
          rw [hcons]
          have htyped (more : Bytes) : { r with type := some type }.processItem (tail ++ more) =
              { r with type := some type }.processTyped (tail ++ more) type :=
            processItem_of_type (r := { r with type := some type }) hnone rfl _
          exact (processTyped_item { r with type := some type } tail type).resumes
            (Nat.le_succ _) (fun more => hcons (tail ++ more)) htyped

theorem resumable : Resumable turn ⊤ := .of_turns resumes

end Reader

/-- The replies of `networking.c`. There are two for nothing. -/
inductive Answer where
  | status (str : Bytes)
  | error (str : Bytes)
  | longLong (v : ℤ)
  | bulk (str : Bytes)
  | nullBulk
  | nullMultiBulk
  | multiBulk (elements : List Answer)

/-- `<prefix><long long><crlf>`. -/
def addReplyPrefixed (b : UInt8) (v : ℤ) : Bytes := b :: ll2string 127 v ++ crlf

def addReplyLongLong (v : ℤ) : Bytes :=
  if v = 0 then ascii [':', '0', '\r', '\n']
  else if v = 1 then ascii [':', '1', '\r', '\n']
  else addReplyPrefixed 58 v

namespace Answer

mutual

def bytes : Answer → Bytes
  | status str => ascii ['+'] ++ str ++ crlf
  | error str => ascii ['-'] ++ str ++ crlf
  | longLong v => addReplyLongLong v
  | bulk str => addReplyPrefixed 36 str.length ++ str ++ crlf
  | nullBulk => ascii ['$', '-', '1', '\r', '\n']
  | nullMultiBulk => ascii ['*', '-', '1', '\r', '\n']
  | multiBulk elements => addReplyPrefixed 42 elements.length ++ bytesAll elements

def bytesAll : List Answer → Bytes
  | [] => []
  | a :: as => bytes a ++ bytesAll as

end

mutual

/-- What the client is to read. -/
def reply : Answer → Reply
  | status str => .status str
  | error str => .error str
  | longLong v => .integer v
  | bulk str => .string str
  | nullBulk => .nil
  | nullMultiBulk => .nil
  | multiBulk elements => .array (replyAll elements)

def replyAll : List Answer → List Reply
  | [] => []
  | a :: as => reply a :: replyAll as

end

mutual

/-- An answer that can be read inside `depth` arrays: a line has no end of a line in it, numbers fit
into 64 bits and lengths into an `int`, and arrays are not nested more deeply than the reader
can. -/
def Readable (depth : ℕ) : Answer → Prop
  | status str => seekNewline str = none
  | error str => seekNewline str = none
  | longLong v => IsLongLong v
  | bulk str => str.length < 2 ^ 31
  | nullBulk => True
  | nullMultiBulk => depth < 8
  | multiBulk elements => depth < 8 ∧ elements.length < 2 ^ 31 ∧ ReadableAll (depth + 1) elements

def ReadableAll (depth : ℕ) : List Answer → Prop
  | [] => True
  | a :: as => Readable depth a ∧ ReadableAll depth as

end

end Answer

/-- A line, as the reader finds it. -/
theorem seekNewline_line {p : Bytes} (hp : seekNewline p = none) (more : Bytes) :
    seekNewline (p ++ crlf ++ more) = some p.length ∧ (p ++ crlf ++ more).take p.length = p ∧
      (p ++ crlf ++ more).drop (p.length + 2) = more := by
  refine ⟨?_, ?_, ?_⟩
  · induction p with
    | nil => rfl
    | cons b p ih =>
      cases p with
      | nil => simp [seekNewline, crlf, ascii]
      | cons b' p =>
        unfold seekNewline at hp
        split_ifs at hp with hcrlf
        rw [Option.map_eq_none_iff] at hp
        have hrest := ih hp
        rw [List.cons_append, List.cons_append] at hrest
        rw [List.cons_append, List.cons_append, List.cons_append, List.cons_append, seekNewline,
          if_neg hcrlf, hrest]
        rfl
  · rw [List.append_assoc, List.take_left]
  · rw [List.append_assoc, ← List.drop_drop, List.drop_left]
    rfl

theorem seekNewline_none {p : Bytes} (hp : ∀ b ∈ p, b ≠ 13) : seekNewline p = none := by
  induction p with
  | nil => rfl
  | cons b p ih =>
    cases p with
    | nil => rfl
    | cons b' p =>
      have hb := hp b List.mem_cons_self
      rw [seekNewline, if_neg (fun h => hb h.1), ih fun b hb => hp b (List.mem_cons_of_mem _ hb)]
      rfl

theorem seekNewline_signedDecimal (v : ℤ) : seekNewline (signedDecimal v) = none := by
  have hdigits : ∀ b ∈ decimalBytes v.natAbs, b ≠ 13 := by
    intro b hb
    obtain ⟨d, rfl⟩ := mem_decimalBytes hb
    exact (digitByte_ne d).1
  apply seekNewline_none
  unfold signedDecimal
  split_ifs
  · intro b hb
    rcases List.mem_cons.mp hb with rfl | hb
    · decide
    · exact hdigits b hb
  · exact hdigits

theorem addReplyPrefixed_eq (b : UInt8) {v : ℤ} (h : IsLongLong v) :
    addReplyPrefixed b v = b :: (signedDecimal v ++ crlf) := by
  unfold addReplyPrefixed
  rw [ll2string_eq (by omega) h]
  rfl

theorem addReplyLongLong_eq {v : ℤ} (h : IsLongLong v) :
    addReplyLongLong v = 58 :: (signedDecimal v ++ crlf) := by
  unfold addReplyLongLong
  split_ifs with hzero hone
  · subst hzero
    rfl
  · subst hone
    rfl
  · exact addReplyPrefixed_eq 58 h

theorem readLongLong_line (v : ℤ) (more : Bytes) :
    readLongLong (signedDecimal v ++ crlf ++ more) = v := by
  rw [List.append_assoc]
  exact readLongLong_signedDecimal v (10 :: more)

namespace Reader

/-- A reader that waits for an item, inside as many arrays as there are on the stack. -/
structure Ready (r : Reader) : Prop where
  err : r.err = none
  type : r.type = none

/-- Where a reply goes is a matter of the stack that it is put on. -/
theorem moveToNextTask_congr (r : Reader) (rstack' : List ReadTask) (type : Option ItemType)
    (rstack : List ReadTask) (obj : Reply) :
    { r with rstack := rstack', type := type }.moveToNextTask rstack obj =
      r.moveToNextTask rstack obj := by
  induction rstack generalizing obj with
  | nil => rfl
  | cons task rstack ih =>
    unfold moveToNextTask
    split_ifs
    · exact ih _
    · rfl

theorem work_of_next {r r' : Reader} {buf rest : Bytes} (h : r.processItem buf = .next r' rest) :
    work turn r buf = work turn r' rest := by
  rw [resumable.work_eq, turn, h]
  rfl

/-- An item of a type is read, and the reader has its reply. -/
theorem work_item {r : Reader} (hr : r.Ready) {b : UInt8} {type : ItemType}
    (hb : ItemType.ofByte b = some type) {buf rest : Bytes} {obj : Reply}
    (h : { r with type := some type }.processTyped buf type =
      .next ({ r with type := some type }.finish obj) rest) :
    work turn r (b :: buf) = work turn (r.finish obj) rest := by
  have hitem : r.processItem (b :: buf) = .next (r.finish obj) rest := by
    rw [processItem_cons hr.err hr.type, hb]
    simp only [h]
    congr 1
    exact moveToNextTask_congr r r.rstack (some type) _ _
  exact work_of_next hitem

theorem work_status {r : Reader} (hr : r.Ready) {str : Bytes} (hstr : seekNewline str = none)
    (more : Bytes) :
    work turn r ((Answer.status str).bytes ++ more) = work turn (r.finish (.status str)) more := by
  obtain ⟨hline, htake, hrest⟩ := seekNewline_line hstr more
  have hbytes : (Answer.status str).bytes ++ more = 43 :: (str ++ crlf ++ more) := by
    unfold Answer.bytes
    simp [ascii]
  rw [hbytes]
  apply work_item hr rfl
  unfold processTyped processLineItem
  simp only [hline, htake, hrest]

theorem work_error {r : Reader} (hr : r.Ready) {str : Bytes} (hstr : seekNewline str = none)
    (more : Bytes) :
    work turn r ((Answer.error str).bytes ++ more) = work turn (r.finish (.error str)) more := by
  obtain ⟨hline, htake, hrest⟩ := seekNewline_line hstr more
  have hbytes : (Answer.error str).bytes ++ more = 45 :: (str ++ crlf ++ more) := by
    unfold Answer.bytes
    simp [ascii]
  rw [hbytes]
  apply work_item hr rfl
  unfold processTyped processLineItem
  simp only [hline, htake, hrest]

theorem work_longLong {r : Reader} (hr : r.Ready) {v : ℤ} (hv : IsLongLong v) (more : Bytes) :
    work turn r ((Answer.longLong v).bytes ++ more) = work turn (r.finish (.integer v)) more := by
  obtain ⟨hline, -, hrest⟩ := seekNewline_line (seekNewline_signedDecimal v) more
  have hbytes : (Answer.longLong v).bytes ++ more = 58 :: (signedDecimal v ++ crlf ++ more) := by
    unfold Answer.bytes
    rw [addReplyLongLong_eq hv]
    rfl
  rw [hbytes]
  apply work_item hr rfl
  unfold processTyped processLineItem
  simp only [hline, readLongLong_line, hrest]

theorem work_nil {r : Reader} (hr : r.Ready) (more : Bytes) :
    work turn r (Answer.nullBulk.bytes ++ more) = work turn (r.finish .nil) more ∧
      (r.rstack.length < 8 →
        work turn r (Answer.nullMultiBulk.bytes ++ more) = work turn (r.finish .nil) more) := by
  obtain ⟨hline, -, hrest⟩ := seekNewline_line (seekNewline_signedDecimal (-1)) more
  refine ⟨?_, fun hdepth => ?_⟩
  · have hbytes : Answer.nullBulk.bytes ++ more = 36 :: (signedDecimal (-1) ++ crlf ++ more) := rfl
    rw [hbytes]
    apply work_item hr rfl
    unfold processTyped processBulkItem
    simp only [hline, readLongLong_line, hrest]
    rfl
  · have hbytes : Answer.nullMultiBulk.bytes ++ more =
        42 :: (signedDecimal (-1) ++ crlf ++ more) := rfl
    rw [hbytes]
    apply work_item hr rfl
    unfold processTyped processMultiBulkItem
    simp only [hline, readLongLong_line, hrest, if_neg (by omega : ¬ r.rstack.length = 8), if_true]

theorem work_bulk {r : Reader} (hr : r.Ready) {str : Bytes} (hstr : str.length < 2 ^ 31)
    (more : Bytes) :
    work turn r ((Answer.bulk str).bytes ++ more) = work turn (r.finish (.string str)) more := by
  have hlong : IsLongLong (str.length : ℤ) := by
    constructor <;> omega
  obtain ⟨hline, -, hrest⟩ :=
    seekNewline_line (seekNewline_signedDecimal str.length) (str ++ crlf ++ more)
  have hbytes : (Answer.bulk str).bytes ++ more =
      36 :: (signedDecimal str.length ++ crlf ++ (str ++ crlf ++ more)) := by
    unfold Answer.bytes
    rw [addReplyPrefixed_eq 36 hlong]
    simp
  rw [hbytes]
  apply work_item hr rfl
  have hnonneg : ¬ (str.length : ℤ) < 0 := by omega
  have hthere : (signedDecimal str.length).length + 2 + (str.length + 2) ≤
      (signedDecimal str.length ++ crlf ++ (str ++ crlf ++ more)).length := by
    simp [crlf, ascii]
    omega
  unfold processTyped processBulkItem
  simp only [hline, readLongLong_line, hrest, if_neg hnonneg, Int.toNat_natCast, if_pos hthere]
  rw [← List.drop_drop, hrest, List.append_assoc, List.take_left, ← List.drop_drop, List.drop_left]
  rfl

/-- Whatever comes after it, the answer is read as the reply to an item. -/
def Reads (a : Answer) (depth : ℕ) : Prop :=
  ∀ r : Reader, r.Ready → r.rstack.length = depth → ∀ more,
    work turn r (a.bytes ++ more) = work turn (r.finish a.reply) more

/-- The elements of an array come in. -/
theorem work_elements {as : List Answer} {depth : ℕ} (hread : ∀ a ∈ as, Reads a depth)
    (hne : as ≠ []) {r : Reader} (hr : r.Ready) {task : ReadTask} {rstack : List ReadTask}
    (hstack : r.rstack = task :: rstack) (hdepth : rstack.length + 1 = depth)
    (helements : task.done.length + as.length = task.elements) (more : Bytes) :
    work turn r (Answer.bytesAll as ++ more) =
      work turn (r.moveToNextTask rstack (.array (task.done ++ Answer.replyAll as))) more := by
  induction as generalizing r task with
  | nil => exact absurd rfl hne
  | cons a as ih =>
    have hlength : r.rstack.length = depth := by
      rw [hstack, List.length_cons, hdepth]
    rw [Answer.bytesAll, List.append_assoc, hread a List.mem_cons_self r hr hlength]
    unfold finish
    rw [hstack, moveToNextTask]
    cases as with
    | nil =>
      rw [dif_pos (by simpa using helements)]
      rfl
    | cons a' as =>
      simp only [List.length_cons] at helements
      have hdone : (task.done ++ [a.reply]).length = task.done.length + 1 := by simp
      have hroom : (task.done ++ [a.reply]).length < task.elements := by omega
      have hrest := ih (fun a h => hread a (List.mem_cons_of_mem _ h)) (List.cons_ne_nil a' as)
        (r := { r with rstack := ⟨task.elements, _, hroom⟩ :: rstack, type := none })
        ⟨hr.err, rfl⟩ rfl (by simp only [hdone, List.length_cons]; omega)
      rw [dif_neg (by omega), hrest, moveToNextTask_congr]
      simp [Answer.replyAll]

theorem reads_multiBulk {elements : List Answer} (hlength : elements.length < 2 ^ 31) {depth : ℕ}
    (hdepth : depth < 8) (hread : ∀ a ∈ elements, Reads a (depth + 1)) :
    Reads (.multiBulk elements) depth := by
  intro r hr hstack more
  have hlong : IsLongLong (elements.length : ℤ) := by
    constructor <;> omega
  obtain ⟨hline, -, hrest⟩ :=
    seekNewline_line (seekNewline_signedDecimal elements.length) (Answer.bytesAll elements ++ more)
  have hbytes : (Answer.multiBulk elements).bytes ++ more =
      42 :: (signedDecimal elements.length ++ crlf ++ (Answer.bytesAll elements ++ more)) := by
    rw [Answer.bytes, addReplyPrefixed_eq 42 hlong]
    simp
  have hroom : ¬ r.rstack.length = 8 := by omega
  have hcount : ¬ (elements.length : ℤ) = -1 := by omega
  rw [hbytes]
  cases elements with
  | nil =>
    apply work_item hr rfl
    unfold processTyped processMultiBulkItem
    simp only [List.length_nil] at hline hrest hcount ⊢
    simp only [hline, readLongLong_line, hrest, if_neg hroom, if_neg hcount]
    rfl
  | cons a as =>
    have hpos : 0 < ((a :: as).length : ℤ).toNat := by simp
    have hitem : r.processItem (42 :: (signedDecimal (a :: as).length ++ crlf ++
        (Answer.bytesAll (a :: as) ++ more))) =
        .next
          { r with rstack := ⟨((a :: as).length : ℤ).toNat, [], hpos⟩ :: r.rstack, type := none }
          (Answer.bytesAll (a :: as) ++ more) := by
      rw [processItem_cons hr.err hr.type]
      change processMultiBulkItem _ _ = _
      unfold processMultiBulkItem
      simp only [hline, readLongLong_line, hrest, if_neg hroom, if_neg hcount, dif_pos hpos]
    rw [work_of_next hitem]
    have helements := work_elements hread (List.cons_ne_nil a as)
      (r := { r with rstack := ⟨((a :: as).length : ℤ).toNat, [], hpos⟩ :: r.rstack, type := none })
      ⟨hr.err, rfl⟩ rfl (by omega) (by simp) more
    rw [helements, moveToNextTask_congr]
    rfl

mutual

theorem reads : ∀ (a : Answer) {depth : ℕ}, a.Readable depth → Reads a depth
  | .status str, depth, hread => fun r hr hdepth more => by
    unfold Answer.Readable at hread
    rw [work_status hr hread, Answer.reply]
  | .error str, depth, hread => fun r hr hdepth more => by
    unfold Answer.Readable at hread
    rw [work_error hr hread, Answer.reply]
  | .longLong v, depth, hread => fun r hr hdepth more => by
    unfold Answer.Readable at hread
    rw [work_longLong hr hread, Answer.reply]
  | .bulk str, depth, hread => fun r hr hdepth more => by
    unfold Answer.Readable at hread
    rw [work_bulk hr hread, Answer.reply]
  | .nullBulk, depth, hread => fun r hr hdepth more => by
    rw [(work_nil hr more).1, Answer.reply]
  | .nullMultiBulk, depth, hread => fun r hr hdepth more => by
    unfold Answer.Readable at hread
    rw [(work_nil hr more).2 (by omega), Answer.reply]
  | .multiBulk elements, depth, hread => by
    unfold Answer.Readable at hread
    exact reads_multiBulk hread.2.1 hread.1 (reads_all elements hread.2.2)

theorem reads_all : ∀ (as : List Answer) {depth : ℕ}, Answer.ReadableAll depth as →
    ∀ a ∈ as, Reads a depth
  | [], _, _ => by simp
  | a :: as, depth, hread => by
    unfold Answer.ReadableAll at hread
    intro a' ha'
    rcases List.mem_cons.mp ha' with ha' | ha'
    · rw [ha']
      exact reads a hread.1
    · exact reads_all as hread.2 a' ha'

end

theorem work_bytesAll {answers : List Answer} (hread : Answer.ReadableAll 0 answers) {r : Reader}
    (hr : r.Ready) (hstack : r.rstack = []) :
    work turn r (Answer.bytesAll answers) =
      some ({ r with replies := r.replies ++ Answer.replyAll answers }, []) := by
  induction answers generalizing r with
  | nil =>
    have hwait : r.processItem [] = .wait r [] := by
      unfold processItem
      simp [hr.err, hr.type]
    rw [Answer.bytesAll, resumable.work_eq, turn, hwait, Answer.replyAll, List.append_nil]
    rfl
  | cons a answers ih =>
    unfold Answer.ReadableAll at hread
    have hdepth : r.rstack.length = 0 := by
      rw [hstack]
      rfl
    have hfinish : r.finish a.reply = { r with replies := r.replies ++ [a.reply] } := by
      obtain ⟨err, rstack, type, replies⟩ := r
      obtain rfl : rstack = [] := hstack
      obtain rfl : type = none := hr.type
      rfl
    rw [Answer.bytesAll, reads a hread.1 r hr hdepth, hfinish,
      ih hread.2 (r := { r with replies := r.replies ++ [a.reply] }) ⟨hr.err, hr.type⟩ hstack]
    simp [Answer.replyAll]

theorem finish_replies (r : Reader) (obj : Reply) : r.replies <+: (r.finish obj).replies := by
  have hmove (rstack : List ReadTask) (obj : Reply) :
      r.replies <+: (r.moveToNextTask rstack obj).replies := by
    induction rstack generalizing obj with
    | nil => exact List.prefix_append _ _
    | cons task rstack ih =>
      unfold moveToNextTask
      split_ifs
      · exact ih _
      · exact List.prefix_refl _
  exact hmove r.rstack obj

theorem processTyped_replies (r : Reader) (buf : Bytes) (type : ItemType) :
    r.replies <+: (r.processTyped buf type).state.replies := by
  have hline (type : ItemType) : r.replies <+: (r.processLineItem type buf).state.replies := by
    unfold processLineItem
    cases seekNewline buf with
    | none => exact List.prefix_refl _
    | some len => exact finish_replies r _
  cases type with
  | error => exact hline .error
  | status => exact hline .status
  | integer => exact hline .integer
  | string =>
    change r.replies <+: (r.processBulkItem buf).state.replies
    unfold processBulkItem
    cases seekNewline buf with
    | none => exact List.prefix_refl _
    | some newline =>
      simp only
      split_ifs
      · exact finish_replies r _
      · exact finish_replies r _
      · exact List.prefix_refl _
  | array =>
    change r.replies <+: (r.processMultiBulkItem buf).state.replies
    unfold processMultiBulkItem
    cases seekNewline buf with
    | none =>
      split_ifs
      · exact List.prefix_refl _
      · exact List.prefix_refl _
    | some newline =>
      simp only
      split_ifs
      · exact List.prefix_refl _
      · exact finish_replies r _
      · exact List.prefix_refl _
      · exact finish_replies r _

theorem processItem_replies (r : Reader) (buf : Bytes) :
    r.replies <+: (r.processItem buf).state.replies := by
  unfold processItem
  split_ifs
  · exact List.prefix_refl _
  · cases r.type with
    | some type => exact processTyped_replies r buf type
    | none =>
      cases buf with
      | nil => exact List.prefix_refl _
      | cons b rest =>
        simp only
        cases ItemType.ofByte b with
        | none => exact List.prefix_refl _
        | some type => exact processTyped_replies { r with type := some type } rest type

/-- Replies that were returned stay. -/
theorem work_replies {r : Reader} {buf : Bytes} {c : Reader × Bytes}
    (hwork : work turn r buf = some c) : r.replies <+: c.1.replies := by
  refine resumable.work_induction (P := fun r' _ => r.replies <+: r'.replies) ?_
    (List.prefix_refl _) hwork
  intro r' buf t hpre hturn
  obtain rfl := Option.some.inj hturn
  exact hpre.trans (processItem_replies r' buf)

theorem work_of_err {r : Reader} (h : r.err.isSome) (buf : Bytes) :
    work turn r buf = some (r, []) := by
  rw [resumable.work_eq, turn, processItem_of_err h]
  rfl

theorem exists_work (r : Reader) (buf : Bytes) : ∃ c, work turn r buf = some c := by
  induction hn : buf.length using Nat.strong_induction_on generalizing r buf with
  | _ n ih =>
    subst hn
    rw [resumable.work_eq, turn, Option.bind_some]
    cases hitem : r.processItem buf with
    | wait r' rest => exact ⟨(r', rest), rfl⟩
    | next r' rest => exact ih rest.length (resumable.shorter (congrArg some hitem)) r' rest rfl

/-- The replies to the first answers, when not all of them are there. -/
theorem work_first_answers {answers : List Answer} (hread : Answer.ReadableAll 0 answers)
    {buf : Bytes} (hbuf : buf <+: Answer.bytesAll answers) {c : Reader × Bytes}
    (hwork : work turn redisReaderCreate buf = some c) :
    c.1.err = none ∧ c.1.replies <+: Answer.replyAll answers ∧
      (buf = Answer.bytesAll answers → c.1.replies = Answer.replyAll answers ∧ c.2 = []) := by
  obtain ⟨more, hmore⟩ := hbuf
  have hall : work turn redisReaderCreate (Answer.bytesAll answers) =
      some ({ redisReaderCreate with replies := Answer.replyAll answers }, []) :=
    work_bytesAll hread ⟨rfl, rfl⟩ rfl
  have hrest : work turn c.1 (c.2 ++ more) =
      some ({ redisReaderCreate with replies := Answer.replyAll answers }, []) := by
    rw [← hmore, resumable.work_append le_top, hwork, Option.bind_some] at hall
    exact hall
  refine ⟨?_, work_replies hrest, fun hdone => ?_⟩
  · by_contra herr
    have hsome : c.1.err.isSome := by
      rwa [← Option.ne_none_iff_isSome]
    rw [work_of_err hsome] at hrest
    obtain ⟨hsame, -⟩ := Prod.mk.inj (Option.some.inj hrest)
    rw [hsame] at hsome
    cases hsome
  · rw [hdone, hall] at hwork
    obtain rfl := Option.some.inj hwork
    exact ⟨rfl, rfl⟩

/-- However the answers of a server are cut into reads, the client has the replies to the first
ones, in order, and exactly all of them when everything is there. -/
theorem run_answers {answers : List Answer} (hread : Answer.ReadableAll 0 answers)
    {chunks : List Bytes} (hchunks : chunks.flatten <+: Answer.bytesAll answers) :
    ∃ c, run (feed turn) (redisReaderCreate, []) chunks = some c ∧ c.1.err = none ∧
      c.1.replies <+: Answer.replyAll answers ∧
      (chunks.flatten = Answer.bytesAll answers →
        c.1.replies = Answer.replyAll answers ∧ c.2 = []) := by
  obtain ⟨c, hc⟩ := exists_work redisReaderCreate chunks.flatten
  exact ⟨c, (resumable.run_feed_eq rfl chunks le_top).trans hc, work_first_answers hread hchunks hc⟩

/-- An array in two pieces. -/
theorem run_answers_multiBulk :
    ∃ c, run (feed turn) (redisReaderCreate, []) [[42, 49, 13], [10, 58, 49, 13, 10]] = some c ∧
      c.1.err = none ∧
      c.1.replies <+: Answer.replyAll [.multiBulk [.longLong 1]] ∧
      ([[42, 49, 13], [10, 58, 49, 13, 10]].flatten = Answer.bytesAll [.multiBulk [.longLong 1]] →
        c.1.replies = Answer.replyAll [.multiBulk [.longLong 1]] ∧ c.2 = []) := by
  have hread : Answer.ReadableAll 0 [.multiBulk [.longLong 1]] := by
    simp [Answer.ReadableAll, Answer.Readable, IsLongLong]
  exact run_answers hread (by decide)

end Reader
end GridApps.Redis
