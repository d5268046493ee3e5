import GridApps.Redis.ReplyReader

/-! What a client is sent: a buffer of a fixed size, a list of strings behind it, and the lengths in
between that are known only later. -/
namespace GridApps.Redis
open Numeral Struct Transition

def redisReplyChunkBytes : ℕ := 5 * 1500

def redisMaxWritePerEvent : ℕ := 1024 * 64

/-- A node of the list of replies: a string, or a length that is not known yet. -/
inductive ReplyNode where
  | str (s : Bytes)
  | deferred (node : ℕ)
  deriving DecidableEq

def ReplyNode.isStr : ReplyNode → Bool
  | str _ => true
  | deferred _ => false

/-- `buf` is the part of the buffer that is used, `writable` is that the event loop is waiting to
write, and `fresh` names the next node that is deferred. -/
structure ReplyBuffer where
  buf : Bytes
  reply : List ReplyNode
  sentlen : ℕ
  closeAfterReply : Bool
  writable : Bool
  fresh : ℕ

namespace ReplyBuffer

def create : ReplyBuffer := ⟨[], [], 0, false, false, 0⟩

def installWriteEvent (c : ReplyBuffer) : ReplyBuffer :=
  if c.buf.isEmpty && c.reply.isEmpty then { c with writable := true } else c

/-- `none` is that the string has to go to the list. -/
def addReplyToBuffer (c : ReplyBuffer) (s : Bytes) : Option ReplyBuffer :=
  if c.closeAfterReply then some c
  else if !c.reply.isEmpty then none
  else if redisReplyChunkBytes - c.buf.length < s.length then none
  else some { c with buf := c.buf ++ s }

/-- The last string of the list is made longer while it is short. -/
def appendString (s : Bytes) : List ReplyNode → List ReplyNode
  | [] => [.str s]
  | [.str tail] =>
    if tail.length + s.length ≤ redisReplyChunkBytes then [.str (tail ++ s)]
    else [.str tail, .str s]
  | n :: ns => n :: appendString s ns

def addReplyStringToList (c : ReplyBuffer) (s : Bytes) : ReplyBuffer :=
  if c.closeAfterReply then c else { c with reply := appendString s c.reply }

def addReplyString (c : ReplyBuffer) (s : Bytes) : ReplyBuffer :=
  let c := c.installWriteEvent
  (c.addReplyToBuffer s).getD (c.addReplyStringToList s)

/-- The node is the one that `fresh` names. -/
def addDeferredMultiBulkLength (c : ReplyBuffer) : ReplyBuffer :=
  let c := c.installWriteEvent
  { c with reply := c.reply ++ [.deferred c.fresh], fresh := c.fresh + 1 }

/-- A string in front of the list is made one with what it stands before. -/
def glue (len : Bytes) : List ReplyNode → List ReplyNode
  | .str next :: ns => .str (len ++ next) :: ns
  | ns => .str len :: ns

def setNode (node : ℕ) (len : Bytes) : List ReplyNode → List ReplyNode
  | [] => []
  | .str s :: ns => .str s :: setNode node len ns
  | .deferred n :: ns => if n = node then glue len ns else .deferred n :: setNode node len ns

def multiBulkLength (length : ℤ) : Bytes := ascii ['*'] ++ signedDecimal length ++ crlf

def setDeferredMultiBulkLength (c : ReplyBuffer) (node : ℕ) (length : ℤ) : ReplyBuffer :=
  { c with reply := setNode node (multiBulkLength length) c.reply }

/-- What a call of `write` comes to. -/
inductive WriteResult where
  | wrote (n : ℕ)
  | again
  | failed
  deriving DecidableEq

/-- How much is written of data. -/
def WriteResult.count (len : ℕ) : WriteResult → ℕ
  | wrote n => min n len
  | again => 0
  | failed => 0

/-- The buffer is sent before the list. -/
def first (c : ReplyBuffer) : Option ReplyNode :=
  if c.buf.isEmpty then c.reply.head? else some (.str c.buf)

def dropFirst (c : ReplyBuffer) : ReplyBuffer :=
  if c.buf.isEmpty then { c with reply := c.reply.tail } else { c with buf := [] }

/-- The buffer after `n` more bytes of `data` were written. -/
def advance (c : ReplyBuffer) (data : Bytes) (n : ℕ) : ReplyBuffer :=
  if c.sentlen + n = data.length then { c.dropFirst with sentlen := 0 }
  else { c with sentlen := c.sentlen + n }

/-- The turns of the loop, each with a result of `write`: what is sent, and whether writing failed.
A length that is not known cannot be sent; the limit on what is written holds unless there is too
little memory. -/
def sendLoop (lowMemory : Bool) : List WriteResult → ℕ → ReplyBuffer →
    Option (ReplyBuffer × Bytes × Bool)
  | [], _, c => some (c, [], false)
  | w :: ws, totwritten, c =>
    match c.first with
    | none => some (c, [], false)
    | some (.deferred _) => none
    | some (.str data) =>
      if data.isEmpty then sendLoop lowMemory ws totwritten c.dropFirst
      else
        let nwritten := w.count (data.length - c.sentlen)
        if nwritten = 0 then some (c, [], w == .failed)
        else
          let out := (data.drop c.sentlen).take nwritten
          let c := c.advance data nwritten
          if redisMaxWritePerEvent < totwritten + nwritten ∧ !lowMemory then some (c, out, false)
          else (sendLoop lowMemory ws (totwritten + nwritten) c).map fun r =>
            (r.1, out ++ r.2.1, r.2.2)

/-- The connection is still there, it was closed after the last reply, or it failed. -/
inductive Fate where
  | live
  | closed
  | failed
  deriving DecidableEq

def sendReplyToClient (lowMemory : Bool) (ws : List WriteResult) (c : ReplyBuffer) :
    Option (ReplyBuffer × Bytes × Fate) :=
  (sendLoop lowMemory ws 0 c).map fun (c, out, failed) =>
    if failed then (c, out, .failed)
    else if c.buf.isEmpty && c.reply.isEmpty then
      ({ c with sentlen := 0, writable := false }, out,
        if c.closeAfterReply then .closed else .live)
    else (c, out, .live)

end ReplyBuffer

/-- A client, and all that it was sent. -/
structure Outgoing where
  c : ReplyBuffer
  sent : Bytes
  fate : ReplyBuffer.Fate

namespace Outgoing

def create : Outgoing := ⟨ReplyBuffer.create, [], .live⟩

inductive Event where
  | addReply (s : Bytes)
  | addDeferredMultiBulkLength
  | setDeferredMultiBulkLength (node : ℕ) (length : ℤ)
  | closeAfterReply
  | sendReplyToClient (lowMemory : Bool) (ws : List ReplyBuffer.WriteResult)

/-- A command sets the lengths that it has deferred before it returns to the event loop, which calls
`sendReplyToClient` while it is waiting to write. -/
def step (o : Outgoing) (e : Event) : Option Outgoing :=
  if o.fate ≠ .live then none
  else
    match e with
    | .addReply s => some { o with c := o.c.addReplyString s }
    | .addDeferredMultiBulkLength => some { o with c := o.c.addDeferredMultiBulkLength }
    | .setDeferredMultiBulkLength node length =>
      if o.c.reply.contains (.deferred node) then
        some { o with c := o.c.setDeferredMultiBulkLength node length }
      else none
    | .closeAfterReply => some { o with c := { o.c with closeAfterReply := true } }
    | .sendReplyToClient lowMemory ws =>
      if o.c.writable && o.c.reply.all ReplyNode.isStr then
        (o.c.sendReplyToClient lowMemory ws).map fun r => ⟨r.1, o.sent ++ r.2.1, r.2.2⟩
      else none

end Outgoing

/-- A byte, or the place of a length that is not known. -/
inductive Piece where
  | byte (b : UInt8)
  | length (node : ℕ)

def ReplyNode.pieces : ReplyNode → List Piece
  | str s => s.map .byte
  | deferred node => [.length node]

def ReplyBuffer.pieces (c : ReplyBuffer) : List Piece :=
  c.buf.map .byte ++ c.reply.flatMap ReplyNode.pieces

def ReplyBuffer.pending (c : ReplyBuffer) : List Piece := c.pieces.drop c.sentlen

/-- The text of a length in its place. -/
def fill (node : ℕ) (len : Bytes) (pieces : List Piece) : List Piece :=
  pieces.flatMap fun
    | .byte b => [.byte b]
    | .length n => if n = node then len.map .byte else [.length n]

/-- What was said to a client so far. -/
structure Said where
  pieces : List Piece
  fresh : ℕ
  closeAfterReply : Bool

def Said.step (s : Said) : Outgoing.Event → Said
  | .addReply str => if s.closeAfterReply then s else { s with pieces := s.pieces ++ str.map .byte }
  | .addDeferredMultiBulkLength =>
    { s with pieces := s.pieces ++ [.length s.fresh], fresh := s.fresh + 1 }
  | .setDeferredMultiBulkLength node length =>
    { s with pieces := fill node (ReplyBuffer.multiBulkLength length) s.pieces }
  | .closeAfterReply => { s with closeAfterReply := true }
  | .sendReplyToClient _ _ => s

namespace ReplyBuffer

def headLength : List ReplyNode → ℕ
  | .str data :: _ => data.length
  | _ => 0

def firstLength (c : ReplyBuffer) : ℕ :=
  if c.buf.isEmpty then headLength c.reply else c.buf.length

def holes (ns : List ReplyNode) : List ℕ :=
  ns.filterMap fun
    | .str _ => none
    | .deferred node => some node

/-- What holds of a buffer between two events: less was sent than there is of the first string, a
length is deferred once, and who has something to send is waiting to write. -/
structure Sound (c : ReplyBuffer) : Prop where
  sentlen : c.sentlen = 0 ∨ c.sentlen < c.firstLength
  buf : c.buf.length ≤ redisReplyChunkBytes
  nodup : (holes c.reply).Nodup
  fresh : ∀ node ∈ holes c.reply, node < c.fresh
  writable : c.buf ≠ [] ∨ c.reply ≠ [] → c.writable = true

theorem pieces_of_first {c : ReplyBuffer} {n : ReplyNode} (h : c.first = some n) :
    c.pieces = n.pieces ++ c.dropFirst.pieces := by
  obtain ⟨buf, reply, sentlen, closeAfterReply, writable, fresh⟩ := c
  cases buf with
  | nil =>
    cases reply with
    | nil => cases h
    | cons n' reply =>
      obtain rfl := Option.some.inj h
      rfl
  | cons b buf =>
    obtain rfl := Option.some.inj h
    rfl

theorem headLength_le (ns : List ReplyNode) :
    headLength ns ≤ (ns.flatMap ReplyNode.pieces).length := by
  cases ns with
  | nil => exact Nat.zero_le _
  | cons n ns =>
    cases n with
    | str data => simp [headLength, ReplyNode.pieces]
    | deferred node => exact Nat.zero_le _

theorem firstLength_le (c : ReplyBuffer) : c.firstLength ≤ c.pieces.length := by
  have hle := headLength_le c.reply
  unfold firstLength pieces
  rw [List.length_append, List.length_map]
  split_ifs
  · omega
  · omega

theorem Sound.sentlen_le {c : ReplyBuffer} (h : Sound c) : c.sentlen ≤ c.pieces.length := by
  have hle := c.firstLength_le
  have hsentlen := h.sentlen
  omega

theorem sound_create : Sound create where
  sentlen := .inl rfl
  buf := Nat.zero_le _
  nodup := List.nodup_nil
  fresh := by simp [create, holes]
  writable := by simp [create]

theorem Sound.installWriteEvent {c : ReplyBuffer} (h : Sound c) :
    c.installWriteEvent = { c with writable := true } := by
  unfold ReplyBuffer.installWriteEvent
  split_ifs with hempty
  · rfl
  · have hwritable := h.writable
    rw [Bool.and_eq_true, List.isEmpty_iff, List.isEmpty_iff, not_and_or] at hempty
    rw [← hwritable hempty]

theorem appendString_pieces (s : Bytes) (ns : List ReplyNode) :
    (appendString s ns).flatMap ReplyNode.pieces = ns.flatMap ReplyNode.pieces ++ s.map .byte := by
  induction ns using appendString.induct (s := s) with
  | case1 => simp [appendString, ReplyNode.pieces]
  | case2 tail h => simp [appendString, h, ReplyNode.pieces]
  | case3 tail h => simp [appendString, h, ReplyNode.pieces]
  | case4 n ns h ih =>
    rw [appendString]
    · simp [ih]
    · exact h

theorem appendString_holes (s : Bytes) (ns : List ReplyNode) :
    holes (appendString s ns) = holes ns := by
  induction ns using appendString.induct (s := s) with
  | case1 => rfl
  | case2 tail h => simp [appendString, h, holes]
  | case3 tail h => simp [appendString, h, holes]
  | case4 n ns h ih =>
    rw [appendString]
    · unfold holes at ih ⊢
      rw [List.filterMap_cons, List.filterMap_cons, ih]
    · exact h

theorem headLength_appendString (s : Bytes) (ns : List ReplyNode) :
    headLength ns ≤ headLength (appendString s ns) := by
  cases ns using appendString.fun_cases (s := s) with
  | case1 => exact Nat.zero_le _
  | case2 tail h => simp [appendString, h, headLength]
  | case3 tail h => simp [appendString, h, headLength]
  | case4 n ns h =>
    rw [appendString]
    · cases n <;> exact le_rfl
    · exact h

/-- The ways in which a string is added. -/
theorem Sound.addReplyString_cases {c : ReplyBuffer} (h : Sound c) (s : Bytes) :
    c.closeAfterReply = true ∧ c.addReplyString s = { c with writable := true } ∨
    c.closeAfterReply = false ∧ c.reply = [] ∧ (c.buf ++ s).length ≤ redisReplyChunkBytes ∧
      c.addReplyString s = { c with writable := true, buf := c.buf ++ s } ∨
    c.closeAfterReply = false ∧
      c.addReplyString s = { c with writable := true, reply := appendString s c.reply } := by
  have hbuf := h.buf
  unfold ReplyBuffer.addReplyString addReplyToBuffer addReplyStringToList
  simp only [h.installWriteEvent]
  by_cases hclose : c.closeAfterReply = true
  · exact .inl ⟨hclose, by simp [hclose]⟩
  · rw [Bool.not_eq_true] at hclose
    simp only [hclose, Bool.false_eq_true, if_false]
    by_cases hreply : c.reply = []
    · by_cases hroom : redisReplyChunkBytes - c.buf.length < s.length
      · exact .inr (.inr ⟨trivial, by simp [hreply, hroom]⟩)
      · refine .inr (.inl ⟨trivial, hreply, ?_, by simp [hreply, hroom]⟩)
        rw [List.length_append]
        omega
    · exact .inr (.inr ⟨trivial, by simp [hreply]⟩)

/-- More was put behind what there was. -/
theorem pending_append {c c' : ReplyBuffer} (h : c.sentlen ≤ c.pieces.length) {ps : List Piece}
    (hpieces : c'.pieces = c.pieces ++ ps) (hsentlen : c'.sentlen = c.sentlen) :
    c'.pending = c.pending ++ ps := by
  unfold pending
  rw [hpieces, hsentlen, List.drop_append_of_le_length h]

theorem Sound.addReplyString {c : ReplyBuffer} (h : Sound c) (s : Bytes) :
    Sound (c.addReplyString s) ∧ (c.addReplyString s).fresh = c.fresh ∧
      (c.addReplyString s).closeAfterReply = c.closeAfterReply ∧
      (c.addReplyString s).pending =
        if c.closeAfterReply then c.pending else c.pending ++ s.map .byte := by
  rcases h.addReplyString_cases s with
    ⟨hclose, hadd⟩ | ⟨hclose, hreply, hroom, hadd⟩ | ⟨hclose, hadd⟩
  · rw [hadd, if_pos hclose]
    exact ⟨⟨h.sentlen, h.buf, h.nodup, h.fresh, fun _ => rfl⟩, rfl, rfl, rfl⟩
  · rw [hadd, hclose]
    refine ⟨⟨?_, hroom, h.nodup, h.fresh, fun _ => rfl⟩, rfl, rfl, ?_⟩
    · apply h.sentlen.imp_right
      intro hlt
      unfold firstLength at hlt ⊢
      rw [hreply] at hlt ⊢
      cases hbuf : c.buf with
      | nil =>
        rw [hbuf] at hlt
        cases hlt
      | cons b buf =>
        rw [hbuf] at hlt
        simp only [List.cons_append, List.isEmpty_cons, Bool.false_eq_true, if_false,
          List.length_cons, List.length_append] at hlt ⊢
        omega
    · rw [if_neg Bool.false_ne_true]
      refine pending_append h.sentlen_le ?_ ?_
      · unfold pieces
        simp [hreply]
      · rfl
  · rw [hadd, hclose]
    refine ⟨⟨?_, h.buf, ?_, ?_, fun _ => rfl⟩, rfl, rfl, ?_⟩
    · apply h.sentlen.imp_right
      intro hlt
      apply lt_of_lt_of_le hlt
      have hle := headLength_appendString s c.reply
      unfold firstLength
      split_ifs
      · exact hle
      · exact le_rfl
    · rw [appendString_holes]
      exact h.nodup
    · rw [appendString_holes]
      exact h.fresh
    · rw [if_neg Bool.false_ne_true]
      refine pending_append h.sentlen_le ?_ ?_
      · unfold pieces
        rw [appendString_pieces, List.append_assoc]
      · rfl

theorem Sound.addDeferredMultiBulkLength {c : ReplyBuffer} (h : Sound c) :
    Sound c.addDeferredMultiBulkLength ∧
      c.addDeferredMultiBulkLength.pending = c.pending ++ [.length c.fresh] := by
  have hholes : holes (c.reply ++ [.deferred c.fresh]) = holes c.reply ++ [c.fresh] := by
    unfold holes
    rw [List.filterMap_append]
    rfl
  unfold ReplyBuffer.addDeferredMultiBulkLength
  simp only [h.installWriteEvent]
  refine ⟨⟨?_, h.buf, ?_, ?_, fun _ => rfl⟩, ?_⟩
  · apply h.sentlen.imp_right
    intro hlt
    unfold firstLength at hlt ⊢
    simp only
    split_ifs at hlt ⊢
    · cases hreply : c.reply with
      | nil =>
        rw [hreply] at hlt
        cases hlt
      | cons n ns =>
        rw [hreply] at hlt
        cases n with
        | str data => exact hlt
        | deferred node => exact hlt
    · exact hlt
  · rw [hholes, List.nodup_append]
    refine ⟨h.nodup, List.nodup_singleton _, ?_⟩
    intro node hnode node' hnode'
    rw [List.mem_singleton] at hnode'
    have hlt := h.fresh node hnode
    omega
  · intro node hnode
    rw [hholes] at hnode
    rcases List.mem_append.mp hnode with hnode | hnode
    · exact Nat.lt_succ_of_lt (h.fresh node hnode)
    · rw [List.mem_singleton.mp hnode]
      exact Nat.lt_succ_self _
  · refine pending_append h.sentlen_le ?_ ?_
    · unfold pieces
      rw [List.flatMap_append, List.append_assoc]
      rfl
    · rfl

theorem fill_append (node : ℕ) (len : Bytes) (ps qs : List Piece) :
    fill node len (ps ++ qs) = fill node len ps ++ fill node len qs := List.flatMap_append

theorem fill_bytes (node : ℕ) (len s : Bytes) :
    fill node len (s.map .byte) = s.map .byte := by
  induction s with
  | nil => rfl
  | cons b s ih =>
    change Piece.byte b :: fill node len (s.map .byte) = _
    rw [ih]
    rfl

theorem fill_of_notMem {node : ℕ} {len : Bytes} {ns : List ReplyNode} (h : node ∉ holes ns) :
    fill node len (ns.flatMap ReplyNode.pieces) = ns.flatMap ReplyNode.pieces := by
  induction ns with
  | nil => rfl
  | cons n ns ih =>
    cases n with
    | str s =>
      rw [List.flatMap_cons, fill_append, ReplyNode.pieces, fill_bytes, ih h]
    | deferred n =>
      obtain ⟨hne, hrest⟩ : node ≠ n ∧ node ∉ holes ns := by
        simpa [holes] using h
      have hkeep : fill node len [.length n] = [.length n] := by
        simp [fill, hne.symm]
      rw [List.flatMap_cons, fill_append, ReplyNode.pieces, hkeep, ih hrest]

theorem glue_pieces (len : Bytes) (ns : List ReplyNode) :
    (glue len ns).flatMap ReplyNode.pieces =
      len.map .byte ++ ns.flatMap ReplyNode.pieces := by
  unfold glue
  split
  next => simp [ReplyNode.pieces]
  next => rfl

theorem holes_glue (len : Bytes) (ns : List ReplyNode) : holes (glue len ns) = holes ns := by
  unfold glue
  split <;> rfl

theorem setNode_pieces {node : ℕ} {len : Bytes} {ns : List ReplyNode} (h : (holes ns).Nodup) :
    (setNode node len ns).flatMap ReplyNode.pieces =
      fill node len (ns.flatMap ReplyNode.pieces) := by
  induction ns with
  | nil => rfl
  | cons n ns ih =>
    cases n with
    | str s =>
      rw [setNode, List.flatMap_cons, List.flatMap_cons, fill_append, ih h, ReplyNode.pieces,
        fill_bytes]
    | deferred n =>
      obtain ⟨hnotMem, hnodup⟩ : n ∉ holes ns ∧ (holes ns).Nodup := by
        simpa [holes] using h
      rw [setNode, List.flatMap_cons, fill_append, ReplyNode.pieces]
      by_cases hn : n = node
      · subst hn
        have hlen : fill n len [.length n] = len.map .byte := by simp [fill]
        rw [if_pos rfl, glue_pieces, hlen, fill_of_notMem hnotMem]
      · have hkeep : fill node len [.length n] = [.length n] := by simp [fill, hn]
        rw [if_neg hn, List.flatMap_cons, ih hnodup, hkeep, ReplyNode.pieces]

theorem holes_setNode_sublist (node : ℕ) (len : Bytes) (ns : List ReplyNode) :
    (holes (setNode node len ns)).Sublist (holes ns) := by
  induction ns with
  | nil => exact List.Sublist.refl _
  | cons n ns ih =>
    cases n with
    | str s => exact ih
    | deferred n =>
      rw [setNode]
      split_ifs
      · rw [holes_glue]
        exact List.sublist_cons_self _ _
      · exact ih.cons_cons n

theorem headLength_setNode (node : ℕ) (len : Bytes) (ns : List ReplyNode) :
    headLength ns ≤ headLength (setNode node len ns) := by
  cases ns with
  | nil => exact le_rfl
  | cons n ns =>
    cases n with
    | str s => exact le_rfl
    | deferred n => exact Nat.zero_le _

/-- Only whole strings were sent, and of the next one less than it has. -/
theorem Sound.take_sentlen {c : ReplyBuffer} (h : Sound c) :
    ∃ out : Bytes, c.pieces.take c.sentlen = out.map .byte := by
  rcases h.sentlen with hzero | hlt
  · exact ⟨[], by rw [hzero]; rfl⟩
  · unfold firstLength at hlt
    unfold pieces
    cases hbuf : c.buf with
    | nil =>
      rw [hbuf] at hlt
      cases hreply : c.reply with
      | nil =>
        rw [hreply] at hlt
        cases hlt
      | cons n ns =>
        rw [hreply] at hlt
        cases n with
        | deferred node => cases hlt
        | str data =>
          refine ⟨data.take c.sentlen, ?_⟩
          have hle : c.sentlen ≤ (data.map Piece.byte).length := by
            rw [List.length_map]
            exact le_of_lt hlt
          rw [List.map_take, List.flatMap_cons, ReplyNode.pieces]
          exact List.take_append_of_le_length hle
    | cons b buf =>
      rw [hbuf] at hlt
      refine ⟨(b :: buf).take c.sentlen, ?_⟩
      have hle : c.sentlen ≤ ((b :: buf).map Piece.byte).length := by
        rw [List.length_map]
        exact le_of_lt hlt
      rw [List.map_take]
      exact List.take_append_of_le_length hle

theorem Sound.setDeferredMultiBulkLength {c : ReplyBuffer} (h : Sound c) (node : ℕ) (length : ℤ) :
    Sound (c.setDeferredMultiBulkLength node length) ∧
      (c.setDeferredMultiBulkLength node length).pending =
        fill node (multiBulkLength length) c.pending := by
  have hsublist := holes_setNode_sublist node (multiBulkLength length) c.reply
  have hfirst : c.firstLength ≤ (c.setDeferredMultiBulkLength node length).firstLength := by
    have hle := headLength_setNode node (multiBulkLength length) c.reply
    unfold firstLength ReplyBuffer.setDeferredMultiBulkLength
    split_ifs
    · exact hle
    · exact le_rfl
  have hpieces : (c.setDeferredMultiBulkLength node length).pieces =
      fill node (multiBulkLength length) c.pieces := by
    unfold pieces ReplyBuffer.setDeferredMultiBulkLength
    rw [fill_append, fill_bytes, setNode_pieces h.nodup]
  refine ⟨⟨?_, h.buf, h.nodup.sublist hsublist, fun n hn => h.fresh n (hsublist.subset hn), ?_⟩, ?_⟩
  · exact h.sentlen.imp_right fun hlt => lt_of_lt_of_le hlt hfirst
  · intro hsome
    apply h.writable
    apply hsome.imp_right
    intro hreply hnil
    apply hreply
    unfold ReplyBuffer.setDeferredMultiBulkLength
    rw [hnil]
    rfl
  · obtain ⟨out, hout⟩ := h.take_sentlen
    have hlength : out.length = c.sentlen := by
      have hlen := congrArg List.length hout
      rw [List.length_take, List.length_map, Nat.min_eq_left h.sentlen_le] at hlen
      exact hlen.symm
    unfold pending
    rw [hpieces, ← List.take_append_drop c.sentlen c.pieces, hout, fill_append, fill_bytes]
    change (out.map Piece.byte ++ _).drop c.sentlen = _
    rw [← hlength, List.drop_left' (by simp), List.drop_left' (by simp)]

/-- The first string is gone, and all of the rest is there. -/
theorem Sound.dropFirst {c : ReplyBuffer} (h : Sound c) {data : Bytes}
    (hfirst : c.first = some (.str data)) :
    Sound { c.dropFirst with sentlen := 0 } ∧ c.pieces = data.map .byte ++ c.dropFirst.pieces ∧
      c.firstLength = data.length ∧ holes c.dropFirst.reply = holes c.reply := by
  have hpieces := pieces_of_first hfirst
  obtain ⟨buf, reply, sentlen, closeAfterReply, writable, fresh⟩ := c
  cases buf with
  | nil =>
    cases reply with
    | nil => cases hfirst
    | cons n ns =>
      obtain rfl := Option.some.inj hfirst
      have hwritable : writable = true := h.writable (.inr (List.cons_ne_nil _ _))
      exact ⟨⟨.inl rfl, Nat.zero_le _, h.nodup, h.fresh, fun _ => hwritable⟩, hpieces, rfl, rfl⟩
  | cons b buf =>
    obtain rfl := ReplyNode.str.inj (Option.some.inj hfirst)
    have hwritable : writable = true := h.writable (.inl (List.cons_ne_nil _ _))
    exact ⟨⟨.inl rfl, Nat.zero_le _, h.nodup, h.fresh, fun _ => hwritable⟩, hpieces, rfl, rfl⟩

theorem dropFirst_fresh (c : ReplyBuffer) :
    c.dropFirst.fresh = c.fresh ∧ c.dropFirst.closeAfterReply = c.closeAfterReply ∧
      c.dropFirst.sentlen = c.sentlen := by
  unfold dropFirst
  split_ifs <;> exact ⟨rfl, rfl, rfl⟩

/-- What is written is what was pending, as far as it goes. -/
theorem Sound.advance {c : ReplyBuffer} (h : Sound c) {data : Bytes}
    (hfirst : c.first = some (.str data)) {n : ℕ} (hn : n ≤ data.length - c.sentlen)
    (hdata : data ≠ []) :
    Sound (c.advance data n) ∧
      c.pending = ((data.drop c.sentlen).take n).map .byte ++ (c.advance data n).pending ∧
      holes (c.advance data n).reply = holes c.reply := by
  obtain ⟨hsound, hpieces, hlength, hholes⟩ := h.dropFirst hfirst
  have hlt : c.sentlen < data.length := by
    have hpos := List.length_pos_iff.mpr hdata
    have hsentlen := h.sentlen
    omega
  unfold ReplyBuffer.advance
  split_ifs with hall
  · refine ⟨hsound, ?_, hholes⟩
    have hwhole : (data.drop c.sentlen).take n = data.drop c.sentlen := by
      apply List.take_of_length_le
      rw [List.length_drop]
      omega
    have hle : c.sentlen ≤ (data.map Piece.byte).length := by
      rw [List.length_map]
      omega
    unfold pending
    rw [hpieces, hwhole, List.drop_append_of_le_length hle, List.map_drop]
    rfl
  · refine ⟨⟨.inr ?_, h.buf, h.nodup, h.fresh, h.writable⟩, ?_, rfl⟩
    · change c.sentlen + n < c.firstLength
      omega
    · have hle : n ≤ ((data.map Piece.byte).drop c.sentlen).length := by
        rw [List.length_drop, List.length_map]
        omega
      have hbytes : ((data.drop c.sentlen).take n).map Piece.byte =
          (c.pieces.drop c.sentlen).take n := by
        have hle' : c.sentlen ≤ (data.map Piece.byte).length := by
          rw [List.length_map]
          omega
        rw [hpieces, List.drop_append_of_le_length hle', List.take_append_of_le_length hle,
          List.map_take, List.map_drop]
      unfold pending
      change _ = _ ++ c.pieces.drop (c.sentlen + n)
      rw [hbytes, ← List.drop_drop, List.take_append_drop]

theorem advance_fresh (c : ReplyBuffer) (data : Bytes) (n : ℕ) :
    (c.advance data n).fresh = c.fresh ∧
      (c.advance data n).closeAfterReply = c.closeAfterReply := by
  obtain ⟨hfresh, hclose, -⟩ := c.dropFirst_fresh
  unfold advance
  split_ifs
  · exact ⟨hfresh, hclose⟩
  · exact ⟨rfl, rfl⟩

theorem WriteResult.count_le (w : WriteResult) (len : ℕ) : w.count len ≤ len := by
  cases w with
  | wrote n => exact Nat.min_le_right _ _
  | again => exact Nat.zero_le _
  | failed => exact Nat.zero_le _

/-- The turns of the loop send what is pending, in order. -/
theorem Sound.sendLoop {c : ReplyBuffer} (h : Sound c) (lowMemory : Bool) (ws : List WriteResult)
    (totwritten : ℕ) {r : ReplyBuffer × Bytes × Bool}
    (hrun : ReplyBuffer.sendLoop lowMemory ws totwritten c = some r) :
    Sound r.1 ∧ r.1.fresh = c.fresh ∧ r.1.closeAfterReply = c.closeAfterReply ∧
      c.pending = r.2.1.map .byte ++ r.1.pending := by
  induction ws generalizing c totwritten r with
  | nil =>
    obtain rfl := Option.some.inj hrun
    exact ⟨h, rfl, rfl, rfl⟩
  | cons w ws ih =>
    unfold ReplyBuffer.sendLoop at hrun
    cases hfirst : c.first with
    | none =>
      simp only [hfirst] at hrun
      obtain rfl := Option.some.inj hrun
      exact ⟨h, rfl, rfl, rfl⟩
    | some n =>
      cases n with
      | deferred node => simp [hfirst] at hrun
      | str data =>
        simp only [hfirst] at hrun
        by_cases hdata : data = []
        · obtain ⟨hsound, hpieces, hlength, -⟩ := h.dropFirst hfirst
          obtain ⟨hfresh, hclose, hsentlen⟩ := c.dropFirst_fresh
          have hzero : c.sentlen = 0 := by
            have hlt := h.sentlen
            rw [hlength, hdata] at hlt
            simpa using hlt
          have hdrop : { c.dropFirst with sentlen := 0 } = c.dropFirst := by
            rw [← hzero, ← hsentlen]
          rw [hdrop] at hsound
          rw [hdata, List.isEmpty_nil, if_pos rfl] at hrun
          obtain ⟨hdone, hfresh', hclose', hpending⟩ := ih hsound totwritten hrun
          refine ⟨hdone, hfresh'.trans hfresh, hclose'.trans hclose, ?_⟩
          rw [← hpending]
          unfold pending
          rw [hpieces, hdata, hsentlen]
          rfl
        · rw [if_neg (by rwa [List.isEmpty_iff])] at hrun
          split_ifs at hrun with hzero hmax
          · obtain rfl := Option.some.inj hrun
            exact ⟨h, rfl, rfl, rfl⟩
          · obtain rfl := Option.some.inj hrun
            obtain ⟨hsound, hpending, -⟩ := h.advance hfirst (WriteResult.count_le w _) hdata
            exact ⟨hsound, (advance_fresh _ _ _).1, (advance_fresh _ _ _).2, hpending⟩
          · obtain ⟨r', hr', rfl⟩ := Option.map_eq_some_iff.mp hrun
            obtain ⟨hsound, hpending, -⟩ := h.advance hfirst (WriteResult.count_le w _) hdata
            obtain ⟨hdone, hfresh, hclose, hrest⟩ := ih hsound _ hr'
            obtain ⟨hfresh', hclose'⟩ := advance_fresh c data (w.count (data.length - c.sentlen))
            refine ⟨hdone, hfresh.trans hfresh', hclose.trans hclose', ?_⟩
            rw [hpending, hrest, List.map_append, List.append_assoc]

theorem holes_eq_nil_iff {ns : List ReplyNode} : holes ns = [] ↔ ns.all ReplyNode.isStr = true := by
  induction ns with
  | nil => simp [holes]
  | cons n ns ih =>
    cases n with
    | str s =>
      unfold holes at ih ⊢
      simpa [ReplyNode.isStr] using ih
    | deferred node => simp [holes, ReplyNode.isStr]

/-- A length that is not known is still pending. -/
theorem Sound.mem_pending {c : ReplyBuffer} (h : Sound c) {node : ℕ}
    (hnode : node ∈ holes c.reply) : .length node ∈ c.pending := by
  obtain ⟨out, hout⟩ := h.take_sentlen
  have hmem : .length node ∈ c.pieces := by
    obtain ⟨n, hn, hhole⟩ := List.mem_filterMap.mp hnode
    cases n with
    | str s => cases hhole
    | deferred node' =>
      obtain rfl := Option.some.inj hhole
      exact List.mem_append_right _ (List.mem_flatMap.mpr ⟨_, hn, List.mem_singleton_self _⟩)
  rw [← List.take_append_drop c.sentlen c.pieces, hout] at hmem
  rcases List.mem_append.mp hmem with hsent | hpending
  · obtain ⟨b, -, hb⟩ := List.mem_map.mp hsent
    cases hb
  · exact hpending

/-- Only a length that is not known stops the loop. -/
theorem Sound.exists_sendLoop {c : ReplyBuffer} (h : Sound c) (hholes : holes c.reply = [])
    (lowMemory : Bool) (ws : List WriteResult) (totwritten : ℕ) :
    ∃ r, ReplyBuffer.sendLoop lowMemory ws totwritten c = some r := by
  induction ws generalizing c totwritten with
  | nil => exact ⟨_, rfl⟩
  | cons w ws ih =>
    unfold ReplyBuffer.sendLoop
    cases hfirst : c.first with
    | none => exact ⟨_, rfl⟩
    | some n =>
      cases n with
      | deferred node =>
        have hreply : c.reply.head? = some (.deferred node) := by
          unfold first at hfirst
          split_ifs at hfirst
          · exact hfirst
          · cases hfirst
        obtain ⟨ns, hns⟩ := List.head?_eq_some_iff.mp hreply
        rw [hns] at hholes
        cases hholes
      | str data =>
        simp only
        split_ifs with hdata hzero
        · rw [List.isEmpty_iff] at hdata
          obtain ⟨hsound, -, hlength, hsame⟩ := h.dropFirst hfirst
          have hzero : c.dropFirst.sentlen = 0 := by
            have hlt := h.sentlen
            rw [hlength, hdata] at hlt
            rw [c.dropFirst_fresh.2.2]
            simpa using hlt
          have hdrop : { c.dropFirst with sentlen := 0 } = c.dropFirst := by rw [← hzero]
          rw [hdrop] at hsound
          exact ih hsound (hsame.trans hholes) totwritten
        · exact ⟨_, rfl⟩
        · exact ⟨_, rfl⟩
        · rw [List.isEmpty_iff] at hdata
          obtain ⟨hsound, -, hsame⟩ := h.advance hfirst (WriteResult.count_le w _) hdata
          obtain ⟨r, hr⟩ := ih hsound (hsame.trans hholes)
            (totwritten + w.count (data.length - c.sentlen))
          exact ⟨_, by rw [hr]; rfl⟩

/-- What a call sends; the connection is closed when nothing is left. -/
theorem Sound.sendReplyToClient {c : ReplyBuffer} (h : Sound c) {lowMemory : Bool}
    {ws : List WriteResult} {r : ReplyBuffer × Bytes × Fate}
    (hrun : c.sendReplyToClient lowMemory ws = some r) :
    Sound r.1 ∧ r.1.fresh = c.fresh ∧ r.1.closeAfterReply = c.closeAfterReply ∧
      c.pending = r.2.1.map .byte ++ r.1.pending ∧
      (r.2.2 = .closed → c.closeAfterReply = true ∧ r.1.pending = []) := by
  obtain ⟨⟨c', out, failed⟩, hloop, rfl⟩ := Option.map_eq_some_iff.mp hrun
  obtain ⟨hsound, hfresh, hclose, hpending⟩ := h.sendLoop lowMemory ws 0 hloop
  simp only at hsound hfresh hclose hpending ⊢
  cases failed with
  | true => exact ⟨hsound, hfresh, hclose, hpending, by simp⟩
  | false =>
    by_cases hempty : (c'.buf.isEmpty && c'.reply.isEmpty) = true
    · simp only [Bool.false_eq_true, if_false, if_pos hempty]
      rw [Bool.and_eq_true, List.isEmpty_iff, List.isEmpty_iff] at hempty
      have hnothing : c'.pieces = [] := by
        unfold pieces
        rw [hempty.1, hempty.2]
        rfl
      have hnone : c'.pending = [] := by
        unfold pending
        rw [hnothing, List.drop_nil]
      refine ⟨⟨.inl rfl, hsound.buf, hsound.nodup, hsound.fresh, ?_⟩, hfresh, hclose, ?_, ?_⟩
      · rintro (hbuf | hreply)
        · exact absurd hempty.1 hbuf
        · exact absurd hempty.2 hreply
      · rw [hpending, hnone]
        congr 1
        exact hnothing.symm
      · intro hclosed
        refine ⟨?_, hnothing⟩
        rw [← hclose]
        by_contra hopen
        rw [if_neg hopen] at hclosed
        cases hclosed
    · simp only [Bool.false_eq_true, if_false, if_neg hempty]
      exact ⟨hsound, hfresh, hclose, hpending, by simp⟩

end ReplyBuffer

namespace Outgoing

def said (events : List Event) : Said := events.foldl Said.step ⟨[], 0, false⟩

/-- What was sent and what is pending is what was said, in order. -/
structure Faithful (o : Outgoing) (s : Said) : Prop where
  sound : o.c.Sound
  fresh : o.c.fresh = s.fresh
  closeAfterReply : o.c.closeAfterReply = s.closeAfterReply
  pieces : o.sent.map .byte ++ o.c.pending = s.pieces
  closed : o.fate = .closed → s.closeAfterReply = true ∧ o.c.pending = []

theorem Faithful.step {o o' : Outgoing} {s : Said} (h : Faithful o s) {e : Event}
    (hstep : step o e = some o') : Faithful o' (s.step e) := by
  unfold Outgoing.step at hstep
  by_cases hlive : o.fate ≠ .live
  · rw [if_pos hlive] at hstep
    cases hstep
  rw [if_neg hlive] at hstep
  rw [ne_eq, not_not] at hlive
  have hclosed : o.fate ≠ .closed := by
    rw [hlive]
    decide
  cases e with
  | addReply str =>
    obtain rfl := Option.some.inj hstep
    obtain ⟨hsound, hfresh, hclose, hpending⟩ := h.sound.addReplyString str
    rw [h.closeAfterReply] at hpending
    unfold Said.step
    split_ifs at hpending ⊢ with hquiet
    · exact ⟨hsound, hfresh.trans h.fresh, hclose.trans h.closeAfterReply,
        by rw [hpending]; exact h.pieces, fun hfate => absurd hfate hclosed⟩
    · refine ⟨hsound, hfresh.trans h.fresh, hclose.trans h.closeAfterReply, ?_,
        fun hfate => absurd hfate hclosed⟩
      rw [hpending, ← List.append_assoc, h.pieces]
  | addDeferredMultiBulkLength =>
    obtain rfl := Option.some.inj hstep
    obtain ⟨hsound, hpending⟩ := h.sound.addDeferredMultiBulkLength
    have hinstall := h.sound.installWriteEvent
    refine ⟨hsound, ?_, ?_, ?_, fun hfate => absurd hfate hclosed⟩
    · simp only [ReplyBuffer.addDeferredMultiBulkLength, hinstall, Said.step, h.fresh]
    · simp only [ReplyBuffer.addDeferredMultiBulkLength, hinstall, Said.step, h.closeAfterReply]
    · rw [hpending, ← List.append_assoc, h.pieces, h.fresh]
      rfl
  | setDeferredMultiBulkLength node length =>
    rw [Option.ite_none_right_eq_some] at hstep
    obtain ⟨-, hstep⟩ := hstep
    obtain rfl := Option.some.inj hstep
    obtain ⟨hsound, hpending⟩ := h.sound.setDeferredMultiBulkLength node length
    refine ⟨hsound, h.fresh, h.closeAfterReply, ?_, fun hfate => absurd hfate hclosed⟩
    change _ = fill node (ReplyBuffer.multiBulkLength length) s.pieces
    rw [hpending, ← h.pieces, ReplyBuffer.fill_append, ReplyBuffer.fill_bytes]
  | closeAfterReply =>
    obtain rfl := Option.some.inj hstep
    obtain ⟨h1, h2, h3, h4, h5⟩ := h.sound
    exact ⟨⟨h1, h2, h3, h4, h5⟩, h.fresh, rfl, h.pieces, fun hfate => absurd hfate hclosed⟩
  | sendReplyToClient lowMemory ws =>
    rw [Option.ite_none_right_eq_some] at hstep
    obtain ⟨-, hstep⟩ := hstep
    obtain ⟨r, hr, rfl⟩ := Option.map_eq_some_iff.mp hstep
    obtain ⟨hsound, hfresh, hclose, hpending, hdone⟩ := h.sound.sendReplyToClient hr
    refine ⟨hsound, hfresh.trans h.fresh, hclose.trans h.closeAfterReply, ?_, fun hfate => ?_⟩
    · unfold Said.step
      rw [← h.pieces, hpending, List.map_append, List.append_assoc]
    · obtain ⟨hquiet, hnone⟩ := hdone hfate
      exact ⟨h.closeAfterReply.symm.trans hquiet, hnone⟩

/-- In every run, what a client was sent is the beginning of what was said to it, the rest is kept,
and the connection is closed only when nothing is left. While the next thing to say is known, the
event loop is waiting to send it. -/
theorem run_said {events : List Event} {o : Outgoing} (hrun : run step create events = some o) :
    Faithful o (said events) ∧
      (o.fate = .live → o.c.pending ≠ [] → (∀ node, .length node ∉ o.c.pending) →
        ∀ lowMemory ws, ∃ o', step o (.sendReplyToClient lowMemory ws) = some o') := by
  have hfaithful : Faithful o (said events) := by
    have hcreate : Faithful create (said []) :=
      ⟨ReplyBuffer.sound_create, rfl, rfl, rfl, by simp [create]⟩
    refine run_induction (P := fun events o => Faithful o (said events)) hcreate ?_ hrun
    intro events e o o' _ hstep ho
    have hsaid : said (events ++ [e]) = (said events).step e := by
      unfold said
      rw [List.foldl_append]
      rfl
    rw [hsaid]
    exact ho.step hstep
  refine ⟨hfaithful, fun hlive hpending hknown lowMemory ws => ?_⟩
  have hsound := hfaithful.sound
  have hsome : o.c.buf ≠ [] ∨ o.c.reply ≠ [] := by
    by_contra hnone
    rw [not_or, not_not, not_not] at hnone
    apply hpending
    unfold ReplyBuffer.pending ReplyBuffer.pieces
    rw [hnone.1, hnone.2]
    exact List.drop_nil
  have hholes : ReplyBuffer.holes o.c.reply = [] := by
    rw [List.eq_nil_iff_forall_not_mem]
    exact fun node hnode => hknown node (hsound.mem_pending hnode)
  obtain ⟨r, hr⟩ := hsound.exists_sendLoop hholes lowMemory ws 0
  unfold step
  rw [if_neg (not_not.mpr hlive)]
  simp only [hsound.writable hsome, ReplyBuffer.holes_eq_nil_iff.mp hholes, Bool.and_self, if_true]
  exact ⟨_, by rw [ReplyBuffer.sendReplyToClient, hr]; rfl⟩

/-- A length that comes after what it counts. -/
theorem run_said_deferred :
    ∃ o, run step create
        [.addReply [43, 13, 10], .addDeferredMultiBulkLength, .addReply [58, 55, 13, 10],
          .setDeferredMultiBulkLength 0 1, .sendReplyToClient false [.wrote 9, .wrote 3]] = some o ∧
      Faithful o (said [.addReply [43, 13, 10], .addDeferredMultiBulkLength,
        .addReply [58, 55, 13, 10], .setDeferredMultiBulkLength 0 1,
        .sendReplyToClient false [.wrote 9, .wrote 3]]) ∧
      (o.fate = .live → o.c.pending ≠ [] → (∀ node, .length node ∉ o.c.pending) →
        ∀ lowMemory ws, ∃ o', step o (.sendReplyToClient lowMemory ws) = some o') := by
  obtain ⟨o, ho⟩ := Option.isSome_iff_exists.mp
    (by decide : (run step create
      [.addReply [43, 13, 10], .addDeferredMultiBulkLength, .addReply [58, 55, 13, 10],
        .setDeferredMultiBulkLength 0 1,
        .sendReplyToClient false [.wrote 9, .wrote 3]]).isSome)
  exact ⟨o, ho, run_said ho⟩

end Outgoing
end GridApps.Redis
