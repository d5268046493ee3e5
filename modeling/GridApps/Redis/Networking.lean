import GridApps.Redis.Numbers
import GridApps.Transition.Resumable

/-! The requests of `networking.c`: how the server takes the commands out of what a client sends. -/
namespace GridApps.Redis
open Numeral Struct Transition

def redisInlineMaxSize : ℕ := 1024 * 64

inductive ProtocolError where
  | tooBigInline
  | tooBigMbulkCount
  | invalidMbulkLength
  | tooBigBulkCount
  | expectedDollar (got : UInt8)
  | invalidBulkLength
  deriving DecidableEq

namespace ProtocolError

def text : ProtocolError → Bytes
  | tooBigInline => ascii "Protocol error: too big inline request".toList
  | tooBigMbulkCount => ascii "Protocol error: too big mbulk count string".toList
  | invalidMbulkLength => ascii "Protocol error: invalid multibulk length".toList
  | tooBigBulkCount => ascii "Protocol error: too big bulk count string".toList
  | expectedDollar got =>
    ascii "Protocol error: expected '$', got '".toList ++ got :: ascii "'".toList
  | invalidBulkLength => ascii "Protocol error: invalid bulk length".toList

/-- Too much was received without the end of a line. -/
def TooBig (e : ProtocolError) : Prop :=
  e = tooBigInline ∨ e = tooBigMbulkCount ∨ e = tooBigBulkCount

end ProtocolError

def addReplyError (e : ProtocolError) : Bytes :=
  ascii "-ERR ".toList ++ e.text ++ ascii ['\r', '\n']

inductive Reqtype where
  | inline
  | multibulk

/-- `argc` is the length of `argv`. -/
structure Client where
  reqtype : Option Reqtype
  multibulklen : ℕ
  bulklen : Option ℕ
  argv : List Bytes
  closeAfterReply : Bool
  blocked : Bool

def createClient : Client := ⟨none, 0, none, [], false, false⟩

def resetClient (c : Client) : Client :=
  { c with reqtype := none, multibulklen := 0, bulklen := none, argv := [] }

/-- A request is there, or more has to come before it is, or an error was replied. With each comes
what is left in the query buffer. -/
inductive Progress where
  | ready (c : Client) (rest : Bytes)
  | pending (c : Client) (rest : Bytes)
  | invalid (e : ProtocolError) (c : Client) (rest : Bytes)

/-- The string ends at a byte that is zero. -/
def strchr (c : UInt8) : Bytes → Option ℕ
  | [] => none
  | b :: s => if b = c then some 0 else if b = 0 then none else (strchr c s).map (· + 1)

/-- `strstr` of the end of a line. -/
def strstrCrlf : Bytes → Option ℕ
  | [] => none
  | b :: s =>
    if b = 13 ∧ s.head? = some 10 then some 0
    else if b = 0 then none
    else (strstrCrlf s).map (· + 1)

/-- The arguments are what is not empty between spaces. -/
def processInlineBuffer (inlineMax : ℕ) (c : Client) (querybuf : Bytes) : Progress :=
  match strstrCrlf querybuf with
  | none => if inlineMax < querybuf.length then .invalid .tooBigInline c querybuf
    else .pending c querybuf
  | some querylen =>
    let argv := (querybuf.take querylen).splitOn 32
    .ready { c with argv := argv.filter fun arg => !arg.isEmpty } (querybuf.drop (querylen + 2))

/-- The length of the next argument, unless it is known, and what is behind it. `sdslen` is the
length of the whole query buffer, also of what was read in the same call. -/
def bulkHeader (inlineMax sdslen : ℕ) (c : Client) (rest : Bytes) : Except Progress (ℕ × Bytes) :=
  match c.bulklen with
  | some bulklen => .ok (bulklen, rest)
  | none =>
    match strchr 13 rest with
    | none => .error (if inlineMax < sdslen then .invalid .tooBigBulkCount c rest
        else .pending c rest)
    | some newline =>
      if rest.length < newline + 2 then .error (.pending c rest)
      else if rest.head? ≠ some 36 then
        .error (.invalid (.expectedDollar (rest.headD 0)) c rest)
      else
        match string2ll ((rest.take newline).drop 1) with
        | none => .error (.invalid .invalidBulkLength c rest)
        | some ll =>
          if ll < 0 ∨ 512 * 1024 * 1024 < ll then .error (.invalid .invalidBulkLength c rest)
          else .ok (ll.toNat, rest.drop (newline + 2))

/-- `while(c->multibulklen)`. -/
def readBulks (inlineMax sdslen : ℕ) : ℕ → Client → Bytes → Progress
  | 0, c, rest => .ready c rest
  | n + 1, c, rest =>
    match bulkHeader inlineMax sdslen c rest with
    | .error p => p
    | .ok (bulklen, rest) =>
      if rest.length < bulklen + 2 then .pending { c with bulklen := some bulklen } rest
      else readBulks inlineMax sdslen n
        { c with argv := c.argv ++ [rest.take bulklen], bulklen := none, multibulklen := n }
        (rest.drop (bulklen + 2))

/-- The number of arguments, and what is behind it; `none` is a failed assertion. -/
def multibulkHeader (inlineMax : ℕ) (c : Client) (querybuf : Bytes) :
    Option (Except Progress (ℤ × Bytes)) :=
  if c.argv ≠ [] then none
  else
    match strchr 13 querybuf with
    | none => some (.error (if inlineMax < querybuf.length then
        .invalid .tooBigMbulkCount c querybuf else .pending c querybuf))
    | some newline =>
      if querybuf.length < newline + 2 then some (.error (.pending c querybuf))
      else if querybuf.head? ≠ some 42 then none
      else
        match string2ll ((querybuf.take newline).drop 1) with
        | none => some (.error (.invalid .invalidMbulkLength c querybuf))
        | some ll =>
          if 1024 * 1024 < ll then some (.error (.invalid .invalidMbulkLength c querybuf))
          else some (.ok (ll, querybuf.drop (newline + 2)))

/-- A number of arguments that is not positive makes an empty request. -/
def processMultibulkBuffer (inlineMax : ℕ) (c : Client) (querybuf : Bytes) : Option Progress :=
  if c.multibulklen = 0 then
    (multibulkHeader inlineMax c querybuf).map fun
      | .error p => p
      | .ok (ll, rest) =>
        if ll ≤ 0 then .ready c rest
        else readBulks inlineMax querybuf.length ll.toNat { c with multibulklen := ll.toNat } rest
  else some (readBulks inlineMax querybuf.length c.multibulklen c querybuf)

/-- `ok` with whether the client blocks, or `QUIT`. -/
inductive Outcome where
  | ok (blocks : Bool)
  | quit

inductive Output where
  | error (e : ProtocolError)
  | reply (bytes : Bytes)

def Output.bytes : Output → Bytes
  | error e => addReplyError e
  | reply bytes => bytes

/-- A client, what it was sent, and the server behind it. -/
structure Session (Server : Type) where
  server : Server
  client : Client
  output : List Output

namespace Session

variable {Server : Type} (processCommand : Server → List Bytes → Server × Bytes × Outcome)

/-- Only an executed command resets the client. -/
def execute (s : Session Server) : Session Server :=
  if s.client.argv.isEmpty then { s with client := resetClient s.client }
  else
    let (server, reply, outcome) := processCommand s.server s.client.argv
    { server := server
      client := match outcome with
        | .ok blocks => { resetClient s.client with blocked := blocks }
        | .quit => { s.client with closeAfterReply := true }
      output := s.output ++ [.reply reply] }

def advance (s : Session Server) : Progress → Turn (Session Server) UInt8
  | .ready c rest => .next (execute processCommand { s with client := c }) rest
  | .pending c rest => .wait { s with client := c } rest
  | .invalid e c rest =>
    .wait { s with client := { c with closeAfterReply := true }, output := s.output ++ [.error e] }
      rest

/-- The type of a request is known from its first byte. -/
def typeOf (c : Client) (querybuf : Bytes) : Reqtype :=
  c.reqtype.getD (if querybuf.head? = some 42 then .multibulk else .inline)

def parse (inlineMax : ℕ) (c : Client) (querybuf : Bytes) : Reqtype → Option Progress
  | .inline => some (processInlineBuffer inlineMax c querybuf)
  | .multibulk => processMultibulkBuffer inlineMax c querybuf

/-- One turn of the loop of `processInputBuffer`. -/
def turn (inlineMax : ℕ) (s : Session Server) (querybuf : Bytes) :
    Option (Turn (Session Server) UInt8) :=
  if querybuf.isEmpty || s.client.blocked || s.client.closeAfterReply then some (.wait s querybuf)
  else
    let reqtype := typeOf s.client querybuf
    (parse inlineMax { s.client with reqtype := some reqtype } querybuf reqtype).map
      (s.advance processCommand)

/-- A read from the client, or the reply to what it is blocked for. -/
inductive Event where
  | read (bytes : Bytes)
  | unblock (reply : Bytes)

/-- A client that is not blocked any more. -/
def unblocked (s : Session Server) (reply : Bytes) : Session Server :=
  { s with client := { s.client with blocked := false }, output := s.output ++ [.reply reply] }

/-- Both end in `processInputBuffer`; only a blocked client is unblocked. -/
def step (inlineMax : ℕ) (c : Session Server × Bytes) : Event → Option (Session Server × Bytes)
  | .read bytes => feed (turn processCommand inlineMax) c bytes
  | .unblock reply =>
    if c.1.client.blocked then work (turn processCommand inlineMax) (c.1.unblocked reply) c.2
    else none

def create (server : Server) : Session Server := ⟨server, createClient, []⟩

end Session

namespace Progress

def client : Progress → Client
  | ready c _ => c
  | pending c _ => c
  | invalid _ c _ => c

def rest : Progress → Bytes
  | ready _ rest => rest
  | pending _ rest => rest
  | invalid _ _ rest => rest

/-- Where more input leads: a request that is there stays, one that is not is gone on with. -/
def more (bytes : Bytes) (resume : Client → Bytes → Option Progress) : Progress → Option Progress
  | ready c rest => some (ready c (rest ++ bytes))
  | pending c rest => resume c (rest ++ bytes)
  | invalid e c rest => some (invalid e c (rest ++ bytes))

end Progress

theorem strchr_lt {c : UInt8} {s : Bytes} {i : ℕ} (h : strchr c s = some i) : i < s.length := by
  induction s generalizing i with
  | nil => simp [strchr] at h
  | cons b s ih =>
    unfold strchr at h
    split_ifs at h
    · obtain rfl := Option.some.inj h
      exact Nat.succ_pos _
    · obtain ⟨j, hj, rfl⟩ := Option.map_eq_some_iff.mp h
      exact Nat.succ_lt_succ (ih hj)

theorem strchr_append {c : UInt8} {s : Bytes} {i : ℕ} (h : strchr c s = some i) (t : Bytes) :
    strchr c (s ++ t) = some i := by
  induction s generalizing i with
  | nil => simp [strchr] at h
  | cons b s ih =>
    unfold strchr at h
    rw [List.cons_append, strchr]
    split_ifs at h ⊢
    · exact h
    · obtain ⟨j, hj, rfl⟩ := Option.map_eq_some_iff.mp h
      rw [ih hj]
      rfl

theorem strstrCrlf_lt {s : Bytes} {i : ℕ} (h : strstrCrlf s = some i) : i + 2 ≤ s.length := by
  induction s generalizing i with
  | nil => simp [strstrCrlf] at h
  | cons b s ih =>
    unfold strstrCrlf at h
    split_ifs at h with hcrlf
    · obtain rfl := Option.some.inj h
      cases s with
      | nil => simp at hcrlf
      | cons b' s => simp
    · obtain ⟨j, hj, rfl⟩ := Option.map_eq_some_iff.mp h
      have hlt := ih hj
      simp only [List.length_cons]
      omega

theorem strstrCrlf_append {s : Bytes} {i : ℕ} (h : strstrCrlf s = some i) (t : Bytes) :
    strstrCrlf (s ++ t) = some i := by
  induction s generalizing i with
  | nil => simp [strstrCrlf] at h
  | cons b s ih =>
    unfold strstrCrlf at h
    rw [List.cons_append, strstrCrlf]
    cases s with
    | nil =>
      rw [if_neg (by simp)] at h
      split_ifs at h
      simp [strstrCrlf] at h
    | cons b' s =>
      rw [List.cons_append, List.head?_cons]
      rw [List.head?_cons] at h
      split_ifs at h ⊢
      · exact h
      · obtain ⟨j, hj, rfl⟩ := Option.map_eq_some_iff.mp h
        rw [← List.cons_append, ih hj]
        rfl

theorem processInlineBuffer_more {inlineMax : ℕ} {c : Client} {querybuf bytes : Bytes}
    (hfits : (querybuf ++ bytes).length ≤ inlineMax) :
    some (processInlineBuffer inlineMax c (querybuf ++ bytes)) =
      (processInlineBuffer inlineMax c querybuf).more bytes fun c rest =>
        some (processInlineBuffer inlineMax c rest) := by
  rw [List.length_append] at hfits
  unfold processInlineBuffer
  cases hline : strstrCrlf querybuf with
  | none =>
    simp only [if_neg (by omega : ¬ inlineMax < querybuf.length)]
    rfl
  | some querylen =>
    have hlt := strstrCrlf_lt hline
    rw [strstrCrlf_append hline]
    simp only [Progress.more, List.take_append_of_le_length (by omega : querylen ≤ querybuf.length),
      List.drop_append_of_le_length hlt]

theorem readBulks_fits {inlineMax sdslen : ℕ} (h : sdslen ≤ inlineMax) (n : ℕ) (c : Client)
    (rest : Bytes) : readBulks inlineMax sdslen n c rest = readBulks inlineMax 0 n c rest := by
  have hheader (c : Client) (rest : Bytes) :
      bulkHeader inlineMax sdslen c rest = bulkHeader inlineMax 0 c rest := by
    unfold bulkHeader
    rw [if_neg (by omega : ¬ inlineMax < sdslen), if_neg (Nat.not_lt_zero inlineMax)]
  induction n generalizing c rest with
  | zero => rfl
  | succ n ih =>
    unfold readBulks
    simp only [hheader, ih]

/-- Whether a header is there is known as soon as its line is. -/
theorem bulkHeader_more (inlineMax : ℕ) (c : Client) (rest bytes : Bytes) :
    match bulkHeader inlineMax 0 c rest with
    | .ok r => bulkHeader inlineMax 0 c (rest ++ bytes) = .ok (r.1, r.2 ++ bytes)
    | .error (.ready _ _) => False
    | .error (.pending c' rest') => c' = c ∧ rest' = rest
    | .error (.invalid e c' rest') => c' = c ∧ rest' = rest ∧
      bulkHeader inlineMax 0 c (rest ++ bytes) = .error (.invalid e c (rest ++ bytes)) := by
  unfold bulkHeader
  cases hlen : c.bulklen with
  | some bulklen => simp only
  | none =>
    cases hline : strchr 13 rest with
    | none => simp
    | some newline =>
      have hlt := strchr_lt hline
      by_cases hshort : rest.length < newline + 2
      · simp [hshort]
      · obtain ⟨b, tail, rfl⟩ := List.exists_cons_of_length_pos (by omega : 0 < rest.length)
        have hlong : ¬ (b :: tail ++ bytes).length < newline + 2 := by
          rw [List.length_append]
          omega
        have htake : (b :: tail ++ bytes).take newline = (b :: tail).take newline :=
          List.take_append_of_le_length (by omega)
        have hdrop : (b :: tail ++ bytes).drop (newline + 2) =
            (b :: tail).drop (newline + 2) ++ bytes :=
          List.drop_append_of_le_length (by omega)
        have hhead : (b :: tail ++ bytes).head? = (b :: tail).head? := rfl
        have hheadD : (b :: tail ++ bytes).headD 0 = (b :: tail).headD 0 := rfl
        simp only [strchr_append hline, if_neg hshort, if_neg hlong, htake, hdrop, hhead, hheadD]
        by_cases hdollar : (b :: tail).head? ≠ some 36
        · simp only [if_pos hdollar, and_self]
        · simp only [if_neg hdollar]
          cases string2ll (((b :: tail).take newline).drop 1) with
          | none => simp only [and_self]
          | some ll =>
            by_cases hrange : ll < 0 ∨ 512 * 1024 * 1024 < ll
            · simp only [if_pos hrange, and_self]
            · simp only [if_neg hrange]

/-- A loop that waited is gone on with. -/
def resumeBulks (inlineMax : ℕ) (c : Client) (rest : Bytes) : Option Progress :=
  some (readBulks inlineMax 0 c.multibulklen c rest)

theorem readBulks_more (inlineMax n : ℕ) {c : Client} (hc : c.multibulklen = n)
    (rest bytes : Bytes) :
    some (readBulks inlineMax 0 n c (rest ++ bytes)) =
      (readBulks inlineMax 0 n c rest).more bytes (resumeBulks inlineMax) := by
  induction n generalizing c rest with
  | zero => rfl
  | succ n ih =>
    have hheader := bulkHeader_more inlineMax c rest bytes
    unfold readBulks
    cases hr : bulkHeader inlineMax 0 c rest with
    | error p =>
      rw [hr] at hheader
      cases p with
      | ready c' rest' => exact hheader.elim
      | pending c' rest' =>
        obtain ⟨rfl, rfl⟩ := hheader
        simp only [Progress.more, resumeBulks, hc, readBulks]
      | invalid e c' rest' =>
        obtain ⟨rfl, rfl, hmore⟩ := hheader
        simp only [Progress.more, hmore]
    | ok r =>
      rw [hr] at hheader
      simp only at hheader
      simp only [hheader]
      by_cases hshort : r.2.length < r.1 + 2
      · rw [if_pos hshort]
        simp only [Progress.more, resumeBulks, hc, readBulks, bulkHeader]
      · have hlong : ¬ (r.2 ++ bytes).length < r.1 + 2 := by
          rw [List.length_append]
          omega
        rw [if_neg hshort, if_neg hlong, List.take_append_of_le_length (by omega),
          List.drop_append_of_le_length (by omega)]
        apply ih
        rfl

/-- What parsing leaves of a client, and of the input. -/
structure Progress.From (c : Client) (buf : Bytes) (p : Progress) : Prop where
  reqtype : p.client.reqtype = c.reqtype
  closeAfterReply : p.client.closeAfterReply = c.closeAfterReply
  blocked : p.client.blocked = c.blocked
  le : p.rest.length ≤ buf.length

theorem bulkHeader_rest (inlineMax sdslen : ℕ) (c : Client) (rest : Bytes) :
    (∀ r, bulkHeader inlineMax sdslen c rest = .ok r → r.2.length ≤ rest.length) ∧
      ∀ p, bulkHeader inlineMax sdslen c rest = .error p →
        p.client = c ∧ p.rest = rest ∧ ∀ c' rest', p ≠ .ready c' rest' := by
  unfold bulkHeader
  cases c.bulklen with
  | some bulklen => simp
  | none =>
    cases strchr 13 rest with
    | none =>
      simp only [reduceCtorEq, false_implies, implies_true, Except.error.injEq, forall_eq',
        true_and]
      split_ifs <;> simp [Progress.client, Progress.rest]
    | some newline =>
      simp only
      split_ifs
      · simp [Progress.client, Progress.rest]
      · simp [Progress.client, Progress.rest]
      · cases string2ll ((rest.take newline).drop 1) with
        | none => simp [Progress.client, Progress.rest]
        | some ll =>
          simp only
          split_ifs
          · simp [Progress.client, Progress.rest]
          · simp

theorem readBulks_from (inlineMax sdslen n : ℕ) (c : Client) (rest : Bytes) :
    Progress.From c rest (readBulks inlineMax sdslen n c rest) := by
  induction n generalizing c rest with
  | zero => exact ⟨rfl, rfl, rfl, le_rfl⟩
  | succ n ih =>
    obtain ⟨hok, herror⟩ := bulkHeader_rest inlineMax sdslen c rest
    unfold readBulks
    cases hr : bulkHeader inlineMax sdslen c rest with
    | error p =>
      obtain ⟨hclient, hrest, -⟩ := herror p hr
      exact ⟨by rw [hclient], by rw [hclient], by rw [hclient], by rw [hrest]⟩
    | ok r =>
      have hle := hok r hr
      simp only
      split_ifs
      · exact ⟨rfl, rfl, rfl, hle⟩
      · obtain ⟨h1, h2, h3, h4⟩ := ih { c with
          argv := c.argv ++ [r.2.take r.1], bulklen := none, multibulklen := n }
          (r.2.drop (r.1 + 2))
        refine ⟨h1, h2, h3, h4.trans ?_⟩
        rw [List.length_drop]
        omega

/-- An argument takes at least the end of its line. -/
theorem readBulks_ready {inlineMax sdslen n : ℕ} {c c' : Client} {rest rest' : Bytes} (hn : n ≠ 0)
    (h : readBulks inlineMax sdslen n c rest = .ready c' rest') : rest'.length < rest.length := by
  obtain ⟨n, rfl⟩ := Nat.exists_eq_succ_of_ne_zero hn
  obtain ⟨hok, herror⟩ := bulkHeader_rest inlineMax sdslen c rest
  unfold readBulks at h
  cases hr : bulkHeader inlineMax sdslen c rest with
  | error p =>
    simp only [hr] at h
    exact absurd h ((herror p hr).2.2 c' rest')
  | ok r =>
    have hle := hok r hr
    simp only [hr] at h
    split_ifs at h with hshort
    have hfrom := readBulks_from inlineMax sdslen n { c with
      argv := c.argv ++ [r.2.take r.1], bulklen := none, multibulklen := n } (r.2.drop (r.1 + 2))
    rw [h] at hfrom
    have hrest := hfrom.le
    rw [List.length_drop] at hrest
    simp only [Progress.rest] at hrest
    omega

theorem readBulks_pending {inlineMax sdslen n : ℕ} {c c' : Client} {rest rest' : Bytes}
    (hc : c.multibulklen = n) (h : readBulks inlineMax sdslen n c rest = .pending c' rest') :
    c'.multibulklen ≠ 0 := by
  induction n generalizing c rest with
  | zero => cases h
  | succ n ih =>
    obtain ⟨-, herror⟩ := bulkHeader_rest inlineMax sdslen c rest
    unfold readBulks at h
    cases hr : bulkHeader inlineMax sdslen c rest with
    | error p =>
      simp only [hr] at h
      obtain ⟨hclient, -, -⟩ := herror p hr
      rw [h] at hclient
      obtain rfl : c' = c := hclient
      omega
    | ok r =>
      simp only [hr] at h
      split_ifs at h
      · obtain ⟨rfl, -⟩ := Progress.pending.inj h
        simp only
        omega
      · exact ih rfl h

theorem processMultibulkBuffer_resume {inlineMax : ℕ} {c : Client} {querybuf : Bytes}
    (hfits : querybuf.length ≤ inlineMax) (hc : c.multibulklen ≠ 0) :
    processMultibulkBuffer inlineMax c querybuf = resumeBulks inlineMax c querybuf := by
  unfold processMultibulkBuffer resumeBulks
  rw [if_neg hc, readBulks_fits hfits]

theorem Progress.more_congr {p : Progress} {bytes : Bytes}
    {resume resume' : Client → Bytes → Option Progress}
    (h : ∀ c rest, p = .pending c rest → resume c (rest ++ bytes) = resume' c (rest ++ bytes)) :
    p.more bytes resume = p.more bytes resume' := by
  cases p with
  | ready c rest => rfl
  | pending c rest => exact h c rest rfl
  | invalid e c rest => rfl

theorem readBulks_more_multibulk {inlineMax sdslen n : ℕ} {c : Client} (hc : c.multibulklen = n)
    (hsdslen : sdslen ≤ inlineMax) {rest bytes : Bytes} {sdslen' : ℕ}
    (hsdslen' : sdslen' ≤ inlineMax) (hfits : (rest ++ bytes).length ≤ inlineMax) :
    some (readBulks inlineMax sdslen' n c (rest ++ bytes)) =
      (readBulks inlineMax sdslen n c rest).more bytes (processMultibulkBuffer inlineMax) := by
  rw [readBulks_fits hsdslen, readBulks_fits hsdslen', readBulks_more inlineMax n hc]
  apply Progress.more_congr
  intro c' rest' hpending
  have hle := (readBulks_from inlineMax 0 n c rest).le
  rw [hpending] at hle
  have hfits' : (rest' ++ bytes).length ≤ inlineMax := by
    apply le_trans _ hfits
    rw [List.length_append, List.length_append]
    exact Nat.add_le_add_right hle _
  exact (processMultibulkBuffer_resume hfits' (readBulks_pending hc hpending)).symm

theorem multibulkHeader_rest (inlineMax : ℕ) (c : Client) (querybuf : Bytes) :
    (∀ r, multibulkHeader inlineMax c querybuf = some (.ok r) → r.2.length < querybuf.length) ∧
      ∀ p, multibulkHeader inlineMax c querybuf = some (.error p) →
        p.client = c ∧ p.rest = querybuf ∧ ∀ c' rest', p ≠ .ready c' rest' := by
  unfold multibulkHeader
  by_cases hargv : c.argv ≠ []
  · simp [hargv]
  · simp only [if_neg hargv]
    cases strchr 13 querybuf with
    | none =>
      simp only [Option.some_inj, reduceCtorEq, false_implies, implies_true, Except.error.injEq,
        forall_eq', true_and]
      split_ifs <;> simp [Progress.client, Progress.rest]
    | some newline =>
      simp only
      split_ifs with hshort hstar
      · simp [Progress.client, Progress.rest]
      · simp
      · cases string2ll ((querybuf.take newline).drop 1) with
        | none => simp [Progress.client, Progress.rest]
        | some ll =>
          simp only
          split_ifs
          · simp [Progress.client, Progress.rest]
          · simp only [Option.some_inj, Except.ok.injEq, forall_eq', List.length_drop, reduceCtorEq,
              false_implies, implies_true, and_true]
            omega

theorem multibulkHeader_more {inlineMax : ℕ} (c : Client) {querybuf : Bytes} (bytes : Bytes)
    (hfits : querybuf.length ≤ inlineMax) :
    match multibulkHeader inlineMax c querybuf with
    | none => multibulkHeader inlineMax c (querybuf ++ bytes) = none
    | some (.ok r) =>
      multibulkHeader inlineMax c (querybuf ++ bytes) = some (.ok (r.1, r.2 ++ bytes))
    | some (.error (.ready _ _)) => False
    | some (.error (.pending c' rest)) => c' = c ∧ rest = querybuf
    | some (.error (.invalid e c' rest)) => c' = c ∧ rest = querybuf ∧
      multibulkHeader inlineMax c (querybuf ++ bytes) =
        some (.error (.invalid e c (querybuf ++ bytes))) := by
  unfold multibulkHeader
  by_cases hargv : c.argv ≠ []
  · simp only [if_pos hargv]
  · simp only [if_neg hargv]
    cases hline : strchr 13 querybuf with
    | none => simp [if_neg (by omega : ¬ inlineMax < querybuf.length)]
    | some newline =>
      have hlt := strchr_lt hline
      by_cases hshort : querybuf.length < newline + 2
      · simp [hshort]
      · obtain ⟨b, tail, rfl⟩ := List.exists_cons_of_length_pos (by omega : 0 < querybuf.length)
        have hlong : ¬ (b :: tail ++ bytes).length < newline + 2 := by
          rw [List.length_append]
          omega
        have htake : (b :: tail ++ bytes).take newline = (b :: tail).take newline :=
          List.take_append_of_le_length (by omega)
        have hdrop : (b :: tail ++ bytes).drop (newline + 2) =
            (b :: tail).drop (newline + 2) ++ bytes :=
          List.drop_append_of_le_length (by omega)
        have hhead : (b :: tail ++ bytes).head? = (b :: tail).head? := rfl
        simp only [strchr_append hline, if_neg hshort, if_neg hlong, htake, hdrop, hhead]
        by_cases hstar : (b :: tail).head? ≠ some 42
        · simp only [if_pos hstar]
        · simp only [if_neg hstar]
          cases string2ll (((b :: tail).take newline).drop 1) with
          | none => simp only [and_self]
          | some ll =>
            by_cases hbig : 1024 * 1024 < ll
            · simp only [if_pos hbig, and_self]
            · simp only [if_neg hbig]

theorem processMultibulkBuffer_more {inlineMax : ℕ} (c : Client) {querybuf bytes : Bytes}
    (hfits : (querybuf ++ bytes).length ≤ inlineMax) :
    processMultibulkBuffer inlineMax c (querybuf ++ bytes) =
      (processMultibulkBuffer inlineMax c querybuf).bind fun p =>
        p.more bytes (processMultibulkBuffer inlineMax) := by
  have hfits' : querybuf.length ≤ inlineMax := by
    rw [List.length_append] at hfits
    omega
  by_cases hlen : c.multibulklen = 0
  · have hheader := multibulkHeader_more c bytes hfits'
    rw [processMultibulkBuffer, processMultibulkBuffer, if_pos hlen, if_pos hlen]
    cases hr : multibulkHeader inlineMax c querybuf with
    | none =>
      rw [hr] at hheader
      rw [hheader]
      rfl
    | some r =>
      rw [hr] at hheader
      cases r with
      | error p =>
        cases p with
        | ready c' rest => exact hheader.elim
        | pending c' rest =>
          obtain ⟨rfl, rfl⟩ := hheader
          rw [Option.map_some, Option.bind_some, Progress.more, processMultibulkBuffer, if_pos hlen]
        | invalid e c' rest =>
          obtain ⟨rfl, rfl, hmore⟩ := hheader
          rw [hmore]
          rfl
      | ok r =>
        have hlt := (multibulkHeader_rest inlineMax c querybuf).1 r hr
        have hmore : multibulkHeader inlineMax c (querybuf ++ bytes) =
            some (.ok (r.1, r.2 ++ bytes)) := hheader
        rw [hmore, Option.map_some, Option.map_some, Option.bind_some]
        by_cases hzero : r.1 ≤ 0
        · simp only [if_pos hzero, Progress.more]
        · simp only [if_neg hzero]
          refine readBulks_more_multibulk ?_ hfits' hfits ?_
          · rfl
          · rw [List.length_append] at hfits ⊢
            omega
  · rw [processMultibulkBuffer, processMultibulkBuffer, if_neg hlen, if_neg hlen, Option.bind_some]
    exact readBulks_more_multibulk rfl hfits' hfits hfits

theorem processMultibulkBuffer_from {inlineMax : ℕ} {c : Client} {querybuf : Bytes} {p : Progress}
    (h : processMultibulkBuffer inlineMax c querybuf = some p) :
    Progress.From c querybuf p ∧ ∀ c' rest, p = .ready c' rest → rest.length < querybuf.length := by
  unfold processMultibulkBuffer at h
  split_ifs at h with hlen
  · obtain ⟨hok, herror⟩ := multibulkHeader_rest inlineMax c querybuf
    obtain ⟨r, hr, rfl⟩ := Option.map_eq_some_iff.mp h
    cases r with
    | error p =>
      obtain ⟨hclient, hrest, hready⟩ := herror p hr
      exact ⟨⟨by rw [hclient], by rw [hclient], by rw [hclient], by rw [hrest]⟩,
        fun c' rest hp => absurd hp (hready c' rest)⟩
    | ok r =>
      have hlt := hok r hr
      simp only
      split_ifs with hzero
      · refine ⟨⟨rfl, rfl, rfl, hlt.le⟩, fun c' rest hp => ?_⟩
        obtain ⟨-, rfl⟩ := Progress.ready.inj hp
        exact hlt
      · obtain ⟨h1, h2, h3, h4⟩ := readBulks_from inlineMax querybuf.length r.1.toNat
          { c with multibulklen := r.1.toNat } r.2
        refine ⟨⟨h1, h2, h3, h4.trans hlt.le⟩, fun c' rest hp => ?_⟩
        rw [hp] at h4
        exact h4.trans_lt hlt
  · obtain rfl := Option.some.inj h
    exact ⟨readBulks_from _ _ _ _ _, fun c' rest hp => readBulks_ready hlen hp⟩

theorem processInlineBuffer_from (inlineMax : ℕ) (c : Client) (querybuf : Bytes) :
    Progress.From c querybuf (processInlineBuffer inlineMax c querybuf) ∧
      ∀ c' rest, processInlineBuffer inlineMax c querybuf = .ready c' rest →
        rest.length < querybuf.length := by
  unfold processInlineBuffer
  cases hline : strstrCrlf querybuf with
  | none =>
    simp only
    split_ifs
    · exact ⟨⟨rfl, rfl, rfl, le_rfl⟩, by simp⟩
    · exact ⟨⟨rfl, rfl, rfl, le_rfl⟩, by simp⟩
  | some querylen =>
    have hlt := strstrCrlf_lt hline
    have hdrop : (querybuf.drop (querylen + 2)).length < querybuf.length := by
      rw [List.length_drop]
      omega
    refine ⟨⟨rfl, rfl, rfl, hdrop.le⟩, fun c' rest h => ?_⟩
    obtain ⟨-, rfl⟩ := Progress.ready.inj h
    exact hdrop

namespace Session

variable {Server : Type} {processCommand : Server → List Bytes → Server × Bytes × Outcome}
  {inlineMax : ℕ}

theorem parse_more (c : Client) (reqtype : Reqtype) {querybuf bytes : Bytes}
    (hfits : (querybuf ++ bytes).length ≤ inlineMax) :
    parse inlineMax c (querybuf ++ bytes) reqtype =
      (parse inlineMax c querybuf reqtype).bind fun p =>
        p.more bytes fun c rest => parse inlineMax c rest reqtype := by
  cases reqtype with
  | inline => exact processInlineBuffer_more hfits
  | multibulk => exact processMultibulkBuffer_more c hfits

theorem parse_from {c : Client} {reqtype : Reqtype} {querybuf : Bytes} {p : Progress}
    (h : parse inlineMax c querybuf reqtype = some p) :
    Progress.From c querybuf p ∧ ∀ c' rest, p = .ready c' rest → rest.length < querybuf.length := by
  cases reqtype with
  | inline =>
    obtain rfl := Option.some.inj h
    exact processInlineBuffer_from inlineMax c querybuf
  | multibulk => exact processMultibulkBuffer_from h

/-- A client that is not served keeps what it sent. -/
def Deaf (c : Client) : Prop := c.blocked = true ∨ c.closeAfterReply = true

theorem turn_of_deaf {s : Session Server} (h : Deaf s.client) (querybuf : Bytes) :
    turn processCommand inlineMax s querybuf = some (.wait s querybuf) := by
  unfold turn
  rw [if_pos]
  rcases h with h | h <;> simp [h]

theorem turn_nil (s : Session Server) :
    turn processCommand inlineMax s [] = some (.wait s []) := rfl

theorem turn_of_serving {s : Session Server} (h : ¬ Deaf s.client) {querybuf : Bytes}
    (hne : querybuf ≠ []) :
    turn processCommand inlineMax s querybuf =
      (parse inlineMax { s.client with reqtype := some (typeOf s.client querybuf) } querybuf
        (typeOf s.client querybuf)).map (s.advance processCommand) := by
  unfold turn
  rw [if_neg]
  unfold Deaf at h
  simp only [not_or, Bool.not_eq_true] at h
  simp [hne, h.1, h.2]

theorem typeOf_append (c : Client) {querybuf : Bytes} (hne : querybuf ≠ []) (bytes : Bytes) :
    typeOf c (querybuf ++ bytes) = typeOf c querybuf := by
  obtain ⟨b, tail, rfl⟩ := List.exists_cons_of_ne_nil hne
  rfl

/-- The ways in which a turn can go. -/
theorem turn_cases (processCommand : Server → List Bytes → Server × Bytes × Outcome)
    (inlineMax : ℕ) (s : Session Server) (buf : Bytes) :
    (buf = [] ∨ Deaf s.client) ∧ turn processCommand inlineMax s buf = some (.wait s buf) ∨
    buf ≠ [] ∧ ¬ Deaf s.client := by
  by_cases hdeaf : Deaf s.client
  · exact .inl ⟨.inr hdeaf, turn_of_deaf hdeaf buf⟩
  · by_cases hnil : buf = []
    · exact .inl ⟨.inl hnil, hnil ▸ turn_nil s⟩
    · exact .inr ⟨hnil, hdeaf⟩

/-- A turn with more input goes on with what was parsed of the input before it. -/
theorem turn_append {s : Session Server} (h : ¬ Deaf s.client) {buf more : Bytes} (hne : buf ≠ [])
    (hfits : (buf ++ more).length ≤ inlineMax) :
    turn processCommand inlineMax s (buf ++ more) =
      ((parse inlineMax { s.client with reqtype := some (typeOf s.client buf) } buf
          (typeOf s.client buf)).bind fun p => p.more more fun c rest =>
        parse inlineMax c rest (typeOf s.client buf)).map (s.advance processCommand) := by
  rw [turn_of_serving h (by simp [hne]), typeOf_append _ hne, parse_more _ _ hfits]

/-- A client that waits for the rest of a request goes on with the same type. -/
theorem turn_of_pending {s : Session Server} (h : ¬ Deaf s.client) {buf : Bytes} {c : Client}
    {rest : Bytes}
    (hfrom : Progress.From { s.client with reqtype := some (typeOf s.client buf) } buf
      (.pending c rest)) {input : Bytes} (hne : input ≠ []) :
    turn processCommand inlineMax { s with client := c } input =
      (parse inlineMax c input (typeOf s.client buf)).map (s.advance processCommand) := by
  have hserving : ¬ Deaf c := by
    unfold Deaf
    rw [show c.blocked = s.client.blocked from hfrom.blocked,
      show c.closeAfterReply = s.client.closeAfterReply from hfrom.closeAfterReply]
    exact h
  have hreqtype : c.reqtype = some (typeOf s.client buf) := hfrom.reqtype
  have htype : typeOf c input = typeOf s.client buf := by
    unfold typeOf
    rw [hreqtype]
    rfl
  have hsame : { c with reqtype := some (typeOf s.client buf) } = c := by
    rw [← hreqtype]
  rw [turn_of_serving hserving hne]
  simp only [htype, hsame]
  rfl

theorem resumes (s : Session Server) (buf : Bytes) :
    Resumes (turn processCommand inlineMax) inlineMax s buf
      (turn processCommand inlineMax s buf) := by
  rcases turn_cases processCommand inlineMax s buf with ⟨-, hwait⟩ | ⟨hne, hserving⟩
  · rw [hwait]
    exact ⟨le_rfl, fun more _ => rfl⟩
  · have hmore (more : Bytes) (hfits : ((buf ++ more).length : ℕ∞) ≤ inlineMax) :
        turn processCommand inlineMax s (buf ++ more) = _ :=
      turn_append hserving hne (Nat.cast_le.mp hfits)
    have hturn : turn processCommand inlineMax s buf = _ := turn_of_serving hserving hne
    cases hp : parse inlineMax { s.client with reqtype := some (typeOf s.client buf) } buf
        (typeOf s.client buf) with
    | none =>
      rw [hp] at hturn hmore
      rw [hturn]
      exact hmore
    | some p =>
      obtain ⟨hfrom, hshorter⟩ := parse_from hp
      rw [hp] at hturn hmore
      rw [hturn]
      cases p with
      | ready c rest => exact ⟨hshorter c rest rfl, hmore⟩
      | pending c rest =>
        refine ⟨hfrom.le, fun more hfits => ?_⟩
        by_cases hnil : rest ++ more = []
        · obtain ⟨rfl, rfl⟩ := List.append_eq_nil_iff.mp hnil
          rw [List.append_nil, hturn]
          rfl
        · rw [hmore more hfits, turn_of_pending hserving hfrom hnil]
          rfl
      | invalid e c rest =>
        refine ⟨hfrom.le, fun more hfits => ?_⟩
        rw [hmore more hfits, turn_of_deaf (.inr rfl)]
        rfl

theorem resumable (processCommand : Server → List Bytes → Server × Bytes × Outcome)
    (inlineMax : ℕ) : Resumable (turn processCommand inlineMax) inlineMax :=
  .of_turns resumes

end Session
end GridApps.Redis
