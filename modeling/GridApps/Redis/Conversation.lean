import GridApps.Redis.ReplyBuffer

/-! A client and the server, with a connection between them that takes and gives any number of bytes
at a time. -/
namespace GridApps.Redis
open Numeral Struct Transition

def redisIobufLen : ℕ := 1024 * 16

/-- An answer that the reader of the client can read. -/
abbrev ReadableAnswer := { a : Answer // a.Readable 0 }

def answerBytes (answers : List ReadableAnswer) : Bytes := Answer.bytesAll (answers.map Subtype.val)

/-- Of the four buffers, `obuf` and what was not sent to the client are kept in memory; `toServer`
and `toClient` are on their way. -/
structure Conversation (Server : Type) where
  obuf : Bytes
  toServer : Bytes
  session : Session Server × Bytes
  outgoing : Outgoing
  toClient : Bytes
  reader : Reader × Bytes

namespace Conversation

section Steps

variable {Server : Type}
  (processCommand : Server → List Bytes → Server × List ReadableAnswer × Outcome)

def create (server : Server) : Conversation Server :=
  ⟨[], [], (Session.create server, []), Outgoing.create, [], (redisReaderCreate, [])⟩

/-- A command of the client is appended, bytes are written and read, a blocking command of the
server ends. -/
inductive Event where
  | appendCommand (argv : List Bytes)
  | bufferWrite (n : ℕ)
  | readQuery (n : ℕ)
  | unblock (answers : List ReadableAnswer)
  | sendReply (lowMemory : Bool) (ws : List ReplyBuffer.WriteResult)
  | bufferRead (n : ℕ)

/-- The replies in bytes. -/
def processBytes (server : Server) (argv : List Bytes) : Server × Bytes × Outcome :=
  ((processCommand server argv).1, answerBytes (processCommand server argv).2.1,
    (processCommand server argv).2.2)

/-- What the server says in a step is added to what it has to send. -/
def reply (o : Outgoing) (outs : List Output) (closeAfterReply : Bool) : Outgoing :=
  let c := outs.foldl (fun c out => c.addReplyString out.bytes) o.c
  { o with c := { c with closeAfterReply := closeAfterReply } }

def serve (v : Conversation Server) (e : Session.Event) : Option (Conversation Server) :=
  if v.outgoing.fate ≠ .live then none
  else
    (Session.step (processBytes processCommand) redisInlineMaxSize v.session e).map fun session =>
      { v with
        session := session
        outgoing := reply v.outgoing (session.1.output.drop v.session.1.output.length)
          session.1.client.closeAfterReply }

/-- A read that finds nothing is none. -/
def step (v : Conversation Server) : Event → Option (Conversation Server)
  | .appendCommand argv =>
    (redisFormatCommandArgv argv).map fun cmd => { v with obuf := v.obuf ++ cmd }
  | .bufferWrite n =>
    some { v with obuf := v.obuf.drop n, toServer := v.toServer ++ v.obuf.take n }
  | .readQuery n =>
    let bytes := v.toServer.take (min n redisIobufLen)
    if bytes.isEmpty then none
    else
      ({ v with toServer := v.toServer.drop bytes.length }).serve processCommand (.read bytes)
  | .unblock answers => v.serve processCommand (.unblock (answerBytes answers))
  | .sendReply lowMemory ws =>
    (v.outgoing.step (.sendReplyToClient lowMemory ws)).map fun o =>
      { v with outgoing := o, toClient := v.toClient ++ o.sent.drop v.outgoing.sent.length }
  | .bufferRead n =>
    let bytes := v.toClient.take n
    if bytes.isEmpty then none
    else
      (feed Reader.turn v.reader bytes).map fun reader =>
        { v with reader := reader, toClient := v.toClient.drop bytes.length }

end Steps

/-- The commands of a run. -/
def commands (events : List Event) : List (List Bytes) :=
  events.filterMap fun
    | .appendCommand argv => some argv
    | _ => none

/-- The replies that end blocking commands. -/
def wakes (events : List Event) : List (List ReadableAnswer) :=
  events.filterMap fun
    | .unblock answers => some answers
    | _ => none

end Conversation

namespace Session

variable {Server : Type} {processCommand : Server → List Bytes → Server × Bytes × Outcome}
  {inlineMax : ℕ}

def Calm (s : Session Server) : Prop :=
  s.client.blocked = true → s.client.closeAfterReply = false

theorem Calm.execute {s : Session Server} (hblocked : s.client.blocked = false)
    (hclose : s.client.closeAfterReply = false) : Calm (s.execute processCommand) := by
  unfold Calm Session.execute
  split_ifs
  · exact fun _ => hclose
  · simp only
    cases (processCommand s.server s.client.argv).2.2 with
    | ok blocks => exact fun _ => hclose
    | quit => simp [hblocked]

theorem Calm.turn {s : Session Server} (h : Calm s) {buf : Bytes}
    {r : Turn (Session Server) UInt8}
    (hturn : Session.turn processCommand inlineMax s buf = some r) : Calm r.state := by
  rcases turn_cases processCommand inlineMax s buf with ⟨-, hwait⟩ | ⟨hne, hserving⟩
  · obtain rfl := Option.some.inj (hwait.symm.trans hturn)
    exact h
  · rw [turn_of_serving hserving hne] at hturn
    obtain ⟨p, hp, rfl⟩ := Option.map_eq_some_iff.mp hturn
    have hfrom := (parse_from hp).1
    unfold Deaf at hserving
    rw [not_or, Bool.not_eq_true, Bool.not_eq_true] at hserving
    obtain ⟨hblocked, hclose⟩ := hserving
    cases p with
    | ready c rest =>
      exact Calm.execute (s := { s with client := c }) (hfrom.blocked.trans hblocked)
        (hfrom.closeAfterReply.trans hclose)
    | pending c rest => exact fun _ => hfrom.closeAfterReply.trans hclose
    | invalid e c rest =>
      intro hblocks
      exact absurd (hblocks.symm.trans (hfrom.blocked.trans hblocked)) (by decide)

theorem Calm.work {s : Session Server} (h : Calm s) {buf : Bytes} {c : Session Server × Bytes}
    (hwork : work (Session.turn processCommand inlineMax) s buf = some c) : Calm c.1 :=
  (resumable processCommand inlineMax).work_induction (P := fun s _ => Calm s)
    (fun h hturn => h.turn hturn) h hwork

theorem Calm.step {c c' : Session Server × Bytes} (h : Calm c.1) {e : Event}
    (hstep : Session.step processCommand inlineMax c e = some c') : Calm c'.1 := by
  cases e with
  | read bytes => exact h.work hstep
  | unblock reply =>
    obtain ⟨hblocked, hwork⟩ := of_step_unblock hstep
    have hopen : Calm (c.1.unblocked reply) := fun _ => h hblocked
    exact hopen.work hwork

/-- What a step says comes behind what was said; a client that is closed is told nothing. -/
theorem step_output {c c' : Session Server × Bytes} (h : Calm c.1) {e : Event}
    (hstep : Session.step processCommand inlineMax c e = some c') :
    c.1.output <+: c'.1.output ∧
      (c.1.client.closeAfterReply = true →
        c'.1.output = c.1.output ∧ c'.1.client.closeAfterReply = true) := by
  cases e with
  | read bytes =>
    refine ⟨work_output hstep, fun hclose => ?_⟩
    rw [step_read, work_of_deaf (.inr hclose)] at hstep
    obtain rfl := Option.some.inj hstep
    exact ⟨rfl, hclose⟩
  | unblock reply =>
    obtain ⟨hblocked, hwork⟩ := of_step_unblock hstep
    refine ⟨(List.prefix_append _ _).trans (work_output hwork), fun hclose => ?_⟩
    have hopen := h hblocked
    rw [hclose] at hopen
    cases hopen

end Session

namespace Conversation

variable {Server : Type}
  {processCommand : Server → List Bytes → Server × List ReadableAnswer × Outcome}

/-- All that the server said was sent or is pending. -/
structure Speaks (s : Session Server) (o : Outgoing) : Prop where
  calm : s.Calm
  sound : o.c.Sound
  closeAfterReply : o.c.closeAfterReply = s.client.closeAfterReply
  pieces : o.sent.map .byte ++ o.c.pending = (s.output.flatMap Output.bytes).map Piece.byte

/-- The server has been through some reads. With what is on its way to it, they are the commands. -/
def Requested (processCommand : Server → List Bytes → Server × List ReadableAnswer × Outcome)
    (server : Server) (events : List Event) (v : Conversation Server) : Prop :=
  ∃ reads, run (Session.step (processBytes processCommand) redisInlineMaxSize)
      (Session.create server, []) reads = some v.session ∧
    Session.received reads ++ v.toServer ++ v.obuf = (commands events).flatMap formatted ∧
    Session.wakes reads = (wakes events).map answerBytes

/-- The client has read the first part of what was sent to it, and the rest is on its way. -/
def Answered (v : Conversation Server) : Prop :=
  ∃ bytes, work Reader.turn redisReaderCreate bytes = some v.reader ∧
    bytes ++ v.toClient = v.outgoing.sent

/-- Where every byte of a conversation is. -/
structure Inv (processCommand : Server → List Bytes → Server × List ReadableAnswer × Outcome)
    (server : Server) (events : List Event) (v : Conversation Server) : Prop where
  speaks : Speaks v.session.1 v.outgoing
  requests : Requested processCommand server events v
  answers : Answered v

theorem addReplyString_foldl {c : ReplyBuffer} (h : c.Sound) (hopen : c.closeAfterReply = false)
    (outs : List Output) :
    (outs.foldl (fun c out => c.addReplyString out.bytes) c).Sound ∧
      (outs.foldl (fun c out => c.addReplyString out.bytes) c).pending =
        c.pending ++ (outs.flatMap Output.bytes).map .byte := by
  induction outs generalizing c with
  | nil => exact ⟨h, (List.append_nil _).symm⟩
  | cons out outs ih =>
    obtain ⟨hsound, -, hclose, hpending⟩ := h.addReplyString out.bytes
    rw [if_neg (by simp [hopen])] at hpending
    obtain ⟨hsound', hpending'⟩ := ih hsound (hclose.trans hopen)
    refine ⟨hsound', ?_⟩
    rw [List.foldl_cons, hpending', hpending, List.flatMap_cons, List.map_append,
      List.append_assoc]

theorem Speaks.reply {s : Session Server} {o : Outgoing} (h : Speaks s o) {s' : Session Server}
    (hcalm : s'.Calm) (hpre : s.output <+: s'.output)
    (hquiet : s.client.closeAfterReply = true →
      s'.output = s.output ∧ s'.client.closeAfterReply = true) :
    Speaks s' (reply o (s'.output.drop s.output.length) s'.client.closeAfterReply) := by
  obtain ⟨outs, houts⟩ := hpre
  have hdrop : s'.output.drop s.output.length = outs := by
    rw [← houts]
    exact List.drop_left
  rw [hdrop]
  obtain ⟨hsound, hpending⟩ : (outs.foldl (fun c out => c.addReplyString out.bytes) o.c).Sound ∧
      (outs.foldl (fun c out => c.addReplyString out.bytes) o.c).pending =
        o.c.pending ++ (outs.flatMap Output.bytes).map .byte := by
    by_cases hopen : o.c.closeAfterReply = false
    · exact addReplyString_foldl h.sound hopen outs
    · rw [Bool.not_eq_false, h.closeAfterReply] at hopen
      have hsame := (hquiet hopen).1
      obtain rfl : outs = [] := by simpa [← houts] using hsame
      exact ⟨h.sound, (List.append_nil _).symm⟩
  refine ⟨hcalm, ⟨hsound.sentlen, hsound.buf, hsound.nodup, hsound.fresh, hsound.writable⟩, rfl, ?_⟩
  change o.sent.map Piece.byte ++ ReplyBuffer.pending (outs.foldl _ o.c) = _
  rw [hpending, ← List.append_assoc, h.pieces, ← houts, List.flatMap_append, List.map_append]

/-- A step of the server in a conversation. -/
theorem serve_spec {v v' : Conversation Server} (h : Speaks v.session.1 v.outgoing)
    {e : Session.Event} (hserve : v.serve processCommand e = some v') :
    Session.step (processBytes processCommand) redisInlineMaxSize v.session e = some v'.session ∧
      Speaks v'.session.1 v'.outgoing ∧ v'.outgoing.sent = v.outgoing.sent ∧
      v'.toServer = v.toServer ∧ v'.obuf = v.obuf ∧ v'.reader = v.reader ∧
      v'.toClient = v.toClient := by
  unfold serve at hserve
  rw [Option.ite_none_left_eq_some] at hserve
  obtain ⟨session, hstep, rfl⟩ := Option.map_eq_some_iff.mp hserve.2
  obtain ⟨hpre, hquiet⟩ := Session.step_output h.calm hstep
  exact ⟨hstep, h.reply (h.calm.step hstep) hpre hquiet, rfl, rfl, rfl, rfl, rfl⟩

theorem commands_concat (events : List Event) (e : Event) :
    commands (events ++ [e]) = commands events ++ commands [e] := List.filterMap_append

theorem wakes_concat (events : List Event) (e : Event) :
    wakes (events ++ [e]) = wakes events ++ wakes [e] := List.filterMap_append

theorem received_concat (reads : List Session.Event) (e : Session.Event) :
    Session.received (reads ++ [e]) = Session.received reads ++ Session.received [e] :=
  List.flatMap_append

theorem received_read (bytes : Bytes) : Session.received [.read bytes] = bytes :=
  List.append_nil bytes

theorem take_append_drop_length (n : ℕ) (s : Bytes) :
    s.take n ++ s.drop (s.take n).length = s := by
  rw [List.length_take]
  rcases Nat.le_total n s.length with hle | hle
  · rw [Nat.min_eq_left hle, List.take_append_drop]
  · rw [Nat.min_eq_right hle, List.take_of_length_le hle, List.drop_length, List.append_nil]

/-- A step of which the server notices nothing. -/
theorem Requested.keep {server : Server} {events : List Event} {v v' : Conversation Server}
    (h : Requested processCommand server events v) (e : Event) (hsession : v'.session = v.session)
    (hbytes : v'.toServer ++ v'.obuf = v.toServer ++ v.obuf ++ (commands [e]).flatMap formatted)
    (hwakes : wakes [e] = []) : Requested processCommand server (events ++ [e]) v' := by
  obtain ⟨reads, hreads, hreceived, hwakes'⟩ := h
  refine ⟨reads, hsession ▸ hreads, ?_, ?_⟩
  · rw [List.append_assoc, hbytes, commands_concat, List.flatMap_append, ← hreceived]
    simp only [List.append_assoc]
  · rw [wakes_concat, hwakes, List.append_nil, hwakes']

/-- A step of the server. -/
theorem Requested.serve {server : Server} {events : List Event} {v v' : Conversation Server}
    (h : Requested processCommand server events v) {e : Event} {r : Session.Event}
    (hstep : Session.step (processBytes processCommand) redisInlineMaxSize v.session r =
      some v'.session)
    (hbytes : Session.received [r] ++ (v'.toServer ++ v'.obuf) = v.toServer ++ v.obuf)
    (hcommands : commands [e] = []) (hwakes : Session.wakes [r] = (wakes [e]).map answerBytes) :
    Requested processCommand server (events ++ [e]) v' := by
  obtain ⟨reads, hreads, hreceived, hwakes'⟩ := h
  refine ⟨reads ++ [r], run_concat.mpr ⟨v.session, hreads, hstep⟩, ?_, ?_⟩
  · rw [commands_concat, hcommands, List.append_nil, ← hreceived, received_concat]
    simp only [List.append_assoc] at hbytes ⊢
    rw [hbytes]
  · rw [wakes_concat, List.map_append, ← hwakes', ← hwakes]
    exact List.filterMap_append

theorem Answered.keep {v v' : Conversation Server} (h : Answered v) (hreader : v'.reader = v.reader)
    (htoClient : v'.toClient = v.toClient) (hsent : v'.outgoing.sent = v.outgoing.sent) :
    Answered v' := by
  obtain ⟨bytes, hread, hbytes⟩ := h
  exact ⟨bytes, hreader ▸ hread, by rw [htoClient, hsent, hbytes]⟩

/-- What `sendReplyToClient` writes was pending. -/
theorem Speaks.send {v : Conversation Server} (h : Speaks v.session.1 v.outgoing)
    {lowMemory : Bool} {ws : List ReplyBuffer.WriteResult} {o : Outgoing}
    (hstep : v.outgoing.step (.sendReplyToClient lowMemory ws) = some o) :
    Speaks v.session.1 o ∧ v.outgoing.sent <+: o.sent := by
  obtain ⟨hcalm, hsound, hclose, hpieces⟩ := h
  unfold Outgoing.step at hstep
  rw [Option.ite_none_left_eq_some] at hstep
  obtain ⟨-, hstep⟩ := hstep
  rw [Option.ite_none_right_eq_some] at hstep
  obtain ⟨r, hr, rfl⟩ := Option.map_eq_some_iff.mp hstep.2
  obtain ⟨hsound', -, hclose', hpending, -⟩ := hsound.sendReplyToClient hr
  refine ⟨⟨hcalm, hsound', hclose'.trans hclose, ?_⟩, List.prefix_append _ _⟩
  rw [← hpieces, hpending, List.map_append, List.append_assoc]

theorem Inv.step {server : Server} {events : List Event} {v v' : Conversation Server}
    (h : Inv processCommand server events v) {e : Event}
    (hstep : step processCommand v e = some v') :
    Inv processCommand server (events ++ [e]) v' := by
  cases e with
  | appendCommand argv =>
    obtain ⟨cmd, hcmd, rfl⟩ := Option.map_eq_some_iff.mp hstep
    rw [redisFormatCommandArgv_eq] at hcmd
    obtain rfl := Option.some.inj hcmd
    refine ⟨h.speaks, h.requests.keep _ rfl ?_ rfl, h.answers⟩
    simp [commands]
  | bufferWrite n =>
    obtain rfl := Option.some.inj hstep
    refine ⟨h.speaks, h.requests.keep _ rfl ?_ rfl, h.answers⟩
    simp [commands]
  | readQuery n =>
    rw [Conversation.step, Option.ite_none_left_eq_some] at hstep
    obtain ⟨hserved, hspeaks, hsent, htoServer, hobuf, hreader, htoClient⟩ :=
      serve_spec (v := { v with toServer := v.toServer.drop _ }) h.speaks hstep.2
    refine ⟨hspeaks, h.requests.serve hserved ?_ rfl rfl, h.answers.keep hreader htoClient hsent⟩
    rw [htoServer, hobuf, received_read, ← List.append_assoc]
    exact congrArg (· ++ v.obuf) (take_append_drop_length _ _)
  | unblock answers =>
    obtain ⟨hserved, hspeaks, hsent, htoServer, hobuf, hreader, htoClient⟩ :=
      serve_spec h.speaks hstep
    refine ⟨hspeaks, h.requests.serve hserved ?_ rfl rfl, h.answers.keep hreader htoClient hsent⟩
    rw [htoServer, hobuf]
    rfl
  | sendReply lowMemory ws =>
    obtain ⟨o, ho, rfl⟩ := Option.map_eq_some_iff.mp hstep
    obtain ⟨hspeaks, written, hwritten⟩ := h.speaks.send ho
    obtain ⟨bytes, hread, hbytes⟩ := h.answers
    refine ⟨hspeaks, h.requests.keep _ rfl (List.append_nil _).symm rfl, ⟨bytes, hread, ?_⟩⟩
    change bytes ++ (v.toClient ++ o.sent.drop v.outgoing.sent.length) = o.sent
    rw [← hwritten, List.drop_left, ← List.append_assoc, hbytes]
  | bufferRead n =>
    rw [Conversation.step, Option.ite_none_left_eq_some] at hstep
    obtain ⟨reader, hreader, rfl⟩ := Option.map_eq_some_iff.mp hstep.2
    obtain ⟨bytes, hread, hbytes⟩ := h.answers
    refine ⟨h.speaks, h.requests.keep _ rfl (List.append_nil _).symm rfl,
      ⟨bytes ++ v.toClient.take n, ?_, ?_⟩⟩
    · rw [Reader.resumable.work_append le_top, hread]
      exact hreader
    · rw [← hbytes, List.append_assoc, take_append_drop_length]

end Conversation
end GridApps.Redis
