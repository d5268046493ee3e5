import GridApps.Redis.Requests

/-! Commands as `hiredis` formats them. However they are cut into reads, the server executes them
one after another. -/
namespace GridApps.Redis
open Numeral Struct Transition

def crlf : Bytes := ascii ['\r', '\n']

/-- The number has fewer digits than `room`. -/
def countDigits : ℕ → ℕ → ℕ
  | 0, _ => 0
  | room + 1, i => if i / 10 = 0 then 1 else countDigits room (i / 10) + 1

def intlen (i : ℤ) : ℕ :=
  let len := countDigits (i.natAbs + 1) i.natAbs
  if i < 0 then len + 1 else len

def bulklen (len : ℕ) : ℕ := 1 + intlen len + 2 + len + 2

def formatArg (arg : Bytes) : Bytes := ascii ['$'] ++ decimalBytes arg.length ++ crlf ++ arg ++ crlf

/-- The command has to fill the buffer that was allocated for it. -/
def redisFormatCommandArgv (argv : List Bytes) : Option Bytes :=
  let totlen := argv.foldl (fun totlen arg => totlen + bulklen arg.length)
    (1 + intlen argv.length + 2)
  let cmd := argv.foldl (fun cmd arg => cmd ++ formatArg arg)
    (ascii ['*'] ++ decimalBytes argv.length ++ crlf)
  if cmd.length = totlen then some cmd else none

def formatted (argv : List Bytes) : Bytes :=
  ascii ['*'] ++ decimalBytes argv.length ++ crlf ++ argv.flatMap formatArg

theorem countDigits_eq {room n : ℕ} (h : n < room) :
    countDigits room n = (decimalBytes n).length := by
  induction room generalizing n with
  | zero => omega
  | succ room ih =>
    unfold countDigits
    split_ifs with hzero
    · have hlt : n < 10 := by omega
      rw [decimalBytes, numeral_of_lt hlt]
      rfl
    · have hle : 10 ≤ n := by omega
      rw [ih (by omega), decimalBytes, decimalBytes, numeral_step hle]
      simp

theorem intlen_natCast (n : ℕ) : intlen n = (decimalBytes n).length := by
  unfold intlen
  rw [if_neg (by omega)]
  exact countDigits_eq (Nat.lt_succ_self n)

theorem formatArg_length (arg : Bytes) : (formatArg arg).length = bulklen arg.length := by
  unfold formatArg bulklen
  simp only [intlen_natCast, List.length_append]
  simp [ascii, crlf]

/-- The length is always counted right. -/
theorem redisFormatCommandArgv_eq (argv : List Bytes) :
    redisFormatCommandArgv argv = some (formatted argv) := by
  have hcmd (argv : List Bytes) (cmd : Bytes) :
      argv.foldl (fun cmd arg => cmd ++ formatArg arg) cmd = cmd ++ argv.flatMap formatArg := by
    induction argv generalizing cmd with
    | nil => simp
    | cons arg argv ih => simp [ih]
  have htotlen (argv : List Bytes) (totlen : ℕ) :
      argv.foldl (fun totlen arg => totlen + bulklen arg.length) totlen =
        totlen + (argv.flatMap formatArg).length := by
    induction argv generalizing totlen with
    | nil => simp
    | cons arg argv ih =>
      simp only [List.foldl_cons, ih, List.flatMap_cons, List.length_append, formatArg_length]
      omega
  unfold redisFormatCommandArgv
  simp only [hcmd, htotlen]
  rw [if_pos]
  · rfl
  · simp only [intlen_natCast, List.length_append]
    simp [ascii, crlf]

theorem digitByte_ne (d : Fin 10) : digitByte d ≠ 13 ∧ digitByte d ≠ 0 := by
  revert d
  decide

/-- What becomes of a server that executes commands: what was replied, how it stopped, and the
commands that it did not come to. -/
structure Served (Server R : Type) where
  server : Server
  replies : List R
  outcome : Outcome
  left : List (List Bytes)

section Serving

variable {Server R : Type} (processCommand : Server → List Bytes → Server × R × Outcome)

end Serving

namespace Session

variable {Server : Type} {processCommand : Server → List Bytes → Server × Bytes × Outcome}
  {inlineMax : ℕ}

/-- The client as the server left it. -/
def Left : Outcome → Client → Prop
  | .ok blocks, c => c = { createClient with blocked := blocks }
  | .quit, c => c.closeAfterReply = true ∧ c.blocked = false

/-- A session ends as the commands say. -/
structure Serves (s : Session Server) (r : Served Server Bytes) (c : Session Server × Bytes) :
    Prop where
  server : c.1.server = r.server
  output : c.1.output = s.output ++ r.replies.map .reply
  client : Left r.outcome c.1.client
  rest : c.2 = r.left.flatMap formatted

/-- More replies before a session, as those of the commands before. -/
theorem Serves.cons {s s' : Session Server} {r : Served Server Bytes} {c : Session Server × Bytes}
    (h : Serves s' r c) {replies : List Bytes} (hs : s'.output = s.output ++ replies.map .reply) :
    Serves s { r with replies := replies ++ r.replies } c where
  server := h.server
  output := by
    rw [h.output, hs, List.map_append, List.append_assoc]
  client := h.client
  rest := h.rest

theorem execute_output (s : Session Server) : s.output <+: (s.execute processCommand).output := by
  unfold execute
  split_ifs
  · exact List.prefix_refl _
  · exact List.prefix_append _ _

theorem turn_output {s : Session Server} {buf : Bytes} {r : Turn (Session Server) UInt8}
    (hturn : turn processCommand inlineMax s buf = some r) : s.output <+: r.state.output := by
  rcases turn_cases processCommand inlineMax s buf with ⟨-, hwait⟩ | ⟨hne, hserving⟩
  · obtain rfl := Option.some.inj (hwait.symm.trans hturn)
    exact List.prefix_refl _
  · rw [turn_of_serving hserving hne] at hturn
    obtain ⟨p, -, rfl⟩ := Option.map_eq_some_iff.mp hturn
    cases p with
    | ready c rest => exact execute_output { s with client := c }
    | pending c rest => exact List.prefix_refl _
    | invalid e c rest => exact List.prefix_append _ _

theorem work_output {s : Session Server} {buf : Bytes} {c : Session Server × Bytes}
    (hwork : work (turn processCommand inlineMax) s buf = some c) : s.output <+: c.1.output :=
  (resumable processCommand inlineMax).work_induction
    (P := fun s' _ => s.output <+: s'.output)
    (fun hpre hturn => hpre.trans (turn_output hturn)) (List.prefix_refl _) hwork

end Session
end GridApps.Redis
