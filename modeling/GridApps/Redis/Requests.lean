import GridApps.Redis.Networking

/-! Runs of reads of a client: the commands that are executed do not depend on how its bytes are cut
into reads, and they are those that were formatted. -/
namespace GridApps.Redis
open Numeral Struct Transition
namespace Session

variable {Server : Type} {processCommand : Server → List Bytes → Server × Bytes × Outcome}
  {inlineMax : ℕ}

def received (events : List Event) : Bytes :=
  events.flatMap fun
    | .read bytes => bytes
    | .unblock _ => []

def wakes (events : List Event) : List Bytes :=
  events.filterMap fun
    | .read _ => none
    | .unblock reply => some reply

theorem step_read (c : Session Server × Bytes) (bytes : Bytes) :
    step processCommand inlineMax c (.read bytes) =
      work (turn processCommand inlineMax) c.1 (c.2 ++ bytes) := rfl

theorem step_unblock (c : Session Server × Bytes) (h : c.1.client.blocked = true) (reply : Bytes) :
    step processCommand inlineMax c (.unblock reply) =
      work (turn processCommand inlineMax) (c.1.unblocked reply) c.2 := if_pos h

theorem of_step_unblock {c c' : Session Server × Bytes} {reply : Bytes}
    (h : step processCommand inlineMax c (.unblock reply) = some c') :
    c.1.client.blocked = true ∧
      work (turn processCommand inlineMax) (c.1.unblocked reply) c.2 = some c' :=
  Option.ite_none_right_eq_some.mp h

theorem work_of_deaf {s : Session Server} (h : Deaf s.client) (buf : Bytes) :
    work (turn processCommand inlineMax) s buf = some (s, buf) := by
  rw [(resumable processCommand inlineMax).work_eq, turn_of_deaf h]
  rfl

/-- The client was told that a line is too long. -/
def CutOff (s : Session Server) : Prop :=
  s.client.closeAfterReply = true ∧ ∃ e, e.TooBig ∧ Output.error e ∈ s.output

end Session

namespace Session

theorem CutOff.deaf {s : Session Server} (h : CutOff s) : Deaf s.client := .inr h.1

theorem CutOff.step {c c' : Session Server × Bytes} (h : CutOff c.1) {event : Event}
    (hstep : step processCommand inlineMax c event = some c') : CutOff c'.1 := by
  cases event with
  | read bytes =>
    rw [step_read, work_of_deaf h.deaf] at hstep
    obtain rfl := Option.some.inj hstep
    exact h
  | unblock reply =>
    obtain ⟨-, hwork⟩ := of_step_unblock hstep
    have hcut : CutOff (c.1.unblocked reply) := by
      obtain ⟨hclose, e, he, hmem⟩ := h
      exact ⟨hclose, e, he, List.mem_append_left _ hmem⟩
    rw [work_of_deaf hcut.deaf] at hwork
    obtain rfl := Option.some.inj hwork
    exact hcut

/-- A command that blocks, a command that comes meanwhile, and the reply that ends the first. -/
def meanwhile : List Event := [.read [66, 13], .read [10, 80, 13, 10], .unblock [58]]

/-- Only `B` blocks. -/
def blocking (n : ℕ) (argv : List Bytes) : ℕ × Bytes × Outcome := (n + 1, [], .ok (argv == [[66]]))

/-- Between two calls, the client is reset, or in the middle of a request whose beginning is still
in the query buffer or has been counted. -/
def Sound (c : Session Server × Bytes) : Prop :=
  c.1.client.closeAfterReply = true ∨
    match c.1.client.reqtype with
    | none => c.1.client.multibulklen = 0 ∧ c.1.client.argv = []
    | some .inline => True
    | some .multibulk =>
      c.1.client.multibulklen = 0 → c.1.client.argv = [] ∧ c.2.head? = some 42

theorem Sound.append {s : Session Server} {buf : Bytes} (h : Sound (s, buf)) (more : Bytes) :
    Sound (s, buf ++ more) := by
  refine h.imp_right fun h => ?_
  simp only at h ⊢
  split at h
  · exact h
  · trivial
  · intro hlen
    obtain ⟨hargv, hhead⟩ := h hlen
    obtain ⟨b, tail, rfl⟩ := List.exists_cons_of_ne_nil (l := buf) (by rintro rfl; simp at hhead)
    exact ⟨hargv, hhead⟩

theorem sound_execute (s : Session Server) (rest : Bytes) :
    Sound (s.execute processCommand, rest) := by
  unfold execute
  split_ifs
  · exact .inr ⟨rfl, rfl⟩
  · simp only
    cases (processCommand s.server s.client.argv).2.2 with
    | ok blocks => exact .inr ⟨rfl, rfl⟩
    | quit => exact .inl rfl

theorem exists_multibulkHeader (inlineMax : ℕ) {c : Client} {querybuf : Bytes} (hargv : c.argv = [])
    (hhead : querybuf.head? = some 42) : ∃ r, multibulkHeader inlineMax c querybuf = some r := by
  unfold multibulkHeader
  rw [if_neg (not_not.mpr hargv), hhead]
  cases strchr 13 querybuf with
  | none => exact ⟨_, rfl⟩
  | some newline =>
    simp only [ne_eq, not_true_eq_false, if_false]
    split_ifs
    · exact ⟨_, rfl⟩
    · cases string2ll ((querybuf.take newline).drop 1) with
      | none => exact ⟨_, rfl⟩
      | some ll =>
        simp only
        split_ifs <;> exact ⟨_, rfl⟩

theorem exists_processMultibulkBuffer (inlineMax : ℕ) {c : Client} {querybuf : Bytes}
    (h : c.multibulklen = 0 → c.argv = [] ∧ querybuf.head? = some 42) :
    ∃ p, processMultibulkBuffer inlineMax c querybuf = some p ∧
      ∀ c' rest, p = .pending c' rest →
        c'.multibulklen = 0 → c'.argv = [] ∧ rest.head? = some 42 := by
  unfold processMultibulkBuffer
  split_ifs with hlen
  · obtain ⟨hargv, hhead⟩ := h hlen
    obtain ⟨r, hr⟩ := exists_multibulkHeader inlineMax hargv hhead
    refine ⟨_, by rw [hr]; rfl, fun c' rest hp => ?_⟩
    cases r with
    | error p =>
      obtain ⟨hclient, hrest, -⟩ := (multibulkHeader_rest inlineMax c querybuf).2 p hr
      subst hp
      obtain rfl : c' = c := hclient
      obtain rfl : rest = querybuf := hrest
      exact h
    | ok r =>
      simp only at hp
      split_ifs at hp
      exact fun hzero => absurd hzero
        (readBulks_pending (c := { c with multibulklen := r.1.toNat }) rfl hp)
  · exact ⟨_, rfl, fun c' rest hp hzero => absurd hzero (readBulks_pending rfl hp)⟩

theorem Sound.turn {s : Session Server} {buf : Bytes} (h : Sound (s, buf)) :
    ∃ r, turn processCommand inlineMax s buf = some r ∧
      match r with
      | .wait s' rest => Sound (s', rest)
      | .next s' rest => Sound (s', rest) := by
  rcases turn_cases processCommand inlineMax s buf with ⟨-, hwait⟩ | ⟨hne, hserving⟩
  · exact ⟨_, hwait, h⟩
  · rw [turn_of_serving hserving hne]
    have hopen : s.client.closeAfterReply ≠ true := fun hclose => hserving (.inr hclose)
    have hstate := h.resolve_left hopen
    cases htype : typeOf s.client buf with
    | inline =>
      refine ⟨_, rfl, ?_⟩
      have hfrom := (processInlineBuffer_from inlineMax
        { s.client with reqtype := some .inline } buf).1
      cases hp : processInlineBuffer inlineMax { s.client with reqtype := some .inline } buf with
      | ready c rest => exact sound_execute _ rest
      | pending c rest =>
        rw [hp] at hfrom
        have hreqtype : c.reqtype = some .inline := hfrom.reqtype
        refine .inr ?_
        simp only [hreqtype]
      | invalid e c rest => exact .inl rfl
    | multibulk =>
      have hstart : s.client.multibulklen = 0 → s.client.argv = [] ∧ buf.head? = some 42 := by
        intro hlen
        unfold typeOf at htype
        cases hreqtype : s.client.reqtype with
        | none =>
          simp only [hreqtype] at hstate
          rw [hreqtype, Option.getD_none] at htype
          split_ifs at htype with hhead
          exact ⟨hstate.2, hhead⟩
        | some type =>
          rw [hreqtype, Option.getD_some] at htype
          subst htype
          simp only [hreqtype] at hstate
          exact hstate hlen
      obtain ⟨p, hp, hpending⟩ := exists_processMultibulkBuffer inlineMax
        (c := { s.client with reqtype := some .multibulk }) hstart
      refine ⟨_, by rw [parse, hp]; rfl, ?_⟩
      have hfrom := (processMultibulkBuffer_from hp).1
      cases p with
      | ready c rest => exact sound_execute _ rest
      | pending c rest =>
        have hreqtype : c.reqtype = some .multibulk := hfrom.reqtype
        refine .inr ?_
        simp only [hreqtype]
        exact hpending c rest rfl
      | invalid e c rest => exact .inl rfl

theorem Sound.work {s : Session Server} {buf : Bytes} (h : Sound (s, buf)) :
    ∃ c, work (Session.turn processCommand inlineMax) s buf = some c ∧ Sound c := by
  have hresumable := resumable processCommand inlineMax
  induction hn : buf.length using Nat.strong_induction_on generalizing s buf with
  | _ n ih =>
    subst hn
    rw [hresumable.work_eq]
    obtain ⟨r, hr, hsound⟩ : ∃ r, Session.turn processCommand inlineMax s buf = some r ∧ _ := h.turn
    rw [hr]
    cases r with
    | wait s' rest => exact ⟨(s', rest), rfl, hsound⟩
    | next s' rest => exact ih rest.length (hresumable.shorter hr) hsound rfl

theorem Sound.step {c : Session Server × Bytes} (h : Sound c) (event : Event)
    (henabled : ∀ reply, event = .unblock reply → c.1.client.blocked = true) :
    ∃ c', step processCommand inlineMax c event = some c' ∧ Sound c' := by
  cases event with
  | read bytes => exact (h.append bytes).work
  | unblock reply =>
    have hunblocked : Sound (c.1.unblocked reply, c.2) := h
    obtain ⟨c', hwork, hsound⟩ : ∃ c', Transition.work (Session.turn processCommand inlineMax)
      (c.1.unblocked reply) c.2 = some c' ∧ _ := hunblocked.work
    exact ⟨c', (step_unblock c (henabled reply rfl) reply).trans hwork, hsound⟩

theorem sound_of_run {server : Server} {c : Session Server × Bytes} {events : List Event}
    (hrun : run (step processCommand inlineMax) (create server, []) events = some c) :
    Sound c := by
  have hcreate : Sound (create server, []) := .inr ⟨rfl, rfl⟩
  refine run_induction (P := fun (_ : List Event) (c : Session Server × Bytes) => Sound c)
    hcreate ?_ hrun
  intro events event c c' _ hstep hc
  obtain ⟨c'', hc'', hsound⟩ : ∃ c'', step processCommand inlineMax c event = some c'' ∧ _ :=
    hc.step event fun reply hevent => by
      subst hevent
      exact (of_step_unblock hstep).1
  obtain rfl := Option.some.inj (hstep.symm.trans hc'')
  exact hsound

/-- No assertion fails, in no state that a client can bring the server to: the only event a
session refuses is the end of a blocking command that it is not waiting for. -/
theorem exists_session_step_iff {server : Server} {c : Session Server × Bytes} {events : List Event}
    (hrun : run (step processCommand inlineMax) (create server, []) events = some c)
    (event : Event) :
    (∃ c', step processCommand inlineMax c event = some c') ↔
      ∀ reply, event = .unblock reply → c.1.client.blocked = true := by
  constructor
  · rintro ⟨c', hstep⟩ reply rfl
    exact (of_step_unblock hstep).1
  · intro henabled
    obtain ⟨c', hc', -⟩ := (sound_of_run hrun).step event henabled
    exact ⟨c', hc'⟩

theorem exists_session_step_iff_blocking :
    ∃ c, run (step blocking redisInlineMaxSize) (create 0, []) meanwhile = some c ∧
      ∀ event, (∃ c', step blocking redisInlineMaxSize c event = some c') ↔
        ∀ reply, event = .unblock reply → c.1.client.blocked = true := by
  obtain ⟨c, hc⟩ := Option.isSome_iff_exists.mp
    (by decide : (run (step blocking redisInlineMaxSize) (create 0, []) meanwhile).isSome)
  exact ⟨c, hc, exists_session_step_iff hc⟩

end Session
end GridApps.Redis
