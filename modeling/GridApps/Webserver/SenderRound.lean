import GridApps.Webserver.PushSender
import Mathlib.Logic.Relation

/-! One round of the sender, when the database does not fail and nothing else happens. -/
namespace GridApps.Webserver
open Numeral Relation

/-- What comes of an insert of an `_id` that the collection has already. -/
inductive Duplicate where
  | raises
  | dropped
  deriving DecidableEq, Repr

/-- The registrations for which `send_notification` raises, the time at which another one is
recorded, how the connection answers a second insert, and what the feedback service returns. -/
structure Environment where
  bad : Registration → Bool
  now : Registration → ℤ
  duplicate : Duplicate
  items : List (Text × FailTime)

namespace PushSystem

/-- The process is asleep between two rounds, or has ended. -/
def Resting (s : PushSystem) : Prop := s.point = .sleep ∨ s.point = .down

/-- Another document is in `deviceTokens:sent` under the `_id` of the registration. -/
def Shadows (s : PushSystem) (tok : Registration) : Prop :=
  tok.id ∈ s.sentIds ∧ tok ∉ s.sentTokenColl.map SentRegistration.registration

end PushSystem

def FailTime.IsStr : FailTime → Prop
  | .str _ => True
  | .datetime _ => False

namespace Environment

/-- The next event. The cursor returns the documents in the order of the collection. -/
def event (env : Environment) (s : PushSystem) : PushEvent :=
  match s.point with
  | .sleep => .wake
  | .decide => .decide
  | .find => .find
  | .connect => .connect
  | .next => match s.tokenColl.find? fun tok => decide (tok.id ∉ s.cursor.returned) with
    | some tok => .next tok
    | none => .exhausted
  | .send tok => if env.bad tok then .raises else .send
  | .insert tok =>
    if tok.id ∈ s.sentIds then match env.duplicate with
      | .raises => .raises
      | .dropped => .insertDropped
    else .insert (env.now tok)
  | .remove _ => .remove
  | .feedback => .feedback env.items
  | .print _ => .print
  | .down => .start

/-- A step within a round. -/
def Moves (env : Environment) (s s' : PushSystem) : Prop :=
  ¬ s.Resting ∧ s.step (env.event s) = some s'

/-- The round that starts in `s` ends in `t`. -/
def Round (env : Environment) (s t : PushSystem) : Prop :=
  ∃ s', s.step .wake = some s' ∧ ReflTransGen env.Moves s' t ∧ t.Resting

/-- The loop goes on after the round. If the frequency was at least 50, all registrations but
those that the gateway refuses were handed to it once and are recorded as sent, these are left,
and nothing else was recorded. -/
structure Delivers (env : Environment) (s t : PushSystem) : Prop where
  running : t.point = .sleep
  pending : finds50 s.freqColl = some true → t.tokenColl = s.tokenColl.filter env.bad
  sent : finds50 s.freqColl = some true → ∀ tok ∈ s.tokenColl, env.bad tok = false →
    tok ∈ t.sentTokenColl.map SentRegistration.registration
  recorded : finds50 s.freqColl = some true → ∃ moved : List Registration,
    moved.Sublist (s.tokenColl.filter fun tok => !env.bad tok) ∧
      t.sentTokenColl = s.sentTokenColl ++ moved.map fun tok => ⟨tok, env.now tok⟩
  handed : finds50 s.freqColl = some true → ∀ tok ∈ s.tokenColl, env.bad tok = false →
    t.handed.count tok = s.handed.count tok + 1

/-- The gateway takes the registration, and its `_id` is not recorded as sent already, or it is
this registration that is recorded and a second insert is dropped. -/
def Accepts (env : Environment) (s : PushSystem) (tok : Registration) : Prop :=
  env.bad tok = false ∧ (tok.id ∉ s.sentIds ∨
    env.duplicate = .dropped ∧ tok ∈ s.sentTokenColl.map SentRegistration.registration)

/-- No call raises for the registration. -/
def Passes (env : Environment) (s : PushSystem) (tok : Registration) : Prop :=
  env.bad tok = false ∧ (tok.id ∈ s.sentIds → env.duplicate = .dropped)

variable {env : Environment} {s t t' : PushSystem}

theorem rightUnique_moves : Relator.RightUnique env.Moves := by
  rintro a b b' ⟨-, h⟩ ⟨-, h'⟩
  exact Option.some.inj (h.symm.trans h')

theorem not_moves_of_resting (h : t.Resting) (hmove : ReflTransGen env.Moves t t') : t = t' := by
  cases hmove using ReflTransGen.head_induction_on with
  | refl => rfl
  | head hstep _ => exact absurd h hstep.1

/-- A round ends in one state only. -/
theorem Round.unique (h : env.Round s t) (h' : env.Round s t') : t = t' := by
  obtain ⟨s₁, hs₁, hmoves, ht⟩ := h
  obtain ⟨s₂, hs₂, hmoves', ht'⟩ := h'
  obtain rfl := Option.some.inj (hs₁.symm.trans hs₂)
  rcases ReflTransGen.total_of_right_unique rightUnique_moves hmoves hmoves' with h | h
  · exact not_moves_of_resting ht h
  · exact (not_moves_of_resting ht' h).symm

theorem leads_print {items : List (Text × FailTime)} (hp : s.point = .print items)
    (hstr : ∀ item ∈ items, item.2.IsStr) :
    ReflTransGen env.Moves s { s with point := .sleep } := by
  induction items generalizing s with
  | nil => exact .single ⟨by simp [PushSystem.Resting, hp],
      by simp [event, PushSystem.step, PushSystem.print, hp]⟩
  | cons item items ih =>
    obtain ⟨hitem, hitems⟩ := List.forall_mem_cons.mp hstr
    obtain ⟨token, time⟩ := item
    cases time with
    | str text =>
      refine .head (b := { s with point := .print items }) ⟨by simp [PushSystem.Resting, hp], ?_⟩ ?_
      · simp [event, PushSystem.step, PushSystem.print, hp]
      · exact ih (s := { s with point := .print items }) rfl hitems
    | datetime seconds => exact absurd hitem id

theorem leads_print_down {items : List (Text × FailTime)} (hp : s.point = .print items)
    (hstr : ¬ ∀ item ∈ items, item.2.IsStr) :
    ∃ t, ReflTransGen env.Moves s t ∧ t.point = .down := by
  induction items generalizing s with
  | nil => simp at hstr
  | cons item items ih =>
    obtain ⟨token, time⟩ := item
    have hrest : ¬ s.Resting := by simp [PushSystem.Resting, hp]
    cases time with
    | str text =>
      have hitems : ¬ ∀ item ∈ items, item.2.IsStr := fun h =>
        hstr (List.forall_mem_cons.mpr ⟨trivial, h⟩)
      obtain ⟨t, ht, hdown⟩ := ih (s := { s with point := .print items }) rfl hitems
      refine ⟨t, .head ⟨hrest, ?_⟩ ht, hdown⟩
      simp [event, PushSystem.step, PushSystem.print, hp]
    | datetime seconds =>
      refine ⟨s.goDown, .single ⟨hrest, ?_⟩, rfl⟩
      simp [event, PushSystem.step, PushSystem.print, hp]

theorem moves_next {tok : Registration} {rest : List Registration} (hp : s.point = .next)
    (htokens : s.tokenColl = tok :: rest) (hnew : tok.id ∉ s.cursor.returned) :
    env.Moves s { s with
      point := .send tok, cursor.returned := s.cursor.returned ++ [tok.id] } := by
  have hevent : env.event s = .next tok := by simp [event, hp, htokens, hnew]
  exact ⟨by simp [PushSystem.Resting, hp], by simp [hevent, PushSystem.step, hp, htokens, hnew]⟩

theorem moves_send {tok : Registration} (hp : s.point = .send tok) (hbad : env.bad tok = false) :
    env.Moves s { s with
      point := .insert tok, handed := s.handed ++ [tok], sends := s.sends ++ [tok] } := by
  have hevent : env.event s = .send := by simp [event, hp, hbad]
  exact ⟨by simp [PushSystem.Resting, hp], by simp [hevent, PushSystem.step, hp]⟩

theorem moves_send_bad {tok : Registration} (hp : s.point = .send tok)
    (hbad : env.bad tok = true) : env.Moves s { s.goDown with handed := s.handed ++ [tok] } := by
  have hevent : env.event s = .raises := by simp [event, hp, hbad]
  exact ⟨by simp [PushSystem.Resting, hp],
    by simp [hevent, PushSystem.step, PushSystem.raises, hp]⟩

theorem moves_insert_raises {tok : Registration} (hp : s.point = .insert tok)
    (hsent : tok.id ∈ s.sentIds) (hraises : env.duplicate = .raises) : env.Moves s s.goDown := by
  have hevent : env.event s = .raises := by simp [event, hp, hsent, hraises]
  exact ⟨by simp [PushSystem.Resting, hp],
    by simp [hevent, PushSystem.step, PushSystem.raises, hp]⟩

/-- `deviceTokens:sent` after an insert that does not raise. -/
def recorded (env : Environment) (s : PushSystem) (tok : Registration) : List SentRegistration :=
  if tok.id ∈ s.sentIds then s.sentTokenColl else s.sentTokenColl ++ [⟨tok, env.now tok⟩]

theorem moves_insert {tok : Registration} (hp : s.point = .insert tok)
    (hdropped : tok.id ∈ s.sentIds → env.duplicate = .dropped) :
    env.Moves s { s with point := .remove tok, sentTokenColl := env.recorded s tok } := by
  have hrest : ¬ s.Resting := by simp [PushSystem.Resting, hp]
  by_cases hsent : tok.id ∈ s.sentIds
  · have hevent : env.event s = .insertDropped := by simp [event, hp, hsent, hdropped hsent]
    exact ⟨hrest, by simp only [hevent, PushSystem.step, hp, recorded, if_pos hsent]⟩
  · have hevent : env.event s = .insert (env.now tok) := by simp [event, hp, hsent]
    exact ⟨hrest, by simp only [hevent, PushSystem.step, hp, recorded, if_neg hsent]⟩

theorem moves_remove {tok : Registration} (hp : s.point = .remove tok) :
    env.Moves s { s with
      point := .next, tokenColl := s.tokenColl.filter fun r => decide (r.id ≠ tok.id) } := by
  have hevent : env.event s = .remove := by simp [event, hp]
  exact ⟨by simp [PushSystem.Resting, hp], by simp [hevent, PushSystem.step, hp]⟩

theorem moves_exhausted (hp : s.point = .next) (htokens : s.tokenColl = []) :
    env.Moves s { s with point := .feedback } := by
  have hevent : env.event s = .exhausted := by simp [event, hp, htokens]
  exact ⟨by simp [PushSystem.Resting, hp], by simp [hevent, PushSystem.step, hp, htokens]⟩

/-- The system after the registration in front was handed over, recorded and removed. -/
def delivered (env : Environment) (s : PushSystem) (tok : Registration)
    (rest : List Registration) : PushSystem :=
  { s with
    tokenColl := rest
    sentTokenColl := env.recorded s tok
    point := .next
    cursor.returned := s.cursor.returned ++ [tok.id]
    handed := s.handed ++ [tok]
    sends := s.sends ++ [tok] }

theorem leads_send {tok : Registration} {rest : List Registration} (hp : s.point = .next)
    (htokens : s.tokenColl = tok :: rest) (hids : (s.tokenColl.map Registration.id).Nodup)
    (hnew : tok.id ∉ s.cursor.returned) (htok : env.Passes s tok) :
    ReflTransGen env.Moves s (env.delivered s tok rest) := by
  have hfilter : s.tokenColl.filter (fun r => decide (r.id ≠ tok.id)) = rest := by
    rw [htokens, List.map_cons, List.nodup_cons] at hids
    have hrest : ∀ r ∈ rest, r.id ≠ tok.id := fun r hr h => hids.1 (h ▸ List.mem_map_of_mem hr)
    rw [htokens, List.filter_cons_of_neg (by simp), List.filter_eq_self.mpr (by simpa using hrest)]
  apply ReflTransGen.head (moves_next hp htokens hnew)
  apply ReflTransGen.head (moves_send rfl htok.1)
  refine .head (moves_insert rfl htok.2) ?_
  apply ReflTransGen.single
  rw [delivered, ← hfilter]
  exact moves_remove rfl

/-- Refused by the gateway or by the collection: the exception ends the process. -/
theorem leads_refused {tok : Registration} {rest : List Registration} (hp : s.point = .next)
    (htokens : s.tokenColl = tok :: rest) (hnew : tok.id ∉ s.cursor.returned)
    (htok : ¬ env.Passes s tok) : ∃ t, ReflTransGen env.Moves s t ∧ t.point = .down := by
  have hnext : ReflTransGen env.Moves s _ := .single (moves_next hp htokens hnew)
  cases hbad : env.bad tok with
  | true => exact ⟨_, hnext.tail (moves_send_bad rfl hbad), rfl⟩
  | false =>
    obtain ⟨hsent, hraises⟩ : tok.id ∈ s.sentIds ∧ env.duplicate ≠ .dropped := by
      simpa [Passes, hbad] using htok
    have hraises : env.duplicate = .raises := by
      cases hduplicate : env.duplicate with
      | raises => rfl
      | dropped => exact absurd hduplicate hraises
    exact ⟨_, (hnext.tail (moves_send rfl hbad)).tail (moves_insert_raises rfl hsent hraises), rfl⟩

/-- The registrations that are left after the one in front find the cursor and the collection of
the sent ones as they need them. -/
theorem mem_sentIds_delivered {tok r : Registration} {rest : List Registration}
    (hne : r.id ≠ tok.id) : r.id ∈ (env.delivered s tok rest).sentIds ↔ r.id ∈ s.sentIds := by
  have hmap : (env.delivered s tok rest).sentIds =
      if tok.id ∈ s.sentIds then s.sentIds else s.sentIds ++ [tok.id] := by
    rw [PushSystem.sentIds, delivered, recorded]
    split_ifs <;> simp [PushSystem.sentIds]
  rw [hmap]
  split_ifs with hsent
  · exact Iff.rfl
  · simp [hne]

theorem passes_delivered {tok r : Registration} {rest : List Registration} (hne : r.id ≠ tok.id) :
    env.Passes (env.delivered s tok rest) r ↔ env.Passes s r := by
  rw [Passes, Passes, mem_sentIds_delivered hne]

theorem notMem_returned_delivered {tok r : Registration} {rest : List Registration}
    (hne : r.id ≠ tok.id) (hnew : r.id ∉ s.cursor.returned) :
    r.id ∉ (env.delivered s tok rest).cursor.returned := by
  simpa [delivered, hne] using hnew

theorem ids_ne {tok : Registration} {rest : List Registration}
    (hids : ((tok :: rest).map Registration.id).Nodup) :
    (rest.map Registration.id).Nodup ∧ ∀ r ∈ rest, r.id ≠ tok.id := by
  rw [List.map_cons, List.nodup_cons] at hids
  exact ⟨hids.2, fun r hr h => hids.1 (h ▸ List.mem_map_of_mem hr)⟩

/-- The registrations whose `_id` is not in `deviceTokens:sent` yet. -/
def unsent (s : PushSystem) (tokens : List Registration) : List Registration :=
  tokens.filter fun tok => decide (tok.id ∉ s.sentIds)

theorem recorded_append_unsent {tok : Registration} {rest : List Registration}
    (hne : ∀ r ∈ rest, r.id ≠ tok.id) :
    env.recorded s tok ++ (unsent (env.delivered s tok rest) rest).map
        (fun r => (⟨r, env.now r⟩ : SentRegistration)) =
      s.sentTokenColl ++ (unsent s (tok :: rest)).map fun r => ⟨r, env.now r⟩ := by
  have hrest : unsent (env.delivered s tok rest) rest = unsent s rest :=
    List.filter_congr fun r hr => by simp only [mem_sentIds_delivered (hne r hr)]
  rw [hrest]
  by_cases hsent : tok.id ∈ s.sentIds <;> simp [recorded, unsent, hsent]

/-- The loop over the registrations, if no call raises for any of them. -/
theorem leads_tokens {tokens : List Registration} (hp : s.point = .next)
    (htokens : s.tokenColl = tokens) (hids : (tokens.map Registration.id).Nodup)
    (hnew : ∀ tok ∈ tokens, tok.id ∉ s.cursor.returned)
    (hpasses : ∀ tok ∈ tokens, env.Passes s tok) :
    ∃ s', ReflTransGen env.Moves s s' ∧ s'.point = .feedback ∧ s'.tokenColl = [] ∧
      s'.sentTokenColl = s.sentTokenColl ++ (unsent s tokens).map (fun r => ⟨r, env.now r⟩) ∧
      s'.handed = s.handed ++ tokens := by
  induction tokens generalizing s with
  | nil => exact ⟨_, .single (moves_exhausted hp htokens), rfl, htokens, by simp [unsent], by simp⟩
  | cons tok rest ih =>
    obtain ⟨hids', hne⟩ := ids_ne hids
    obtain ⟨htok, hrest⟩ := List.forall_mem_cons.mp hpasses
    have hsend := leads_send hp htokens (htokens ▸ hids) (hnew tok (by simp)) htok
    obtain ⟨s', hs', hpoint, hcoll, hsent, hhanded⟩ := ih (s := env.delivered s tok rest) rfl rfl
      hids' (fun r hr => notMem_returned_delivered (hne r hr) (hnew r (by simp [hr])))
      (fun r hr => (passes_delivered (hne r hr)).mpr (hrest r hr))
    refine ⟨s', hsend.trans hs', hpoint, hcoll, ?_, ?_⟩
    · exact hsent.trans (recorded_append_unsent hne)
    · simp [hhanded, delivered]

/-- The loop over the registrations, if a call raises for one of them. -/
theorem leads_tokens_down {tokens : List Registration} (hp : s.point = .next)
    (htokens : s.tokenColl = tokens) (hids : (tokens.map Registration.id).Nodup)
    (hnew : ∀ tok ∈ tokens, tok.id ∉ s.cursor.returned)
    (hpasses : ¬ ∀ tok ∈ tokens, env.Passes s tok) :
    ∃ t, ReflTransGen env.Moves s t ∧ t.point = .down := by
  induction tokens generalizing s with
  | nil => simp at hpasses
  | cons tok rest ih =>
    obtain ⟨hids', hne⟩ := ids_ne hids
    by_cases htok : env.Passes s tok
    · have hrest : ¬ ∀ r ∈ rest, env.Passes (env.delivered s tok rest) r := fun h =>
        hpasses (List.forall_mem_cons.mpr
          ⟨htok, fun r hr => (passes_delivered (hne r hr)).mp (h r hr)⟩)
      have hsend := leads_send hp htokens (htokens ▸ hids) (hnew tok (by simp)) htok
      obtain ⟨t, ht, hdown⟩ := ih (s := env.delivered s tok rest) rfl rfl hids'
        (fun r hr => notMem_returned_delivered (hne r hr) (hnew r (by simp [hr]))) hrest
      exact ⟨t, hsend.trans ht, hdown⟩
    · exact leads_refused hp htokens (hnew tok (by simp)) htok

/-- Nothing that the sender does puts a registration beside another one with its `_id`. -/
theorem shadows_of_effect {tok : Registration} (h : PushSystem.Effect s t) (hs : s.Shadows tok) :
    t.Shadows tok := by
  cases h with
  | insert r now hp hnew =>
    obtain ⟨hid, hnot⟩ := hs
    have hne : tok ≠ r := fun heq => hnew (heq ▸ hid)
    rw [PushSystem.sentIds] at hid
    exact ⟨by simp [PushSystem.sentIds, hid], by simpa [hne] using hnot⟩
  | _ => exact hs

theorem Round.shadows {tok : Registration} (h : env.Round s t) (hs : s.Shadows tok) :
    t.Shadows tok := by
  obtain ⟨s', hwake, hmoves, -⟩ := h
  have hs' : s'.Shadows tok := shadows_of_effect (PushSystem.step_effect hwake) hs
  clear hwake
  induction hmoves with
  | refl => exact hs'
  | tail _ hmove ih => exact shadows_of_effect (PushSystem.step_effect hmove.2) ih

theorem accepts_iff {tok : Registration} :
    env.Accepts s tok ↔ env.Passes s tok ∧ ¬ s.Shadows tok := by
  by_cases hsent : tok.id ∈ s.sentIds
  · simp only [Accepts, Passes, PushSystem.Shadows, hsent, not_true_eq_false, false_or,
      true_and, forall_const, not_not, and_assoc]
  · simp [Accepts, Passes, PushSystem.Shadows, hsent]

/-- The condition under which a round does what it should. -/
def Smooth (env : Environment) (s : PushSystem) : Prop :=
  finds50 s.freqColl = some false ∨
    finds50 s.freqColl = some true ∧ (∀ tok ∈ s.tokenColl, env.Accepts s tok) ∧
      ∀ item ∈ env.items, item.2.IsStr

/-- A round that finds at least 50 comes to the loop over the registrations. -/
theorem leads_loop (hp : s.point = .decide) (h50 : finds50 s.freqColl = some true) :
    ReflTransGen env.Moves s { s with
      point := .next, cursor := ⟨s.tokenColl.map Registration.id, []⟩ } := by
  refine .head (b := { s with point := .find }) ⟨by simp [PushSystem.Resting, hp], ?_⟩ ?_
  · simp [event, PushSystem.step, hp, h50]
  refine .head (b := { s with
    point := .connect, cursor := ⟨s.tokenColl.map Registration.id, []⟩ })
    ⟨by simp [PushSystem.Resting], by simp [event, PushSystem.step]⟩ ?_
  exact .single ⟨by simp [PushSystem.Resting], by simp [event, PushSystem.step]⟩

theorem moves_feedback (hp : s.point = .feedback) :
    env.Moves s { s with point := .print env.items } := by
  have hevent : env.event s = .feedback env.items := by simp [event, hp]
  exact ⟨by simp [PushSystem.Resting, hp], by simp [hevent, PushSystem.step, hp]⟩

theorem round_of_leads (hsleep : s.point = .sleep)
    (h : ReflTransGen env.Moves { s with point := .decide } t) (ht : t.Resting) :
    env.Round s t :=
  ⟨{ s with point := .decide }, by simp [PushSystem.step, hsleep], h, ht⟩

/-- A round in which the process ends has not done what it should. -/
theorem not_delivers_of_down (hsleep : s.point = .sleep)
    (h : ∃ t, ReflTransGen env.Moves { s with point := .decide } t ∧ t.point = .down) :
    ¬ ∃ t, env.Round s t ∧ env.Delivers s t := by
  rintro ⟨t, hround, hdelivers⟩
  obtain ⟨t', ht', hdown⟩ := h
  obtain rfl := hround.unique (round_of_leads hsleep ht' (.inr hdown))
  rw [hdelivers.running] at hdown
  contradiction

theorem down_of_refused (h50 : finds50 s.freqColl = some true)
    (hids : (s.tokenColl.map Registration.id).Nodup)
    (hpasses : ¬ ∀ tok ∈ s.tokenColl, env.Passes s tok) :
    ∃ t, ReflTransGen env.Moves { s with point := .decide } t ∧ t.point = .down := by
  have hloop : ReflTransGen env.Moves { s with point := .decide } _ := leads_loop rfl h50
  obtain ⟨t, ht, hdown⟩ := @leads_tokens_down env { s with
    point := .next, cursor := ⟨s.tokenColl.map Registration.id, []⟩ } _ rfl rfl hids (by simp)
    hpasses
  exact ⟨t, hloop.trans ht, hdown⟩

/-- A registration that is not accepted ends the process, or is removed without being recorded. -/
theorem not_delivers_of_not_accepts (hsleep : s.point = .sleep)
    (h50 : finds50 s.freqColl = some true) (hids : (s.tokenColl.map Registration.id).Nodup)
    (haccepts : ¬ ∀ tok ∈ s.tokenColl, env.Accepts s tok) :
    ¬ ∃ t, env.Round s t ∧ env.Delivers s t := by
  by_cases hpasses : ∀ tok ∈ s.tokenColl, env.Passes s tok
  · push Not at haccepts
    obtain ⟨tok, htok, hnot⟩ := haccepts
    have hshadows : s.Shadows tok := by
      by_contra hshadows
      exact hnot (accepts_iff.mpr ⟨hpasses tok htok, hshadows⟩)
    rintro ⟨t, hround, hdelivers⟩
    exact (hround.shadows hshadows).2 (hdelivers.sent h50 tok htok (hpasses tok htok).1)
  · exact not_delivers_of_down hsleep (down_of_refused h50 hids hpasses)

/-- A round of accepted registrations comes to the feedback with all of them delivered. -/
theorem leads_feedback (h50 : finds50 s.freqColl = some true)
    (hids : (s.tokenColl.map Registration.id).Nodup)
    (haccepts : ∀ tok ∈ s.tokenColl, env.Accepts s tok) :
    ∃ s', ReflTransGen env.Moves { s with point := .decide } s' ∧
      s'.point = .print env.items ∧ ∀ t : PushSystem, t = { s' with point := .sleep } →
        env.Delivers s t := by
  have hloop : ReflTransGen env.Moves { s with point := .decide } _ := leads_loop rfl h50
  have hpasses : ∀ tok ∈ s.tokenColl, env.Passes s tok := fun tok htok =>
    (accepts_iff.mp (haccepts tok htok)).1
  obtain ⟨s', hs', hpoint, hcoll, hsent, hhanded⟩ := @leads_tokens env { s with
    point := .next, cursor := ⟨s.tokenColl.map Registration.id, []⟩ } _ rfl rfl hids (by simp)
    hpasses
  refine ⟨_, (hloop.trans hs').tail (moves_feedback hpoint), rfl, ?_⟩
  rintro t rfl
  have hgood : ∀ tok ∈ s.tokenColl, env.bad tok = false := fun tok htok => (hpasses tok htok).1
  have hall : (s.tokenColl.filter fun tok => !env.bad tok) = s.tokenColl :=
    List.filter_eq_self.mpr (by simpa using hgood)
  refine ⟨rfl, fun _ => ?_, fun _ tok htok _ => ?_, fun _ => ?_, fun _ tok htok _ => ?_⟩
  · rw [List.filter_eq_nil_iff.mpr (by simpa using hgood)]
    exact hcoll
  · rw [hsent, List.map_append]
    apply List.mem_append.mpr
    rcases (haccepts tok htok).2 with hnew | hold
    · have hunsent : tok ∈ unsent s s.tokenColl := by simpa [unsent, htok] using hnew
      exact .inr (List.mem_map.mpr ⟨_, List.mem_map_of_mem hunsent, rfl⟩)
    · exact .inl hold.2
  · exact ⟨unsent s s.tokenColl, hall.symm ▸ List.filter_sublist, hsent⟩
  · have hnodup : s.tokenColl.Nodup := hids.of_map
    simp only [hhanded, List.count_append, List.count_eq_one_of_mem hnodup htok]

/-- A round does what it should exactly if it finds less than 50, or at least 50 with all
registrations accepted and all times of the feedback strings. -/
theorem round_delivers_iff (hsleep : s.point = .sleep)
    (hids : (s.tokenColl.map Registration.id).Nodup) :
    (∃ t, env.Round s t ∧ env.Delivers s t) ↔ env.Smooth s := by
  cases h50 : finds50 s.freqColl with
  | none =>
    refine iff_of_false (not_delivers_of_down hsleep ?_) (by simp [Smooth, h50])
    refine ⟨{ s with point := .decide }.goDown, .single ⟨by simp [PushSystem.Resting], ?_⟩, rfl⟩
    simp [event, PushSystem.step, h50]
  | some found =>
    cases found with
    | false =>
      refine iff_of_true ⟨{ s with point := .sleep }, round_of_leads hsleep ?_ (.inl rfl), ?_⟩
        (.inl h50)
      · exact .single ⟨by simp [PushSystem.Resting], by simp [event, PushSystem.step, h50]⟩
      · exact ⟨rfl, by simp [h50], by simp [h50], by simp [h50], by simp [h50]⟩
    | true =>
      by_cases haccepts : ∀ tok ∈ s.tokenColl, env.Accepts s tok
      · obtain ⟨s', hs', hpoint, hdelivers⟩ := leads_feedback h50 hids haccepts
        by_cases hstr : ∀ item ∈ env.items, item.2.IsStr
        · refine iff_of_true ⟨_, round_of_leads hsleep (hs'.trans (leads_print hpoint hstr))
            (.inl rfl), hdelivers _ rfl⟩ (.inr ⟨h50, haccepts, hstr⟩)
        · obtain ⟨t, ht, hdown⟩ := leads_print_down hpoint hstr
          refine iff_of_false (not_delivers_of_down hsleep ⟨t, hs'.trans ht, hdown⟩) ?_
          exact fun h => h.elim (by simp [h50]) fun h => hstr h.2.2
      · apply iff_of_false (not_delivers_of_not_accepts hsleep h50 hids haccepts)
        exact fun h => h.elim (by simp [h50]) fun h => haccepts h.2.1

/-- The reading of fifty and two registrations, with the sender asleep. -/
def twoPending : PushSystem where
  tokenColl := [⟨1, ['0', '0'], 0⟩, ⟨2, ['0', '1'], 0⟩]
  sentTokenColl := []
  freqColl := [⟨1, some (.json (.int 50))⟩]
  point := .sleep
  cursor := ⟨[], []⟩
  inserted := [⟨1, ['0', '0'], 0⟩, ⟨2, ['0', '1'], 0⟩]
  handed := []
  sends := []
  cuts := []

/-- The gateway raises for the bad ones, and the feedback service has a time that is a string. -/
def withBad (bad : Registration → Bool) : Environment :=
  ⟨bad, fun _ => 0, .dropped, [(['0', '2'], .str ['0'])]⟩

/-- Both are accepted. -/
theorem round_delivers_iff_accepted :
    (∃ t, (withBad fun _ => false).Round twoPending t ∧
      (withBad fun _ => false).Delivers twoPending t) ↔
      (withBad fun _ => false).Smooth twoPending :=
  round_delivers_iff rfl (by decide)

/-- The gateway raises for the first of them. -/
theorem round_delivers_fails :
    ¬ ∃ t, (withBad fun tok => decide (tok.id = 1)).Round twoPending t ∧
      (withBad fun tok => decide (tok.id = 1)).Delivers twoPending t := by
  refine not_delivers_of_down rfl (down_of_refused rfl (by decide) fun h => ?_)
  have hbad := (h ⟨1, ['0', '0'], 0⟩ (by simp [twoPending])).1
  simp [withBad] at hbad

end Environment
end GridApps.Webserver
