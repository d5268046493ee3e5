import GridApps.Json.Scanner
import GridApps.Transition.Runs
import Mathlib.Data.List.MinMax

/-! The push sender `freqSendNotification.py` with the collections that it shares with others. -/
namespace GridApps.Webserver
open Json Numeral Transition

/-- The `_id` of a document. -/
abbrev ObjectId := ℕ

/-- A document of `deviceTokens:received`. -/
structure Registration where
  id : ObjectId
  token : Text
  ts : ℤ
  deriving DecidableEq, Repr

/-- A document of `deviceTokens:sent`. -/
structure SentRegistration where
  registration : Registration
  tsSent : ℤ
  deriving DecidableEq, Repr

/-- What is under `freq`: a value that JSON has too, or one of another BSON type, by what Python
makes of its comparison with 50, which may raise. -/
inductive FreqValue where
  | json (v : Value)
  | other (atLeast50 : Option Bool)

/-- A document of `frequency:received`, the collection. -/
structure FreqDoc where
  id : ObjectId
  freq : Option FreqValue

/-- Python 2's `freq >= 50`: `None` comes before every number, and any other type after it. -/
def atLeast50 : Value → Bool
  | .null => false
  | .bool _ => false
  | .int n => decide (50 ≤ n)
  | .float x => x.ge 50
  | .str _ => true
  | .arr _ => true
  | .obj _ => true

def FreqValue.atLeast50 : FreqValue → Option Bool
  | .json v => some (Webserver.atLeast50 v)
  | .other atLeast50 => atLeast50

/-- `find().sort('_id',-1).limit(1)` -/
def newestDoc (freqColl : List FreqDoc) : Option FreqDoc := freqColl.argmax FreqDoc.id

/-- The condition of the main loop. It raises without a document, and without a `freq` in it. -/
def finds50 (freqColl : List FreqDoc) : Option Bool :=
  (newestDoc freqColl).bind fun doc => doc.freq.bind FreqValue.atLeast50

/-- The time with an item of the feedback service. -/
inductive FailTime where
  | str (t : Text)
  | datetime (seconds : ℤ)
  deriving DecidableEq, Repr

/-- Where the sender stands: before the call that the point is named after. -/
inductive Point where
  | sleep
  | decide
  | find
  | connect
  | next
  | send (tok : Registration)
  | insert (tok : Registration)
  | remove (tok : Registration)
  | feedback
  | print (items : List (Text × FailTime))
  | down
  deriving DecidableEq, Repr

/-- The documents that were there when the cursor was opened, and those that it has returned. -/
structure Cursor where
  opened : List ObjectId
  returned : List ObjectId
  deriving DecidableEq, Repr

/-- The collections and the process. Of the run so far: the registrations that were ever inserted,
those handed to `send_notification` and those for which it succeeded, one entry for each call, and
those that were under way between a successful call and the end of their removal when the process
ended. -/
structure PushSystem where
  tokenColl : List Registration
  sentTokenColl : List SentRegistration
  freqColl : List FreqDoc
  point : Point
  cursor : Cursor
  inserted : List Registration
  handed : List Registration
  sends : List Registration
  cuts : List Registration

inductive PushEvent where
  | register (r : Registration)
  | record (doc : FreqDoc)
  | start
  | stop
  | raises
  | wake
  | decide
  | find
  | connect
  | next (tok : Registration)
  | exhausted
  | send
  | insert (now : ℤ)
  | insertDropped
  | remove
  | feedback (items : List (Text × FailTime))
  | print

/-- What a send has been made for and a removal is due for. -/
def Point.inFlight : Point → List Registration
  | .insert tok => [tok]
  | .remove tok => [tok]
  | _ => []

namespace PushSystem

def initial (freqColl : List FreqDoc) : PushSystem :=
  ⟨[], [], freqColl, .down, ⟨[], []⟩, [], [], [], []⟩

def sentIds (s : PushSystem) : List ObjectId :=
  s.sentTokenColl.map fun sent => sent.registration.id

/-- The process ends. An exception ends it inside the `try` as well: `Error` is no name. -/
def goDown (s : PushSystem) : PushSystem :=
  { s with point := .down, cuts := s.cuts ++ s.point.inFlight }

/-- The call at which the sender stands raises. -/
def raises (s : PushSystem) : Option PushSystem :=
  match s.point with
  | .sleep => none
  | .down => none
  | .send tok => some { s.goDown with handed := s.handed ++ [tok] }
  | _ => some s.goDown

/-- `print token_hex+" : "+fail_time`, which raises for a time that is no string. -/
def print (s : PushSystem) : Option PushSystem :=
  match s.point with
  | .print [] => some { s with point := .sleep }
  | .print ((_, .str _) :: items) => some { s with point := .print items }
  | .print ((_, .datetime _) :: _) => some s.goDown
  | _ => none

/-- One step of the sender, or of another process that inserts a document with an `_id` of its
own. `tokens.count > 0` compares a method with a number and is always true. A cursor need not
return what was inserted after it was opened. An insert of an `_id` that is there already raises
or, on a connection that does not wait for the answer, is dropped. -/
def step (s : PushSystem) : PushEvent → Option PushSystem
  | .register r =>
    if r.id ∈ s.inserted.map Registration.id then none
    else some { s with tokenColl := s.tokenColl ++ [r], inserted := s.inserted ++ [r] }
  | .record doc =>
    if doc.id ∈ s.freqColl.map FreqDoc.id then none
    else some { s with freqColl := s.freqColl ++ [doc] }
  | .start => if s.point = .down then some { s with point := .sleep } else none
  | .stop => if s.point = .down then none else some s.goDown
  | .raises => s.raises
  | .wake => if s.point = .sleep then some { s with point := .decide } else none
  | .decide =>
    if s.point = .decide then match finds50 s.freqColl with
      | none => some s.goDown
      | some true => some { s with point := .find }
      | some false => some { s with point := .sleep }
    else none
  | .find =>
    if s.point = .find then
      some { s with point := .connect, cursor := ⟨s.tokenColl.map Registration.id, []⟩ }
    else none
  | .connect => if s.point = .connect then some { s with point := .next } else none
  | .next tok =>
    if s.point = .next ∧ tok ∈ s.tokenColl ∧ tok.id ∉ s.cursor.returned then
      some { s with point := .send tok, cursor.returned := s.cursor.returned ++ [tok.id] }
    else none
  | .exhausted =>
    if s.point = .next ∧ ∀ tok ∈ s.tokenColl, tok.id ∈ s.cursor.opened →
        tok.id ∈ s.cursor.returned then
      some { s with point := .feedback }
    else none
  | .send => match s.point with
    | .send tok =>
      some { s with point := .insert tok, handed := s.handed ++ [tok], sends := s.sends ++ [tok] }
    | _ => none
  | .insert now => match s.point with
    | .insert tok =>
      if tok.id ∈ s.sentIds then none
      else some { s with point := .remove tok, sentTokenColl := s.sentTokenColl ++ [⟨tok, now⟩] }
    | _ => none
  | .insertDropped => match s.point with
    | .insert tok => if tok.id ∈ s.sentIds then some { s with point := .remove tok } else none
    | _ => none
  | .remove => match s.point with
    | .remove tok => some { s with
        point := .next
        tokenColl := s.tokenColl.filter fun r => decide (r.id ≠ tok.id) }
    | _ => none
  | .feedback items =>
    if s.point = .feedback then some { s with point := .print items } else none
  | .print => s.print

/-- Everything a step can do to the registrations. The last kind only moves the sender from one
point to another, with no registration under way. -/
inductive Effect (s : PushSystem) : PushSystem → Prop
  | register (r : Registration) (hr : r.id ∉ s.inserted.map Registration.id) :
      Effect s { s with tokenColl := s.tokenColl ++ [r], inserted := s.inserted ++ [r] }
  | record (freqColl : List FreqDoc) : Effect s { s with freqColl := freqColl }
  | down (handed : List Registration) : Effect s { s.goDown with handed := s.handed ++ handed }
  | send (tok : Registration) (hp : s.point = .send tok) :
      Effect s { s with
        point := .insert tok
        handed := s.handed ++ [tok]
        sends := s.sends ++ [tok] }
  | insert (tok : Registration) (now : ℤ) (hp : s.point = .insert tok) (hnew : tok.id ∉ s.sentIds) :
      Effect s { s with
        point := .remove tok
        sentTokenColl := s.sentTokenColl ++ [⟨tok, now⟩] }
  | insertDropped (tok : Registration) (hp : s.point = .insert tok) (hsent : tok.id ∈ s.sentIds) :
      Effect s { s with point := .remove tok }
  | remove (tok : Registration) (hp : s.point = .remove tok) :
      Effect s { s with
        point := .next
        tokenColl := s.tokenColl.filter fun r => decide (r.id ≠ tok.id) }
  | move (point : Point) (cursor : Cursor) (hfrom : s.point.inFlight = [])
      (hto : point.inFlight = []) (hsend : ∀ tok, point = .send tok → tok ∈ s.tokenColl) :
      Effect s { s with point := point, cursor := cursor }

theorem Effect.goDown (s : PushSystem) : Effect s s.goDown := by
  have h := Effect.down (s := s) []
  rwa [List.append_nil] at h

/-- A move from a point with nothing under way to one with nothing under way that is no send. -/
theorem Effect.pass {s : PushSystem} {before : Point} (point : Point) (cursor : Cursor)
    (hp : s.point = before) (hfrom : before.inFlight = [] := by rfl)
    (hto : point.inFlight = [] := by rfl) (hsend : ∀ tok, point ≠ .send tok := by simp) :
    Effect s { s with point := point, cursor := cursor } :=
  .move point cursor (hp ▸ hfrom) hto fun tok h => absurd h (hsend tok)

/-- A step with a guard. -/
theorem Effect.guarded {s t s' : PushSystem} {p : Prop} [Decidable p]
    (h : (if p then some t else none) = some s') (heffect : p → Effect s t) : Effect s s' := by
  split_ifs at h with hp
  exact Option.some.inj h ▸ heffect hp

/-- A step with a guard against it. -/
theorem Effect.unless {s t s' : PushSystem} {p : Prop} [Decidable p]
    (h : (if p then none else some t) = some s') (heffect : ¬ p → Effect s t) : Effect s s' := by
  split_ifs at h with hp
  exact Option.some.inj h ▸ heffect hp

theorem decide_effect {s s' : PushSystem} (h : s.step .decide = some s') : Effect s s' := by
  simp only [step] at h
  split_ifs at h with hp
  split at h
  · exact Option.some.inj h ▸ .goDown s
  · exact Option.some.inj h ▸ .pass .find s.cursor hp
  · exact Option.some.inj h ▸ .pass .sleep s.cursor hp

theorem print_effect {s s' : PushSystem} (h : s.print = some s') : Effect s s' := by
  unfold print at h
  split at h
  · next hp => exact Option.some.inj h ▸ .pass .sleep s.cursor hp
  · next hp => exact Option.some.inj h ▸ .pass (.print _) s.cursor hp
  · exact Option.some.inj h ▸ .goDown s
  · contradiction

theorem raises_effect {s s' : PushSystem} (h : s.raises = some s') : Effect s s' := by
  unfold raises at h
  split at h
  · contradiction
  · contradiction
  · next tok hp => exact Option.some.inj h ▸ .down [tok]
  · exact Option.some.inj h ▸ .goDown s

theorem step_effect {s s' : PushSystem} {event : PushEvent} (h : s.step event = some s') :
    Effect s s' := by
  cases event with
  | register r => exact .unless h fun hr => .register r hr
  | record doc => exact .unless h fun _ => .record _
  | start => exact .guarded h fun hp => .pass .sleep s.cursor hp
  | stop => exact .unless h fun _ => .goDown s
  | raises => exact raises_effect h
  | wake => exact .guarded h fun hp => .pass .decide s.cursor hp
  | decide => exact decide_effect h
  | find => exact .guarded h fun hp => .pass .connect _ hp
  | connect => exact .guarded h fun hp => .pass .next s.cursor hp
  | next tok =>
    refine .guarded h fun hp => .move (.send tok) _ (hp.1 ▸ rfl) rfl fun tok' htok => ?_
    exact Point.send.inj htok ▸ hp.2.1
  | exhausted => exact .guarded h fun hp => .pass .feedback s.cursor hp.1
  | send =>
    simp only [step] at h
    split at h
    · next tok hp => exact Option.some.inj h ▸ .send tok hp
    · contradiction
  | insert now =>
    simp only [step] at h
    split at h
    · next tok hp => exact .unless h fun hnew => .insert tok now hp hnew
    · contradiction
  | insertDropped =>
    simp only [step] at h
    split at h
    · next tok hp => exact .guarded h fun hsent => .insertDropped tok hp hsent
    · contradiction
  | remove =>
    simp only [step] at h
    split at h
    · next tok hp => exact Option.some.inj h ▸ .remove tok hp
    · contradiction
  | feedback items => exact .guarded h fun hp => .pass (.print items) s.cursor hp
  | print => exact print_effect h

end PushSystem
end GridApps.Webserver
