import GridApps.Webserver.PushSender

/-! What becomes of the registrations when the sender is cut and started again. -/
namespace GridApps.Webserver
open Json Transition

namespace PushSystem

/-- Every registration is in one of the collections, and one that counts as sent was handed to the
gateway. -/
structure Kept (s : PushSystem) : Prop where
  stored : ∀ r ∈ s.inserted, r ∈ s.tokenColl ∨ r ∈ s.sentTokenColl.map SentRegistration.registration
  handed : ∀ sent ∈ s.sentTokenColl, sent.registration ∈ s.handed

/-- How far the registration that is under way has got by the point. -/
def Reached (s : PushSystem) : Point → Prop
  | .send tok => tok ∈ s.tokenColl
  | .insert tok => tok ∈ s.inserted ∧ tok ∈ s.handed
  | .remove tok => tok ∈ s.inserted ∧ tok ∈ s.sentTokenColl.map SentRegistration.registration
  | _ => True

theorem Reached.register {s : PushSystem} {point : Point} (h : s.Reached point)
    (r : Registration) :
    Reached { s with tokenColl := s.tokenColl ++ [r], inserted := s.inserted ++ [r] } point := by
  cases point with
  | send tok => exact List.mem_append_left _ h
  | insert tok => exact h.imp_left (List.mem_append_left _)
  | remove tok => exact h.imp_left (List.mem_append_left _)
  | _ => trivial

/-- What is behind it: the ids are unique, and what is under way has got as far as the point
says. -/
structure Sound (s : PushSystem) : Prop where
  kept : s.Kept
  unique : (s.inserted.map Registration.id).Nodup
  known : ∀ r ∈ s.tokenColl, r ∈ s.inserted
  sentKnown : ∀ sent ∈ s.sentTokenColl, sent.registration ∈ s.inserted
  reached : s.Reached s.point

theorem sound_initial (freqColl : List FreqDoc) : (initial freqColl).Sound := by
  refine ⟨⟨?_, ?_⟩, ?_, ?_, ?_, ?_⟩ <;> simp [initial, Reached]

namespace Sound

variable {s : PushSystem}

/-- Two registrations with one id are one. -/
theorem eq_of_id (hs : s.Sound) {r tok : Registration} (hr : r ∈ s.inserted)
    (htok : tok ∈ s.inserted) (hid : r.id = tok.id) : r = tok :=
  List.inj_on_of_nodup_map hs.unique hr htok hid

theorem reached_at (hs : s.Sound) {point : Point} (hp : s.point = point) : s.Reached point :=
  hp ▸ hs.reached

/-- The document that is already there under the `_id` of a registration is that registration. -/
theorem mem_sent_of_id (hs : s.Sound) {tok : Registration} (htok : tok ∈ s.inserted)
    (hid : tok.id ∈ s.sentIds) : tok ∈ s.sentTokenColl.map SentRegistration.registration := by
  obtain ⟨sent, hsent, hid⟩ := List.mem_map.mp hid
  have heq : sent.registration = tok := hs.eq_of_id (hs.sentKnown sent hsent) htok hid
  exact heq ▸ List.mem_map_of_mem hsent

theorem register (hs : s.Sound) {r : Registration} (hr : r.id ∉ s.inserted.map Registration.id) :
    Sound { s with tokenColl := s.tokenColl ++ [r], inserted := s.inserted ++ [r] } where
  kept := by
    refine ⟨fun r' hr' => ?_, hs.kept.handed⟩
    rcases List.mem_append.mp hr' with hr' | hr'
    · exact (hs.kept.stored r' hr').imp_left (List.mem_append_left _)
    · exact .inl (List.mem_append_right _ hr')
  unique := by
    rw [List.map_append]
    apply List.nodup_append.mpr
    refine ⟨hs.unique, List.nodup_singleton _, fun id hid id' hid' => ?_⟩
    obtain rfl := List.mem_singleton.mp hid'
    exact fun h => hr (h ▸ hid)
  known r' hr' := List.mem_append.mpr ((List.mem_append.mp hr').imp_left (hs.known r'))
  sentKnown sent hsent := List.mem_append_left _ (hs.sentKnown sent hsent)
  reached := hs.reached.register r

theorem down (hs : s.Sound) (handed : List Registration) :
    Sound { s.goDown with handed := s.handed ++ handed } where
  kept := ⟨hs.kept.stored, fun sent hsent => List.mem_append_left _ (hs.kept.handed sent hsent)⟩
  unique := hs.unique
  known := hs.known
  sentKnown := hs.sentKnown
  reached := trivial

theorem send (hs : s.Sound) {tok : Registration} (hp : s.point = .send tok) :
    Sound { s with
      point := .insert tok, handed := s.handed ++ [tok], sends := s.sends ++ [tok] } where
  kept := ⟨hs.kept.stored, fun sent hsent => List.mem_append_left _ (hs.kept.handed sent hsent)⟩
  unique := hs.unique
  known := hs.known
  sentKnown := hs.sentKnown
  reached := ⟨hs.known tok (hs.reached_at hp), List.mem_append_right _ (List.mem_singleton_self _)⟩

theorem insert (hs : s.Sound) {tok : Registration} (now : ℤ) (hp : s.point = .insert tok) :
    Sound { s with point := .remove tok, sentTokenColl := s.sentTokenColl ++ [⟨tok, now⟩] } := by
  obtain ⟨hinserted, hhanded⟩ := hs.reached_at hp
  refine ⟨⟨fun r hr => ?_, ?_⟩, hs.unique, hs.known, ?_, hinserted, by simp⟩
  · rw [List.map_append]
    exact (hs.kept.stored r hr).imp_right (List.mem_append_left _)
  · exact List.forall_mem_append.mpr ⟨hs.kept.handed, List.forall_mem_singleton.mpr hhanded⟩
  · exact List.forall_mem_append.mpr ⟨hs.sentKnown, List.forall_mem_singleton.mpr hinserted⟩

theorem insertDropped (hs : s.Sound) {tok : Registration} (hp : s.point = .insert tok)
    (hsent : tok.id ∈ s.sentIds) : Sound { s with point := .remove tok } := by
  have hinserted : tok ∈ s.inserted := (hs.reached_at hp).1
  exact { hs with
    kept := ⟨hs.kept.stored, hs.kept.handed⟩
    reached := ⟨hinserted, hs.mem_sent_of_id hinserted hsent⟩ }

theorem remove (hs : s.Sound) {tok : Registration} (hp : s.point = .remove tok) :
    Sound { s with
      point := .next, tokenColl := s.tokenColl.filter fun r => decide (r.id ≠ tok.id) } where
  kept := by
    obtain ⟨hinserted, hsent⟩ := hs.reached_at hp
    refine ⟨fun r hr => ?_, hs.kept.handed⟩
    by_cases hid : r.id = tok.id
    · exact .inr (hs.eq_of_id hr hinserted hid ▸ hsent)
    · apply (hs.kept.stored r hr).imp_left
      exact fun hr => List.mem_filter.mpr ⟨hr, decide_eq_true hid⟩
  unique := hs.unique
  known r hr := hs.known r (List.mem_filter.mp hr).1
  sentKnown := hs.sentKnown
  reached := trivial

theorem move (hs : s.Sound) {point : Point} (cursor : Cursor) (hto : point.inFlight = [])
    (hsend : ∀ tok, point = .send tok → tok ∈ s.tokenColl) :
    Sound { s with point := point, cursor := cursor } where
  kept := ⟨hs.kept.stored, hs.kept.handed⟩
  unique := hs.unique
  known := hs.known
  sentKnown := hs.sentKnown
  reached := by
    cases point with
    | send tok => exact hsend tok rfl
    | insert tok => contradiction
    | remove tok => contradiction
    | _ => trivial

theorem effect (hs : s.Sound) {s' : PushSystem} (h : Effect s s') : s'.Sound := by
  cases h with
  | register r hr => exact hs.register hr
  | record freqColl => exact { hs with kept := ⟨hs.kept.stored, hs.kept.handed⟩ }
  | down handed => exact hs.down handed
  | send tok hp => exact hs.send hp
  | insert tok now hp hnew => exact hs.insert now hp
  | insertDropped tok hp hsent => exact hs.insertDropped hp hsent
  | remove tok hp => exact hs.remove hp
  | move point cursor hfrom hto hsend => exact hs.move cursor hto hsend

end Sound

/-- No registration is lost, wherever the sender is cut. -/
theorem allStates_kept (freqColl : List FreqDoc) (events : List PushEvent) :
    AllStates step Kept (initial freqColl) events :=
  (allStates_of_step (fun _ _ _ hs hstep => hs.effect (step_effect hstep))
    (sound_initial freqColl) events).mono fun _ hs => hs.kept

/-- A send is followed by a removal unless the sender is cut in between. -/
structure Counted (s : PushSystem) : Prop where
  sound : s.Sound
  known : ∀ r ∈ s.sends, r ∈ s.inserted
  pending : ∀ r ∈ s.tokenColl, r ∉ s.point.inFlight → s.sends.count r ≤ s.cuts.count r
  bound : ∀ r, s.sends.count r ≤ 1 + s.cuts.count r

theorem counted_initial (freqColl : List FreqDoc) : (initial freqColl).Counted := by
  refine ⟨sound_initial freqColl, ?_, ?_, ?_⟩ <;> simp [initial]

namespace Counted

variable {s : PushSystem}

theorem register (hs : s.Counted) {r : Registration} (hr : r.id ∉ s.inserted.map Registration.id) :
    Counted { s with tokenColl := s.tokenColl ++ [r], inserted := s.inserted ++ [r] } where
  sound := hs.sound.register hr
  known r' hr' := List.mem_append_left _ (hs.known r' hr')
  pending r' hr' hflight := by
    rcases List.mem_append.mp hr' with hr' | hr'
    · exact hs.pending r' hr' hflight
    · obtain rfl := List.mem_singleton.mp hr'
      have hnone : r' ∉ s.sends := fun hsend => hr (List.mem_map_of_mem (hs.known r' hsend))
      exact (List.count_eq_zero.mpr hnone).le.trans (Nat.zero_le _)
  bound := hs.bound

/-- The send that is under way is one that a cut allows. -/
theorem down (hs : s.Counted) (handed : List Registration) :
    Counted { s.goDown with handed := s.handed ++ handed } where
  sound := hs.sound.down handed
  known := hs.known
  pending r hr _ := by
    simp only [goDown, List.count_append]
    by_cases hflight : r ∈ s.point.inFlight
    · have hpos := List.count_pos_iff.mpr hflight
      have hbound := hs.bound r
      omega
    · exact (hs.pending r hr hflight).trans (Nat.le_add_right _ _)
  bound r := by
    have hbound := hs.bound r
    simp only [goDown, List.count_append]
    omega

theorem send (hs : s.Counted) {tok : Registration} (hp : s.point = .send tok) :
    Counted { s with
      point := .insert tok, handed := s.handed ++ [tok], sends := s.sends ++ [tok] } where
  sound := hs.sound.send hp
  known := by
    have htok : tok ∈ s.inserted := hs.sound.known tok (hs.sound.reached_at hp)
    show ∀ r ∈ s.sends ++ [tok], r ∈ s.inserted
    exact List.forall_mem_append.mpr ⟨hs.known, List.forall_mem_singleton.mpr htok⟩
  pending r hr hflight := by
    have hne : tok ≠ r := fun h => hflight (by simp [Point.inFlight, h])
    have hcount := hs.pending r hr (by simp [hp, Point.inFlight])
    simpa [hne] using hcount
  bound r := by
    by_cases hr : tok = r
    · have hpending : s.sends.count tok ≤ s.cuts.count tok :=
        hs.pending tok (hs.sound.reached_at hp) (by simp [hp, Point.inFlight])
      subst hr
      simp only [List.count_append, List.count_singleton_self]
      omega
    · simpa [hr] using hs.bound r

theorem effect (hs : s.Counted) {s' : PushSystem} (h : Effect s s') : s'.Counted := by
  have hsound := hs.sound.effect h
  cases h with
  | register r hr => exact hs.register hr
  | record freqColl => exact ⟨hsound, hs.known, hs.pending, hs.bound⟩
  | down handed => exact hs.down handed
  | send tok hp => exact hs.send hp
  | insert tok now hp hnew =>
    refine ⟨hsound, hs.known, fun r hr hflight => ?_, hs.bound⟩
    exact hs.pending r hr (by simpa [hp, Point.inFlight] using hflight)
  | insertDropped tok hp hsent =>
    refine ⟨hsound, hs.known, fun r hr hflight => ?_, hs.bound⟩
    exact hs.pending r hr (by simpa [hp, Point.inFlight] using hflight)
  | remove tok hp =>
    refine ⟨hsound, hs.known, fun r hr _ => ?_, hs.bound⟩
    obtain ⟨hr, hid⟩ := List.mem_filter.mp hr
    have hne : r ≠ tok := fun h => of_decide_eq_true hid (congrArg Registration.id h)
    exact hs.pending r hr (by simpa [hp, Point.inFlight] using hne)
  | move point cursor hfrom hto hsend =>
    refine ⟨hsound, hs.known, fun r hr _ => ?_, hs.bound⟩
    exact hs.pending r hr (by simp [hfrom])

end Counted

/-- A reminder is sent once, and once more at most for each time that the sender was cut between
a send of it and the end of its removal. -/
theorem allStates_sends_le (freqColl : List FreqDoc) (events : List PushEvent) :
    AllStates step (fun s => ∀ r, s.sends.count r ≤ 1 + s.cuts.count r) (initial freqColl) events :=
  (allStates_of_step (fun _ _ _ hs hstep => hs.effect (step_effect hstep))
    (counted_initial freqColl) events).mono fun _ hs => hs.bound

/-- The token that is sent is not recorded, and the sender is started again. -/
theorem sends_twice :
    ¬ ∀ (events : List PushEvent) (s : PushSystem), run step (initial []) events = some s →
      ∀ r, s.sends.count r ≤ 1 := by
  intro h
  let tok : Registration := ⟨1, ['0', '0'], 0⟩
  have htwice := h [.register tok, .record ⟨1, some (.json (.int 50))⟩, .start, .wake, .decide,
    .find, .connect, .next tok, .send, .raises, .start, .wake, .decide, .find, .connect, .next tok,
    .send] _ rfl tok
  exact absurd htwice (by decide)

end PushSystem
end GridApps.Webserver
