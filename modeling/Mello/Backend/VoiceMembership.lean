import Mello.Backend.VoiceRooms

/-!
Who is a member of which room. A member without its entry in the user map, and
the other way round, is owed to a call between two of its sections. Along every
run in which no other call moves the user between the sections of a join or a
leave, and a join takes its seat while there is a place, nothing is owed once
the calls are done.
-/

namespace Mello.Backend.VoiceMembership
open Mello.Library Runs Tables VoiceRooms VoiceState

variable {User Channel : Type}

/-! ## What is claimed -/

section Claim

variable [DecidableEq Channel]

def limitAfter (channel : Channel) (limit : Nat) : Effect User Channel → Nat
  | .seated p opened =>
    if p.channel = channel then (if opened then p.maxMembers else max limit p.maxMembers) else limit
  | .refreshed p => if p.channel = channel then max limit p.maxMembers else limit
  | _ => limit

/-- The largest `MaxMembers` of the joins into a room, since it was opened. -/
def limitOf (channel : Channel) (log : List (Effect User Channel)) : Nat := log.foldl (limitAfter channel) 0

/-- No stored room is empty. -/
def Filled (voice : VoiceState User Channel) : Prop :=
  ∀ channel room, voice.room channel = some room → room.members.Nonempty

structure Consistent (s : State User Channel) (log : List (Effect User Channel)) : Prop where
  oneRoom : ∀ user channel other, user ∈ s.voice.members channel → user ∈ s.voice.members other → channel = other
  mapped : ∀ user channel, s.voice.userChannel user = some channel ↔ user ∈ s.voice.members channel
  filled : Filled s.voice
  bounded : ∀ channel, (s.voice.members channel).card ≤ limitOf channel log

variable [DecidableEq User]

/-- What a section of a join or a leave finds: no other call has moved its user
since its last section, and the seat it takes is free. -/
def Finds (voice : VoiceState User Channel) : Phase User Channel → Prop
  | .upsert p => voice.userChannel p.user = some p.channel
  | .seat p =>
    (∀ channel, p.user ∈ voice.members channel → channel = p.channel) ∧
      ((voice.members p.channel).erase p.user).card < p.maxMembers
  | .setMap p => p.user ∈ voice.members p.channel
  | .vacate user channel _ => voice.userChannel user ≠ some channel
  | _ => True

def Undisturbed (s : State User Channel) (action : Action User Channel) : Prop :=
  ∀ (k : Nat) (outcome : Outcome Channel User) (phase : Phase User Channel),
    action = .advance k outcome → s.calls[k]? = some phase → Finds s.voice phase

end Claim

/-! ## The invariant -/

/-- The call will write the user's map entry, or delete the user's seat. -/
def Owes (user : User) (channel : Channel) : Phase User Channel → Prop
  | .setMap p => p.user = user ∧ p.channel = channel
  | .vacate other here _ => other = user ∧ here = channel
  | _ => False

structure Kept [DecidableEq Channel] (s : State User Channel) (log : List (Effect User Channel)) : Prop where
  oneRoom : ∀ user channel other, user ∈ s.voice.members channel → user ∈ s.voice.members other → channel = other
  mapped : ∀ user channel, s.voice.userChannel user = some channel → user ∈ s.voice.members channel
  owed : ∀ user channel, user ∈ s.voice.members channel → s.voice.userChannel user = some channel ∨
    ∃ (k : Nat) (phase : Phase User Channel), s.calls[k]? = some phase ∧ Owes user channel phase
  filled : Filled s.voice
  bounded : ∀ channel, (s.voice.members channel).card ≤ limitOf channel log

section Owed

variable {calls : List (Phase User Channel)} {k : Nat} {old next : Phase User Channel} {user : User} {channel : Channel}

/-- What a call owes stays owed while other calls move. -/
theorem owed_set (here : calls[k]? = some old) (settled : ¬Owes user channel old)
    (owed : ∃ (j : Nat) (phase : Phase User Channel), calls[j]? = some phase ∧ Owes user channel phase) :
    ∃ (j : Nat) (phase : Phase User Channel), (calls.set k next)[j]? = some phase ∧ Owes user channel phase := by
  obtain ⟨j, phase, there, owes⟩ := owed
  refine ⟨j, phase, ?_, owes⟩
  rw [List.getElem?_set_ne, there]
  rintro rfl
  rw [here] at there
  exact settled (Option.some.inj there ▸ owes)

theorem owed_self (here : calls[k]? = some old) (owes : Owes user channel next) :
    ∃ (j : Nat) (phase : Phase User Channel), (calls.set k next)[j]? = some phase ∧ Owes user channel phase :=
  ⟨k, next, List.getElem?_set_self (lt_length here), owes⟩

theorem not_owes_of_looks {user : User} {channel : Channel} (looks : old.Looks) : ¬Owes user channel old := by
  cases old <;> first | exact id | exact looks.elim

end Owed

section Sections

variable [DecidableEq Channel] {voice : VoiceState User Channel} {s t : State User Channel}
variable {log effects : List (Effect User Channel)} {k : Nat} {old next : Phase User Channel}

theorem Kept.consistent (kept : Kept s log) (quiescent : Quiescent s) : Consistent s log where
  oneRoom := kept.oneRoom
  mapped := by
    intro user channel
    refine ⟨kept.mapped user channel, fun member => ?_⟩
    rcases kept.owed user channel member with mapped | ⟨k, phase, here, owes⟩
    · exact mapped
    · rw [quiescent k phase here] at owes
      exact owes.elim
  filled := kept.filled
  bounded := kept.bounded

theorem kept_start : Kept ({} : State User Channel) [] where
  oneRoom := fun _ _ _ member => absurd member (Finset.notMem_empty _)
  mapped := nofun
  owed := fun _ _ member => absurd member (Finset.notMem_empty _)
  filled := nofun
  bounded := fun _ => le_rfl

theorem limitOf_append (channel : Channel) :
    limitOf channel (log ++ effects) = effects.foldl (limitAfter channel) (limitOf channel log) :=
  List.foldl_append

/-- A section that moves nobody. -/
theorem Kept.frame (kept : Kept s log) (here : s.calls[k]? = some old) (settled : ∀ user channel, ¬Owes user channel old)
    (members : ∀ channel, voice.members channel = s.voice.members channel)
    (mapped : voice.userChannel = s.voice.userChannel) (filled : Filled voice)
    (limit : ∀ channel, limitOf channel log ≤ limitOf channel (log ++ effects)) :
    Kept { voice, calls := s.calls.set k next } (log ++ effects) where
  oneRoom := by
    intro user channel other
    change user ∈ voice.members channel → user ∈ voice.members other → _
    rw [members, members]
    exact kept.oneRoom user channel other
  mapped := by
    intro user channel
    change voice.userChannel user = _ → user ∈ voice.members channel
    rw [mapped, members]
    exact kept.mapped user channel
  owed := by
    intro user channel
    change user ∈ voice.members channel → voice.userChannel user = _ ∨ _
    rw [mapped, members]
    intro member
    exact (kept.owed user channel member).imp_right (owed_set here (settled user channel))
  filled := filled
  bounded := by
    intro channel
    change (voice.members channel).card ≤ _
    rw [members]
    exact (kept.bounded channel).trans (limit channel)

theorem filled_setRoom (filled : Filled voice) {channel : Channel} {room : VoiceRoom User}
    (nonempty : room.members.Nonempty) : Filled (voice.setRoom channel room) := by
  intro other found here
  by_cases same : other = channel
  · rw [same, room_setRoom] at here
    exact Option.some.inj here ▸ nonempty
  · rw [room_setRoom_ne voice same] at here
    exact filled other found here

theorem filled_dropRoom (filled : Filled voice) (channel : Channel) : Filled (voice.dropRoom channel) := by
  intro other found here
  by_cases same : other = channel
  · rw [same, room_dropRoom] at here
    cases here
  · rw [room_dropRoom_ne voice same] at here
    exact filled other found here

theorem filled_voiceRoomSFURegion (filled : Filled voice) (regions : SFURegions) (channel : Channel)
    (preferred environment : String) : Filled (voice.voiceRoomSFURegion regions channel preferred environment).2 := by
  unfold voiceRoomSFURegion
  cases here : voice.room channel with
  | none => exact filled
  | some room =>
    dsimp only
    split_ifs
    · exact filled
    · exact filled_setRoom filled (filled channel room here)

theorem userChannel_voiceRoomSFURegion (regions : SFURegions) (channel : Channel) (preferred environment : String) :
    (voice.voiceRoomSFURegion regions channel preferred environment).2.userChannel = voice.userChannel := by
  unfold voiceRoomSFURegion
  split
  · dsimp only
    split_ifs <;> rfl
  · rfl

variable [DecidableEq User]

theorem filled_add (filled : Filled voice) (p : VoiceJoinParams User Channel) : Filled (voice.add p).1 := by
  unfold add
  split <;> exact filled_setRoom filled (Finset.insert_nonempty _ _)

theorem filled_upsertVoiceMember (filled : Filled voice) (p : VoiceJoinParams User Channel) :
    Filled (voice.upsertVoiceMember p).1 := by
  unfold upsertVoiceMember
  split
  · split_ifs
    · exact filled_setRoom filled (Finset.insert_nonempty _ _)
    · exact filled_add filled p
  · exact filled_add filled p

theorem filled_vacate (filled : Filled voice) (user : User) (channel : Channel) (next : Next User Channel) :
    Filled (voice.vacate user channel next).1 := by
  unfold vacate
  split
  · exact filled
  · split_ifs with last
    · exact filled_dropRoom filled channel
    · exact filled_setRoom filled (Finset.nonempty_iff_ne_empty.mpr last)

theorem add_effects (voice : VoiceState User Channel) (p : VoiceJoinParams User Channel) :
    ∃ opened, (voice.add p).2 = [.seated p opened] := by
  unfold add
  split
  · exact ⟨false, rfl⟩
  · exact ⟨true, rfl⟩

theorem kept_seat (kept : Kept s log) {p : VoiceJoinParams User Channel} (here : s.calls[k]? = some (.seat p))
    (finds : Finds s.voice (.seat p)) :
    Kept { voice := (s.voice.add p).1, calls := s.calls.set k (.setMap p) } (log ++ (s.voice.add p).2) := by
  obtain ⟨alone, place⟩ := finds
  have seated : ∀ user channel, user ∈ (s.voice.add p).1.members channel ↔
      (user = p.user ∧ channel = p.channel) ∨ user ∈ s.voice.members channel := by
    intro user channel
    rw [members_add]
    split_ifs with same
    · rw [Finset.mem_insert, and_iff_left same]
    · simp [same]
  have mapped : (s.voice.add p).1.userChannel = s.voice.userChannel := by
    unfold add
    split <;> rfl
  refine ⟨?_, ?_, ?_, filled_add kept.filled p, ?_⟩
  · intro user channel other first second
    rcases (seated user channel).mp first with ⟨same, here⟩ | first <;>
      rcases (seated user other).mp second with ⟨same', here'⟩ | second
    · exact here.trans here'.symm
    · exact here.trans (alone other (same ▸ second)).symm
    · exact (alone channel (same' ▸ first)).trans here'.symm
    · exact kept.oneRoom user channel other first second
  · intro user channel entry
    exact (seated user channel).mpr (.inr (kept.mapped user channel (mapped ▸ entry)))
  · intro user channel member
    change (s.voice.add p).1.userChannel user = _ ∨ _
    rw [mapped]
    rcases (seated user channel).mp member with ⟨rfl, rfl⟩ | old
    · exact .inr (owed_self here ⟨rfl, rfl⟩)
    · exact (kept.owed user channel old).imp_right (owed_set here id)
  · intro channel
    obtain ⟨opened, effects⟩ := add_effects s.voice p
    change ((s.voice.add p).1.members channel).card ≤ _
    rw [limitOf_append, effects, members_add]
    change _ ≤ limitAfter channel (limitOf channel log) (.seated p opened)
    rw [limitAfter]
    rcases eq_or_ne channel p.channel with rfl | apart
    · have fits : (insert p.user (s.voice.members p.channel)).card ≤ p.maxMembers := by
        rw [← Finset.card_erase_add_one (Finset.mem_insert_self p.user _), Finset.erase_insert_eq_erase]
        exact place
      rw [if_pos rfl, if_pos rfl]
      cases opened with
      | true => exact fits
      | false => exact fits.trans (le_max_right _ _)
    · rw [if_neg apart, if_neg apart.symm]
      exact kept.bounded channel

theorem kept_setMap (kept : Kept s log) {p : VoiceJoinParams User Channel} (here : s.calls[k]? = some (.setMap p))
    (finds : Finds s.voice (.setMap p)) :
    Kept { voice := s.voice.setUserChannel p.user (some p.channel), calls := s.calls.set k (.record p) } log := by
  refine ⟨kept.oneRoom, ?_, ?_, kept.filled, kept.bounded⟩
  · intro user channel entry
    change Function.update s.voice.userChannel p.user (some p.channel) user = some channel at entry
    change user ∈ s.voice.members channel
    by_cases same : user = p.user
    · rw [same, Function.update_self] at entry
      rw [same, ← Option.some.inj entry]
      exact finds
    · rw [Function.update_of_ne same] at entry
      exact kept.mapped user channel entry
  · intro user channel member
    change user ∈ s.voice.members channel at member
    change Function.update s.voice.userChannel p.user (some p.channel) user = some channel ∨ _
    by_cases same : user = p.user
    · left
      rw [same, Function.update_self, kept.oneRoom user channel p.channel member (same ▸ finds)]
    · rw [Function.update_of_ne same]
      exact (kept.owed user channel member).imp_right (owed_set here fun owes => same owes.1.symm)

/-- The entry goes, and the call that took it owes the seat. -/
theorem kept_unmap (kept : Kept s log) {user : User} (here : s.calls[k]? = some old)
    (settled : ∀ user channel, ¬Owes user channel old)
    (takes : ∀ channel, s.voice.userChannel user = some channel → Owes user channel next) :
    Kept { voice := s.voice.setUserChannel user none, calls := s.calls.set k next } log := by
  refine ⟨kept.oneRoom, ?_, ?_, kept.filled, kept.bounded⟩
  · intro other channel entry
    change Function.update s.voice.userChannel user none other = some channel at entry
    by_cases same : other = user
    · rw [same, Function.update_self] at entry
      cases entry
    · rw [Function.update_of_ne same] at entry
      exact kept.mapped other channel entry
  · intro other channel member
    change Function.update s.voice.userChannel user none other = some channel ∨ _
    by_cases same : other = user
    · subst same
      rcases kept.owed other channel member with entry | owed
      · exact .inr (owed_self here (takes channel entry))
      · exact .inr (owed_set here (settled other channel) owed)
    · rw [Function.update_of_ne same]
      exact (kept.owed other channel member).imp_right (owed_set here (settled other channel))

theorem kept_vacate (kept : Kept s log) {user : User} {channel : Channel} {next : Next User Channel}
    (here : s.calls[k]? = some (.vacate user channel next)) (finds : Finds s.voice (.vacate user channel next)) :
    Kept { voice := (s.voice.vacate user channel next).1
           calls := s.calls.set k (s.voice.vacate user channel next).2.1 }
      (log ++ (s.voice.vacate user channel next).2.2) := by
  have stays : ∀ other there, other ∈ (s.voice.vacate user channel next).1.members there ↔
      other ∈ s.voice.members there ∧ ¬(other = user ∧ there = channel) := by
    intro other there
    rw [members_vacate]
    split_ifs with same
    · rw [Finset.mem_erase, and_iff_left same, and_comm]
    · simp [same]
  have mapped : (s.voice.vacate user channel next).1.userChannel = s.voice.userChannel := by
    unfold vacate
    split
    · rfl
    · split_ifs <;> rfl
  refine ⟨?_, ?_, ?_, filled_vacate kept.filled user channel next, ?_⟩
  · intro other there elsewhere first second
    exact kept.oneRoom other there elsewhere ((stays other there).mp first).1 ((stays other elsewhere).mp second).1
  · intro other there entry
    change (s.voice.vacate user channel next).1.userChannel other = _ at entry
    rw [mapped] at entry
    refine (stays other there).mpr ⟨kept.mapped other there entry, ?_⟩
    rintro ⟨rfl, rfl⟩
    exact finds entry
  · intro other there member
    obtain ⟨member, apart⟩ := (stays other there).mp member
    change (s.voice.vacate user channel next).1.userChannel other = _ ∨ _
    rw [mapped]
    refine (kept.owed other there member).imp_right (owed_set here ?_)
    rintro ⟨rfl, rfl⟩
    exact apart ⟨rfl, rfl⟩
  · intro there
    have limit : limitOf there (log ++ (s.voice.vacate user channel next).2.2) = limitOf there log := by
      rw [limitOf_append]
      unfold vacate
      split
      · rfl
      · split_ifs <;> rfl
    change ((s.voice.vacate user channel next).1.members there).card ≤ _
    rw [limit]
    refine le_trans (Finset.card_le_card ?_) (kept.bounded there)
    intro other member
    exact ((stays other there).mp member).1

theorem upsert_effects {p : VoiceJoinParams User Channel} (member : p.user ∈ voice.members p.channel) :
    (voice.upsertVoiceMember p).2 = [.refreshed p] := by
  unfold upsertVoiceMember
  cases here : voice.room p.channel with
  | none => simp [members, here] at member
  | some room =>
    rw [members_of_room here] at member
    dsimp only
    rw [if_pos member]

theorem userChannel_upsertVoiceMember (p : VoiceJoinParams User Channel) :
    (voice.upsertVoiceMember p).1.userChannel = voice.userChannel := by
  unfold upsertVoiceMember add
  split
  · split_ifs
    · rfl
    · split <;> rfl
  · split <;> rfl

theorem kept_upsert (kept : Kept s log) {p : VoiceJoinParams User Channel} (here : s.calls[k]? = some (.upsert p))
    (finds : Finds s.voice (.upsert p)) :
    Kept { voice := (s.voice.upsertVoiceMember p).1, calls := s.calls.set k (.token p) }
      (log ++ (s.voice.upsertVoiceMember p).2) := by
  have member := kept.mapped p.user p.channel finds
  refine kept.frame here (fun _ _ => id) (fun channel => ?_) (userChannel_upsertVoiceMember p)
    (filled_upsertVoiceMember kept.filled p) fun channel => ?_
  · rw [members_upsertVoiceMember]
    split_ifs with same
    · rw [same]
      exact Finset.insert_eq_self.mpr member
    · rfl
  · rw [limitOf_append, upsert_effects member]
    change _ ≤ limitAfter channel (limitOf channel log) (.refreshed p)
    rw [limitAfter]
    split_ifs
    · exact le_max_left _ _
    · exact le_rfl

theorem kept_step {regions : SFURegions} {action : Action User Channel} (kept : Kept s log)
    (undisturbed : Undisturbed s action) (stepped : step regions s action = some (t, effects)) :
    Kept t (log ++ effects) := by
  cases moved_of_step stepped with
  | began fresh begins =>
    rw [List.append_nil]
    refine ⟨kept.oneRoom, kept.mapped, ?_, kept.filled, kept.bounded⟩
    intro user channel member
    refine (kept.owed user channel member).imp_right ?_
    rintro ⟨k, phase, here, owes⟩
    exact ⟨k, phase, by rw [List.getElem?_append_left (lt_length here), here], owes⟩
  | advanced here taken =>
    have finds := undisturbed _ _ _ rfl here
    cases taken with
    | looked before after =>
      exact kept.frame here (fun _ _ => not_owes_of_looks before) (fun _ => rfl) rfl kept.filled
        fun _ => by rw [List.append_nil]
    | upserted p => exact kept_upsert kept here finds
    | seated p => exact kept_seat kept here finds
    | mapped p =>
      rw [List.append_nil]
      exact kept_setMap kept here finds
    | recorded p =>
      by_cases guest : p.isGuest = true
      · rw [if_pos guest]
        exact kept.frame here (fun _ _ => id) (fun _ => rfl) rfl kept.filled fun _ => by rw [List.append_nil]
      · rw [if_neg guest]
        exact kept.frame here (fun _ _ => id) (fun _ => rfl) rfl kept.filled fun _ => by rw [List.append_nil]
    | issued p environment =>
      refine kept.frame here (fun _ _ => id) (fun _ => members_voiceRoomSFURegion _ _ _ _ _)
        (userChannel_voiceRoomSFURegion _ _ _ _) (filled_voiceRoomSFURegion kept.filled _ _ _ _) fun channel => ?_
      rw [limitOf_append]
      exact le_rfl
    | unsigned p environment =>
      refine kept.frame here (fun _ _ => id) (fun _ => members_voiceRoomSFURegion _ _ _ _ _)
        (userChannel_voiceRoomSFURegion _ _ _ _) (filled_voiceRoomSFURegion kept.filled _ _ _ _) fun channel => ?_
      rw [List.append_nil]
    | unmapped next mapped =>
      rw [List.append_nil]
      exact kept_unmap kept here (fun _ _ => id) fun channel entry => ⟨rfl, Option.some.inj (mapped.symm.trans entry)⟩
    | absent next none =>
      rw [List.append_nil]
      exact kept_unmap kept here (fun _ _ => id) fun channel entry => by simp [none] at entry
    | vacated user channel next => exact kept_vacate kept here finds
    | ended channel next =>
      unfold voiceSessionOnLastLeave
      cases s.voice.sessions channel with
      | none => exact kept.frame here (fun _ _ => id) (fun _ => rfl) rfl kept.filled fun _ => by rw [List.append_nil]
      | some participants =>
        refine kept.frame here (fun _ _ => id) (fun _ => rfl) rfl kept.filled fun other => ?_
        rw [limitOf_append]
        dsimp only
        split_ifs <;> exact le_rfl

/-- Along every run whose sections find what their calls left, the membership is
consistent whenever no call is in progress. -/
theorem consistent_always (regions : SFURegions) (actions : List (Action User Channel))
    (undisturbed : EachStep (logged (step regions)) (fun s => Undisturbed s.1) (({} : State User Channel), []) actions) :
    Always (logged (step regions)) (fun s => Quiescent s.1 → Consistent s.1 s.2) ({}, []) actions := by
  have kept : Always (logged (step regions)) (fun s => Kept s.1 s.2) (({} : State User Channel), []) actions := by
    refine always_of_eachStep ?_ ?_ actions undisturbed
    · rintro ⟨s, log⟩ action ⟨t, after⟩ kept met moved
      obtain ⟨effects, stepped, rfl⟩ := logged_eq_some.mp moved
      exact kept_step kept met stepped
    · exact kept_start
  exact kept.imp fun _ kept => kept.consistent

end Sections

def oneRegion : SFURegions where
  order := ["eu-west"]
  nonempty := by simp
  named := by simp

def joinOf (user channel : Nat) : VoiceJoinParams Nat Nat :=
  { channel, user, maxMembers := 2, isGuest := false, preferredRegion := "" }

theorem consistent_firstJoin :
    Always (logged (step oneRegion)) (fun s => Quiescent s.1 → Consistent s.1 s.2) (({} : State Nat Nat), [])
      [.join (joinOf 1 7), .advance 0 .plain, .advance 0 .plain, .advance 0 .plain, .advance 0 (.found none),
        .advance 0 .plain, .advance 0 .plain, .advance 0 .plain, .advance 0 (.signed "" true)] := by
  apply consistent_always
  refine .cons rfl ?_ (.cons rfl ?_ (.cons rfl ?_ (.cons rfl ?_ (.cons rfl ?_ (.cons rfl ?_ (.cons rfl ?_
    (.cons rfl ?_ (.cons rfl ?_ trivial))))))))
  · rintro k outcome phase ⟨⟩
  · rintro k outcome phase ⟨⟩ ⟨⟩
    trivial
  · rintro k outcome phase ⟨⟩ ⟨⟩
    trivial
  · rintro k outcome phase ⟨⟩ ⟨⟩
    trivial
  · rintro k outcome phase ⟨⟩ ⟨⟩
    trivial
  · rintro k outcome phase ⟨⟩ ⟨⟩
    exact ⟨fun channel member => absurd member (Finset.notMem_empty _), by decide⟩
  · rintro k outcome phase ⟨⟩ ⟨⟩
    exact Finset.mem_insert_self _ _
  · rintro k outcome phase ⟨⟩ ⟨⟩
    trivial
  · rintro k outcome phase ⟨⟩ ⟨⟩
    trivial

/-- One user joins two channels from two devices. Both joins look for a room to
leave before either takes its seat. -/
def twoDevices : List (VoiceRooms.Action Nat Nat) :=
  [.join (joinOf 1 7), .join (joinOf 1 8),
    .advance 0 .plain, .advance 0 .plain, .advance 0 .plain, .advance 0 (.found none),
    .advance 1 .plain, .advance 1 .plain, .advance 1 .plain, .advance 1 (.found none),
    .advance 0 .plain, .advance 1 .plain, .advance 0 .plain, .advance 1 .plain, .advance 0 .plain, .advance 1 .plain,
    .advance 0 (.signed "" true), .advance 1 (.signed "" true)]

/-- Both calls are done, and the user is in two rooms. -/
theorem twoDevices_two_rooms :
    ∃ s, run (logged (step oneRegion)) (({} : State Nat Nat), []) twoDevices = some s ∧
      s.1.calls = [.done, .done] ∧ 1 ∈ s.1.voice.members 7 ∧ 1 ∈ s.1.voice.members 8 := by
  refine ⟨_, rfl, rfl, ?_, ?_⟩
  · exact Finset.mem_insert_self _ _
  · exact Finset.mem_insert_self _ _

end Mello.Backend.VoiceMembership
