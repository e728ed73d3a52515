import Mello.Library.Runs
import Mello.Library.Tables

/-!
Voice rooms of the backend, one critical section a step: the rooms, the map from
users to channels and the voice sessions of the ledger are under three mutexes,
and any number of joins, leaves, evictions and sweeps interleave between their
sections. The map from channels to crews, names, times and broadcasts leave the
model; `AppendCrewEvent` succeeds, so an event is a step's effect.
-/

namespace Mello.Backend.VoiceRooms
open Mello.Library

variable {User Channel : Type}

/-! ## The rooms -/

/-- `guests` are the members with the guest mark. The region is empty until the
first token sets it. -/
structure VoiceRoom (User : Type) where
  members : Finset User
  guests : Finset User
  sfuRegion : String := ""

structure VoiceJoinParams (User Channel : Type) where
  channel : Channel
  user : User
  maxMembers : Nat
  isGuest : Bool
  preferredRegion : String

/-- The configured SFU regions: at least one, each with a name. -/
structure SFURegions where
  order : List String
  nonempty : order ≠ []
  named : "" ∉ order

namespace SFURegions

def isSFURegion (regions : SFURegions) (region : String) : Bool := region ∈ regions.order

/-- `environment` is SFU_DEFAULT_REGION at the time of the call. -/
def defaultSFURegion (regions : SFURegions) (environment : String) : String :=
  if regions.isSFURegion environment then environment else regions.order.head regions.nonempty

def selectSFURegion (regions : SFURegions) (preferred environment : String) : String :=
  if regions.isSFURegion preferred then preferred else regions.defaultSFURegion environment

theorem selectSFURegion_ne (regions : SFURegions) (preferred environment : String) :
    regions.selectSFURegion preferred environment ≠ "" := by
  have inside : regions.selectSFURegion preferred environment ∈ regions.order := by
    unfold selectSFURegion defaultSFURegion isSFURegion
    split_ifs with named fallback
    · exact of_decide_eq_true named
    · exact of_decide_eq_true fallback
    · exact List.head_mem _
  intro same
  exact regions.named (same ▸ inside)

end SFURegions

/-- What a call does after a leave. -/
inductive Next (User Channel : Type) where
  | seat (p : VoiceJoinParams User Channel)
  | leave (users : List User)
  | stop

/-- The critical section that a call enters next. -/
inductive Phase (User Channel : Type) where
  /-- `joinVoiceRoom` -/
  | capacity (p : VoiceJoinParams User Channel)
  | lookup (p : VoiceJoinParams User Channel)
  | upsert (p : VoiceJoinParams User Channel)
  | seat (p : VoiceJoinParams User Channel)
  | setMap (p : VoiceJoinParams User Channel)
  | record (p : VoiceJoinParams User Channel)
  /-- `issueVoiceSFUToken` -/
  | token (p : VoiceJoinParams User Channel)
  /-- `voiceLeaveInternal` -/
  | unmap (user : User) (next : Next User Channel)
  | orphan (user : User) (next : Next User Channel)
  | vacate (user : User) (channel : Channel) (next : Next User Channel)
  | endSession (channel : Channel) (next : Next User Channel)
  /-- `VoiceEvictChannel`, `voiceRoomGC` -/
  | gather (channel : Channel)
  | sweep
  | done

def Next.phase : Next User Channel → Phase User Channel
  | .seat p => .seat p
  | .leave [] => .done
  | .leave (user :: users) => .unmap user (.leave users)
  | .stop => .done

/-- The sections that only look. -/
def Phase.Looks : Phase User Channel → Prop
  | .capacity _ | .lookup _ | .orphan _ _ | .gather _ | .sweep => True
  | _ => False

/-- A call that has changed nothing yet that another section must complete. -/
def Phase.Fresh : Phase User Channel → Prop
  | .setMap _ | .record _ | .endSession _ _ => False
  | _ => True

theorem fresh_next (next : Next User Channel) : next.phase.Fresh := by
  rcases next with p | ⟨_ | ⟨user, users⟩⟩ | _ <;> trivial

/-- What the code leaves open: the order of a map, which members the sweep finds
stale, the environment and the signing of a token. -/
inductive Outcome (Channel User : Type) where
  | plain
  | found (channel : Option Channel)
  | users (users : List User)
  | signed (environment : String) (works : Bool)

inductive Effect (User Channel : Type) where
  | seated (p : VoiceJoinParams User Channel) (opened : Bool)
  | refreshed (p : VoiceJoinParams User Channel)
  | vacated (user : User) (channel : Channel) (closed : Bool)
  | issued (user : User) (channel : Channel) (region : String)
  | voiceSession (channel : Channel) (participants : Finset User)

section Steps

variable [DecidableEq Channel]

/-- `voiceRooms`, `voiceUserChannel` and `voiceSessions`. -/
structure VoiceState (User Channel : Type) [DecidableEq Channel] where
  rooms : AList (fun _ : Channel => VoiceRoom User) := ∅
  userChannel : User → Option Channel := fun _ => none
  sessions : Channel → Option (Finset User) := fun _ => none

namespace VoiceState

def room (voice : VoiceState User Channel) (channel : Channel) : Option (VoiceRoom User) := voice.rooms.lookup channel

def setRoom (voice : VoiceState User Channel) (channel : Channel) (room : VoiceRoom User) : VoiceState User Channel :=
  { voice with rooms := voice.rooms.insert channel room }

def dropRoom (voice : VoiceState User Channel) (channel : Channel) : VoiceState User Channel :=
  { voice with rooms := voice.rooms.erase channel }

def setSession (voice : VoiceState User Channel) (channel : Channel) (participants : Option (Finset User)) :
    VoiceState User Channel :=
  { voice with sessions := Function.update voice.sessions channel participants }

variable (voice : VoiceState User Channel)

theorem room_setRoom (channel : Channel) (room : VoiceRoom User) :
    (voice.setRoom channel room).room channel = some room := AList.lookup_insert _

theorem room_setRoom_ne {channel other : Channel} (apart : other ≠ channel) (room : VoiceRoom User) :
    (voice.setRoom channel room).room other = voice.room other := AList.lookup_insert_ne apart

theorem room_dropRoom (channel : Channel) : (voice.dropRoom channel).room channel = none := AList.lookup_erase _ _

theorem room_dropRoom_ne {channel other : Channel} (apart : other ≠ channel) :
    (voice.dropRoom channel).room other = voice.room other := AList.lookup_erase_ne apart

/-- The members of a channel, none without a room. -/
def members (channel : Channel) : Finset User := ((voice.room channel).map VoiceRoom.members).getD ∅

variable {voice}

theorem members_of_room {channel : Channel} {room : VoiceRoom User} (here : voice.room channel = some room) :
    voice.members channel = room.members := by rw [members, here]; rfl

theorem members_setRoom {channel other : Channel} {room : VoiceRoom User} :
    (voice.setRoom channel room).members other = if other = channel then room.members else voice.members other := by
  split_ifs with same
  · rw [same, members_of_room (room_setRoom voice channel room)]
  · rw [members, room_setRoom_ne voice same]
    rfl

theorem members_dropRoom {channel other : Channel} :
    (voice.dropRoom channel).members other = if other = channel then ∅ else voice.members other := by
  split_ifs with same
  · rw [same, members, room_dropRoom]
    rfl
  · rw [members, room_dropRoom_ne voice same]
    rfl

/-- The region of the room, which the first token picks. -/
def voiceRoomSFURegion (voice : VoiceState User Channel) (regions : SFURegions) (channel : Channel)
    (preferred environment : String) : String × VoiceState User Channel :=
  match voice.room channel with
  | some room =>
    if room.sfuRegion ≠ "" then (room.sfuRegion, voice)
    else
      let region := regions.selectSFURegion preferred environment
      (region, voice.setRoom channel { room with sfuRegion := region })
  | none => (regions.selectSFURegion preferred environment, voice)

theorem members_voiceRoomSFURegion (regions : SFURegions) (channel other : Channel) (preferred environment : String) :
    (voice.voiceRoomSFURegion regions channel preferred environment).2.members other = voice.members other := by
  unfold voiceRoomSFURegion
  cases here : voice.room channel with
  | none => rfl
  | some room =>
    dsimp only
    split_ifs with named
    · rfl
    · rw [members_setRoom]
      split_ifs with same
      · rw [same, members_of_room here]
      · rfl

end VoiceState

variable [DecidableEq User]

def VoiceRoom.add (room : VoiceRoom User) (p : VoiceJoinParams User Channel) : VoiceRoom User :=
  { room with
    members := insert p.user room.members
    guests := if p.isGuest then insert p.user room.guests else room.guests.erase p.user }

def VoiceRoom.remove (room : VoiceRoom User) (user : User) : VoiceRoom User :=
  { room with members := room.members.erase user, guests := room.guests.erase user }

namespace VoiceState

def setUserChannel (voice : VoiceState User Channel) (user : User) (channel : Option Channel) : VoiceState User Channel :=
  { voice with userChannel := Function.update voice.userChannel user channel }

/-- A new member, in a new room when there is none. -/
def add (voice : VoiceState User Channel) (p : VoiceJoinParams User Channel) :
    VoiceState User Channel × List (Effect User Channel) :=
  match voice.room p.channel with
  | some room => (voice.setRoom p.channel (room.add p), [.seated p false])
  | none => (voice.setRoom p.channel (VoiceRoom.add ⟨∅, ∅, ""⟩ p), [.seated p true])

def upsertVoiceMember (voice : VoiceState User Channel) (p : VoiceJoinParams User Channel) :
    VoiceState User Channel × List (Effect User Channel) :=
  match voice.room p.channel with
  | some room =>
    if p.user ∈ room.members then (voice.setRoom p.channel (room.add p), [.refreshed p]) else voice.add p
  | none => voice.add p

/-- An absent session is opened with the user. -/
def voiceSessionOnJoin (voice : VoiceState User Channel) (channel : Channel) (user : User) : VoiceState User Channel :=
  voice.setSession channel (some (insert user ((voice.sessions channel).getD ∅)))

/-- A session of fewer than two participants gives no event. -/
def voiceSessionOnLastLeave (voice : VoiceState User Channel) (channel : Channel) :
    VoiceState User Channel × List (Effect User Channel) :=
  match voice.sessions channel with
  | none => (voice, [])
  | some participants =>
    (voice.setSession channel none, if participants.card < 2 then [] else [.voiceSession channel participants])

/-- Whether `orphanVoiceChannel` can give this answer. -/
def mayFind (voice : VoiceState User Channel) (user : User) : Option Channel → Bool
  | some channel => ((voice.room channel).map fun room => decide (user ∈ room.members)).getD false
  | none => voice.rooms.entries.all fun entry => decide (user ∉ entry.2.members)

/-- The member is deleted, and the room with the last one. -/
def vacate (voice : VoiceState User Channel) (user : User) (channel : Channel) (next : Next User Channel) :
    VoiceState User Channel × Phase User Channel × List (Effect User Channel) :=
  match voice.room channel with
  | none => (voice, next.phase, [])
  | some room =>
    if room.members.erase user = ∅ then
      (voice.dropRoom channel, .endSession channel next, [.vacated user channel true])
    else (voice.setRoom channel (room.remove user), next.phase, [.vacated user channel false])

/-- One critical section. -/
def advance (voice : VoiceState User Channel) (regions : SFURegions) :
    Phase User Channel → Outcome Channel User →
      Option (VoiceState User Channel × Phase User Channel × List (Effect User Channel))
  | .capacity p, .plain =>
    match voice.room p.channel with
    | some room =>
      if p.user ∉ room.members ∧ p.maxMembers ≤ room.members.card then some (voice, .done, [])
      else some (voice, .lookup p, [])
    | none => some (voice, .lookup p, [])
  | .lookup p, .plain =>
    if voice.userChannel p.user = some p.channel then some (voice, .upsert p, [])
    else some (voice, .unmap p.user (.seat p), [])
  | .upsert p, .plain => some ((voice.upsertVoiceMember p).1, .token p, (voice.upsertVoiceMember p).2)
  | .seat p, .plain => some ((voice.add p).1, .setMap p, (voice.add p).2)
  | .setMap p, .plain => some (voice.setUserChannel p.user (some p.channel), .record p, [])
  | .record p, .plain =>
    some (if p.isGuest then voice else voice.voiceSessionOnJoin p.channel p.user, .token p, [])
  | .token p, .signed environment works =>
    let (region, voice) := voice.voiceRoomSFURegion regions p.channel p.preferredRegion environment
    if works then some (voice, .done, [.issued p.user p.channel region])
    else some (voice, .unmap p.user .stop, [])
  | .unmap user next, .plain =>
    some (voice.setUserChannel user none,
      match voice.userChannel user with
      | some channel => .vacate user channel next
      | none => .orphan user next, [])
  | .orphan user next, .found channel =>
    if voice.mayFind user channel then
      some (voice,
        match channel with
        | some channel => .vacate user channel next
        | none => next.phase, [])
    else none
  | .vacate user channel next, .plain => some (voice.vacate user channel next)
  | .endSession channel next, .plain =>
    some ((voice.voiceSessionOnLastLeave channel).1, next.phase, (voice.voiceSessionOnLastLeave channel).2)
  | .gather channel, .users users =>
    if users.Nodup ∧ users.toFinset = ((voice.room channel).map VoiceRoom.members).getD ∅ then
      some (voice, (Next.leave users).phase, [])
    else none
  | .sweep, .users users =>
    if ∀ user ∈ users, voice.mayFind user none = false then some (voice, (Next.leave users).phase, []) else none
  | _, _ => none

end VoiceState

/-! ## Who sits where -/

namespace VoiceState

variable {voice : VoiceState User Channel}

theorem members_add (p : VoiceJoinParams User Channel) (channel : Channel) :
    (voice.add p).1.members channel =
      if channel = p.channel then insert p.user (voice.members channel) else voice.members channel := by
  unfold add
  cases here : voice.room p.channel with
  | none =>
    rw [members_setRoom]
    split_ifs with same
    · rw [same, members, here]
      rfl
    · rfl
  | some room =>
    rw [members_setRoom]
    split_ifs with same
    · rw [same, members_of_room here]
      rfl
    · rfl

theorem members_upsertVoiceMember (p : VoiceJoinParams User Channel) (channel : Channel) :
    (voice.upsertVoiceMember p).1.members channel =
      if channel = p.channel then insert p.user (voice.members channel) else voice.members channel := by
  unfold upsertVoiceMember
  cases here : voice.room p.channel with
  | none => exact members_add p channel
  | some room =>
    dsimp only
    split_ifs with member same
    · rw [members_setRoom, if_pos same, same, members_of_room here]
      rfl
    · rw [members_setRoom, if_neg same]
    · rw [members_add, if_pos (by assumption)]
    · rw [members_add, if_neg (by assumption)]

theorem members_vacate (user : User) (channel other : Channel) (next : Next User Channel) :
    (voice.vacate user channel next).1.members other =
      if other = channel then (voice.members other).erase user else voice.members other := by
  unfold vacate
  cases here : voice.room channel with
  | none =>
    split_ifs with same
    · rw [same, members, here]
      rfl
    · rfl
  | some room =>
    dsimp only
    split_ifs with last same same
    · rw [members_dropRoom, if_pos same, same, members_of_room here, last]
    · rw [members_dropRoom, if_neg same]
    · rw [members_setRoom, if_pos same, same, members_of_room here]
      rfl
    · rw [members_setRoom, if_neg same]

end VoiceState

/-! ## The calls -/

structure State (User Channel : Type) [DecidableEq Channel] where
  voice : VoiceState User Channel := {}
  calls : List (Phase User Channel) := []

inductive Action (User Channel : Type) where
  | join (p : VoiceJoinParams User Channel)
  | leave (user : User)
  | evict (channel : Channel)
  | gc
  | advance (k : Nat) (outcome : Outcome Channel User)

/-- The first section of a call. -/
def Action.begins : Action User Channel → Option (Phase User Channel)
  | .join p => some (.capacity p)
  | .leave user => some (.unmap user .stop)
  | .evict channel => some (.gather channel)
  | .gc => some .sweep
  | .advance _ _ => none

def step (regions : SFURegions) (s : State User Channel) (action : Action User Channel) :
    Option (State User Channel × List (Effect User Channel)) :=
  match action with
  | .advance k outcome =>
    match s.calls[k]? with
    | some phase =>
      (s.voice.advance regions phase outcome).map fun (voice, next, effects) =>
        ({ voice, calls := s.calls.set k next }, effects)
    | none => none
  | _ =>
    match action.begins with
    | some phase => some ({ s with calls := s.calls ++ [phase] }, [])
    | none => none

/-- No call in progress. -/
def Quiescent (s : State User Channel) : Prop :=
  ∀ (k : Nat) (phase : Phase User Channel), s.calls[k]? = some phase → phase = .done

/-! ## What a section does -/

inductive Section (regions : SFURegions) (voice : VoiceState User Channel) :
    Phase User Channel → VoiceState User Channel → Phase User Channel → List (Effect User Channel) → Prop
  | looked {phase next : Phase User Channel} (before : phase.Looks) (after : next.Fresh) :
      Section regions voice phase voice next []
  | upserted (p : VoiceJoinParams User Channel) :
      Section regions voice (.upsert p) (voice.upsertVoiceMember p).1 (.token p) (voice.upsertVoiceMember p).2
  | seated (p : VoiceJoinParams User Channel) :
      Section regions voice (.seat p) (voice.add p).1 (.setMap p) (voice.add p).2
  | mapped (p : VoiceJoinParams User Channel) :
      Section regions voice (.setMap p) (voice.setUserChannel p.user (some p.channel)) (.record p) []
  | recorded (p : VoiceJoinParams User Channel) :
      Section regions voice (.record p) (if p.isGuest then voice else voice.voiceSessionOnJoin p.channel p.user)
        (.token p) []
  | issued (p : VoiceJoinParams User Channel) (environment : String) :
      Section regions voice (.token p)
        (voice.voiceRoomSFURegion regions p.channel p.preferredRegion environment).2 .done
        [.issued p.user p.channel (voice.voiceRoomSFURegion regions p.channel p.preferredRegion environment).1]
  | unsigned (p : VoiceJoinParams User Channel) (environment : String) :
      Section regions voice (.token p)
        (voice.voiceRoomSFURegion regions p.channel p.preferredRegion environment).2 (.unmap p.user .stop) []
  | unmapped {user : User} {channel : Channel} (next : Next User Channel) (here : voice.userChannel user = some channel) :
      Section regions voice (.unmap user next) (voice.setUserChannel user none) (.vacate user channel next) []
  | absent {user : User} (next : Next User Channel) (here : voice.userChannel user = none) :
      Section regions voice (.unmap user next) (voice.setUserChannel user none) (.orphan user next) []
  | vacated (user : User) (channel : Channel) (next : Next User Channel) :
      Section regions voice (.vacate user channel next) (voice.vacate user channel next).1
        (voice.vacate user channel next).2.1 (voice.vacate user channel next).2.2
  | ended (channel : Channel) (next : Next User Channel) :
      Section regions voice (.endSession channel next) (voice.voiceSessionOnLastLeave channel).1 next.phase
        (voice.voiceSessionOnLastLeave channel).2

theorem section_of_advance {regions : SFURegions} {voice after : VoiceState User Channel}
    {phase next : Phase User Channel} {outcome : Outcome Channel User} {effects : List (Effect User Channel)}
    (moved : voice.advance regions phase outcome = some (after, next, effects)) :
    Section regions voice phase after next effects := by
  unfold VoiceState.advance at moved
  cases phase with
  | capacity p =>
    cases outcome with
    | plain =>
      dsimp only at moved
      split at moved
      · split_ifs at moved <;> cases moved <;> exact .looked trivial trivial
      · cases moved
        exact .looked trivial trivial
    | found | users | signed => cases moved
  | lookup p =>
    cases outcome with
    | plain =>
      dsimp only at moved
      split_ifs at moved <;> cases moved <;> exact .looked trivial trivial
    | found | users | signed => cases moved
  | upsert p =>
    cases outcome with
    | plain =>
      cases moved
      exact .upserted p
    | found | users | signed => cases moved
  | seat p =>
    cases outcome with
    | plain =>
      cases moved
      exact .seated p
    | found | users | signed => cases moved
  | setMap p =>
    cases outcome with
    | plain =>
      cases moved
      exact .mapped p
    | found | users | signed => cases moved
  | record p =>
    cases outcome with
    | plain =>
      cases moved
      exact .recorded p
    | found | users | signed => cases moved
  | token p =>
    cases outcome with
    | signed environment works =>
      dsimp only at moved
      split_ifs at moved <;> cases moved
      · exact .issued p environment
      · exact .unsigned p environment
    | plain | found | users => cases moved
  | unmap user next =>
    cases outcome with
    | plain =>
      dsimp only at moved
      cases here : voice.userChannel user with
      | some channel =>
        rw [here] at moved
        cases moved
        exact .unmapped next here
      | none =>
        rw [here] at moved
        cases moved
        exact .absent next here
    | found | users | signed => cases moved
  | orphan user next =>
    cases outcome with
    | found channel =>
      dsimp only at moved
      split_ifs at moved
      cases channel with
      | some channel =>
        cases moved
        exact .looked trivial trivial
      | none =>
        cases moved
        exact .looked trivial (fresh_next next)
    | plain | users | signed => cases moved
  | vacate user channel next =>
    cases outcome with
    | plain =>
      have made : Section regions voice _ _ _ _ := .vacated user channel next
      rw [Option.some.inj moved] at made
      exact made
    | found | users | signed => cases moved
  | endSession channel next =>
    cases outcome with
    | plain =>
      cases moved
      exact .ended channel next
    | found | users | signed => cases moved
  | gather channel =>
    cases outcome with
    | users users =>
      dsimp only at moved
      split_ifs at moved
      cases moved
      exact .looked trivial (fresh_next _)
    | plain | found | signed => cases moved
  | sweep =>
    cases outcome with
    | users users =>
      dsimp only at moved
      split_ifs at moved
      cases moved
      exact .looked trivial (fresh_next _)
    | plain | found | signed => cases moved
  | done => cases outcome <;> cases moved

/-- A step begins a call, or takes one through its next section. -/
inductive Moved (regions : SFURegions) (s : State User Channel) :
    Action User Channel → State User Channel → List (Effect User Channel) → Prop
  | began {action : Action User Channel} {phase : Phase User Channel} (fresh : phase.Fresh)
      (begins : action.begins = some phase) : Moved regions s action { s with calls := s.calls ++ [phase] } []
  | advanced {k : Nat} {outcome : Outcome Channel User} {phase next : Phase User Channel}
      {voice : VoiceState User Channel} {effects : List (Effect User Channel)} (here : s.calls[k]? = some phase)
      (taken : Section regions s.voice phase voice next effects) :
      Moved regions s (.advance k outcome) { voice, calls := s.calls.set k next } effects

theorem moved_of_step {regions : SFURegions} {s t : State User Channel} {action : Action User Channel}
    {effects : List (Effect User Channel)} (stepped : step regions s action = some (t, effects)) :
    Moved regions s action t effects := by
  cases action with
  | advance k outcome =>
    unfold step at stepped
    cases here : s.calls[k]? with
    | none => simp [here] at stepped
    | some phase =>
      simp only [here] at stepped
      obtain ⟨⟨voice, next, effects⟩, moved, same⟩ := Option.map_eq_some_iff.mp stepped
      cases same
      exact .advanced here (section_of_advance moved)
  | join | leave | evict | gc =>
    cases stepped
    exact .began trivial rfl

end Steps

end Mello.Backend.VoiceRooms
