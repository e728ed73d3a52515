import Mello.Backend.VoiceRooms

/-!
The SFU region of a voice room. A token issued to a member names the region of
the room, which stays as long as the room; so the members agree who have a token
from their present seat. A token from an earlier seat may name another region.
-/

namespace Mello.Backend.VoiceRegion
open Mello.Library Runs VoiceRooms VoiceState

variable {User Channel : Type} [DecidableEq Channel] [DecidableEq User]

def lastTokenAfter (user : User) (channel : Channel) (token : Option String) : Effect User Channel → Option String
  | .issued other here region => if other = user ∧ here = channel then some region else token
  | _ => token

/-- The region of the last token issued to the user for the channel. -/
def lastToken (user : User) (channel : Channel) (log : List (Effect User Channel)) : Option String :=
  log.foldl (lastTokenAfter user channel) none

def seatTokenAfter (user : User) (channel : Channel) (token : Option String) : Effect User Channel → Option String
  | .issued other here region => if other = user ∧ here = channel then some region else token
  | .seated p _ => if p.user = user ∧ p.channel = channel then none else token
  | _ => token

/-- The same, of the tokens since the user last took a seat there. -/
def seatToken (user : User) (channel : Channel) (log : List (Effect User Channel)) : Option String :=
  log.foldl (seatTokenAfter user channel) none

/-- Members with a token from their present seat have the same region. -/
def SameRegion (s : State User Channel) (log : List (Effect User Channel)) : Prop :=
  ∀ channel user other region region',
    user ∈ s.voice.members channel → other ∈ s.voice.members channel →
      seatToken user channel log = some region → seatToken other channel log = some region' → region = region'

/-! ## The invariant -/

/-- The region of a member's token is that of the room. -/
def Agreed (voice : VoiceState User Channel) (log : List (Effect User Channel)) : Prop :=
  ∀ channel room user region, voice.room channel = some room → user ∈ room.members →
    seatToken user channel log = some region → room.sfuRegion = region ∧ region ≠ ""

theorem Agreed.sameRegion {s : State User Channel} {log : List (Effect User Channel)} (agreed : Agreed s.voice log) :
    SameRegion s log := by
  intro channel user other region region' member member' token token'
  cases here : s.voice.room channel with
  | none => simp [members, here] at member
  | some room =>
    rw [members_of_room here] at member member'
    rw [← (agreed channel room user region here member token).1, ← (agreed channel room other region' here member' token').1]

section Sections

variable {voice after : VoiceState User Channel} {log effects : List (Effect User Channel)}

theorem seatToken_append (user : User) (channel : Channel) :
    seatToken user channel (log ++ effects) = effects.foldl (seatTokenAfter user channel) (seatToken user channel log) :=
  List.foldl_append

/-- One room is replaced: its members' tokens decide. -/
theorem Agreed.setRoom (agreed : Agreed voice log) {channel : Channel} {room : VoiceRoom User}
    (elsewhere : ∀ user other, other ≠ channel → seatToken user other (log ++ effects) = seatToken user other log)
    (inside : ∀ user region, user ∈ room.members → seatToken user channel (log ++ effects) = some region →
      room.sfuRegion = region ∧ region ≠ "") :
    Agreed (voice.setRoom channel room) (log ++ effects) := by
  intro other found user region here member token
  by_cases same : other = channel
  · rw [same, room_setRoom] at here
    obtain rfl := Option.some.inj here
    exact inside user region member (same ▸ token)
  · rw [room_setRoom_ne voice same] at here
    exact agreed other found user region here member (elsewhere user other same ▸ token)

theorem agreed_add (agreed : Agreed voice log) (p : VoiceJoinParams User Channel) :
    Agreed (voice.add p).1 (log ++ (voice.add p).2) := by
  have token : ∀ opened user other, seatToken user other (log ++ [.seated p opened]) =
      if p.user = user ∧ p.channel = other then none else seatToken user other log := by
    intro opened user other
    rw [seatToken_append]
    rfl
  unfold add
  cases here : voice.room p.channel with
  | none =>
    apply agreed.setRoom
    · intro user other apart
      rw [token, if_neg fun same => apart same.2.symm]
    · intro user region member issued
      have own : user = p.user := Finset.mem_singleton.mp member
      rw [token, if_pos ⟨own.symm, rfl⟩] at issued
      cases issued
  | some room =>
    apply agreed.setRoom
    · intro user other apart
      rw [token, if_neg fun same => apart same.2.symm]
    · intro user region member issued
      rw [token] at issued
      split_ifs at issued with same
      have old : user ∈ room.members := by
        rcases Finset.mem_insert.mp member with rfl | old
        · exact absurd ⟨rfl, rfl⟩ same
        · exact old
      exact agreed p.channel room user region here old issued

theorem agreed_upsertVoiceMember (agreed : Agreed voice log) (p : VoiceJoinParams User Channel) :
    Agreed (voice.upsertVoiceMember p).1 (log ++ (voice.upsertVoiceMember p).2) := by
  unfold upsertVoiceMember
  cases here : voice.room p.channel with
  | none => exact agreed_add agreed p
  | some room =>
    dsimp only
    split_ifs with member
    · apply agreed.setRoom
      · intro user other _
        rw [seatToken_append]
        rfl
      · intro user region inside issued
        have old : user ∈ room.members := Finset.insert_eq_self.mpr member ▸ inside
        rw [seatToken_append] at issued
        exact agreed p.channel room user region here old issued
    · exact agreed_add agreed p

theorem agreed_vacate (agreed : Agreed voice log) (user : User) (channel : Channel) (next : Next User Channel) :
    Agreed (voice.vacate user channel next).1 (log ++ (voice.vacate user channel next).2.2) := by
  have token : ∀ closed other there, seatToken other there (log ++ [.vacated user channel closed]) =
      seatToken other there log := by
    intro closed other there
    rw [seatToken_append]
    rfl
  unfold vacate
  cases here : voice.room channel with
  | none =>
    rw [List.append_nil]
    exact agreed
  | some room =>
    dsimp only
    split_ifs with last
    · intro other found member region there inside issued
      rw [token] at issued
      by_cases same : other = channel
      · rw [same, room_dropRoom] at there
        cases there
      · rw [room_dropRoom_ne voice same] at there
        exact agreed other found member region there inside issued
    · apply agreed.setRoom
      · intro other there _
        exact token _ _ _
      · intro other region inside issued
        rw [token] at issued
        exact agreed channel room other region here (Finset.mem_of_mem_erase inside) issued

/-- A room without a region has no tokens, and takes the region it gives. -/
theorem agreed_voiceRoomSFURegion (agreed : Agreed voice log) (regions : SFURegions) (channel : Channel)
    (preferred environment : String) :
    Agreed (voice.voiceRoomSFURegion regions channel preferred environment).2 log ∧
      ∀ room, (voice.voiceRoomSFURegion regions channel preferred environment).2.room channel = some room →
        room.sfuRegion = (voice.voiceRoomSFURegion regions channel preferred environment).1 ∧ room.sfuRegion ≠ "" := by
  unfold voiceRoomSFURegion
  cases here : voice.room channel with
  | none =>
    refine ⟨agreed, fun room there => ?_⟩
    rw [here] at there
    cases there
  | some room =>
    dsimp only
    split_ifs with kept
    · refine ⟨agreed, fun other there => ?_⟩
      rw [here] at there
      obtain rfl := Option.some.inj there
      exact ⟨rfl, kept⟩
    · constructor
      · have set : Agreed (voice.setRoom channel { room with sfuRegion := regions.selectSFURegion preferred environment })
          (log ++ []) :=
          agreed.setRoom (fun _ _ _ => by rw [List.append_nil]) fun user region inside issued => by
            rw [List.append_nil] at issued
            obtain ⟨old, some⟩ := agreed channel room user region here inside issued
            exact absurd (old ▸ some) kept
        rwa [List.append_nil] at set
      · intro other there
        rw [room_setRoom] at there
        obtain rfl := Option.some.inj there
        exact ⟨rfl, regions.selectSFURegion_ne preferred environment⟩

theorem agreed_issue (agreed : Agreed voice log) (regions : SFURegions) (user : User) (channel : Channel)
    (preferred environment : String) :
    Agreed (voice.voiceRoomSFURegion regions channel preferred environment).2
      (log ++ [.issued user channel (voice.voiceRoomSFURegion regions channel preferred environment).1]) := by
  obtain ⟨before, given⟩ := agreed_voiceRoomSFURegion agreed regions channel preferred environment
  generalize voice.voiceRoomSFURegion regions channel preferred environment = answer at before given ⊢
  intro other room member region there inside issued
  rw [seatToken_append] at issued
  change (if user = member ∧ channel = other then some answer.1 else seatToken member other log) = some region at issued
  split_ifs at issued with same
  · obtain rfl := Option.some.inj issued
    obtain ⟨named, some⟩ := given room (same.2 ▸ there)
    exact ⟨named, named ▸ some⟩
  · exact before other room member region there inside issued

/-- Effects that neither seat nor give a token. -/
theorem Agreed.silent (agreed : Agreed voice log)
    (silent : ∀ user channel, seatToken user channel (log ++ effects) = seatToken user channel log) :
    Agreed voice (log ++ effects) := by
  intro channel room user region here member issued
  exact agreed channel room user region here member (silent user channel ▸ issued)

theorem agreed_step {regions : SFURegions} {s t : State User Channel} {action : VoiceRooms.Action User Channel}
    (agreed : Agreed s.voice log) (stepped : step regions s action = some (t, effects)) :
    Agreed t.voice (log ++ effects) := by
  have same : Agreed s.voice (log ++ []) := by rwa [List.append_nil]
  cases moved_of_step stepped with
  | began fresh begins => exact same
  | advanced here taken =>
    cases taken with
    | looked before after => exact same
    | upserted p => exact agreed_upsertVoiceMember agreed p
    | seated p => exact agreed_add agreed p
    | mapped p => exact same
    | recorded p =>
      dsimp only
      split_ifs
      · exact same
      · exact same
    | issued p environment => exact agreed_issue agreed regions p.user p.channel p.preferredRegion environment
    | unsigned p environment =>
      rw [List.append_nil]
      exact (agreed_voiceRoomSFURegion agreed regions p.channel p.preferredRegion environment).1
    | unmapped next mapped => exact same
    | absent next none => exact same
    | vacated user channel next => exact agreed_vacate agreed user channel next
    | ended channel next =>
      unfold voiceSessionOnLastLeave
      cases s.voice.sessions channel with
      | none => exact same
      | some participants =>
        have closed : Agreed (s.voice.setSession channel none) log := agreed
        refine closed.silent fun user other => ?_
        rw [seatToken_append]
        dsimp only
        split_ifs <;> rfl

/-- Over every run, whoever joins, leaves or is evicted when. -/
theorem sameRegion_always (regions : SFURegions) (actions : List (VoiceRooms.Action User Channel)) :
    Always (logged (step regions)) (fun s => SameRegion s.1 s.2) (({} : State User Channel), []) actions := by
  have agreed : Always (logged (step regions)) (fun s => Agreed s.1.voice s.2) (({} : State User Channel), []) actions := by
    refine always_of_eachStep ?_ nofun actions (eachStep_true actions)
    rintro ⟨s, log⟩ action ⟨t, after⟩ agreed - moved
    obtain ⟨effects, stepped, rfl⟩ := logged_eq_some.mp moved
    exact agreed_step agreed stepped
  exact agreed.imp fun _ agreed => agreed.sameRegion

end Sections

def twoRegions : SFURegions where
  order := ["eu-west", "us-east"]
  nonempty := by simp
  named := by simp

def joinFrom (user : Nat) (preferredRegion : String) : VoiceJoinParams Nat Nat :=
  { channel := 7, user, maxMembers := 50, isGuest := false, preferredRegion }

/-- The sections of a first join after its begin. -/
def firstJoin (k : Nat) : List (VoiceRooms.Action Nat Nat) :=
  [.advance k .plain, .advance k .plain, .advance k .plain, .advance k (.found none), .advance k .plain,
    .advance k .plain, .advance k .plain]

/-- The first user leaves, another opens the room again elsewhere, and the first
is back in its seat, with the new token not yet issued. -/
def backWithOldToken : List (VoiceRooms.Action Nat Nat) :=
  .join (joinFrom 1 "eu-west") :: firstJoin 0 ++ [.advance 0 (.signed "" true)] ++
    [.leave 1, .advance 1 .plain, .advance 1 .plain, .advance 1 .plain] ++
    .join (joinFrom 2 "us-east") :: firstJoin 2 ++ [.advance 2 (.signed "" true)] ++
    .join (joinFrom 1 "eu-west") :: firstJoin 3

theorem backWithOldToken_regions :
    ∃ s, run (logged (step twoRegions)) (({} : State Nat Nat), []) backWithOldToken = some s ∧
      1 ∈ s.1.voice.members 7 ∧ 2 ∈ s.1.voice.members 7 ∧
      lastToken 1 7 s.2 = some "eu-west" ∧ lastToken 2 7 s.2 = some "us-east" := by
  refine ⟨_, rfl, ?_, ?_, rfl, rfl⟩
  · exact Finset.mem_insert_self _ _
  · exact Finset.mem_insert_of_mem (Finset.mem_insert_self _ _)

end Mello.Backend.VoiceRegion
