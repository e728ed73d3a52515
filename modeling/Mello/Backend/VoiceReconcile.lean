import Mello.Backend.VoiceRooms

/-!
The reconciliation of the voice rooms with the SFUs, over the critical sections of `VoiceRooms`: a
pass takes a snapshot of the rooms, asks the SFUs about one room after the other, decides member by
member and lets the absent ones leave, while joins and leaves go on. One goroutine makes all passes,
so their counts of misses are theirs alone. A seat is one stay of a member, from its join on.
-/

namespace Mello.Backend.VoiceReconcile
open Mello.Library Runs Tables VoiceRooms

/-- Milliseconds. -/
def voiceReconcileGrace : Int := 45000
def voiceReconcileRequiredMisses : Nat := 2

/-! ## The SFUs -/

section Lookup

variable {User : Type}

/-- `sfuLookup` with the members of a session that was found. -/
inductive SfuLookup (User : Type) where
  | failed
  | absent
  | found (members : List User)
  deriving DecidableEq

/-- The loop over the SFUs, with their answers in the order in which they are asked. -/
def lookupAll (result : SfuLookup User) : List (SfuLookup User) → SfuLookup User
  | [] => result
  | .found members :: _ => .found members
  | .failed :: rest => lookupAll .failed rest
  | .absent :: rest => lookupAll result rest

def lookupSFUSession (answers : List (SfuLookup User)) : SfuLookup User :=
  if answers = [] then .failed else lookupAll .absent answers

variable [DecidableEq User]

/-- Whether the user is absent, and whether that is known. -/
def absentFromSFU (state : SfuLookup User) (user : User) : Bool × Bool :=
  match state with
  | .found members => (decide (user ∉ members), true)
  | .absent => (true, true)
  | .failed => (false, false)

omit [DecidableEq User] in
theorem lookupAll_absent {result : SfuLookup User} {answers : List (SfuLookup User)} :
    lookupAll result answers = .absent ↔ result = .absent ∧ ∀ answer ∈ answers, answer = .absent := by
  induction answers generalizing result with
  | nil => simp [lookupAll]
  | cons answer rest ih => cases answer <;> simp [lookupAll, ih]

omit [DecidableEq User] in
/-- No SFU has the session only where each of them said so. -/
theorem lookupSFUSession_absent {answers : List (SfuLookup User)} :
    lookupSFUSession answers = .absent ↔ answers ≠ [] ∧ ∀ answer ∈ answers, answer = .absent := by
  unfold lookupSFUSession
  split_ifs with empty
  · simp [empty]
  · rw [lookupAll_absent]
    simp [empty]

end Lookup

/-! ## A pass -/

variable {User Channel : Type}

structure Seat where
  id : Nat
  joinedAt : Int
  deriving DecidableEq

/-- Who sits where. -/
abbrev Seats (User Channel : Type) := Channel → User → Option Seat

/-- What a pass has seen: the seats of its snapshot and the answers so far. -/
structure PassView (User Channel : Type) where
  nowMs : Int
  snapshot : Seats User Channel
  answers : Channel → Option (SfuLookup User) := fun _ => none

/-- `left` are the rooms that the pass has not asked about yet, `users` the members of the room that
are not decided yet; call `k` is the leave of a user whom the pass removes. -/
inductive PassPhase (User Channel : Type) where
  | rooms (left : Finset Channel)
  | members (channel : Channel) (users : Finset User) (left : Finset Channel)
  | leaving (k : Nat) (channel : Channel) (user : User) (users : Finset User) (left : Finset Channel)

structure Pass (User Channel : Type) where
  view : PassView User Channel
  members : Channel → Finset User
  activeKeys : Finset (Channel × User) := ∅
  phase : PassPhase User Channel

/-- A seat that the leave of a pass took, with what this pass and the one before had seen. -/
structure Removal (User Channel : Type) where
  channel : Channel
  user : User
  seat : Seat
  view : PassView User Channel
  previous : Option (PassView User Channel)

variable [DecidableEq Channel]

structure State (User Channel : Type) [DecidableEq Channel] where
  rooms : VoiceRooms.State User Channel := {}
  seats : Seats User Channel := fun _ _ => none
  nextSeat : Nat := 0
  voiceReconcileMisses : Channel × User → Nat := fun _ => 0
  pass : Option (Pass User Channel) := none
  previous : Option (PassView User Channel) := none
  removed : List (Removal User Channel) := []

variable [DecidableEq User]

namespace Pass

/-- The seat that the leave of the pass takes with this effect. -/
def removes (pass : Pass User Channel) (previous : Option (PassView User Channel)) (seats : Seats User Channel) (k : Nat) :
    Effect User Channel → List (Removal User Channel)
  | .vacated user channel _ =>
    match pass.phase, seats channel user with
    | .leaving here _ _ _ _, some seat => if k = here then [⟨channel, user, seat, pass.view, previous⟩] else []
    | _, _ => []
  | _ => []

end Pass

namespace State

def setSeat (s : State User Channel) (channel : Channel) (user : User) (seat : Option Seat) : State User Channel :=
  { s with seats := fun other someone => if other = channel ∧ someone = user then seat else s.seats other someone }

/-- A new member has a new seat, a refreshed one keeps its own. -/
def track (s : State User Channel) (now : Int) : Effect User Channel → State User Channel
  | .seated p _ => { s.setSeat p.channel p.user (some ⟨s.nextSeat, now⟩) with nextSeat := s.nextSeat + 1 }
  | .vacated user channel _ => s.setSeat channel user none
  | _ => s

def record (s : State User Channel) (action : VoiceRooms.Action User Channel) (effect : Effect User Channel) : State User Channel :=
  match s.pass, action with
  | some pass, .advance k _ => { s with removed := s.removed ++ pass.removes s.previous s.seats k effect }
  | _, _ => s

def observe (s : State User Channel) (action : VoiceRooms.Action User Channel) (now : Int) (effect : Effect User Channel) :
    State User Channel := (s.record action effect).track now effect

def setMisses (s : State User Channel) (key : Channel × User) (misses : Nat) : State User Channel :=
  { s with voiceReconcileMisses := Function.update s.voiceReconcileMisses key misses }

/-- The snapshot of the rooms. -/
def start (s : State User Channel) (nowMs : Int) : State User Channel :=
  { s with
    pass := some
      { view := { nowMs, snapshot := s.seats }
        members := s.rooms.voice.members
        phase := .rooms s.rooms.voice.rooms.keys.toFinset } }

/-- What the SFUs say about a room. -/
def lookup (s : State User Channel) (pass : Pass User Channel) (channel : Channel) (answers : List (SfuLookup User))
    (left : Finset Channel) : State User Channel :=
  let answer := lookupSFUSession answers
  let view := { pass.view with answers := Function.update pass.view.answers channel (some answer) }
  match answer with
  | .failed =>
    { s with
      voiceReconcileMisses := fun key =>
        if key.1 = channel ∧ key.2 ∈ pass.members channel then 0 else s.voiceReconcileMisses key
      pass := some { pass with view, phase := .rooms left } }
  | _ => { s with pass := some { pass with view, phase := .members channel (pass.members channel) left } }

/-- The decision on one member. -/
def decide (s : State User Channel) (pass : Pass User Channel) (channel : Channel) (user : User) (seat : Seat)
    (answer : SfuLookup User) (users : Finset User) (left : Finset Channel) : State User Channel :=
  let key := (channel, user)
  let (absent, known) := absentFromSFU answer user
  let activeKeys := insert key pass.activeKeys
  let next : State User Channel := { s with pass := some { pass with activeKeys, phase := .members channel users left } }
  if !known || !absent then next.setMisses key 0
  else if pass.view.nowMs - seat.joinedAt < voiceReconcileGrace then next.setMisses key 0
  else if s.rooms.voice.userChannel user ≠ some channel then next.setMisses key 0
  else
    let misses := s.voiceReconcileMisses key + 1
    if misses < voiceReconcileRequiredMisses then next.setMisses key misses
    else
      { s.setMisses key misses with
        rooms := { s.rooms with calls := s.rooms.calls ++ [.unmap user .stop] }
        pass := some { pass with activeKeys, phase := .leaving s.rooms.calls.length channel user users left } }

/-- The misses of the keys that no room of the pass has go. -/
def finish (s : State User Channel) (pass : Pass User Channel) : State User Channel :=
  { s with
    voiceReconcileMisses := fun key => if key ∈ pass.activeKeys then s.voiceReconcileMisses key else 0
    pass := none
    previous := some pass.view }

end State

/-- `rooms` is a step of the rooms at a time, also of the leave that a pass waits for. The order of
the rooms of a pass and of the members of a room is that of a map. -/
inductive Action (User Channel : Type) where
  | rooms (action : VoiceRooms.Action User Channel) (now : Int)
  | start (nowMs : Int)
  | lookup (channel : Channel) (answers : List (SfuLookup User))
  | decide (user : User)
  | resume
  | next
  | finish

def step (regions : SFURegions) (s : State User Channel) (action : Action User Channel) : Option (State User Channel) :=
  match action, s.pass with
  | .rooms action now, _ =>
    (VoiceRooms.step regions s.rooms action).map fun (rooms, effects) =>
      { effects.foldl (fun s effect => s.observe action now effect) s with rooms }
  | .start nowMs, none => some (s.start nowMs)
  | .lookup channel answers, some pass =>
    match pass.phase with
    | .rooms left => if channel ∈ left then some (s.lookup pass channel answers (left.erase channel)) else none
    | _ => none
  | .decide user, some pass =>
    match pass.phase with
    | .members channel users left =>
      match pass.view.answers channel, pass.view.snapshot channel user with
      | some answer, some seat => if user ∈ users then some (s.decide pass channel user seat answer (users.erase user) left) else none
      | _, _ => none
    | _ => none
  | .resume, some pass =>
    match pass.phase with
    | .leaving k channel user users left =>
      match s.rooms.calls[k]? with
      | some .done => some { s.setMisses (channel, user) 0 with pass := some { pass with phase := .members channel users left } }
      | _ => none
    | _ => none
  | .next, some pass =>
    match pass.phase with
    | .members _ users left => if users = ∅ then some { s with pass := some { pass with phase := .rooms left } } else none
    | _ => none
  | .finish, some pass =>
    match pass.phase with
    | .rooms left => if left = ∅ then some (s.finish pass) else none
    | _ => none
  | _, _ => none

/-! ## What is claimed -/

/-- The seat was in the snapshot of the pass, and the SFUs answered without its user. -/
def PassView.Absent (view : PassView User Channel) (channel : Channel) (user : User) (seat : Seat) : Prop :=
  view.snapshot channel user = some seat ∧ ∃ answer, view.answers channel = some answer ∧ absentFromSFU answer user = (true, true)

/-- The seat is old enough, and absent in this pass and in the one before. -/
structure Removal.Due (removal : Removal User Channel) : Prop where
  grace : voiceReconcileGrace ≤ removal.view.nowMs - removal.seat.joinedAt
  absent : removal.view.Absent removal.channel removal.user removal.seat
  before : ∃ view ∈ removal.previous, view.Absent removal.channel removal.user removal.seat

def Lawful (s : State User Channel) : Prop := ∀ removal ∈ s.removed, removal.Due

/-- When the leave of a pass takes a seat, it is in the room that the pass decided on, and it is the
seat of the user there in the snapshots of this pass and of the one before. -/
def Stayed (s : State User Channel) (action : Action User Channel) : Prop :=
  match action, s.pass with
  | .rooms (.advance k _) _, some pass =>
    match pass.phase, s.rooms.calls[k]? with
    | .leaving j here _ _ _, some (.vacate user channel _) =>
      k = j → s.seats channel user ≠ none → channel = here ∧ pass.view.snapshot channel user = s.seats channel user ∧
        s.previous.map (fun view => view.snapshot channel user) = some (s.seats channel user)
    | _, _ => True
  | _, _ => True

instance (s : State User Channel) (action : Action User Channel) : Decidable (Stayed s action) := by
  unfold Stayed
  split
  · split <;> infer_instance
  · infer_instance

/-! ## The seats are the members -/

section Seats

variable {regions : SFURegions} {rooms after : VoiceRooms.State User Channel} {s : State User Channel}

section Effects

variable (voice : VoiceState User Channel)

theorem effects_add (p : VoiceJoinParams User Channel) : ∃ opened, (voice.add p).2 = [.seated p opened] := by
  unfold VoiceState.add
  split <;> exact ⟨_, rfl⟩

theorem effects_upsertVoiceMember (p : VoiceJoinParams User Channel) :
    (∃ opened, (voice.upsertVoiceMember p).2 = [.seated p opened]) ∨
      p.user ∈ voice.members p.channel ∧ (voice.upsertVoiceMember p).2 = [.refreshed p] := by
  unfold VoiceState.upsertVoiceMember
  cases here : voice.room p.channel with
  | none => exact .inl (effects_add voice p)
  | some room =>
    dsimp only
    split_ifs with member
    · exact .inr ⟨VoiceState.members_of_room here ▸ member, rfl⟩
    · exact .inl (effects_add voice p)

theorem effects_vacate (user : User) (channel : Channel) (next : Next User Channel) :
    (voice.vacate user channel next).2.2 = [] ∧ voice.members channel = ∅ ∨
      ∃ closed, (voice.vacate user channel next).2.2 = [.vacated user channel closed] := by
  unfold VoiceState.vacate VoiceState.members
  cases voice.room channel with
  | none => exact .inl ⟨rfl, rfl⟩
  | some room =>
    right
    dsimp only
    split_ifs <;> exact ⟨_, rfl⟩

omit [DecidableEq User] in
theorem effects_voiceSessionOnLastLeave (channel : Channel) :
    (voice.voiceSessionOnLastLeave channel).2 = [] ∨
      ∃ participants, (voice.voiceSessionOnLastLeave channel).2 = [.voiceSession channel participants] := by
  unfold VoiceState.voiceSessionOnLastLeave
  split
  · exact .inl rfl
  · dsimp only
    split_ifs
    · exact .inl rfl
    · exact .inr ⟨_, rfl⟩

omit [DecidableEq User] in
theorem members_voiceSessionOnLastLeave (channel : Channel) :
    (voice.voiceSessionOnLastLeave channel).1.members = voice.members := by
  unfold VoiceState.voiceSessionOnLastLeave
  split <;> rfl

end Effects

section Observe

variable (action : VoiceRooms.Action User Channel) (now : Int) (effect : Effect User Channel)

omit [DecidableEq User] in
theorem record_eq (s : State User Channel) : ∃ removed, s.record action effect = { s with removed := s.removed ++ removed } := by
  unfold State.record
  split
  · exact ⟨_, rfl⟩
  · exact ⟨[], by rw [List.append_nil]⟩

theorem observe_eq (s : State User Channel) :
    ∃ seats nextSeat, s.observe action now effect = { s.record action effect with seats, nextSeat } := by
  unfold State.observe State.track
  cases effect <;> exact ⟨_, _, rfl⟩

theorem seats_observe (s : State User Channel) (channel : Channel) (user : User) :
    (s.observe action now effect).seats channel user =
      match effect with
      | .seated p _ => if channel = p.channel ∧ user = p.user then some ⟨s.nextSeat, now⟩ else s.seats channel user
      | .vacated other here _ => if channel = here ∧ user = other then none else s.seats channel user
      | _ => s.seats channel user := by
  obtain ⟨removed, same⟩ := record_eq action effect s
  rw [State.observe, same]
  cases effect <;> rfl

end Observe

/-- A step of the rooms has at most one effect, and a seat goes only with the section that vacates it. -/
theorem effects_of_section {voice next : VoiceState User Channel} {phase following : Phase User Channel}
    {effects : List (Effect User Channel)} (taken : Section regions voice phase next following effects) :
    effects = [] ∨ ∃ effect, effects = [effect] ∧
      ∀ user channel closed, effect = .vacated user channel closed → ∃ after, phase = .vacate user channel after := by
  cases taken with
  | looked | mapped | recorded | unsigned | unmapped | absent => exact .inl rfl
  | issued => exact .inr ⟨_, rfl, nofun⟩
  | upserted p =>
    right
    rcases effects_upsertVoiceMember voice p with ⟨opened, same⟩ | ⟨-, same⟩
    · exact ⟨_, same, nofun⟩
    · exact ⟨_, same, nofun⟩
  | seated p =>
    obtain ⟨opened, same⟩ := effects_add voice p
    exact .inr ⟨_, same, nofun⟩
  | ended channel =>
    rcases effects_voiceSessionOnLastLeave voice channel with same | ⟨participants, same⟩
    · exact .inl same
    · exact .inr ⟨_, same, nofun⟩
  | vacated user channel next =>
    rcases effects_vacate voice user channel next with ⟨same, -⟩ | ⟨closed, same⟩
    · exact .inl same
    · refine .inr ⟨_, same, ?_⟩
      intro other there closed same
      cases same
      exact ⟨next, rfl⟩

def SeatsOf (voice : VoiceState User Channel) (seats : Seats User Channel) : Prop :=
  ∀ channel user, user ∈ voice.members channel ↔ (seats channel user).isSome

/-- A seat for each member of a room, also in a snapshot. -/
structure Tracked (s : State User Channel) : Prop where
  now : SeatsOf s.rooms.voice s.seats
  snapshot : ∀ pass, s.pass = some pass → ∀ channel user, user ∈ pass.members channel ↔ (pass.view.snapshot channel user).isSome

theorem SeatsOf.seated {voice : VoiceState User Channel} (tracked : SeatsOf s.rooms.voice s.seats) {p : VoiceJoinParams User Channel}
    (opened : Bool) (action : VoiceRooms.Action User Channel) (now : Int)
    (members : ∀ channel, voice.members channel =
      if channel = p.channel then insert p.user (s.rooms.voice.members channel) else s.rooms.voice.members channel) :
    SeatsOf voice (s.observe action now (.seated p opened)).seats := by
  intro channel user
  rw [members, seats_observe]
  dsimp only
  by_cases here : channel = p.channel
  · by_cases self : user = p.user
    · simp [here, self]
    · rw [if_pos here, if_neg (fun both => self both.2), Finset.mem_insert, ← tracked]
      exact or_iff_right self
  · rw [if_neg here, if_neg (fun both => here both.1), tracked]

theorem SeatsOf.vacated {voice : VoiceState User Channel} (tracked : SeatsOf s.rooms.voice s.seats) {someone : User} {there : Channel}
    (closed : Bool) (action : VoiceRooms.Action User Channel) (now : Int)
    (members : ∀ channel, voice.members channel =
      if channel = there then (s.rooms.voice.members channel).erase someone else s.rooms.voice.members channel) :
    SeatsOf voice (s.observe action now (.vacated someone there closed)).seats := by
  intro channel user
  rw [members, seats_observe]
  dsimp only
  by_cases here : channel = there
  · by_cases self : user = someone
    · simp [here, self]
    · rw [if_pos here, if_neg (fun both => self both.2), Finset.mem_erase, ← tracked]
      exact and_iff_right self
  · rw [if_neg here, if_neg (fun both => here both.1), tracked]

omit [DecidableEq User] in
/-- A section that moves nobody. -/
theorem SeatsOf.frame {voice : VoiceState User Channel} (tracked : SeatsOf s.rooms.voice s.seats)
    (members : ∀ channel, voice.members channel = s.rooms.voice.members channel) {seats : Seats User Channel}
    (same : ∀ channel user, seats channel user = s.seats channel user) : SeatsOf voice seats := by
  intro channel user
  rw [members, same]
  exact tracked channel user

/-- A section keeps a seat for each member. -/
theorem SeatsOf.of_section {voice : VoiceState User Channel} {phase next : Phase User Channel} {effects : List (Effect User Channel)}
    (tracked : SeatsOf s.rooms.voice s.seats) (taken : Section regions s.rooms.voice phase voice next effects)
    (action : VoiceRooms.Action User Channel) (now : Int) :
    SeatsOf voice (effects.foldl (fun s effect => s.observe action now effect) s).seats := by
  cases taken with
  | looked | mapped | unmapped | absent => exact tracked
  | recorded p =>
    split_ifs
    · exact tracked
    · exact tracked
  | issued p environment =>
    refine tracked.frame (fun channel => VoiceState.members_voiceRoomSFURegion regions p.channel channel _ _) ?_
    exact fun channel user => seats_observe action now (.issued p.user p.channel _) s channel user
  | unsigned p environment =>
    exact tracked.frame (fun channel => VoiceState.members_voiceRoomSFURegion regions p.channel channel _ _) fun _ _ => rfl
  | ended there =>
    refine tracked.frame (fun channel => congrFun (members_voiceSessionOnLastLeave _ there) channel) ?_
    rcases effects_voiceSessionOnLastLeave s.rooms.voice there with same | ⟨participants, same⟩
    · rw [same]
      exact fun _ _ => rfl
    · rw [same]
      exact fun channel user => seats_observe action now (.voiceSession there participants) s channel user
  | seated p =>
    obtain ⟨opened, same⟩ := effects_add s.rooms.voice p
    rw [same]
    exact tracked.seated opened action now (VoiceState.members_add p)
  | upserted p =>
    rcases effects_upsertVoiceMember s.rooms.voice p with ⟨opened, same⟩ | ⟨member, same⟩
    · rw [same]
      exact tracked.seated opened action now (VoiceState.members_upsertVoiceMember p)
    · rw [same]
      refine tracked.frame (fun channel => ?_) fun channel user => seats_observe action now (.refreshed p) s channel user
      rw [VoiceState.members_upsertVoiceMember]
      split_ifs with here
      · rw [Finset.insert_eq_of_mem (here ▸ member)]
      · rfl
  | vacated someone there next =>
    rcases effects_vacate s.rooms.voice someone there next with ⟨same, empty⟩ | ⟨closed, same⟩
    · rw [same]
      refine tracked.frame (fun channel => ?_) fun _ _ => rfl
      rw [VoiceState.members_vacate]
      split_ifs with here
      · rw [here, empty, Finset.erase_empty]
      · rfl
    · rw [same]
      exact tracked.vacated closed action now (fun channel => VoiceState.members_vacate someone there channel next)

/-- A step of the rooms begins a call, or takes one through its next section. -/
theorem rooms_cases {action : VoiceRooms.Action User Channel} {effects : List (Effect User Channel)}
    (stepped : VoiceRooms.step regions rooms action = some (after, effects)) :
    (∃ phase, after = { rooms with calls := rooms.calls ++ [phase] } ∧ effects = []) ∨
      ∃ k outcome phase voice next, action = .advance k outcome ∧ rooms.calls[k]? = some phase ∧
        rooms.voice.advance regions phase outcome = some (voice, next, effects) ∧ after = ⟨voice, rooms.calls.set k next⟩ := by
  cases action with
  | advance k outcome =>
    right
    unfold VoiceRooms.step at stepped
    cases here : rooms.calls[k]? with
    | none => simp [here] at stepped
    | some phase =>
      simp only [here] at stepped
      obtain ⟨⟨voice, next, effects⟩, moved, same⟩ := Option.map_eq_some_iff.mp stepped
      cases same
      exact ⟨k, outcome, phase, voice, next, rfl, here, moved, rfl⟩
  | join | leave | evict | gc =>
    cases stepped
    exact .inl ⟨_, rfl, rfl⟩

theorem step_rooms {action : VoiceRooms.Action User Channel} {now : Int} {t : State User Channel}
    (stepped : step regions s (.rooms action now) = some t) :
    ∃ after effects, VoiceRooms.step regions s.rooms action = some (after, effects) ∧
      t = { effects.foldl (fun s effect => s.observe action now effect) s with rooms := after } := by
  obtain ⟨⟨after, effects⟩, moved, same⟩ := Option.map_eq_some_iff.mp stepped
  exact ⟨after, effects, moved, same.symm⟩

/-- What a step of the rooms leaves to the passes. -/
theorem observe_frame (action : VoiceRooms.Action User Channel) (now : Int) (effects : List (Effect User Channel)) :
    (effects.foldl (fun s effect => s.observe action now effect) s).pass = s.pass ∧
      (effects.foldl (fun s effect => s.observe action now effect) s).previous = s.previous ∧
      (effects.foldl (fun s effect => s.observe action now effect) s).voiceReconcileMisses = s.voiceReconcileMisses := by
  induction effects generalizing s with
  | nil => exact ⟨rfl, rfl, rfl⟩
  | cons effect rest ih =>
    obtain ⟨seats, nextSeat, same⟩ := observe_eq action now effect s
    obtain ⟨removed, recorded⟩ := record_eq action effect s
    have rest := ih (s := s.observe action now effect)
    rw [same, recorded] at rest
    rw [List.foldl_cons, same, recorded]
    exact rest

end Seats

/-! ## What a step of a pass does -/

section Passes

variable {regions : SFURegions} {s t : State User Channel} {pass : Pass User Channel}

inductive Passed (s : State User Channel) : Action User Channel → State User Channel → Prop
  | started (nowMs : Int) (idle : s.pass = none) : Passed s (.start nowMs) (s.start nowMs)
  | looked {pass : Pass User Channel} {left : Finset Channel} {channel : Channel} (answers : List (SfuLookup User))
      (here : s.pass = some pass) (phase : pass.phase = .rooms left) (member : channel ∈ left) :
      Passed s (.lookup channel answers) (s.lookup pass channel answers (left.erase channel))
  | decided {pass : Pass User Channel} {channel : Channel} {users : Finset User} {left : Finset Channel} {user : User}
      {seat : Seat} {answer : SfuLookup User} (here : s.pass = some pass) (phase : pass.phase = .members channel users left)
      (member : user ∈ users) (seated : pass.view.snapshot channel user = some seat)
      (answered : pass.view.answers channel = some answer) :
      Passed s (.decide user) (s.decide pass channel user seat answer (users.erase user) left)
  | resumed {pass : Pass User Channel} {k : Nat} {channel : Channel} {user : User} {users : Finset User}
      {left : Finset Channel} (here : s.pass = some pass) (phase : pass.phase = .leaving k channel user users left) :
      Passed s .resume
        { s.setMisses (channel, user) 0 with pass := some { pass with phase := .members channel users left } }
  | nextRoom {pass : Pass User Channel} {channel : Channel} {left : Finset Channel} (here : s.pass = some pass)
      (phase : pass.phase = .members channel ∅ left) :
      Passed s .next { s with pass := some { pass with phase := .rooms left } }
  | finished {pass : Pass User Channel} (here : s.pass = some pass) (phase : pass.phase = .rooms ∅) :
      Passed s .finish (s.finish pass)

theorem step_cases {action : Action User Channel} (stepped : step regions s action = some t) :
    (∃ inner now, action = .rooms inner now) ∨ Passed s action t := by
  cases action with
  | rooms inner now => exact .inl ⟨inner, now, rfl⟩
  | start nowMs =>
    right
    unfold step at stepped
    cases here : s.pass with
    | none =>
      rw [here] at stepped
      cases stepped
      exact .started nowMs here
    | some pass =>
      rw [here] at stepped
      cases stepped
  | lookup channel answers =>
    right
    unfold step at stepped
    cases here : s.pass with
    | none =>
      rw [here] at stepped
      cases stepped
    | some pass =>
      rw [here] at stepped
      dsimp only at stepped
      split at stepped
      · rename_i left phase
        split_ifs at stepped with member
        cases stepped
        exact .looked answers here phase member
      · cases stepped
  | decide user =>
    right
    unfold step at stepped
    cases here : s.pass with
    | none =>
      rw [here] at stepped
      cases stepped
    | some pass =>
      rw [here] at stepped
      dsimp only at stepped
      split at stepped
      · rename_i channel users left phase
        split at stepped
        · rename_i answer seat answered seated
          split_ifs at stepped with member
          cases stepped
          exact .decided here phase member seated answered
        · cases stepped
      · cases stepped
  | resume =>
    right
    unfold step at stepped
    cases here : s.pass with
    | none =>
      rw [here] at stepped
      cases stepped
    | some pass =>
      rw [here] at stepped
      dsimp only at stepped
      split at stepped
      · rename_i k channel user users left phase
        split at stepped
        · cases stepped
          exact .resumed here phase
        · cases stepped
      · cases stepped
  | next =>
    right
    unfold step at stepped
    cases here : s.pass with
    | none =>
      rw [here] at stepped
      cases stepped
    | some pass =>
      rw [here] at stepped
      dsimp only at stepped
      split at stepped
      · rename_i channel users left phase
        split_ifs at stepped with empty
        cases stepped
        exact .nextRoom here (empty ▸ phase)
      · cases stepped
  | finish =>
    right
    unfold step at stepped
    cases here : s.pass with
    | none =>
      rw [here] at stepped
      cases stepped
    | some pass =>
      rw [here] at stepped
      dsimp only at stepped
      split at stepped
      · rename_i left phase
        split_ifs at stepped with empty
        cases stepped
        exact .finished here (empty ▸ phase)
      · cases stepped

/-- A decision counts a miss, forgets the misses, or lets the member leave. -/
theorem decide_cases (channel : Channel) (user : User) (seat : Seat) (answer : SfuLookup User) (users : Finset User)
    (left : Finset Channel) :
    (∃ misses, s.decide pass channel user seat answer users left =
      { s.setMisses (channel, user) misses with
        pass := some { pass with activeKeys := insert (channel, user) pass.activeKeys, phase := .members channel users left } } ∧
      (misses = 0 ∨ misses = 1 ∧ absentFromSFU answer user = (true, true))) ∨
    (absentFromSFU answer user = (true, true) ∧ voiceReconcileGrace ≤ pass.view.nowMs - seat.joinedAt ∧
      s.voiceReconcileMisses (channel, user) ≠ 0 ∧
      s.decide pass channel user seat answer users left =
        { s.setMisses (channel, user) (s.voiceReconcileMisses (channel, user) + 1) with
          rooms := { s.rooms with calls := s.rooms.calls ++ [.unmap user .stop] }
          pass := some
            { pass with
              activeKeys := insert (channel, user) pass.activeKeys
              phase := .leaving s.rooms.calls.length channel user users left } }) := by
  unfold State.decide
  rcases said : absentFromSFU answer user with ⟨absent, known⟩
  dsimp only
  split_ifs with unsure young moved few
  · exact .inl ⟨0, rfl, .inl rfl⟩
  · exact .inl ⟨0, rfl, .inl rfl⟩
  · exact .inl ⟨0, rfl, .inl rfl⟩
  · have both : absent = true ∧ known = true := by simpa [and_comm] using unsure
    refine .inl ⟨_, rfl, .inr ⟨?_, by rw [both.1, both.2]⟩⟩
    unfold voiceReconcileRequiredMisses at few
    omega
  · have both : absent = true ∧ known = true := by simpa [and_comm] using unsure
    refine .inr ⟨by rw [both.1, both.2], not_lt.mp young, ?_, rfl⟩
    unfold voiceReconcileRequiredMisses at few
    omega

omit [DecidableEq User] in
theorem tracked_start : Tracked ({} : State User Channel) where
  now := fun _ user => iff_of_false (Finset.notMem_empty user) Bool.false_ne_true
  snapshot := nofun

/-- The members of a room are those who have a seat there, in every state and snapshot. -/
theorem tracked_step (action : Action User Channel) (tracked : Tracked s) (stepped : step regions s action = some t) : Tracked t := by
  rcases step_cases stepped with ⟨inner, now, rfl⟩ | passed
  · obtain ⟨after, effects, moved, rfl⟩ := step_rooms stepped
    obtain ⟨pass, -, -⟩ := observe_frame (s := s) inner now effects
    refine ⟨?_, fun other here => tracked.snapshot other (pass ▸ here)⟩
    rcases rooms_cases moved with ⟨phase, rfl, rfl⟩ | ⟨k, outcome, phase, voice, next, rfl, here, advanced, rfl⟩
    · exact tracked.now
    · exact tracked.now.of_section (VoiceRooms.section_of_advance advanced) _ now
  · cases passed with
    | started nowMs idle =>
      refine ⟨tracked.now, ?_⟩
      rintro pass same
      cases same
      exact tracked.now
    | looked answers here phase member =>
      have before := tracked.snapshot _ here
      unfold State.lookup
      dsimp only
      split
      · refine ⟨tracked.now, ?_⟩
        rintro pass same
        cases same
        exact before
      · refine ⟨tracked.now, ?_⟩
        rintro pass same
        cases same
        exact before
    | @decided pass channel users left user seat answer here phase member seated answered =>
      have before := tracked.snapshot _ here
      rcases decide_cases (s := s) channel user seat answer (users.erase user) left with ⟨misses, same, -⟩ | ⟨-, -, -, same⟩
      · rw [same]
        refine ⟨tracked.now, ?_⟩
        rintro pass same
        cases same
        exact before
      · rw [same]
        refine ⟨tracked.now, ?_⟩
        rintro pass same
        cases same
        exact before
    | resumed here phase | nextRoom here phase =>
      have before := tracked.snapshot _ here
      refine ⟨tracked.now, ?_⟩
      rintro pass same
      cases same
      exact before
    | finished here phase => exact ⟨tracked.now, nofun⟩

theorem tracked_of_run {actions : List (Action User Channel)} (ran : run (step regions) {} actions = some t) : Tracked t :=
  run_invariant Tracked (fun action _ _ _ tracked stepped => tracked_step action tracked stepped) tracked_start ran

end Passes

/-! ## The counts -/

/-- Rooms and members that the pass will still decide on. -/
def PassPhase.Ahead (key : Channel × User) : PassPhase User Channel → Prop
  | .rooms left => key.1 ∈ left
  | .members channel users left | .leaving _ channel _ users left => key.1 ∈ left ∨ key.1 = channel ∧ key.2 ∈ users

def PassPhase.Leaves (key : Channel × User) : PassPhase User Channel → Prop
  | .leaving _ channel user _ _ => key = (channel, user)
  | _ => False

/-- The room of the pass is not asked about again. -/
def PassPhase.Apart : PassPhase User Channel → Prop
  | .rooms _ => True
  | .members channel _ left => channel ∉ left
  | .leaving _ channel user users left => channel ∉ left ∧ user ∉ users

def PassView.Missed (view : PassView User Channel) (key : Channel × User) : Prop := ∃ seat, view.Absent key.1 key.2 seat

/-- At most one miss, and that of the given time. -/
def Counts (misses : Nat) (missed : Prop) : Prop := misses = 0 ∨ misses = 1 ∧ missed

def MissedBefore (previous : Option (PassView User Channel)) (key : Channel × User) : Prop := ∃ view ∈ previous, view.Missed key

/-- A miss of a member whom the pass has not decided on is that of the pass before, any other its own. -/
structure Working (misses : Channel × User → Nat) (previous : Option (PassView User Channel)) (pass : Pass User Channel) : Prop where
  undecided : ∀ key ∉ pass.activeKeys, Counts (misses key) (MissedBefore previous key)
  decided : ∀ key ∈ pass.activeKeys, pass.phase.Leaves key ∨ Counts (misses key) (pass.view.Missed key)
  leaving : ∀ key, pass.phase.Leaves key → MissedBefore previous key ∧
    ∃ seat, pass.view.Absent key.1 key.2 seat ∧ voiceReconcileGrace ≤ pass.view.nowMs - seat.joinedAt
  ahead : ∀ key ∈ pass.activeKeys, ¬ pass.phase.Ahead key
  apart : pass.phase.Apart

/-- The sections of the leave that a pass makes. -/
def LeaveOf (user : User) : Phase User Channel → Prop
  | .unmap other .stop | .orphan other .stop | .vacate other _ .stop => other = user
  | .endSession _ .stop | .done => True
  | _ => False

structure Inv (s : State User Channel) : Prop where
  between : s.pass = none → ∀ key, Counts (s.voiceReconcileMisses key) (MissedBefore s.previous key)
  working : ∀ pass, s.pass = some pass → Working s.voiceReconcileMisses s.previous pass
  held : ∀ pass k channel user users left, s.pass = some pass → pass.phase = .leaving k channel user users left →
    ∃ phase, s.rooms.calls[k]? = some phase ∧ LeaveOf user phase

section Counts

variable {regions : SFURegions} {s t : State User Channel} {pass : Pass User Channel}
  {misses : Channel × User → Nat} {previous : Option (PassView User Channel)}

theorem Working.looked (working : Working misses previous pass) {left : Finset Channel} {channel : Channel}
    (phase : pass.phase = .rooms left) (member : channel ∈ left) (answer : SfuLookup User) {after : Channel × User → Nat}
    (fewer : ∀ key, after key = misses key ∨ after key = 0) {following : PassPhase User Channel} (apart : following.Apart)
    (stays : ∀ key, ¬ following.Leaves key) (ahead : ∀ key, following.Ahead key → key.1 ∈ left) :
    Working after previous
      { pass with
        view := { pass.view with answers := Function.update pass.view.answers channel (some answer) }
        phase := following } where
  undecided := by
    intro key fresh
    rcases fewer key with same | zero
    · rw [same]
      exact working.undecided key fresh
    · exact .inl zero
  decided := by
    intro key active
    right
    have old : key.1 ≠ channel := by
      intro same
      apply working.ahead key active
      rw [phase]
      change key.1 ∈ left
      rw [same]
      exact member
    rcases fewer key with same | zero
    · rw [same]
      rcases working.decided key active with leaves | none' | ⟨one, seat, seated, answered⟩
      · rw [phase] at leaves
        exact leaves.elim
      · exact .inl none'
      · refine .inr ⟨one, seat, seated, ?_⟩
        dsimp only
        rw [Function.update_of_ne old]
        exact answered
    · exact .inl zero
  leaving := fun key leaves => (stays key leaves).elim
  ahead := by
    intro key active next
    apply working.ahead key active
    rw [phase]
    exact ahead key next
  apart := apart

theorem working_lookup (working : Working s.voiceReconcileMisses s.previous pass) {left : Finset Channel} {channel : Channel}
    (phase : pass.phase = .rooms left) (member : channel ∈ left) (answers : List (SfuLookup User)) :
    ∀ next, (s.lookup pass channel answers (left.erase channel)).pass = some next →
      Working (s.lookup pass channel answers (left.erase channel)).voiceReconcileMisses s.previous next := by
  unfold State.lookup
  dsimp only
  split
  · intro next same
    cases same
    refine working.looked phase member _ (fun key => ?_) trivial (fun _ => id) fun key => Finset.mem_of_mem_erase
    dsimp only
    split_ifs
    · exact .inr rfl
    · exact .inl rfl
  · intro next same
    cases same
    refine working.looked phase member _ (fun key => .inl rfl) (Finset.notMem_erase channel left) (fun _ => id) ?_
    rintro key (later | ⟨same, -⟩)
    · exact Finset.mem_of_mem_erase later
    · rw [same]
      exact member

/-- The next member is decided, on what the SFUs said. -/
theorem Working.decided_next (working : Working misses previous pass) {channel : Channel} {user : User}
    {users : Finset User} {left : Finset Channel} (phase : pass.phase = .members channel users left) {count : Nat}
    {following : PassPhase User Channel} (counted : following.Leaves (channel, user) ∨ Counts count (pass.view.Missed (channel, user)))
    (apart : following.Apart)
    (leaving : ∀ key, following.Leaves key → MissedBefore previous key ∧
      ∃ seat, pass.view.Absent key.1 key.2 seat ∧ voiceReconcileGrace ≤ pass.view.nowMs - seat.joinedAt)
    (ahead : ∀ key, following.Ahead key → key.1 ∈ left ∨ key.1 = channel ∧ key.2 ∈ users.erase user) :
    Working (Function.update misses (channel, user) count) previous
      { pass with activeKeys := insert (channel, user) pass.activeKeys, phase := following } where
  undecided := by
    intro key fresh
    have parts := not_or.mp (mt Finset.mem_insert.mpr fresh)
    rw [Function.update_of_ne parts.1]
    exact working.undecided key parts.2
  decided := by
    intro key active
    by_cases self : key = (channel, user)
    · rw [self, Function.update_self]
      exact counted
    · right
      rw [Function.update_of_ne self]
      rcases working.decided key ((Finset.mem_insert.mp active).resolve_left self) with leaves | counts
      · rw [phase] at leaves
        exact leaves.elim
      · exact counts
  leaving := leaving
  ahead := by
    intro key active next
    rcases Finset.mem_insert.mp active with rfl | old
    · rcases ahead _ next with later | ⟨-, later⟩
      · have out := working.apart
        rw [phase] at out
        exact out later
      · exact Finset.notMem_erase user users later
    · apply working.ahead key old
      rw [phase]
      exact (ahead key next).imp_right (And.imp_right Finset.mem_of_mem_erase)
  apart := apart

theorem working_decide (working : Working s.voiceReconcileMisses s.previous pass) {channel : Channel} {user : User}
    {users : Finset User} {left : Finset Channel} (phase : pass.phase = .members channel users left) (member : user ∈ users)
    {seat : Seat} {answer : SfuLookup User} (seated : pass.view.snapshot channel user = some seat)
    (answered : pass.view.answers channel = some answer) :
    ∀ next, (s.decide pass channel user seat answer (users.erase user) left).pass = some next →
      Working (s.decide pass channel user seat answer (users.erase user) left).voiceReconcileMisses s.previous next := by
  have apart : channel ∉ left := by
    have out := working.apart
    rw [phase] at out
    exact out
  have missed (said : absentFromSFU answer user = (true, true)) : pass.view.Absent channel user seat :=
    ⟨seated, answer, answered, said⟩
  intro next
  rcases decide_cases (s := s) channel user seat answer (users.erase user) left with
    ⟨count, same, counted⟩ | ⟨said, old, before, same⟩
  · rw [same]
    intro same
    cases same
    refine working.decided_next phase (.inr ?_) apart (fun key leaves => leaves.elim) fun key => id
    exact counted.imp_right (And.imp_right fun said => ⟨seat, missed said⟩)
  · rw [same]
    intro same
    cases same
    have fresh : (channel, user) ∉ pass.activeKeys := by
      intro active
      apply working.ahead _ active
      rw [phase]
      exact .inr ⟨rfl, member⟩
    refine working.decided_next phase (.inl rfl) ⟨apart, Finset.notMem_erase user users⟩ ?_ fun key => id
    rintro key rfl
    rcases working.undecided _ fresh with none' | ⟨-, earlier⟩
    · exact absurd none' before
    · exact ⟨earlier, seat, missed said, old⟩

theorem Working.resumed (working : Working misses previous pass) {k : Nat} {channel : Channel} {user : User}
    {users : Finset User} {left : Finset Channel} (phase : pass.phase = .leaving k channel user users left) :
    Working (Function.update misses (channel, user) 0) previous { pass with phase := .members channel users left } where
  undecided := by
    intro key fresh
    by_cases self : key = (channel, user)
    · rw [self, Function.update_self]
      exact .inl rfl
    · rw [Function.update_of_ne self]
      exact working.undecided key fresh
  decided := by
    intro key active
    right
    by_cases self : key = (channel, user)
    · rw [self, Function.update_self]
      exact .inl rfl
    · rw [Function.update_of_ne self]
      refine (working.decided key active).resolve_left fun leaves => ?_
      rw [phase] at leaves
      exact self leaves
  leaving := fun key leaves => leaves.elim
  ahead := by
    intro key active next
    apply working.ahead key active
    rw [phase]
    exact next
  apart := by
    have out := working.apart
    rw [phase] at out
    exact out.1

omit [DecidableEq Channel] in
theorem Working.nextRoom (working : Working misses previous pass) {channel : Channel} {left : Finset Channel}
    (phase : pass.phase = .members channel ∅ left) : Working misses previous { pass with phase := .rooms left } where
  undecided := working.undecided
  decided := by
    intro key active
    refine .inr ((working.decided key active).resolve_left fun leaves => ?_)
    rw [phase] at leaves
    exact leaves
  leaving := fun key leaves => leaves.elim
  ahead := by
    intro key active next
    apply working.ahead key active
    rw [phase]
    exact .inl next
  apart := trivial

theorem Working.finished (working : Working misses previous pass) (phase : pass.phase = .rooms ∅) (key : Channel × User) :
    Counts (if key ∈ pass.activeKeys then misses key else 0) (MissedBefore (some pass.view) key) := by
  split_ifs with active
  · have counts := (working.decided key active).resolve_left fun leaves => by
      rw [phase] at leaves
      exact leaves
    exact counts.imp_right (And.imp_right fun missed => ⟨pass.view, rfl, missed⟩)
  · exact .inl rfl

theorem leaveOf_of_advance {voice after : VoiceState User Channel} {phase next : Phase User Channel}
    {outcome : Outcome Channel User} {effects : List (Effect User Channel)} {user : User} (leave : LeaveOf user phase)
    (moved : voice.advance regions phase outcome = some (after, next, effects)) : LeaveOf user next := by
  unfold VoiceState.advance at moved
  cases phase with
  | unmap other following =>
    cases following with
    | stop =>
      cases outcome with
      | plain =>
        dsimp only at moved
        cases moved
        split <;> exact leave
      | found | users | signed => cases moved
    | seat | leave => exact leave.elim
  | orphan other following =>
    cases following with
    | stop =>
      cases outcome with
      | found channel =>
        dsimp only at moved
        split_ifs at moved
        cases moved
        cases channel with
        | some channel => exact leave
        | none => trivial
      | plain | users | signed => cases moved
    | seat | leave => exact leave.elim
  | vacate other channel following =>
    cases following with
    | stop =>
      cases outcome with
      | plain =>
        have made : (voice.vacate other channel .stop).2.1 = next := congrArg (fun result => result.2.1) (Option.some.inj moved)
        rw [← made]
        unfold VoiceState.vacate
        split
        · trivial
        · split_ifs <;> trivial
      | found | users | signed => cases moved
    | seat | leave => exact leave.elim
  | endSession channel following =>
    cases following with
    | stop =>
      cases outcome with
      | plain =>
        cases moved
        trivial
      | found | users | signed => cases moved
    | seat | leave => exact leave.elim
  | done => cases outcome <;> cases moved
  | capacity | lookup | upsert | seat | setMap | record | token | gather | sweep => exact leave.elim

theorem inv_start : Inv ({} : State User Channel) where
  between := fun _ _ => .inl rfl
  working := nofun
  held := nofun

theorem inv_rooms {action : VoiceRooms.Action User Channel} {now : Int} (inv : Inv s)
    (stepped : step regions s (.rooms action now) = some t) : Inv t := by
  obtain ⟨after, effects, moved, rfl⟩ := step_rooms stepped
  obtain ⟨pass, previous, counts⟩ := observe_frame (s := s) action now effects
  refine ⟨?_, ?_, ?_⟩
  · dsimp only
    rw [pass, previous, counts]
    exact inv.between
  · dsimp only
    rw [pass, previous, counts]
    exact inv.working
  · intro other k channel user users left here phase
    obtain ⟨old, there, leave⟩ := inv.held other k channel user users left (pass ▸ here) phase
    rcases rooms_cases moved with ⟨first, rfl, rfl⟩ | ⟨j, outcome, section', voice, next, rfl, at', advanced, rfl⟩
    · refine ⟨old, ?_, leave⟩
      dsimp only
      rw [List.getElem?_append_left (lt_length there), there]
    · by_cases same : j = k
      · subst same
        rw [at'] at there
        obtain rfl := Option.some.inj there
        exact ⟨next, List.getElem?_set_self (lt_length at'), leaveOf_of_advance leave advanced⟩
      · refine ⟨old, ?_, leave⟩
        dsimp only
        rw [List.getElem?_set_ne same, there]

theorem inv_step (action : Action User Channel) (inv : Inv s) (stepped : step regions s action = some t) : Inv t := by
  rcases step_cases stepped with ⟨inner, now, rfl⟩ | passed
  · exact inv_rooms inv stepped
  · cases passed with
    | started nowMs idle =>
      refine ⟨nofun, ?_, ?_⟩
      · rintro pass same
        cases same
        exact ⟨fun key _ => inv.between idle key, fun key active => absurd active (Finset.notMem_empty key),
          fun key leaves => leaves.elim, fun key active => absurd active (Finset.notMem_empty key), trivial⟩
      · rintro pass k channel user users left same phase
        cases same
        cases phase
    | @looked pass left channel answers here phase member =>
      have previous : (s.lookup pass channel answers (left.erase channel)).previous = s.previous := by
        unfold State.lookup
        dsimp only
        split <;> rfl
      refine ⟨?_, ?_, ?_⟩
      · unfold State.lookup
        dsimp only
        split <;> exact nofun
      · rw [previous]
        exact working_lookup (inv.working pass here) phase member answers
      · unfold State.lookup
        dsimp only
        split <;>
        · rintro pass k channel user users left same phase
          cases same
          cases phase
    | @decided pass channel users left user seat answer here phase member seated answered =>
      have working := working_decide (inv.working pass here) phase member seated answered
      rcases decide_cases (s := s) channel user seat answer (users.erase user) left with ⟨count, same, -⟩ | ⟨-, -, -, same⟩
      · rw [same] at working ⊢
        refine ⟨nofun, working, ?_⟩
        rintro pass k channel user users left same phase
        cases same
        cases phase
      · rw [same] at working ⊢
        refine ⟨nofun, working, ?_⟩
        rintro pass k channel user users left same phase
        cases same
        cases phase
        exact ⟨_, List.getElem?_concat_length, rfl⟩
    | @resumed pass k channel user users left here phase =>
      refine ⟨nofun, ?_, ?_⟩
      · rintro next same
        cases same
        exact (inv.working pass here).resumed phase
      · rintro pass k channel user users left same phase
        cases same
        cases phase
    | @nextRoom pass channel left here phase =>
      refine ⟨nofun, ?_, ?_⟩
      · rintro next same
        cases same
        exact (inv.working pass here).nextRoom phase
      · rintro pass k channel user users left same phase
        cases same
        cases phase
    | finished here phase => exact ⟨fun _ key => (inv.working _ here).finished phase key, nofun, nofun⟩

end Counts

/-! ## The removals -/

section Removals

variable {regions : SFURegions} {s t : State User Channel}

/-- A removal is made where the leave of a pass vacates a seat. -/
theorem removed_of_rooms {action : VoiceRooms.Action User Channel} {now : Int}
    (stepped : step regions s (.rooms action now) = some t) {removal : Removal User Channel} (member : removal ∈ t.removed) :
    removal ∈ s.removed ∨ ∃ k outcome pass channel user users left next, action = .advance k outcome ∧ s.pass = some pass ∧
      pass.phase = .leaving k channel user users left ∧ s.rooms.calls[k]? = some (.vacate removal.user removal.channel next) ∧
      s.seats removal.channel removal.user = some removal.seat ∧ removal.view = pass.view ∧ removal.previous = s.previous := by
  obtain ⟨after, effects, moved, rfl⟩ := step_rooms stepped
  rcases rooms_cases moved with ⟨first, rfl, rfl⟩ | ⟨k, outcome, phase, voice, next, rfl, here, advanced, rfl⟩
  · exact .inl member
  · rcases effects_of_section (section_of_advance advanced) with rfl | ⟨effect, rfl, vacates⟩
    · exact .inl member
    · obtain ⟨seats, nextSeat, same⟩ := observe_eq (.advance k outcome) now effect s
      rw [List.foldl_cons, List.foldl_nil, same] at member
      unfold State.record at member
      cases working : s.pass with
      | none =>
        rw [working] at member
        exact .inl member
      | some pass =>
        rw [working] at member
        rcases List.mem_append.mp member with old | new
        · exact .inl old
        · right
          unfold Pass.removes at new
          split at new
          · rename_i user channel closed
            obtain ⟨following, vacate⟩ := vacates user channel closed rfl
            split at new
            · rename_i j channel' user' users left seat leaving seated
              split_ifs at new with self
              · obtain rfl := List.mem_singleton.mp new
                rw [← self] at leaving
                exact ⟨k, outcome, pass, channel', user', users, left, following, rfl, rfl, leaving, vacate ▸ here, seated, rfl, rfl⟩
              · exact absurd new List.not_mem_nil
            · exact absurd new List.not_mem_nil
          · exact absurd new List.not_mem_nil

theorem removed_of_passed {action : Action User Channel} (passed : Passed s action t) : t.removed = s.removed := by
  cases passed with
  | looked =>
    unfold State.lookup
    dsimp only
    split <;> rfl
  | @decided pass channel users left user seat answer =>
    rcases decide_cases (s := s) channel user seat answer (users.erase user) left with ⟨count, same, -⟩ | ⟨-, -, -, same⟩
    · rw [same]
      rfl
    · rw [same]
      rfl
  | started | resumed | nextRoom | finished => rfl

theorem lawful_step (action : Action User Channel) (inv : Inv s) (lawful : Lawful s) (stayed : Stayed s action)
    (stepped : step regions s action = some t) : Lawful t := by
  intro removal member
  rcases step_cases stepped with ⟨inner, now, rfl⟩ | passed
  · rcases removed_of_rooms stepped member with
      old | ⟨k, outcome, pass, channel, user, users, left, next, rfl, here, phase, call, seated, view, previous⟩
    · exact lawful removal old
    · obtain ⟨section', there, leave⟩ := inv.held pass k channel user users left here phase
      rw [call] at there
      obtain rfl := Option.some.inj there
      unfold Stayed at stayed
      rw [here] at stayed
      dsimp only at stayed
      rw [phase, call] at stayed
      dsimp only at stayed
      rw [seated] at stayed
      obtain ⟨decided, same, mapped⟩ := stayed rfl (Option.some_ne_none _)
      obtain ⟨before, known, kept⟩ := Option.map_eq_some_iff.mp mapped
      have self : removal.user = user := by
        cases next with
        | stop => exact leave
        | seat | leave => exact leave.elim
      obtain ⟨missed, seat, absent, old⟩ := (inv.working pass here).leaving (channel, user) (by rw [phase]; rfl)
      obtain ⟨earlier, known', seat', absent'⟩ := missed
      obtain rfl := Option.some.inj (known.symm.trans known')
      rw [decided, self] at same kept
      obtain rfl := Option.some.inj (same.symm.trans absent.1)
      obtain rfl := Option.some.inj (kept.symm.trans absent'.1)
      refine ⟨view ▸ old, ?_, before, previous ▸ known, ?_⟩
      · rw [view, decided, self]
        exact absent
      · rw [decided, self]
        exact absent'
  · exact lawful removal (removed_of_passed passed ▸ member)

/-- Along every run of the passes, the joins and the leaves in which the leave of a pass takes only a
seat that this pass and the one before saw, a pass removes no other than a member who was absent both
times and has been there long enough. -/
theorem lawful_always (regions : SFURegions) (actions : List (Action User Channel))
    (stayed : EachStep (step regions) Stayed {} actions) : Always (step regions) Lawful {} actions := by
  have both : Always (step regions) (fun s => Inv s ∧ Lawful s) {} actions := by
    refine always_of_eachStep ?_ ⟨inv_start, ?_⟩ actions stayed
    · rintro s action t ⟨inv, lawful⟩ stayed stepped
      exact ⟨inv_step action inv stepped, lawful_step action inv lawful stayed stepped⟩
    · exact fun _ member => absurd member List.not_mem_nil
  exact both.imp fun s kept => kept.2

end Removals

def oneRegion : SFURegions where
  order := ["eu-west"]
  nonempty := List.cons_ne_nil _ _
  named member := nomatch List.mem_singleton.mp member

def takes (now : Int) (k : Nat) (outcome : Outcome Nat Nat) : Action Nat Nat := .rooms (.advance k outcome) now

/-- Call `k` is a join of user 7 into room 1. -/
def joins (now : Int) (k : Nat) : List (Action Nat Nat) :=
  .rooms (.join ⟨1, 7, 10, false, ""⟩) now ::
    [.plain, .plain, .plain, .found none, .plain, .plain, .plain, .signed "" true].map (takes now k)

/-- The user is absent for two passes. -/
def ghost : List (Action Nat Nat) :=
  joins 0 0 ++ [.start 50000, .lookup 1 [.absent], .decide 7, .next, .finish, .start 70000, .lookup 1 [.absent], .decide 7] ++
    [.plain, .plain].map (takes 70300 1)

theorem lawful_ghost : Always (step oneRegion) Lawful {} ghost ∧
    (run (step oneRegion) {} ghost).map (fun s => s.removed.length) = some 1 :=
  ⟨lawful_always oneRegion ghost (by decide +kernel), by decide +kernel⟩

/-- A member whom no SFU has at 50 s misses once. At 70 s the next pass takes its snapshot and asks
the SFU, the member leaves and joins anew, and the pass decides. -/
def rejoining : List (Action Nat Nat) :=
  joins 0 0 ++ [.start 50000, .lookup 1 [.absent], .decide 7, .next, .finish, .start 70000, .lookup 1 [.absent]] ++
    .rooms (.leave 7) 70100 :: [.plain, .plain, .plain].map (takes 70100 1) ++ joins 70200 2 ++
    .decide 7 :: [.plain, .plain].map (takes 70300 3)

/-- The new seat goes, which is younger than the pass. -/
theorem rejoining_evicted : ¬ Always (step oneRegion) Lawful {} rejoining := by
  have ages : (run (step oneRegion) {} rejoining).map (fun s => s.removed.map fun r => r.view.nowMs - r.seat.joinedAt) =
      some [-200] := by decide +kernel
  obtain ⟨s, ran, taken⟩ := Option.map_eq_some_iff.mp ages
  refine not_always_of_run ran fun lawful => ?_
  have young : (-200 : Int) ∈ s.removed.map fun r => r.view.nowMs - r.seat.joinedAt := taken ▸ List.mem_singleton_self _
  obtain ⟨removal, member, age⟩ := List.mem_map.mp young
  have old := (lawful removal member).grace
  unfold voiceReconcileGrace at old
  omega

end Mello.Backend.VoiceReconcile
