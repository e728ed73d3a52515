import Mello.Backend.VoiceRooms

/-!
The voice sessions of the ledger. A period of a room ends when its last member
leaves. The room and its session close in different sections, and a seat enters
the session in a later section than it is taken, so a call of another user in
between can split a period's participants over two events or carry them over.
Along every run without these orders each period of two participants or more
gives exactly its event.
-/

namespace Mello.Backend.VoiceSessions
open Mello.Library Runs VoiceRooms VoiceState

variable {User Channel : Type}

/-! ## What is awaited of the calls -/

/-- A call that closed the room has yet to close its session. -/
def Ends (channel : Channel) : Phase User Channel → Prop
  | .endSession here _ => here = channel
  | _ => False

/-- A call that took a seat has yet to enter it in the session. -/
def Records (user : User) (channel : Channel) : Phase User Channel → Prop
  | .setMap p | .record p => p.user = user ∧ p.channel = channel ∧ p.isGuest = false
  | _ => False

section Phases

variable {old : Phase User Channel}

theorem fresh_of_looks (looks : old.Looks) : old.Fresh := by
  cases old <;> trivial

theorem not_ends_of_fresh {channel : Channel} (fresh : old.Fresh) : ¬Ends channel old := by
  cases old <;> first | exact id | exact fresh.elim

theorem not_records_of_fresh {user : User} {channel : Channel} (fresh : old.Fresh) : ¬Records user channel old := by
  cases old <;> first | exact id | exact fresh.elim

end Phases

variable [DecidableEq Channel]

def Awaited (s : State User Channel) (what : Phase User Channel → Prop) : Prop :=
  ∃ (k : Nat) (phase : Phase User Channel), s.calls[k]? = some phase ∧ what phase

section Awaiting

variable {s : State User Channel} {voice : VoiceState User Channel} {k : Nat} {old next : Phase User Channel}

/-- What is awaited of the other calls stays so. -/
theorem awaited_set (voice : VoiceState User Channel) (next : Phase User Channel) (here : s.calls[k]? = some old)
    (what : Phase User Channel → Prop) :
    ∃ others : Prop, (Awaited s what ↔ what old ∨ others) ∧
      (Awaited { voice, calls := s.calls.set k next } what ↔ what next ∨ others) := by
  have inside : k < s.calls.length := Tables.lt_length here
  refine ⟨∃ (j : Nat) (phase : Phase User Channel), j ≠ k ∧ s.calls[j]? = some phase ∧ what phase, ?_, ?_⟩
  · constructor
    · rintro ⟨j, phase, there, awaits⟩
      by_cases same : j = k
      · subst same
        obtain rfl := Option.some.inj (here.symm.trans there)
        exact .inl awaits
      · exact .inr ⟨j, phase, same, there, awaits⟩
    · rintro (awaits | ⟨j, phase, -, there, awaits⟩)
      · exact ⟨k, old, here, awaits⟩
      · exact ⟨j, phase, there, awaits⟩
  · constructor
    · rintro ⟨j, phase, there, awaits⟩
      change (s.calls.set k next)[j]? = some phase at there
      by_cases same : j = k
      · subst same
        rw [List.getElem?_set_self inside] at there
        obtain rfl := Option.some.inj there
        exact .inl awaits
      · rw [List.getElem?_set_ne fun back => same back.symm] at there
        exact .inr ⟨j, phase, same, there, awaits⟩
    · rintro (awaits | ⟨j, phase, apart, there, awaits⟩)
      · exact ⟨k, next, List.getElem?_set_self inside, awaits⟩
      · refine ⟨j, phase, ?_, awaits⟩
        change (s.calls.set k next)[j]? = some phase
        rw [List.getElem?_set_ne fun back => apart back.symm, there]

theorem awaited_same {what : Phase User Channel → Prop} (here : s.calls[k]? = some old) (same : what old ↔ what next) :
    Awaited { voice, calls := s.calls.set k next } what ↔ Awaited s what := by
  obtain ⟨others, before, after⟩ := awaited_set voice next here what
  rw [before, after, same]

theorem awaited_append {what : Phase User Channel → Prop} (idle : ¬what next) :
    Awaited { s with calls := s.calls ++ [next] } what ↔ Awaited s what := by
  constructor
  · rintro ⟨j, phase, there, awaits⟩
    rcases List.mem_append.mp (List.mem_of_getElem? there) with old | new
    · obtain ⟨j, there⟩ := List.getElem?_of_mem old
      exact ⟨j, phase, there, awaits⟩
    · rw [List.mem_singleton.mp new] at awaits
      exact absurd awaits idle
  · rintro ⟨j, phase, there, awaits⟩
    exact ⟨j, phase, by rw [← there]; exact List.getElem?_append_left (Tables.lt_length there), awaits⟩

end Awaiting

/-! ## What is claimed -/

def eventOf (channel : Channel) : Effect User Channel → Option (Finset User)
  | .voiceSession here participants => if here = channel then some participants else none
  | _ => none

/-- The participants of each event of a channel. -/
def events (channel : Channel) (log : List (Effect User Channel)) : List (Finset User) := log.filterMap (eventOf channel)

/-- At least two different users. -/
def together (participants : Finset User) : Bool := 2 ≤ participants.card

theorem filter_empty : [(∅ : Finset User)].filter together = [] := rfl

section Append

variable {voice : VoiceState User Channel} {log effects : List (Effect User Channel)} {channel : Channel}

theorem events_append : events channel (log ++ effects) = events channel log ++ effects.filterMap (eventOf channel) :=
  List.filterMap_append

theorem sessions_voiceRoomSFURegion (regions : SFURegions) (preferred environment : String) :
    (voice.voiceRoomSFURegion regions channel preferred environment).2.sessions = voice.sessions := by
  unfold voiceRoomSFURegion
  split
  · dsimp only
    split_ifs <;> rfl
  · rfl

theorem sessions_voiceSessionOnLastLeave (there : Channel) :
    (voice.voiceSessionOnLastLeave there).1.sessions channel = if channel = there then none else voice.sessions channel := by
  unfold voiceSessionOnLastLeave
  cases here : voice.sessions there with
  | none =>
    split_ifs with same
    · rw [same, here]
    · rfl
  | some participants =>
    exact Function.update_apply _ _ _ _

theorem event_voiceSessionOnLastLeave (there : Channel) :
    (voice.voiceSessionOnLastLeave there).2.filterMap (eventOf channel) =
      if there = channel then [(voice.sessions there).getD ∅].filter together else [] := by
  unfold voiceSessionOnLastLeave
  cases voice.sessions there with
  | none => exact (ite_self _).symm
  | some participants =>
    dsimp only
    by_cases few : participants.card < 2
    · have alone : together participants = false := decide_eq_false (not_le.mpr few)
      rw [if_pos few, Option.getD_some, List.filter_cons_of_neg (by simp [alone])]
      exact (ite_self _).symm
    · have enough : together participants = true := decide_eq_true (not_lt.mp few)
      rw [if_neg few, Option.getD_some, List.filter_cons_of_pos enough]
      split_ifs with same <;> simp [eventOf, same]

end Append

variable [DecidableEq User]

/-- The periods of a room: the non-guests so far in the open one, and those of
each closed one. -/
structure Periods (User : Type) where
  present : Finset User := ∅
  closed : List (Finset User) := []

def Periods.enter (periods : Periods User) (channel : Channel) (p : VoiceJoinParams User Channel) : Periods User :=
  if p.channel = channel ∧ p.isGuest = false then { periods with present := insert p.user periods.present }
  else periods

def Periods.after (channel : Channel) (periods : Periods User) : Effect User Channel → Periods User
  | .seated p _ => periods.enter channel p
  | .refreshed p => periods.enter channel p
  | .vacated _ here closed =>
    if here = channel ∧ closed = true then { present := ∅, closed := periods.closed ++ [periods.present] } else periods
  | _ => periods

def periodsOf (channel : Channel) (log : List (Effect User Channel)) : Periods User := log.foldl (Periods.after channel) {}

/-- The events of a channel are those of its closed periods with two participants
or more, in order; all of them, once no call has a session to close. -/
def EachOnce (s : State User Channel) (log : List (Effect User Channel)) : Prop :=
  ∀ channel, events channel log <+: (periodsOf channel log).closed.filter together ∧
    (¬Awaited s (Ends channel) → events channel log = (periodsOf channel log).closed.filter together)

/-- What a section finds that keeps a period and its session together. A seat is
entered while no session waits for its end. The last member leaves after every
seat is entered. A re-join, which enters nothing, is of a user already counted. -/
def Finds (s : State User Channel) (log : List (Effect User Channel)) : Phase User Channel → Prop
  | .upsert p => p.isGuest = true ∨ p.user ∈ (periodsOf p.channel log).present
  | .record p => p.isGuest = true ∨ ¬Awaited s (Ends p.channel)
  | .vacate user channel _ => ∀ room, s.voice.room channel = some room → room.members.erase user = ∅ →
      ∀ other, ¬Awaited s (Records other channel)
  | _ => True

def Orderly (s : State User Channel × List (Effect User Channel)) (action : VoiceRooms.Action User Channel) : Prop :=
  ∀ (k : Nat) (outcome : Outcome Channel User) (phase : Phase User Channel),
    action = .advance k outcome → s.1.calls[k]? = some phase → Finds s.1 s.2 phase

/-! ## The invariant -/

/-- While a call has yet to close a session, it holds the last closed period that
has not given its event, and no seat of the open one. -/
structure Kept (s : State User Channel) (log : List (Effect User Channel)) (channel : Channel) : Prop where
  ended : ¬Awaited s (Ends channel) → events channel log = (periodsOf channel log).closed.filter together
  ending : Awaited s (Ends channel) →
    events channel log ++ [(s.voice.sessions channel).getD ∅].filter together =
      (periodsOf channel log).closed.filter together
  present : ∀ user, user ∈ (periodsOf channel log).present ↔
    (user ∈ (s.voice.sessions channel).getD ∅ ∧ ¬Awaited s (Ends channel)) ∨ Awaited s (Records user channel)

section Steps

variable {s t : State User Channel} {voice : VoiceState User Channel} {log effects : List (Effect User Channel)}
variable {channel : Channel} {k : Nat} {old next : Phase User Channel} {p : VoiceJoinParams User Channel}

theorem periodsOf_append :
    periodsOf channel (log ++ effects) = effects.foldl (Periods.after channel) (periodsOf channel log) :=
  List.foldl_append

/-- A section with no bearing on the channel. -/
theorem Kept.frame (kept : Kept s log channel) (here : s.calls[k]? = some old)
    (ends : Ends channel old ↔ Ends channel next) (records : ∀ user, Records user channel old ↔ Records user channel next)
    (sessions : voice.sessions channel = s.voice.sessions channel)
    (periods : periodsOf channel (log ++ effects) = periodsOf channel log)
    (silent : effects.filterMap (eventOf channel) = []) :
    Kept { voice, calls := s.calls.set k next } (log ++ effects) channel := by
  have awaits : Awaited { voice, calls := s.calls.set k next } (Ends channel) ↔ Awaited s (Ends channel) :=
    awaited_same here ends
  have same : events channel (log ++ effects) = events channel log := by
    rw [events_append, silent, List.append_nil]
  refine ⟨?_, ?_, fun user => ?_⟩
  · rw [awaits, same, periods]
    exact kept.ended
  · rw [awaits, same, periods]
    change _ → _ ++ [(voice.sessions channel).getD ∅].filter together = _
    rw [sessions]
    exact kept.ending
  · rw [awaits, periods, awaited_same here (records user)]
    change _ ↔ (user ∈ (voice.sessions channel).getD ∅ ∧ _) ∨ _
    rw [sessions]
    exact kept.present user

/-- A section between two phases that await nothing. -/
theorem Kept.quiet (kept : Kept s log channel) (here : s.calls[k]? = some old) (before : old.Fresh) (after : next.Fresh)
    (sessions : voice.sessions channel = s.voice.sessions channel)
    (periods : periodsOf channel (log ++ effects) = periodsOf channel log)
    (silent : effects.filterMap (eventOf channel) = []) :
    Kept { voice, calls := s.calls.set k next } (log ++ effects) channel :=
  kept.frame here (iff_of_false (not_ends_of_fresh before) (not_ends_of_fresh after))
    (fun _ => iff_of_false (not_records_of_fresh before) (not_records_of_fresh after)) sessions periods silent

theorem sessions_add : (voice.add p).1.sessions = voice.sessions := by
  unfold add
  split <;> rfl

theorem periodsOf_add :
    periodsOf channel (log ++ (voice.add p).2) = (periodsOf channel log).enter channel p := by
  rw [periodsOf_append]
  unfold add
  split <;> rfl

theorem silent_add : (voice.add p).2.filterMap (eventOf channel) = [] := by
  unfold add
  split <;> rfl

theorem sessions_upsertVoiceMember : (voice.upsertVoiceMember p).1.sessions = voice.sessions := by
  unfold upsertVoiceMember
  split
  · split_ifs
    · rfl
    · exact sessions_add
  · exact sessions_add

theorem periodsOf_upsertVoiceMember :
    periodsOf channel (log ++ (voice.upsertVoiceMember p).2) = (periodsOf channel log).enter channel p := by
  unfold upsertVoiceMember
  split
  · split_ifs
    · rw [periodsOf_append]
      rfl
    · exact periodsOf_add
  · exact periodsOf_add

theorem silent_upsertVoiceMember : (voice.upsertVoiceMember p).2.filterMap (eventOf channel) = [] := by
  unfold upsertVoiceMember
  split
  · split_ifs
    · rfl
    · exact silent_add
  · exact silent_add

theorem periodsOf_voiceSessionOnLastLeave {there : Channel} :
    periodsOf channel (log ++ (voice.voiceSessionOnLastLeave there).2) = periodsOf channel log := by
  rw [periodsOf_append]
  unfold voiceSessionOnLastLeave
  split
  · rfl
  · dsimp only
    split_ifs <;> rfl

/-- A re-join counts nobody anew. -/
theorem kept_upsert (kept : Kept s log channel) (here : s.calls[k]? = some (.upsert p)) (finds : Finds s log (.upsert p)) :
    Kept { voice := (s.voice.upsertVoiceMember p).1, calls := s.calls.set k (.token p) }
      (log ++ (s.voice.upsertVoiceMember p).2) channel := by
  have before : (Phase.upsert p).Fresh := trivial
  have after : (Phase.token p).Fresh := trivial
  apply kept.quiet here before after (congrFun sessions_upsertVoiceMember channel) _ silent_upsertVoiceMember
  rw [periodsOf_upsertVoiceMember, Periods.enter]
  split_ifs with counts
  · obtain ⟨rfl, member⟩ := counts
    rcases finds with guest | counted
    · exact absurd guest (by simp [member])
    · rw [Finset.insert_eq_self.mpr counted]
  · rfl

/-- A seat is counted, and awaits its entry in the session. -/
theorem kept_seat (kept : Kept s log channel) (here : s.calls[k]? = some (.seat p)) :
    Kept { voice := (s.voice.add p).1, calls := s.calls.set k (.setMap p) } (log ++ (s.voice.add p).2) channel := by
  have ends : Awaited { voice := (s.voice.add p).1, calls := s.calls.set k (.setMap p) } (Ends channel) ↔
      Awaited s (Ends channel) := awaited_same here Iff.rfl
  have closed : (periodsOf channel (log ++ (s.voice.add p).2)).closed = (periodsOf channel log).closed := by
    rw [periodsOf_add, Periods.enter]
    split_ifs <;> rfl
  have same : events channel (log ++ (s.voice.add p).2) = events channel log := by
    rw [events_append, silent_add, List.append_nil]
  refine ⟨?_, ?_, fun user => ?_⟩
  · rw [ends, same, closed]
    exact kept.ended
  · rw [ends, same, closed]
    change _ → _ ++ [((s.voice.add p).1.sessions channel).getD ∅].filter together = _
    rw [sessions_add]
    exact kept.ending
  · obtain ⟨others, before, after⟩ :=
      awaited_set (s.voice.add p).1 (.setMap p) here (Records user channel)
    have entered : user ∈ (periodsOf channel (log ++ (s.voice.add p).2)).present ↔
        Records user channel (.setMap p) ∨ user ∈ (periodsOf channel log).present := by
      rw [periodsOf_add, Periods.enter]
      change _ ↔ (p.user = user ∧ p.channel = channel ∧ p.isGuest = false) ∨ _
      split_ifs with counts
      · rw [Finset.mem_insert, and_iff_left counts, eq_comm]
      · rw [or_iff_right fun records => counts records.2]
    have known := kept.present user
    rw [before, or_iff_right (a := Records user channel (.seat p)) id] at known
    rw [entered, ends, after, known]
    change _ ↔ (user ∈ ((s.voice.add p).1.sessions channel).getD ∅ ∧ _) ∨ _
    rw [sessions_add]
    exact or_left_comm

/-- A seat enters the session it was counted for. -/
theorem kept_record (kept : Kept s log channel) (here : s.calls[k]? = some (.record p)) (finds : Finds s log (.record p)) :
    Kept { voice := if p.isGuest then s.voice else s.voice.voiceSessionOnJoin p.channel p.user
           calls := s.calls.set k (.token p) } (log ++ []) channel := by
  by_cases guest : p.isGuest = true
  · rw [if_pos guest]
    have visits : ∀ user, ¬Records user channel (.record p) := fun user records =>
      Bool.false_ne_true (records.2.2.symm.trans guest)
    exact kept.frame here Iff.rfl (fun user => iff_of_false (visits user) id) rfl (by rw [List.append_nil]) rfl
  rw [if_neg guest]
  by_cases elsewhere : p.channel = channel
  · subst elsewhere
    have unended : ¬Awaited s (Ends p.channel) := finds.resolve_left guest
    have ends : Awaited { voice := s.voice.voiceSessionOnJoin p.channel p.user, calls := s.calls.set k (.token p) }
        (Ends p.channel) ↔ Awaited s (Ends p.channel) := awaited_same here Iff.rfl
    refine ⟨?_, fun awaits => absurd (ends.mp awaits) unended, fun user => ?_⟩
    · rw [ends, List.append_nil]
      exact kept.ended
    · obtain ⟨others, before, after⟩ :=
        awaited_set (s.voice.voiceSessionOnJoin p.channel p.user) (.token p) here (Records user p.channel)
      have known := kept.present user
      rw [before] at known
      have own : Records user p.channel (.record p) ↔ p.user = user :=
        and_iff_left ⟨rfl, Bool.eq_false_of_not_eq_true guest⟩
      have none : Records user p.channel (.token p) ↔ False := Iff.rfl
      rw [List.append_nil, known, ends, after, own, none]
      change _ ↔ (user ∈ (Function.update s.voice.sessions p.channel
        (some (insert p.user ((s.voice.sessions p.channel).getD ∅))) p.channel).getD ∅ ∧ _) ∨ _
      rw [Function.update_self, Option.getD_some, Finset.mem_insert, eq_comm (a := user), and_iff_left unended,
        and_iff_left unended, false_or, or_left_comm, or_assoc]
  · have other : ∀ user, ¬Records user channel (.record p) := fun user records => elsewhere records.2.1
    refine kept.frame here Iff.rfl (fun user => iff_of_false (other user) id) ?_ (by rw [List.append_nil]) rfl
    exact Function.update_of_ne (Ne.symm elsewhere) _ _

/-- The period closes with its room, and its session is to follow. -/
theorem kept_close (kept : Kept s log channel) {user : User} {after : Next User Channel}
    (here : s.calls[k]? = some (.vacate user channel after)) (entered : ∀ other, ¬Awaited s (Records other channel)) :
    Kept { voice := s.voice.dropRoom channel, calls := s.calls.set k (.endSession channel after) }
      (log ++ [.vacated user channel true]) channel := by
  have ends : Awaited { voice := s.voice.dropRoom channel, calls := s.calls.set k (.endSession channel after) }
      (Ends channel) := ⟨k, _, List.getElem?_set_self (Tables.lt_length here), rfl⟩
  have closes : periodsOf channel (log ++ [.vacated user channel true]) =
      { present := ∅, closed := (periodsOf channel log).closed ++ [(periodsOf channel log).present] } := by
    rw [periodsOf_append]
    exact if_pos ⟨rfl, rfl⟩
  have same : events channel (log ++ [.vacated user channel true]) = events channel log := by
    rw [events_append]
    exact List.append_nil _
  refine ⟨fun idle => absurd ends idle, fun _ => ?_, fun other => ?_⟩
  · rw [same, closes, List.filter_append]
    change _ ++ [(s.voice.sessions channel).getD ∅].filter together = _
    by_cases waits : Awaited s (Ends channel)
    · have nobody : (periodsOf channel log).present = ∅ := by
        refine Finset.eq_empty_of_forall_notMem fun other member => ?_
        rcases (kept.present other).mp member with ⟨-, idle⟩ | records
        · exact idle waits
        · exact entered other records
      rw [nobody, filter_empty, List.append_nil]
      exact kept.ending waits
    · have all : (periodsOf channel log).present = (s.voice.sessions channel).getD ∅ := by
        ext other
        rw [kept.present other, or_iff_left (entered other), and_iff_left waits]
      rw [all, kept.ended waits]
  · have records : Awaited { voice := s.voice.dropRoom channel, calls := s.calls.set k (.endSession channel after) }
        (Records other channel) ↔ Awaited s (Records other channel) := awaited_same here Iff.rfl
    rw [closes, records]
    exact iff_of_false (Finset.notMem_empty other) fun said => said.elim (fun stays => stays.2 ends) (entered other)

theorem kept_vacate (kept : Kept s log channel) {user : User} {there : Channel} {after : Next User Channel}
    (here : s.calls[k]? = some (.vacate user there after)) (finds : Finds s log (.vacate user there after)) :
    Kept { voice := (s.voice.vacate user there after).1
           calls := s.calls.set k (s.voice.vacate user there after).2.1 }
      (log ++ (s.voice.vacate user there after).2.2) channel := by
  have before : (Phase.vacate user there after).Fresh := trivial
  have stays : periodsOf channel (log ++ [.vacated user there false]) = periodsOf channel log := by
    rw [periodsOf_append]
    exact if_neg fun closed => Bool.false_ne_true closed.2
  unfold vacate
  cases room : s.voice.room there with
  | none => exact kept.quiet here before (fresh_next after) rfl (by rw [List.append_nil]) rfl
  | some found =>
    dsimp only
    split_ifs with last
    · by_cases same : there = channel
      · subst same
        exact kept_close kept here (finds found room last)
      · refine kept.frame here (iff_of_false id same) (fun _ => Iff.rfl) rfl ?_ rfl
        rw [periodsOf_append]
        exact if_neg fun closed => same closed.1
    · exact kept.quiet here before (fresh_next after) rfl stays rfl

/-- The session that ends gives the event its period has not given. -/
theorem kept_end (kept : Kept s log channel) {there : Channel} {after : Next User Channel}
    (here : s.calls[k]? = some (.endSession there after)) :
    Kept { voice := (s.voice.voiceSessionOnLastLeave there).1, calls := s.calls.set k after.phase }
      (log ++ (s.voice.voiceSessionOnLastLeave there).2) channel := by
  by_cases same : there = channel
  · subst same
    have waits : Awaited s (Ends there) := ⟨k, _, here, rfl⟩
    have settled : events there (log ++ (s.voice.voiceSessionOnLastLeave there).2) =
        (periodsOf there (log ++ (s.voice.voiceSessionOnLastLeave there).2)).closed.filter together := by
      rw [events_append, event_voiceSessionOnLastLeave, periodsOf_voiceSessionOnLastLeave, if_pos rfl, kept.ending waits]
    have none : (s.voice.voiceSessionOnLastLeave there).1.sessions there = none := by
      rw [sessions_voiceSessionOnLastLeave, if_pos rfl]
    refine ⟨fun _ => settled, fun _ => ?_, fun user => ?_⟩
    · change _ ++ [((s.voice.voiceSessionOnLastLeave there).1.sessions there).getD ∅].filter together = _
      rw [none, Option.getD_none, filter_empty, List.append_nil, settled]
    · have records : Awaited { voice := (s.voice.voiceSessionOnLastLeave there).1, calls := s.calls.set k after.phase }
          (Records user there) ↔ Awaited s (Records user there) :=
        awaited_same here (iff_of_false id (not_records_of_fresh (fresh_next after)))
      change _ ↔ (user ∈ ((s.voice.voiceSessionOnLastLeave there).1.sessions there).getD ∅ ∧ _) ∨ _
      rw [records, none, Option.getD_none, periodsOf_voiceSessionOnLastLeave, kept.present user,
        or_iff_right fun stays => stays.2 waits, or_iff_right fun member => Finset.notMem_empty user member.1]
  · refine kept.frame here (iff_of_false same (not_ends_of_fresh (fresh_next after)))
      (fun _ => iff_of_false id (not_records_of_fresh (fresh_next after))) ?_
      periodsOf_voiceSessionOnLastLeave ?_
    · rw [sessions_voiceSessionOnLastLeave, if_neg (Ne.symm same)]
    · rw [event_voiceSessionOnLastLeave, if_neg same]

theorem kept_step {regions : SFURegions} {action : VoiceRooms.Action User Channel} (kept : Kept s log channel)
    (orderly : Orderly (s, log) action) (stepped : step regions s action = some (t, effects)) :
    Kept t (log ++ effects) channel := by
  cases moved_of_step stepped with
  | began fresh begins =>
    have ends : Awaited { s with calls := s.calls ++ [_] } (Ends channel) ↔ _ := awaited_append (not_ends_of_fresh fresh)
    refine ⟨?_, ?_, fun user => ?_⟩
    · rw [ends, List.append_nil]
      exact kept.ended
    · rw [ends, List.append_nil]
      exact kept.ending
    · have records : Awaited { s with calls := s.calls ++ [_] } (Records user channel) ↔ _ :=
        awaited_append (not_records_of_fresh fresh)
      rw [ends, records, List.append_nil]
      exact kept.present user
  | advanced here taken =>
    have finds := orderly _ _ _ rfl here
    have nothing : periodsOf channel (log ++ ([] : List (Effect User Channel))) = periodsOf channel log := by
      rw [List.append_nil]
    cases taken with
    | looked before after => exact kept.quiet here (fresh_of_looks before) after rfl nothing rfl
    | upserted p => exact kept_upsert kept here finds
    | seated p => exact kept_seat kept here
    | mapped p => exact kept.frame here Iff.rfl (fun _ => Iff.rfl) rfl nothing rfl
    | recorded p => exact kept_record kept here finds
    | issued p environment =>
      refine kept.frame here Iff.rfl (fun _ => Iff.rfl) (congrFun (sessions_voiceRoomSFURegion _ _ _) channel) ?_ rfl
      rw [periodsOf_append]
      rfl
    | unsigned p environment =>
      exact kept.frame here Iff.rfl (fun _ => Iff.rfl) (congrFun (sessions_voiceRoomSFURegion _ _ _) channel) nothing rfl
    | unmapped next mapped => exact kept.frame here Iff.rfl (fun _ => Iff.rfl) rfl nothing rfl
    | absent next none => exact kept.frame here Iff.rfl (fun _ => Iff.rfl) rfl nothing rfl
    | vacated user there next => exact kept_vacate kept here finds
    | ended there next => exact kept_end kept here

theorem kept_start : Kept ({} : State User Channel) [] channel where
  ended := fun _ => rfl
  ending := fun _ => rfl
  present := by
    intro user
    refine iff_of_false (Finset.notMem_empty user) ?_
    rintro (⟨member, -⟩ | ⟨k, phase, here, -⟩)
    · exact Finset.notMem_empty user member
    · cases here

theorem Kept.eachOnce (kept : ∀ channel, Kept s log channel) : EachOnce s log := by
  intro channel
  refine ⟨?_, (kept channel).ended⟩
  by_cases waits : Awaited s (Ends channel)
  · exact ⟨_, (kept channel).ending waits⟩
  · rw [(kept channel).ended waits]

/-- Along every orderly run each period gives its event once. -/
theorem eachOnce_always (regions : SFURegions) (actions : List (VoiceRooms.Action User Channel))
    (orderly : EachStep (logged (step regions)) Orderly (({} : State User Channel), []) actions) :
    Always (logged (step regions)) (fun s => EachOnce s.1 s.2) ({}, []) actions := by
  have kept : Always (logged (step regions)) (fun s => ∀ channel, Kept s.1 s.2 channel) (({} : State User Channel), [])
      actions := by
    refine always_of_eachStep ?_ (fun _ => kept_start) actions orderly
    rintro ⟨s, log⟩ action ⟨t, after⟩ kept met moved channel
    obtain ⟨effects, stepped, rfl⟩ := logged_eq_some.mp moved
    exact kept_step (kept channel) met stepped
  exact kept.imp fun _ kept => Kept.eachOnce kept

end Steps

theorem unnamed_notMem_one : "" ∉ ["eu-west"] := by simp

def oneRegion : SFURegions where
  order := ["eu-west"]
  nonempty := nofun
  named := unnamed_notMem_one

def joinOf (user : Nat) : VoiceJoinParams Nat Nat :=
  { channel := 7, user, maxMembers := 50, isGuest := false, preferredRegion := "" }

/-- A first join up to its seat, and from there to its end. -/
def seated (k user : Nat) : List (VoiceRooms.Action Nat Nat) :=
  [.join (joinOf user), .advance k .plain, .advance k .plain, .advance k .plain, .advance k (.found none),
    .advance k .plain]

def entered (k : Nat) : List (VoiceRooms.Action Nat Nat) :=
  [.advance k .plain, .advance k .plain, .advance k (.signed "" true)]

/-- A leave up to the deletion of the seat. -/
def left (k user : Nat) : List (VoiceRooms.Action Nat Nat) :=
  [.leave user, .advance k .plain, .advance k .plain]

theorem eachOnce_joinAndLeave :
    Always (logged (step oneRegion)) (fun s => EachOnce s.1 s.2) (({} : State Nat Nat), [])
      (seated 0 1 ++ entered 0 ++ left 1 1 ++ [.advance 1 .plain]) := by
  apply eachOnce_always
  refine .cons rfl ?_ (.cons rfl ?_ (.cons rfl ?_ (.cons rfl ?_ (.cons rfl ?_ (.cons rfl ?_ (.cons rfl ?_
    (.cons rfl ?_ (.cons rfl ?_ (.cons rfl ?_ (.cons rfl ?_ (.cons rfl ?_ (.cons rfl ?_ trivial))))))))))))
  · rintro k outcome phase ⟨⟩
  · rintro k outcome phase ⟨⟩ ⟨⟩
    trivial
  · rintro k outcome phase ⟨⟩ ⟨⟩
    trivial
  · rintro k outcome phase ⟨⟩ ⟨⟩
    trivial
  · rintro k outcome phase ⟨⟩ ⟨⟩
    trivial
  · rintro k outcome phase ⟨⟩ ⟨⟩
    trivial
  · rintro k outcome phase ⟨⟩ ⟨⟩
    trivial
  · rintro k outcome phase ⟨⟩ ⟨⟩
    right
    rintro ⟨_ | j, phase, ⟨⟩, ends⟩
    exact ends
  · rintro k outcome phase ⟨⟩ ⟨⟩
    trivial
  · rintro k outcome phase ⟨⟩
  · rintro k outcome phase ⟨⟩ ⟨⟩
    trivial
  · rintro k outcome phase ⟨⟩ ⟨⟩ room - - other
    rintro ⟨_ | _ | j, phase, ⟨⟩, records⟩
    · exact records
    · exact records
  · rintro k outcome phase ⟨⟩ ⟨⟩
    trivial

/-- Two users share the room. The third joins when both have left, but before the
second has closed the session of the room. -/
def thirdBeforeTheEnd : List (VoiceRooms.Action Nat Nat) :=
  seated 0 1 ++ entered 0 ++ seated 1 2 ++ entered 1 ++ left 2 1 ++ left 3 2 ++ seated 4 3 ++ entered 4 ++
    [.advance 3 .plain]

/-- The event of the first period names the third user. -/
theorem thirdBeforeTheEnd_event :
    ∃ s, run (logged (step oneRegion)) (({} : State Nat Nat), []) thirdBeforeTheEnd = some s ∧
      s.1.calls = [.done, .done, .done, .done, .done] ∧
      events 7 s.2 = [{1, 2, 3}] ∧ (periodsOf 7 s.2).closed = [{1, 2}] := by
  refine ⟨_, rfl, rfl, ?_, ?_⟩
  · decide
  · decide

end Mello.Backend.VoiceSessions
