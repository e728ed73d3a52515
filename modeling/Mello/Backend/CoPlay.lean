import Mello.Library.MapOrder

/-!
Who was in a game together (`collectCoPlayers`): the crewmates whose recorded sessions of the game
meet the actor's window, and those who still play it. Times are milliseconds and do not overflow.
What a JSON payload decodes to, what a time string stands for and what the server's reads give are
parameters.
-/

namespace Mello.Backend.CoPlay
open Mello.Library MapOrder

structure SessionWindow where
  userId : String
  gameId : String
  startMs : Int
  endMs : Int
  deriving DecidableEq, Repr

structure GameSessionData where
  gameId : String
  durationMin : Int
  deriving DecidableEq, Repr

structure CrewEvent (Data : Type) where
  type : String
  actorId : String
  timestamp : Int
  data : Data
  deriving DecidableEq, Repr

structure GamePresence where
  gameId : String
  startedAt : String
  deriving DecidableEq, Repr

/-- The server: the users of the crew in the order of their list, where an entry may have none; the
game of a user's presence; and the names. A read that fails gives `none`. -/
structure Server (Data : Type) where
  gameSessionDataOf : Data → Option GameSessionData
  parseRFC3339 : String → Option Int
  crewUsers : Option (List (Option String))
  readGame : String → Option GamePresence
  resolveUsername : String → String

variable {Data : Type}

def overlaps (a b : SessionWindow) : Bool := a.startMs < b.endMs ∧ b.startMs < a.endMs

def overlapMinutes (a b : SessionWindow) : Int :=
  let start := if b.startMs > a.startMs then b.startMs else a.startMs
  let stop := if b.endMs < a.endMs then b.endMs else a.endMs
  if stop - start ≤ 0 then 0 else (stop - start) / 60000

/-- The `seen` map and the two lists of a loop. -/
structure Collected where
  seen : Finset String
  ids : List String := []
  overlapMins : List Int := []

def Collected.add (c : Collected) (id : String) (minutes : Int) : Collected where
  seen := insert id c.seen
  ids := c.ids ++ [id]
  overlapMins := c.overlapMins ++ [minutes]

def coPlayersFromLedger (window : SessionWindow) (others : List SessionWindow) : Collected :=
  others.foldl (fun c other =>
    if other.gameId ≠ window.gameId ∨ other.userId ∈ c.seen then c
    else if overlaps window other then c.add other.userId (overlapMinutes window other)
    else c) { seen := {window.userId} }

/-- The window of an event that is a session with a game and a duration. -/
def windowOf (server : Server Data) (event : CrewEvent Data) : Option SessionWindow :=
  if event.type ≠ "game_session" then none
  else
    match server.gameSessionDataOf event.data with
    | none => none
    | some data =>
      if data.durationMin ≤ 0 ∨ data.gameId = "" then none
      else
        some
          { userId := event.actorId, gameId := data.gameId, startMs := event.timestamp - data.durationMin * 60000
            endMs := event.timestamp }

def ledgerWindows (server : Server Data) (ledger : Option (List (CrewEvent Data))) (sinceMs : Int) : List SessionWindow :=
  match ledger with
  | none => []
  | some events => (events.filter fun event => ¬ event.timestamp < sinceMs).filterMap (windowOf server)

def gamePresenceStartedAtMs (server : Server Data) (p : GamePresence) : Int :=
  if p.startedAt = "" then 0 else (server.parseRFC3339 p.startedAt).getD 0

def presenceCountsAsCoPlay (gameId : String) (startedAtMs : Int) (window : SessionWindow) : Bool :=
  if gameId ≠ window.gameId then false else ¬(startedAtMs ≤ 0 ∨ startedAtMs ≥ window.endMs)

/-- The pass over the crew's list. -/
def addPresent (server : Server Data) (window : SessionWindow) (c : Collected) (member : Option String) : Collected :=
  match member with
  | none => c
  | some id =>
    if id ∈ c.seen then c
    else
      match server.readGame id with
      | none => c
      | some game =>
        let startedAtMs := gamePresenceStartedAtMs server game
        if presenceCountsAsCoPlay game.gameId startedAtMs window then
          c.add id (overlapMinutes window { userId := "", gameId := "", startMs := startedAtMs, endMs := window.endMs })
        else c

def collectCoPlayers (server : Server Data) (window : SessionWindow) (actorDurationMin : Int)
    (ledger : Option (List (CrewEvent Data))) : List String × List String × List Int :=
  let found := coPlayersFromLedger window (ledgerWindows server ledger window.startMs)
  let start : Collected := { seen := {window.userId}, ids := [window.userId], overlapMins := [actorDurationMin] }
  let recorded := (found.ids.zip found.overlapMins).foldl
    (fun c (id, minutes) => if id ∈ c.seen then c else c.add id minutes) start
  let all := match server.crewUsers with
    | none => recorded
    | some members => (members.take 100).foldl (addPresent server window) recorded
  (all.ids, all.ids.map server.resolveUsername, all.overlapMins)

/-! ## What they are to be -/

/-- The milliseconds of a window. -/
noncomputable def SessionWindow.moments (w : SessionWindow) : Finset Int := Finset.Ico w.startMs w.endMs

/-- The whole minutes of some milliseconds. -/
def wholeMinutes (moments : Finset Int) : Int := moments.card / 60000

/-- A user's recorded sessions that meet the window, in the order of the ledger. -/
def company (server : Server Data) (window : SessionWindow) (ledger : Option (List (CrewEvent Data))) (user : String) :
    List SessionWindow :=
  ((ledger.getD []).filterMap (windowOf server)).filter fun session =>
    session.userId = user ∧ session.gameId = window.gameId ∧ overlaps window session

/-- The start of a user's live presence in the game, before the end of the window. -/
def live (server : Server Data) (window : SessionWindow) (user : String) : Option Int :=
  (server.readGame user).bind fun game =>
    let startedAtMs := gamePresenceStartedAtMs server game
    if presenceCountsAsCoPlay game.gameId startedAtMs window then some startedAtMs else none

/-- The users that the list of the crew gives, which is one page long. -/
def page (server : Server Data) : List String := ((server.crewUsers.getD []).take 100).filterMap id

structure Attributed (server : Server Data) (window : SessionWindow) (actorDurationMin : Int)
    (ledger : Option (List (CrewEvent Data))) (ids names : List String) (minutes : List Int) : Prop where
  aligned : names = ids.map server.resolveUsername ∧ minutes.length = ids.length
  distinct : ids.Nodup
  actor : ids.head? = some window.userId ∧ minutes.head? = some actorDurationMin
  present : ∀ user ≠ window.userId, user ∈ ids ↔
    company server window ledger user ≠ [] ∨ (user ∈ page server ∧ (live server window user).isSome)
  recorded : ∀ user ≠ window.userId, ∀ given, (user, given) ∈ ids.zip minutes → ∀ session,
    (company server window ledger user).head? = some session → given = wholeMinutes (window.moments ∩ session.moments)
  playing : ∀ user ≠ window.userId, ∀ given, (user, given) ∈ ids.zip minutes →
    company server window ledger user = [] → ∀ startedAtMs ∈ live server window user,
      given = wholeMinutes (window.moments ∩ Finset.Ico startedAtMs window.endMs)
  bounded : ∀ user ≠ window.userId, ∀ given, (user, given) ∈ ids.zip minutes → given ≤ wholeMinutes window.moments

/-! ## The loops -/

def offer (c : Collected) (candidate : String × Int) : Collected :=
  if candidate.1 ∈ c.seen then c else c.add candidate.1 candidate.2

def Collected.pairs (c : Collected) : List (String × Int) := c.ids.zip c.overlapMins

/-- The lists are aligned and without repeated ids, and what is seen is the actor and what they have. -/
structure Sound (actor : String) (c : Collected) : Prop where
  aligned : c.overlapMins.length = c.ids.length
  distinct : c.ids.Nodup
  seen : ∀ user, user ∈ c.seen ↔ user = actor ∨ user ∈ c.ids

section Loops

variable {actor : String} {c : Collected}

theorem Sound.add (sound : Sound actor c) {id : String} (fresh : id ∉ c.seen) (minutes : Int) :
    Sound actor (c.add id minutes) := by
  have absent : id ∉ c.ids := fun held => fresh ((sound.seen id).mpr (.inr held))
  refine ⟨?_, ?_, fun user => ?_⟩
  · change (c.overlapMins ++ [minutes]).length = (c.ids ++ [id]).length
    rw [List.length_append, List.length_append, sound.aligned]
    rfl
  · exact List.nodup_append.mpr ⟨sound.distinct, List.nodup_singleton id, fun first member second last same => absent
      ((same.trans (List.mem_singleton.mp last)) ▸ member)⟩
  · change user ∈ insert id c.seen ↔ user = actor ∨ user ∈ c.ids ++ [id]
    rw [Finset.mem_insert, sound.seen, List.mem_append, List.mem_singleton]
    tauto

theorem pairs_add (sound : Sound actor c) (id : String) (minutes : Int) :
    (c.add id minutes).pairs = c.pairs ++ [(id, minutes)] :=
  List.zip_append sound.aligned.symm

/-- What a run of offers keeps, and what it adds: the first candidate of each user that was not seen. -/
theorem offers_spec (sound : Sound actor c) (candidates : List (String × Int)) :
    Sound actor (candidates.foldl offer c) ∧ c.ids <+: (candidates.foldl offer c).ids ∧
      c.overlapMins <+: (candidates.foldl offer c).overlapMins ∧
      ∀ user minutes, (user, minutes) ∈ (candidates.foldl offer c).pairs ↔
        (user, minutes) ∈ c.pairs ∨ (user ∉ c.seen ∧ candidates.find? (·.1 = user) = some (user, minutes)) := by
  induction candidates generalizing c with
  | nil => exact ⟨sound, List.prefix_rfl, List.prefix_rfl, fun user minutes => by simp⟩
  | cons candidate rest ih =>
    obtain ⟨id, given⟩ := candidate
    rw [List.foldl_cons]
    by_cases held : id ∈ c.seen
    · have same : offer c (id, given) = c := if_pos held
      rw [same]
      obtain ⟨kept, ids, minutes, pairs⟩ := ih sound
      refine ⟨kept, ids, minutes, fun user minutes => ?_⟩
      rw [pairs, List.find?_cons]
      by_cases own : id = user
      · subst own
        simp [held]
      · simp [own]
    · have added : offer c (id, given) = c.add id given := if_neg held
      rw [added]
      obtain ⟨kept, ids, minutes, pairs⟩ := ih (sound.add held given)
      refine ⟨kept, (List.prefix_append _ _).trans ids, (List.prefix_append _ _).trans minutes, fun user minutes => ?_⟩
      rw [pairs, pairs_add sound, List.mem_append, List.mem_singleton, List.find?_cons]
      change _ ∨ (user ∉ insert id c.seen ∧ _) ↔ _
      rw [Finset.mem_insert]
      by_cases own : id = user
      · subst own
        simp only [Prod.mk.injEq, true_and, not_true_eq_false, false_and, or_false, decide_true, held,
          not_false_eq_true, Option.some.injEq]
        exact or_congr_right eq_comm
      · have own' : ¬ user = id := fun same => own same.symm
        simp [own, own']

/-- A loop that offers what it makes of its elements. -/
theorem foldl_offer {α : Type} {step : Collected → α → Collected} {candidate : α → Option (String × Int)}
    (each : ∀ c a, step c a = (candidate a).elim c (offer c)) (list : List α) (c : Collected) :
    list.foldl step c = (list.filterMap candidate).foldl offer c := by
  induction list generalizing c with
  | nil => rfl
  | cons a rest ih =>
    rw [List.foldl_cons, each, ih]
    rcases made : candidate a with _ | pair
    · rw [List.filterMap_cons_none made]
      rfl
    · rw [List.filterMap_cons_some made]
      rfl

end Loops

/-! ## The candidates -/

section Candidates

variable {server : Server Data} {window : SessionWindow} {user : String}

theorem overlapMinutes_eq (a b : SessionWindow) : overlapMinutes a b = wholeMinutes (a.moments ∩ b.moments) := by
  unfold overlapMinutes wholeMinutes SessionWindow.moments
  rw [Finset.Ico_inter_Ico, Int.card_Ico]
  dsimp only
  split_ifs <;> omega

def ledgerCandidate (window other : SessionWindow) : Option (String × Int) :=
  if other.gameId = window.gameId ∧ overlaps window other = true then some (other.userId, overlapMinutes window other)
  else none

def presentCandidate (server : Server Data) (window : SessionWindow) (member : Option String) : Option (String × Int) :=
  member.bind fun id => (live server window id).map fun startedAtMs =>
    (id, overlapMinutes window { userId := "", gameId := "", startMs := startedAtMs, endMs := window.endMs })

theorem coPlayersFromLedger_eq (others : List SessionWindow) :
    coPlayersFromLedger window others =
      (others.filterMap (ledgerCandidate window)).foldl offer { seen := {window.userId} } := by
  refine foldl_offer (fun c other => ?_) others _
  unfold ledgerCandidate offer
  by_cases game : other.gameId = window.gameId
  · by_cases meets : overlaps window other = true <;> by_cases held : other.userId ∈ c.seen <;> simp [game, meets, held]
  · simp [game]

theorem foldl_addPresent (members : List (Option String)) (c : Collected) :
    members.foldl (addPresent server window) c = (members.filterMap (presentCandidate server window)).foldl offer c := by
  refine foldl_offer (fun c member => ?_) members c
  unfold addPresent presentCandidate live offer
  rcases member with _ | id
  · rfl
  · rcases playing : server.readGame id with _ | game
    · simp [playing]
    · by_cases counts : presenceCountsAsCoPlay game.gameId (gamePresenceStartedAtMs server game) window = true <;>
        simp [playing, counts]

theorem windowOf_endMs {event : CrewEvent Data} {session : SessionWindow} (made : windowOf server event = some session) :
    session.endMs = event.timestamp := by
  unfold windowOf at made
  split_ifs at made
  split at made
  · cases made
  · split_ifs at made
    cases made
    rfl

/-- A session that meets the window ends after its start. -/
theorem filterMap_ledgerWindows (events : List (CrewEvent Data)) :
    (ledgerWindows server (some events) window.startMs).filterMap (ledgerCandidate window) =
      (events.filterMap (windowOf server)).filterMap (ledgerCandidate window) := by
  unfold ledgerWindows
  dsimp only
  induction events with
  | nil => rfl
  | cons event rest ih =>
    rw [List.filter_cons]
    rcases made : windowOf server event with _ | session
    · rw [List.filterMap_cons_none made, ← ih]
      split_ifs
      · rw [List.filterMap_cons_none made]
      · rfl
    · rw [List.filterMap_cons_some made]
      split_ifs with late
      · rw [List.filterMap_cons_some made, List.filterMap_cons, List.filterMap_cons, ih]
      · have apart : overlaps window session = false := by
          have early : event.timestamp < window.startMs := by simpa using late
          rw [← windowOf_endMs made] at early
          exact decide_eq_false fun meets => absurd meets.1 early.le.not_gt
        have none : ledgerCandidate window session = none := if_neg fun both => by
          rw [apart] at both
          cases both.2
        rw [List.filterMap_cons_none none, ih]

/-- The first candidate of a user is that of the first session that meets the window. -/
theorem find?_candidates (sessions : List SessionWindow) :
    (sessions.filterMap (ledgerCandidate window)).find? (·.1 = user) =
      (sessions.filter fun session =>
        session.userId = user ∧ session.gameId = window.gameId ∧ overlaps window session).head?.map
          fun session => (user, overlapMinutes window session) := by
  induction sessions with
  | nil => rfl
  | cons session rest ih =>
    rw [List.filter_cons]
    by_cases meets : session.gameId = window.gameId ∧ overlaps window session = true
    · have made : ledgerCandidate window session = some (session.userId, overlapMinutes window session) := if_pos meets
      rw [List.filterMap_cons_some made, List.find?_cons]
      by_cases own : session.userId = user
      · simp [own, meets]
      · simp [own, ih]
    · have none : ledgerCandidate window session = none := if_neg meets
      rw [List.filterMap_cons_none none, ih, if_neg]
      exact fun holds => meets (of_decide_eq_true holds).2

theorem find?_ledger (ledger : Option (List (CrewEvent Data))) :
    ((ledgerWindows server ledger window.startMs).filterMap (ledgerCandidate window)).find? (·.1 = user) =
      (company server window ledger user).head?.map fun session => (user, overlapMinutes window session) := by
  rcases ledger with _ | events
  · rfl
  · rw [filterMap_ledgerWindows, find?_candidates]
    rfl

/-- The first candidate of a user among the members is that of the live presence. -/
theorem find?_present (members : List (Option String)) :
    (members.filterMap (presentCandidate server window)).find? (·.1 = user) =
      if user ∈ members.filterMap id then presentCandidate server window (some user) else none := by
  induction members with
  | nil => rfl
  | cons member rest ih =>
    rcases member with _ | name
    · rw [List.filterMap_cons_none rfl, List.filterMap_cons_none rfl, ih]
    · have names : (some name :: rest).filterMap id = name :: rest.filterMap id := rfl
      rw [names]
      rcases plays : live server window name with _ | startedAtMs
      · have none : presentCandidate server window (some name) = none := congrArg (Option.map _) plays
        rw [List.filterMap_cons_none none, ih]
        by_cases own : user = name
        · subst own
          rw [none, ite_self, ite_self]
        · simp [own]
      · have made : presentCandidate server window (some name) = some (name, overlapMinutes window
            { userId := "", gameId := "", startMs := startedAtMs, endMs := window.endMs }) := congrArg (Option.map _) plays
        rw [List.filterMap_cons_some made, List.find?_cons]
        by_cases own : name = user
        · subst own
          rw [made]
          simp
        · have own' : ¬ user = name := fun same => own same.symm
          simp [own, own', ih]

end Candidates

/-! ## The lists -/

section Lists

variable {server : Server Data} {window : SessionWindow} {actorDurationMin : Int} {ledger : Option (List (CrewEvent Data))}

theorem map_fst_pairs {actor : String} {c : Collected} (sound : Sound actor c) : c.pairs.map Prod.fst = c.ids :=
  List.map_fst_zip sound.aligned.ge

/-- The entries of the result: the actor's, those of recorded sessions, and those of live presences. -/
theorem collected_spec (server : Server Data) (window : SessionWindow) (actorDurationMin : Int)
    (ledger : Option (List (CrewEvent Data))) :
    ∃ all : Collected, collectCoPlayers server window actorDurationMin ledger =
        (all.ids, all.ids.map server.resolveUsername, all.overlapMins) ∧
      Sound window.userId all ∧ [window.userId] <+: all.ids ∧ [actorDurationMin] <+: all.overlapMins ∧
      ∀ user ≠ window.userId, ∀ minutes, (user, minutes) ∈ all.pairs ↔
        (company server window ledger user).head?.map (fun session => (user, overlapMinutes window session)) =
            some (user, minutes) ∨
          (company server window ledger user = [] ∧ user ∈ page server ∧
            presentCandidate server window (some user) = some (user, minutes)) := by
  have nobody : Sound window.userId { seen := {window.userId} } :=
    ⟨rfl, List.nodup_nil, fun user => by simp⟩
  have alone : Sound window.userId
      { seen := {window.userId}, ids := [window.userId], overlapMins := [actorDurationMin] } :=
    ⟨rfl, List.nodup_singleton _, fun user => by simp⟩
  obtain ⟨found, -, -, foundPairs⟩ := offers_spec nobody
    ((ledgerWindows server ledger window.startMs).filterMap (ledgerCandidate window))
  rw [← coPlayersFromLedger_eq] at found foundPairs
  obtain ⟨recorded, ids, minutes, recordedPairs⟩ := offers_spec alone
    (coPlayersFromLedger window (ledgerWindows server ledger window.startMs)).pairs
  obtain ⟨all, allIds, allMinutes, allPairs⟩ := offers_spec recorded
    (((server.crewUsers.getD []).take 100).filterMap (presentCandidate server window))
  have distinct : ((coPlayersFromLedger window (ledgerWindows server ledger window.startMs)).pairs.map Prod.fst).Nodup := by
    rw [map_fst_pairs found]
    exact found.distinct
  have first (user : String) (other : user ≠ window.userId) (given : Int) :
      (user, given) ∈ ((coPlayersFromLedger window (ledgerWindows server ledger window.startMs)).pairs.foldl offer
          { seen := {window.userId}, ids := [window.userId], overlapMins := [actorDurationMin] }).pairs ↔
        (company server window ledger user).head?.map (fun session => (user, overlapMinutes window session)) =
          some (user, given) := by
    rw [recordedPairs, find?_key distinct, foundPairs, find?_ledger]
    simp [Collected.pairs, other]
  refine ⟨_, ?_, all, ids.trans allIds, minutes.trans allMinutes, fun user other given => ?_⟩
  · unfold collectCoPlayers
    dsimp only
    rw [← foldl_addPresent]
    rcases server.crewUsers with _ | members <;> rfl
  · rw [allPairs, first user other, find?_present, recorded.seen, not_or]
    have ledgerIds : user ∈ ((coPlayersFromLedger window (ledgerWindows server ledger window.startMs)).pairs.foldl offer
        { seen := {window.userId}, ids := [window.userId], overlapMins := [actorDurationMin] }).ids ↔
          company server window ledger user ≠ [] := by
      rw [← map_fst_pairs recorded, List.mem_map]
      constructor
      · rintro ⟨⟨_, given⟩, member, rfl⟩ none
        have found := (first _ other given).mp member
        rw [none] at found
        cases found
      · intro some
        obtain ⟨session, rest, all⟩ := List.exists_cons_of_ne_nil some
        refine ⟨(user, overlapMinutes window session), (first user other _).mpr ?_, rfl⟩
        rw [all]
        rfl
    rw [ledgerIds, not_not]
    unfold page
    constructor
    · rintro (recorded | ⟨⟨-, none⟩, present⟩)
      · exact .inl recorded
      · split_ifs at present with member
        exact .inr ⟨none, member, present⟩
    · rintro (recorded | ⟨none, member, present⟩)
      · exact .inl recorded
      · exact .inr ⟨⟨other, none⟩, by rw [if_pos member]; exact present⟩

/-- The entries of a user other than the actor, from the two sources. -/
theorem attributed_collectCoPlayers (server : Server Data) (window : SessionWindow) (actorDurationMin : Int)
    (ledger : Option (List (CrewEvent Data))) :
    let (ids, names, minutes) := collectCoPlayers server window actorDurationMin ledger
    Attributed server window actorDurationMin ledger ids names minutes := by
  obtain ⟨all, same, sound, ids, minutes, pairs⟩ := collected_spec server window actorDurationMin ledger
  rw [same]
  dsimp only
  have present (user : String) : user ∈ all.ids ↔ ∃ given, (user, given) ∈ all.pairs := by
    rw [← map_fst_pairs sound, List.mem_map]
    exact ⟨fun ⟨⟨_, given⟩, member, same⟩ => ⟨given, same ▸ member⟩, fun ⟨given, member⟩ => ⟨_, member, rfl⟩⟩
  refine ⟨⟨rfl, sound.aligned⟩, sound.distinct, ⟨?_, ?_⟩, ?_, ?_, ?_, ?_⟩
  · obtain ⟨rest, whole⟩ := ids
    rw [← whole]
    rfl
  · obtain ⟨rest, whole⟩ := minutes
    rw [← whole]
    rfl
  · intro user other
    rw [present]
    constructor
    · rintro ⟨given, member⟩
      rcases (pairs user other given).mp member with recorded | ⟨-, listed, playing⟩
      · obtain ⟨session, head, -⟩ := Option.map_eq_some_iff.mp recorded
        exact .inl fun none => by rw [none] at head; cases head
      · obtain ⟨startedAtMs, plays, -⟩ := Option.map_eq_some_iff.mp playing
        exact .inr ⟨listed, Option.isSome_iff_exists.mpr ⟨startedAtMs, plays⟩⟩
    · rintro (some | ⟨listed, plays⟩)
      · obtain ⟨session, rest, whole⟩ := List.exists_cons_of_ne_nil some
        exact ⟨overlapMinutes window session, (pairs user other _).mpr (.inl (by rw [whole]; rfl))⟩
      · rcases heard : company server window ledger user with _ | ⟨session, rest⟩
        · obtain ⟨startedAtMs, plays⟩ := Option.isSome_iff_exists.mp plays
          exact ⟨_, (pairs user other _).mpr (.inr ⟨heard, listed, congrArg (Option.map _) plays⟩)⟩
        · exact ⟨overlapMinutes window session, (pairs user other _).mpr (.inl (by rw [heard]; rfl))⟩
  · intro user other given member session head
    rcases (pairs user other given).mp member with recorded | ⟨none, -⟩
    · rw [head] at recorded
      have same := congrArg Prod.snd (Option.some.inj recorded)
      exact same.symm.trans (overlapMinutes_eq window session)
    · rw [none] at head
      cases head
  · intro user other given member none startedAtMs plays
    rcases (pairs user other given).mp member with recorded | ⟨-, -, playing⟩
    · rw [none] at recorded
      cases recorded
    · have made := (congrArg (Option.map _) plays).symm.trans playing
      exact (congrArg Prod.snd (Option.some.inj made)).symm.trans (overlapMinutes_eq _ _)
  · intro user other given member
    have most (b : SessionWindow) : overlapMinutes window b ≤ wholeMinutes window.moments := by
      rw [overlapMinutes_eq]
      exact Int.ediv_le_ediv (by decide) (Int.ofNat_le.mpr (Finset.card_le_card Finset.inter_subset_left))
    rcases (pairs user other given).mp member with recorded | ⟨-, -, playing⟩
    · obtain ⟨session, -, same⟩ := Option.map_eq_some_iff.mp recorded
      exact (congrArg Prod.snd same).ge.trans (most session)
    · obtain ⟨startedAtMs, -, same⟩ := Option.map_eq_some_iff.mp playing
      exact (congrArg Prod.snd same).ge.trans (most _)

end Lists

/-! ## Two sessions in one window -/

def hours (n : Int) : Int := n * 3600000

/-- Payloads are decoded, `kim` plays since the start and all names are empty. -/
def server (crewUsers : List String) : Server GameSessionData where
  gameSessionDataOf := some
  parseRFC3339 text := if text = "1970-01-01T01:00:00Z" then some (hours 1) else none
  crewUsers := some (crewUsers.map some)
  readGame user := if user = "kim" then some ⟨"cs2", "1970-01-01T01:00:00Z"⟩ else none
  resolveUsername _ := ""

def session (user : String) (endMs durationMin : Int) : CrewEvent GameSessionData :=
  { type := "game_session", actorId := user, timestamp := endMs, data := ⟨"cs2", durationMin⟩ }

def window : SessionWindow := ⟨"me", "cs2", hours 1, hours 5⟩

def twice : List (CrewEvent GameSessionData) := [session "kim" (hours 2) 60, session "kim" (hours 4) 60]

/-- Of two sessions of an hour each in the window of four only the first counts. An overlap can have
more minutes than the actor's duration says. A crewmate behind the first hundred is not seen. -/
theorem collected_wrong :
    ((collectCoPlayers (server []) window 240 (some twice)).2.2 = [240, 60] ∧
      (company (server []) window (some twice) "kim").map (overlapMinutes window) = [60, 60]) ∧
    (collectCoPlayers (server []) window 30 (some [session "kim" (hours 5) 240])).2.2 = [30, 240] ∧
    (collectCoPlayers (server ["kim"]) window 240 none).1 = ["me", "kim"] ∧
    (collectCoPlayers (server (List.replicate 100 "ash" ++ ["kim"])) window 240 none).1 = ["me"] := by
  decide +kernel

end Mello.Backend.CoPlay
