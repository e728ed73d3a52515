import Mello.Library.MapOrder
import Mello.Backend.GameStats
import Mello.Backend.ActivityStats

/-!
The head-to-head document of a crew as `computeHead2head` computes it: the score of each member for
each title, the holders with what the previous document says of them, and the tallies of the pairs.
A range statement over a map has an order of its own, and the two roundings of a score are functions
of it. Minutes and scores do not overflow.
-/

namespace Mello.Backend.Head2headTitles
open Mello.Library Calendar MapOrder ActivityStats

def head2headSeats : Int := 5
def oneTrickMinGames : Nat := 2
def oneTrickMinMinutes : Int := 10 * 60

inductive TitleId where
  | theCarry
  | lockedIn
  | hasALife
  | nightOwl
  | theCollector
  | sampler
  | oneTrick
  | mouth
  | marathon
  | lastOneUp
  | clipper
  | rageQuit
  | winner
  deriving DecidableEq, Repr

structure LibraryGame where
  gameId : String
  playtimeMin : Option Int
  deriving DecidableEq, Repr

structure LibraryDoc where
  games : List LibraryGame
  deriving DecidableEq, Repr

structure UserGameStats extends GameStats.UserGameStats where
  gameId : String
  deriving DecidableEq, Repr

structure H2hMemberData where
  userId : String
  library : Option LibraryDoc := none
  stats : List UserGameStats := []
  activity : Option UserActivityStats := none
  deriving DecidableEq, Repr

/-- What `value` gives: hours, another number or a clock time. -/
inductive Value (Hours : Type) where
  | hours (value : Hours)
  | number (value : Int)
  | clock (text : String)
  deriving DecidableEq, Repr

structure Head2headTitle (Hours : Type) where
  titleId : TitleId
  holderUserId : String
  value : Value Hours
  unit : String
  sinceMs : Int
  previousHolderUserId : String
  movedAtMs : Int
  deriving DecidableEq, Repr

structure Head2headPairValue (Hours : Type) where
  titleId : TitleId
  aValue : Value Hours
  bValue : Value Hours
  deriving DecidableEq, Repr

structure Head2headPair (Hours : Type) where
  a : String
  b : String
  aCount : Nat
  bCount : Nat
  values : List (Head2headPairValue Hours)
  deriving DecidableEq, Repr

structure Head2headDoc (Hours : Type) where
  crewId : String
  members : List String
  titles : List (Head2headTitle Hours)
  pairs : List (Head2headPair Hours)
  memberCount : Int
  openSeats : Int
  updatedAt : Int
  deriving DecidableEq, Repr

structure H2hInput (Hours : Type) where
  crewId : String
  memberCount : Int
  members : List H2hMemberData
  prev : Option (Head2headDoc Hours)
  nowMs : Int

/-- A map by user or game id. -/
abbrev ById (α : Type) := Finmap fun _ : String => α

structure H2hResult where
  titleId : TitleId
  unit : String
  higherWins : Bool := true
  scores : ById Int

/-- The order of each range statement over a map, of `memberGameMinutes` for each member. -/
structure MinutesOrder where
  library : Listing String
  stats : Listing String

structure Orders where
  owners : Listing String
  carry : String → MinutesOrder
  oneTrick : String → MinutesOrder
  minutes : String → Listing String
  users : TitleId → Listing String

/-- `math.Round(float64(score)/60*10) / 10` and `int(math.Round(float64(score) / 100))`. -/
structure Roundings (Hours : Type) where
  hours : Int → Hours
  percent : Int → Int

/-! ## Winners -/

def head2headOpenSeats (memberCount : Int) : Int :=
  if memberCount ≥ head2headSeats then 0 else if memberCount < 0 then head2headSeats else head2headSeats - memberCount

def H2hMemberData.hasData (m : H2hMemberData) : Bool :=
  (m.library.any fun library => !library.games.isEmpty) || !m.stats.isEmpty || m.activity.isSome

/-- A user with a score, against the best so far. -/
def better (higherWins : Bool) (prevHolder : String) (user best : String × Int) : Bool :=
  if user.2 = best.2 then user.1 = prevHolder ∨ (best.1 ≠ prevHolder ∧ user.1 < best.1)
  else if higherWins then best.2 < user.2
  else user.2 < best.2

def scored (scores : ById Int) (users : List String) : List (String × Int) :=
  users.filterMap fun user => (scores.lookup user).map (user, ·)

def pickWinner (scores : ById Int) (users : List String) (higherWins : Bool) (prevHolder : String) : String :=
  ((scan (better higherWins prevHolder) (scored scores users)).map Prod.fst).getD ""

def H2hResult.users (r : H2hResult) (order : Listing String) : List String :=
  (order.list r.scores.keys).insertionSort (· ≤ ·)

/-- `%02d`. -/
def twoDigits (n : Int) : String := if 0 ≤ n ∧ n < 10 then "0" ++ toString n else toString n

def value {Hours : Type} (roundings : Roundings Hours) (titleId : TitleId) (score : Int) : Value Hours :=
  match titleId with
  | .theCarry | .lockedIn | .hasALife => .hours (roundings.hours score)
  | .oneTrick => .number (roundings.percent score)
  | .nightOwl | .lastOneUp =>
    let m := (score + head2headNightHr * 60).tmod 1440
    .clock (twoDigits (m.tdiv 60) ++ ":" ++ twoDigits (m.tmod 60))
  | _ => .number score

/-! ## Scores -/

def gameMinutes (lib : Option LibraryGame) (stats : Option UserGameStats) : Int :=
  match lib.bind LibraryGame.playtimeMin with
  | some playtime => playtime
  | none => (stats.map fun s => s.playedMinTotal).getD 0

/-- The last entry of each game. -/
def byGame {α : Type} (gameId : α → String) (entries : List α) : ById α :=
  entries.foldl (fun held entry => held.insert (gameId entry) entry) ∅

def H2hMemberData.games (m : H2hMemberData) : List LibraryGame := (m.library.map LibraryDoc.games).getD []

def memberGameMinutes (order : MinutesOrder) (m : H2hMemberData) : ById Int :=
  let libById := byGame LibraryGame.gameId m.games
  let statById := byGame UserGameStats.gameId m.stats
  let owned (id : String) : Option Int := (libById.lookup id).map fun l => gameMinutes (some l) (statById.lookup id)
  let played (id : String) : Option Int :=
    if id ∈ libById.keys then none else (statById.lookup id).map fun s => gameMinutes none (some s)
  let out := (order.library.list libById.keys).foldl (fun out id => (owned id).elim out fun min => out.insert id min) ∅
  (order.stats.list statById.keys).foldl (fun out id => (played id).elim out fun min => out.insert id min) out

/-- The scores that members have, in a map. -/
def scoresOf (score : H2hMemberData → Option Int) (members : List H2hMemberData) : ById Int :=
  members.foldl (fun scores m => (score m).elim scores fun s => scores.insert m.userId s) ∅

def recentMinutes (stats : List UserGameStats) (cutoff : Int) : Int :=
  (stats.flatMap fun s => (s.recentDays.filter (·.date ≥ cutoff)).map fun d => d.wallMin).sum

/-- Adds to the figure of a game. -/
def addTo (figures : ById Int) (gameId : String) (n : Int) : ById Int :=
  figures.insert gameId ((figures.lookup gameId).getD 0 + n)

def owners (members : List H2hMemberData) : ById Int :=
  members.foldl (fun owners m => m.games.foldl (fun owners g => addTo owners g.gameId 1) owners) ∅

def totals (order : String → MinutesOrder) (members : List H2hMemberData) : ById Int :=
  members.foldl (fun totals m =>
    let mins := memberGameMinutes (order m.userId) m
    m.games.foldl (fun totals g => addTo totals g.gameId ((mins.lookup g.gameId).getD 0)) totals) ∅

/-- The game has more owners than another, or else more minutes, or else a lower id. -/
def outranks (owners totals : ById Int) (id top : String) : Bool :=
  let n := (owners.lookup id).getD 0
  let held := (owners.lookup top).getD 0
  let total := (totals.lookup id).getD 0
  let heldTotal := (totals.lookup top).getD 0
  n > held ∨ (n = held ∧ total > heldTotal) ∨ (n = held ∧ total = heldTotal ∧ id < top)

/-- The loop for the top shared game, where no id stands for none. -/
def topGame (order : Listing String) (owners totals : ById Int) : String :=
  (order.list owners.keys).foldl (fun top id => if top = "" then id else if outranks owners totals id top then id else top) ""

/-- A member's minutes in one game, if there is a figure. -/
def carryScore (top : String) (m : H2hMemberData) : Option Int :=
  let st := (byGame UserGameStats.gameId m.stats).lookup top
  m.games.foldl (fun score l =>
    if l.gameId ≠ top then score
    else if l.playtimeMin = none ∧ (st.map fun s => s.playedMinTotal).getD 0 = 0 then score
    else some (gameMinutes (some l) st)) none

def computeTheCarry (orders : Orders) (members : List H2hMemberData) : H2hResult :=
  let top := topGame orders.owners (owners members) (totals orders.carry members)
  { titleId := .theCarry, unit := "h", scores := if top = "" then ∅ else scoresOf (carryScore top) members }

def positive (n : Int) : Option Int := if n > 0 then some n else none

def computeWeekTitles (members : List H2hMemberData) (nowMs : Int) : H2hResult × H2hResult :=
  let scores := scoresOf (fun m => positive (recentMinutes m.stats (cutoffDate nowMs 7))) members
  ({ titleId := .lockedIn, unit := "h", scores }, { titleId := .hasALife, unit := "h", higherWins := false, scores })

def computeCollector (members : List H2hMemberData) : H2hResult :=
  { titleId := .theCollector, unit := "installed", scores := scoresOf (fun m => positive m.games.length) members }

def computeSampler (members : List H2hMemberData) (nowMs : Int) : H2hResult :=
  let cut := cutoffDate nowMs 14
  let played (s : UserGameStats) : Bool := s.recentDays.any fun d => d.date ≥ cut ∧ d.wallMin > 0
  { titleId := .sampler, unit := "games", scores := scoresOf (fun m => positive (m.stats.countP played)) members }

/-- The total of the minutes, the most of one game, and the games with minutes. -/
def addGame (held : Int × Int × Nat) (min : Int) : Int × Int × Nat :=
  if min ≤ 0 then held else (held.1 + min, max held.2.1 min, held.2.2 + 1)

def oneTrickScore (order : MinutesOrder) (minutes : Listing String) (m : H2hMemberData) : Option Int :=
  let mins := memberGameMinutes order m
  let (total, top, games) := (minutes.list mins.keys).foldl (fun held id => (mins.lookup id).elim held (addGame held)) (0, 0, 0)
  if games ≥ oneTrickMinGames ∧ total ≥ oneTrickMinMinutes then some ((top * 10000).tdiv total) else none

def computeOneTrick (orders : Orders) (members : List H2hMemberData) : H2hResult :=
  { titleId := .oneTrick, unit := "%"
    scores := scoresOf (fun m => oneTrickScore (orders.oneTrick m.userId) (orders.minutes m.userId) m) members }

/-- Minutes after 18:00 local. -/
def nightOwlKey (lastPlayedMs tzOffsetMin : Int) : Int :=
  (sessionEndLocalMin lastPlayedMs tzOffsetMin - head2headNightHr * 60 + 1440).tmod 1440

def greater (held : Option Int) (k : Int) : Option Int := if held.all (k > ·) then some k else held

def nightOwlScore (nowMs : Int) (m : H2hMemberData) : Option Int :=
  m.stats.foldl (fun best s =>
    match s.lastTzOffsetMin with
    | none => best
    | some tz => if s.lastPlayed < nowMs - 14 * dayMs then best else greater best (nightOwlKey s.lastPlayed tz)) none

def computeNightOwl (members : List H2hMemberData) (nowMs : Int) : H2hResult :=
  { titleId := .nightOwl, unit := "", scores := scoresOf (nightOwlScore nowMs) members }

def activityWindow (a : UserActivityStats) (nowMs days : Int) : List ActivityDay :=
  a.days.filter (·.date ≥ cutoffDate nowMs days)

/-- A session title: a score of each activity document and the days of its window. -/
def activityTitle (members : List H2hMemberData) (nowMs : Int) (titleId : TitleId) (unit : String)
    (score : UserActivityStats → List ActivityDay → Option Int) : H2hResult :=
  { titleId, unit, scores := scoresOf (fun m => m.activity.bind fun a => score a (activityWindow a nowMs 14)) members }

def computeActivityTitles (members : List H2hMemberData) (nowMs : Int) : List H2hResult :=
  let mk := activityTitle members nowMs
  [mk .mouth "min" fun _ days => positive (days.map fun d => d.voiceMin).sum,
    mk .marathon "min" fun a _ => positive a.longestSessionMin,
    mk .lastOneUp "" fun _ days => (days.filterMap fun d => d.latestEndLocalMin.map activityNightKey).foldl greater none,
    mk .clipper "clips" fun a _ => positive a.clips,
    mk .rageQuit "sessions" fun _ days => positive (days.map fun d => d.shortSessions).sum,
    mk .winner "wins" fun _ days => positive (days.map fun d => d.winMoments).sum]

/-! ## The document -/

variable {Hours : Type}

def results (orders : Orders) (members : List H2hMemberData) (nowMs : Int) : List H2hResult :=
  let (locked, life) := computeWeekTitles members nowMs
  [computeTheCarry orders members, locked, life, computeNightOwl members nowMs, computeCollector members,
    computeSampler members nowMs, computeOneTrick orders members] ++ computeActivityTitles members nowMs

/-- The members with data, by id. -/
def contenders (members : List H2hMemberData) : List H2hMemberData :=
  (members.filter H2hMemberData.hasData).insertionSort fun a b => a.userId ≤ b.userId

/-- The last entry of a title. -/
def prevByTitle (prev : Option (Head2headDoc Hours)) (titleId : TitleId) : Option (Head2headTitle Hours) :=
  (((prev.map Head2headDoc.titles).getD []).reverse).find? (·.titleId = titleId)

def prevHolder (prev : Option (Head2headDoc Hours)) (titleId : TitleId) : String :=
  ((prevByTitle prev titleId).map Head2headTitle.holderUserId).getD ""

def contested (r : H2hResult) : Bool := 2 ≤ r.scores.keys.card

def holdTitle (roundings : Roundings Hours) (orders : Orders) (prev : Option (Head2headDoc Hours)) (nowMs : Int)
    (r : H2hResult) : Head2headTitle Hours :=
  let holder := pickWinner r.scores (r.users (orders.users r.titleId)) r.higherWins (prevHolder prev r.titleId)
  let t : Head2headTitle Hours :=
    { titleId := r.titleId, holderUserId := holder, unit := r.unit, sinceMs := nowMs, previousHolderUserId := "", movedAtMs := 0
      value := value roundings r.titleId ((r.scores.lookup holder).getD 0) }
  match prevByTitle prev r.titleId with
  | none => t
  | some entry =>
    if entry.holderUserId = holder then
      { t with sinceMs := entry.sinceMs, previousHolderUserId := entry.previousHolderUserId, movedAtMs := entry.movedAtMs }
    else { t with previousHolderUserId := entry.holderUserId, movedAtMs := nowMs }

/-- A title for which both members of a pair have a score. -/
def shared (a b : String) (r : H2hResult) : Bool := (r.scores.lookup a).isSome ∧ (r.scores.lookup b).isSome

def pairTally (roundings : Roundings Hours) (prev : Option (Head2headDoc Hours)) (fought : List H2hResult) (a b : String) :
    Head2headPair Hours :=
  fought.foldl (fun p r =>
    match r.scores.lookup a, r.scores.lookup b with
    | some aScore, some bScore =>
      let wins := pickWinner r.scores [a, b] r.higherWins (prevHolder prev r.titleId) = a
      { p with
        values := p.values ++ [⟨r.titleId, value roundings r.titleId aScore, value roundings r.titleId bScore⟩]
        aCount := if wins then p.aCount + 1 else p.aCount
        bCount := if wins then p.bCount else p.bCount + 1 }
    | _, _ => p) { a, b, aCount := 0, bCount := 0, values := [] }

/-- Each id with each one behind it. -/
def pairsOf : List String → List (String × String)
  | [] => []
  | a :: rest => rest.map (a, ·) ++ pairsOf rest

def computeHead2head (roundings : Roundings Hours) (orders : Orders) (input : H2hInput Hours) : Head2headDoc Hours :=
  let members := contenders input.members
  let ids := members.map H2hMemberData.userId
  let fought := (results orders members input.nowMs).filter contested
  { crewId := input.crewId
    members := ids
    titles := fought.map (holdTitle roundings orders input.prev input.nowMs)
    pairs := (pairsOf ids).map fun (a, b) => pairTally roundings input.prev fought a b
    memberCount := input.memberCount
    openSeats := head2headOpenSeats input.memberCount
    updatedAt := input.nowMs }

/-! ## What the document is to say -/

/-- A score is ahead of another in a title's direction. -/
def ahead (higherWins : Bool) (score other : Int) : Prop := if higherWins then other < score else score < other

instance (higherWins : Bool) (score other : Int) : Decidable (ahead higherWins score other) :=
  inferInstanceAs (Decidable (if higherWins = true then other < score else score < other))

/-- The order of two users in a title: by the score, and at equal scores the previous holder before
the others, and a lower id before a higher. -/
def Beats (r : H2hResult) (prevHolder a b : String) : Prop :=
  ∃ score ∈ r.scores.lookup a, ∃ other ∈ r.scores.lookup b,
    ahead r.higherWins score other ∨ (score = other ∧ (a = prevHolder ∨ (b ≠ prevHolder ∧ a < b)))

instance (r : H2hResult) (prevHolder a b : String) : Decidable (Beats r prevHolder a b) :=
  inferInstanceAs (Decidable (∃ score ∈ r.scores.lookup a, ∃ other ∈ r.scores.lookup b,
    ahead r.higherWins score other ∨ (score = other ∧ (a = prevHolder ∨ (b ≠ prevHolder ∧ a < b)))))

/-- The holder has the best score, and of the users with that score is the previous holder, or else
the one with the lowest id. -/
def HeldBy (r : H2hResult) (prevHolder holder : String) : Prop :=
  ∃ best, r.scores.lookup holder = some best ∧
    (∀ user score, r.scores.lookup user = some score → ¬ ahead r.higherWins score best) ∧
    (r.scores.lookup prevHolder = some best → holder = prevHolder) ∧
    (r.scores.lookup prevHolder ≠ some best → ∀ user, r.scores.lookup user = some best → holder ≤ user)

/-- What a title says of its past, by the previous document's entry of it. -/
structure Recorded (entry : Option (Head2headTitle Hours)) (nowMs : Int) (t : Head2headTitle Hours) : Prop where
  kept : ∀ held, entry = some held → held.holderUserId = t.holderUserId → t.sinceMs = held.sinceMs ∧
    t.previousHolderUserId = held.previousHolderUserId ∧ t.movedAtMs = held.movedAtMs
  moved : ∀ held, entry = some held → held.holderUserId ≠ t.holderUserId → t.sinceMs = nowMs ∧
    t.previousHolderUserId = held.holderUserId ∧ t.movedAtMs = nowMs
  first : entry = none → t.sinceMs = nowMs ∧ t.previousHolderUserId = "" ∧ t.movedAtMs = 0

structure Tallied (results : List H2hResult) (prev : Option (Head2headDoc Hours)) (p : Head2headPair Hours) : Prop where
  values : p.values.map Head2headPairValue.titleId = (results.filter (shared p.a p.b)).map H2hResult.titleId
  count : p.aCount + p.bCount = p.values.length
  wins : p.aCount = (results.filter (shared p.a p.b)).countP fun r => Beats r (prevHolder prev r.titleId) p.a p.b

/-- What the document says, by the results that the titles come from. -/
structure Right (results : List H2hResult) (input : H2hInput Hours) (doc : Head2headDoc Hours) : Prop where
  members : ∀ user, user ∈ doc.members ↔ ∃ m ∈ input.members, m.hasData = true ∧ m.userId = user
  scored : ∀ r ∈ results, ∀ user ∈ r.scores, user ∈ doc.members
  present : ∀ r ∈ results, r.titleId ∈ doc.titles.map Head2headTitle.titleId ↔ 2 ≤ r.scores.keys.card
  known : ∀ t ∈ doc.titles, t.titleId ∈ results.map H2hResult.titleId
  once : (doc.titles.map Head2headTitle.titleId).Nodup
  held : ∀ r ∈ results, ∀ t ∈ doc.titles, t.titleId = r.titleId →
    HeldBy r (prevHolder input.prev t.titleId) t.holderUserId
  entry : ∀ prev, input.prev = some prev → ∀ held ∈ prev.titles, prevByTitle input.prev held.titleId = some held
  recorded : ∀ t ∈ doc.titles, Recorded (prevByTitle input.prev t.titleId) input.nowMs t
  pairs : ∀ a b, (a, b) ∈ doc.pairs.map (fun p => (p.a, p.b)) ↔ a ∈ doc.members ∧ b ∈ doc.members ∧ a < b
  pairOnce : (doc.pairs.map fun p => (p.a, p.b)).Nodup
  tallied : ∀ p ∈ doc.pairs, Tallied results input.prev p

/-! ## Any order -/

theorem memberGameMinutes_eq (order other : MinutesOrder) (m : H2hMemberData) :
    memberGameMinutes order m = memberGameMinutes other m := by
  unfold memberGameMinutes
  dsimp only
  rw [Listing.foldl_insert_eq order.library other.library, Listing.foldl_insert_eq order.stats other.stats]

theorem totals_eq (order other : String → MinutesOrder) (members : List H2hMemberData) :
    totals order members = totals other members := by
  unfold totals
  dsimp only
  congr 1
  funext totals m
  rw [memberGameMinutes_eq (order m.userId) (other m.userId)]

/-- The rank of a game: more owners, more minutes and then a lower id are less. -/
def gameRank (owners totals : ById Int) (id : String) : ℤ ×ₗ ℤ ×ₗ String :=
  toLex (-(owners.lookup id).getD 0, toLex (-(totals.lookup id).getD 0, id))

theorem outranks_iff (owners totals : ById Int) (id top : String) :
    outranks owners totals id top = true ↔ gameRank owners totals id < gameRank owners totals top := by
  unfold outranks gameRank
  dsimp only
  simp only [decide_eq_true_eq, Prod.Lex.toLex_lt_toLex, neg_lt_neg_iff, neg_inj, gt_iff_lt]
  tauto

theorem gameRank_injective {owners totals : ById Int} {id top : String}
    (same : gameRank owners totals id = gameRank owners totals top) : id = top := by
  have pairs := toLex_inj.mp same
  have rest := toLex_inj.mp (Prod.mk.inj pairs).2
  exact (Prod.mk.inj rest).2

/-- Without the id that stands for none, the loop for the top game is a scan. -/
theorem foldl_topGame {owners totals : ById Int} {ids : List String} (named : "" ∉ ids) :
    ids.foldl (fun top id => if top = "" then id else if outranks owners totals id top then id else top) "" =
      (scan (outranks owners totals) ids).getD "" := by
  induction ids using List.reverseRecOn with
  | nil => rfl
  | append_singleton front a ih =>
    have named' : "" ∉ front := fun member => named (List.mem_append_left _ member)
    rw [List.foldl_concat, ih named', scan_concat]
    rcases found : scan (outranks owners totals) front with _ | best
    · rfl
    · have some : best ≠ "" := fun empty => named' (empty ▸ scan_mem found)
      simp only [Option.getD_some, if_neg some]
      split_ifs <;> rfl

theorem topGame_eq {owners totals : ById Int} (order other : Listing String) (named : "" ∉ owners.keys) :
    topGame order owners totals = topGame other owners totals := by
  have named' (order : Listing String) : "" ∉ order.list owners.keys := fun member => named (Listing.mem_list.mp member)
  unfold topGame
  rw [foldl_topGame (named' order), foldl_topGame (named' other)]
  congr 1
  refine scan_perm (fun a _ b _ _ => outranks_iff owners totals a b) ?_ (order.nodup _) (order.perm other _)
  exact fun a _ b _ same => gameRank_injective same

theorem addGame_comm (held : Int × Int × Nat) (first second : Int) :
    addGame (addGame held first) second = addGame (addGame held second) first := by
  unfold addGame
  split_ifs
  · rfl
  · rfl
  · rfl
  · dsimp only
    rw [add_right_comm, max_right_comm]

theorem oneTrickScore_eq (order order' : MinutesOrder) (minutes minutes' : Listing String) (m : H2hMemberData) :
    oneTrickScore order minutes m = oneTrickScore order' minutes' m := by
  unfold oneTrickScore
  rw [memberGameMinutes_eq order order']
  dsimp only
  rw [Listing.foldl_eq minutes minutes']
  intro first _ second _ _ held
  rcases (memberGameMinutes order' m).lookup first with _ | min
  · rfl
  · rcases (memberGameMinutes order' m).lookup second with _ | min'
    · rfl
    · exact addGame_comm held min min'

/-- The keys of a map that counts the games are games. -/
theorem mem_addTo {figures : ById Int} {gameId id : String} {n : Int} (member : id ∈ addTo figures gameId n) :
    id = gameId ∨ id ∈ figures := Finmap.mem_insert.mp member

theorem mem_owners {members : List H2hMemberData} {id : String} (member : id ∈ owners members) :
    ∃ m ∈ members, ∃ g ∈ m.games, g.gameId = id := by
  unfold owners at member
  induction members using List.reverseRecOn with
  | nil => exact absurd member Finmap.notMem_empty
  | append_singleton front m ih =>
    rw [List.foldl_concat] at member
    have outer {figures : ById Int} {games : List LibraryGame}
        (member : id ∈ games.foldl (fun owners g => addTo owners g.gameId 1) figures) :
        id ∈ figures ∨ ∃ g ∈ games, g.gameId = id := by
      induction games generalizing figures with
      | nil => exact .inl member
      | cons g rest ih =>
        rcases ih member with added | ⟨g', held, same⟩
        · rcases mem_addTo added with rfl | old
          · exact .inr ⟨g, List.mem_cons_self, rfl⟩
          · exact .inl old
        · exact .inr ⟨g', List.mem_cons_of_mem g held, same⟩
    rcases outer member with old | ⟨g, held, same⟩
    · obtain ⟨m', held, found⟩ := ih old
      exact ⟨m', List.mem_append_left _ held, found⟩
    · exact ⟨m, List.mem_append_right _ List.mem_cons_self, g, held, same⟩

/-- No game of a library has the empty id. -/
def Named (members : List H2hMemberData) : Prop := ∀ m ∈ members, ∀ g ∈ m.games, g.gameId ≠ ""

theorem results_eq (orders other : Orders) {members : List H2hMemberData} (named : Named members) (nowMs : Int) :
    results orders members nowMs = results other members nowMs := by
  have noEmpty : "" ∉ (owners members).keys := by
    intro member
    obtain ⟨m, held, g, held', same⟩ := mem_owners (Finmap.mem_keys.mp member)
    exact named m held g held' same
  have carry : computeTheCarry orders members = computeTheCarry other members := by
    unfold computeTheCarry
    rw [totals_eq orders.carry other.carry, topGame_eq orders.owners other.owners noEmpty]
  have oneTrick : computeOneTrick orders members = computeOneTrick other members := by
    unfold computeOneTrick
    congr 2
    funext m
    exact oneTrickScore_eq ..
  unfold results
  rw [carry, oneTrick]

theorem users_eq (r : H2hResult) (order other : Listing String) : r.users order = r.users other :=
  insertionSort_eq id (order.perm other _) (by rw [List.map_id]; exact order.nodup _)

theorem holdTitle_eq (roundings : Roundings Hours) (orders other : Orders) (prev : Option (Head2headDoc Hours)) (nowMs : Int) :
    holdTitle roundings orders prev nowMs = holdTitle roundings other prev nowMs := by
  funext r
  unfold holdTitle
  rw [users_eq r (orders.users r.titleId) (other.users r.titleId)]

theorem named_contenders {members : List H2hMemberData} (named : Named members) : Named (contenders members) := by
  intro m member
  have held := (List.perm_insertionSort _ _).mem_iff.mp member
  exact named m (List.mem_filter.mp held).1

/-- The order of the members and of the range statements does not matter. -/
theorem computeHead2head_eq (roundings : Roundings Hours) (orders other : Orders) (input : H2hInput Hours)
    (distinct : (input.members.map H2hMemberData.userId).Nodup) (named : Named input.members) {members : List H2hMemberData}
    (perm : members.Perm input.members) :
    computeHead2head roundings other { input with members } = computeHead2head roundings orders input := by
  have same : contenders members = contenders input.members := by
    refine insertionSort_eq H2hMemberData.userId (perm.filter _) ?_
    have distinct' := (perm.map H2hMemberData.userId).nodup_iff.mpr distinct
    exact distinct'.sublist (List.filter_sublist.map _)
  unfold computeHead2head
  dsimp only
  rw [same, results_eq other orders (named_contenders named), holdTitle_eq roundings other orders]

/-! ## The winner -/

theorem mem_scored {scores : ById Int} {users : List String} {entry : String × Int} :
    entry ∈ scored scores users ↔ entry.1 ∈ users ∧ scores.lookup entry.1 = some entry.2 := by
  obtain ⟨user, score⟩ := entry
  unfold scored
  rw [List.mem_filterMap]
  constructor
  · rintro ⟨other, member, same⟩
    obtain ⟨held, found, pair⟩ := Option.map_eq_some_iff.mp same
    cases pair
    exact ⟨member, found⟩
  · rintro ⟨member, found⟩
    exact ⟨user, member, Option.map_eq_some_iff.mpr ⟨score, found, rfl⟩⟩

theorem nodup_scored {users : List String} (nodup : users.Nodup) (scores : ById Int) : (scored scores users).Nodup := by
  refine nodup.filterMap fun first second entry held held' => ?_
  obtain ⟨score, found, rfl⟩ := Option.map_eq_some_iff.mp held
  obtain ⟨score', found', same⟩ := Option.map_eq_some_iff.mp held'
  exact (Prod.mk.inj same).1.symm

/-- The rank of a user with a score: a score that is ahead, the previous holder and a lower id are less. -/
def userRank (higherWins : Bool) (prevHolder : String) (entry : String × Int) : ℤ ×ₗ Bool ×ₗ String :=
  toLex (if higherWins then -entry.2 else entry.2, toLex (decide (entry.1 ≠ prevHolder), entry.1))

theorem userRank_injective {higherWins : Bool} {prevHolder : String} {entry other : String × Int}
    (same : userRank higherWins prevHolder entry = userRank higherWins prevHolder other) : entry = other := by
  have pairs := Prod.mk.inj (toLex_inj.mp same)
  have user := (Prod.mk.inj (toLex_inj.mp pairs.2)).2
  refine Prod.ext user ?_
  cases higherWins with
  | true => exact neg_inj.mp pairs.1
  | false => exact pairs.1

theorem userRank_lt {higherWins : Bool} {prevHolder a b : String} {score other : Int} :
    userRank higherWins prevHolder (a, score) < userRank higherWins prevHolder (b, other) ↔
      ahead higherWins score other ∨
        (score = other ∧ ((a = prevHolder ∧ b ≠ prevHolder) ∨ ((a = prevHolder ↔ b = prevHolder) ∧ a < b))) := by
  unfold userRank ahead
  rw [Prod.Lex.toLex_lt_toLex, Prod.Lex.toLex_lt_toLex]
  by_cases first : a = prevHolder <;> by_cases second : b = prevHolder <;> cases higherWins <;> simp [first, second]

/-- The tie between two users, as the comparison has it. -/
theorem tie_iff {prevHolder a b : String} (apart : a ≠ b) :
    ((a = prevHolder ∧ b ≠ prevHolder) ∨ ((a = prevHolder ↔ b = prevHolder) ∧ a < b)) ↔
      (a = prevHolder ∨ (b ≠ prevHolder ∧ a < b)) := by
  by_cases first : a = prevHolder
  · have second : b ≠ prevHolder := fun second => apart (first.trans second.symm)
    exact ⟨fun _ => .inl first, fun _ => .inl ⟨first, second⟩⟩
  · by_cases second : b = prevHolder
    · exact ⟨fun wins => (wins.elim (fun held => first held.1) fun less => first (less.1.mpr second)).elim,
        fun wins => (wins.elim first fun less => less.1 second).elim⟩
    · exact ⟨fun wins => .inr ⟨second, (wins.resolve_left fun held => first held.1).2⟩,
        fun wins => .inr ⟨⟨fun held => absurd held first, fun held => absurd held second⟩,
          (wins.resolve_left first).2⟩⟩

theorem better_iff {higherWins : Bool} {prevHolder : String} {entry other : String × Int} (apart : entry ≠ other) :
    better higherWins prevHolder entry other = true ↔
      userRank higherWins prevHolder entry < userRank higherWins prevHolder other := by
  obtain ⟨a, score⟩ := entry
  obtain ⟨b, score'⟩ := other
  rw [userRank_lt]
  unfold better
  rcases eq_or_ne score score' with rfl | differ
  · have apart' : a ≠ b := fun same => apart (by rw [same])
    have level : ¬ ahead higherWins score score := by cases higherWins <;> exact lt_irrefl score
    rw [if_pos rfl, decide_eq_true_iff, or_iff_right level, and_iff_right rfl, tie_iff apart']
  · rw [if_neg differ, or_iff_left fun tie => differ tie.1]
    cases higherWins <;> exact decide_eq_true_iff

theorem pickWinner_spec {scores : ById Int} {users : List String} (nodup : users.Nodup) {user : String} {score : Int}
    (member : user ∈ users) (has : scores.lookup user = some score) (higherWins : Bool) (prevHolder : String) :
    ∃ best, pickWinner scores users higherWins prevHolder ∈ users ∧
      scores.lookup (pickWinner scores users higherWins prevHolder) = some best ∧
      ∀ other ∈ users, ∀ score, scores.lookup other = some score →
        userRank higherWins prevHolder (pickWinner scores users higherWins prevHolder, best) ≤
          userRank higherWins prevHolder (other, score) := by
  have filled : scored scores users ≠ [] := List.ne_nil_of_mem (mem_scored.mpr (⟨member, has⟩ :
    (user, score).1 ∈ users ∧ scores.lookup (user, score).1 = some (user, score).2))
  have agree : ∀ entry ∈ scored scores users, ∀ other ∈ scored scores users, entry ≠ other →
      (better higherWins prevHolder entry other = true ↔
        userRank higherWins prevHolder entry < userRank higherWins prevHolder other) :=
    fun entry _ other _ apart => better_iff apart
  obtain ⟨⟨winner, best⟩, held, found, least⟩ := scan_spec agree (nodup_scored nodup scores) filled
  have picked : pickWinner scores users higherWins prevHolder = winner := by
    unfold pickWinner
    rw [found]
    rfl
  rw [picked]
  obtain ⟨inside, score⟩ := mem_scored.mp held
  exact ⟨best, inside, score, fun other member score has => least (other, score) (mem_scored.mpr ⟨member, has⟩)⟩

theorem nodup_users (r : H2hResult) (order : Listing String) : (r.users order).Nodup :=
  (List.perm_insertionSort _ _).nodup_iff.mpr (order.nodup _)

theorem mem_users {r : H2hResult} {order : Listing String} {user : String} {score : Int}
    (has : r.scores.lookup user = some score) : user ∈ r.users order := by
  refine (List.perm_insertionSort _ _).mem_iff.mpr (Listing.mem_list.mpr (Finmap.mem_keys.mpr ?_))
  exact Finmap.mem_iff.mpr ⟨score, has⟩

theorem heldBy_pickWinner {r : H2hResult} (order : Listing String) (prevHolder : String) {user : String}
    (contends : user ∈ r.scores) :
    HeldBy r prevHolder (pickWinner r.scores (r.users order) r.higherWins prevHolder) := by
  obtain ⟨score, has⟩ := Finmap.mem_iff.mp contends
  obtain ⟨best, -, found, least⟩ := pickWinner_spec (nodup_users r order) (mem_users has) has r.higherWins prevHolder
  generalize pickWinner r.scores (r.users order) r.higherWins prevHolder = winner at found least ⊢
  have unbeaten (other : String) {score : Int} (has : r.scores.lookup other = some score) := by
    have wins := not_lt.mpr (least other (mem_users has) score has)
    rwa [userRank_lt, not_or] at wins
  refine ⟨best, found, fun other score has => (unbeaten other has).1, ?_, ?_⟩
  · intro tied
    by_contra apart
    exact (unbeaten prevHolder tied).2 ⟨rfl, .inl ⟨rfl, apart⟩⟩
  · intro other user tied
    have apart : winner ≠ prevHolder := fun same => other (same ▸ found)
    have apart' : user ≠ prevHolder := fun same => other (same ▸ tied)
    by_contra less
    have neither : user = prevHolder ↔ winner = prevHolder :=
      ⟨fun same => absurd same apart', fun same => absurd same apart⟩
    exact (unbeaten user tied).2 ⟨rfl, .inr ⟨neither, not_le.mp less⟩⟩

/-- Of a pair, the first wins when it is ahead of the second. -/
theorem pickWinner_pair {r : H2hResult} {a b : String} (apart : a ≠ b) (both : shared a b r = true) (prevHolder : String) :
    pickWinner r.scores [a, b] r.higherWins prevHolder = a ↔ Beats r prevHolder a b := by
  obtain ⟨first, second⟩ := of_decide_eq_true both
  obtain ⟨score, has⟩ := Option.isSome_iff_exists.mp first
  obtain ⟨other, has'⟩ := Option.isSome_iff_exists.mp second
  have nodup : [a, b].Nodup := by
    rw [List.nodup_cons]
    exact ⟨fun member => apart (List.mem_singleton.mp member), List.nodup_singleton b⟩
  obtain ⟨best, member, found, least⟩ := pickWinner_spec nodup List.mem_cons_self has r.higherWins prevHolder
  have beats : Beats r prevHolder a b ↔
      userRank r.higherWins prevHolder (a, score) < userRank r.higherWins prevHolder (b, other) := by
    rw [userRank_lt, tie_iff apart]
    unfold Beats
    rw [has, has']
    simp
  rw [beats]
  have member' : pickWinner r.scores [a, b] r.higherWins prevHolder = a ∨
      pickWinner r.scores [a, b] r.higherWins prevHolder = b := by
    rcases List.mem_cons.mp member with first | second
    · exact .inl first
    · exact .inr (List.mem_singleton.mp second)
  constructor
  · intro wins
    rw [wins] at found least
    cases found.symm.trans has
    have below := least b (List.mem_cons_of_mem a List.mem_cons_self) other has'
    refine lt_of_le_of_ne below fun same => apart ?_
    exact (Prod.mk.inj (userRank_injective same)).1
  · intro less
    refine member'.resolve_right fun loses => ?_
    rw [loses] at found least
    cases found.symm.trans has'
    exact absurd (least a List.mem_cons_self score has) (not_le.mpr less)

/-! ## Titles and pairs -/

section Document

variable {roundings : Roundings Hours} {prev : Option (Head2headDoc Hours)} {a b : String}

variable (roundings prev a b) in
/-- A step of the tally, for a title that both have and one that they do not. -/
theorem pairTally_concat (fought : List H2hResult) (r : H2hResult) :
    let p := pairTally roundings prev fought a b
    let q := pairTally roundings prev (fought ++ [r]) a b
    (shared a b r = false → q = p) ∧
      (shared a b r = true →
        q.values.map Head2headPairValue.titleId = p.values.map Head2headPairValue.titleId ++ [r.titleId] ∧
        (q.aCount, q.bCount) = if pickWinner r.scores [a, b] r.higherWins (prevHolder prev r.titleId) = a then
          (p.aCount + 1, p.bCount) else (p.aCount, p.bCount + 1)) := by
  unfold pairTally shared
  rw [List.foldl_concat]
  dsimp only
  generalize List.foldl _ _ fought = p
  rcases first : r.scores.lookup a with _ | aScore
  · exact ⟨fun _ => rfl, fun both => absurd both (by simp)⟩
  · rcases second : r.scores.lookup b with _ | bScore
    · exact ⟨fun _ => rfl, fun both => absurd both (by simp)⟩
    · refine ⟨fun neither => absurd neither (by simp), fun _ => ⟨List.map_append, ?_⟩⟩
      dsimp only
      split_ifs <;> rfl

variable (roundings prev a b) in
theorem pairTally_names (fought : List H2hResult) :
    (pairTally roundings prev fought a b).a = a ∧ (pairTally roundings prev fought a b).b = b := by
  unfold pairTally
  induction fought using List.reverseRecOn with
  | nil => exact ⟨rfl, rfl⟩
  | append_singleton front r ih =>
    rw [List.foldl_concat]
    split <;> exact ih

variable (roundings prev) in
theorem pairTally_spec (apart : a ≠ b) (fought : List H2hResult) :
    (pairTally roundings prev fought a b).values.map Head2headPairValue.titleId =
        (fought.filter (shared a b)).map H2hResult.titleId ∧
      (pairTally roundings prev fought a b).aCount + (pairTally roundings prev fought a b).bCount =
        (pairTally roundings prev fought a b).values.length ∧
      (pairTally roundings prev fought a b).aCount =
        (fought.filter (shared a b)).countP fun r => Beats r (prevHolder prev r.titleId) a b := by
  induction fought using List.reverseRecOn with
  | nil => exact ⟨rfl, rfl, rfl⟩
  | append_singleton front r ih =>
    obtain ⟨names, count, wins⟩ := ih
    obtain ⟨apartStep, sharedStep⟩ := pairTally_concat roundings prev a b front r
    rw [List.filter_append]
    cases both : shared a b r with
    | false =>
      have none : [r].filter (shared a b) = [] := List.filter_cons_of_neg (by rw [both]; exact Bool.false_ne_true)
      rw [none, List.append_nil, apartStep both]
      exact ⟨names, count, wins⟩
    | true =>
      have one : [r].filter (shared a b) = [r] := List.filter_cons_of_pos both
      obtain ⟨names', counts⟩ := sharedStep both
      have lengths := congrArg List.length names'
      rw [List.length_map, List.length_append, List.length_map, List.length_singleton] at lengths
      rw [one, names', names, List.map_append, List.countP_append, lengths, ← wins]
      by_cases beats : Beats r (prevHolder prev r.titleId) a b
      · rw [if_pos ((pickWinner_pair apart both _).mpr beats)] at counts
        obtain ⟨first, second⟩ := Prod.mk.inj counts
        rw [List.countP_singleton, if_pos (decide_eq_true beats), first, second]
        exact ⟨rfl, by omega, rfl⟩
      · rw [if_neg fun wins => beats ((pickWinner_pair apart both _).mp wins)] at counts
        obtain ⟨first, second⟩ := Prod.mk.inj counts
        rw [List.countP_singleton, if_neg fun wins => beats (of_decide_eq_true wins), first, second]
        exact ⟨rfl, by omega, rfl⟩

/-- Two scores contest a title. -/
theorem contested_of_shared (apart : a ≠ b) {r : H2hResult} (both : shared a b r = true) : contested r = true := by
  obtain ⟨first, second⟩ := of_decide_eq_true both
  have inside : {a, b} ⊆ r.scores.keys := by
    intro user member
    rcases Finset.mem_insert.mp member with rfl | last
    · exact Finmap.mem_keys.mpr (Finmap.lookup_isSome.mp first)
    · rw [Finset.mem_singleton.mp last]
      exact Finmap.mem_keys.mpr (Finmap.lookup_isSome.mp second)
  refine decide_eq_true ?_
  rw [← Finset.card_pair apart]
  exact Finset.card_le_card inside

theorem tallied_pairTally (apart : a ≠ b) (results : List H2hResult) :
    Tallied results prev (pairTally roundings prev (results.filter contested) a b) := by
  obtain ⟨first, second⟩ := pairTally_names roundings prev a b (results.filter contested)
  obtain ⟨names, count, wins⟩ := pairTally_spec roundings prev apart (results.filter contested)
  have same : (results.filter contested).filter (shared a b) = results.filter (shared a b) := by
    rw [List.filter_filter]
    refine List.filter_congr fun r _ => ?_
    cases both : shared a b r with
    | false => rfl
    | true => exact contested_of_shared apart both
  rw [same] at names wins
  generalize pairTally roundings prev (results.filter contested) a b = p at *
  subst first second
  exact ⟨names, count, wins⟩

theorem mem_pairsOf {ids : List String} (sorted : ids.Pairwise (· < ·)) :
    (a, b) ∈ pairsOf ids ↔ a ∈ ids ∧ b ∈ ids ∧ a < b := by
  induction ids with
  | nil => exact ⟨nofun, fun held => (List.not_mem_nil held.1).elim⟩
  | cons id rest ih =>
    obtain ⟨below, sorted⟩ := List.pairwise_cons.mp sorted
    unfold pairsOf
    rw [List.mem_append, List.mem_map, ih sorted]
    constructor
    · rintro (⟨other, member, same⟩ | ⟨first, second, less⟩)
      · cases same
        exact ⟨List.mem_cons_self, List.mem_cons_of_mem _ member, below b member⟩
      · exact ⟨List.mem_cons_of_mem _ first, List.mem_cons_of_mem _ second, less⟩
    · rintro ⟨first, second, less⟩
      rcases List.mem_cons.mp first with rfl | later
      · rcases List.mem_cons.mp second with rfl | later
        · exact absurd less (lt_irrefl _)
        · exact .inl ⟨b, later, rfl⟩
      · rcases List.mem_cons.mp second with rfl | later'
        · exact absurd less (below a later).asymm
        · exact .inr ⟨later, later', less⟩

theorem nodup_pairsOf {ids : List String} (nodup : ids.Nodup) : (pairsOf ids).Nodup := by
  have within {ids : List String} {a b : String} (member : (a, b) ∈ pairsOf ids) : a ∈ ids := by
    induction ids with
    | nil => cases member
    | cons id rest ih =>
      rcases List.mem_append.mp member with first | later
      · obtain ⟨other, -, same⟩ := List.mem_map.mp first
        cases same
        exact List.mem_cons_self
      · exact List.mem_cons_of_mem _ (ih later)
  induction ids with
  | nil => exact List.nodup_nil
  | cons id rest ih =>
    obtain ⟨absent, nodup⟩ := List.nodup_cons.mp nodup
    refine List.nodup_append.mpr ⟨nodup.map fun first second same => (Prod.mk.inj same).2, ih nodup, ?_⟩
    rintro ⟨a, b⟩ member other member' rfl
    obtain ⟨c, -, same⟩ := List.mem_map.mp member
    cases same
    exact absent (within member')

/-! ## The whole document -/

theorem mem_scoresOf {score : H2hMemberData → Option Int} {members : List H2hMemberData} {user : String}
    (member : user ∈ scoresOf score members) : user ∈ members.map H2hMemberData.userId := by
  unfold scoresOf at member
  induction members using List.reverseRecOn with
  | nil => exact absurd member Finmap.notMem_empty
  | append_singleton front m ih =>
    rw [List.foldl_concat] at member
    rw [List.map_append]
    cases scored : score m with
    | none =>
      rw [scored] at member
      exact List.mem_append_left _ (ih member)
    | some n =>
      rw [scored] at member
      rcases Finmap.mem_insert.mp member with rfl | old
      · exact List.mem_append_right _ List.mem_cons_self
      · exact List.mem_append_left _ (ih old)

theorem titleId_results (orders : Orders) (members : List H2hMemberData) (nowMs : Int) :
    (results orders members nowMs).map H2hResult.titleId =
      [.theCarry, .lockedIn, .hasALife, .nightOwl, .theCollector, .sampler, .oneTrick, .mouth, .marathon, .lastOneUp,
        .clipper, .rageQuit, .winner] := rfl

theorem scored_results {orders : Orders} {members : List H2hMemberData} {nowMs : Int} {r : H2hResult}
    (member : r ∈ results orders members nowMs) {user : String} (scored : user ∈ r.scores) :
    user ∈ members.map H2hMemberData.userId := by
  have carry (scored : user ∈ (computeTheCarry orders members).scores) : user ∈ members.map H2hMemberData.userId := by
    unfold computeTheCarry at scored
    dsimp only at scored
    split_ifs at scored
    · exact absurd scored Finmap.notMem_empty
    · exact mem_scoresOf scored
  simp only [results, computeWeekTitles, computeActivityTitles, List.mem_append, List.mem_cons, List.not_mem_nil,
    or_false] at member
  rcases member with (rfl | rfl | rfl | rfl | rfl | rfl | rfl) | rfl | rfl | rfl | rfl | rfl | rfl
  · exact carry scored
  all_goals exact mem_scoresOf scored

theorem titleId_holdTitle (orders : Orders) (nowMs : Int) (r : H2hResult) :
    (holdTitle roundings orders prev nowMs r).titleId = r.titleId := by
  unfold holdTitle
  dsimp only
  split
  · rfl
  · split_ifs <;> rfl

variable (roundings prev) in
theorem holder_holdTitle (orders : Orders) (nowMs : Int) (r : H2hResult) :
    (holdTitle roundings orders prev nowMs r).holderUserId =
      pickWinner r.scores (r.users (orders.users r.titleId)) r.higherWins (prevHolder prev r.titleId) := by
  unfold holdTitle
  dsimp only
  split
  · rfl
  · split_ifs <;> rfl

theorem recorded_holdTitle (orders : Orders) (nowMs : Int) (r : H2hResult) :
    Recorded (prevByTitle prev r.titleId) nowMs (holdTitle roundings orders prev nowMs r) := by
  have holder := holder_holdTitle roundings prev orders nowMs r
  rcases found : prevByTitle prev r.titleId with _ | entry
  · refine ⟨nofun, nofun, fun _ => ?_⟩
    unfold holdTitle
    rw [found]
    exact ⟨rfl, rfl, rfl⟩
  · refine ⟨?_, ?_, nofun⟩
    · rintro held same unchanged
      cases same
      rw [holder] at unchanged
      unfold holdTitle
      rw [found]
      dsimp only
      rw [if_pos unchanged]
      exact ⟨rfl, rfl, rfl⟩
    · rintro held same changed
      cases same
      rw [holder] at changed
      unfold holdTitle
      rw [found]
      dsimp only
      rw [if_neg changed]
      exact ⟨rfl, rfl, rfl⟩

theorem prevByTitle_eq {prev : Head2headDoc Hours} (once : (prev.titles.map Head2headTitle.titleId).Nodup)
    {held : Head2headTitle Hours} (member : held ∈ prev.titles) : prevByTitle (some prev) held.titleId = some held := by
  have distinct : (prev.titles.reverse.map Head2headTitle.titleId).Nodup := by
    rw [List.map_reverse]
    exact List.nodup_reverse.mpr once
  exact (find?_key distinct).mpr ⟨List.mem_reverse.mpr member, rfl⟩

theorem mem_contenders {members : List H2hMemberData} {user : String} :
    user ∈ (contenders members).map H2hMemberData.userId ↔ ∃ m ∈ members, m.hasData = true ∧ m.userId = user := by
  have perm := List.perm_insertionSort (fun a b : H2hMemberData => a.userId ≤ b.userId) (members.filter H2hMemberData.hasData)
  unfold contenders
  rw [(perm.map H2hMemberData.userId).mem_iff, List.mem_map]
  constructor
  · rintro ⟨m, member, same⟩
    obtain ⟨held, data⟩ := List.mem_filter.mp member
    exact ⟨m, held, data, same⟩
  · rintro ⟨m, held, data, same⟩
    exact ⟨m, List.mem_filter.mpr ⟨held, data⟩, same⟩

theorem sorted_contenders {members : List H2hMemberData} (distinct : (members.map H2hMemberData.userId).Nodup) :
    ((contenders members).map H2hMemberData.userId).Pairwise (· < ·) := by
  have total : Std.Total fun a b : H2hMemberData => a.userId ≤ b.userId := ⟨fun a b => le_total a.userId b.userId⟩
  have trans : IsTrans H2hMemberData fun a b => a.userId ≤ b.userId := ⟨fun _ _ _ => le_trans⟩
  have sorted := List.pairwise_insertionSort (fun a b : H2hMemberData => a.userId ≤ b.userId)
    (members.filter H2hMemberData.hasData)
  have nodup : ((contenders members).map H2hMemberData.userId).Nodup := by
    have perm := List.perm_insertionSort (fun a b : H2hMemberData => a.userId ≤ b.userId)
      (members.filter H2hMemberData.hasData)
    exact (perm.map H2hMemberData.userId).nodup_iff.mpr (distinct.sublist (List.filter_sublist.map _))
  exact (List.pairwise_map.mpr sorted).and nodup |>.imp fun both => lt_of_le_of_ne both.1 both.2

theorem right_computeHead2head (orders : Orders) {input : H2hInput Hours}
    (distinct : (input.members.map H2hMemberData.userId).Nodup)
    (once : ∀ prev, input.prev = some prev → (prev.titles.map Head2headTitle.titleId).Nodup) :
    Right (results orders (contenders input.members) input.nowMs) input (computeHead2head roundings orders input) := by
  have sorted := sorted_contenders distinct
  have apart : ((results orders (contenders input.members) input.nowMs).map H2hResult.titleId).Nodup := by
    rw [titleId_results]
    decide
  have names : ((results orders (contenders input.members) input.nowMs).filter contested).map
      (Head2headTitle.titleId ∘ holdTitle roundings orders input.prev input.nowMs) =
        ((results orders (contenders input.members) input.nowMs).filter contested).map H2hResult.titleId :=
    List.map_congr_left fun r _ => titleId_holdTitle orders input.nowMs r
  have pairNames : ((pairsOf ((contenders input.members).map H2hMemberData.userId)).map fun (a, b) =>
      pairTally roundings input.prev ((results orders (contenders input.members) input.nowMs).filter contested) a b).map
        (fun p => (p.a, p.b)) = pairsOf ((contenders input.members).map H2hMemberData.userId) := by
    rw [List.map_map]
    refine (List.map_congr_left fun pair _ => ?_).trans (List.map_id _)
    obtain ⟨first, second⟩ := pairTally_names roundings input.prev pair.1 pair.2
      ((results orders (contenders input.members) input.nowMs).filter contested)
    exact Prod.ext first second
  refine ⟨fun user => mem_contenders, fun r member user scored => scored_results member scored,
    ?_, ?_, ?_, ?_, ?_, ?_, ?_, ?_, ?_⟩
  · intro r member
    change r.titleId ∈ (List.map _ _).map _ ↔ _
    rw [List.map_map, names, List.mem_map]
    constructor
    · rintro ⟨other, held, same⟩
      obtain ⟨inside, fought⟩ := List.mem_filter.mp held
      obtain rfl := List.inj_on_of_nodup_map apart inside member same
      exact of_decide_eq_true fought
    · intro two
      exact ⟨r, List.mem_filter.mpr ⟨member, decide_eq_true two⟩, rfl⟩
  · intro t member
    obtain ⟨r, held, rfl⟩ := List.mem_map.mp member
    rw [titleId_holdTitle]
    exact List.mem_map_of_mem (List.mem_filter.mp held).1
  · change ((List.map _ _).map _).Nodup
    rw [List.map_map, names]
    exact apart.sublist (List.filter_sublist.map _)
  · intro r member t member' same
    obtain ⟨other, held, rfl⟩ := List.mem_map.mp member'
    obtain ⟨inside, fought⟩ := List.mem_filter.mp held
    rw [titleId_holdTitle] at same ⊢
    obtain rfl := List.inj_on_of_nodup_map apart inside member same
    rw [holder_holdTitle]
    have two : 2 ≤ other.scores.keys.card := of_decide_eq_true fought
    obtain ⟨user, contends⟩ := Finset.card_pos.mp (Nat.lt_of_lt_of_le Nat.zero_lt_two two)
    exact heldBy_pickWinner _ _ (Finmap.mem_keys.mp contends)
  · intro prev same held member
    rw [same]
    exact prevByTitle_eq (once prev same) member
  · intro t member
    obtain ⟨r, held, rfl⟩ := List.mem_map.mp member
    rw [titleId_holdTitle]
    exact recorded_holdTitle orders input.nowMs r
  · intro a b
    change (a, b) ∈ (List.map _ _).map _ ↔ _
    rw [pairNames]
    exact mem_pairsOf sorted
  · change ((List.map _ _).map _).Nodup
    rw [pairNames]
    exact nodup_pairsOf sorted.nodup
  · intro p member
    obtain ⟨⟨a, b⟩, held, rfl⟩ := List.mem_map.mp member
    have less := ((mem_pairsOf sorted).mp held).2.2
    exact tallied_pairTally less.ne _

/-- Whatever the order of the members and of the range statements, one document comes out, and it is right. -/
theorem one_right_document (roundings : Roundings Hours) (input : H2hInput Hours)
    (distinct : (input.members.map H2hMemberData.userId).Nodup) (named : Named input.members)
    (once : ∀ prev, input.prev = some prev → (prev.titles.map Head2headTitle.titleId).Nodup) (orders : Orders) :
    (∀ other members, members.Perm input.members →
      computeHead2head roundings other { input with members } = computeHead2head roundings orders input) ∧
    Right (results orders (contenders input.members) input.nowMs) input (computeHead2head roundings orders input) :=
  ⟨fun _ _ perm => computeHead2head_eq roundings orders _ input distinct named perm,
    right_computeHead2head orders distinct once⟩

end Document

/-! ## Two members -/

def exactRoundings : Roundings ℚ where
  hours score := ⌊(score : ℚ) / 6 + 1 / 2⌋ / 10
  percent score := ⌊(score : ℚ) / 100 + 1 / 2⌋

/-- Every range statement in one order. -/
def allIn (order : Listing String) : Orders where
  owners := order
  carry _ := ⟨order, order⟩
  oneTrick _ := ⟨order, order⟩
  minutes _ := order
  users _ := order

def ascending : Listing String := .sortedBy (· ≤ ·)

def descending : Listing String := .sortedBy (· ≥ ·)

/-- Two members that own the same two games, by the name of the first. -/
def owning (game : String) : H2hInput ℚ where
  crewId := "crew"
  memberCount := 2
  members :=
    [{ userId := "ann", library := some ⟨[⟨game, some 60⟩, ⟨"chess", some 60⟩]⟩ },
      { userId := "bob", library := some ⟨[⟨game, some 90⟩, ⟨"chess", some 30⟩]⟩ }]
  prev := none
  nowMs := 1000

theorem owning_right : (∀ other members, members.Perm (owning "go").members →
      computeHead2head exactRoundings other { owning "go" with members } =
        computeHead2head exactRoundings (allIn ascending) (owning "go")) ∧
    Right (results (allIn ascending) (contenders (owning "go").members) 1000) (owning "go")
      (computeHead2head exactRoundings (allIn ascending) (owning "go")) :=
  one_right_document exactRoundings (owning "go") (by decide) (by unfold Named; decide) nofun (allIn ascending)

/-- With a game of the empty id, the order of the range over the owners decides whether a title is
there. A title that no document had before has no time at which it moved. -/
theorem owning_unnamed :
    ((computeHead2head exactRoundings (allIn ascending) (owning "")).titles.map Head2headTitle.titleId =
        [.theCarry, .theCollector] ∧
      (computeHead2head exactRoundings (allIn descending) (owning "")).titles.map Head2headTitle.titleId = [.theCollector]) ∧
    (computeHead2head exactRoundings (allIn ascending) (owning "go")).titles.map
        (fun t => (t.titleId, t.holderUserId, t.sinceMs, t.previousHolderUserId, t.movedAtMs)) =
      [(.theCarry, "bob", 1000, "", 0), (.theCollector, "ann", 1000, "", 0)] := by
  decide +kernel

end Mello.Backend.Head2headTitles
