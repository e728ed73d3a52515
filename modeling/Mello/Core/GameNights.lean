import Mello.Core.GameState

/-!
The nights of a player over restarts of the client. The sensor stores its open sessions
after each scan. After a restart its first scan resumes those whose process still lives,
and closes the others at the time of the last scan.
-/

namespace Mello.Core.GameNights
open Mello.Library Keyed Runs GameSensing GameState

/-! ## The store -/

structure PersistedSession where
  pid : ℕ
  /-- The creation time of the process, 0 when it could not be read. -/
  startedAtMs : ℤ
  gameId : String
  exe : String
  /-- The last scan that saw the process alive. -/
  lastSeenMs : ℤ
  foregroundMs : ℤ

def PersistedSession.of (g : ActiveGame) (now : ℤ) : PersistedSession :=
  { pid := g.pid
    startedAtMs := g.startedAtMs
    gameId := g.gameId
    exe := g.exe
    lastSeenMs := now
    foregroundMs := g.foregroundMs }

def persist (active : Games) (scan : Scan) : List PersistedSession :=
  (scan.order active.keys).filterMap fun pid => (active.lookup pid).map (PersistedSession.of · scan.now)

def resumeMatches (persisted : PersistedSession) (livePid : ℕ) (liveStartedAt : ℤ) : Bool :=
  persisted.pid = livePid && persisted.startedAtMs ≠ 0 && liveStartedAt ≠ 0 && persisted.startedAtMs = liveStartedAt

/-- The live process that a stored session goes on with. -/
def resumed (detected : List ActiveGame) (orphan : PersistedSession) : Option ActiveGame :=
  (detected.find? fun g => resumeMatches orphan g.pid g.startedAtMs).map fun live =>
    { live with foregroundMs := orphan.foregroundMs }

/-- The session of a stored one whose process is gone. -/
def orphaned (orphan : PersistedSession) : ActiveGame :=
  { gameId := orphan.gameId
    exe := orphan.exe
    pid := orphan.pid
    startedAt := orphan.startedAtMs
    startedAtMs := orphan.startedAtMs
    foregroundMs := orphan.foregroundMs }

def recoverOne (detected : List ActiveGame) (acc : Games × List GameEvent) (orphan : PersistedSession) : Games × List GameEvent :=
  match resumed detected orphan with
  | some live => (acc.1.insert live.pid live, acc.2 ++ [.started live])
  | none => (acc.1, acc.2 ++ [.stopped (orphaned orphan) orphan.lastSeenMs])

def recover (detected : List ActiveGame) (orphans : List PersistedSession) : Games × List GameEvent :=
  orphans.foldl (recoverOne detected) (∅, [])

/-! ## The client -/

/-- The client with its store. The processes and the time of its last scan are kept to
speak about them, the code has them no more. -/
structure Client where
  sensor : Sensor := {}
  manager : GameStateManager := {}
  store : List PersistedSession := []
  last : Games := ∅
  lastAt : ℤ := 0

inductive Tick where
  | scan (scan : Scan)
  /-- The client exits, and starts again with this scan. -/
  | restart (scan : Scan)

section Ticks

variable (rules : Rules) (firstKey : List String → Option String)

def tick (c : Client) : Tick → Option (Client × List SessionSummary)
  | .scan scan =>
    (scanOnce rules c.sensor scan).map fun (sensor, events) =>
      let (manager, summaries) := feed firstKey c.manager events
      ({ sensor
         manager
         store := persist sensor.active scan
         last := (look rules c.sensor.windowless scan).live
         lastAt := scan.now }, summaries)
  | .restart scan =>
    let (active, recovered) := recover (detect rules (fun _ => 0) scan).1 c.store
    (scanOnce rules { active } scan).map fun (sensor, events) =>
      let (manager, summaries) := feed firstKey {} (recovered ++ events)
      ({ sensor
         manager
         store := persist sensor.active scan
         last := (look rules (fun _ => 0) scan).live
         lastAt := scan.now }, summaries)

/-! ## The nights -/

/-- The same process: one pid, and one creation time that is known. -/
def Same (g d : ActiveGame) : Prop := d.pid = g.pid ∧ d.startedAtMs = g.startedAtMs ∧ g.startedAtMs ≠ 0

instance (g d : ActiveGame) : Decidable (Same g d) := inferInstanceAs (Decidable (_ ∧ _))

/-- The process of a session at the exit lives on. -/
def LivesOn (c : Client) (detected : List ActiveGame) (gameId : String) : Prop :=
  ∃ x ∈ c.sensor.active.entries, x.2.gameId = gameId ∧ ∃ g ∈ c.last.lookup x.1, ∃ d ∈ detected, Same g d

/-- The session of a game goes on: it is not closed, and at a restart its process lives on. -/
def GoesOn (c next : Client) (gameId : String) : Tick → Prop
  | .scan _ => session next.sensor.active gameId ≠ none
  | .restart scan => LivesOn c (detect rules (fun _ => 0) scan).1 gameId

/-- When a session ends that does not go on. -/
def endOf (c : Client) : Tick → ℤ
  | .scan scan => scan.now
  | .restart _ => c.lastAt

/-- A session goes on with its start, or ends as one span of the ledger. -/
structure Kept (before after : Option ActiveGame) (goesOn : Prop) (ended : ℤ) (nights : List (ℤ × ℤ)) : Prop where
  on : ∀ e, before = some e → goesOn → nights = [] ∧ ∃ f, after = some f ∧ f.startedAt = e.startedAt
  ends : ∀ e, before = some e → ¬ goesOn → nights = span e.startedAt ended
  closed : before = none → nights = []

/-- The process that opens the session of its game, when that has none. -/
def Opener (seen : Seen) (hidden : Finset ℕ) (x : Sigma fun _ : ℕ => ActiveGame) : Prop :=
  x.1 ∈ seen.startable ∧ x.1 ∉ hidden ∧ ∀ y ∈ seen.live.entries, y.1 ∈ seen.startable → y.1 ∉ hidden →
    y.2.gameId = x.2.gameId → representativeRank rules x.2 ≤ representativeRank rules y.2

instance (seen : Seen) (hidden : Finset ℕ) (x : Sigma fun _ : ℕ => ActiveGame) : Decidable (Opener rules seen hidden x) :=
  inferInstanceAs (Decidable (_ ∧ _))

/-- A process that opens a session of a game is younger than the summaries of the game. -/
def Later (seen : Seen) (hidden : Finset ℕ) (closed : String → Prop) (summaries : List SessionSummary) : Prop :=
  ∀ x ∈ seen.live.entries, Opener rules seen hidden x → closed x.2.gameId →
    ∀ n ∈ spans x.2.gameId summaries, n.2 ≤ x.2.startedAt

/-- At a restart, a session whose process lives on has the start of that process, which is
still of its game; a session whose process is gone was too short for the ledger, and no other
process matches it. -/
def Restored (c : Client) (detected : List ActiveGame) : Prop :=
  ∀ x ∈ c.sensor.active.entries, ∀ g ∈ c.last.lookup x.1,
    ((∃ d ∈ detected, Same g d) → x.2.startedAtMs = g.startedAtMs ∧ 0 < g.startedAtMs ∧
      ∀ d ∈ detected, d.pid = x.1 → d.gameId = x.2.gameId) ∧
    (¬ (∃ d ∈ detected, Same g d) → ¬ lasted x.2.startedAt c.lastAt ∧
      ∀ d ∈ detected, ¬ resumeMatches (.of x.2 c.lastAt) d.pid d.startedAtMs)

instance (c : Client) (detected : List ActiveGame) (gameId : String) : Decidable (LivesOn c detected gameId) := by
  unfold LivesOn
  infer_instance

instance (c : Client) (detected : List ActiveGame) : Decidable (Restored c detected) := by
  unfold Restored
  infer_instance

instance (seen : Seen) (hidden : Finset ℕ) (closed : String → Prop) [DecidablePred closed] (summaries : List SessionSummary) :
    Decidable (Later rules seen hidden closed summaries) := by
  unfold Later
  infer_instance

/-- A scan leaves the pids of the sessions with their games, a restart restores the sessions,
and no process that opens a session is older than a summary of its game. -/
def Met : Client × List SessionSummary → Tick → Prop
  | (c, log), .scan scan =>
    let seen := look rules c.sensor.windowless scan
    Agree seen.live c.sensor.active ∧ Later rules seen c.sensor.shadow (fun gameId => session c.sensor.active gameId = none) log
  | (c, log), .restart scan =>
    let detected := (detect rules (fun _ => 0) scan).1
    Restored c detected ∧ Later rules (look rules (fun _ => 0) scan) ∅ (fun gameId => ¬ LivesOn c detected gameId) log

end Ticks

section Runs

variable (rules : Rules) (firstKey : List String → Option String)

/-- What a tick does to the session of each game. -/
def KeepsAll (c : Client) (input : Tick) (t : Client) (out : List SessionSummary) : Prop :=
  ∀ gameId, Kept (session c.sensor.active gameId) (session t.sensor.active gameId) (GoesOn rules c t gameId input) (endOf c input)
    (spans gameId out)

/-- The next summary of a game is of the night that began at `startMs`, if it lasted. -/
def NextNight (gameId : String) (startMs : ℤ) : Client → List Tick → Prop
  | _, [] => True
  | c, input :: rest => ∀ t out, tick rules firstKey c input = some (t, out) →
    (GoesOn rules c t gameId input → spans gameId out = [] ∧ NextNight gameId startMs t rest) ∧
      (¬ GoesOn rules c t gameId input → spans gameId out = span startMs (endOf c input))

/-- The client has the sessions of the sensor, and no stretch of time is in two summaries of
a game. -/
def Booked : Client × List SessionSummary → Prop
  | (c, log) => (∀ gameId, since c.manager gameId = (session c.sensor.active gameId).map fun e => e.startedAt) ∧
    ∀ gameId, (spans gameId log).Pairwise fun n other => n.2 ≤ other.1

end Runs

/-! ## One scan -/

/-- What a game adds to the ledger in a scan. -/
def nightsOf (now : ℤ) : Option ActiveGame → Option ActiveGame → List (ℤ × ℤ)
  | some e, none => span e.startedAt now
  | _, _ => []

theorem turn_told {gain now : ℤ} {o after : Option ActiveGame} {x : List GameEvent} (turn : Turn gain now o x after) :
    x.foldl told (o.map fun e => e.startedAt, []) = (after.map fun e => e.startedAt, nightsOf now o after) := by
  cases turn with
  | none => rfl
  | opens new grown => exact Prod.ext (congrArg some grown.startedAt.symm) rfl
  | keeps grown => exact Prod.ext (congrArg some grown.startedAt.symm) rfl
  | closes carried => rfl

theorem mem_nightsOf {now : ℤ} {o after : Option ActiveGame} {n : ℤ × ℤ} (member : n ∈ nightsOf now o after) :
    ∃ e, o = some e ∧ n = (e.startedAt, now) := by
  cases o with
  | none => cases member
  | some e =>
    cases after with
    | some f => cases member
    | none =>
      dsimp only [nightsOf] at member
      unfold span at member
      split_ifs at member
      · exact ⟨e, rfl, List.mem_singleton.mp member⟩
      · cases member

theorem pairwise_nightsOf (now : ℤ) (o after : Option ActiveGame) :
    (nightsOf now o after).Pairwise fun n other => n.2 ≤ other.1 := by
  unfold nightsOf span
  cases o with
  | none => exact .nil
  | some e =>
    cases after with
    | some f => exact .nil
    | none =>
      dsimp only
      split_ifs
      · exact List.pairwise_singleton _ _
      · exact .nil

/-- The start of an open session is that of the session before, or of the process that opens it. -/
theorem turn_start {gain now : ℤ} {o after : Option ActiveGame} {x : List GameEvent} {e : ActiveGame}
    (turn : Turn gain now o x after) (here : after = some e) :
    (∃ f, o = some f ∧ e.startedAt = f.startedAt ∧ e.startedAtMs = f.startedAtMs) ∨
      (o = none ∧ ∃ g, .started g ∈ x ∧ e.startedAt = g.startedAt ∧ e.startedAtMs = g.startedAtMs) := by
  cases turn with
  | none => cases here
  | opens new grown =>
    cases here
    exact .inr ⟨rfl, _, List.mem_singleton_self _, grown.startedAt, grown.startedAtMs⟩
  | keeps grown =>
    cases here
    exact .inl ⟨_, rfl, grown.startedAt, grown.startedAtMs⟩
  | closes carried => cases here

/-- The ledger and the open sessions of the sensor and of the client. -/
structure Good (active : Games) (m : GameStateManager) (log : List SessionSummary) : Prop where
  single : Single active
  plain : Plain m
  linked : ∀ gameId, since m gameId = (session active gameId).map fun e => e.startedAt
  stamped : ∀ gameId e, session active gameId = some e → 0 < e.startedAtMs → e.startedAt = e.startedAtMs
  later : ∀ gameId e, session active gameId = some e → ∀ n ∈ spans gameId log, n.2 ≤ e.startedAt
  apart : ∀ gameId, (spans gameId log).Pairwise fun n other => n.2 ≤ other.1

section Scan

variable {rules : Rules} {firstKey : List String → Option String} {s t : Sensor} {scan : Scan} {events : List GameEvent}
  {m : GameStateManager} {log : List SessionSummary}

theorem opener_of_scanned {seen : Seen} (single : Single s.active) (agree : Agree seen.live s.active)
    (scanned : Scanned rules seen s scan t events) {gameId : String} (closed : session s.active gameId = none) {g : ActiveGame}
    (opened : .started g ∈ events) (same : g.gameId = gameId) :
    ∃ pid, seen.live.lookup pid = some g ∧ Opener rules seen s.shadow ⟨pid, g⟩ := by
  obtain ⟨x, member, rfl, least⟩ := scanned.news g opened
  obtain ⟨here, -, out, start⟩ := mem_newcomers.mp member
  refine ⟨x.1, here, start, out, fun y lives ready free mine => ?_⟩
  refine least y (mem_newcomers.mpr ⟨mem_entries.mp lives, ?_, free, ready⟩) mine
  cases tracked : s.active.lookup y.1 with
  | none => rfl
  | some e =>
    have theirs := agree y.1 e y.2 tracked (mem_entries.mp lives)
    exact absurd (theirs.symm.trans (mine.trans same)) ((session_eq_none single).mp closed y.1 e tracked)

theorem scan_good (firstKey : List String → Option String) (good : Good s.active m log)
    (agree : Agree (look rules s.windowless scan).live s.active)
    (younger : Later rules (look rules s.windowless scan) s.shadow (fun gameId => session s.active gameId = none) log)
    (stepped : scanOnce rules s scan = some (t, events)) :
    Good t.active (feed firstKey m events).1 (log ++ (feed firstKey m events).2) ∧
      (∀ gameId, spans gameId (feed firstKey m events).2 =
        nightsOf scan.now (session s.active gameId) (session t.active gameId)) ∧
      ∀ gameId e f, session s.active gameId = some e → session t.active gameId = some f → f.startedAt = e.startedAt := by
  have scanned := scanOnce_scanned good.single agree stepped
  obtain ⟨plain, fed⟩ := feed_spec firstKey good.plain events
  have both : ∀ gameId, since (feed firstKey m events).1 gameId = (session t.active gameId).map (fun e => e.startedAt) ∧
      spans gameId (feed firstKey m events).2 = nightsOf scan.now (session s.active gameId) (session t.active gameId) := by
    intro gameId
    obtain ⟨gain, -, -, turn⟩ := scanned.turn gameId
    have whole := fed gameId
    rw [good.linked gameId, turn_told turn] at whole
    exact Prod.mk.inj whole
  have starts : ∀ gameId e, session t.active gameId = some e →
      (∃ f, session s.active gameId = some f ∧ e.startedAt = f.startedAt ∧ e.startedAtMs = f.startedAtMs) ∨
        ∃ pid g, (look rules s.windowless scan).live.lookup pid = some g ∧ g.gameId = gameId ∧ session s.active gameId = none ∧
          Opener rules (look rules s.windowless scan) s.shadow ⟨pid, g⟩ ∧
          e.startedAt = g.startedAt ∧ e.startedAtMs = g.startedAtMs := by
    intro gameId e found
    obtain ⟨gain, -, -, turn⟩ := scanned.turn gameId
    rcases turn_start turn found with old | ⟨closed, g, opened, start, stamp⟩
    · exact .inl old
    · obtain ⟨inside, mine⟩ := List.mem_filter.mp opened
      have same : g.gameId = gameId := of_decide_eq_true mine
      obtain ⟨pid, lives, opener⟩ := opener_of_scanned good.single agree scanned closed inside same
      exact .inr ⟨pid, g, lives, same, closed, opener, start, stamp⟩
  refine ⟨⟨scanned.single, plain, fun gameId => (both gameId).1, ?_, ?_, ?_⟩, fun gameId => (both gameId).2, ?_⟩
  · intro gameId e found known
    rcases starts gameId e found with ⟨f, was, start, stamp⟩ | ⟨pid, g, lives, -, -, -, start, stamp⟩
    · rw [start, stamp]
      exact good.stamped gameId f was (stamp ▸ known)
    · rw [start, stamp]
      exact (mem_detectGames (mem_detect (look_live lives).1)).2.1 (stamp ▸ known)
  · intro gameId e found n member
    rw [spans_append, (both gameId).2, found] at member
    have old : n ∈ spans gameId log := by
      rcases List.mem_append.mp member with old | new
      · exact old
      · cases before : session s.active gameId with
        | none =>
          rw [before] at new
          cases new
        | some f =>
          rw [before] at new
          cases new
    rcases starts gameId e found with ⟨f, was, start, -⟩ | ⟨pid, g, lives, same, closed, opener, start, -⟩
    · rw [start]
      exact good.later gameId f was n old
    · rw [start]
      subst same
      exact younger ⟨pid, g⟩ (mem_entries.mpr lives) opener closed n old
  · intro gameId
    rw [spans_append, (both gameId).2]
    refine List.pairwise_append.mpr ⟨good.apart gameId, pairwise_nightsOf scan.now _ _, ?_⟩
    intro n old other new
    obtain ⟨e, open_, rfl⟩ := mem_nightsOf new
    exact good.later gameId e open_ n old
  · intro gameId e f was found
    rcases starts gameId f found with ⟨h, also, start, -⟩ | ⟨-, -, -, -, closed, -⟩
    · cases was.symm.trans also
      exact start
    · cases was.symm.trans closed

end Scan

/-! ## The restart -/

section Recovery

variable {detected : List ActiveGame} {orphans : List PersistedSession} {orphan : PersistedSession} {live : ActiveGame}

theorem resumeMatches_iff (persisted : PersistedSession) (livePid : ℕ) (liveStartedAt : ℤ) :
    resumeMatches persisted livePid liveStartedAt = true ↔
      persisted.pid = livePid ∧ persisted.startedAtMs ≠ 0 ∧ liveStartedAt ≠ 0 ∧ persisted.startedAtMs = liveStartedAt := by
  simp only [resumeMatches, Bool.and_eq_true, decide_eq_true_eq, and_assoc]

theorem resumed_some (found : resumed detected orphan = some live) :
    live.pid = orphan.pid ∧ live.startedAtMs = orphan.startedAtMs ∧ live.startedAtMs ≠ 0 ∧
      ∃ d ∈ detected, d.pid = live.pid ∧ d.gameId = live.gameId ∧ d.startedAt = live.startedAt ∧
        d.startedAtMs = live.startedAtMs := by
  obtain ⟨d, first, rfl⟩ := Option.map_eq_some_iff.mp found
  have fits := List.find?_some first
  obtain ⟨pid, -, other, same⟩ := (resumeMatches_iff orphan d.pid d.startedAtMs).mp fits
  exact ⟨pid.symm, same.symm, other, d, List.mem_of_find?_eq_some first, rfl, rfl, rfl, rfl⟩

/-- The event of a stored session. -/
def recovery (detected : List ActiveGame) (orphan : PersistedSession) : GameEvent :=
  match resumed detected orphan with
  | some live => .started live
  | none => .stopped (orphaned orphan) orphan.lastSeenMs

theorem about_recovery (games : ∀ live, resumed detected orphan = some live → live.gameId = orphan.gameId) (gameId : String) :
    about gameId (recovery detected orphan) = true ↔ orphan.gameId = gameId := by
  unfold recovery
  cases found : resumed detected orphan with
  | some live =>
    rw [← games live found]
    exact decide_eq_true_iff
  | none => exact decide_eq_true_iff

theorem recoverOne_spec {acc : Games × List GameEvent} (single : Single acc.1) (free : acc.1.lookup orphan.pid = none)
    (closed : session acc.1 orphan.gameId = none)
    (games : ∀ live, resumed detected orphan = some live → live.gameId = orphan.gameId) :
    Single (recoverOne detected acc orphan).1 ∧
      session (recoverOne detected acc orphan).1 = Function.update (session acc.1) orphan.gameId (resumed detected orphan) ∧
      (recoverOne detected acc orphan).2 = acc.2 ++ [recovery detected orphan] ∧
      ∀ p e, (recoverOne detected acc orphan).1.lookup p = some e →
        acc.1.lookup p = some e ∨ (orphan.pid = p ∧ resumed detected orphan = some e) := by
  unfold recoverOne recovery
  cases found : resumed detected orphan with
  | none =>
    have same : Function.update (session acc.1) orphan.gameId none = session acc.1 := by
      rw [← closed, Function.update_eq_self]
    exact ⟨single, same.symm, rfl, fun p e => .inl⟩
  | some live =>
    have pid := (resumed_some found).1
    have same := games live found
    obtain ⟨next, opened⟩ := single.opened (same ▸ closed) (pid ▸ free) rfl
    refine ⟨next, same ▸ opened, rfl, ?_⟩
    intro p e there
    rcases insert_cases there with ⟨rfl, rfl⟩ | old
    · exact .inr ⟨pid.symm, rfl⟩
    · exact .inl old

/-- Each stored session is resumed or closed, by its game. -/
theorem recover_spec (apart : orphans.Pairwise fun a b => a.pid ≠ b.pid ∧ a.gameId ≠ b.gameId)
    (games : ∀ o ∈ orphans, ∀ live, resumed detected o = some live → live.gameId = o.gameId) :
    Single (recover detected orphans).1 ∧
      (∀ p e, (recover detected orphans).1.lookup p = some e → ∃ o ∈ orphans, o.pid = p ∧ resumed detected o = some e) ∧
      ∀ gameId, (∀ o ∈ orphans, o.gameId = gameId → session (recover detected orphans).1 gameId = resumed detected o ∧
          (recover detected orphans).2.filter (about gameId) = [recovery detected o]) ∧
        ((∀ o ∈ orphans, o.gameId ≠ gameId) → session (recover detected orphans).1 gameId = none ∧
          (recover detected orphans).2.filter (about gameId) = []) := by
  induction orphans using List.reverseRecOn with
  | nil =>
    refine ⟨⟨nofun, nofun⟩, nofun, fun gameId => ⟨fun o member => absurd member List.not_mem_nil, fun _ => ⟨rfl, rfl⟩⟩⟩
  | append_singleton front o ih =>
    have last : recover detected (front ++ [o]) = recoverOne detected (recover detected front) o := List.foldl_concat ..
    rw [last]
    obtain ⟨before, -, cross⟩ := List.pairwise_append.mp apart
    have unlike : ∀ p ∈ front, p.pid ≠ o.pid ∧ p.gameId ≠ o.gameId := fun p member => cross p member o (List.mem_singleton_self o)
    obtain ⟨single, entries, told⟩ := ih before fun p member => games p (List.mem_append_left _ member)
    have mine := games o (List.mem_append_right _ (List.mem_singleton_self o))
    generalize recover detected front = acc at *
    have free : acc.1.lookup o.pid = none := by
      cases there : acc.1.lookup o.pid with
      | none => rfl
      | some e =>
        obtain ⟨p, member, same, -⟩ := entries o.pid e there
        exact absurd same (unlike p member).1
    have closed := (told o.gameId).2 fun p member => (unlike p member).2
    obtain ⟨next, moved, events, cases⟩ := recoverOne_spec single free closed.1 mine
    refine ⟨next, ?_, fun gameId => ⟨?_, ?_⟩⟩
    · intro p e there
      rcases cases p e there with old | ⟨pid, found⟩
      · obtain ⟨q, member, here⟩ := entries p e old
        exact ⟨q, List.mem_append_left _ member, here⟩
      · exact ⟨o, List.mem_append_right _ (List.mem_singleton_self o), pid, found⟩
    · intro p member same
      rw [moved, events, List.filter_append]
      rcases List.mem_append.mp member with old | new
      · have other : o.gameId ≠ gameId := fun theirs => (unlike p old).2 (same.trans theirs.symm)
        obtain ⟨so, news⟩ := (told gameId).1 p old same
        rw [Function.update_of_ne other.symm, news, List.filter_cons_of_neg fun yes => other ((about_recovery mine gameId).mp yes)]
        exact ⟨so, rfl⟩
      · obtain rfl := List.mem_singleton.mp new
        subst same
        rw [Function.update_self, closed.2, List.filter_cons_of_pos ((about_recovery mine _).mpr rfl)]
        exact ⟨rfl, rfl⟩
    · intro none
      have other := none o (List.mem_append_right _ (List.mem_singleton_self o))
      obtain ⟨so, news⟩ := (told gameId).2 fun p member => none p (List.mem_append_left _ member)
      rw [moved, events, List.filter_append, Function.update_of_ne other.symm, news,
        List.filter_cons_of_neg fun yes => other ((about_recovery mine gameId).mp yes)]
      exact ⟨so, rfl⟩

theorem mem_persist {active : Games} {scan : Scan} {o : PersistedSession} :
    o ∈ persist active scan ↔ ∃ pid e, active.lookup pid = some e ∧ o = .of e scan.now := by
  unfold persist
  rw [List.mem_filterMap]
  constructor
  · rintro ⟨pid, -, found⟩
    obtain ⟨e, here, rfl⟩ := Option.map_eq_some_iff.mp found
    exact ⟨pid, e, here, rfl⟩
  · rintro ⟨pid, e, here, rfl⟩
    refine ⟨pid, ?_, ?_⟩
    · rw [(scan.perm active.keys).mem_iff, ← AList.mem_keys, ← AList.lookup_isSome, here]
      rfl
    · rw [here, Option.map_some]

theorem persist_apart {active : Games} (single : Single active) (scan : Scan) :
    (persist active scan).Pairwise fun a b => a.pid ≠ b.pid ∧ a.gameId ≠ b.gameId := by
  unfold persist
  refine List.pairwise_filterMap.mpr (((scan.perm active.keys).nodup_iff.mpr active.keys_nodup).imp ?_)
  intro p q apart a found b other
  obtain ⟨e, here, rfl⟩ := Option.map_eq_some_iff.mp found
  obtain ⟨f, there, rfl⟩ := Option.map_eq_some_iff.mp other
  refine ⟨fun same => apart ?_, fun same => apart (single.one here there same)⟩
  exact (single.own here).symm.trans (same.trans (single.own there))

end Recovery

/-- The client between two ticks. -/
structure Whole (c : Client) (log : List SessionSummary) : Prop extends Good c.sensor.active c.manager log where
  stored : ∃ scan, c.store = persist c.sensor.active scan ∧ scan.now = c.lastAt
  alive : ∀ pid e, c.sensor.active.lookup pid = some e → ∃ g, c.last.lookup pid = some g ∧ g.pid = pid

section Restart

variable {rules : Rules} {firstKey : List String → Option String} {c t : Client} {scan : Scan} {log out : List SessionSummary}
  {detected : List ActiveGame}

/-- A session at the exit goes on with its process, or it is over and leaves no trace. -/
theorem restored_cases (whole : Whole c log) (restored : Restored c detected)
    (stamped : ∀ d ∈ detected, 0 < d.startedAtMs → d.startedAt = d.startedAtMs) {pid : ℕ} {e : ActiveGame}
    (here : c.sensor.active.lookup pid = some e) :
    (LivesOn c detected e.gameId ∧ (∃ live, resumed detected (.of e c.lastAt) = some live ∧ live.gameId = e.gameId ∧
        live.startedAt = e.startedAt ∧ (0 < live.startedAtMs → live.startedAt = live.startedAtMs)) ∧
        ∀ d ∈ detected, d.pid = pid → d.gameId = e.gameId) ∨
      (¬ LivesOn c detected e.gameId ∧ resumed detected (.of e c.lastAt) = none ∧ ¬ lasted e.startedAt c.lastAt) := by
  obtain ⟨g, lives, own⟩ := whole.alive pid e here
  obtain ⟨known, unknown⟩ := restored ⟨pid, e⟩ (mem_entries.mpr here) g lives
  by_cases same : ∃ d ∈ detected, Same g d
  · obtain ⟨stamp, positive, games⟩ := known same
    obtain ⟨d, member, process⟩ := same
    refine .inl ⟨⟨⟨pid, e⟩, mem_entries.mpr here, rfl, g, lives, d, member, process⟩, ?_, games⟩
    obtain ⟨at_pid, created, nonzero⟩ := process
    have fits : resumeMatches (.of e c.lastAt) d.pid d.startedAtMs = true := by
      have pids : e.pid = d.pid := (whole.single.own here).trans (own.symm.trans at_pid.symm)
      have times : e.startedAtMs = d.startedAtMs := stamp.trans created.symm
      exact (resumeMatches_iff _ _ _).mpr
        ⟨pids, fun none => nonzero (stamp.symm.trans none), fun none => nonzero (created.symm.trans none), times⟩
    have some : (resumed detected (.of e c.lastAt)).isSome = true := by
      unfold resumed
      rw [Option.isSome_map, List.find?_isSome]
      exact ⟨d, member, fits⟩
    obtain ⟨live, found⟩ := Option.isSome_iff_exists.mp some
    obtain ⟨sameId, sameTime, -, f, seen, at_live, game, start, time⟩ := resumed_some found
    have theirs : live.gameId = e.gameId := game.symm.trans (games f seen (at_live.trans (sameId.trans (whole.single.own here))))
    have positive' : 0 < e.startedAtMs := stamp ▸ positive
    refine ⟨live, found, theirs, ?_, fun later => start ▸ (stamped f seen (time ▸ later)).trans time⟩
    rw [← start, stamped f seen (time ▸ sameTime ▸ positive'), time, sameTime]
    exact (whole.stamped e.gameId e ((session_eq_some whole.single).mpr ⟨pid, here, rfl⟩) positive').symm
  · obtain ⟨short, strangers⟩ := unknown same
    refine .inr ⟨?_, ?_, short⟩
    · rintro ⟨⟨p, f⟩, there, games, h, also, d, member, process⟩
      obtain rfl := whole.single.one here (mem_entries.mp there) games.symm
      cases Option.some.inj (lives.symm.trans also)
      exact same ⟨d, member, process⟩
    · unfold resumed
      rw [Option.map_eq_none_iff, List.find?_eq_none]
      exact strangers

/-- The sessions after a restart, and the client that heard of them. -/
theorem recovered_good (rules : Rules) (firstKey : List String → Option String) (whole : Whole c log)
    (restored : Restored c (detect rules (fun _ => 0) scan).1) :
    Good (recover (detect rules (fun _ => 0) scan).1 c.store).1
        (feed firstKey {} (recover (detect rules (fun _ => 0) scan).1 c.store).2).1 log ∧
      Agree (look rules (fun _ => 0) scan).live (recover (detect rules (fun _ => 0) scan).1 c.store).1 ∧
      (∀ pid e, (recover (detect rules (fun _ => 0) scan).1 c.store).1.lookup pid = some e →
        (look rules (fun _ => 0) scan).live.lookup pid ≠ none) ∧
      ∀ gameId, spans gameId (feed firstKey {} (recover (detect rules (fun _ => 0) scan).1 c.store).2).2 = [] ∧
        ((∃ e live, session c.sensor.active gameId = some e ∧
            LivesOn c (detect rules (fun _ => 0) scan).1 gameId ∧
            session (recover (detect rules (fun _ => 0) scan).1 c.store).1 gameId = some live ∧ live.startedAt = e.startedAt) ∨
          (¬ LivesOn c (detect rules (fun _ => 0) scan).1 gameId ∧
            session (recover (detect rules (fun _ => 0) scan).1 c.store).1 gameId = none ∧
            ∀ e, session c.sensor.active gameId = some e → ¬ lasted e.startedAt c.lastAt)) := by
  have stamped : ∀ d ∈ (detect rules (fun _ => 0) scan).1, 0 < d.startedAtMs → d.startedAt = d.startedAtMs :=
    fun d member => (mem_detectGames (mem_detect member)).2.1
  have seen : ∀ p g, (look rules (fun _ => 0) scan).live.lookup p = some g → g ∈ (detect rules (fun _ => 0) scan).1 ∧ g.pid = p :=
    fun p g => look_live
  have known : ∀ d ∈ (detect rules (fun _ => 0) scan).1, (look rules (fun _ => 0) scan).live.lookup d.pid ≠ none :=
    fun d member => look_of_detected member
  generalize (detect rules (fun _ => 0) scan).1 = detected at *
  have each := fun (pid : ℕ) (e : ActiveGame) (here : c.sensor.active.lookup pid = some e) =>
    restored_cases whole restored stamped here
  obtain ⟨last, stored, time⟩ := whole.stored
  have record : ∀ {o}, o ∈ c.store ↔ ∃ pid e, c.sensor.active.lookup pid = some e ∧ o = .of e c.lastAt := by
    intro o
    rw [stored, mem_persist, time]
  have games : ∀ o ∈ c.store, ∀ live, resumed detected o = some live → live.gameId = o.gameId := by
    intro o member live found
    obtain ⟨pid, e, here, rfl⟩ := record.mp member
    rcases each pid e here with ⟨-, ⟨first, also, same, -⟩, -⟩ | ⟨-, none, -⟩
    · cases also.symm.trans found
      exact same
    · cases none.symm.trans found
  obtain ⟨single, entries, each_game⟩ := recover_spec (stored ▸ persist_apart whole.single last) games
  generalize recover detected c.store = acc at *
  have empty : Plain {} := ⟨rfl, rfl, nofun⟩
  obtain ⟨plain, fed⟩ := feed_spec firstKey empty acc.2
  -- what becomes of a game: its session goes on, or it has none
  have by_game : ∀ gameId,
      (∃ e live, session c.sensor.active gameId = some e ∧ LivesOn c detected gameId ∧ session acc.1 gameId = some live ∧
        live.startedAt = e.startedAt ∧ (0 < live.startedAtMs → live.startedAt = live.startedAtMs) ∧
        (since (feed firstKey {} acc.2).1 gameId, spans gameId (feed firstKey {} acc.2).2) = (some live.startedAt, [])) ∨
      (¬ LivesOn c detected gameId ∧ session acc.1 gameId = none ∧
        (∀ e, session c.sensor.active gameId = some e → ¬ lasted e.startedAt c.lastAt) ∧
        (since (feed firstKey {} acc.2).1 gameId, spans gameId (feed firstKey {} acc.2).2) = (none, [])) := by
    intro gameId
    obtain ⟨with_record, without⟩ := each_game gameId
    rw [fed gameId]
    cases before : session c.sensor.active gameId with
    | none =>
      have absent := (session_eq_none whole.single).mp before
      obtain ⟨closed, silent⟩ := without (by
        intro o member
        obtain ⟨pid, e, here, rfl⟩ := record.mp member
        exact absent pid e here)
      refine .inr ⟨?_, closed, nofun, ?_⟩
      · rintro ⟨x, member, same, -⟩
        exact absent x.1 x.2 (mem_entries.mp member) same
      · rw [silent]
        rfl
    | some e =>
      obtain ⟨pid, here, rfl⟩ := (session_eq_some whole.single).mp before
      obtain ⟨now, event⟩ := with_record (.of e c.lastAt) (record.mpr ⟨pid, e, here, rfl⟩) rfl
      rw [now, event, recovery]
      rcases each pid e here with ⟨lives, ⟨live, found, -, start, stamp⟩, -⟩ | ⟨gone, none, short⟩
      · rw [found]
        exact .inl ⟨e, live, rfl, lives, rfl, start, stamp, rfl⟩
      · rw [none]
        refine .inr ⟨gone, rfl, ?_, rfl⟩
        rintro f ⟨⟩
        exact short
  refine ⟨⟨single, plain, ?_, ?_, ?_, whole.apart⟩, ?_, ?_, ?_⟩
  · intro gameId
    rcases by_game gameId with ⟨e, live, -, -, found, -, -, both⟩ | ⟨-, found, -, both⟩
    · rw [found]
      exact congrArg Prod.fst both
    · rw [found]
      exact congrArg Prod.fst both
  · intro gameId f found
    rcases by_game gameId with ⟨e, live, -, -, also, -, stamp, -⟩ | ⟨-, closed, -⟩
    · cases also.symm.trans found
      exact stamp
    · cases closed.symm.trans found
  · intro gameId f found n member
    rcases by_game gameId with ⟨e, live, before, -, also, start, -⟩ | ⟨-, closed, -⟩
    · cases also.symm.trans found
      rw [start]
      exact whole.later gameId e before n member
    · cases closed.symm.trans found
  · intro p f g there lives
    obtain ⟨o, member, pid, found⟩ := entries p f there
    obtain ⟨q, e, here, rfl⟩ := record.mp member
    obtain ⟨listed, own⟩ := seen p g lives
    rcases each q e here with ⟨-, ⟨live, also, same, -⟩, theirs⟩ | ⟨-, none, -⟩
    · cases also.symm.trans found
      exact (theirs g listed (own.trans (pid.symm.trans (whole.single.own here)))).trans same.symm
    · cases none.symm.trans found
  · intro p e there
    obtain ⟨o, -, pid, found⟩ := entries p e there
    obtain ⟨own, -, -, d, member, same, -⟩ := resumed_some found
    rw [← pid, ← own, ← same]
    exact known d member
  · intro gameId
    rcases by_game gameId with ⟨e, live, before, lives, found, start, -, both⟩ | ⟨gone, closed, short, both⟩
    · exact ⟨congrArg Prod.snd both, .inl ⟨e, live, before, lives, found, start⟩⟩
    · exact ⟨congrArg Prod.snd both, .inr ⟨gone, closed, short⟩⟩

theorem nightsOf_none (now : ℤ) (after : Option ActiveGame) : nightsOf now none after = [] := by
  cases after with
  | none => rfl
  | some f => rfl

theorem tick_scan (stepped : tick rules firstKey c (.scan scan) = some (t, out)) :
    ∃ sensor events, scanOnce rules c.sensor scan = some (sensor, events) ∧
      t = { sensor, manager := (feed firstKey c.manager events).1, store := persist sensor.active scan,
            last := (look rules c.sensor.windowless scan).live, lastAt := scan.now } ∧
      out = (feed firstKey c.manager events).2 := by
  unfold tick at stepped
  obtain ⟨⟨sensor, events⟩, scanned, same⟩ := Option.map_eq_some_iff.mp stepped
  obtain ⟨state, summaries⟩ := Prod.mk.inj same
  exact ⟨sensor, events, scanned, state.symm, summaries.symm⟩

theorem tick_restart (stepped : tick rules firstKey c (.restart scan) = some (t, out)) :
    ∃ sensor events, scanOnce rules { active := (recover (detect rules (fun _ => 0) scan).1 c.store).1 } scan = some (sensor, events) ∧
      t = { sensor
            manager := (feed firstKey {} ((recover (detect rules (fun _ => 0) scan).1 c.store).2 ++ events)).1
            store := persist sensor.active scan
            last := (look rules (fun _ => 0) scan).live, lastAt := scan.now } ∧
      out = (feed firstKey {} ((recover (detect rules (fun _ => 0) scan).1 c.store).2 ++ events)).2 := by
  unfold tick at stepped
  obtain ⟨⟨sensor, events⟩, scanned, same⟩ := Option.map_eq_some_iff.mp stepped
  obtain ⟨state, summaries⟩ := Prod.mk.inj same
  exact ⟨sensor, events, scanned, state.symm, summaries.symm⟩

theorem scan_whole (whole : Whole c log) (met : Met rules (c, log) (.scan scan))
    (stepped : tick rules firstKey c (.scan scan) = some (t, out)) :
    Whole t (log ++ out) ∧ KeepsAll rules c (.scan scan) t out := by
  obtain ⟨agree, younger⟩ := met
  obtain ⟨sensor, events, scanned, rfl, rfl⟩ := tick_scan stepped
  obtain ⟨good, nights, starts⟩ := scan_good firstKey whole.toGood agree younger scanned
  refine ⟨⟨good, ⟨scan, rfl, rfl⟩, ?_⟩, fun gameId => ⟨?_, ?_, ?_⟩⟩
  · intro pid e here
    obtain ⟨g, lives, -⟩ := ((scanOnce_scanned whole.single agree scanned).live here).1
    exact ⟨g, lives, (look_live lives).2⟩
  · intro e before goesOn
    obtain ⟨f, after⟩ := Option.ne_none_iff_exists'.mp goesOn
    refine ⟨?_, f, after, starts gameId e f before after⟩
    rw [nights gameId, before, after]
    rfl
  · intro e before ended
    have after := not_not.mp ended
    rw [nights gameId, before, after]
    rfl
  · intro before
    rw [nights gameId, before, nightsOf_none]

theorem restart_whole (whole : Whole c log) (met : Met rules (c, log) (.restart scan))
    (stepped : tick rules firstKey c (.restart scan) = some (t, out)) :
    Whole t (log ++ out) ∧ KeepsAll rules c (.restart scan) t out := by
  obtain ⟨restored, younger⟩ := met
  obtain ⟨recovered, agree, alive, by_game⟩ := recovered_good rules firstKey whole restored
  obtain ⟨sensor, events, scanned, rfl, rfl⟩ := tick_restart stepped
  obtain ⟨good, nights, starts⟩ := scan_good firstKey recovered agree (by
    intro x member opener closed
    rcases (by_game x.2.gameId).2 with ⟨e, live, -, -, found, -⟩ | ⟨gone, -⟩
    · cases closed.symm.trans found
    · exact younger x member opener gone) scanned
  have scans := scanOnce_scanned recovered.single agree scanned
  generalize recover (detect rules (fun _ => 0) scan).1 c.store = acc at *
  have joined := feed_append firstKey {} acc.2 events
  have all : ∀ gameId, spans gameId (feed firstKey {} (acc.2 ++ events)).2 =
      nightsOf scan.now (session acc.1 gameId) (session sensor.active gameId) := by
    intro gameId
    rw [joined, spans_append, (by_game gameId).1, List.nil_append, nights gameId]
  have same : ∀ gameId, spans gameId (log ++ (feed firstKey {} (acc.2 ++ events)).2) =
      spans gameId (log ++ (feed firstKey (feed firstKey {} acc.2).1 events).2) := by
    intro gameId
    rw [spans_append, spans_append, all gameId, nights gameId]
  refine ⟨⟨⟨good.single, ?_, ?_, good.stamped, ?_, ?_⟩, ⟨scan, rfl, rfl⟩, ?_⟩, fun gameId => ⟨?_, ?_, ?_⟩⟩
  · rw [joined]
    exact good.plain
  · rw [joined]
    exact good.linked
  · intro gameId e found n member
    rw [same] at member
    exact good.later gameId e found n member
  · intro gameId
    rw [same]
    exact good.apart gameId
  · intro pid e here
    obtain ⟨g, lives, -⟩ := (scans.live here).1
    exact ⟨g, lives, (look_live lives).2⟩
  · intro e before goesOn
    rcases (by_game gameId).2 with ⟨f, live, also, -, found, start⟩ | ⟨gone, -⟩
    · cases before.symm.trans also
      obtain ⟨pid, here, mine⟩ := (session_eq_some recovered.single).mp found
      obtain ⟨g, after⟩ := Option.ne_none_iff_exists'.mp (scans.stays here (alive pid live here))
      rw [mine] at after
      refine ⟨?_, g, after, (starts gameId live g found after).trans start⟩
      rw [all gameId, found, after]
      rfl
    · exact absurd goesOn gone
  · intro e before ended
    rcases (by_game gameId).2 with ⟨-, -, -, lives, -⟩ | ⟨-, closed, short⟩
    · exact absurd lives ended
    · rw [all gameId, closed, nightsOf_none]
      exact (if_neg (short e before)).symm
  · intro before
    rcases (by_game gameId).2 with ⟨e, -, also, -⟩ | ⟨-, closed, -⟩
    · cases before.symm.trans also
    · rw [all gameId, closed, nightsOf_none]

theorem tick_whole {input : Tick} (whole : Whole c log) (met : Met rules (c, log) input)
    (stepped : tick rules firstKey c input = some (t, out)) : Whole t (log ++ out) ∧ KeepsAll rules c input t out := by
  cases input with
  | scan scan => exact scan_whole whole met stepped
  | restart scan => exact restart_whole whole met stepped

/-- The next summary of a session that is open has the start of the session. -/
theorem nextNight_of_whole {ticks : List Tick} {gameId : String} {e : ActiveGame} (whole : Whole c log)
    (all : EachStep (logged (tick rules firstKey)) (Met rules) (c, log) ticks) (open_ : session c.sensor.active gameId = some e) :
    NextNight rules firstKey gameId e.startedAt c ticks := by
  induction ticks generalizing c log e with
  | nil => trivial
  | cons input rest ih =>
    intro t out stepped
    obtain ⟨met, later⟩ := all (t, log ++ out) (logged_eq_some.mpr ⟨out, stepped, rfl⟩)
    obtain ⟨next, keeps⟩ := tick_whole whole met stepped
    refine ⟨fun goesOn => ?_, (keeps gameId).ends e open_⟩
    obtain ⟨silent, f, after, same⟩ := (keeps gameId).on e open_ goesOn
    exact ⟨silent, same ▸ ih next later after⟩

end Restart

/-! ## Runs -/

/-- Where the scans leave the sessions with their processes and a restart restores them, no
night is lost or in the ledger twice. -/
theorem nights_kept (rules : Rules) (firstKey : List String → Option String) (ticks : List Tick)
    (met : EachStep (logged (tick rules firstKey)) (Met rules) ({}, []) ticks) :
    EachStep (logged (tick rules firstKey)) (fun s input => ∃ t out, tick rules firstKey s.1 input = some (t, out) ∧
        KeepsAll rules s.1 input t out) ({}, []) ticks ∧
      Always (logged (tick rules firstKey)) Booked ({}, []) ticks ∧
      ∀ front back, ticks = front ++ back → ∀ c log, run (logged (tick rules firstKey)) ({}, []) front = some (c, log) →
        ∀ gameId e, session c.sensor.active gameId = some e → NextNight rules firstKey gameId e.startedAt c back := by
  have step : ∀ s input t, Whole s.1 s.2 → Met rules s input → logged (tick rules firstKey) s input = some t →
      (∃ t out, tick rules firstKey s.1 input = some (t, out) ∧ KeepsAll rules s.1 input t out) ∧ Whole t.1 t.2 := by
    rintro ⟨c, log⟩ input ⟨t, after⟩ whole holds moved
    obtain ⟨out, stepped, rfl⟩ := logged_eq_some.mp moved
    obtain ⟨next, keeps⟩ := tick_whole whole holds stepped
    exact ⟨⟨t, out, stepped, keeps⟩, next⟩
  have start : Whole {} [] := by
    have none : ∀ gameId e, session (∅ : Games) gameId ≠ some e := fun gameId e => nofun
    have good : Good ∅ {} [] :=
      ⟨⟨nofun, nofun⟩, ⟨rfl, rfl, nofun⟩, fun gameId => rfl, fun gameId e found => absurd found (none gameId e),
        fun gameId e found => absurd found (none gameId e), fun gameId => .nil⟩
    exact ⟨good, ⟨⟨[], fun _ => .none, 0, 0, id, List.Perm.refl⟩, rfl, rfl⟩, nofun⟩
  refine ⟨met.imp _ step start, ?_, ?_⟩
  · have kept := always_of_eachStep (fun s input t good met stepped => (step s input t good met stepped).2) start ticks met
    exact kept.imp fun s whole => ⟨whole.linked, whole.apart⟩
  · rintro front back rfl c log ran gameId e open_
    have kept := always_of_eachStep (fun s input t good met stepped => (step s input t good met stepped).2) start _ met
    exact nextNight_of_whole (kept.reached ran) (met.back ran) open_

/-- A session over a restart of the client, until its process is gone. -/
theorem restart_kept :
    EachStep (logged (tick windowRules List.head?)) (fun s input => ∃ t out, tick windowRules List.head? s.1 input = some (t, out) ∧
        KeepsAll windowRules s.1 input t out) ({}, [])
        [.scan (scanOf [window 1 false] 0), .restart (scanOf [window 1 false] 10000), .scan (scanOf [] 600000)] ∧
      Always (logged (tick windowRules List.head?)) Booked ({}, [])
        [.scan (scanOf [window 1 false] 0), .restart (scanOf [window 1 false] 10000), .scan (scanOf [] 600000)] ∧
      ∀ front back,
        [.scan (scanOf [window 1 false] 0), .restart (scanOf [window 1 false] 10000), .scan (scanOf [] 600000)] = front ++ back →
        ∀ c log, run (logged (tick windowRules List.head?)) ({}, []) front = some (c, log) →
          ∀ gameId e, session c.sensor.active gameId = some e → NextNight windowRules List.head? gameId e.startedAt c back := by
  refine nights_kept windowRules List.head? _ ?_
  refine .cons rfl ⟨?_, ?_⟩ (.cons rfl ⟨?_, ?_⟩ (.cons rfl ⟨?_, ?_⟩ trivial))
  · decide
  · decide
  · simp (disch := decide) only [coalesceStarts, newcomers, mergeSort_short]
    decide
  · simp (disch := decide) only [coalesceStarts, newcomers, mergeSort_short]
    decide
  · simp (disch := decide) only [coalesceStarts, newcomers, mergeSort_short]
    decide
  · simp (disch := decide) only [coalesceStarts, newcomers, mergeSort_short]
    decide

/-- The game exits with the client, after ten minutes. The closed session comes to a client that
never opened it, and the night is lost. -/
theorem orphan_lost :
    ¬ ∀ rules firstKey ticks, EachStep (logged (tick rules firstKey)) (fun s input =>
      ∃ t out, tick rules firstKey s.1 input = some (t, out) ∧ KeepsAll rules s.1 input t out) ({}, []) ticks := by
  intro all
  have run := all windowRules List.head? [.scan (scanOf [window 1 false] 0), .scan (scanOf [window 1 false] 600000),
    .restart (scanOf [] 700000)]
  obtain ⟨-, first⟩ := run _ rfl
  obtain ⟨-, second⟩ := first _ rfl
  obtain ⟨⟨t, out, stepped, keeps⟩, -⟩ := second _ rfl
  have kept := keeps "game"
  have nothing : spans "game" out = [] := by
    cases stepped
    simp (disch := decide) only [coalesceStarts, newcomers, pickPrimary, mergeSort_short]
    decide
  have gone := kept.ends ⟨"game", "game.exe", 1, 1, 1, 10000⟩ (by
    simp (disch := decide) only [coalesceStarts, newcomers, mergeSort_short]
    decide) (by
    change ¬ LivesOn _ _ _
    simp (disch := decide) only [coalesceStarts, newcomers, mergeSort_short]
    decide)
  rw [nothing] at gone
  cases gone

end Mello.Core.GameNights
