import Mello.Library.Keyed

/-!
The scan loop of the game sensor. Each scan resolves the processes to games, opens a
session for a game whose first process shows up, closes it with its last one, and moves
it from one process of the game to another in between.
-/

namespace Mello.Core.GameSensing
open Mello.Library Keyed

/-! ## The processes -/

structure RawGameProcess where
  pid : ℕ
  exe : String
  isFullscreen : Bool
  /-- The trimmed window title is not empty. -/
  titled : Bool
  isForeground : Bool
  /-- 0 when it could not be read. -/
  startedAtMs : ℤ
  isMinimized : Bool
  deriving DecidableEq, Repr

structure ActiveGame where
  gameId : String
  exe : String
  pid : ℕ
  startedAt : ℤ
  startedAtMs : ℤ
  foregroundMs : ℤ
  deriving DecidableEq, Repr

inductive GameEvent where
  | started (game : ActiveGame)
  | stopped (game : ActiveGame) (endedAt : ℤ)
  | primaryChanged (gameId : Option String)
  | foreground (gameId : String) (foregroundMs : ℤ)
  deriving DecidableEq, Repr

/-- What does not change over a run: which executables stand in for a game, and whether
the window decides on its session. -/
structure Rules where
  isAuxiliaryBinary : String → Bool
  windowEndsSession : Bool

/-- One scan: the process table, what each process resolves to, the clocks, and the order
in which a map of pids is iterated. -/
structure Scan where
  processes : List RawGameProcess
  resolve : RawGameProcess → Option String
  now : ℤ
  elapsedMs : ℤ
  order : List ℕ → List ℕ
  perm : ∀ pids, (order pids).Perm pids

def WINDOWLESS_GRACE_SCANS : ℕ := 2

def detectGames (scan : Scan) : List ActiveGame :=
  scan.processes.filterMap fun p => (scan.resolve p).map fun gameId =>
    { gameId
      exe := p.exe
      pid := p.pid
      startedAt := if 0 < p.startedAtMs then p.startedAtMs else scan.now
      startedAtMs := p.startedAtMs
      foregroundMs := 0 }

/-- The games with a window, or without one for a few scans. The counts are 0 where
there is none. -/
def dropWindowless (detected : List ActiveGame) (processes : List RawGameProcess) (seen : ℕ → ℕ) :
    List ActiveGame × (ℕ → ℕ) :=
  let (kept, seen) := detected.foldl
    (fun (kept, seen) game =>
      if (processes.find? (·.pid = game.pid)).any (·.titled) then (kept ++ [game], Function.update seen game.pid 0)
      else
        let misses := seen game.pid + 1
        (if misses ≤ WINDOWLESS_GRACE_SCANS then kept ++ [game] else kept, Function.update seen game.pid misses))
    ([], seen)
  (kept, fun pid => if pid ∈ detected.map (·.pid) then seen pid else 0)

def startablePids (detected : List ActiveGame) (processes : List RawGameProcess) : List ℕ :=
  (detected.filter fun g => (processes.find? (·.pid = g.pid)).any fun p => p.titled && !p.isMinimized).map (·.pid)

/-! ## The sessions -/

abbrev Games := Table ℕ ActiveGame

structure Sensor where
  active : Games := ∅
  shadow : Finset ℕ := ∅
  windowless : ℕ → ℕ := fun _ => 0
  primary : Option ℕ := none

section Representatives

variable (rules : Rules)

def representativePid (active : Games) (gameId : String) : Option ℕ :=
  (active.entries.find? fun e => e.2.gameId = gameId).map (·.1)

def representativeRank (game : ActiveGame) : ℕ ×ₗ ℕ := toLex (if rules.isAuxiliaryBinary game.exe then 1 else 0, game.pid)

def shouldUpgradeRepresentative (rep candidate : ActiveGame) : Bool :=
  rules.isAuxiliaryBinary rep.exe && !rules.isAuxiliaryBinary candidate.exe

/-- A process takes over a session. -/
def takeOver (session candidate : ActiveGame) : ActiveGame :=
  { candidate with
    foregroundMs := session.foregroundMs
    startedAt := session.startedAt
    startedAtMs := session.startedAtMs }

def upgradeRepresentative (active : Games) (shadow : Finset ℕ) (oldPid newPid : ℕ) (candidate : ActiveGame) : Games × Finset ℕ :=
  match active.lookup oldPid with
  | some old => ((active.erase oldPid).insert newPid (takeOver old candidate), insert oldPid shadow)
  | none => (active.insert newPid candidate, shadow)

structure Starts where
  active : Games
  shadow : Finset ℕ
  opened : Finset String := ∅
  events : List GameEvent := []
  changed : Bool := false

def startOne (s : Starts) (pid : ℕ) (game : ActiveGame) : Starts :=
  match representativePid s.active game.gameId with
  | some repPid =>
    match s.active.lookup repPid with
    | some rep =>
      if shouldUpgradeRepresentative rules rep game then
        let (active, shadow) := upgradeRepresentative s.active s.shadow repPid pid game
        { s with active, shadow }
      else { s with shadow := insert pid s.shadow }
    -- `expect`: the representative exists
    | none => s
  | none =>
    if game.gameId ∈ s.opened then { s with shadow := insert pid s.shadow }
    else
      { active := s.active.insert pid game
        shadow := s.shadow
        opened := insert game.gameId s.opened
        events := s.events ++ [.started game]
        changed := true }

def newcomers (active : Games) (shadow : Finset ℕ) (live : Games) (startable : List ℕ) : List (Sigma fun _ : ℕ => ActiveGame) :=
  (live.entries.filter fun e => (active.lookup e.1).isNone && e.1 ∉ shadow && e.1 ∈ startable).mergeSort
    fun a b => representativeRank rules a.2 ≤ representativeRank rules b.2

def coalesceStarts (active : Games) (shadow : Finset ℕ) (live : Games) (startable : List ℕ) : Starts :=
  (newcomers rules active shadow live startable).foldl (fun s e => startOne rules s e.1 e.2) { active, shadow }

structure Stops where
  active : Games
  shadow : Finset ℕ
  primary : Option ℕ
  events : List GameEvent := []
  changed : Bool := false

/-- The process that a session goes on with when its own is gone. -/
def heir (live : Games) (startable : List ℕ) (gameId : String) : Option (Sigma fun _ : ℕ => ActiveGame) :=
  (live.entries.filter fun e => e.2.gameId = gameId && e.1 ∈ startable).argmin fun e => representativeRank rules e.2

def stopOne (live : Games) (startable : List ℕ) (scan : Scan) (s : Stops) (repPid : ℕ) : Stops :=
  match s.active.lookup repPid with
  | none => s
  | some session =>
    let active := s.active.erase repPid
    match heir rules live startable session.gameId with
    | some ⟨newPid, game⟩ =>
      { s with
        active := active.insert newPid (takeOver session game)
        shadow := s.shadow.erase newPid
        primary := if s.primary = some repPid then some newPid else s.primary }
    | none =>
      { active
        shadow := s.shadow
        primary := if s.primary = some repPid then (scan.order active.keys).head? else s.primary
        events := s.events ++ [.stopped session scan.now]
        changed := true }

def coalesceStops (active : Games) (shadow : Finset ℕ) (live : Games) (startable : List ℕ) (scan : Scan)
    (primary : Option ℕ) : Stops :=
  ((scan.order active.keys).filter fun pid => (live.lookup pid).isNone).foldl (stopOne rules live startable scan)
    { active, shadow := shadow.filter fun pid => (live.lookup pid).isSome, primary }

end Representatives

/-! ## The scan -/

def accumulateForegroundMs (carriedMs : ℤ) (isForeground : Bool) (elapsedMs : ℤ) : ℤ :=
  carriedMs + if isForeground then elapsedMs else 0

def anyForegroundForGame (gameId : String) (live : Games) (processes : List RawGameProcess) : Bool :=
  (live.entries.filter fun e => e.2.gameId = gameId).any fun e =>
    processes.any fun p => p.pid = e.1 && (p.isForeground || p.isFullscreen)

def accumulate (live : Games) (scan : Scan) (session : ActiveGame) : ActiveGame :=
  { session with
    foregroundMs :=
      accumulateForegroundMs session.foregroundMs (anyForegroundForGame session.gameId live scan.processes) scan.elapsedMs }

/-- The focused game, else a fullscreen one. -/
def primaryTier (processes : List RawGameProcess) (pid : ℕ) : ℕ :=
  match processes.find? fun p => p.pid = pid with
  | some p => if p.isForeground then 0 else if p.isFullscreen then 1 else 2
  | none => 2

/-- The lower tier, then the longest running, then the lower pid. -/
def primaryRank (active : Games) (processes : List RawGameProcess) (pid : ℕ) : ℕ × ℤ × ℕ :=
  (primaryTier processes pid, ((active.lookup pid).map fun g => g.startedAt).getD 0, pid)

def primaryLe (a b : ℕ × ℤ × ℕ) : Bool :=
  a.1 < b.1 ∨ a.1 = b.1 ∧ (a.2.1 < b.2.1 ∨ a.2.1 = b.2.1 ∧ a.2.2 ≤ b.2.2)

def pickPrimary (active : Games) (scan : Scan) : Option ℕ :=
  ((scan.order active.keys).mergeSort fun a b =>
    primaryLe (primaryRank active scan.processes a) (primaryRank active scan.processes b)).head?

def detect (rules : Rules) (windowless : ℕ → ℕ) (scan : Scan) : List ActiveGame × (ℕ → ℕ) :=
  if rules.windowEndsSession then dropWindowless (detectGames scan) scan.processes windowless else (detectGames scan, windowless)

/-- The games of a scan, its counts of windowless scans, and the pids that may open a session. -/
structure Seen where
  live : Games
  windowless : ℕ → ℕ
  startable : List ℕ

def look (rules : Rules) (windowless : ℕ → ℕ) (scan : Scan) : Seen :=
  let (detected, windowless) := detect rules windowless scan
  { live := detected.foldl (fun live g => live.insert g.pid g) ∅
    windowless
    startable := if rules.windowEndsSession then startablePids detected scan.processes else detected.map (·.pid) }

def scanOnce (rules : Rules) (s : Sensor) (scan : Scan) : Option (Sensor × List GameEvent) :=
  let seen := look rules s.windowless scan
  let starts := coalesceStarts rules s.active s.shadow seen.live seen.startable
  let stops := coalesceStops rules starts.active starts.shadow seen.live seen.startable scan s.primary
  let active := mapValues (accumulate seen.live scan) stops.active
  let grew := active.entries.filterMap fun e =>
    if (stops.active.lookup e.1).map (·.foregroundMs) = some e.2.foregroundMs then none
    else some (.foreground e.2.gameId e.2.foregroundMs)
  let primary := pickPrimary active scan
  let moved :=
    if primary = stops.primary then []
    else [.primaryChanged (primary.bind fun pid => (active.lookup pid).map (·.gameId))]
  some ({ active, shadow := stops.shadow, windowless := seen.windowless, primary },
    starts.events ++ stops.events ++ grew ++ moved)

end Mello.Core.GameSensing
