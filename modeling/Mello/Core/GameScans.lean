import Mello.Core.GameSessions

/-!
The scans of the sensor in a row. After each the games that run have one session each, as
long as no pid of a session goes to another game, and no process that hides behind a
session outlives it.
-/

namespace Mello.Core.GameSensing
open Mello.Library Keyed Runs

/-! ## One scan -/

section Looks

variable {rules : Rules} {windowless : ℕ → ℕ} {scan : Scan} {pid : ℕ} {g : ActiveGame}

theorem mem_detectGames (member : g ∈ detectGames scan) :
    g.foregroundMs = 0 ∧ (0 < g.startedAtMs → g.startedAt = g.startedAtMs) ∧
      ∃ p ∈ scan.processes, p.pid = g.pid ∧ scan.resolve p = some g.gameId := by
  obtain ⟨p, here, found⟩ := List.mem_filterMap.mp member
  obtain ⟨gameId, resolved, rfl⟩ := Option.map_eq_some_iff.mp found
  exact ⟨rfl, fun known => if_pos known, p, here, rfl, resolved⟩

theorem mem_dropWindowless {detected : List ActiveGame} {processes : List RawGameProcess} {seen : ℕ → ℕ}
    (member : g ∈ (dropWindowless detected processes seen).1) : g ∈ detected := by
  revert member
  generalize g = game
  revert game
  unfold dropWindowless
  refine List.foldlRecOn (motive := fun acc : List ActiveGame × (ℕ → ℕ) => ∀ g ∈ acc.1, g ∈ detected) detected _
    (fun _ member => absurd member List.not_mem_nil) ?_
  rintro ⟨kept, seen⟩ earlier game here g member
  dsimp only at member
  have old_or_new : g ∈ kept ∨ g = game := by
    split_ifs at member
    · exact (List.mem_append.mp member).imp_right List.mem_singleton.mp
    · exact (List.mem_append.mp member).imp_right List.mem_singleton.mp
    · exact .inl member
  rcases old_or_new with old | rfl
  · exact earlier g old
  · exact here

theorem foldl_insert_cases {detected : List ActiveGame} {table : Games}
    (found : (detected.foldl (fun live g => live.insert g.pid g) table).lookup pid = some g) :
    table.lookup pid = some g ∨ (g ∈ detected ∧ g.pid = pid) := by
  induction detected generalizing table with
  | nil => exact .inl found
  | cons first rest ih =>
    rcases ih found with here | ⟨later, own⟩
    · rcases insert_cases here with ⟨rfl, rfl⟩ | old
      · exact .inr ⟨List.mem_cons_self, rfl⟩
      · exact .inl old
    · exact .inr ⟨List.mem_cons_of_mem _ later, own⟩

theorem mem_detect (member : g ∈ (detect rules windowless scan).1) : g ∈ detectGames scan := by
  unfold detect at member
  split_ifs at member
  · exact mem_dropWindowless member
  · exact member

theorem foldl_insert_ne_none {detected : List ActiveGame} {table : Games}
    (was : table.lookup pid ≠ none ∨ ∃ g ∈ detected, g.pid = pid) :
    (detected.foldl (fun live g => live.insert g.pid g) table).lookup pid ≠ none := by
  induction detected generalizing table with
  | nil =>
    refine was.resolve_right ?_
    rintro ⟨g, member, -⟩
    cases member
  | cons first rest ih =>
    refine ih ?_
    rcases eq_or_ne pid first.pid with rfl | apart
    · rw [AList.lookup_insert]
      exact .inl (Option.some_ne_none first)
    · rw [AList.lookup_insert_ne apart]
      refine was.imp_right ?_
      rintro ⟨g, member, same⟩
      rcases List.mem_cons.mp member with rfl | later
      · exact absurd same.symm apart
      · exact ⟨g, later, same⟩

/-- A live game is one of the detected, under its own pid. -/
theorem look_live (here : (look rules windowless scan).live.lookup pid = some g) :
    g ∈ (detect rules windowless scan).1 ∧ g.pid = pid := by
  unfold look at here
  rcases foldl_insert_cases here with none | found
  · cases none
  · exact found

theorem look_of_detected (member : g ∈ (detect rules windowless scan).1) :
    (look rules windowless scan).live.lookup g.pid ≠ none := foldl_insert_ne_none (.inr ⟨g, member, rfl⟩)

end Looks

/-- The player looks at a process of the game. -/
def InFront (live : Games) (processes : List RawGameProcess) (gameId : String) : Prop :=
  ∃ pid g, live.lookup pid = some g ∧ g.gameId = gameId ∧ ∃ p ∈ processes, p.pid = pid ∧ (p.isForeground ∨ p.isFullscreen)

/-- The same session, with more time in the foreground. -/
structure Grown (gain : ℤ) (e after : ActiveGame) : Prop where
  gameId : after.gameId = e.gameId
  startedAt : after.startedAt = e.startedAt
  startedAtMs : after.startedAtMs = e.startedAtMs
  foregroundMs : after.foregroundMs = e.foregroundMs + gain

/-- What a scan does to the session of a game, with its events about it. -/
inductive Turn (gain now : ℤ) : Option ActiveGame → List GameEvent → Option ActiveGame → Prop where
  | none : Turn gain now none [] none
  | opens {g e : ActiveGame} (new : g.foregroundMs = 0) (grown : Grown gain g e) : Turn gain now none [.started g] (some e)
  | keeps {e after : ActiveGame} (grown : Grown gain e after) : Turn gain now (some e) [] (some after)
  | closes {e after : ActiveGame} (carried : Carried e after) : Turn gain now (some e) [.stopped after now] none

section Growth

variable {active live : Games} {scan : Scan} {gameId : String} {f : ActiveGame → ActiveGame}

theorem anyForegroundForGame_iff (gameId : String) (live : Games) (processes : List RawGameProcess) :
    anyForegroundForGame gameId live processes = true ↔ InFront live processes gameId := by
  unfold anyForegroundForGame InFront
  rw [List.any_eq_true]
  constructor
  · rintro ⟨⟨pid, g⟩, member, front⟩
    obtain ⟨here, same⟩ := List.mem_filter.mp member
    obtain ⟨p, found, looks⟩ := List.any_eq_true.mp front
    obtain ⟨own, seen⟩ := Bool.and_eq_true_iff.mp looks
    exact ⟨pid, g, mem_entries.mp here, of_decide_eq_true same, p, found, of_decide_eq_true own, Bool.or_eq_true_iff.mp seen⟩
  · rintro ⟨pid, g, here, same, p, found, own, seen⟩
    refine ⟨⟨pid, g⟩, List.mem_filter.mpr ⟨mem_entries.mpr here, decide_eq_true same⟩, List.any_eq_true.mpr ⟨p, found, ?_⟩⟩
    exact Bool.and_eq_true_iff.mpr ⟨decide_eq_true own, Bool.or_eq_true_iff.mpr seen⟩

theorem Single.mapValues (single : Single active) (own : ∀ e, (f e).pid = e.pid) (same : ∀ e, (f e).gameId = e.gameId) :
    Single (mapValues f active) ∧ ∀ gameId, session (Keyed.mapValues f active) gameId = (session active gameId).map f := by
  have back : ∀ {p after}, (Keyed.mapValues f active).lookup p = some after → ∃ e, active.lookup p = some e ∧ f e = after := by
    intro p after found
    rw [lookup_mapValues] at found
    exact Option.map_eq_some_iff.mp found
  have next : Single (Keyed.mapValues f active) := by
    constructor
    · intro p after found
      obtain ⟨e, here, rfl⟩ := back found
      exact (own e).trans (single.own here)
    · intro p q after later first second games
      obtain ⟨e, here, rfl⟩ := back first
      obtain ⟨g, there, rfl⟩ := back second
      exact single.one here there ((same e).symm.trans (games.trans (same g)))
  refine ⟨next, fun gameId => ?_⟩
  ext after
  rw [session_eq_some next, Option.map_eq_some_iff]
  constructor
  · rintro ⟨p, found, games⟩
    obtain ⟨e, here, rfl⟩ := back found
    exact ⟨e, (session_eq_some single).mpr ⟨p, here, (same e).symm.trans games⟩, rfl⟩
  · rintro ⟨e, found, rfl⟩
    obtain ⟨p, here, games⟩ := (session_eq_some single).mp found
    refine ⟨p, ?_, (same e).trans games⟩
    rw [lookup_mapValues, here, Option.map_some]

theorem accumulate_gain (live : Games) (scan : Scan) (gameId : String) :
    ∃ gain, (InFront live scan.processes gameId → gain = scan.elapsedMs) ∧ (¬ InFront live scan.processes gameId → gain = 0) ∧
      ∀ e, e.gameId = gameId → Grown gain e (accumulate live scan e) := by
  by_cases front : InFront live scan.processes gameId
  · refine ⟨scan.elapsedMs, fun _ => rfl, fun behind => absurd front behind, ?_⟩
    rintro e rfl
    have seen := (anyForegroundForGame_iff e.gameId live scan.processes).mpr front
    refine ⟨rfl, rfl, rfl, ?_⟩
    rw [accumulate, accumulateForegroundMs, if_pos seen]
  · refine ⟨0, fun seen => absurd seen front, fun _ => rfl, ?_⟩
    rintro e rfl
    have behind : ¬ anyForegroundForGame e.gameId live scan.processes = true :=
      fun seen => front ((anyForegroundForGame_iff e.gameId live scan.processes).mp seen)
    refine ⟨rfl, rfl, rfl, ?_⟩
    rw [accumulate, accumulateForegroundMs, if_neg behind]

end Growth

/-- The pid of a session is still of its game, and where a process may open a session, its game
has one or a process of the game that no session hides. -/
def Followed (seen : Seen) (s : Sensor) : Prop :=
  Agree seen.live s.active ∧ ∀ pid ∈ seen.startable, ∀ g, seen.live.lookup pid = some g →
    session s.active g.gameId ≠ none ∨
      ∃ other ∈ seen.startable, other ∉ s.shadow ∧ ∃ h, seen.live.lookup other = some h ∧ h.gameId = g.gameId

theorem followed_iff (seen : Seen) (s : Sensor) :
    Followed seen s ↔ Agree seen.live s.active ∧
      ∀ g ∈ seen.live.entries, g.1 ∈ seen.startable → session s.active g.2.gameId ≠ none ∨
        ∃ h ∈ seen.live.entries, h.1 ∈ seen.startable ∧ h.1 ∉ s.shadow ∧ h.2.gameId = g.2.gameId := by
  constructor
  · rintro ⟨agree, served⟩
    refine ⟨agree, fun g lives start => (served g.1 start g.2 (mem_entries.mp lives)).imp_right ?_⟩
    rintro ⟨other, ready, out, h, there, same⟩
    exact ⟨⟨other, h⟩, mem_entries.mpr there, ready, out, same⟩
  · rintro ⟨agree, served⟩
    refine ⟨agree, fun pid start g lives => (served ⟨pid, g⟩ (mem_entries.mpr lives) start).imp_right ?_⟩
    rintro ⟨h, there, ready, out, same⟩
    exact ⟨h.1, ready, out, h.2, mem_entries.mp there, same⟩

instance (seen : Seen) (s : Sensor) : Decidable (Followed seen s) := decidable_of_iff _ (followed_iff seen s).symm

/-- One session for each game that runs, and one turn of it a scan. -/
structure Right (seen : Seen) (s : Sensor) (scan : Scan) (t : Sensor) (events : List GameEvent) : Prop where
  one : ∀ {pid other e f}, t.active.lookup pid = some e → t.active.lookup other = some f → e.gameId = f.gameId → pid = other
  live : ∀ {pid e}, t.active.lookup pid = some e → (∃ g, seen.live.lookup pid = some g ∧ g.gameId = e.gameId) ∧
    ∃ p ∈ scan.processes, p.pid = pid ∧ scan.resolve p = some e.gameId
  covered : ∀ {pid g}, pid ∈ seen.startable → seen.live.lookup pid = some g →
    ∃ other e, t.active.lookup other = some e ∧ e.gameId = g.gameId
  turn : ∀ gameId, ∃ gain, (InFront seen.live scan.processes gameId → gain = scan.elapsedMs) ∧
    (¬ InFront seen.live scan.processes gameId → gain = 0) ∧
      Turn gain scan.now (session s.active gameId) (events.filter (about gameId)) (session t.active gameId)

theorem turn_of_parts {gain now : ℤ} {a b c : Option ActiveGame} {x y : List GameEvent} {f : ActiveGame → ActiveGame}
    (opening : Opening a x b) (closing : Closing now b y c) (new : ∀ g, .started g ∈ x → g.foregroundMs = 0)
    (lives : a = none → b ≠ none → c ≠ none) (grows : ∀ e, c = some e → Grown gain e (f e)) :
    Turn gain now a (x ++ y) (c.map f) := by
  have longer : ∀ {e after}, Carried e after → c = some after → Grown gain e (f after) := by
    intro e after carried last
    have grown := grows after last
    exact ⟨grown.gameId.trans carried.gameId, grown.startedAt.trans carried.startedAt,
      grown.startedAtMs.trans carried.startedAtMs, by rw [grown.foregroundMs, carried.foregroundMs]⟩
  cases opening with
  | none =>
    cases closing with
    | none => exact .none
  | opens carried =>
    cases closing with
    | keeps later => exact .opens (new _ List.mem_cons_self) (longer (carried.trans later) rfl)
    | closes later => exact absurd rfl (lives rfl nofun)
  | keeps carried =>
    cases closing with
    | keeps later => exact .keeps (longer (carried.trans later) rfl)
    | closes later => exact .closes (carried.trans later)

/-- The foreground totals and the primary game are about no open or close. -/
theorem filter_about (gameId : String) (starts stops : List GameEvent) (active stopped : Games) (same : Prop) [Decidable same]
    (name : Option String) :
    (starts ++ stops ++ active.entries.filterMap (fun e : Sigma fun _ : ℕ => ActiveGame =>
        if (stopped.lookup e.1).map (fun g => g.foregroundMs) = some e.2.foregroundMs then none
        else some (GameEvent.foreground e.2.gameId e.2.foregroundMs)) ++
        if same then [] else [GameEvent.primaryChanged name]).filter (about gameId) =
      starts.filter (about gameId) ++ stops.filter (about gameId) := by
  rw [List.filter_append, List.filter_append, List.filter_append, List.append_assoc, List.append_assoc]
  congr 1
  refine (congrArg _ (List.append_eq_nil_iff.mpr ⟨?_, ?_⟩)).trans (List.append_nil _)
  · refine List.filter_eq_nil_iff.mpr fun event member => ?_
    obtain ⟨e, -, found⟩ := List.mem_filterMap.mp member
    split_ifs at found
    cases found
    exact Bool.false_ne_true
  · split_ifs
    · rfl
    · rfl

section Scans

variable {rules : Rules} {s t : Sensor} {scan : Scan} {events log : List GameEvent}

/-- What a scan does where the pids of the sessions stay with their games. -/
structure Scanned (rules : Rules) (seen : Seen) (s : Sensor) (scan : Scan) (t : Sensor) (events : List GameEvent) : Prop where
  single : Single t.active
  live : ∀ {pid e}, t.active.lookup pid = some e → (∃ g, seen.live.lookup pid = some g ∧ g.gameId = e.gameId) ∧
    ∃ p ∈ scan.processes, p.pid = pid ∧ scan.resolve p = some e.gameId
  covered : ∀ {pid g}, pid ∈ seen.startable → seen.live.lookup pid = some g →
    (session s.active g.gameId ≠ none ∨
      ∃ other ∈ seen.startable, other ∉ s.shadow ∧ ∃ h, seen.live.lookup other = some h ∧ h.gameId = g.gameId) →
    ∃ other e, t.active.lookup other = some e ∧ e.gameId = g.gameId
  turn : ∀ gameId, ∃ gain, (InFront seen.live scan.processes gameId → gain = scan.elapsedMs) ∧
    (¬ InFront seen.live scan.processes gameId → gain = 0) ∧
      Turn gain scan.now (session s.active gameId) (events.filter (about gameId)) (session t.active gameId)
  stays : ∀ {pid e}, s.active.lookup pid = some e → seen.live.lookup pid ≠ none → session t.active e.gameId ≠ none
  news : ∀ g, .started g ∈ events → ∃ e ∈ newcomers rules s.active s.shadow seen.live seen.startable, e.2 = g ∧
    ∀ f ∈ newcomers rules s.active s.shadow seen.live seen.startable,
      f.2.gameId = g.gameId → representativeRank rules g ≤ representativeRank rules f.2

theorem scanOnce_scanned (single : Single s.active) (agree : Agree (look rules s.windowless scan).live s.active)
    (stepped : scanOnce rules s scan = some (t, events)) : Scanned rules (look rules s.windowless scan) s scan t events := by
  cases stepped
  have seen_live : ∀ p g, (look rules s.windowless scan).live.lookup p = some g → g.pid = p ∧ g ∈ detectGames scan :=
    fun p g here => ⟨(look_live here).2, mem_detect (look_live here).1⟩
  generalize look rules s.windowless scan = seen at *
  have own : ∀ p g, seen.live.lookup p = some g → g.pid = p := fun p g here => (seen_live p g here).1
  obtain ⟨started, opens⟩ := coalesceStarts_spec rules single own s.shadow seen.startable
  have newcomer : ∀ {p g}, seen.live.lookup p = some g → s.active.lookup p = none → p ∉ s.shadow → p ∈ seen.startable →
      ⟨p, g⟩ ∈ newcomers rules s.active s.shadow seen.live seen.startable :=
    fun here absent out start => mem_newcomers.mpr ⟨here, absent, out, start⟩
  have fresh : ∀ e ∈ newcomers rules s.active s.shadow seen.live seen.startable, e.2.foregroundMs = 0 :=
    fun e member => (mem_detectGames (seen_live e.1 e.2 (mem_newcomers.mp member).1).2).1
  generalize coalesceStarts rules s.active s.shadow seen.live seen.startable = starts at *
  have still : Agree seen.live starts.active := by
    intro p e g here lives
    rcases started.entries here with old | ⟨h, there, same⟩
    · exact agree p e g old lives
    · cases lives.symm.trans there
      exact same
  obtain ⟨stopping, empty⟩ := coalesceStops_spec rules started.single own still starts.shadow seen.startable scan s.primary
  generalize coalesceStops rules starts.active starts.shadow seen.live seen.startable scan s.primary = stops at *
  obtain ⟨next, moved⟩ := stopping.single.mapValues (f := accumulate seen.live scan) (fun _ => rfl) fun _ => rfl
  refine ⟨next, ?_, ?_, ?_, ?_, ?_⟩
  · intro pid after here
    rw [lookup_mapValues] at here
    obtain ⟨e, there, rfl⟩ := Option.map_eq_some_iff.mp here
    cases lives : seen.live.lookup pid with
    | none => cases (empty pid lives).symm.trans there
    | some g =>
      have same := stopping.agree pid e g there lives
      obtain ⟨own, known⟩ := seen_live pid g lives
      obtain ⟨-, -, p, member, here, resolved⟩ := mem_detectGames known
      refine ⟨⟨g, rfl, same⟩, p, member, here.trans own, ?_⟩
      rw [resolved, same]
      rfl
  · intro pid g start lives served
    have open_ : session starts.active g.gameId ≠ none := by
      rcases served with was | ⟨other, ready, out, h, there, same⟩
      · exact opens _ (.inr was)
      · cases tracked : s.active.lookup other with
        | none => exact opens _ (.inl ⟨⟨other, h⟩, newcomer there tracked out ready, same.symm⟩)
        | some e =>
          refine opens _ (.inr fun none => ?_)
          exact (session_eq_none single).mp none other e tracked ((agree other e h tracked there).symm.trans same)
    have after := stopping.heirs open_ start lives rfl
    obtain ⟨e, found⟩ := Option.ne_none_iff_exists'.mp after
    obtain ⟨other, here, same⟩ := (session_eq_some stopping.single).mp found
    refine ⟨other, accumulate seen.live scan e, ?_, same⟩
    rw [lookup_mapValues, here, Option.map_some]
  · intro gameId
    obtain ⟨gain, front, behind, grown⟩ := accumulate_gain seen.live scan gameId
    refine ⟨gain, front, behind, ?_⟩
    rw [filter_about, moved gameId]
    refine turn_of_parts (started.opening gameId) (stopping.closing gameId) ?_ ?_ ?_
    · intro g member
      obtain ⟨e, here, same, -⟩ := started.news _ (List.mem_filter.mp member).1
      cases same
      exact fresh e here
    · intro none some
      obtain ⟨e, found⟩ := Option.ne_none_iff_exists'.mp some
      obtain ⟨p, here, same⟩ := (session_eq_some started.single).mp found
      rcases started.entries here with old | ⟨g, lives, -⟩
      · exact absurd same ((session_eq_none single).mp none p e old)
      · have kept := stopping.kept here (lives ▸ Option.some_ne_none g)
        rw [(session_eq_some stopping.single).mpr ⟨p, kept, same⟩]
        nofun
    · intro e found
      obtain ⟨-, -, same⟩ := (session_eq_some stopping.single).mp found
      exact grown e same
  · intro pid e here lives
    have was : session s.active e.gameId ≠ none := by
      rw [(session_eq_some single).mpr ⟨pid, here, rfl⟩]
      nofun
    obtain ⟨f, found⟩ := Option.ne_none_iff_exists'.mp (opens e.gameId (.inr was))
    obtain ⟨p, there, same⟩ := (session_eq_some started.single).mp found
    have alive : seen.live.lookup p ≠ none := by
      rcases started.entries there with old | ⟨g, still, -⟩
      · rw [← single.one here old same.symm]
        exact lives
      · rw [still]
        nofun
    rw [moved, (session_eq_some stopping.single).mpr ⟨p, stopping.kept there alive, same⟩]
    nofun
  · intro g member
    have mine : about g.gameId (.started g) = true := decide_eq_true rfl
    have told := List.mem_filter.mpr ⟨member, mine⟩
    rw [filter_about] at told
    rcases List.mem_append.mp told with opened | closed
    · obtain ⟨e, here, same, least⟩ := started.news _ (List.mem_filter.mp opened).1
      cases same
      exact ⟨e, here, rfl, least⟩
    · exact absurd closed (stopping.closing g.gameId).no_start

theorem scanOnce_right (single : Single s.active) (followed : Followed (look rules s.windowless scan) s)
    (stepped : scanOnce rules s scan = some (t, events)) :
    Right (look rules s.windowless scan) s scan t events ∧ Single t.active := by
  obtain ⟨agree, served⟩ := followed
  have scanned := scanOnce_scanned single agree stepped
  exact ⟨⟨scanned.single.one, scanned.live, fun start lives => scanned.covered start lives (served _ start _ lives), scanned.turn⟩,
    scanned.single⟩

end Scans

/-! ## Runs -/

/-- A closed game opens, and an open one closes. -/
def flip (isOpen : Bool) : GameEvent → Option Bool
  | .started _ => if isOpen then none else some true
  | .stopped _ _ => if isOpen then some false else none
  | _ => some isOpen

/-- The opens and closes of each game take turns from an open one on, and the games with a
session are the ones left open. -/
def Alternating (active : Games) (log : List GameEvent) : Prop :=
  ∀ gameId, run flip false (log.filter (about gameId)) = some (session active gameId).isSome

section Run

variable {rules : Rules} {s t : Sensor} {scan : Scan} {events log : List GameEvent}

theorem flip_turn {gain now : ℤ} {o after : Option ActiveGame} (turn : Turn gain now o events after) :
    run flip o.isSome events = some after.isSome := by
  cases turn with
  | none => rfl
  | opens new grown => rfl
  | keeps grown => rfl
  | closes carried => rfl

theorem Right.alternating {seen : Seen} (right : Right seen s scan t events) (told : Alternating s.active log) :
    Alternating t.active (log ++ events) := by
  intro gameId
  obtain ⟨gain, -, -, turn⟩ := right.turn gameId
  rw [List.filter_append, run_append, told gameId, Option.bind_some]
  exact flip_turn turn

/-- As long as the pids of the sessions stay with their games and no hidden process is left
over, each scan keeps one session for each game that runs. -/
theorem scans_right (rules : Rules) (scans : List Scan)
    (followed : EachStep (logged (scanOnce rules)) (fun s scan => Followed (look rules s.1.windowless scan) s.1) ({}, []) scans) :
    EachStep (logged (scanOnce rules)) (fun s scan => ∃ t events, scanOnce rules s.1 scan = some (t, events) ∧
        Right (look rules s.1.windowless scan) s.1 scan t events) ({}, []) scans ∧
      Always (logged (scanOnce rules)) (fun s => Alternating s.1.active s.2) ({}, []) scans := by
  have step : ∀ s scan t, (Single s.1.active ∧ Alternating s.1.active s.2) → Followed (look rules s.1.windowless scan) s.1 →
      logged (scanOnce rules) s scan = some t →
      (∃ t events, scanOnce rules s.1 scan = some (t, events) ∧ Right (look rules s.1.windowless scan) s.1 scan t events) ∧
        (Single t.1.active ∧ Alternating t.1.active t.2) := by
    rintro ⟨s, log⟩ scan ⟨t, after⟩ ⟨single, told⟩ holds moved
    obtain ⟨events, stepped, rfl⟩ := logged_eq_some.mp moved
    obtain ⟨right, next⟩ := scanOnce_right single holds stepped
    exact ⟨⟨t, events, stepped, right⟩, next, right.alternating told⟩
  have start : Single (∅ : Games) ∧ Alternating ∅ [] := by
    have empty : Single (∅ : Games) := ⟨nofun, nofun⟩
    exact ⟨empty, fun gameId => rfl⟩
  refine ⟨followed.imp _ step start, ?_⟩
  have kept := always_of_eachStep (fun s scan t good met stepped => (step s scan t good met stepped).2) start scans followed
  exact kept.imp fun s good => good.2

end Run

/-! ### A process of a tray, and one that takes over -/

/-- A list of one entry is in order: the sort of the code does not compute. -/
theorem mergeSort_short {α : Type*} {le : α → α → Bool} {l : List α} (short : l.length ≤ 1) : l.mergeSort le = l := by
  cases l with
  | nil => exact List.mergeSort_nil
  | cons a rest =>
    obtain rfl := List.length_eq_zero_iff.mp (Nat.le_zero.mp (Nat.le_of_succ_le_succ short))
    exact List.mergeSort_singleton a

def windowRules : Rules := ⟨fun _ => false, true⟩

def window (pid : ℕ) (isMinimized : Bool) : RawGameProcess :=
  { pid, exe := "game.exe", isFullscreen := false, titled := true, isForeground := !isMinimized, startedAtMs := 1, isMinimized }

def scanOf (processes : List RawGameProcess) (now : ℤ) : Scan :=
  { processes, resolve := fun _ => some "game", now, elapsedMs := 5000, order := id, perm := List.Perm.refl }

/-- The second process of the game goes on with the session of the first. -/
theorem heir_right :
    EachStep (logged (scanOnce windowRules)) (fun s scan => ∃ t events, scanOnce windowRules s.1 scan = some (t, events) ∧
        Right (look windowRules s.1.windowless scan) s.1 scan t events) ({}, [])
        [scanOf [window 1 false] 0, scanOf [window 1 false, window 2 false] 5000, scanOf [window 2 false] 10000] ∧
      Always (logged (scanOnce windowRules)) (fun s => Alternating s.1.active s.2) ({}, [])
        [scanOf [window 1 false] 0, scanOf [window 1 false, window 2 false] 5000, scanOf [window 2 false] 10000] := by
  refine scans_right windowRules _ ?_
  refine .cons rfl ?_ (.cons rfl ?_ (.cons rfl ?_ trivial))
  · decide
  · simp (disch := decide) only [coalesceStarts, newcomers, mergeSort_short]
    decide
  · simp (disch := decide) only [coalesceStarts, newcomers, mergeSort_short]
    decide

/-- The session ends while the second process is minimized. Its window comes up again, and it
stays without one: it was hidden behind the first. -/
theorem hidden_left :
    ¬ ∀ rules scans, EachStep (logged (scanOnce rules)) (fun s scan => ∃ t events, scanOnce rules s.1 scan = some (t, events) ∧
      Right (look rules s.1.windowless scan) s.1 scan t events) ({}, []) scans := by
  intro all
  have run := all windowRules [scanOf [window 1 false] 0, scanOf [window 1 false, window 2 false] 5000,
    scanOf [window 2 true] 10000, scanOf [window 2 false] 15000]
  obtain ⟨-, first⟩ := run _ rfl
  obtain ⟨-, second⟩ := first _ rfl
  obtain ⟨-, third⟩ := second _ rfl
  obtain ⟨⟨t, events, stepped, right⟩, -⟩ := third _ rfl
  have empty : t.active.entries = [] := by
    cases stepped
    simp (disch := decide) only [coalesceStarts, newcomers, mergeSort_short]
    decide
  obtain ⟨other, e, here, -⟩ := @Right.covered _ _ _ _ _ right 2 _ (by decide) rfl
  have member := mem_entries.mpr here
  rw [empty] at member
  cases member

end Mello.Core.GameSensing
