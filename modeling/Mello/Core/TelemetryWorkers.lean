import Mello.Core.LogTail
import Mello.Core.RocketLeague
import Mello.Library.Workers

/-!
The workers of the telemetry adapters: the stream of Rocket League and the tail of a log,
in particular of Roblox. A start and a reset are one step each, and of a worker each
check of the flag, connect, poll, read, digest and sleep. A digest includes the sends of
its events. Envelopes and complete lines have numbers in the order the game writes them.
-/

namespace Mello.Core.TelemetryWorkers
open Mello.Library Runs Workers Telemetry

/-! ## The stream of Rocket League -/

namespace Stream
open RocketLeague

def RECONNECT_INTERVAL_MS : ℕ := 3000

/-- How often a wait looks at the flag. -/
def SLEEP_SLICE_MS : ℕ := 100

/-- Where `stream_loop` is, with the number of the next envelope of its socket or of the
one in hand. -/
inductive Place where
  | top
  | connecting
  | reading (next : ℕ)
  /-- `none` where the framing is lost or a read has timed out. -/
  | checking (got : Option (ℕ × Envelope))
  | digesting (number : ℕ) (envelope : Envelope)
  | ending
  | sleeping (slept : ℕ)

/-- What the socket and the receiver do. -/
inductive Choice where
  | ok
  | err
  | closed
  /-- The receiver is gone after so many more events. -/
  | hungUp (received : ℕ)

/-- The events that go out, and whether all of them do. -/
def send (events : List TelemetryEvent) : Choice → List TelemetryEvent × Bool
  | .hungUp received => if received < events.length then (events.take received, false) else (events, true)
  | _ => (events, true)

/-- Sends the events and goes on, or takes the flag down and returns. -/
def deliver (running : Bool) (result : RlState × List TelemetryEvent) (digested : Option ℕ) (next : Place) (choice : Choice) :
    Turn RlState Place TelemetryEvent ℕ :=
  let (events, all) := send result.2 choice
  { next := if all then some next else none
    running := running && all
    shared := result.1
    events
    digested }

/-- One step of `stream_loop`. Each connection gets the envelopes from then on. -/
def turn (envelopes : List Envelope) (running : Bool) (st : RlState) : Place → Choice → Option (Turn RlState Place TelemetryEvent ℕ)
  | .top, _ => some { next := if running then some .connecting else none, running, shared := st }
  | .connecting, choice =>
    let next := match choice with | .ok => .reading envelopes.length | _ => .sleeping 0
    some { next := some next, running, shared := st }
  | .reading next, choice =>
    match choice with
    | .closed => some { next := some .ending, running, shared := st }
    | .err => some { next := some (.checking none), running, shared := st }
    | _ => envelopes[next]?.map fun envelope =>
      { next := some (.checking (some (next, envelope))), running, shared := st }
  | .checking got, _ =>
    let next := match got with | some (number, envelope) => .digesting number envelope | none => .ending
    some { next := if running then some next else none, running, shared := st }
  | .digesting number envelope, choice =>
    some (deliver running (digest st envelope) (some number) (.reading (number + 1)) choice)
  | .ending, choice => some (deliver running (finalizeIncomplete st) none (.sleeping 0) choice)
  | .sleeping slept, _ =>
    some (if slept < RECONNECT_INTERVAL_MS then
        { next := if running then some (.sleeping (slept + SLEEP_SLICE_MS)) else none, running, shared := st }
      else { next := some .top, running, shared := st })

def program : Program (List Envelope) Envelope RlState Place Choice TelemetryEvent ℕ where
  fresh := {}
  primed := {}
  first := .top
  unspawned := false
  grow envelopes envelope := envelopes ++ [envelope]
  turn := turn

/-- The adapter before its first start. -/
def adapter : Workers.State (List Envelope) RlState Place TelemetryEvent ℕ := { world := [], shared := {} }

/-- A start finds no worker of an earlier one, and a reset no worker behind its check with
an envelope that would make a match active. -/
def Orderly (s : Workers.State (List Envelope) RlState Place TelemetryEvent ℕ) : Action Envelope Choice → Prop
  | .start _ => s.running = false → ∀ w, s.place w = none
  | .reset => ∀ w number envelope, s.place w = some (.digesting number envelope) → (digest {} envelope).1.matchActive = false
  | _ => True

end Stream

/-! ## The tail of a log -/

namespace Tail

inductive Phase where
  | top
  | polling
  | reading
  | digesting
  | checking
  /-- Behind the last line: `on_caught_up`, the first time. -/
  | pausing
  | sleeping
  deriving DecidableEq

/-- Where `tail_loop` is: the file by its number, never reused, with the number of the
next line or of the one in hand. -/
structure Place (Line : Type) where
  phase : Phase := .top
  current : Option (ℕ × ℕ) := none
  line : Option Line := none
  caughtUp : Bool := false

/-- What a poll finds, or how a read ends. -/
inductive Choice where
  | kept
  | opened (file : ℕ)
  /-- Also a read that fails. -/
  | lost
  /-- A line that is not UTF-8: taken, and the pass ends. -/
  | unreadable

/-- The callbacks of an adapter, and its state after a reset and a start. -/
structure Adapter (Line Shared : Type) where
  fresh : Shared
  primed : Shared
  attach : LogTail.Start
  onLine : Shared → Line → Shared × List TelemetryEvent
  onCaughtUp : Shared → Shared × List TelemetryEvent

variable {Line Shared : Type} (adapter : Adapter Line Shared)

/-- The file that a poll leaves. One that is opened with no file before it is attached
where the adapter says. -/
def poll (files : ℕ → List Line) (current : Option (ℕ × ℕ)) : Choice → Option (ℕ × ℕ)
  | .opened file =>
    match current, adapter.attach with
    | none, .atEnd => some (file, (files file).length)
    | _, _ => some (file, 0)
  | .lost => none
  | _ => current

/-- A read, where a line without its end yet is none. -/
def read (files : ℕ → List Line) (place : Place Line) (choice : Choice) : Place Line :=
  match place.current with
  | none => { place with phase := .pausing }
  | some (file, number) =>
    match (files file)[number]?, choice with
    | some _, .unreadable => { place with phase := .pausing, current := some (file, number + 1) }
    | none, _ | some _, .lost => { place with phase := .pausing }
    | some line, _ => { place with phase := .digesting, line := some line }

/-- One step of `tail_loop`. -/
def turn (files : ℕ → List Line) (running : Bool) (st : Shared) (place : Place Line) (choice : Choice) :
    Option (Turn Shared (Place Line) TelemetryEvent (ℕ × ℕ)) :=
  match place.phase with
  | .top => some { next := if running then some { place with phase := .polling } else none, running, shared := st }
  | .polling =>
    let current := poll adapter files place.current choice
    let phase := if current.isSome then .reading else .sleeping
    some { next := some { place with current, phase }, running, shared := st }
  | .reading => some { next := some (read files place choice), running, shared := st }
  | .digesting =>
    match place.line, place.current with
    | some line, some (file, number) =>
      let (st, events) := adapter.onLine st line
      some {
        next := some { place with phase := .checking, current := some (file, number + 1), line := none }
        running, shared := st, events, digested := some (file, number) }
    | _, _ => none
  | .checking => some { next := if running then some { place with phase := .reading } else none, running, shared := st }
  | .pausing =>
    let (st, events) := if place.caughtUp then (st, []) else adapter.onCaughtUp st
    some { next := some { place with phase := .sleeping, caughtUp := true }, running, shared := st, events }
  | .sleeping => some { next := some { place with phase := .top }, running, shared := st }

/-- The game ends a line in a file. A start keeps the flag up where no worker spawns. -/
def program : Program (ℕ → List Line) (ℕ × Line) Shared (Place Line) Choice TelemetryEvent (ℕ × ℕ) where
  fresh := adapter.fresh
  primed := adapter.primed
  first := {}
  unspawned := true
  grow files change := Function.update files change.1 (files change.1 ++ [change.2])
  turn := turn adapter

def stopped (files : ℕ → List Line) : Workers.State (ℕ → List Line) Shared (Place Line) TelemetryEvent (ℕ × ℕ) :=
  { world := files, shared := adapter.fresh }

/-- A start finds no worker of an earlier one, a reset no worker between its check and a
line, and a poll opens no file of which a line was digested. -/
def Orderly (s : Workers.State (ℕ → List Line) Shared (Place Line) TelemetryEvent (ℕ × ℕ)) :
    Action (ℕ × Line) Choice → Prop
  | .start _ => s.running = false → ∀ w, s.place w = none
  | .reset => ∀ w place, s.place w = some place → place.phase ≠ .polling ∧ place.phase ≠ .reading
  | .work w (.opened file) => ∀ place, s.place w = some place → place.phase = .polling → ∀ e ∈ s.digests, e.id.1 ≠ file
  | _ => True

end Tail

/-! ## Roblox -/

namespace Roblox

def GAME_ID : String := "roblox"

/-- What a line says about the experience. -/
inductive Mark where
  | joined (placeId : String) (ts : ℤ)
  | left (ts : ℤ)
  deriving DecidableEq

structure RobloxState where
  inExperience : Option (String × ℤ) := none
  /-- True until the existing log has been read. -/
  replaying : Bool := false
  deriving DecidableEq

def foldLine (state : RobloxState) : Option Mark → RobloxState × List TelemetryEvent
  | some (.joined placeId ts) =>
    ({ state with inExperience := some (placeId, ts) },
      if state.replaying then [] else [.activityStarted GAME_ID placeId ts])
  | some (.left ts) =>
    ({ state with inExperience := none },
      if state.inExperience.isSome && !state.replaying then [.activityEnded GAME_ID ts] else [])
  | none => (state, [])

def announce (state : RobloxState) : RobloxState × List TelemetryEvent :=
  ({ state with replaying := false },
    (state.inExperience.map fun (placeId, ts) => .activityStarted GAME_ID placeId ts).toList)

/-- The adapter, of what `parse_line` makes of a line. -/
def adapter {Line : Type} (parseLine : Line → Option Mark) : Tail.Adapter Line RobloxState where
  fresh := {}
  primed := { replaying := true }
  attach := .beginning
  onLine state line := foldLine state (parseLine line)
  onCaughtUp := announce

end Roblox

end Mello.Core.TelemetryWorkers
