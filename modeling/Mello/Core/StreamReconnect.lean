import Mello.Library.Runs

/-!
The stream link of a host or a viewer (`StreamLink`): when the UI shows "reconnecting", when the
client rejoins, and when it gives up. The attempts and their results are asynchronous: each result
comes with a call of its own.
-/

namespace Mello.Core.StreamReconnect
open Mello.Library Runs

/-- Durations and instants are in nanoseconds. -/
def fromMillis (ms : Nat) : Nat := ms * 1000000

def fromSecs (secs : Nat) : Nat := secs * 1000000000

def LINK_STALL : Nat := fromMillis 700
def LINK_REBUILD : Nat := fromSecs 5
def HOST_SILENT : Nat := fromMillis 700
def SFU_RECONNECT_GIVE_UP_AFTER : Nat := fromSecs 30

def sfuReconnectDelay : Nat → Nat
  | 0 => fromMillis 500
  | 1 => fromSecs 1
  | _ => fromSecs 2

inductive StreamRole where
  | host
  | viewer
  deriving DecidableEq, Repr

inductive LinkAction where
  | showReconnecting
  | showResumed
  | rejoin
  | giveUp
  deriving DecidableEq, Repr

structure LinkObservation where
  ownSilent : Nat
  hostSilent : Option Nat
  newFrame : Bool
  deriving DecidableEq, Repr

inductive Cause where
  | ownLink
  | host
  deriving DecidableEq, Repr

/-- `attempt` is a `u32`. -/
structure Rebuild where
  droppedAt : Int
  attempt : Nat
  nextAt : Int
  running : Bool
  startedAt : Int
  deriving DecidableEq, Repr

structure StreamLink where
  role : StreamRole
  reconnectingSince : Option Int := none
  cause : Option Cause := none
  rebuild : Option Rebuild := none
  gaveUp : Bool := false
  deriving DecidableEq, Repr

def isReconnecting (link : StreamLink) : Bool := link.reconnectingSince.isSome

def isRebuilding (link : StreamLink) : Bool := link.rebuild.isSome

/-- `now.checked_sub(silent).unwrap_or(now)`, with the earliest instant of the platform. -/
def silentSince (earliest now : Int) (silent : Nat) : Int :=
  if earliest ≤ now - silent then now - silent else now

def showReconnecting (link : StreamLink) (since : Int) (cause : Cause) (actions : List LinkAction) :
    StreamLink × List LinkAction :=
  let blamed := if link.cause = some .ownLink then link.cause else some cause
  match link.reconnectingSince with
  | none => ({ link with reconnectingSince := some since, cause := blamed }, actions ++ [.showReconnecting])
  | some _ => ({ link with cause := blamed }, actions)

def resume (link : StreamLink) (actions : List LinkAction) : StreamLink × List LinkAction :=
  ({ link with reconnectingSince := none, cause := none },
    if isReconnecting link then actions ++ [.showResumed] else actions)

def giveUp (link : StreamLink) (actions : List LinkAction) : StreamLink × List LinkAction :=
  if link.gaveUp then (link, actions) else ({ link with gaveUp := true }, actions ++ [.giveUp])

def startRebuild (link : StreamLink) (now droppedAt : Int) : StreamLink :=
  match link.rebuild with
  | none =>
    { link with
      rebuild := some
        { droppedAt, attempt := 0, nextAt := max (droppedAt + sfuReconnectDelay 0) now, running := false, startedAt := now } }
  | some _ => link

def pollRebuild (link : StreamLink) (now : Int) (actions : List LinkAction) : StreamLink × List LinkAction :=
  match link.rebuild with
  | none => (link, actions)
  | some r =>
    if SFU_RECONNECT_GIVE_UP_AFTER ≤ now - r.droppedAt then giveUp link actions
    else if r.running = false ∧ r.nextAt ≤ now then
      ({ link with rebuild := some { r with running := true, startedAt := now } }, actions ++ [.rejoin])
    else (link, actions)

def onDropped (link : StreamLink) (now : Int) : StreamLink × List LinkAction :=
  if link.gaveUp then (link, [])
  else
    let droppedAt := link.reconnectingSince.getD now
    let (shown, actions) := showReconnecting link now .ownLink []
    pollRebuild (startRebuild { shown with cause := some .ownLink } now droppedAt) now actions

def onHostReconnecting (link : StreamLink) (now : Int) : StreamLink × List LinkAction :=
  if link.gaveUp then (link, []) else showReconnecting link now .host []

def onAttemptFailed (link : StreamLink) (now : Int) : StreamLink × List LinkAction :=
  match link.rebuild with
  | none => (link, [])
  | some r =>
    let attempt := (r.attempt + 1) % 2 ^ 32
    ({ link with
        rebuild := some
          { r with running := false, attempt, nextAt := max (r.startedAt + sfuReconnectDelay attempt) now } }, [])

def onRejoined (link : StreamLink) (now : Int) : StreamLink × List LinkAction :=
  match link.role with
  | .host => resume { link with rebuild := none } []
  | .viewer =>
    match link.reconnectingSince with
    | none => ({ link with rebuild := none, reconnectingSince := some now, cause := some .host }, [.showReconnecting])
    | some _ => ({ link with rebuild := none, cause := some .host }, [])

/-- The end of a viewer's tick. -/
def pollFrame (link : StreamLink) (now : Int) (actions : List LinkAction) : StreamLink × List LinkAction :=
  match link.reconnectingSince with
  | none => (link, actions)
  | some since => if SFU_RECONNECT_GIVE_UP_AFTER ≤ now - since then giveUp link actions else (link, actions)

/-- A tick at which the own link answers. -/
def observeAnswered (earliest : Int) (link : StreamLink) (now : Int) (seen : LinkObservation) :
    StreamLink × List LinkAction :=
  match link.role with
  | .host => if isReconnecting link then resume link [] else (link, [])
  | .viewer =>
    let (shown, actions) :=
      if seen.newFrame then resume link []
      else if seen.hostSilent.any (decide <| HOST_SILENT ≤ ·) then
        showReconnecting link (silentSince earliest now (seen.hostSilent.getD 0)) .host []
      else (link, [])
    pollFrame shown now actions

/-- A tick at which it does not. -/
def observeSilent (earliest : Int) (link : StreamLink) (now : Int) (seen : LinkObservation) :
    StreamLink × List LinkAction :=
  let since := silentSince earliest now seen.ownSilent
  let (shown, actions) := showReconnecting link since .ownLink []
  let blamed := { shown with cause := some .ownLink }
  if LINK_REBUILD ≤ seen.ownSilent then
    pollRebuild (startRebuild blamed now (blamed.reconnectingSince.getD since)) now actions
  else (blamed, actions)

def observe (earliest : Int) (link : StreamLink) (now : Int) (seen : LinkObservation) : StreamLink × List LinkAction :=
  if link.gaveUp then (link, [])
  else if isRebuilding link then pollRebuild link now []
  else if LINK_STALL ≤ seen.ownSilent then observeSilent earliest link now seen
  else observeAnswered earliest link now seen

/-! ## Runs -/

inductive Call where
  | observe (seen : LinkObservation)
  | dropped
  | hostReconnecting
  | attemptFailed
  | rejoined
  deriving DecidableEq, Repr

inductive Event where
  | called (call : Call) (now : Int)
  | returned (action : LinkAction) (call : Call) (now : Int)
  deriving DecidableEq, Repr

/-- The result of an attempt. -/
def Call.reports : Call → Bool
  | .attemptFailed => true
  | .rejoined => true
  | _ => false

/-- The start of the outage that a call shows: that of the silence, or the call. -/
def Call.began (earliest now : Int) : Call → Int
  | .observe seen =>
    silentSince earliest now (if LINK_STALL ≤ seen.ownSilent then seen.ownSilent else seen.hostSilent.getD 0)
  | _ => now

/-! A log has its newest event first. -/

/-- The start of the outage that is shown. -/
def outage (earliest : Int) : List Event → Option Int
  | [] => none
  | .returned .showReconnecting call now :: _ => some (call.began earliest now)
  | .returned .showResumed _ _ :: _ => none
  | _ :: log => outage earliest log

def givenUp : List Event → Bool
  | [] => false
  | .returned .giveUp _ _ :: _ => true
  | _ :: log => givenUp log

/-- An attempt started and has no result. -/
def attempting : List Event → Bool
  | [] => false
  | .returned .rejoin _ _ :: _ => true
  | .called call _ :: log => if call.reports then false else attempting log
  | _ :: log => attempting log

/-- The starts of the attempts since the link was rejoined last, the newest first. -/
def starts : List Event → List Int
  | [] => []
  | .returned .rejoin _ now :: log => now :: starts log
  | .called .rejoined _ :: _ => []
  | _ :: log => starts log

def rejoins : List Event → Nat
  | [] => 0
  | .returned .rejoin _ _ :: log => rejoins log + 1
  | _ :: log => rejoins log

def reports : List Event → Nat
  | [] => 0
  | .called call _ :: log => reports log + if call.reports then 1 else 0
  | _ :: log => reports log

structure State where
  link : StreamLink
  log : List Event := []
  deriving DecidableEq, Repr

def start (role : StreamRole) : State := { link := { role } }

def call (earliest : Int) (link : StreamLink) (now : Int) : Call → StreamLink × List LinkAction
  | .observe seen => observe earliest link now seen
  | .dropped => onDropped link now
  | .hostReconnecting => onHostReconnecting link now
  | .attemptFailed => onAttemptFailed link now
  | .rejoined => onRejoined link now

/-- The log with what a call returned. -/
def logged (log : List Event) (asked : Call) (now : Int) (actions : List LinkAction) : List Event :=
  actions.foldl (fun log action => .returned action asked now :: log) (.called asked now :: log)

/-- There is no result without an attempt. -/
def step (earliest : Int) (s : State) : Call × Int → Option State
  | (asked, now) =>
    if asked.reports = true ∧ rejoins s.log ≤ reports s.log then none
    else
      let (link, actions) := call earliest s.link now asked
      some { link, log := logged s.log asked now actions }

/-! ## The order -/

/-- What a call may return after a log. -/
def Allowed (earliest : Int) (log : List Event) (asked : Call) (now : Int) : LinkAction → Prop
  | .showReconnecting => outage earliest log = none
  | .showResumed => outage earliest log ≠ none
  | .rejoin => attempting log = false ∧
      ∀ last earlier, starts log = last :: earlier → last + sfuReconnectDelay (starts log).length ≤ now
  | .giveUp => asked ≠ .rejoined ∧ ∃ since, outage earliest log = some since ∧ since + SFU_RECONNECT_GIVE_UP_AFTER ≤ now

/-- Reconnecting and resumed alternate, the attempts come one at a time and a step of the schedule
apart, and the link gives up once, 30 s into the outage. After that only the result of an attempt
returns an action. -/
def Ordered (earliest : Int) : List Event → Prop
  | [] => True
  | .called _ _ :: log => Ordered earliest log
  | .returned action asked now :: log =>
    Ordered earliest log ∧ (givenUp log = true → asked = .rejoined) ∧ Allowed earliest log asked now action

/-- A tick 30 s into the outage ends it, for a host that does not rebuild because its own link answers. -/
def Due (earliest : Int) (s : State) : Prop :=
  ∀ since now : Int, ∀ seen : LinkObservation, givenUp s.log = false → outage earliest s.log = some since →
    since + SFU_RECONNECT_GIVE_UP_AFTER ≤ now →
    (isRebuilding s.link = true → (observe earliest s.link now seen).2 = [.giveUp]) ∧
    (isRebuilding s.link = false → seen.ownSilent < LINK_STALL → s.link.role = .viewer → seen.newFrame = false →
      (observe earliest s.link now seen).2 = [.giveUp]) ∧
    (isRebuilding s.link = false → seen.ownSilent < LINK_STALL → s.link.role = .host →
      (observe earliest s.link now seen).2 = [.showResumed])

/-! ## One call -/

/-- The schedule of the attempts that run: the next one is due when the last has a result. -/
structure Scheduled (r : Rebuild) (log : List Event) : Prop where
  running : attempting log = r.running
  tried : (starts log).length = r.attempt + if r.running then 1 else 0
  last : ∀ began earlier, starts log = began :: earlier → began = r.startedAt
  paced : ∀ began earlier, starts log = began :: earlier → r.startedAt < r.droppedAt + SFU_RECONNECT_GIVE_UP_AFTER ∧
    r.droppedAt + earlier.length * fromSecs 1 ≤ r.startedAt
  next : r.running = false → r.droppedAt + (starts log).length * fromSecs 1 ≤ r.nextAt ∧
    ∀ began earlier, starts log = began :: earlier → r.startedAt + sfuReconnectDelay r.attempt ≤ r.nextAt

/-- A log in order, with the link behind it. -/
structure Inv (earliest : Int) (link : StreamLink) (log : List Event) : Prop where
  ordered : Ordered earliest log
  outage : outage earliest log = link.reconnectingSince
  givenUp : givenUp log = link.gaveUp
  balanced : rejoins log = reports log + if attempting log then 1 else 0
  idle : link.rebuild = none → attempting log = false ∧ starts log = []
  since : ∀ r, link.rebuild = some r → link.reconnectingSince = some r.droppedAt
  scheduled : ∀ r, link.rebuild = some r → Scheduled r log

theorem logged_concat (log : List Event) (asked : Call) (now : Int) (actions : List LinkAction) (action : LinkAction) :
    logged log asked now (actions ++ [action]) = .returned action asked now :: logged log asked now actions :=
  List.foldl_concat ..

section Primitives

variable {earliest now : Int} {link : StreamLink} {log : List Event} {asked : Call}

theorem Inv.blame (inv : Inv earliest link log) (cause : Option Cause) : Inv earliest { link with cause } log :=
  ⟨inv.ordered, inv.outage, inv.givenUp, inv.balanced, inv.idle, inv.since, inv.scheduled⟩

/-- An outage that starts has no attempt yet. -/
theorem Inv.show (inv : Inv earliest link log) (calm : link.reconnectingSince = none)
    (allowed : link.gaveUp = true → asked = .rejoined) :
    Inv earliest { link with reconnectingSince := some (asked.began earliest now) }
      (.returned .showReconnecting asked now :: log) := by
  have none : link.rebuild = none := by
    rcases rebuilding : link.rebuild with _ | r
    · rfl
    · cases calm.symm.trans (inv.since r rebuilding)
  refine ⟨⟨inv.ordered, inv.givenUp ▸ allowed, inv.outage.trans calm⟩, rfl, inv.givenUp, inv.balanced, inv.idle, ?_, ?_⟩
  · intro r rebuilding
    cases none.symm.trans rebuilding
  · intro r rebuilding
    cases none.symm.trans rebuilding

theorem Inv.resume (inv : Inv earliest link log) (idle : link.rebuild = none) (shown : isReconnecting link = true)
    (allowed : link.gaveUp = true → asked = .rejoined) :
    Inv earliest { link with reconnectingSince := none } (.returned .showResumed asked now :: log) := by
  refine ⟨⟨inv.ordered, inv.givenUp ▸ allowed, ?_⟩, rfl, inv.givenUp, inv.balanced, inv.idle, ?_, ?_⟩
  · intro calm
    exact Option.isSome_iff_ne_none.mp shown (inv.outage.symm.trans calm)
  · intro r rebuilding
    cases idle.symm.trans rebuilding
  · intro r rebuilding
    cases idle.symm.trans rebuilding

theorem Inv.giveUp (inv : Inv earliest link log) (open' : link.gaveUp = false) (asks : asked ≠ .rejoined) {since : Int}
    (shown : link.reconnectingSince = some since) (long : since + SFU_RECONNECT_GIVE_UP_AFTER ≤ now) :
    Inv earliest { link with gaveUp := true } (.returned .giveUp asked now :: log) := by
  refine ⟨⟨inv.ordered, ?_, asks, since, inv.outage.trans shown, long⟩, inv.outage, rfl, inv.balanced, inv.idle, inv.since, ?_⟩
  · intro given
    rw [inv.givenUp, open'] at given
    cases given
  · intro r rebuilding
    obtain ⟨running, tried, last, paced, next⟩ := inv.scheduled r rebuilding
    exact ⟨running, tried, last, paced, next⟩

theorem Inv.start (inv : Inv earliest link log) {droppedAt : Int} (shown : link.reconnectingSince = some droppedAt) :
    Inv earliest (startRebuild link now droppedAt) log := by
  unfold startRebuild
  split
  · rename_i idle
    obtain ⟨calm, fresh⟩ := inv.idle idle
    refine ⟨inv.ordered, inv.outage, inv.givenUp, inv.balanced, nofun, ?_, ?_⟩
    · rintro r rebuilding
      cases rebuilding
      exact shown
    · rintro r rebuilding
      cases rebuilding
      refine ⟨calm, by rw [fresh]; rfl, by rw [fresh]; nofun, by rw [fresh]; nofun, fun _ => ⟨?_, by rw [fresh]; nofun⟩⟩
      rw [fresh]
      exact le_max_of_le_left (by simp [sfuReconnectDelay, fromMillis])
  · exact inv

theorem delay_succ (attempt : Nat) : fromSecs 1 ≤ sfuReconnectDelay (attempt + 1) := by
  cases attempt with
  | zero => simp only [sfuReconnectDelay, zero_add, le_refl]
  | succ attempt => simp only [sfuReconnectDelay, fromSecs, Nat.reduceMul, Nat.reduceLeDiff]

/-- An attempt starts. -/
theorem Inv.rejoin (inv : Inv earliest link log) {r : Rebuild} (rebuilding : link.rebuild = some r)
    (early : now - r.droppedAt < SFU_RECONNECT_GIVE_UP_AFTER) (rests : r.running = false) (due : r.nextAt ≤ now)
    (allowed : link.gaveUp = true → asked = .rejoined) :
    Inv earliest { link with rebuild := some { r with running := true, startedAt := now } }
      (.returned .rejoin asked now :: log) := by
  have plan := inv.scheduled r rebuilding
  have calm : attempting log = false := plan.running.trans rests
  have tried : (starts log).length = r.attempt := by
    rw [plan.tried, rests]
    rfl
  have next := plan.next rests
  refine ⟨⟨inv.ordered, inv.givenUp ▸ allowed, calm, ?_⟩, inv.outage, inv.givenUp, ?_, nofun, ?_, ?_⟩
  · intro began earlier same
    rw [tried]
    have := next.2 began earlier same
    rw [plan.last began earlier same]
    omega
  · have balanced := inv.balanced
    rw [calm] at balanced
    exact congrArg (· + 1) balanced
  · rintro other same
    cases same
    exact inv.since r rebuilding
  · rintro other same
    cases same
    refine ⟨rfl, congrArg (· + 1) tried, ?_, ?_, nofun⟩
    · rintro began earlier same
      cases same
      rfl
    · rintro began earlier same
      cases same
      have := next.1
      dsimp only
      omega

/-- A result has an attempt that runs. -/
theorem Inv.runs (inv : Inv earliest link log) (pending : reports log < rejoins log) :
    ∃ r, link.rebuild = some r ∧ r.running = true := by
  have balanced := inv.balanced
  rcases rebuilding : link.rebuild with _ | r
  · rw [(inv.idle rebuilding).1] at balanced
    exact absurd balanced pending.ne'
  · rcases runs : r.running with _ | _
    · rw [(inv.scheduled r rebuilding).running, runs] at balanced
      exact absurd balanced pending.ne'
    · exact ⟨r, rfl, runs⟩

/-- An attempt fails. No outage has as many of them as a `u32` counts. -/
theorem Inv.failed (inv : Inv earliest link log) (pending : reports log < rejoins log) :
    Inv earliest (onAttemptFailed link now).1 (.called .attemptFailed now :: log) := by
  obtain ⟨r, rebuilding, runs⟩ := inv.runs pending
  have plan := inv.scheduled r rebuilding
  have tried : (starts log).length = r.attempt + 1 := by
    rw [plan.tried, runs]
    rfl
  have small : (r.attempt + 1) % 2 ^ 32 = r.attempt + 1 := by
    apply Nat.mod_eq_of_lt
    rcases begun : starts log with _ | ⟨began, earlier⟩
    · rw [begun] at tried
      cases tried
    · have paced := plan.paced began earlier begun
      rw [begun, List.length_cons] at tried
      simp only [SFU_RECONNECT_GIVE_UP_AFTER, fromSecs] at paced
      omega
  unfold onAttemptFailed
  rw [rebuilding]
  dsimp only
  rw [small]
  refine ⟨inv.ordered, inv.outage, inv.givenUp, ?_, nofun, ?_, ?_⟩
  · have balanced := inv.balanced
    rw [plan.running, runs] at balanced
    exact balanced
  · rintro other same
    cases same
    exact inv.since r rebuilding
  · rintro other same
    cases same
    refine ⟨rfl, tried, plan.last, plan.paced, fun _ => ⟨?_, fun _ _ _ => le_max_left _ _⟩⟩
    change r.droppedAt + (starts log).length * fromSecs 1 ≤ max (r.startedAt + sfuReconnectDelay (r.attempt + 1)) now
    rcases begun : starts log with _ | ⟨began, earlier⟩
    · rw [begun] at tried
      cases tried
    · have paced := plan.paced began earlier begun
      have delay := delay_succ r.attempt
      apply le_max_of_le_left
      rw [List.length_cons, Nat.cast_succ, add_mul, one_mul]
      omega

theorem Inv.called (inv : Inv earliest link log) (asks : asked.reports = false) :
    Inv earliest link (.called asked now :: log) := by
  have running : attempting (.called asked now :: log) = attempting log := by
    change (if asked.reports then false else attempting log) = attempting log
    rw [asks]
    rfl
  have same : starts (.called asked now :: log) = starts log := by
    cases asked <;> first | rfl | cases asks
  have counts : reports (.called asked now :: log) = reports log := by
    change reports log + (if asked.reports then 1 else 0) = reports log
    rw [asks]
    rfl
  refine ⟨inv.ordered, inv.outage, inv.givenUp, ?_, ?_, inv.since, ?_⟩
  · rw [running, counts]
    exact inv.balanced
  · rw [running, same]
    exact inv.idle
  · intro r rebuilding
    obtain ⟨runs, tried, last, paced, next⟩ := inv.scheduled r rebuilding
    exact ⟨running.trans runs, same ▸ tried, same ▸ last, same ▸ paced, same ▸ next⟩
end Primitives

/-! ## Every call -/

section Calls

variable {earliest now : Int} {link : StreamLink} {log : List Event} {asked : Call} {actions : List LinkAction}

/-- The result of a call, with the log that it leaves. -/
def Keeps (earliest : Int) (log : List Event) (asked : Call) (now : Int) (result : StreamLink × List LinkAction) : Prop :=
  Inv earliest result.1 (logged log asked now result.2)

theorem keeps_show {cause : Cause} {since : Int} (inv : Keeps earliest log asked now (link, actions))
    (began : since = asked.began earliest now) (allowed : link.gaveUp = true → asked = .rejoined) :
    Keeps earliest log asked now (showReconnecting link since cause actions) := by
  unfold showReconnecting
  dsimp only
  split
  · rename_i calm
    unfold Keeps
    rw [logged_concat, began]
    exact (Inv.show inv calm allowed).blame _
  · exact Inv.blame inv _

theorem keeps_resume (inv : Keeps earliest log asked now (link, actions)) (idle : link.rebuild = none)
    (allowed : link.gaveUp = true → asked = .rejoined) : Keeps earliest log asked now (resume link actions) := by
  unfold resume Keeps
  dsimp only
  split_ifs with shown
  · rw [logged_concat]
    exact (Inv.resume inv idle shown allowed).blame _
  · have calm : none = link.reconnectingSince := (Option.not_isSome_iff_eq_none.mp shown).symm
    rw [calm]
    exact Inv.blame inv _

theorem keeps_giveUp (inv : Keeps earliest log asked now (link, actions)) (asks : asked ≠ .rejoined) {since : Int}
    (shown : link.reconnectingSince = some since) (long : since + SFU_RECONNECT_GIVE_UP_AFTER ≤ now) :
    Keeps earliest log asked now (giveUp link actions) := by
  unfold giveUp
  split_ifs with given
  · exact inv
  · unfold Keeps
    dsimp only
    rw [logged_concat]
    exact Inv.giveUp inv (Bool.eq_false_iff.mpr given) asks shown long

theorem keeps_poll (inv : Keeps earliest log asked now (link, actions)) (asks : asked ≠ .rejoined)
    (open' : link.gaveUp = false) : Keeps earliest log asked now (pollRebuild link now actions) := by
  unfold pollRebuild
  split
  · exact inv
  · rename_i r rebuilding
    split_ifs with long due
    · exact keeps_giveUp inv asks (Inv.since inv r rebuilding) (by omega)
    · unfold Keeps
      dsimp only
      rw [logged_concat]
      exact Inv.rejoin inv rebuilding (not_le.mp long) due.1 due.2 fun given => absurd given (Bool.eq_false_iff.mp open')
    · exact inv

@[simp] theorem gaveUp_show (since : Int) (cause : Cause) :
    (showReconnecting link since cause actions).1.gaveUp = link.gaveUp := by
  unfold showReconnecting
  dsimp only
  split <;> rfl

variable (link actions) in
@[simp] theorem since_show (since : Int) (cause : Cause) :
    (showReconnecting link since cause actions).1.reconnectingSince = some (link.reconnectingSince.getD since) := by
  unfold showReconnecting
  dsimp only
  split
  · rename_i calm
    rw [calm]
    rfl
  · rename_i since' shown
    rw [shown]
    rfl

@[simp] theorem gaveUp_start (droppedAt : Int) : (startRebuild link now droppedAt).gaveUp = link.gaveUp := by
  unfold startRebuild
  split <;> rfl

/-- A link that shows an outage of its own rebuilds. -/
theorem keeps_rebuild (inv : Keeps earliest log asked now (link, actions)) (asks : asked ≠ .rejoined)
    (open' : link.gaveUp = false) {droppedAt : Int} (shown : link.reconnectingSince = some droppedAt) :
    Keeps earliest log asked now
      (pollRebuild (startRebuild { link with cause := some .ownLink } now droppedAt) now actions) := by
  refine keeps_poll (Inv.start (Inv.blame inv _) ?_) asks ?_
  · exact shown
  · rw [gaveUp_start]
    exact open'

theorem keeps_dropped (inv : Inv earliest link log) : Keeps earliest log .dropped now (onDropped link now) := by
  unfold onDropped
  split_ifs with given
  · exact inv.called rfl
  · have shown : Keeps earliest log .dropped now (showReconnecting link now .ownLink []) :=
      keeps_show (inv.called rfl) rfl fun given' => absurd given' given
    exact keeps_rebuild shown nofun ((gaveUp_show ..).trans (Bool.eq_false_iff.mpr given)) (since_show ..)

theorem keeps_hostReconnecting (inv : Inv earliest link log) :
    Keeps earliest log .hostReconnecting now (onHostReconnecting link now) := by
  unfold onHostReconnecting
  split_ifs with given
  · exact inv.called rfl
  · exact keeps_show (inv.called rfl) rfl fun given' => absurd given' given

theorem keeps_frame (inv : Keeps earliest log asked now (link, actions)) (asks : asked ≠ .rejoined) :
    Keeps earliest log asked now (pollFrame link now actions) := by
  unfold pollFrame
  split
  · exact inv
  · rename_i since shown
    split_ifs with long
    · exact keeps_giveUp inv asks shown (by omega)
    · exact inv

theorem keeps_answered {seen : LinkObservation} (inv : Inv earliest link log) (idle : link.rebuild = none)
    (open' : link.gaveUp = false) (answered : seen.ownSilent < LINK_STALL) :
    Keeps earliest log (.observe seen) now (observeAnswered earliest link now seen) := by
  have called : Keeps earliest log (.observe seen) now (link, []) := inv.called rfl
  have allowed : link.gaveUp = true → Call.observe seen = .rejoined := fun given => absurd given (Bool.eq_false_iff.mp open')
  unfold observeAnswered
  split
  · split_ifs with shown
    · exact keeps_resume called idle allowed
    · exact called
  · dsimp only
    refine keeps_frame ?_ nofun
    split_ifs with frame silent
    · exact keeps_resume called idle allowed
    · refine keeps_show called ?_ allowed
      change _ = silentSince earliest now (if LINK_STALL ≤ seen.ownSilent then seen.ownSilent else seen.hostSilent.getD 0)
      rw [if_neg (not_le.mpr answered)]
    · exact called

theorem keeps_silent {seen : LinkObservation} (inv : Inv earliest link log) (open' : link.gaveUp = false)
    (silent : LINK_STALL ≤ seen.ownSilent) :
    Keeps earliest log (.observe seen) now (observeSilent earliest link now seen) := by
  have began : silentSince earliest now seen.ownSilent = (Call.observe seen).began earliest now := by
    change _ = silentSince earliest now (if LINK_STALL ≤ seen.ownSilent then seen.ownSilent else seen.hostSilent.getD 0)
    rw [if_pos silent]
  have called : Keeps earliest log (.observe seen) now (link, []) := inv.called rfl
  have shown : Keeps earliest log (.observe seen) now
      (showReconnecting link (silentSince earliest now seen.ownSilent) .ownLink []) :=
    keeps_show called began fun given => absurd given (Bool.eq_false_iff.mp open')
  unfold observeSilent
  dsimp only
  split_ifs with long
  · have since := since_show link [] (silentSince earliest now seen.ownSilent) .ownLink
    refine keeps_rebuild shown nofun ((gaveUp_show ..).trans open') ?_
    rw [since, Option.getD_some]
    exact since
  · exact Inv.blame shown _

theorem keeps_observe {seen : LinkObservation} (inv : Inv earliest link log) :
    Keeps earliest log (.observe seen) now (observe earliest link now seen) := by
  unfold observe
  split_ifs with given rebuilding silent
  · exact inv.called rfl
  · exact keeps_poll (inv.called rfl) nofun (Bool.eq_false_iff.mpr given)
  · exact keeps_silent inv (Bool.eq_false_iff.mpr given) silent
  · exact keeps_answered inv (Option.not_isSome_iff_eq_none.mp rebuilding) (Bool.eq_false_iff.mpr given) (not_le.mp silent)

theorem keeps_rejoined (inv : Inv earliest link log) (pending : reports log < rejoins log) :
    Keeps earliest log .rejoined now (onRejoined link now) := by
  have ended : Keeps earliest log .rejoined now ({ link with rebuild := none }, []) := by
    obtain ⟨r, rebuilding, runs⟩ := inv.runs pending
    have balanced := inv.balanced
    rw [(inv.scheduled r rebuilding).running, runs] at balanced
    exact ⟨inv.ordered, inv.outage, inv.givenUp, balanced, fun _ => ⟨rfl, rfl⟩, nofun, nofun⟩
  unfold onRejoined
  split
  · exact keeps_resume ended rfl fun _ => rfl
  · split
    · rename_i calm
      exact (Inv.show ended calm fun _ => rfl).blame _
    · exact Inv.blame ended _

end Calls

/-! ## Every run -/

theorem inv_start (earliest : Int) (role : StreamRole) : Inv earliest (start role).link (start role).log :=
  ⟨trivial, rfl, rfl, rfl, fun _ => ⟨rfl, rfl⟩, nofun, nofun⟩

theorem inv_step {earliest : Int} {s t : State} {input : Call × Int} (inv : Inv earliest s.link s.log)
    (stepped : step earliest s input = some t) : Inv earliest t.link t.log := by
  obtain ⟨asked, now⟩ := input
  unfold step at stepped
  dsimp only at stepped
  split_ifs at stepped with idle
  cases stepped
  have pending (reports' : asked.reports = true) : reports s.log < rejoins s.log := by
    by_contra none
    exact idle ⟨reports', not_lt.mp none⟩
  cases asked with
  | observe seen => exact keeps_observe inv
  | dropped => exact keeps_dropped inv
  | hostReconnecting => exact keeps_hostReconnecting inv
  | attemptFailed =>
    have failed : Inv earliest (onAttemptFailed s.link now).1 (.called .attemptFailed now :: s.log) := inv.failed (pending rfl)
    dsimp only [call, logged]
    unfold onAttemptFailed at failed ⊢
    split at failed <;> exact failed
  | rejoined => exact keeps_rejoined inv (pending rfl)

section Ticks

variable {earliest now : Int} {link : StreamLink} {seen : LinkObservation}

theorem observe_rebuilding {r : Rebuild} (open' : link.gaveUp = false) (rebuilding : link.rebuild = some r)
    (long : r.droppedAt + SFU_RECONNECT_GIVE_UP_AFTER ≤ now) : (observe earliest link now seen).2 = [.giveUp] := by
  have rebuilds : isRebuilding link = true := by
    unfold isRebuilding
    rw [rebuilding]
    rfl
  unfold observe
  rw [if_neg (Bool.eq_false_iff.mp open'), if_pos rebuilds]
  unfold pollRebuild
  rw [rebuilding]
  dsimp only
  rw [if_pos (by omega), giveUp, if_neg (Bool.eq_false_iff.mp open')]
  rfl

theorem observe_answered (open' : link.gaveUp = false) (idle : isRebuilding link = false)
    (answered : seen.ownSilent < LINK_STALL) : observe earliest link now seen = observeAnswered earliest link now seen := by
  unfold observe
  rw [if_neg (Bool.eq_false_iff.mp open'), if_neg (Bool.eq_false_iff.mp idle), if_neg (not_le.mpr answered)]

theorem answered_host (host : link.role = .host) (shown : isReconnecting link = true) :
    (observeAnswered earliest link now seen).2 = [.showResumed] := by
  unfold observeAnswered
  rw [host]
  dsimp only
  rw [if_pos shown, resume, if_pos shown]
  rfl

/-- A viewer with no frame for 30 s. -/
theorem answered_viewer (viewer : link.role = .viewer) (open' : link.gaveUp = false) (frame : seen.newFrame = false)
    {since : Int} (shown : link.reconnectingSince = some since) (long : since + SFU_RECONNECT_GIVE_UP_AFTER ≤ now) :
    (observeAnswered earliest link now seen).2 = [.giveUp] := by
  have ends (other : StreamLink) (same : other.reconnectingSince = some since) (open' : other.gaveUp = false) :
      (pollFrame other now []).2 = [.giveUp] := by
    unfold pollFrame
    rw [same]
    dsimp only
    rw [if_pos (by omega), giveUp, if_neg (Bool.eq_false_iff.mp open')]
    rfl
  unfold observeAnswered
  rw [viewer]
  dsimp only
  rw [if_neg (Bool.eq_false_iff.mp frame)]
  split_ifs with silent
  · unfold showReconnecting
    rw [shown]
    exact ends _ rfl open'
  · exact ends link shown open'

end Ticks

theorem due_of_inv {earliest : Int} {s : State} (inv : Inv earliest s.link s.log) : Due earliest s := by
  intro since now seen fresh shown long
  rw [inv.givenUp] at fresh
  rw [inv.outage] at shown
  refine ⟨?_, ?_, ?_⟩
  · intro rebuilding
    obtain ⟨r, rebuilds⟩ := Option.isSome_iff_exists.mp rebuilding
    obtain rfl : since = r.droppedAt := Option.some.inj (shown.symm.trans (inv.since r rebuilds))
    exact observe_rebuilding fresh rebuilds long
  · intro idle answered viewer frame
    rw [observe_answered fresh idle answered]
    exact answered_viewer viewer fresh frame shown long
  · intro idle answered host
    rw [observe_answered fresh idle answered]
    exact answered_host host (Option.isSome_iff_exists.mpr ⟨since, shown⟩)

/-- For every role and every sequence of calls. -/
theorem in_order (earliest : Int) (role : StreamRole) (calls : List (Call × Int)) :
    Always (step earliest) (fun s => Ordered earliest s.log ∧ Due earliest s) (start role) calls := by
  have all : Always (step earliest) (fun s => Inv earliest s.link s.log) (start role) calls := by
    refine always_of_eachStep (fun _ _ _ inv _ stepped => inv_step inv stepped) ?_ calls (eachStep_true calls)
    exact inv_start earliest role
  exact all.imp fun s inv => ⟨inv.ordered, due_of_inv inv⟩

def silent (ms : Nat) : Call := .observe { ownSilent := fromMillis ms, hostSilent := none, newFrame := false }

def calls (timed : List (Call × Nat)) : List (Call × Int) := timed.map fun (asked, ms) => (asked, fromMillis ms)

/-- A host 40 s into an outage resumes when its own link answers. A viewer that was rejoined attempts
the next rejoin 101 ms after the last, in one outage. A host that gave up resumes when an attempt succeeds. -/
theorem out_of_order :
    (∃ s, run (step 0) (start .host) (calls [(silent 1000, 1000), (silent 1000, 41000)]) = some s ∧
      givenUp s.log = false ∧ outage 0 s.log = some 0 ∧
      (observe 0 s.link (fromMillis 41001) { ownSilent := 0, hostSilent := none, newFrame := false }).2 = [.showResumed]) ∧
    (∃ s, run (step 0) (start .viewer) (calls [(.dropped, 0), (silent 0, 500), (.rejoined, 600), (.dropped, 601)]) = some s ∧
      s.log =
        [.returned .rejoin .dropped (fromMillis 601), .called .dropped (fromMillis 601), .called .rejoined (fromMillis 600),
          .returned .rejoin (silent 0) (fromMillis 500), .called (silent 0) (fromMillis 500),
          .returned .showReconnecting .dropped 0, .called .dropped 0]) ∧
    ∃ s, run (step 0) (start .host) (calls [(.dropped, 0), (silent 0, 500), (silent 0, 30000), (.rejoined, 30001)]) = some s ∧
      s.log =
        [.returned .showResumed .rejoined (fromMillis 30001), .called .rejoined (fromMillis 30001),
          .returned .giveUp (silent 0) (fromMillis 30000), .called (silent 0) (fromMillis 30000),
          .returned .rejoin (silent 0) (fromMillis 500), .called (silent 0) (fromMillis 500),
          .returned .showReconnecting .dropped 0, .called .dropped 0] :=
  ⟨⟨_, rfl, by decide⟩, ⟨_, rfl, by decide⟩, ⟨_, rfl, by decide⟩⟩

end Mello.Core.StreamReconnect
