import Mello.Core.TelemetryWorkers

/-!
One worker digests at a time, where a start finds no worker of an earlier start alive.
Of both programs: what a worker may still digest only shrinks until it opens something
new, and with the flag down a worker at its check sends nothing more.
-/

namespace Mello.Core.TelemetrySingle
open Mello.Library Runs Workers Telemetry TelemetryWorkers

/-! ## The stream of Rocket League -/

namespace Stream
open RocketLeague TelemetryWorkers.Stream

/-- The number from which on a place may digest envelopes. -/
def from? : Place → Option ℕ
  | .reading next => some next
  | .checking got => got.map Prod.fst
  | .digesting number _ => some number
  | _ => none

/-- The number of the envelope in hand. -/
def hand? : Place → Option ℕ
  | .checking got => got.map Prod.fst
  | .digesting number _ => some number
  | _ => none

theorem deliver_next {running : Bool} {result : RlState × List TelemetryEvent} {digested : Option ℕ} {next : Place}
    {choice : Choice} {place : Place} (goes : (deliver running result digested next choice).next = some place) :
    place = next := by
  unfold deliver at goes
  dsimp only at goes
  split_ifs at goes
  exact (Option.some.inj goes).symm

variable {envelopes : List Envelope} {running : Bool} {st : RlState} {place next : Place} {choice : Choice}
  {after : Turn RlState Place TelemetryEvent ℕ}

/-- Where a worker goes on: with an envelope that is there, with a later one, or with the
next that the game writes. -/
theorem turn_next (turned : turn envelopes running st place choice = some after) (goes : after.next = some next) :
    (∀ n, hand? next = some n → hand? place = some n ∨ n < envelopes.length) ∧
      ∀ n, from? next = some n → n = envelopes.length ∨ ∃ k, from? place = some k ∧ k ≤ n := by
  cases place with
  | top =>
    obtain rfl := Option.some.inj turned
    dsimp only at goes
    split_ifs at goes
    obtain rfl := Option.some.inj goes
    exact ⟨nofun, nofun⟩
  | connecting =>
    obtain rfl := Option.some.inj turned
    obtain rfl := Option.some.inj goes
    cases choice with
    | ok => exact ⟨nofun, fun n same => .inl (Option.some.inj same).symm⟩
    | err | closed | hungUp => exact ⟨nofun, nofun⟩
  | reading first =>
    have step : choice = .closed ∨ choice = .err ∨
        (envelopes[first]?.map fun envelope =>
          ({ next := some (.checking (some (first, envelope))), running, shared := st } :
            Turn RlState Place TelemetryEvent ℕ)) = some after := by
      cases choice with
      | closed => exact .inl rfl
      | err => exact .inr (.inl rfl)
      | ok | hungUp => exact .inr (.inr turned)
    rcases step with rfl | rfl | moved
    · obtain rfl := Option.some.inj turned
      obtain rfl := Option.some.inj goes
      exact ⟨nofun, nofun⟩
    · obtain rfl := Option.some.inj turned
      obtain rfl := Option.some.inj goes
      exact ⟨nofun, nofun⟩
    · obtain ⟨envelope, found, rfl⟩ := Option.map_eq_some_iff.mp moved
      obtain rfl := Option.some.inj goes
      refine ⟨fun n same => ?_, fun n same => ?_⟩
      · obtain rfl := Option.some.inj same
        exact .inr (List.getElem?_eq_some_iff.mp found).1
      · exact .inr ⟨first, rfl, (Option.some.inj same).le⟩
  | checking got =>
    obtain rfl := Option.some.inj turned
    dsimp only at goes
    split_ifs at goes
    obtain rfl := Option.some.inj goes
    cases got with
    | none => exact ⟨nofun, nofun⟩
    | some got => exact ⟨fun n same => .inl same, fun n same => .inr ⟨n, same, le_rfl⟩⟩
  | digesting number envelope =>
    obtain rfl := Option.some.inj turned
    obtain rfl := deliver_next goes
    exact ⟨nofun, fun n same => .inr ⟨number, rfl, (Nat.le_succ number).trans_eq (Option.some.inj same)⟩⟩
  | ending =>
    obtain rfl := Option.some.inj turned
    obtain rfl := deliver_next goes
    exact ⟨nofun, nofun⟩
  | sleeping slept =>
    obtain rfl := Option.some.inj turned
    split_ifs at goes with waits up
    · obtain rfl := Option.some.inj goes
      exact ⟨nofun, nofun⟩
    · obtain rfl := Option.some.inj goes
      exact ⟨nofun, nofun⟩

theorem digested_turn {number : ℕ} (turned : turn envelopes running st place choice = some after)
    (digested : after.digested = some number) :
    (∃ envelope, place = .digesting number envelope) ∧ ∀ next, after.next = some next → next = .reading (number + 1) := by
  cases place with
  | digesting other envelope =>
    obtain rfl := Option.some.inj turned
    obtain rfl : other = number := Option.some.inj digested
    exact ⟨⟨envelope, rfl⟩, fun next goes => deliver_next goes⟩
  | top | connecting | checking | ending =>
    obtain rfl := Option.some.inj turned
    cases digested
  | sleeping slept =>
    obtain rfl := Option.some.inj turned
    split_ifs at digested
  | reading first =>
    cases choice with
    | closed | err =>
      obtain rfl := Option.some.inj turned
      cases digested
    | ok | hungUp =>
      obtain ⟨envelope, -, rfl⟩ := Option.map_eq_some_iff.mp turned
      cases digested

/-- With no match active, a place behind the check of the flag sends nothing. -/
def Quiet (st : RlState) (place : Place) : Prop :=
  st.matchActive = false ∧ ∀ number envelope, place ≠ .digesting number envelope

theorem quiet_turn (quiet : Quiet st place) (turned : turn envelopes false st place choice = some after) :
    after.events = [] ∧ after.running = false ∧ ∀ next, after.next = some next → Quiet after.shared next := by
  obtain ⟨inactive, held⟩ := quiet
  cases place with
  | digesting number envelope => exact absurd rfl (held number envelope)
  | top | checking =>
    obtain rfl := Option.some.inj turned
    exact ⟨rfl, rfl, nofun⟩
  | connecting =>
    obtain rfl := Option.some.inj turned
    refine ⟨rfl, rfl, fun next goes => ⟨inactive, ?_⟩⟩
    obtain rfl := Option.some.inj goes
    cases choice <;> exact fun _ _ => nofun
  | reading first =>
    cases choice with
    | closed | err =>
      obtain rfl := Option.some.inj turned
      refine ⟨rfl, rfl, fun next goes => ⟨inactive, ?_⟩⟩
      obtain rfl := Option.some.inj goes
      exact fun _ _ => nofun
    | ok | hungUp =>
      obtain ⟨envelope, -, rfl⟩ := Option.map_eq_some_iff.mp turned
      refine ⟨rfl, rfl, fun next goes => ⟨inactive, ?_⟩⟩
      obtain rfl := Option.some.inj goes
      exact fun _ _ => nofun
  | ending =>
    have nothing : finalizeIncomplete st = (st, []) := by
      unfold finalizeIncomplete
      rw [inactive]
      rfl
    obtain rfl := Option.some.inj turned
    rw [nothing]
    have sends : send [] choice = ([], true) := by cases choice <;> rfl
    unfold deliver
    rw [sends]
    refine ⟨rfl, rfl, fun next goes => ⟨inactive, ?_⟩⟩
    obtain rfl := Option.some.inj goes
    exact fun _ _ => nofun
  | sleeping slept =>
    obtain rfl := Option.some.inj turned
    by_cases waits : slept < RECONNECT_INTERVAL_MS
    · rw [if_pos waits]
      exact ⟨rfl, rfl, nofun⟩
    · rw [if_neg waits]
      refine ⟨rfl, rfl, fun next goes => ⟨inactive, ?_⟩⟩
      obtain rfl := Option.some.inj goes
      exact fun _ _ => nofun

def discipline : Discipline program where
  there envelopes number := number < envelopes.length
  sound envelopes place := ∀ number, hand? place = some number → number < envelopes.length
  may _ place number := ∃ k, from? place = some k ∧ k ≤ number
  opens _ _ _ _ := False
  quiet := Quiet
  sound_first _ := nofun
  sound_grow sound number held := by
    rw [program, List.length_append]
    exact (sound number held).trans (Nat.lt_succ_self _)
  sound_turn sound turned goes number held := ((turn_next turned goes).1 number held).elim (sound number) id
  not_first _ _ := nofun
  there_grow there := by
    rw [program, List.length_append]
    exact there.trans (Nat.lt_succ_self _)
  may_grow _ may := may
  digests sound turned digested := by
    obtain ⟨⟨envelope, rfl⟩, goes⟩ := digested_turn turned digested
    refine ⟨sound _ rfl, ⟨_, rfl, le_rfl⟩, ?_⟩
    rintro next moved ⟨k, from_, le⟩
    obtain rfl := goes next moved
    obtain rfl := Option.some.inj from_
    exact absurd le (Nat.not_succ_le_self _)
  may_turn turned goes may := by
    obtain ⟨k, from_, le⟩ := may
    rcases (turn_next turned goes).2 k from_ with rfl | ⟨first, before, less⟩
    · exact .inr (.inl (Nat.not_lt.mpr le))
    · exact .inl ⟨first, before, less.trans le⟩
  quiet_turn := quiet_turn

/-- One step from a reset on: only an envelope in hand can make a match active. -/
theorem calms (inactive : ∀ number envelope, place = .digesting number envelope → (digest {} envelope).1.matchActive = false) :
    discipline.Calms place := by
  intro envelopes choice after turned
  by_cases held : ∃ number envelope, place = .digesting number envelope
  · obtain ⟨number, envelope, rfl⟩ := held
    obtain rfl := Option.some.inj turned
    refine ⟨rfl, fun next goes => ⟨inactive number envelope rfl, ?_⟩⟩
    obtain rfl := deliver_next goes
    exact fun _ _ => nofun
  · exact (quiet_turn ⟨rfl, fun number envelope same => held ⟨number, envelope, same⟩⟩ turned).2

end Stream

/-! ## The tail of a log -/

namespace Tail
open TelemetryWorkers.Tail

variable {Line Shared : Type} {adapter : Adapter Line Shared} {files : ℕ → List Line} {running : Bool} {st : Shared}
  {place next : Place Line} {choice : Choice} {after : Turn Shared (Place Line) TelemetryEvent (ℕ × ℕ)}

/-- The line in hand is there. -/
def Sound (files : ℕ → List Line) (place : Place Line) : Prop :=
  place.phase = .digesting → ∀ file number, place.current = some (file, number) → number < (files file).length

/-- A line of the open file, from the reader on. -/
def May (place : Place Line) (line : ℕ × ℕ) : Prop := ∃ number, place.current = some (line.1, number) ∧ number ≤ line.2

/-- A poll that opens the file of the line. -/
def Opens (place : Place Line) (choice : Choice) (line : ℕ × ℕ) : Prop := place.phase = .polling ∧ choice = .opened line.1

theorem may_of_poll {line : ℕ × ℕ} {number : ℕ} (found : poll adapter files place.current choice = some (line.1, number))
    (le : number ≤ line.2) : May place line ∨ choice = .opened line.1 := by
  cases choice with
  | kept | unreadable => exact .inl ⟨number, found, le⟩
  | lost => cases found
  | opened file =>
    unfold poll at found
    dsimp only at found
    split at found
    all_goals
      obtain ⟨rfl, -⟩ := Prod.mk.inj (Option.some.inj found)
      exact .inr rfl

/-- A read takes a line that is there, or leaves the reader where it is or behind the line. -/
theorem read_spec (files : ℕ → List Line) (place : Place Line) (choice : Choice) :
    Sound files (read files place choice) ∧ ∀ line, May (read files place choice) line → May place line := by
  unfold TelemetryWorkers.Tail.read
  obtain ⟨phase, current, held, caughtUp⟩ := place
  cases current with
  | none =>
    refine ⟨nofun, ?_⟩
    rintro line ⟨k, found, le⟩
    cases found
  | some reader =>
    obtain ⟨file, number⟩ := reader
    dsimp only
    cases found : (files file)[number]? with
    | none => exact ⟨nofun, fun line may => may⟩
    | some text =>
      cases choice with
      | lost => exact ⟨nofun, fun line may => may⟩
      | unreadable =>
        refine ⟨nofun, ?_⟩
        rintro line ⟨k, same, le⟩
        obtain ⟨rfl, rfl⟩ := Prod.mk.inj (Option.some.inj same)
        exact ⟨number, rfl, (Nat.le_succ number).trans le⟩
      | kept | opened =>
        refine ⟨fun _ file' number' same => ?_, fun line may => may⟩
        obtain ⟨rfl, rfl⟩ := Prod.mk.inj (Option.some.inj same)
        exact (List.getElem?_eq_some_iff.mp found).1

theorem length_grow (files : ℕ → List Line) (change : ℕ × Line) (file : ℕ) :
    (files file).length ≤ ((program adapter).grow files change file).length := by
  unfold program
  dsimp only
  rcases eq_or_ne file change.1 with rfl | other
  · rw [Function.update_self, List.length_append]
    exact Nat.le_add_right _ _
  · rw [Function.update_of_ne other]

theorem digests_next (phase : place.phase = .digesting)
    (turned : turn adapter files running st place choice = some after) :
    after.running = running ∧ ∃ file number, place.current = some (file, number) ∧ after.digested = some (file, number) ∧
      ∀ next, after.next = some next → next.phase = .checking ∧ next.current = some (file, number + 1) := by
  unfold turn at turned
  rw [phase] at turned
  dsimp only at turned
  split at turned
  · next line file number _ here =>
    obtain rfl := Option.some.inj turned
    refine ⟨rfl, file, number, here, rfl, fun next goes => ?_⟩
    obtain rfl := Option.some.inj goes
    exact ⟨rfl, rfl⟩
  · cases turned

/-- Where a worker goes on: with no more than before, or with the file that a poll opens. -/
theorem turn_next (turned : turn adapter files running st place choice = some after) (goes : after.next = some next) :
    Sound files next ∧ ∀ line, May next line → May place line ∨ Opens place choice line := by
  obtain ⟨phase, current, held, caughtUp⟩ := place
  cases phase with
  | top | checking =>
    obtain rfl := Option.some.inj turned
    dsimp only at goes
    split_ifs at goes
    obtain rfl := Option.some.inj goes
    exact ⟨nofun, fun line may => .inl may⟩
  | polling =>
    obtain rfl := Option.some.inj turned
    obtain rfl := Option.some.inj goes
    refine ⟨?_, ?_⟩
    · intro phase
      dsimp only at phase
      split_ifs at phase
    · rintro line ⟨number, found, le⟩
      exact (may_of_poll found le).imp_right fun opened => ⟨rfl, opened⟩
  | reading =>
    obtain rfl := Option.some.inj turned
    obtain rfl := Option.some.inj goes
    obtain ⟨sound, may⟩ := read_spec files { phase := .reading, current, line := held, caughtUp } choice
    exact ⟨sound, fun line later => .inl (may line later)⟩
  | digesting =>
    obtain ⟨-, file, number, here, -, moves⟩ := digests_next rfl turned
    obtain ⟨phase, moved⟩ := moves next goes
    have apart : next.phase ≠ .digesting := by
      rw [phase]
      exact nofun
    refine ⟨fun same => absurd same apart, ?_⟩
    rintro line ⟨k, found, le⟩
    obtain ⟨rfl, rfl⟩ := Prod.mk.inj (Option.some.inj (moved.symm.trans found))
    exact .inl ⟨number, here, (Nat.le_succ number).trans le⟩
  | pausing | sleeping =>
    obtain rfl := Option.some.inj turned
    obtain rfl := Option.some.inj goes
    exact ⟨nofun, fun line may => .inl may⟩

theorem digesting_of_digested {line : ℕ × ℕ} (turned : turn adapter files running st place choice = some after)
    (digested : after.digested = some line) : place.phase = .digesting := by
  obtain ⟨phase, current, held, caughtUp⟩ := place
  cases phase with
  | digesting => rfl
  | top | polling | reading | checking | pausing | sleeping =>
    obtain rfl := Option.some.inj turned
    cases digested

/-- At or before the check of the flag. -/
def Quiet (place : Place Line) : Prop := place.phase = .top ∨ place.phase = .checking ∨ place.phase = .sleeping

theorem quiet_turn (quiet : Quiet place) (turned : turn adapter files false st place choice = some after) :
    after.events = [] ∧ after.running = false ∧ ∀ next, after.next = some next → Quiet next := by
  obtain ⟨phase, current, held, caughtUp⟩ := place
  rcases quiet with rfl | rfl | rfl
  · obtain rfl := Option.some.inj turned
    exact ⟨rfl, rfl, nofun⟩
  · obtain rfl := Option.some.inj turned
    exact ⟨rfl, rfl, nofun⟩
  · obtain rfl := Option.some.inj turned
    refine ⟨rfl, rfl, fun next goes => ?_⟩
    obtain rfl := Option.some.inj goes
    exact .inl rfl

def discipline (adapter : Adapter Line Shared) : Discipline (program adapter) where
  there files line := line.2 < (files line.1).length
  sound := Sound
  may _ := May
  opens _ := Opens
  quiet _ := Quiet
  sound_first _ := nofun
  sound_grow := by
    intro files change place sound phase file number current
    exact (sound phase file number current).trans_le (length_grow files change file)
  sound_turn _ turned goes := (turn_next turned goes).1
  not_first := by
    rintro files line ⟨number, found, -⟩
    cases found
  there_grow := by
    intro files change line there
    exact there.trans_le (length_grow files change line.1)
  may_grow _ may := may
  digests := by
    intro files running st place choice after line sound turned digested
    have phase := digesting_of_digested turned digested
    obtain ⟨-, file, number, here, this, moves⟩ := digests_next phase turned
    obtain rfl := Option.some.inj (this.symm.trans digested)
    refine ⟨sound phase file number here, ⟨number, here, le_rfl⟩, ?_⟩
    rintro next goes ⟨k, found, le⟩
    obtain ⟨-, rfl⟩ := Prod.mk.inj (Option.some.inj ((moves next goes).2.symm.trans found))
    exact absurd le (Nat.not_succ_le_self _)
  may_turn turned goes may := ((turn_next turned goes).2 _ may).imp_right .inr
  quiet_turn := quiet_turn

/-- One step from a reset on, of a worker that is not between its check and a line. -/
theorem calms (apart : place.phase ≠ .polling ∧ place.phase ≠ .reading) : (discipline adapter).Calms place := by
  intro files choice after turned
  have calm : turn adapter files false adapter.fresh place choice = some after →
      after.running = false ∧ ∀ next, after.next = some next → Quiet next := by
    intro turned
    cases phase : place.phase with
    | top => exact (quiet_turn (.inl phase) turned).2
    | checking => exact (quiet_turn (.inr (.inl phase)) turned).2
    | sleeping => exact (quiet_turn (.inr (.inr phase)) turned).2
    | polling => exact absurd phase apart.1
    | reading => exact absurd phase apart.2
    | digesting =>
      obtain ⟨down, file, number, -, -, moves⟩ := digests_next phase turned
      exact ⟨down, fun next goes => .inr (.inl (moves next goes).1)⟩
    | pausing =>
      unfold turn at turned
      rw [phase] at turned
      obtain rfl := Option.some.inj turned
      refine ⟨rfl, fun next goes => ?_⟩
      obtain rfl := Option.some.inj goes
      exact .inr (.inr rfl)
  exact calm turned

end Tail

/-! ## Every run -/

/-- Along every run of orderly calls, at most one worker of an adapter digests between
two starts, no envelope and no line is digested twice, and after a reset no event goes
out once each worker has taken a step. -/
theorem one_worker (calls : List (Action RocketLeague.Envelope Stream.Choice))
    (orderly : EachStep (step Stream.program) Stream.Orderly Stream.adapter calls)
    {Line Shared : Type} (adapter : Tail.Adapter Line Shared) (files : ℕ → List Line)
    (tailCalls : List (Action (ℕ × Line) Tail.Choice))
    (tailOrderly : EachStep (step (Tail.program adapter)) Tail.Orderly (Tail.stopped adapter files) tailCalls) :
    Always (step Stream.program) OneWorker Stream.adapter calls ∧
      Always (step (Tail.program adapter)) OneWorker (Tail.stopped adapter files) tailCalls := by
  constructor
  · refine Discipline.oneWorker_always Stream.discipline [] {} calls ?_
    refine orderly.imp (fun _ => True) (fun s call _ _ met _ => ⟨?_, trivial⟩) trivial
    cases call with
    | start spawns => exact met
    | reset => exact fun w place here => Stream.calms fun number envelope same => met w number envelope (same ▸ here)
    | grow change => trivial
    | work w choice => exact fun _ _ _ _ => id
  · refine Discipline.oneWorker_always (Tail.discipline adapter) files adapter.fresh tailCalls ?_
    refine tailOrderly.imp (fun _ => True) (fun s call _ _ met _ => ⟨?_, trivial⟩) trivial
    cases call with
    | start spawns => exact met
    | reset => exact fun w place here => Tail.calms (met w place here)
    | grow change => trivial
    | work w choice =>
      rintro place here e member ⟨phase, rfl⟩
      exact met place here phase e member rfl

/-- A tick of a match. -/
def tick : RocketLeague.Envelope := { event := "UpdateState", updateState := some {} }

/-- A tick is digested, and the reset finds the worker at its next read. -/
def played : List (Action RocketLeague.Envelope Stream.Choice) :=
  [.start true, .work 0 .ok, .work 0 .ok, .grow tick, .work 0 .ok, .work 0 .ok, .work 0 .ok, .reset, .work 0 .closed]

/-- A line is digested, and the reset finds the worker at its check. -/
def joined : List (Action (ℕ × Option Roblox.Mark) Tail.Choice) :=
  [.start true, .work 0 .kept, .grow (0, some (.joined "place" 5)), .work 0 (.opened 0), .work 0 .kept, .work 0 .kept, .reset]

theorem one_worker_played :
    Always (step Stream.program) OneWorker Stream.adapter played ∧
      Always (step (Tail.program (Roblox.adapter id))) OneWorker (Tail.stopped (Roblox.adapter id) fun _ => []) joined := by
  refine one_worker played ?_ (Roblox.adapter id) (fun _ => []) joined ?_
  · refine .cons rfl (fun _ w => rfl) (.cons rfl trivial (.cons rfl trivial (.cons rfl trivial (.cons rfl trivial
      (.cons rfl trivial (.cons rfl trivial (.cons rfl ?_ (.cons rfl trivial trivial))))))))
    intro w number envelope here
    cases w with
    | zero => cases here
    | succ w => cases here
  · refine .cons rfl (fun _ w => rfl) (.cons rfl trivial (.cons rfl trivial (.cons rfl ?_ (.cons rfl trivial (.cons rfl trivial
      (.cons rfl ?_ trivial))))))
    · exact fun place _ _ e => nofun
    · intro w place here
      cases w with
      | zero =>
        obtain rfl := Option.some.inj here
        exact ⟨nofun, nofun⟩
      | succ w => cases here

/-- A reset and a start while the first worker waits for the socket. -/
def restarted : List (Action RocketLeague.Envelope Stream.Choice) :=
  [.start true, .work 0 .ok, .work 0 .ok, .reset, .start true, .work 1 .ok, .work 1 .ok, .grow tick,
    .work 0 .ok, .work 0 .ok, .work 0 .ok, .work 1 .ok, .work 1 .ok, .work 1 .ok]

/-- A reset between the check and the digest, and the socket closes. -/
def cutOff : List (Action RocketLeague.Envelope Stream.Choice) :=
  [.start true, .work 0 .ok, .work 0 .ok, .grow tick, .work 0 .ok, .work 0 .ok, .reset,
    .work 0 .ok, .work 0 .closed, .work 0 .ok]

/-- Both workers digest the one tick, and a match ends after the reset. -/
theorem digested_twice :
    (run (step Stream.program) Stream.adapter restarted).map (fun s => s.digests) = some [⟨0, 2, 0⟩, ⟨1, 2, 0⟩] ∧
      (run (step Stream.program) Stream.adapter cutOff).map (fun s => s.late) = some true ∧
        ¬Always (step Stream.program) OneWorker Stream.adapter restarted := by
  have twice : (run (step Stream.program) Stream.adapter restarted).map (fun s => s.digests) =
      some [⟨0, 2, 0⟩, ⟨1, 2, 0⟩] := by decide +kernel
  refine ⟨twice, by decide +kernel, ?_⟩
  obtain ⟨s, ran, same⟩ := Option.map_eq_some_iff.mp twice
  refine not_always_of_run ran fun law => ?_
  have once := law.once
  rw [same] at once
  revert once
  decide

end Mello.Core.TelemetrySingle
