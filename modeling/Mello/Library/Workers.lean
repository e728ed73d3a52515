import Mello.Library.Runs

/-!
Workers that one flag stops. A start that finds the flag down raises it and adds a
worker, a reset takes it down, and a worker looks at it where its program says so. Each
call and each step of a worker is one step of a run, in any order.
-/

namespace Mello.Library.Workers
open Runs

variable {World Change Shared Local Choice Event Id : Type*}

/-- What one step of a worker does, and where the worker goes on. -/
structure Turn (Shared Local Event Id : Type*) where
  /-- `none` for a worker that returns. -/
  next : Option Local
  running : Bool
  shared : Shared
  events : List Event := []
  /-- The piece of input that the step digests. -/
  digested : Option Id := none

/-- What the workers of one flag run. -/
structure Program (World Change Shared Local Choice Event Id : Type*) where
  /-- The shared state that a reset leaves, and that a start leaves. -/
  fresh : Shared
  primed : Shared
  first : Local
  /-- The flag after a start that could not spawn its worker. -/
  unspawned : Bool
  grow : World → Change → World
  /-- No turn where the worker blocks. -/
  turn : World → Bool → Shared → Local → Choice → Option (Turn Shared Local Event Id)

/-- A digest, with the number of workers started by then. -/
structure Digest (Id : Type*) where
  worker : ℕ
  starts : ℕ
  id : Id
  deriving DecidableEq, Repr

structure State (World Shared Local Event Id : Type*) where
  world : World
  running : Bool := false
  shared : Shared
  workers : List (Option Local) := []
  sent : List Event := []
  digests : List (Digest Id) := []
  /-- After a reset with no later start: the workers that have taken no step since. -/
  waiting : Option (List ℕ) := none
  /-- An event was sent when each worker had taken a step. -/
  late : Bool := false

inductive Action (Change Choice : Type*) where
  | start (spawns : Bool)
  | reset
  | grow (change : Change)
  | work (worker : ℕ) (choice : Choice)

namespace State

/-- Where a worker is, if it is alive. -/
def place (s : State World Shared Local Event Id) (w : ℕ) : Option Local := s.workers[w]?.join

def alive (s : State World Shared Local Event Id) : List ℕ :=
  (List.range s.workers.length).filter fun w => (s.place w).isSome

/-- The state behind a turn of a worker. -/
def after (s : State World Shared Local Event Id) (w : ℕ) (turn : Turn Shared Local Event Id) :
    State World Shared Local Event Id :=
  { s with
    running := turn.running
    shared := turn.shared
    workers := s.workers.set w turn.next
    sent := s.sent ++ turn.events
    digests := s.digests ++ (turn.digested.map fun id => ⟨w, s.workers.length, id⟩).toList
    waiting := s.waiting.map fun left => left.filter (· ≠ w)
    late := s.late || (s.waiting.any List.isEmpty && !turn.events.isEmpty) }

end State

variable (p : Program World Change Shared Local Choice Event Id)

def step (s : State World Shared Local Event Id) : Action Change Choice → Option (State World Shared Local Event Id)
  | .start spawns =>
    some (if s.running then s
      else if spawns then
        { s with running := true, shared := p.primed, workers := s.workers ++ [some p.first], waiting := none }
      else { s with running := p.unspawned, shared := p.primed, waiting := none })
  | .reset => some { s with running := false, shared := p.fresh, waiting := some s.alive }
  | .grow change => some { s with world := p.grow s.world change }
  | .work w choice => (s.place w).bind fun l => (p.turn s.world s.running s.shared l choice).map (s.after w)

/-- Between two starts one worker digests, nothing is digested twice, and after a reset
no worker sends once each of them has taken a step. -/
structure OneWorker (s : State World Shared Local Event Id) : Prop where
  one : ∀ a ∈ s.digests, ∀ b ∈ s.digests, a.starts = b.starts → a.worker = b.worker
  once : (s.digests.map Digest.id).Nodup
  quiet : s.late = false

/-! ## What a program keeps -/

/-- What a worker may still digest, and from where on it sends nothing with the flag down. -/
structure Discipline where
  /-- The input that is there. -/
  there : World → Id → Prop
  /-- What a worker has in hand is there. -/
  sound : World → Local → Prop
  may : World → Local → Id → Prop
  /-- What a step may digest from now on that it could not before. -/
  opens : World → Local → Choice → Id → Prop
  quiet : Shared → Local → Prop
  sound_first : ∀ world, sound world p.first
  sound_grow : ∀ {world change l}, sound world l → sound (p.grow world change) l
  sound_turn : ∀ {world running shared l choice turn next}, sound world l →
    p.turn world running shared l choice = some turn → turn.next = some next → sound world next
  not_first : ∀ world id, ¬may world p.first id
  there_grow : ∀ {world change id}, there world id → there (p.grow world change) id
  may_grow : ∀ {world change l id}, there world id → may (p.grow world change) l id → may world l id
  digests : ∀ {world running shared l choice turn id}, sound world l →
    p.turn world running shared l choice = some turn → turn.digested = some id → there world id ∧ may world l id ∧ ∀ next, turn.next = some next → ¬may world next id
  may_turn : ∀ {world running shared l choice turn next id}, p.turn world running shared l choice = some turn →
    turn.next = some next → may world next id → may world l id ∨ ¬there world id ∨ opens world l choice id
  quiet_turn : ∀ {world shared l choice turn}, quiet shared l → p.turn world false shared l choice = some turn →
    turn.events = [] ∧ turn.running = false ∧ ∀ next, turn.next = some next → quiet turn.shared next

variable {p}

namespace Discipline

variable (d : Discipline p)

/-- From a reset on, one step of a worker here is all that may send. -/
def Calms (l : Local) : Prop :=
  ∀ world choice turn, p.turn world false p.fresh l choice = some turn →
    turn.running = false ∧ ∀ next, turn.next = some next → d.quiet turn.shared next

/-- A start that raises the flag finds no worker alive, a reset finds workers that one
step calms, and no step opens what has been digested. -/
def Orderly (s : State World Shared Local Event Id) : Action Change Choice → Prop
  | .start _ => s.running = false → ∀ w, s.place w = none
  | .reset => ∀ w l, s.place w = some l → d.Calms l
  | .grow _ => True
  | .work w choice => ∀ l, s.place w = some l → ∀ e ∈ s.digests, ¬d.opens s.world l choice e.id

/-- The last worker is the one alive, and digests nothing again. -/
structure Inv (s : State World Shared Local Event Id) : Prop where
  last : ∀ w l, s.place w = some l → w + 1 = s.workers.length
  own : ∀ e ∈ s.digests, e.worker + 1 = e.starts
  sound : ∀ w l, s.place w = some l → d.sound s.world l
  there : ∀ e ∈ s.digests, d.there s.world e.id
  done : ∀ w l, s.place w = some l → ∀ e ∈ s.digests, ¬d.may s.world l e.id
  once : (s.digests.map Digest.id).Nodup
  calm : ∀ left, s.waiting = some left → s.running = false ∧ ∀ w l, s.place w = some l →
    (w ∈ left → s.shared = p.fresh ∧ d.Calms l) ∧ (w ∉ left → d.quiet s.shared l)
  quiet : s.late = false

variable {d} {s : State World Shared Local Event Id}

theorem Inv.oneWorker (inv : d.Inv s) : OneWorker s where
  one a here b there same := by
    have first := inv.own a here
    have second := inv.own b there
    omega
  once := inv.once
  quiet := inv.quiet

theorem place_append (s : State World Shared Local Event Id) (l : Local) (w : ℕ) :
    (s.workers ++ [some l])[w]?.join = if w = s.workers.length then some l else s.place w := by
  unfold State.place
  rcases Nat.lt_trichotomy w s.workers.length with less | rfl | more
  · rw [List.getElem?_append_left less, if_neg less.ne]
  · rw [List.getElem?_concat_length, if_pos rfl]
    rfl
  · rw [List.getElem?_eq_none (by
      rw [List.length_append, List.length_singleton]
      omega), if_neg more.ne', List.getElem?_eq_none more.le]

theorem Inv.start (inv : d.Inv s) (spawns : Bool) (none_ : s.running = false → ∀ w, s.place w = none)
    {t : State World Shared Local Event Id} (stepped : step p s (.start spawns) = some t) : d.Inv t := by
  obtain rfl := Option.some.inj stepped
  split_ifs with raised
  · exact inv
  · have free := none_ (Bool.eq_false_iff.mpr raised)
    have placed : ∀ w l, (s.workers ++ [some p.first])[w]?.join = some l → w = s.workers.length ∧ l = p.first := by
      intro w l there
      rw [place_append] at there
      split_ifs at there with this
      · exact ⟨this, (Option.some.inj there).symm⟩
      · rw [free w] at there
        cases there
    refine ⟨?_, inv.own, ?_, inv.there, ?_, inv.once, nofun, inv.quiet⟩
    · intro w l there
      rw [(placed w l there).1, List.length_append]
      rfl
    · intro w l there
      rw [(placed w l there).2]
      exact d.sound_first _
    · intro w l there e member
      rw [(placed w l there).2]
      exact d.not_first _ _
  · exact ⟨inv.last, inv.own, inv.sound, inv.there, inv.done, inv.once, nofun, inv.quiet⟩

theorem mem_alive {w : ℕ} {l : Local} (there : s.place w = some l) : w ∈ s.alive := by
  have inside : w < s.workers.length := by
    by_contra out
    unfold State.place at there
    rw [List.getElem?_eq_none (Nat.not_lt.mp out)] at there
    cases there
  refine List.mem_filter.mpr ⟨List.mem_range.mpr inside, ?_⟩
  rw [there]
  rfl

theorem Inv.reset (inv : d.Inv s) (calms : ∀ w l, s.place w = some l → d.Calms l)
    {t : State World Shared Local Event Id} (stepped : step p s .reset = some t) : d.Inv t := by
  obtain rfl := Option.some.inj stepped
  refine ⟨inv.last, inv.own, inv.sound, inv.there, inv.done, inv.once, ?_, inv.quiet⟩
  rintro left ⟨⟩
  exact ⟨rfl, fun w l there => ⟨fun _ => ⟨rfl, calms w l there⟩, fun out => absurd (mem_alive there) out⟩⟩

theorem Inv.grow (inv : d.Inv s) (change : Change) {t : State World Shared Local Event Id}
    (stepped : step p s (.grow change) = some t) : d.Inv t := by
  obtain rfl := Option.some.inj stepped
  refine ⟨inv.last, inv.own, fun w l there => d.sound_grow (inv.sound w l there),
    fun e member => d.there_grow (inv.there e member), ?_, inv.once, inv.calm, inv.quiet⟩
  intro w l there e member may
  exact inv.done w l there e member (d.may_grow (inv.there e member) may)

theorem place_after {w v : ℕ} {l : Local} {turn : Turn Shared Local Event Id} (last : ∀ w l, s.place w = some l → w + 1 = s.workers.length)
    (here : s.place w = some l) {next : Local} (there : (s.after w turn).place v = some next) :
    v = w ∧ turn.next = some next := by
  have own := last w l here
  unfold State.place State.after at there
  rcases eq_or_ne v w with rfl | other
  · rw [List.getElem?_set_self (by omega)] at there
    exact ⟨rfl, there⟩
  · rw [List.getElem?_set_ne other.symm] at there
    have also := last v next there
    omega

theorem Inv.work (inv : d.Inv s) {w : ℕ} {choice : Choice} {l : Local} {turn : Turn Shared Local Event Id}
    (here : s.place w = some l) (turned : p.turn s.world s.running s.shared l choice = some turn)
    (opens : ∀ e ∈ s.digests, ¬d.opens s.world l choice e.id) : d.Inv (s.after w turn) := by
  have digested : ∀ e ∈ (s.after w turn).digests, e ∈ s.digests ∨
      ∃ id, turn.digested = some id ∧ e = ⟨w, s.workers.length, id⟩ := by
    intro e member
    rcases List.mem_append.mp member with before | now
    · exact .inl before
    · obtain ⟨id, same, rfl⟩ := Option.map_eq_some_iff.mp (Option.mem_toList.mp now)
      exact .inr ⟨id, same, rfl⟩
  have digests {id : Id} (same : turn.digested = some id) := d.digests (inv.sound w l here) turned same
  refine ⟨?_, ?_, ?_, ?_, ?_, ?_, ?_, ?_⟩
  · intro v next there
    obtain ⟨rfl, -⟩ := place_after inv.last here there
    rw [inv.last v l here]
    exact List.length_set.symm
  · intro e member
    rcases digested e member with before | ⟨id, -, rfl⟩
    · exact inv.own e before
    · exact inv.last w l here
  · intro v next there
    obtain ⟨rfl, goes⟩ := place_after inv.last here there
    exact d.sound_turn (inv.sound v l here) turned goes
  · intro e member
    rcases digested e member with before | ⟨id, same, rfl⟩
    · exact inv.there e before
    · exact (digests same).1
  · intro v next there e member may
    obtain ⟨rfl, goes⟩ := place_after inv.last here there
    rcases digested e member with before | ⟨id, same, rfl⟩
    · rcases d.may_turn turned goes may with still | gone | opened
      · exact inv.done v l here e before still
      · exact gone (inv.there e before)
      · exact opens e before opened
    · exact (digests same).2.2 next goes may
  · unfold State.after
    dsimp only
    cases same : turn.digested with
    | none =>
      rw [Option.map_none, Option.toList_none, List.append_nil]
      exact inv.once
    | some id =>
      rw [Option.map_some, Option.toList_some, List.map_append]
      refine List.nodup_append.mpr ⟨inv.once, List.nodup_singleton _, ?_⟩
      intro a before b now same_
      obtain ⟨e, member, rfl⟩ := List.mem_map.mp before
      rw [List.map_singleton, List.mem_singleton] at now
      refine inv.done w l here e member ?_
      rw [same_, now]
      exact (digests same).2.1
  · intro left waits
    obtain ⟨before, waiting, rfl⟩ := Option.map_eq_some_iff.mp waits
    obtain ⟨down, places⟩ := inv.calm before waiting
    rw [down] at turned
    have calmed : turn.running = false ∧ ∀ next, turn.next = some next → d.quiet turn.shared next := by
      by_cases stepped : w ∈ before
      · obtain ⟨fresh, calms⟩ := (places w l here).1 stepped
        rw [fresh] at turned
        exact calms _ _ _ turned
      · exact (d.quiet_turn ((places w l here).2 stepped) turned).2
    refine ⟨calmed.1, fun v next there => ?_⟩
    obtain ⟨rfl, goes⟩ := place_after inv.last here there
    refine ⟨fun member => ?_, fun _ => calmed.2 next goes⟩
    exact absurd rfl (of_decide_eq_true (List.mem_filter.mp member).2)
  · unfold State.after
    dsimp only
    rw [inv.quiet, Bool.false_or]
    cases waiting : s.waiting with
    | none => rfl
    | some left =>
      cases left with
      | cons v rest => rfl
      | nil =>
        obtain ⟨down, places⟩ := inv.calm [] waiting
        rw [down] at turned
        rw [(d.quiet_turn ((places w l here).2 List.not_mem_nil) turned).1]
        rfl

theorem Inv.step (inv : d.Inv s) (action : Action Change Choice) (orderly : d.Orderly s action)
    {t : State World Shared Local Event Id} (stepped : Workers.step p s action = some t) : d.Inv t := by
  cases action with
  | start spawns => exact inv.start spawns orderly stepped
  | reset => exact inv.reset orderly stepped
  | grow change => exact inv.grow change stepped
  | work w choice =>
    obtain ⟨l, here, moved⟩ := Option.bind_eq_some_iff.mp stepped
    obtain ⟨turn, turned, rfl⟩ := Option.map_eq_some_iff.mp moved
    exact inv.work here turned (orderly l here)

theorem inv_start (d : Discipline p) (world : World) (shared : Shared) :
    d.Inv ({ world, shared } : State World Shared Local Event Id) where
  last _ _ there := by cases there
  own := nofun
  sound _ _ there := by cases there
  there := nofun
  done _ _ there := by cases there
  once := .nil
  calm := nofun
  quiet := rfl

/-- Along every run of orderly calls one worker at a time digests. -/
theorem oneWorker_always (d : Discipline p) (world : World) (shared : Shared) (actions : List (Action Change Choice))
    (orderly : EachStep (Workers.step p) d.Orderly { world, shared } actions) :
    Always (Workers.step p) OneWorker { world, shared } actions := by
  have all : Always (Workers.step p) d.Inv { world, shared } actions :=
    always_of_eachStep (fun _ action _ inv met stepped => inv.step action met stepped) (inv_start d world shared) actions orderly
  exact all.imp fun s inv => inv.oneWorker

end Discipline

end Mello.Library.Workers
