import Mello.Library.Linked
import Mello.Replay.VideoRingPins

/-!
Every window decodes. Units are dropped in two places, each up to the next
keyframe: by the queue's bound, and by the writer without a slot or room. A
segment is opened by a keyframe only and closed before a delta is dropped, so
it holds the units of one GOP as they were pushed, without a gap.
-/

namespace Mello.Replay.VideoRingWindows
open Mello.Library VideoRing State VideoRingIndex VideoRingPins

variable {config : Config} {s t : State}

/-- What decides on decoding: the unit's number and whether it is a keyframe. -/
def mark (unit : QueuedUnit) : Nat × Bool := (unit.number, unit.keyframe)

def markOf (unit : AccessUnitRef) : Nat × Bool := (unit.number, unit.keyframe)

/-- A keyframe decodes behind anything, a delta behind the unit pushed right before it. -/
def Decodes (previous : Option (Nat × Bool)) (next : Nat × Bool) : Prop :=
  next.2 = true ∨ ∃ before, previous = some before ∧ next.1 = before.1 + 1

/-- What a queue keeps up: a delta is in it only behind the unit pushed right
before it. The first one may have lost that unit to the writer. -/
def Follows (previous : Option (Nat × Bool)) (next : Nat × Bool) : Prop :=
  next.2 = true ∨ ∀ before, previous = some before → next.1 = before.1 + 1

/-- The newest unit of the index's newest segment. -/
def lastMark (segments : List Segment) : Option (Nat × Bool) :=
  (segments.getLast?.bind fun segment => segment.units.getLast?).map markOf

/-- The unit that the writer's next delta must follow; none when it drops deltas. -/
def tail (s : State) : Option (Nat × Bool) :=
  if s.writing then (s.placed.map fun placed => mark placed.unit).or (lastMark s.segments) else none

/-- The numbers of the units in the ring, from the oldest segment to the newest push. -/
def numbers (s : State) : List Nat :=
  s.segments.flatMap (fun segment => segment.units.map AccessUnitRef.number) ++
    ((s.placed.toList.map fun placed => placed.unit.number) ++
      (s.draining ++ s.queue).map QueuedUnit.number)

structure Chained (s : State) : Prop where
  sorted : (numbers s).Pairwise (· < ·)
  below : ∀ number ∈ numbers s, number < s.pushed.length
  runs : ∀ segment ∈ s.segments, Linked Decodes none (segment.units.map markOf)
  skipping : s.writeSkipping = true → s.writing = false
  placed : ∀ placed, s.placed = some placed → s.writing = true ∧ Decodes (lastMark s.segments) (mark placed.unit)
  full : s.active = true → s.writing = true → s.placed = none → lastMark s.segments ≠ none
  linked : s.active = true → Linked Follows (tail s) ((s.draining ++ s.queue).map mark)
  «open» : s.active = true → s.pushDropping = false → ∀ before,
    ((s.draining ++ s.queue).map mark).getLast?.or (tail s) = some before → s.pushed.length = before.1 + 1

/-! ## One step -/

theorem numbers_queue (s : State) (unit : QueuedUnit) :
    numbers { s with queue := s.queue ++ [unit] } = numbers s ++ [unit.number] := by
  simp [numbers]

theorem chained_push (chained : Chained s) (data : List Byte) (captureUs : Nat) (keyframe : Bool) :
    Chained (s.push config data captureUs keyframe) := by
  rcases push_cases config s data captureUs keyframe with same | ⟨active, -, request, dropped⟩ |
    ⟨active, -, gate, -, queued⟩
  · rw [same]
    exact chained
  · rw [dropped]
    refine { chained with below := ?_, «open» := ?_ }
    · intro number member
      have bound := chained.below number member
      rw [List.length_append]
      omega
    · intro _ drops
      cases drops
  · rw [queued]
    have waiting : ∀ unit : QueuedUnit, (s.draining ++ (s.queue ++ [unit])).map mark =
        (s.draining ++ s.queue).map mark ++ [mark unit] := by simp
    refine { chained with sorted := ?_, below := ?_, linked := ?_, «open» := ?_ }
    · apply (numbers_queue s _ ▸ List.pairwise_append.mpr
        ⟨chained.sorted, List.pairwise_singleton _ _, ?_⟩ : (numbers _).Pairwise (· < ·))
      intro number member new last
      obtain rfl := List.mem_singleton.mp last
      exact chained.below number member
    · intro number member
      change number ∈ numbers { s with queue := s.queue ++ [_] } at member
      rw [numbers_queue] at member
      rw [List.length_append, List.length_singleton]
      rcases List.mem_append.mp member with older | new
      · have bound := chained.below number older
        omega
      · rw [List.mem_singleton.mp new]
        exact Nat.lt_succ_self _
    · intro _
      rw [waiting, Linked.concat_iff]
      refine ⟨chained.linked active, ?_⟩
      cases keyframe with
      | true => exact .inl rfl
      | false => exact .inr fun before last => chained.open active (gate rfl) before last
    · intro _ _ before last
      rw [waiting, List.getLast?_concat] at last
      obtain rfl := Option.some.inj last
      rw [List.length_append]
      rfl

theorem follows_none {previous : Option (Nat × Bool)} (next : Nat × Bool) (follows : Follows previous next) :
    Follows none next :=
  follows.imp id fun _ before none => by cases none

theorem getLast?_or_cons {α : Type*} (item : α) (rest : List α) (other : Option α) {last : α}
    (found : rest.getLast?.or other = some last) (other_none : other = none ∨ other = some item) :
    ((item :: rest).getLast?) = some last := by
  rw [List.getLast?_cons]
  cases rest with
  | nil =>
    rcases other_none with rfl | rfl
    · cases found
    · exact found
  | cons head more =>
    rw [List.getLast?_cons] at found ⊢
    exact found

theorem flatMap_sublist {segments others : List Segment} (sublist : segments.Sublist others) :
    (segments.flatMap fun segment => segment.units.map AccessUnitRef.number).Sublist
      (others.flatMap fun segment => segment.units.map AccessUnitRef.number) := by
  induction sublist with
  | slnil => exact List.Sublist.refl _
  | cons segment _ ih => exact ih.trans (List.sublist_append_right _ _)
  | cons_cons segment _ ih => exact (List.Sublist.refl _).append ih

/-- Taking the next unit of a drain: what stays of the chain behind it. -/
theorem Chained.take (chained : Chained s) {unit : QueuedUnit} {rest : List QueuedUnit}
    (units : s.draining = unit :: rest) (active : s.active = true) {after : Option (Nat × Bool)}
    (moved : after = none ∨ after = some (mark unit)) :
    Linked Follows after ((rest ++ s.queue).map mark) ∧
      (s.pushDropping = false → ∀ before,
        ((rest ++ s.queue).map mark).getLast?.or after = some before → s.pushed.length = before.1 + 1) := by
  have linked := chained.linked active
  rw [units, List.cons_append, List.map_cons] at linked
  constructor
  · rcases moved with rfl | rfl
    · exact linked.2.restart follows_none
    · exact linked.2
  · intro gate before last
    apply chained.open active gate before
    rw [units, List.cons_append, List.map_cons, getLast?_or_cons _ _ _ last moved]
    rfl

theorem numbers_take {unit : QueuedUnit} {rest : List QueuedUnit} (idle : s.placed = none)
    (units : s.draining = unit :: rest) :
    numbers s = s.segments.flatMap (fun segment => segment.units.map AccessUnitRef.number) ++
      (unit.number :: (rest ++ s.queue).map QueuedUnit.number) := by
  rw [numbers, idle, units]
  rfl

theorem chained_writeNext (chained : Chained s) (wrote : s.writeNext config = some t) : Chained t := by
  obtain ⟨idle, unit, rest, units, cases⟩ := writeNext_cases wrote
  have all := numbers_take idle units
  have sorted := all ▸ chained.sorted
  have below := all ▸ chained.below
  -- The chain's order survives whatever subset of its front stays in the index.
  have order : ∀ (segments : List Segment) (back : List Nat), segments.Sublist s.segments →
      back.Sublist (unit.number :: (rest ++ s.queue).map QueuedUnit.number) →
      (segments.flatMap (fun segment => segment.units.map AccessUnitRef.number) ++ back).Pairwise (· < ·) ∧
      ∀ number ∈ segments.flatMap (fun segment => segment.units.map AccessUnitRef.number) ++ back,
        number < s.pushed.length := by
    intro segments back part rear
    have sublist := (flatMap_sublist part).append rear
    exact ⟨sorted.sublist sublist, fun number member => below number (sublist.subset member)⟩
  have opened : ∀ slot : Nat, ((s.openSegment slot).segments.flatMap
      fun segment => segment.units.map AccessUnitRef.number) =
      (s.dropHeld slot).flatMap fun segment => segment.units.map AccessUnitRef.number := by
    intro slot
    simp [State.openSegment]
  have runs : ∀ slot : Nat, ∀ segment ∈ (s.openSegment slot).segments,
      Linked Decodes none (segment.units.map markOf) := by
    intro slot segment member
    rcases List.mem_append.mp member with older | new
    · exact chained.runs segment ((dropHeld_sublist s slot).subset older)
    · obtain rfl := List.mem_singleton.mp new
      trivial
  rcases cases with ⟨inactive, rfl⟩ | ⟨active, outcome⟩
  · obtain ⟨sorted', below'⟩ := order s.segments (s.queue.map QueuedUnit.number) (List.Sublist.refl _)
      (((List.sublist_append_right rest s.queue).map _).cons _)
    have same : numbers { s with draining := [] } =
        s.segments.flatMap (fun segment => segment.units.map AccessUnitRef.number) ++
          s.queue.map QueuedUnit.number := by
      rw [numbers]
      simp [idle]
    refine ⟨same ▸ sorted', same ▸ below', chained.runs, chained.skipping, chained.placed, ?_, ?_, ?_⟩ <;>
    · intro on
      rw [show s.active = true from on] at inactive
      cases inactive
  · cases outcome with
    | dropped writing skipping request stops after =>
      have quiet : writing = false := by
        rcases stops with stop | ⟨-, same, skips⟩
        · exact stop
        · rw [same]
          exact chained.skipping skips
      obtain ⟨linked, openEnd⟩ := chained.take units active (.inl rfl)
      obtain ⟨sorted', below'⟩ := order s.segments ((rest ++ s.queue).map QueuedUnit.number)
        (List.Sublist.refl _) (List.sublist_cons_self _ _)
      subst quiet after
      have same : numbers { s with
          draining := rest, writing := false, writeSkipping := skipping, keyframeRequest := request } =
          s.segments.flatMap (fun segment => segment.units.map AccessUnitRef.number) ++
            (rest ++ s.queue).map QueuedUnit.number := by
        rw [numbers]
        simp [idle]
      refine ⟨same ▸ sorted', same ▸ below', chained.runs, fun _ => rfl, ?_, (fun _ off => by cases off),
        fun _ => linked, fun _ => openEnd⟩
      intro placed here
      rw [show s.placed = some placed from here] at idle
      cases idle
    | overflowed slot free keyframe after =>
      obtain ⟨linked, openEnd⟩ := chained.take units active (.inl rfl)
      obtain ⟨sorted', below'⟩ := order (s.dropHeld slot) ((rest ++ s.queue).map QueuedUnit.number)
        (dropHeld_sublist s slot) (List.sublist_cons_self _ _)
      subst after
      have same : numbers { ({ s with draining := rest, writing := false }.openSegment slot) with
          writing := false, writeSkipping := true, keyframeRequest := true } =
          (s.dropHeld slot).flatMap (fun segment => segment.units.map AccessUnitRef.number) ++
            (rest ++ s.queue).map QueuedUnit.number := by
        rw [numbers, ← opened slot]
        simp [State.openSegment, idle, dropHeld]
      refine ⟨same ▸ sorted', same ▸ below', runs slot, fun _ => rfl, ?_, (fun _ off => by cases off),
        fun _ => linked, fun _ => openEnd⟩
      intro placed here
      rw [show s.placed = some placed from here] at idle
      cases idle
    | opened slot free keyframe fits after =>
      obtain ⟨linked, openEnd⟩ := chained.take units active (.inr rfl)
      obtain ⟨sorted', below'⟩ := order (s.dropHeld slot) (unit.number :: (rest ++ s.queue).map QueuedUnit.number)
        (dropHeld_sublist s slot) (List.Sublist.refl _)
      subst after
      have same : numbers { ({ s with draining := rest, writing := false }.openSegment slot) with
          placed := some ⟨unit, slot * config.segmentBytes, s.nextSeq, false⟩ } =
          (s.dropHeld slot).flatMap (fun segment => segment.units.map AccessUnitRef.number) ++
            (unit.number :: (rest ++ s.queue).map QueuedUnit.number) := by
        rw [numbers, ← opened slot]
        simp [State.openSegment, dropHeld]
      refine ⟨same ▸ sorted', same ▸ below', runs slot, (fun skips => by cases skips), ?_, (fun _ _ none => by cases none),
        fun _ => linked, fun _ => openEnd⟩
      intro placed here
      obtain rfl := Option.some.inj here
      exact ⟨rfl, .inl keyframe⟩
    | appended segment last delta writing fits after =>
      obtain ⟨linked, openEnd⟩ := chained.take units active (.inr rfl)
      have follows := chained.linked active
      rw [units, List.cons_append, List.map_cons] at follows
      have ends : tail s = lastMark s.segments := by
        unfold tail
        rw [if_pos writing, idle]
        rfl
      have decodes : Decodes (lastMark s.segments) (mark unit) := by
        obtain ⟨before, here⟩ := Option.ne_none_iff_exists'.mp (chained.full active writing idle)
        rcases follows.1 with keyframe | next
        · exact .inl keyframe
        · exact .inr ⟨before, here, next before (ends.trans here)⟩
      subst after
      have same : numbers { s with
          draining := rest
          placed := some ⟨unit, segment.slot * config.segmentBytes + segment.used, segment.seq, false⟩ } =
          numbers s := by
        rw [all, numbers]
        rfl
      refine ⟨same ▸ chained.sorted, same ▸ chained.below, chained.runs, chained.skipping, ?_,
        (fun _ _ none => by cases none), fun _ => ?_, fun _ gate before => ?_⟩
      · intro placed here
        obtain rfl := Option.some.inj here
        exact ⟨writing, decodes⟩
      · unfold tail
        rw [if_pos writing]
        exact linked
      · unfold tail
        rw [if_pos writing]
        exact openEnd gate before

theorem chained_writeFile (chained : Chained s) {count : Nat} (wrote : s.writeFile count = some t) :
    Chained t := by
  unfold State.writeFile at wrote
  split at wrote
  next placed here =>
    split_ifs at wrote with again whole
    · obtain rfl := Option.some.inj wrote
      obtain ⟨writing, decodes⟩ := chained.placed placed here
      have same : ∀ file : List Byte, numbers { s with
          file := file, placed := some { placed with written := true } } = numbers s := by
        intro file
        rw [numbers, numbers, here]
        rfl
      have ends : ∀ file : List Byte, tail { s with
          file := file, placed := some { placed with written := true } } = tail s := by
        intro file
        rw [tail, tail, here]
        rfl
      refine ⟨same _ ▸ chained.sorted, same _ ▸ chained.below, chained.runs, chained.skipping, ?_,
        (fun _ _ none => by cases none), fun active => ?_, fun active gate before => ?_⟩
      · intro other new
        obtain rfl := Option.some.inj new
        exact ⟨writing, decodes⟩
      · rw [ends]
        exact chained.linked active
      · rw [ends]
        exact chained.open active gate before
    · obtain rfl := Option.some.inj wrote
      have sublist : ∀ file : List Byte, (numbers { s with
          file := file, active := false, placed := none, draining := [] }).Sublist (numbers s) := by
        intro file
        unfold numbers
        refine (List.Sublist.refl _).append (List.Sublist.append (List.nil_sublist _) ?_)
        exact (List.sublist_append_right s.draining s.queue).map _
      refine ⟨chained.sorted.sublist (sublist _), fun number member => chained.below number ((sublist _).subset member),
        chained.runs, chained.skipping, (fun other new => by cases new), ?_, ?_, ?_⟩ <;>
      · intro on
        cases on
  next => cases wrote

theorem chained_listUnit (sound : Sound config s) (chained : Chained s) (listed : s.listUnit = some t) :
    Chained t := by
  unfold State.listUnit at listed
  split at listed
  next placed here =>
    obtain ⟨-, ⟨front, segment, split, same, -, -⟩, -⟩ := sound.placed placed here
    obtain ⟨writing, decodes⟩ := chained.placed placed here
    split_ifs at listed with written
    dsimp only at listed
    rw [split, List.getLast?_concat] at listed
    dsimp only at listed
    rw [if_neg (by simp [same]), List.dropLast_concat] at listed
    obtain rfl := Option.some.inj listed
    generalize after : ({ segment with
      units := segment.units ++ [refOf placed]
      used := segment.used + placed.unit.data.length } : Segment) = longer
    have units : longer.units = segment.units ++ [refOf placed] := by rw [← after]
    have last : lastMark (front ++ [longer]) = some (mark placed.unit) := by
      unfold lastMark
      rw [List.getLast?_concat, Option.bind_some, units, List.getLast?_concat]
      rfl
    have all : numbers { s with placed := none, segments := front ++ [longer] } = numbers s := by
      unfold numbers
      rw [here, split]
      simp [units, refOf]
    have ends : tail { s with placed := none, segments := front ++ [longer] } = tail s := by
      unfold tail
      rw [here, writing]
      exact last
    refine ⟨all ▸ chained.sorted, all ▸ chained.below, ?_, chained.skipping, (fun other new => by cases new),
      fun _ _ _ => ?_, fun active => ?_, fun active gate before => ?_⟩
    · intro other member
      rcases List.mem_append.mp member with older | new
      · exact chained.runs other (split ▸ List.mem_append_left _ older)
      · obtain rfl := List.mem_singleton.mp new
        have run := chained.runs segment (split ▸ List.mem_append_right _ (List.mem_singleton_self _))
        rw [units, List.map_append, List.map_singleton, Linked.concat_iff, Option.or_none]
        refine ⟨run, ?_⟩
        rw [split, lastMark, List.getLast?_concat, Option.bind_some] at decodes
        rw [List.getLast?_map]
        exact decodes
    · rw [last]
      exact Option.some_ne_none _
    · rw [ends]
      exact chained.linked active
    · rw [ends]
      exact chained.open active gate before
  next => cases listed

theorem chained_step (sound : Sound config s) (chained : Chained s) {move : Step}
    (stepped : step config s move = some t) : Chained t := by
  cases move with
  | push data captureUs keyframe =>
    obtain rfl := Option.some.inj stepped
    exact chained_push chained data captureUs keyframe
  | takeKeyframeRequest =>
    obtain rfl := Option.some.inj stepped
    exact ⟨chained.sorted, chained.below, chained.runs, chained.skipping, chained.placed, chained.full,
      chained.linked, chained.open⟩
  | drain =>
    rw [step] at stepped
    split_ifs at stepped with idle
    obtain rfl := Option.some.inj stepped
    have waiting : s.drain.draining ++ s.drain.queue = s.draining ++ s.queue := by
      rw [idle.1, List.nil_append]
      exact List.append_nil _
    have all : numbers s.drain = numbers s := by
      unfold numbers
      rw [waiting]
      rfl
    refine ⟨all ▸ chained.sorted, all ▸ chained.below, chained.runs, chained.skipping, chained.placed,
      chained.full, ?_, ?_⟩
    · rw [waiting]
      exact chained.linked
    · rw [waiting]
      exact chained.open
  | writeNext => exact chained_writeNext chained stepped
  | writeFile count => exact chained_writeFile chained stepped
  | listUnit => exact chained_listUnit sound chained stepped
  | pinWindow startUs endUs =>
    obtain rfl := Option.some.inj stepped
    rw [pinWindow_eq]
    exact ⟨chained.sorted, chained.below, chained.runs, chained.skipping, chained.placed, chained.full,
      chained.linked, chained.open⟩
  | release index =>
    rw [step, State.release] at stepped
    split at stepped
    next window found =>
      obtain rfl := Option.some.inj stepped
      exact ⟨chained.sorted, chained.below, chained.runs, chained.skipping, chained.placed, chained.full,
        chained.linked, chained.open⟩
    next => cases stepped

theorem chained_start (config : Config) : Chained (start config) := by
  refine ⟨List.Pairwise.nil, ?_, ?_, (fun skips => by cases skips), ?_, ?_, fun _ => trivial, ?_⟩
  · exact fun number member => by cases member
  · exact fun segment member => by cases member
  · exact fun placed none => by cases none
  · exact fun _ writing => by cases writing
  · exact fun _ _ before none => by cases none

theorem chained_run {steps : List Step} (ran : Runs.run (step config) (start config) steps = some s) :
    Chained s := by
  have both : Sound config s ∧ Chained s := by
    apply Runs.run_invariant (fun s => Sound config s ∧ Chained s) _ ⟨sound_start config, chained_start config⟩ ran
    rintro move - s t ⟨sound, chained⟩ stepped
    exact ⟨sound_step sound stepped, chained_step sound chained stepped⟩
  exact both.2

/-! ## A window -/

theorem decodes_units {segments : List Segment} (endUs : Nat)
    (runs : ∀ segment ∈ segments, Linked Decodes none (segment.units.map markOf))
    (previous : Option (Nat × Bool)) :
    Linked Decodes previous ((segments.flatMap (unitsUpTo endUs)).map markOf) := by
  induction segments generalizing previous with
  | nil => trivial
  | cons segment rest ih =>
    rw [List.flatMap_cons, List.map_append, Linked.append_iff]
    refine ⟨?_, ih (fun other member => runs other (List.mem_cons_of_mem _ member)) _⟩
    have run := runs segment List.mem_cons_self
    obtain ⟨cut, whole⟩ := List.takeWhile_prefix (l := segment.units) fun unit => decide (unit.captureUs ≤ endUs)
    rw [← whole, List.map_append, Linked.append_iff] at run
    refine run.1.restart fun item decodes => ?_
    rcases decodes with keyframe | ⟨before, none, -⟩
    · exact .inl keyframe
    · cases none

theorem units_sublist (endUs : Nat) {segments others : List Segment} (part : segments.Sublist others) :
    ((segments.flatMap (unitsUpTo endUs)).map AccessUnitRef.number).Sublist
      (others.flatMap fun segment => segment.units.map AccessUnitRef.number) := by
  refine List.Sublist.trans ?_ (flatMap_sublist part)
  clear part others
  induction segments with
  | nil => exact List.Sublist.refl _
  | cons segment rest ih =>
    rw [List.flatMap_cons, List.flatMap_cons, List.map_append]
    exact ((List.takeWhile_sublist _).map _).append ih

def StartsBy (startUs : Nat) (segment : Segment) : Prop :=
  ∃ unit, segment.units.head? = some unit ∧ unit.captureUs ≤ startUs

theorem startsBy_iff (startUs : Nat) (segment : Segment) :
    (segment.units.head?.any fun unit => unit.captureUs ≤ startUs) = true ↔ StartsBy startUs segment := by
  unfold StartsBy
  rw [Option.any_eq_true]
  simp only [decide_eq_true_eq]

theorem firstSegment_none {startUs : Nat} {segments : List Segment}
    (late : ∀ segment ∈ segments, ¬StartsBy startUs segment) (i first : Nat) :
    firstSegment startUs segments i first = first := by
  induction segments generalizing i with
  | nil => rfl
  | cons segment rest ih =>
    unfold firstSegment
    rw [if_neg (mt (startsBy_iff startUs segment).mp (late segment List.mem_cons_self))]
    exact ih (fun other member => late other (List.mem_cons_of_mem _ member)) _

/-- The loop stops at the newest segment that starts in time. -/
theorem firstSegment_newest {startUs : Nat} {front back : List Segment} {segment : Segment}
    (starts : StartsBy startUs segment) (late : ∀ other ∈ back, ¬StartsBy startUs other) (i first : Nat) :
    firstSegment startUs (front ++ segment :: back) i first = i + front.length := by
  induction front generalizing i first with
  | nil =>
    rw [List.nil_append, firstSegment, if_pos ((startsBy_iff startUs segment).mpr starts), firstSegment_none late]
    rfl
  | cons other rest ih =>
    rw [List.cons_append, firstSegment, ih, List.length_cons]
    omega

/-- Where pushes never go back in time, neither do the units of the index. -/
theorem captures_le (sound : Sound config s) (chained : Chained s)
    (ordered : s.pushed.Pairwise fun a b => a.captureUs ≤ b.captureUs) {front back : List Segment}
    {segment other : Segment} (split : s.segments = front ++ segment :: back) (later : other ∈ back)
    {a b : AccessUnitRef} (first : a ∈ segment.units) (second : b ∈ other.units) :
    a.captureUs ≤ b.captureUs := by
  have memberA : segment ∈ s.segments := by
    rw [split]
    exact List.mem_append_right _ List.mem_cons_self
  have memberB : other ∈ s.segments := by
    rw [split]
    exact List.mem_append_right _ (List.mem_cons_of_mem _ later)
  obtain ⟨pushedA, holdsA⟩ := sound.index.holds segment memberA a first
  obtain ⟨pushedB, holdsB⟩ := sound.index.holds other memberB b second
  have less : a.number < b.number := by
    have sorted := (List.pairwise_append.mp chained.sorted).1
    rw [split, List.flatMap_append, List.flatMap_cons] at sorted
    have behind := (List.pairwise_append.mp (List.pairwise_append.mp sorted).2.1).2.2
    exact behind _ (List.mem_map_of_mem first) _
      (List.mem_flatMap.mpr ⟨other, later, List.mem_map_of_mem second⟩)
  obtain ⟨inA, hereA⟩ := List.getElem?_eq_some_iff.mp holdsA.logged
  obtain ⟨inB, hereB⟩ := List.getElem?_eq_some_iff.mp holdsB.logged
  have le := List.pairwise_iff_getElem.mp ordered _ _ inA inB less
  rw [hereA, hereB] at le
  rw [holdsA.captureUs, holdsB.captureUs]
  exact le

/-- A window starts with a keyframe, holds each delta right behind the unit
pushed before it, keeps the order of the pushes, and starts with the newest
segment that starts at or before `startUs`. -/
theorem window_decodes {steps : List Step}
    (ran : Runs.run (step config) (start config) steps = some s)
    (ordered : s.pushed.Pairwise fun a b => a.captureUs ≤ b.captureUs) (startUs endUs : Nat) :
    let window := (s.pinWindow startUs endUs).2
    (∀ unit ∈ window.units, ∃ source, s.pushed[unit.number]? = some source ∧
      unit.captureUs = source.captureUs ∧ unit.keyframe = source.keyframe) ∧
    (∀ unit, window.units.head? = some unit → unit.keyframe = true) ∧
    (∀ i before unit, window.units[i]? = some before → window.units[i + 1]? = some unit →
      unit.keyframe = false → unit.number = before.number + 1) ∧
    (window.units.map AccessUnitRef.number).Pairwise (· < ·) ∧
    (∀ front segment back, s.segments = front ++ segment :: back → StartsBy startUs segment →
      (∀ other ∈ back, ¬StartsBy startUs other) → window.units ≠ [] →
      unitsUpTo endUs segment ≠ [] ∧ unitsUpTo endUs segment <+: window.units) := by
  intro window
  have sound := sound_run ran
  have chained := chained_run ran
  have units : window.units = (windowSegments s startUs).flatMap (unitsUpTo endUs) := by
    change (s.pinWindow startUs endUs).2.units = _
    rw [pinWindow_eq]
  have part : (windowSegments s startUs).Sublist s.segments := List.drop_sublist _ _
  have decodes : Linked Decodes none (window.units.map markOf) := by
    rw [units]
    exact decodes_units endUs (fun segment member => chained.runs segment (part.subset member)) none
  refine ⟨?_, ?_, ?_, ?_, ?_⟩
  · intro unit member
    rw [units] at member
    obtain ⟨segment, inside, listed⟩ := List.mem_flatMap.mp member
    obtain ⟨source, holds⟩ := sound.index.holds segment (part.subset inside) unit
      (List.takeWhile_subset _ listed)
    exact ⟨source, holds.logged, holds.captureUs, holds.keyframe⟩
  · intro unit head
    cases all : window.units with
    | nil =>
      rw [all] at head
      cases head
    | cons first rest =>
      rw [all] at head decodes
      obtain rfl := Option.some.inj head
      rcases decodes.1 with keyframe | ⟨before, none, -⟩
      · exact keyframe
      · cases none
  · intro i before unit here behind delta
    have marked : (window.units.map markOf)[i]? = some (markOf before) := by
      rw [List.getElem?_map, here]
      rfl
    have next : (window.units.map markOf)[i + 1]? = some (markOf unit) := by
      rw [List.getElem?_map, behind]
      rfl
    have follows := decodes.adjacent marked next
    rcases follows with keyframe | ⟨other, same, next⟩
    · rw [show unit.keyframe = true from keyframe] at delta
      cases delta
    · obtain rfl := Option.some.inj same
      exact next
  · rw [units]
    exact (List.pairwise_append.mp chained.sorted).1.sublist (units_sublist endUs part)
  · intro front segment back split starts late some
    have begins : windowSegments s startUs = segment :: back := by
      unfold windowSegments
      rw [split, firstSegment_newest starts late, Nat.zero_add, List.drop_left]
    rw [units, begins, List.flatMap_cons] at some ⊢
    refine ⟨fun none => some ?_, List.prefix_append _ _⟩
    obtain ⟨first, head, -⟩ := starts
    obtain ⟨rest, listed⟩ := List.head?_eq_some_iff.mp head
    -- The first unit lies behind the end, so every later one does.
    have beyond : endUs < first.captureUs := by
      unfold unitsUpTo at none
      rw [listed, List.takeWhile_cons] at none
      by_contra inside
      rw [if_pos (by simpa using inside)] at none
      cases none
    rw [none, List.nil_append, List.flatMap_eq_nil_iff]
    intro other member
    unfold unitsUpTo
    cases unitsOther : other.units with
    | nil => rfl
    | cons unit more =>
      have le := captures_le sound chained ordered split member
        (by rw [listed]; exact List.mem_cons_self) (by rw [unitsOther]; exact List.mem_cons_self)
      rw [List.takeWhile_cons, if_neg (by simpa using lt_of_lt_of_le beyond le)]

/-- A pinned GOP, a keyframe that fits no slot with the delta behind it, and a keyframe that does. -/
def afterOverflow : List Step :=
  [.push [1, 2] 10 true, .push [3] 20 false, .drain, .writeNext, .writeFile 2, .listUnit, .writeNext,
    .writeFile 1, .listUnit, .pinWindow 10 20, .push [4, 5, 6, 7, 8] 30 true, .push [9] 40 false, .push [10] 50 true, .drain,
    .writeNext, .writeNext, .writeNext, .writeFile 1, .listUnit]

theorem window_decodes_afterOverflow :
    ∃ s, Runs.run (step smallRing) (start smallRing) afterOverflow = some s ∧
      (s.pinWindow 20 60).2.units.map AccessUnitRef.number = [0, 1, 4] ∧
      ∀ unit, (s.pinWindow 20 60).2.units.head? = some unit → unit.keyframe = true := by
  have facts : (Runs.run (step smallRing) (start smallRing) afterOverflow).map (fun s =>
      (s.pushed.map QueuedUnit.captureUs, (s.pinWindow 20 60).2.units.map AccessUnitRef.number)) =
      some ([10, 20, 30, 40, 50], [0, 1, 4]) := by decide +kernel
  obtain ⟨s, ran, same⟩ := Option.map_eq_some_iff.mp facts
  obtain ⟨captures, units⟩ := Prod.mk.inj same
  have ordered : s.pushed.Pairwise fun a b => a.captureUs ≤ b.captureUs := by
    rw [← List.pairwise_map (R := (· ≤ ·)), captures]
    decide
  exact ⟨s, ran, units, (window_decodes ran ordered 20 60).2.1⟩

end Mello.Replay.VideoRingWindows
