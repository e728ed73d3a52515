import Mello.Library.Runs
import Mello.Transport.UlpfecRepair

/-!
Repair along a stream: any order of media packets, parity packets and repairs. A block that
misses one member gives it back exactly when the member's sequence number was never rebuilt
before; the numbers have 16 bits, so a long stream uses each of them again.
-/

namespace Mello.Transport.UlpfecStream
open Mello.Library Runs Parity Twcc TwccChunks TwccReport Ulpfec UlpfecRecovery UlpfecGroup UlpfecRepair

inductive Call where
  | addMediaPacket (data : List Byte)
  | addFecPacket (data : List Byte)
  | recover (sequence : BitVec 16)
  deriving DecidableEq, Repr

/-- One call; it logs the sequence that it rebuilt. -/
def call (r : UlpfecRecovery) : Call → Option (UlpfecRecovery × List (BitVec 16))
  | .addMediaPacket data => some (r.addMediaPacket data, [])
  | .addFecPacket data => some (r.addFecPacket data, [])
  | .recover sequence =>
    some ((r.recover sequence).2, if (r.recover sequence).1.isSome then [sequence] else [])

/-- The calls lead from a new receiver to `r`, and rebuilt these sequences on the way. -/
def Reaches (calls : List Call) (r : UlpfecRecovery) (rebuilt : List (BitVec 16)) : Prop :=
  run (logged call) ({}, []) calls = some (r, rebuilt)

/-- The block covers the sequence, and it is the only member that is missing. -/
structure Ready (r : UlpfecRecovery) (sequence : BitVec 16) (block : FecBlock) : Prop where
  covered : block.covers sequence = true
  absent : r.media.lookup sequence = none
  present : ∀ i ∈ block.members, block.sequenceAt i ≠ sequence → (r.media.lookup (block.sequenceAt i)).isSome

/-- The payloads of the other members. -/
def heldPayloads (r : UlpfecRecovery) (sequence : BitVec 16) (block : FecBlock) : List (List Byte) :=
  (block.members.filter fun i => block.sequenceAt i ≠ sequence).filterMap fun i =>
    (r.parsedAt (block.sequenceAt i)).toOption.map ParsedRtp.payload

/-- The length that the block and the other members leave for the missing one is a length
that the block protects. -/
def Consistent (r : UlpfecRecovery) (sequence : BitVec 16) (block : FecBlock) : Prop :=
  ((heldPayloads r sequence block).foldl (fun length payload => length ^^^ BitVec.ofNat 16 payload.length)
      block.lengthRecovery).toNat ≤
    (heldPayloads r sequence block).foldl (fun longest payload => max longest payload.length)
      block.recoveryPayload.length

structure Repairable (r : UlpfecRecovery) (sequence : BitVec 16) : Prop where
  block : ∃ block ∈ r.fec, Ready r sequence block ∧ Consistent r sequence block

/-- The oldest block that misses only this sequence is consistent. -/
def OldestConsistent (r : UlpfecRecovery) (sequence : BitVec 16) : Prop :=
  ∀ before block after, r.fec = before ++ block :: after → (∀ other ∈ before, ¬Ready r sequence other) →
    Ready r sequence block → Consistent r sequence block

/-! ## Members -/

theorem members_small {block : FecBlock} {i : Nat} (member : i ∈ block.members) : i < 16 :=
  List.mem_range.mp (List.mem_filter.mp member).1

theorem sequenceAt_inj {block : FecBlock} {i j : Nat} (first : i ∈ block.members) (second : j ∈ block.members)
    (same : block.sequenceAt i = block.sequenceAt j) : i = j := by
  have low := members_small first
  have high := members_small second
  have values := congrArg BitVec.toNat (add_left_cancel same)
  rw [BitVec.toNat_ofNat, BitVec.toNat_ofNat] at values
  omega

theorem ofNat_toInt {distance : BitVec 16} (start : 0 ≤ distance.toInt) :
    BitVec.ofNat 16 distance.toInt.toNat = distance := by
  have bound : distance.toInt < 2 ^ 15 := distance.toInt_lt
  apply BitVec.eq_of_toInt_eq
  rw [BitVec.toInt_ofNat', Int.toNat_of_nonneg start]
  exact Int.bmod_eq_of_le_mul_two (by norm_num; omega) (by norm_num; omega)

/-- A covered sequence is that of a member. -/
theorem member_of_covers {block : FecBlock} {sequence : BitVec 16} (covered : block.covers sequence = true) :
    ∃ i ∈ block.members, block.sequenceAt i = sequence := by
  unfold FecBlock.covers at covered
  rw [decide_eq_true_eq] at covered
  obtain ⟨start, small, set⟩ := covered
  refine ⟨(sequence - block.snBase).toInt.toNat, List.mem_filter.mpr ⟨List.mem_range.mpr (by omega), ?_⟩, ?_⟩
  · exact decide_eq_true set
  · rw [FecBlock.sequenceAt, ofNat_toInt start]
    exact add_sub_cancel _ _

theorem missing_ready {r : UlpfecRecovery} {sequence : BitVec 16} {block : FecBlock} (ready : Ready r sequence block) :
    ∃ i ∈ block.members, block.sequenceAt i = sequence ∧ r.missing block = [i] := by
  obtain ⟨i, member, same⟩ := member_of_covers ready.covered
  refine ⟨i, member, same, ?_⟩
  have only : r.missing block = block.members.filter fun j => j = i := by
    unfold missing
    refine List.filter_congr fun j inside => ?_
    rw [Bool.eq_iff_iff, decide_eq_true_iff]
    constructor
    · intro gone
      by_contra other
      have apart : block.sequenceAt j ≠ sequence := by
        intro equal
        exact other (sequenceAt_inj inside member (equal.trans same.symm))
      have held := ready.present j inside apart
      rw [Option.isNone_iff_eq_none] at gone
      rw [gone] at held
      cases held
    · rintro rfl
      rw [same, ready.absent]
      rfl
  have nodup : block.members.Nodup := List.nodup_range.filter _
  rw [only, List.filter_eq, List.count_eq_one_of_mem nodup member]
  rfl

theorem ready_of_missing {r : UlpfecRecovery} {block : FecBlock} {i : Nat}
    (covered : block.covers (block.sequenceAt i) = true) (missing : r.missing block = [i]) :
    Ready r (block.sequenceAt i) block := by
  have gone : i ∈ r.missing block := by rw [missing]; exact List.mem_singleton_self i
  refine ⟨covered, Option.isNone_iff_eq_none.mp (List.mem_filter.mp gone).2, fun j member other => ?_⟩
  by_contra absent
  have also : j ∈ r.missing block := by
    refine List.mem_filter.mpr ⟨member, ?_⟩
    rwa [← Option.not_isSome, Bool.not_eq_true', ← Bool.not_eq_true]
  rw [missing, List.mem_singleton] at also
  exact other (by rw [also])

/-! ## One attempt -/

/-- Each buffered packet was parsed when it came, or was rebuilt with a header. -/
def Parsed (r : UlpfecRecovery) : Prop := ∀ entry ∈ r.media, ∃ pkt, parseRtp entry.2 = .ok pkt

theorem attempt_skip {r : UlpfecRecovery} {sequence : BitVec 16} {block : FecBlock} (idle : ¬Ready r sequence block) :
    r.attempt sequence block = .skip := by
  unfold attempt
  split
  · rfl
  · rename_i covered
    rw [Bool.not_eq_false] at covered
    split
    · rename_i index missing
      split
      · rfl
      · rename_i same
        rw [ne_eq, not_not] at same
        subst same
        exact absurd (ready_of_missing covered missing) idle
    · rfl

/-- The length of a gathered string. -/
theorem length_gather {α : Type*} (f : α → List Byte) (items : List α) (start : List Byte) :
    (gather f items start).length = items.foldl (fun longest item => max longest (f item).length) start.length := by
  unfold gather
  induction items generalizing start with
  | nil => rfl
  | cons item rest ih => rw [List.foldl_cons, List.foldl_cons, ih, length_xorInto]

theorem parsedAt_ok {r : UlpfecRecovery} (parsed : Parsed r) {sequence : BitVec 16}
    (held : (r.media.lookup sequence).isSome) : ∃ pkt, r.parsedAt sequence = .ok pkt := by
  obtain ⟨data, found⟩ := Option.isSome_iff_exists.mp held
  obtain ⟨pkt, ok⟩ := parsed _ (mem_of_lookup found)
  refine ⟨pkt, ?_⟩
  rw [parsedAt, found]
  exact ok

/-- Buffered packets parse, and their payloads are what the parser gives. -/
theorem mapM_parsed {r : UlpfecRecovery} (parsed : Parsed r) {block : FecBlock} (indices : List Nat)
    (held : ∀ i ∈ indices, (r.media.lookup (block.sequenceAt i)).isSome) :
    ∃ present : List (BitVec 16 × ParsedRtp),
      (indices.mapM fun i => (r.parsedAt (block.sequenceAt i)).map fun pkt => (block.sequenceAt i, pkt)) = .ok present ∧
      (indices.filterMap fun i => (r.parsedAt (block.sequenceAt i)).toOption.map ParsedRtp.payload) =
        present.map fun other => other.2.payload := by
  induction indices with
  | nil => exact ⟨[], rfl, rfl⟩
  | cons i rest ih =>
    obtain ⟨present, all, payloads⟩ := ih fun j member => held j (List.mem_cons_of_mem _ member)
    obtain ⟨pkt, ok⟩ := parsedAt_ok parsed (held i List.mem_cons_self)
    refine ⟨(block.sequenceAt i, pkt) :: present, ?_, ?_⟩
    · rw [List.mapM_cons, ok, all]
      rfl
    · rw [List.filterMap_cons_some (b := pkt.payload) (by rw [ok]; rfl), payloads]
      rfl

theorem attempt_ready {r : UlpfecRecovery} (parsed : Parsed r) {sequence : BitVec 16} {block : FecBlock}
    (ready : Ready r sequence block) :
    (Consistent r sequence block → ∃ packet, r.attempt sequence block = .repaired packet) ∧
      (¬Consistent r sequence block → r.attempt sequence block = .giveUp) := by
  obtain ⟨i, member, same, missing⟩ := missing_ready ready
  have others : (block.members.filter fun j => j ≠ i) = block.members.filter fun j => block.sequenceAt j ≠ sequence := by
    refine List.filter_congr fun j inside => ?_
    rw [Bool.eq_iff_iff, decide_eq_true_iff, decide_eq_true_iff, not_iff_not, ← same]
    exact ⟨congrArg _, sequenceAt_inj inside member⟩
  obtain ⟨present, all, payloads⟩ := mapM_parsed parsed (block.members.filter fun j => block.sequenceAt j ≠ sequence)
    (by
      intro j inside
      obtain ⟨inside, other⟩ := List.mem_filter.mp inside
      exact ready.present j inside (of_decide_eq_true other))
  have held : heldPayloads r sequence block = present.map fun other => other.2.payload := payloads
  have attempted : r.attempt sequence block = r.rebuild sequence block i present := by
    unfold attempt
    rw [if_neg (by rw [ready.covered]; decide), missing]
    dsimp only
    rw [if_neg (not_not.mpr same), others, all]
  have consistent : Consistent r sequence block ↔
      ¬(gather (fun other : BitVec 16 × ParsedRtp => other.2.payload) present block.recoveryPayload).length <
        (present.foldl (fun length other => length ^^^ BitVec.ofNat 16 other.2.payload.length)
          block.lengthRecovery).toNat := by
    rw [Consistent, held, List.foldl_map, List.foldl_map, not_lt, length_gather]
  rw [attempted, consistent]
  constructor
  · intro fits
    unfold rebuild
    exact ⟨_, if_neg fits⟩
  · intro long
    unfold rebuild
    exact if_pos (not_not.mp long)

/-! ## All blocks -/

/-- The oldest block that is ready decides. -/
theorem attemptAll_oldest {r : UlpfecRecovery} (parsed : Parsed r) {sequence : BitVec 16} {before after : List FecBlock}
    {block : FecBlock} (idle : ∀ other ∈ before, ¬Ready r sequence other) (ready : Ready r sequence block) :
    (r.attemptAll sequence (before ++ block :: after)).isSome ↔ Consistent r sequence block := by
  induction before with
  | nil =>
    obtain ⟨repaired, gaveUp⟩ := attempt_ready parsed ready
    rw [List.nil_append, attemptAll]
    by_cases consistent : Consistent r sequence block
    · obtain ⟨packet, attempted⟩ := repaired consistent
      rw [attempted]
      exact iff_of_true rfl consistent
    · rw [gaveUp consistent]
      exact iff_of_false Bool.false_ne_true consistent
  | cons other before ih =>
    rw [List.cons_append, attemptAll, attempt_skip (idle other List.mem_cons_self)]
    exact ih fun next member => idle next (List.mem_cons_of_mem _ member)

/-- Of blocks that are ready, one is the oldest. -/
theorem exists_oldest {r : UlpfecRecovery} {sequence : BitVec 16} {blocks : List FecBlock}
    (some : ∃ block ∈ blocks, Ready r sequence block) :
    ∃ before block after, blocks = before ++ block :: after ∧ (∀ other ∈ before, ¬Ready r sequence other) ∧
      Ready r sequence block := by
  induction blocks with
  | nil =>
    obtain ⟨block, member, -⟩ := some
    cases member
  | cons first rest ih =>
    by_cases ready : Ready r sequence first
    · exact ⟨[], first, rest, rfl, fun _ member => (List.not_mem_nil member).elim, ready⟩
    · have later : ∃ block ∈ rest, Ready r sequence block := by
        obtain ⟨block, member, good⟩ := some
        rcases List.mem_cons.mp member with rfl | member
        · exact absurd good ready
        · exact ⟨block, member, good⟩
      obtain ⟨before, block, after, rfl, idle, good⟩ := ih later
      refine ⟨first :: before, block, after, rfl, fun other member => ?_, good⟩
      rcases List.mem_cons.mp member with rfl | member
      · exact ready
      · exact idle other member

theorem attemptAll_isSome {r : UlpfecRecovery} (parsed : Parsed r) {sequence : BitVec 16}
    (repairable : Repairable r sequence) :
    (r.attemptAll sequence r.fec).isSome ↔ OldestConsistent r sequence := by
  constructor
  · intro recovered before block after split idle ready
    rw [split] at recovered
    exact (attemptAll_oldest parsed idle ready).mp recovered
  · intro oldest
    obtain ⟨block, member, ready, -⟩ := repairable.block
    obtain ⟨before, first, after, split, idle, good⟩ := exists_oldest ⟨block, member, ready⟩
    rw [split]
    exact (attemptAll_oldest parsed idle good).mpr (oldest before first after split idle good)

/-! ## Runs -/

theorem parsed_rememberMedia {r : UlpfecRecovery} (parsed : Parsed r) (sequence : BitVec 16) {packet : List Byte}
    (ok : ∃ pkt, parseRtp packet = .ok pkt) : Parsed (r.rememberMedia sequence packet) := by
  unfold rememberMedia
  split
  · exact parsed
  · intro entry member
    rcases List.mem_append.mp (List.mem_of_mem_drop member) with old | new
    · exact parsed entry old
    · rw [List.mem_singleton.mp new]
      exact ok

/-- A repaired packet has a header and a payload. -/
theorem parsed_of_attempt {r : UlpfecRecovery} {sequence : BitVec 16} {block : FecBlock} {packet : List Byte}
    (attempted : r.attempt sequence block = .repaired packet) : ∃ pkt, parseRtp packet = .ok pkt := by
  unfold attempt at attempted
  split at attempted
  · cases attempted
  · split at attempted
    · split at attempted
      · cases attempted
      · dsimp only at attempted
        split at attempted
        · cases attempted
        · unfold rebuild at attempted
          dsimp only at attempted
          split at attempted
          · cases attempted
          · cases attempted
            exact ⟨_, parseRtp_header _ _ _ _ _ _⟩
    · cases attempted

theorem parsed_of_attemptAll {r : UlpfecRecovery} {sequence : BitVec 16} {blocks : List FecBlock} {packet : List Byte}
    (recovered : r.attemptAll sequence blocks = some packet) : ∃ pkt, parseRtp packet = .ok pkt := by
  induction blocks with
  | nil => cases recovered
  | cons block rest ih =>
    rw [attemptAll] at recovered
    rcases attempted : r.attempt sequence block with _ | _ | repaired
    · rw [attempted] at recovered
      exact ih recovered
    · rw [attempted] at recovered
      cases recovered
    · rw [attempted] at recovered
      cases recovered
      exact parsed_of_attempt attempted

/-- What a run keeps: buffered packets parse, and the receiver remembers all that it rebuilt. -/
structure Remembers (r : UlpfecRecovery) (rebuilt : List (BitVec 16)) : Prop where
  parsed : Parsed r
  recovered : ∀ sequence, sequence ∈ r.recoveredSequences ↔ sequence ∈ rebuilt

theorem recoveredSequences_rememberMedia (r : UlpfecRecovery) (sequence : BitVec 16) (packet : List Byte) :
    (r.rememberMedia sequence packet).recoveredSequences = r.recoveredSequences := by
  unfold rememberMedia
  split <;> rfl

theorem remembers_call {r t : UlpfecRecovery} {rebuilt sequences : List (BitVec 16)} {c : Call}
    (remembers : Remembers r rebuilt) (called : call r c = some (t, sequences)) :
    Remembers t (rebuilt ++ sequences) := by
  obtain ⟨parsed, recovered⟩ := remembers
  cases c with
  | addMediaPacket data =>
    obtain ⟨rfl, rfl⟩ := Prod.mk.inj (Option.some.inj called)
    rw [List.append_nil]
    unfold addMediaPacket
    rcases read : parseRtp data with _ | pkt
    · exact ⟨parsed, recovered⟩
    · refine ⟨parsed_rememberMedia parsed _ ⟨pkt, read⟩, fun sequence => ?_⟩
      rw [recoveredSequences_rememberMedia]
      exact recovered sequence
  | addFecPacket data =>
    obtain ⟨rfl, rfl⟩ := Prod.mk.inj (Option.some.inj called)
    rw [List.append_nil]
    unfold addFecPacket
    split
    · exact ⟨parsed, recovered⟩
    · exact ⟨parsed, recovered⟩
  | recover sequence =>
    obtain ⟨rfl, rfl⟩ := Prod.mk.inj (Option.some.inj called)
    unfold recover
    split
    · change Remembers r (rebuilt ++ [])
      rw [List.append_nil]
      exact ⟨parsed, recovered⟩
    · rcases found : r.attemptAll sequence r.fec with _ | packet
      · change Remembers r (rebuilt ++ [])
        rw [List.append_nil]
        exact ⟨parsed, recovered⟩
      · refine ⟨parsed_rememberMedia parsed _ (parsed_of_attemptAll found), fun other => ?_⟩
        change other ∈ sequence :: r.recoveredSequences ↔ other ∈ rebuilt ++ [sequence]
        rw [List.mem_append, List.mem_singleton, List.mem_cons, recovered, or_comm]

theorem remembers_of_reaches {calls : List Call} {r : UlpfecRecovery} {rebuilt : List (BitVec 16)}
    (ran : Reaches calls r rebuilt) : Remembers r rebuilt := by
  have start : Remembers {} [] := ⟨fun _ member => (List.not_mem_nil member).elim, fun _ => Iff.rfl⟩
  exact run_logged_invariant Remembers (fun _ _ _ _ _ _ remembers called => remembers_call remembers called) start ran

/-- In every state of every run, a block that misses one member and is consistent with the others gives
it back exactly when its number was not rebuilt before and no older block spoils the repair. -/
theorem recover_iff {calls : List Call} {r : UlpfecRecovery} {rebuilt : List (BitVec 16)}
    (ran : Reaches calls r rebuilt) {sequence : BitVec 16} (repairable : Repairable r sequence) :
    (r.recover sequence).1.isSome ↔ sequence ∉ rebuilt ∧ OldestConsistent r sequence := by
  obtain ⟨parsed, recovered⟩ := remembers_of_reaches ran
  have oldest := attemptAll_isSome parsed repairable
  unfold recover
  rw [← recovered]
  by_cases again : sequence ∈ r.recoveredSequences
  · rw [if_pos again]
    exact iff_of_false Bool.false_ne_true fun both => both.1 again
  · rw [if_neg again, and_iff_right again, ← oldest]
    rcases r.attemptAll sequence r.fec with _ | packet
    · exact Iff.rfl
    · exact Iff.rfl

/-! ## Two laps -/

/-- A frame of two packets. -/
def frame (base : BitVec 16) (timestamp : BitVec 32) (first second : Byte) : Group where
  base := base
  ssrc := 7
  packets := [packetAt base timestamp false [first], packetAt (base + 1) timestamp true [second]]
  nonempty := by simp
  small := by simp [kMaxFecGroupSize]
  numbered := by
    intro i packet member
    rcases i with _ | _ | i
    · obtain rfl := Option.some.inj member
      exact (add_zero base).symm
    · obtain rfl := Option.some.inj member
      rfl
    · cases member
  oneSsrc := by simp [packetAt]
  marked := by
    intro front packet back split more
    rcases front with _ | ⟨_, _ | ⟨_, front⟩⟩
    · obtain ⟨rfl, rfl⟩ := List.cons.inj split
      simp [packetAt]
    · obtain ⟨-, rest⟩ := List.cons.inj split
      exact absurd (List.cons.inj rest).2.symm more
    · obtain ⟨-, rest⟩ := List.cons.inj split
      obtain ⟨-, none⟩ := List.cons.inj rest
      cases front <;> cases none

def parity (group : Group) : List Byte := parityOf (UlpfecGenerator.make 2) group 0

/-- The second packet of a frame is lost. -/
def firstLap : List Call :=
  [.addMediaPacket (packetAt 0 10 false [1]).bytes, .addFecPacket (parity (frame 0 10 1 2))]

def afterFirstLap : UlpfecRecovery where
  media := [(0, (packetAt 0 10 false [1]).bytes)]
  fec := [blockOf (frame 0 10 1 2)]
  mediaSsrc := 7

theorem repairable_firstLap : Repairable afterFirstLap 1 :=
  ⟨blockOf (frame 0 10 1 2), List.mem_singleton_self _, ⟨by decide +kernel, by decide +kernel, by decide +kernel⟩,
    show _ ≤ _ by decide +kernel⟩

/-- The first loss of number 1 is repaired. -/
theorem recover_firstLap :
    Reaches firstLap afterFirstLap [] ∧ Repairable afterFirstLap 1 ∧ (afterFirstLap.recover 1).1.isSome := by
  have reached : Reaches firstLap afterFirstLap [] := by
    unfold Reaches
    decide +kernel
  refine ⟨reached, repairable_firstLap, (recover_iff reached repairable_firstLap).mpr ⟨by decide, ?_⟩⟩
  intro before block after split idle ready
  obtain ⟨_, member, ready, consistent⟩ := repairable_firstLap.block
  rcases before with _ | ⟨other, before⟩
  · obtain ⟨rfl, -⟩ := List.cons.inj split
    rwa [← List.mem_singleton.mp member]
  · obtain ⟨-, none⟩ := List.cons.inj split
    cases before <;> cases none

/-- The loss is repaired, the numbers go on, and on the next lap number 1 is lost again. -/
def secondLap : List Call :=
  firstLap ++ .recover 1 ::
    ((List.range 32).map fun i => .addMediaPacket (packetAt (BitVec.ofNat 16 (i + 2)) 20 true [3]).bytes) ++
    List.replicate 3 (.addFecPacket (parity (frame 2 20 3 3))) ++
    [.addMediaPacket (packetAt 0 30 false [4]).bytes, .addFecPacket (parity (frame 0 30 4 5))]

def afterSecondLap : UlpfecRecovery where
  media := ((List.range 31).map fun i =>
    (BitVec.ofNat 16 (i + 3), (packetAt (BitVec.ofNat 16 (i + 3)) 20 true [3]).bytes)) ++
    [(0, (packetAt 0 30 false [4]).bytes)]
  fec := List.replicate 3 (blockOf (frame 2 20 3 3)) ++ [blockOf (frame 0 30 4 5)]
  mediaSsrc := 7
  recoveredSequences := [1]

/-- The second loss of number 1 is not repaired. A receiver that forgot the first one would give the
packet back. -/
theorem recover_secondLap :
    (¬ ∀ calls r rebuilt sequence, Reaches calls r rebuilt → Repairable r sequence → (r.recover sequence).1.isSome) ∧
      ({ afterSecondLap with recoveredSequences := [] }.recover 1).1 = some (packetAt 1 30 true [5]).bytes := by
  constructor
  · intro all
    have reached : Reaches secondLap afterSecondLap [1] := by
      unfold Reaches
      decide +kernel
    have repairable : Repairable afterSecondLap 1 :=
      ⟨blockOf (frame 0 30 4 5), by decide +kernel, ⟨by decide +kernel, by decide +kernel, by decide +kernel⟩,
        show _ ≤ _ by decide +kernel⟩
    have recovered := all _ _ _ _ reached repairable
    have refused : (afterSecondLap.recover 1).1 = none := by decide +kernel
    rw [refused] at recovered
    cases recovered
  · decide +kernel

end Mello.Transport.UlpfecStream
