import Mello.Transport.RtpH264Moves

/-!
The access units that go out: each is made of packets that arrived, and within
the history no packet goes out twice.
-/

namespace Mello.Transport.RtpH264Units
open Library Twcc H264Payload H264Packetization RtpH264Receiver RtpH264Steps RtpH264Moves

def unitIn : Callback → Option AccessUnit
  | .onAccessUnit unit => some unit
  | _ => none

/-- The access units handed out so far, oldest first. -/
def units (s : Impl) : List AccessUnit := s.callbacks.filterMap fun entry => unitIn entry.2

def Names (unit : AccessUnit) (key : ℤ) : Prop := unit.firstSequence ≤ key ∧ key ≤ unit.lastSequence

theorem units_report (s : Impl) (now : ℤ) (unit : AccessUnit) :
    units (s.report now (.onAccessUnit unit)) = units s ++ [unit] := by
  unfold units Impl.report
  rw [List.filterMap_append]
  rfl

theorem units_quiet {s t : Impl} (same : Quiet s t) : units t = units s := by
  obtain ⟨other, appended, silent⟩ := same.callbacks
  unfold units
  rw [appended, List.filterMap_append]
  have none : other.filterMap (fun entry => unitIn entry.2) = [] := by
    apply List.filterMap_eq_nil_iff.mpr
    intro entry member
    have quiet := silent entry member
    cases shape : entry.2 with
    | onAccessUnit unit =>
      rw [shape] at quiet
      exact Bool.noConfusion quiet
    | onNack keys => rfl
    | onLoss key => rfl
  rw [none, List.append_nil]

theorem units_of_callbacks {s t : Impl} (same : t.callbacks = s.callbacks) : units t = units s := by
  unfold units
  rw [same]

/-- A step hands out one access unit, or none. -/
theorem units_step {top : ℤ} {s t : Impl} (step : Step top s t) : units t = units s ∨
    ∃ now lo hi unit, Whole s lo hi unit ∧ t = (s.releaseRange lo hi).report now (.onAccessUnit unit) ∧
      units t = units s ++ [unit] := by
  cases step with
  | quiet same => exact .inl (units_quiet same)
  | release key => exact .inl (units_of_callbacks (storeOnly_releasePayload s key).callbacks)
  | @complete now lo hi unit whole =>
    refine .inr ⟨now, lo, hi, unit, whole, rfl, ?_⟩
    have same : units (s.releaseRange lo hi) = units s := units_of_callbacks (storeOnly_releaseAll s _).callbacks
    rw [units_report, same]
  | obsolete bound => exact .inl rfl
  | forget newest old => exact .inl rfl
  | await bound fresh notLost above =>
    unfold Impl.emplaceMissing
    split_ifs <;> exact .inl rfl
  | @expire now key wanted =>
    obtain ⟨lostAt, same⟩ := declareLost_parts now wanted
    rw [same]
    exact .inl rfl
  | evict given => exact .inl rfl

/-! ## Once -/

/-- Given out, or at least not waiting any more. -/
def Done (s : Impl) (key : ℤ) : Prop := ∃ packet, s.packets.find key = some packet ∧ packet.emitted = true

def Young (s : Impl) (key : ℤ) : Prop := ∀ newest, s.highestSequence = some newest → newest - kHistory ≤ key

structure Once (s : Impl) : Prop where
  done {unit : AccessUnit} {key : ℤ} : unit ∈ units s → Names unit key → Young s key → Done s key
  apart : (units s).Pairwise fun first second => ∀ key, Names first key → Names second key → ¬Young s key

section Once

variable {top key : ℤ} {s t : Impl}

theorem done_releaseAll (keys : List ℤ) (done : Done s key) : Done (s.releaseAll keys) key := by
  obtain ⟨packet, found, emitted⟩ := done
  unfold Done
  rw [find_releaseAll, found]
  split_ifs
  · exact ⟨packet.released, rfl, rfl⟩
  · exact ⟨packet, rfl, emitted⟩

theorem done_step (done : Done s key) (young : Young s key) (step : Step top s t) : Done t key := by
  cases step with
  | quiet same =>
    unfold Done
    rw [same.packets]
    exact done
  | release other => exact done_releaseAll [other] done
  | complete whole => exact done_releaseAll _ done
  | obsolete bound => exact done
  | forget newest old =>
    obtain ⟨packet, found, emitted⟩ := done
    have kept := young top newest
    exact ⟨packet, (OrderedMap.find_filter _ _ _).trans ((if_pos (decide_eq_true kept)).trans found), emitted⟩
  | await bound fresh notLost above =>
    unfold Impl.emplaceMissing
    split_ifs <;> exact done
  | @expire now other wanted =>
    obtain ⟨lostAt, same⟩ := declareLost_parts now wanted
    rw [same]
    exact done
  | evict given => exact done

theorem once_step (once : Once s) (step : Step top s t) : Once t := by
  have fixed := step_fixed step
  have young_iff (key : ℤ) : Young t key ↔ Young s key := by
    unfold Young
    rw [fixed.1]
  have kept {unit : AccessUnit} {key : ℤ} (member : unit ∈ units s) (named : Names unit key) (young : Young t key) :
      Done t key := by
    have before := (young_iff key).mp young
    exact done_step (once.done member named before) before step
  have apart := once.apart.imp fun {first second} different key left right young =>
    different key left right ((young_iff key).mp young)
  rcases units_step step with same | ⟨now, lo, hi, unit, whole, rfl, added⟩
  · exact ⟨fun member => kept (same ▸ member), same ▸ apart⟩
  · constructor
    · intro other key member named young
      rw [added] at member
      rcases List.mem_append.mp member with before | here
      · exact kept before named young
      · obtain rfl := List.mem_singleton.mp here
        obtain ⟨left, right⟩ := named
        rw [whole.first] at left
        rw [whole.last] at right
        obtain ⟨packet, found, -⟩ := whole.waiting left right
        refine ⟨packet.released, ?_, rfl⟩
        have inside : key ∈ Int.range lo (hi + 1) := Int.mem_range_iff.mpr ⟨left, by omega⟩
        change (s.releaseAll (Int.range lo (hi + 1))).packets.find key = _
        rw [find_releaseAll, if_pos inside, found]
        rfl
    · rw [added]
      refine List.pairwise_append.mpr ⟨apart, List.pairwise_singleton _ _, ?_⟩
      intro first member second here key named again young
      obtain rfl := List.mem_singleton.mp here
      obtain ⟨left, right⟩ := again
      rw [whole.first] at left
      rw [whole.last] at right
      -- what waits was in no access unit before
      obtain ⟨packet, found, waits⟩ := whole.waiting left right
      obtain ⟨other, there, emitted⟩ := once.done member named ((young_iff key).mp young)
      obtain rfl := Option.some.inj (found.symm.trans there)
      simp [Packet.waitsIn, emitted] at waits

theorem Once.of_frame (once : Once s) (callbacks : t.callbacks = s.callbacks)
    (young : ∀ key, Young t key → Young s key) (done : ∀ key, Done s key → Done t key) : Once t := by
  have same := units_of_callbacks callbacks
  constructor
  · intro unit key member named recent
    exact done key (once.done (same ▸ member) named (young key recent))
  · rw [same]
    exact once.apart.imp fun {first second} different key left right recent => different key left right (young key recent)

theorem once_move {came : ℤ → Packet → Prop} {a b : Option ℤ × Impl} (once : Once a.2) (move : Move came a b) : Once b.2 := by
  cases move with
  | step bound step => exact once_step once step
  | @enter s sequence ssrc above notStored notLost =>
    have chosen : s.chooseSsrc sequence ssrc = s ∨
        s.chooseSsrc sequence ssrc = { s with ssrc := some ssrc, firstSequence := sequence } := by
      unfold Impl.chooseSsrc
      split_ifs
      · exact .inr rfl
      · exact .inl rfl
    unfold enter
    rcases chosen with same | same <;> rw [same] <;> exact once.of_frame rfl (fun _ => id) (fun _ => id)
  | @raise s sequence newer between =>
    refine once.of_frame rfl ?_ (fun _ => id)
    intro key young newest known
    have recent := young sequence rfl
    have less := newer newest known
    omega
  | @store s sequence newest packet fresh known bound media arrived =>
    have kept : (s.store sequence packet).highestSequence = s.highestSequence ∧
        (s.store sequence packet).callbacks = s.callbacks ∧
        (s.store sequence packet).packets = s.packets.insert sequence packet := by
      unfold Impl.store
      split_ifs <;> exact ⟨rfl, rfl, rfl⟩
    obtain ⟨highest, callbacks, packets⟩ := kept
    refine once.of_frame callbacks (fun key young => ?_) fun key done => ?_
    · unfold Young at young
      rwa [highest] at young
    · obtain ⟨other, found, emitted⟩ := done
      have different : key ≠ sequence := fun same => fresh.notStored (same ▸ OrderedMap.mem_of_find_eq found)
      refine ⟨other, ?_, emitted⟩
      dsimp only
      rw [packets, OrderedMap.find_insert, if_neg different, found]
  | want fresh known bound =>
    unfold Impl.markMissing Impl.emplaceMissing
    dsimp only
    split_ifs
    · exact once
    · exact once.of_frame rfl (fun _ => id) (fun _ => id)

end Once

/-- No packet goes out in two access units as long as it is in the history. -/
theorem run_once (config : Config) (calls : List Call) : (units (run config calls)).Pairwise fun first second =>
    ∀ key, Names first key → Names second key →
      ∃ newest, (run config calls).highestSequence = some newest ∧ key < newest - kHistory := by
  have once : Once (run config calls) := by
    refine run_induction (motive := fun a => Once a.2) ?_ fun a b before move => once_move before move
    exact ⟨fun member => by simp [units, Impl.new] at member, by simp [units, Impl.new]⟩
  refine once.apart.imp fun {first second} different key left right => ?_
  obtain ⟨newest, old⟩ := not_forall.mp (different key left right)
  obtain ⟨known, behind⟩ := Classical.not_imp.mp old
  exact ⟨newest, known, not_le.mp behind⟩

/-! ## What an access unit is made of -/

/-- Each stored packet arrived, though its payload may be gone. -/
def Genuine (came : ℤ → Packet → Prop) (s : Impl) : Prop :=
  ∀ key packet, s.packets.find key = some packet →
    ∃ arrived, came key arrived ∧ (packet = arrived ∨ packet = arrived.released)

/-- Only padding arrived with these numbers. -/
def PaddingBetween (came : ℤ → Packet → Prop) (lo hi : ℤ) : Prop :=
  ∀ key, lo < key → key < hi → ∃ packet, came key packet ∧ packet.padding = true

/-- The packet before the access unit ends another one. -/
def StartsBehind (came : ℤ → Packet → Prop) (unit : AccessUnit) : Prop :=
  ∃ before packet, before < unit.firstSequence ∧ came before packet ∧ packet.padding = false ∧
    (packet.marker = true ∨ packet.timestamp ≠ unit.rtpTimestamp) ∧ PaddingBetween came before unit.firstSequence ∧
    (unit.keyframe = false → unit.reference = before)

/-- What arrived of an access unit that went out. The stream began with the packet `origin`. -/
structure Evidence (came : ℤ → Packet → Prop) (origin : ℤ) (unit : AccessUnit) (packets : ℤ → Packet) : Prop where
  ordered : unit.firstSequence ≤ unit.lastSequence
  arrived {key : ℤ} : Names unit key → came key (packets key) ∧ (packets key).padding = false ∧
    (packets key).timestamp = unit.rtpTimestamp
  joined : ∃ nals, Carries [] ((Int.range unit.firstSequence (unit.lastSequence + 1)).map fun key => (packets key).payload) nals ∧
    unit.annexB = annexB nals ∧ unit.hasIdr = (join nals).hasIdr ∧
    unit.keyframe = ((join nals).hasIdr && (join nals).hasSps && (join nals).hasPps)
  ends : (packets unit.lastSequence).marker = true ∨ ∃ behind packet, unit.lastSequence < behind ∧ came behind packet ∧
    packet.padding = false ∧ packet.timestamp ≠ unit.rtpTimestamp ∧ PaddingBetween came unit.lastSequence behind
  starts : StartsBehind came unit ∨ h264PayloadStartsAccessUnit (packets unit.firstSequence).payload = true ∨
    unit.firstSequence = origin ∧ startsNal (packets unit.firstSequence).payload = true
  reference : unit.keyframe = true → unit.reference = -1

section Genuine

variable {came : ℤ → Packet → Prop} {top : ℤ} {s t : Impl}

theorem genuine_releaseAll (genuine : Genuine came s) (keys : List ℤ) : Genuine came (s.releaseAll keys) := by
  intro key packet found
  rw [find_releaseAll] at found
  split_ifs at found
  · obtain ⟨before, there, rfl⟩ := Option.map_eq_some_iff.mp found
    obtain ⟨arrived, arrival, rfl | rfl⟩ := genuine key before there
    · exact ⟨before, arrival, .inr rfl⟩
    · exact ⟨arrived, arrival, .inr rfl⟩
  · exact genuine key packet found

theorem genuine_step (genuine : Genuine came s) (step : Step top s t) : Genuine came t := by
  cases step with
  | quiet same =>
    unfold Genuine
    rw [same.packets]
    exact genuine
  | release key => exact genuine_releaseAll genuine [key]
  | complete whole => exact genuine_releaseAll genuine _
  | obsolete bound => exact genuine
  | forget newest old =>
    intro key packet found
    have kept := (OrderedMap.find_filter _ _ _).symm.trans found
    split_ifs at kept
    exact genuine key packet kept
  | await bound fresh notLost above =>
    unfold Impl.emplaceMissing
    split_ifs <;> exact genuine
  | @expire now key wanted =>
    obtain ⟨lostAt, same⟩ := declareLost_parts now wanted
    rw [same]
    exact genuine
  | evict given => exact genuine

theorem genuine_move {a b : Option ℤ × Impl} (genuine : Genuine came a.2) (move : Move came a b) : Genuine came b.2 := by
  cases move with
  | step bound step => exact genuine_step genuine step
  | @enter s sequence ssrc above notStored notLost =>
    have same : (s.chooseSsrc sequence ssrc).packets = s.packets := by
      unfold Impl.chooseSsrc
      split_ifs <;> rfl
    unfold Genuine enter
    dsimp only
    rw [same]
    exact genuine
  | raise newer between => exact genuine
  | @store s sequence newest packet fresh known bound media arrived =>
    have packets : (s.store sequence packet).packets = s.packets.insert sequence packet := by
      unfold Impl.store
      split_ifs <;> rfl
    intro key other found
    dsimp only at found
    rw [packets, OrderedMap.find_insert] at found
    split_ifs at found with here
    · obtain rfl := Option.some.inj found
      exact ⟨packet, here ▸ arrived, .inl rfl⟩
    · exact genuine key other found
  | want fresh known bound =>
    unfold Impl.markMissing Impl.emplaceMissing
    dsimp only
    split_ifs <;> exact genuine

/-- The header facts of a stored packet are those of a packet that came. -/
theorem Genuine.header (genuine : Genuine came s) {key : ℤ} {packet : Packet} (found : s.packets.find key = some packet) :
    ∃ arrived, came key arrived ∧ arrived.padding = packet.padding ∧ arrived.marker = packet.marker ∧
      arrived.timestamp = packet.timestamp := by
  obtain ⟨arrived, arrival, rfl | rfl⟩ := genuine key packet found
  · exact ⟨packet, arrival, rfl, rfl, rfl⟩
  · exact ⟨arrived, arrival, rfl, rfl, rfl⟩

theorem startsBehind_of_known (genuine : Genuine came s) {lo hi : ℤ} {unit : AccessUnit} (whole : Whole s lo hi unit) :
    StartsBehind came unit ∨ h264PayloadStartsAccessUnit (s.packetAt unit.firstSequence).payload = true ∨
      unit.firstSequence = s.firstSequence ∧ startsNal (s.packetAt unit.firstSequence).payload = true := by
  have start := whole.start
  obtain rfl := whole.first
  unfold Impl.startKnown at start
  cases shape : s.packetBefore unit.firstSequence with
  | unknown =>
    rw [shape] at start
    cases start
  | gone =>
    rw [shape] at start
    dsimp only at start
    split_ifs at start with first opens
    · exact .inr (.inr first)
    · exact .inr (.inl opens)
  | media packet =>
    rw [shape] at start
    dsimp only at start
    split_ifs at start with ended
    unfold Impl.packetBefore at shape
    generalize passes_eq : (fun (key : ℤ) (packet : Packet) => !s.isGone key && packet.padding) = passes at shape
    generalize before_eq : s.packets.walk (-1) passes (unit.firstSequence - 1) = before at shape
    dsimp only at shape
    split_ifs at shape with gone
    cases found : s.packets.find before with
    | none =>
      rw [found] at shape
      cases shape
    | some other =>
      rw [found] at shape
      obtain rfl := Before.media.inj shape
      have below := s.packets.walk_le passes (unit.firstSequence - 1)
      rw [before_eq] at below
      have stops := s.packets.passesAt_walk passes (show (-1 : ℤ) ≠ 0 by decide) (unit.firstSequence - 1)
      have media : other.padding = false := by
        rw [before_eq, OrderedMap.passesAt, found, Option.any_some, ← passes_eq] at stops
        simpa [gone] using stops
      have padding (key : ℤ) (after : before < key) (upto : key ≤ unit.firstSequence - 1) :
          ∃ packet, s.packets.find key = some packet ∧ packet.padding = true := by
        rw [← before_eq] at after
        obtain ⟨packet, there, passed⟩ := OrderedMap.passesAt_iff.mp (OrderedMap.passesAt_of_walk_lt upto after)
        rw [← passes_eq, Bool.and_eq_true] at passed
        exact ⟨packet, there, passed.2⟩
      obtain ⟨arrived, arrival, samePadding, sameMarker, sameTimestamp⟩ := genuine.header found
      refine .inl ⟨before, arrived, by omega, arrival, samePadding.trans media, ?_, ?_, ?_⟩
      · rw [sameMarker, sameTimestamp]
        simpa using ended
      · intro key after upto
        obtain ⟨packet, there, isPadding⟩ := padding key after (by omega)
        obtain ⟨came, arrival, same, -⟩ := genuine.header there
        exact ⟨came, arrival, same.trans isPadding⟩
      · intro delta
        rw [whole.reference, if_neg (by simp [delta])]
        refine OrderedMap.walk_down_eq below ?_ ?_
        · intro key after upto
          exact OrderedMap.passesAt_iff.mpr (padding key after upto)
        · rw [OrderedMap.passesAt, found]
          exact media

theorem ends_of_known (genuine : Genuine came s) {lo hi : ℤ} {unit : AccessUnit} (whole : Whole s lo hi unit) :
    (s.packetAt unit.lastSequence).marker = true ∨ ∃ behind packet, unit.lastSequence < behind ∧ came behind packet ∧
      packet.padding = false ∧ packet.timestamp ≠ unit.rtpTimestamp ∧ PaddingBetween came unit.lastSequence behind := by
  have stop := whole.stop
  obtain rfl := whole.last
  unfold Impl.endKnown at stop
  generalize passes_eq : (fun (key : ℤ) (packet : Packet) => decide (key ∉ s.lost) && packet.padding) = passes at stop
  generalize behind_eq : s.packets.walk 1 passes (unit.lastSequence + 1) = behind at stop
  dsimp only at stop
  split_ifs at stop with marker gone
  · exact .inl marker
  · cases found : s.packets.find behind with
    | none =>
      rw [found] at stop
      cases stop
    | some packet =>
      rw [found] at stop
      dsimp only at stop
      split_ifs at stop with different
      have above := s.packets.le_walk passes (unit.lastSequence + 1)
      rw [behind_eq] at above
      have stops := s.packets.passesAt_walk passes (show (1 : ℤ) ≠ 0 by decide) (unit.lastSequence + 1)
      have media : packet.padding = false := by
        rw [behind_eq, OrderedMap.passesAt, found, Option.any_some, ← passes_eq] at stops
        simpa [gone] using stops
      obtain ⟨arrived, arrival, samePadding, -, sameTimestamp⟩ := genuine.header found
      refine .inr ⟨behind, arrived, by omega, arrival, samePadding.trans media, sameTimestamp ▸ different, ?_⟩
      intro key after upto
      rw [← behind_eq] at upto
      obtain ⟨other, there, passed⟩ := OrderedMap.passesAt_iff.mp (OrderedMap.passesAt_of_lt_walk (by omega) upto)
      rw [← passes_eq, Bool.and_eq_true] at passed
      obtain ⟨came, arrival, same, -⟩ := genuine.header there
      exact ⟨came, arrival, same.trans passed.2⟩

theorem evidence_of_whole (genuine : Genuine came s)
    (valid : ∀ key packet, came key packet → packet.padding = false → validateH264Payload packet.payload = true)
    {lo hi : ℤ} {unit : AccessUnit} (whole : Whole s lo hi unit) : Evidence came s.firstSequence unit s.packetAt := by
  have arrived {key : ℤ} (named : Names unit key) : came key (s.packetAt key) ∧ (s.packetAt key).padding = false ∧
      (s.packetAt key).timestamp = unit.rtpTimestamp := by
    obtain ⟨left, right⟩ := named
    rw [whole.first] at left
    rw [whole.last] at right
    obtain ⟨packet, found, waits⟩ := whole.waiting left right
    have here : s.packetAt key = packet := by
      unfold Impl.packetAt
      rw [found, Option.getD_some]
    unfold Packet.waitsIn at waits
    simp only [Bool.and_eq_true, Bool.not_eq_true', beq_iff_eq] at waits
    obtain ⟨⟨open_, media⟩, timestamp⟩ := waits
    rw [here]
    obtain ⟨original, arrival, rfl | rfl⟩ := genuine key packet found
    · exact ⟨arrival, media, timestamp⟩
    · exact Bool.noConfusion open_
  obtain ⟨reconstructed, joined, bytes, idr, keyframe⟩ := whole.joined
  have checked : ∀ payload ∈ s.payloads lo hi, validateH264Payload payload = true := by
    intro payload member
    obtain ⟨key, inside, rfl⟩ := List.mem_map.mp member
    obtain ⟨left, right⟩ := Int.mem_range_iff.mp inside
    have named : Names unit key := ⟨whole.first.trans_le left, by rw [whole.last]; omega⟩
    exact valid key _ (arrived named).1 (arrived named).2.1
  obtain ⟨nals, carries, rfl⟩ := reconstruct_sound checked joined
  exact {
    ordered := by rw [whole.first, whole.last]; exact whole.ordered
    arrived := arrived
    joined := by
      rw [whole.first, whole.last]
      exact ⟨nals, carries, bytes.trans (bytes_join nals), idr, keyframe⟩
    ends := ends_of_known genuine whole
    starts := startsBehind_of_known genuine whole
    reference := fun key => whole.reference.trans (if_pos key) }

theorem mem_of_step (step : Step top s t) {key : ℤ} (member : key ∈ t.packets) : key ∈ s.packets := by
  cases step with
  | quiet same => exact same.packets ▸ member
  | release other => exact mem_releaseAll.mp (show key ∈ (s.releaseAll [other]).packets from member)
  | complete whole => exact mem_releaseAll.mp member
  | obsolete bound => exact member
  | forget newest old => exact (OrderedMap.mem_filter.mp member).2
  | await bound fresh notLost above =>
    unfold Impl.emplaceMissing at member
    split_ifs at member <;> exact member
  | @expire now other wanted =>
    obtain ⟨lostAt, same⟩ := declareLost_parts now wanted
    rw [same] at member
    exact member
  | evict given => exact member

/-- Each packet in the store came, and each access unit was made of what came. -/
structure Sourced (came : ℤ → Packet → Prop) (a : Option ℤ × Impl) : Prop where
  genuine : Genuine came a.2
  evidence {unit : AccessUnit} : unit ∈ units a.2 → ∃ packets, Evidence came a.2.firstSequence unit packets
  started : a.2.ssrc = none → a.1 = none ∧ units a.2 = [] ∧ ∀ key, key ∉ a.2.packets

theorem sourced_move (valid : ∀ key packet, came key packet → packet.padding = false → validateH264Payload packet.payload = true)
    {a b : Option ℤ × Impl} (sourced : Sourced came a) (move : Move came a b) : Sourced came b := by
  have genuine := genuine_move sourced.genuine move
  cases move with
  | @step pending s t top bound step =>
    obtain ⟨-, first, ssrc⟩ := step_fixed step
    rcases units_step step with same | ⟨now, lo, hi, unit, whole, -, added⟩
    · refine ⟨genuine, fun member => ?_, fun none => ?_⟩
      · dsimp only at member ⊢
        rw [first]
        exact sourced.evidence (same ▸ member)
      · obtain ⟨idle, silent, empty⟩ := sourced.started (ssrc ▸ none)
        exact ⟨idle, same.trans silent, fun key member => empty key (mem_of_step step member)⟩
    · refine ⟨genuine, fun {other} member => ?_, fun none => ?_⟩
      · dsimp only at member ⊢
        rw [first]
        rw [added] at member
        rcases List.mem_append.mp member with before | here
        · exact sourced.evidence before
        · obtain rfl := List.mem_singleton.mp here
          exact ⟨_, evidence_of_whole sourced.genuine valid whole⟩
      · obtain ⟨-, -, empty⟩ := sourced.started (ssrc ▸ none)
        obtain ⟨packet, found, -⟩ := whole.waiting le_rfl whole.ordered
        exact absurd (OrderedMap.mem_of_find_eq found) (empty lo)
  | @enter s sequence ssrc above notStored notLost =>
    refine ⟨genuine, fun {unit} member => ?_, fun none => ?_⟩
    · by_cases first : s.ssrc = none
      · obtain ⟨-, silent, -⟩ := sourced.started first
        have same : units (enter s sequence ssrc) = units s := by
          unfold enter Impl.chooseSsrc
          rw [if_pos first]
          rfl
        rw [same, silent] at member
        exact absurd member List.not_mem_nil
      · have same : s.chooseSsrc sequence ssrc = s := if_neg first
        unfold enter at member ⊢
        rw [same] at member ⊢
        exact sourced.evidence member
    · have chosen : (s.chooseSsrc sequence ssrc).ssrc ≠ .none := by
        unfold Impl.chooseSsrc
        split_ifs with first
        · exact Option.some_ne_none ssrc
        · exact first
      exact absurd none chosen
  | raise newer between => exact ⟨genuine, sourced.evidence, fun none => ⟨(sourced.started none).1, (sourced.started none).2⟩⟩
  | @store s sequence newest packet fresh known bound media arrived =>
    have kept : units (s.store sequence packet) = units s ∧ (s.store sequence packet).firstSequence = s.firstSequence ∧
        (s.store sequence packet).ssrc = s.ssrc := by
      unfold Impl.store
      split_ifs <;> exact ⟨rfl, rfl, rfl⟩
    obtain ⟨same, first, ssrc⟩ := kept
    refine ⟨genuine, fun member => ?_, fun none => ?_⟩
    · dsimp only at member ⊢
      rw [first]
      exact sourced.evidence (same ▸ member)
    · exact absurd (sourced.started (ssrc.symm.trans none)).1 (Option.some_ne_none sequence)
  | @want s sequence newest now fresh known bound =>
    have kept : units (s.markMissing now sequence) = units s ∧ (s.markMissing now sequence).firstSequence = s.firstSequence ∧
        (s.markMissing now sequence).ssrc = s.ssrc := by
      unfold Impl.markMissing Impl.emplaceMissing
      split_ifs <;> exact ⟨rfl, rfl, rfl⟩
    obtain ⟨same, first, ssrc⟩ := kept
    refine ⟨genuine, fun member => ?_, fun none => ?_⟩
    · dsimp only at member ⊢
      rw [first]
      exact sourced.evidence (same ▸ member)
    · exact absurd (sourced.started (ssrc.symm.trans none)).1 (Option.some_ne_none sequence)

end Genuine

/-- Each access unit that goes out is a run of packets that came, of one
timestamp, and its bytes are the NAL units they carry. It ends where its sender
ended it; it starts behind another access unit, at the start of the stream, or
with a NAL unit that only starts an access unit. -/
theorem run_units_sound (config : Config) (calls : List Call) : ∀ unit ∈ units (run config calls),
    ∃ packets, Evidence (Came calls) (run config calls).firstSequence unit packets := by
  intro unit member
  have valid (key : ℤ) (packet : Packet) (came : Came calls key packet) (media : packet.padding = false) :
      validateH264Payload packet.payload = true := by
    obtain ⟨render, data, parsed, -, -, -, -, shape⟩ := came.datagram
    rcases shape with ⟨-, isPadding, -⟩ | ⟨-, -, -, checked, -⟩
    · exact Bool.noConfusion (media.symm.trans isPadding)
    · exact checked
  have start : Sourced (Came calls) (none, Impl.new config) :=
    ⟨fun key packet found => by simp [Impl.new] at found, fun member => by simp [units, Impl.new] at member,
      fun _ => ⟨rfl, rfl, fun key member => by simp [Impl.new, OrderedMap.mem_def] at member⟩⟩
  exact (run_induction start fun a b sourced move => sourced_move valid sourced move).evidence member

theorem run_units_sound_first : ∃ unit ∈ units (run {} twoPictures), ∃ packets,
    Evidence (Came twoPictures) (run {} twoPictures).firstSequence unit packets :=
  have some : units (run {} twoPictures) ≠ [] := by decide +kernel
  ⟨_, List.head_mem some, run_units_sound {} twoPictures _ (List.head_mem some)⟩

end Mello.Transport.RtpH264Units
