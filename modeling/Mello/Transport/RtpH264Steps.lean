import Mello.Transport.RtpH264Receiver

/-!
What the receiver can do to its state between two packets: a handful of steps,
each with what the code has checked when it takes it. The receiver's functions
are chains of these steps, so what each step preserves holds of all of them.
-/

namespace Mello.Transport.RtpH264Steps
open Library Twcc H264Payload RtpH264Receiver

/-! ## Releases -/

/-- Nothing but the store of packets differs. -/
def StoreOnly (s t : Impl) : Prop :=
  t = { s with
    packets := t.packets
    unemitted := t.unemitted
    bufferedPackets := t.bufferedPackets
    bufferedBytes := t.bufferedBytes }

namespace StoreOnly

variable {s t u : Impl}

theorem refl (s : Impl) : StoreOnly s s := rfl

theorem trans (first : StoreOnly s t) (second : StoreOnly t u) : StoreOnly s u := by
  unfold StoreOnly at *
  rw [second, first]

theorem missing (same : StoreOnly s t) : t.missing = s.missing := (congrArg Impl.missing same :)

theorem lost (same : StoreOnly s t) : t.lost = s.lost := (congrArg Impl.lost same :)

theorem floor (same : StoreOnly s t) : t.floor = s.floor := (congrArg Impl.floor same :)

theorem highestSequence (same : StoreOnly s t) : t.highestSequence = s.highestSequence := (congrArg Impl.highestSequence same :)

theorem firstSequence (same : StoreOnly s t) : t.firstSequence = s.firstSequence := (congrArg Impl.firstSequence same :)

theorem ssrc (same : StoreOnly s t) : t.ssrc = s.ssrc := (congrArg Impl.ssrc same :)

theorem callbacks (same : StoreOnly s t) : t.callbacks = s.callbacks := (congrArg Impl.callbacks same :)

end StoreOnly

section Release

variable (s : Impl) (key : ℤ)

theorem storeOnly_releasePayload : StoreOnly s (s.releasePayload key) := by
  unfold Impl.releasePayload
  cases s.packets.find key with
  | none => exact .refl s
  | some packet =>
    dsimp only
    split_ifs
    · rfl
    · rfl

theorem find_releasePayload (other : ℤ) : (s.releasePayload key).packets.find other =
    if other = key then (s.packets.find other).map Packet.released else s.packets.find other := by
  unfold Impl.releasePayload
  cases found : s.packets.find key with
  | none =>
    by_cases same : other = key
    · rw [if_pos same, same]
      simp [found]
    · exact (if_neg same).symm
  | some packet =>
    dsimp only
    split_ifs <;> simp [OrderedMap.find_modify, *]

theorem unemitted_releasePayload_subset : (s.releasePayload key).unemitted ⊆ s.unemitted := by
  unfold Impl.releasePayload
  cases s.packets.find key with
  | none => exact subset_rfl
  | some packet =>
    dsimp only
    split_ifs
    · exact subset_rfl
    · exact Finset.erase_subset _ _

theorem storeOnly_releaseAll (keys : List ℤ) : StoreOnly s (s.releaseAll keys) := by
  unfold Impl.releaseAll
  induction keys generalizing s with
  | nil => exact .refl s
  | cons key rest ih => exact (storeOnly_releasePayload s key).trans (ih _)

theorem find_releaseAll (keys : List ℤ) (other : ℤ) : (s.releaseAll keys).packets.find other =
    if other ∈ keys then (s.packets.find other).map Packet.released else s.packets.find other := by
  unfold Impl.releaseAll
  induction keys generalizing s with
  | nil => simp
  | cons key rest ih =>
    rw [List.foldl_cons, ih, find_releasePayload]
    have twice : Packet.released ∘ Packet.released = Packet.released := rfl
    by_cases same : other = key <;> by_cases again : other ∈ rest <;> simp [same, twice]

end Release

/-! ## What holds of every state -/

/-- The containers and counters agree, and no sequence number is beyond `top`. -/
structure Coherent (top : ℤ) (s : Impl) : Prop where
  waiting (key : ℤ) : key ∈ s.unemitted ↔ ∃ packet, s.packets.find key = some packet ∧ packet.emitted = false
  padding {key : ℤ} {packet : Packet} : s.packets.find key = some packet → packet.padding = true → packet.emitted = true
  counted : s.bufferedPackets = s.unemitted.card
  summed : s.bufferedBytes = ∑ key ∈ s.unemitted, ((s.packetAt key).payload.length : ℤ)
  stored_le {key : ℤ} : key ∈ s.packets → key ≤ top
  lost_le {key : ℤ} : key ∈ s.lost → key ≤ top
  floor_le {floor : ℤ} : s.floor = some floor → floor ≤ top
  missing_le {key : ℤ} : key ∈ s.missing → key ≤ top
  missing_above {key floor : ℤ} : key ∈ s.missing → s.floor = some floor → floor < key
  missing_stored {key : ℤ} : key ∈ s.missing → key ∉ s.packets
  missing_lost {key : ℤ} : key ∈ s.missing → key ∉ s.lost

theorem Coherent.mono {top higher : ℤ} {s : Impl} (coherent : Coherent top s) (le : top ≤ higher) : Coherent higher s :=
  { coherent with
    stored_le := fun member => (coherent.stored_le member).trans le
    lost_le := fun member => (coherent.lost_le member).trans le
    floor_le := fun known => (coherent.floor_le known).trans le
    missing_le := fun member => (coherent.missing_le member).trans le }

theorem Coherent.raise {top sequence : ℤ} {s : Impl} (coherent : Coherent top s) :
    Coherent top { s with highestSequence := some sequence } :=
  { coherent with }

section Coherent

variable {top : ℤ} {s : Impl} (coherent : Coherent top s) (key : ℤ)
include coherent

/-- The three parts of the store that a release changes. -/
theorem releasePayload_parts : (s.releasePayload key).unemitted = s.unemitted.erase key ∧
    (s.releasePayload key).bufferedPackets = s.bufferedPackets - (if key ∈ s.unemitted then 1 else 0) ∧
    (s.releasePayload key).bufferedBytes =
      s.bufferedBytes - (if key ∈ s.unemitted then ((s.packetAt key).payload.length : ℤ) else 0) := by
  by_cases member : key ∈ s.unemitted
  · obtain ⟨packet, found, waits⟩ := (coherent.waiting key).mp member
    have media : packet.padding = false := by
      by_contra padding
      have emitted := coherent.padding found (by simpa using padding)
      exact absurd emitted (by simp [waits])
    unfold Impl.releasePayload Impl.packetAt
    simp [found, waits, media, member]
  · rw [if_neg member, if_neg member, sub_zero, sub_zero, Finset.erase_eq_of_notMem member]
    unfold Impl.releasePayload
    cases found : s.packets.find key with
    | none => exact ⟨rfl, rfl, rfl⟩
    | some packet =>
      have emitted : packet.emitted = true := by
        by_contra waits
        exact member ((coherent.waiting key).mpr ⟨packet, found, by simpa using waits⟩)
      simp [emitted]

theorem coherent_releasePayload : Coherent top (s.releasePayload key) := by
  obtain ⟨unemitted, packets, bytes⟩ := releasePayload_parts coherent key
  have same := storeOnly_releasePayload s key
  have stored (other : ℤ) : other ∈ (s.releasePayload key).packets ↔ other ∈ s.packets := by
    rw [OrderedMap.mem_def, OrderedMap.mem_def, find_releasePayload]
    by_cases here : other = key <;> simp [here]
  constructor
  case waiting =>
    intro other
    rw [unemitted, Finset.mem_erase, coherent.waiting, find_releasePayload]
    by_cases here : other = key
    · simp [here, Packet.released]
    · simp [here]
  case padding =>
    intro other packet found isPadding
    rw [find_releasePayload] at found
    by_cases here : other = key
    · rw [if_pos here] at found
      obtain ⟨before, -, rfl⟩ := Option.map_eq_some_iff.mp found
      rfl
    · rw [if_neg here] at found
      exact coherent.padding found isPadding
  case counted =>
    rw [packets, unemitted, coherent.counted]
    by_cases member : key ∈ s.unemitted
    · rw [if_pos member, ← Finset.card_erase_add_one member]
      push_cast
      ring
    · rw [if_neg member, Finset.erase_eq_of_notMem member, sub_zero]
  case summed =>
    have others : ∀ other ∈ s.unemitted.erase key,
        (((s.releasePayload key).packetAt other).payload.length : ℤ) = (s.packetAt other).payload.length := by
      intro other member
      unfold Impl.packetAt
      rw [find_releasePayload, if_neg (Finset.ne_of_mem_erase member)]
    rw [bytes, unemitted, coherent.summed, Finset.sum_congr rfl others]
    by_cases member : key ∈ s.unemitted
    · rw [if_pos member, ← Finset.add_sum_erase _ _ member]
      ring
    · rw [if_neg member, Finset.erase_eq_of_notMem member, sub_zero]
  case stored_le => exact fun member => coherent.stored_le ((stored _).mp member)
  case lost_le => exact same.lost ▸ coherent.lost_le
  case floor_le => exact same.floor ▸ coherent.floor_le
  case missing_le => exact same.missing ▸ coherent.missing_le
  case missing_above =>
    rw [same.missing, same.floor]
    exact coherent.missing_above
  case missing_stored =>
    intro other member
    rw [same.missing] at member
    exact fun inside => coherent.missing_stored member ((stored other).mp inside)
  case missing_lost =>
    rw [same.missing, same.lost]
    exact coherent.missing_lost

end Coherent

/-! ## Steps -/

/-- What the receiver has seen when it hands an access unit out. -/
structure Whole (s : Impl) (lo hi : ℤ) (unit : AccessUnit) : Prop where
  first : unit.firstSequence = lo
  last : unit.lastSequence = hi
  ordered : lo ≤ hi
  waiting {key : ℤ} : lo ≤ key → key ≤ hi →
    ∃ packet, s.packets.find key = some packet ∧ packet.waitsIn unit.rtpTimestamp = true
  start : s.startKnown lo unit.rtpTimestamp = .known
  stop : s.endKnown hi unit.rtpTimestamp = .known
  joined : ∃ reconstructed, reconstruct (s.payloads lo hi) = .ok reconstructed ∧ unit.annexB = reconstructed.bytes ∧
    unit.hasIdr = reconstructed.hasIdr ∧
    unit.keyframe = (reconstructed.hasIdr && reconstructed.hasSps && reconstructed.hasPps)
  reference : unit.reference = if unit.keyframe then -1 else s.referenceOf lo

def isUnit : Callback → Bool
  | .onAccessUnit _ => true
  | _ => false

def obsolete (s : Impl) (sequence : ℤ) : Impl := { s with
  missing := s.missing.filter (sequence ≤ ·)
  floor := if s.floor.all (· < sequence - 1) then some (sequence - 1) else s.floor }

def forget (s : Impl) (keepFrom : ℤ) : Impl := { s with
  packets := s.packets.filter (keepFrom ≤ ·)
  lost := s.lost.filter (keepFrom ≤ ·)
  missing := s.missing.filter (keepFrom ≤ ·) }

/-- Nothing that says which packets are stored, missing or lost differs, and no
access unit went out. -/
structure Quiet (s t : Impl) : Prop where
  frame : t = { s with
    rtt := t.rtt
    missing := t.missing
    lostAt := t.lostAt
    repairs := t.repairs
    lastTime := t.lastTime
    lastAnyArrival := t.lastAnyArrival
    callbacks := t.callbacks }
  missing (key : ℤ) : key ∈ t.missing ↔ key ∈ s.missing
  callbacks : ∃ other, t.callbacks = s.callbacks ++ other ∧ ∀ entry ∈ other, isUnit entry.2 = false

inductive Step (top : ℤ) : Impl → Impl → Prop where
  | quiet {s t : Impl} (same : Quiet s t) : Step top s t
  | release (s : Impl) (key : ℤ) : Step top s (s.releasePayload key)
  | complete {s : Impl} {now lo hi : ℤ} {unit : AccessUnit} (whole : Whole s lo hi unit) :
      Step top s ((s.releaseRange lo hi).report now (.onAccessUnit unit))
  | obsolete {s : Impl} {sequence : ℤ} (bound : sequence - 1 ≤ top) : Step top s (obsolete s sequence)
  | forget {s : Impl} (newest : s.highestSequence = some top) (old : ∀ key ∈ s.unemitted, top - kHistory ≤ key) :
      Step top s (forget s (top - kHistory))
  | await {s : Impl} {key : ℤ} {missing : Missing} (bound : key ≤ top) (fresh : key ∉ s.packets) (notLost : key ∉ s.lost)
      (above : ∀ floor, s.floor = some floor → floor < key) : Step top s (s.emplaceMissing key missing)
  | expire {s : Impl} {now key : ℤ} (wanted : key ∈ s.missing) : Step top s (s.declareLost now key)
  | evict {s : Impl} {keys : Finset ℤ} (given : ∀ key ∈ keys, key ∈ s.packets) :
      Step top s { s with lost := s.lost ∪ keys }

abbrev Steps (top : ℤ) : Impl → Impl → Prop := Relation.ReflTransGen (Step top)

namespace Quiet

variable {s t : Impl} (same : Quiet s t)
include same

theorem packets : t.packets = s.packets := (congrArg Impl.packets same.frame :)

theorem unemitted : t.unemitted = s.unemitted := (congrArg Impl.unemitted same.frame :)

theorem bufferedPackets : t.bufferedPackets = s.bufferedPackets := (congrArg Impl.bufferedPackets same.frame :)

theorem bufferedBytes : t.bufferedBytes = s.bufferedBytes := (congrArg Impl.bufferedBytes same.frame :)

theorem lost : t.lost = s.lost := (congrArg Impl.lost same.frame :)

theorem floor : t.floor = s.floor := (congrArg Impl.floor same.frame :)

theorem highestSequence : t.highestSequence = s.highestSequence := (congrArg Impl.highestSequence same.frame :)

theorem firstSequence : t.firstSequence = s.firstSequence := (congrArg Impl.firstSequence same.frame :)

theorem ssrc : t.ssrc = s.ssrc := (congrArg Impl.ssrc same.frame :)

end Quiet

theorem quiet_report (s : Impl) (now : ℤ) {callback : Callback} (other : isUnit callback = false) :
    Quiet s (s.report now callback) where
  frame := rfl
  missing _ := Iff.rfl
  callbacks := ⟨[(now, callback)], rfl, by simpa using other⟩

/-! ## Each step keeps the state coherent -/

section Kept

variable {top : ℤ} {s t : Impl} (coherent : Coherent top s)
include coherent

theorem coherent_releaseAll (keys : List ℤ) : Coherent top (s.releaseAll keys) := by
  unfold Impl.releaseAll
  induction keys generalizing s with
  | nil => exact coherent
  | cons key rest ih => exact ih (coherent_releasePayload coherent key)

theorem coherent_quiet (same : Quiet s t) : Coherent top t := by
  constructor
  case waiting => exact same.unemitted ▸ same.packets ▸ coherent.waiting
  case padding => exact same.packets ▸ coherent.padding
  case counted => rw [same.bufferedPackets, same.unemitted, coherent.counted]
  case summed =>
    unfold Impl.packetAt
    rw [same.bufferedBytes, same.unemitted, same.packets]
    exact coherent.summed
  case stored_le => exact same.packets ▸ coherent.stored_le
  case lost_le => exact same.lost ▸ coherent.lost_le
  case floor_le => exact same.floor ▸ coherent.floor_le
  case missing_le => exact fun member => coherent.missing_le ((same.missing _).mp member)
  case missing_above =>
    rw [same.floor]
    exact fun member => coherent.missing_above ((same.missing _).mp member)
  case missing_stored =>
    rw [same.packets]
    exact fun member => coherent.missing_stored ((same.missing _).mp member)
  case missing_lost =>
    rw [same.lost]
    exact fun member => coherent.missing_lost ((same.missing _).mp member)

theorem coherent_obsolete {sequence : ℤ} (bound : sequence - 1 ≤ top) : Coherent top (obsolete s sequence) := by
  refine { coherent with floor_le := ?floor_le, missing_le := ?missing_le, missing_above := ?missing_above, missing_stored := ?missing_stored, missing_lost := ?missing_lost }
  case floor_le =>
    intro floor raised
    unfold obsolete at raised
    dsimp only at raised
    split_ifs at raised
    · obtain rfl := Option.some.inj raised
      exact bound
    · exact coherent.floor_le raised
  case missing_le => exact fun member => coherent.missing_le (OrderedMap.mem_filter.mp member).2
  case missing_above =>
    intro key floor member raised
    obtain ⟨beyond, wanted⟩ := OrderedMap.mem_filter.mp member
    unfold obsolete at raised
    dsimp only at raised
    split_ifs at raised
    · obtain rfl := Option.some.inj raised
      exact Int.sub_one_lt_of_le (of_decide_eq_true beyond)
    · exact coherent.missing_above wanted raised
  case missing_stored => exact fun member => coherent.missing_stored (OrderedMap.mem_filter.mp member).2
  case missing_lost => exact fun member => coherent.missing_lost (OrderedMap.mem_filter.mp member).2

theorem coherent_forget {keepFrom : ℤ} (old : ∀ key ∈ s.unemitted, keepFrom ≤ key) : Coherent top (forget s keepFrom) := by
  have kept {key : ℤ} {packet : Packet} (found : (forget s keepFrom).packets.find key = some packet) :
      s.packets.find key = some packet := by
    unfold forget at found
    dsimp only at found
    rw [OrderedMap.find_filter] at found
    split_ifs at found
    exact found
  have young {key : ℤ} (member : key ∈ s.unemitted) : (forget s keepFrom).packets.find key = s.packets.find key := by
    unfold forget
    dsimp only
    rw [OrderedMap.find_filter, if_pos (decide_eq_true (old key member))]
  constructor
  case waiting =>
    intro key
    constructor
    · intro member
      rw [young member]
      exact (coherent.waiting key).mp member
    · rintro ⟨packet, found, waits⟩
      exact (coherent.waiting key).mpr ⟨packet, kept found, waits⟩
  case padding => exact fun found => coherent.padding (kept found)
  case counted => exact coherent.counted
  case summed =>
    refine coherent.summed.trans (Finset.sum_congr rfl ?_)
    intro key member
    unfold Impl.packetAt
    rw [young member]
  case stored_le => exact fun member => coherent.stored_le (OrderedMap.mem_filter.mp member).2
  case lost_le => exact fun member => coherent.lost_le (Finset.mem_filter.mp member).1
  case floor_le => exact coherent.floor_le
  case missing_le => exact fun member => coherent.missing_le (OrderedMap.mem_filter.mp member).2
  case missing_above => exact fun member => coherent.missing_above (OrderedMap.mem_filter.mp member).2
  case missing_stored =>
    intro key member inside
    exact coherent.missing_stored (OrderedMap.mem_filter.mp member).2 (OrderedMap.mem_filter.mp inside).2
  case missing_lost =>
    intro key member inside
    exact coherent.missing_lost (OrderedMap.mem_filter.mp member).2 (Finset.mem_filter.mp inside).1

theorem coherent_await {key : ℤ} {missing : Missing} (bound : key ≤ top) (fresh : key ∉ s.packets) (notLost : key ∉ s.lost)
    (above : ∀ floor, s.floor = some floor → floor < key) : Coherent top (s.emplaceMissing key missing) := by
  unfold Impl.emplaceMissing
  split_ifs with wanted
  · exact coherent
  have member_iff (other : ℤ) : other ∈ s.missing.insert key missing ↔ other = key ∨ other ∈ s.missing :=
    OrderedMap.mem_insert
  refine { coherent with missing_le := ?missing_le, missing_above := ?missing_above, missing_stored := ?missing_stored, missing_lost := ?missing_lost }
  case missing_le =>
    intro other member
    rcases (member_iff other).mp member with rfl | before
    · exact bound
    · exact coherent.missing_le before
  case missing_above =>
    intro other floor member known
    rcases (member_iff other).mp member with rfl | before
    · exact above floor known
    · exact coherent.missing_above before known
  case missing_stored =>
    intro other member
    rcases (member_iff other).mp member with rfl | before
    · exact fresh
    · exact coherent.missing_stored before
  case missing_lost =>
    intro other member
    rcases (member_iff other).mp member with rfl | before
    · exact notLost
    · exact coherent.missing_lost before

omit coherent in
theorem declareLost_parts (now : ℤ) {key : ℤ} (wanted : key ∈ s.missing) : ∃ lostAt, s.declareLost now key =
    { s with lostAt := lostAt, missing := s.missing.erase key, lost := insert key s.lost } := by
  obtain ⟨missing, found⟩ := OrderedMap.mem_iff.mp wanted
  unfold Impl.declareLost
  rw [found]
  exact ⟨_, rfl⟩

theorem coherent_expire {now key : ℤ} (wanted : key ∈ s.missing) : Coherent top (s.declareLost now key) := by
  obtain ⟨lostAt, same⟩ := declareLost_parts now wanted
  rw [same]
  refine { coherent with lost_le := ?lost_le, missing_le := ?missing_le, missing_above := ?missing_above, missing_stored := ?missing_stored, missing_lost := ?missing_lost }
  case lost_le =>
    intro other member
    rcases Finset.mem_insert.mp member with rfl | before
    · exact coherent.missing_le wanted
    · exact coherent.lost_le before
  case missing_le => exact fun member => coherent.missing_le (OrderedMap.mem_erase.mp member).2
  case missing_above => exact fun member => coherent.missing_above (OrderedMap.mem_erase.mp member).2
  case missing_stored => exact fun member => coherent.missing_stored (OrderedMap.mem_erase.mp member).2
  case missing_lost =>
    intro other member inside
    obtain ⟨different, before⟩ := OrderedMap.mem_erase.mp member
    rcases Finset.mem_insert.mp inside with equal | already
    · exact different equal
    · exact coherent.missing_lost before already

theorem coherent_evict {keys : Finset ℤ} (given : ∀ key ∈ keys, key ∈ s.packets) :
    Coherent top { s with lost := s.lost ∪ keys } := by
  refine { coherent with lost_le := ?lost_le, missing_lost := ?missing_lost }
  case lost_le =>
    intro key member
    rcases Finset.mem_union.mp member with before | inside
    · exact coherent.lost_le before
    · exact coherent.stored_le (given key inside)
  case missing_lost =>
    intro key wanted member
    rcases Finset.mem_union.mp member with before | inside
    · exact coherent.missing_lost wanted before
    · exact coherent.missing_stored wanted (given key inside)

theorem coherent_report (now : ℤ) (callback : Callback) : Coherent top (s.report now callback) := { coherent with }

theorem coherent_step (step : Step top s t) : Coherent top t := by
  cases step with
  | quiet same => exact coherent_quiet coherent same
  | release key => exact coherent_releasePayload coherent key
  | complete whole => exact coherent_report (coherent_releaseAll coherent _) _ _
  | obsolete bound => exact coherent_obsolete coherent bound
  | forget newest old => exact coherent_forget coherent old
  | await bound fresh notLost above => exact coherent_await coherent bound fresh notLost above
  | expire wanted => exact coherent_expire coherent wanted
  | evict given => exact coherent_evict coherent given

theorem coherent_steps (steps : Steps top s t) : Coherent top t := by
  induction steps with
  | refl => exact coherent
  | tail _ step ih => exact coherent_step ih step

end Kept

end Mello.Transport.RtpH264Steps
