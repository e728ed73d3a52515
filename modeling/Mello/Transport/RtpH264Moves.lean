import Mello.Transport.RtpH264Chains

/-!
A call of the receiver as a chain of moves. While a packet is being accepted its
sequence number is pending: it is neither missing nor stored. All else that a
call does are steps.
-/

namespace Mello.Transport.RtpH264Moves
open Library Twcc H264Payload RtpH264Receiver RtpH264Steps RtpH264Chains

/-- The sequence number is obsolete, stored, missing or lost. -/
def Held (s : Impl) (key : ℤ) : Prop :=
  (∃ floor, s.floor = some floor ∧ key ≤ floor) ∨ key ∈ s.packets ∨ key ∈ s.missing ∨ key ∈ s.lost

structure Fresh (s : Impl) (key : ℤ) : Prop where
  above (floor : ℤ) : s.floor = some floor → floor < key
  notStored : key ∉ s.packets
  notMissing : key ∉ s.missing
  notLost : key ∉ s.lost

def Newest (s : Impl) (top : ℤ) : Prop := ∀ newest, s.highestSequence = some newest → newest ≤ top

/-- Takes the sequence number out of the missing ones; the first packet chooses the source. -/
def enter (s : Impl) (sequence : ℤ) (ssrc : BitVec 32) : Impl :=
  { s.chooseSsrc sequence ssrc with missing := s.missing.erase sequence }

/-- `came` says which packets arrived. -/
inductive Move (came : ℤ → Packet → Prop) : Option ℤ × Impl → Option ℤ × Impl → Prop where
  | step {pending : Option ℤ} {s t : Impl} {top : ℤ} (bound : Newest s top) (step : Step top s t) :
      Move came (pending, s) (pending, t)
  | enter {s : Impl} {sequence : ℤ} {ssrc : BitVec 32} (above : ∀ floor, s.floor = some floor → floor < sequence)
      (notStored : sequence ∉ s.packets) (notLost : sequence ∉ s.lost) :
      Move came (none, s) (some sequence, enter s sequence ssrc)
  | raise {s : Impl} {sequence : ℤ} (newer : ∀ newest, s.highestSequence = some newest → newest < sequence)
      (between : ∀ key, (∀ newest, s.highestSequence = some newest → newest < key) → s.firstSequence ≤ key →
        key < sequence → Held s key) :
      Move came (some sequence, s) (some sequence, { s with highestSequence := some sequence })
  | store {s : Impl} {sequence newest : ℤ} {packet : Packet} (fresh : Fresh s sequence)
      (known : s.highestSequence = some newest) (bound : sequence ≤ newest)
      (media : packet.emitted = packet.padding) (arrived : came sequence packet) :
      Move came (some sequence, s) (none, s.store sequence packet)
  | want {s : Impl} {sequence newest now : ℤ} (fresh : Fresh s sequence)
      (known : s.highestSequence = some newest) (bound : sequence ≤ newest) :
      Move came (some sequence, s) (none, s.markMissing now sequence)

abbrev Moves (came : ℤ → Packet → Prop) : Option ℤ × Impl → Option ℤ × Impl → Prop := Relation.ReflTransGen (Move came)

/-- What holds between calls. -/
structure Settled (s : Impl) : Prop where
  coherent {top : ℤ} : Newest s top → Coherent top s
  started : s.highestSequence = none → s.ssrc = none

/-! ## Steps as moves -/

section Steps

variable {came : ℤ → Packet → Prop} {pending : Option ℤ} {top : ℤ} {s t : Impl}

theorem step_fixed (step : Step top s t) : t.highestSequence = s.highestSequence ∧ t.firstSequence = s.firstSequence ∧
    t.ssrc = s.ssrc := by
  cases step with
  | quiet same => exact ⟨same.highestSequence, same.firstSequence, same.ssrc⟩
  | release key =>
    have same := storeOnly_releasePayload s key
    exact ⟨same.highestSequence, same.firstSequence, same.ssrc⟩
  | @complete _ lo hi _ whole =>
    have same := storeOnly_releaseAll s (Int.range lo (hi + 1))
    exact ⟨same.highestSequence, same.firstSequence, same.ssrc⟩
  | obsolete bound => exact ⟨rfl, rfl, rfl⟩
  | forget newest old => exact ⟨rfl, rfl, rfl⟩
  | await bound fresh notLost above =>
    unfold Impl.emplaceMissing
    split_ifs <;> exact ⟨rfl, rfl, rfl⟩
  | expire wanted =>
    obtain ⟨lostAt, same⟩ := declareLost_parts _ wanted
    rw [same]
    exact ⟨rfl, rfl, rfl⟩
  | evict given => exact ⟨rfl, rfl, rfl⟩

theorem steps_fixed (steps : Steps top s t) : t.highestSequence = s.highestSequence ∧ t.firstSequence = s.firstSequence ∧
    t.ssrc = s.ssrc := by
  induction steps with
  | refl => exact ⟨rfl, rfl, rfl⟩
  | tail _ step ih =>
    obtain ⟨newest, first, ssrc⟩ := step_fixed step
    exact ⟨newest.trans ih.1, first.trans ih.2.1, ssrc.trans ih.2.2⟩

theorem moves_steps (bound : Newest s top) (steps : Steps top s t) : Moves came (pending, s) (pending, t) := by
  induction steps with
  | refl => exact .refl
  | tail before step ih =>
    refine ih.tail (.step ?_ step)
    intro newest known
    exact bound newest ((steps_fixed before).1 ▸ known)

theorem newest_getD (s : Impl) : Newest s (s.highestSequence.getD 0) := by
  intro newest known
  rw [known, Option.getD_some]

theorem settled_steps (settled : Settled s) (steps : ∀ top, Newest s top → Steps top s t) : Settled t := by
  have fixed := steps_fixed (steps _ (newest_getD s))
  constructor
  · intro higher above
    have before : Newest s higher := fun newest known => above newest (fixed.1 ▸ known)
    exact coherent_steps (settled.coherent before) (steps higher before)
  · intro unknown
    rw [fixed.2.2]
    exact settled.started (fixed.1 ▸ unknown)

/-- A chain of moves between two states in which no packet is pending. -/
def Reaches (came : ℤ → Packet → Prop) (s t : Impl) : Prop := Moves came (none, s) (none, t) ∧ Settled t

theorem Reaches.trans {u : Impl} (first : Reaches came s t) (second : Reaches came t u) : Reaches came s u :=
  ⟨first.1.trans second.1, second.2⟩

theorem reaches_steps (settled : Settled s) (steps : ∀ top, Coherent top s → Steps top s t) : Reaches came s t :=
  ⟨moves_steps (newest_getD s) (steps _ (settled.coherent (newest_getD s))),
    settled_steps settled fun top bound => steps top (settled.coherent bound)⟩

end Steps

/-! ## The newest sequence number -/

section Observe

variable {came : ℤ → Packet → Prop} {s : Impl} {now sequence highest : ℤ}

theorem releaseLoop_eq (test : ℤ → Bool) (fuel : ℕ) (s : Impl) :
    ∃ keys, Impl.releaseLoop test fuel s = s.releaseAll keys := by
  induction fuel generalizing s with
  | zero => exact ⟨[], rfl⟩
  | succ fuel ih =>
    unfold Impl.releaseLoop
    split_ifs with waiting old
    · obtain ⟨keys, same⟩ := ih (s.releasePayload (s.unemitted.min' waiting))
      exact ⟨_ :: keys, same⟩
    · exact ⟨[], rfl⟩
    · exact ⟨[], rfl⟩

theorem mem_releaseAll {keys : List ℤ} {key : ℤ} : key ∈ (s.releaseAll keys).packets ↔ key ∈ s.packets := by
  rw [OrderedMap.mem_def, OrderedMap.mem_def, find_releaseAll]
  split_ifs
  · rw [Option.isSome_map]
  · exact Iff.rfl

/-- A discontinuity leaves nothing before `sequence` to wait for. -/
theorem giveUpBefore_spec (s : Impl) (now sequence : ℤ) (isLoss : Bool) :
    (∀ key, key ∈ (s.giveUpBefore now sequence isLoss).packets ↔ key ∈ s.packets) ∧
    (s.giveUpBefore now sequence isLoss).missing = s.missing.filter (sequence ≤ ·) ∧
    (s.giveUpBefore now sequence isLoss).lost = s.lost ∧
    (s.giveUpBefore now sequence isLoss).floor = (if s.floor.all (· < sequence - 1) then some (sequence - 1) else s.floor) := by
  obtain ⟨keys, same⟩ := releaseLoop_eq (· < sequence) s.unemitted.card s
  have store := storeOnly_releaseAll s keys
  unfold Impl.giveUpBefore Impl.releaseWhile
  dsimp only
  rw [same, store.missing, store.floor]
  cases isLoss <;> exact ⟨fun key => mem_releaseAll, rfl, store.lost, rfl⟩

theorem floor_raised (s : Impl) (sequence : ℤ) : ∃ floor,
    (if s.floor.all (· < sequence - 1) then some (sequence - 1) else s.floor) = some floor ∧ sequence - 1 ≤ floor ∧
      (floor = sequence - 1 ∨ s.floor = some floor) := by
  cases known : s.floor with
  | none => exact ⟨sequence - 1, rfl, le_rfl, .inl rfl⟩
  | some floor =>
    by_cases below : floor < sequence - 1
    · exact ⟨sequence - 1, by simp [below], le_rfl, .inl rfl⟩
    · exact ⟨floor, by simp [below], by omega, .inr rfl⟩

theorem fresh_giveUpBefore (fresh : Fresh s sequence) (isLoss : Bool) :
    Fresh (s.giveUpBefore now sequence isLoss) sequence := by
  obtain ⟨packets, missing, lost, floor⟩ := giveUpBefore_spec s now sequence isLoss
  constructor
  · intro raised known
    obtain ⟨value, same, -, from_⟩ := floor_raised s sequence
    obtain rfl := Option.some.inj ((same.symm.trans floor.symm).trans known)
    rcases from_ with rfl | before
    · omega
    · exact fresh.above _ before
  · exact fun inside => fresh.notStored ((packets sequence).mp inside)
  · intro inside
    rw [missing] at inside
    exact fresh.notMissing (OrderedMap.mem_filter.mp inside).2
  · exact lost ▸ fresh.notLost

theorem mem_emplaceAll {keys : List ℤ} (missing : ℤ → Missing) (key : ℤ) :
    key ∈ (keys.foldl (fun s key => s.emplaceMissing key (missing key)) s).missing ↔ key ∈ keys ∨ key ∈ s.missing := by
  induction keys generalizing s with
  | nil => simp
  | cons first rest ih =>
    have single : key ∈ (s.emplaceMissing first (missing first)).missing ↔ key = first ∨ key ∈ s.missing := by
      unfold Impl.emplaceMissing
      split_ifs with wanted
      · constructor
        · exact .inr
        · rintro (rfl | inside)
          · exact wanted
          · exact inside
      · exact OrderedMap.mem_insert
    rw [List.foldl_cons, ih, single, List.mem_cons]
    tauto

theorem emplaceAll_frame (s : Impl) (keys : List ℤ) (missing : ℤ → Missing) :
    keys.foldl (fun s key => s.emplaceMissing key (missing key)) s =
      { s with missing := (keys.foldl (fun s key => s.emplaceMissing key (missing key)) s).missing } := by
  induction keys generalizing s with
  | nil => rfl
  | cons first rest ih =>
    rw [List.foldl_cons, ih]
    unfold Impl.emplaceMissing
    split_ifs <;> rfl

theorem openGap_frame (s : Impl) (now sequence highest : ℤ) :
    s.openGap now sequence highest = { s with missing := (s.openGap now sequence highest).missing } :=
  emplaceAll_frame s (Int.range (highest + 1) sequence) _

theorem mem_openGap (key : ℤ) : key ∈ (s.openGap now sequence highest).missing ↔
    (highest < key ∧ key < sequence) ∨ key ∈ s.missing := by
  unfold Impl.openGap
  rw [mem_emplaceAll, Int.mem_range_iff]
  exact or_congr_left ⟨fun ⟨low, high⟩ => ⟨by omega, high⟩, fun ⟨low, high⟩ => ⟨by omega, high⟩⟩

theorem fresh_openGap (fresh : Fresh s sequence) : Fresh (s.openGap now sequence highest) sequence := by
  have notMissing : sequence ∉ (s.openGap now sequence highest).missing := by
    intro inside
    rcases (mem_openGap sequence).mp inside with ⟨-, beyond⟩ | before
    · exact lt_irrefl sequence beyond
    · exact fresh.notMissing before
  rw [openGap_frame]
  exact ⟨fresh.above, fresh.notStored, notMissing, fresh.notLost⟩

theorem fresh_pruneHistory (fresh : Fresh s sequence) : Fresh s.pruneHistory sequence := by
  rw [pruneHistory_eq]
  generalize List.map _ _ = keys
  have store := storeOnly_releaseAll s keys
  constructor
  · intro value known
    exact fresh.above value (store.floor ▸ known)
  · exact fun inside => fresh.notStored (mem_releaseAll.mp (OrderedMap.mem_filter.mp inside).2)
  · intro inside
    have before := (OrderedMap.mem_filter.mp inside).2
    rw [store.missing] at before
    exact fresh.notMissing before
  · intro inside
    have before := (Finset.mem_filter.mp inside).1
    rw [store.lost] at before
    exact fresh.notLost before

/-- A newer packet: either all before it is given up, or each number since the newest one is missing. -/
theorem moves_gap (now : ℤ) (settled : Coherent highest s) (fresh : Fresh s sequence) (known : s.highestSequence = some highest)
    (newer : highest < sequence) : ∃ t, Steps sequence s t ∧ Fresh t sequence ∧
      (∀ key, highest < key → key < sequence → Held t key) ∧
      s.observeSequence now sequence = Impl.pruneHistory { t with highestSequence := some sequence } := by
  have counted : Steps sequence s (s.countNewer sequence) := .single (.quiet (quiet_countNewer s sequence))
  have freshCounted : Fresh (s.countNewer sequence) sequence :=
    ⟨fresh.above, fresh.notStored, fun inside => fresh.notMissing (OrderedMap.mem_mapValues.mp inside), fresh.notLost⟩
  unfold Impl.observeSequence
  rw [known]
  dsimp only
  rw [if_neg (not_le.mpr newer)]
  split_ifs with jump
  · refine ⟨_, counted.trans (steps_giveUpBefore _ (by omega)), fresh_giveUpBefore freshCounted true, ?_, rfl⟩
    intro key _ before
    obtain ⟨-, -, -, floor⟩ := giveUpBefore_spec (s.countNewer sequence) now sequence true
    obtain ⟨value, same, beyond, -⟩ := floor_raised (s.countNewer sequence) sequence
    exact .inl ⟨value, floor.trans same, by omega⟩
  · refine ⟨_, counted.trans (steps_emplaceAll _ ?_), fresh_openGap freshCounted, ?_, rfl⟩
    · intro key member
      obtain ⟨low, high⟩ := Int.mem_range_iff.mp member
      refine ⟨by omega, ?_, ?_, ?_⟩
      · intro inside
        have := settled.stored_le inside
        omega
      · intro inside
        have := settled.lost_le inside
        omega
      · intro floor raised
        have := settled.floor_le raised
        omega
    · intro key after before
      exact .inr (.inr (.inl ((mem_openGap key).mpr (.inl ⟨after, before⟩))))

theorem moves_observe (came : ℤ → Packet → Prop) (now : ℤ) (coherent : ∀ top, Newest s top → Coherent top s) (fresh : Fresh s sequence)
    (first : s.highestSequence = none → s.firstSequence = sequence) :
    Moves came (some sequence, s) (some sequence, s.observeSequence now sequence) ∧
      Fresh (s.observeSequence now sequence) sequence ∧
      (∃ newest, (s.observeSequence now sequence).highestSequence = some newest ∧ sequence ≤ newest) ∧
      ∀ top, Newest (s.observeSequence now sequence) top → Coherent top (s.observeSequence now sequence) := by
  cases known : s.highestSequence with
  | none =>
    have same : s.observeSequence now sequence = { s with highestSequence := some sequence } := by
      unfold Impl.observeSequence
      rw [known]
    have start := first known
    rw [same]
    refine ⟨.single (.raise (by simp [known]) (fun key _ from_first before => by omega)),
      ⟨fresh.above, fresh.notStored, fresh.notMissing, fresh.notLost⟩, ⟨sequence, rfl, le_rfl⟩, ?_⟩
    intro top _
    exact (coherent top (by simp [Newest, known])).raise
  | some highest =>
    have here : Coherent highest s := coherent highest (by simp [Newest, known])
    rcases le_or_gt sequence highest with older | newer
    · have same : s.observeSequence now sequence = s := by
        unfold Impl.observeSequence
        rw [known]
        exact if_pos older
      rw [same]
      exact ⟨.refl, fresh, ⟨highest, known, older⟩, coherent⟩
    · obtain ⟨t, steps, freshAfter, between, same⟩ := moves_gap now here fresh known newer
      have above : Newest s sequence := by
        intro newest still
        obtain rfl := Option.some.inj (known.symm.trans still)
        exact newer.le
      have fixed := steps_fixed steps
      have kept : Coherent sequence { t with highestSequence := some sequence } :=
        Coherent.raise (coherent_steps (coherent sequence above) steps)
      have pruned := steps_pruneHistory kept rfl
      rw [same]
      refine ⟨?_, fresh_pruneHistory ⟨freshAfter.above, freshAfter.notStored, freshAfter.notMissing, freshAfter.notLost⟩,
        ⟨sequence, (steps_fixed pruned).1, le_rfl⟩, ?_⟩
      · refine ((moves_steps above steps).tail (.raise ?_ ?_)).trans (moves_steps ?_ pruned)
        · intro newest still
          obtain rfl := Option.some.inj (known.symm.trans (fixed.1 ▸ still))
          exact newer
        · intro key beyond _ before
          exact between key (beyond highest (fixed.1.trans known)) before
        · intro newest still
          exact (Option.some.inj still).ge
      · intro top bound
        have le := bound sequence (steps_fixed pruned).1
        have at_sequence := coherent_steps kept pruned
        exact at_sequence.mono le

end Observe

/-! ## Calls -/

theorem ofInt_extendSequence (s : Impl) (wire : BitVec 16) : BitVec.ofInt 16 (s.extendSequence wire) = wire := by
  have nearest (cycle : ℤ) : BitVec.ofInt 16 (cycle * 65536 + wire.toNat) = wire := by
    apply BitVec.eq_of_toInt_eq
    rw [BitVec.toInt_ofInt, BitVec.toInt_eq_toNat_bmod]
    simp [Int.bmod_def]
  unfold Impl.extendSequence
  cases s.highestSequence with
  | none => simp
  | some highest =>
    dsimp only
    split_ifs
    · rw [show highest / 65536 * 65536 + (wire.toNat : ℤ) - 65536 = (highest / 65536 - 1) * 65536 + wire.toNat by ring]
      exact nearest _
    · rw [show highest / 65536 * 65536 + (wire.toNat : ℤ) + 65536 = (highest / 65536 + 1) * 65536 + wire.toNat by ring]
      exact nearest _
    · exact nearest _

/-- The packet as it was stored when one of the datagrams came. -/
structure Came (calls : List Call) (key : ℤ) (packet : Packet) : Prop where
  datagram : ∃ render data parsed, Call.onRtpPacket render packet.arrival data ∈ calls ∧
    parsed.sequence = BitVec.ofInt 16 key ∧ packet.timestamp = parsed.timestamp ∧ packet.marker = parsed.marker ∧
    (parseRtpPacket data = .padding parsed ∧ packet.padding = true ∧ packet.payload = [] ∨
      parseRtpPacket data = .media parsed ∧ packet.padding = false ∧ packet.payload = parsed.payload ∧
        validateH264Payload packet.payload = true ∧ packet.payload.length ≤ kMaxPayloadBytes)

section Calls

variable {came : ℤ → Packet → Prop} {s : Impl} {now sequence : ℤ}

theorem quiet_noteFilled (s : Impl) (now sequence : ℤ) (ssrc : BitVec 32) :
    Quiet (enter s sequence ssrc) ((s.chooseSsrc sequence ssrc).noteFilled now sequence) := by
  have missing : (s.chooseSsrc sequence ssrc).missing = s.missing := by
    unfold Impl.chooseSsrc
    split_ifs <;> rfl
  unfold enter Impl.noteFilled
  rw [missing]
  cases found : s.missing.find sequence with
  | none =>
    refine ⟨rfl, ?_, [], (List.append_nil _).symm, by simp⟩
    intro key
    dsimp only
    rw [missing, OrderedMap.mem_erase]
    refine ⟨fun inside => ⟨?_, inside⟩, And.right⟩
    rintro rfl
    rw [OrderedMap.mem_def, found] at inside
    exact Bool.noConfusion inside
  | some gap =>
    obtain ⟨repairs, same⟩ := noteRepair_frame (s.chooseSsrc sequence ssrc) now (now - gap.expected)
    dsimp only
    rw [same]
    exact ⟨rfl, fun _ => Iff.rfl, [], (List.append_nil _).symm, by simp⟩

theorem coherent_enter {top : ℤ} (coherent : Coherent top s) (ssrc : BitVec 32) : Coherent top (enter s sequence ssrc) := by
  have chosen : Coherent top (s.chooseSsrc sequence ssrc) ∧ (s.chooseSsrc sequence ssrc).missing = s.missing := by
    unfold Impl.chooseSsrc
    split_ifs
    · exact ⟨{ coherent with }, rfl⟩
    · exact ⟨coherent, rfl⟩
  unfold enter
  rw [← chosen.2]
  exact { chosen.1 with
    missing_le := fun member => chosen.1.missing_le (OrderedMap.mem_erase.mp member).2
    missing_above := fun member => chosen.1.missing_above (OrderedMap.mem_erase.mp member).2
    missing_stored := fun member => chosen.1.missing_stored (OrderedMap.mem_erase.mp member).2
    missing_lost := fun member => chosen.1.missing_lost (OrderedMap.mem_erase.mp member).2 }

theorem coherent_store {top : ℤ} (coherent : Coherent top s) (fresh : Fresh s sequence) (bound : sequence ≤ top)
    {packet : Packet} (media : packet.emitted = packet.padding) : Coherent top (s.store sequence packet) := by
  have stored (key : ℤ) : key ∈ s.packets.insert sequence packet ↔ key = sequence ∨ key ∈ s.packets :=
    OrderedMap.mem_insert
  have absent : sequence ∉ s.unemitted := by
    intro member
    obtain ⟨before, found, -⟩ := (coherent.waiting sequence).mp member
    exact fresh.notStored (OrderedMap.mem_of_find_eq found)
  have others {key : ℤ} (member : key ∈ s.unemitted) : (s.packets.insert sequence packet).find key = s.packets.find key := by
    rw [OrderedMap.find_insert, if_neg (ne_of_mem_of_not_mem member absent)]
  have sums : ∑ key ∈ s.unemitted, ((((s.packets.insert sequence packet).find key).getD {}).payload.length : ℤ) =
      s.bufferedBytes := by
    refine (Finset.sum_congr rfl ?_).trans coherent.summed.symm
    intro key member
    rw [others member]
    rfl
  have kept : ∀ {key : ℤ}, key ∈ s.packets.insert sequence packet → key ≤ top := by
    intro key member
    rcases (stored key).mp member with rfl | before
    · exact bound
    · exact coherent.stored_le before
  have apart : ∀ {key : ℤ}, key ∈ s.missing → key ∉ s.packets.insert sequence packet := by
    intro key member inside
    rcases (stored key).mp inside with rfl | before
    · exact fresh.notMissing member
    · exact coherent.missing_stored member before
  have padded : ∀ {key : ℤ} {other : Packet}, (s.packets.insert sequence packet).find key = some other →
      other.padding = true → other.emitted = true := by
    intro key other found isPadding
    rw [OrderedMap.find_insert] at found
    split_ifs at found
    · obtain rfl := Option.some.inj found
      exact media.trans isPadding
    · exact coherent.padding found isPadding
  unfold Impl.store
  split_ifs with isPadding
  · refine { coherent with
      waiting := ?header, padding := padded, summed := sums.symm, stored_le := kept, missing_stored := apart }
    intro key
    dsimp only
    rw [coherent.waiting, OrderedMap.find_insert]
    by_cases here : key = sequence
    · have gone : s.packets.find sequence = none := by
        by_contra found
        exact fresh.notStored (Option.isSome_iff_ne_none.mpr found)
      simp [here, gone, media, isPadding]
    · rw [if_neg here]
  · have waits : packet.emitted = false := by simpa [media] using isPadding
    refine { coherent with
      waiting := ?waiting, padding := padded, counted := ?counted, summed := ?summed, stored_le := kept, missing_stored := apart }
    · intro key
      dsimp only
      rw [Finset.mem_insert, coherent.waiting, OrderedMap.find_insert]
      by_cases here : key = sequence
      · simp [here, waits]
      · simp [here]
    · dsimp only
      rw [Finset.card_insert_of_notMem absent, coherent.counted]
      push_cast
      ring
    · dsimp only
      rw [Finset.sum_insert absent]
      unfold Impl.packetAt
      dsimp only
      rw [sums, OrderedMap.find_insert, if_pos rfl, Option.getD_some]
      ring

/-- The packet is stored or wanted, whichever its payload allows. -/
theorem reaches_acceptPacket (settled : Settled s) {parsed : ParsedRtpPacket} {padding validH264 : Bool}
    (above : ∀ floor, s.floor = some floor → floor < sequence) (notStored : sequence ∉ s.packets) (notLost : sequence ∉ s.lost)
    (arrived : ∀ repaired, padding = true ∨ validH264 = true → came sequence
      { timestamp := parsed.timestamp, marker := parsed.marker, padding := padding, emitted := padding, repaired := repaired,
        arrival := now, payload := if padding then [] else parsed.payload }) :
    Reaches came s (s.acceptPacket now sequence parsed padding validH264) := by
  have filling := quiet_noteFilled s now sequence parsed.ssrc
  generalize filled_eq : (s.chooseSsrc sequence parsed.ssrc).noteFilled now sequence = filled at filling
  have admitted : ∀ top, Newest filled top → Coherent top filled := by
    intro top bound
    refine coherent_quiet (coherent_enter (settled.coherent ?_) parsed.ssrc) filling
    intro newest known
    apply bound
    rw [filling.highestSequence]
    unfold enter Impl.chooseSsrc
    split_ifs <;> exact known
  have fixed : filled.highestSequence = s.highestSequence ∧ filled.floor = s.floor ∧ filled.packets = s.packets ∧
      filled.lost = s.lost := by
    rw [filling.highestSequence, filling.floor, filling.packets, filling.lost]
    unfold enter Impl.chooseSsrc
    split_ifs <;> exact ⟨rfl, rfl, rfl, rfl⟩
  have chosen : filled.ssrc ≠ none ∧ (s.ssrc = none → filled.firstSequence = sequence) := by
    rw [filling.ssrc, filling.firstSequence]
    unfold enter Impl.chooseSsrc
    split_ifs with first
    · exact ⟨Option.some_ne_none _, fun _ => rfl⟩
    · exact ⟨first, fun none => absurd none first⟩
  have fresh : Fresh filled sequence := by
    obtain ⟨-, floor, packets, lost⟩ := fixed
    refine ⟨floor ▸ above, packets ▸ notStored, ?_, lost ▸ notLost⟩
    intro inside
    exact (OrderedMap.mem_erase.mp ((filling.missing sequence).mp inside)).1 rfl
  have filledMoves : Moves came (none, s) (some sequence, filled) :=
    (Relation.ReflTransGen.single (.enter above notStored notLost)).tail (.step (newest_getD _) (.quiet filling))
  obtain ⟨observing, freshAfter, ⟨newest, known, bound⟩, coherent⟩ := moves_observe came now admitted fresh
    fun unknown => chosen.2 (settled.started (fixed.1.symm.trans unknown))
  unfold Impl.acceptPacket
  dsimp only
  rw [filled_eq]
  generalize filled.observeSequence now sequence = observed at *
  have touched : Quiet observed { observed with lastAnyArrival := now } :=
    ⟨rfl, fun _ => Iff.rfl, [], (List.append_nil _).symm, by simp⟩
  have freshTouched : Fresh { observed with lastAnyArrival := now } sequence :=
    ⟨freshAfter.above, freshAfter.notStored, freshAfter.notMissing, freshAfter.notLost⟩
  have moved := (filledMoves.trans observing).tail (.step (newest_getD _) (.quiet touched))
  have stored (packet : Packet) (media : packet.emitted = packet.padding) (arrival : came sequence packet) :
      Reaches came s (Impl.store { observed with lastAnyArrival := now } sequence packet) := by
    refine ⟨moved.tail (.store freshTouched known bound media arrival), ?_, ?_⟩
    · intro top above
      have highest : newest ≤ top := above newest (by unfold Impl.store; split_ifs <;> exact known)
      exact coherent_store (coherent_quiet (coherent top (by simpa [Newest, known] using highest)) touched) freshTouched
        (bound.trans highest) media
    · intro unknown
      unfold Impl.store at unknown
      split_ifs at unknown <;> exact absurd (known.symm.trans unknown) (Option.some_ne_none newest)
  split_ifs with isPadding invalid
  · exact stored _ rfl (by simpa [isPadding] using arrived _ (.inl isPadding))
  · refine ⟨moved.tail (.want freshTouched known bound), ?_, ?_⟩
    · intro top above
      have highest : newest ≤ top := above newest (by
        unfold Impl.markMissing Impl.emplaceMissing
        split_ifs <;> exact known)
      exact coherent_await (coherent_quiet (coherent top (by simpa [Newest, known] using highest)) touched)
        (bound.trans highest) freshTouched.notStored freshTouched.notLost freshTouched.above
    · intro unknown
      unfold Impl.markMissing Impl.emplaceMissing at unknown
      split_ifs at unknown <;> exact absurd (known.symm.trans unknown) (Option.some_ne_none newest)
  · exact stored _ (by simp) (by simpa [isPadding] using arrived _ (.inr (by simpa using invalid)))

/-- A datagram is ignored, or accepted with what its packet settles. -/
theorem receive_cases (settled : Settled s) (render : RenderTime) {data : List Byte} {calls : List Call}
    (call : .onRtpPacket render now data ∈ calls) (parsed : ParsedRtpPacket) (padding : Bool)
    (read : parseRtpPacket data = if padding then .padding parsed else .media parsed) :
    Quiet s (s.receive now parsed padding) ∨ ∃ accepted sequence, Reaches (Came calls) s accepted ∧
      s.receive now parsed padding = (accepted.enforceMemoryBounds now).settleAround now sequence := by
  unfold Impl.receive
  dsimp only
  split_ifs with stranger early duplicate late
  · exact .inl (quiet_refl s)
  · exact .inl (quiet_refl s)
  · exact .inl (quiet_refl s)
  · exact .inl (quiet_noteLate s now _)
  rw [not_or] at late
  have above : ∀ floor, s.floor = some floor → floor < s.extendSequence parsed.sequence := by
    intro floor known
    have beyond := late.1
    rw [known, Option.any_some, decide_eq_true_iff] at beyond
    exact not_le.mp beyond
  refine .inr ⟨_, s.extendSequence parsed.sequence, reaches_acceptPacket settled above duplicate late.2 ?_, rfl⟩
  intro repaired usable
  refine ⟨render, data, parsed, call, (ofInt_extendSequence s parsed.sequence).symm, rfl, rfl, ?_⟩
  cases padding with
  | true => exact .inl ⟨read, rfl, rfl⟩
  | false =>
    have valid : parsed.payload.length ≤ kMaxPayloadBytes ∧ validateH264Payload parsed.payload = true := by
      simpa using usable
    exact .inr ⟨read, rfl, rfl, valid.2, valid.1⟩

theorem handleDatagram_cases (settled : Settled s) (render : RenderTime) {data : List Byte} {calls : List Call}
    (call : .onRtpPacket render now data ∈ calls) :
    Quiet s (s.handleDatagram now data) ∨ ∃ accepted sequence, Reaches (Came calls) s accepted ∧
      s.handleDatagram now data = (accepted.enforceMemoryBounds now).settleAround now sequence := by
  unfold Impl.handleDatagram
  cases read : parseRtpPacket data with
  | invalid => exact .inl (quiet_refl s)
  | media parsed => exact receive_cases settled render call parsed false read
  | padding parsed => exact receive_cases settled render call parsed true read

theorem reaches_handleDatagram (settled : Settled s) (render : RenderTime) {data : List Byte} {calls : List Call}
    (call : .onRtpPacket render now data ∈ calls) : Reaches (Came calls) s (s.handleDatagram now data) := by
  rcases handleDatagram_cases settled render call with ignored | ⟨accepted, sequence, reached, same⟩
  · exact reaches_steps settled fun _ _ => .single (.quiet ignored)
  · rw [same]
    have bounded : Reaches (Came calls) s (accepted.enforceMemoryBounds now) := reached.trans
      (reaches_steps reached.2 fun _ _ => steps_enforceMemoryBounds accepted now)
    exact bounded.trans (reaches_steps bounded.2 fun _ coherent => steps_settleAround coherent now sequence)

theorem quiet_clock (s : Impl) (now : ℤ) : Quiet s { s with lastTime := some now } :=
  ⟨rfl, fun _ => Iff.rfl, [], (List.append_nil _).symm, by simp⟩

theorem reaches_call (settled : Settled s) {calls : List Call} {call : Call} (member : call ∈ calls) :
    Reaches (Came calls) s (s.call call) := by
  have clocked (now : ℤ) : Reaches (Came calls) s { s with lastTime := some now } :=
    reaches_steps settled fun _ _ => .single (.quiet (quiet_clock s now))
  cases call with
  | onRtpPacket render now data =>
    unfold Impl.call Impl.onRtpPacket
    dsimp only
    split_ifs
    · exact ⟨.refl, settled⟩
    have received := (clocked now).trans (reaches_handleDatagram (clocked now).2 render member)
    exact received.trans (reaches_steps received.2 fun _ coherent => steps_processTime coherent render now)
  | tick render now =>
    unfold Impl.call Impl.tick
    dsimp only
    split_ifs
    · exact ⟨.refl, settled⟩
    · exact (clocked now).trans (reaches_steps (clocked now).2 fun _ coherent => steps_processTime coherent render now)
  | setRtt rtt => exact reaches_steps settled fun _ _ => .single (.quiet (quiet_setRtt s rtt))

theorem settled_new (config : Config) : Settled (Impl.new config) where
  coherent _ := {
    waiting := fun key => by simp [Impl.new]
    padding := fun found => by simp [Impl.new] at found
    counted := rfl
    summed := rfl
    stored_le := fun member => by simp [Impl.new, OrderedMap.mem_def] at member
    lost_le := fun member => by simp [Impl.new] at member
    floor_le := fun known => by simp [Impl.new] at known
    missing_le := fun member => by simp [Impl.new, OrderedMap.mem_def] at member
    missing_above := fun member => by simp [Impl.new, OrderedMap.mem_def] at member
    missing_stored := fun member => by simp [Impl.new, OrderedMap.mem_def] at member
    missing_lost := fun member => by simp [Impl.new, OrderedMap.mem_def] at member }
  started _ := rfl

/-- Whatever the owner calls, the receiver gets there by moves. -/
theorem reaches_run (config : Config) (calls : List Call) : Reaches (Came calls) (Impl.new config) (run config calls) := by
  unfold run
  refine List.foldlRecOn calls Impl.call ⟨.refl, settled_new config⟩ ?_
  intro s reached call member
  exact reached.trans (reaches_call reached.2 member)

/-- What each move keeps holds after every run. -/
theorem run_induction {motive : Option ℤ × Impl → Prop} {config : Config} {calls : List Call}
    (start : motive (none, Impl.new config)) (kept : ∀ a b, motive a → Move (Came calls) a b → motive b) :
    motive (none, run config calls) := by
  have moves := (reaches_run config calls).1
  generalize (none, run config calls) = last at moves
  induction moves with
  | refl => exact start
  | tail _ move ih => exact kept _ _ ih move

end Calls

/-! ## A run -/

/-- A datagram with a picture of one packet in it. -/
def picture (sequence : BitVec 16) (timestamp : Byte) : List Byte :=
  [0x80, 0xe0] ++ u16Bytes sequence ++ [0, 0, 0, timestamp, 1, 2, 3, 4, 0x65, 0x88, 0x84]

/-- The packet between the two pictures does not come. -/
def twoPictures : List Call :=
  [.onRtpPacket (fun _ => none) 0 (picture 7 0), .onRtpPacket (fun _ => none) 1000000 (picture 9 1)]

end Mello.Transport.RtpH264Moves
