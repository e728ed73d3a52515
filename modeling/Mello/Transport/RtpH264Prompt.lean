import Mello.Transport.RtpH264Moves

/-!
An access unit goes out, or is dropped, in the call that settles its start and
its end. The packets around a change are looked at, and no others: only padding
beside an access unit can hide that its other side is settled.
-/

namespace Mello.Transport.RtpH264Prompt
open Library Twcc H264Payload RtpH264Receiver RtpH264Steps RtpH264Chains RtpH264Moves

/-! ## Access units that wait -/

def WaitsAt (s : Impl) (timestamp : BitVec 32) (key : ℤ) : Prop :=
  ∃ packet, s.packets.find key = some packet ∧ packet.waitsIn timestamp = true

def MediaAt (s : Impl) (key : ℤ) : Prop :=
  ∃ packet, s.packets.find key = some packet ∧ packet.padding = false

def PaddingAt (s : Impl) (key : ℤ) : Prop :=
  ∃ packet, s.packets.find key = some packet ∧ packet.padding = true

/-- Packets of one access unit with nothing unknown right before and right behind them. -/
structure Ready (s : Impl) (lo hi : ℤ) (timestamp : BitVec 32) : Prop where
  ordered : lo ≤ hi
  waiting {key : ℤ} : lo ≤ key → key ≤ hi → WaitsAt s timestamp key
  before : ¬WaitsAt s timestamp (lo - 1)
  behind : ¬WaitsAt s timestamp (hi + 1)
  start : s.isGone (lo - 1) = true ∨ MediaAt s (lo - 1)
  stop : (s.packetAt hi).marker = true ∨ hi + 1 ∈ s.lost ∨
    ∃ packet, s.packets.find (hi + 1) = some packet ∧ packet.padding = false ∧
      packet.timestamp ≠ timestamp

/-- Each access unit that is ready after a change was ready before it. -/
def NoneNew (s t : Impl) : Prop :=
  ∀ lo hi timestamp, Ready t lo hi timestamp → Ready s lo hi timestamp

theorem NoneNew.trans {s t u : Impl} (first : NoneNew s t) (second : NoneNew t u) : NoneNew s u :=
  fun lo hi timestamp ready => first lo hi timestamp (second lo hi timestamp ready)

/-- No access unit around this packet is ready. -/
def ClearAt (s : Impl) (key : ℤ) : Prop :=
  ∀ lo hi timestamp, Ready s lo hi timestamp → ¬(lo ≤ key ∧ key ≤ hi)

theorem NoneNew.clearAt {s t : Impl} {key : ℤ} (none : NoneNew s t) (clear : ClearAt s key) :
    ClearAt t key :=
  fun lo hi timestamp ready => clear lo hi timestamp (none lo hi timestamp ready)

section Groups

variable {s t : Impl} {sequence lo hi : ℤ} {timestamp : BitVec 32}

theorem isGone_iff {key : ℤ} : s.isGone key = true ↔
    key < s.firstSequence ∨ (∃ floor, s.floor = some floor ∧ key ≤ floor) ∨ key ∈ s.lost := by
  unfold Impl.isGone
  rw [Bool.or_eq_true, Bool.or_eq_true, decide_eq_true_iff, decide_eq_true_iff,
    Option.any_eq_true, or_assoc]
  simp only [decide_eq_true_iff]

theorem media_of_waitsIn {packet : Packet} (waits : packet.waitsIn timestamp = true) :
    packet.emitted = false ∧ packet.padding = false ∧ packet.timestamp = timestamp := by
  unfold Packet.waitsIn at waits
  simpa [and_assoc] using waits

/-- The run of packets found around one of them is the longest one. -/
theorem groupOf_longest (grouped : s.groupOf sequence = some (lo, hi)) :
    ¬WaitsAt s (s.packetAt lo).timestamp (lo - 1) ∧ ¬WaitsAt s (s.packetAt lo).timestamp (hi + 1) := by
  obtain ⟨left, right, waiting⟩ := groupOf_spec grouped
  unfold Impl.groupOf at grouped
  obtain ⟨packet, found, run⟩ := Option.bind_eq_some_iff.mp grouped
  dsimp only at run
  split_ifs at run
  obtain ⟨first, last⟩ := Prod.mk.inj (Option.some.inj run)
  obtain ⟨other, there, waits⟩ := waiting sequence left right
  obtain rfl := Option.some.inj (found.symm.trans there)
  rw [(media_of_waitsIn waits).2.2] at first last
  generalize same : (fun (_ : ℤ) (other : Packet) => other.waitsIn (s.packetAt lo).timestamp) = test
    at first last
  constructor
  · have stops := s.packets.passesAt_walk test (show (-1 : ℤ) ≠ 0 by decide) (sequence - 1)
    rw [show s.packets.walk (-1) test (sequence - 1) = lo - 1 by omega] at stops
    intro before
    subst same
    exact Bool.noConfusion (stops.symm.trans (OrderedMap.passesAt_iff.mpr before))
  · have stops := s.packets.passesAt_walk test (show (1 : ℤ) ≠ 0 by decide) (sequence + 1)
    rw [show s.packets.walk 1 test (sequence + 1) = hi + 1 by omega] at stops
    intro behind
    subst same
    exact Bool.noConfusion (stops.symm.trans (OrderedMap.passesAt_iff.mpr behind))

theorem Ready.timestamp_eq (ready : Ready s lo hi timestamp) : (s.packetAt lo).timestamp = timestamp := by
  obtain ⟨packet, found, waits⟩ := ready.waiting le_rfl ready.ordered
  unfold Impl.packetAt
  rw [found]
  exact (media_of_waitsIn waits).2.2

theorem groupOf_eq (waiting : ∀ key, lo ≤ key → key ≤ hi → WaitsAt s timestamp key)
    (before : ¬WaitsAt s timestamp (lo - 1))
    (behind : ¬WaitsAt s timestamp (hi + 1)) (from_lo : lo ≤ sequence) (to_hi : sequence ≤ hi) :
    s.groupOf sequence = some (lo, hi) := by
  obtain ⟨packet, found, waits⟩ := waiting sequence from_lo to_hi
  obtain ⟨open_, media, rfl⟩ := media_of_waitsIn waits
  have passes (key : ℤ) :
      s.packets.passesAt (fun _ other => other.waitsIn packet.timestamp) key = true ↔
        WaitsAt s packet.timestamp key := OrderedMap.passesAt_iff
  have first : s.packets.walk (-1) (fun _ other => other.waitsIn packet.timestamp) (sequence - 1) =
      lo - 1 := by
    refine OrderedMap.walk_down_eq (by omega) ?_ ?_
    · intro key beyond upto
      exact (passes key).mpr (waiting key (by omega) (by omega))
    · exact Bool.eq_false_iff.mpr (mt (passes _).mp before)
  have last : s.packets.walk 1 (fun _ other => other.waitsIn packet.timestamp) (sequence + 1) = hi + 1 := by
    refine OrderedMap.walk_up_eq (by omega) ?_ ?_
    · intro key from_key below
      exact (passes key).mpr (waiting key (by omega) (by omega))
    · exact Bool.eq_false_iff.mpr (mt (passes _).mp behind)
  unfold Impl.groupOf
  rw [found, Option.bind_some, if_neg (by simp [open_, media])]
  dsimp only
  rw [first, last, sub_add_cancel, add_sub_cancel_right]

theorem Ready.groupOf_eq (ready : Ready s lo hi timestamp) (from_lo : lo ≤ sequence)
    (to_hi : sequence ≤ hi) : s.groupOf sequence = some (lo, hi) :=
  RtpH264Prompt.groupOf_eq (fun _ => ready.waiting) ready.before ready.behind from_lo to_hi

/-- The packets of a run all find the same run. -/
theorem groupOf_within (grouped : s.groupOf sequence = some (lo, hi)) {key : ℤ} (from_lo : lo ≤ key)
    (to_hi : key ≤ hi) : s.groupOf key = some (lo, hi) := by
  obtain ⟨before, behind⟩ := groupOf_longest grouped
  exact groupOf_eq (groupOf_spec grouped).2.2 before behind from_lo to_hi

theorem groupOf_of_waitsAt (waits : WaitsAt s timestamp sequence) :
    ∃ lo hi, s.groupOf sequence = some (lo, hi) ∧ (s.packetAt lo).timestamp = timestamp := by
  obtain ⟨packet, found, waits⟩ := waits
  obtain ⟨open_, media, same⟩ := media_of_waitsIn waits
  obtain ⟨lo, hi, grouped⟩ : ∃ lo hi, s.groupOf sequence = some (lo, hi) := by
    unfold Impl.groupOf
    rw [found, Option.bind_some, if_neg (by simp [open_, media])]
    exact ⟨_, _, rfl⟩
  obtain ⟨left, right, waiting⟩ := groupOf_spec grouped
  obtain ⟨other, there, here⟩ := waiting sequence left right
  obtain rfl := Option.some.inj (found.symm.trans there)
  exact ⟨lo, hi, grouped, (media_of_waitsIn here).2.2.symm.trans same⟩

theorem clearAt_of_none (none : s.groupOf sequence = none) : ClearAt s sequence := by
  intro lo hi timestamp ready inside
  have some := ready.groupOf_eq inside.1 inside.2
  rw [none] at some
  cases some

/-- Nothing is unknown about the packet before. -/
theorem Ready.start_settled (ready : Ready s lo hi timestamp) : s.startKnown lo timestamp ≠ .unknown := by
  have stays : s.packets.walk (-1) (fun key packet => !s.isGone key && packet.padding) (lo - 1) =
      lo - 1 := by
    apply OrderedMap.walk_self
    unfold OrderedMap.passesAt
    rcases ready.start with gone | ⟨packet, found, media⟩
    · simp [gone]
    · simp [found, media]
  have known : s.packetBefore lo ≠ .unknown := by
    unfold Impl.packetBefore
    dsimp only
    rw [stays]
    rcases ready.start with gone | ⟨packet, found, media⟩
    · rw [if_pos gone]
      exact Before.noConfusion
    · rw [found]
      split_ifs <;> exact Before.noConfusion
  unfold Impl.startKnown
  cases shape : s.packetBefore lo with
  | media packet =>
    dsimp only
    split_ifs <;> exact Edge.noConfusion
  | gone =>
    dsimp only
    split_ifs <;> exact Edge.noConfusion
  | unknown => exact absurd shape known

theorem Ready.stop_settled (ready : Ready s lo hi timestamp) : s.endKnown hi timestamp ≠ .unknown := by
  unfold Impl.endKnown
  split_ifs with marked
  · exact Edge.noConfusion
  have stays : s.packets.walk 1 (fun key packet => decide (key ∉ s.lost) && packet.padding) (hi + 1) =
      hi + 1 := by
    apply OrderedMap.walk_self
    unfold OrderedMap.passesAt
    rcases ready.stop with ends | lost | ⟨packet, found, media, -⟩
    · exact absurd ends marked
    · simp [lost]
    · simp [found, media]
  dsimp only
  rw [stays]
  rcases ready.stop with ends | lost | ⟨packet, found, -, other⟩
  · exact absurd ends marked
  · rw [if_pos lost]
    exact Edge.noConfusion
  · rw [found]
    dsimp only
    rw [if_pos other]
    split_ifs <;> exact Edge.noConfusion

/-- An access unit with a settled start and end is ready, or padding stands beside it. -/
theorem ready_of_settled (grouped : s.groupOf sequence = some (lo, hi))
    (start : s.startKnown lo (s.packetAt lo).timestamp ≠ .unknown)
    (stop : s.endKnown hi (s.packetAt lo).timestamp ≠ .unknown)
    (left : ¬PaddingAt s (lo - 1)) (right : ¬PaddingAt s (hi + 1)) :
    Ready s lo hi (s.packetAt lo).timestamp := by
  obtain ⟨from_lo, to_hi, waiting⟩ := groupOf_spec grouped
  obtain ⟨before, behind⟩ := groupOf_longest grouped
  have media {key : ℤ} (none : ¬PaddingAt s key) {packet : Packet}
      (found : s.packets.find key = some packet) : packet.padding = false :=
    Bool.eq_false_iff.mpr fun padding => none ⟨packet, found, padding⟩
  have stays {step key : ℤ} (none : ¬PaddingAt s key) (known : ℤ → Bool) :
      s.packets.walk step (fun key packet => known key && packet.padding) key = key := by
    apply OrderedMap.walk_self
    rw [Bool.eq_false_iff]
    intro passed
    obtain ⟨packet, found, both⟩ := OrderedMap.passesAt_iff.mp passed
    exact none ⟨packet, found, (Bool.and_eq_true_iff.mp both).2⟩
  refine ⟨from_lo.trans to_hi, fun {key} => waiting key, before, behind, ?_, ?_⟩
  · by_contra unsettled
    rw [not_or] at unsettled
    apply start
    unfold Impl.startKnown Impl.packetBefore
    dsimp only
    rw [stays left, if_neg unsettled.1]
    cases found : s.packets.find (lo - 1) with
    | none => rfl
    | some packet => exact absurd ⟨packet, found, media left found⟩ unsettled.2
  · by_contra unsettled
    rw [not_or, not_or] at unsettled
    obtain ⟨unmarked, kept, none⟩ := unsettled
    apply stop
    unfold Impl.endKnown
    dsimp only
    rw [if_neg unmarked, stays right, if_neg kept]
    cases found : s.packets.find (hi + 1) with
    | none => rfl
    | some packet =>
      dsimp only
      rw [if_neg]
      intro other
      exact none ⟨packet, found, media right found, other⟩

end Groups

/-! ## Changes that make nothing ready -/

section Changes

variable {s t : Impl} {sequence lo hi : ℤ}

theorem noneNew_refl (s : Impl) : NoneNew s s := fun _ _ _ => id

/-- Whether an access unit is ready depends on four parts of the state. -/
theorem noneNew_of_frame (packets : t.packets = s.packets) (lost : t.lost = s.lost)
    (floor : t.floor = s.floor) (first : t.firstSequence = s.firstSequence) : NoneNew s t := by
  intro lo hi timestamp ready
  have waits (key : ℤ) : WaitsAt t timestamp key ↔ WaitsAt s timestamp key := by
    unfold WaitsAt
    rw [packets]
  have gone : t.isGone (lo - 1) = s.isGone (lo - 1) := by
    unfold Impl.isGone
    rw [first, floor, lost]
  have media : MediaAt t (lo - 1) ↔ MediaAt s (lo - 1) := by
    unfold MediaAt
    rw [packets]
  obtain ⟨ordered, waiting, before, behind, start, stop⟩ := ready
  unfold Impl.packetAt at stop
  rw [packets, lost] at stop
  rw [gone, media] at start
  rw [waits] at before behind
  exact ⟨ordered, fun {key} left right => (waits key).mp (waiting left right), before, behind,
    start, stop⟩

theorem noneNew_quiet (same : Quiet s t) : NoneNew s t :=
  noneNew_of_frame same.packets same.lost same.floor same.firstSequence

theorem noneNew_of_still (still : ∀ timestamp key, ¬WaitsAt t timestamp key) : NoneNew s t := by
  intro lo hi timestamp ready
  exact absurd (ready.waiting le_rfl ready.ordered) (still timestamp lo)

theorem waitsAt_releaseAll {keys : List ℤ} {timestamp : BitVec 32} {key : ℤ} :
    WaitsAt (s.releaseAll keys) timestamp key ↔ WaitsAt s timestamp key ∧ key ∉ keys := by
  unfold WaitsAt
  rw [find_releaseAll]
  by_cases released : key ∈ keys
  · simp [released, Packet.released, Packet.waitsIn]
  · simp [released]

theorem isGone_releaseAll (keys : List ℤ) (key : ℤ) :
    (s.releaseAll keys).isGone key = s.isGone key := by
  have same := storeOnly_releaseAll s keys
  unfold Impl.isGone
  rw [same.firstSequence, same.floor, same.lost]

/-- Releases that take whole runs of packets make no other one ready. -/
theorem noneNew_releaseAll {keys : List ℤ}
    (whole : ∀ timestamp key, WaitsAt s timestamp key → WaitsAt s timestamp (key + 1) →
      (key ∈ keys ↔ key + 1 ∈ keys)) :
    NoneNew s (s.releaseAll keys) := by
  intro lo hi timestamp ready
  have kept {key : ℤ} (left : lo ≤ key) (right : key ≤ hi) :
      WaitsAt s timestamp key ∧ key ∉ keys := waitsAt_releaseAll.mp (ready.waiting left right)
  have header {key : ℤ} {packet : Packet} (found : (s.releaseAll keys).packets.find key = some packet) :
      ∃ before, s.packets.find key = some before ∧ before.padding = packet.padding ∧
        before.timestamp = packet.timestamp := by
    rw [find_releaseAll] at found
    split_ifs at found
    · obtain ⟨before, there, rfl⟩ := Option.map_eq_some_iff.mp found
      exact ⟨before, there, rfl, rfl⟩
    · exact ⟨packet, found, rfl, rfl⟩
  refine ⟨ready.ordered, fun {key} left right => (kept left right).1, ?_, ?_, ?_, ?_⟩
  · intro waits
    have first := kept le_rfl ready.ordered
    have same := whole timestamp (lo - 1) waits (by simpa using first.1)
    rw [sub_add_cancel] at same
    exact ready.before (waitsAt_releaseAll.mpr ⟨waits, mt same.mp first.2⟩)
  · intro waits
    have last := kept ready.ordered le_rfl
    have same := whole timestamp hi last.1 waits
    exact ready.behind (waitsAt_releaseAll.mpr ⟨waits, mt same.mpr last.2⟩)
  · rcases ready.start with gone | ⟨packet, found, media⟩
    · exact .inl ((isGone_releaseAll keys _).symm.trans gone)
    · obtain ⟨before, there, padding, -⟩ := header found
      exact .inr ⟨before, there, padding.trans media⟩
  · rcases ready.stop with marked | lost | ⟨packet, found, media, other⟩
    · unfold Impl.packetAt at marked ⊢
      rw [find_releaseAll, if_neg (kept ready.ordered le_rfl).2] at marked
      exact .inl marked
    · exact .inr (.inl ((storeOnly_releaseAll s keys).lost ▸ lost))
    · obtain ⟨before, there, padding, timestamp⟩ := header found
      exact .inr (.inr ⟨before, there, padding.trans media, timestamp ▸ other⟩)

theorem timestamp_of_groupOf (grouped : s.groupOf sequence = some (lo, hi)) {timestamp : BitVec 32}
    {key : ℤ} (left : lo ≤ key) (right : key ≤ hi) (waits : WaitsAt s timestamp key) :
    (s.packetAt lo).timestamp = timestamp := by
  obtain ⟨packet, found, here⟩ := (groupOf_spec grouped).2.2 key left right
  obtain ⟨other, there, waits⟩ := waits
  obtain rfl := Option.some.inj (found.symm.trans there)
  exact (media_of_waitsIn here).2.2.symm.trans (media_of_waitsIn waits).2.2

theorem noneNew_releaseRange (grouped : s.groupOf sequence = some (lo, hi)) :
    NoneNew s (s.releaseRange lo hi) := by
  obtain ⟨before, behind⟩ := groupOf_longest grouped
  apply noneNew_releaseAll
  intro timestamp key here next
  rw [Int.mem_range_iff, Int.mem_range_iff]
  constructor
  · rintro ⟨left, right⟩
    have same := timestamp_of_groupOf grouped left (by omega) here
    have inside : key ≠ hi := by
      rintro rfl
      exact behind (same ▸ next)
    omega
  · rintro ⟨left, right⟩
    have same := timestamp_of_groupOf grouped left (by omega) next
    have inside : key + 1 ≠ lo := by
      rintro rfl
      rw [add_sub_cancel_right] at before
      exact before (same ▸ here)
    omega

/-- Released packets wait for nothing. -/
theorem clearAt_releaseRange (grouped : s.groupOf sequence = some (lo, hi)) :
    ClearAt (s.releaseRange lo hi) sequence := by
  obtain ⟨from_lo, to_hi, -⟩ := groupOf_spec grouped
  intro first last timestamp ready inside
  have waits := waitsAt_releaseAll.mp (ready.waiting inside.1 inside.2)
  exact waits.2 (Int.mem_range_iff.mpr ⟨from_lo, by omega⟩)

end Changes

/-! ## Giving up -/

section GivingUp

variable {top : ℤ} {s : Impl} {sequence : ℤ}

theorem mem_unemitted_of_waitsAt (coherent : Coherent top s) {timestamp : BitVec 32} {key : ℤ}
    (waits : WaitsAt s timestamp key) : key ∈ s.unemitted := by
  obtain ⟨packet, found, waits⟩ := waits
  exact (coherent.waiting key).mpr ⟨packet, found, (media_of_waitsIn waits).1⟩

/-- With a test that older packets pass too, all waiting packets that pass it are released. -/
theorem releaseLoop_spec (coherent : Coherent top s) (test : ℤ → Bool)
    (older : ∀ j k, j ≤ k → test k = true → test j = true)
    {fuel : ℕ} (enough : s.unemitted.card ≤ fuel) :
    ∃ keys, Impl.releaseLoop test fuel s = s.releaseAll keys ∧
      (∀ key ∈ keys, test key = true) ∧ ∀ key ∈ s.unemitted, test key = true → key ∈ keys := by
  induction fuel generalizing s with
  | zero =>
    have nothing := Finset.card_eq_zero.mp (Nat.le_zero.mp enough)
    exact ⟨[], rfl, by simp, by simp [nothing]⟩
  | succ fuel ih =>
    unfold Impl.releaseLoop
    split_ifs with waiting passes
    · have oldest := s.unemitted.min'_mem waiting
      obtain ⟨erased, -, -⟩ := releasePayload_parts coherent (s.unemitted.min' waiting)
      have fewer : (s.releasePayload (s.unemitted.min' waiting)).unemitted.card ≤ fuel := by
        rw [erased, Finset.card_erase_of_mem oldest]
        omega
      obtain ⟨keys, same, passed, all⟩ := ih (coherent_releasePayload coherent _) fewer
      refine ⟨s.unemitted.min' waiting :: keys, same, ?_, ?_⟩
      · exact List.forall_mem_cons.mpr ⟨passes, passed⟩
      · intro key member here
        by_cases first : key = s.unemitted.min' waiting
        · exact List.mem_cons.mpr (.inl first)
        · have later : key ∈ (s.releasePayload (s.unemitted.min' waiting)).unemitted := by
            rw [erased]
            exact Finset.mem_erase.mpr ⟨first, member⟩
          exact List.mem_cons_of_mem _ (all key later here)
    · refine ⟨[], rfl, by simp, ?_⟩
      intro key member here
      exact absurd (older _ key (s.unemitted.min'_le key member) here) passes
    · refine ⟨[], rfl, by simp, ?_⟩
      intro key member
      exact absurd ⟨key, member⟩ waiting

theorem noneNew_obsolete (later : ∀ timestamp key, WaitsAt s timestamp key → sequence < key) :
    NoneNew s (obsolete s sequence) := by
  intro lo hi timestamp ready
  refine { ready with start := ?_ }
  have beyond := later timestamp lo (ready.waiting le_rfl ready.ordered)
  refine ready.start.imp_left fun gone => ?_
  rw [isGone_iff] at gone ⊢
  refine gone.imp_right (Or.imp_left fun ⟨floor, raised, behind⟩ => ?_)
  unfold obsolete at raised
  dsimp only at raised
  split_ifs at raised
  · obtain rfl := Option.some.inj raised
    omega
  · exact ⟨floor, raised, behind⟩

/-- What waits behind `sequence` stays as it is. -/
theorem noneNew_giveUpBefore (coherent : Coherent top s) (now : ℤ)
    (settled : ∀ timestamp, ¬WaitsAt s timestamp sequence) (isLoss : Bool) :
    NoneNew s (s.giveUpBefore now sequence isLoss) := by
  obtain ⟨keys, same, passed, all⟩ := releaseLoop_spec coherent (· < sequence)
    (fun j k le before => decide_eq_true (le.trans_lt (of_decide_eq_true before))) le_rfl
  have mem_keys {timestamp : BitVec 32} {key : ℤ} (waits : WaitsAt s timestamp key) :
      key ∈ keys ↔ key < sequence :=
    ⟨fun member => of_decide_eq_true (passed key member),
      fun before => all key (mem_unemitted_of_waitsAt coherent waits) (decide_eq_true before)⟩
  have released : NoneNew s (s.releaseAll keys) := by
    apply noneNew_releaseAll
    intro timestamp key here next
    have apart : key + 1 ≠ sequence := by
      rintro rfl
      exact settled timestamp next
    rw [mem_keys here, mem_keys next]
    omega
  have raised : NoneNew (s.releaseAll keys) (obsolete (s.releaseAll keys) sequence) := by
    apply noneNew_obsolete
    intro timestamp key waits
    obtain ⟨waited, kept⟩ := waitsAt_releaseAll.mp waits
    rw [mem_keys waited] at kept
    have apart : key ≠ sequence := by
      rintro rfl
      exact settled timestamp waited
    omega
  have both := released.trans raised
  unfold Impl.giveUpBefore Impl.releaseWhile
  dsimp only
  rw [same]
  cases isLoss with
  | false => exact both
  | true => exact both.trans (noneNew_quiet (quiet_report _ now rfl))

theorem noneNew_forgetSilent (coherent : Coherent top s) (now : ℤ) : NoneNew s (s.forgetSilent now) := by
  unfold Impl.forgetSilent Impl.releaseWhile
  split_ifs
  · exact noneNew_refl s
  obtain ⟨keys, same, -, all⟩ := releaseLoop_spec coherent (fun _ => true) (fun _ _ _ _ => rfl) le_rfl
  rw [same]
  apply noneNew_of_still
  intro timestamp key waits
  obtain ⟨waited, kept⟩ := waitsAt_releaseAll.mp waits
  exact kept (all key (mem_unemitted_of_waitsAt coherent waited) rfl)

end GivingUp

/-! ## Access units that go out -/

section Settling

variable {top : ℤ} {s : Impl} {lo hi : ℤ}

theorem noneNew_emitUnit (coherent : Coherent top s) (now : ℤ) {sequence : ℤ}
    (grouped : s.groupOf sequence = some (lo, hi)) (reconstructed : ReconstructedAccessUnit) :
    NoneNew s (s.emitUnit now lo hi reconstructed) ∧
      ClearAt (s.emitUnit now lo hi reconstructed) sequence := by
  obtain ⟨left, right, -⟩ := groupOf_spec grouped
  have released := noneNew_releaseRange grouped
  have clear := clearAt_releaseRange grouped
  have settled : ∀ timestamp, ¬WaitsAt (s.releaseRange lo hi) timestamp lo := by
    intro timestamp waits
    exact (waitsAt_releaseAll.mp waits).2 (Int.mem_range_iff.mpr ⟨le_rfl, by omega⟩)
  have after : Coherent top (s.releaseRange lo hi) := coherent_releaseAll coherent _
  have reported (t : Impl) : NoneNew t (t.report now (.onAccessUnit (s.unitOf lo hi reconstructed))) :=
    noneNew_of_frame rfl rfl rfl rfl
  suffices given : NoneNew (s.releaseRange lo hi) (s.emitUnit now lo hi reconstructed) from
    ⟨released.trans given, given.clearAt clear⟩
  unfold Impl.emitUnit
  dsimp only
  split_ifs
  · exact (noneNew_giveUpBefore after now settled false).trans (reported _)
  · exact reported _

/-- After the attempt no access unit is ready around the packets of the run. -/
theorem noneNew_tryCompleteAround (coherent : Coherent top s) (now sequence : ℤ) {other : ℤ}
    (within : s.groupOf other = s.groupOf sequence) :
    NoneNew s (s.tryCompleteAround now sequence) ∧ ClearAt (s.tryCompleteAround now sequence) other := by
  unfold Impl.tryCompleteAround
  rw [← within]
  cases grouped : s.groupOf other with
  | none => exact ⟨noneNew_refl s, clearAt_of_none grouped⟩
  | some run =>
    obtain ⟨lo, hi⟩ := run
    have released := noneNew_releaseRange grouped
    have clear := clearAt_releaseRange grouped
    dsimp only
    split_ifs with dead waits
    · exact ⟨released, clear⟩
    · refine ⟨noneNew_refl s, ?_⟩
      intro first last timestamp ready inside
      have same := grouped.symm.trans (ready.groupOf_eq inside.1 inside.2)
      obtain ⟨rfl, rfl⟩ := Prod.mk.inj (Option.some.inj same)
      rw [ready.timestamp_eq] at dead waits
      rw [not_or] at dead
      have start := ready.start_settled
      have stop := ready.stop_settled
      generalize s.startKnown lo timestamp = start_edge at *
      generalize s.endKnown hi timestamp = stop_edge at *
      cases start_edge <;> cases stop_edge <;> simp at *
    · cases reconstruct (s.payloads lo hi) with
      | error fault =>
        have reported := noneNew_quiet (quiet_report (s.releaseRange lo hi) now (show isUnit (.onLoss hi) =
          false from rfl))
        exact ⟨released.trans reported, reported.clearAt clear⟩
      | ok reconstructed => exact noneNew_emitUnit coherent now grouped reconstructed

theorem noneNew_dropDeadAround (coherent : Coherent top s) (now sequence : ℤ) :
    NoneNew s (s.dropDeadAround now sequence) ∧ ClearAt (s.dropDeadAround now sequence) sequence := by
  unfold Impl.dropDeadAround
  cases grouped : s.groupOf sequence with
  | none => exact ⟨noneNew_refl s, clearAt_of_none grouped⟩
  | some run =>
    obtain ⟨lo, hi⟩ := run
    obtain ⟨left, right, -⟩ := groupOf_spec grouped
    dsimp only
    split_ifs
    · exact ⟨noneNew_releaseRange grouped, clearAt_releaseRange grouped⟩
    · have first := groupOf_within grouped le_rfl (left.trans right)
      exact noneNew_tryCompleteAround coherent now lo (grouped.trans first.symm)

/-- A new packet can settle the access unit before it, its own and the one behind it. -/
theorem noneNew_settleAround (coherent : Coherent top s) (now sequence : ℤ) :
    NoneNew s (s.settleAround now sequence) ∧ ClearAt (s.settleAround now sequence) (sequence - 1) ∧
      ClearAt (s.settleAround now sequence) sequence ∧
      ClearAt (s.settleAround now sequence) (sequence + 1) := by
  obtain ⟨none, clear⟩ := noneNew_tryCompleteAround coherent now (sequence - 1) rfl
  have before := coherent_steps coherent (steps_tryCompleteAround coherent now (sequence - 1))
  obtain ⟨noneHere, clearHere⟩ := noneNew_tryCompleteAround before now sequence rfl
  have here := coherent_steps before (steps_tryCompleteAround before now sequence)
  obtain ⟨noneBehind, clearBehind⟩ := noneNew_tryCompleteAround here now (sequence + 1) rfl
  exact ⟨(none.trans noneHere).trans noneBehind, noneBehind.clearAt (noneHere.clearAt clear),
    noneBehind.clearAt clearHere, clearBehind⟩

/-! ## Evictions and expired packets -/

/-- Given up for lost, the packets of a run settle their neighbours no more than they did as media. -/
theorem noneNew_evictOldest {t : Impl} {now : ℤ} (evicted : s.evictOldest now = some t) :
    NoneNew s t := by
  unfold Impl.evictOldest at evicted
  split_ifs at evicted with waiting
  obtain ⟨⟨lo, hi⟩, grouped, rfl⟩ := Option.map_eq_some_iff.mp evicted
  obtain ⟨-, -, waits⟩ := groupOf_spec grouped
  obtain ⟨before, -⟩ := groupOf_longest grouped
  refine (noneNew_releaseRange grouped).trans ?_
  have given {key : ℤ} (member : key ∈ (Int.range lo (hi + 1)).toFinset) : ∃ packet,
      (s.releaseRange lo hi).packets.find key = some packet ∧ packet.padding = false ∧
        packet.timestamp = (s.packetAt lo).timestamp := by
    have inside := List.mem_toFinset.mp member
    obtain ⟨left, right⟩ := Int.mem_range_iff.mp inside
    obtain ⟨packet, found, waits⟩ := waits key left (by omega)
    obtain ⟨-, media, timestamp⟩ := media_of_waitsIn waits
    refine ⟨packet.released, ?_, media, timestamp⟩
    unfold Impl.releaseRange
    rw [find_releaseAll, if_pos inside, found, Option.map_some]
  intro first last timestamp ready
  refine ⟨ready.ordered, ready.waiting, ready.before, ready.behind, ?_, ?_⟩
  · rcases ready.start with gone | media
    · rw [isGone_iff]
      rcases isGone_iff.mp gone with early | behind | lost
      · exact .inl (.inl early)
      · exact .inl (.inr (.inl behind))
      · rcases Finset.mem_union.mp lost with already | inside
        · exact .inl (.inr (.inr already))
        · obtain ⟨packet, found, media, -⟩ := given inside
          exact .inr ⟨packet, found, media⟩
    · exact .inr media
  · rcases ready.stop with marked | lost | other
    · exact .inl marked
    · rcases Finset.mem_union.mp lost with already | inside
      · exact .inr (.inl already)
      · obtain ⟨packet, found, media, same⟩ := given inside
        refine .inr (.inr ⟨packet, found, media, ?_⟩)
        rintro rfl
        obtain ⟨waited, apart⟩ := waitsAt_releaseAll.mp (ready.waiting ready.ordered le_rfl)
        obtain ⟨left, right⟩ := Int.mem_range_iff.mp (List.mem_toFinset.mp inside)
        rw [Int.mem_range_iff] at apart
        obtain rfl : last = lo - 1 := by omega
        exact before (same ▸ waited)
    · exact .inr (.inr other)

theorem noneNew_enforceMemoryBounds (s : Impl) (now : ℤ) : NoneNew s (s.enforceMemoryBounds now) := by
  unfold Impl.enforceMemoryBounds
  generalize s.unemitted.card = fuel
  induction fuel generalizing s with
  | zero => exact noneNew_refl s
  | succ fuel ih =>
    unfold Impl.evictLoop
    split_ifs
    · cases evicted : s.evictOldest now with
      | none => exact noneNew_refl s
      | some next => exact (noneNew_evictOldest evicted).trans (ih next)
    · exact noneNew_refl s

/-- A lost packet settles only what stands right beside it. -/
theorem ready_of_declareAll (now : ℤ) (keys : List ℤ) {lo hi : ℤ} {timestamp : BitVec 32}
    (ready : Ready (keys.foldl (fun s key => s.declareLost now key) s) lo hi timestamp)
    (start : lo - 1 ∉ keys) (stop : hi + 1 ∉ keys) : Ready s lo hi timestamp := by
  induction keys generalizing s with
  | nil => exact ready
  | cons key rest ih =>
    rw [List.mem_cons, not_or] at start stop
    have after := ih ready start.2 stop.2
    have frame : ∃ missing lostAt, s.declareLost now key =
        { s with missing := missing, lostAt := lostAt, lost := insert key s.lost } := by
      unfold Impl.declareLost
      cases s.missing.find key with
      | none => exact ⟨_, _, rfl⟩
      | some gap => exact ⟨_, _, rfl⟩
    obtain ⟨missing, lostAt, same⟩ := frame
    dsimp only at after
    rw [same] at after
    refine ⟨after.ordered, after.waiting, after.before, after.behind, ?_, ?_⟩
    · refine after.start.imp_left fun gone => ?_
      rw [isGone_iff]
      refine (isGone_iff.mp gone).imp_right (Or.imp_right fun lost => ?_)
      exact (Finset.mem_insert.mp lost).resolve_left start.1
    · refine after.stop.imp_right (Or.imp_left fun lost => ?_)
      exact (Finset.mem_insert.mp lost).resolve_left stop.1

/-- Around a lost packet the access unit on either side is settled. -/
theorem noneNew_dropAll (coherent : Coherent top s) (now : ℤ) (keys : List ℤ) {t : Impl}
    (dropped : keys.foldl
      (fun s key => (s.dropDeadAround now (key - 1)).dropDeadAround now (key + 1)) s = t) :
    NoneNew s t ∧ ∀ key ∈ keys, ClearAt t (key - 1) ∧ ClearAt t (key + 1) := by
  subst dropped
  induction keys generalizing s with
  | nil => exact ⟨noneNew_refl s, by simp⟩
  | cons key rest ih =>
    obtain ⟨none, clear⟩ := noneNew_dropDeadAround coherent now (key - 1)
    have before := coherent_steps coherent (steps_dropDeadAround coherent now (key - 1))
    obtain ⟨noneBehind, clearBehind⟩ := noneNew_dropDeadAround before now (key + 1)
    obtain ⟨later, clears⟩ := ih (coherent_steps before (steps_dropDeadAround before now (key + 1)))
    refine ⟨(none.trans noneBehind).trans later, List.forall_mem_cons.mpr ⟨⟨?_, ?_⟩, clears⟩⟩
    · exact later.clearAt (noneBehind.clearAt clear)
    · exact later.clearAt clearBehind

theorem noneNew_giveUpExpired (coherent : Coherent top s) (now : ℤ) {keys : List ℤ}
    (distinct : keys.Nodup) (wanted : ∀ key ∈ keys, key ∈ s.missing) :
    NoneNew s (s.giveUpExpired now keys) := by
  unfold Impl.giveUpExpired
  split_ifs
  · exact noneNew_refl s
  have declared : Coherent top _ := coherent_steps coherent (steps_declareAll now distinct wanted)
  have settles {lo hi : ℤ} {timestamp : BitVec 32}
      (ready : Ready (keys.foldl (fun s key => s.declareLost now key) s) lo hi timestamp) :=
    ready_of_declareAll now keys ready
  generalize keys.foldl (fun s key => s.declareLost now key) s = lost at declared settles
  have trimming := quiet_lostAt lost (lost.lostAt.keepLast 1024)
  obtain ⟨none, clears⟩ := noneNew_dropAll (coherent_quiet declared trimming) now keys rfl
  intro lo hi timestamp ready
  have dropped := noneNew_quiet (quiet_report _ now rfl) lo hi timestamp ready
  apply settles
  · exact noneNew_quiet trimming lo hi timestamp (none lo hi timestamp dropped)
  · intro member
    exact (clears _ member).2 lo hi timestamp dropped ⟨by omega, by linarith [dropped.ordered]⟩
  · intro member
    exact (clears _ member).1 lo hi timestamp dropped ⟨by linarith [dropped.ordered], by omega⟩

theorem noneNew_processTime (coherent : Coherent top s) (render : RenderTime) (now : ℤ) :
    NoneNew s (s.processTime render now) := by
  have noting := quiet_sendNacks s render now
  have noted := coherent_quiet coherent noting
  have wanted : ∀ key ∈ s.expiredKeys render now, key ∈ (s.sendNacks render now).missing := by
    intro key member
    obtain ⟨missing, found, -⟩ := mem_expiredKeys.mp member
    exact (noting.missing key).mpr (OrderedMap.mem_of_find_eq found)
  have processed : NoneNew s (s.processNacks render now) :=
    (noneNew_quiet noting).trans (noneNew_giveUpExpired noted now (OrderedMap.nodup_keys _ _) wanted)
  have kept := coherent_steps coherent (steps_processNacks coherent render now)
  exact processed.trans (noneNew_forgetSilent kept now)

end Settling

/-! ## A new packet -/

def Prompt (s : Impl) : Prop := ∀ lo hi timestamp, ¬Ready s lo hi timestamp

theorem NoneNew.prompt {s t : Impl} (none : NoneNew s t) (prompt : Prompt s) : Prompt t :=
  fun lo hi timestamp ready => prompt lo hi timestamp (none lo hi timestamp ready)

theorem Prompt.of_frame {s t : Impl} (prompt : Prompt s) (packets : t.packets = s.packets)
    (lost : t.lost = s.lost) (floor : t.floor = s.floor)
    (first : t.firstSequence = s.firstSequence) : Prompt t :=
  (noneNew_of_frame packets lost floor first).prompt prompt

section Arrivals

variable {top : ℤ} {s : Impl} {now sequence : ℤ}

theorem find_pruneHistory (s : Impl) (key : ℤ) : s.pruneHistory.packets.find key =
    if s.highestSequence.getD 0 - kHistory ≤ key then s.packets.find key else none := by
  rw [pruneHistory_eq]
  unfold forget
  dsimp only
  rw [OrderedMap.find_filter, find_releaseAll]
  by_cases young : s.highestSequence.getD 0 - kHistory ≤ key
  · rw [if_pos (decide_eq_true young), if_pos young, if_neg]
    intro member
    simp only [List.mem_map, List.mem_filter, decide_eq_true_iff] at member
    obtain ⟨entry, ⟨⟨-, old⟩, -⟩, rfl⟩ := member
    omega
  · rw [if_neg (by simpa using young), if_neg young]

/-- Where the history ends inside an access unit, the rest of it is not ready unless the whole was. -/
theorem prompt_pruneHistory (prompt : Prompt s) : Prompt s.pruneHistory := by
  intro lo hi timestamp ready
  generalize keep_eq : s.highestSequence.getD 0 - kHistory = keepFrom
  have found (key : ℤ) : s.pruneHistory.packets.find key =
      if keepFrom ≤ key then s.packets.find key else none := keep_eq ▸ find_pruneHistory s key
  have gone {key : ℤ} (before : s.pruneHistory.isGone key = true) :
      (key < s.firstSequence ∨ ∃ floor, s.floor = some floor ∧ key ≤ floor) ∨
        keepFrom ≤ key ∧ key ∈ s.lost := by
    rw [isGone_iff, pruneHistory_eq, keep_eq] at before
    generalize List.map _ _ = keys at before
    have same := storeOnly_releaseAll s keys
    unfold forget at before
    dsimp only at before
    rw [same.firstSequence, same.floor, same.lost, Finset.mem_filter, ← or_assoc] at before
    exact before.imp_right And.symm
  have waits {key : ℤ} :
      WaitsAt s.pruneHistory timestamp key ↔ keepFrom ≤ key ∧ WaitsAt s timestamp key := by
    unfold WaitsAt
    rw [found]
    by_cases young : keepFrom ≤ key <;> simp [young]
  obtain ⟨young, waiting⟩ := waits.mp (ready.waiting le_rfl ready.ordered)
  obtain ⟨first, last, grouped, same⟩ := groupOf_of_waitsAt waiting
  obtain ⟨from_first, to_last, all⟩ := groupOf_spec grouped
  obtain ⟨before, behind⟩ := groupOf_longest grouped
  rw [same] at all before behind
  have inside {key : ℤ} (left : first ≤ key) (right : key ≤ last) : WaitsAt s timestamp key :=
    all key left right
  obtain rfl : last = hi := by
    rcases lt_trichotomy last hi with less | equal | more
    · exact absurd (waits.mp (ready.waiting (by omega) (by omega))).2 behind
    · exact equal
    · have within := @inside (hi + 1) (by linarith [ready.ordered]) (by omega)
      exact absurd (waits.mpr ⟨by linarith [ready.ordered], within⟩) ready.behind
  have same_start (recent : keepFrom ≤ lo - 1) : first = lo := by
    by_contra different
    exact ready.before (waits.mpr ⟨recent, inside (by omega) (by omega)⟩)
  apply prompt first last timestamp
  refine ⟨from_first.trans to_last, inside, before, behind, ?_, ?_⟩
  · rw [isGone_iff]
    rcases ready.start with lost | ⟨packet, there, media⟩
    · rcases gone lost with (early | ⟨floor, known, below⟩) | ⟨recent, lost⟩
      · exact .inl (.inl (by omega))
      · exact .inl (.inr (.inl ⟨floor, known, by omega⟩))
      · exact .inl (.inr (.inr (same_start recent ▸ lost)))
    · rw [found] at there
      split_ifs at there with recent
      exact .inr ⟨packet, same_start recent ▸ there, media⟩
  · have stop := ready.stop
    unfold Impl.packetAt at stop ⊢
    rw [found, found, if_pos (by linarith [ready.ordered]), if_pos (by linarith [ready.ordered])] at stop
    refine stop.imp_right (Or.imp_left fun lost => ?_)
    rw [pruneHistory_eq] at lost
    have kept := (Finset.mem_filter.mp lost).1
    rwa [(storeOnly_releaseAll s _).lost] at kept

theorem prompt_observeSequence (now : ℤ) (coherent : Coherent top s)
    (notStored : sequence ∉ s.packets) (prompt : Prompt s) : Prompt (s.observeSequence now sequence) := by
  have counting := quiet_countNewer s sequence
  have counted := (noneNew_quiet counting).prompt prompt
  have settled : ∀ timestamp, ¬WaitsAt (s.countNewer sequence) timestamp sequence := by
    rintro timestamp ⟨packet, found, -⟩
    exact notStored (OrderedMap.mem_of_find_eq found)
  unfold Impl.observeSequence
  cases s.highestSequence with
  | none => exact prompt.of_frame rfl rfl rfl rfl
  | some highest =>
    dsimp only
    split_ifs
    · exact prompt
    · have given := noneNew_giveUpBefore (coherent_quiet coherent counting) now settled true
      exact prompt_pruneHistory ((given.prompt counted).of_frame rfl rfl rfl rfl)
    · rw [openGap_frame]
      exact prompt_pruneHistory (counted.of_frame rfl rfl rfl rfl)

/-- A new packet leaves what is not right beside it as it was. -/
theorem ready_of_store {packet : Packet} {lo hi : ℤ} {timestamp : BitVec 32}
    (ready : Ready (s.store sequence packet) lo hi timestamp)
    (far : sequence + 1 < lo ∨ hi < sequence - 1) : Ready s lo hi timestamp := by
  have frame : (s.store sequence packet).packets = s.packets.insert sequence packet ∧
      (s.store sequence packet).lost = s.lost ∧
      (s.store sequence packet).isGone (lo - 1) = s.isGone (lo - 1) := by
    unfold Impl.store
    split_ifs <;> exact ⟨rfl, rfl, rfl⟩
  obtain ⟨packets, lost, gone⟩ := frame
  have same {key : ℤ} (left : lo - 1 ≤ key) (right : key ≤ hi + 1) :
      (s.store sequence packet).packets.find key = s.packets.find key := by
    rw [packets, OrderedMap.find_insert, if_neg (by omega)]
  have ordered := ready.ordered
  obtain ⟨-, waiting, before, behind, start, stop⟩ := ready
  unfold WaitsAt at waiting before behind
  unfold MediaAt at start
  unfold Impl.packetAt at stop
  rw [same (by omega) (by omega)] at before behind start stop
  rw [gone] at start
  rw [lost, same (by omega) le_rfl] at stop
  refine ⟨ordered, fun {key} left right => ?_, before, behind, start, stop⟩
  have here := waiting left right
  rwa [same (by omega) (by omega)] at here

/-- Before a source is chosen nothing is stored. -/
theorem prompt_chooseSsrc (first : s.ssrc = none → ∀ key, key ∉ s.packets) (ssrc : BitVec 32)
    (prompt : Prompt s) : Prompt (s.chooseSsrc sequence ssrc) := by
  unfold Impl.chooseSsrc
  split_ifs with unchosen
  · intro lo hi timestamp ready
    obtain ⟨packet, found, -⟩ := ready.waiting le_rfl ready.ordered
    exact first unchosen lo (OrderedMap.mem_of_find_eq found)
  · exact prompt

/-- Only what is right beside the new packet can be ready when it has been accepted. -/
theorem ready_of_acceptPacket (settled : Settled s) (first : s.ssrc = none → ∀ key, key ∉ s.packets)
    (prompt : Prompt s) (notStored : sequence ∉ s.packets) {parsed : ParsedRtpPacket}
    {padding validH264 : Bool} {lo hi : ℤ} {timestamp : BitVec 32}
    (ready : Ready (s.acceptPacket now sequence parsed padding validH264) lo hi timestamp) :
    ¬(sequence + 1 < lo ∨ hi < sequence - 1) := by
  have filling := quiet_noteFilled s now sequence parsed.ssrc
  have chosen : Prompt (enter s sequence parsed.ssrc) :=
    (prompt_chooseSsrc first parsed.ssrc prompt).of_frame rfl rfl rfl rfl
  have coherent := coherent_quiet (coherent_enter (settled.coherent (newest_getD s)) parsed.ssrc) filling
  have filled := (noneNew_quiet filling).prompt chosen
  have fresh : sequence ∉ ((s.chooseSsrc sequence parsed.ssrc).noteFilled now sequence).packets := by
    rw [filling.packets]
    unfold enter Impl.chooseSsrc
    split_ifs <;> exact notStored
  have observed := prompt_observeSequence now coherent fresh filled
  unfold Impl.acceptPacket at ready
  dsimp only at ready
  generalize ((s.chooseSsrc sequence parsed.ssrc).noteFilled now sequence).observeSequence now sequence = seen
    at observed ready
  have touched : Prompt { seen with lastAnyArrival := now } := observed.of_frame rfl rfl rfl rfl
  intro far
  split_ifs at ready
  · exact touched lo hi timestamp (ready_of_store ready far)
  · have marked : Prompt (Impl.markMissing { seen with lastAnyArrival := now } now sequence) := by
      unfold Impl.markMissing Impl.emplaceMissing
      split_ifs
      · exact touched
      · exact touched.of_frame rfl rfl rfl rfl
    exact marked lo hi timestamp ready
  · exact touched lo hi timestamp (ready_of_store ready far)

theorem prompt_receive (settled : Settled s) (first : s.ssrc = none → ∀ key, key ∉ s.packets)
    (prompt : Prompt s) (parsed : ParsedRtpPacket) (padding : Bool) :
    Prompt (s.receive now parsed padding) := by
  unfold Impl.receive
  dsimp only
  split_ifs with stranger early duplicate late
  · exact prompt
  · exact prompt
  · exact prompt
  · exact (noneNew_quiet (quiet_noteLate s now _)).prompt prompt
  rw [not_or] at late
  have above : ∀ floor, s.floor = some floor → floor < s.extendSequence parsed.sequence := by
    intro floor known
    have beyond := late.1
    rw [known, Option.any_some, decide_eq_true_iff] at beyond
    exact not_le.mp beyond
  generalize (padding || decide (parsed.payload.length ≤ kMaxPayloadBytes) &&
    validateH264Payload parsed.payload) = valid
  generalize s.extendSequence parsed.sequence = sequence at above duplicate late
  have beside {lo hi : ℤ} {timestamp : BitVec 32}
      (ready : Ready (s.acceptPacket now sequence parsed padding valid) lo hi timestamp) :=
    ready_of_acceptPacket settled first prompt duplicate ready
  have reached : Reaches (fun _ _ => True) s (s.acceptPacket now sequence parsed padding valid) :=
    reaches_acceptPacket settled above duplicate late.2 fun _ _ => trivial
  generalize s.acceptPacket now sequence parsed padding valid = accepted at beside reached
  have coherent := coherent_steps (reached.2.coherent (newest_getD accepted))
    (steps_enforceMemoryBounds accepted now)
  have enforced := noneNew_enforceMemoryBounds accepted now
  obtain ⟨none, clear, clearHere, clearBehind⟩ := noneNew_settleAround coherent now sequence
  intro lo hi timestamp ready
  have far := beside (enforced lo hi timestamp (none lo hi timestamp ready))
  have ordered := ready.ordered
  rcases lt_trichotomy sequence lo with less | here | more
  · exact clearBehind lo hi timestamp ready ⟨by omega, by omega⟩
  · exact clearHere lo hi timestamp ready ⟨by omega, by omega⟩
  · by_cases inside : sequence ≤ hi
    · exact clearHere lo hi timestamp ready ⟨by omega, inside⟩
    · exact clear lo hi timestamp ready ⟨by omega, by omega⟩

end Arrivals

/-! ## Runs -/

section Runs

/-- The source is chosen before a packet is accepted. -/
def Chosen (a : Option ℤ × Impl) : Prop :=
  a.1 ≠ none ∨ a.2.highestSequence ≠ none → a.2.ssrc ≠ none

theorem chosen_move {came : ℤ → Packet → Prop} {a b : Option ℤ × Impl} (chosen : Chosen a)
    (move : Move came a b) : Chosen b := by
  cases move with
  | step bound step =>
    obtain ⟨newest, -, ssrc⟩ := step_fixed step
    unfold Chosen
    dsimp only
    rw [newest, ssrc]
    exact chosen
  | enter above notStored notLost =>
    intro _
    unfold enter Impl.chooseSsrc
    split_ifs with first
    · exact Option.some_ne_none _
    · exact first
  | raise newer between => exact fun _ => chosen (.inl (Option.some_ne_none _))
  | @store s sequence newest packet fresh known bound media arrived =>
    have same : (s.store sequence packet).ssrc = s.ssrc := by
      unfold Impl.store
      split_ifs <;> rfl
    intro _
    dsimp only
    rw [same]
    exact chosen (.inl (Option.some_ne_none _))
  | want fresh known bound =>
    intro _
    unfold Impl.markMissing Impl.emplaceMissing
    split_ifs <;> exact chosen (.inl (Option.some_ne_none _))

theorem run_unchosen (config : Config) (calls : List Call)
    (unchosen : (run config calls).ssrc = none) (key : ℤ) : key ∉ (run config calls).packets := by
  have chosen : Chosen (none, run config calls) := by
    refine run_induction ?_ fun a b before move => chosen_move before move
    intro known
    rcases known with newer | newest
    · exact absurd rfl newer
    · exact absurd rfl newest
  have newest : (run config calls).highestSequence = none := by
    by_contra known
    exact chosen (.inr known) unchosen
  intro stored
  have bound : Newest (run config calls) (key - 1) := by simp [Newest, newest]
  have le := ((reaches_run config calls).2.coherent bound).stored_le stored
  omega

theorem prompt_call {s : Impl} (settled : Settled s) (first : s.ssrc = none → ∀ key, key ∉ s.packets)
    (prompt : Prompt s) (call : Call) : Prompt (s.call call) := by
  have clocked (now : ℤ) :
      Settled { s with lastTime := some now } ∧ Prompt { s with lastTime := some now } :=
    ⟨settled_steps settled fun _ _ => .single (.quiet (quiet_clock s now)),
      prompt.of_frame rfl rfl rfl rfl⟩
  cases call with
  | onRtpPacket render now data =>
    unfold Impl.call Impl.onRtpPacket
    dsimp only
    split_ifs
    · exact prompt
    have reached := reaches_handleDatagram (clocked now).1 render
      (List.mem_singleton_self (Call.onRtpPacket render now data))
    have handled : Prompt (Impl.handleDatagram { s with lastTime := some now } now data) := by
      unfold Impl.handleDatagram
      cases parseRtpPacket data with
      | invalid => exact (clocked now).2
      | media parsed => exact prompt_receive (clocked now).1 first (clocked now).2 parsed false
      | padding parsed => exact prompt_receive (clocked now).1 first (clocked now).2 parsed true
    exact (noneNew_processTime (reached.2.coherent (newest_getD _)) render now).prompt handled
  | tick render now =>
    unfold Impl.call Impl.tick
    dsimp only
    split_ifs
    · exact prompt
    · have none := noneNew_processTime ((clocked now).1.coherent (newest_getD _)) render now
      exact none.prompt (clocked now).2
  | setRtt rtt => exact prompt.of_frame rfl rfl rfl rfl

theorem prompt_run (config : Config) (calls : List Call) : Prompt (run config calls) := by
  induction calls using List.reverseRecOn with
  | nil =>
    intro lo hi timestamp ready
    obtain ⟨packet, found, -⟩ := ready.waiting le_rfl ready.ordered
    simp [run, Impl.new] at found
  | append_singleton calls call ih =>
    have one : run config (calls ++ [call]) = (run config calls).call call := List.foldl_append
    rw [one]
    exact prompt_call (reaches_run config calls).2 (run_unchosen config calls) ih call

/-- Between two calls no access unit waits whose start and end are both
settled, unless padding stands right before it or right behind it. -/
theorem run_prompt (config : Config) (calls : List Call) {sequence lo hi : ℤ}
    (grouped : (run config calls).groupOf sequence = some (lo, hi))
    (start : (run config calls).startKnown lo ((run config calls).packetAt lo).timestamp ≠ .unknown)
    (stop : (run config calls).endKnown hi ((run config calls).packetAt lo).timestamp ≠ .unknown) :
    PaddingAt (run config calls) (lo - 1) ∨ PaddingAt (run config calls) (hi + 1) := by
  by_contra media
  rw [not_or] at media
  exact prompt_run config calls _ _ _ (ready_of_settled grouped start stop media.1 media.2)

/-- Padding comes before the picture behind it, and the packet before the padding comes last. -/
def hiddenPicture : List Call :=
  let padding := [0xa0, 0x60] ++ u16Bytes 7 ++ [0, 0, 0, 1, 1, 2, 3, 4, 1]
  [.onRtpPacket (fun _ => none) 0 (picture 5 0), .onRtpPacket (fun _ => none) 1000000 padding,
    .onRtpPacket (fun _ => none) 2000000 (picture 8 2), .onRtpPacket (fun _ => none) 3000000 (picture 6 1)]

/-- With padding there it can wait: the padding before this picture hides that the gap is filled. -/
theorem run_prompt_hidden : (run {} hiddenPicture).groupOf 8 = some (8, 8) ∧
    (PaddingAt (run {} hiddenPicture) (8 - 1) ∨ PaddingAt (run {} hiddenPicture) (8 + 1)) := by
  have grouped : (run {} hiddenPicture).groupOf 8 = some (8, 8) := by decide +kernel
  exact ⟨grouped, run_prompt {} hiddenPicture grouped (by decide +kernel) (by decide +kernel)⟩

end Runs

end Mello.Transport.RtpH264Prompt
