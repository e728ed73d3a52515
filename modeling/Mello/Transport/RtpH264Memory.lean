import Mello.Transport.RtpH264Moves

/-!
The packet memory has bounds: a step never makes more packets wait, and behind
each new packet the oldest access units go until the rest fits.
-/

namespace Mello.Transport.RtpH264Memory
open Library Twcc H264Payload RtpH264Receiver RtpH264Steps RtpH264Chains RtpH264Moves

def Bounded (s : Impl) : Prop := s.bufferedPackets ≤ kMaxPackets ∧ s.bufferedBytes ≤ kMaxBufferedBytes

section Bounds

variable {top : ℤ} {s t : Impl} {now : ℤ}

theorem mem_unemitted_releaseAll (coherent : Coherent top s) (keys : List ℤ) {key : ℤ} :
    key ∈ (s.releaseAll keys).unemitted ↔ key ∈ s.unemitted ∧ key ∉ keys := by
  rw [(coherent_releaseAll coherent keys).waiting, coherent.waiting, find_releaseAll]
  by_cases released : key ∈ keys
  · simp [released, Packet.released]
  · simp [released]

/-- What waits after a step waited before it, unchanged. -/
theorem waiting_of_step (coherent : Coherent top s) (step : Step top s t) {key : ℤ} (member : key ∈ t.unemitted) :
    key ∈ s.unemitted ∧ t.packets.find key = s.packets.find key := by
  have released {keys : List ℤ} (inside : key ∈ (s.releaseAll keys).unemitted) :
      key ∈ s.unemitted ∧ (s.releaseAll keys).packets.find key = s.packets.find key := by
    obtain ⟨waited, kept⟩ := (mem_unemitted_releaseAll coherent keys).mp inside
    exact ⟨waited, by rw [find_releaseAll, if_neg kept]⟩
  cases step with
  | quiet same =>
    rw [same.unemitted] at member
    exact ⟨member, by rw [same.packets]⟩
  | release other =>
    have single : s.releasePayload other = s.releaseAll [other] := rfl
    rw [single] at member ⊢
    exact released member
  | complete whole => exact released member
  | obsolete bound => exact ⟨member, rfl⟩
  | forget newest old => exact ⟨member, (OrderedMap.find_filter _ _ _).trans (if_pos (decide_eq_true (old key member)))⟩
  | await bound fresh notLost above =>
    unfold Impl.emplaceMissing at member ⊢
    split_ifs at member ⊢ <;> exact ⟨member, rfl⟩
  | @expire now other wanted =>
    obtain ⟨lostAt, same⟩ := declareLost_parts now wanted
    rw [same] at member ⊢
    exact ⟨member, rfl⟩
  | evict given => exact ⟨member, rfl⟩

theorem buffered_le_of_step (coherent : Coherent top s) (step : Step top s t) :
    t.bufferedPackets ≤ s.bufferedPackets ∧ t.bufferedBytes ≤ s.bufferedBytes := by
  have after := coherent_step coherent step
  have inside : t.unemitted ⊆ s.unemitted := fun key member => (waiting_of_step coherent step member).1
  constructor
  · rw [after.counted, coherent.counted]
    exact_mod_cast Finset.card_le_card inside
  · have same : ∀ key ∈ t.unemitted, ((t.packetAt key).payload.length : ℤ) = (s.packetAt key).payload.length := by
      intro key member
      unfold Impl.packetAt
      rw [(waiting_of_step coherent step member).2]
    rw [after.summed, coherent.summed, Finset.sum_congr rfl same]
    exact Finset.sum_le_sum_of_subset_of_nonneg inside fun key _ _ => Int.natCast_nonneg _

theorem bounded_steps (coherent : Coherent top s) (bounded : Bounded s) (steps : Steps top s t) : Bounded t := by
  induction steps with
  | refl => exact bounded
  | tail before step ih =>
    obtain ⟨packets, bytes⟩ := buffered_le_of_step (coherent_steps coherent before) step
    exact ⟨packets.trans ih.1, bytes.trans ih.2⟩

/-! ## Evictions -/

theorem overBounds_iff : s.overBounds = false ↔ Bounded s := by
  unfold Impl.overBounds Bounded
  simp

/-- An eviction finds an access unit as long as anything waits, and takes its oldest packet. -/
theorem evictOldest_spec (coherent : Coherent top s) (now : ℤ) (waiting : s.unemitted.Nonempty) :
    ∃ t, s.evictOldest now = some t ∧ t.unemitted.card < s.unemitted.card := by
  have oldest := s.unemitted.min'_mem waiting
  obtain ⟨packet, found, open_⟩ := (coherent.waiting _).mp oldest
  have media : packet.padding = false := by
    by_contra padding
    exact Bool.noConfusion (open_.symm.trans (coherent.padding found (by simpa using padding)))
  obtain ⟨lo, hi, grouped⟩ : ∃ lo hi, s.groupOf (s.unemitted.min' waiting) = some (lo, hi) := by
    unfold Impl.groupOf
    rw [found, Option.bind_some, if_neg (by simp [open_, media])]
    exact ⟨_, _, rfl⟩
  obtain ⟨left, right, -⟩ := groupOf_spec grouped
  obtain ⟨t, evicted, same⟩ : ∃ t, s.evictOldest now = some t ∧ t.unemitted = (s.releaseRange lo hi).unemitted := by
    unfold Impl.evictOldest
    rw [dif_pos waiting, grouped]
    exact ⟨_, rfl, rfl⟩
  refine ⟨t, evicted, Finset.card_lt_card (Finset.ssubset_iff_subset_ne.mpr ⟨?_, ?_⟩)⟩
  · intro key member
    rw [same] at member
    exact ((mem_unemitted_releaseAll coherent _).mp member).1
  · intro equal
    have still : s.unemitted.min' waiting ∈ (s.releaseRange lo hi).unemitted := by
      rw [← same, equal]
      exact oldest
    exact ((mem_unemitted_releaseAll coherent _).mp still).2 (Int.mem_range_iff.mpr ⟨left, by omega⟩)

theorem bounded_of_empty (coherent : Coherent top s) (nothing : ¬s.unemitted.Nonempty) : Bounded s := by
  have packets := coherent.counted
  have bytes := coherent.summed
  rw [Finset.not_nonempty_iff_eq_empty.mp nothing] at packets bytes
  rw [Finset.sum_empty] at bytes
  exact ⟨packets.trans_le (by decide), bytes.trans_le (by decide)⟩

theorem bounded_evictLoop (coherent : Coherent top s) (now : ℤ) {fuel : ℕ} (enough : s.unemitted.card ≤ fuel) :
    Bounded (Impl.evictLoop now fuel s) := by
  induction fuel generalizing s with
  | zero =>
    apply bounded_of_empty coherent
    rw [Finset.not_nonempty_iff_eq_empty, ← Finset.card_eq_zero]
    exact Nat.le_zero.mp enough
  | succ fuel ih =>
    unfold Impl.evictLoop
    by_cases beyond : s.overBounds = true
    · rw [if_pos beyond]
      have waiting : s.unemitted.Nonempty := by
        by_contra none
        have fits := overBounds_iff.mpr (bounded_of_empty coherent none)
        exact Bool.noConfusion (beyond.symm.trans fits)
      obtain ⟨t, evicted, fewer⟩ := evictOldest_spec coherent now waiting
      have after : Coherent top t := coherent_steps coherent (steps_evictOldest evicted)
      rw [evicted, Option.map_some, Option.getD_some]
      exact ih after (by omega)
    · rw [if_neg beyond]
      exact overBounds_iff.mp (by simpa using beyond)

/-! ## Runs -/

theorem bounded_call (settled : Settled s) (bounded : Bounded s) (call : Call) : Bounded (s.call call) := by
  have kept {s t : Impl} (settled : Settled s) (bounded : Bounded s) (steps : ∀ top, Coherent top s → Steps top s t) :
      Bounded t :=
    have coherent := settled.coherent (newest_getD s)
    bounded_steps coherent bounded (steps _ coherent)
  have clocked (now : ℤ) : Settled { s with lastTime := some now } :=
    settled_steps settled fun _ _ => .single (.quiet (quiet_clock s now))
  cases call with
  | onRtpPacket render now data =>
    have clock : Bounded { s with lastTime := some now } := bounded
    have here : Call.onRtpPacket render now data ∈ [Call.onRtpPacket render now data] := List.mem_singleton_self _
    have received : Bounded (Impl.handleDatagram { s with lastTime := some now } now data) := by
      rcases handleDatagram_cases (clocked now) render here with ignored | ⟨accepted, sequence, reached, same⟩
      · exact kept (clocked now) clock fun _ _ => .single (.quiet ignored)
      · rw [same]
        have fits : Bounded (accepted.enforceMemoryBounds now) :=
          bounded_evictLoop (reached.2.coherent (newest_getD accepted)) now le_rfl
        have enforced := (reached.trans (reaches_steps reached.2 fun _ _ => steps_enforceMemoryBounds accepted now)).2
        exact kept enforced fits fun _ coherent => steps_settleAround coherent now sequence
    unfold Impl.call Impl.onRtpPacket
    dsimp only
    split_ifs
    · exact bounded
    · exact kept (reaches_handleDatagram (clocked now) render here).2 received fun _ coherent =>
        steps_processTime coherent render now
  | tick render now =>
    unfold Impl.call Impl.tick
    dsimp only
    split_ifs
    · exact bounded
    · exact kept (clocked now) bounded fun _ coherent => steps_processTime coherent render now
  | setRtt rtt => exact bounded

/-- After any calls the containers and counters agree, and what waits for the
rest of its access unit is within the bounds. -/
theorem run_bounded (config : Config) (calls : List Call) :
    (∀ top, Newest (run config calls) top → Coherent top (run config calls)) ∧ Bounded (run config calls) := by
  refine ⟨fun top bound => (reaches_run config calls).2.coherent bound, ?_⟩
  have both : Settled (run config calls) ∧ Bounded (run config calls) := by
    unfold run
    have zero : (0 : ℤ) ≤ kMaxPackets ∧ (0 : ℤ) ≤ kMaxBufferedBytes := by decide
    have start : Settled (Impl.new config) ∧ Bounded (Impl.new config) := ⟨settled_new config, zero⟩
    refine List.foldlRecOn (motive := fun s => Settled s ∧ Bounded s) calls Impl.call start ?_
    intro s before call member
    exact ⟨(reaches_call before.1 member).2, bounded_call before.1 before.2 call⟩
  exact both.2

end Bounds

end Mello.Transport.RtpH264Memory
