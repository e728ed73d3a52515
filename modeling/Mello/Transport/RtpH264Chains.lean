import Mello.Transport.RtpH264Steps

/-!
The functions of the receiver as chains of steps.
-/

namespace Mello.Transport.RtpH264Chains
open Library Twcc H264Payload RtpH264Receiver RtpH264Steps

/-! ## Quiet functions -/

section Quiet

variable (s : Impl)

theorem quiet_refl : Quiet s s := ⟨rfl, fun _ => Iff.rfl, [], (List.append_nil _).symm, by simp⟩

theorem noteRepair_frame (now latency : ℤ) : ∃ repairs, s.noteRepair now latency = { s with repairs := repairs } :=
  ⟨_, rfl⟩

theorem quiet_noteRepair (now latency : ℤ) : Quiet s (s.noteRepair now latency) := by
  obtain ⟨repairs, same⟩ := noteRepair_frame s now latency
  rw [same]
  exact ⟨rfl, fun _ => Iff.rfl, [], (List.append_nil _).symm, by simp⟩

theorem quiet_lostAt (lostAt : OrderedMap ℤ (ℤ × ℤ)) : Quiet s { s with lostAt := lostAt } where
  frame := rfl
  missing _ := Iff.rfl
  callbacks := ⟨[], (List.append_nil _).symm, by simp⟩

theorem quiet_noteLate (now sequence : ℤ) : Quiet s (s.noteLate now sequence) := by
  unfold Impl.noteLate
  cases s.lostAt.find sequence with
  | none => exact quiet_refl s
  | some waited => exact quiet_noteRepair s now _

theorem quiet_countNewer (sequence : ℤ) : Quiet s (s.countNewer sequence) where
  frame := rfl
  missing _ := OrderedMap.mem_mapValues
  callbacks := ⟨[], (List.append_nil _).symm, by simp⟩

theorem quiet_setRtt (rtt : ℤ) : Quiet s (s.setRtt rtt) where
  frame := rfl
  missing _ := OrderedMap.mem_mapValues
  callbacks := ⟨[], (List.append_nil _).symm, by simp⟩

end Quiet

/-! ## Releases -/

section Releases

variable {top : ℤ} (s : Impl)

theorem steps_releaseAll (keys : List ℤ) : Steps top s (s.releaseAll keys) := by
  unfold Impl.releaseAll
  induction keys generalizing s with
  | nil => exact .refl
  | cons key rest ih => exact (Relation.ReflTransGen.single (.release s key)).trans (ih _)

theorem steps_releaseLoop (test : ℤ → Bool) (fuel : ℕ) : Steps top s (Impl.releaseLoop test fuel s) := by
  induction fuel generalizing s with
  | zero => exact .refl
  | succ fuel ih =>
    unfold Impl.releaseLoop
    split_ifs
    · exact (Relation.ReflTransGen.single (.release s _)).trans (ih _)
    · exact .refl
    · exact .refl

theorem steps_giveUpBefore {now sequence : ℤ} {isLoss : Bool} (bound : sequence - 1 ≤ top) :
    Steps top s (s.giveUpBefore now sequence isLoss) := by
  have released : Steps top s (s.releaseWhile (· < sequence)) := steps_releaseLoop s _ _
  have raised := released.tail (Step.obsolete bound)
  unfold Impl.giveUpBefore
  cases isLoss with
  | false => exact raised
  | true => exact raised.tail (.quiet (quiet_report _ now rfl))

end Releases

/-! ## The history -/

section History

variable {top : ℤ} {s : Impl}

theorem steps_emplaceAll {keys : List ℤ} (missing : ℤ → Missing)
    (fresh : ∀ key ∈ keys, key ≤ top ∧ key ∉ s.packets ∧ key ∉ s.lost ∧ ∀ floor, s.floor = some floor → floor < key) :
    Steps top s (keys.foldl (fun s key => s.emplaceMissing key (missing key)) s) := by
  induction keys generalizing s with
  | nil => exact .refl
  | cons key rest ih =>
    obtain ⟨bound, notStored, notLost, above⟩ := fresh key List.mem_cons_self
    refine (Relation.ReflTransGen.single (.await bound notStored notLost above)).trans (ih ?_)
    have same : (s.emplaceMissing key (missing key)).packets = s.packets ∧
        (s.emplaceMissing key (missing key)).lost = s.lost ∧ (s.emplaceMissing key (missing key)).floor = s.floor := by
      unfold Impl.emplaceMissing
      split_ifs <;> exact ⟨rfl, rfl, rfl⟩
    intro other member
    rw [same.1, same.2.1, same.2.2]
    exact fresh other (List.mem_cons_of_mem key member)

theorem pruneHistory_eq (s : Impl) : s.pruneHistory =
    forget (s.releaseAll (((s.packets.entries.filter fun entry => decide (entry.1 < s.highestSequence.getD 0 - kHistory)).filter
      fun entry => !entry.2.emitted).map Prod.fst)) (s.highestSequence.getD 0 - kHistory) := by
  unfold Impl.pruneHistory Impl.releaseAll forget
  rw [List.foldl_map, List.foldl_filter]
  have same : (fun (s : Impl) (entry : ℤ × Packet) => if entry.2.emitted = true then s else s.releasePayload entry.1) =
      fun s entry => if (!entry.2.emitted) = true then s.releasePayload entry.1 else s := by
    funext s entry
    cases entry.2.emitted <;> rfl
  rw [same]

theorem steps_pruneHistory (coherent : Coherent top s) (newest : s.highestSequence = some top) :
    Steps top s s.pruneHistory := by
  rw [pruneHistory_eq, newest, Option.getD_some]
  refine (steps_releaseAll s _).tail (.forget ?_ ?_)
  · exact (storeOnly_releaseAll s _).highestSequence.trans newest
  intro key member
  by_contra young
  obtain ⟨packet, found, waits⟩ := ((coherent_releaseAll coherent _).waiting key).mp member
  rw [find_releaseAll] at found
  split_ifs at found with released
  · obtain ⟨before, -, rfl⟩ := Option.map_eq_some_iff.mp found
    exact absurd waits (by simp [Packet.released])
  · apply released
    refine List.mem_map.mpr ⟨(key, packet), ?_, rfl⟩
    simp only [List.mem_filter, OrderedMap.mem_entries_iff]
    exact ⟨⟨found, decide_eq_true (not_le.mp young)⟩, by simp [waits]⟩

end History

/-! ## Access units -/

section Groups

variable {top : ℤ} {s : Impl} {sequence lo hi : ℤ}

theorem groupOf_spec (grouped : s.groupOf sequence = some (lo, hi)) : lo ≤ sequence ∧ sequence ≤ hi ∧
    ∀ key, lo ≤ key → key ≤ hi →
      ∃ packet, s.packets.find key = some packet ∧ packet.waitsIn (s.packetAt lo).timestamp = true := by
  unfold Impl.groupOf at grouped
  obtain ⟨packet, found, run⟩ := Option.bind_eq_some_iff.mp grouped
  dsimp only at run
  split_ifs at run with given
  obtain ⟨left, right⟩ := Prod.mk.inj (Option.some.inj run)
  generalize waiting : (fun (_ : ℤ) (other : Packet) => other.waitsIn packet.timestamp) = waits at left right
  have below := s.packets.walk_le waits (sequence - 1)
  have above := s.packets.le_walk waits (sequence + 1)
  have all (key : ℤ) (from_lo : lo ≤ key) (to_hi : key ≤ hi) :
      ∃ other, s.packets.find key = some other ∧ other.waitsIn packet.timestamp = true := by
    rcases lt_trichotomy key sequence with less | rfl | more
    · have before : s.packets.walk (-1) waits (sequence - 1) < key := by omega
      subst waiting
      exact OrderedMap.passesAt_iff.mp (OrderedMap.passesAt_of_walk_lt (by omega) before)
    · refine ⟨packet, found, ?_⟩
      simp only [Bool.or_eq_true, not_or, Bool.not_eq_true] at given
      simp [Packet.waitsIn, given]
    · have behind : key < s.packets.walk 1 waits (sequence + 1) := by omega
      subst waiting
      exact OrderedMap.passesAt_iff.mp (OrderedMap.passesAt_of_lt_walk (by omega) behind)
  have same : (s.packetAt lo).timestamp = packet.timestamp := by
    obtain ⟨other, there, waits⟩ := all lo le_rfl (by omega)
    unfold Impl.packetAt
    rw [there, Option.getD_some]
    unfold Packet.waitsIn at waits
    simp only [Bool.and_eq_true, beq_iff_eq] at waits
    exact waits.2
  rw [same]
  exact ⟨by omega, by omega, all⟩

theorem report_releaseLoop (test : ℤ → Bool) (fuel : ℕ) (s : Impl) (now : ℤ) (callback : Callback) :
    Impl.releaseLoop test fuel (s.report now callback) = (Impl.releaseLoop test fuel s).report now callback := by
  induction fuel generalizing s with
  | zero => rfl
  | succ fuel ih =>
    have single (key : ℤ) : (s.report now callback).releasePayload key = (s.releasePayload key).report now callback := by
      unfold Impl.releasePayload Impl.report
      dsimp only
      cases s.packets.find key with
      | none => rfl
      | some packet =>
        dsimp only
        split_ifs <;> rfl
    unfold Impl.releaseLoop
    change (if some : s.unemitted.Nonempty then if test (s.unemitted.min' some) = true then
      Impl.releaseLoop test fuel ((s.report now callback).releasePayload (s.unemitted.min' some))
      else s.report now callback else s.report now callback) = _
    split_ifs
    · rw [single, ih]
    · rfl
    · rfl

/-- A key frame makes the packets before it obsolete before it is handed out; the order does not matter. -/
theorem report_giveUpBefore (s : Impl) (now sequence : ℤ) (callback : Callback) :
    (s.giveUpBefore now sequence false).report now callback = (s.report now callback).giveUpBefore now sequence false := by
  unfold Impl.giveUpBefore Impl.releaseWhile
  rw [show (s.report now callback).unemitted = s.unemitted from rfl, report_releaseLoop]
  rfl

theorem steps_emitUnit (coherent : Coherent top s) {now : ℤ} {reconstructed : ReconstructedAccessUnit}
    (whole : Whole s lo hi (s.unitOf lo hi reconstructed)) : Steps top s (s.emitUnit now lo hi reconstructed) := by
  have completed : Steps top s ((s.releaseRange lo hi).report now (.onAccessUnit (s.unitOf lo hi reconstructed))) :=
    .single (.complete whole)
  unfold Impl.emitUnit
  dsimp only
  split_ifs
  · rw [report_giveUpBefore]
    refine completed.trans (steps_giveUpBefore _ ?_)
    obtain ⟨packet, found, -⟩ := whole.waiting le_rfl whole.ordered
    have inside := coherent.stored_le (OrderedMap.mem_of_find_eq found)
    omega
  · exact completed

theorem steps_tryCompleteAround (coherent : Coherent top s) (now sequence : ℤ) :
    Steps top s (s.tryCompleteAround now sequence) := by
  unfold Impl.tryCompleteAround
  cases grouped : s.groupOf sequence with
  | none => exact .refl
  | some run =>
    obtain ⟨lo, hi⟩ := run
    obtain ⟨left, right, waiting⟩ := groupOf_spec grouped
    dsimp only
    split_ifs with dead open_
    · exact steps_releaseAll s _
    · exact .refl
    · rw [not_or, not_not, not_not] at open_
      cases joined : reconstruct (s.payloads lo hi) with
      | error fault => exact (steps_releaseAll s _).tail (.quiet (quiet_report _ now rfl))
      | ok reconstructed =>
        apply steps_emitUnit coherent
        exact {
          first := rfl
          last := rfl
          ordered := left.trans right
          waiting := fun {key} => waiting key
          start := open_.1
          stop := open_.2
          joined := ⟨reconstructed, joined, rfl, rfl, rfl⟩
          reference := rfl }

theorem steps_dropDeadAround (coherent : Coherent top s) (now sequence : ℤ) :
    Steps top s (s.dropDeadAround now sequence) := by
  unfold Impl.dropDeadAround
  cases s.groupOf sequence with
  | none => exact .refl
  | some run =>
    dsimp only
    split_ifs
    · exact steps_releaseAll s _
    · exact steps_tryCompleteAround coherent now run.1

theorem steps_settleAround (coherent : Coherent top s) (now sequence : ℤ) : Steps top s (s.settleAround now sequence) := by
  have before := steps_tryCompleteAround coherent now (sequence - 1)
  have here := steps_tryCompleteAround (coherent_steps coherent before) now sequence
  have behind := steps_tryCompleteAround (coherent_steps (coherent_steps coherent before) here) now (sequence + 1)
  exact (before.trans here).trans behind

end Groups

/-! ## Memory -/

section Memory

variable {top : ℤ} {s t : Impl}

theorem steps_evictOldest {now : ℤ} (evicted : s.evictOldest now = some t) : Steps top s t := by
  unfold Impl.evictOldest at evicted
  split_ifs at evicted with waiting
  obtain ⟨⟨lo, hi⟩, grouped, rfl⟩ := Option.map_eq_some_iff.mp evicted
  obtain ⟨-, -, waits⟩ := groupOf_spec grouped
  refine ((steps_releaseAll s _).tail (.evict ?_)).tail (.quiet (quiet_report _ now rfl))
  intro key member
  obtain ⟨from_lo, to_hi⟩ := Int.mem_range_iff.mp (List.mem_toFinset.mp member)
  obtain ⟨packet, found, -⟩ := waits key from_lo (by omega)
  rw [OrderedMap.mem_def, find_releaseAll, found]
  split_ifs <;> rfl

theorem steps_evictLoop (s : Impl) (now : ℤ) (fuel : ℕ) : Steps top s (Impl.evictLoop now fuel s) := by
  induction fuel generalizing s with
  | zero => exact .refl
  | succ fuel ih =>
    unfold Impl.evictLoop
    split_ifs
    · cases evicted : s.evictOldest now with
      | none => exact .refl
      | some next => exact (steps_evictOldest evicted).trans (ih next)
    · exact .refl

theorem steps_enforceMemoryBounds (s : Impl) (now : ℤ) : Steps top s (s.enforceMemoryBounds now) :=
  steps_evictLoop s now s.unemitted.card

theorem steps_forgetSilent (now : ℤ) : Steps top s (s.forgetSilent now) := by
  unfold Impl.forgetSilent
  split_ifs
  · exact .refl
  · exact steps_releaseLoop s _ _

end Memory

/-! ## Repairs -/

section Repairs

variable {top : ℤ} {s : Impl}

theorem steps_declareAll (now : ℤ) {keys : List ℤ} (distinct : keys.Nodup) (wanted : ∀ key ∈ keys, key ∈ s.missing) :
    Steps top s (keys.foldl (fun s key => s.declareLost now key) s) := by
  induction keys generalizing s with
  | nil => exact .refl
  | cons key rest ih =>
    have here := wanted key List.mem_cons_self
    obtain ⟨fresh, others⟩ := List.nodup_cons.mp distinct
    refine (Relation.ReflTransGen.single (.expire here)).trans (ih others ?_)
    intro other member
    obtain ⟨lostAt, same⟩ := declareLost_parts now here
    dsimp only
    rw [same]
    exact OrderedMap.mem_erase.mpr ⟨ne_of_mem_of_not_mem member fresh, wanted other (List.mem_cons_of_mem key member)⟩

theorem steps_dropAll (coherent : Coherent top s) (now : ℤ) (keys : List ℤ) : Steps top s
    (keys.foldl (fun s key => (s.dropDeadAround now (key - 1)).dropDeadAround now (key + 1)) s) := by
  induction keys generalizing s with
  | nil => exact .refl
  | cons key rest ih =>
    have left := steps_dropDeadAround coherent now (key - 1)
    have both := left.trans (steps_dropDeadAround (coherent_steps coherent left) now (key + 1))
    exact both.trans (ih (coherent_steps coherent both))

theorem mem_expiredKeys {render : RenderTime} {now key : ℤ} : key ∈ s.expiredKeys render now ↔
    ∃ missing, s.missing.find key = some missing ∧ Impl.isExpired now (s.refreshDeadline render now key missing) = true := by
  unfold Impl.expiredKeys Impl.checkDeadlines
  simp only [List.mem_map, List.mem_filter, Prod.exists, exists_and_right, exists_eq_right, OrderedMap.mem_entries_iff,
    OrderedMap.find_mapValues, Option.map_eq_some_iff]
  constructor
  · rintro ⟨_, ⟨missing, found, rfl⟩, expired⟩
    exact ⟨missing, found, expired⟩
  · rintro ⟨missing, found, expired⟩
    exact ⟨_, ⟨missing, found, rfl⟩, expired⟩

theorem quiet_sendNacks (s : Impl) (render : RenderTime) (now : ℤ) : Quiet s (s.sendNacks render now) := by
  have member (key : ℤ) : key ∈ (s.checkDeadlines render now).mapValues (fun _ => s.noteNack now) ↔ key ∈ s.missing := by
    unfold Impl.checkDeadlines
    rw [OrderedMap.mem_mapValues, OrderedMap.mem_mapValues]
  unfold Impl.sendNacks
  dsimp only
  split_ifs
  · exact ⟨rfl, member, [], (List.append_nil _).symm, by simp⟩
  · exact ⟨rfl, member, [_], rfl, by simp [isUnit]⟩

theorem steps_giveUpExpired (coherent : Coherent top s) (now : ℤ) {keys : List ℤ} (distinct : keys.Nodup)
    (wanted : ∀ key ∈ keys, key ∈ s.missing) : Steps top s (s.giveUpExpired now keys) := by
  unfold Impl.giveUpExpired
  split_ifs
  · exact .refl
  have declared : Steps top s _ := steps_declareAll now distinct wanted
  generalize keys.foldl (fun s key => s.declareLost now key) s = lost at declared
  have trimmed := declared.tail (.quiet (quiet_lostAt lost (lost.lostAt.keepLast 1024)))
  exact (trimmed.trans (steps_dropAll (coherent_steps coherent trimmed) now keys)).tail (.quiet (quiet_report _ now rfl))

theorem steps_processNacks (coherent : Coherent top s) (render : RenderTime) (now : ℤ) :
    Steps top s (s.processNacks render now) := by
  have noting := quiet_sendNacks s render now
  refine (Relation.ReflTransGen.single (.quiet noting)).trans ?_
  refine steps_giveUpExpired (coherent_quiet coherent noting) now (OrderedMap.nodup_keys _ _) ?_
  intro key member
  obtain ⟨missing, found, -⟩ := mem_expiredKeys.mp member
  exact (noting.missing key).mpr (OrderedMap.mem_of_find_eq found)

theorem steps_processTime (coherent : Coherent top s) (render : RenderTime) (now : ℤ) :
    Steps top s (s.processTime render now) :=
  (steps_processNacks coherent render now).trans (steps_forgetSilent now)

end Repairs

end Mello.Transport.RtpH264Chains
