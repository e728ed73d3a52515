import Mello.Transport.RtpH264Moves

/-!
What the receiver asks for again, how often, and when it gives up: a request
names a packet that is still wanted, requests for one packet keep their
distance, and no packet is given up before the shortest repair window is over.
-/

namespace Mello.Transport.RtpH264Repairs
open Library Twcc H264Payload RtpH264Receiver RtpH264Steps RtpH264Chains RtpH264Moves

def nackIn : Callback → Option (List (BitVec 16))
  | .onNack keys => some keys
  | _ => none

/-- The requests made so far, oldest first. -/
def nacks (s : Impl) : List (ℤ × List (BitVec 16)) :=
  s.callbacks.filterMap fun entry => (nackIn entry.2).map fun keys => (entry.1, keys)

theorem nacks_report (s : Impl) (now : ℤ) (callback : Callback) :
    nacks (s.report now callback) = nacks s ++ ((nackIn callback).map fun keys => (now, keys)).toList := by
  unfold nacks Impl.report
  rw [List.filterMap_append]
  cases callback <;> rfl

/-- Nothing is asked for or given up for lost; what is wanted no more is obsolete. -/
structure Assembles (s t : Impl) : Prop where
  nacks : nacks t = nacks s
  lastTime : t.lastTime = s.lastTime
  lostAt : t.lostAt = s.lostAt
  lost : t.lost = s.lost
  stored {key : ℤ} : key ∈ t.packets → key ∈ s.packets
  missing {key : ℤ} {missing : Missing} : t.missing.find key = some missing → s.missing.find key = some missing
  kept {key : ℤ} : key ∈ s.missing → key ∈ t.missing ∨ ∃ floor, t.floor = some floor ∧ key ≤ floor
  raised {floor : ℤ} : s.floor = some floor → ∃ higher, t.floor = some higher ∧ floor ≤ higher

namespace Assembles

variable {s t u : Impl}

theorem refl (s : Impl) : Assembles s s :=
  ⟨rfl, rfl, rfl, rfl, id, id, .inl, fun known => ⟨_, known, le_rfl⟩⟩

theorem trans (first : Assembles s t) (second : Assembles t u) : Assembles s u where
  nacks := second.nacks.trans first.nacks
  lastTime := second.lastTime.trans first.lastTime
  lostAt := second.lostAt.trans first.lostAt
  lost := second.lost.trans first.lost
  stored := fun member => first.stored (second.stored member)
  missing := fun found => first.missing (second.missing found)
  kept := by
    intro key member
    rcases first.kept member with still | ⟨floor, known, below⟩
    · exact second.kept still
    · obtain ⟨higher, raised, above⟩ := second.raised known
      exact .inr ⟨higher, raised, below.trans above⟩
  raised := by
    intro floor known
    obtain ⟨middle, between, below⟩ := first.raised known
    obtain ⟨higher, raised, above⟩ := second.raised between
    exact ⟨higher, raised, below.trans above⟩

end Assembles

section Assembles

variable (s : Impl) (now : ℤ)

theorem assembles_releaseAll (keys : List ℤ) : Assembles s (s.releaseAll keys) := by
  have store := storeOnly_releaseAll s keys
  refine ⟨?_, (congrArg Impl.lastTime store :), (congrArg Impl.lostAt store :), store.lost, mem_releaseAll.mp, ?_, ?_, ?_⟩
  · unfold nacks
    rw [store.callbacks]
  · rw [store.missing]
    exact id
  · rw [store.missing]
    exact .inl
  · rw [store.floor]
    exact fun known => ⟨_, known, le_rfl⟩

theorem assembles_report {callback : Callback} (silent : nackIn callback = none) : Assembles s (s.report now callback) := by
  refine ⟨?_, rfl, rfl, rfl, id, id, .inl, fun known => ⟨_, known, le_rfl⟩⟩
  rw [nacks_report, silent]
  exact List.append_nil _

theorem assembles_obsolete (sequence : ℤ) : Assembles s (obsolete s sequence) := by
  obtain ⟨floor, raised, beyond, from_⟩ := floor_raised s sequence
  refine ⟨rfl, rfl, rfl, rfl, id, ?_, ?_, ?_⟩
  · intro key missing found
    have kept := (OrderedMap.find_filter _ _ _).symm.trans found
    split_ifs at kept
    exact kept
  · intro key member
    rcases le_or_gt sequence key with later | earlier
    · exact .inl (OrderedMap.mem_filter.mpr ⟨decide_eq_true later, member⟩)
    · exact .inr ⟨floor, raised, by omega⟩
  · intro before known
    refine ⟨floor, raised, ?_⟩
    rcases le_or_gt before (sequence - 1) with below | above
    · exact below.trans beyond
    · have same := raised
      rw [known, Option.all_some, if_neg (by simpa using above.le)] at same
      exact (Option.some.inj same).le

theorem assembles_giveUpBefore (sequence : ℤ) (isLoss : Bool) : Assembles s (s.giveUpBefore now sequence isLoss) := by
  obtain ⟨keys, same⟩ := releaseLoop_eq (· < sequence) s.unemitted.card s
  have gone := (assembles_releaseAll s keys).trans (assembles_obsolete _ sequence)
  unfold Impl.giveUpBefore Impl.releaseWhile
  dsimp only
  rw [same]
  cases isLoss with
  | false => exact gone
  | true => exact gone.trans (assembles_report _ now rfl)

theorem assembles_emitUnit (lo hi : ℤ) (reconstructed : ReconstructedAccessUnit) :
    Assembles s (s.emitUnit now lo hi reconstructed) := by
  have released := assembles_releaseAll s (Int.range lo (hi + 1))
  unfold Impl.emitUnit
  dsimp only
  split_ifs
  · exact (released.trans (assembles_giveUpBefore _ now lo false)).trans (assembles_report _ now rfl)
  · exact released.trans (assembles_report _ now rfl)

theorem assembles_tryCompleteAround (sequence : ℤ) : Assembles s (s.tryCompleteAround now sequence) := by
  unfold Impl.tryCompleteAround
  cases s.groupOf sequence with
  | none => exact .refl s
  | some run =>
    dsimp only
    split_ifs
    · exact assembles_releaseAll s _
    · exact .refl s
    · cases reconstruct (s.payloads run.1 run.2) with
      | error fault => exact (assembles_releaseAll s _).trans (assembles_report _ now rfl)
      | ok reconstructed => exact assembles_emitUnit s now run.1 run.2 reconstructed

theorem assembles_dropDeadAround (sequence : ℤ) : Assembles s (s.dropDeadAround now sequence) := by
  unfold Impl.dropDeadAround
  cases s.groupOf sequence with
  | none => exact .refl s
  | some run =>
    dsimp only
    split_ifs
    · exact assembles_releaseAll s _
    · exact assembles_tryCompleteAround s now run.1

theorem assembles_dropAll (keys : List ℤ) : Assembles s
    (keys.foldl (fun s key => (s.dropDeadAround now (key - 1)).dropDeadAround now (key + 1)) s) := by
  induction keys generalizing s with
  | nil => exact .refl s
  | cons key rest ih =>
    exact ((assembles_dropDeadAround s now (key - 1)).trans (assembles_dropDeadAround _ now (key + 1))).trans (ih _)

theorem assembles_forgetSilent : Assembles s (s.forgetSilent now) := by
  obtain ⟨keys, same⟩ := releaseLoop_eq (fun _ => true) s.unemitted.card s
  unfold Impl.forgetSilent Impl.releaseWhile
  rw [same]
  split_ifs
  · exact .refl s
  · exact assembles_releaseAll s keys

theorem assembles_settleAround (sequence : ℤ) : Assembles s (s.settleAround now sequence) :=
  ((assembles_tryCompleteAround s now (sequence - 1)).trans (assembles_tryCompleteAround _ now sequence)).trans
    (assembles_tryCompleteAround _ now (sequence + 1))

end Assembles

/-! ## Pace -/

/-- What holds of a wanted packet at some time. -/
structure OnTime (now : ℤ) (missing : Missing) : Prop where
  detected : missing.firstDetected ≤ now
  expected : missing.expected ≤ missing.firstDetected
  spaced : 0 < missing.attempts →
    missing.firstDetected + (missing.attempts - 1) * (kMinNackRepeat * 1000) ≤ missing.lastNack ∧ missing.lastNack ≤ now
  patient {deadline : ℤ} : missing.deadline = some deadline → missing.firstDetected + kMinRepairWindow * 1000 ≤ deadline

structure Paced (now : ℤ) (s : Impl) : Prop where
  clock : s.lastTime = some now
  wanted {key : ℤ} {missing : Missing} : s.missing.find key = some missing → OnTime now missing
  declared {key waited time : ℤ} : s.lostAt.find key = some (waited, time) → kMinRepairWindow * 1000 ≤ waited

section Pace

variable {s t : Impl} {now : ℤ} (render : RenderTime)

theorem OnTime.mono {later : ℤ} {missing : Missing} (onTime : OnTime now missing) (le : now ≤ later) : OnTime later missing where
  detected := onTime.detected.trans le
  expected := onTime.expected
  spaced asked := ⟨(onTime.spaced asked).1, (onTime.spaced asked).2.trans le⟩
  patient := onTime.patient

theorem Paced.tick {later : ℤ} (paced : Paced now s) (le : now ≤ later) : Paced later { s with lastTime := some later } :=
  ⟨rfl, fun found => (paced.wanted found).mono le, paced.declared⟩

theorem Paced.of_fewer (paced : Paced now s)
    (missing : ∀ {key : ℤ} {missing : Missing}, t.missing.find key = some missing → s.missing.find key = some missing)
    (lostAt : t.lostAt = s.lostAt) (lastTime : t.lastTime = s.lastTime) : Paced now t :=
  ⟨lastTime.trans paced.clock, fun found => paced.wanted (missing found), lostAt ▸ paced.declared⟩

theorem Assembles.paced (assembles : Assembles s t) (paced : Paced now s) : Paced now t :=
  paced.of_fewer assembles.missing assembles.lostAt assembles.lastTime

/-- A wanted packet as it is when first seen missing. -/
theorem onTime_fresh {expected : ℤ} (before : expected ≤ now) (newer : ℕ) :
    OnTime now { firstDetected := now, expected := expected, newerPackets := newer } :=
  ⟨le_rfl, before, fun asked => absurd asked (lt_irrefl 0), fun known => nomatch known⟩

theorem paced_emplaceMissing (paced : Paced now s) (key : ℤ) {missing : Missing} (fresh : OnTime now missing) :
    Paced now (s.emplaceMissing key missing) := by
  unfold Impl.emplaceMissing
  split_ifs
  · exact paced
  · refine ⟨paced.clock, fun {other found} there => ?_, paced.declared⟩
    rw [OrderedMap.find_insert] at there
    split_ifs at there
    · obtain rfl := Option.some.inj there
      exact fresh
    · exact paced.wanted there

theorem paced_mapValues (paced : Paced now s) {f : ℤ → Missing → Missing}
    (kept : ∀ key missing, OnTime now missing → OnTime now (f key missing)) :
    Paced now { s with missing := s.missing.mapValues f } := by
  refine ⟨paced.clock, fun {key missing} found => ?_, paced.declared⟩
  rw [OrderedMap.find_mapValues] at found
  obtain ⟨before, there, rfl⟩ := Option.map_eq_some_iff.mp found
  exact kept key before (paced.wanted there)

theorem minRepairWindow_le (s : Impl) (now : ℤ) : kMinRepairWindow ≤ s.repairWindow now := le_max_left _ _

theorem le_computeDeadline (s : Impl) (sequence : ℤ) (missing : Missing) :
    missing.firstDetected + kMinRepairWindow * 1000 ≤ s.computeDeadline render sequence missing := by
  have window := minRepairWindow_le s (s.lastTime.getD 0)
  have early : missing.firstDetected + kMinRepairWindow * 1000 ≤
      max (missing.firstDetected + s.rtt * 1000 + kRepairMargin)
        (missing.firstDetected + s.repairWindow (s.lastTime.getD 0) * 1000) :=
    le_max_of_le_right (by linarith)
  unfold Impl.computeDeadline
  dsimp only
  generalize max (missing.firstDetected + s.rtt * 1000 + kRepairMargin)
    (missing.firstDetected + s.repairWindow (s.lastTime.getD 0) * 1000) = deadline at early ⊢
  cases (s.packets.past sequence).dropWhile fun entry => entry.2.padding with
  | nil => exact early
  | cons after rest =>
    dsimp only
    refine le_max_of_le_left ?_
    cases render after.2.timestamp with
    | none => exact early
    | some time => exact le_max_of_le_left early

theorem onTime_checked (s : Impl) (key : ℤ) {missing : Missing} (onTime : OnTime now missing) :
    OnTime now (s.refreshDeadline render now key missing) := by
  unfold Impl.refreshDeadline
  split_ifs
  · refine { onTime with patient := fun known => ?_ }
    obtain rfl := Option.some.inj known
    exact le_computeDeadline render s key missing
  · exact onTime

theorem onTime_noteNack (s : Impl) {missing : Missing} (onTime : OnTime now missing) : OnTime now (s.noteNack now missing) := by
  unfold Impl.noteNack
  split_ifs with due
  · refine { onTime with spaced := fun _ => ⟨?_, le_rfl⟩ }
    unfold Impl.isDue Impl.shouldSend at due
    rw [Bool.and_eq_true] at due
    have send := due.2
    dsimp only
    split_ifs at send with first
    · rw [first]
      simpa using onTime.detected
    · have earlier := (onTime.spaced (Nat.pos_of_ne_zero first)).1
      have apart : s.nackRepeat * 1000 ≤ now - missing.lastNack := of_decide_eq_true send
      have least : kMinNackRepeat ≤ s.nackRepeat := le_max_right _ _
      push_cast
      linarith
  · exact onTime

theorem paced_sendNacks (paced : Paced now s) : Paced now (s.sendNacks render now) := by
  have checked := paced_mapValues (paced_mapValues paced fun key _ => onTime_checked render s key)
    fun _ _ => onTime_noteNack s
  unfold Impl.sendNacks
  dsimp only
  split_ifs
  · exact checked
  · exact checked.of_fewer id rfl rfl

/-- Packets whose deadline is over: each has waited for the shortest window at least. -/
theorem paced_declareAll {keys : List ℤ} (paced : Paced now s)
    (expired : ∀ key ∈ keys, ∀ missing, s.missing.find key = some missing → Impl.isExpired now missing = true) :
    Paced now (keys.foldl (fun s key => s.declareLost now key) s) := by
  induction keys generalizing s with
  | nil => exact paced
  | cons key rest ih =>
    rw [List.foldl_cons]
    cases found : s.missing.find key with
    | none =>
      have same : s.declareLost now key = { s with lost := insert key s.lost } := by
        unfold Impl.declareLost
        rw [found]
      rw [same]
      exact ih (paced.of_fewer id rfl rfl) fun other member => expired other (List.mem_cons_of_mem key member)
    | some gap =>
      have same : s.declareLost now key = { s with
          lostAt := s.lostAt.insert key (now - gap.expected, now)
          missing := s.missing.erase key
          lost := insert key s.lost } := by
        unfold Impl.declareLost
        rw [found]
      have fewer {other : ℤ} {missing : Missing} (there : (s.missing.erase key).find other = some missing) :
          s.missing.find other = some missing := by
        rw [OrderedMap.find_erase] at there
        split_ifs at there
        exact there
      rw [same]
      apply ih
      · refine ⟨paced.clock, fun there => paced.wanted (fewer there), fun {other waited time} there => ?_⟩
        rw [OrderedMap.find_insert] at there
        split_ifs at there
        · obtain ⟨rfl, rfl⟩ := Prod.mk.inj (Option.some.inj there)
          have onTime := paced.wanted found
          obtain ⟨deadline, known, reached⟩ := (Option.any_eq_true _ _).mp (expired key List.mem_cons_self gap found)
          have patient := onTime.patient known
          have overdue : deadline ≤ now := of_decide_eq_true reached
          linarith [onTime.expected]
        · exact paced.declared there
      · exact fun other member missing there => expired other (List.mem_cons_of_mem key member) missing (fewer there)

/-- What is expired before the requests is expired behind them. -/
theorem expired_sendNacks {key : ℤ} (member : key ∈ s.expiredKeys render now) {missing : Missing}
    (found : (s.sendNacks render now).missing.find key = some missing) : Impl.isExpired now missing = true := by
  obtain ⟨before, there, expired⟩ := mem_expiredKeys.mp member
  have noted : (s.sendNacks render now).missing = (s.checkDeadlines render now).mapValues fun _ => s.noteNack now := by
    unfold Impl.sendNacks
    dsimp only
    split_ifs <;> rfl
  rw [noted, OrderedMap.find_mapValues, Impl.checkDeadlines, OrderedMap.find_mapValues, there] at found
  obtain rfl := Option.some.inj found
  have waits : s.noteNack now (s.refreshDeadline render now key before) = s.refreshDeadline render now key before := by
    unfold Impl.noteNack Impl.isDue
    rw [expired]
    rfl
  exact (congrArg (Impl.isExpired now) waits).trans expired

theorem paced_processTime (paced : Paced now s) : Paced now (s.processTime render now) := by
  have sent := paced_sendNacks render paced
  have declared := paced_declareAll sent fun key member missing found => expired_sendNacks render member found
  refine (assembles_forgetSilent _ now).paced ?_
  unfold Impl.processNacks Impl.giveUpExpired
  split_ifs
  · exact sent
  · generalize (s.expiredKeys render now).foldl (fun s key => s.declareLost now key) (s.sendNacks render now) = lost
      at declared
    have trimmed : Paced now { lost with lostAt := lost.lostAt.keepLast 1024 } :=
      ⟨declared.clock, declared.wanted, fun found => declared.declared (OrderedMap.find_of_keepLast found)⟩
    exact ((assembles_dropAll _ now _).trans (assembles_report _ now rfl)).paced trimmed

/-! ### Arrivals -/

theorem pruneHistory_fewer {key : ℤ} {missing : Missing} (found : s.pruneHistory.missing.find key = some missing) :
    s.missing.find key = some missing := by
  rw [pruneHistory_eq] at found
  have kept := (OrderedMap.find_filter _ _ _).symm.trans found
  split_ifs at kept
  rwa [(storeOnly_releaseAll s _).missing] at kept

theorem pruneHistory_frame (s : Impl) : s.pruneHistory.lostAt = s.lostAt ∧ s.pruneHistory.lastTime = s.lastTime ∧
    s.pruneHistory.callbacks = s.callbacks := by
  rw [pruneHistory_eq]
  have store := storeOnly_releaseAll s
    (((s.packets.entries.filter fun entry => decide (entry.1 < s.highestSequence.getD 0 - kHistory)).filter
      fun entry => !entry.2.emitted).map Prod.fst)
  exact ⟨(congrArg Impl.lostAt store :), (congrArg Impl.lastTime store :), store.callbacks⟩

theorem nacks_of_callbacks (same : t.callbacks = s.callbacks) : nacks t = nacks s := by
  unfold nacks
  rw [same]

theorem observeSequence_paced_nacks (paced : Paced now s) (sequence : ℤ) :
    Paced now (s.observeSequence now sequence) ∧ nacks (s.observeSequence now sequence) = nacks s := by
  have counted : Paced now (s.countNewer sequence) := by
    refine paced_mapValues paced fun key missing onTime => ?_
    split_ifs
    · exact { onTime with }
    · exact onTime
  have pruned {t : Impl} (paced : Paced now t) :
      Paced now (Impl.pruneHistory { t with highestSequence := some sequence }) ∧
        nacks (Impl.pruneHistory { t with highestSequence := some sequence }) = nacks t :=
    ⟨paced.of_fewer pruneHistory_fewer (pruneHistory_frame _).1 (pruneHistory_frame _).2.1,
      nacks_of_callbacks (pruneHistory_frame _).2.2⟩
  unfold Impl.observeSequence
  cases s.highestSequence with
  | none => exact ⟨paced.of_fewer id rfl rfl, rfl⟩
  | some highest =>
    dsimp only
    split_ifs with older jump
    · exact ⟨paced, rfl⟩
    · have gone := assembles_giveUpBefore (s.countNewer sequence) now sequence true
      obtain ⟨kept, same⟩ := pruned (gone.paced counted)
      exact ⟨kept, same.trans gone.nacks⟩
    · have gap : Paced now ((s.countNewer sequence).openGap now sequence highest) := by
        unfold Impl.openGap
        refine List.foldlRecOn _ _ counted ?_
        intro s paced key _
        refine paced_emplaceMissing paced key (onTime_fresh ?_ 1)
        cases (Impl.countNewer _ sequence).packets.find highest with
        | none => exact le_rfl
        | some before => exact min_le_left _ _
      obtain ⟨kept, same⟩ := pruned gap
      have silent : nacks ((s.countNewer sequence).openGap now sequence highest) = nacks s := by
        rw [openGap_frame]
        rfl
      exact ⟨kept, same.trans silent⟩

theorem noteFilled_paced_nacks (paced : Paced now s) (sequence : ℤ) :
    Paced now (s.noteFilled now sequence) ∧ nacks (s.noteFilled now sequence) = nacks s := by
  unfold Impl.noteFilled
  cases s.missing.find sequence with
  | none => exact ⟨paced, rfl⟩
  | some gap =>
    obtain ⟨repairs, same⟩ := noteRepair_frame s now (now - gap.expected)
    dsimp only
    rw [same]
    refine ⟨paced.of_fewer (fun {key missing} found => ?_) rfl rfl, rfl⟩
    dsimp only at found
    rw [OrderedMap.find_erase] at found
    split_ifs at found
    exact found

theorem acceptPacket_paced_nacks (paced : Paced now s) (sequence : ℤ) (parsed : ParsedRtpPacket) (padding validH264 : Bool) :
    Paced now (s.acceptPacket now sequence parsed padding validH264) ∧
      nacks (s.acceptPacket now sequence parsed padding validH264) = nacks s := by
  have chosen : Paced now (s.chooseSsrc sequence parsed.ssrc) ∧ nacks (s.chooseSsrc sequence parsed.ssrc) = nacks s := by
    unfold Impl.chooseSsrc
    split_ifs
    · exact ⟨paced.of_fewer id rfl rfl, rfl⟩
    · exact ⟨paced, rfl⟩
  have filled := noteFilled_paced_nacks chosen.1 sequence
  have observed := observeSequence_paced_nacks filled.1 sequence
  have silent := (observed.2.trans filled.2).trans chosen.2
  unfold Impl.acceptPacket
  dsimp only
  generalize ((s.chooseSsrc sequence parsed.ssrc).noteFilled now sequence).observeSequence now sequence = t at observed silent
  have stored (packet : Packet) : Paced now (Impl.store { t with lastAnyArrival := now } sequence packet) ∧
      nacks (Impl.store { t with lastAnyArrival := now } sequence packet) = nacks s := by
    unfold Impl.store
    split_ifs <;> exact ⟨observed.1.of_fewer id rfl rfl, silent⟩
  split_ifs
  · exact stored _
  · have touched : Paced now { t with lastAnyArrival := now } := observed.1.of_fewer id rfl rfl
    refine ⟨paced_emplaceMissing touched sequence (onTime_fresh le_rfl 0), ?_⟩
    unfold Impl.markMissing Impl.emplaceMissing
    split_ifs <;> exact silent
  · exact stored _

theorem evictLoop_paced_nacks (paced : Paced now s) (fuel : ℕ) :
    Paced now (Impl.evictLoop now fuel s) ∧ nacks (Impl.evictLoop now fuel s) = nacks s := by
  induction fuel generalizing s with
  | zero => exact ⟨paced, rfl⟩
  | succ fuel ih =>
    unfold Impl.evictLoop
    split_ifs
    · cases evicted : s.evictOldest now with
      | none => exact ⟨paced, rfl⟩
      | some t =>
        have kept : Paced now t ∧ nacks t = nacks s := by
          unfold Impl.evictOldest at evicted
          split_ifs at evicted
          obtain ⟨⟨lo, hi⟩, -, rfl⟩ := Option.map_eq_some_iff.mp evicted
          have released := assembles_releaseAll s (Int.range lo (hi + 1))
          exact ⟨(released.paced paced).of_fewer id rfl rfl, (nacks_report _ now _).trans
            ((List.append_nil _).trans released.nacks)⟩
        obtain ⟨later, same⟩ := ih kept.1
        exact ⟨later, same.trans kept.2⟩
    · exact ⟨paced, rfl⟩

theorem receive_paced_nacks (paced : Paced now s) (parsed : ParsedRtpPacket) (padding : Bool) :
    Paced now (s.receive now parsed padding) ∧ nacks (s.receive now parsed padding) = nacks s := by
  have same : Paced now s ∧ nacks s = nacks s := ⟨paced, rfl⟩
  unfold Impl.receive
  dsimp only
  split_ifs
  · exact same
  · exact same
  · exact same
  · unfold Impl.noteLate
    cases s.lostAt.find (s.extendSequence parsed.sequence) with
    | none => exact same
    | some waited =>
      obtain ⟨repairs, same⟩ := noteRepair_frame s now (waited.1 + (now - waited.2))
      dsimp only
      rw [same]
      exact ⟨paced.of_fewer id rfl rfl, rfl⟩
  · obtain ⟨accepted, silent⟩ := acceptPacket_paced_nacks paced (s.extendSequence parsed.sequence) parsed padding
      (padding || decide (parsed.payload.length ≤ kMaxPayloadBytes) && validateH264Payload parsed.payload)
    generalize s.acceptPacket now (s.extendSequence parsed.sequence) parsed padding
      (padding || decide (parsed.payload.length ≤ kMaxPayloadBytes) && validateH264Payload parsed.payload) = t at accepted silent
    obtain ⟨bounded, still⟩ := evictLoop_paced_nacks accepted t.unemitted.card
    have settled := assembles_settleAround (t.enforceMemoryBounds now) now (s.extendSequence parsed.sequence)
    exact ⟨settled.paced bounded, settled.nacks.trans (still.trans silent)⟩

end Pace

/-! ## Runs -/

section Runs

variable {s t : Impl} {now : ℤ}

/-- The pace at the time of the last call, if there was one. -/
def Timely (s : Impl) : Prop :=
  (s.lastTime = none ∧ (∀ key, s.missing.find key = none) ∧ ∀ key, s.lostAt.find key = none) ∨ ∃ now, Paced now s

theorem Timely.clock (timely : Timely s) (accepts : s.acceptsTime now = true) : Paced now { s with lastTime := some now } := by
  rcases timely with ⟨-, missing, lostAt⟩ | ⟨before, paced⟩
  · refine ⟨rfl, fun found => ?_, fun found => ?_⟩
    · exact absurd ((missing _).symm.trans found) (Option.some_ne_none _).symm
    · exact absurd ((lostAt _).symm.trans found) (Option.some_ne_none _).symm
  · refine paced.tick ?_
    unfold Impl.acceptsTime at accepts
    rw [paced.clock] at accepts
    exact of_decide_eq_true accepts

theorem handleDatagram_paced_nacks (paced : Paced now s) (data : List Byte) :
    Paced now (s.handleDatagram now data) ∧ nacks (s.handleDatagram now data) = nacks s := by
  unfold Impl.handleDatagram
  cases parseRtpPacket data with
  | invalid => exact ⟨paced, rfl⟩
  | media parsed => exact receive_paced_nacks paced parsed false
  | padding parsed => exact receive_paced_nacks paced parsed true

theorem timely_call (timely : Timely s) (call : Call) : Timely (s.call call) := by
  cases call with
  | onRtpPacket render now data =>
    unfold Impl.call Impl.onRtpPacket
    dsimp only
    split_ifs with refused
    · exact timely
    · have clocked := timely.clock (by simpa using refused)
      exact .inr ⟨now, paced_processTime render (handleDatagram_paced_nacks clocked data).1⟩
  | tick render now =>
    unfold Impl.call Impl.tick
    dsimp only
    split_ifs with refused
    · exact timely
    · exact .inr ⟨now, paced_processTime render (timely.clock (by simpa using refused))⟩
  | setRtt rtt =>
    rcases timely with ⟨clock, missing, lostAt⟩ | ⟨now, paced⟩
    · refine .inl ⟨clock, fun key => ?_, lostAt⟩
      exact (OrderedMap.find_mapValues _ _ _).trans (by rw [missing, Option.map_none])
    · refine .inr ⟨now, (paced_mapValues paced fun key missing onTime => ?_).of_fewer id rfl rfl⟩
      exact { onTime with patient := fun known => absurd known.symm (Option.some_ne_none _) }

/-- At any time each wanted packet was asked for at most once in the shortest
interval between requests, and what was given up had waited for the shortest
repair window. -/
theorem run_paced (config : Config) (calls : List Call) : Timely (run config calls) := by
  unfold run
  refine List.foldlRecOn calls Impl.call (.inl ⟨rfl, fun _ => rfl, fun _ => rfl⟩) ?_
  exact fun s timely call _ => timely_call timely call

/-! ## Requests -/

/-- Asked for just now, and neither stored nor given up for lost; or obsolete by now. -/
structure Awaited (s : Impl) (now key : ℤ) : Prop where
  notStored : key ∉ s.packets
  notLost : key ∉ s.lost
  asked : (∃ missing, s.missing.find key = some missing ∧ missing.lastNack = now ∧ 0 < missing.attempts) ∨
    ∃ floor, s.floor = some floor ∧ key ≤ floor

theorem Awaited.assembles {key : ℤ} (awaited : Awaited s now key) (assembles : Assembles s t) : Awaited t now key where
  notStored inside := awaited.notStored (assembles.stored inside)
  notLost := assembles.lost ▸ awaited.notLost
  asked := by
    rcases awaited.asked with ⟨missing, found, asked⟩ | ⟨floor, known, below⟩
    · rcases assembles.kept (OrderedMap.mem_of_find_eq found) with still | obsolete
      · obtain ⟨same, there⟩ := OrderedMap.mem_iff.mp still
        obtain rfl := Option.some.inj (found.symm.trans (assembles.missing there))
        exact .inl ⟨missing, there, asked⟩
      · exact .inr obsolete
    · obtain ⟨higher, raised, above⟩ := assembles.raised known
      exact .inr ⟨higher, raised, below.trans above⟩

/-- Giving one packet up for lost leaves the others alone. -/
theorem Awaited.declareAll {keys : List ℤ} {key : ℤ} (awaited : Awaited s now key) (other : key ∉ keys) :
    Awaited (keys.foldl (fun s key => s.declareLost now key) s) now key := by
  induction keys generalizing s with
  | nil => exact awaited
  | cons first rest ih =>
    have different : key ≠ first := fun same => other (same ▸ List.mem_cons_self)
    have later : key ∉ rest := fun inside => other (List.mem_cons_of_mem first inside)
    rw [List.foldl_cons]
    refine ih ?_ later
    unfold Impl.declareLost
    cases s.missing.find first with
    | none => exact ⟨awaited.notStored, fun inside => (Finset.mem_insert.mp inside).elim different awaited.notLost, awaited.asked⟩
    | some gap =>
      refine ⟨awaited.notStored, fun inside => (Finset.mem_insert.mp inside).elim different awaited.notLost, ?_⟩
      refine awaited.asked.imp_left ?_
      rintro ⟨missing, found, asked⟩
      exact ⟨missing, (OrderedMap.find_erase _ _ _).trans ((if_neg different).trans found), asked⟩

theorem nacks_declareAll (s : Impl) (now : ℤ) (keys : List ℤ) :
    nacks (keys.foldl (fun s key => s.declareLost now key) s) = nacks s := by
  induction keys generalizing s with
  | nil => rfl
  | cons first rest ih =>
    rw [List.foldl_cons, ih]
    unfold Impl.declareLost
    cases s.missing.find first <;> rfl

/-- What a look at the clock asks for. -/
theorem sendNacks_spec (coherent : Coherent (s.highestSequence.getD 0) s) (render : RenderTime) (now : ℤ) :
    nacks (s.sendNacks render now) = nacks s ∨ ∃ keys ≠ [],
      nacks (s.sendNacks render now) = nacks s ++ [(now, keys.map (BitVec.ofInt 16))] ∧
      ∀ key ∈ keys, Awaited (s.sendNacks render now) now key ∧ key ∉ s.expiredKeys render now := by
  have quiet := quiet_sendNacks s render now
  have after := coherent_quiet coherent quiet
  have noted : (s.sendNacks render now).missing = (s.checkDeadlines render now).mapValues fun _ => s.noteNack now := by
    unfold Impl.sendNacks
    dsimp only
    split_ifs <;> rfl
  generalize due_eq : ((s.checkDeadlines render now).entries.filter fun entry => s.isDue now entry.2) = due
  by_cases nothing : due = []
  · refine .inl ?_
    unfold Impl.sendNacks
    dsimp only
    rw [due_eq, if_pos nothing]
    rfl
  · refine .inr ⟨due.map Prod.fst, by simpa using nothing, ?_, ?_⟩
    · unfold Impl.sendNacks
      dsimp only
      rw [due_eq, if_neg nothing, nacks_report, List.map_map]
      rfl
    · intro key member
      obtain ⟨entry, inside, rfl⟩ := List.mem_map.mp member
      rw [← due_eq, List.mem_filter] at inside
      obtain ⟨there, isDue⟩ := inside
      have found : (s.checkDeadlines render now).find entry.1 = some entry.2 := OrderedMap.find_of_mem there
      have wanted : (s.sendNacks render now).missing.find entry.1 =
          some { entry.2 with lastNack := now, attempts := entry.2.attempts + 1 } := by
        rw [noted, OrderedMap.find_mapValues, found, Option.map_some]
        unfold Impl.noteNack
        rw [if_pos isDue]
      have isWanted := OrderedMap.mem_of_find_eq wanted
      refine ⟨⟨after.missing_stored isWanted, after.missing_lost isWanted, .inl ⟨_, wanted, rfl, Nat.succ_pos _⟩⟩, ?_⟩
      intro expired
      obtain ⟨before, known, isExpired⟩ := mem_expiredKeys.mp expired
      unfold Impl.checkDeadlines at found
      rw [OrderedMap.find_mapValues, known] at found
      unfold Impl.isDue at isDue
      rw [← Option.some.inj found, isExpired] at isDue
      exact Bool.noConfusion isDue

theorem processTime_nacks (coherent : Coherent (s.highestSequence.getD 0) s) (render : RenderTime) (now : ℤ) :
    nacks (s.processTime render now) = nacks s ∨ ∃ keys ≠ [],
      nacks (s.processTime render now) = nacks s ++ [(now, keys.map (BitVec.ofInt 16))] ∧
      ∀ key ∈ keys, Awaited (s.processTime render now) now key := by
  have later : nacks (s.processTime render now) = nacks (s.sendNacks render now) ∧
      ∀ key ∉ s.expiredKeys render now, Awaited (s.sendNacks render now) now key → Awaited (s.processTime render now) now key := by
    have silent := assembles_forgetSilent (s.processNacks render now) now
    unfold Impl.processTime
    suffices processed : nacks (s.processNacks render now) = nacks (s.sendNacks render now) ∧
        ∀ key ∉ s.expiredKeys render now, Awaited (s.sendNacks render now) now key → Awaited (s.processNacks render now) now key from
      ⟨silent.nacks.trans processed.1, fun key other awaited => (processed.2 key other awaited).assembles silent⟩
    unfold Impl.processNacks Impl.giveUpExpired
    split_ifs
    · exact ⟨rfl, fun _ _ => id⟩
    have same := nacks_declareAll (s.sendNacks render now) now (s.expiredKeys render now)
    have kept (key : ℤ) (other : key ∉ s.expiredKeys render now) (awaited : Awaited (s.sendNacks render now) now key) :=
      awaited.declareAll other
    generalize (s.expiredKeys render now).foldl (fun s key => s.declareLost now key) (s.sendNacks render now) = lost
      at same kept
    dsimp only
    generalize lost.lostAt.keepLast 1024 = lostAt
    have assembles := (assembles_dropAll { lost with lostAt := lostAt } now (s.expiredKeys render now)).trans
      (assembles_report _ now (show nackIn (.onLoss ((s.expiredKeys render now).getLastD 0)) = none from rfl))
    refine ⟨assembles.nacks.trans same, fun key other awaited => ?_⟩
    obtain ⟨notStored, notLost, asked⟩ := kept key other awaited
    have trimmed : Awaited { lost with lostAt := lostAt } now key := ⟨notStored, notLost, asked⟩
    exact trimmed.assembles assembles
  rcases sendNacks_spec coherent render now with none | ⟨keys, some, added, awaited⟩
  · exact .inl (later.1.trans none)
  · exact .inr ⟨keys, some, later.1.trans added, fun key member => later.2 key (awaited key member).2 (awaited key member).1⟩

/-- A request names packets that are still awaited when the call returns. The
next request for one of them keeps its distance. -/
theorem run_requests (config : Config) (calls : List Call) (call : Call) :
    nacks (run config (calls ++ [call])) = nacks (run config calls) ∨ ∃ now, ∃ keys ≠ [],
      nacks (run config (calls ++ [call])) = nacks (run config calls) ++ [(now, keys.map (BitVec.ofInt 16))] ∧
      Paced now (run config (calls ++ [call])) ∧ ∀ key ∈ keys, Awaited (run config (calls ++ [call])) now key := by
  have timely := run_paced config calls
  have settled := (reaches_run config calls).2
  have one : run config (calls ++ [call]) = (run config calls).call call := List.foldl_append
  rw [one]
  generalize run config calls = s at timely settled
  have clocked (now : ℤ) : Settled { s with lastTime := some now } :=
    settled_steps settled fun _ _ => .single (.quiet (quiet_clock s now))
  cases call with
  | onRtpPacket render now data =>
    unfold Impl.call Impl.onRtpPacket
    dsimp only
    split_ifs with refused
    · exact .inl rfl
    obtain ⟨paced, same⟩ := handleDatagram_paced_nacks (timely.clock (by simpa using refused)) data
    have reached := reaches_handleDatagram (clocked now) render (List.mem_singleton_self (Call.onRtpPacket render now data))
    rcases processTime_nacks (reached.2.coherent (newest_getD _)) render now with none | ⟨keys, some, added, awaited⟩
    · exact .inl (none.trans same)
    · exact .inr ⟨now, keys, some, added.trans (congrArg (· ++ _) same), paced_processTime render paced, awaited⟩
  | tick render now =>
    unfold Impl.call Impl.tick
    dsimp only
    split_ifs with refused
    · exact .inl rfl
    have paced := timely.clock (by simpa using refused)
    rcases processTime_nacks ((clocked now).coherent (newest_getD _)) render now with none | ⟨keys, some, added, awaited⟩
    · exact .inl none
    · exact .inr ⟨now, keys, some, added, paced_processTime render paced, awaited⟩
  | setRtt rtt => exact .inl rfl

end Runs

end Mello.Transport.RtpH264Repairs
