import Mello.Transport.SenderChain

/-!
The flag that lifts the count bound of the queue while an IDR drains. It is one
bit for all IDRs of the sender: it is right after a step exactly when the step
does not end one IDR while another is still there, and does not lose the last
packet of an IDR.
-/

namespace Mello.Transport.SenderIdrFlag
open Mello.Library RtpVideoSender State SenderChain

def idrQueued (s : State) : Bool := s.accessUnitQueue.any AccessUnit.isIdr

def idrInMedia (s : State) : Bool := s.mediaPackets.any MediaPacket.idr

/-- An IDR is queued or partly on the wire. -/
def Accurate (s : State) : Prop := s.idrInSender = (idrQueued s || idrInMedia s)

/-- The media packets are of one access unit, and none waits in a pause. -/
structure Paced (s : State) : Prop where
  oneUnit : ∀ first ∈ s.mediaPackets, ∀ second ∈ s.mediaPackets, first.idr = second.idr
  pausedEmpty : s.paused = true → s.mediaPackets = []

def TimesOut (s : State) (nowUs : Int) : Prop :=
  ¬(s.controller = false ∨ s.paused = true ∨ s.firstUnfedSendUs = 0 ∨
    nowUs - s.firstUnfedSendUs ≤ kFeedbackTimeoutUs)

/-- The last packet of an IDR is among those that go out. -/
def EndsIdr (media : List MediaPacket) (sends : List Bool) : Prop :=
  ∃ (i : Nat) (packet : MediaPacket), media[i]? = some packet ∧
    (packet.lastOfAu && packet.idr) = true ∧ sends[i]? = some true

/-- When a step leaves the flag right. A step that ends the last packet of an
IDR, fails to packetize an IDR or times out in one needs that no IDR is queued
behind it. A step that takes an IDR without ending it needs that something of an
IDR is left. A keepalive that takes an IDR needs its last packet to go out. -/
def KeepsFlag (s : State) : Step → Prop
  | .checkFeedbackTimeout nowUs => TimesOut s nowUs → idrInMedia s = true → idrQueued s = false
  | .packetizeNext outcome =>
    ∀ unit rest, s.accessUnitQueue = unit :: rest → unit.isIdr = true →
      match outcome with
      | .batch packets => (∃ packet, some packet ∈ packets) ∨ rest.any AccessUnit.isIdr = true
      | _ => rest.any AccessUnit.isIdr = false
  | .sendMedia _ sent =>
    ∀ media rest, s.mediaPackets = media :: rest → media.idr = true →
      if sent = true ∧ media.lastOfAu = true then
        idrQueued s = false ∧ rest.any MediaPacket.idr = false
      else idrQueued s = true ∨ rest.any MediaPacket.idr = true
  | .keepalive nowUs outcome sends =>
    s.nextKeepaliveUs ≤ nowUs → s.rtx = false →
      ∀ unit packets, s.accessUnitQueue.getLast? = some unit → unit.isIdr = true →
        outcome = .batch packets → EndsIdr (mediaPacketsOf unit packets) sends
  | _ => True

/-- The step without its events. -/
def next (s : State) (move : Step) : Option State := (step s move).map Prod.fst

/-! ## The packets of a unit -/

theorem idr_of_mem_mediaPacketsFrom {unit : AccessUnit} {count index : Nat}
    {packets : List (Option (List Twcc.Byte))} {media : MediaPacket}
    (member : media ∈ mediaPacketsFrom unit count index packets) : media.idr = unit.isIdr := by
  induction packets generalizing index with
  | nil => cases member
  | cons packet rest ih =>
    cases packet with
    | none => exact ih member
    | some packet =>
      rcases List.mem_cons.mp member with rfl | later
      · rfl
      · exact ih later

theorem mediaPacketsFrom_ne_nil {unit : AccessUnit} {count index : Nat}
    {packets : List (Option (List Twcc.Byte))} :
    mediaPacketsFrom unit count index packets ≠ [] ↔ ∃ packet, some packet ∈ packets := by
  induction packets generalizing index with
  | nil => simp [mediaPacketsFrom]
  | cons packet rest ih =>
    cases packet with
    | none => simpa [mediaPacketsFrom] using ih
    | some packet => simp [mediaPacketsFrom]

theorem any_mediaPacketsOf (unit : AccessUnit) (packets : List (Option (List Twcc.Byte))) :
    (mediaPacketsOf unit packets).any MediaPacket.idr = true ↔
      unit.isIdr = true ∧ ∃ packet, some packet ∈ packets := by
  rw [List.any_eq_true, ← @mediaPacketsFrom_ne_nil unit packets.length 0]
  constructor
  · rintro ⟨media, member, idr⟩
    rw [idr_of_mem_mediaPacketsFrom member] at idr
    exact ⟨idr, List.ne_nil_of_mem member⟩
  · rintro ⟨idr, nonempty⟩
    obtain ⟨media, member⟩ := List.exists_mem_of_ne_nil _ nonempty
    exact ⟨media, member, by rw [idr_of_mem_mediaPacketsFrom member, idr]⟩

theorem endsIdr_cons (first : MediaPacket) (rest : List MediaPacket) (sends : List Bool) :
    EndsIdr (first :: rest) sends ↔
      ((first.lastOfAu && first.idr) = true ∧ sends.headD false = true) ∨ EndsIdr rest sends.tail := by
  have head : sends.headD false = true ↔ sends[0]? = some true := by
    cases sends <;> simp
  rw [head]
  constructor
  · rintro ⟨_ | i, packet, found, last, sent⟩
    · obtain rfl : first = packet := by simpa using found
      exact .inl ⟨last, sent⟩
    · exact .inr ⟨i, packet, found, last, by rw [List.getElem?_tail, sent]⟩
  · rintro (⟨last, sent⟩ | ⟨i, packet, found, last, sent⟩)
    · exact ⟨0, first, rfl, last, sent⟩
    · exact ⟨i + 1, packet, found, last, by rw [← List.getElem?_tail, sent]⟩

/-- The keepalive's loop clears the flag exactly when it sends the last packet of an IDR. -/
theorem sendAll_idrInSender (nowUs : Int) (media : List MediaPacket) (sends : List Bool) (s : State) :
    (sendAll nowUs media sends s).idrInSender = false ↔
      s.idrInSender = false ∨ EndsIdr media sends := by
  induction media generalizing sends s with
  | nil => simp [sendAll, EndsIdr]
  | cons first rest ih =>
    rw [sendAll, ih, endsIdr_cons]
    cases sent : sends.headD false <;> cases last : (first.lastOfAu && first.idr) <;>
      simp [transmit, accountMediaSent, last]

/-! ## One step -/

variable {s t : State}

theorem any_filter_isIdr (queue : List AccessUnit) :
    (queue.filter AccessUnit.isIdr).any AccessUnit.isIdr = queue.any AccessUnit.isIdr := by
  rw [List.any_filter]
  simp

theorem accurate_sendAccessUnit (accurate : Accurate s) (annexB : List Twcc.Byte)
    (captureTimestampUs : Nat) (nowUs : Int) (trackIsOpen : Bool) :
    Accurate (s.sendAccessUnit annexB captureTimestampUs nowUs trackIsOpen).1 := by
  have cases := sendAccessUnit_cases s annexB captureTimestampUs nowUs trackIsOpen
  dsimp only at cases
  rcases cases with failed | ⟨delta, shut, refused⟩ | ⟨fits, refused⟩ | ⟨delta, gate, -, -, accepted⟩ |
    ⟨idr, -, accepted⟩
  · rw [failed]
    exact accurate
  · rw [refused]
    exact accurate
  · rw [refused, overflow_spec]
    change s.idrInSender = ((s.accessUnitQueue.filter AccessUnit.isIdr).any AccessUnit.isIdr || idrInMedia s)
    rw [any_filter_isIdr]
    exact accurate
  · rw [accepted]
    change s.idrInSender = ((s.accessUnitQueue ++ [_]).any AccessUnit.isIdr || idrInMedia s)
    rw [List.any_append, List.any_cons, List.any_nil, delta, Bool.or_false, Bool.or_false]
    exact accurate
  · rw [accepted]
    obtain ⟨queue, -, pushed, -, -, -, -, flag, -⟩ := pushIdr_spec s.countOffered
      (s.unitOf annexB (AnnexB.inspectAnnexBAccessUnit annexB).isIdr captureTimestampUs nowUs)
    have queued : idrQueued ((s.countOffered.pushIdr
        (s.unitOf annexB (AnnexB.inspectAnnexBAccessUnit annexB).isIdr captureTimestampUs nowUs)).stampCapture
          captureTimestampUs) = true := by
      rw [idrQueued, stampCapture, pushed, List.any_append, List.any_cons, idr]
      simp
    rw [Accurate, queued, Bool.true_or]
    exact flag

theorem accurate_checkFeedbackTimeout (accurate : Accurate s) (paced : Paced s) (nowUs : Int) :
    Accurate (s.checkFeedbackTimeout nowUs) ↔ KeepsFlag s (.checkFeedbackTimeout nowUs) := by
  rw [checkFeedbackTimeout]
  split_ifs with still
  · exact iff_of_true accurate fun out => absurd still out
  · have front : (s.mediaPackets.head?.map MediaPacket.idr).getD false = idrInMedia s := by
      rw [idrInMedia]
      cases media : s.mediaPackets with
      | nil => rfl
      | cons first rest =>
        have same : ∀ packet ∈ first :: rest, packet.idr = first.idr := fun packet member =>
          paced.oneUnit packet (media ▸ member) first (by rw [media]; exact List.mem_cons_self)
        cases idr : first.idr with
        | true => simp [idr]
        | false =>
          rw [idr] at same
          simpa [idr] using fun packet member => same packet (List.mem_cons_of_mem _ member)
    rw [KeepsFlag, imp_iff_right (show TimesOut s nowUs from still)]
    change (if (s.mediaPackets.head?.map MediaPacket.idr).getD false = true then false else s.idrInSender) =
      (idrQueued s || false) ↔ _
    rw [front]
    rw [Accurate] at accurate
    rw [accurate]
    cases idrInMedia s <;> cases idrQueued s <;> simp

theorem accurate_packetizeNext (accurate : Accurate s) (empty : s.mediaPackets = []) (outcome : Packetizing) :
    Accurate (s.packetizeNext outcome false).1 ↔ KeepsFlag s (.packetizeNext outcome) := by
  cases queue : s.accessUnitQueue with
  | nil =>
    rw [packetizeNext, queue]
    exact iff_of_true accurate fun unit rest same => by rw [queue] at same; cases same
  | cons unit rest =>
    have flag : s.idrInSender = (unit.isIdr || rest.any AccessUnit.isIdr) := by
      rw [accurate, idrQueued, idrInMedia, queue, empty]
      simp
    have only : KeepsFlag s (.packetizeNext outcome) ↔ (unit.isIdr = true →
        match outcome with
        | .batch packets => (∃ packet, some packet ∈ packets) ∨ rest.any AccessUnit.isIdr = true
        | _ => rest.any AccessUnit.isIdr = false) := by
      constructor
      · exact fun keeps => keeps unit rest queue
      · intro keeps other left same
        rw [queue] at same
        obtain ⟨rfl, rfl⟩ := List.cons.inj same
        exact keeps
    have failed : (if unit.isIdr = true then false else s.idrInSender) =
          (rest.any AccessUnit.isIdr || idrInMedia s) ↔
        (unit.isIdr = true → rest.any AccessUnit.isIdr = false) := by
      rw [flag, idrInMedia, empty]
      cases unit.isIdr <;> cases rest.any AccessUnit.isIdr <;> simp
    rw [only, packetizeNext, queue]
    cases outcome with
    | batch packets =>
      change s.idrInSender = (rest.any AccessUnit.isIdr ||
        (s.mediaPackets ++ mediaPacketsOf unit packets).any MediaPacket.idr) ↔ _
      rw [empty, List.nil_append, flag, Bool.eq_iff_iff, Bool.or_eq_true, Bool.or_eq_true, any_mediaPacketsOf]
      tauto
    | trackClosed => exact failed
    | sendFrameThrows => exact failed
    | noBatch => exact failed

theorem accurate_sendMedia (accurate : Accurate s) (nowUs : Int) (sent : Bool) :
    Accurate (s.sendMedia nowUs sent) ↔ KeepsFlag s (.sendMedia nowUs sent) := by
  cases media : s.mediaPackets with
  | nil =>
    rw [sendMedia, media]
    exact iff_of_true accurate fun first rest same => by rw [media] at same; cases same
  | cons first rest =>
    have flag : s.idrInSender = (idrQueued s || (first.idr || rest.any MediaPacket.idr)) := by
      rw [accurate, idrInMedia, media, List.any_cons]
    have only : KeepsFlag s (.sendMedia nowUs sent) ↔ (first.idr = true →
        if sent = true ∧ first.lastOfAu = true then
          idrQueued s = false ∧ rest.any MediaPacket.idr = false
        else idrQueued s = true ∨ rest.any MediaPacket.idr = true) := by
      constructor
      · exact fun keeps => keeps first rest media
      · intro keeps other left same
        rw [media] at same
        obtain ⟨rfl, rfl⟩ := List.cons.inj same
        exact keeps
    have after : Accurate (s.sendMedia nowUs sent) ↔
        (if sent = true ∧ first.lastOfAu = true ∧ first.idr = true then false else s.idrInSender) =
          (idrQueued s || rest.any MediaPacket.idr) := by
      rw [sendMedia, media]
      cases sent with
      | false => rfl
      | true =>
        change (if (first.lastOfAu && first.idr) = true then false else s.idrInSender) =
          (idrQueued s || rest.any MediaPacket.idr) ↔ _
        cases first.lastOfAu <;> cases first.idr <;> rfl
    rw [only, after, flag]
    cases sent <;> cases first.lastOfAu <;> cases first.idr <;> cases idrQueued s <;>
      cases rest.any MediaPacket.idr <;> simp

theorem accurate_dropQueuedAccessUnits (empty : s.mediaPackets = []) (keepNewest : Bool) :
    Accurate (s.dropQueuedAccessUnits keepNewest) := by
  have nothing : idrInMedia (s.dropQueuedAccessUnits keepNewest) = false := by
    change s.mediaPackets.any _ = false
    rw [empty]
    rfl
  rw [Accurate, nothing, Bool.or_false]
  cases keepNewest with
  | false =>
    rw [idrQueued, dropQueuedAccessUnits_false]
    rfl
  | true =>
    change (true && (s.accessUnitQueue.getLast?.map AccessUnit.isIdr).getD false) =
      (s.accessUnitQueue.drop (s.accessUnitQueue.length - 1)).any AccessUnit.isIdr
    cases queue : s.accessUnitQueue using List.reverseRecOn with
    | nil => rfl
    | append_singleton front last => simp

theorem accurate_drainReport (accurate : Accurate s) : Accurate s.drainReport.1 := by
  rw [drainReport]
  split_ifs
  · obtain ⟨queue, -, -, -, flag, media, -⟩ := resumeAfterOutage_spec { s with firstUnfedSendUs := 0 }
    rw [Accurate, idrQueued, idrInMedia, queue, media, flag]
    rfl
  · exact accurate

/-- The queue of a keepalive before it sends: the newest unit alone. -/
theorem dropQueuedAccessUnits_true (s : State) :
    (s.dropQueuedAccessUnits true).accessUnitQueue = s.accessUnitQueue.getLast?.toList := by
  change s.accessUnitQueue.drop (s.accessUnitQueue.length - 1) = _
  cases queue : s.accessUnitQueue using List.reverseRecOn with
  | nil => rfl
  | append_singleton front last => simp

/-- The state in which a keepalive that is due takes the newest unit. -/
def keepaliveReady (s : State) (nowUs : Int) : State :=
  { s.dropQueuedAccessUnits true with nextKeepaliveUs := nowUs + kKeepaliveIntervalUs }.dropMediaPackets

theorem keepaliveReady_spec (empty : s.mediaPackets = []) (nowUs : Int) :
    (keepaliveReady s nowUs).accessUnitQueue = s.accessUnitQueue.getLast?.toList ∧
      (keepaliveReady s nowUs).mediaPackets = [] ∧ Accurate (keepaliveReady s nowUs) := by
  refine ⟨dropQueuedAccessUnits_true s, rfl, ?_⟩
  have dropped := accurate_dropQueuedAccessUnits empty true
  have media : (s.dropQueuedAccessUnits true).mediaPackets = [] := empty
  rw [Accurate, idrQueued, idrInMedia] at dropped
  change (if ((s.dropQueuedAccessUnits true).mediaPackets.head?.map MediaPacket.idr).getD false = true
    then false else (s.dropQueuedAccessUnits true).idrInSender) =
      ((s.dropQueuedAccessUnits true).accessUnitQueue.any AccessUnit.isIdr || false)
  rw [media] at dropped ⊢
  exact dropped

theorem keepalive_eq (s : State) (nowUs : Int) (outcome : Packetizing) (sends : List Bool)
    (due : s.nextKeepaliveUs ≤ nowUs) (rtx : s.rtx = false) :
    (s.keepalive nowUs outcome sends).1 =
      if (keepaliveReady s nowUs).accessUnitQueue = [] then keepaliveReady s nowUs
      else
        let taken := ((keepaliveReady s nowUs).packetizeNext outcome true).1
        { sendAll nowUs taken.mediaPackets sends taken with mediaQueueBytes := 0 } := by
  have early : ¬nowUs < (s.dropQueuedAccessUnits true).nextKeepaliveUs := not_lt.mpr due
  have off : ¬(s.dropQueuedAccessUnits true).rtx = true := by
    change ¬s.rtx = true
    simp [rtx]
  rw [State.keepalive]
  dsimp only
  rw [if_neg early, if_neg off]
  simp only [List.isEmpty_iff]
  split_ifs with idle again again
  · rfl
  · exact absurd idle again
  · exact absurd again idle
  · rfl

/-- A keepalive that takes a unit leaves nothing behind, so the flag has to be off after it. -/
theorem accurate_keepalive_taken {nowUs : Int} {outcome : Packetizing} {sends : List Bool}
    {ready : State} {unit : AccessUnit} (newest : s.accessUnitQueue.getLast? = some unit)
    (queue : ready.accessUnitQueue = [unit]) (media : ready.mediaPackets = []) (accurate : Accurate ready)
    (due : s.nextKeepaliveUs ≤ nowUs) (rtx : s.rtx = false) {taken : State}
    (took : (ready.packetizeNext outcome true).1 = taken) :
    Accurate { sendAll nowUs taken.mediaPackets sends taken with mediaQueueBytes := 0 } ↔
      KeepsFlag s (.keepalive nowUs outcome sends) := by
  obtain ⟨after, -, -, -, -, gone⟩ := sendAll_fields nowUs taken.mediaPackets sends taken
  have left : taken.accessUnitQueue = [] := by
    rw [← took, (packetizeNext_fields ready outcome true).1, queue]
    rfl
  have flag : ready.idrInSender = unit.isIdr := by
    rw [accurate, idrQueued, idrInMedia, queue, media]
    simp
  have off : Accurate { sendAll nowUs taken.mediaPackets sends taken with mediaQueueBytes := 0 } ↔
      taken.idrInSender = false ∨ EndsIdr taken.mediaPackets sends := by
    rw [← sendAll_idrInSender nowUs, Accurate, idrQueued, idrInMedia]
    dsimp only
    rw [after, left, gone]
    rfl
  rw [off]
  have only : KeepsFlag s (.keepalive nowUs outcome sends) ↔
      ∀ packets, unit.isIdr = true → outcome = .batch packets → EndsIdr (mediaPacketsOf unit packets) sends := by
    constructor
    · exact fun keeps packets idr same => keeps due rtx unit packets newest idr same
    · intro keeps _ _ other packets last idr same
      obtain rfl : unit = other := Option.some.inj (newest.symm.trans last)
      exact keeps packets idr same
  rw [only]
  have failed : (if unit.isIdr = true then false else ready.idrInSender) = false := by
    rw [flag]
    cases unit.isIdr <;> rfl
  cases outcome with
  | batch packets =>
    have shape : taken.idrInSender = unit.isIdr ∧ taken.mediaPackets = mediaPacketsOf unit packets := by
      simp only [← took, packetizeNext, queue, media, List.nil_append, flag, and_self]
    rw [shape.1, shape.2]
    constructor
    · rintro kept other idr same
      obtain rfl := Packetizing.batch.inj same
      exact kept.resolve_left (by simp [idr])
    · intro keeps
      cases idr : unit.isIdr with
      | false => exact .inl rfl
      | true => exact .inr (keeps packets idr rfl)
  | trackClosed =>
    refine iff_of_true (.inl ?_) fun _ _ same => by cases same
    simpa only [← took, packetizeNext, queue] using failed
  | sendFrameThrows =>
    refine iff_of_true (.inl ?_) fun _ _ same => by cases same
    simpa only [← took, packetizeNext, queue] using failed
  | noBatch =>
    refine iff_of_true (.inl ?_) fun _ _ same => by cases same
    simpa only [← took, packetizeNext, queue] using failed

theorem accurate_keepalive (empty : s.mediaPackets = []) (nowUs : Int) (outcome : Packetizing)
    (sends : List Bool) :
    Accurate (s.keepalive nowUs outcome sends).1 ↔ KeepsFlag s (.keepalive nowUs outcome sends) := by
  have dropped := accurate_dropQueuedAccessUnits empty true
  by_cases due : s.nextKeepaliveUs ≤ nowUs
  · cases rtx : s.rtx with
    | true =>
      have early : ¬nowUs < (s.dropQueuedAccessUnits true).nextKeepaliveUs := not_lt.mpr due
      have on : (s.dropQueuedAccessUnits true).rtx = true := rtx
      rw [State.keepalive]
      dsimp only
      rw [if_neg early, if_pos on]
      exact iff_of_true dropped fun _ off => by rw [rtx] at off; cases off
    | false =>
      obtain ⟨queue, media, accurate⟩ := keepaliveReady_spec empty nowUs
      rw [keepalive_eq s nowUs outcome sends due rtx]
      cases newest : s.accessUnitQueue.getLast? with
      | none =>
        rw [newest] at queue
        rw [if_pos (by rw [queue]; rfl)]
        exact iff_of_true accurate fun _ _ unit _ last => by rw [newest] at last; cases last
      | some unit =>
        rw [newest, Option.toList_some] at queue
        rw [if_neg (by rw [queue]; exact List.cons_ne_nil _ _)]
        exact accurate_keepalive_taken newest queue media accurate due rtx rfl
  · have early : nowUs < (s.dropQueuedAccessUnits true).nextKeepaliveUs := not_le.mp due
    rw [State.keepalive]
    dsimp only
    rw [if_pos early]
    exact iff_of_true dropped fun again => absurd again due

/-! ## Runs -/

theorem accurate_next {move : Step} (accurate : Accurate s) (paced : Paced s) (moved : next s move = some t) :
    Accurate t ↔ KeepsFlag s move := by
  obtain ⟨⟨after, events⟩, stepped, rfl⟩ := Option.map_eq_some_iff.mp moved
  cases move with
  | sendAccessUnit annexB captureTimestampUs nowUs trackIsOpen =>
    obtain ⟨rfl, rfl⟩ := Prod.mk.inj (Option.some.inj stepped)
    exact iff_of_true (accurate_sendAccessUnit accurate annexB captureTimestampUs nowUs trackIsOpen) trivial
  | checkFeedbackTimeout nowUs =>
    obtain ⟨rfl, rfl⟩ := Prod.mk.inj (Option.some.inj stepped)
    exact accurate_checkFeedbackTimeout accurate paced nowUs
  | drainReport =>
    have drained := accurate_drainReport accurate
    rw [show s.drainReport = (after, events) from Option.some.inj stepped] at drained
    exact iff_of_true drained trivial
  | packetizeNext outcome =>
    rw [step] at stepped
    split_ifs at stepped with ready
    have exact_step := accurate_packetizeNext accurate ready.2 outcome
    rwa [Option.some.inj stepped] at exact_step
  | sendMedia nowUs sent =>
    rw [step] at stepped
    split_ifs at stepped
    obtain ⟨rfl, rfl⟩ := Prod.mk.inj (Option.some.inj stepped)
    exact accurate_sendMedia accurate nowUs sent
  | sendOther nowUs sent =>
    rw [step] at stepped
    split_ifs at stepped
    obtain ⟨rfl, rfl⟩ := Prod.mk.inj (Option.some.inj stepped)
    exact iff_of_true accurate trivial
  | keepalive nowUs outcome sends =>
    rw [step] at stepped
    split_ifs at stepped with paused
    have exact_step := accurate_keepalive (paced.pausedEmpty paused) nowUs outcome sends
    rwa [Option.some.inj stepped] at exact_step

theorem paced_of_empty (media : t.mediaPackets = []) : Paced t where
  oneUnit := fun first member => by rw [media] at member; cases member
  pausedEmpty := fun _ => media

theorem sendAccessUnit_media (s : State) (annexB : List Twcc.Byte) (captureTimestampUs : Nat)
    (nowUs : Int) (trackIsOpen : Bool) :
    let answer := s.sendAccessUnit annexB captureTimestampUs nowUs trackIsOpen
    answer.1.mediaPackets = s.mediaPackets ∧ answer.1.paused = s.paused := by
  intro answer
  have cases := sendAccessUnit_cases s annexB captureTimestampUs nowUs trackIsOpen
  dsimp only at cases
  rcases cases with failed | ⟨-, -, refused⟩ | ⟨-, refused⟩ | ⟨-, -, -, -, accepted⟩ | ⟨-, -, accepted⟩
  · rw [show answer = _ from failed]
    exact ⟨rfl, rfl⟩
  · rw [show answer = _ from refused]
    exact ⟨rfl, rfl⟩
  · rw [show answer = _ from refused, overflow_spec]
    exact ⟨rfl, rfl⟩
  · rw [show answer = _ from accepted]
    exact ⟨rfl, rfl⟩
  · rw [show answer = _ from accepted]
    obtain ⟨-, -, -, -, paused, -, -, -, media⟩ := pushIdr_spec s.countOffered
      (s.unitOf annexB (AnnexB.inspectAnnexBAccessUnit annexB).isIdr captureTimestampUs nowUs)
    exact ⟨media, paused⟩

theorem paced_of_same (paced : Paced s) (media : t.mediaPackets = s.mediaPackets)
    (paused : t.paused = s.paused) : Paced t where
  oneUnit := by rw [media]; exact paced.oneUnit
  pausedEmpty := by rw [media, paused]; exact paced.pausedEmpty

theorem keepalive_media (empty : s.mediaPackets = []) (nowUs : Int) (outcome : Packetizing)
    (sends : List Bool) : (s.keepalive nowUs outcome sends).1.mediaPackets = [] := by
  rw [State.keepalive]
  dsimp only
  split_ifs
  · exact empty
  · exact empty
  · rfl
  · exact (sendAll_fields ..).2.2.2.2.2

theorem paced_next {move : Step} (paced : Paced s) (moved : next s move = some t) : Paced t := by
  obtain ⟨⟨after, events⟩, stepped, rfl⟩ := Option.map_eq_some_iff.mp moved
  cases move with
  | sendAccessUnit annexB captureTimestampUs nowUs trackIsOpen =>
    obtain ⟨rfl, rfl⟩ := Prod.mk.inj (Option.some.inj stepped)
    obtain ⟨media, paused⟩ := sendAccessUnit_media s annexB captureTimestampUs nowUs trackIsOpen
    exact paced_of_same paced media paused
  | checkFeedbackTimeout nowUs =>
    obtain ⟨rfl, rfl⟩ := Prod.mk.inj (Option.some.inj stepped)
    rw [checkFeedbackTimeout]
    split_ifs
    · exact paced
    · exact paced_of_empty rfl
  | drainReport =>
    have drained : s.drainReport = (after, events) := Option.some.inj stepped
    rw [drainReport] at drained
    split_ifs at drained
    · have media := (resumeAfterOutage_spec { s with firstUnfedSendUs := 0 }).2.2.2.2.2.1
      rw [drained] at media
      exact paced_of_empty media
    · obtain ⟨rfl, rfl⟩ := Prod.mk.inj drained
      exact paced_of_same paced rfl rfl
  | packetizeNext outcome =>
    rw [step] at stepped
    split_ifs at stepped with ready
    have taken := Option.some.inj stepped
    rw [packetizeNext] at taken
    split at taken
    · obtain ⟨rfl, rfl⟩ := Prod.mk.inj taken
      exact paced
    · rename_i unit rest queue
      split at taken
      · rename_i packets
        obtain ⟨rfl, rfl⟩ := Prod.mk.inj taken
        refine ⟨?_, fun paused => by rw [show s.paused = true from paused] at ready; cases ready.1⟩
        dsimp only
        rw [ready.2, List.nil_append]
        intro first inFirst second inSecond
        rw [idr_of_mem_mediaPacketsFrom inFirst, idr_of_mem_mediaPacketsFrom inSecond]
      · obtain ⟨rfl, rfl⟩ := Prod.mk.inj taken
        exact paced_of_empty ready.2
  | sendMedia nowUs sent =>
    rw [step] at stepped
    split_ifs at stepped with paused
    obtain ⟨rfl, rfl⟩ := Prod.mk.inj (Option.some.inj stepped)
    have running : (s.sendMedia nowUs sent).paused = s.paused ∧
        (s.sendMedia nowUs sent).mediaPackets ⊆ s.mediaPackets := by
      rw [sendMedia]
      split
      · exact ⟨rfl, fun _ member => member⟩
      · rename_i first rest media
        rw [media]
        split_ifs <;> exact ⟨rfl, fun _ member => List.mem_cons_of_mem _ member⟩
    exact ⟨fun first inFirst second inSecond =>
        paced.oneUnit first (running.2 inFirst) second (running.2 inSecond),
      fun still => absurd (running.1.symm.trans still) paused⟩
  | sendOther nowUs sent =>
    rw [step] at stepped
    split_ifs at stepped
    obtain ⟨rfl, rfl⟩ := Prod.mk.inj (Option.some.inj stepped)
    exact paced_of_same paced rfl rfl
  | keepalive nowUs outcome sends =>
    rw [step] at stepped
    split_ifs at stepped with paused
    have media := keepalive_media (paced.pausedEmpty paused) nowUs outcome sends
    rw [Option.some.inj stepped] at media
    exact paced_of_empty media

/-- Over a run the flag is right in every state exactly when every step keeps it. -/
theorem accurate_always_iff (controller rtx : Bool) (rtpStartTimestamp : BitVec 32) (steps : List Step) :
    Runs.Always next Accurate (start controller rtx rtpStartTimestamp) steps ↔
      Runs.EachStep next KeepsFlag (start controller rtx rtpStartTimestamp) steps := by
  apply Runs.always_iff_eachStep Paced
  · exact fun _ _ _ paced moved => paced_next paced moved
  · exact fun _ _ _ paced accurate moved => accurate_next accurate paced moved
  · exact paced_of_empty rfl
  · rfl

/-- Two IDRs queued, and the first one sent. -/
def secondIdrQueued : List Step :=
  [.sendAccessUnit [0, 0, 1, 0x65] 0 1000 true, .sendAccessUnit [0, 0, 1, 0x65] 16000 17000 true,
    .packetizeNext (.batch [some [0x80, 96, 0, 1]]), .sendMedia 17100 true]

/-- The flag is off while the second IDR waits in the queue. -/
theorem accurate_fails_after_first_idr :
    ∃ s, Runs.run next (start true false 0) secondIdrQueued = some s ∧
      s.idrInSender = false ∧ idrQueued s = true ∧ ¬Accurate s := by
  have facts : (Runs.run next (start true false 0) secondIdrQueued).map
      (fun s => (s.idrInSender, idrQueued s)) = some (false, true) := by decide +kernel
  obtain ⟨s, ran, same⟩ := Option.map_eq_some_iff.mp facts
  obtain ⟨off, queued⟩ := Prod.mk.inj same
  refine ⟨s, ran, off, queued, fun accurate => ?_⟩
  rw [Accurate, off, queued] at accurate
  cases accurate

end Mello.Transport.SenderIdrFlag
