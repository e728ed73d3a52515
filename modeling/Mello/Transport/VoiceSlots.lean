import Mello.Library.BigEndian
import Mello.Library.Keyed
import Mello.Library.Runs

/-!
The receive slots of a voice call: the sender of each packet by the mid it comes on,
and the packets that wait for one. Each call runs under the lock of the map.
-/

namespace Mello.Transport.VoiceSlots
open Mello.Library BigEndian Keyed Runs

def kHoldMs : Int := 200
def kMaxHeldPackets : Nat := 32
def kLateWindowSamples : Int := 48000

/-- A packet on a mid with no owner. The number of its call names it; the code has none. -/
structure Held where
  call : Nat
  bytes : List Byte
  arrivedMs : Int
  deriving DecidableEq, Repr

/-- The empty sender is none. -/
structure Slot (Member : Type) where
  sender : Option Member := none
  held : List Held := []
  lastTs : BitVec 32 := 0
  hasLastTs : Bool := false
  released : Bool := false
  deriving DecidableEq, Repr

/-- The counters are the map's own and those given to it; `dropped` is the one in use. -/
structure VoiceSlotMap (Mid Member Counter : Type) where
  slots : Table Mid (Slot Member) := ∅
  counters : Option Counter → Nat
  dropped : Option Counter := none
  calls : Nat := 0

def rtpTimestamp (rtp : List Byte) : BitVec 32 := BitVec.ofNat 32 (number ((rtp.drop 4).take 4))

/-- A packet shorter than its header has no timestamp. -/
def timestamp (rtp : List Byte) : Option (BitVec 32) := if 12 ≤ rtp.length then some (rtpTimestamp rtp) else none

def isWithinWindow (ts lastTs : BitVec 32) : Prop :=
  -kLateWindowSamples < (ts - lastTs).toInt ∧ (ts - lastTs).toInt < kLateWindowSamples

instance (ts lastTs : BitVec 32) : Decidable (isWithinWindow ts lastTs) := inferInstanceAs (Decidable (_ ∧ _))

variable {Mid Member Counter : Type}

namespace VoiceSlotMap

variable (map : VoiceSlotMap Mid Member Counter) (mid : Mid)

/-- `held`: the packets held now, on all mids. -/
def heldNow : Nat := total (fun slot => slot.held.length) map.slots

def droppedNow : Nat := map.counters map.dropped

variable [DecidableEq Mid]

/-- A mid that is not there has an empty slot. -/
def slotAt : Slot Member := (map.slots.lookup mid).getD {}

def setSlot (slot : Slot Member) : VoiceSlotMap Mid Member Counter := { map with slots := map.slots.insert mid slot }

def countDropLocked [DecidableEq Counter] (n : Nat) : VoiceSlotMap Mid Member Counter :=
  { map with counters := Function.update map.counters map.dropped (map.counters map.dropped + n) }

end VoiceSlotMap

open VoiceSlotMap

def expired (nowMs : Int) (h : Held) : Bool := nowMs - h.arrivedMs > kHoldMs

/-- The slot without the packets at its front that are too old, and their count. -/
def expireLocked (slot : Slot Member) (nowMs : Int) : Slot Member × Nat :=
  ({ slot with held := slot.held.dropWhile (expired nowMs) }, (slot.held.takeWhile (expired nowMs)).length)

section Calls

variable [DecidableEq Mid] [DecidableEq Counter]

/-- The packets that were held for a new owner, and the map after the call. -/
def bind (map : VoiceSlotMap Mid Member Counter) (mid : Mid) (sender : Option Member) (nowMs : Int) :
    List Held × VoiceSlotMap Mid Member Counter :=
  let slot := map.slotAt mid
  match sender with
  | none => ([], map.setSlot mid { slot with sender := none, released := slot.sender.isSome || slot.released })
  | some member =>
    let (slot, drops) := expireLocked { slot with sender := some member, released := false, hasLastTs := false } nowMs
    (slot.held, (map.setSlot mid { slot with held := [] }).countDropLocked drops)

/-- The sender of a packet, and the map after the call. -/
def route (map : VoiceSlotMap Mid Member Counter) (mid : Mid) (rtp : List Byte) (nowMs : Int) :
    Option Member × VoiceSlotMap Mid Member Counter :=
  let slot := map.slotAt mid
  match slot.sender, timestamp rtp with
  | some member, some ts => (some member, map.setSlot mid { slot with lastTs := ts, hasLastTs := true })
  | some member, none => (some member, map.setSlot mid slot)
  | none, ts =>
    let (slot, drops) := expireLocked slot nowMs
    let map := map.countDropLocked drops
    match ts with
    | none => (none, (map.setSlot mid slot).countDropLocked 1)
    | some ts =>
      if slot.released ∧ slot.hasLastTs ∧ isWithinWindow ts slot.lastTs then (none, (map.setSlot mid slot).countDropLocked 1)
      else if kMaxHeldPackets ≤ slot.held.length then
        (none, (map.setSlot mid { slot with held := slot.held.tail ++ [⟨map.calls, rtp, nowMs⟩] }).countDropLocked 1)
      else (none, map.setSlot mid { slot with held := slot.held ++ [⟨map.calls, rtp, nowMs⟩] })

inductive Call (Mid Member Counter : Type) where
  | bind (mid : Mid) (sender : Option Member) (nowMs : Int)
  | set (mid : Mid) (sender : Option Member) (nowMs : Int)
  | route (mid : Mid) (rtp : List Byte) (nowMs : Int)
  | clear
  | setDropCounter (counter : Option Counter)
  deriving DecidableEq, Repr

/-- What a call did: a bind and what it returned, a packet and the owner that got it, or
a counter and what it had counted before it was given. -/
inductive Event (Mid Member : Type) where
  | bound (mid : Mid) (sender : Option Member) (nowMs : Int) (held : List Held)
  | routed (mid : Mid) (packet : Held) (owner : Option Member)
  | given (counted : Nat)
  deriving DecidableEq, Repr

def perform (map : VoiceSlotMap Mid Member Counter) :
    Call Mid Member Counter → VoiceSlotMap Mid Member Counter × List (Event Mid Member)
  | .bind mid sender nowMs =>
    let (held, after) := bind map mid sender nowMs
    (after, [.bound mid sender nowMs held])
  | .set mid sender nowMs =>
    let (held, after) := bind map mid sender nowMs
    (after.countDropLocked held.length, [.bound mid sender nowMs []])
  | .route mid rtp nowMs =>
    let (owner, after) := route map mid rtp nowMs
    (after, [.routed mid ⟨map.calls, rtp, nowMs⟩ owner])
  | .clear => ({ map.countDropLocked map.heldNow with slots := ∅ }, [])
  | .setDropCounter none => (map, [])
  | .setDropCounter (some counter) =>
    ({ map with
        counters := Function.update map.counters (some counter) (map.counters (some counter) + map.droppedNow)
        dropped := some counter },
      [.given (map.counters (some counter))])

def step (map : VoiceSlotMap Mid Member Counter) (call : Call Mid Member Counter) :
    Option (VoiceSlotMap Mid Member Counter × List (Event Mid Member)) :=
  let (after, events) := perform map call
  some ({ after with calls := map.calls + 1 }, events)

end Calls

/-- The map at its construction, beside counters that others made. -/
def start (values : Counter → Nat) : VoiceSlotMap Mid Member Counter := { counters := fun counter => counter.elim 0 values }

/-! ## The books -/

section Books

section Mids

variable [DecidableEq Mid]

/-- The packets that came on a mid with no owner, in order. -/
def arrivedOn (mid : Mid) (events : List (Event Mid Member)) : List Held :=
  events.filterMap fun
    | .routed m packet none => if m = mid then some packet else none
    | _ => none

/-- The packets that binds of a mid handed out, in order. -/
def handedOn (mid : Mid) (events : List (Event Mid Member)) : List Held :=
  events.flatMap fun
    | .bound m _ _ held => if m = mid then held else []
    | _ => []

end Mids

variable (events : List (Event Mid Member))

/-- How many packets came while their mid had no owner. -/
def unowned : Nat :=
  (events.map fun
    | .routed _ _ none => 1
    | _ => 0).sum

def handed : Nat :=
  (events.map fun
    | .bound _ _ _ held => held.length
    | _ => 0).sum

/-- What the given counters had counted before. -/
def given : Nat :=
  (events.map fun
    | .given counted => counted
    | _ => 0).sum

end Books

/-- The time that a call brings. -/
def Call.nowMs : Call Mid Member Counter → Option Int
  | .bind _ _ nowMs | .set _ _ nowMs | .route _ _ nowMs => some nowMs
  | .clear | .setDropCounter _ => none

/-- The times of the calls do not go back. -/
def Ordered (calls : List (Call Mid Member Counter)) : Prop := (calls.filterMap Call.nowMs).Pairwise (· ≤ ·)

/-- No packet is lost, doubled, handed out too late or on another mid. The drops are
those since the construction, carried from counter to counter. -/
structure Conserved [DecidableEq Mid] (map : VoiceSlotMap Mid Member Counter) (log : List (Event Mid Member)) : Prop where
  counts : given log ≤ map.droppedNow
  balance : unowned log = handed log + map.heldNow + (map.droppedNow - given log)
  order : ∀ mid, (handedOn mid log ++ (map.slotAt mid).held).Sublist (arrivedOn mid log)
  apart : ∀ mid, (arrivedOn mid log).Pairwise fun p q => p.call < q.call
  young : ∀ mid sender nowMs held, .bound mid sender nowMs held ∈ log → ∀ h ∈ held, nowMs - h.arrivedMs ≤ kHoldMs
  few : ∀ mid, (map.slotAt mid).held.length ≤ kMaxHeldPackets

/-! ## One call -/

section Call

variable [DecidableEq Mid] (map : VoiceSlotMap Mid Member Counter) {mid other : Mid} {slot : Slot Member} {n : Nat}

@[simp] theorem slotAt_setSlot : (map.setSlot mid slot).slotAt mid = slot := by
  unfold slotAt setSlot
  rw [AList.lookup_insert]
  rfl

theorem slotAt_setSlot_ne (apart : other ≠ mid) : (map.setSlot mid slot).slotAt other = map.slotAt other := by
  unfold slotAt setSlot
  rw [AList.lookup_insert_ne apart]

@[simp] theorem droppedNow_setSlot : (map.setSlot mid slot).droppedNow = map.droppedNow := rfl

theorem heldNow_setSlot :
    (map.setSlot mid slot).heldNow + (map.slotAt mid).held.length = map.heldNow + slot.held.length := by
  have moved : (map.setSlot mid slot).heldNow + _ = map.heldNow + slot.held.length :=
    total_insert (fun slot : Slot Member => slot.held.length) map.slots mid slot
  rw [← moved]
  unfold slotAt
  cases map.slots.lookup mid <;> rfl

variable [DecidableEq Counter]

@[simp] theorem slotAt_countDropLocked : (map.countDropLocked n).slotAt mid = map.slotAt mid := rfl

omit [DecidableEq Mid] in
@[simp] theorem heldNow_countDropLocked : (map.countDropLocked n).heldNow = map.heldNow := rfl

omit [DecidableEq Mid] in
@[simp] theorem droppedNow_countDropLocked : (map.countDropLocked n).droppedNow = map.droppedNow + n := by
  unfold droppedNow countDropLocked
  exact Function.update_self _ _ _

/-- A packet that is not held: it has no timestamp, or it continues those of the owner
that was released. -/
def Refused (slot : Slot Member) (rtp : List Byte) : Prop :=
  ∀ ts, timestamp rtp = some ts → slot.released ∧ slot.hasLastTs ∧ isWithinWindow ts slot.lastTs

/-- What a call does to the slot of its mid and to the drops. -/
structure Moved (map after : VoiceSlotMap Mid Member Counter) (mid : Mid) (slot : Slot Member) (drops : Nat) : Prop where
  slots : after.slots = (map.setSlot mid slot).slots
  drops : after.droppedNow = map.droppedNow + drops
  calls : after.calls = map.calls

theorem bind_none (mid : Mid) (nowMs : Int) :
    (bind map mid none nowMs).1 = [] ∧
      Moved map (bind map mid none nowMs).2 mid
        { map.slotAt mid with sender := none, released := (map.slotAt mid).sender.isSome || (map.slotAt mid).released } 0 :=
  ⟨rfl, rfl, rfl, rfl⟩

theorem bind_some (mid : Mid) (member : Member) (nowMs : Int) :
    (bind map mid (some member) nowMs).1 = (map.slotAt mid).held.dropWhile (expired nowMs) ∧
      Moved map (bind map mid (some member) nowMs).2 mid
        { map.slotAt mid with sender := some member, held := [], released := false, hasLastTs := false }
        ((map.slotAt mid).held.takeWhile (expired nowMs)).length := by
  refine ⟨rfl, rfl, ?_, rfl⟩
  exact droppedNow_countDropLocked _

/-- A packet for an owner only leaves its timestamp. -/
theorem route_owned {mid : Mid} {member : Member} (owned : (map.slotAt mid).sender = some member) (rtp : List Byte)
    (nowMs : Int) :
    (route map mid rtp nowMs).1 = some member ∧
      Moved map (route map mid rtp nowMs).2 mid
        (match timestamp rtp with
          | some ts => { map.slotAt mid with lastTs := ts, hasLastTs := true }
          | none => map.slotAt mid) 0 := by
  unfold route
  dsimp only
  rw [owned]
  cases timestamp rtp with
  | none => exact ⟨rfl, rfl, rfl, rfl⟩
  | some ts => exact ⟨rfl, rfl, rfl, rfl⟩

/-- A packet with no owner is held behind those that are young enough, unless it is
refused. The first one goes when there are too many. -/
theorem route_unowned {mid : Mid} (free : (map.slotAt mid).sender = none) (rtp : List Byte) (nowMs : Int) :
    (route map mid rtp nowMs).1 = none ∧ ∃ kept drops,
      Moved map (route map mid rtp nowMs).2 mid { map.slotAt mid with held := kept } drops ∧
      drops + kept.length = (map.slotAt mid).held.length + 1 ∧
      ((Refused (map.slotAt mid) rtp ∧ kept = (map.slotAt mid).held.dropWhile (expired nowMs)) ∨
        ¬Refused (map.slotAt mid) rtp ∧ ∃ n, kept = ((map.slotAt mid).held.dropWhile (expired nowMs)).drop n ++
          [⟨map.calls, rtp, nowMs⟩] ∧ (kMaxHeldPackets ≤ ((map.slotAt mid).held.dropWhile (expired nowMs)).length → 0 < n)) := by
  unfold route
  dsimp only
  generalize map.slotAt mid = slot at free ⊢
  obtain ⟨sender, held, lastTs, hasLastTs, released⟩ := slot
  subst free
  have whole := congrArg List.length (List.takeWhile_append_dropWhile (p := expired nowMs) (l := held))
  rw [List.length_append] at whole
  unfold Refused expireLocked
  dsimp only
  cases timestamp rtp with
  | none =>
    refine ⟨rfl, _, (held.takeWhile (expired nowMs)).length + 1, ⟨rfl, ?_, rfl⟩, ?_, .inl ⟨nofun, rfl⟩⟩
    · dsimp only
      rw [droppedNow_countDropLocked, droppedNow_setSlot, droppedNow_countDropLocked, Nat.add_assoc]
    · omega
  | some ts =>
    dsimp only
    split_ifs with late full
    · refine ⟨rfl, _, (held.takeWhile (expired nowMs)).length + 1, ⟨rfl, ?_, rfl⟩, ?_, .inl ⟨?_, rfl⟩⟩
      · dsimp only
        rw [droppedNow_countDropLocked, droppedNow_setSlot, droppedNow_countDropLocked, Nat.add_assoc]
      · omega
      · rintro other ⟨⟩
        exact late
    · refine ⟨rfl, _, (held.takeWhile (expired nowMs)).length + 1, ⟨rfl, ?_, rfl⟩, ?_, .inr ⟨?_, 1, ?_, fun _ => Nat.one_pos⟩⟩
      · dsimp only
        rw [droppedNow_countDropLocked, droppedNow_setSlot, droppedNow_countDropLocked, Nat.add_assoc]
      · have some : 0 < kMaxHeldPackets := by decide
        rw [List.length_append, List.length_tail, List.length_singleton]
        omega
      · exact fun refused => late (refused ts rfl)
      · rw [List.drop_one]
        rfl
    · refine ⟨rfl, _, (held.takeWhile (expired nowMs)).length, ⟨rfl, ?_, rfl⟩, ?_, .inr ⟨?_, 0, rfl, fun more => absurd more full⟩⟩
      · dsimp only
        rw [droppedNow_setSlot, droppedNow_countDropLocked]
      · rw [List.length_append, List.length_singleton]
        omega
      · exact fun refused => late (refused ts rfl)

namespace Moved

variable {map} {after : VoiceSlotMap Mid Member Counter} {slot : Slot Member} {drops : Nat}

omit [DecidableEq Counter] in
theorem slotAt_self (moved : Moved map after mid slot drops) : after.slotAt mid = slot := by
  unfold slotAt
  rw [moved.slots]
  exact slotAt_setSlot map

omit [DecidableEq Counter] in
theorem slotAt_ne (moved : Moved map after mid slot drops) (apart : other ≠ mid) : after.slotAt other = map.slotAt other := by
  unfold slotAt
  rw [moved.slots]
  exact slotAt_setSlot_ne map apart

omit [DecidableEq Counter] in
theorem heldNow (moved : Moved map after mid slot drops) :
    after.heldNow + (map.slotAt mid).held.length = map.heldNow + slot.held.length := by
  rw [← heldNow_setSlot map]
  unfold VoiceSlotMap.heldNow
  rw [moved.slots]

end Moved

/-- The books of a call: what came, and what went out, was dropped or stays. -/
structure Booked (map after : VoiceSlotMap Mid Member Counter) (events : List (Event Mid Member)) : Prop where
  balance : unowned events + given events + map.heldNow + map.droppedNow = handed events + after.heldNow + after.droppedNow
  counts : map.droppedNow + given events ≤ after.droppedNow
  order : ∀ mid, (handedOn mid events ++ (after.slotAt mid).held).Sublist ((map.slotAt mid).held ++ arrivedOn mid events)
  named : ∀ mid, ∀ p ∈ arrivedOn mid events, p.call = map.calls
  short : ∀ mid, (arrivedOn mid events).length ≤ 1
  few : (∀ mid, (map.slotAt mid).held.length ≤ kMaxHeldPackets) → ∀ mid, (after.slotAt mid).held.length ≤ kMaxHeldPackets

omit [DecidableEq Counter] in
/-- A call that moves one slot books what it does to that slot. -/
theorem Moved.booked {map after : VoiceSlotMap Mid Member Counter} {mid : Mid} {slot : Slot Member} {drops : Nat}
    {event : Event Mid Member} (moved : Moved map after mid slot drops)
    (elsewhere : ∀ other ≠ mid, handedOn other [event] = [] ∧ arrivedOn other [event] = [])
    (nothing : given [event] = 0)
    (count : unowned [event] + given [event] + (map.slotAt mid).held.length = handed [event] + slot.held.length + drops)
    (order : (handedOn mid [event] ++ slot.held).Sublist ((map.slotAt mid).held ++ arrivedOn mid [event]))
    (named : ∀ p ∈ arrivedOn mid [event], p.call = map.calls)
    (few : (map.slotAt mid).held.length ≤ kMaxHeldPackets → slot.held.length ≤ kMaxHeldPackets) :
    Booked map after [event] where
  balance := by
    have held := moved.heldNow
    have drops := moved.drops
    omega
  counts := by
    have drops := moved.drops
    omega
  order := by
    intro other
    by_cases here : other = mid
    · rw [here, moved.slotAt_self]
      exact order
    · rw [moved.slotAt_ne here, (elsewhere other here).1, (elsewhere other here).2, List.nil_append, List.append_nil]
  named := by
    intro other p member
    by_cases here : other = mid
    · exact named p (here ▸ member)
    · rw [(elsewhere other here).2] at member
      cases member
  short := fun other => (List.length_filterMap_le _ _).trans (le_of_eq List.length_singleton)
  few := by
    intro before other
    by_cases here : other = mid
    · rw [here, moved.slotAt_self]
      exact few (before mid)
    · rw [moved.slotAt_ne here]
      exact before other

theorem bound_elsewhere {mid other : Mid} (apart : other ≠ mid) (sender : Option Member) (nowMs : Int) (held : List Held) :
    handedOn other [.bound mid sender nowMs held] = [] ∧ arrivedOn other [.bound mid sender nowMs held] = [] := by
  refine ⟨?_, rfl⟩
  unfold handedOn
  rw [List.flatMap_singleton]
  exact if_neg apart.symm

theorem handedOn_bound (mid : Mid) (sender : Option Member) (nowMs : Int) (held : List Held) :
    handedOn mid [.bound mid sender nowMs held] = held := by
  unfold handedOn
  rw [List.flatMap_singleton]
  exact if_pos rfl

/-- What a bind hands out, keeps and drops is what the slot held. -/
theorem bind_moved (mid : Mid) (sender : Option Member) (nowMs : Int) : ∃ slot drops,
    Moved map (bind map mid sender nowMs).2 mid slot drops ∧
      (bind map mid sender nowMs).1.length + slot.held.length + drops = (map.slotAt mid).held.length ∧
      ((bind map mid sender nowMs).1 ++ slot.held).Sublist (map.slotAt mid).held := by
  cases sender with
  | none =>
    obtain ⟨nothing, moved⟩ := bind_none map mid nowMs
    refine ⟨_, _, moved, ?_, ?_⟩
    · rw [nothing, List.length_nil, Nat.zero_add]
      rfl
    · rw [nothing]
      exact List.Sublist.refl _
  | some member =>
    obtain ⟨held, moved⟩ := bind_some map mid member nowMs
    have whole := congrArg List.length (List.takeWhile_append_dropWhile (p := expired nowMs) (l := (map.slotAt mid).held))
    rw [List.length_append] at whole
    refine ⟨_, _, moved, ?_, ?_⟩
    · rw [held, List.length_nil]
      omega
    · rw [held, List.append_nil]
      exact List.dropWhile_sublist _

theorem booked_bind (mid : Mid) (sender : Option Member) (nowMs : Int) :
    Booked map (bind map mid sender nowMs).2 [.bound mid sender nowMs (bind map mid sender nowMs).1] := by
  obtain ⟨slot, drops, moved, count, order⟩ := bind_moved map mid sender nowMs
  refine moved.booked (fun other apart => bound_elsewhere apart _ _ _) rfl ?_ ?_ nofun ?_
  · change 0 + 0 + (map.slotAt mid).held.length = (bind map mid sender nowMs).1.length + slot.held.length + drops
    omega
  · rw [handedOn_bound]
    exact order.trans (List.sublist_append_left _ _)
  · omega

theorem booked_route (mid : Mid) (rtp : List Byte) (nowMs : Int) :
    Booked map (route map mid rtp nowMs).2 [.routed mid ⟨map.calls, rtp, nowMs⟩ (route map mid rtp nowMs).1] := by
  cases owner : (map.slotAt mid).sender with
  | some member =>
    obtain ⟨got, moved⟩ := route_owned map owner rtp nowMs
    rw [got]
    have same : (match timestamp rtp with
        | some ts => { map.slotAt mid with lastTs := ts, hasLastTs := true }
        | none => map.slotAt mid).held = (map.slotAt mid).held := by
      cases timestamp rtp <;> rfl
    refine moved.booked (fun other apart => ⟨rfl, rfl⟩) rfl ?_ ?_ nofun (fun few => same ▸ few)
    · rw [same]
      rfl
    · rw [same]
      exact List.sublist_append_left _ _
  | none =>
    obtain ⟨got, kept, drops, moved, count, queue⟩ := route_unowned map owner rtp nowMs
    rw [got]
    have arrived : arrivedOn mid ([.routed mid ⟨map.calls, rtp, nowMs⟩ none] : List (Event Mid Member)) = [⟨map.calls, rtp, nowMs⟩] := by
      unfold arrivedOn
      exact List.filterMap_cons_some (if_pos rfl)
    refine moved.booked (fun other apart => ⟨rfl, ?_⟩) rfl ?_ ?_ ?_ ?_
    · unfold arrivedOn
      exact List.filterMap_cons_none (if_neg apart.symm)
    · change 1 + 0 + 0 + (map.slotAt mid).held.length = 0 + kept.length + drops
      omega
    · rw [arrived]
      change kept.Sublist _
      have front : ((map.slotAt mid).held.dropWhile (expired nowMs)).Sublist (map.slotAt mid).held := List.dropWhile_sublist _
      rcases queue with ⟨-, rfl⟩ | ⟨-, n, rfl, -⟩
      · exact front.trans (List.sublist_append_left _ _)
      · exact ((List.drop_sublist _ _).trans front).append (List.Sublist.refl _)
    · rw [arrived]
      intro p member
      rw [List.mem_singleton.mp member]
    · intro few
      have some : 0 < kMaxHeldPackets := by decide
      have shorter := (List.dropWhile_sublist (expired nowMs) (l := (map.slotAt mid).held)).length_le
      rcases queue with ⟨-, rfl⟩ | ⟨-, n, rfl, full⟩
      · exact shorter.trans few
      · dsimp only
        rw [List.length_append, List.length_drop, List.length_singleton]
        omega

theorem booked_perform (call : Call Mid Member Counter) : Booked map (perform map call).1 (perform map call).2 := by
  cases call with
  | bind mid sender nowMs => exact booked_bind map mid sender nowMs
  | route mid rtp nowMs => exact booked_route map mid rtp nowMs
  | set mid sender nowMs =>
    obtain ⟨slot, drops, moved, count, order⟩ := bind_moved map mid sender nowMs
    have dropped : Moved map ((bind map mid sender nowMs).2.countDropLocked (bind map mid sender nowMs).1.length) mid slot
        (drops + (bind map mid sender nowMs).1.length) := by
      refine ⟨moved.slots, ?_, moved.calls⟩
      rw [droppedNow_countDropLocked, moved.drops, Nat.add_assoc]
    refine dropped.booked (fun other apart => bound_elsewhere apart _ _ _) rfl ?_ ?_ nofun ?_
    · change 0 + 0 + (map.slotAt mid).held.length = 0 + slot.held.length + _
      omega
    · rw [handedOn_bound]
      exact ((List.sublist_append_right _ _).trans order).trans (List.sublist_append_left _ _)
    · omega
  | clear =>
    have drops : (map.countDropLocked map.heldNow).droppedNow = map.droppedNow + map.heldNow := droppedNow_countDropLocked map
    refine ⟨?_, ?_, fun mid => List.nil_sublist _, nofun, fun mid => Nat.zero_le _, fun _ mid => Nat.zero_le _⟩
    · change 0 + 0 + map.heldNow + map.droppedNow = 0 + 0 + (map.countDropLocked map.heldNow).droppedNow
      omega
    · change map.droppedNow + 0 ≤ (map.countDropLocked map.heldNow).droppedNow
      omega
  | setDropCounter counter =>
    cases counter with
    | none => exact ⟨rfl, le_rfl, fun mid => List.sublist_append_left _ _, nofun, fun mid => Nat.zero_le _, fun few => few⟩
    | some counter =>
      have drops : (perform map (.setDropCounter (some counter))).1.droppedNow = map.counters (some counter) + map.droppedNow :=
        Function.update_self _ _ _
      refine ⟨?_, ?_, fun mid => List.sublist_append_left _ _, nofun, fun mid => Nat.zero_le _, fun few => few⟩
      · rw [drops]
        change 0 + map.counters (some counter) + map.heldNow + map.droppedNow = 0 + map.heldNow + _
        omega
      · rw [drops]
        change map.droppedNow + map.counters (some counter) ≤ _
        omega

end Call

/-! ## Runs -/

section Runs

variable [DecidableEq Mid] [DecidableEq Counter] {map after : VoiceSlotMap Mid Member Counter}
  {events log : List (Event Mid Member)} {calls : List (Call Mid Member Counter)} {call : Call Mid Member Counter}

/-- What the books say of all calls so far. -/
structure Books (map : VoiceSlotMap Mid Member Counter) (log : List (Event Mid Member)) : Prop where
  balance : unowned log + given log = handed log + map.heldNow + map.droppedNow
  counts : given log ≤ map.droppedNow
  order : ∀ mid, (handedOn mid log ++ (map.slotAt mid).held).Sublist (arrivedOn mid log)
  apart : ∀ mid, (arrivedOn mid log).Pairwise fun p q => p.call < q.call
  before : ∀ mid, ∀ p ∈ arrivedOn mid log, p.call < map.calls
  few : ∀ mid, (map.slotAt mid).held.length ≤ kMaxHeldPackets

theorem step_eq (stepped : step map call = some (after, events)) :
    events = (perform map call).2 ∧ after = { (perform map call).1 with calls := map.calls + 1 } := by
  cases stepped
  exact ⟨rfl, rfl⟩

theorem books_step (books : Books map log) (stepped : step map call = some (after, events)) :
    Books after (log ++ events) := by
  obtain ⟨rfl, rfl⟩ := step_eq stepped
  have booked := booked_perform map call
  have arrived : ∀ mid, arrivedOn mid (log ++ (perform map call).2) = arrivedOn mid log ++ arrivedOn mid (perform map call).2 :=
    fun mid => List.filterMap_append
  constructor
  · have balance := booked.balance
    have before := books.balance
    unfold unowned given handed at *
    rw [List.map_append, List.map_append, List.map_append, List.sum_append, List.sum_append, List.sum_append]
    change _ = _ + (perform map call).1.heldNow + (perform map call).1.droppedNow
    omega
  · have counts := booked.counts
    have before := books.counts
    unfold given at *
    rw [List.map_append, List.sum_append]
    change _ ≤ (perform map call).1.droppedNow
    omega
  · intro mid
    have later := (books.order mid).append (List.Sublist.refl (arrivedOn mid (perform map call).2))
    rw [List.append_assoc] at later
    rw [arrived, handedOn, List.flatMap_append, List.append_assoc]
    exact ((List.Sublist.refl _).append (booked.order mid)).trans later
  · intro mid
    rw [arrived, List.pairwise_append]
    refine ⟨books.apart mid, ?_, ?_⟩
    · have short := booked.short mid
      generalize arrivedOn mid (perform map call).2 = came at short ⊢
      rcases came with _ | ⟨p, _ | ⟨q, rest⟩⟩
      · exact List.Pairwise.nil
      · exact List.pairwise_singleton _ p
      · rw [List.length_cons, List.length_cons] at short
        omega
    · intro p old q new
      rw [booked.named mid q new]
      exact books.before mid p old
  · intro mid p member
    rw [arrived] at member
    rcases List.mem_append.mp member with old | new
    · exact (books.before mid p old).trans (Nat.lt_succ_self _)
    · rw [booked.named mid p new]
      exact Nat.lt_succ_self _
  · exact booked.few books.few

/-- The held packets of each mid are in the order of their times, up to the last one. -/
def Sorted (map : VoiceSlotMap Mid Member Counter) (nowMs : Int) : Prop :=
  ∀ mid, (map.slotAt mid).held.Pairwise (fun p q => p.arrivedMs ≤ q.arrivedMs) ∧ ∀ p ∈ (map.slotAt mid).held, p.arrivedMs ≤ nowMs

/-- Every bind so far handed out packets that were young enough. -/
def Young (log : List (Event Mid Member)) : Prop :=
  ∀ mid sender nowMs held, .bound mid sender nowMs held ∈ log → ∀ h ∈ held, nowMs - h.arrivedMs ≤ kHoldMs

omit [DecidableEq Mid] [DecidableEq Counter] in
/-- Behind the first packet that is young enough all are. -/
theorem young_dropWhile {nowMs : Int} {held : List Held} (sorted : held.Pairwise fun p q => p.arrivedMs ≤ q.arrivedMs) :
    ∀ h ∈ held.dropWhile (expired nowMs), nowMs - h.arrivedMs ≤ kHoldMs := by
  induction held with
  | nil => exact nofun
  | cons first rest ih =>
    obtain ⟨later, sorted⟩ := List.pairwise_cons.mp sorted
    rw [List.dropWhile_cons]
    split_ifs with old
    · exact ih sorted
    · have young : nowMs - first.arrivedMs ≤ kHoldMs := not_lt.mp fun late => old (decide_eq_true late)
      intro h member
      rcases List.mem_cons.mp member with rfl | behind
      · exact young
      · have after := later h behind
        omega

omit [DecidableEq Counter] in
theorem eq_of_arrived {mid m : Mid} {packet p : Held} {owner : Option Member}
    (member : p ∈ arrivedOn mid [.routed m packet owner]) : p = packet := by
  obtain ⟨event, here, arrived⟩ := List.mem_filterMap.mp member
  obtain rfl := List.mem_singleton.mp here
  cases owner with
  | some other => cases arrived
  | none =>
    dsimp only at arrived
    split_ifs at arrived
    exact (Option.some.inj arrived).symm

theorem timed_perform (map : VoiceSlotMap Mid Member Counter) (call : Call Mid Member Counter) {mid : Mid} {p : Held}
    (member : p ∈ arrivedOn mid (perform map call).2) : call.nowMs = some p.arrivedMs := by
  cases call with
  | route m rtp nowMs =>
    rw [eq_of_arrived member]
    rfl
  | bind m sender nowMs => cases member
  | set m sender nowMs => cases member
  | clear => cases member
  | setDropCounter counter => cases counter <;> cases member

theorem sorted_step {nowMs : Int} (sorted : Sorted map nowMs) (forward : ∀ t, call.nowMs = some t → nowMs ≤ t)
    (stepped : step map call = some (after, events)) : Sorted after (call.nowMs.getD nowMs) := by
  obtain ⟨rfl, rfl⟩ := step_eq stepped
  intro mid
  obtain ⟨ordered, bounded⟩ := sorted mid
  have onward : nowMs ≤ call.nowMs.getD nowMs := by
    cases time : call.nowMs with
    | none => exact le_rfl
    | some t => exact forward t time
  have arrived : ∀ p ∈ arrivedOn mid (perform map call).2, p.arrivedMs = call.nowMs.getD nowMs := by
    intro p member
    rw [timed_perform map call member]
    rfl
  have booked := booked_perform map call
  have kept : ((perform map call).1.slotAt mid).held.Sublist ((map.slotAt mid).held ++ arrivedOn mid (perform map call).2) :=
    (List.sublist_append_right _ _).trans (booked.order mid)
  have all : ∀ p ∈ (map.slotAt mid).held ++ arrivedOn mid (perform map call).2, p.arrivedMs ≤ call.nowMs.getD nowMs := by
    intro p member
    rcases List.mem_append.mp member with old | new
    · exact (bounded p old).trans onward
    · exact (arrived p new).le
  refine ⟨List.Pairwise.sublist kept (List.pairwise_append.mpr ⟨ordered, ?_, ?_⟩), fun p member => all p (kept.subset member)⟩
  · exact List.pairwise_of_forall_mem_list fun p first q second => (arrived p first).trans_le (arrived q second).ge
  · exact fun p old q new => ((bounded p old).trans onward).trans (arrived q new).ge

theorem young_step {nowMs : Int} (sorted : Sorted map nowMs) (young : Young log)
    (stepped : step map call = some (after, events)) : Young (log ++ events) := by
  obtain ⟨rfl, rfl⟩ := step_eq stepped
  intro mid sender at_ held member
  rcases List.mem_append.mp member with old | new
  · exact young mid sender at_ held old
  · cases call with
    | bind m owner nowMs =>
      cases List.mem_singleton.mp new
      cases sender with
      | none => exact nofun
      | some member => exact young_dropWhile (sorted mid).1
    | set m owner nowMs =>
      cases List.mem_singleton.mp new
      exact nofun
    | route m rtp nowMs => cases List.mem_singleton.mp new
    | clear => cases new
    | setDropCounter counter =>
      cases counter with
      | none => cases new
      | some counter => cases List.mem_singleton.mp new

/-- Times that do not go back keep each queue in order, and so each bind young. -/
theorem young_run {nowMs : Int} (sorted : Sorted map nowMs) (forward : ∀ t ∈ calls.filterMap Call.nowMs, nowMs ≤ t)
    (ordered : Ordered calls) (young : Young events) (ran : run (logged step) (map, events) calls = some (after, log)) :
    Young log := by
  induction calls generalizing map events nowMs with
  | nil =>
    cases ran
    exact young
  | cons call rest ih =>
    rw [run_cons] at ran
    obtain ⟨⟨next, later⟩, moved, ran⟩ := Option.bind_eq_some_iff.mp ran
    obtain ⟨outputs, stepped, rfl⟩ := logged_eq_some.mp moved
    have here := fun t time => forward t (List.mem_filterMap.mpr ⟨call, List.mem_cons_self, time⟩)
    have behind : ∀ t ∈ rest.filterMap Call.nowMs, call.nowMs.getD nowMs ≤ t := by
      intro t member
      cases time : call.nowMs with
      | none =>
        refine forward t ?_
        rw [List.filterMap_cons_none time]
        exact member
      | some first =>
        unfold Ordered at ordered
        rw [List.filterMap_cons_some time] at ordered
        exact (List.pairwise_cons.mp ordered).1 t member
    exact ih (sorted_step sorted here stepped) behind (List.Pairwise.sublist (List.Sublist.filterMap _ (List.sublist_cons_self call rest)) ordered)
      (young_step sorted young stepped) ran

/-- The packets on mids with no owner are all accounted for, in any run of calls. -/
theorem packets_conserved {values : Counter → Nat} (ordered : Ordered calls)
    (ran : run (logged step) (start values, []) calls = some (map, log)) : Conserved map log := by
  have books : Books map log := by
    refine run_logged_invariant Books (fun call _ s t log events books stepped => books_step books stepped) ?_ ran
    exact ⟨rfl, Nat.zero_le _, fun mid => List.Sublist.refl _, fun mid => List.Pairwise.nil, nofun, fun mid => Nat.zero_le _⟩
  have low : ∀ t ∈ calls.filterMap Call.nowMs, (calls.filterMap Call.nowMs).headD 0 ≤ t := by
    unfold Ordered at ordered
    cases times : calls.filterMap Call.nowMs with
    | nil => exact nofun
    | cons first rest =>
      rw [times] at ordered
      intro t member
      rcases List.mem_cons.mp member with rfl | later
      · exact le_rfl
      · exact (List.pairwise_cons.mp ordered).1 t later
  have empty : Sorted (start values : VoiceSlotMap Mid Member Counter) ((calls.filterMap Call.nowMs).headD 0) :=
    fun mid => ⟨List.Pairwise.nil, nofun⟩
  have quiet : Young ([] : List (Event Mid Member)) := by
    intro mid sender nowMs held member
    cases member
  have young : Young log := young_run empty low ordered quiet ran
  refine ⟨books.counts, ?_, books.order, books.apart, young, books.few⟩
  have balance := books.balance
  have counts := books.counts
  omega

/-- A packet that is handed out, one that is too late, and a counter given on the way. -/
def oneCall : List (Call Nat Nat Nat) :=
  [.route 0 (List.replicate 12 0) 0, .route 0 [] 10, .setDropCounter (some 7), .bind 0 (some 3) 50, .bind 0 none 60,
    .route 0 (List.replicate 12 9) 70, .bind 0 (some 4) 300]

theorem oneCall_conserved : ∃ map log, run (logged step) (start fun _ => 5, []) oneCall = some (map, log) ∧
    Ordered oneCall ∧ map.droppedNow = 7 ∧ Conserved map log := by
  have ordered : Ordered oneCall := by
    unfold Ordered
    decide
  refine ⟨_, _, rfl, ordered, by decide, packets_conserved ordered rfl⟩

end Runs

end Mello.Transport.VoiceSlots
