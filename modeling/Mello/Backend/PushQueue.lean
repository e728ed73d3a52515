import Mathlib

/-!
The queue of belt pushes of one crew, and what the calls make of it. A member has one
item, which is reused. Times are in milliseconds. The text of a push is left out: a push
has the events that its text is built from.
-/

namespace Mello.Backend.PushQueue

/-! ## Times -/

def hourMs : Int := 60 * 60 * 1000

def dayMs : Int := 24 * hourMs

/-- The least time between two belt pushes to a member. -/
def beltPushWindow : Int := 6 * hourMs

def pushQuietUntilHour : Int := 9

def pushQuietFromHour : Int := 22

def recapPushMaxLateness : Int := 24 * hourMs

def recapPushMaxAttempts : Nat := 5

def validTzOffset (tz : Option Int) : Option Int := tz.filter fun v => -840 ≤ v ∧ v ≤ 840

/-- The local time of a member, whose offset is in minutes. -/
def localMs (time : Int) (tz : Option Int) : Int := time + (validTzOffset tz).getD 0 * 60 * 1000

def localHour (time : Int) (tz : Option Int) : Int := localMs time tz % dayMs / hourMs

def Quiet (time : Int) (tz : Option Int) : Prop :=
  localHour time tz < pushQuietUntilHour ∨ pushQuietFromHour ≤ localHour time tz

instance (time : Int) (tz : Option Int) : Decidable (Quiet time tz) := inferInstanceAs (Decidable (_ ∨ _))

def pushQuietAdjust (time : Int) (tz : Option Int) : Int :=
  if Quiet time tz then
    let here := localMs time tz
    let next := here - here % dayMs + pushQuietUntilHour * hourMs
    let next := if pushQuietFromHour ≤ localHour time tz then next + dayMs else next
    next - (validTzOffset tz).getD 0 * 60 * 1000
  else time

def pushSendAt (now lastSentMs window : Int) (tz : Option Int) : Int :=
  pushQuietAdjust (if 0 < lastSentMs ∧ now < lastSentMs + window then lastSentMs + window else now) tz

theorem le_pushQuietAdjust (time : Int) (tz : Option Int) : time ≤ pushQuietAdjust time tz := by
  unfold pushQuietAdjust
  by_cases quiet : Quiet time tz
  · rw [if_pos quiet]
    unfold Quiet localHour localMs pushQuietUntilHour pushQuietFromHour dayMs hourMs at *
    dsimp only
    split_ifs <;> omega
  · rw [if_neg quiet]

theorem pushQuietAdjust_not_quiet (time : Int) (tz : Option Int) : ¬Quiet (pushQuietAdjust time tz) tz := by
  unfold pushQuietAdjust
  by_cases quiet : Quiet time tz
  · rw [if_pos quiet]
    unfold Quiet localHour localMs pushQuietUntilHour pushQuietFromHour dayMs hourMs at *
    dsimp only
    split_ifs <;> omega
  · rw [if_neg quiet]
    exact quiet

theorem window_le_pushSendAt {now lastSentMs window : Int} {tz : Option Int} (sent : 0 < lastSentMs) :
    lastSentMs + window ≤ pushSendAt now lastSentMs window tz := by
  apply le_trans _ (le_pushQuietAdjust _ tz)
  split_ifs with early
  · exact le_rfl
  · exact not_lt.mp fun before => early ⟨sent, before⟩

/-! ## Items -/

variable {Event : Type}

/-- `tz` and `since` are not stored: the offset with which the time was set, and how many
pushes there had been when the item was last begun. -/
structure RecapPushItem (Event : Type) where
  userID : String
  sendAtMs : Int := 0
  sent : Bool
  events : List Event := []
  lastSentMs : Int := 0
  attempts : Nat := 0
  tz : Option Int := none
  since : Nat := 0
  deriving DecidableEq, Repr

/-- The events of one member and the member's offset. -/
structure Entry (Event : Type) where
  userID : String
  events : List Event
  tz : Option Int
  deriving DecidableEq, Repr

/-- A sent item starts a new pending one. -/
def joinItem (now : Int) (pushes : Nat) (entry : Entry Event) (it : RecapPushItem Event) : RecapPushItem Event :=
  { it with
    sent := false
    events := (if it.sent then [] else it.events) ++ entry.events
    sendAtMs := pushSendAt now it.lastSentMs beltPushWindow entry.tz
    tz := entry.tz
    since := if it.sent then pushes else it.since }

def addFor (now : Int) (pushes : Nat) (items : List (RecapPushItem Event)) (entry : Entry Event) :
    List (RecapPushItem Event) :=
  if items.any fun it => it.userID = entry.userID then
    items.map fun it => if it.userID = entry.userID then joinItem now pushes entry it else it
  else items ++ [joinItem now pushes entry { userID := entry.userID, sent := true }]

def addBeltEvents (now : Int) (pushes : Nat) (entries : List (Entry Event)) (items : List (RecapPushItem Event)) :
    List (RecapPushItem Event) :=
  entries.foldl (addFor now pushes) items

def Late (nowMs : Int) (it : RecapPushItem Event) : Prop :=
  it.sent = false ∧ it.sendAtMs ≤ nowMs ∧ recapPushMaxLateness < nowMs - it.sendAtMs

def Due (nowMs : Int) (it : RecapPushItem Event) : Prop :=
  it.sent = false ∧ it.sendAtMs ≤ nowMs ∧ nowMs - it.sendAtMs ≤ recapPushMaxLateness

instance (nowMs : Int) (it : RecapPushItem Event) : Decidable (Late nowMs it) := inferInstanceAs (Decidable (_ ∧ _ ∧ _))

instance (nowMs : Int) (it : RecapPushItem Event) : Decidable (Due nowMs it) := inferInstanceAs (Decidable (_ ∧ _ ∧ _))

def dropLate (nowMs : Int) (it : RecapPushItem Event) : RecapPushItem Event :=
  if Late nowMs it then { it with sent := true } else it

/-- The items to send, and whether an item is dropped. -/
def splitDueRecapPushes (nowMs : Int) (items : List (RecapPushItem Event)) : List (RecapPushItem Event) × Bool :=
  (items.filter fun it => Due nowMs it, items.any fun it => Late nowMs it)

def applyPushOutcome (accepted : Bool) (nowMs : Int) (it : RecapPushItem Event) : RecapPushItem Event :=
  if accepted then { it with sent := true, lastSentMs := nowMs, attempts := 0 }
  else { it with attempts := it.attempts + 1, sent := it.sent || recapPushMaxAttempts ≤ it.attempts + 1 }

/-- What the Worker made of an item, at the time of the flush. -/
structure Outcome (Event : Type) where
  item : RecapPushItem Event
  accepted : Bool
  nowMs : Int
  deriving DecidableEq, Repr

/-- Type, group and message id of a belt push follow from the member. -/
def applyOutcome (it : RecapPushItem Event) (o : Outcome Event) : RecapPushItem Event :=
  if it.sent = false ∧ it.userID = o.item.userID ∧ it.sendAtMs = o.item.sendAtMs then applyPushOutcome o.accepted o.nowMs it
  else it

/-- What `processPushQueueDoc` writes for an item. A member has one item, so an outcome
meets at most one. -/
def settleItem (nowMs : Int) (outcomes : List (Outcome Event)) (it : RecapPushItem Event) : RecapPushItem Event :=
  outcomes.foldl applyOutcome (dropLate nowMs it)

def settle (nowMs : Int) (outcomes : List (Outcome Event)) (items : List (RecapPushItem Event)) :
    List (RecapPushItem Event) :=
  items.map (settleItem nowMs outcomes)

/-! ## Joining -/

section Join

variable {now : Int} {pushes : Nat} {entry : Entry Event} {it : RecapPushItem Event}

/-- A pending item waits out the window and is not sent in quiet hours. -/
def Timed (it : RecapPushItem Event) : Prop :=
  (0 < it.lastSentMs → it.lastSentMs + beltPushWindow ≤ it.sendAtMs) ∧ ¬Quiet it.sendAtMs it.tz

theorem joinItem_timed : Timed (joinItem now pushes entry it) :=
  ⟨window_le_pushSendAt, pushQuietAdjust_not_quiet _ _⟩

/-- The items after one member's events: the member's item with the events, or a new one. -/
theorem addFor_cases (now : Int) (pushes : Nat) (items : List (RecapPushItem Event)) (entry : Entry Event)
    (names : (items.map RecapPushItem.userID).Nodup) :
    (∃ front it back, items = front ++ it :: back ∧ it.userID = entry.userID ∧
        addFor now pushes items entry = front ++ joinItem now pushes entry it :: back) ∨
      ((∀ it ∈ items, it.userID ≠ entry.userID) ∧
        addFor now pushes items entry = items ++ [joinItem now pushes entry { userID := entry.userID, sent := true }]) := by
  unfold addFor
  split_ifs with known
  · left
    obtain ⟨it, member, same⟩ := List.any_eq_true.mp known
    obtain ⟨front, back, rfl⟩ := List.append_of_mem member
    have same : it.userID = entry.userID := of_decide_eq_true same
    refine ⟨front, it, back, rfl, same, ?_⟩
    rw [List.map_append, List.map_cons] at names
    have before : ∀ other ∈ front, other.userID ≠ entry.userID := by
      intro other member equal
      rw [← same] at equal
      exact (List.nodup_append.mp names).2.2 _ (List.mem_map_of_mem member) _ List.mem_cons_self equal
    have after : ∀ other ∈ back, other.userID ≠ entry.userID := by
      intro other member equal
      rw [← same] at equal
      exact (List.nodup_cons.mp (List.nodup_append.mp names).2.1).1 (equal ▸ List.mem_map_of_mem member)
    rw [List.map_append, List.map_cons, if_pos same]
    congr 1
    · exact (List.map_congr_left fun other member => if_neg (before other member)).trans (List.map_id front)
    · congr 1
      exact (List.map_congr_left fun other member => if_neg (after other member)).trans (List.map_id back)
  · right
    refine ⟨fun it member same => known ?_, rfl⟩
    exact List.any_eq_true.mpr ⟨it, member, decide_eq_true same⟩

end Join

/-! ## Settling -/

section Settle

variable {nowMs : Int} {outcomes : List (Outcome Event)} {o : Outcome Event} {it : RecapPushItem Event}

/-- What no outcome changes. -/
structure Same (it other : RecapPushItem Event) : Prop where
  userID : other.userID = it.userID
  sendAtMs : other.sendAtMs = it.sendAtMs
  events : other.events = it.events
  tz : other.tz = it.tz
  since : other.since = it.since

theorem dropLate_same : Same it (dropLate nowMs it) := by
  unfold dropLate
  split_ifs <;> exact ⟨rfl, rfl, rfl, rfl, rfl⟩

theorem applyOutcome_same : Same it (applyOutcome it o) := by
  unfold applyOutcome applyPushOutcome
  split_ifs <;> exact ⟨rfl, rfl, rfl, rfl, rfl⟩

theorem Same.trans {first second third : RecapPushItem Event} (one : Same first second) (two : Same second third) :
    Same first third :=
  ⟨two.userID.trans one.userID, two.sendAtMs.trans one.sendAtMs, two.events.trans one.events, two.tz.trans one.tz,
    two.since.trans one.since⟩

theorem dropLate_of_not_late (early : ¬Late nowMs it) : dropLate nowMs it = it := if_neg early

theorem applyOutcome_of_ne (other : o.item.userID ≠ it.userID) : applyOutcome it o = it :=
  if_neg fun both => other both.2.1.symm

theorem foldl_applyOutcome_of_ne (others : ∀ o ∈ outcomes, o.item.userID ≠ it.userID) :
    outcomes.foldl applyOutcome it = it := by
  induction outcomes with
  | nil => rfl
  | cons o rest ih =>
    rw [List.foldl_cons, applyOutcome_of_ne (others o List.mem_cons_self)]
    exact ih fun other member => others other (List.mem_cons_of_mem _ member)

/-- An item meets the one outcome of its member, or none. -/
theorem settleItem_cases (nowMs : Int) (it : RecapPushItem Event)
    (names : (outcomes.map fun o => o.item.userID).Nodup) :
    (∃ o ∈ outcomes, o.item.userID = it.userID ∧ settleItem nowMs outcomes it = applyOutcome (dropLate nowMs it) o) ∨
      ((∀ o ∈ outcomes, o.item.userID ≠ it.userID) ∧ settleItem nowMs outcomes it = dropLate nowMs it) := by
  have user : (dropLate nowMs it).userID = it.userID := dropLate_same.userID
  by_cases met : ∃ o ∈ outcomes, o.item.userID = it.userID
  · left
    obtain ⟨o, member, same⟩ := met
    obtain ⟨front, back, rfl⟩ := List.append_of_mem member
    refine ⟨o, member, same, ?_⟩
    rw [List.map_append, List.map_cons] at names
    have before : ∀ other ∈ front, other.item.userID ≠ (dropLate nowMs it).userID := by
      intro other member equal
      rw [user, ← same] at equal
      exact (List.nodup_append.mp names).2.2 _ (List.mem_map_of_mem member) _ List.mem_cons_self equal
    have after : ∀ other ∈ back, other.item.userID ≠ (applyOutcome (dropLate nowMs it) o).userID := by
      intro other member equal
      rw [applyOutcome_same.userID, user, ← same] at equal
      exact (List.nodup_cons.mp (List.nodup_append.mp names).2.1).1 (List.mem_map.mpr ⟨other, member, equal⟩)
    unfold settleItem
    rw [List.foldl_append, foldl_applyOutcome_of_ne before, List.foldl_cons, foldl_applyOutcome_of_ne after]
  · right
    have others : ∀ o ∈ outcomes, o.item.userID ≠ it.userID := fun o member same => met ⟨o, member, same⟩
    refine ⟨others, ?_⟩
    apply foldl_applyOutcome_of_ne
    rw [user]
    exact others

theorem settleItem_same : Same it (settleItem nowMs outcomes it) := by
  have folded : ∀ first : RecapPushItem Event, Same first (outcomes.foldl applyOutcome first) := by
    induction outcomes with
    | nil => exact fun first => ⟨rfl, rfl, rfl, rfl, rfl⟩
    | cons o rest ih => exact fun first => applyOutcome_same.trans (ih _)
  exact dropLate_same.trans (folded _)

/-- A sent item is settled. -/
theorem settleItem_of_sent (sent : it.sent = true) : settleItem nowMs outcomes it = it := by
  have pending : ¬it.sent = false := by simp [sent]
  unfold settleItem
  rw [dropLate_of_not_late fun late => pending late.1]
  induction outcomes with
  | nil => rfl
  | cons o rest ih =>
    rw [List.foldl_cons]
    have still : applyOutcome it o = it := if_neg fun both => pending both.1
    rw [still]
    exact ih

end Settle

end Mello.Backend.PushQueue
