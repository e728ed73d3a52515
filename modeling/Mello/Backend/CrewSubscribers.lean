import Mello.Library.Runs

/-!
The subscriptions of the users and the index from crews to subscribers, which the
pushes of a crew read. The index has no count, so a crew that is both active and in
the sidebar is one entry with two reasons.
-/

namespace Mello.Backend.CrewSubscribers
open Mello.Library Runs

/-- The empty crew id stands for no active crew. -/
structure UserSubscription where
  activeCrew : String := ""
  sidebarCrews : Finset String := ∅
  deriving DecidableEq

/-- `crewSubscribers` of a crew that the map lacks is empty. -/
structure State where
  subscriptions : String → Option UserSubscription
  crewSubscribers : String → Finset String

def start : State where
  subscriptions := fun _ => none
  crewSubscribers := fun _ => ∅

section Index

variable (index : String → Finset String) (crewID userID : String)

def addCrewSubscriber : String → Finset String := Function.update index crewID (insert userID (index crewID))

def removeCrewSubscriber : String → Finset String := Function.update index crewID ((index crewID).erase userID)

/-- `removeCrewSubscriber` for each crew of a set, in any order. -/
def removeCrewSubscribers (crews : Finset String) : String → Finset String :=
  fun crewID => if crewID ∈ crews then (index crewID).erase userID else index crewID

end Index

def getOrCreateSubscription (s : State) (userID : String) : UserSubscription := (s.subscriptions userID).getD {}

/-! ## The calls -/

section Calls

variable (s : State) (userID : String)

def SetActiveCrewRPC (crewID : String) : State :=
  let sub := getOrCreateSubscription s userID
  let index :=
    if sub.activeCrew ≠ "" ∧ sub.activeCrew ≠ crewID then removeCrewSubscriber s.crewSubscribers sub.activeCrew userID
    else s.crewSubscribers
  { subscriptions := Function.update s.subscriptions userID (some { sub with activeCrew := crewID })
    crewSubscribers := addCrewSubscriber index crewID userID }

def SubscribeSidebarRPC (crewIDs : List String) : State :=
  let sub := getOrCreateSubscription s userID
  let index := removeCrewSubscribers s.crewSubscribers userID sub.sidebarCrews
  { subscriptions := Function.update s.subscriptions userID (some { sub with sidebarCrews := crewIDs.toFinset })
    crewSubscribers := crewIDs.foldl (fun index crewID => addCrewSubscriber index crewID userID) index }

def CleanupUser : State :=
  match s.subscriptions userID with
  | none => s
  | some sub =>
    let index := if sub.activeCrew ≠ "" then removeCrewSubscriber s.crewSubscribers sub.activeCrew userID else s.crewSubscribers
    { subscriptions := Function.update s.subscriptions userID none
      crewSubscribers := removeCrewSubscribers index userID sub.sidebarCrews }

end Calls

/-- The users that `PushCrewEvent` sends to. -/
def getSubscribersForCrew (s : State) (crewID : String) : Finset String :=
  (s.crewSubscribers crewID).filter fun userID => (s.subscriptions userID).isSome

inductive Call where
  | setActiveCrew (userID crewID : String)
  | subscribeSidebar (userID : String) (crewIDs : List String)
  | cleanup (userID : String)
  deriving DecidableEq, Repr

def after (s : State) : Call → State
  | .setActiveCrew userID crewID => SetActiveCrewRPC s userID crewID
  | .subscribeSidebar userID crewIDs => SubscribeSidebarRPC s userID crewIDs
  | .cleanup userID => CleanupUser s userID

def step (s : State) (call : Call) : Option State := some (after s call)

/-! ## The law -/

def Subscribed (s : State) (userID crewID : String) : Prop :=
  ∃ sub, s.subscriptions userID = some sub ∧ (sub.activeCrew = crewID ∨ crewID ∈ sub.sidebarCrews)

/-- The index of each crew has exactly its subscribers, and the pushes reach them. -/
structure Matches (s : State) : Prop where
  index : ∀ userID crewID, crewID ≠ "" → (userID ∈ s.crewSubscribers crewID ↔ Subscribed s userID crewID)
  reached : ∀ userID crewID, crewID ≠ "" → (userID ∈ getSubscribersForCrew s crewID ↔ Subscribed s userID crewID)

/-- A call that takes away one of two reasons: it leaves an active crew that is in the
sidebar, or it takes the active crew out of the sidebar. -/
def OneReason (s : State) : Call → Prop
  | .setActiveCrew userID crewID =>
    let sub := getOrCreateSubscription s userID
    sub.activeCrew ≠ "" → sub.activeCrew ≠ crewID → sub.activeCrew ∉ sub.sidebarCrews
  | .subscribeSidebar userID crewIDs =>
    let sub := getOrCreateSubscription s userID
    sub.activeCrew ≠ "" → sub.activeCrew ∈ sub.sidebarCrews → sub.activeCrew ∈ crewIDs
  | .cleanup _ => True

section Index

variable {index : String → Finset String} {crewID userID other user : String}

theorem mem_addCrewSubscriber :
    user ∈ addCrewSubscriber index crewID userID other ↔ (other = crewID ∧ user = userID) ∨ user ∈ index other := by
  unfold addCrewSubscriber
  rcases eq_or_ne other crewID with rfl | apart
  · rw [Function.update_self, Finset.mem_insert, iff_true_intro (rfl : other = other), true_and]
  · rw [Function.update_of_ne apart, iff_false_intro apart, false_and, false_or]

theorem mem_removeCrewSubscriber :
    user ∈ removeCrewSubscriber index crewID userID other ↔ ¬(other = crewID ∧ user = userID) ∧ user ∈ index other := by
  unfold removeCrewSubscriber
  rcases eq_or_ne other crewID with rfl | apart
  · rw [Function.update_self, Finset.mem_erase, iff_true_intro (rfl : other = other), true_and]
  · rw [Function.update_of_ne apart, iff_false_intro apart, false_and, not_false_iff, true_and]

theorem mem_removeCrewSubscribers {crews : Finset String} :
    user ∈ removeCrewSubscribers index userID crews other ↔ ¬(other ∈ crews ∧ user = userID) ∧ user ∈ index other := by
  unfold removeCrewSubscribers
  split_ifs with member
  · rw [Finset.mem_erase, iff_true_intro member, true_and]
  · rw [iff_false_intro member, false_and, not_false_iff, true_and]

theorem mem_foldl_addCrewSubscriber {crewIDs : List String} :
    user ∈ crewIDs.foldl (fun index crewID => addCrewSubscriber index crewID userID) index other ↔
      (other ∈ crewIDs ∧ user = userID) ∨ user ∈ index other := by
  induction crewIDs generalizing index with
  | nil => simp only [List.foldl_nil, List.not_mem_nil, false_and, false_or]
  | cons first rest ih =>
    rw [List.foldl_cons, ih, mem_addCrewSubscriber, List.mem_cons, or_and_right, ← or_assoc]
    exact or_congr_left or_comm

end Index

section Law

variable {s : State} {userID crewID user crew : String}

/-- The pushes reach whom the index has. -/
theorem matches_of_index
    (index : ∀ userID crewID, crewID ≠ "" → (userID ∈ s.crewSubscribers crewID ↔ Subscribed s userID crewID)) :
    Matches s := by
  refine ⟨index, fun userID crewID named => ?_⟩
  unfold getSubscribersForCrew
  rw [Finset.mem_filter, index userID crewID named]
  constructor
  · intro both
    exact both.1
  · intro subscribed
    refine ⟨subscribed, ?_⟩
    obtain ⟨sub, found, -⟩ := subscribed
    rw [found]
    rfl

theorem subscribed_iff (named : crew ≠ "") :
    Subscribed s user crew ↔ (getOrCreateSubscription s user).activeCrew = crew ∨
      crew ∈ (getOrCreateSubscription s user).sidebarCrews := by
  unfold Subscribed getOrCreateSubscription
  cases s.subscriptions user with
  | none =>
    refine iff_of_false nofun ?_
    rintro (empty | member)
    · exact named empty.symm
    · exact absurd member (Finset.notMem_empty crew)
  | some sub =>
    constructor
    · rintro ⟨other, same, reason⟩
      cases same
      exact reason
    · intro reason
      exact ⟨sub, rfl, reason⟩

theorem subscribed_update_self {index : String → Finset String} {sub : UserSubscription} :
    Subscribed ⟨Function.update s.subscriptions user (some sub), index⟩ user crew ↔
      sub.activeCrew = crew ∨ crew ∈ sub.sidebarCrews := by
  unfold Subscribed
  dsimp only
  rw [Function.update_self]
  constructor
  · rintro ⟨other, same, reason⟩
    cases same
    exact reason
  · intro reason
    exact ⟨sub, rfl, reason⟩

/-- A call leaves the subscriptions of the other users. -/
theorem subscribed_update_of_ne {index : String → Finset String} {sub : Option UserSubscription} (apart : user ≠ userID) :
    Subscribed ⟨Function.update s.subscriptions userID sub, index⟩ user crew ↔ Subscribed s user crew := by
  unfold Subscribed
  dsimp only
  rw [Function.update_of_ne apart]

theorem mem_SetActiveCrewRPC :
    user ∈ (SetActiveCrewRPC s userID crewID).crewSubscribers crew ↔ (crew = crewID ∧ user = userID) ∨
      (¬(((getOrCreateSubscription s userID).activeCrew ≠ "" ∧ (getOrCreateSubscription s userID).activeCrew ≠ crewID) ∧
        crew = (getOrCreateSubscription s userID).activeCrew ∧ user = userID) ∧ user ∈ s.crewSubscribers crew) := by
  unfold SetActiveCrewRPC
  dsimp only
  rw [mem_addCrewSubscriber]
  split_ifs with leaves
  · rw [mem_removeCrewSubscriber, iff_true_intro leaves, true_and]
  · rw [iff_false_intro leaves, false_and, not_false_iff, true_and]

theorem matches_SetActiveCrewRPC (held : Matches s) :
    Matches (SetActiveCrewRPC s userID crewID) ↔ OneReason s (.setActiveCrew userID crewID) := by
  constructor
  · intro after named leaves member
    have kept := (after.index userID (getOrCreateSubscription s userID).activeCrew named).mpr
      (subscribed_update_self.mpr (.inr member))
    rw [mem_SetActiveCrewRPC] at kept
    rcases kept with ⟨same, -⟩ | ⟨stays, -⟩
    · exact leaves same
    · exact stays ⟨⟨named, leaves⟩, rfl, rfl⟩
  · intro one
    apply matches_of_index
    intro user crew named
    rw [mem_SetActiveCrewRPC, held.index user crew named]
    rcases eq_or_ne user userID with rfl | apart
    · unfold SetActiveCrewRPC
      rw [subscribed_update_self, subscribed_iff named]
      have single : (getOrCreateSubscription s user).activeCrew = crew → crew ≠ crewID →
          crew ∉ (getOrCreateSubscription s user).sidebarCrews := by
        rintro rfl leaves
        exact one named leaves
      grind
    · unfold SetActiveCrewRPC
      rw [subscribed_update_of_ne apart]
      grind

theorem mem_SubscribeSidebarRPC {crewIDs : List String} :
    user ∈ (SubscribeSidebarRPC s userID crewIDs).crewSubscribers crew ↔ (crew ∈ crewIDs ∧ user = userID) ∨
      (¬(crew ∈ (getOrCreateSubscription s userID).sidebarCrews ∧ user = userID) ∧ user ∈ s.crewSubscribers crew) := by
  unfold SubscribeSidebarRPC
  dsimp only
  rw [mem_foldl_addCrewSubscriber, mem_removeCrewSubscribers]

theorem matches_SubscribeSidebarRPC (held : Matches s) {crewIDs : List String} :
    Matches (SubscribeSidebarRPC s userID crewIDs) ↔ OneReason s (.subscribeSidebar userID crewIDs) := by
  constructor
  · intro after named member
    have kept := (after.index userID (getOrCreateSubscription s userID).activeCrew named).mpr
      (subscribed_update_self.mpr (.inl rfl))
    rw [mem_SubscribeSidebarRPC] at kept
    rcases kept with ⟨there, -⟩ | ⟨stays, -⟩
    · exact there
    · exact absurd ⟨member, rfl⟩ stays
  · intro one
    apply matches_of_index
    intro user crew named
    rw [mem_SubscribeSidebarRPC, held.index user crew named]
    rcases eq_or_ne user userID with rfl | apart
    · unfold SubscribeSidebarRPC
      rw [subscribed_update_self, subscribed_iff named, List.mem_toFinset]
      have single : (getOrCreateSubscription s user).activeCrew = crew →
          crew ∈ (getOrCreateSubscription s user).sidebarCrews → crew ∈ crewIDs := by
        rintro rfl member
        exact one named member
      grind
    · unfold SubscribeSidebarRPC
      rw [subscribed_update_of_ne apart]
      grind

/-- A user who leaves has all their reasons removed. -/
theorem matches_CleanupUser (held : Matches s) : Matches (CleanupUser s userID) := by
  unfold CleanupUser
  cases found : s.subscriptions userID with
  | none => exact held
  | some sub =>
    have current : getOrCreateSubscription s userID = sub := by
      unfold getOrCreateSubscription
      rw [found]
      rfl
    apply matches_of_index
    intro user crew named
    dsimp only
    rw [mem_removeCrewSubscribers]
    have index : user ∈ (if sub.activeCrew ≠ "" then removeCrewSubscriber s.crewSubscribers sub.activeCrew userID
        else s.crewSubscribers) crew ↔ ¬(crew = sub.activeCrew ∧ user = userID) ∧ user ∈ s.crewSubscribers crew := by
      split_ifs with active
      · exact mem_removeCrewSubscriber
      · have none : ¬(crew = sub.activeCrew ∧ user = userID) := by
          rintro ⟨rfl, -⟩
          exact active named
        rw [iff_true_intro none, true_and]
    rw [index, held.index user crew named]
    rcases eq_or_ne user userID with rfl | apart
    · have gone : ¬Subscribed ⟨Function.update s.subscriptions user none,
          removeCrewSubscribers (if sub.activeCrew ≠ "" then removeCrewSubscriber s.crewSubscribers sub.activeCrew user
            else s.crewSubscribers) user sub.sidebarCrews⟩ user crew := by
        rintro ⟨other, same, -⟩
        dsimp only at same
        rw [Function.update_self] at same
        cases same
      rw [subscribed_iff named, current]
      grind
    · rw [subscribed_update_of_ne apart]
      grind

end Law

/-! ## Every run -/

theorem matches_start : Matches start := by
  apply matches_of_index
  intro userID crewID named
  exact iff_of_false (Finset.notMem_empty userID) nofun

/-- The index matches along exactly the runs in which no call takes away one of two reasons. -/
theorem matches_always_iff (calls : List Call) :
    Always step Matches start calls ↔ EachStep step OneReason start calls := by
  apply always_iff_eachStep fun _ => True
  · intro s call t _ _
    trivial
  · intro s call t _ held stepped
    cases stepped
    cases call with
    | setActiveCrew userID crewID => exact matches_SetActiveCrewRPC held
    | subscribeSidebar userID crewIDs => exact matches_SubscribeSidebarRPC held
    | cleanup userID => exact iff_of_true (matches_CleanupUser held) trivial
  · trivial
  · exact matches_start

/-- A user opens a crew that is in the sidebar, and then another one. -/
def leavesSidebarCrew : List Call :=
  [.subscribeSidebar "user" ["games"], .setActiveCrew "user" "games", .setActiveCrew "user" "music"]

/-- The user has the first crew in the sidebar, and its pushes do not reach them. -/
theorem leavesSidebarCrew_unreached :
    ∃ t, run step start leavesSidebarCrew = some t ∧ Subscribed t "user" "games" ∧
      "user" ∉ getSubscribersForCrew t "games" ∧ ¬Always step Matches start leavesSidebarCrew := by
  have subscribed : Subscribed (SetActiveCrewRPC (SetActiveCrewRPC (SubscribeSidebarRPC start "user" ["games"])
      "user" "games") "user" "music") "user" "games" := ⟨⟨"music", {"games"}⟩, by decide, .inr (by decide)⟩
  have unreached : "user" ∉ getSubscribersForCrew (SetActiveCrewRPC (SetActiveCrewRPC
      (SubscribeSidebarRPC start "user" ["games"]) "user" "games") "user" "music") "games" := by decide
  refine ⟨_, rfl, subscribed, unreached, fun all => ?_⟩
  have last := all.last rfl
  exact unreached ((last.reached "user" "games" (by decide)).mpr subscribed)

end Mello.Backend.CrewSubscribers
