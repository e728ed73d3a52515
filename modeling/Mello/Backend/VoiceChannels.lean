import Mello.Library.Guards
import Mello.Library.Runs

/-!
The voice channels of one crew: the stored list, and the calls that read it, change it
and store it whole. A stored list is there from the start, and it decodes.
-/

namespace Mello.Backend.VoiceChannels
open Mello.Library Guards Runs

def MaxChannelsPerCrew : Nat := 8
def DefaultChannelBitrateKbps : Int := 64
def MinChannelBitrateKbps : Int := 24
def MaxChannelBitrateKbps : Int := 96

structure VoiceChannelDef where
  id : String
  name : String
  isDefault : Bool
  sortOrder : Nat
  bitrateKbps : Int := 0
  deriving DecidableEq, Repr

/-- The list that a new crew has. -/
def InitDefaultChannel (id : String) : List VoiceChannelDef :=
  [{ id, name := "General", isDefault := true, sortOrder := 0 }]

structure Failure where
  text : String
  code : Nat
  deriving DecidableEq, Repr

/-! ## The calls -/

/-- What a call finds around it: whether a user is logged in, the payload decodes, the
user manages channels, and the read and the write of the list work. -/
structure Context where
  authenticated : Bool
  decodes : Bool
  manages : Bool
  loads : Bool
  saves : Bool
  deriving DecidableEq, Repr

def validateChannelBitrate : Option Int → Except Failure Int
  | none => .ok DefaultChannelBitrateKbps
  | some kbps =>
    if kbps < MinChannelBitrateKbps ∨ MaxChannelBitrateKbps < kbps then .error ⟨"bitrate_kbps must be 24 to 96", 3⟩
    else .ok kbps

/-- `len` counts bytes. -/
def checkName (name missing : String) : Except Failure Unit :=
  if name = "" then .error ⟨missing, 3⟩
  else if 32 < name.utf8ByteSize then .error ⟨"name must be 32 characters or fewer", 3⟩
  else .ok ()

/-- The order that all calls share: the request is checked, then the user, then the
list is read, changed and stored. -/
def call {Checked : Type} (context : Context) (check : Except Failure Checked)
    (change : Checked → List VoiceChannelDef → Except Failure (List VoiceChannelDef)) (channels : List VoiceChannelDef) :
    Except Failure (List VoiceChannelDef) := do
  require context.authenticated ⟨"authentication required", 16⟩
  require context.decodes ⟨"invalid request", 3⟩
  let checked ← check
  require context.manages ⟨"not authorized to manage channels", 7⟩
  require context.loads ⟨"failed to load channels", 13⟩
  let after ← change checked channels
  require context.saves ⟨"failed to save channels", 13⟩
  return after

section Changes

variable (channels : List VoiceChannelDef)

/-- `id` is what `generateChannelID` gives. -/
def createChannel (id name : String) (bitrateKbps : Int) : Except Failure (List VoiceChannelDef) :=
  if MaxChannelsPerCrew ≤ channels.length then .error ⟨"maximum 8 channels reached", 9⟩
  else .ok (channels ++ [{ id, name, isDefault := false, sortOrder := channels.length, bitrateKbps }])

/-- A change of the first channel with an id. -/
def changeChannel (channelID : String) (change : VoiceChannelDef → VoiceChannelDef) :
    Except Failure (List VoiceChannelDef) :=
  match channels.findIdx? fun ch => ch.id = channelID with
  | some i => .ok (channels.modify i change)
  | none => .error ⟨"channel not found", 5⟩

def deleteChannel (channelID : String) : Except Failure (List VoiceChannelDef) :=
  match channels.findIdx? fun ch => ch.id = channelID with
  | some i =>
    if (channels[i]?.map VoiceChannelDef.isDefault).getD false then .error ⟨"cannot delete the default channel", 9⟩
    else .ok ((channels.eraseIdx i).mapIdx fun i ch => { ch with sortOrder := i })
  | none => .error ⟨"channel not found", 5⟩

/-- The index by id, where a later channel replaces an earlier one. -/
def byID (id : String) : Option VoiceChannelDef := channels.reverse.find? fun ch => ch.id = id

/-- The last position of an id, which stays with its channel. -/
def lastPosition (ids : List String) (id : String) : Nat := ids.length - 1 - ids.reverse.idxOf id

def reorderChannels (channelIDs : List String) : Except Failure (List VoiceChannelDef) :=
  if channelIDs.length ≠ channels.length then .error ⟨"channel_ids must contain all channels", 3⟩
  else
    match channelIDs.find? fun id => (byID channels id).isNone with
    | some id => .error ⟨"unknown channel_id: " ++ id, 3⟩
    | none =>
      .ok (channelIDs.filterMap fun id =>
        (byID channels id).map fun ch => { ch with sortOrder := lastPosition channelIDs id })

end Changes

section Calls

variable (context : Context) (channels : List VoiceChannelDef)

def ChannelCreateRPC (newID name : String) (bitrateKbps : Option Int) : Except Failure (List VoiceChannelDef) :=
  call context (checkName name "crew_id and name required" >>= fun _ => validateChannelBitrate bitrateKbps)
    (fun bitrate channels => createChannel channels newID name bitrate) channels

def ChannelRenameRPC (channelID name : String) : Except Failure (List VoiceChannelDef) :=
  call context
    (if channelID = "" then .error ⟨"crew_id, channel_id and name required", 3⟩
      else checkName name "crew_id, channel_id and name required")
    (fun _ channels => changeChannel channels channelID fun ch => { ch with name }) channels

def ChannelDeleteRPC (channelID : String) : Except Failure (List VoiceChannelDef) :=
  call context (if channelID = "" then .error ⟨"crew_id and channel_id required", 3⟩ else .ok ())
    (fun _ channels => deleteChannel channels channelID) channels

def ChannelReorderRPC (channelIDs : List String) : Except Failure (List VoiceChannelDef) :=
  call context (if channelIDs = [] then .error ⟨"crew_id and channel_ids required", 3⟩ else .ok ())
    (fun _ channels => reorderChannels channels channelIDs) channels

def ChannelUpdateRPC (channelID : String) (bitrateKbps : Option Int) : Except Failure (List VoiceChannelDef) :=
  call context
    (if channelID = "" ∨ bitrateKbps = none then .error ⟨"crew_id, channel_id and bitrate_kbps required", 3⟩
      else validateChannelBitrate bitrateKbps)
    (fun bitrate channels => changeChannel channels channelID fun ch => { ch with bitrateKbps := bitrate }) channels

end Calls

inductive Request where
  | create (newID name : String) (bitrateKbps : Option Int)
  | rename (channelID name : String)
  | delete (channelID : String)
  | reorder (channelIDs : List String)
  | update (channelID : String) (bitrateKbps : Option Int)
  deriving DecidableEq, Repr

def answer (channels : List VoiceChannelDef) (context : Context) : Request → Except Failure (List VoiceChannelDef)
  | .create newID name bitrateKbps => ChannelCreateRPC context channels newID name bitrateKbps
  | .rename channelID name => ChannelRenameRPC context channels channelID name
  | .delete channelID => ChannelDeleteRPC context channels channelID
  | .reorder channelIDs => ChannelReorderRPC context channels channelIDs
  | .update channelID bitrateKbps => ChannelUpdateRPC context channels channelID bitrateKbps

/-- The stored list after a call. -/
def after (channels : List VoiceChannelDef) (input : Context × Request) : List VoiceChannelDef :=
  match answer channels input.1 input.2 with
  | .ok stored => stored
  | .error _ => channels

def step (channels : List VoiceChannelDef) (input : Context × Request) : Option (List VoiceChannelDef) :=
  some (after channels input)

/-! ## What a call keeps -/

structure WellFormed (channels : List VoiceChannelDef) : Prop where
  ids : (channels.map VoiceChannelDef.id).Nodup
  default : channels.countP VoiceChannelDef.isDefault = 1
  few : channels.length ≤ MaxChannelsPerCrew
  orders : ∀ (i : Nat) (ch : VoiceChannelDef), channels[i]? = some ch → ch.sortOrder = i

/-- A channel but for its place. -/
def VoiceChannelDef.unplaced (ch : VoiceChannelDef) : VoiceChannelDef := { ch with sortOrder := 0 }

/-- What the list is after a call, and what the call does to it. -/
structure Kept (channels : List VoiceChannelDef) (input : Context × Request) : Prop where
  formed : WellFormed (after channels input)
  failed : ∀ failure, answer channels input.1 input.2 = .error failure → after channels input = channels
  reordered : ∀ ids stored, input.2 = .reorder ids → answer channels input.1 input.2 = .ok stored →
    (stored.map VoiceChannelDef.unplaced).Perm (channels.map VoiceChannelDef.unplaced)

/-- Everything around the call works. -/
def Context.Open (context : Context) : Prop :=
  context.authenticated = true ∧ context.decodes = true ∧ context.manages = true ∧ context.loads = true ∧
    context.saves = true

/-- The id of a new channel is new, and a reorder names no channel twice. -/
def Distinct (channels : List VoiceChannelDef) (input : Context × Request) : Prop :=
  match input.2 with
  | .create newID name bitrateKbps =>
    input.1.Open → name ≠ "" → name.utf8ByteSize ≤ 32 → (validateChannelBitrate bitrateKbps).isOk →
      channels.length < MaxChannelsPerCrew → newID ∉ channels.map VoiceChannelDef.id
  | .reorder ids =>
    input.1.Open → ids.length = channels.length → (∀ id ∈ ids, id ∈ channels.map VoiceChannelDef.id) → ids.Nodup
  | _ => True

/-! ## One call -/

/-- A call is answered when everything around it works, and its check and its change do. -/
theorem call_eq_ok {Checked : Type} {context : Context} {check : Except Failure Checked}
    {change : Checked → List VoiceChannelDef → Except Failure (List VoiceChannelDef)} {channels stored : List VoiceChannelDef} :
    call context check change channels = .ok stored ↔
      context.Open ∧ ∃ checked, check = .ok checked ∧ change checked channels = .ok stored := by
  unfold call Context.Open
  simp only [bind_eq_ok, require_eq_ok, pure_eq_ok]
  constructor
  · rintro ⟨-, authenticated, -, decodes, checked, checks, -, manages, -, loads, after, changed, -, saves, rfl⟩
    exact ⟨⟨authenticated, decodes, manages, loads, saves⟩, checked, checks, changed⟩
  · rintro ⟨⟨authenticated, decodes, manages, loads, saves⟩, checked, checks, changed⟩
    exact ⟨(), authenticated, (), decodes, checked, checks, (), manages, (), loads, stored, changed, (), saves, rfl⟩

/-! ## The changes -/

section Changes

variable {channels stored : List VoiceChannelDef}

/-- What `WellFormed` sees of a channel. -/
def VoiceChannelDef.shape (ch : VoiceChannelDef) : String × Bool × Nat := (ch.id, ch.isDefault, ch.sortOrder)

theorem WellFormed.of_shape (formed : WellFormed channels)
    (same : stored.map VoiceChannelDef.shape = channels.map VoiceChannelDef.shape) : WellFormed stored := by
  have ids : stored.map VoiceChannelDef.id = channels.map VoiceChannelDef.id := by
    have fronts := congrArg (List.map Prod.fst) same
    rwa [List.map_map, List.map_map] at fronts
  have defaults : stored.map VoiceChannelDef.isDefault = channels.map VoiceChannelDef.isDefault := by
    have middles := congrArg (List.map fun shape => shape.2.1) same
    rwa [List.map_map, List.map_map] at middles
  have orders : stored.map VoiceChannelDef.sortOrder = channels.map VoiceChannelDef.sortOrder := by
    have backs := congrArg (List.map fun shape => shape.2.2) same
    rwa [List.map_map, List.map_map] at backs
  have length : stored.length = channels.length := by
    have lengths := congrArg List.length same
    rwa [List.length_map, List.length_map] at lengths
  constructor
  · rw [ids]
    exact formed.ids
  · have count := congrArg (List.countP id) defaults
    rw [List.countP_map, List.countP_map] at count
    exact count.trans formed.default
  · rw [length]
    exact formed.few
  · intro i ch here
    have place : (stored.map VoiceChannelDef.sortOrder)[i]? = some ch.sortOrder := by
      rw [List.getElem?_map, here]
      rfl
    rw [orders, List.getElem?_map] at place
    obtain ⟨other, there, equal⟩ := Option.map_eq_some_iff.mp place
    rw [← equal]
    exact formed.orders i other there

theorem wellFormed_changeChannel (formed : WellFormed channels) {channelID : String}
    {change : VoiceChannelDef → VoiceChannelDef} (shape : ∀ ch, (change ch).shape = ch.shape)
    (changed : changeChannel channels channelID change = .ok stored) : WellFormed stored := by
  unfold changeChannel at changed
  split at changed
  · cases changed
    apply formed.of_shape
    apply List.ext_getElem?
    intro i
    rw [List.getElem?_map, List.getElem?_map, List.getElem?_modify]
    cases channels[i]? with
    | none => rfl
    | some ch =>
      refine congrArg some ?_
      change VoiceChannelDef.shape (if _ then _ else _) = _
      split_ifs
      · exact shape ch
      · rfl
  · cases changed

/-- A new channel keeps the list well formed exactly when its id is new. -/
theorem wellFormed_createChannel (formed : WellFormed channels) {id name : String} {bitrateKbps : Int}
    (created : createChannel channels id name bitrateKbps = .ok stored) :
    WellFormed stored ↔ id ∉ channels.map VoiceChannelDef.id := by
  unfold createChannel at created
  split_ifs at created with full
  cases created
  constructor
  · intro after
    have ids := after.ids
    rw [List.map_append, List.nodup_append] at ids
    intro member
    exact ids.2.2 id member id List.mem_cons_self rfl
  · intro fresh
    constructor
    · rw [List.map_append, List.nodup_append]
      refine ⟨formed.ids, List.nodup_singleton id, ?_⟩
      intro other member new here
      rw [List.mem_singleton.mp here]
      rintro rfl
      exact fresh member
    · rw [List.countP_append, formed.default]
      rfl
    · rw [List.length_append]
      exact not_le.mp full
    · intro i ch here
      rcases Nat.lt_or_ge i channels.length with old | new
      · rw [List.getElem?_append_left old] at here
        exact formed.orders i ch here
      · rw [List.getElem?_append_right new, List.getElem?_singleton] at here
        split_ifs at here with last
        cases here
        change channels.length = i
        omega

/-- New sort orders leave the rest of a channel. -/
theorem map_renumbered {α : Type} (read : VoiceChannelDef → α) (unplaced : ∀ ch, read ch.unplaced = read ch)
    (list : List VoiceChannelDef) : (list.mapIdx fun i ch => { ch with sortOrder := i }).map read = list.map read := by
  apply List.ext_getElem?
  intro i
  rw [List.getElem?_map, List.getElem?_map, List.getElem?_mapIdx]
  cases list[i]? with
  | none => rfl
  | some ch => exact congrArg some ((unplaced _).symm.trans (unplaced ch))

theorem countP_eq_of_map {list : List VoiceChannelDef}
    (same : stored.map VoiceChannelDef.isDefault = list.map VoiceChannelDef.isDefault) :
    stored.countP VoiceChannelDef.isDefault = list.countP VoiceChannelDef.isDefault := by
  have count := congrArg (List.countP id) same
  rwa [List.countP_map, List.countP_map] at count

theorem wellFormed_deleteChannel (formed : WellFormed channels) {channelID : String}
    (deleted : deleteChannel channels channelID = .ok stored) : WellFormed stored := by
  unfold deleteChannel at deleted
  split at deleted
  · rename_i i found
    split_ifs at deleted with other
    cases deleted
    have inside : i < channels.length := (List.findIdx?_eq_some_iff_getElem.mp found).1
    rw [List.getElem?_eq_getElem inside] at other
    have plain : channels[i].isDefault = false := Bool.not_eq_true _ ▸ other
    have split : (channels[i] :: channels.eraseIdx i).Perm channels := List.getElem_cons_eraseIdx_perm inside
    constructor
    · rw [map_renumbered _ fun _ => rfl]
      exact formed.ids.sublist ((List.eraseIdx_sublist channels i).map _)
    · rw [countP_eq_of_map (map_renumbered _ (fun _ => rfl) _)]
      have count := split.countP_eq VoiceChannelDef.isDefault
      rw [List.countP_cons_of_neg (by rw [plain]; exact Bool.false_ne_true)] at count
      rw [count, formed.default]
    · rw [List.length_mapIdx]
      exact (List.eraseIdx_sublist channels i).length_le.trans formed.few
    · intro j ch here
      rw [List.getElem?_mapIdx] at here
      obtain ⟨kept, -, same⟩ := Option.map_eq_some_iff.mp here
      rw [← same]
  · cases deleted

/-! ## The reorder -/

theorem mem_of_byID {id : String} {ch : VoiceChannelDef} (found : byID channels id = some ch) :
    ch ∈ channels ∧ ch.id = id := by
  have named := List.find?_some found
  exact ⟨List.mem_reverse.mp (List.mem_of_find?_eq_some found), of_decide_eq_true named⟩

theorem isSome_byID {id : String} : (byID channels id).isSome ↔ id ∈ channels.map VoiceChannelDef.id := by
  unfold byID
  rw [List.find?_isSome]
  constructor
  · rintro ⟨ch, member, same⟩
    exact List.mem_map.mpr ⟨ch, List.mem_reverse.mp member, of_decide_eq_true same⟩
  · intro member
    obtain ⟨ch, inside, same⟩ := List.mem_map.mp member
    exact ⟨ch, List.mem_reverse.mpr inside, decide_eq_true same⟩

/-- With pairwise different ids the index finds each channel. -/
theorem byID_self (nodup : (channels.map VoiceChannelDef.id).Nodup) {ch : VoiceChannelDef} (member : ch ∈ channels) :
    byID channels ch.id = some ch := by
  obtain ⟨other, found⟩ := Option.isSome_iff_exists.mp (isSome_byID.mpr (List.mem_map_of_mem member))
  obtain ⟨inside, same⟩ := mem_of_byID found
  rw [found, List.inj_on_of_nodup_map nodup inside member same]

/-- The channel that a reorder puts at the place of an id. -/
def placed (channels : List VoiceChannelDef) (ids : List String) (id : String) : VoiceChannelDef :=
  { (byID channels id).getD ⟨id, "", false, 0, 0⟩ with sortOrder := lastPosition ids id }

theorem placed_id {ids : List String} {id : String} (known : id ∈ channels.map VoiceChannelDef.id) :
    (placed channels ids id).id = id := by
  obtain ⟨ch, found⟩ := Option.isSome_iff_exists.mp (isSome_byID.mpr known)
  unfold placed
  rw [found]
  exact (mem_of_byID found).2

theorem reorderChannels_eq_ok {ids : List String} : reorderChannels channels ids = .ok stored ↔
    ids.length = channels.length ∧ (∀ id ∈ ids, id ∈ channels.map VoiceChannelDef.id) ∧
      stored = ids.map (placed channels ids) := by
  have whole : (∀ id ∈ ids, id ∈ channels.map VoiceChannelDef.id) →
      (ids.filterMap fun id => (byID channels id).map fun ch => { ch with sortOrder := lastPosition ids id }) =
        ids.map (placed channels ids) := by
    intro known
    rw [← List.filterMap_eq_map]
    apply List.filterMap_congr
    intro id member
    obtain ⟨ch, found⟩ := Option.isSome_iff_exists.mp (isSome_byID.mpr (known id member))
    have here : placed channels ids id = { ch with sortOrder := lastPosition ids id } := by
      unfold placed
      rw [found]
      rfl
    change _ = some (placed channels ids id)
    rw [here, found]
    rfl
  unfold reorderChannels
  split_ifs with length
  · exact iff_of_false nofun fun all => length all.1
  · rw [iff_true_intro (not_not.mp length), true_and]
    split
    · rename_i id unknown
      refine iff_of_false nofun fun all => ?_
      have missing := List.find?_some unknown
      have there := isSome_byID.mpr (all.1 id (List.mem_of_find?_eq_some unknown))
      rw [Option.isNone_iff_eq_none] at missing
      rw [missing] at there
      cases there
    · rename_i all
      have known : ∀ id ∈ ids, id ∈ channels.map VoiceChannelDef.id := by
        intro id member
        have there := List.find?_eq_none.mp all id member
        rw [← isSome_byID]
        cases found : byID channels id with
        | none =>
          rw [found] at there
          exact absurd rfl there
        | some ch => rfl
      rw [whole known, iff_true_intro known, true_and, Except.ok.injEq]
      exact eq_comm

theorem lastPosition_getElem {ids : List String} (nodup : ids.Nodup) {i : Nat} (inside : i < ids.length) :
    lastPosition ids ids[i] = i := by
  have back : ids.length - 1 - i < ids.reverse.length := by
    rw [List.length_reverse]
    omega
  have here : ids.reverse[ids.length - 1 - i] = ids[i] := by
    rw [List.getElem_reverse]
    congr 1
    omega
  unfold lastPosition
  rw [← here, (List.nodup_reverse.mpr nodup).idxOf_getElem]
  omega

section Reordered

variable {ids : List String}

theorem map_id_placed (known : ∀ id ∈ ids, id ∈ channels.map VoiceChannelDef.id) :
    (ids.map (placed channels ids)).map VoiceChannelDef.id = ids := by
  rw [List.map_map]
  conv_rhs => rw [← List.map_id ids]
  apply List.map_congr_left
  intro id member
  exact placed_id (known id member)

/-- A reorder that names no channel twice names each once. -/
theorem perm_placed (formed : WellFormed channels) (length : ids.length = channels.length)
    (known : ∀ id ∈ ids, id ∈ channels.map VoiceChannelDef.id) (nodup : ids.Nodup) :
    ((ids.map (placed channels ids)).map VoiceChannelDef.unplaced).Perm (channels.map VoiceChannelDef.unplaced) := by
  have all : ids.Perm (channels.map VoiceChannelDef.id) := by
    apply (nodup.subperm known).perm_of_length_le
    rw [List.length_map, length]
  have back : (channels.map VoiceChannelDef.id).map (VoiceChannelDef.unplaced ∘ placed channels ids) =
      channels.map VoiceChannelDef.unplaced := by
    rw [List.map_map]
    apply List.map_congr_left
    intro ch member
    change VoiceChannelDef.unplaced (placed channels ids ch.id) = _
    unfold placed
    rw [byID_self formed.ids member]
    rfl
  rw [List.map_map, ← back]
  exact all.map _

theorem wellFormed_reorderChannels (formed : WellFormed channels) (reordered : reorderChannels channels ids = .ok stored) :
    WellFormed stored ↔ ids.Nodup := by
  obtain ⟨length, known, rfl⟩ := reorderChannels_eq_ok.mp reordered
  constructor
  · intro after
    have distinct := after.ids
    rwa [map_id_placed known] at distinct
  · intro nodup
    have perm := perm_placed formed length known nodup
    constructor
    · rwa [map_id_placed known]
    · have counts : ∀ list : List VoiceChannelDef, ((list.map VoiceChannelDef.unplaced).map VoiceChannelDef.isDefault).countP id =
          list.countP VoiceChannelDef.isDefault := by
        intro list
        rw [List.countP_map, List.countP_map]
        rfl
      have defaults := (perm.map VoiceChannelDef.isDefault).countP_eq id
      rw [counts, counts] at defaults
      exact defaults.trans formed.default
    · rw [List.length_map, length]
      exact formed.few
    · intro i ch here
      rw [List.getElem?_map] at here
      obtain ⟨id, there, same⟩ := Option.map_eq_some_iff.mp here
      obtain ⟨inside, rfl⟩ := List.getElem?_eq_some_iff.mp there
      rw [← same]
      exact lastPosition_getElem nodup inside

end Reordered

end Changes

/-! ## Every run -/

section Answers

variable {channels stored : List VoiceChannelDef} {context : Context} {request : Request}

theorem after_ok (accepted : answer channels context request = .ok stored) :
    after channels (context, request) = stored := by
  unfold after
  rw [accepted]

theorem after_error {failure : Failure} (refused : answer channels context request = .error failure) :
    after channels (context, request) = channels := by
  unfold after
  rw [refused]

/-- A refused call keeps the list as it is, so only the accepted ones matter. -/
theorem kept_iff_answer (formed : WellFormed channels) :
    Kept channels (context, request) ↔ ∀ stored, answer channels context request = .ok stored →
      WellFormed stored ∧ ∀ ids, request = .reorder ids →
        (stored.map VoiceChannelDef.unplaced).Perm (channels.map VoiceChannelDef.unplaced) := by
  constructor
  · intro kept stored accepted
    have formed := kept.formed
    rw [after_ok accepted] at formed
    exact ⟨formed, fun ids same => kept.reordered ids stored same accepted⟩
  · intro all
    refine ⟨?_, fun failure refused => after_error refused, fun ids stored same accepted => (all stored accepted).2 ids same⟩
    cases result : answer channels context request with
    | ok stored =>
      rw [after_ok result]
      exact (all stored result).1
    | error failure =>
      rw [after_error result]
      exact formed

theorem checkName_eq_ok {name missing : String} {done : Unit} :
    checkName name missing = .ok done ↔ name ≠ "" ∧ name.utf8ByteSize ≤ 32 := by
  unfold checkName
  split_ifs with empty long
  · exact iff_of_false nofun fun both => both.1 empty
  · exact iff_of_false nofun fun both => absurd both.2 (not_le.mpr long)
  · exact iff_of_true rfl ⟨empty, not_lt.mp long⟩

theorem create_eq_ok {newID name : String} {bitrateKbps : Option Int} :
    answer channels context (.create newID name bitrateKbps) = .ok stored ↔
      context.Open ∧ (name ≠ "" ∧ name.utf8ByteSize ≤ 32) ∧ ∃ bitrate, validateChannelBitrate bitrateKbps = .ok bitrate ∧
        createChannel channels newID name bitrate = .ok stored := by
  rw [answer, ChannelCreateRPC, call_eq_ok]
  simp only [bind_eq_ok, checkName_eq_ok]
  constructor
  · rintro ⟨works, bitrate, ⟨-, named, valid⟩, created⟩
    exact ⟨works, named, bitrate, valid, created⟩
  · rintro ⟨works, named, bitrate, valid, created⟩
    exact ⟨works, bitrate, ⟨(), named, valid⟩, created⟩

theorem reorder_eq_ok {ids : List String} :
    answer channels context (.reorder ids) = .ok stored ↔
      context.Open ∧ ids ≠ [] ∧ reorderChannels channels ids = .ok stored := by
  rw [answer, ChannelReorderRPC, call_eq_ok]
  split_ifs with none
  · exact iff_of_false (fun all => by obtain ⟨-, -, bad, -⟩ := all; cases bad) fun all => all.2.1 none
  · constructor
    · rintro ⟨works, -, -, reordered⟩
      exact ⟨works, none, reordered⟩
    · rintro ⟨works, -, reordered⟩
      exact ⟨works, (), rfl, reordered⟩

/-- A new channel with its id in the list already. -/
theorem kept_create_iff (formed : WellFormed channels) (newID name : String) (bitrateKbps : Option Int) :
    Kept channels (context, .create newID name bitrateKbps) ↔ Distinct channels (context, .create newID name bitrateKbps) := by
  rw [kept_iff_answer formed]
  constructor
  · intro all works named short valid room
    cases bitrate : validateChannelBitrate bitrateKbps with
    | error failure =>
      rw [bitrate] at valid
      cases valid
    | ok kbps =>
      have created : createChannel channels newID name kbps = .ok _ := if_neg (not_le.mpr room)
      have accepted := create_eq_ok.mpr ⟨works, ⟨named, short⟩, kbps, bitrate, created⟩
      exact (wellFormed_createChannel formed created).mp (all _ accepted).1
  · intro distinct stored accepted
    obtain ⟨works, ⟨named, short⟩, kbps, valid, created⟩ := create_eq_ok.mp accepted
    have room : channels.length < MaxChannelsPerCrew := by
      unfold createChannel at created
      split_ifs at created with full
      exact not_le.mp full
    have fresh := distinct works named short (by rw [valid]; rfl) room
    exact ⟨(wellFormed_createChannel formed created).mpr fresh, nofun⟩

/-- A reorder that names one channel twice, and another one not at all. -/
theorem kept_reorder_iff (formed : WellFormed channels) (ids : List String) :
    Kept channels (context, .reorder ids) ↔ Distinct channels (context, .reorder ids) := by
  rw [kept_iff_answer formed]
  constructor
  · intro all works length known
    by_cases none : ids = []
    · rw [none]
      exact List.nodup_nil
    · have reordered := reorderChannels_eq_ok.mpr ⟨length, known, rfl⟩
      have accepted := reorder_eq_ok.mpr ⟨works, none, reordered⟩
      exact (wellFormed_reorderChannels formed reordered).mp (all _ accepted).1
  · intro distinct stored accepted
    obtain ⟨works, -, reordered⟩ := reorder_eq_ok.mp accepted
    obtain ⟨length, known, same⟩ := reorderChannels_eq_ok.mp reordered
    have nodup := distinct works length known
    refine ⟨(wellFormed_reorderChannels formed reordered).mpr nodup, fun _ _ => ?_⟩
    rw [same]
    exact perm_placed formed length known nodup

/-- A call keeps the list exactly when the ids it brings are distinct. -/
theorem kept_iff (formed : WellFormed channels) (input : Context × Request) :
    Kept channels input ↔ Distinct channels input := by
  obtain ⟨context, request⟩ := input
  have other : (∀ ids, request ≠ .reorder ids) →
      (∀ stored, answer channels context request = .ok stored → WellFormed stored) → Kept channels (context, request) := by
    intro apart all
    exact (kept_iff_answer formed).mpr fun stored accepted => ⟨all stored accepted, fun ids same => absurd same (apart ids)⟩
  cases request with
  | create newID name bitrateKbps => exact kept_create_iff formed newID name bitrateKbps
  | reorder channelIDs => exact kept_reorder_iff formed channelIDs
  | rename channelID name =>
    refine iff_of_true (other nofun ?_) trivial
    intro stored accepted
    rw [answer, ChannelRenameRPC] at accepted
    obtain ⟨-, checked, -, changed⟩ := call_eq_ok.mp accepted
    refine wellFormed_changeChannel formed ?_ changed
    intro ch
    rfl
  | delete channelID =>
    refine iff_of_true (other nofun ?_) trivial
    intro stored accepted
    rw [answer, ChannelDeleteRPC] at accepted
    obtain ⟨-, checked, -, changed⟩ := call_eq_ok.mp accepted
    exact wellFormed_deleteChannel formed changed
  | update channelID bitrateKbps =>
    refine iff_of_true (other nofun ?_) trivial
    intro stored accepted
    rw [answer, ChannelUpdateRPC] at accepted
    obtain ⟨-, checked, -, changed⟩ := call_eq_ok.mp accepted
    refine wellFormed_changeChannel formed ?_ changed
    intro ch
    rfl

end Answers

theorem wellFormed_InitDefaultChannel (id : String) : WellFormed (InitDefaultChannel id) := by
  constructor
  · exact List.nodup_singleton id
  · rfl
  · change 1 ≤ 8
    decide
  · intro i ch here
    obtain ⟨inside, rfl⟩ := List.getElem?_eq_some_iff.mp here
    obtain rfl := Nat.lt_one_iff.mp inside
    rfl

/-- Every call keeps the list along exactly the runs whose calls bring distinct ids. -/
theorem kept_always_iff (id : String) (inputs : List (Context × Request)) :
    EachStep step Kept (InitDefaultChannel id) inputs ↔ EachStep step Distinct (InitDefaultChannel id) inputs := by
  apply eachStep_iff_eachStep WellFormed
  · intro channels input formed
    exact kept_iff formed input
  · intro channels input stored formed kept stepped
    cases stepped
    exact kept.formed
  · exact wellFormed_InitDefaultChannel id

def working : Context := ⟨true, true, true, true, true⟩

/-- The owner adds a channel, and a client sends the default channel twice. -/
def twiceNamed : List (Context × Request) :=
  [(working, .create "ch_two" "Games" none), (working, .reorder ["ch_one", "ch_one"])]

/-- The reorder succeeds: the new channel is gone, and the default one is there twice. -/
theorem twiceNamed_breaks :
    run step (InitDefaultChannel "ch_one") twiceNamed =
      some [⟨"ch_one", "General", true, 1, 0⟩, ⟨"ch_one", "General", true, 1, 0⟩] ∧
    ¬EachStep step Kept (InitDefaultChannel "ch_one") twiceNamed := by
  refine ⟨by decide, fun all => ?_⟩
  have ids := ((all _ rfl).2 _ rfl).1.formed.ids
  revert ids
  decide

end Mello.Backend.VoiceChannels
