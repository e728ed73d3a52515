import Mello.Library.Runs
import Mello.Library.Tables
import Mello.Library.Versioned

/-!
The emoji of one crew, and the calls that add and remove them. A removal deletes the
object of the image after the document is written. The checks of membership and of the
gift come before and touch nothing; a write that fails has no effect.
-/

namespace Mello.Backend.EmojiSlots
open Mello.Library Documents Runs Tables Versioned

/-! ## The document -/

def crewEmojiSlots : Nat := 5

def emojiKeyPrefix : String := "crew-emoji/"

structure CrewEmoji where
  id : String
  name : String
  url : String
  key : String
  addedBy : String
  addedByName : String
  addedMs : Int
  deriving DecidableEq, Repr

structure CrewEmojiDoc where
  crewID : String
  emoji : List CrewEmoji := []
  deriving DecidableEq, Repr

def CrewEmojiDoc.has (d : CrewEmojiDoc) (name : String) : Bool := d.emoji.any fun e => e.name = name

/-- `crewEmojiNameRe`. -/
def crewEmojiName (name : String) : Bool :=
  2 ≤ name.length && name.length ≤ 24 && name.toList.all fun c => ('a' ≤ c && c ≤ 'z') || ('0' ≤ c && c ≤ '9') || c == '_'

def mediaKeyOf (key folder crewID : String) (exts : List String) : Bool :=
  let start := folder.toList ++ crewID.toList ++ ['/']
  let rest := key.toList.drop start.length
  start.isPrefixOf key.toList && !rest.contains '/' && !(rest.zip rest.tail).contains ('.', '.') &&
    exts.any fun ext => ('.' :: ext.toList).isSuffixOf rest && ext.length + 1 < rest.length

/-! ## The calls -/

/-- The name is trimmed and in lower case. -/
inductive Request where
  | CrewEmojiAdd (e : CrewEmoji)
  | CrewEmojiRemove (userID name : String) (owner : Bool)
  deriving DecidableEq, Repr

def Request.accepted (crewID : String) : Request → Bool
  | .CrewEmojiAdd e => crewEmojiName e.name && mediaKeyOf e.key emojiKeyPrefix crewID ["jpg", "png", "gif"]
  | .CrewEmojiRemove .. => true

inductive Error where
  | noFreeSlot
  | nameTaken
  | onlyAdderOrOwner
  | noSuchEmoji
  | writeFailed
  deriving DecidableEq, Repr

/-- What `updateCrewEmoji` writes for a request, and the key to delete, empty for none. -/
def change (crewID : String) : Request → CrewEmojiDoc → Except Error (CrewEmojiDoc × String)
  | .CrewEmojiAdd e, d =>
    if crewEmojiSlots ≤ d.emoji.length then .error .noFreeSlot
    else if d.has e.name then .error .nameTaken
    else .ok (⟨crewID, d.emoji ++ [e]⟩, "")
  | .CrewEmojiRemove userID name owner, d =>
    match d.emoji.find? fun e => e.name = name with
    | none => .error .noSuchEmoji
    | some e =>
      if e.addedBy ≠ userID ∧ owner = false then .error .onlyAdderOrOwner
      else .ok (⟨crewID, d.emoji.eraseP fun e => e.name = name⟩, e.key)

inductive Phase where
  | reading
  | writing (expect : Expect) (doc : CrewEmojiDoc) (removedKey : String)
  | deleting (removedKey : String)
  | reported
  | refused (error : Error)
  deriving DecidableEq, Repr

def Phase.succeeded : Phase → Bool
  | .deleting _ | .reported => true
  | _ => false

structure Call where
  request : Request
  attempt : Nat := 0
  phase : Phase := .reading
  deriving DecidableEq, Repr

/-- The log has the calls that took effect, and `deleted` each deleted key with the
document that was stored then. -/
structure State where
  store : Store CrewEmojiDoc := {}
  calls : List Call := []
  log : List (Nat × Request) := []
  deleted : List (String × CrewEmojiDoc) := []

inductive Action where
  | call (request : Request)
  | read (k : Nat) (works : Bool)
  | write (k : Nat) (works : Bool)
  | delete (k : Nat) (works : Bool)
  deriving DecidableEq, Repr

def afterChange (expect : Expect) : Except Error (CrewEmojiDoc × String) → Phase
  | .error error => .refused error
  | .ok (doc, removedKey) => .writing expect doc removedKey

def retry (request : Request) (attempt : Nat) : Call :=
  if attempt + 1 < 3 then ⟨request, attempt + 1, .reading⟩ else ⟨request, attempt, .refused .writeFailed⟩

section Steps

variable (crewID : String) (chatImagesConfigured : Bool)

def current (s : State) : CrewEmojiDoc := value { crewID } s.store

def afterWrite (removedKey : String) : Phase :=
  if removedKey ≠ "" ∧ chatImagesConfigured = true then .deleting removedKey else .reported

def step (s : State) : Action → Option State
  | .call request => if request.accepted crewID then some { s with calls := s.calls ++ [{ request }] } else none
  | .read k works =>
    match s.calls[k]? with
    | some ⟨request, attempt, .reading⟩ =>
      let found := take { crewID } (if works then s.store.read else .failed)
      some { s with calls := s.calls.set k ⟨request, attempt, afterChange found.2 (change crewID request found.1)⟩ }
    | _ => none
  | .write k works =>
    match s.calls[k]? with
    | some ⟨request, attempt, .writing expect doc removedKey⟩ =>
      match s.store.write expect doc works with
      | some store =>
        some { s with
          store
          calls := s.calls.set k ⟨request, attempt, afterWrite chatImagesConfigured removedKey⟩
          log := s.log ++ [(k, request)] }
      | none => some { s with calls := s.calls.set k (retry request attempt) }
    | _ => none
  | .delete k works =>
    match s.calls[k]? with
    | some ⟨request, attempt, .deleting removedKey⟩ =>
      some { s with
        calls := s.calls.set k ⟨request, attempt, .reported⟩
        deleted := if works then s.deleted ++ [(removedKey, current crewID s)] else s.deleted }
    | _ => none

/-! ## The law -/

/-- The document that the calls of a log make, one after the other. -/
def replay (log : List (Nat × Request)) : Except Error CrewEmojiDoc :=
  log.foldlM (fun doc entry => (change crewID entry.2 doc).map Prod.fst) { crewID }

structure Consistent (s : State) : Prop where
  slots : (current crewID s).emoji.length ≤ crewEmojiSlots
  names : ((current crewID s).emoji.map CrewEmoji.name).Nodup
  once : ∀ k request attempt, s.calls[k]? = some ⟨request, attempt, .reported⟩ →
    s.log.filter (fun entry => entry.1 = k) = [(k, request)]
  effects : replay crewID s.log = .ok (current crewID s)
  survives : ∀ entry ∈ s.deleted, ∀ e ∈ entry.2.emoji, e.key ≠ entry.1

/-- A call is about to delete the key. -/
def Pending (s : State) (removedKey : String) : Prop :=
  ∃ (k : Nat) (request : Request) (attempt : Nat), s.calls[k]? = some ⟨request, attempt, .deleting removedKey⟩

/-- No call is about to delete the key of an emoji. -/
def Unused (s : State) : Prop := ∀ e ∈ (current crewID s).emoji, ¬Pending s e.key

/-- An added key waits for no delete, and a removed one is the key of no other emoji. -/
def Alone (s : State) : Request → Prop
  | .CrewEmojiAdd e => ¬Pending s e.key
  | .CrewEmojiRemove _ name _ => chatImagesConfigured = true → ∀ e ∈ (current crewID s).emoji, e.name = name → e.key ≠ "" →
      ∀ other ∈ (current crewID s).emoji, other.name ≠ name → other.key ≠ e.key

/-- Each write that is taken is of a key of its own. -/
def Unshared (s : State) : Action → Prop
  | .write k true =>
    ∀ (request : Request) (attempt : Nat) (expect : Expect) (doc : CrewEmojiDoc) (removedKey : String),
      s.calls[k]? = some ⟨request, attempt, .writing expect doc removedKey⟩ → s.store.admits expect = true →
        Alone crewID chatImagesConfigured s request
  | _ => True

end Steps

/-! ## One change -/

section Changes

variable {crewID removedKey : String} {d doc : CrewEmojiDoc} {request : Request}

/-- What a request makes of the document. -/
inductive Changed (d doc : CrewEmojiDoc) : Request → String → Prop
  | added {e : CrewEmoji} (room : d.emoji.length < crewEmojiSlots) (free : ∀ other ∈ d.emoji, other.name ≠ e.name)
      (made : doc.emoji = d.emoji ++ [e]) : Changed d doc (.CrewEmojiAdd e) ""
  | removed {userID name : String} {owner : Bool} {e : CrewEmoji} (found : e ∈ d.emoji) (named : e.name = name)
      (made : doc.emoji = d.emoji.eraseP fun e => e.name = name) : Changed d doc (.CrewEmojiRemove userID name owner) e.key

theorem changed_of_change (made : change crewID request d = .ok (doc, removedKey)) : Changed d doc request removedKey := by
  cases request with
  | CrewEmojiAdd e =>
    rw [change] at made
    split_ifs at made with full taken
    cases made
    refine .added (Nat.lt_of_not_le full) ?_ rfl
    intro other member same
    apply taken
    unfold CrewEmojiDoc.has
    exact List.any_eq_true.mpr ⟨other, member, decide_eq_true same⟩
  | CrewEmojiRemove userID name owner =>
    rw [change] at made
    split at made
    · cases made
    · rename_i e found
      split_ifs at made
      cases made
      have named := List.find?_some found
      exact .removed (List.mem_of_find?_eq_some found) (by simpa using named) rfl

/-- The first emoji of a name is the only one, so all of the name are gone. -/
theorem mem_eraseP_name {emoji : List CrewEmoji} {name : String} {e : CrewEmoji} (names : (emoji.map CrewEmoji.name).Nodup) :
    e ∈ emoji.eraseP (fun e => e.name = name) ↔ e ∈ emoji ∧ e.name ≠ name := by
  induction emoji with
  | nil => simp
  | cons first rest ih =>
    rw [List.map_cons, List.nodup_cons] at names
    by_cases same : first.name = name
    · rw [List.eraseP_cons_of_pos (by simpa using same), List.mem_cons]
      constructor
      · intro member
        refine ⟨.inr member, fun again => names.1 ?_⟩
        rw [same, ← again]
        exact List.mem_map_of_mem member
      · rintro ⟨rfl | member, other⟩
        · exact absurd same other
        · exact member
    · rw [List.eraseP_cons_of_neg (by simpa using same), List.mem_cons, List.mem_cons, ih names.2]
      constructor
      · rintro (rfl | ⟨member, other⟩)
        · exact ⟨.inl rfl, same⟩
        · exact ⟨.inr member, other⟩
      · rintro ⟨rfl | member, other⟩
        · exact .inl rfl
        · exact .inr ⟨member, other⟩

theorem Changed.slots (changed : Changed d doc request removedKey) (slots : d.emoji.length ≤ crewEmojiSlots) :
    doc.emoji.length ≤ crewEmojiSlots := by
  cases changed with
  | added room free made =>
    rw [made, List.length_append, List.length_singleton]
    exact room
  | removed found named made =>
    rw [made]
    exact (List.eraseP_sublist.length_le).trans slots

theorem Changed.names (changed : Changed d doc request removedKey) (names : (d.emoji.map CrewEmoji.name).Nodup) :
    (doc.emoji.map CrewEmoji.name).Nodup := by
  cases changed with
  | added room free made =>
    rw [made, List.map_append]
    apply names.append (List.nodup_singleton _)
    intro name old new
    obtain ⟨other, member, rfl⟩ := List.mem_map.mp old
    exact free other member (List.mem_singleton.mp new)
  | removed found named made =>
    rw [made]
    exact (List.eraseP_sublist.map _).nodup names

end Changes

/-! ## One step -/

section Step

variable {crewID : String} {chatImagesConfigured : Bool} {s t : State} {action : Action}

/-- What holds whatever the keys are. A document that waits was made of one that was
stored, and of the stored one when its write is taken. -/
structure Sound (crewID : String) (s : State) : Prop where
  slots : (current crewID s).emoji.length ≤ crewEmojiSlots
  names : ((current crewID s).emoji.map CrewEmoji.name).Nodup
  effects : replay crewID s.log = .ok (current crewID s)
  waiting : ∀ (k : Nat) (request : Request) (attempt : Nat) (expect : Expect) (doc : CrewEmojiDoc) (removedKey : String),
    s.calls[k]? = some ⟨request, attempt, .writing expect doc removedKey⟩ →
      ∃ base, Seen { crewID } s.store base expect ∧ change crewID request base = .ok (doc, removedKey)
  counted : ∀ (k : Nat) (call : Call), s.calls[k]? = some call →
    s.log.filter (fun entry => entry.1 = k) = if call.phase.succeeded then [(k, call.request)] else []
  known : ∀ entry ∈ s.log, entry.1 < s.calls.length

/-- The kinds of step. -/
inductive Moved (crewID : String) (chatImagesConfigured : Bool) (s t : State) : Action → Prop
  | called {request : Request} (moved : t = { s with calls := s.calls ++ [{ request }] }) :
      Moved crewID chatImagesConfigured s t (.call request)
  | read {k : Nat} {works : Bool} {request : Request} {attempt : Nat} (here : s.calls[k]? = some ⟨request, attempt, .reading⟩)
      (moved : t = { s with calls := s.calls.set k ⟨request, attempt,
        afterChange (take { crewID } (if works then s.store.read else .failed)).2
          (change crewID request (take { crewID } (if works then s.store.read else .failed)).1)⟩ }) :
      Moved crewID chatImagesConfigured s t (.read k works)
  | wrote {k : Nat} {request : Request} {attempt : Nat} {expect : Expect} {doc : CrewEmojiDoc} {removedKey : String}
      (here : s.calls[k]? = some ⟨request, attempt, .writing expect doc removedKey⟩)
      (admitted : s.store.admits expect = true)
      (moved : t = { s with
        store := s.store.put doc
        calls := s.calls.set k ⟨request, attempt, afterWrite chatImagesConfigured removedKey⟩
        log := s.log ++ [(k, request)] }) :
      Moved crewID chatImagesConfigured s t (.write k true)
  | missed {k : Nat} {works : Bool} {request : Request} {attempt : Nat} {expect : Expect} {doc : CrewEmojiDoc}
      {removedKey : String} (here : s.calls[k]? = some ⟨request, attempt, .writing expect doc removedKey⟩)
      (refused : works = true → s.store.admits expect = false)
      (moved : t = { s with calls := s.calls.set k (retry request attempt) }) :
      Moved crewID chatImagesConfigured s t (.write k works)
  | deleted {k : Nat} {works : Bool} {request : Request} {attempt : Nat} {removedKey : String}
      (here : s.calls[k]? = some ⟨request, attempt, .deleting removedKey⟩)
      (moved : t = { s with
        calls := s.calls.set k ⟨request, attempt, .reported⟩
        deleted := if works then s.deleted ++ [(removedKey, current crewID s)] else s.deleted }) :
      Moved crewID chatImagesConfigured s t (.delete k works)

theorem moved_of_step (stepped : step crewID chatImagesConfigured s action = some t) :
    Moved crewID chatImagesConfigured s t action := by
  cases action with
  | call request =>
    rw [step] at stepped
    split_ifs at stepped
    exact .called (Option.some.inj stepped).symm
  | read k works =>
    rw [step] at stepped
    split at stepped
    · rename_i request attempt here
      exact .read here (Option.some.inj stepped).symm
    · cases stepped
  | write k works =>
    rw [step] at stepped
    split at stepped
    · rename_i request attempt expect doc removedKey here
      split at stepped
      · rename_i store written
        obtain ⟨rfl, admitted, rfl⟩ := Store.write_eq_some.mp written
        exact .wrote here admitted (Option.some.inj stepped).symm
      · rename_i unwritten
        refine .missed here (fun works => ?_) (Option.some.inj stepped).symm
        subst works
        exact Store.write_eq_none unwritten
    · cases stepped
  | delete k works =>
    rw [step] at stepped
    split at stepped
    · rename_i request attempt removedKey here
      exact .deleted here (Option.some.inj stepped).symm
    · cases stepped

/-- A call that has not succeeded moves on to where it has not either. -/
theorem Sound.still {k : Nat} {request : Request} {attempt : Nat} {before : Phase} {next : Call} (sound : Sound crewID s)
    (here : s.calls[k]? = some ⟨request, attempt, before⟩) (begun : before.succeeded = false)
    (same : next.request = request) (waits : next.phase.succeeded = false)
    (seen : ∀ expect doc removedKey, next.phase = .writing expect doc removedKey →
      ∃ base, Seen { crewID } s.store base expect ∧ change crewID request base = .ok (doc, removedKey)) :
    Sound crewID { s with calls := s.calls.set k next } := by
  refine ⟨sound.slots, sound.names, sound.effects, ?_, ?_, ?_⟩
  · intro j other again expect doc removedKey found
    rcases getElem?_set_cases found with ⟨rfl, new⟩ | ⟨-, old⟩
    · subst new
      obtain rfl : other = request := same
      exact seen expect doc removedKey rfl
    · exact sound.waiting j other again expect doc removedKey old
  · intro j call found
    rcases getElem?_set_cases found with ⟨rfl, rfl⟩ | ⟨-, old⟩
    · rw [waits]
      have counted := sound.counted _ _ here
      rw [begun] at counted
      exact counted
    · exact sound.counted j call old
  · intro entry member
    rw [List.length_set]
    exact sound.known entry member

theorem succeeded_afterWrite (chatImagesConfigured : Bool) (removedKey : String) :
    (afterWrite chatImagesConfigured removedKey).succeeded = true := by
  unfold afterWrite
  split_ifs <;> rfl

/-- A write that is taken changes the stored document. -/
theorem changed_of_wrote {k : Nat} {request : Request} {attempt : Nat} {expect : Expect} {doc : CrewEmojiDoc}
    {removedKey : String} (sound : Sound crewID s)
    (here : s.calls[k]? = some ⟨request, attempt, .writing expect doc removedKey⟩) (admitted : s.store.admits expect = true) :
    change crewID request (current crewID s) = .ok (doc, removedKey) := by
  obtain ⟨base, seen, made⟩ := sound.waiting _ _ _ _ _ _ here
  have same : current crewID s = base := seen.admitted admitted
  rw [same]
  exact made

theorem sound_step (sound : Sound crewID s) (moved : Moved crewID chatImagesConfigured s t action) : Sound crewID t := by
  cases moved with
  | called moved =>
    rename_i request
    subst moved
    refine ⟨sound.slots, sound.names, sound.effects, ?_, ?_, ?_⟩
    · intro k other attempt expect doc removedKey found
      rcases getElem?_concat_cases found with old | ⟨-, new⟩
      · exact sound.waiting k other attempt expect doc removedKey old
      · cases new
    · intro k call found
      rcases getElem?_concat_cases found with old | ⟨rfl, rfl⟩
      · exact sound.counted k call old
      · apply List.filter_eq_nil_iff.mpr
        intro entry member same
        exact absurd (of_decide_eq_true same) (sound.known entry member).ne
    · intro entry member
      rw [List.length_append]
      exact Nat.lt_add_right _ (sound.known entry member)
  | read here moved =>
    rename_i k works request attempt
    subst moved
    apply sound.still here rfl rfl
    · cases change crewID request (take { crewID } (if works then s.store.read else .failed)).1 <;> rfl
    · intro expect doc removedKey found
      cases made : change crewID request (take { crewID } (if works then s.store.read else .failed)).1 with
      | error error =>
        rw [made] at found
        cases found
      | ok written =>
        rw [made] at found
        cases found
        exact ⟨_, seen_take works, made⟩
  | wrote here admitted moved =>
    rename_i k request attempt expect doc removedKey
    subst moved
    have made := changed_of_wrote sound here admitted
    have changed := changed_of_change made
    refine ⟨changed.slots sound.slots, changed.names sound.names, ?_, ?_, ?_, ?_⟩
    · change replay crewID (s.log ++ [(k, request)]) = .ok doc
      have before := sound.effects
      unfold replay at before ⊢
      rw [List.foldlM_append, before]
      change (change crewID request (current crewID s)).map Prod.fst >>= pure = _
      rw [made]
      rfl
    · intro j other again expects made removed found
      rcases getElem?_set_cases found with ⟨-, new⟩ | ⟨-, old⟩
      · obtain ⟨-, -, phase⟩ := Call.mk.inj new
        have succeeded := succeeded_afterWrite chatImagesConfigured removedKey
        rw [← phase] at succeeded
        cases succeeded
      · obtain ⟨base, seen, same⟩ := sound.waiting j other again expects made removed old
        exact ⟨base, seen.put doc, same⟩
    · intro j call found
      rw [List.filter_append]
      rcases getElem?_set_cases found with ⟨rfl, rfl⟩ | ⟨apart, old⟩
      · rw [sound.counted _ _ here, succeeded_afterWrite]
        simp [Phase.succeeded]
      · rw [sound.counted j call old]
        simp [apart.symm]
    · intro entry member
      rw [List.length_set]
      rcases List.mem_append.mp member with old | new
      · exact sound.known entry old
      · rw [List.mem_singleton.mp new]
        exact lt_length here
  | missed here refused moved =>
    subst moved
    unfold retry
    split_ifs with again
    · exact sound.still here rfl rfl rfl nofun
    · exact sound.still here rfl rfl rfl nofun
  | deleted here moved =>
    subst moved
    refine ⟨sound.slots, sound.names, sound.effects, ?_, ?_, ?_⟩
    · intro j other again expect doc removedKey found
      rcases getElem?_set_cases found with ⟨-, new⟩ | ⟨-, old⟩
      · cases new
      · exact sound.waiting j other again expect doc removedKey old
    · intro j call found
      rcases getElem?_set_cases found with ⟨rfl, rfl⟩ | ⟨-, old⟩
      · have counted := sound.counted _ _ here
        exact counted
      · exact sound.counted j call old
    · intro entry member
      rw [List.length_set]
      exact sound.known entry member

theorem consistent_of_sound (sound : Sound crewID s)
    (survives : ∀ entry ∈ s.deleted, ∀ e ∈ entry.2.emoji, e.key ≠ entry.1) : Consistent crewID s := by
  refine ⟨sound.slots, sound.names, ?_, sound.effects, survives⟩
  intro k request attempt found
  have counted := sound.counted k _ found
  exact counted

theorem pending_of_set {k : Nat} {next : Call} {removedKey : String} (moved : t.calls = s.calls.set k next)
    (pending : Pending t removedKey) : next.phase = .deleting removedKey ∨ Pending s removedKey := by
  obtain ⟨j, request, attempt, found⟩ := pending
  rw [moved] at found
  rcases getElem?_set_cases found with ⟨-, rfl⟩ | ⟨-, old⟩
  · exact .inl rfl
  · exact .inr ⟨j, request, attempt, old⟩

/-- A call that was not about to delete takes no delete away. -/
theorem pending_set {k : Nat} {before next : Call} {removedKey : String} (moved : t.calls = s.calls.set k next)
    (here : s.calls[k]? = some before) (quiet : ∀ removedKey, before.phase ≠ .deleting removedKey) :
    Pending t removedKey ↔ next.phase = .deleting removedKey ∨ Pending s removedKey := by
  constructor
  · exact pending_of_set moved
  · rintro (now | ⟨j, request, attempt, found⟩)
    · refine ⟨k, next.request, next.attempt, ?_⟩
      rw [moved, List.getElem?_set_self (lt_length here), ← now]
    · refine ⟨j, request, attempt, ?_⟩
      have apart : k ≠ j := by
        rintro rfl
        cases here.symm.trans found
        exact quiet removedKey rfl
      rw [moved, List.getElem?_set_ne apart]
      exact found

theorem unused_of_pending (unused : Unused crewID s) (store : t.store = s.store)
    (pending : ∀ removedKey, Pending t removedKey → Pending s removedKey) : Unused crewID t := by
  intro e member waits
  unfold current at member
  rw [store] at member
  exact unused e member (pending e.key waits)

/-- After a write that was taken the keys are unused when the write was of a key of its
own, and only then. -/
theorem unused_wrote {k : Nat} {request : Request} {attempt : Nat} {expect : Expect} {doc : CrewEmojiDoc}
    {removedKey : String} (sound : Sound crewID s) (unused : Unused crewID s)
    (here : s.calls[k]? = some ⟨request, attempt, .writing expect doc removedKey⟩)
    (changed : Changed (current crewID s) doc request removedKey) (stored : current crewID t = doc)
    (moved : t.calls = s.calls.set k ⟨request, attempt, afterWrite chatImagesConfigured removedKey⟩) :
    Unused crewID t ↔ Alone crewID chatImagesConfigured s request := by
  have pending : ∀ key, Pending t key ↔ afterWrite chatImagesConfigured removedKey = .deleting key ∨ Pending s key :=
    fun key => pending_set moved here nofun
  unfold Unused
  rw [stored]
  cases changed with
  | added room free made =>
    rename_i e
    have quiet : ∀ key, Pending t key ↔ Pending s key := by
      intro key
      rw [pending]
      apply or_iff_right
      unfold afterWrite
      rw [if_neg (fun both => both.1 rfl)]
      exact nofun
    rw [made]
    constructor
    · intro after
      have last := after e (List.mem_append_right _ (List.mem_singleton.mpr rfl))
      rw [quiet] at last
      exact last
    · intro alone other member
      rw [quiet]
      rcases List.mem_append.mp member with old | new
      · exact unused other old
      · rw [List.mem_singleton.mp new]
        exact alone
  | removed found named made =>
    rename_i userID name owner e
    have remaining : ∀ other, other ∈ doc.emoji ↔ other ∈ (current crewID s).emoji ∧ other.name ≠ name := by
      intro other
      rw [made]
      exact mem_eraseP_name sound.names
    constructor
    · intro after configured removed member same nonempty other here' apart key
      apply after other ((remaining other).mpr ⟨here', apart⟩)
      have one : removed = e := List.inj_on_of_nodup_map sound.names member found (same.trans named.symm)
      subst one
      rw [pending, key]
      left
      unfold afterWrite
      rw [if_pos ⟨nonempty, configured⟩]
    · intro alone other member waits
      obtain ⟨old, apart⟩ := (remaining other).mp member
      rcases (pending _).mp waits with now | before
      · unfold afterWrite at now
        split_ifs at now with deletes
        exact alone deletes.2 e found named deletes.1 other old apart (Phase.deleting.inj now).symm
      · exact unused other old before

theorem consistent_step (sound : Sound crewID s) (good : Consistent crewID s ∧ Unused crewID s)
    (moved : Moved crewID chatImagesConfigured s t action) :
    (Consistent crewID t ∧ Unused crewID t) ↔ Unshared crewID chatImagesConfigured s action := by
  have next := sound_step sound moved
  obtain ⟨consistent, unused⟩ := good
  cases moved with
  | called moved =>
    refine iff_of_true ⟨consistent_of_sound next (moved ▸ consistent.survives), ?_⟩ trivial
    refine unused_of_pending unused (moved ▸ rfl) ?_
    rintro key ⟨k, request, attempt, found⟩
    rw [moved] at found
    rcases getElem?_concat_cases found with old | ⟨-, new⟩
    · exact ⟨k, request, attempt, old⟩
    · cases new
  | read here moved =>
    refine iff_of_true ⟨consistent_of_sound next (moved ▸ consistent.survives), ?_⟩ trivial
    refine unused_of_pending unused (moved ▸ rfl) fun key pending => ?_
    rcases pending_of_set (congrArg State.calls moved) pending with now | before
    · dsimp only at now
      unfold afterChange at now
      split at now <;> cases now
    · exact before
  | wrote here admitted moved =>
    rename_i k request attempt expect doc removedKey
    have changed := changed_of_change (changed_of_wrote sound here admitted)
    have exact' := unused_wrote (t := t) sound unused here changed (moved ▸ rfl) (congrArg State.calls moved)
    constructor
    · rintro ⟨-, after⟩ request attempt expect doc removedKey found -
      cases here.symm.trans found
      exact exact'.mp after
    · intro unshared
      refine ⟨consistent_of_sound next (moved ▸ consistent.survives), ?_⟩
      exact exact'.mpr (unshared request attempt expect doc removedKey here admitted)
  | missed here refused moved =>
    rename_i k works request attempt expect doc removedKey
    refine iff_of_true ⟨consistent_of_sound next (moved ▸ consistent.survives), ?_⟩ ?_
    · refine unused_of_pending unused (moved ▸ rfl) fun key pending => ?_
      rcases pending_of_set (congrArg State.calls moved) pending with now | before
      · unfold retry at now
        split_ifs at now
      · exact before
    · cases works with
      | false => trivial
      | true =>
        intro other again expects made removed found admitted
        cases here.symm.trans found
        rw [refused rfl] at admitted
        cases admitted
  | deleted here moved =>
    rename_i k works request attempt removedKey
    refine iff_of_true ⟨consistent_of_sound next ?_, ?_⟩ trivial
    · intro entry member e kept key
      rw [moved] at member
      dsimp only at member
      split_ifs at member
      · rcases List.mem_append.mp member with old | new
        · exact consistent.survives entry old e kept key
        · obtain rfl := List.mem_singleton.mp new
          exact unused e kept ⟨k, request, attempt, key ▸ here⟩
      · exact consistent.survives entry member e kept key
    · refine unused_of_pending unused (moved ▸ rfl) fun key pending => ?_
      rcases pending_of_set (congrArg State.calls moved) pending with now | before
      · cases now
      · exact before

end Step

/-! ## Every run -/

/-- Along exactly the runs whose writes are each of a key of its own, the slots, the
names and the effects are as they should be, no image in use was deleted, and no call
is about to delete one. -/
theorem consistent_always_iff (crewID : String) (chatImagesConfigured : Bool) (actions : List Action) :
    Always (step crewID chatImagesConfigured) (fun s => Consistent crewID s ∧ Unused crewID s) {} actions ↔
      EachStep (step crewID chatImagesConfigured) (Unshared crewID chatImagesConfigured) {} actions := by
  have start : Sound crewID {} := by
    refine ⟨Nat.zero_le _, List.nodup_nil, rfl, ?_, ?_, ?_⟩
    · intro k request attempt expect doc removedKey found
      cases found
    · intro k call found
      cases found
    · intro entry member
      cases member
  apply always_iff_eachStep (Sound crewID)
  · intro s action t sound stepped
    exact sound_step sound (moved_of_step stepped)
  · intro s action t sound good stepped
    exact consistent_step sound good (moved_of_step stepped)
  · exact start
  · refine ⟨consistent_of_sound start nofun, ?_⟩
    intro e member
    cases member

/-- An emoji under one key with another name. -/
def emojiNamed (name : String) : CrewEmoji where
  id := name
  name := name
  url := "url"
  key := "crew-emoji/crew/image.png"
  addedBy := "user"
  addedByName := "user"
  addedMs := 0

/-- One image is added under two names, and one name is removed. -/
def addedTwice : List Action :=
  [.call (.CrewEmojiAdd (emojiNamed "one")), .read 0 true, .write 0 true,
    .call (.CrewEmojiAdd (emojiNamed "two")), .read 1 true, .write 1 true,
    .call (.CrewEmojiRemove "user" "one" false), .read 2 true, .write 2 true, .delete 2 true]

/-- The image of the other name is deleted. -/
theorem addedTwice_deletes :
    (run (step "crew" true) {} addedTwice).map (fun s => (s.deleted.map Prod.fst, (current "crew" s).emoji.map CrewEmoji.key)) =
        some (["crew-emoji/crew/image.png"], ["crew-emoji/crew/image.png"]) ∧
      ¬Always (step "crew" true) (Consistent "crew") {} addedTwice := by
  refine ⟨by decide, fun all => ?_⟩
  have survives := (all.last rfl).survives
  exact survives ("crew-emoji/crew/image.png", ⟨"crew", [emojiNamed "two"]⟩) (by decide) (emojiNamed "two") (by decide) rfl

end Mello.Backend.EmojiSlots
