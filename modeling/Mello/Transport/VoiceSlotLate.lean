import Mello.Transport.VoiceSlots

/-!
Late packets of a member that has left its slot, and the next owner of the slot.
-/

namespace Mello.Transport.VoiceSlotLate
open Mello.Library BigEndian Runs VoiceSlots

variable {Mid Member Counter : Type} [DecidableEq Mid] [DecidableEq Counter]

/-- The timestamp of the last packet on a mid, of those that have one. -/
def lastRouted (mid : Mid) (events : List (Event Mid Member)) : Option (BitVec 32) :=
  (events.filterMap fun
    | .routed m packet _ => if m = mid then timestamp packet.bytes else none
    | _ => none).getLast?

/-- At most the window apart, modulo 2^32. -/
def Near (ts lastTs : BitVec 32) : Prop := |(ts - lastTs).toInt| ≤ kLateWindowSamples

/-- A packet behind a release of its mid, near the last packet on the mid before that
release. -/
def Late (before : List (Event Mid Member)) (mid : Mid) (packet : Held) : Prop :=
  ∃ front nowMs held back ts last, before = front ++ .bound mid none nowMs held :: back ∧
    timestamp packet.bytes = some ts ∧ lastRouted mid front = some last ∧ Near ts last

/-- No late packet goes to an owner, at once or from the held ones. -/
def NeverReached (log : List (Event Mid Member)) : Prop :=
  ∀ before mid packet owner after, log = before ++ .routed mid packet owner :: after → Late before mid packet →
    owner = none ∧ ∀ m sender nowMs held, .bound m sender nowMs held ∈ after → packet ∉ held

/-- A late packet comes while its mid has no owner, and inside the window of the last
packet of the owner that was released, who got one. -/
def Heeded : VoiceSlotMap Mid Member Counter × List (Event Mid Member) → Call Mid Member Counter → Prop
  | (map, log), .route mid rtp nowMs =>
    Late log mid ⟨map.calls, rtp, nowMs⟩ → (map.slotAt mid).sender = none ∧ Refused (map.slotAt mid) rtp
  | _, _ => True

/-- The late packets so far are out: none was handed out, and none is held. -/
structure Out (map : VoiceSlotMap Mid Member Counter) (log : List (Event Mid Member)) : Prop where
  late : ∀ before mid packet owner after, log = before ++ .routed mid packet owner :: after → Late before mid packet →
    (owner = none ∧ ∀ m sender nowMs held, .bound m sender nowMs held ∈ after → packet ∉ held) ∧
      ∀ m, packet ∉ (map.slotAt m).held
  routed : ∀ mid packet owner, .routed mid packet owner ∈ log → packet.call < map.calls
  held : ∀ mid, ∀ packet ∈ (map.slotAt mid).held, packet.call < map.calls

section Step

variable {map after : VoiceSlotMap Mid Member Counter} {log events : List (Event Mid Member)}
  {call : Call Mid Member Counter}

theorem routed_perform {mid : Mid} {packet : Held} {owner : Option Member}
    (member : .routed mid packet owner ∈ (perform map call).2) :
    ∃ rtp nowMs, call = .route mid rtp nowMs ∧ packet = ⟨map.calls, rtp, nowMs⟩ ∧ owner = (route map mid rtp nowMs).1 := by
  cases call with
  | route m rtp nowMs =>
    cases List.mem_singleton.mp member
    exact ⟨rtp, nowMs, rfl, rfl, rfl⟩
  | bind m sender nowMs => cases List.mem_singleton.mp member
  | set m sender nowMs => cases List.mem_singleton.mp member
  | clear => cases member
  | setDropCounter counter =>
    cases counter with
    | none => cases member
    | some counter => cases List.mem_singleton.mp member

/-- What a call hands out or keeps was held before, or is the packet of the call. -/
theorem mem_perform {mid : Mid} {packet : Held}
    (member : packet ∈ handedOn mid (perform map call).2 ++ ((perform map call).1.slotAt mid).held) :
    packet ∈ (map.slotAt mid).held ∨ packet.call = map.calls := by
  have booked := booked_perform map call
  rcases List.mem_append.mp ((booked.order mid).subset member) with old | new
  · exact .inl old
  · exact .inr (booked.named mid packet new)

theorem mem_handedOn {mid : Mid} {packet : Held} {sender : Option Member} {nowMs : Int} {held : List Held}
    (member : .bound mid sender nowMs held ∈ events) (inside : packet ∈ held) : packet ∈ handedOn mid events := by
  unfold handedOn
  rw [List.mem_flatMap]
  refine ⟨_, member, ?_⟩
  change packet ∈ if mid = mid then held else []
  rw [if_pos rfl]
  exact inside

theorem out_step (out : Out map log) (heeded : Heeded (map, log) call) (stepped : step map call = some (after, events)) :
    Out after (log ++ events) := by
  obtain ⟨rfl, rfl⟩ := step_eq stepped
  constructor
  · intro before mid packet owner behind whole late
    rcases split_append whole with ⟨rest, rfl, old⟩ | ⟨front, rfl, new⟩
    · obtain ⟨⟨free, handed⟩, held⟩ := out.late before mid packet owner rest old late
      have named : packet.call < map.calls := out.routed mid packet owner (by rw [old]; simp)
      have away : ∀ m, packet ∉ handedOn m (perform map call).2 ++ ((perform map call).1.slotAt m).held := by
        intro m member
        rcases mem_perform member with before | here
        · exact held m before
        · omega
      refine ⟨⟨free, ?_⟩, fun m member => away m (List.mem_append_right _ member)⟩
      intro m sender nowMs list member inside
      rcases List.mem_append.mp member with earlier | later
      · exact handed m sender nowMs list earlier inside
      · exact away m (List.mem_append_left _ (mem_handedOn later inside))
    · have member : Event.routed mid packet owner ∈ (perform map call).2 := by
        rw [new]
        exact List.mem_append_right _ List.mem_cons_self
      obtain ⟨rtp, nowMs, rfl, rfl, rfl⟩ := routed_perform member
      obtain ⟨rfl, rfl⟩ : front = [] ∧ behind = [] := by
        have one := congrArg List.length new
        change 1 = _ at one
        rw [List.length_append, List.length_cons] at one
        exact ⟨List.length_eq_zero_iff.mp (by omega), List.length_eq_zero_iff.mp (by omega)⟩
      rw [List.append_nil] at late
      obtain ⟨free, refused⟩ := heeded late
      obtain ⟨got, kept, drops, moved, -, queue⟩ := route_unowned map free rtp nowMs
      refine ⟨⟨got, nofun⟩, ?_⟩
      intro m inside
      have old : ⟨map.calls, rtp, nowMs⟩ ∈ (map.slotAt m).held := by
        change _ ∈ ((route map mid rtp nowMs).2.slotAt m).held at inside
        by_cases here : m = mid
        · rw [here, moved.slotAt_self] at inside
          rcases queue with ⟨-, rfl⟩ | ⟨held, -⟩
          · rw [here]
            exact (List.dropWhile_sublist _).subset inside
          · exact absurd refused held
        · rwa [moved.slotAt_ne here] at inside
      exact absurd (out.held m _ old) (Nat.lt_irrefl _)
  · intro mid packet owner member
    rcases List.mem_append.mp member with old | new
    · exact (out.routed mid packet owner old).trans (Nat.lt_succ_self _)
    · obtain ⟨rtp, nowMs, -, rfl, -⟩ := routed_perform new
      exact Nat.lt_succ_self _
  · intro mid packet member
    rcases mem_perform (List.mem_append_right _ member) with old | new
    · exact (out.held mid packet old).trans (Nat.lt_succ_self _)
    · exact new.trans_lt (Nat.lt_succ_self _)

end Step

variable {map : VoiceSlotMap Mid Member Counter} {log : List (Event Mid Member)} {calls : List (Call Mid Member Counter)}
  {values : Counter → Nat}

/-- In a run whose late packets all come in time no late packet reaches another owner. -/
theorem neverReached_always (heeded : EachStep (logged step) Heeded (start values, []) calls) :
    Always (logged step) (fun s => NeverReached s.2) ((start values : VoiceSlotMap Mid Member Counter), []) calls := by
  have out : Always (logged step) (fun s => Out s.1 s.2) ((start values : VoiceSlotMap Mid Member Counter), []) calls := by
    refine always_of_eachStep ?_ ?_ calls heeded
    · rintro ⟨map, log⟩ call ⟨after, all⟩ out heeded moved
      obtain ⟨events, stepped, rfl⟩ := logged_eq_some.mp moved
      exact out_step out heeded stepped
    · refine ⟨?_, nofun, nofun⟩
      intro before mid packet owner after whole
      cases before <;> cases whole
  refine out.imp ?_
  rintro ⟨map, log⟩ out before mid packet owner after whole late
  exact (out.late before mid packet owner after whole late).1

def lateTo (ts : BitVec 8) : List Byte := [0x80, 111, 0, 1, 0, 0, ts, 0, 0, 0, 0, 5]

/-- A late packet that comes between two members of a slot. -/
def between : List (Call Nat Nat Nat) :=
  [.bind 2 (some 1) 0, .route 2 (lateTo 1) 10, .bind 2 none 20, .route 2 (lateTo 2) 30, .bind 2 (some 3) 60]

theorem between_out : EachStep (logged step) Heeded (start fun _ => 0, []) between ∧
    Always (logged step) (fun s => NeverReached s.2) (start fun _ => 0, []) between := by
  have heeded : EachStep (logged step) Heeded (start fun _ => 0, []) between := by
    refine .cons rfl trivial (.cons rfl ?_ (.cons rfl trivial (.cons rfl ?_ (.cons rfl trivial trivial))))
    · rintro ⟨front, nowMs, held, back, ts, last, whole, -, -, -⟩
      have member : Event.bound 2 none nowMs held ∈ front ++ Event.bound 2 none nowMs held :: back :=
        List.mem_append_right _ List.mem_cons_self
      rw [← whole] at member
      cases List.mem_singleton.mp member
    · intro late
      refine ⟨rfl, ?_⟩
      intro ts stamped
      have here : timestamp (lateTo 2) = some 0x200 := rfl
      obtain rfl := Option.some.inj (stamped.symm.trans here)
      have near : isWithinWindow 0x200 0x100 := by decide
      exact ⟨rfl, rfl, near⟩
  exact ⟨heeded, neverReached_always heeded⟩

/-- A late packet that comes after the next member is bound. -/
def behind : List (Call Nat Nat Nat) :=
  [.bind 2 (some 1) 0, .route 2 (lateTo 1) 10, .bind 2 none 20, .bind 2 (some 3) 25, .route 2 (lateTo 2) 30]

theorem behind_reached : ∃ map log, run (logged step) (start fun _ => 0, []) behind = some (map, log) ∧
    ¬NeverReached log := by
  refine ⟨_, _, rfl, ?_⟩
  intro never
  have late : Late [.bound 2 (some 1) 0 [], .routed 2 ⟨1, lateTo 1, 10⟩ (some 1), .bound 2 none 20 [], .bound 2 (some 3) 25 []]
      2 ⟨4, lateTo 2, 30⟩ := by
    refine ⟨[.bound 2 (some 1) 0 [], .routed 2 ⟨1, lateTo 1, 10⟩ (some 1)], 20, [], [.bound 2 (some 3) 25 []],
      0x200, 0x100, rfl, rfl, rfl, ?_⟩
    unfold Near
    decide
  obtain ⟨free, -⟩ := never _ 2 ⟨4, lateTo 2, 30⟩ (some 3) [] rfl late
  cases free

end Mello.Transport.VoiceSlotLate
