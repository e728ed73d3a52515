import Mello.Library.Keyed

/-!
The one push that replaces the mentions held for a user. They are held by crew, in a map whose order
says nothing, with a number for each crew's newest one.
-/

namespace Mello.Backend.PushCoalesce
open Mello.Library Keyed

def pushBodyMaxRunes : Nat := 178

structure PushAlert where
  type : String
  crewID : String
  channelID : String
  messageID : String
  title : String
  body : String
  deriving DecidableEq, Repr

structure HeldMention where
  alert : PushAlert
  count : Nat
  seq : Nat
  deriving DecidableEq, Repr

def truncateRunes (s : String) (max : Nat) : String :=
  if s.toList.length ≤ max then s else String.ofList (s.toList.take (max - 3)) ++ "..."

/-- The crew's entry after one more mention of it. -/
def hold (held : Table String HeldMention) (a : PushAlert) (seq : Nat) : Table String HeldMention :=
  held.insert a.crewID { alert := a, seq, count := (held.lookup a.crewID).elim 0 HeldMention.count + 1 }

def newer (newest : Option HeldMention) (h : HeldMention) : Option HeldMention :=
  match newest with
  | none => some h
  | some n => if h.seq > n.seq then some h else some n

def byNewest (crews : List HeldMention) : List HeldMention := crews.insertionSort fun a b => a.seq ≥ b.seq

def oneCrewBody (total : Nat) : String := toString total ++ " new mentions"

def crewsBody (total : Nat) (names : List String) : String :=
  truncateRunes (toString total ++ " new mentions in " ++ ", ".intercalate names) pushBodyMaxRunes

def coalesceHeld (held : Table String HeldMention) : Option PushAlert :=
  let crews := values held
  let total := total HeldMention.count held
  (crews.foldl newer none).map fun newest =>
    if total = 1 then newest.alert
    else if crews.length = 1 then { newest.alert with body := oneCrewBody total }
    else
      { newest.alert with
        title := "Mello"
        body := crewsBody total ((byNewest crews).map fun h => h.alert.title) }

/-! ## What the push stands for -/

/-- The newest mention of each crew, the newest crew first. -/
def newestFirst (mentions : List PushAlert) : List PushAlert :=
  mentions.foldl (fun order a => a :: order.filter fun other => other.crewID ≠ a.crewID) []

/-- One push for some mentions, in the order in which they came: a mention as it is, or the newest with
the count of all and the names of the crews. -/
def digest (mentions : List PushAlert) : Option PushAlert :=
  match newestFirst mentions with
  | [] => none
  | [newest] => if mentions.length = 1 then some newest else some { newest with body := oneCrewBody mentions.length }
  | newest :: rest =>
    some { newest with title := "Mello", body := crewsBody mentions.length ((newest :: rest).map PushAlert.title) }

/-- The count of a body that stands for several mentions. -/
def Shows (body : String) (count : Nat) : Prop := (oneCrewBody count).toList <+: body.toList

/-! ## The order of the crews -/

theorem newestFirst_append (mentions : List PushAlert) (a : PushAlert) :
    newestFirst (mentions ++ [a]) = a :: (newestFirst mentions).filter fun other => other.crewID ≠ a.crewID := by
  rw [newestFirst, List.foldl_append]
  rfl

theorem newestFirst_length (mentions : List PushAlert) : (newestFirst mentions).length ≤ mentions.length := by
  induction mentions using List.reverseRecOn with
  | nil => exact le_rfl
  | append_singleton mentions a ih =>
    rw [newestFirst_append, List.length_cons, List.length_append]
    exact Nat.succ_le_succ ((List.length_filter_le _ _).trans ih)

theorem newestFirst_ne_nil {mentions : List PushAlert} (some : mentions ≠ []) : newestFirst mentions ≠ [] := by
  induction mentions using List.reverseRecOn with
  | nil => exact absurd rfl some
  | append_singleton mentions a _ =>
    rw [newestFirst_append]
    exact List.cons_ne_nil _ _

/-- The map holds the mentions: it counts them all, and has the newest of each crew with the crew's
place in the order. -/
structure Holds (seq : Nat) (mentions : List PushAlert) (held : Table String HeldMention) : Prop where
  keyed : ∀ crew h, held.lookup crew = some h → h.alert.crewID = crew
  counted : total HeldMention.count held = mentions.length
  order : ∃ order : List HeldMention, order.Perm (values held) ∧ order.Pairwise (fun a b => b.seq < a.seq) ∧
    (∀ h ∈ order, h.seq ≤ seq) ∧ order.map HeldMention.alert = newestFirst mentions

variable {seq : Nat} {mentions : List PushAlert} {held : Table String HeldMention}

theorem holds_empty (seq : Nat) : Holds seq [] ∅ where
  keyed crew h found := by
    rw [AList.lookup_empty] at found
    cases found
  counted := rfl
  order := ⟨[], List.Perm.refl _, List.Pairwise.nil, fun _ member => (List.not_mem_nil member).elim, rfl⟩

theorem holds_later {later : Nat} (holds : Holds seq mentions held) (order : seq ≤ later) : Holds later mentions held := by
  obtain ⟨list, perm, sorted, bound, same⟩ := holds.order
  exact ⟨holds.keyed, holds.counted, list, perm, sorted, fun h member => (bound h member).trans order, same⟩

/-- One mention more: its crew comes to the front. -/
theorem hold_holds (holds : Holds seq mentions held) (a : PushAlert) :
    Holds (seq + 1) (mentions ++ [a]) (hold held a (seq + 1)) := by
  obtain ⟨order, perm, sorted, bound, same⟩ := holds.order
  refine ⟨fun crew h found => ?_, ?_, ?_⟩
  · by_cases own : crew = a.crewID
    · subst own
      rw [hold, AList.lookup_insert] at found
      rw [← Option.some.inj found]
    · rw [hold, AList.lookup_insert_ne own] at found
      exact holds.keyed crew h found
  · have count := total_insert HeldMention.count held a.crewID
      { alert := a, seq := seq + 1, count := (held.lookup a.crewID).elim 0 HeldMention.count + 1 }
    rw [holds.counted] at count
    rw [hold, List.length_append, List.length_singleton]
    dsimp only at count
    omega
  · have values' := values_insert (fun h : HeldMention => h.alert.crewID) holds.keyed a.crewID
      { alert := a, seq := seq + 1, count := (held.lookup a.crewID).elim 0 HeldMention.count + 1 }
    refine ⟨_, ((perm.filter _).cons _).trans (List.Perm.of_eq values'.symm), ?_, ?_, ?_⟩
    · refine List.pairwise_cons.mpr ⟨fun h member => ?_, sorted.filter _⟩
      exact Nat.lt_succ_of_le (bound h (List.mem_of_mem_filter member))
    · intro h member
      rcases List.mem_cons.mp member with rfl | member
      · exact le_rfl
      · exact (bound h (List.mem_of_mem_filter member)).trans (Nat.le_succ _)
    · rw [List.map_cons, newestFirst_append, ← same, List.filter_map]
      rfl

/-! ## The push -/

/-- The search for the greatest number, in whatever order the map gives the crews. -/
theorem newer_spec (crews : List HeldMention) :
    (crews.foldl newer none = none ∧ crews = []) ∨
      ∃ newest ∈ crews, crews.foldl newer none = some newest ∧ ∀ h ∈ crews, h.seq ≤ newest.seq := by
  induction crews using List.reverseRecOn with
  | nil => exact .inl ⟨rfl, rfl⟩
  | append_singleton crews h ih =>
    rw [List.foldl_append, List.foldl_cons, List.foldl_nil]
    have own : h ∈ crews ++ [h] := List.mem_append_right _ (List.mem_singleton_self _)
    have member : ∀ {other}, other ∈ crews ++ [h] → other ∈ crews ∨ other = h := fun listed =>
      (List.mem_append.mp listed).imp_right List.mem_singleton.mp
    rcases ih with ⟨none, rfl⟩ | ⟨newest, listed, found, greatest⟩
    · rw [none]
      refine .inr ⟨h, own, rfl, fun other listed => ?_⟩
      rcases member listed with listed | rfl
      · cases listed
      · exact le_rfl
    · rw [found, newer]
      by_cases later : h.seq > newest.seq
      · rw [if_pos later]
        refine .inr ⟨h, own, rfl, fun other listed => ?_⟩
        rcases member listed with listed | rfl
        · exact (greatest other listed).trans later.le
        · exact le_rfl
      · rw [if_neg later]
        refine .inr ⟨newest, List.mem_append_left _ listed, rfl, fun other listed => ?_⟩
        rcases member listed with listed | rfl
        · exact greatest other listed
        · exact not_lt.mp later

theorem newest_of_order {order crews : List HeldMention} (perm : order.Perm crews)
    (sorted : order.Pairwise fun a b => b.seq < a.seq) : crews.foldl newer none = order.head? := by
  rcases newer_spec crews with ⟨none, rfl⟩ | ⟨newest, listed, found, greatest⟩
  · rw [none, List.perm_nil.mp perm]
    rfl
  · rw [found]
    rcases order with _ | ⟨first, rest⟩
    · rw [List.nil_perm.mp perm] at listed
      cases listed
    · rw [List.head?_cons]
      rcases List.mem_cons.mp (perm.mem_iff.mpr listed) with same | later
      · rw [same]
      · have less := (List.pairwise_cons.mp sorted).1 newest later
        have most := greatest first (perm.mem_iff.mp List.mem_cons_self)
        omega

theorem byNewest_of_order {order crews : List HeldMention} (perm : order.Perm crews)
    (sorted : order.Pairwise fun a b => b.seq < a.seq) : byNewest crews = order := by
  have total : Std.Total fun a b : HeldMention => a.seq ≥ b.seq := ⟨fun a b => le_total _ _⟩
  have trans : IsTrans HeldMention fun a b => a.seq ≥ b.seq := ⟨fun a b c first second => second.trans first⟩
  have perm' : (byNewest crews).Perm order := (List.perm_insertionSort _ _).trans perm.symm
  refine List.Perm.eq_of_pairwise ?_ (List.pairwise_insertionSort (fun a b : HeldMention => a.seq ≥ b.seq) crews)
    (sorted.imp fun less => less.le) perm'
  intro a b first second high low
  have distinct : (order.map HeldMention.seq).Nodup := List.pairwise_map.mpr (sorted.imp fun less => less.ne')
  exact List.inj_on_of_nodup_map distinct (perm'.mem_iff.mp first) second (le_antisymm low high)

/-- The count of one is that of one mention, as each crew has at least one. -/
theorem coalesceHeld_eq (holds : Holds seq mentions held) : coalesceHeld held = digest mentions := by
  obtain ⟨order, perm, sorted, -, same⟩ := holds.order
  have length : (values held).length = order.length := perm.length_eq.symm
  unfold coalesceHeld digest
  dsimp only
  rw [newest_of_order perm sorted, byNewest_of_order perm sorted, holds.counted, length]
  rcases order with _ | ⟨newest, _ | ⟨second, rest⟩⟩
  · rw [← same]
    rfl
  · rw [← same]
    simp only [List.head?_cons, Option.map_some, List.length_singleton, if_true, List.map_cons, List.map_nil]
    split_ifs <;> rfl
  · have several : mentions.length ≠ 1 := by
      have bound := newestFirst_length mentions
      rw [← same, List.length_map, List.length_cons, List.length_cons] at bound
      omega
    rw [← same]
    simp only [List.head?_cons, Option.map_some, if_neg several, List.map_cons]
    rw [if_neg (by rw [List.length_cons, List.length_cons]; omega), List.map_map]
    rfl

theorem digest_isSome (some : mentions ≠ []) : (digest mentions).isSome := by
  unfold digest
  rcases same : newestFirst mentions with _ | ⟨newest, _ | ⟨second, rest⟩⟩
  · exact absurd same (newestFirst_ne_nil some)
  · dsimp only
    split_ifs <;> rfl
  · rfl

theorem prefix_truncateRunes {s : String} {max : Nat} {front : List Char} (inside : front <+: s.toList)
    (short : front.length ≤ max - 3) : front <+: (truncateRunes s max).toList := by
  unfold truncateRunes
  split_ifs
  · exact inside
  · rw [String.toList_append, String.toList_ofList]
    exact (List.prefix_take_iff.mpr ⟨inside, short⟩).trans (List.prefix_append _ _)

theorem oneCrewBody_length {count : Nat} (counted : count < 2 ^ 63) : (oneCrewBody count).toList.length ≤ 32 := by
  have digits : (Nat.repr count).length ≤ 19 := Nat.repr_length count 19 (by decide) (counted.trans (by decide))
  have text : (" new mentions" : String).toList.length = 13 := by decide
  rw [oneCrewBody, String.toList_append, List.length_append, text]
  exact Nat.add_le_add_right digits 13

/-- A count of the machine's integers has at most nineteen digits, so the cut of the body leaves it. -/
theorem digest_shows {alert : PushAlert} (stands : digest mentions = some alert) (several : 2 ≤ mentions.length)
    (counted : mentions.length < 2 ^ 63) : Shows alert.body mentions.length := by
  unfold digest at stands
  rcases same : newestFirst mentions with _ | ⟨newest, _ | ⟨second, rest⟩⟩
  · rw [same] at stands
    cases stands
  · rw [same] at stands
    dsimp only at stands
    rw [if_neg (by omega)] at stands
    rw [← Option.some.inj stands]
    exact List.prefix_rfl
  · rw [same] at stands
    rw [← Option.some.inj stands]
    refine prefix_truncateRunes ?_ ((oneCrewBody_length counted).trans (by decide))
    have words : toString mentions.length ++ " new mentions in " ++ ", ".intercalate ((newest :: second :: rest).map PushAlert.title)
        = oneCrewBody mentions.length ++ (" in " ++ ", ".intercalate ((newest :: second :: rest).map PushAlert.title)) := by
      have apart : (" new mentions in " : String) = " new mentions" ++ " in " := by decide
      rw [oneCrewBody, apart]
      simp only [String.append_assoc]
    rw [words, String.toList_append]
    exact List.prefix_append _ _

end Mello.Backend.PushCoalesce
