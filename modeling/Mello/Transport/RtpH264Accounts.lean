import Mello.Transport.RtpH264Moves

/-!
No gap is forgotten: each sequence number of the history, from the first packet
to the newest, is stored, still wanted, lost or obsolete.
-/

namespace Mello.Transport.RtpH264Accounts
open Library Twcc H264Payload RtpH264Receiver RtpH264Steps RtpH264Moves

/-- All but the pending sequence number are held. -/
structure Accounted (a : Option ℤ × Impl) : Prop where
  held {newest key : ℤ} : a.2.highestSequence = some newest → a.2.firstSequence ≤ key → newest - kHistory ≤ key →
    key ≤ newest → a.1 ≠ some key → Held a.2 key
  started : a.2.ssrc = none → a.2.highestSequence = none ∧ a.1 = none

section Held

variable {top key : ℤ} {s t : Impl}

theorem held_releaseAll (held : Held s key) (keys : List ℤ) : Held (s.releaseAll keys) key := by
  have store := storeOnly_releaseAll s keys
  unfold Held
  rw [store.floor, mem_releaseAll, store.missing, store.lost]
  exact held

/-- A step may forget what is older than the history, and nothing else. -/
theorem held_step (held : Held s key) (step : Step top s t)
    (young : ∀ newest, s.highestSequence = some newest → newest - kHistory ≤ key) : Held t key := by
  cases step with
  | quiet same =>
    unfold Held
    rw [same.floor, same.packets, same.missing, same.lost]
    exact held
  | release other => exact held_releaseAll held [other]
  | complete whole => exact held_releaseAll held _
  | @obsolete sequence bound =>
    obtain ⟨floor, raised, beyond, from_⟩ := floor_raised s sequence
    rcases held with ⟨before, known, below⟩ | stored | missing | lost
    · refine .inl ⟨floor, raised, ?_⟩
      rcases from_ with rfl | same
      · have kept : ¬(s.floor.all (· < sequence - 1) = true) ∨ before ≤ sequence - 1 := by
          rw [known, Option.all_some, decide_eq_true_iff]
          omega
        rcases kept with same | less
        · have equal := (if_neg same).symm.trans raised
          rw [known] at equal
          exact below.trans (Option.some.inj equal).le
        · exact below.trans less
      · exact below.trans (Option.some.inj (known.symm.trans same)).le
    · exact .inr (.inl stored)
    · rcases le_or_gt sequence key with later | earlier
      · exact .inr (.inr (.inl (OrderedMap.mem_filter.mpr ⟨decide_eq_true later, missing⟩)))
      · exact .inl ⟨floor, raised, by omega⟩
    · exact .inr (.inr (.inr lost))
  | forget newest old =>
    have kept := young top newest
    rcases held with obsolete | stored | missing | lost
    · exact .inl obsolete
    · exact .inr (.inl (OrderedMap.mem_filter.mpr ⟨decide_eq_true kept, stored⟩))
    · exact .inr (.inr (.inl (OrderedMap.mem_filter.mpr ⟨decide_eq_true kept, missing⟩)))
    · exact .inr (.inr (.inr (Finset.mem_filter.mpr ⟨lost, kept⟩)))
  | await bound fresh notLost above =>
    unfold Impl.emplaceMissing
    split_ifs
    · exact held
    · exact held.imp_right (Or.imp_right (Or.imp_left fun missing => OrderedMap.mem_insert.mpr (.inr missing)))
  | @expire now other wanted =>
    obtain ⟨lostAt, same⟩ := declareLost_parts now wanted
    rw [same]
    rcases held with obsolete | stored | missing | lost
    · exact .inl obsolete
    · exact .inr (.inl stored)
    · by_cases here : key = other
      · exact .inr (.inr (.inr (here ▸ Finset.mem_insert_self _ _)))
      · exact .inr (.inr (.inl (OrderedMap.mem_erase.mpr ⟨here, missing⟩)))
    · exact .inr (.inr (.inr (Finset.mem_insert_of_mem lost)))
  | evict given =>
    exact held.imp_right (Or.imp_right (Or.imp_right fun lost => Finset.mem_union_left _ lost))

theorem accounted_move {came : ℤ → Packet → Prop} {a b : Option ℤ × Impl} (before : Accounted a) (move : Move came a b) :
    Accounted b := by
  cases move with
  | step bound step =>
    obtain ⟨highest, first, ssrc⟩ := step_fixed step
    constructor
    · intro newest key known from_first young upto other
      have known := highest.symm.trans known
      refine held_step (before.held known (first ▸ from_first) young upto other) step ?_
      intro same still
      obtain rfl := Option.some.inj (known.symm.trans still)
      exact young
    · intro none
      rw [highest]
      exact before.started (ssrc ▸ none)
  | @enter s sequence ssrc above notStored notLost =>
    constructor
    · intro newest key known from_first young upto other
      have chosen : (s.chooseSsrc sequence ssrc).highestSequence = s.highestSequence := by
        unfold Impl.chooseSsrc
        split_ifs <;> rfl
      have known : s.highestSequence = some newest := chosen.symm.trans known
      have old : s.ssrc ≠ none := fun none => Option.some_ne_none newest (known.symm.trans (before.started none).1)
      have same : s.chooseSsrc sequence ssrc = s := if_neg old
      unfold enter at from_first ⊢
      rw [same] at from_first ⊢
      rcases before.held known from_first young upto (Option.some_ne_none key).symm with obsolete | stored | missing | lost
      · exact .inl obsolete
      · exact .inr (.inl stored)
      · exact .inr (.inr (.inl (OrderedMap.mem_erase.mpr ⟨fun same => other (congrArg some same.symm), missing⟩)))
      · exact .inr (.inr (.inr lost))
    · intro none
      have chosen : (s.chooseSsrc sequence ssrc).ssrc ≠ .none := by
        unfold Impl.chooseSsrc
        split_ifs with first
        · exact Option.some_ne_none ssrc
        · exact first
      exact absurd none chosen
  | @raise s sequence newer between =>
    constructor
    · intro newest key known from_first young upto other
      obtain rfl := Option.some.inj known
      have less : key < sequence := lt_of_le_of_ne upto fun same => other (congrArg some same.symm)
      by_cases recent : ∀ newest, s.highestSequence = some newest → newest < key
      · exact between key recent from_first less
      · obtain ⟨newest, recent⟩ := not_forall.mp recent
        obtain ⟨still, behind⟩ := Classical.not_imp.mp recent
        have raised := newer newest still
        exact before.held still from_first (by omega) (not_lt.mp behind) other
    · intro none
      exact absurd (before.started none).2 (Option.some_ne_none sequence)
  | @store s sequence newest packet fresh known bound media arrived =>
    have kept : (s.store sequence packet).highestSequence = s.highestSequence ∧
        (s.store sequence packet).firstSequence = s.firstSequence ∧ (s.store sequence packet).ssrc = s.ssrc ∧
        (s.store sequence packet).floor = s.floor ∧ (s.store sequence packet).missing = s.missing ∧
        (s.store sequence packet).lost = s.lost ∧
        (s.store sequence packet).packets = s.packets.insert sequence packet := by
      unfold Impl.store
      split_ifs <;> exact ⟨rfl, rfl, rfl, rfl, rfl, rfl, rfl⟩
    obtain ⟨highest, first, ssrc, floor, missing, lost, packets⟩ := kept
    constructor
    · intro newest key known from_first young upto _
      unfold Held
      rw [floor, missing, lost, packets, OrderedMap.mem_insert]
      by_cases here : key = sequence
      · exact .inr (.inl (.inl here))
      · have held := before.held (highest.symm.trans known) (first ▸ from_first) young upto
          fun same => here (Option.some.inj same).symm
        exact held.imp_right (Or.imp_left .inr)
    · intro none
      exact absurd (before.started (ssrc.symm.trans none)).2 (Option.some_ne_none sequence)
  | @want s sequence newest now fresh known bound =>
    have kept : s.markMissing now sequence =
        { s with missing := s.missing.insert sequence { firstDetected := now, expected := now } } := by
      unfold Impl.markMissing Impl.emplaceMissing
      exact if_neg fresh.notMissing
    rw [kept]
    constructor
    · intro newest key known from_first young upto _
      by_cases here : key = sequence
      · exact .inr (.inr (.inl (OrderedMap.mem_insert.mpr (.inl here))))
      · have held := before.held known from_first young upto fun same => here (Option.some.inj same).symm
        exact held.imp_right (Or.imp_right (Or.imp_left fun missing => OrderedMap.mem_insert.mpr (.inr missing)))
    · intro none
      exact absurd (before.started none).2 (Option.some_ne_none sequence)

end Held

/-- After any calls each sequence number of the history is stored, lost,
obsolete, or still wanted; and only what is none of the others is wanted. -/
theorem run_accounts (config : Config) (calls : List Call) (newest key : ℤ)
    (known : (run config calls).highestSequence = some newest) (started : (run config calls).firstSequence ≤ key)
    (young : newest - kHistory ≤ key) (upto : key ≤ newest) :
    Held (run config calls) key ∧ (key ∈ (run config calls).missing →
      key ∉ (run config calls).packets ∧ key ∉ (run config calls).lost ∧
        ∀ floor, (run config calls).floor = some floor → floor < key) := by
  have accounted : Accounted (none, run config calls) := by
    refine run_induction ⟨?_, fun _ => ⟨rfl, rfl⟩⟩ fun a b before move => accounted_move before move
    intro newest key known
    exact absurd known (Option.some_ne_none newest).symm
  have coherent := (reaches_run config calls).2.coherent (newest_getD _)
  refine ⟨accounted.held known started young upto (Option.some_ne_none key).symm, fun wanted => ?_⟩
  exact ⟨coherent.missing_stored wanted, coherent.missing_lost wanted, fun floor => coherent.missing_above wanted⟩

theorem run_accounts_gap : Held (run {} twoPictures) 8 ∧ (8 ∈ (run {} twoPictures).missing →
    8 ∉ (run {} twoPictures).packets ∧ 8 ∉ (run {} twoPictures).lost ∧
      ∀ floor, (run {} twoPictures).floor = some floor → floor < 8) :=
  run_accounts {} twoPictures 9 8 (by decide +kernel) (by decide +kernel) (by decide) (by decide)

end Mello.Transport.RtpH264Accounts
