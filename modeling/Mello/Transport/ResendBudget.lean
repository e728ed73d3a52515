import Mello.Library.Keyed
import Mello.Library.Runs

/-!
The limits on retransmits (`admit_resend_locked`): a packet is resent once in a round trip, and the
resends of 500 ms take no more than the target rate. The times of the resends are kept in a table of
bounded size, which drops what it holds when it is full.
-/

namespace Mello.Transport.ResendBudget
open Mello.Library Keyed Runs

def kMinResendIntervalUs : Int := 5000
def kDefaultResendIntervalUs : Int := 100000
def kRetransmitRateWindowUs : Int := 500000
def kMaxResendRecords : Nat := 4096

/-- A size of something in memory. -/
abbrev Size := Fin (2 ^ 63)

/-- A call, with what it loads: the round trip and the two targets. -/
structure Resend where
  sequence : BitVec 16
  bytes : Size
  nowUs : Int
  feedbackRttUs : BitVec 64 := 0
  gccTargetBps : BitVec 64 := 0
  pacingTargetBps : BitVec 64 := 0
  deriving DecidableEq, Repr

structure Limiter where
  resentAtUs : Table (BitVec 16) Int := ∅
  resendWindow : List (Int × Size) := []
  resendWindowBytes : BitVec 64 := 0

def sizeWord (bytes : Size) : BitVec 64 := BitVec.ofNat 64 bytes

def Resend.interval (call : Resend) : Int :=
  max kMinResendIntervalUs (if 0 < call.feedbackRttUs.toInt then call.feedbackRttUs.toInt else kDefaultResendIntervalUs)

def Resend.limitBytes (call : Resend) : BitVec 64 :=
  (if call.gccTargetBps = 0 then call.pacingTargetBps else call.gccTargetBps) * 500000#64 / 8000000#64

/-- The loop over the front of the window. -/
def trim (nowUs : Int) : List (Int × Size) → BitVec 64 → List (Int × Size) × BitVec 64
  | [], held => ([], held)
  | (time, bytes) :: rest, held =>
    if nowUs - time ≥ kRetransmitRateWindowUs then trim nowUs rest (held - sizeWord bytes) else ((time, bytes) :: rest, held)

/-- A full table drops what is a second old, and all when that is not enough. -/
def makeRoom (nowUs : Int) (table : Table (BitVec 16) Int) : Table (BitVec 16) Int :=
  if kMaxResendRecords ≤ table.keys.length then
    let kept := filterValues (fun time => nowUs - time < 1000000) table
    if kMaxResendRecords ≤ kept.keys.length then ∅ else kept
  else table

/-- The sequence was resent within the interval, as far as the table knows. -/
def again (l : Limiter) (call : Resend) : Bool :=
  match l.resentAtUs.lookup call.sequence with
  | some time => call.nowUs - time < call.interval
  | none => false

def exceeds (l : Limiter) (call : Resend) : Bool :=
  call.limitBytes < (trim call.nowUs l.resendWindow l.resendWindowBytes).2 + sizeWord call.bytes

def admitResendLocked (l : Limiter) (call : Resend) : Bool × Limiter :=
  if again l call then (false, l)
  else
    let (window, held) := trim call.nowUs l.resendWindow l.resendWindowBytes
    if exceeds l call then (false, { l with resendWindow := window, resendWindowBytes := held })
    else
      (true,
        { resentAtUs := (makeRoom call.nowUs l.resentAtUs).insert call.sequence call.nowUs
          resendWindow := window ++ [(call.nowUs, call.bytes)]
          resendWindowBytes := held + sizeWord call.bytes })

/-! ## Runs -/

/-- `admitted` has the calls that admitted a resend. -/
structure State where
  limiter : Limiter := {}
  clock : Int
  admitted : List Resend := []

def step (s : State) (call : Resend) : Option State :=
  if s.clock ≤ call.nowUs then
    let (admits, limiter) := admitResendLocked s.limiter call
    some { limiter, clock := call.nowUs, admitted := if admits then s.admitted ++ [call] else s.admitted }
  else none

def Resend.sent (call : Resend) : Int × Size := (call.nowUs, call.bytes)

def sizes (sent : List (Int × Size)) : Nat := (sent.map fun entry => entry.2.val).sum

/-- The bytes of the last 500 ms. -/
def spent (nowUs : Int) (sent : List (Int × Size)) : Nat :=
  sizes (sent.filter fun entry => nowUs - entry.1 < kRetransmitRateWindowUs)

/-- What is admitted stays under the limit of its call, the sum is that of the window, and no
sequence is admitted twice within an interval. -/
structure Disciplined (s : State) : Prop where
  budget : ∀ before call after, s.admitted = before ++ call :: after →
    spent call.nowUs ((before ++ [call]).map Resend.sent) ≤ call.limitBytes.toNat
  window : s.limiter.resendWindowBytes.toNat = sizes s.limiter.resendWindow
  once : ∀ before call after, s.admitted = before ++ call :: after →
    ∀ other ∈ before, other.sequence = call.sequence → call.interval ≤ call.nowUs - other.nowUs

/-- A sequence that was admitted within the interval is still in the table, unless the call is over
the limit. -/
def OnRecord (s : State) (call : Resend) : Prop :=
  exceeds s.limiter call = true ∨
    ∀ other ∈ s.admitted, other.sequence = call.sequence → call.nowUs - other.nowUs < call.interval →
      (s.limiter.resentAtUs.lookup call.sequence).isSome

/-! ## One call -/

theorem sizes_append (front back : List (Int × Size)) : sizes (front ++ back) = sizes front + sizes back := by
  rw [sizes, List.map_append, List.sum_append]
  rfl

theorem spent_append (nowUs : Int) (front back : List (Int × Size)) :
    spent nowUs (front ++ back) = spent nowUs front + spent nowUs back := by
  rw [spent, List.filter_append, sizes_append]
  rfl

theorem spent_le_sizes (nowUs : Int) (sent : List (Int × Size)) : spent nowUs sent ≤ sizes sent := by
  unfold spent sizes
  exact (List.filter_sublist.map _).sum_le_sum fun _ _ => Nat.zero_le _

theorem sizeWord_toNat (bytes : Size) : (sizeWord bytes).toNat = bytes.val := by
  unfold sizeWord
  rw [BitVec.toNat_ofNat, Nat.mod_eq_of_lt (by have := bytes.isLt; omega)]

/-- The front that is old goes, and with it its bytes. -/
theorem trim_spec (nowUs : Int) (window : List (Int × Size)) {held : BitVec 64} (sum : held.toNat = sizes window) :
    ∃ old, window = old ++ (trim nowUs window held).1 ∧ (∀ entry ∈ old, kRetransmitRateWindowUs ≤ nowUs - entry.1) ∧
      (trim nowUs window held).2.toNat = sizes (trim nowUs window held).1 := by
  induction window generalizing held with
  | nil => exact ⟨[], rfl, fun _ member => (List.not_mem_nil member).elim, sum⟩
  | cons entry rest ih =>
    obtain ⟨time, bytes⟩ := entry
    unfold trim
    split_ifs with old
    · have whole : held.toNat = bytes.val + sizes rest := sum
      have less : (held - sizeWord bytes).toNat = sizes rest := by
        rw [BitVec.toNat_sub_of_le (BitVec.le_def.mpr (by rw [sizeWord_toNat]; omega)), sizeWord_toNat]
        omega
      obtain ⟨front, split, past, exact'⟩ := ih less
      refine ⟨(time, bytes) :: front, by rw [List.cons_append, ← split], ?_, exact'⟩
      rintro entry member
      rcases List.mem_cons.mp member with rfl | later
      · exact old
      · exact past entry later
    · exact ⟨[], rfl, fun _ member => (List.not_mem_nil member).elim, sum⟩

theorem lookup_makeRoom {nowUs : Int} {table : Table (BitVec 16) Int} {sequence : BitVec 16} {time : Int}
    (found : (makeRoom nowUs table).lookup sequence = some time) : table.lookup sequence = some time := by
  unfold makeRoom at found
  dsimp only at found
  split_ifs at found
  · cases found
  · rw [lookup_filterValues] at found
    exact (Option.filter_eq_some_iff.mp found).1
  · exact found

section Cases

variable {l : Limiter} {call : Resend}

theorem admit_early (early : again l call = true) : admitResendLocked l call = (false, l) := if_pos early

theorem admit_much (allowed : again l call = false) (much : exceeds l call = true) :
    admitResendLocked l call =
      (false, { l with
        resendWindow := (trim call.nowUs l.resendWindow l.resendWindowBytes).1
        resendWindowBytes := (trim call.nowUs l.resendWindow l.resendWindowBytes).2 }) := by
  unfold admitResendLocked
  rw [allowed, if_neg Bool.false_ne_true]
  generalize trim call.nowUs l.resendWindow l.resendWindowBytes = trimmed
  exact if_pos much

theorem admit_fits (allowed : again l call = false) (fits : exceeds l call = false) :
    admitResendLocked l call =
      (true,
        { resentAtUs := (makeRoom call.nowUs l.resentAtUs).insert call.sequence call.nowUs
          resendWindow := (trim call.nowUs l.resendWindow l.resendWindowBytes).1 ++ [(call.nowUs, call.bytes)]
          resendWindowBytes := (trim call.nowUs l.resendWindow l.resendWindowBytes).2 + sizeWord call.bytes }) := by
  unfold admitResendLocked
  rw [allowed, if_neg Bool.false_ne_true]
  generalize trim call.nowUs l.resendWindow l.resendWindowBytes = trimmed
  rw [fits]
  rfl

end Cases

/-! ## Every run -/

/-- The window has all that was admitted within 500 ms, and a time in the table is that of the last
admission of its sequence. -/
structure Inv (s : State) : Prop where
  past : ∀ call ∈ s.admitted, call.nowUs ≤ s.clock
  window : ∃ old, s.admitted.map Resend.sent = old ++ s.limiter.resendWindow ∧
    ∀ entry ∈ old, kRetransmitRateWindowUs ≤ s.clock - entry.1
  sum : s.limiter.resendWindowBytes.toNat = sizes s.limiter.resendWindow
  small : s.limiter.resendWindowBytes.toNat < 2 ^ 63
  newest : ∀ sequence time, s.limiter.resentAtUs.lookup sequence = some time →
    ∀ call ∈ s.admitted, call.sequence = sequence → call.nowUs ≤ time

/-- The window after the trim. -/
theorem Inv.trimmed {s : State} (inv : Inv s) {nowUs : Int} (later : s.clock ≤ nowUs) :
    (∃ old, s.admitted.map Resend.sent = old ++ (trim nowUs s.limiter.resendWindow s.limiter.resendWindowBytes).1 ∧
      ∀ entry ∈ old, kRetransmitRateWindowUs ≤ nowUs - entry.1) ∧
      (trim nowUs s.limiter.resendWindow s.limiter.resendWindowBytes).2.toNat =
        sizes (trim nowUs s.limiter.resendWindow s.limiter.resendWindowBytes).1 := by
  obtain ⟨gone, split, past⟩ := inv.window
  obtain ⟨front, split', past', sum⟩ := trim_spec nowUs s.limiter.resendWindow inv.sum
  refine ⟨⟨gone ++ front, ?_, ?_⟩, sum⟩
  · rw [split, List.append_assoc, ← split']
  · intro entry member
    rcases List.mem_append.mp member with first | second
    · have := past entry first
      omega
    · exact past' entry second

/-- What a call does: it is refused as too early or as too much, or it is admitted. -/
theorem step_cases {s t : State} {call : Resend} (stepped : step s call = some t) :
    s.clock ≤ call.nowUs ∧
      ((again s.limiter call = true ∧ t = { s with clock := call.nowUs }) ∨
        (again s.limiter call = false ∧ exceeds s.limiter call = true ∧
          t = { s with
            clock := call.nowUs
            limiter := { s.limiter with
              resendWindow := (trim call.nowUs s.limiter.resendWindow s.limiter.resendWindowBytes).1
              resendWindowBytes := (trim call.nowUs s.limiter.resendWindow s.limiter.resendWindowBytes).2 } }) ∨
        (again s.limiter call = false ∧ exceeds s.limiter call = false ∧
          t =
            { clock := call.nowUs
              admitted := s.admitted ++ [call]
              limiter :=
                { resentAtUs := (makeRoom call.nowUs s.limiter.resentAtUs).insert call.sequence call.nowUs
                  resendWindow :=
                    (trim call.nowUs s.limiter.resendWindow s.limiter.resendWindowBytes).1 ++ [(call.nowUs, call.bytes)]
                  resendWindowBytes :=
                    (trim call.nowUs s.limiter.resendWindow s.limiter.resendWindowBytes).2 + sizeWord call.bytes } })) := by
  unfold step at stepped
  split_ifs at stepped with later
  refine ⟨later, ?_⟩
  cases early : again s.limiter call with
  | true =>
    rw [admit_early early] at stepped
    exact .inl ⟨rfl, (Option.some.inj stepped).symm⟩
  | false =>
    cases much : exceeds s.limiter call with
    | true =>
      rw [admit_much early much] at stepped
      exact .inr (.inl ⟨rfl, rfl, (Option.some.inj stepped).symm⟩)
    | false =>
      rw [admit_fits early much] at stepped
      exact .inr (.inr ⟨rfl, rfl, (Option.some.inj stepped).symm⟩)

theorem limitBytes_small (call : Resend) : call.limitBytes.toNat < 2 ^ 63 := by
  unfold Resend.limitBytes
  rw [BitVec.toNat_udiv]
  refine lt_of_le_of_lt (Nat.div_le_div_right (BitVec.isLt _).le) ?_
  decide

theorem sizes_trim_lt {s : State} (inv : Inv s) (nowUs : Int) :
    (trim nowUs s.limiter.resendWindow s.limiter.resendWindowBytes).2.toNat < 2 ^ 63 := by
  obtain ⟨old, split, -, sum⟩ := trim_spec nowUs s.limiter.resendWindow inv.sum
  have parts := congrArg sizes split
  rw [sizes_append] at parts
  have small := inv.small
  rw [inv.sum] at small
  omega

/-- The sum with an admitted resend does not overflow, and is within the limit. -/
theorem held_admitted {s : State} (inv : Inv s) {call : Resend} (fits : exceeds s.limiter call = false) :
    ((trim call.nowUs s.limiter.resendWindow s.limiter.resendWindowBytes).2 + sizeWord call.bytes).toNat =
        (trim call.nowUs s.limiter.resendWindow s.limiter.resendWindowBytes).2.toNat + call.bytes.val ∧
      (trim call.nowUs s.limiter.resendWindow s.limiter.resendWindowBytes).2.toNat + call.bytes.val ≤
        call.limitBytes.toNat := by
  have small := sizes_trim_lt inv call.nowUs
  have size := call.bytes.isLt
  have sum : ((trim call.nowUs s.limiter.resendWindow s.limiter.resendWindowBytes).2 + sizeWord call.bytes).toNat =
      (trim call.nowUs s.limiter.resendWindow s.limiter.resendWindowBytes).2.toNat + call.bytes.val := by
    rw [BitVec.toNat_add, sizeWord_toNat, Nat.mod_eq_of_lt (by omega)]
  refine ⟨sum, ?_⟩
  have bound : ¬call.limitBytes <
      (trim call.nowUs s.limiter.resendWindow s.limiter.resendWindowBytes).2 + sizeWord call.bytes := by
    unfold exceeds at fits
    exact of_decide_eq_false fits
  rw [BitVec.lt_def, sum] at bound
  omega

theorem inv_step {s t : State} {call : Resend} (inv : Inv s) (stepped : step s call = some t) : Inv t := by
  obtain ⟨later, outcome⟩ := step_cases stepped
  have past : ∀ other ∈ s.admitted, other.nowUs ≤ call.nowUs := fun other member => (inv.past other member).trans later
  rcases outcome with ⟨-, rfl⟩ | ⟨-, -, rfl⟩ | ⟨-, fits, rfl⟩
  · obtain ⟨old, split, gone⟩ := inv.window
    refine ⟨past, ⟨old, split, fun entry member => ?_⟩, inv.sum, inv.small, inv.newest⟩
    have := gone entry member
    dsimp only
    omega
  · obtain ⟨window, sum⟩ := inv.trimmed later
    exact ⟨past, window, sum, sizes_trim_lt inv call.nowUs, inv.newest⟩
  · obtain ⟨⟨old, split, gone⟩, sum⟩ := inv.trimmed later
    obtain ⟨held, bound⟩ := held_admitted inv fits
    refine ⟨?_, ⟨old, ?_, gone⟩, ?_, ?_, ?_⟩
    · intro other member
      rcases List.mem_append.mp member with early | last
      · exact past other early
      · rw [List.mem_singleton.mp last]
    · rw [List.map_append, split, List.append_assoc]
      rfl
    · rw [held, sizes_append, sum]
      rfl
    · rw [held]
      exact lt_of_le_of_lt bound (limitBytes_small call)
    · intro sequence time found other member same
      dsimp only at found
      by_cases own : sequence = call.sequence
      · subst own
        rw [AList.lookup_insert] at found
        cases found
        rcases List.mem_append.mp member with early | last
        · exact past other early
        · rw [List.mem_singleton.mp last]
      · rw [AList.lookup_insert_ne own] at found
        rcases List.mem_append.mp member with early | last
        · exact inv.newest sequence time (lookup_makeRoom found) other early same
        · rw [List.mem_singleton.mp last] at same
          exact absurd same.symm own

/-- What was admitted in the last 500 ms is in the window, or is this call's own. -/
theorem spent_admitted {s : State} {call : Resend} (inv : Inv s) (later : s.clock ≤ call.nowUs)
    (fits : exceeds s.limiter call = false) :
    spent call.nowUs ((s.admitted ++ [call]).map Resend.sent) ≤ call.limitBytes.toNat := by
  obtain ⟨⟨old, split, gone⟩, sum⟩ := inv.trimmed later
  have none : spent call.nowUs old = 0 := by
    unfold spent
    rw [List.filter_eq_nil_iff.mpr]
    · rfl
    · intro entry member
      have := gone entry member
      simpa using this
  have own : spent call.nowUs (List.map Resend.sent [call]) ≤ call.bytes.val := spent_le_sizes call.nowUs [call.sent]
  have window := spent_le_sizes call.nowUs (trim call.nowUs s.limiter.resendWindow s.limiter.resendWindowBytes).1
  have bound := (held_admitted inv fits).2
  rw [sum] at bound
  rw [List.map_append, split, List.append_assoc, spent_append, spent_append, none]
  omega

/-- A resend that the table does not rule out was not admitted within the interval, as far as it is on
record. -/
theorem spaced_of_onRecord {s : State} {call : Resend} (inv : Inv s) (allowed : again s.limiter call = false)
    (recorded : ∀ other ∈ s.admitted, other.sequence = call.sequence → call.nowUs - other.nowUs < call.interval →
      (s.limiter.resentAtUs.lookup call.sequence).isSome)
    {other : Resend} (member : other ∈ s.admitted) (same : other.sequence = call.sequence) :
    call.interval ≤ call.nowUs - other.nowUs := by
  by_contra soon
  obtain ⟨time, found⟩ := Option.isSome_iff_exists.mp (recorded other member same (not_le.mp soon))
  have newest := inv.newest _ _ found other member same
  unfold again at allowed
  rw [found] at allowed
  have apart := of_decide_eq_false allowed
  omega

/-- The step keeps the discipline exactly when the sequence is on record. -/
theorem disciplined_step {s t : State} {call : Resend} (inv : Inv s) (good : Disciplined s)
    (stepped : step s call = some t) : Disciplined t ↔ OnRecord s call := by
  have next := inv_step inv stepped
  obtain ⟨later, outcome⟩ := step_cases stepped
  rcases outcome with ⟨early, rfl⟩ | ⟨allowed, much, rfl⟩ | ⟨allowed, fits, rfl⟩
  · refine iff_of_true ⟨good.budget, next.sum, good.once⟩ (.inr fun other member same soon => ?_)
    unfold again at early
    cases found : s.limiter.resentAtUs.lookup call.sequence with
    | none =>
      rw [found] at early
      cases early
    | some time => rfl
  · exact iff_of_true ⟨good.budget, next.sum, good.once⟩ (.inl much)
  · constructor
    · intro disciplined
      refine .inr fun other member same soon => ?_
      have apart := disciplined.once s.admitted call [] rfl other member same
      omega
    · rintro (much | recorded)
      · rw [fits] at much
        cases much
      · refine ⟨?_, next.sum, ?_⟩
        · intro before first after split
          rcases split_concat split with ⟨rest, -, old⟩ | ⟨rfl, rfl, -⟩
          · exact good.budget before first rest old
          · exact spent_admitted inv later fits
        · intro before first after split
          rcases split_concat split with ⟨rest, -, old⟩ | ⟨rfl, rfl, -⟩
          · exact good.once before first rest old
          · exact fun other member same => spaced_of_onRecord inv allowed recorded member same

theorem inv_start (clock : Int) : Inv { clock } :=
  ⟨fun _ member => (List.not_mem_nil member).elim, ⟨[], rfl, fun _ member => (List.not_mem_nil member).elim⟩, rfl,
    Nat.two_pow_pos 63, nofun⟩

theorem disciplined_start (clock : Int) : Disciplined { clock } := by
  refine ⟨fun before call after split => ?_, rfl, fun before call after split => ?_⟩
  · exact absurd split (List.append_ne_nil_of_right_ne_nil before (List.cons_ne_nil call after)).symm
  · exact absurd split (List.append_ne_nil_of_right_ne_nil before (List.cons_ne_nil call after)).symm

/-- The retransmits stay within both limits in exactly the runs in which every sequence that was
admitted within the interval is on record. -/
theorem disciplined_always_iff (clock : Int) (calls : List Resend) :
    Always step Disciplined { clock } calls ↔ EachStep step OnRecord { clock } calls :=
  always_iff_eachStep Inv (fun _ _ _ inv stepped => inv_step inv stepped)
    (fun _ _ _ inv good stepped => disciplined_step inv good stepped) (inv_start clock) (disciplined_start clock) calls

/-! ## Light loads -/

/-- A full table that has room once it drops what is a second old. -/
def Roomy (nowUs : Int) (table : Table (BitVec 16) Int) : Prop :=
  kMaxResendRecords ≤ table.keys.length →
    (filterValues (fun time => nowUs - time < 1000000) table).keys.length < kMaxResendRecords

/-- The round trip is at most a second, and the table is not cleared. -/
def Light (s : State) (call : Resend) : Prop :=
  call.interval ≤ 1000000 ∧ Roomy call.nowUs s.limiter.resentAtUs

/-- All of the last second is on record. -/
def Recorded (s : State) : Prop :=
  ∀ call ∈ s.admitted, s.clock - call.nowUs < 1000000 → (s.limiter.resentAtUs.lookup call.sequence).isSome

theorem lookup_makeRoom_isSome {nowUs : Int} {table : Table (BitVec 16) Int} (roomy : Roomy nowUs table)
    {sequence : BitVec 16} {time : Int} (found : table.lookup sequence = some time) (young : nowUs - time < 1000000) :
    ((makeRoom nowUs table).lookup sequence).isSome := by
  unfold makeRoom
  dsimp only
  split_ifs with full none
  · exact absurd none (not_le.mpr (roomy full))
  · rw [lookup_filterValues, found, Option.filter_some, if_pos (decide_eq_true young)]
    rfl
  · rw [found]
    rfl

theorem recorded_step {s t : State} {call : Resend} (inv : Inv s) (recorded : Recorded s) (light : Light s call)
    (stepped : step s call = some t) : OnRecord s call ∧ Recorded t := by
  obtain ⟨later, outcome⟩ := step_cases stepped
  have still : ∀ other ∈ s.admitted, call.nowUs - other.nowUs < 1000000 →
      (s.limiter.resentAtUs.lookup other.sequence).isSome := fun other member young => recorded other member (by omega)
  refine ⟨.inr fun other member same soon => same ▸ still other member (lt_of_lt_of_le soon light.1), ?_⟩
  rcases outcome with ⟨-, rfl⟩ | ⟨-, -, rfl⟩ | ⟨-, -, rfl⟩
  · exact still
  · exact still
  · intro other member young
    dsimp only at young ⊢
    by_cases own : other.sequence = call.sequence
    · rw [own, AList.lookup_insert]
      rfl
    · rw [AList.lookup_insert_ne own]
      rcases List.mem_append.mp member with early | last
      · obtain ⟨time, found⟩ := Option.isSome_iff_exists.mp (still other early young)
        have newest := inv.newest _ _ found other early rfl
        exact lookup_makeRoom_isSome light.2 found (by omega)
      · exact absurd (congrArg Resend.sequence (List.mem_singleton.mp last)) own

/-- Under a light load the limits hold. -/
theorem disciplined_of_light (clock : Int) {calls : List Resend} (light : EachStep step Light { clock } calls) :
    Always step Disciplined { clock } calls := by
  refine (disciplined_always_iff clock calls).mpr ?_
  refine light.imp (fun s => Inv s ∧ Recorded s) ?_ ⟨inv_start clock, fun _ member => (List.not_mem_nil member).elim⟩
  intro s call t both light stepped
  obtain ⟨onRecord, recorded⟩ := recorded_step both.1 both.2 light stepped
  exact ⟨onRecord, inv_step both.1 stepped, recorded⟩

/-! ## A heavy load -/

/-- A packet of 1100 bytes at a target of 1 Gbps, before the first round trip is known. -/
def packet (n : Nat) : Resend := { sequence := BitVec.ofNat 16 n, bytes := 1100, nowUs := 0, gccTargetBps := 1000000000 }

/-- The first packets, all asked for at one time. -/
def burst (n : Nat) : List Resend := (List.range n).map packet

theorem burst_succ (n : Nat) : burst (n + 1) = burst n ++ [packet n] := by
  unfold burst
  rw [List.range_succ, List.map_append, List.map_singleton]

/-- The state after a burst: each packet is in the window. -/
structure Burst (n : Nat) (s : State) : Prop where
  clock : s.clock = 0
  admitted : s.admitted = burst n
  held : s.limiter.resendWindowBytes.toNat = n * 1100
  young : ∀ entry ∈ s.limiter.resendWindow, entry.1 = 0

theorem trim_young {nowUs : Int} {window : List (Int × Size)} {held : BitVec 64}
    (young : ∀ entry ∈ window, nowUs - entry.1 < kRetransmitRateWindowUs) : trim nowUs window held = (window, held) := by
  cases window with
  | nil => rfl
  | cons entry rest => exact if_neg (not_le.mpr (young entry List.mem_cons_self))

theorem limit_packet (n : Nat) : (packet n).limitBytes.toNat = 62500000 := by
  unfold packet Resend.limitBytes
  dsimp only
  rw [if_neg (by decide)]
  decide

theorem burst_step {n : Nat} (few : n ≤ 5000) {s : State} (full : Burst n s) {k : Nat}
    (fresh : s.limiter.resentAtUs.lookup (packet k).sequence = none) :
    ∃ t, step s (packet k) = some t ∧ t.clock = 0 ∧ t.admitted = burst n ++ [packet k] ∧
      t.limiter.resendWindowBytes.toNat = (n + 1) * 1100 ∧ (∀ entry ∈ t.limiter.resendWindow, entry.1 = 0) ∧
      t.limiter.resentAtUs = (makeRoom 0 s.limiter.resentAtUs).insert (packet k).sequence 0 := by
  have same : trim 0 s.limiter.resendWindow s.limiter.resendWindowBytes =
      (s.limiter.resendWindow, s.limiter.resendWindowBytes) := by
    refine trim_young fun entry member => ?_
    rw [full.young entry member]
    decide
  have sum : (s.limiter.resendWindowBytes + sizeWord (packet k).bytes).toNat = (n + 1) * 1100 := by
    rw [BitVec.toNat_add, full.held, sizeWord_toNat]
    have size : (packet k).bytes.val = 1100 := rfl
    rw [size, Nat.mod_eq_of_lt (by omega)]
    omega
  have allowed : again s.limiter (packet k) = false := by
    unfold again
    rw [fresh]
  have fits : exceeds s.limiter (packet k) = false := by
    have zero : (packet k).nowUs = 0 := rfl
    unfold exceeds
    rw [zero, same, decide_eq_false_iff_not, BitVec.lt_def, sum, limit_packet]
    omega
  have stepped : step s (packet k) = some
      { clock := 0
        admitted := s.admitted ++ [packet k]
        limiter :=
          { resentAtUs := (makeRoom 0 s.limiter.resentAtUs).insert (packet k).sequence 0
            resendWindow := s.limiter.resendWindow ++ [(0, 1100)]
            resendWindowBytes := s.limiter.resendWindowBytes + sizeWord (packet k).bytes } } := by
    have zero : (packet k).nowUs = 0 := rfl
    unfold step
    rw [admit_fits allowed fits, zero, if_pos full.clock.le, same]
    rfl
  refine ⟨_, stepped, rfl, congrArg (· ++ [packet k]) full.admitted, sum, ?_, rfl⟩
  intro entry member
  rcases List.mem_append.mp member with early | last
  · exact full.young entry early
  · rw [List.mem_singleton.mp last]

/-- The table has no packet that was not asked for, and is not full before the cap. -/
theorem burst_run {n : Nat} (few : n ≤ kMaxResendRecords) :
    ∃ s, run step { clock := 0 } (burst n) = some s ∧ Burst n s ∧ s.limiter.resentAtUs.keys.length = n ∧
      ∀ sequence time, s.limiter.resentAtUs.lookup sequence = some time → sequence.toNat < n ∧ time = 0 := by
  induction n with
  | zero => exact ⟨{ clock := 0 }, rfl, ⟨rfl, rfl, rfl, fun _ member => (List.not_mem_nil member).elim⟩, rfl, nofun⟩
  | succ n ih =>
    have small : n < 4096 := few
    obtain ⟨s, ran, full, count, known⟩ := ih (Nat.le_of_succ_le few)
    have own : (packet n).sequence.toNat = n := by
      unfold packet
      rw [BitVec.toNat_ofNat, Nat.mod_eq_of_lt (by omega)]
    have fresh : s.limiter.resentAtUs.lookup (packet n).sequence = none := by
      rcases found : s.limiter.resentAtUs.lookup (packet n).sequence with _ | time
      · rfl
      · have below := (known _ _ found).1
        omega
    obtain ⟨t, stepped, clock, admitted, held, young, table⟩ := burst_step (by omega) full fresh
    have room : makeRoom 0 s.limiter.resentAtUs = s.limiter.resentAtUs := by
      unfold makeRoom
      rw [if_neg (by rw [count]; exact not_le.mpr small)]
    rw [room] at table
    refine ⟨t, ?_, ⟨clock, by rw [admitted, burst_succ], held, young⟩, ?_, ?_⟩
    · rw [burst_succ, run_append, ran]
      exact congrArg (Option.bind · fun t => run step t []) stepped
    · rw [table, AList.keys_insert, List.length_cons, List.erase_of_not_mem (AList.lookup_eq_none.mp fresh), count]
    · intro sequence time found
      rw [table] at found
      by_cases same : sequence = (packet n).sequence
      · rw [same, AList.lookup_insert] at found
        rw [same, own]
        exact ⟨Nat.lt_succ_self n, (Option.some.inj found).symm⟩
      · rw [AList.lookup_insert_ne same] at found
        exact (known sequence time found).imp_left Nat.lt_succ_of_lt

/-- The packet behind that many others clears the table, and the first one is admitted again at once. -/
theorem burst_twice : ∃ s, run step { clock := 0 } (burst (kMaxResendRecords + 1) ++ [packet 0]) = some s ∧
    s.admitted = burst (kMaxResendRecords + 1) ++ [packet 0] ∧
    ¬ Always step Disciplined { clock := 0 } (burst (kMaxResendRecords + 1) ++ [packet 0]) := by
  obtain ⟨s, ran, full, count, known⟩ := burst_run (le_refl kMaxResendRecords)
  have fresh : s.limiter.resentAtUs.lookup (packet kMaxResendRecords).sequence = none := by
    rcases found : s.limiter.resentAtUs.lookup (packet kMaxResendRecords).sequence with _ | time
    · rfl
    · exact absurd (known _ _ found).1 (by decide)
  obtain ⟨t, stepped, clock, admitted, held, young, table⟩ := burst_step (by decide) full fresh
  have cleared : makeRoom 0 s.limiter.resentAtUs = ∅ := by
    have kept : filterValues (fun time => decide ((0 : Int) - time < 1000000)) s.limiter.resentAtUs = s.limiter.resentAtUs := by
      refine filterValues_eq_self fun sequence time found => ?_
      rw [(known sequence time found).2]
      decide
    unfold makeRoom
    rw [kept, if_pos count.ge]
    exact if_pos count.ge
  rw [cleared] at table
  have gone : t.limiter.resentAtUs.lookup (packet 0).sequence = none := by
    rw [table, AList.lookup_insert_ne (by decide)]
    rfl
  rw [← burst_succ] at admitted
  obtain ⟨u, stepped', -, admitted', -⟩ := burst_step (by decide) ⟨clock, admitted, held, young⟩ gone
  have whole : run step { clock := 0 } (burst (kMaxResendRecords + 1) ++ [packet 0]) = some u := by
    rw [burst_succ, List.append_assoc, run_append, ran]
    change ((step s (packet kMaxResendRecords)).bind fun t => run step t [packet 0]) = some u
    rw [stepped]
    exact congrArg (Option.bind · fun t => run step t []) stepped'
  refine ⟨u, whole, admitted', not_always_of_run whole fun good => ?_⟩
  have first : packet 0 ∈ burst (kMaxResendRecords + 1) := List.mem_map_of_mem (List.mem_range.mpr (by decide))
  exact absurd (good.once (burst (kMaxResendRecords + 1)) (packet 0) [] admitted' (packet 0) first rfl) (by decide)

end Mello.Transport.ResendBudget
