import Mello.Library.Runs

/-!
The local speaking state on its way to the voice server. The capture thread brings the
VAD changes, the voice tick polls and attaches targets. A call takes the limiter, leaves
it to send, and takes it again when the send failed.
-/

namespace Mello.Core.Speaking
open Mello.Library Runs

/-- In milliseconds. -/
def INBAND_MIN_CHANGE_INTERVAL : Nat := 100

/-! ## The limiter -/

structure ChangeLimiter where
  lastSentAt : Option Nat := none
  lastSent : Option Bool := none
  pending : Option Bool := none
  latest : Option Bool := none
  deriving DecidableEq, Repr

namespace ChangeLimiter

variable (l : ChangeLimiter)

/-- The waiting state, once its interval has passed. -/
def poll (now : Nat) : Option Bool × ChangeLimiter :=
  match l.pending with
  | none => (none, l)
  | some state =>
    if l.lastSent = some state then (none, { l with pending := none })
    else if ∃ at_ ∈ l.lastSentAt, now - at_ < INBAND_MIN_CHANGE_INTERVAL then (none, l)
    else (some state, { l with pending := none, lastSent := some state, lastSentAt := some now })

def onChange (state : Bool) (now : Nat) : Option Bool × ChangeLimiter :=
  poll { l with latest := some state, pending := some state } now

def sendFailed (state : Bool) : ChangeLimiter :=
  { l with
    lastSent := if l.lastSent = some state then none else l.lastSent
    lastSentAt := if l.lastSent = some state then none else l.lastSentAt
    pending := l.pending <|> some state }

/-- A new receiver, to which nothing was sent. -/
def restart : ChangeLimiter :=
  { l with lastSent := none, lastSentAt := none, pending := if l.latest = some true then some true else none }

end ChangeLimiter

/-! ## The calls -/

/-- What a thread is in the middle of: a send that was decided, a send that failed, or an
attach before its restart and before its poll. -/
inductive Call where
  | idle
  | send (on : Bool)
  | failed (on : Bool)
  | swapped
  | restarted
  deriving DecidableEq, Repr

inductive Thread where
  | capture
  | tick
  deriving DecidableEq, Repr

/-- The target is only what it was told last. -/
structure InbandSpeaking where
  limiter : ChangeLimiter := {}
  capture : Call := .idle
  tick : Call := .idle
  attached : Bool := false
  delivered : Option Bool := none
  deriving DecidableEq, Repr

namespace InbandSpeaking

variable (s : InbandSpeaking)

def call : Thread → Call
  | .capture => s.capture
  | .tick => s.tick

def setCall (call : Call) : Thread → InbandSpeaking
  | .capture => { s with capture := call }
  | .tick => { s with tick := call }

end InbandSpeaking

inductive Action where
  | onVad (speaking : Bool) (now : Nat)
  | poll (now : Nat)
  | send (thread : Thread) (works : Bool)
  | sendFailed (thread : Thread)
  | attach
  | restart
  deriving DecidableEq, Repr

/-- The steps of the limiter that the law of the interval speaks of. -/
inductive Event where
  | decided (now : Nat)
  | failed
  | attached
  deriving DecidableEq, Repr

/-- What a thread goes on with after the limiter. -/
def goOn (s : InbandSpeaking) (thread : Thread) (now : Nat) : Option Bool × ChangeLimiter → InbandSpeaking × List Event
  | (some on, limiter) => ({ s with limiter }.setCall (.send on) thread, [.decided now])
  | (none, limiter) => ({ s with limiter }.setCall .idle thread, [])

def step (s : InbandSpeaking) : Action → Option (InbandSpeaking × List Event)
  | .onVad speaking now =>
    if s.capture = .idle then some (goOn s .capture now (s.limiter.onChange speaking now)) else none
  | .poll now =>
    if s.tick = .idle ∨ s.tick = .restarted then some (goOn s .tick now (s.limiter.poll now)) else none
  | .send thread works =>
    match s.call thread with
    | .send on =>
      if s.attached ∧ works then some ({ s with delivered := some on }.setCall .idle thread, [])
      else some (s.setCall (.failed on) thread, [])
    | _ => none
  | .sendFailed thread =>
    match s.call thread with
    | .failed on => some ({ s with limiter := s.limiter.sendFailed on }.setCall .idle thread, [.failed])
    | _ => none
  | .attach => if s.tick = .idle then some ({ s with attached := true, delivered := none, tick := .swapped }, []) else none
  | .restart =>
    if s.tick = .swapped then some ({ s with limiter := s.limiter.restart, tick := .restarted }, [.attached]) else none

/-! ## The law -/

/-- Two sends are the interval apart, unless one failed or a target came between. -/
def Spaced (log : List Event) : Prop :=
  ∀ front t between u back, log = front ++ .decided t :: (between ++ .decided u :: back) →
    .failed ∉ between → .attached ∉ between → t + INBAND_MIN_CHANGE_INTERVAL ≤ u

/-- At rest a change waits, or the target knows the latest state. -/
def Settled (s : InbandSpeaking) : Prop :=
  s.capture = .idle → s.tick = .idle → s.attached →
    s.limiter.pending.isSome ∨ s.delivered.getD false = s.limiter.latest.getD false

/-- A send that was decided and is not over. -/
def Sending (s : InbandSpeaking) (thread : Thread) (on : Bool) : Prop :=
  s.call thread = .send on ∨ s.call thread = .failed on

/-- While a send of the tick is under way, the VAD decides no other: its state is the same
one, or the one sent last, or the interval is not over. When the limiter restarts, the new
target was not told a speaking state that the VAD has taken back and sent. -/
def Unraced (s : InbandSpeaking) : Action → Prop
  | .onVad speaking now => ∀ on, Sending s .tick on →
    on = speaking ∨ s.limiter.lastSent = some speaking ∨ ∃ at_ ∈ s.limiter.lastSentAt, now - at_ < INBAND_MIN_CHANGE_INTERVAL
  | .restart => s.delivered = some true → s.limiter.latest = some true ∨ ∃ on, Sending s .capture on
  | _ => True

/-! ## The limiter's steps -/

section Limiter

variable {l : ChangeLimiter} {now : Nat}

/-- What a poll does: nothing waits, what waits is known, it has to wait, or it goes out. -/
theorem poll_cases (l : ChangeLimiter) (now : Nat) :
    (l.pending = none ∧ l.poll now = (none, l)) ∨
      (∃ on, l.pending = some on ∧ l.lastSent = some on ∧ l.poll now = (none, { l with pending := none })) ∨
      ((∃ at_ ∈ l.lastSentAt, now - at_ < INBAND_MIN_CHANGE_INTERVAL) ∧ l.poll now = (none, l)) ∨
      ∃ on, l.pending = some on ∧ l.lastSent ≠ some on ∧ (∀ at_ ∈ l.lastSentAt, at_ + INBAND_MIN_CHANGE_INTERVAL ≤ now) ∧
        l.poll now = (some on, { l with pending := none, lastSent := some on, lastSentAt := some now }) := by
  unfold ChangeLimiter.poll
  cases waits : l.pending with
  | none => exact .inl ⟨rfl, rfl⟩
  | some on =>
    right
    dsimp only
    split_ifs with known early
    · exact .inl ⟨on, rfl, known, rfl⟩
    · exact .inr (.inl ⟨early, rfl⟩)
    · refine .inr (.inr ⟨on, rfl, known, ?_, rfl⟩)
      intro at_ sent
      have long : ¬now - at_ < INBAND_MIN_CHANGE_INTERVAL := fun short => early ⟨at_, sent, short⟩
      unfold INBAND_MIN_CHANGE_INTERVAL at *
      omega

end Limiter

/-! ## What holds between the steps -/

/-- The capture thread sends the latest state. What waits is the latest state, and with
nothing waiting it is what the tick sends, and what the target knows or is being sent. -/
structure Good (s : InbandSpeaking) : Prop where
  own : ∀ on, Sending s .capture on → s.limiter.latest = some on
  waiting : ∀ on, s.limiter.pending = some on → s.limiter.latest = some on
  ticking : ∀ on, Sending s .tick on → s.limiter.pending = none → s.limiter.latest = some on
  sent : ∀ thread on, Sending s thread on → s.limiter.lastSent = none ∨ s.limiter.lastSent = some on
  told : s.tick ≠ .swapped → ∀ on, s.limiter.lastSent = some on → s.delivered = some on ∨ ∃ thread, Sending s thread on
  known : s.tick ≠ .swapped → s.limiter.pending = none →
    s.delivered.getD false = s.limiter.latest.getD false ∨ ∃ thread on, Sending s thread on ∧ s.limiter.latest = some on

section Step

variable {s t : InbandSpeaking} {thread : Thread} {speaking : Bool} {now : Nat}

theorem not_sending_idle (rest : s.call thread = .idle) (on : Bool) : ¬Sending s thread on := by
  rintro (send | failed)
  · rw [rest] at send
    cases send
  · rw [rest] at failed
    cases failed

/-- A VAD change that is known, or waits. -/
theorem good_onVad_rest (good : Good s) (rest : s.capture = .idle) {limiter : ChangeLimiter}
    (latest : limiter.latest = some speaking) (lastSent : limiter.lastSent = s.limiter.lastSent)
    (waits : limiter.pending = some speaking ∨ (limiter.pending = none ∧ s.limiter.lastSent = some speaking)) :
    Good { s with limiter, capture := .idle } := by
  have same : { s with limiter, capture := .idle } = { s with limiter } := by rw [← rest]
  have idle : s.call .capture = .idle := rest
  rw [same]
  constructor
  · exact fun on sending => absurd sending (not_sending_idle idle on)
  · intro on pending
    rcases waits with waits | ⟨none, -⟩
    · exact latest.trans (waits.symm.trans pending)
    · cases none.symm.trans pending
  · intro on sending pending
    rcases waits with waits | ⟨-, sent⟩
    · cases waits.symm.trans pending
    · rcases good.sent .tick on sending with none | same
      · cases none.symm.trans sent
      · exact latest.trans (sent.symm.trans same)
  · intro thread on sending
    rw [lastSent]
    exact good.sent thread on sending
  · intro tick on sent
    rw [lastSent] at sent
    exact good.told tick on sent
  · intro tick pending
    rcases waits with waits | ⟨-, sent⟩
    · cases waits.symm.trans pending
    · dsimp only
      rw [latest]
      rcases good.told tick speaking sent with told | ⟨thread, sending⟩
      · rw [told]
        exact .inl rfl
      · exact .inr ⟨thread, speaking, sending, rfl⟩

/-- A VAD change that goes out, with no other send of the tick under way. -/
theorem good_onVad_send (alone : ∀ on, Sending s .tick on → on = speaking) {limiter : ChangeLimiter}
    (latest : limiter.latest = some speaking) (lastSent : limiter.lastSent = some speaking) (pending : limiter.pending = none) :
    Good { s with limiter, capture := .send speaking } := by
  constructor
  · rintro on (send | failed)
    · cases send
      exact latest
    · cases failed
  · intro on waits
    cases pending.symm.trans waits
  · intro on sending _
    rw [alone on sending]
    exact latest
  · rintro (_ | _) on sending
    · rcases sending with send | failed
      · cases send
        exact .inr lastSent
      · cases failed
    · rw [alone on sending]
      exact .inr lastSent
  · intro tick on sent
    cases lastSent.symm.trans sent
    exact .inr ⟨.capture, .inl rfl⟩
  · exact fun tick none => .inr ⟨.capture, speaking, .inl rfl, latest⟩

/-- A poll that lets nothing out. -/
theorem good_poll_rest (good : Good s) (rest : s.tick = .idle ∨ s.tick = .restarted) {pending : Option Bool}
    (waits : pending = s.limiter.pending ∨
      (pending = none ∧ ∃ on, s.limiter.pending = some on ∧ s.limiter.lastSent = some on)) :
    Good { s with limiter := { s.limiter with pending }, tick := .idle } := by
  have moved : s.tick ≠ .swapped := by
    rcases rest with rest | rest <;> rw [rest] <;> nofun
  have other : ∀ on, ¬Sending s .tick on := by
    rintro on (send | failed)
    · rcases rest with rest | rest <;> cases rest.symm.trans send
    · rcases rest with rest | rest <;> cases rest.symm.trans failed
  have kept : ∀ thread on, Sending { s with limiter := { s.limiter with pending }, tick := .idle } thread on ↔
      Sending s thread on := by
    rintro (_ | _) on
    · exact Iff.rfl
    · exact iff_of_false (not_sending_idle rfl on) (other on)
  constructor
  · exact good.own
  · intro on here
    rcases waits with same | ⟨none, -⟩
    · exact good.waiting on (same.symm.trans here)
    · cases none.symm.trans here
  · exact fun on sending => absurd sending (not_sending_idle rfl on)
  · exact fun thread on sending => good.sent thread on ((kept thread on).mp sending)
  · intro _ on sent
    rcases good.told moved on sent with told | ⟨thread, sending⟩
    · exact .inl told
    · exact .inr ⟨thread, (kept thread on).mpr sending⟩
  · intro _ none
    rcases waits with same | ⟨-, on, pending, sent⟩
    · rcases good.known moved (same.symm.trans none) with known | ⟨thread, on, sending, latest⟩
      · exact .inl known
      · exact .inr ⟨thread, on, (kept thread on).mpr sending, latest⟩
    · have latest := good.waiting on pending
      rcases good.told moved on sent with told | ⟨thread, sending⟩
      · left
        dsimp only
        rw [told, latest]
      · exact .inr ⟨thread, on, (kept thread on).mpr sending, latest⟩

/-- A poll that lets the waiting state out. -/
theorem good_poll_send (good : Good s) {on : Bool} (pending : s.limiter.pending = some on) (sentAt : Option Nat) :
    Good { s with
      limiter := { s.limiter with pending := none, lastSent := some on, lastSentAt := sentAt }, tick := .send on } := by
  have latest := good.waiting on pending
  constructor
  · exact good.own
  · nofun
  · rintro other (send | failed)
    · cases send
      exact fun _ => latest
    · cases failed
  · rintro (_ | _) other sending
    · cases latest.symm.trans (good.own other sending)
      exact .inr rfl
    · rcases sending with send | failed
      · cases send
        exact .inr rfl
      · cases failed
  · rintro - other ⟨⟩
    exact .inr ⟨.tick, .inl rfl⟩
  · exact fun _ _ => .inr ⟨.tick, on, .inl rfl, latest⟩

/-- What a thread sends is the latest state when nothing waits. -/
theorem Good.latest (good : Good s) {on : Bool} (sending : Sending s thread on) (none : s.limiter.pending = none) :
    s.limiter.latest = some on := by
  cases thread with
  | capture => exact good.own on sending
  | tick => exact good.ticking on sending none

theorem sending_setCall_idle {s : InbandSpeaking} {thread other : Thread} {on : Bool}
    (sending : Sending (s.setCall .idle thread) other on) : other ≠ thread ∧ Sending s other on := by
  cases thread <;> cases other
  · exact absurd sending (not_sending_idle rfl on)
  · exact ⟨nofun, sending⟩
  · exact ⟨nofun, sending⟩
  · exact absurd sending (not_sending_idle rfl on)

theorem limiter_setCall (s : InbandSpeaking) (call : Call) (thread : Thread) : (s.setCall call thread).limiter = s.limiter := by
  cases thread <;> rfl

theorem delivered_setCall (s : InbandSpeaking) (call : Call) (thread : Thread) :
    (s.setCall call thread).delivered = s.delivered := by cases thread <;> rfl

theorem tick_of_setCall {s : InbandSpeaking} {call : Call} (sending : Sending s thread speaking)
    (moved : (s.setCall call thread).tick ≠ .swapped) : s.tick ≠ .swapped := by
  cases thread with
  | capture => exact moved
  | tick =>
    intro swapped
    rcases sending with send | failed
    · cases swapped.symm.trans send
    · cases swapped.symm.trans failed

theorem good_delivered (good : Good s) {on : Bool} (sending : Sending s thread on) :
    Good ({ s with delivered := some on }.setCall .idle thread) := by
  have fewer : ∀ other state, Sending ({ s with delivered := some on }.setCall .idle thread) other state →
      Sending s other state := fun other state later => (sending_setCall_idle later).2
  constructor
  · intro state later
    rw [limiter_setCall]
    exact good.own state (fewer .capture state later)
  · rw [limiter_setCall]
    exact good.waiting
  · intro state later
    rw [limiter_setCall]
    exact good.ticking state (fewer .tick state later)
  · intro other state later
    rw [limiter_setCall]
    exact good.sent other state (fewer other state later)
  · intro _ state lastSent
    rw [limiter_setCall] at lastSent
    rw [delivered_setCall]
    left
    rcases good.sent thread on sending with none | same
    · cases none.symm.trans lastSent
    · exact same.symm.trans lastSent
  · intro _ none
    rw [limiter_setCall] at none ⊢
    rw [delivered_setCall]
    left
    dsimp only
    rw [good.latest sending none]

theorem good_unsent (good : Good s) {on : Bool} (here : s.call thread = .send on) : Good (s.setCall (.failed on) thread) := by
  have kept : ∀ other state, Sending (s.setCall (.failed on) thread) other state ↔ Sending s other state := by
    intro other state
    unfold Sending
    cases thread <;> cases other <;> first | exact Iff.rfl | skip
    · change Call.failed on = _ ∨ Call.failed on = _ ↔ _
      rw [here]
      simp
    · change Call.failed on = _ ∨ Call.failed on = _ ↔ _
      rw [here]
      simp
  have moved : (s.setCall (.failed on) thread).tick ≠ .swapped → s.tick ≠ .swapped := tick_of_setCall (.inl here)
  constructor
  · intro state later
    rw [limiter_setCall]
    exact good.own state ((kept _ _).mp later)
  · rw [limiter_setCall]
    exact good.waiting
  · intro state later
    rw [limiter_setCall]
    exact good.ticking state ((kept _ _).mp later)
  · intro other state later
    rw [limiter_setCall]
    exact good.sent other state ((kept _ _).mp later)
  · intro tick state
    rw [limiter_setCall, delivered_setCall]
    intro lastSent
    rcases good.told (moved tick) state lastSent with told | ⟨other, sending⟩
    · exact .inl told
    · exact .inr ⟨other, (kept _ _).mpr sending⟩
  · intro tick
    rw [limiter_setCall, delivered_setCall]
    intro none
    rcases good.known (moved tick) none with known | ⟨other, state, sending, latest⟩
    · exact .inl known
    · exact .inr ⟨other, state, (kept _ _).mpr sending, latest⟩

theorem good_sendFailed (good : Good s) {on : Bool} (sending : Sending s thread on) :
    Good ({ s with limiter := s.limiter.sendFailed on }.setCall .idle thread) := by
  have fewer : ∀ other state, Sending ({ s with limiter := s.limiter.sendFailed on }.setCall .idle thread) other state →
      Sending s other state := fun other state later => (sending_setCall_idle later).2
  have waits : ∃ state, (s.limiter.sendFailed on).pending = some state ∧ s.limiter.latest = some state := by
    unfold ChangeLimiter.sendFailed
    dsimp only
    cases pending : s.limiter.pending with
    | none => exact ⟨on, rfl, good.latest sending pending⟩
    | some state => exact ⟨state, rfl, good.waiting state pending⟩
  obtain ⟨state, pending, latest⟩ := waits
  have reset : ∀ other, (s.limiter.sendFailed on).lastSent = some other → False := by
    intro other
    unfold ChangeLimiter.sendFailed
    dsimp only
    split_ifs with here
    · nofun
    · intro lastSent
      rcases good.sent thread on sending with none | same
      · cases none.symm.trans lastSent
      · exact here same
  constructor
  · intro state later
    rw [limiter_setCall]
    exact good.own state (fewer .capture state later)
  · rw [limiter_setCall]
    intro other waiting
    cases pending.symm.trans waiting
    exact latest
  · intro other later
    rw [limiter_setCall]
    intro none
    cases pending.symm.trans none
  · intro other state later
    rw [limiter_setCall]
    left
    cases lastSent : (s.limiter.sendFailed on).lastSent with
    | none => rfl
    | some last => exact absurd lastSent (reset last)
  · intro _ state
    rw [limiter_setCall]
    exact fun lastSent => absurd lastSent (reset state)
  · intro _
    rw [limiter_setCall]
    intro none
    cases pending.symm.trans none

theorem good_attach (good : Good s) : Good { s with attached := true, delivered := none, tick := .swapped } := by
  constructor
  · exact good.own
  · exact good.waiting
  · exact fun on sending => absurd sending (by rintro (send | failed) <;> contradiction)
  · rintro (_ | _) on sending
    · exact good.sent .capture on sending
    · rcases sending with send | failed
      · cases send
      · cases failed
  · exact fun moved => absurd rfl moved
  · exact fun moved => absurd rfl moved

theorem good_restart (good : Good s)
    (unraced : s.delivered = some true → s.limiter.latest = some true ∨ ∃ on, Sending s .capture on) :
    Good { s with limiter := s.limiter.restart, tick := .restarted } := by
  constructor
  · exact good.own
  · intro on
    unfold ChangeLimiter.restart
    dsimp only
    split_ifs with latest
    · rintro ⟨⟩
      exact latest
    · nofun
  · rintro on (send | failed)
    · cases send
    · cases failed
  · exact fun _ _ _ => .inl rfl
  · nofun
  · intro _
    unfold ChangeLimiter.restart
    dsimp only
    split_ifs with latest
    · nofun
    · intro _
      have quiet : s.limiter.latest.getD false = false := by
        cases here : s.limiter.latest with
        | none => rfl
        | some on =>
          cases on with
          | false => rfl
          | true => exact absurd here latest
      rw [quiet]
      by_cases told : s.delivered = some true
      · rcases unraced told with known | ⟨on, sending⟩
        · exact absurd known latest
        · exact .inr ⟨.capture, on, sending, good.own on sending⟩
      · left
        cases here : s.delivered with
        | none => rfl
        | some on =>
          cases on with
          | false => rfl
          | true => exact absurd here told

theorem good_step (good : Good s) {action : Action} (unraced : Unraced s action) {events : List Event}
    (stepped : step s action = some (t, events)) : Good t := by
  cases action with
  | onVad speaking now =>
    simp only [step] at stepped
    split_ifs at stepped with rest
    have went : (goOn s .capture now (s.limiter.onChange speaking now)).1 = t := congrArg Prod.fst (Option.some.inj stepped)
    subst went
    have alone : s.limiter.lastSent ≠ some speaking →
        (∀ at_ ∈ s.limiter.lastSentAt, at_ + INBAND_MIN_CHANGE_INTERVAL ≤ now) →
        ∀ on, Sending s .tick on → on = speaking := by
      rintro new long on sending
      rcases unraced on sending with same | known | ⟨at_, sent, early⟩
      · exact same
      · exact absurd known new
      · have late := long at_ sent
        omega
    unfold ChangeLimiter.onChange
    rcases poll_cases { s.limiter with latest := some speaking, pending := some speaking } now with
      ⟨none, -⟩ | ⟨on, ⟨⟩, sent, polled⟩ | ⟨-, polled⟩ | ⟨on, ⟨⟩, new, long, polled⟩
    · cases none
    · rw [polled]
      exact good_onVad_rest good rest rfl rfl (.inr ⟨rfl, sent⟩)
    · rw [polled]
      exact good_onVad_rest good rest rfl rfl (.inl rfl)
    · rw [polled]
      exact good_onVad_send (alone new long) rfl rfl rfl
  | poll now =>
    simp only [step] at stepped
    split_ifs at stepped with rest
    have went : (goOn s .tick now (s.limiter.poll now)).1 = t := congrArg Prod.fst (Option.some.inj stepped)
    subst went
    rcases poll_cases s.limiter now with ⟨-, polled⟩ | ⟨on, waits, sent, polled⟩ | ⟨-, polled⟩ | ⟨on, waits, -, -, polled⟩
    · rw [polled]
      exact good_poll_rest good rest (.inl rfl)
    · rw [polled]
      exact good_poll_rest good rest (.inr ⟨rfl, on, waits, sent⟩)
    · rw [polled]
      exact good_poll_rest good rest (.inl rfl)
    · rw [polled]
      exact good_poll_send good waits (some now)
  | send thread works =>
    simp only [step] at stepped
    split at stepped
    · next on here =>
      split_ifs at stepped
      · cases stepped
        exact good_delivered good (.inl here)
      · cases stepped
        exact good_unsent good here
    · cases stepped
  | sendFailed thread =>
    simp only [step] at stepped
    split at stepped
    · next on here =>
      cases stepped
      exact good_sendFailed good (.inr here)
    · cases stepped
  | attach =>
    simp only [step] at stepped
    split_ifs at stepped
    cases stepped
    exact good_attach good
  | restart =>
    simp only [step] at stepped
    split_ifs at stepped
    cases stepped
    exact good_restart good unraced

/-- A send that is decided restarts the interval, once the last one is over. -/
theorem step_clock {action : Action} {events : List Event} (stepped : step s action = some (t, events)) :
    (events = [] ∧ t.limiter.lastSentAt = s.limiter.lastSentAt) ∨
      (∃ u, events = [.decided u] ∧ t.limiter.lastSentAt = some u ∧
        ∀ at_ ∈ s.limiter.lastSentAt, at_ + INBAND_MIN_CHANGE_INTERVAL ≤ u) ∨
      events = [.failed] ∨ events = [.attached] := by
  cases action with
  | onVad speaking now =>
    simp only [step] at stepped
    split_ifs at stepped
    have went := Option.some.inj stepped
    unfold ChangeLimiter.onChange at went
    rcases poll_cases { s.limiter with latest := some speaking, pending := some speaking } now with
      ⟨-, polled⟩ | ⟨on, -, -, polled⟩ | ⟨-, polled⟩ | ⟨on, -, -, long, polled⟩
    all_goals
      rw [polled] at went
      cases went
    · exact .inl ⟨rfl, rfl⟩
    · exact .inl ⟨rfl, rfl⟩
    · exact .inl ⟨rfl, rfl⟩
    · exact .inr (.inl ⟨now, rfl, rfl, long⟩)
  | poll now =>
    simp only [step] at stepped
    split_ifs at stepped
    have went := Option.some.inj stepped
    rcases poll_cases s.limiter now with ⟨-, polled⟩ | ⟨on, -, -, polled⟩ | ⟨-, polled⟩ | ⟨on, -, -, long, polled⟩
    all_goals
      rw [polled] at went
      cases went
    · exact .inl ⟨rfl, rfl⟩
    · exact .inl ⟨rfl, rfl⟩
    · exact .inl ⟨rfl, rfl⟩
    · exact .inr (.inl ⟨now, rfl, rfl, long⟩)
  | send thread works =>
    simp only [step] at stepped
    split at stepped
    · split_ifs at stepped <;> cases stepped
      · exact .inl ⟨rfl, by rw [limiter_setCall]⟩
      · exact .inl ⟨rfl, by rw [limiter_setCall]⟩
    · cases stepped
  | sendFailed thread =>
    simp only [step] at stepped
    split at stepped <;> cases stepped
    exact .inr (.inr (.inl rfl))
  | attach =>
    simp only [step] at stepped
    split_ifs at stepped
    cases stepped
    exact .inl ⟨rfl, rfl⟩
  | restart =>
    simp only [step] at stepped
    split_ifs at stepped
    cases stepped
    exact .inr (.inr (.inr rfl))

end Step

/-! ## The interval -/

/-- A decided send that no failure and no target followed is not after the limiter's clock. -/
structure Clocked (lastSentAt : Option Nat) (log : List Event) : Prop where
  spaced : Spaced log
  clock : ∀ front t later, log = front ++ .decided t :: later → .failed ∉ later → .attached ∉ later →
    ∃ at_ ∈ lastSentAt, t ≤ at_

section Clock

variable {lastSentAt : Option Nat} {log : List Event}

theorem Clocked.decided (clocked : Clocked lastSentAt log) {u : Nat}
    (long : ∀ at_ ∈ lastSentAt, at_ + INBAND_MIN_CHANGE_INTERVAL ≤ u) : Clocked (some u) (log ++ [.decided u]) := by
  constructor
  · intro front t between v back whole unfailed kept
    rw [← List.cons_append, ← List.append_assoc] at whole
    rcases split_concat whole with ⟨rest, -, old⟩ | ⟨old, same, -⟩
    · rw [List.append_assoc, List.cons_append] at old
      exact clocked.spaced front t between v rest old unfailed kept
    · cases same
      obtain ⟨at_, sent, before⟩ := clocked.clock front t between old.symm unfailed kept
      exact (Nat.add_le_add_right before _).trans (long at_ sent)
  · intro front t later whole unfailed kept
    rcases split_concat whole with ⟨rest, rfl, old⟩ | ⟨-, same, -⟩
    · obtain ⟨at_, sent, before⟩ := clocked.clock front t rest old
        (fun member => unfailed (List.mem_append_left _ member)) (fun member => kept (List.mem_append_left _ member))
      refine ⟨u, rfl, ?_⟩
      have after := long at_ sent
      omega
    · cases same
      exact ⟨u, rfl, le_rfl⟩

theorem Clocked.parted (clocked : Clocked lastSentAt log) {event : Event} (parts : event = .failed ∨ event = .attached)
    (next : Option Nat) : Clocked next (log ++ [event]) := by
  have undecided : ∀ t, Event.decided t ≠ event := by
    rintro t rfl
    rcases parts with same | same <;> cases same
  constructor
  · intro front t between v back whole unfailed kept
    rw [← List.cons_append, ← List.append_assoc] at whole
    rcases split_concat whole with ⟨rest, -, old⟩ | ⟨-, same, -⟩
    · rw [List.append_assoc, List.cons_append] at old
      exact clocked.spaced front t between v rest old unfailed kept
    · exact absurd same (undecided v)
  · intro front t later whole unfailed kept
    rcases split_concat whole with ⟨rest, rfl, -⟩ | ⟨-, same, -⟩
    · have member : event ∈ rest ++ [event] := List.mem_append_right _ List.mem_cons_self
      rcases parts with rfl | rfl
      · exact absurd member unfailed
      · exact absurd member kept
    · exact absurd same (undecided t)

theorem clocked_step {s t : InbandSpeaking} {action : Action} {events : List Event}
    (clocked : Clocked s.limiter.lastSentAt log) (stepped : step s action = some (t, events)) :
    Clocked t.limiter.lastSentAt (log ++ events) := by
  rcases step_clock stepped with ⟨rfl, same⟩ | ⟨u, rfl, clock, long⟩ | rfl | rfl
  · rw [same, List.append_nil]
    exact clocked
  · rw [clock]
    exact clocked.decided long
  · exact clocked.parted (.inl rfl) _
  · exact clocked.parted (.inr rfl) _

end Clock

/-! ## Every run -/

theorem Good.settled {s : InbandSpeaking} (good : Good s) : Settled s := by
  intro capture tick _
  cases waits : s.limiter.pending with
  | some on => exact .inl rfl
  | none =>
    have moved : s.tick ≠ .swapped := by
      rw [tick]
      nofun
    rcases good.known moved waits with known | ⟨thread, on, sending, -⟩
    · exact .inr known
    · have idle : s.call thread = .idle := by
        cases thread with
        | capture => exact capture
        | tick => exact tick
      exact absurd sending (not_sending_idle idle on)

/-- The sends of every run are spaced, and a run with no race of the two threads
leaves no ring stuck. -/
theorem spaced_settled_always {actions : List Action} (unraced : EachStep (logged step) (fun s a => Unraced s.1 a) ({}, []) actions) :
    Always (logged step) (fun s => Spaced s.2 ∧ Settled s.1) ({}, []) actions := by
  have good : Always (logged step) (fun s => Clocked s.1.limiter.lastSentAt s.2 ∧ Good s.1) ({}, []) actions := by
    refine always_of_eachStep ?_ ?_ actions unraced
    · rintro ⟨s, log⟩ action ⟨t, after⟩ ⟨clocked, good⟩ unraced moved
      obtain ⟨events, stepped, rfl⟩ := logged_eq_some.mp moved
      exact ⟨clocked_step clocked stepped, good_step good unraced stepped⟩
    · refine ⟨⟨?_, ?_⟩, ?_⟩
      · intro front t between u back whole
        cases front <;> cases whole
      · intro front t later whole
        cases front <;> cases whole
      · refine ⟨?_, nofun, ?_, ?_, nofun, fun _ _ => .inl rfl⟩
        · exact fun on sending => absurd sending (not_sending_idle rfl on)
        · exact fun on sending => absurd sending (not_sending_idle rfl on)
        · rintro (_ | _) on sending
          · exact absurd sending (not_sending_idle rfl on)
          · exact absurd sending (not_sending_idle rfl on)
  exact good.imp fun s holds => ⟨holds.1.spaced, holds.2.settled⟩

/-- A target is attached, the VAD opens and closes, and the change back waits. -/
def waited : List Action :=
  [.attach, .restart, .poll 0, .onVad true 5, .send .capture true, .onVad false 50, .poll 105, .send .tick true]

theorem waited_settled : EachStep (logged step) (fun s a => Unraced s.1 a) ({}, []) waited ∧
    Always (logged step) (fun s => Spaced s.2 ∧ Settled s.1) ({}, []) waited := by
  have alone : ∀ s : InbandSpeaking, s.call .tick = .idle → ∀ speaking now, Unraced s (.onVad speaking now) :=
    fun s rest speaking now on sending => absurd sending (not_sending_idle rest on)
  have unraced : EachStep (logged step) (fun s a => Unraced s.1 a) ({}, []) waited := by
    refine .cons rfl trivial (.cons rfl nofun (.cons rfl trivial (.cons rfl (alone _ rfl _ _) (.cons rfl trivial
      (.cons rfl (alone _ rfl _ _) (.cons rfl trivial (.cons rfl trivial trivial)))))))
  exact ⟨unraced, spaced_settled_always unraced⟩

/-- While the tick sends that the VAD closed, the VAD opens and is delivered first. -/
def overtaken : List Action :=
  [.attach, .restart, .poll 0, .onVad true 5, .send .capture true, .onVad false 50, .poll 105, .onVad true 205,
    .send .capture true, .send .tick true]

theorem overtaken_stuck : ∃ s log, run (logged step) ({}, []) overtaken = some (s, log) ∧ ¬Settled s := by
  refine ⟨_, _, rfl, ?_⟩
  intro settled
  rcases settled rfl rfl rfl with waits | known
  · cases waits
  · cases known

end Mello.Core.Speaking
