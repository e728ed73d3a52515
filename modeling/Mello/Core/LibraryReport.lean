import Mello.Library.Runs

/-!
The report of the installed games. The reporter keeps one value of what the server holds
and one flag for a clear that is due, while the server has one document for each account.
-/

namespace Mello.Core.LibraryReport
open Mello.Library Runs

def MAX_REPORT_GAMES : ℕ := 500

/-! ## The report -/

inductive LibrarySource where
  | steam
  | epic
  | gog
  deriving DecidableEq, Repr

def LibrarySource.prefix_ : LibrarySource → String
  | .steam => "steam"
  | .epic => "epic"
  | .gog => "gog"

structure LibraryEntry where
  source : LibrarySource
  externalId : String
  name : String
  playtimeMin : Option ℕ
  lastPlayedUnix : Option ℕ
  /-- The user hid the game in the Steam library. -/
  hidden : Bool
  deriving DecidableEq, Repr

def LibraryEntry.gameId (e : LibraryEntry) : String := e.source.prefix_ ++ "-" ++ e.externalId

structure ReportGame where
  gameId : String
  name : String
  launcher : String
  playtimeMin : Option ℕ
  lastPlayedUnix : Option ℕ
  deriving DecidableEq, Repr

def reportGame (e : LibraryEntry) : ReportGame :=
  { gameId := e.gameId
    name := e.name
    launcher := e.source.prefix_
    playtimeMin := e.playtimeMin
    lastPlayedUnix := e.lastPlayedUnix.filter (0 < ·) }

def byGameId (games : List ReportGame) : List ReportGame := games.mergeSort fun a b => a.gameId ≤ b.gameId

/-- The later one first, and none at all last. -/
def byLastPlayed (games : List ReportGame) : List ReportGame :=
  games.mergeSort fun a b => match a.lastPlayedUnix, b.lastPlayedUnix with
    | some s, some t => t < s || s = t && a.gameId ≤ b.gameId
    | some _, none => true
    | none, some _ => false
    | none, none => a.gameId ≤ b.gameId

def buildReport (entries : List LibraryEntry) (hiddenGames : Finset String) : List ReportGame :=
  let games := (entries.filter fun e => !e.hidden && e.gameId ∉ hiddenGames).map reportGame
  let games := (byGameId games).destutter fun a b => a.gameId ≠ b.gameId
  if MAX_REPORT_GAMES < games.length then byGameId ((byLastPlayed games).take MAX_REPORT_GAMES) else games

/-- One scan of the libraries. The flag of Steam is set by the id, for all its entries. -/
structure LibraryScan where
  entries : List LibraryEntry
  hidden : ∀ e ∈ entries, ∀ f ∈ entries, e.gameId = f.gameId → e.hidden = f.hidden

/-! ## The reporter -/

section Reporter

variable {Hash : Type} [DecidableEq Hash]

/-- What the server holds for this login, as far as the client knows. -/
inductive Held (Hash : Type) where
  | unknown
  | sent (hash : Hash)
  | cleared
  deriving DecidableEq

structure LibraryReporter (Hash : Type) where
  entries : Option LibraryScan := none
  held : Held Hash := .unknown
  clearPending : Bool := false

def setScan (r : LibraryReporter Hash) (entries : LibraryScan) : LibraryReporter Hash := { r with entries := some entries }

def consentTurnedOff (r : LibraryReporter Hash) : LibraryReporter Hash := { r with clearPending := true }

def resetForAccount (r : LibraryReporter Hash) : LibraryReporter Hash := { r with held := .unknown }

def sendFailed (r : LibraryReporter Hash) (wasClear : Bool) : LibraryReporter Hash :=
  { r with held := .unknown, clearPending := r.clearPending || wasClear }

def Held.isSent : Held Hash → Bool
  | .sent _ => true
  | _ => false

def plan (contentHash : List ReportGame → Hash) (r : LibraryReporter Hash) (share sessionActive : Bool)
    (hiddenGames : Finset String) : LibraryReporter Hash × Option (List ReportGame) :=
  if !sessionActive then ({ r with held := .unknown }, none)
  else if !share then
    if r.clearPending || r.held.isSent then ({ r with clearPending := false, held := .cleared }, some []) else (r, none)
  else
    let r := { r with clearPending := false }
    match r.entries with
    | none => (r, none)
    | some entries =>
      let report := buildReport entries.entries hiddenGames
      let hash := contentHash report
      if r.held = .sent hash then (r, none) else ({ r with held := .sent hash }, some report)

end Reporter

/-! ## The client and the server -/

section Client

variable {Account Hash : Type} [DecidableEq Account] [DecidableEq Hash]

/-- The device with the documents of the server. A document is none as long as this run sent
nothing for its account. -/
structure Device (Account Hash : Type) where
  reporter : LibraryReporter Hash := {}
  share : Bool
  account : Option Account := none
  documents : Account → Option (List ReportGame) := fun _ => none

inductive Outcome where
  | sent
  | failed (applied : Bool)

inductive Op (Account : Type) where
  | setScan (entries : LibraryScan)
  | setShare (enabled : Bool)
  | logout
  | login (account : Account)
  | sync (sessionActive : Bool) (hiddenGames : Finset String) (outcome : Outcome)

/-- The document of the account that is logged in is replaced. -/
def apply (documents : Account → Option (List ReportGame)) (account : Account) (report : List ReportGame) :
    Account → Option (List ReportGame) := Function.update documents account (some report)

def syncLibraryReport (contentHash : List ReportGame → Hash) (d : Device Account Hash) (account : Account) (hiddenGames : Finset String)
    (outcome : Outcome) : Device Account Hash × Option (List ReportGame) :=
  let (reporter, planned) := plan contentHash d.reporter d.share true hiddenGames
  match planned with
  | none => ({ d with reporter }, none)
  | some report =>
    let isClear := report.isEmpty && !d.share
    match outcome with
    | .sent => ({ d with reporter, documents := apply d.documents account report }, some report)
    | .failed applied =>
      ({ d with
          reporter := sendFailed reporter isClear
          documents := if applied then apply d.documents account report else d.documents }, some report)

/-- No session is active without an account. -/
def step (contentHash : List ReportGame → Hash) (d : Device Account Hash) : Op Account → Option (Device Account Hash)
  | .setScan entries => some { d with reporter := setScan d.reporter entries }
  | .setShare enabled =>
    some { d with share := enabled, reporter := if d.share && !enabled then consentTurnedOff d.reporter else d.reporter }
  | .logout => some { d with account := none, reporter := resetForAccount d.reporter }
  | .login account => some { d with account := some account, reporter := resetForAccount d.reporter }
  | .sync false hiddenGames _ => some { d with reporter := (plan contentHash d.reporter d.share false hiddenGames).1 }
  | .sync true hiddenGames outcome => d.account.map fun account => (syncLibraryReport contentHash d account hiddenGames outcome).1

/-! ## Consent -/

/-- No game of this run is in the document. -/
def NoGame (document : Option (List ReportGame)) : Prop := document.getD [] = []

/-- What an active session of an account may rely on when the next report is planned. -/
structure Consent (contentHash : List ReportGame → Hash) (d : Device Account Hash) (account : Account) (hiddenGames : Finset String) :
    Prop where
  off : ∀ report, (plan contentHash d.reporter d.share true hiddenGames).2 = some report → d.share = false → report = []
  shown : ∀ report, (plan contentHash d.reporter d.share true hiddenGames).2 = some report → ∀ g ∈ report,
    g.gameId ∉ hiddenGames ∧ ∀ scan, d.reporter.entries = some scan → ∀ e ∈ scan.entries, e.gameId = g.gameId → e.hidden = false
  cleared : (plan contentHash d.reporter d.share true hiddenGames).2 = none → d.share = false → NoGame (d.documents account)
  newest : (plan contentHash d.reporter d.share true hiddenGames).2 = none → d.share = true →
    ∀ scan, d.reporter.entries = some scan →
      (∀ sent, d.documents account = some sent →
        contentHash sent = contentHash (buildReport scan.entries hiddenGames) → sent = buildReport scan.entries hiddenGames) →
      d.documents account = some (buildReport scan.entries hiddenGames)

/-- A clear goes out only where no other account has games of this run on the server. -/
def ClearsAll (d : Device Account Hash) : Op Account → Prop
  | .sync true _ .sent => d.share = false → (d.reporter.clearPending || d.reporter.held.isSent) = true →
    ∀ account, d.account = some account → ∀ other, other ≠ account → NoGame (d.documents other)
  | _ => True

/-- A clear is due as long as some account has games on the server without consent, and what the
reporter takes as sent is in the document of its account. -/
structure Tracked (contentHash : List ReportGame → Hash) (d : Device Account Hash) : Prop where
  due : d.share = false → ∀ account, ¬ NoGame (d.documents account) → d.reporter.clearPending = true
  held : ∀ hash, d.reporter.held = .sent hash →
    ∃ account sent, d.account = some account ∧ d.documents account = some sent ∧ contentHash sent = hash

variable {contentHash : List ReportGame → Hash} {d next : Device Account Hash} {account : Account} {hiddenGames : Finset String}

theorem mem_buildReport {entries : List LibraryEntry} {g : ReportGame} (member : g ∈ buildReport entries hiddenGames) :
    ∃ e ∈ entries, e.hidden = false ∧ e.gameId ∉ hiddenGames ∧ e.gameId = g.gameId := by
  have inside : g ∈ (entries.filter fun e => !e.hidden && e.gameId ∉ hiddenGames).map reportGame := by
    unfold buildReport at member
    dsimp only at member
    have kept : ∀ {games : List ReportGame}, g ∈ (byGameId games).destutter (fun a b => a.gameId ≠ b.gameId) → g ∈ games :=
      fun found => List.mem_mergeSort.mp ((List.destutter_sublist _ _).subset found)
    split_ifs at member
    · exact kept (List.mem_mergeSort.mp (List.mem_of_mem_take (List.mem_mergeSort.mp member)))
    · exact kept member
  obtain ⟨e, found, rfl⟩ := List.mem_map.mp inside
  obtain ⟨here, shown⟩ := List.mem_filter.mp found
  obtain ⟨visible, listed⟩ := Bool.and_eq_true_iff.mp shown
  exact ⟨e, here, Bool.not_inj visible, of_decide_eq_true listed, rfl⟩

/-- The plan of an active session, by cases. -/
theorem plan_cases (contentHash : List ReportGame → Hash) (r : LibraryReporter Hash) (share : Bool) (hiddenGames : Finset String) :
    (share = false ∧ (r.clearPending || r.held.isSent) = true ∧
        plan contentHash r share true hiddenGames = ({ r with clearPending := false, held := .cleared }, some [])) ∨
      (share = false ∧ (r.clearPending || r.held.isSent) = false ∧ plan contentHash r share true hiddenGames = (r, none)) ∨
      (share = true ∧ r.entries = none ∧ plan contentHash r share true hiddenGames = ({ r with clearPending := false }, none)) ∨
      (share = true ∧ ∃ scan, r.entries = some scan ∧ r.held = .sent (contentHash (buildReport scan.entries hiddenGames)) ∧
        plan contentHash r share true hiddenGames = ({ r with clearPending := false }, none)) ∨
      (share = true ∧ ∃ scan, r.entries = some scan ∧
        plan contentHash r share true hiddenGames =
          ({ r with clearPending := false, held := .sent (contentHash (buildReport scan.entries hiddenGames)) },
            some (buildReport scan.entries hiddenGames))) := by
  unfold plan
  cases share with
  | false =>
    cases due : r.clearPending || r.held.isSent with
    | true => exact .inl ⟨rfl, rfl, rfl⟩
    | false => exact .inr (.inl ⟨rfl, rfl, rfl⟩)
  | true =>
    refine .inr (.inr ?_)
    dsimp only
    cases here : r.entries with
    | none => exact .inl ⟨rfl, rfl, rfl⟩
    | some scan =>
      dsimp only
      by_cases same : r.held = .sent (contentHash (buildReport scan.entries hiddenGames))
      · rw [if_pos same]
        exact .inr (.inl ⟨rfl, scan, rfl, same, rfl⟩)
      · rw [if_neg same]
        exact .inr (.inr ⟨rfl, scan, rfl, rfl⟩)

omit [DecidableEq Account] in
theorem consent_of_tracked (tracked : Tracked contentHash d) (here : d.account = some account) :
    Consent contentHash d account hiddenGames := by
  rcases plan_cases contentHash d.reporter d.share hiddenGames with
    ⟨off, -, planned⟩ | ⟨off, idle, planned⟩ | ⟨on, none, planned⟩ | ⟨on, scan, entries, held, planned⟩ | ⟨on, scan, entries, planned⟩
  · refine ⟨?_, ?_, ?_, ?_⟩ <;> rw [planned]
    · rintro report ⟨⟩ -
      rfl
    · rintro report ⟨⟩ g member
      cases member
    · nofun
    · nofun
  · refine ⟨?_, ?_, ?_, ?_⟩ <;> rw [planned]
    · nofun
    · nofun
    · rintro - -
      by_contra game
      have due := tracked.due off account game
      rw [due] at idle
      cases idle
    · intro _ on
      cases off.symm.trans on
  · refine ⟨?_, ?_, ?_, ?_⟩ <;> rw [planned]
    · nofun
    · nofun
    · intro _ off
      cases on.symm.trans off
    · intro _ _ scan found
      cases none.symm.trans found
  · refine ⟨?_, ?_, ?_, ?_⟩ <;> rw [planned]
    · nofun
    · nofun
    · intro _ off
      cases on.symm.trans off
    · intro _ _ other found apart
      cases entries.symm.trans found
      obtain ⟨owner, sent, mine, document, same⟩ := tracked.held _ held
      cases here.symm.trans mine
      rw [document, apart sent document same]
  · refine ⟨?_, ?_, ?_, ?_⟩ <;> rw [planned]
    · rintro report - off
      cases on.symm.trans off
    · rintro report ⟨⟩ g member
      obtain ⟨e, inside, visible, listed, same⟩ := mem_buildReport member
      refine ⟨same ▸ listed, fun other found f there also => ?_⟩
      cases entries.symm.trans found
      rw [scan.hidden f there e inside (also.trans same.symm), visible]
    · nofun
    · nofun

theorem noGame_apply {documents : Account → Option (List ReportGame)} {other : Account} (account : Account)
    (game : ¬ NoGame (apply documents account [] other)) : other ≠ account ∧ ¬ NoGame (documents other) := by
  unfold apply at game
  rcases eq_or_ne other account with rfl | apart
  · rw [Function.update_self] at game
    exact absurd rfl game
  · rw [Function.update_of_ne apart] at game
    exact ⟨apart, game⟩

/-- A sync of the account that is logged in. -/
theorem tracked_sync (tracked : Tracked contentHash d) (here : d.account = some account) {outcome : Outcome}
    (clears : ClearsAll d (.sync true hiddenGames outcome)) :
    Tracked contentHash (syncLibraryReport contentHash d account hiddenGames outcome).1 := by
  unfold syncLibraryReport
  rcases plan_cases contentHash d.reporter d.share hiddenGames with
    ⟨off, due, planned⟩ | ⟨off, idle, planned⟩ | ⟨on, none, planned⟩ | ⟨on, scan, entries, held, planned⟩ | ⟨on, scan, entries, planned⟩ <;>
    rw [planned]
  · cases outcome with
    | sent =>
      refine ⟨fun _ other game => ?_, nofun⟩
      obtain ⟨apart, before⟩ := noGame_apply account game
      exact absurd (clears off due account here other apart) before
    | failed applied =>
      refine ⟨fun _ other game => ?_, nofun⟩
      dsimp only [sendFailed]
      rw [off]
      rfl
  · exact tracked
  · refine ⟨fun off => ?_, tracked.held⟩
    cases on.symm.trans off
  · refine ⟨fun off => ?_, tracked.held⟩
    cases on.symm.trans off
  · cases outcome with
    | sent =>
      refine ⟨fun off => ?_, ?_⟩
      · cases on.symm.trans off
      · rintro hash ⟨⟩
        exact ⟨account, _, here, Function.update_self .., rfl⟩
    | failed applied =>
      refine ⟨fun off => ?_, nofun⟩
      cases on.symm.trans off

theorem tracked_step {op : Op Account} (tracked : Tracked contentHash d) (clears : ClearsAll d op)
    (moved : step contentHash d op = some next) : Tracked contentHash next := by
  cases op with
  | setScan entries =>
    cases moved
    exact ⟨tracked.due, tracked.held⟩
  | setShare enabled =>
    cases moved
    cases enabled with
    | true =>
      refine ⟨nofun, ?_⟩
      rw [Bool.not_true, Bool.and_false]
      exact tracked.held
    | false =>
      rw [Bool.not_false, Bool.and_true]
      cases shared : d.share with
      | true => exact ⟨fun _ _ _ => rfl, tracked.held⟩
      | false => exact ⟨fun _ => tracked.due shared, tracked.held⟩
  | logout =>
    cases moved
    exact ⟨tracked.due, nofun⟩
  | login account =>
    cases moved
    exact ⟨tracked.due, nofun⟩
  | sync sessionActive hiddenGames outcome =>
    cases sessionActive with
    | false =>
      cases moved
      exact ⟨tracked.due, nofun⟩
    | true =>
      obtain ⟨account, here, rfl⟩ := Option.map_eq_some_iff.mp moved
      exact tracked_sync tracked here clears

/-- As long as a clear goes out only where no other account has games on the server, sharing
follows the consent of each account. -/
theorem consent_kept (contentHash : List ReportGame → Hash) (share : Bool) (ops : List (Op Account))
    (clears : EachStep (step contentHash) ClearsAll { share } ops) :
    EachStep (step contentHash) (fun d op => ∀ hiddenGames outcome, op = .sync true hiddenGames outcome →
      ∀ account, d.account = some account → Consent contentHash d account hiddenGames) { share } ops := by
  have start : Tracked contentHash ({ share } : Device Account Hash) := ⟨fun _ account game => absurd rfl game, nofun⟩
  refine clears.imp (Tracked contentHash) ?_ start
  intro d op next tracked met moved
  exact ⟨fun hiddenGames outcome _ account here => consent_of_tracked tracked here, tracked_step tracked met moved⟩

end Client

/-! ### One account, and two -/

def installed : LibraryScan where
  entries := [⟨.steam, "730", "Counter-Strike 2", none, none, false⟩]
  hidden := by decide

theorem buildReport_installed : buildReport installed.entries ∅ = [⟨"steam-730", "Counter-Strike 2", "steam", none, none⟩] := by
  have shown : (installed.entries.filter fun e => !e.hidden && e.gameId ∉ (∅ : Finset String)).map reportGame =
      [⟨"steam-730", "Counter-Strike 2", "steam", none, none⟩] := by decide
  unfold buildReport byGameId
  rw [shown]
  dsimp only
  rw [List.mergeSort_singleton]
  rfl

/-- The games of one account are sent, and cleared when it turns sharing off. -/
theorem one_account_kept :
    EachStep (step id) (fun d op => ∀ hiddenGames outcome, op = .sync true hiddenGames outcome →
      ∀ account, d.account = some account → Consent id d account hiddenGames) { share := true }
      [.login true, .setScan installed, .sync true ∅ .sent, .setShare false, .sync true ∅ .sent, .sync true ∅ .sent] := by
  refine consent_kept id true _ ?_
  refine .cons rfl trivial (.cons rfl trivial (.cons rfl nofun (.cons rfl trivial (.cons rfl ?_ (.cons rfl ?_ trivial)))))
  · rintro - - account ⟨⟩ other apart
    cases other with
    | false => rfl
    | true => exact absurd rfl apart
  · rintro - due
    cases due

/-- Sharing is turned off while no account is logged in. The clear goes to the account that logs
in next, and the games of the first one stay on the server. -/
theorem other_account_left :
    ¬ ∀ ops : List (Op Bool), EachStep (step (id : List ReportGame → List ReportGame)) (fun d op => ∀ hiddenGames outcome,
      op = .sync true hiddenGames outcome → ∀ account, d.account = some account → Consent id d account hiddenGames)
      { share := true } ops := by
  intro all
  have run := all [.login true, .setScan installed, .sync true ∅ .sent, .logout, .setShare false, .login false, .sync true ∅ .sent,
    .login true, .sync true ∅ .sent]
  obtain ⟨-, run⟩ := run _ rfl
  obtain ⟨-, run⟩ := run _ rfl
  obtain ⟨-, run⟩ := run _ rfl
  obtain ⟨-, run⟩ := run _ rfl
  obtain ⟨-, run⟩ := run _ rfl
  obtain ⟨-, run⟩ := run _ rfl
  obtain ⟨-, run⟩ := run _ rfl
  obtain ⟨-, run⟩ := run _ rfl
  obtain ⟨last, -⟩ := run _ rfl
  have consent := last ∅ .sent rfl true rfl
  have empty : buildReport installed.entries ∅ = [] := consent.cleared rfl rfl
  rw [buildReport_installed] at empty
  cases empty

end Mello.Core.LibraryReport
