import Mello.Core.GameSensing
import Mello.Library.Runs

/-!
The sessions of the sensor, by game. The code keeps them by process. Each of its moves
changes the session of one game: it opens, goes on with another process, or closes.
-/

namespace Mello.Core.GameSensing
open Mello.Library Keyed Runs

/-! ## The session of a game -/

/-- One session for a game at most, each under its own pid. -/
structure Single (active : Games) : Prop where
  own : ∀ {pid e}, active.lookup pid = some e → e.pid = pid
  one : ∀ {pid other e f}, active.lookup pid = some e → active.lookup other = some f → e.gameId = f.gameId → pid = other

def session (active : Games) (gameId : String) : Option ActiveGame := (representativePid active gameId).bind active.lookup

section Session

variable {active live : Games} {gameId : String} {pid other : ℕ} {e game v : ActiveGame}

theorem representativePid_some (found : representativePid active gameId = some pid) :
    ∃ e, active.lookup pid = some e ∧ e.gameId = gameId := by
  obtain ⟨entry, first, rfl⟩ := Option.map_eq_some_iff.mp found
  have same := List.find?_some first
  exact ⟨entry.2, mem_entries.mp (List.mem_of_find?_eq_some first), of_decide_eq_true same⟩

theorem representativePid_none (missing : representativePid active gameId = none) (here : active.lookup pid = some e) :
    e.gameId ≠ gameId := by
  have absent := List.find?_eq_none.mp (Option.map_eq_none_iff.mp missing) ⟨pid, e⟩ (mem_entries.mpr here)
  exact fun same => absent (decide_eq_true same)

theorem session_eq_some (single : Single active) :
    session active gameId = some e ↔ ∃ pid, active.lookup pid = some e ∧ e.gameId = gameId := by
  constructor
  · intro found
    obtain ⟨pid, rep, here⟩ := Option.bind_eq_some_iff.mp found
    obtain ⟨other, there, same⟩ := representativePid_some rep
    cases here.symm.trans there
    exact ⟨pid, here, same⟩
  · rintro ⟨pid, here, same⟩
    cases rep : representativePid active gameId with
    | none => exact absurd same (representativePid_none rep here)
    | some first =>
      obtain ⟨f, there, also⟩ := representativePid_some rep
      rw [session, rep, Option.bind_some, single.one there here (also.trans same.symm), here]

theorem session_eq_none (single : Single active) :
    session active gameId = none ↔ ∀ pid e, active.lookup pid = some e → e.gameId ≠ gameId := by
  rw [Option.eq_none_iff_forall_ne_some]
  constructor
  · intro none pid e here same
    exact none e ((session_eq_some single).mpr ⟨pid, here, same⟩)
  · intro other e found
    obtain ⟨pid, here, same⟩ := (session_eq_some single).mp found
    exact other pid e here same

theorem representativePid_isNone (single : Single active) :
    representativePid active gameId = none ↔ session active gameId = none := by
  constructor
  · intro missing
    rw [session, missing, Option.bind_none]
  · intro none
    cases rep : representativePid active gameId with
    | none => rfl
    | some first =>
      obtain ⟨e, here, same⟩ := representativePid_some rep
      exact absurd same ((session_eq_none single).mp none first e here)

theorem Single.update {after : Games} {now : Option ActiveGame} (single : Single active) (next : Single after)
    (here : ∀ e, (∃ pid, after.lookup pid = some e ∧ e.gameId = gameId) ↔ now = some e)
    (apart : ∀ other, other ≠ gameId → ∀ e, (∃ pid, after.lookup pid = some e ∧ e.gameId = other) ↔
      ∃ pid, active.lookup pid = some e ∧ e.gameId = other) :
    session after = Function.update (session active) gameId now := by
  funext name
  ext e
  rw [session_eq_some next]
  rcases eq_or_ne name gameId with rfl | other
  · rw [Function.update_self]
    exact here e
  · rw [Function.update_of_ne other, session_eq_some single]
    exact apart name other e

theorem insert_cases (found : (active.insert other v).lookup pid = some e) :
    (pid = other ∧ e = v) ∨ active.lookup pid = some e := by
  rcases eq_or_ne pid other with rfl | apart
  · rw [AList.lookup_insert] at found
    exact .inl ⟨rfl, (Option.some.inj found).symm⟩
  · rw [AList.lookup_insert_ne apart] at found
    exact .inr found

theorem lookup_insert_of_free (free : active.lookup other = none) (here : active.lookup pid = some e) :
    (active.insert other v).lookup pid = some e := by
  have apart : pid ≠ other := by
    rintro rfl
    cases free.symm.trans here
  rw [AList.lookup_insert_ne apart, here]

theorem erase_cases (found : (active.erase other).lookup pid = some e) : pid ≠ other ∧ active.lookup pid = some e := by
  rcases eq_or_ne pid other with rfl | apart
  · rw [AList.lookup_erase] at found
    cases found
  · rw [AList.lookup_erase_ne apart] at found
    exact ⟨apart, found⟩

theorem lookup_erase_of_none (other : ℕ) (none : active.lookup pid = none) : (active.erase other).lookup pid = .none := by
  cases there : (active.erase other).lookup pid with
  | none => rfl
  | some e => cases none.symm.trans (erase_cases there).2

/-- A session goes on under another pid, which had none. -/
theorem Single.moved (single : Single active) (here : active.lookup pid = some e) (free : active.lookup other = none)
    (own : v.pid = other) (same : v.gameId = e.gameId) :
    Single ((active.erase pid).insert other v) ∧
      session ((active.erase pid).insert other v) = Function.update (session active) e.gameId (some v) := by
  have cases : ∀ {p f}, ((active.erase pid).insert other v).lookup p = some f →
      (p = other ∧ f = v) ∨ (p ≠ pid ∧ active.lookup p = some f) := fun found => (insert_cases found).imp_right erase_cases
  have back : ∀ {p f}, p ≠ pid → active.lookup p = some f → ((active.erase pid).insert other v).lookup p = some f :=
    fun apart found => lookup_insert_of_free (lookup_erase_of_none pid free) ((AList.lookup_erase_ne apart).trans found)
  have next : Single ((active.erase pid).insert other v) := by
    constructor
    · intro p f found
      rcases cases found with ⟨rfl, rfl⟩ | ⟨-, old⟩
      · exact own
      · exact single.own old
    · intro p q f g first second games
      rcases cases first with ⟨rfl, rfl⟩ | ⟨apart, old⟩ <;> rcases cases second with ⟨rfl, rfl⟩ | ⟨apart', old'⟩
      · rfl
      · exact absurd (single.one old' here (games.symm.trans same)) apart'
      · exact absurd (single.one old here (games.trans same)) apart
      · exact single.one old old' games
  refine ⟨next, single.update next ?_ ?_⟩
  · intro f
    constructor
    · rintro ⟨p, found, games⟩
      rcases cases found with ⟨-, rfl⟩ | ⟨apart, old⟩
      · rfl
      · exact absurd (single.one old here games) apart
    · rintro ⟨⟩
      exact ⟨other, AList.lookup_insert _, same⟩
  · intro name apart f
    constructor
    · rintro ⟨p, found, games⟩
      rcases cases found with ⟨-, rfl⟩ | ⟨-, old⟩
      · exact absurd (games.symm.trans same) apart
      · exact ⟨p, old, games⟩
    · rintro ⟨p, found, games⟩
      refine ⟨p, back ?_ found, games⟩
      rintro rfl
      cases found.symm.trans here
      exact apart games.symm

/-- A session opens under a pid that had none. -/
theorem Single.opened (single : Single active) (none : session active game.gameId = none) (free : active.lookup pid = .none)
    (own : game.pid = pid) :
    Single (active.insert pid game) ∧
      session (active.insert pid game) = Function.update (session active) game.gameId (some game) := by
  have absent := (session_eq_none single).mp none
  have next : Single (active.insert pid game) := by
    constructor
    · intro p f found
      rcases insert_cases found with ⟨rfl, rfl⟩ | old
      · exact own
      · exact single.own old
    · intro p q f g first second games
      rcases insert_cases first with ⟨rfl, rfl⟩ | old <;> rcases insert_cases second with ⟨rfl, rfl⟩ | old'
      · rfl
      · exact absurd games.symm (absent q g old')
      · exact absurd games (absent p f old)
      · exact single.one old old' games
  refine ⟨next, single.update next ?_ ?_⟩
  · intro f
    constructor
    · rintro ⟨p, found, games⟩
      rcases insert_cases found with ⟨-, rfl⟩ | old
      · rfl
      · exact absurd games (absent p f old)
    · rintro ⟨⟩
      exact ⟨pid, AList.lookup_insert _, rfl⟩
  · intro name apart f
    constructor
    · rintro ⟨p, found, games⟩
      rcases insert_cases found with ⟨-, rfl⟩ | old
      · exact absurd games.symm apart
      · exact ⟨p, old, games⟩
    · rintro ⟨p, found, games⟩
      exact ⟨p, lookup_insert_of_free free found, games⟩

/-- A session closes. -/
theorem Single.closed (single : Single active) (here : active.lookup pid = some e) :
    Single (active.erase pid) ∧ session (active.erase pid) = Function.update (session active) e.gameId none := by
  have next : Single (active.erase pid) :=
    ⟨fun found => single.own (erase_cases found).2,
      fun first second games => single.one (erase_cases first).2 (erase_cases second).2 games⟩
  refine ⟨next, single.update next ?_ ?_⟩
  · intro f
    constructor
    · rintro ⟨p, found, games⟩
      obtain ⟨apart, old⟩ := erase_cases found
      exact absurd (single.one old here games) apart
    · nofun
  · intro name apart f
    constructor
    · rintro ⟨p, found, games⟩
      exact ⟨p, (erase_cases found).2, games⟩
    · rintro ⟨p, found, games⟩
      refine ⟨p, ?_, games⟩
      rw [AList.lookup_erase_ne, found]
      rintro rfl
      cases found.symm.trans here
      exact apart games.symm

end Session

/-! ## What a session keeps -/

/-- The same session, under another process or not. -/
structure Carried (e after : ActiveGame) : Prop where
  gameId : after.gameId = e.gameId
  startedAt : after.startedAt = e.startedAt
  startedAtMs : after.startedAtMs = e.startedAtMs
  foregroundMs : after.foregroundMs = e.foregroundMs

theorem Carried.refl (e : ActiveGame) : Carried e e := ⟨rfl, rfl, rfl, rfl⟩

theorem Carried.trans {e f g : ActiveGame} (first : Carried e f) (second : Carried f g) : Carried e g :=
  ⟨second.gameId.trans first.gameId, second.startedAt.trans first.startedAt, second.startedAtMs.trans first.startedAtMs,
    second.foregroundMs.trans first.foregroundMs⟩

theorem takeOver_carried {session candidate : ActiveGame} (same : candidate.gameId = session.gameId) :
    Carried session (takeOver session candidate) := ⟨same, rfl, rfl, rfl⟩

/-- The opens and closes of a game. -/
def about (gameId : String) : GameEvent → Bool
  | .started game => game.gameId = gameId
  | .stopped game _ => game.gameId = gameId
  | _ => false

/-! ## The starts -/

/-- What the starts do to the session of a game, with their events about it. -/
inductive Opening : Option ActiveGame → List GameEvent → Option ActiveGame → Prop where
  | none : Opening none [] none
  | opens {g e : ActiveGame} (carried : Carried g e) : Opening none [.started g] (some e)
  | keeps {e after : ActiveGame} (carried : Carried e after) : Opening (some e) [] (some after)

theorem Opening.refl (o : Option ActiveGame) : Opening o [] o := by
  cases o with
  | none => exact .none
  | some e => exact .keeps (.refl e)

theorem Opening.trans {a b c : Option ActiveGame} {x y : List GameEvent} (first : Opening a x b) (second : Opening b y c) :
    Opening a (x ++ y) c := by
  cases first with
  | none => exact second
  | opens carried =>
    cases second with
    | keeps later => exact .opens (carried.trans later)
  | keeps carried =>
    cases second with
    | keeps later => exact .keeps (carried.trans later)

section Starts

variable {rules : Rules} {s : Starts} {live before : Games} {all : List (Sigma fun _ : ℕ => ActiveGame)} {pid : ℕ}
  {game : ActiveGame}

/-- A newcomer's game has a session afterwards: the one it had, or a new one. -/
theorem startOne_spec (rules : Rules) (single : Single s.active) (known : ∀ gameId ∈ s.opened, session s.active gameId ≠ none)
    (free : s.active.lookup pid = none) (own : game.pid = pid) :
    ∃ after new, Single (startOne rules s pid game).active ∧
      session (startOne rules s pid game).active = Function.update (session s.active) game.gameId (some after) ∧
      (startOne rules s pid game).events = s.events ++ new ∧
      (∀ event ∈ new, event = .started game) ∧ Opening (session s.active game.gameId) new (some after) ∧
      (startOne rules s pid game).opened ⊆ insert game.gameId s.opened ∧
      ∀ p e, (startOne rules s pid game).active.lookup p = some e →
        s.active.lookup p = some e ∨ (p = pid ∧ e.gameId = game.gameId) := by
  unfold startOne
  cases found : representativePid s.active game.gameId with
  | some repPid =>
    obtain ⟨rep, here, same⟩ := representativePid_some found
    have open_ : session s.active game.gameId = some rep := (session_eq_some single).mpr ⟨repPid, here, same⟩
    dsimp only
    rw [here]
    dsimp only
    split_ifs with better
    · obtain ⟨next, moved⟩ := single.moved here free (v := takeOver rep game) own same.symm
      unfold upgradeRepresentative
      rw [here]
      refine ⟨takeOver rep game, [], next, ?_, (List.append_nil _).symm, nofun, ?_, Finset.subset_insert _ _, ?_⟩
      · rw [moved, same]
      · rw [open_]
        exact .keeps (takeOver_carried same.symm)
      · intro p e there
        rcases insert_cases there with ⟨rfl, rfl⟩ | old
        · exact .inr ⟨rfl, rfl⟩
        · exact .inl (erase_cases old).2
    · refine ⟨rep, [], single, ?_, (List.append_nil _).symm, nofun, ?_, Finset.subset_insert _ _, fun _ _ => .inl⟩
      · rw [← open_, Function.update_eq_self]
      · rw [open_]
        exact .refl _
  | none =>
    have none := (representativePid_isNone single).mp found
    have new : game.gameId ∉ s.opened := fun opened => known _ opened none
    dsimp only
    rw [if_neg new]
    obtain ⟨next, opened⟩ := single.opened none free own
    refine ⟨game, [.started game], next, opened, rfl, fun _ => List.mem_singleton.mp, ?_, subset_rfl, ?_⟩
    · rw [none]
      exact .opens (.refl game)
    · intro p e there
      rcases insert_cases there with ⟨rfl, rfl⟩ | old
      · exact .inr ⟨rfl, rfl⟩
      · exact .inl old

/-- What holds while the starts go on. A new session is that of the best process of its game
among all newcomers. -/
structure Started (rules : Rules) (live before : Games) (all : List (Sigma fun _ : ℕ => ActiveGame)) (s : Starts) : Prop where
  single : Single s.active
  known : ∀ gameId ∈ s.opened, session s.active gameId ≠ none
  opening : ∀ gameId, Opening (session before gameId) (s.events.filter (about gameId)) (session s.active gameId)
  entries : ∀ {p e}, s.active.lookup p = some e → before.lookup p = some e ∨ ∃ g, live.lookup p = some g ∧ g.gameId = e.gameId
  news : ∀ event ∈ s.events, ∃ e ∈ all, event = .started e.2 ∧
    ∀ f ∈ all, f.2.gameId = e.2.gameId → representativeRank rules e.2 ≤ representativeRank rules f.2

theorem started_startOne (started : Started rules live before all s) (free : s.active.lookup pid = none) (own : game.pid = pid)
    (here : live.lookup pid = some game) (member : ⟨pid, game⟩ ∈ all)
    (least : session s.active game.gameId = none →
      ∀ f ∈ all, f.2.gameId = game.gameId → representativeRank rules game ≤ representativeRank rules f.2) :
    Started rules live before all (startOne rules s pid game) ∧
      (∀ gameId, gameId = game.gameId ∨ session s.active gameId ≠ none →
        session (startOne rules s pid game).active gameId ≠ none) ∧
      ∀ p, p ≠ pid → s.active.lookup p = none → (startOne rules s pid game).active.lookup p = none := by
  obtain ⟨after, new, next, moved, events, news, opening, opened, entries⟩ :=
    startOne_spec rules started.single started.known free own
  generalize startOne rules s pid game = t at *
  have stays : ∀ gameId, gameId = game.gameId ∨ session s.active gameId ≠ none → session t.active gameId ≠ none := by
    intro gameId was
    rw [moved]
    rcases eq_or_ne gameId game.gameId with rfl | apart
    · rw [Function.update_self]
      nofun
    · rw [Function.update_of_ne apart]
      exact was.resolve_left apart
  refine ⟨⟨next, ?_, ?_, ?_, ?_⟩, stays, ?_⟩
  · intro gameId member
    rcases Finset.mem_insert.mp (opened member) with rfl | old
    · exact stays _ (.inl rfl)
    · exact stays gameId (.inr (started.known gameId old))
  · intro gameId
    rw [events, List.filter_append, moved]
    rcases eq_or_ne gameId game.gameId with rfl | apart
    · have all : new.filter (about game.gameId) = new := by
        refine List.filter_eq_self.mpr fun event member => ?_
        rw [news event member]
        exact decide_eq_true rfl
      rw [all, Function.update_self]
      exact (started.opening game.gameId).trans opening
    · have none : new.filter (about gameId) = [] := by
        refine List.filter_eq_nil_iff.mpr fun event member same => ?_
        rw [news event member] at same
        exact apart (of_decide_eq_true same).symm
      rw [none, List.append_nil, Function.update_of_ne apart]
      exact started.opening gameId
  · intro p e there
    rcases entries p e there with old | ⟨rfl, same⟩
    · exact started.entries old
    · exact .inr ⟨game, here, same.symm⟩
  · intro event told
    rw [events] at told
    rcases List.mem_append.mp told with old | late
    · exact started.news event old
    · refine ⟨⟨pid, game⟩, member, news event late, least ?_⟩
      generalize session s.active game.gameId = o at opening
      cases opening with
      | opens carried => rfl
      | keeps carried => cases late
  · intro p apart none
    cases there : t.active.lookup p with
    | none => rfl
    | some e =>
      rcases entries p e there with old | ⟨same, -⟩
      · cases none.symm.trans old
      · exact absurd same apart

theorem started_foldl {news : List (Sigma fun _ : ℕ => ActiveGame)} (started : Started rules live before all s)
    (distinct : news.NodupKeys) (sorted : news.Pairwise fun a b => representativeRank rules a.2 ≤ representativeRank rules b.2)
    (fresh : ∀ e ∈ news, s.active.lookup e.1 = none)
    (seen : ∀ e ∈ news, live.lookup e.1 = some e.2 ∧ e.2.pid = e.1 ∧ e ∈ all)
    (left : ∀ f ∈ all, f ∈ news ∨ session s.active f.2.gameId ≠ none) :
    Started rules live before all (news.foldl (fun s e => startOne rules s e.1 e.2) s) ∧
      ∀ gameId, (∃ e ∈ news, gameId = e.2.gameId) ∨ session s.active gameId ≠ none →
        session (news.foldl (fun s e => startOne rules s e.1 e.2) s).active gameId ≠ none := by
  induction news generalizing s with
  | nil =>
    refine ⟨started, ?_⟩
    rintro gameId (⟨e, member, -⟩ | open_)
    · cases member
    · exact open_
  | cons first rest ih =>
    obtain ⟨here, own, member⟩ := seen first List.mem_cons_self
    have least : session s.active first.2.gameId = none →
        ∀ f ∈ all, f.2.gameId = first.2.gameId → representativeRank rules first.2 ≤ representativeRank rules f.2 := by
      intro closed f among same
      rcases left f among with waits | open_
      · rcases List.mem_cons.mp waits with rfl | later
        · exact le_rfl
        · exact (List.pairwise_cons.mp sorted).1 f later
      · exact absurd (same ▸ closed) open_
    obtain ⟨next, stays, others⟩ := started_startOne started (fresh first List.mem_cons_self) own here member least
    have parted := List.nodupKeys_cons.mp distinct
    obtain ⟨last, opened⟩ := ih next parted.2 (List.pairwise_cons.mp sorted).2
      (fun e later => others e.1 (fun same => parted.1 (same ▸ List.mem_keys_of_mem later)) (fresh e (List.mem_cons_of_mem _ later)))
      (fun e later => seen e (List.mem_cons_of_mem _ later)) (by
        intro f among
        rcases left f among with waits | open_
        · rcases List.mem_cons.mp waits with rfl | later
          · exact .inr (stays _ (.inl rfl))
          · exact .inl later
        · exact .inr (stays _ (.inr open_)))
    refine ⟨last, ?_⟩
    rintro gameId (⟨e, among, same⟩ | open_)
    · rcases List.mem_cons.mp among with rfl | later
      · exact opened gameId (.inr (stays gameId (.inl same)))
      · exact opened gameId (.inl ⟨e, later, same⟩)
    · exact opened gameId (.inr (stays gameId (.inr open_)))

theorem mem_newcomers {active : Games} {shadow : Finset ℕ} {startable : List ℕ} {e : Sigma fun _ : ℕ => ActiveGame} :
    e ∈ newcomers rules active shadow live startable ↔
      live.lookup e.1 = some e.2 ∧ active.lookup e.1 = none ∧ e.1 ∉ shadow ∧ e.1 ∈ startable := by
  unfold newcomers
  rw [List.mem_mergeSort, List.mem_filter, ← mem_entries]
  simp only [Bool.and_eq_true, Option.isNone_iff_eq_none, decide_eq_true_eq, and_assoc]

theorem nodupKeys_newcomers (active : Games) (shadow : Finset ℕ) (startable : List ℕ) :
    (newcomers rules active shadow live startable).NodupKeys := by
  have kept : (live.entries.filter fun e => (active.lookup e.1).isNone && e.1 ∉ shadow && e.1 ∈ startable).NodupKeys :=
    live.nodupKeys.sublist List.filter_sublist
  exact (List.perm_nodupKeys (List.mergeSort_perm _ _)).mpr kept

theorem pairwise_newcomers (active : Games) (shadow : Finset ℕ) (startable : List ℕ) :
    (newcomers rules active shadow live startable).Pairwise fun a b => representativeRank rules a.2 ≤ representativeRank rules b.2 := by
  unfold newcomers
  refine List.Pairwise.imp of_decide_eq_true (List.pairwise_mergeSort ?_ ?_ _)
  · intro a b c first second
    exact decide_eq_true (le_trans (of_decide_eq_true first) (of_decide_eq_true second))
  · intro a b
    rw [Bool.or_eq_true, decide_eq_true_eq, decide_eq_true_eq]
    exact le_total _ _

theorem coalesceStarts_spec (rules : Rules) {active : Games} (single : Single active) (own : ∀ p g, live.lookup p = some g → g.pid = p)
    (shadow : Finset ℕ) (startable : List ℕ) :
    Started rules live active (newcomers rules active shadow live startable) (coalesceStarts rules active shadow live startable) ∧
      ∀ gameId, (∃ e ∈ newcomers rules active shadow live startable, gameId = e.2.gameId) ∨ session active gameId ≠ none →
        session (coalesceStarts rules active shadow live startable).active gameId ≠ none := by
  have start : Started rules live active (newcomers rules active shadow live startable) { active, shadow } :=
    ⟨single, fun _ member => absurd member (Finset.notMem_empty _), fun gameId => .refl (session active gameId), .inl,
      fun _ member => absurd member List.not_mem_nil⟩
  refine started_foldl start (nodupKeys_newcomers active shadow startable) (pairwise_newcomers active shadow startable) ?_ ?_
    fun _ => .inl
  · intro e member
    exact (mem_newcomers.mp member).2.1
  · intro e member
    have here := (mem_newcomers.mp member).1
    exact ⟨here, own e.1 e.2 here, member⟩

end Starts

/-! ## The stops -/

/-- A pid that still lives is still of the game of its session. -/
def Agree (live active : Games) : Prop :=
  ∀ pid e g, active.lookup pid = some e → live.lookup pid = some g → g.gameId = e.gameId

theorem agree_iff (live active : Games) :
    Agree live active ↔ ∀ e ∈ active.entries, ∀ g ∈ live.entries, g.1 = e.1 → g.2.gameId = e.2.gameId := by
  constructor
  · intro agree e here g lives same
    exact agree e.1 e.2 g.2 (mem_entries.mp here) (same ▸ mem_entries.mp lives)
  · intro agree pid e g here lives
    exact agree ⟨pid, e⟩ (mem_entries.mpr here) ⟨pid, g⟩ (mem_entries.mpr lives) rfl

instance (live active : Games) : Decidable (Agree live active) := decidable_of_iff _ (agree_iff live active).symm

/-- What the stops do to the session of a game, with their events about it. -/
inductive Closing (now : ℤ) : Option ActiveGame → List GameEvent → Option ActiveGame → Prop where
  | none : Closing now none [] none
  | keeps {e after : ActiveGame} (carried : Carried e after) : Closing now (some e) [] (some after)
  | closes {e after : ActiveGame} (carried : Carried e after) : Closing now (some e) [.stopped after now] none

theorem Closing.refl (now : ℤ) (o : Option ActiveGame) : Closing now o [] o := by
  cases o with
  | none => exact .none
  | some e => exact .keeps (.refl e)

theorem Closing.trans {now : ℤ} {a b c : Option ActiveGame} {x y : List GameEvent} (first : Closing now a x b)
    (second : Closing now b y c) : Closing now a (x ++ y) c := by
  cases first with
  | none => exact second
  | keeps carried =>
    cases second with
    | keeps later => exact .keeps (carried.trans later)
    | closes later => exact .closes (carried.trans later)
  | closes carried =>
    cases second with
    | none => exact .closes carried

theorem Closing.no_start {now : ℤ} {a b : Option ActiveGame} {x : List GameEvent} {g : ActiveGame} (closing : Closing now a x b) :
    .started g ∉ x := by
  intro member
  cases closing with
  | none => cases member
  | keeps carried => cases member
  | closes carried => cases List.mem_singleton.mp member

section Stops

variable {rules : Rules} {live before : Games} {startable : List ℕ} {scan : Scan} {s : Stops} {pid : ℕ}

theorem heir_some {gameId : String} {e : Sigma fun _ : ℕ => ActiveGame} (found : heir rules live startable gameId = some e) :
    live.lookup e.1 = some e.2 ∧ e.2.gameId = gameId := by
  obtain ⟨member, fits⟩ := List.mem_filter.mp (List.argmin_mem found)
  exact ⟨mem_entries.mp member, of_decide_eq_true (Bool.and_eq_true_iff.mp fits).1⟩

theorem heir_none {gameId : String} (missing : heir rules live startable gameId = none) {g : ActiveGame}
    (here : live.lookup pid = some g) (startable_ : pid ∈ startable) : g.gameId ≠ gameId := by
  intro same
  have empty := List.argmin_eq_none.mp missing
  have member : ⟨pid, g⟩ ∈ live.entries.filter fun e => e.2.gameId = gameId && e.1 ∈ startable :=
    List.mem_filter.mpr ⟨mem_entries.mpr here, Bool.and_eq_true_iff.mpr ⟨decide_eq_true same, decide_eq_true startable_⟩⟩
  rw [empty] at member
  cases member

/-- What holds while the stops go on. -/
structure Stopping (live : Games) (startable : List ℕ) (now : ℤ) (before : Games) (s : Stops) : Prop where
  single : Single s.active
  agree : Agree live s.active
  closing : ∀ gameId, Closing now (session before gameId) (s.events.filter (about gameId)) (session s.active gameId)
  kept : ∀ {p e}, before.lookup p = some e → live.lookup p ≠ none → s.active.lookup p = some e
  entries : ∀ {p e}, s.active.lookup p = some e → before.lookup p = some e ∨ ∃ g, live.lookup p = some g ∧ g.gameId = e.gameId
  heirs : ∀ {gameId p g}, session before gameId ≠ none → p ∈ startable → live.lookup p = some g → g.gameId = gameId →
    session s.active gameId ≠ none

/-- A session whose process is gone goes on with an heir, or closes where there is none. -/
theorem stopOne_spec (rules : Rules) (scan : Scan) (own : ∀ p g, live.lookup p = some g → g.pid = p) (single : Single s.active)
    (agree : Agree live s.active) (dead : live.lookup pid = none) {e : ActiveGame} (here : s.active.lookup pid = some e) :
    ∃ after new, Single (stopOne rules live startable scan s pid).active ∧
      session (stopOne rules live startable scan s pid).active = Function.update (session s.active) e.gameId after ∧
      (stopOne rules live startable scan s pid).events = s.events ++ new ∧
      (∀ event ∈ new, event = .stopped e scan.now) ∧ Closing scan.now (some e) new after ∧
      (after = none → ∀ p g, p ∈ startable → live.lookup p = some g → g.gameId ≠ e.gameId) ∧
      (∀ p f, (stopOne rules live startable scan s pid).active.lookup p = some f →
        (p ≠ pid ∧ s.active.lookup p = some f) ∨ ∃ g, live.lookup p = some g ∧ g.gameId = f.gameId) ∧
      ∀ p f, live.lookup p ≠ none → s.active.lookup p = some f →
        (stopOne rules live startable scan s pid).active.lookup p = some f := by
  have alive : ∀ {p : ℕ}, live.lookup p ≠ none → p ≠ pid := by
    rintro p lives rfl
    exact lives dead
  unfold stopOne
  rw [here]
  dsimp only
  cases found : heir rules live startable e.gameId with
  | some next =>
    obtain ⟨newPid, game⟩ := next
    obtain ⟨lives, same⟩ := heir_some found
    have free : s.active.lookup newPid = none := by
      cases there : s.active.lookup newPid with
      | none => rfl
      | some f =>
        have games := agree newPid f game there lives
        obtain rfl := single.one there here (games.symm.trans same)
        cases dead.symm.trans lives
    obtain ⟨next, moved⟩ := single.moved here free (v := takeOver e game) (own newPid game lives) same
    refine ⟨some (takeOver e game), [], next, moved, (List.append_nil _).symm, nofun, .keeps (takeOver_carried same), nofun, ?_, ?_⟩
    · intro p f there
      rcases insert_cases there with ⟨rfl, rfl⟩ | old
      · exact .inr ⟨game, lives, rfl⟩
      · exact .inl (erase_cases old)
    · intro p f lives there
      exact lookup_insert_of_free (lookup_erase_of_none pid free) ((AList.lookup_erase_ne (alive lives)).trans there)
  | none =>
    obtain ⟨next, closed⟩ := single.closed here
    refine ⟨none, [.stopped e scan.now], next, closed, rfl, fun _ => List.mem_singleton.mp, .closes (.refl e), ?_, ?_, ?_⟩
    · intro _ p g start lives
      exact heir_none found lives start
    · intro p f there
      exact .inl (erase_cases there)
    · intro p f lives there
      exact (AList.lookup_erase_ne (alive lives)).trans there

theorem stopping_stopOne (rules : Rules) (own : ∀ p g, live.lookup p = some g → g.pid = p)
    (stopping : Stopping live startable scan.now before s) (dead : live.lookup pid = none) :
    Stopping live startable scan.now before (stopOne rules live startable scan s pid) ∧
      ∀ p, live.lookup p = none → p = pid ∨ s.active.lookup p = none →
        (stopOne rules live startable scan s pid).active.lookup p = none := by
  cases here : s.active.lookup pid with
  | none =>
    have same : stopOne rules live startable scan s pid = s := by
      unfold stopOne
      rw [here]
    rw [same]
    refine ⟨stopping, ?_⟩
    rintro p - (rfl | none)
    · exact here
    · exact none
  | some e =>
    obtain ⟨after, new, next, moved, events, news, closing, closed, entries, kept⟩ :=
      stopOne_spec rules scan own stopping.single stopping.agree dead here
    generalize stopOne rules live startable scan s pid = t at *
    have open_ : session s.active e.gameId = some e := (session_eq_some stopping.single).mpr ⟨pid, here, rfl⟩
    refine ⟨⟨next, ?_, ?_, fun was lives => kept _ _ lives (stopping.kept was lives), ?_, ?_⟩, ?_⟩
    · intro p f g there lives
      rcases entries p f there with ⟨-, old⟩ | ⟨h, alive, same⟩
      · exact stopping.agree p f g old lives
      · cases lives.symm.trans alive
        exact same
    · intro gameId
      rw [events, List.filter_append, moved]
      rcases eq_or_ne gameId e.gameId with rfl | apart
      · have all : new.filter (about e.gameId) = new := by
          refine List.filter_eq_self.mpr fun event member => ?_
          rw [news event member]
          exact decide_eq_true rfl
        have earlier := stopping.closing e.gameId
        rw [open_] at earlier
        rw [all, Function.update_self]
        exact earlier.trans closing
      · have none : new.filter (about gameId) = [] := by
          refine List.filter_eq_nil_iff.mpr fun event member same => ?_
          rw [news event member] at same
          exact apart (of_decide_eq_true same).symm
        rw [none, List.append_nil, Function.update_of_ne apart]
        exact stopping.closing gameId
    · intro p f there
      rcases entries p f there with ⟨-, old⟩ | lives
      · exact stopping.entries old
      · exact .inr lives
    · intro gameId p g was start lives games
      rw [moved]
      rcases eq_or_ne gameId e.gameId with rfl | apart
      · rw [Function.update_self]
        exact fun none => closed none p g start lives games
      · rw [Function.update_of_ne apart]
        exact stopping.heirs was start lives games
    · intro p gone was
      cases there : t.active.lookup p with
      | none => rfl
      | some f =>
        rcases entries p f there with ⟨apart, old⟩ | ⟨g, lives, -⟩
        · cases (was.resolve_left apart).symm.trans old
        · cases gone.symm.trans lives

theorem stopping_foldl (rules : Rules) (own : ∀ p g, live.lookup p = some g → g.pid = p) {pids : List ℕ}
    (stopping : Stopping live startable scan.now before s) (dead : ∀ pid ∈ pids, live.lookup pid = none) :
    Stopping live startable scan.now before (pids.foldl (stopOne rules live startable scan) s) ∧
      ∀ p, live.lookup p = none → p ∈ pids ∨ s.active.lookup p = none →
        (pids.foldl (stopOne rules live startable scan) s).active.lookup p = none := by
  induction pids generalizing s with
  | nil => exact ⟨stopping, fun p _ was => was.resolve_left List.not_mem_nil⟩
  | cons pid rest ih =>
    obtain ⟨next, gone⟩ := stopping_stopOne rules own stopping (dead pid List.mem_cons_self)
    obtain ⟨last, empty⟩ := ih next fun other member => dead other (List.mem_cons_of_mem _ member)
    refine ⟨last, fun p absent was => empty p absent ?_⟩
    rcases was with member | none
    · rcases List.mem_cons.mp member with rfl | later
      · exact .inr (gone p absent (.inl rfl))
      · exact .inl later
    · exact .inr (gone p absent (.inr none))

theorem coalesceStops_spec (rules : Rules) {active : Games} (single : Single active) (own : ∀ p g, live.lookup p = some g → g.pid = p)
    (agree : Agree live active) (shadow : Finset ℕ) (startable : List ℕ) (scan : Scan) (primary : Option ℕ) :
    Stopping live startable scan.now active (coalesceStops rules active shadow live startable scan primary) ∧
      ∀ p, live.lookup p = none → (coalesceStops rules active shadow live startable scan primary).active.lookup p = none := by
  have start : Stopping live startable scan.now active
      { active, shadow := shadow.filter fun pid => (live.lookup pid).isSome, primary } :=
    ⟨single, agree, fun gameId => .refl scan.now (session active gameId), fun here _ => here, .inl, fun was _ _ _ => was⟩
  have dead : ∀ pid ∈ (scan.order active.keys).filter fun pid => (live.lookup pid).isNone, live.lookup pid = none := by
    intro pid member
    exact Option.isNone_iff_eq_none.mp (List.mem_filter.mp member).2
  obtain ⟨last, empty⟩ := stopping_foldl rules own start dead
  refine ⟨last, fun p gone => empty p gone ?_⟩
  cases here : active.lookup p with
  | none => exact .inr rfl
  | some e =>
    have tracked : p ∈ scan.order active.keys := by
      rw [(scan.perm active.keys).mem_iff, ← AList.mem_keys, ← AList.lookup_isSome, here]
      rfl
    exact .inl (List.mem_filter.mpr ⟨tracked, Option.isNone_iff_eq_none.mpr gone⟩)

end Stops

end Mello.Core.GameSensing
