import Mello.Core.Cs2Gsi
import Mello.Core.Dota2Gsi
import Mello.Core.RocketLeague

/-!
The starts and results of matches that the three adapters with matches send, beside those of an observer
who knows which match each input is about.
-/

namespace Mello.Core.MatchResults
open Mello.Library Runs Tracking

/-- From a reset on, each adapter sends the results that are due in exactly the runs in which no input
is mistaken for one of another match. -/
theorem match_results_iff (token : String) :
    (∀ inputs, Always RocketLeague.tracker.step Right RocketLeague.tracker.start inputs ↔
      EachStep RocketLeague.tracker.step (Fits RocketLeague.tracker) RocketLeague.tracker.start inputs) ∧
    (∀ inputs, Always (Cs2Gsi.tracker token).step Right (Cs2Gsi.tracker token).start inputs ↔
      EachStep (Cs2Gsi.tracker token).step (Fits (Cs2Gsi.tracker token)) (Cs2Gsi.tracker token).start inputs) ∧
    (∀ inputs, Always (Dota2Gsi.tracker token).step Right (Dota2Gsi.tracker token).start inputs ↔
      EachStep (Dota2Gsi.tracker token).step (Fits (Dota2Gsi.tracker token)) (Dota2Gsi.tracker token).start inputs) :=
  ⟨always_right_iff _, always_right_iff _, always_right_iff _⟩

open RocketLeague in
/-- A match of which one tick more comes after its end, before the player leaves it. -/
def postMatch : List (ℕ × RocketLeague.Input) :=
  let tick : Envelope := { event := "UpdateState", updateState := some { game := { target := some { name := "me", teamNum := 1 } } } }
  [(0, .envelope tick), (0, .envelope { event := "MatchEnded", matchEnded := some { winnerTeamNum := 1 } }), (0, .envelope tick),
    (0, .envelope { event := "MatchDestroyed" })]

theorem postMatch_doubled : ¬ Always RocketLeague.tracker.step Right RocketLeague.tracker.start postMatch ∧
    (run RocketLeague.tracker.step RocketLeague.tracker.start postMatch).map (fun s => (s.results, s.due)) =
      some ([.started, .ended .win, .started, .ended .incomplete], [.started, .ended .win]) := by
  have sent : (run RocketLeague.tracker.step RocketLeague.tracker.start postMatch).map (fun s => (s.results, s.due)) =
      some ([.started, .ended .win, .started, .ended .incomplete], [.started, .ended .win]) := by decide +kernel
  refine ⟨?_, sent⟩
  obtain ⟨s, ran, same⟩ := Option.map_eq_some_iff.mp sent
  refine not_always_of_run ran fun right => ?_
  have results := right.results
  rw [(Prod.mk.inj same).1, (Prod.mk.inj same).2] at results
  cases results

end Mello.Core.MatchResults
