import PdesMas.Lp.SingleHome
import PdesMas.Ssv.MigrationMap

/-!
One round of migrations: the variables that the counters draw in some direction are taken
out of the shared state one after the other, and none of them twice.
-/

namespace PdesMas
namespace Clp

/-- Variables that are held, each listed once, are there when their turn comes. -/
theorem migrateStateVariables_finds (rollbacks : RollbackList → List (LpId × Nat))
    (clock : SsvId → Nat) (migrationMap : List (Direction × List SsvId)) (c : Clp)
    (hnodup : (migrationMap.flatMap Prod.snd).Nodup)
    (hheld : ∀ id ∈ migrationMap.flatMap Prod.snd, c.sharedState.containsVariable id = true) :
    migrateStateVariables rollbacks clock migrationMap c ≠ .error .doesNotExist := by
  induction migrationMap generalizing c with
  | nil => simp [migrateStateVariables]
  | cons e rest ih =>
      obtain ⟨direction, ssvIds⟩ := e
      rw [List.flatMap_cons, List.nodup_append] at hnodup
      obtain ⟨hids, hrest, hdisjoint⟩ := hnodup
      rw [migrateStateVariables]
      cases c.routeTable.getRankFromDirection direction with
      | none =>
          intro h
          cases h
      | some target =>
          obtain ⟨c₁, m₁, htake, ⟨_, _, hheld₁, _⟩, _⟩ :=
            takeOut_leaves rollbacks clock direction ssvIds c.clearRangeUpdates ∅ hids
              fun id hid => by
                rw [(quiet_clearRangeUpdates c).held.contains]
                exact hheld id (by simp [hid])
          change (takeOut rollbacks clock direction ssvIds c.clearRangeUpdates ∅ >>= _) ≠ _
          rw [htake]
          refine ih _ hrest fun id hid => ?_
          have hout : id ∉ ssvIds := fun hin => hdisjoint id hin id hid rfl
          have hstays := hheld₁ id
          rw [(quiet_clearRangeUpdates c).held.contains, hheld id (by simp [hid])] at hstays
          exact hstays.trans (by simpa using hout)

/-- A round takes each variable out once, if its CLP holds the variables it counts for. -/
theorem migrationRound {c : Clp} (h : c.sharedState.Counted)
    (hcount : ∀ id ∈ c.sharedState.accessCostCalculator.ssvList,
      c.sharedState.accessCostCalculator.ssvAccessCost id < 2 ^ 62)
    (rollbacks : RollbackList → List (LpId × Nat)) (clock : SsvId → Nat) :
    migrateStateVariables rollbacks clock c.sharedState.accessCostCalculator.migrationMap c ≠
      .error .doesNotExist := by
  obtain ⟨hnodup, hmem⟩ := AccessCostCalculator.migrationMap_nodup h.nodup hcount
  exact migrateStateVariables_finds rollbacks clock _ c hnodup fun id hid =>
    (h.mem_iff id).mp (hmem id hid)

end Clp

namespace Network
open AccessCostCalculator

/-- After any calls the migration map lists variables of the calculator, each once, and no CLP
copies or deletes a variable that is gone; CLPs of a run count for the variables they hold. -/
theorem migrated_at_most_once :
    (∀ isParentCLP portThreshold calls,
      (∀ id ∈ (after isParentCLP portThreshold calls).ssvList,
        (after isParentCLP portThreshold calls).ssvAccessCost id < 2 ^ 62) →
      let migrationMap := (after isParentCLP portThreshold calls).migrationMap
      (migrationMap.flatMap Prod.snd).Nodup ∧
        (∀ id ∈ migrationMap.flatMap Prod.snd,
          id ∈ (after isParentCLP portThreshold calls).ssvList) ∧
        ∀ c : Clp, c.sharedState.accessCostCalculator = after isParentCLP portThreshold calls →
          c.sharedState.Counted → ∀ rollbacks clock,
            c.migrateStateVariables rollbacks clock migrationMap ≠ .error .doesNotExist) ∧
    ∀ setup net, (machine setup).Reachable (Initial setup) (LeadsToNeighbours setup) net →
      ∀ x, x < setup.numberOfClps →
        (∀ id ∈ (net.clp x).sharedState.accessCostCalculator.ssvList,
          (net.clp x).sharedState.accessCostCalculator.ssvAccessCost id < 2 ^ 62) →
        ∀ rollbacks clock, (net.clp x).migrateStateVariables rollbacks clock
          (net.clp x).sharedState.accessCostCalculator.migrationMap ≠ .error .doesNotExist := by
  constructor
  · intro isParentCLP portThreshold calls hcount migrationMap
    obtain ⟨honce, hmem⟩ := migrationMap_nodup (nodup_after isParentCLP portThreshold calls) hcount
    refine ⟨honce, hmem, fun c hc hcounted rollbacks clock => ?_⟩
    have hround := Clp.migrationRound hcounted (hc ▸ hcount) rollbacks clock
    rwa [hc] at hround
  · intro setup net h x hx hcount rollbacks clock
    exact Clp.migrationRound ((homed_of_reachable h).wired.counted x hx) hcount rollbacks clock

/-- Five variables, of which the third is drawn neither way and the fifth is gone again. -/
def drawnBothWays : List AccessCostCalculator.Call :=
  [.initialiseCounters 7, .initialiseCounters 8, .initialiseCounters 9, .initialiseCounters 10,
    .initialiseCounters 11, .updateAccessCount .LEFT 2 7, .updateHopCount .LEFT 3 7,
    .updateAccessCount .UP 4 8, .updateHopCount .UP 9 8, .updateAccessCount .RIGHT 1 8,
    .updateHopCount .RIGHT 1 8, .updateAccessCount .LEFT 2 9, .updateHopCount .LEFT 2 9,
    .updateAccessCount .UP 2 9, .updateHopCount .UP 2 9, .updateAccessCount .LEFT 3 10,
    .updateHopCount .LEFT 5 10, .updateAccessCount .LEFT 2 11, .updateHopCount .LEFT 2 11,
    .removeSsvAccessRecord 11, .removeSsvHopRecord 11, .removeSsvFromList 11]

/-- The ALP of `pair` has its write processed at the first CLP. -/
def writtenBelow : List Event :=
  [.alpSend 2 (.request ⟨0, 5, ⟨1, 2⟩, .write 7 (.valueINT 3)⟩), .deliver 2 1,
    .receive 1 fun _ => 0, .send 1, .deliver 1 0, .receive 0 fun _ => 0]

theorem exists_writtenBelow : ∃ net os, (machine pair).run (create pair) writtenBelow =
      some (net, os) ∧
    (net.clp 0).sharedState.accessCostCalculator.migrationMap = [(.LEFT, [7])] ∧
    ∀ id ∈ (net.clp 0).sharedState.accessCostCalculator.ssvList,
      (net.clp 0).sharedState.accessCostCalculator.ssvAccessCost id < 2 ^ 62 := by
  have hany : (((machine pair).run (create pair) writtenBelow).any fun r =>
      decide ((r.1.clp 0).sharedState.accessCostCalculator.migrationMap = [(.LEFT, [7])]) &&
        (r.1.clp 0).sharedState.accessCostCalculator.ssvList.all fun id =>
          decide ((r.1.clp 0).sharedState.accessCostCalculator.ssvAccessCost id < 2 ^ 62)) =
      true := by decide +kernel
  obtain ⟨⟨net, os⟩, hrun, hdrawn⟩ := (Option.any_eq_true _ _).mp hany
  rw [Bool.and_eq_true, decide_eq_true_eq, List.all_eq_true] at hdrawn
  exact ⟨net, os, hrun, hdrawn.1, fun id hid => of_decide_eq_true (hdrawn.2 id hid)⟩

/-- Three variables are drawn, in two directions; in a run the first CLP sends its variable to
the ALP that has accessed it. -/
theorem migrated_at_most_once_below :
    ((after false 2 drawnBothWays).migrationMap = [(.UP, [8]), (.LEFT, [7, 10])] ∧
      ((after false 2 drawnBothWays).migrationMap.flatMap Prod.snd).Nodup ∧
      ∀ id ∈ (after false 2 drawnBothWays).migrationMap.flatMap Prod.snd,
        id ∈ (after false 2 drawnBothWays).ssvList) ∧
    ∃ net os, (machine pair).run (create pair) writtenBelow = some (net, os) ∧
      (net.clp 0).sharedState.accessCostCalculator.migrationMap = [(.LEFT, [7])] ∧
      (net.clp 0).migrateStateVariables pair.rollbacks (fun _ => 0)
        (net.clp 0).sharedState.accessCostCalculator.migrationMap ≠ .error .doesNotExist := by
  constructor
  · obtain ⟨honce, hlisted, _⟩ := migrated_at_most_once.1 false 2 drawnBothWays (by decide)
    exact ⟨by decide, honce, hlisted⟩
  · obtain ⟨net, os, hrun, hdrawn, hcount⟩ := exists_writtenBelow
    have hreachable := Machine.Reachable.run (.start initial_pair)
      (show (machine pair).Meets (LeadsToNeighbours pair) (create pair) writtenBelow by decide)
      hrun
    exact ⟨net, os, hrun, hdrawn, migrated_at_most_once.2 pair net hreachable 0 (by decide)
      hcount pair.rollbacks fun _ => 0⟩

end Network
end PdesMas
