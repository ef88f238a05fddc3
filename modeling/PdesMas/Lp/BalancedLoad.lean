import PdesMas.Lp.Balancing

/-!
What holds in every state that a run of balancing CLPs reaches. The counters of a CLP are
those of the accesses in the log, so that each direction that draws a variable has an agent
behind it. Where the tree is built as the CLPs take it, that direction leads to another CLP,
and no variable gets lost.
-/

namespace PdesMas
namespace BalancingNetwork

open AccessCostCalculator (ports parentTest LeadsToClp)
open RouteTable (OwnAlp)

/-- The CLPs know which of them are on the last level, and only these have ALPs. -/
structure AlpsBelow (setup : Setup) : Prop where
  parents : ∀ x, x < setup.numberOfClps →
    setup.isParentClp x = parentTest x setup.numberOfClps
  leaves : ∀ x, x < setup.numberOfClps → parentTest x setup.numberOfClps = true ∨
    ∀ alp, ¬ OwnAlp x setup.numberOfClps setup.initialisor.alpToClpMap alp

/-- The invariant, with `n` events still to come. -/
structure Balanced (setup : Setup) (b : BalancingNetwork) (log : Log) (n : Nat) : Prop where
  homed : Network.Homed setup b.network
  tabled : Network.Tabled setup b.network
  parents : ∀ x, x < setup.numberOfClps →
    (b.network.clp x).sharedState.accessCostCalculator.isParentCLP = setup.isParentClp x
  tallies : ∀ x, x < setup.numberOfClps → ∀ ssvId, b.network.holds ssvId x = true →
    (b.network.clp x).Tallies ssvId (log.accesses x ssvId)
  load : ∀ x, x < setup.numberOfClps →
    (b.network.clp x).sharedState.accessCostCalculator.clpLoad = hopsOf (log.unchecked x)
  known : ∀ x, x < setup.numberOfClps → ∀ ssvId, ∀ a ∈ log.accesses x ssvId,
    ∃ d, (b.network.clp x).direction a.agent = some d
  bounded : ∀ x ssvId, (log.accesses x ssvId).length + n < 2 ^ 62

section Counters

variable {direction : LpId → Option Direction} {l : List Access}

/-- The accesses of the ports are different ones. -/
theorem sum_accessesFrom_le (direction : LpId → Option Direction) (l : List Access) :
    (ports.map fun d => (accessesFrom direction d l).length).sum ≤ l.length := by
  induction l with
  | nil => simp [accessesFrom, ports]
  | cons a l ih =>
      simp only [ports, List.map_cons, List.map_nil, List.sum_cons, List.sum_nil, accessesFrom,
        List.filter_cons, decide_eq_true_eq] at ih ⊢
      cases hd : direction a.agent with
      | none => simp; omega
      | some d => cases d <;> simp <;> omega

end Counters

variable {setup : Setup} {b b' : BalancingNetwork} {log : Log} {n x : Nat} {ssvId : SsvId}

theorem Balanced.ssvAccessCost_le (h : Balanced setup b log n) (hx : x < setup.numberOfClps)
    (hheld : b.network.holds ssvId x = true) :
    (b.network.clp x).sharedState.accessCostCalculator.ssvAccessCost ssvId ≤
      (log.accesses x ssvId).length := by
  have htallies := h.tallies x hx ssvId hheld
  refine Nat.le_trans (Nat.le_of_eq ?_)
    (sum_accessesFrom_le (b.network.clp x).direction (log.accesses x ssvId))
  rw [AccessCostCalculator.ssvAccessCost]
  exact congrArg List.sum (List.map_congr_left fun d _ => htallies.getAccessCount_eq d)

/-- The variable is drawn by a direction, from which most of its accesses have come. -/
theorem Balanced.drawn (h : Balanced setup b log n) (hx : x < setup.numberOfClps)
    {e : Direction × List SsvId}
    (he : e ∈ (b.network.clp x).sharedState.accessCostCalculator.migrationMap)
    (hid : ssvId ∈ e.2) :
    e.1 ∈ ports ∧ b.network.holds ssvId x = true ∧
      (setup.isParentClp x = true → e.1 = .UP) ∧
      (accessesFrom (b.network.clp x).direction e.1 (log.accesses x ssvId)).length >
        2 * ((b.network.clp x).sharedState.accessCostCalculator.ssvAccessCost ssvId -
          (accessesFrom (b.network.clp x).direction e.1 (log.accesses x ssvId)).length) := by
  obtain ⟨d, drawn⟩ := e
  rw [AccessCostCalculator.migrationMap_eq] at he
  obtain ⟨hport, rfl, _⟩ := AccessCostCalculator.mem_entries he
  obtain ⟨hlisted, hmigrates⟩ := List.mem_filter.mp hid
  have hheld : b.network.holds ssvId x = true :=
    ((h.homed.wired.counted x hx).mem_iff ssvId).mp hlisted
  simp only [AccessCostCalculator.migratesWord, Bool.and_eq_true] at hmigrates
  obtain ⟨⟨_, hdominates⟩, hup⟩ := hmigrates
  have hcount : (b.network.clp x).sharedState.accessCostCalculator.ssvAccessCost ssvId <
      2 ^ 62 := by
    have hle := h.ssvAccessCost_le hx hheld
    have hlt := h.bounded x ssvId
    omega
  have hmost := (AccessCostCalculator.dominatesWord_iff hcount hport).mp hdominates
  rw [(h.tallies x hx ssvId hheld).getAccessCount_eq d] at hmost
  refine ⟨hport, hheld, fun hparent => ?_, hmost⟩
  rw [h.parents x hx, hparent] at hup
  simpa using hup

/-- Migrations lead to neighbouring CLPs. -/
theorem Balanced.leadsToClp (h : Balanced setup b log n) (halps : AlpsBelow setup)
    (hx : x < setup.numberOfClps) {e : Direction × List SsvId}
    (he : e ∈ (b.network.clp x).sharedState.accessCostCalculator.migrationMap) :
    ∃ y, y < setup.numberOfClps ∧ HeapTree.Adj x y ∧
      (b.network.clp x).routeTable.getRankFromDirection e.1 = some y := by
  obtain ⟨ssvId, hid⟩ : ∃ ssvId, ssvId ∈ e.2 := by
    rw [AccessCostCalculator.migrationMap_eq] at he
    obtain ⟨_, _, hne⟩ := AccessCostCalculator.mem_entries (show (e.1, e.2) ∈ _ from he)
    exact List.exists_mem_of_ne_nil _ hne
  obtain ⟨hport, hheld, hup, hmost⟩ := h.drawn hx he hid
  obtain ⟨a, ha⟩ := List.exists_mem_of_length_pos (Nat.zero_lt_of_lt hmost)
  obtain ⟨_, hdirection⟩ := List.mem_filter.mp ha
  obtain ⟨t, ht, hranks, hports⟩ := h.tabled x hx
  have hrank : t.getDirectionFromRank a.agent.rank = some e.1 := by
    rw [RouteTable.getDirectionFromRank, ← hranks]
    exact of_decide_eq_true hdirection
  obtain ⟨y, hy, hadj, hto⟩ := AccessCostCalculator.leadsToClp_of_used hx ht (halps.leaves x hx)
    hrank hport fun htest => hup ((halps.parents x hx).trans htest)
  refine ⟨y, hy, hadj, ?_⟩
  rw [RouteTable.getRankFromDirection, hports]
  exact hto

/-- The migration that a CLP starts by itself is one the network allows. -/
theorem Balanced.leads (h : Balanced setup b log n) (halps : AlpsBelow setup)
    (hx : x < setup.numberOfClps) (clock : SsvId → Nat) :
    Network.LeadsToNeighbours setup b.network (.migrate x
      (b.network.clp x).sharedState.accessCostCalculator.migrationMap clock) := by
  have hcounted := h.homed.wired.counted x hx
  obtain ⟨hnodup, hmem⟩ := AccessCostCalculator.migrationMap_nodup hcounted.nodup fun id hid => by
    have hle := h.ssvAccessCost_le hx ((hcounted.mem_iff id).mp hid)
    have hlt := h.bounded x id
    omega
  refine ⟨fun e he => ?_, hnodup, fun id hid => (hcounted.mem_iff id).mp (hmem id hid)⟩
  obtain ⟨y, hy, _, hto⟩ := h.leadsToClp halps hx he
  exact ⟨y, hy, hto⟩

section Moves

theorem moves_refl (net : Network) : Network.Moves setup net net :=
  .stay (fun _ => .refl _) fun _ _ => rfl

theorem setClp_setClp (net : Network) (x : Nat) (c c' : Clp) :
    (net.setClp x c).setClp x c' = net.setClp x c' := by
  simp [Network.setClp]

/-- `SetGvt` moves the variables as it may. -/
theorem Balanced.moves_setGvt (h : Balanced setup b log n) (halps : AlpsBelow setup)
    (hx : x < setup.numberOfClps) (gvt : Nat) (clock : SsvId → Nat) (flag : Bool) :
    ∃ c, (b.network.clp x).setGvtAndBalance setup.rollbacks clock gvt flag = .ok c ∧
      ∃ net, Network.Moves setup b.network net ∧
        Network.Moves setup net (b.network.setClp x c) := by
  let c₁ := (b.network.clp x).setGvt gvt
  have hset : Network.Moves setup b.network (b.network.setClp x c₁) :=
    .stay (Network.sameHome_setClp (Network.sameHome_of_quiet (Clp.quiet_setGvt _ gvt)))
      (Network.migrations_setClp b.network x _ (by rfl) (by rfl))
  have hcheck : Network.Moves setup b.network (b.network.setClp x c₁.checkLoad) := by
    refine .stay (Network.sameHome_setClp ?_)
      (Network.migrations_setClp b.network x _ (by rfl) (by rfl))
    obtain ⟨hrank, hports, hroutes, hheld⟩ :=
      Network.sameHome_of_quiet (Clp.quiet_setGvt (b.network.clp x) gvt)
    exact ⟨hrank, hports, hroutes, hheld.contains, hheld.counted⟩
  cases flag with
  | true => exact ⟨c₁, rfl, _, hset, moves_refl _⟩
  | false =>
      simp only [Clp.setGvtAndBalance, Bool.false_eq_true, ite_false, Clp.balance]
      split
      · obtain ⟨hports, hnodup, hheld⟩ := h.leads halps hx clock
        have hleads : Network.LeadsToNeighbours setup (b.network.setClp x c₁.checkLoad)
            (.migrate x c₁.checkLoad.sharedState.accessCostCalculator.migrationMap clock) := by
          rw [Network.LeadsToNeighbours, Network.setClp_self]
          refine ⟨hports, hnodup, fun id hid => ?_⟩
          exact (((b.network.clp x).sharedState.removeWritePeriods_sameVariables gvt).contains
            id).trans (hheld id hid)
        obtain ⟨c, _, hc, _, hmoves⟩ := Network.moves_migrate hx clock hleads
        rw [Network.setClp_self] at hc
        rw [setClp_setClp] at hmoves
        exact ⟨c, hc, _, hcheck, hmoves⟩
      · exact ⟨c₁.checkLoad, rfl, _, hcheck, moves_refl _⟩

/-- A step meets no exit of a shared state, and moves the variables as it may. -/
theorem Balanced.moves (h : Balanced setup b log n) (halps : AlpsBelow setup) (e : Event) :
    Regular (b.step setup e) ∧ ∀ b' o, b.step setup e = .ok (b', o) →
      ∃ net, Network.Moves setup b.network net ∧ Network.Moves setup net b'.network := by
  have hpass : ∀ f, Network.LeadsToNeighbours setup b.network f →
      Regular (b.pass setup f) ∧ ∀ b' o, b.pass setup f = .ok (b', o) →
        ∃ net, Network.Moves setup b.network net ∧ Network.Moves setup net b'.network := by
    intro f hleads
    obtain ⟨hregular, hmoves⟩ := Network.moves_of_step h.homed hleads
    refine ⟨hregular.bind fun _ _ => regular_ok _, fun b' o hstep => ?_⟩
    obtain ⟨r, hr, hstep⟩ := bind_eq_ok.mp hstep
    cases hstep
    exact ⟨_, hmoves r hr, moves_refl _⟩
  cases e with
  | alpSend alp m => exact hpass (.alpSend alp m) trivial
  | deliver source target => exact hpass (.deliver source target) trivial
  | receive clp clock => exact hpass (.receive clp clock) trivial
  | send clp => exact hpass (.send clp) trivial
  | rangeRead clp agent range numberOfTraverseHops time =>
      simp only [step]
      split
      · refine ⟨.bind ?_ fun _ _ => regular_ok _, fun b' o hstep => ?_⟩
        · exact .bind (regular_orExit _) fun _ _ => regular_ok _
        · obtain ⟨c, hread, hstep⟩ := bind_eq_ok.mp hstep
          cases hstep
          have hquiet := Clp.quiet_rangeRead hread
          exact ⟨_, .stay (Network.sameHome_setClp (Network.sameHome_of_quiet hquiet))
            (Network.migrations_setClp b.network clp _ hquiet.migrationsReceived
              hquiet.migrationsSent),
            moves_refl _⟩
      · refine ⟨regular_ok _, fun b' o hstep => ?_⟩
        cases hstep
        exact ⟨_, moves_refl _, moves_refl _⟩
  | processEndMessage clp =>
      refine ⟨regular_ok _, fun b' o hstep => ?_⟩
      cases hstep
      exact ⟨_, moves_refl _, moves_refl _⟩
  | setGvt clp gvt clock =>
      simp only [step]
      split
      · rename_i hclp
        obtain ⟨c, hc, net, hmoves⟩ :=
          h.moves_setGvt halps hclp gvt clock (b.endMessageProcessed clp)
        rw [hc]
        refine ⟨regular_ok _, fun b' o hstep => ?_⟩
        cases hstep
        exact ⟨net, hmoves⟩
      · refine ⟨regular_ok _, fun b' o hstep => ?_⟩
        cases hstep
        exact ⟨_, moves_refl _, moves_refl _⟩

end Moves

section Steps

variable {e : Event} {o : Network.Output}

/-- A CLP that checks its load counts on as before. -/
theorem counter_same (b : BalancingNetwork) (x : Nat) (e : Event) :
    (b.counter x e).routeTable = (b.network.clp x).routeTable ∧
      (∀ id, (b.counter x e).sharedState.containsVariable id = b.network.holds id x) ∧
      (b.counter x e).sharedState.accessCostCalculator.isParentCLP =
        (b.network.clp x).sharedState.accessCostCalculator.isParentCLP ∧
      (∀ id l, (b.network.clp x).Tallies id l → (b.counter x e).Tallies id l) ∧
      (b.counter x e).sharedState.accessCostCalculator.clpLoad =
        if b.checks x e then 0 else (b.network.clp x).sharedState.accessCostCalculator.clpLoad := by
  simp only [counter]
  split
  · exact ⟨rfl, fun _ => rfl, rfl, fun id l h => ⟨h.access, h.hops⟩, rfl⟩
  · exact ⟨rfl, fun _ => rfl, rfl, fun id l h => h, rfl⟩

theorem Balanced.step (h : Balanced setup b log (n + 1)) (halps : AlpsBelow setup)
    (hstep : b.step setup e = .ok (b', o)) : Balanced setup b' (note b e (b', o) log) n := by
  obtain ⟨net, hmoves, hmoves'⟩ := (h.moves halps e).2 b' o hstep
  have hcounting := fun {x} hx => counting_of_step h.homed.wired hstep (x := x) hx
  have hranks : ∀ x, x < setup.numberOfClps →
      (b'.network.clp x).routeTable.rankToDirectionMap =
        (b.network.clp x).routeTable.rankToDirectionMap := fun x hx => by
    rw [(hcounting hx).ranks, (counter_same b x e).1]
  have hdirection : ∀ x, x < setup.numberOfClps →
      (b'.network.clp x).direction = (b.network.clp x).direction := fun x hx =>
    Clp.direction_of_ranks (hranks x hx)
  refine ⟨(h.homed.move hmoves).move hmoves', fun x hx => ?_, fun x hx => ?_,
    fun x hx id hheld => ?_, fun x hx => ?_, fun x hx id a ha => ?_, fun x id => ?_⟩
  · obtain ⟨t, ht, hranks', hports'⟩ := h.tabled x hx
    refine ⟨t, ht, (hranks x hx).trans hranks', ?_⟩
    rw [(hmoves'.wiring x).2.1, (hmoves.wiring x).2.1, hports']
  · rw [(hcounting hx).isParent, (counter_same b x e).2.2.1, h.parents x hx]
  · obtain ⟨_, hsame, _, htallies, _⟩ := counter_same b x e
    simp only [note, hheld, Bool.and_true]
    cases hbefore : b.network.holds id x with
    | true =>
        exact (hcounting hx).kept id _ ((hsame id).trans hbefore) hheld
          (htallies id _ (h.tallies x hx id hbefore))
    | false => exact (hcounting hx).arrived id ((hsame id).trans hbefore) hheld
  · rw [(hcounting hx).load, (counter_same b x e).2.2.2.2, note, hopsOf_append, h.load x hx]
    split <;> rfl
  · rw [hdirection x hx]
    simp only [note] at ha
    split at ha
    · rcases List.mem_append.mp ha with ha | ha
      · exact h.known x hx id a ha
      · obtain ⟨p, hp, rfl⟩ := List.mem_map.mp ha
        have hp := (List.mem_filter.mp hp).1
        obtain ⟨d, hd⟩ := (hcounting hx).known p hp
        rw [Clp.direction, (counter_same b x e).1] at hd
        exact ⟨d, hd⟩
    · cases ha
  · have hbound := h.bounded x id
    have hle := b.length_accessesTo_counted x e id
    simp only [note]
    split
    · rw [List.length_append]
      omega
    · simp only [List.length_nil]
      omega

end Steps

end BalancingNetwork
end PdesMas
