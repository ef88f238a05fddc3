import PdesMas.Lp.BalancedLoad

/-!
Runs of balancing CLPs. No variable gets lost, the counters are exact, and a variable that
is sent away comes nearer to its agents.
-/

namespace PdesMas

namespace Clp

variable {direction : LpId → Option Direction}

/-- The variables that the constructor adds have not been accessed. -/
theorem addSsvs_tallies {initialisor : Initialisor} {startTime : Nat} {l : List SsvId}
    {s s' : SharedState} (h : addSsvs initialisor startTime l s = .ok s')
    (htallies : ∀ id, s.containsVariable id = true →
      s.accessCostCalculator.Tallies direction id []) :
    (∀ id, s'.containsVariable id = true → s'.accessCostCalculator.Tallies direction id []) ∧
      s'.accessCostCalculator.isParentCLP = s.accessCostCalculator.isParentCLP ∧
      s'.accessCostCalculator.clpLoad = s.accessCostCalculator.clpLoad := by
  induction l generalizing s with
  | nil =>
      cases h
      exact ⟨htallies, rfl, rfl⟩
  | cons ssvId l ih =>
      obtain ⟨value, _, h⟩ := bind_eq_ok.mp h
      obtain ⟨s₁, hadd, h⟩ := bind_eq_ok.mp h
      have hadd := orExit_eq_ok.mp hadd
      rw [SharedState.add] at hadd
      split at hadd
      · cases hadd
      · obtain rfl := Option.some.inj hadd
        obtain ⟨hrest, hparent, hload⟩ := ih h fun id hid => by
          by_cases hne : id = ssvId
          · subst hne
            exact AccessCostCalculator.tallies_initialiseCounters _ _
          · have hmem : s.containsVariable id = true := by
              have hcontains := SharedState.contains_insert s ssvId id
                ((StateVariable.create ssvId).addWritePeriod value startTime ⟨0, 0⟩)
              rw [decide_eq_false hne, Bool.false_or] at hcontains
              exact hcontains.symm.trans hid
            exact (htallies id hmem).same
              (AccessCostCalculator.sameRecord_initialiseCounters _ hne)
        exact ⟨hrest, hparent, hload⟩

theorem create_tallies {setup : Setup} {rank : Nat} {c : Clp} (h : create setup rank = .ok c) :
    (∀ id, c.sharedState.containsVariable id = true → c.Tallies id []) ∧
      c.sharedState.accessCostCalculator.isParentCLP = setup.isParentClp rank ∧
      c.sharedState.accessCostCalculator.clpLoad = 0 := by
  obtain ⟨s, hs, h⟩ := bind_eq_ok.mp h
  obtain ⟨t, _, h⟩ := bind_eq_ok.mp h
  cases h
  exact addSsvs_tallies hs fun id hid => by
    simp [SharedState.create_containsVariable] at hid

end Clp

namespace BalancingNetwork

open AccessCostCalculator (ports parentTest)
open RouteTable (Attached distance)

variable {setup : Setup} {net : Network} {b b' : BalancingNetwork} {es : List Event}
  {os : List Network.Output} {log : Log} {n x y : Nat} {ssvId : SsvId} {o : Network.Output}

theorem balanced_start (hinitial : Network.Initial setup net) (hn : n < 2 ^ 62) :
    Balanced setup (start net) ⟨fun _ _ => [], fun _ => []⟩ n := by
  have htallies : ∀ x, x < setup.numberOfClps → _ := fun x hx =>
    Clp.create_tallies (hinitial.clps x hx)
  refine ⟨hinitial.homed, hinitial.sound.posted.tabled, fun x hx => (htallies x hx).2.1,
    fun x hx => (htallies x hx).1, fun x hx => (htallies x hx).2.2, fun _ _ _ a ha => ?_,
    fun _ _ => ?_⟩
  · cases ha
  · simpa using hn

theorem balanced_of_run (halps : AlpsBelow setup) (hinitial : Network.Initial setup net)
    (hlength : es.length + n < 2 ^ 62)
    (hrun : (machine setup).run (start net) es = some (b, os)) :
    Balanced setup b (logOf setup (start net) es) n :=
  (machine setup).invariant_noted note (Balanced setup)
    (fun _ _ _ _ _ _ h hstep => h.step halps (machine_step_iff.mp hstep))
    (balanced_start hinitial hlength) hrun

section Example

/-- The setup of `pair`, with the test of the constructor. -/
def levelledPair : Setup :=
  { Network.pair with isParentClp := fun x => parentTest x 2 }

theorem initial_levelledPair : Network.Initial levelledPair (Network.create levelledPair) := by
  refine Network.initial_create ⟨by decide, by decide⟩ fun rank hrank => ?_
  have : rank = 0 ∨ rank = 1 := by
    have : rank < 2 := hrank
    omega
  rcases this with rfl | rfl
  · decide
  · decide

theorem alpsBelow_levelledPair : AlpsBelow levelledPair := by
  refine ⟨fun _ _ => rfl, fun x hx => ?_⟩
  have hx : x < 2 := hx
  by_cases hzero : x = 0
  · subst hzero
    right
    rintro alp ⟨hle, hlt, hat⟩
    have hsize : levelledPair.initialisor.alpToClpMap.size = 1 := by decide
    have hnumber : levelledPair.numberOfClps = 2 := rfl
    obtain rfl : alp = 2 := by omega
    exact absurd hat (by decide)
  · obtain rfl : x = 1 := by omega
    exact .inl (by decide)

/-- The ALP writes a point to the variable at the other CLP, and a range read gives it. -/
def accessed : List Event :=
  [.alpSend 2 (.request { Network.write with kind := .write 7 (.valuePOINT ⟨1, 1⟩) }),
    .deliver 2 1, .receive 1 fun _ => 0, .send 1, .deliver 1 0, .receive 0 fun _ => 0,
    .rangeRead 0 ⟨1, 2⟩ ⟨⟨0, 0⟩, ⟨2, 2⟩⟩ 2 9]

/-- The states before and after the `SetGvt` that follows. -/
def sentAway : Option (BalancingNetwork × BalancingNetwork) := do
  let r ← (machine levelledPair).run (start (Network.create levelledPair)) accessed
  let q ← (r.1.step levelledPair (.setGvt 0 1 fun _ => 0)).toOption
  some (r.1, q.1)

/-- The range read is the second access that is counted, and the next `SetGvt` sends the
variable away. -/
example : ((machine levelledPair).run (start (Network.create levelledPair)) accessed).map
    (fun r => (r.1.network.clp 0).sharedState.accessCostCalculator.getAccessCount .LEFT 7) =
      some 2 := by decide +kernel

/-- The accesses are enough to send the variable away. -/
theorem exists_sentAway : ∃ b os b' o,
    (machine levelledPair).run (start (Network.create levelledPair)) accessed = some (b, os) ∧
      b.step levelledPair (.setGvt 0 1 fun _ => 0) = .ok (b', o) ∧
      b.network.holds 7 0 = true ∧ b'.network.holds 7 0 = false := by
  have hany : (sentAway.any fun p => p.1.network.holds 7 0 && !p.2.network.holds 7 0) = true := by
    decide +kernel
  obtain ⟨p, hp, hholds⟩ := (Option.any_eq_true _ _).mp hany
  rw [sentAway] at hp
  obtain ⟨⟨b, os⟩, hrun, hp⟩ := Option.bind_eq_some_iff.mp hp
  obtain ⟨⟨b', o⟩, hstep, hp⟩ := Option.bind_eq_some_iff.mp hp
  cases hp
  rw [Bool.and_eq_true, Bool.not_eq_true'] at hholds
  refine ⟨b, os, b', o, hrun, ?_, hholds⟩
  cases hresult : b.step levelledPair (.setGvt 0 1 fun _ => 0) with
  | error e => simp [hresult, Except.toOption] at hstep
  | ok q => simpa [hresult, Except.toOption] using hstep

end Example

/-- CLPs that balance their load by themselves lose no variable, have none twice, and never ask
a shared state for one it does not have. -/
theorem variables_survive_balancing (halps : AlpsBelow setup)
    (hinitial : Network.Initial setup net) (hlength : es.length < 2 ^ 62)
    (hrun : (machine setup).run (start net) es = some (b, os)) :
    (∀ id ∈ setup.initialisor.placements.map Prod.snd,
      (∃ host, Network.AtHost setup b.network id host) ∨
        ∃ source target, Network.Crossing setup b.network id source target) ∧
    ∀ e, b.step setup e ≠ .error .doesNotExist ∧ b.step setup e ≠ .error .alreadyExists := by
  have hbalanced : Balanced setup b (logOf setup (start net) es) 0 :=
    balanced_of_run halps hinitial hlength hrun
  refine ⟨fun id hid => ?_, fun e => ?_⟩
  · obtain ⟨p, hp⟩ := hbalanced.homed.tracked id hid
    cases p with
    | rest host => exact .inl ⟨host, hp.atHost hbalanced.homed.wired⟩
    | move source target => exact .inr ⟨source, target, hp.crossing hbalanced.homed.wired⟩
  · have hregular := (hbalanced.moves halps e).1
    exact ⟨fun herror => absurd (hregular _ herror) (by decide),
      fun herror => absurd (hregular _ herror) (by decide)⟩

theorem variables_survive_balancing_accessed : ∃ b os,
    (machine levelledPair).run (start (Network.create levelledPair)) accessed = some (b, os) ∧
    ((∃ host, Network.AtHost levelledPair b.network 7 host) ∨
      ∃ source target, Network.Crossing levelledPair b.network 7 source target) ∧
    b.step levelledPair (.setGvt 0 1 fun _ => 0) ≠ .error .doesNotExist := by
  obtain ⟨b, os, _, _, hrun, _⟩ := exists_sentAway
  have hsurvive := variables_survive_balancing alpsBelow_levelledPair initial_levelledPair
    (by decide) hrun
  exact ⟨b, os, hrun, hsurvive.1 7 (by decide), (hsurvive.2 _).1⟩

/-- The counters of a variable are the numbers of accesses and of hops, by direction, since it
came to the CLP, and the load is the number of hops since it was checked. -/
theorem counters_exact (halps : AlpsBelow setup) (hinitial : Network.Initial setup net)
    (hlength : es.length < 2 ^ 62)
    (hrun : (machine setup).run (start net) es = some (b, os)) (hx : x < setup.numberOfClps) :
    let log := logOf setup (start net) es
    let c := b.network.clp x
    (∀ id, b.network.holds id x = true → ∀ d,
      c.sharedState.accessCostCalculator.getAccessCount d id =
        (accessesFrom c.direction d (log.accesses x id)).length ∧
      c.sharedState.accessCostCalculator.getHopCount d id =
        hopsOf (accessesFrom c.direction d (log.accesses x id))) ∧
    c.sharedState.accessCostCalculator.clpLoad = hopsOf (log.unchecked x) := by
  have hbalanced : Balanced setup b (logOf setup (start net) es) 0 :=
    balanced_of_run halps hinitial hlength hrun
  refine ⟨fun id hheld d => ?_, hbalanced.load x hx⟩
  have htallies := hbalanced.tallies x hx id hheld
  exact ⟨htallies.getAccessCount_eq d, htallies.getHopCount_eq d⟩

theorem counters_exact_accessed : ∃ b os,
    (machine levelledPair).run (start (Network.create levelledPair)) accessed = some (b, os) ∧
    let log := logOf levelledPair (start (Network.create levelledPair)) accessed
    let c := b.network.clp 0
    c.sharedState.accessCostCalculator.getAccessCount .LEFT 7 =
        (accessesFrom c.direction .LEFT (log.accesses 0 7)).length ∧
      c.sharedState.accessCostCalculator.clpLoad = hopsOf (log.unchecked 0) := by
  obtain ⟨b, os, _, _, hrun, _, hheld, _⟩ := exists_sentAway
  have hexact := counters_exact alpsBelow_levelledPair initial_levelledPair (by decide) hrun
    (x := 0) (by decide)
  exact ⟨b, os, hrun, (hexact.1 7 hheld .LEFT).1, hexact.2⟩

section Gain

/-- The links between a rank and the agents of the accesses, all together. -/
noncomputable def linksTo (setup : Setup) (rank : Nat) (l : List Access) : Nat :=
  (l.map fun a => distance setup.numberOfClps setup.initialisor rank a.agent.rank).sum

/-- The accesses of other processes. -/
def Log.remote (log : Log) (x : Nat) (ssvId : SsvId) : List Access :=
  (log.accesses x ssvId).filter fun a => a.agent.rank ≠ x

/-- Where some come nearer by one and the others go away by at most one. -/
theorem sum_nearer {α : Type} (near far : α → Nat) (p : α → Bool) {l : List α}
    (hp : ∀ a ∈ l, p a = true → near a + 1 = far a)
    (hnot : ∀ a ∈ l, p a = false → near a ≤ far a + 1) :
    (l.map near).sum + 2 * (l.filter p).length ≤ (l.map far).sum + l.length := by
  induction l with
  | nil => simp
  | cons a l ih =>
      have hrest := ih (fun a ha => hp a (List.mem_cons_of_mem _ ha))
        fun a ha => hnot a (List.mem_cons_of_mem _ ha)
      simp only [List.map_cons, List.sum_cons, List.length_cons, List.filter_cons]
      cases ha : p a with
      | true =>
          have hnear := hp a List.mem_cons_self ha
          simp only [ite_true, List.length_cons]
          omega
      | false =>
          have hfar := hnot a List.mem_cons_self ha
          simp only [Bool.false_eq_true, ite_false]
          omega

/-- Every access of another process is counted at a port. -/
theorem sum_accessesFrom_eq {direction : LpId → Option Direction} {l : List Access}
    (hports : ∀ a ∈ l, ∃ d ∈ ports, direction a.agent = some d) :
    (ports.map fun d => (accessesFrom direction d l).length).sum = l.length := by
  induction l with
  | nil => simp [accessesFrom, ports]
  | cons a l ih =>
      have hrest := ih fun a ha => hports a (List.mem_cons_of_mem _ ha)
      obtain ⟨d, hd, hdirection⟩ := hports a List.mem_cons_self
      simp only [ports, List.map_cons, List.map_nil, List.sum_cons, List.sum_nil, accessesFrom,
        List.filter_cons, hdirection, List.length_cons] at hrest ⊢
      simp only [ports, List.mem_cons, List.not_mem_nil, or_false] at hd
      rcases hd with rfl | rfl | rfl <;> simp <;> omega

/-- A neighbouring CLP is at most one link further away. -/
theorem distance_neighbour (hx : x < setup.numberOfClps) (hy : y < setup.numberOfClps)
    (hadj : HeapTree.Adj x y) {r : Nat}
    (hpos : 0 < distance setup.numberOfClps setup.initialisor x r) :
    distance setup.numberOfClps setup.initialisor y r ≤
      distance setup.numberOfClps setup.initialisor x r + 1 := by
  have hreachable : (RouteTable.links setup.numberOfClps setup.initialisor.alpToClpMap).Reachable
      x r := by
    by_contra hnot
    rw [distance, SimpleGraph.dist_eq_zero_of_not_reachable hnot] at hpos
    omega
  obtain ⟨w, hw⟩ := hreachable.exists_walk_length_eq_dist
  have hlink : (RouteTable.links setup.numberOfClps setup.initialisor.alpToClpMap).Adj y x := by
    rw [RouteTable.links, SimpleGraph.fromRel_adj]
    exact ⟨Ne.symm hadj.ne, .inr (.inl ⟨hx, hy, hadj⟩)⟩
  rw [distance, distance, ← hw]
  exact SimpleGraph.dist_le (w.cons hlink)

/-- The accesses of other processes have come in through ports in use. -/
theorem Balanced.port_of_remote (h : Balanced setup b log n)
    (hattached : Attached setup.numberOfClps setup.initialisor.alpToClpMap)
    (hx : x < setup.numberOfClps) {a : Access} (ha : a ∈ log.remote x ssvId) :
    ∃ d ∈ ports, (b.network.clp x).direction a.agent = some d ∧ d ≠ .HERE ∧
      ∃ z, (b.network.clp x).routeTable.getRankFromDirection d = some z := by
  obtain ⟨hlogged, hne⟩ := List.mem_filter.mp ha
  obtain ⟨d, hd⟩ := h.known x hx ssvId a hlogged
  have hhere : d ≠ .HERE := by
    rintro rfl
    exact of_decide_eq_true hne (h.tabled.eq_of_here hattached hx hd)
  obtain ⟨t, ht, hranks, hports⟩ := h.tabled x hx
  have huses := RouteTable.usesPorts_create ht
  have hrank : t.getDirectionFromRank a.agent.rank = some d := by
    rw [RouteTable.getDirectionFromRank, ← hranks]
    exact hd
  obtain ⟨z, hz⟩ := huses.behind _ d hrank hhere
  have hsize := (huses.port d z hz).2.1
  refine ⟨d, ?_, hd, hhere, z, ?_⟩
  · cases d <;> simp_all [ports]
  · rw [RouteTable.getRankFromDirection, hports]
    exact hz

/-- The accesses of a port are all of other processes. -/
theorem Balanced.accessesFrom_remote (h : Balanced setup b log n) (hx : x < setup.numberOfClps)
    {d : Direction} (hd : d ∈ ports) :
    accessesFrom (b.network.clp x).direction d (log.remote x ssvId) =
      accessesFrom (b.network.clp x).direction d (log.accesses x ssvId) := by
  rw [Log.remote, accessesFrom, accessesFrom, List.filter_filter]
  refine List.filter_congr fun a _ => ?_
  by_cases hdirection : (b.network.clp x).direction a.agent = some d
  · have hne : a.agent.rank ≠ x := by
      intro heq
      have hself := h.tabled.here_self hx
      rw [Clp.direction, heq, hself] at hdirection
      obtain rfl := Option.some.inj hdirection
      exact absurd hd (by decide)
    simp [hdirection, hne]
  · simp [hdirection]

/-- A CLP sends a variable to a neighbour that is nearer to its accesses. -/
theorem Balanced.linksTo_lt (h : Balanced setup b log n)
    (hattached : Attached setup.numberOfClps setup.initialisor.alpToClpMap)
    (hhosts : ∀ e ∈ setup.initialisor.placements, e.1 < setup.numberOfClps)
    (hx : x < setup.numberOfClps) (hy : y < setup.numberOfClps) (hadj : HeapTree.Adj x y)
    {e : Direction × List SsvId}
    (he : e ∈ (b.network.clp x).sharedState.accessCostCalculator.migrationMap)
    (hid : ssvId ∈ e.2)
    (hport : (b.network.clp x).routeTable.getRankFromDirection e.1 = some y) :
    3 * linksTo setup y (log.remote x ssvId) + (log.remote x ssvId).length <
      3 * linksTo setup x (log.remote x ssvId) := by
  obtain ⟨hd, hheld, _, hmost⟩ := h.drawn hx he hid
  have hports := fun a (ha : a ∈ log.remote x ssvId) => h.port_of_remote hattached hx ha
  have hcost : (b.network.clp x).sharedState.accessCostCalculator.ssvAccessCost ssvId =
      (log.remote x ssvId).length := by
    rw [← sum_accessesFrom_eq fun a ha => by
      obtain ⟨d, hd, hdirection, _⟩ := hports a ha
      exact ⟨d, hd, hdirection⟩, AccessCostCalculator.ssvAccessCost]
    refine congrArg List.sum (List.map_congr_left fun d hd => ?_)
    rw [h.accessesFrom_remote hx hd]
    exact (h.tallies x hx ssvId hheld).getAccessCount_eq d
  have hnearer : ∀ a ∈ log.remote x ssvId, ∀ d z,
      (b.network.clp x).direction a.agent = some d → d ≠ .HERE →
      (b.network.clp x).routeTable.getRankFromDirection d = some z →
      distance setup.numberOfClps setup.initialisor z a.agent.rank + 1 =
        distance setup.numberOfClps setup.initialisor x a.agent.rank :=
    fun a _ d z hdirection hhere hz =>
      (h.tabled.nearer hattached hhosts hx hdirection hhere hz).2.2
  have hsum := sum_nearer
    (fun a => distance setup.numberOfClps setup.initialisor y a.agent.rank)
    (fun a => distance setup.numberOfClps setup.initialisor x a.agent.rank)
    (fun a => (b.network.clp x).direction a.agent = some e.1) (l := log.remote x ssvId)
    (fun a ha hdirection => by
      have hhere : e.1 ≠ .HERE := by
        rintro heq
        rw [heq] at hd
        exact absurd hd (by decide)
      exact hnearer a ha e.1 y (of_decide_eq_true hdirection) hhere hport)
    fun a ha _ => by
      obtain ⟨d, _, hdirection, hhere, z, hz⟩ := hports a ha
      have hfar := hnearer a ha d z hdirection hhere hz
      exact distance_neighbour hx hy hadj (by omega)
  rw [← h.accessesFrom_remote hx hd, hcost] at hmost
  have hle : (accessesFrom (b.network.clp x).direction e.1 (log.remote x ssvId)).length ≤
      (log.remote x ssvId).length := List.length_filter_le _ _
  rw [linksTo, linksTo]
  rw [accessesFrom] at hmost hle
  omega

end Gain

section Departure

/-- What `SetGvt` sends away is on its way to a neighbour in a direction that draws it. -/
theorem Balanced.departs (h : Balanced setup b log (n + 1)) (halps : AlpsBelow setup) {gvt : Nat}
    {clock : SsvId → Nat} (hx : x < setup.numberOfClps)
    (hstep : b.step setup (.setGvt x gvt clock) = .ok (b', o))
    (hheld : b.network.holds ssvId x = true) (hgone : b'.network.holds ssvId x = false) :
    ∃ e ∈ (b.network.clp x).sharedState.accessCostCalculator.migrationMap, ssvId ∈ e.2 ∧
      ∃ y, (b.network.clp x).routeTable.getRankFromDirection e.1 = some y ∧
        Network.Crossing setup b'.network ssvId x y := by
  have hhomed := (h.step halps hstep).homed
  simp only [BalancingNetwork.step, hx, ite_true] at hstep
  obtain ⟨c, hc, hstep⟩ := bind_eq_ok.mp hstep
  cases hstep
  have hgone : c.sharedState.containsVariable ssvId = false := by
    simpa [Network.holds] using hgone
  let c₁ := (b.network.clp x).setGvt gvt
  have hsame : ∀ id, c₁.sharedState.containsVariable id = b.network.holds id x :=
    ((b.network.clp x).sharedState.removeWritePeriods_sameVariables gvt).contains
  simp only [Clp.setGvtAndBalance] at hc
  split at hc
  · cases hc
    exact absurd (hgone.symm.trans ((hsame ssvId).trans hheld)) (by decide)
  · simp only [Clp.balance] at hc
    split at hc
    · obtain ⟨hports, hnodup, hmem⟩ := h.leads halps hx clock
      obtain ⟨c', ms, hc', hsends⟩ := Clp.migrateStateVariables_sends setup.rollbacks clock
        c₁.checkLoad.sharedState.accessCostCalculator.migrationMap c₁.checkLoad
        (fun e he => (hports e he).imp fun _ h => h.2) hnodup
        fun id hid => (hsame id).trans (hmem id hid)
      obtain rfl := Except.ok.inj (hc'.symm.trans hc)
      by_cases hlisted : ssvId ∈
          c₁.checkLoad.sharedState.accessCostCalculator.migrationMap.flatMap Prod.snd
      · obtain ⟨e, he, hid⟩ := List.mem_flatMap.mp hlisted
        obtain ⟨y, hy, _, hto⟩ := h.leadsToClp halps hx he
        refine ⟨e, he, hid, y, hto, ?_⟩
        have hcount := ((hsends.moved e he ssvId hid).2.2 y).trans (if_pos hto)
        obtain ⟨m, hm, hcarries⟩ := List.countP_pos_iff.mp (hcount ▸ Nat.one_pos)
        have hpos : 0 < (b.network.setClp x c').carried ssvId x y := by
          refine List.countP_pos_iff.mpr ⟨m, ?_, hcarries⟩
          have hqueued : m ∈ c'.sendLoadBalancingMessageQueue.filter fun m =>
              m.destination = y := by
            rw [hsends.migrationsSent, List.filter_append]
            exact List.mem_append.mpr (.inr hm)
          simp only [Network.migrations, Network.setClp_self]
          exact List.mem_append.mpr (.inr hqueued)
        by_cases hplaced : ssvId ∈ setup.initialisor.placements.map Prod.snd
        · obtain ⟨p, hp⟩ := hhomed.tracked ssvId hplaced
          rw [hp.carried] at hpos
          have hmove : p = .move x y := by
            by_contra hne
            simp [hne] at hpos
          subst hmove
          exact hp.crossing hhomed.wired
        · rw [(hhomed.absent ssvId hplaced).carried] at hpos
          cases hpos
      · have hkept := (hsends.kept ssvId hlisted).2.1.trans ((hsame ssvId).trans hheld)
        exact absurd (hgone.symm.trans hkept) (by decide)
    · cases hc
      exact absurd (hgone.symm.trans ((hsame ssvId).trans hheld)) (by decide)

/-- A variable that `SetGvt` sends away goes to a neighbour, and comes nearer to the agents whose
accesses have been counted, by more than a third of a link for each access. -/
theorem migration_brings_closer
    (hattached : Attached setup.numberOfClps setup.initialisor.alpToClpMap)
    (halps : AlpsBelow setup) (hinitial : Network.Initial setup net)
    (hlength : es.length + 1 < 2 ^ 62)
    (hrun : (machine setup).run (start net) es = some (b, os)) (hx : x < setup.numberOfClps)
    {gvt : Nat} {clock : SsvId → Nat} (hstep : b.step setup (.setGvt x gvt clock) = .ok (b', o))
    (hheld : b.network.holds ssvId x = true) (hgone : b'.network.holds ssvId x = false) :
    let l := (logOf setup (start net) es).remote x ssvId
    ∃ y, Network.Crossing setup b'.network ssvId x y ∧
      3 * linksTo setup y l + l.length < 3 * linksTo setup x l := by
  have hbalanced : Balanced setup b (logOf setup (start net) es) 1 :=
    balanced_of_run halps hinitial hlength hrun
  obtain ⟨e, he, hid, y, hto, hcrossing⟩ := hbalanced.departs halps hx hstep hheld hgone
  exact ⟨y, hcrossing, hbalanced.linksTo_lt hattached hinitial.places.2 hx hcrossing.onTree.2
    hcrossing.edge he hid hto⟩

theorem migration_brings_closer_sentAway : ∃ b os b' o,
    (machine levelledPair).run (start (Network.create levelledPair)) accessed = some (b, os) ∧
    b.step levelledPair (.setGvt 0 1 fun _ => 0) = .ok (b', o) ∧
    let l := (logOf levelledPair (start (Network.create levelledPair)) accessed).remote 0 7
    ∃ y, Network.Crossing levelledPair b'.network 7 0 y ∧
      3 * linksTo levelledPair y l + l.length < 3 * linksTo levelledPair 0 l := by
  obtain ⟨b, os, b', o, hrun, hstep, hheld, hgone⟩ := exists_sentAway
  have hattached : Attached levelledPair.numberOfClps levelledPair.initialisor.alpToClpMap :=
    Network.attached_pair
  exact ⟨b, os, b', o, hrun, hstep, migration_brings_closer hattached alpsBelow_levelledPair
    initial_levelledPair (by decide) hrun (by decide) hstep hheld hgone⟩

end Departure

end BalancingNetwork
end PdesMas
