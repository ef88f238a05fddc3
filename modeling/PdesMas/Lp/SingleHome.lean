import PdesMas.Lp.ClpEffect

/-!
Every shared state variable has one home. It is at one CLP or in one state
migration between two neighbours, and the routes of the CLPs are the pointers
of the tree routing to that place. A step of the network leaves the place alone
or moves it over one edge.
-/

namespace PdesMas.Network

open TreeRouting (Place)

variable {setup : Setup} {net net' : Network}

section Migrations

@[simp] theorem setClp_self (net : Network) (x : Nat) (c : Clp) : (net.setClp x c).clp x = c := by
  simp [setClp]

theorem setClp_of_ne (net : Network) {x y : Nat} (c : Clp) (h : y ≠ x) :
    (net.setClp x c).clp y = net.clp y := Function.update_of_ne h _ _

@[simp] theorem setClp_link (net : Network) (x : Nat) (c : Clp) :
    (net.setClp x c).link = net.link := rfl

@[simp] theorem setLink_clp (net : Network) (a b : Nat) (l : List Transfer) :
    (net.setLink a b l).clp = net.clp := rfl

theorem setLink_link (net : Network) (a b : Nat) (l : List Transfer) (i j : Nat) :
    (net.setLink a b l).link i j = if i = a ∧ j = b then l else net.link i j := by
  simp only [setLink, Function.update_apply]
  by_cases hi : i = a
  · subst hi
    by_cases hj : j = b <;> simp [hj]
  · simp [hi]

@[simp] theorem migrationsOf_nil : migrationsOf [] = [] := rfl

@[simp] theorem migrationsOf_append (l l' : List Transfer) :
    migrationsOf (l ++ l') = migrationsOf l ++ migrationsOf l' := List.filterMap_append

@[simp] theorem migrationsOf_migration (m : StateMigrationMessage) (l : List Transfer) :
    migrationsOf (.migration m :: l) = m :: migrationsOf l := rfl

@[simp] theorem migrationsOf_simulation (m : SimulationMessage) (l : List Transfer) :
    migrationsOf (.simulation m :: l) = migrationsOf l := rfl

/-- A CLP that keeps its load balancing queues keeps the migrations. -/
theorem migrations_setClp (net : Network) (x : Nat) (c : Clp)
    (hreceive : c.receiveLoadBalancingMessageQueue =
      (net.clp x).receiveLoadBalancingMessageQueue)
    (hsend : c.sendLoadBalancingMessageQueue = (net.clp x).sendLoadBalancingMessageQueue)
    (a b : Nat) : (net.setClp x c).migrations a b = net.migrations a b := by
  have hclp : ∀ y, ((net.setClp x c).clp y).receiveLoadBalancingMessageQueue =
        (net.clp y).receiveLoadBalancingMessageQueue ∧
      ((net.setClp x c).clp y).sendLoadBalancingMessageQueue =
        (net.clp y).sendLoadBalancingMessageQueue := by
    intro y
    by_cases hy : y = x
    · subst hy
      simpa using ⟨hreceive, hsend⟩
    · rw [setClp_of_ne net c hy]
      exact ⟨rfl, rfl⟩
  simp only [migrations, (hclp b).1, (hclp a).2, setClp_link]

/-- Links may change in what is not a migration. -/
theorem migrations_setLink {i j : Nat} {l : List Transfer}
    (h : migrationsOf l = migrationsOf (net.link i j)) (a b : Nat) :
    (net.setLink i j l).migrations a b = net.migrations a b := by
  simp only [migrations, setLink_clp, setLink_link]
  split
  · rename_i hab
    rw [h, hab.1, hab.2]
  · rfl

theorem migrations_push_simulation (net : Network) (i j : Nat) (m : SimulationMessage) (a b : Nat) :
    (net.push i j (.simulation m)).migrations a b = net.migrations a b :=
  migrations_setLink (by simp) a b

/-- Sending moves a migration from the queue to the link. -/
theorem migrations_send {x : Nat} {m : StateMigrationMessage}
    {rest : List StateMigrationMessage}
    (hqueue : (net.clp x).sendLoadBalancingMessageQueue = m :: rest) (a b : Nat) :
    ((net.setClp x { net.clp x with sendLoadBalancingMessageQueue := rest }).push x m.destination
      (.migration m)).migrations a b = net.migrations a b := by
  let c : Clp := { net.clp x with sendLoadBalancingMessageQueue := rest }
  have hreceived : ((net.setClp x c).clp b).receiveLoadBalancingMessageQueue =
      (net.clp b).receiveLoadBalancingMessageQueue := by
    by_cases hb : b = x
    · subst hb
      simp [c]
    · rw [setClp_of_ne net c hb]
  simp only [migrations, push, setLink_clp, setLink_link, setClp_link]
  rw [hreceived, List.append_assoc, List.append_assoc]
  congr 1
  by_cases ha : a = x
  · subst ha
    by_cases hb : b = m.destination
    · simp [hb, hqueue]
    · simp [hb, hqueue, Ne.symm hb]
  · simp [ha, setClp_of_ne net c ha, c]

/-- Receiving moves a migration from the link to the queue of its target. -/
theorem migrations_deliver {i j : Nat} {m : StateMigrationMessage} {rest : List Transfer}
    (hlink : net.link i j = .migration m :: rest) (horigin : m.origin = i) (a b : Nat) :
    ((net.setLink i j rest).setClp j (receiveToLp (net.clp j) i (.migration m))).migrations a b =
      net.migrations a b := by
  let c := receiveToLp (net.clp j) i (.migration m)
  have hsent : (((net.setLink i j rest).setClp j c).clp a).sendLoadBalancingMessageQueue =
      (net.clp a).sendLoadBalancingMessageQueue := by
    by_cases ha : a = j
    · subst ha
      rw [setClp_self]
      rfl
    · rw [setClp_of_ne _ c ha, setLink_clp]
  simp only [migrations, setClp_link, setLink_link]
  rw [hsent]
  congr 1
  by_cases hb : b = j
  · subst hb
    by_cases ha : a = i
    · subst ha
      simp [receiveToLp, hlink, horigin]
    · simp [receiveToLp, ha, horigin, Ne.symm ha]
  · rw [setClp_of_ne _ c hb]
    simp [hb]

end Migrations

/-- `c'` says of every variable what `c` says. -/
structure SameHome (c c' : Clp) : Prop where
  rank : c'.rank = c.rank
  ports : c'.routeTable.directionToRankMap = c.routeTable.directionToRankMap
  routes : ∀ id, c'.routeTable.getDirectionFromSsvId id = c.routeTable.getDirectionFromSsvId id
  held : c.sharedState.SameVariables c'.sharedState

theorem SameHome.refl (c : Clp) : SameHome c c := ⟨rfl, rfl, fun _ => rfl, .refl _⟩

theorem sameHome_of_quiet {c c' : Clp} (h : c.Quiet c') : SameHome c c' :=
  ⟨h.rank, h.ports, fun id => by rw [h.routes], h.held⟩

theorem sameHome_of_handles {c c' : Clp} {content : Content} {r : Clp.Received}
    (h : c.Handles content c' r) : SameHome c c' := by
  cases h with
  | processed _ _ hquiet | reply _ hquiet _ => exact sameHome_of_quiet hquiet
  | forwarded => exact ⟨rfl, rfl, fun _ => rfl, .refl _⟩

/-- Ranks, ports and addresses are as they should be. -/
structure Wired (setup : Setup) (net : Network) : Prop where
  rank : ∀ x, x < setup.numberOfClps → (net.clp x).rank = x
  ports : ∀ x, x < setup.numberOfClps →
    RouteTable.PortsLead x setup.numberOfClps (net.clp x).routeTable.directionToRankMap
  addressed : ∀ a b, ∀ m ∈ net.migrations a b,
    m.origin = a ∧ m.destination = b ∧ a < setup.numberOfClps ∧ b < setup.numberOfClps
  counted : ∀ x, x < setup.numberOfClps → (net.clp x).sharedState.Counted

/-- What a step does to the homes of the variables. -/
inductive Moves (setup : Setup) (net net' : Network) : Prop
  | stay (clps : ∀ x, SameHome (net.clp x) (net'.clp x))
      (migrations : ∀ a b, net'.migrations a b = net.migrations a b)
  | arrive (x : Nat) (m : StateMigrationMessage) (hx : x < setup.numberOfClps)
      (others : ∀ y, y ≠ x → SameHome (net.clp y) (net'.clp y))
      (rank : (net'.clp x).rank = (net.clp x).rank)
      (ports : (net'.clp x).routeTable.directionToRankMap =
        (net.clp x).routeTable.directionToRankMap)
      (routes : ∀ id, (net'.clp x).routeTable.getDirectionFromSsvId id =
        if m.stateVariableMap.contains id then some .HERE
        else (net.clp x).routeTable.getDirectionFromSsvId id)
      (held : ∀ id, (net'.clp x).sharedState.containsVariable id =
        (m.stateVariableMap.contains id || (net.clp x).sharedState.containsVariable id))
      (counted : (net.clp x).sharedState.Counted → (net'.clp x).sharedState.Counted)
      (head : net.migrations m.origin x = m :: net'.migrations m.origin x)
      (migrations : ∀ a b, a ≠ m.origin ∨ b ≠ x → net'.migrations a b = net.migrations a b)
  | depart (x : Nat) (migrationMap : List (Direction × List SsvId))
      (ms : List StateMigrationMessage) (hx : x < setup.numberOfClps)
      (leads : ∀ e ∈ migrationMap, ∃ target, target < setup.numberOfClps ∧
        (net.clp x).routeTable.getRankFromDirection e.1 = some target)
      (heldBefore : ∀ id ∈ migrationMap.flatMap Prod.snd,
        (net.clp x).sharedState.containsVariable id = true)
      (others : ∀ y, y ≠ x → SameHome (net.clp y) (net'.clp y))
      (sends : Clp.Sends migrationMap (net.clp x) (net'.clp x) ms)
      (migrations : ∀ a b, net'.migrations a b = net.migrations a b ++
        if a = x then ms.filter fun m => m.destination = b else [])

theorem sameHome_setClp {x : Nat} {c : Clp} (h : SameHome (net.clp x) c) (y : Nat) :
    SameHome (net.clp y) ((net.setClp x c).clp y) := by
  by_cases hy : y = x
  · subst hy
    rwa [setClp_self]
  · rw [setClp_of_ne net c hy]
    exact .refl _

theorem moves_alpSend (alp : Nat) (m : AlpMessage) :
    Moves setup net (net.alpSend setup alp m).1 := by
  simp only [alpSend]
  split
  · rename_i clp _
    split
    · exact .stay (fun _ => .refl _)
        (migrations_push_simulation net alp clp ⟨alp, clp, .agent net.sent 0 m⟩)
    · exact .stay (fun _ => .refl _) fun _ _ => rfl
  · exact .stay (fun _ => .refl _) fun _ _ => rfl

theorem moves_deliver (hwired : Wired setup net) (i j : Nat) :
    Moves setup net (net.deliver setup i j) := by
  simp only [deliver]
  split
  · exact .stay (fun _ => .refl _) fun _ _ => rfl
  · rename_i t rest hlink
    have hsame : SameHome (net.clp j) (receiveToLp (net.clp j) i t) := by
      cases t <;> exact ⟨rfl, rfl, fun _ => rfl, .refl _⟩
    cases t with
    | simulation m =>
        have hmigrations : ∀ a b, (net.setLink i j rest).migrations a b = net.migrations a b :=
          migrations_setLink (by simp [hlink])
        split
        · refine .stay (sameHome_setClp (setLink_clp net i j rest ▸ hsame)) fun a b => ?_
          refine Eq.trans ?_ (hmigrations a b)
          exact migrations_setClp _ j _ (by rfl) (by rfl) a b
        · exact .stay (fun _ => .refl _) hmigrations
    | migration m =>
        have hmem : m ∈ net.migrations i j := by simp [migrations, hlink]
        obtain ⟨horigin, _, _, hj⟩ := hwired.addressed i j m hmem
        rw [if_pos hj]
        exact .stay (sameHome_setClp (setLink_clp net i j rest ▸ hsame))
          (migrations_deliver hlink horigin)

theorem moves_send {x : Nat} {c : Clp} {r : Clp.Sent} (h : Clp.Sending (net.clp x) c r) :
    Moves setup net ((net.setClp x c).put x r) := by
  cases h with
  | nothing => exact .stay (sameHome_setClp (.refl _)) (migrations_setClp net x _ (by rfl) (by rfl))
  | simulation =>
      exact .stay (sameHome_setClp ⟨rfl, rfl, fun _ => rfl, .refl _⟩) fun a b =>
        (migrations_push_simulation _ _ _ _ a b).trans
          (migrations_setClp net x _ (by rfl) (by rfl) a b)
  | migration hqueue =>
      exact .stay (sameHome_setClp ⟨rfl, rfl, fun _ => rfl, .refl _⟩) (migrations_send hqueue)

/-- The CLPs that store the variable. -/
def holds (net : Network) (id : SsvId) (x : Nat) : Bool :=
  (net.clp x).sharedState.containsVariable id

def route (net : Network) (id : SsvId) (x : Nat) : Option Direction :=
  (net.clp x).routeTable.getDirectionFromSsvId id

/-- The state migrations from `a` to `b` that carry the variable. -/
def carried (net : Network) (id : SsvId) (a b : Nat) : Nat :=
  (net.migrations a b).countP fun m => m.stateVariableMap.contains id

/-- The variable is nowhere. -/
structure Absent (setup : Setup) (net : Network) (id : SsvId) : Prop where
  held : ∀ x, x < setup.numberOfClps → net.holds id x = false
  route : ∀ x, x < setup.numberOfClps → net.route id x = none
  carried : ∀ a b, net.carried id a b = 0

/-- The port a pointer stands for. -/
def port (x target : Nat) : Direction :=
  if target = x then .HERE else RouteTable.portOf x target

/-- A place between or at CLPs that exist. -/
def OnTree (numberOfClps : Nat) : Place Nat → Prop
  | .rest h => h < numberOfClps
  | .move u v => u < numberOfClps ∧ v < numberOfClps ∧ HeapTree.Adj u v

/-- The variable is at `p`, and everything points there. -/
structure Tracks (setup : Setup) (net : Network) (id : SsvId) (p : Place Nat) : Prop where
  onTree : OnTree setup.numberOfClps p
  held : ∀ x, x < setup.numberOfClps → (net.holds id x = true ↔ p = .rest x)
  route : ∀ x, x < setup.numberOfClps →
    net.route id x = some (port x (HeapTree.routing.pointer p x))
  carried : ∀ a b, net.carried id a b = if p = .move a b then 1 else 0

/-- Every variable is tracked, or nowhere. -/
structure Homed (setup : Setup) (net : Network) : Prop where
  wired : Wired setup net
  tracked : ∀ id ∈ setup.initialisor.placements.map Prod.snd, ∃ p, Tracks setup net id p
  absent : ∀ id, id ∉ setup.initialisor.placements.map Prod.snd → Absent setup net id

theorem pointer_ne_self {p : Place Nat} {x : Nat} (hp : OnTree setup.numberOfClps p)
    (h : p ≠ .rest x) : HeapTree.Adj x (HeapTree.routing.pointer p x) :=
  HeapTree.routing.adj_pointer (fun _ _ huv => (huv ▸ hp : OnTree _ (.move _ _)).2.2) h

theorem Homed.held_of_here (h : Homed setup net) {x : Nat} (hx : x < setup.numberOfClps)
    {id : SsvId} (hroute : (net.clp x).routeTable.getDirectionFromSsvId id = some .HERE) :
    (net.clp x).sharedState.containsVariable id = true := by
  by_cases hid : id ∈ setup.initialisor.placements.map Prod.snd
  · obtain ⟨p, hp⟩ := h.tracked id hid
    refine (hp.held x hx).mpr ?_
    by_contra hne
    have hadj := pointer_ne_self hp.onTree hne
    have hport : port x (HeapTree.routing.pointer p x) = .HERE :=
      Option.some.inj ((hp.route x hx).symm.trans hroute)
    rw [port, if_neg (Ne.symm hadj.ne)] at hport
    exact RouteTable.portOf_ne_here _ _ hport
  · cases ((h.absent id hid).route x hx).symm.trans hroute

/-- What is on its way is held by no CLP. -/
theorem Homed.not_held_of_carried (h : Homed setup net) {a b x : Nat}
    (hx : x < setup.numberOfClps) {m : StateMigrationMessage} (hm : m ∈ net.migrations a b)
    {id : SsvId} (hid : m.stateVariableMap.contains id = true) :
    (net.clp x).sharedState.containsVariable id = false := by
  by_cases hplaced : id ∈ setup.initialisor.placements.map Prod.snd
  · obtain ⟨p, hp⟩ := h.tracked id hplaced
    have hpos : 0 < net.carried id a b := List.countP_pos_iff.mpr ⟨m, hm, hid⟩
    rw [hp.carried a b] at hpos
    by_contra hheld
    have hrest := (hp.held x hx).mp (by simpa [holds] using hheld)
    simp [hrest] at hpos
  · exact (h.absent id hplaced).held x hx

/-- A state migration is entered at its target. -/
theorem moves_enter (h : Homed setup net) {x : Nat} (hx : x < setup.numberOfClps)
    (clock : SsvId → Nat) {m : StateMigrationMessage} {rest : List StateMigrationMessage}
    (hqueue : (net.clp x).receiveLoadBalancingMessageQueue = m :: rest) :
    m.destination = (net.clp x).rank ∧ ∃ c',
      Clp.processStateMigration setup.rollbacks clock m.stateVariableMap.toList
        { net.clp x with receiveLoadBalancingMessageQueue := rest } = .ok c' ∧
      Clp.Answers { net.clp x with receiveLoadBalancingMessageQueue := rest } c' ∧
      Moves setup net (net.setClp x c') := by
  have hmem : m ∈ net.migrations m.origin x := by simp [migrations, hqueue]
  have hkeys : ∀ id, id ∈ m.stateVariableMap.toList.map Prod.fst ↔
      m.stateVariableMap.contains id = true := fun id => by
    rw [Std.TreeMap.map_fst_toList_eq_keys, Std.TreeMap.mem_keys, Std.TreeMap.mem_iff_contains]
  obtain ⟨_, hdestination, _, _⟩ := h.wired.addressed _ _ m hmem
  obtain ⟨c', hc', hanswers, hroutes, hheld, hcounted⟩ :=
    Clp.processStateMigration_enters setup.rollbacks clock
      m.stateVariableMap.toList { net.clp x with receiveLoadBalancingMessageQueue := rest }
      (by
        rw [Std.TreeMap.map_fst_toList_eq_keys]
        exact Std.TreeMap.nodup_keys)
      fun id hid => h.not_held_of_carried hx hmem ((hkeys id).mp hid)
  refine ⟨hdestination.trans (h.wired.rank x hx).symm, c', hc', hanswers, ?_⟩
  have hsent : ∀ a, ((net.setClp x c').clp a).sendLoadBalancingMessageQueue =
      (net.clp a).sendLoadBalancingMessageQueue := by
    intro a
    by_cases ha : a = x
    · subst ha
      rw [setClp_self, hanswers.migrationsSent]
    · rw [setClp_of_ne net c' ha]
  refine .arrive x m hx (fun y hy => ?_) ?_ ?_ (fun id => ?_) (fun id => ?_) ?_ ?_ fun a b hab => ?_
  · rw [setClp_of_ne net c' hy]
    exact .refl _
  · rw [setClp_self, hanswers.rank]
  · rw [setClp_self, hanswers.ports]
  · rw [setClp_self, hroutes id]
    simp only [hkeys]
  · rw [setClp_self, hheld id]
    simp only [hkeys, Bool.decide_eq_true]
  · rwa [setClp_self]
  · simp only [migrations, setClp_link, hsent]
    rw [setClp_self, hanswers.migrationsReceived, hqueue]
    simp
  · simp only [migrations, setClp_link, hsent]
    by_cases hb : b = x
    · subst hb
      have ha : m.origin ≠ a := fun heq => hab.elim (fun h => h heq.symm) fun h => h rfl
      rw [setClp_self, hanswers.migrationsReceived, hqueue]
      simp [ha]
    · rw [setClp_of_ne net c' hb]

theorem moves_receive (h : Homed setup net) {x : Nat} (hx : x < setup.numberOfClps)
    (clock : SsvId → Nat) :
    Regular ((net.clp x).receive setup.rollbacks clock) ∧
      ∀ r, (net.clp x).receive setup.rollbacks clock = .ok r →
        Moves setup net (net.setClp x r.1) := by
  simp only [Clp.receive]
  split
  · rename_i m rest hqueue
    obtain ⟨hdestination, c', hc', _, hmoves⟩ := moves_enter h hx clock hqueue
    rw [if_pos hdestination, hc']
    exact ⟨regular_ok _, fun r hr => by
      cases hr
      exact hmoves⟩
  · split
    · rename_i m rest hqueue
      constructor
      · exact Clp.regular_receiveSimulation _ _ fun id hroute => h.held_of_here hx hroute
      · rintro ⟨c, r⟩ hr
        have hhandles := Clp.handles_of_receiveSimulation hr
        obtain ⟨hreceived, hsent⟩ := hhandles.migrations
        obtain ⟨hrank, hports, hroutes, hheld⟩ := sameHome_of_handles hhandles
        exact .stay (sameHome_setClp ⟨hrank, hports, hroutes, hheld⟩)
          (migrations_setClp net x c hreceived hsent)
    · exact ⟨regular_ok _, fun r hr => by
        cases hr
        exact .stay (sameHome_setClp (.refl _)) (migrations_setClp net x _ (by rfl) (by rfl))⟩

/-- The variables of a migration map leave for the neighbours it names. -/
theorem moves_migrate {x : Nat} (hx : x < setup.numberOfClps)
    {migrationMap : List (Direction × List SsvId)} (clock : SsvId → Nat)
    (hleads : LeadsToNeighbours setup net (.migrate x migrationMap clock)) :
    ∃ c' ms, (net.clp x).migrateStateVariables setup.rollbacks clock migrationMap = .ok c' ∧
      Clp.Sends migrationMap (net.clp x) c' ms ∧ Moves setup net (net.setClp x c') := by
  obtain ⟨hports, hnodup, hheld⟩ := hleads
  obtain ⟨c', ms, hc', hsends⟩ :=
    Clp.migrateStateVariables_sends setup.rollbacks clock migrationMap
      (net.clp x) (fun e he => ⟨_, (hports e he).choose_spec.2⟩) hnodup hheld
  refine ⟨c', ms, hc', hsends,
    .depart x migrationMap ms hx hports hheld (fun y hy => ?_) ?_ fun a b => ?_⟩
  · rw [setClp_of_ne net c' hy]
    exact .refl _
  · rw [setClp_self]
    exact hsends
  · have hreceived : ((net.setClp x c').clp b).receiveLoadBalancingMessageQueue =
        (net.clp b).receiveLoadBalancingMessageQueue := by
      by_cases hb : b = x
      · subst hb
        rw [setClp_self, hsends.migrationsReceived]
      · rw [setClp_of_ne net c' hb]
    simp only [migrations, setClp_link, hreceived]
    by_cases ha : a = x
    · subst ha
      rw [setClp_self, hsends.migrationsSent]
      simp
    · rw [setClp_of_ne net c' ha]
      simp [ha]

/-- One CLP is at work in a step, or one link; where there is nothing to do the network
stays. -/
inductive Works (setup : Setup) (net : Network) : Event → Network → Output → Prop
  | alpSend (alp : Nat) (m : AlpMessage) :
      Works setup net (.alpSend alp m) (net.alpSend setup alp m).1 (net.alpSend setup alp m).2
  | deliver (source target : Nat) :
      Works setup net (.deliver source target) (net.deliver setup source target) .nothing
  | receive {x clock c r} (hx : x < setup.numberOfClps)
      (hreceive : (net.clp x).receive setup.rollbacks clock = .ok (c, r)) :
      Works setup net (.receive x clock) (net.setClp x c) (.received x r)
  | send {x c s} (hx : x < setup.numberOfClps) (hsend : (net.clp x).send = .ok (c, s)) :
      Works setup net (.send x) ((net.setClp x c).put x s) .nothing
  | setGvt {x gvt} (hx : x < setup.numberOfClps) :
      Works setup net (.setGvt x gvt) (net.setClp x ((net.clp x).setGvt gvt)) .nothing
  | migrate {x migrationMap clock c} (hx : x < setup.numberOfClps)
      (hmigrate : (net.clp x).migrateStateVariables setup.rollbacks clock migrationMap = .ok c) :
      Works setup net (.migrate x migrationMap clock) (net.setClp x c) .nothing
  | idle {e} : Works setup net e net .nothing

theorem works_of_step {e : Event} {o : Output} (h : net.step setup e = .ok (net', o)) :
    Works setup net e net' o := by
  cases e with
  | alpSend alp m =>
      have heq := Except.ok.inj h
      rw [Prod.ext_iff] at heq
      obtain ⟨rfl, rfl⟩ := heq
      exact .alpSend alp m
  | deliver source target =>
      cases h
      exact .deliver source target
  | receive x clock =>
      simp only [step] at h
      split at h
      · rename_i hx
        obtain ⟨⟨c, r⟩, hreceive, h⟩ := bind_eq_ok.mp h
        cases h
        exact .receive hx hreceive
      · cases h
        exact .idle
  | send x =>
      simp only [step] at h
      split at h
      · rename_i hx
        obtain ⟨⟨c, s⟩, hsend, h⟩ := bind_eq_ok.mp h
        cases h
        exact .send hx hsend
      · cases h
        exact .idle
  | setGvt x gvt =>
      simp only [step] at h
      split at h
      · rename_i hx
        cases h
        exact .setGvt hx
      · cases h
        exact .idle
  | migrate x migrationMap clock =>
      simp only [step] at h
      split at h
      · rename_i hx
        obtain ⟨c, hmigrate, h⟩ := bind_eq_ok.mp h
        cases h
        exact .migrate hx hmigrate
      · cases h
        exact .idle

theorem regular_step (h : Homed setup net) {e : Event} (hleads : LeadsToNeighbours setup net e) :
    Regular (net.step setup e) := by
  cases e with
  | alpSend alp m => exact regular_ok _
  | deliver source target => exact regular_ok _
  | receive x clock =>
      simp only [step]
      split
      · rename_i hx
        exact (moves_receive h hx clock).1.bind fun _ _ => regular_ok _
      · exact regular_ok _
  | send x =>
      simp only [step]
      split
      · exact (Clp.regular_send _).bind fun _ _ => regular_ok _
      · exact regular_ok _
  | setGvt x gvt =>
      simp only [step]
      split
      · exact regular_ok _
      · exact regular_ok _
  | migrate x migrationMap clock =>
      simp only [step]
      split
      · rename_i hx
        obtain ⟨c', _, hc', _⟩ := moves_migrate hx clock hleads
        rw [hc']
        exact regular_ok _
      · exact regular_ok _

/-- A step meets no exit of a shared state, and moves the variables as it may. -/
theorem moves_of_step (h : Homed setup net) {e : Event} (hleads : LeadsToNeighbours setup net e) :
    Regular (net.step setup e) ∧
      ∀ r, net.step setup e = .ok r → Moves setup net r.1 := by
  refine ⟨regular_step h hleads, ?_⟩
  rintro ⟨net', o⟩ hstep
  cases works_of_step hstep with
  | alpSend alp m => exact moves_alpSend alp m
  | deliver source target => exact moves_deliver h.wired source target
  | @receive x clock c r hx hreceive => exact (moves_receive h hx clock).2 _ hreceive
  | send hx hsend => exact moves_send (Clp.sending_of_send hsend)
  | @setGvt x gvt hx =>
      exact .stay (sameHome_setClp (sameHome_of_quiet (Clp.quiet_setGvt _ gvt)))
        (migrations_setClp net x _ (by rfl) (by rfl))
  | @migrate x migrationMap clock c hx hmigrate =>
      obtain ⟨c', _, hc', _, hmoves⟩ := moves_migrate hx clock hleads
      cases hc'.symm.trans hmigrate
      exact hmoves
  | idle => exact .stay (fun _ => .refl _) fun _ _ => rfl

/-- What a step does to one variable. -/
inductive Shifts (setup : Setup) (net net' : Network) (id : SsvId) : Prop
  | stay (holds : net'.holds id = net.holds id) (route : net'.route id = net.route id)
      (carried : ∀ i j, net'.carried id i j = net.carried id i j)
  | arrive (a x : Nat) (hx : x < setup.numberOfClps)
      (holds : net'.holds id = Function.update (net.holds id) x true)
      (route : net'.route id = Function.update (net.route id) x (some .HERE))
      (carried : ∀ i j, net.carried id i j =
        net'.carried id i j + if i = a ∧ j = x then 1 else 0)
  | depart (x t : Nat) (d : Direction) (hx : x < setup.numberOfClps)
      (ht : t < setup.numberOfClps)
      (hd : (net.clp x).routeTable.getRankFromDirection d = some t)
      (before : net.holds id x = true)
      (holds : net'.holds id = Function.update (net.holds id) x false)
      (route : net'.route id = Function.update (net.route id) x (some d))
      (carried : ∀ i j, net'.carried id i j =
        net.carried id i j + if i = x ∧ j = t then 1 else 0)

theorem SameHome.holds {y : Nat} (h : SameHome (net.clp y) (net'.clp y)) (id : SsvId) :
    net'.holds id y = net.holds id y := h.held.contains id

theorem SameHome.route {y : Nat} (h : SameHome (net.clp y) (net'.clp y)) (id : SsvId) :
    net'.route id y = net.route id y := h.routes id

theorem Moves.shifts (h : Moves setup net net') (id : SsvId) : Shifts setup net net' id := by
  cases h with
  | stay clps hmigrations =>
      exact .stay (funext fun y => (clps y).holds id) (funext fun y => (clps y).route id)
        fun i j => by rw [carried, carried, hmigrations]
  | arrive x m hx others _ _ hroutes hheld _ hhead hmigrations =>
      by_cases hid : m.stateVariableMap.contains id = true
      · refine .arrive m.origin x hx (funext fun y => ?_) (funext fun y => ?_) fun i j => ?_
        · by_cases hy : y = x
          · subst hy
            simp [holds, hheld id, hid]
          · rw [Function.update_of_ne hy, (others y hy).holds id]
        · by_cases hy : y = x
          · subst hy
            simp [route, hroutes id, hid]
          · rw [Function.update_of_ne hy, (others y hy).route id]
        · by_cases hij : i = m.origin ∧ j = x
          · obtain ⟨rfl, rfl⟩ := hij
            simp [carried, hhead, hid]
          · rw [if_neg hij, carried, carried, hmigrations i j (by tauto)]
            rfl
      · refine .stay (funext fun y => ?_) (funext fun y => ?_) fun i j => ?_
        · by_cases hy : y = x
          · subst hy
            simp [holds, hheld id, hid]
          · exact (others y hy).holds id
        · by_cases hy : y = x
          · subst hy
            simp [route, hroutes id, hid]
          · exact (others y hy).route id
        · by_cases hij : i = m.origin ∧ j = x
          · obtain ⟨rfl, rfl⟩ := hij
            simp [carried, hhead, hid]
          · rw [carried, carried, hmigrations i j (by tauto)]
  | depart x migrationMap ms hx hleads hbefore others hsends hmigrations =>
      by_cases hid : id ∈ migrationMap.flatMap Prod.snd
      · obtain ⟨e, he, hin⟩ := List.mem_flatMap.mp hid
        obtain ⟨t, ht, hd⟩ := hleads e he
        obtain ⟨hroute, hheld, hcount⟩ := hsends.moved e he id hin
        refine .depart x t e.1 hx ht hd (hbefore id hid) (funext fun y => ?_)
          (funext fun y => ?_) fun i j => ?_
        · by_cases hy : y = x
          · subst hy
            rw [Function.update_self]
            exact hheld
          · rw [Function.update_of_ne hy, (others y hy).holds id]
        · by_cases hy : y = x
          · subst hy
            rw [Function.update_self]
            exact hroute
          · rw [Function.update_of_ne hy, (others y hy).route id]
        · rw [carried, hmigrations, List.countP_append, carried]
          congr 1
          by_cases hi : i = x
          · subst hi
            rw [if_pos rfl, hcount j, hd]
            simp [eq_comm]
          · simp [hi]
      · obtain ⟨hroute, hheld, hnone⟩ := hsends.kept id hid
        refine .stay (funext fun y => ?_) (funext fun y => ?_) fun i j => ?_
        · by_cases hy : y = x
          · subst hy
            exact hheld
          · exact (others y hy).holds id
        · by_cases hy : y = x
          · subst hy
            exact hroute
          · exact (others y hy).route id
        · rw [carried, hmigrations, List.countP_append, carried]
          by_cases hi : i = x
          · rw [if_pos hi, Nat.add_eq_left, List.countP_eq_zero]
            intro m hm
            simp [hnone m (List.mem_filter.mp hm).1]
          · simp [hi]

theorem Tracks.stay {id : SsvId} {p : Place Nat} (h : Tracks setup net id p)
    (hholds : net'.holds id = net.holds id) (hroute : net'.route id = net.route id)
    (hcarried : ∀ i j, net'.carried id i j = net.carried id i j) : Tracks setup net' id p := by
  refine ⟨h.onTree, fun x hx => ?_, fun x hx => ?_, fun i j => ?_⟩
  · rw [hholds]
    exact h.held x hx
  · rw [hroute]
    exact h.route x hx
  · rw [hcarried]
    exact h.carried i j

/-- The place follows the variable, and goes elsewhere only when the variable departs. -/
theorem Tracks.shift {id : SsvId} {p : Place Nat} (h : Tracks setup net id p)
    (hwired : Wired setup net) (hshifts : Shifts setup net net' id) :
    ∃ p', Tracks setup net' id p' ∧
      (p'.target = p.target ∨ ∃ x t, p = .rest x ∧ p' = .move x t) := by
  cases hshifts with
  | stay hholds hroute hcarried => exact ⟨p, h.stay hholds hroute hcarried, .inl rfl⟩
  | arrive a x hx hholds hroute hcarried =>
      have hp : p = .move a x := by
        have hpos := h.carried a x
        rw [hcarried a x, if_pos ⟨rfl, rfl⟩] at hpos
        by_contra hne
        rw [if_neg hne] at hpos
        omega
      subst hp
      refine ⟨.rest x, ⟨hx, fun y hy => ?_, fun y hy => ?_, fun i j => ?_⟩, .inl rfl⟩
      · rw [hholds]
        by_cases hyx : y = x
        · simp [hyx]
        · rw [Function.update_of_ne hyx, h.held y hy]
          simp [Ne.symm hyx]
      · rw [hroute, TreeRouting.pointer_arrive (u := a)]
        by_cases hyx : y = x
        · simp [hyx, port]
        · rw [Function.update_of_ne hyx, Function.update_of_ne hyx]
          exact h.route y hy
      · have hold := h.carried i j
        rw [hcarried i j] at hold
        by_cases hij : i = a ∧ j = x
        · rw [if_pos hij, hij.1, hij.2, if_pos rfl] at hold
          simpa [hij] using hold
        · have hne : Place.move a x ≠ .move i j := by
            simp only [ne_eq, Place.move.injEq]
            tauto
          rw [if_neg hij, if_neg hne] at hold
          simpa using hold
  | depart x t d hx ht hd hbefore hholds hroute hcarried =>
      have hp : p = .rest x := (h.held x hx).mp hbefore
      subst hp
      obtain ⟨hadj, hport⟩ := (hwired.ports x hx d t ht).mp hd
      have hne : t ≠ x := Ne.symm hadj.ne
      refine ⟨.move x t, ⟨⟨hx, ht, hadj⟩, fun y hy => ?_, fun y hy => ?_, fun i j => ?_⟩,
        .inr ⟨x, t, rfl, rfl⟩⟩
      · rw [hholds]
        by_cases hyx : y = x
        · simp [hyx]
        · rw [Function.update_of_ne hyx, h.held y hy]
          simp [Ne.symm hyx]
      · rw [hroute, HeapTree.routing.pointer_depart hadj]
        by_cases hyx : y = x
        · simp [hyx, port, hne, hport]
        · rw [Function.update_of_ne hyx, Function.update_of_ne hyx]
          exact h.route y hy
      · rw [hcarried i j, h.carried i j]
        simp [eq_comm]

theorem Absent.shift {id : SsvId} (h : Absent setup net id)
    (hshifts : Shifts setup net net' id) : Absent setup net' id := by
  cases hshifts with
  | stay hholds hroute hcarried =>
      refine ⟨fun x hx => ?_, fun x hx => ?_, fun i j => ?_⟩
      · rw [hholds]
        exact h.held x hx
      · rw [hroute]
        exact h.route x hx
      · rw [hcarried]
        exact h.carried i j
  | arrive a x _ _ _ hcarried =>
      have hzero := h.carried a x
      rw [hcarried a x, if_pos ⟨rfl, rfl⟩] at hzero
      omega
  | depart x _ _ hx _ _ hbefore => simp [h.held x hx] at hbefore

theorem Moves.wiring (h : Moves setup net net') (x : Nat) :
    (net'.clp x).rank = (net.clp x).rank ∧
      (net'.clp x).routeTable.directionToRankMap = (net.clp x).routeTable.directionToRankMap ∧
      ((net.clp x).sharedState.Counted → (net'.clp x).sharedState.Counted) := by
  have hsame : SameHome (net.clp x) (net'.clp x) →
      (net'.clp x).rank = (net.clp x).rank ∧
      (net'.clp x).routeTable.directionToRankMap = (net.clp x).routeTable.directionToRankMap ∧
      ((net.clp x).sharedState.Counted → (net'.clp x).sharedState.Counted) :=
    fun h => ⟨h.rank, h.ports, fun hcounted => hcounted.same h.held⟩
  cases h with
  | stay clps => exact hsame (clps x)
  | arrive y m _ others hrank hports _ _ hcounted =>
      by_cases hx : x = y
      · subst hx
        exact ⟨hrank, hports, hcounted⟩
      · exact hsame (others x hx)
  | depart y _ _ _ _ _ others hsends =>
      by_cases hx : x = y
      · subst hx
        exact ⟨hsends.rank, hsends.ports, hsends.counted⟩
      · exact hsame (others x hx)

theorem Wired.move (h : Wired setup net) (hmoves : Moves setup net net') : Wired setup net' := by
  refine ⟨fun x hx => ?_, fun x hx => ?_, fun a b m hm => ?_, fun x hx => ?_⟩
  · rw [(hmoves.wiring x).1]
    exact h.rank x hx
  · rw [(hmoves.wiring x).2.1]
    exact h.ports x hx
  · cases hmoves with
    | stay _ hmigrations =>
        rw [hmigrations] at hm
        exact h.addressed a b m hm
    | arrive x m' _ _ _ _ _ _ _ hhead hmigrations =>
        by_cases hab : a ≠ m'.origin ∨ b ≠ x
        · rw [hmigrations a b hab] at hm
          exact h.addressed a b m hm
        · obtain ⟨rfl, rfl⟩ : a = m'.origin ∧ b = x := by tauto
          refine h.addressed _ _ m ?_
          rw [hhead]
          exact List.mem_cons_of_mem _ hm
    | depart x migrationMap ms hx hleads _ _ hsends hmigrations =>
        rw [hmigrations] at hm
        rcases List.mem_append.mp hm with hm | hm
        · exact h.addressed a b m hm
        · split at hm
          · rename_i ha
            obtain ⟨hms, hdestination⟩ := List.mem_filter.mp hm
            obtain ⟨horigin, e, he, hd⟩ := hsends.addressed m hms
            obtain ⟨t, ht, hd'⟩ := hleads e he
            have hb : m.destination = b := by simpa using hdestination
            refine ⟨?_, hb, ha ▸ hx, ?_⟩
            · rw [horigin, h.rank x hx, ha]
            · rw [hd, hb] at hd'
              exact Option.some.inj hd' ▸ ht
          · cases hm
  · exact (hmoves.wiring x).2.2 (h.counted x hx)

theorem Homed.move (h : Homed setup net) (hmoves : Moves setup net net') :
    Homed setup net' := by
  refine ⟨h.wired.move hmoves, fun id hid => ?_, fun id hid => ?_⟩
  · obtain ⟨p, hp⟩ := h.tracked id hid
    obtain ⟨p', hp', _⟩ := hp.shift h.wired (hmoves.shifts id)
    exact ⟨p', hp'⟩
  · exact (h.absent id hid).shift (hmoves.shifts id)

theorem initial_create (hplaces : setup.initialisor.PlacesOnce setup.numberOfClps)
    (hclps : ∀ rank, rank < setup.numberOfClps → (Clp.create setup rank).isOk = true) :
    Initial setup (create setup) := by
  refine ⟨hplaces, fun rank hrank => ?_, fun _ _ => rfl, fun rank => ?_⟩
  · have hok := hclps rank hrank
    simp only [create]
    split
    · assumption
    · rename_i herror
      simp [herror, Except.isOk, Except.toBool] at hok
  · simp only [create]
    split
    · exact Clp.create_queues (by assumption)
    · exact ⟨rfl, rfl, rfl, rfl⟩

theorem directionTo_eq_port (x host : Nat) :
    RouteTable.directionTo x host = port x (HeapTree.routing.pointer (.rest host) x) := by
  by_cases hx : x = host
  · simp [RouteTable.directionTo, port, TreeRouting.pointer, hx]
  · have hne : HeapTree.nextHop x host ≠ x := Ne.symm (HeapTree.adj_nextHop hx).ne
    rw [RouteTable.directionTo, if_neg (Ne.symm hx), TreeRouting.pointer, if_neg hx]
    exact (if_neg hne).symm

theorem Initial.migrations_nil (h : Initial setup net) (a b : Nat) : net.migrations a b = [] := by
  obtain ⟨_, _, hsent, _⟩ := h.queues a
  obtain ⟨_, _, _, hreceived⟩ := h.queues b
  simp [migrations, hsent, hreceived, h.links]

theorem Initial.homed (h : Initial setup net) : Homed setup net := by
  have hclp : ∀ x, x < setup.numberOfClps → _ := fun x hx =>
    (Clp.create_home x h.places).2 _ (h.clps x hx)
  have hroute : ∀ x, x < setup.numberOfClps → _ := fun x hx =>
    RouteTable.ssvs_create hx h.places (hclp x hx).2.2.2
  refine ⟨⟨fun x hx => (hclp x hx).1, fun x hx => ?_, fun a b m hm => ?_,
    fun x hx => (hclp x hx).2.1⟩, fun id hid => ?_, fun id hid => ⟨fun x hx => ?_, fun x hx => ?_,
      fun a b => ?_⟩⟩
  · exact RouteTable.portsLead_create hx (hclp x hx).2.2.2
  · rw [h.migrations_nil] at hm
    cases hm
  · obtain ⟨⟨host, _⟩, hplaced, rfl⟩ := List.mem_map.mp hid
    refine ⟨.rest host, h.places.2 _ hplaced, fun x hx => ?_, fun x hx => ?_, fun a b => ?_⟩
    · refine ((hclp x hx).2.2.1 _).trans ⟨fun hx => ?_, fun hx => ?_⟩
      · rw [h.places.unique hplaced hx]
      · obtain rfl := Place.rest.inj hx
        exact hplaced
    · exact ((hroute x hx).1 _ hplaced).trans (congrArg some (directionTo_eq_port x host))
    · simp [carried, h.migrations_nil]
  · rw [← Bool.not_eq_true]
    exact fun hheld => hid (List.mem_map_of_mem (((hclp x hx).2.2.1 id).mp hheld))
  · exact (hroute x hx).2 id hid
  · simp [carried, h.migrations_nil]

theorem machine_step {e : Event} {r : Network × Output} :
    (machine setup).step net e = some r ↔ net.step setup e = .ok r := by
  cases h : net.step setup e <;> simp [machine, h, Except.toOption]

/-- The variable is home in every state a run reaches. -/
theorem homed_of_reachable
    (h : (machine setup).Reachable (Initial setup) (LeadsToNeighbours setup) net) :
    Homed setup net := by
  refine h.invariant (Homed setup) (fun _ h => h.homed) fun net e net' o hhomed hleads hstep => ?_
  exact hhomed.move ((moves_of_step hhomed hleads).2 _ (machine_step.mp hstep))

/-- The route of `x` leads to the rank `y`. -/
def LeadsTo (net : Network) (id : SsvId) (x y : Nat) : Prop :=
  ∃ d, net.route id x = some d ∧ (net.clp x).routeTable.getRankFromDirection d = some y

/-- The variable is stored at `host` only, and no state migration carries it. -/
structure AtHost (setup : Setup) (net : Network) (id : SsvId) (host : Nat) : Prop where
  onTree : host < setup.numberOfClps
  stored : ∀ x, x < setup.numberOfClps → (net.holds id x = true ↔ x = host)
  carried : ∀ a b, net.carried id a b = 0
  here : ∀ x, x < setup.numberOfClps → (net.route id x = some .HERE ↔ x = host)
  towards : ∀ x, x < setup.numberOfClps → x ≠ host →
    net.LeadsTo id x (HeapTree.nextHop x host)

/-- The variable is stored nowhere, and one state migration carries it over an edge. -/
structure Crossing (setup : Setup) (net : Network) (id : SsvId) (source target : Nat) : Prop where
  onTree : source < setup.numberOfClps ∧ target < setup.numberOfClps
  edge : HeapTree.Adj source target
  stored : ∀ x, x < setup.numberOfClps → net.holds id x = false
  carried : ∀ a b, net.carried id a b = if a = source ∧ b = target then 1 else 0
  here : ∀ x, x < setup.numberOfClps → net.route id x ≠ some .HERE
  towards : ∀ x, x < setup.numberOfClps →
    net.LeadsTo id x (if x = target then source else HeapTree.nextHop x target)

theorem port_eq_here {x y : Nat} : port x y = .HERE ↔ y = x := by
  rw [port]
  split
  · simp [*]
  · simp [*, RouteTable.portOf_ne_here]

theorem pointer_lt {p : Place Nat} {x : Nat} (hp : OnTree setup.numberOfClps p)
    (hx : x < setup.numberOfClps) : HeapTree.routing.pointer p x < setup.numberOfClps := by
  have hhop : ∀ y, y < setup.numberOfClps → HeapTree.nextHop x y < setup.numberOfClps :=
    fun y hy => Nat.lt_of_le_of_lt (HeapTree.nextHop_le_max x y) (Nat.max_lt.mpr ⟨hx, hy⟩)
  cases p with
  | rest host =>
      rw [TreeRouting.pointer]
      split
      · exact hp
      · exact hhop host hp
  | move source target =>
      rw [TreeRouting.pointer]
      split
      · exact hp.1
      · exact hhop target hp.2.1

theorem Tracks.leadsTo {id : SsvId} {p : Place Nat} (h : Tracks setup net id p)
    (hwired : Wired setup net) {x : Nat} (hx : x < setup.numberOfClps) (hp : p ≠ .rest x) :
    net.LeadsTo id x (HeapTree.routing.pointer p x) := by
  have hadj := pointer_ne_self h.onTree hp
  refine ⟨_, h.route x hx, (hwired.ports x hx _ _ (pointer_lt h.onTree hx)).mpr ⟨hadj, ?_⟩⟩
  rw [port, if_neg (Ne.symm hadj.ne)]

theorem Tracks.atHost {id : SsvId} {host : Nat} (h : Tracks setup net id (.rest host))
    (hwired : Wired setup net) : AtHost setup net id host := by
  refine ⟨h.onTree, fun x hx => ?_, fun a b => ?_, fun x hx => ?_, fun x hx hne => ?_⟩
  · rw [h.held x hx, Place.rest.injEq, eq_comm]
  · simpa using h.carried a b
  · rw [h.route x hx, Option.some.injEq, port_eq_here]
    constructor
    · intro hself
      by_contra hne
      exact (pointer_ne_self h.onTree fun heq => hne (Place.rest.inj heq).symm).ne hself.symm
    · rintro rfl
      simp [TreeRouting.pointer]
  · have hlead := h.leadsTo hwired hx fun heq => hne (Place.rest.inj heq).symm
    rwa [TreeRouting.pointer, if_neg hne] at hlead

theorem Tracks.crossing {id : SsvId} {source target : Nat}
    (h : Tracks setup net id (.move source target)) (hwired : Wired setup net) :
    Crossing setup net id source target := by
  obtain ⟨hsource, htarget, hadj⟩ := h.onTree
  refine ⟨⟨hsource, htarget⟩, hadj, fun x hx => ?_, fun a b => ?_, fun x hx => ?_,
    fun x hx => h.leadsTo hwired hx nofun⟩
  · rw [← Bool.not_eq_true, h.held x hx]
    nofun
  · rw [h.carried a b]
    simp [eq_comm]
  · rw [h.route x hx, Ne, Option.some.injEq, port_eq_here]
    exact fun hself => (pointer_ne_self h.onTree (x := x) nofun).ne hself.symm

/-- In every state a run reaches, each variable is stored at one CLP or carried by one
state migration, and the routes lead there; the migration map of a CLP takes
variables it holds, each once; and no step asks a shared state for a variable it
does not have or gives it one it has. -/
theorem single_home
    (h : (machine setup).Reachable (Initial setup) (LeadsToNeighbours setup) net) :
    (∀ id ∈ setup.initialisor.placements.map Prod.snd,
      (∃ host, AtHost setup net id host) ∨
        ∃ source target, Crossing setup net id source target) ∧
    (∀ x, x < setup.numberOfClps →
      let ssvIds := (net.clp x).sharedState.accessCostCalculator.getMigrationMap.flatMap Prod.snd
      ssvIds.Nodup ∧ ∀ id ∈ ssvIds, (net.clp x).sharedState.containsVariable id = true) ∧
    (∀ rank, Clp.create setup rank ≠ .error .alreadyExists) ∧
    ∀ e, LeadsToNeighbours setup net e →
      net.step setup e ≠ .error .doesNotExist ∧ net.step setup e ≠ .error .alreadyExists := by
  have hhomed := homed_of_reachable h
  have hplaces : setup.initialisor.PlacesOnce setup.numberOfClps :=
    h.invariant (fun _ => _) (fun _ h => h.places) fun _ _ _ _ hplaces _ _ => hplaces
  refine ⟨fun id hid => ?_, fun x hx => ?_, fun rank herror => ?_, fun e hleads => ?_⟩
  · obtain ⟨p, hp⟩ := hhomed.tracked id hid
    cases p with
    | rest host => exact .inl ⟨host, hp.atHost hhomed.wired⟩
    | move source target => exact .inr ⟨source, target, hp.crossing hhomed.wired⟩
  · have hcounted := hhomed.wired.counted x hx
    obtain ⟨hnodup, hmem⟩ := AccessCostCalculator.getMigrationMap_nodup hcounted.nodup
    exact ⟨hnodup, fun id hid => (hcounted.mem_iff id).mp (hmem id hid)⟩
  · cases (Clp.create_home rank hplaces).1 _ herror
  · have hregular := (moves_of_step hhomed hleads).1
    exact ⟨fun herror => absurd (hregular _ herror) nofun,
      fun herror => absurd (hregular _ herror) nofun⟩

instance (net : Network) : ∀ e, Decidable (LeadsToNeighbours setup net e)
  | .migrate .. => inferInstanceAs (Decidable (_ ∧ _ ∧ _))
  | .alpSend .. | .deliver .. | .receive .. | .send _ | .setGvt .. =>
      inferInstanceAs (Decidable True)

/-- Two CLPs, an ALP at the second one, and a variable at the first. -/
def pair : Setup where
  numberOfClps := 2
  startTime := 0
  initialisor :=
    { clpToSsvMap := (∅ : Std.TreeMap Nat (List SsvId)).insert 0 [7]
      alpToClpMap := (∅ : Std.TreeMap Nat Nat).insert 2 1
      clpSsvIdValueMap := (∅ : Std.TreeMap SsvId AbstractValue).insert 7 (.valueINT 0) }
  isParentClp rank := rank == 1
  portThreshold := 0
  rangeRoutingTable := fun _ => .empty
  rollbacks := RollbackList.calls

theorem initial_pair : Initial pair (create pair) := by
  refine initial_create ⟨by decide, by decide⟩ fun rank hrank => ?_
  have : rank = 0 ∨ rank = 1 := by
    have : rank < 2 := hrank
    omega
  rcases this with rfl | rfl
  · decide
  · decide

theorem single_home_of_migration : ∃ net outputs,
    (machine pair).run (create pair) [.migrate 0 [(.LEFT, [7])] fun _ => 0, .send 0, .deliver 0 1]
      = some (net, outputs) ∧
    ((∃ host, AtHost pair net 7 host) ∨ ∃ source target, Crossing pair net 7 source target) :=
  ⟨_, _, rfl, (single_home (Machine.Reachable.run (.start initial_pair)
    (show (machine pair).Meets (LeadsToNeighbours pair) (create pair)
      [.migrate 0 [(.LEFT, [7])] fun _ => 0, .send 0, .deliver 0 1] by decide) rfl)).1 7
    (by decide)⟩

end PdesMas.Network
