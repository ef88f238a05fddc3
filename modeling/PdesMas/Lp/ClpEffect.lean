import PdesMas.Lp.ClpNetwork

/-!
What the steps of a CLP change. Handling a message touches neither routes nor the
set of variables and queues answers only. A state migration takes its variables
out at one end and enters them at the other, and no exit of the shared state is
met as long as the variables are where the routes say.
-/

namespace PdesMas

/-- The computation does not end in an exit of the shared state. -/
def Regular {α : Type} (x : Except Exit α) : Prop := ∀ e, x = .error e → e = .other

theorem bind_eq_ok {α β : Type} {x : Except Exit α} {f : α → Except Exit β} {b : β} :
    x >>= f = .ok b ↔ ∃ a, x = .ok a ∧ f a = .ok b := by
  cases x with
  | error e => simp [bind, Except.bind]
  | ok a => simp [bind, Except.bind]

@[simp] theorem orExit_eq_ok {α : Type} {e : Exit} {o : Option α} {a : α} :
    orExit e o = .ok a ↔ o = some a := by
  cases o <;> simp [orExit]

theorem regular_ok {α : Type} (a : α) : Regular (.ok a : Except Exit α) := nofun

theorem regular_other {α : Type} : Regular (.error .other : Except Exit α) := by
  intro e h
  cases h
  rfl

theorem regular_orExit {α : Type} (o : Option α) : Regular (orExit .other o) := by
  cases o with
  | none => exact regular_other
  | some a => exact regular_ok a

theorem Regular.bind {α β : Type} {x : Except Exit α} {f : α → Except Exit β} (hx : Regular x)
    (hf : ∀ a, x = .ok a → Regular (f a)) : Regular (x >>= f) := by
  cases x with
  | error e => exact fun e' h => hx e' (by simpa [Bind.bind, Except.bind] using h)
  | ok a => exact hf a rfl

/-- An answer, for the ALP of the agent. -/
def Content.isReply : Content → Bool
  | .agent .. => false
  | .response _ | .rollback _ => true

namespace Clp

/-- `c'` has queued answers, and may differ in its variables and their routes. -/
structure Answers (c c' : Clp) : Prop where
  rank : c'.rank = c.rank
  ports : c'.routeTable.directionToRankMap = c.routeTable.directionToRankMap
  received : c'.receiveMessageQueue = c.receiveMessageQueue
  migrationsReceived :
    c'.receiveLoadBalancingMessageQueue = c.receiveLoadBalancingMessageQueue
  migrationsSent : c'.sendLoadBalancingMessageQueue = c.sendLoadBalancingMessageQueue
  replies : ∃ l, c'.sendMessageQueue = c.sendMessageQueue ++ l ∧
    ∀ m ∈ l, m.content.isReply = true

/-- Nor do the variables and the routes differ. -/
structure Quiet (c c' : Clp) : Prop extends Answers c c' where
  routes : c'.routeTable = c.routeTable
  held : c.sharedState.SameVariables c'.sharedState

variable {c c' c'' : Clp}

theorem Answers.refl (c : Clp) : Answers c c :=
  ⟨rfl, rfl, rfl, rfl, rfl, [], by simp, nofun⟩

theorem Answers.trans (h : Answers c c') (h' : Answers c' c'') : Answers c c'' := by
  obtain ⟨l, hl, hreply⟩ := h.replies
  obtain ⟨l', hl', hreply'⟩ := h'.replies
  refine ⟨h'.rank.trans h.rank, h'.ports.trans h.ports, h'.received.trans h.received,
    h'.migrationsReceived.trans h.migrationsReceived, h'.migrationsSent.trans h.migrationsSent,
    l ++ l', by rw [hl', hl, List.append_assoc], ?_⟩
  intro m hm
  rcases List.mem_append.mp hm with hm | hm
  · exact hreply m hm
  · exact hreply' m hm

theorem Quiet.refl (c : Clp) : Quiet c c := ⟨.refl c, rfl, .refl _⟩

theorem Quiet.trans (h : Quiet c c') (h' : Quiet c' c'') : Quiet c c'' :=
  ⟨h.toAnswers.trans h'.toAnswers, h'.routes.trans h.routes, h.held.trans h'.held⟩

theorem quiet_sharedState (c : Clp) {s : SharedState} (h : c.sharedState.SameVariables s) :
    Quiet c { c with sharedState := s } :=
  ⟨⟨rfl, rfl, rfl, rfl, rfl, [], by simp, nofun⟩, rfl, h⟩

theorem quiet_sendResponse (c : Clp) (m : ResponseMessage) : Quiet c (c.sendResponse m) := by
  refine ⟨⟨rfl, rfl, rfl, rfl, rfl, _, rfl, ?_⟩, rfl, .refl _⟩
  intro a ha
  obtain rfl := List.mem_singleton.mp ha
  rfl

theorem quiet_sendRollbacks (c : Clp) (list : List (LpId × Nat)) (tag : RollbackTag)
    (delay : Nat) : Quiet c (c.sendRollbacks list tag delay) := by
  refine ⟨⟨rfl, rfl, rfl, rfl, rfl, _, rfl, ?_⟩, rfl, .refl _⟩
  intro m hm
  obtain ⟨r, _, rfl⟩ := List.mem_map.mp hm
  rfl

theorem quiet_clearRangeUpdates (c : Clp) : Quiet c c.clearRangeUpdates :=
  quiet_sharedState c ⟨fun _ => rfl, rfl⟩

theorem quiet_updateAccessCount {ssvId : SsvId} {agent : LpId} {numberOfHops : Nat}
    (h : c.updateAccessCount ssvId agent numberOfHops = .ok c') : Quiet c c' := by
  obtain ⟨direction, _, h⟩ := bind_eq_ok.mp h
  cases h
  exact quiet_sharedState c (c.sharedState.updateAccessCount_sameVariables _ _ _)

theorem quiet_setGvt (c : Clp) (gvt : Nat) : Quiet c (c.setGvt gvt) :=
  ⟨⟨rfl, rfl, rfl, rfl, rfl, [], by simp [setGvt], nofun⟩, rfl,
    c.sharedState.removeWritePeriods_sameVariables gvt⟩

theorem addSsvs_contains (initialisor : Initialisor) (startTime : Nat) (l : List SsvId)
    (s : SharedState) (hnodup : l.Nodup) (habsent : ∀ id ∈ l, s.containsVariable id = false) :
    Regular (addSsvs initialisor startTime l s) ∧
      ∀ s', addSsvs initialisor startTime l s = .ok s' →
        (∀ id, s'.containsVariable id = (decide (id ∈ l) || s.containsVariable id)) ∧
        (s.Counted → s'.Counted) := by
  induction l generalizing s with
  | nil =>
      refine ⟨regular_ok _, fun s' h => ?_⟩
      cases h
      exact ⟨fun id => by simp, fun h => h⟩
  | cons ssvId l ih =>
      obtain ⟨hnew, hnodup⟩ := List.nodup_cons.mp hnodup
      have hrest : ∀ value, ∃ s₁, s.add ssvId value startTime ⟨0, 0⟩ = some s₁ ∧
          (∀ id, s₁.containsVariable id = (decide (id = ssvId) || s.containsVariable id)) ∧
          (s.Counted → s₁.Counted) ∧ ∀ id ∈ l, s₁.containsVariable id = false := by
        intro value
        obtain ⟨s₁, hs₁, hcontains, hcounted⟩ :=
          SharedState.add_of_absent (habsent ssvId List.mem_cons_self) value startTime ⟨0, 0⟩
        refine ⟨s₁, hs₁, hcontains, hcounted, fun id hid => ?_⟩
        rw [hcontains, habsent id (List.mem_cons_of_mem _ hid)]
        simpa using ne_of_mem_of_not_mem hid hnew
      constructor
      · refine (regular_orExit _).bind fun value _ => ?_
        obtain ⟨s₁, hs₁, _, _, habsent₁⟩ := hrest value
        rw [hs₁]
        exact (ih s₁ hnodup habsent₁).1
      · intro s' h
        obtain ⟨value, _, h⟩ := bind_eq_ok.mp h
        obtain ⟨s₁, hs₁, hcontains, hcounted, habsent₁⟩ := hrest value
        rw [hs₁] at h
        obtain ⟨hcontains', hcounted'⟩ := (ih s₁ hnodup habsent₁).2 s' h
        refine ⟨fun id => ?_, fun h => hcounted' (hcounted h)⟩
        rw [hcontains', hcontains]
        by_cases hid : id = ssvId
        · simp [hid]
        · simp [hid]

theorem create_queues {setup : Setup} {rank : Nat} {c : Clp} (h : create setup rank = .ok c) :
    c.sendMessageQueue = [] ∧ c.receiveMessageQueue = [] ∧
      c.sendLoadBalancingMessageQueue = [] ∧ c.receiveLoadBalancingMessageQueue = [] := by
  obtain ⟨s, _, h⟩ := bind_eq_ok.mp h
  obtain ⟨t, _, h⟩ := bind_eq_ok.mp h
  cases h
  exact ⟨rfl, rfl, rfl, rfl⟩

/-- A CLP as its constructor leaves it. -/
theorem create_home {setup : Setup} (rank : Nat)
    (hplaces : setup.initialisor.PlacesOnce setup.numberOfClps) :
    Regular (create setup rank) ∧ ∀ c, create setup rank = .ok c →
      c.rank = rank ∧ c.sharedState.Counted ∧
      (∀ id, c.sharedState.containsVariable id = true ↔
        (rank, id) ∈ setup.initialisor.placements) ∧
      RouteTable.create rank setup.numberOfClps setup.initialisor = some c.routeTable := by
  obtain ⟨hregular, hcontains⟩ := addSsvs_contains setup.initialisor setup.startTime
    (setup.initialisor.ssvsOf rank)
    (.create (setup.rangeRoutingTable rank)
      (.create (setup.isParentClp rank) setup.portThreshold))
    (hplaces.ssvsOf_nodup rank) fun id _ => SharedState.create_containsVariable _ _ id
  constructor
  · exact hregular.bind fun _ _ => (regular_orExit _).bind fun _ _ => regular_ok _
  · intro c h
    obtain ⟨s, hs, h⟩ := bind_eq_ok.mp h
    obtain ⟨t, ht, h⟩ := bind_eq_ok.mp h
    cases h
    obtain ⟨hids, hcounted⟩ := hcontains s hs
    refine ⟨rfl, hcounted (SharedState.counted_create _ _ _), fun id => ?_, orExit_eq_ok.mp ht⟩
    rw [← Initialisor.mem_ssvsOf, hids id, SharedState.create_containsVariable]
    simp

section Process

variable {rollbacks : RollbackList → List (LpId × Nat)} {clock : SsvId → Nat}

theorem quiet_processSingleRead {ssvId : SsvId} {m : SharedStateMessage} {numberOfHops : Nat}
    (h : c.processSingleRead ssvId m numberOfHops = .ok c') : Quiet c c' := by
  simp only [processSingleRead] at h
  split at h
  · cases h
    exact .refl c
  · obtain ⟨_, _, h⟩ := bind_eq_ok.mp h
    obtain ⟨r, hr, h⟩ := bind_eq_ok.mp h
    exact ((quiet_sharedState c (SharedState.read_sameVariables (orExit_eq_ok.mp hr))).trans
      (quiet_sendResponse _ _)).trans (quiet_updateAccessCount h)

theorem quiet_processWrite {ssvId : SsvId} {value : AbstractValue} {m : SharedStateMessage}
    {numberOfHops : Nat}
    (h : c.processWrite rollbacks clock ssvId value m numberOfHops = .ok c') : Quiet c c' := by
  obtain ⟨_, _, h⟩ := bind_eq_ok.mp h
  obtain ⟨r, hr, h⟩ := bind_eq_ok.mp h
  have hwrite := SharedState.writeWithRollback_sameVariables (orExit_eq_ok.mp hr)
  exact ((((quiet_clearRangeUpdates c).trans (quiet_sharedState _ hwrite)).trans
    (quiet_sendResponse _ _)).trans (quiet_sendRollbacks _ _ _ _)).trans
      ((quiet_clearRangeUpdates _).trans (quiet_updateAccessCount h))

theorem quiet_processSingleReadAnti {ssvId : SsvId} {m : AntiMessage} {numberOfHops : Nat}
    (h : c.processSingleReadAnti ssvId m numberOfHops = .ok c') : Quiet c c' := by
  simp only [processSingleReadAnti] at h
  split at h
  · cases h
    exact .refl c
  · obtain ⟨_, _, h⟩ := bind_eq_ok.mp h
    obtain ⟨s, hs, h⟩ := bind_eq_ok.mp h
    have hrollback := SharedState.rollbackRead_sameVariables (orExit_eq_ok.mp hs)
    exact ((quiet_clearRangeUpdates c).trans (quiet_sharedState _ hrollback)).trans
      ((quiet_clearRangeUpdates _).trans (quiet_updateAccessCount h))

theorem quiet_processWriteAnti {ssvId : SsvId} {m : AntiMessage} {numberOfHops : Nat}
    (h : c.processWriteAnti rollbacks ssvId m numberOfHops = .ok c') : Quiet c c' := by
  simp only [processWriteAnti] at h
  split at h
  · cases h
    exact .refl c
  · obtain ⟨_, _, h⟩ := bind_eq_ok.mp h
    obtain ⟨r, hr, h⟩ := bind_eq_ok.mp h
    have hrollback := SharedState.rollbackWrite_sameVariables (orExit_eq_ok.mp hr)
    exact (((quiet_clearRangeUpdates c).trans (quiet_sharedState _ hrollback)).trans
      (quiet_sendRollbacks _ _ _ _)).trans
        ((quiet_clearRangeUpdates _).trans (quiet_updateAccessCount h))

theorem quiet_processMessage {m : AlpMessage} {numberOfHops : Nat}
    (h : c.processMessage rollbacks clock numberOfHops m = .ok c') : Quiet c c' := by
  cases m with
  | request m =>
      simp only [processMessage] at h
      split at h
      · exact quiet_processSingleRead h
      · exact quiet_processWrite h
      · cases h
  | anti m =>
      simp only [processMessage] at h
      split at h
      · exact quiet_processSingleReadAnti h
      · exact quiet_processWriteAnti h
      · cases h

theorem require_of_contains {ssvId : SsvId} (h : c.sharedState.containsVariable ssvId = true) :
    c.require ssvId = .ok () := if_pos h

theorem regular_updateAccessCount (c : Clp) (ssvId : SsvId) (agent : LpId) (numberOfHops : Nat) :
    Regular (c.updateAccessCount ssvId agent numberOfHops) :=
  (regular_orExit _).bind fun _ _ => regular_ok _

/-- A message for a variable the CLP holds meets no exit of the shared state. -/
theorem regular_processMessage {m : AlpMessage} {ssvId : SsvId} (numberOfHops : Nat)
    (hm : m.ssvId? = some ssvId) (h : c.sharedState.containsVariable ssvId = true) :
    Regular (c.processMessage rollbacks clock numberOfHops m) := by
  have hrequire : ∀ c' : Clp, c'.sharedState.containsVariable ssvId = true →
      Regular (c'.require ssvId) := fun c' h => require_of_contains h ▸ regular_ok ()
  cases m with
  | request m =>
      obtain ⟨identifier, timestamp, agent, kind⟩ := m
      cases kind with
      | singleRead id =>
          obtain rfl : id = ssvId := Option.some.inj hm
          simp only [processMessage, processSingleRead]
          split
          · exact regular_ok _
          · exact (hrequire c h).bind fun _ _ => (regular_orExit _).bind fun _ _ =>
              regular_updateAccessCount _ _ _ _
      | write id value =>
          obtain rfl : id = ssvId := Option.some.inj hm
          exact (hrequire c.clearRangeUpdates h).bind fun _ _ => (regular_orExit _).bind
            fun _ _ => regular_updateAccessCount _ _ _ _
      | rangeQuery range => cases hm
  | anti m =>
      obtain ⟨timestamp, agent, tag, kind⟩ := m
      cases kind with
      | singleReadAnti id =>
          obtain rfl : id = ssvId := Option.some.inj hm
          simp only [processMessage, processSingleReadAnti]
          split
          · exact regular_ok _
          · exact (hrequire c.clearRangeUpdates h).bind fun _ _ => (regular_orExit _).bind
              fun _ _ => regular_updateAccessCount _ _ _ _
      | writeAnti id =>
          obtain rfl : id = ssvId := Option.some.inj hm
          simp only [processMessage, processWriteAnti]
          split
          · exact regular_ok _
          · exact (hrequire c.clearRangeUpdates h).bind fun _ _ => (regular_orExit _).bind
              fun _ _ => regular_updateAccessCount _ _ _ _
      | rangeQueryAnti range identifier => cases hm

theorem quiet_sendReply (c : Clp) {m : SimulationMessage} (h : m.content.isReply = true) :
    Quiet c (c.sendToLp m) := by
  refine ⟨⟨rfl, rfl, rfl, rfl, rfl, _, rfl, ?_⟩, rfl, .refl _⟩
  intro a ha
  obtain rfl := List.mem_singleton.mp ha
  exact h

/-- What `Receive` does with a simulation message. -/
inductive Handles (c : Clp) : Content → Clp → Received → Prop
  | processed {serial numberOfHops m ssvId c'} (hid : m.ssvId? = some ssvId)
      (hhere : c.routeTable.getDirectionFromSsvId ssvId = some .HERE) (hquiet : Quiet c c') :
      Handles c (.agent serial numberOfHops m) c' (.processed serial m)
  | forwarded {serial numberOfHops m ssvId direction destination} (hid : m.ssvId? = some ssvId)
      (hroute : c.routeTable.getDirectionFromSsvId ssvId = some direction)
      (haway : direction ≠ .HERE)
      (hport : c.routeTable.getRankFromDirection direction = some destination) :
      Handles c (.agent serial numberOfHops m)
        (c.sendToLp ⟨c.rank, destination, .agent serial (numberOfHops + 1) m⟩) .forwarded
  | reply {content c' r} (hreply : content.isReply = true) (hquiet : Quiet c c')
      (hr : r = .forwarded ∨ r = .dropped) : Handles c content c' r

/-- Simulation messages leave the state migrations alone. -/
theorem Handles.migrations {content : Content} {r : Received} (h : Handles c content c' r) :
    c'.receiveLoadBalancingMessageQueue = c.receiveLoadBalancingMessageQueue ∧
      c'.sendLoadBalancingMessageQueue = c.sendLoadBalancingMessageQueue := by
  cases h with
  | processed _ _ hquiet | reply _ hquiet _ =>
      exact ⟨hquiet.migrationsReceived, hquiet.migrationsSent⟩
  | forwarded => exact ⟨rfl, rfl⟩

theorem handles_of_routeToAgent {agent : LpId} {content : Content} {r : Received}
    (hreply : content.isReply = true) (h : c.routeToAgent agent content = .ok (c', r)) :
    Handles c content c' r := by
  obtain ⟨direction, _, h⟩ := bind_eq_ok.mp h
  split at h
  · cases h
    exact .reply hreply (.refl c) (.inr rfl)
  · obtain ⟨destination, _, h⟩ := bind_eq_ok.mp h
    cases h
    exact .reply hreply (quiet_sendReply c hreply) (.inl rfl)

theorem handles_of_receiveSimulation {content : Content} {r : Received}
    (h : c.receiveSimulation rollbacks clock content = .ok (c', r)) : Handles c content c' r := by
  cases content with
  | agent serial numberOfHops m =>
      obtain ⟨ssvId, hid, h⟩ := bind_eq_ok.mp h
      obtain ⟨direction, hroute, h⟩ := bind_eq_ok.mp h
      split at h
      · rename_i hhere
        obtain ⟨c₁, hprocess, h⟩ := bind_eq_ok.mp h
        cases h
        exact .processed (orExit_eq_ok.mp hid) (hhere ▸ orExit_eq_ok.mp hroute)
          (quiet_processMessage hprocess)
      · rename_i haway
        obtain ⟨destination, hport, h⟩ := bind_eq_ok.mp h
        cases h
        exact .forwarded (orExit_eq_ok.mp hid) (orExit_eq_ok.mp hroute) haway
          (orExit_eq_ok.mp hport)
  | response m => exact handles_of_routeToAgent rfl h
  | rollback m => exact handles_of_routeToAgent rfl h

theorem regular_routeToAgent (c : Clp) (agent : LpId) (content : Content) :
    Regular (c.routeToAgent agent content) := by
  refine (regular_orExit _).bind fun direction _ => ?_
  split
  · exact regular_ok _
  · exact (regular_orExit _).bind fun _ _ => regular_ok _

/-- A CLP that holds what its routes say is here meets no exit of the shared state. -/
theorem regular_receiveSimulation (c : Clp) (content : Content)
    (h : ∀ id, c.routeTable.getDirectionFromSsvId id = some .HERE →
      c.sharedState.containsVariable id = true) :
    Regular (c.receiveSimulation rollbacks clock content) := by
  cases content with
  | agent serial numberOfHops m =>
      refine (regular_orExit _).bind fun ssvId hid => ?_
      refine (regular_orExit _).bind fun direction hroute => ?_
      split
      · rename_i hhere
        have hheld := h ssvId (hhere ▸ orExit_eq_ok.mp hroute)
        exact (regular_processMessage _ (orExit_eq_ok.mp hid) hheld).bind fun _ _ => regular_ok _
      · exact (regular_orExit _).bind fun _ _ => regular_ok _
  | response m => exact regular_routeToAgent c _ _
  | rollback m => exact regular_routeToAgent c _ _

/-- What a state migration does at its target: its variables are entered, and found here. -/
structure Enters (ssvIds : List SsvId) (c c' : Clp) : Prop extends Answers c c' where
  routes : ∀ id, c'.routeTable.getDirectionFromSsvId id =
    if id ∈ ssvIds then some .HERE else c.routeTable.getDirectionFromSsvId id
  held : ∀ id, c'.sharedState.containsVariable id =
    (decide (id ∈ ssvIds) || c.sharedState.containsVariable id)
  counted : c.sharedState.Counted → c'.sharedState.Counted

theorem processStateMigration_enters (rollbacks : RollbackList → List (LpId × Nat))
    (clock : SsvId → Nat) (l : List (SsvId × StateVariable AbstractValue)) (c : Clp)
    (hnodup : (l.map Prod.fst).Nodup)
    (habsent : ∀ id ∈ l.map Prod.fst, c.sharedState.containsVariable id = false) :
    ∃ c', processStateMigration rollbacks clock l c = .ok c' ∧
      Enters (l.map Prod.fst) c c' := by
  induction l generalizing c with
  | nil => exact ⟨c, rfl, .refl c, fun id => by simp, fun id => by simp, id⟩
  | cons e l ih =>
      obtain ⟨ssvId, sv⟩ := e
      obtain ⟨hnew, hnodup⟩ := List.nodup_cons.mp hnodup
      obtain ⟨r, hr, hheld, hcounted⟩ :=
        SharedState.insert_of_absent (habsent ssvId (by simp)) sv .empty
      let c₁ : Clp :=
        { c with
          routeTable := c.routeTable.setSsvIdHost ssvId .HERE
          sharedState := r.1 }
      let c₂ := (c₁.sendRollbacks (rollbacks r.2.2)
        ⟨ssvId, ULONG_MAX, ROLLBACK_BY_SM, clock ssvId⟩ 0).clearRangeUpdates
      have hquiet : Quiet c₁ c₂ :=
        (quiet_sendRollbacks _ _ _ _).trans (quiet_clearRangeUpdates _)
      have hanswers : Answers c c₁ := ⟨rfl, rfl, rfl, rfl, rfl, [], by simp [c₁], nofun⟩
      obtain ⟨c', hc', hanswers', hroutes', hheld', hcounted'⟩ := ih c₂ hnodup fun id hid => by
        rw [hquiet.held.contains id, hheld id, habsent id (List.mem_cons_of_mem _ hid)]
        simpa using ne_of_mem_of_not_mem hid hnew
      refine ⟨c', ?_, (hanswers.trans hquiet.toAnswers).trans hanswers', fun id => ?_, fun id => ?_,
        fun h => hcounted' ((hcounted h).same hquiet.held)⟩
      · simp only [processStateMigration]
        refine bind_eq_ok.mpr ⟨r, ?_, hc'⟩
        exact orExit_eq_ok.mpr hr
      · rw [hroutes' id, hquiet.routes, List.map_cons]
        by_cases hid : ssvId = id
        · simp [c₁, hid]
        · simp only [c₁, RouteTable.getDirectionFromSsvId_set, hid, ite_false, List.mem_cons,
            Ne.symm hid, false_or]
      · rw [hheld' id, hquiet.held.contains id, hheld id, List.map_cons]
        by_cases hid : ssvId = id
        · simp [hid]
        · simp only [List.mem_cons, Ne.symm hid, false_or, decide_false, Bool.false_or]

/-- What `MigrateStateVariables` does to the variables it sends in one direction. -/
structure Leaves (direction : Direction) (ssvIds : List SsvId) (c c' : Clp) : Prop
    extends Answers c c' where
  routes : ∀ id, c'.routeTable.getDirectionFromSsvId id =
    if id ∈ ssvIds then some direction else c.routeTable.getDirectionFromSsvId id
  held : ∀ id, c'.sharedState.containsVariable id =
    (decide (id ∉ ssvIds) && c.sharedState.containsVariable id)
  counted : c.sharedState.Counted → c'.sharedState.Counted

theorem takeOut_leaves (rollbacks : RollbackList → List (LpId × Nat)) (clock : SsvId → Nat)
    (direction : Direction) (ssvIds : List SsvId) (c : Clp)
    (m : StateVariableMap) (hnodup : ssvIds.Nodup)
    (hheld : ∀ id ∈ ssvIds, c.sharedState.containsVariable id = true) :
    ∃ c' m', takeOut rollbacks clock direction ssvIds c m = .ok (c', m') ∧
      Leaves direction ssvIds c c' ∧
      ∀ id, m'.contains id = (decide (id ∈ ssvIds) || m.contains id) := by
  induction ssvIds generalizing c m with
  | nil =>
      exact ⟨c, m, rfl, ⟨.refl c, fun id => by simp, fun id => by simp, id⟩, fun id => by simp⟩
  | cons ssvId ssvIds ih =>
      obtain ⟨hnew, hnodup⟩ := List.nodup_cons.mp hnodup
      have hmem := hheld ssvId List.mem_cons_self
      obtain ⟨sv, hsv⟩ := SharedState.exists_of_containsVariable hmem
      obtain ⟨r, hr, hsame⟩ := SharedState.removeWritePeriodList_of_contains hmem .empty
      obtain ⟨s, hs, herased, hcounted⟩ :=
        SharedState.delete_of_contains ((hsame.contains ssvId).trans hmem)
      let c₁ : Clp :=
        { c with
          routeTable := c.routeTable.setSsvIdHost ssvId direction
          sharedState := s }
      let c₂ := (c₁.sendRollbacks (rollbacks r.2)
        ⟨ssvId, ULONG_MAX, ROLLBACK_BY_SM, clock ssvId⟩ 1).clearRangeUpdates
      have hquiet : Quiet c₁ c₂ :=
        (quiet_sendRollbacks _ _ _ _).trans (quiet_clearRangeUpdates _)
      have hanswers : Answers c c₁ := ⟨rfl, rfl, rfl, rfl, rfl, [], by simp [c₁], nofun⟩
      have hheld₂ : ∀ id, c₂.sharedState.containsVariable id =
          (decide (id ≠ ssvId) && c.sharedState.containsVariable id) := fun id => by
        rw [hquiet.held.contains id, herased id, hsame.contains id]
      obtain ⟨c', m', hc', ⟨hanswers', hroutes', hheld', hcounted'⟩, hm'⟩ :=
        ih c₂ (m.insertIfNew ssvId sv) hnodup fun id hid => by
          rw [hheld₂, hheld id (List.mem_cons_of_mem _ hid)]
          simpa using ne_of_mem_of_not_mem hid hnew
      refine ⟨c', m', ?_, ⟨(hanswers.trans hquiet.toAnswers).trans hanswers', fun id => ?_,
        fun id => ?_, fun h => hcounted' ((hcounted (h.same hsame)).same hquiet.held)⟩,
        fun id => ?_⟩
      · simp only [takeOut]
        refine bind_eq_ok.mpr ⟨sv, orExit_eq_ok.mpr hsv, ?_⟩
        refine bind_eq_ok.mpr ⟨r, orExit_eq_ok.mpr hr, ?_⟩
        exact bind_eq_ok.mpr ⟨s, orExit_eq_ok.mpr hs, hc'⟩
      · rw [hroutes' id, hquiet.routes]
        by_cases hid : ssvId = id
        · simp [c₁, hid]
        · simp [c₁, hid, Ne.symm hid]
      · rw [hheld' id, hheld₂ id]
        by_cases hid : id = ssvId
        · simp [hid]
        · simp [hid]
      · rw [hm' id, Std.TreeMap.contains_insertIfNew]
        by_cases hid : ssvId = id
        · simp [hid]
        · have hcompare : (compare ssvId id == .eq) = false := by simpa using hid
          simp [hcompare, Ne.symm hid]

/-- What `MigrateStateVariables` does: `ms` are the messages it queues. -/
structure Sends (migrationMap : List (Direction × List SsvId)) (c c' : Clp)
    (ms : List StateMigrationMessage) : Prop where
  rank : c'.rank = c.rank
  ports : c'.routeTable.directionToRankMap = c.routeTable.directionToRankMap
  received : c'.receiveMessageQueue = c.receiveMessageQueue
  migrationsReceived :
    c'.receiveLoadBalancingMessageQueue = c.receiveLoadBalancingMessageQueue
  migrationsSent : c'.sendLoadBalancingMessageQueue = c.sendLoadBalancingMessageQueue ++ ms
  replies : ∃ l, c'.sendMessageQueue = c.sendMessageQueue ++ l ∧
    ∀ m ∈ l, m.content.isReply = true
  addressed : ∀ m ∈ ms, m.origin = c.rank ∧
    ∃ e ∈ migrationMap, c.routeTable.getRankFromDirection e.1 = some m.destination
  kept : ∀ id, id ∉ migrationMap.flatMap Prod.snd →
    c'.routeTable.getDirectionFromSsvId id = c.routeTable.getDirectionFromSsvId id ∧
    c'.sharedState.containsVariable id = c.sharedState.containsVariable id ∧
    ∀ m ∈ ms, m.stateVariableMap.contains id = false
  moved : ∀ e ∈ migrationMap, ∀ id ∈ e.2,
    c'.routeTable.getDirectionFromSsvId id = some e.1 ∧
    c'.sharedState.containsVariable id = false ∧
    ∀ target, (ms.filter fun m => m.destination = target).countP
        (fun m => m.stateVariableMap.contains id) =
      if c.routeTable.getRankFromDirection e.1 = some target then 1 else 0
  counted : c.sharedState.Counted → c'.sharedState.Counted

theorem migrateStateVariables_sends (rollbacks : RollbackList → List (LpId × Nat))
    (clock : SsvId → Nat) (migrationMap : List (Direction × List SsvId)) (c : Clp)
    (hports : ∀ e ∈ migrationMap, ∃ target,
      c.routeTable.getRankFromDirection e.1 = some target)
    (hnodup : (migrationMap.flatMap Prod.snd).Nodup)
    (hheld : ∀ id ∈ migrationMap.flatMap Prod.snd,
      c.sharedState.containsVariable id = true) :
    ∃ c' ms, migrateStateVariables rollbacks clock migrationMap c = .ok c' ∧
      Sends migrationMap c c' ms := by
  induction migrationMap generalizing c with
  | nil =>
      exact ⟨c, [], rfl, rfl, rfl, rfl, rfl, by simp, ⟨[], by simp, nofun⟩, nofun,
        fun id _ => ⟨rfl, rfl, nofun⟩, nofun, id⟩
  | cons e rest ih =>
      obtain ⟨direction, ssvIds⟩ := e
      rw [List.flatMap_cons, List.nodup_append] at hnodup
      obtain ⟨hids, hrest, hdisjoint⟩ := hnodup
      obtain ⟨target, htarget⟩ := hports (direction, ssvIds) List.mem_cons_self
      have hclear := quiet_clearRangeUpdates c
      obtain ⟨c₁, m₁, htake, ⟨hanswers₁, hroutes₁, hheld₁, hcounted₁⟩, hm₁⟩ :=
        takeOut_leaves rollbacks clock direction ssvIds
          c.clearRangeUpdates ∅ hids fun id hid => by
            rw [hclear.held.contains]
            exact hheld id (by simp [hid])
      let m : StateMigrationMessage := ⟨c.rank, target, m₁⟩
      let c₂ : Clp :=
        { c₁ with sendLoadBalancingMessageQueue := c₁.sendLoadBalancingMessageQueue ++ [m] }
      have hm : ∀ id, m.stateVariableMap.contains id = decide (id ∈ ssvIds) := fun id => by
        simpa using hm₁ id
      have hports₂ : ∀ d, c₂.routeTable.getRankFromDirection d =
          c.routeTable.getRankFromDirection d :=
        fun d => congrFun (hanswers₁.ports.trans hclear.ports) d
      have hroutes₂ : ∀ id, c₂.routeTable.getDirectionFromSsvId id =
          if id ∈ ssvIds then some direction else c.routeTable.getDirectionFromSsvId id := hroutes₁
      have hheld₂ : ∀ id, c₂.sharedState.containsVariable id =
          (decide (id ∉ ssvIds) && c.sharedState.containsVariable id) := hheld₁
      obtain ⟨c', ms, hrun, hsends⟩ := ih c₂
        (fun e he => by
          obtain ⟨t, ht⟩ := hports e (List.mem_cons_of_mem _ he)
          exact ⟨t, (hports₂ e.1).trans ht⟩)
        hrest
        (fun id hid => by
          have hout : id ∉ ssvIds := fun hin => hdisjoint id hin id hid rfl
          rw [hheld₂, hheld id (by simp only [List.flatMap_cons, List.mem_append]; exact .inr hid)]
          simpa using hout)
      refine ⟨c', m :: ms, ?_, ?_⟩
      · simp only [migrateStateVariables]
        exact bind_eq_ok.mpr ⟨target, orExit_eq_ok.mpr htarget,
          bind_eq_ok.mpr ⟨(c₁, m₁), htake, hrun⟩⟩
      · obtain ⟨l, hl, hreply⟩ := hanswers₁.replies
        obtain ⟨l', hl', hreply'⟩ := hsends.replies
        refine ⟨hsends.rank.trans hanswers₁.rank, hsends.ports.trans hanswers₁.ports,
          hsends.received.trans hanswers₁.received,
          hsends.migrationsReceived.trans hanswers₁.migrationsReceived, ?_, ?_, ?_, ?_, ?_,
          fun h => hsends.counted (hcounted₁ (h.same hclear.held))⟩
        · rw [hsends.migrationsSent]
          simp only [c₂, hanswers₁.migrationsSent, List.append_assoc, List.singleton_append]
          rfl
        · refine ⟨l ++ l', ?_, fun a ha => ?_⟩
          · rw [hl']
            simp only [c₂, hl, List.append_assoc]
            rfl
          · exact (List.mem_append.mp ha).elim (hreply a) (hreply' a)
        · intro a ha
          rcases List.mem_cons.mp ha with rfl | ha
          · exact ⟨rfl, _, List.mem_cons_self, htarget⟩
          · obtain ⟨horigin, e, he, hdestination⟩ := hsends.addressed a ha
            exact ⟨horigin.trans hanswers₁.rank, e, List.mem_cons_of_mem _ he,
              (hports₂ e.1).symm.trans hdestination⟩
        · intro id hid
          rw [List.flatMap_cons, List.mem_append, not_or] at hid
          obtain ⟨hroute, hholds, hnone⟩ := hsends.kept id hid.2
          refine ⟨hroute.trans ?_, hholds.trans ?_, fun a ha => ?_⟩
          · rw [hroutes₂, if_neg hid.1]
          · rw [hheld₂, decide_eq_true hid.1, Bool.true_and]
          · rcases List.mem_cons.mp ha with rfl | ha
            · exact (hm id).trans (decide_eq_false hid.1)
            · exact hnone a ha
        · intro e he id hid
          rcases List.mem_cons.mp he with rfl | he
          · have hout : id ∉ rest.flatMap Prod.snd := fun h => hdisjoint id hid id h rfl
            obtain ⟨hroute, hholds, hnone⟩ := hsends.kept id hout
            refine ⟨hroute.trans (by rw [hroutes₂, if_pos hid]), ?_, fun x => ?_⟩
            · rw [hholds, hheld₂]
              simp [show id ∈ ssvIds from hid]
            · have hzero : (ms.filter fun m => m.destination = x).countP
                  (fun m => m.stateVariableMap.contains id) = 0 :=
                List.countP_eq_zero.mpr fun a ha => by simp [hnone a (List.mem_filter.mp ha).1]
              have hin : m.stateVariableMap.contains id = true := by
                rw [hm]
                exact decide_eq_true hid
              by_cases hx : target = x
              · simp [m, hx, hzero, hin, htarget]
              · simp [m, hx, hzero, htarget]
          · have hin : id ∈ rest.flatMap Prod.snd := List.mem_flatMap.mpr ⟨e, he, hid⟩
            obtain ⟨hroute, hholds, hcount⟩ := hsends.moved e he id hid
            refine ⟨hroute, hholds, fun x => ?_⟩
            have hout : m.stateVariableMap.contains id = false := by
              rw [hm]
              exact decide_eq_false fun h => hdisjoint id h id hin rfl
            rw [← hports₂ e.1, ← hcount x, List.filter_cons]
            split
            · exact List.countP_cons_of_neg (by simp [hout])
            · rfl

end Process
/-- What `Send` does: it takes the head of a queue, and may give it another destination. -/
inductive Sending (c : Clp) : Clp → Sent → Prop
  | nothing : Sending c c .nothing
  | simulation {m m' rest} (hqueue : c.sendMessageQueue = m :: rest)
      (hcontent : m'.content = m.content)
      (hagent : m.content.isReply = false → m' = m) :
      Sending c { c with sendMessageQueue := rest } (.simulation m')
  | migration {m rest} (hqueue : c.sendLoadBalancingMessageQueue = m :: rest) :
      Sending c { c with sendLoadBalancingMessageQueue := rest } (.migration m)

theorem reroute_content {c : Clp} {m m' : SimulationMessage} {agent : LpId}
    (h : c.reroute m agent = .ok m') : m'.content = m.content := by
  obtain ⟨direction, _, h⟩ := bind_eq_ok.mp h
  split at h
  · cases h
    rfl
  · obtain ⟨destination, _, h⟩ := bind_eq_ok.mp h
    cases h
    rfl

theorem regular_reroute (c : Clp) (m : SimulationMessage) (agent : LpId) :
    Regular (c.reroute m agent) := by
  refine (regular_orExit _).bind fun direction _ => ?_
  split
  · exact regular_ok _
  · exact (regular_orExit _).bind fun _ _ => regular_ok _

theorem sending_of_send {c c' : Clp} {r : Sent} (h : c.send = .ok (c', r)) :
    Sending c c' r := by
  simp only [send] at h
  split at h
  · rename_i m rest hqueue
    cases h
    exact .migration hqueue
  · split at h
    · rename_i m rest hqueue
      split at h
      · cases h
        exact .simulation hqueue rfl fun _ => rfl
      · rename_i r hr
        obtain ⟨m', hm', h⟩ := bind_eq_ok.mp h
        cases h
        exact .simulation hqueue (reroute_content hm') fun hagent => by
          simp [hr, Content.isReply] at hagent
      · rename_i r hr
        obtain ⟨m', hm', h⟩ := bind_eq_ok.mp h
        cases h
        exact .simulation hqueue (reroute_content hm') fun hagent => by
          simp [hr, Content.isReply] at hagent
    · cases h
      exact .nothing

theorem regular_send (c : Clp) : Regular c.send := by
  simp only [send]
  split
  · exact regular_ok _
  · split
    · split
      · exact regular_ok _
      · exact (regular_reroute _ _ _).bind fun _ _ => regular_ok _
      · exact (regular_reroute _ _ _).bind fun _ _ => regular_ok _
    · exact regular_ok _

end Clp
end PdesMas
