import PdesMas.Lp.CountedAccesses
import PdesMas.Lp.Letters
import PdesMas.Lp.RollbackMap
import PdesMas.State.LastingState

/-!
A CLP whose variables stay readable never ends its process. Whatever it takes that
comes in time it can handle, and what it queues then is for agents it can reach.
-/

namespace PdesMas

section Definitions

variable (known : LpId → Prop) (placed : SsvId → Prop) (floor : Nat)

/-- The message is not from before `floor`, and undoes no write at `floor`. -/
def AlpMessage.Timely : AlpMessage → Prop
  | .request m => floor ≤ m.timestamp ∧ m.timestamp < LONG_MAX
  | .anti m =>
      m.timestamp < LONG_MAX ∧
        match m.kind with
        | .writeAnti _ => floor < m.timestamp
        | .singleReadAnti _ | .rangeQueryAnti .. => floor ≤ m.timestamp

/-- A CLP can handle the content: an agent's message is about a variable there is, and an
answer for an agent there is. -/
def Content.Fits : Content → Prop
  | .agent _ _ m =>
      m.Timely floor ∧ known m.originalAgent ∧ ∃ ssvId, m.ssvId? = some ssvId ∧ placed ssvId
  | .response m => known m.originalAgent
  | .rollback m => known m.originalAgent

def StateMigrationMessage.Lasting (m : StateMigrationMessage) : Prop :=
  ∀ (id : SsvId) (sv : StateVariable AbstractValue),
    m.stateVariableMap[id]? = some sv → sv.Lasting known floor

/-- The entries of the map of a rollback list are for agents it was called with. -/
def CallsOnly (rollbacks : RollbackList → List (LpId × Nat)) : Prop :=
  ∀ list, ∀ e ∈ rollbacks list, ∃ t, (e.1, t) ∈ list.calls

/-- A direction that leads on: to the CLP itself, or to a process. -/
def Clp.Leads (c : Clp) (direction : Direction) : Prop :=
  direction ≠ .HERE → ∃ y, c.routeTable.getRankFromDirection direction = some y

/-- The routes of the CLP lead to the agents and the variables there are. -/
structure Clp.Directs (c : Clp) : Prop where
  agents : ∀ agent, known agent → ∃ direction,
    c.routeTable.getDirectionFromRank agent.rank = some direction ∧ c.Leads direction
  ssvs : ∀ ssvId, placed ssvId → ∃ direction,
    c.routeTable.getDirectionFromSsvId ssvId = some direction ∧ c.Leads direction ∧
      (direction = .HERE → c.sharedState.containsVariable ssvId = true)

/-- `c'` is as good as `c`, and has queued letters that can be handled. -/
structure Clp.Sustains (c c' : Clp) : Prop where
  lasting : c'.sharedState.Lasting known floor
  gvt : c'.gvt = c.gvt
  queues : ∃ l, Clp.Queues c c' l ∧ ∀ m ∈ l, m.content.Fits known placed floor

end Definitions

theorem callsOnly_content : CallsOnly RollbackList.content := by
  intro list e he
  exact ChainMap.key_of_mem_collect he

namespace Clp

variable {known : LpId → Prop} {placed : SsvId → Prop} {floor : Nat} {c c' c'' : Clp}
  {rollbacks : RollbackList → List (LpId × Nat)} {clock : SsvId → Nat}

theorem Sustains.trans (h : Sustains known placed floor c c')
    (h' : Sustains known placed floor c' c'') : Sustains known placed floor c c'' := by
  obtain ⟨l, hl, hfits⟩ := h.queues
  obtain ⟨l', hl', hfits'⟩ := h'.queues
  refine ⟨h'.lasting, h'.gvt.trans h.gvt, l ++ l', hl.trans hl', fun m hm => ?_⟩
  exact (List.mem_append.mp hm).elim (hfits m) (hfits' m)

theorem sustains_of_queues (h : c'.sharedState.Lasting known floor) (hgvt : c'.gvt = c.gvt)
    (hqueues : Queues c c' []) : Sustains known placed floor c c' := ⟨h, hgvt, [], hqueues, nofun⟩

theorem sustains_sharedState {s : SharedState} (h : s.Lasting known floor) :
    Sustains known placed floor c { c with sharedState := s } :=
  sustains_of_queues h rfl (queues_nil rfl rfl rfl rfl rfl)

theorem sustains_clearRangeUpdates (h : c.sharedState.Lasting known floor) :
    Sustains known placed floor c c.clearRangeUpdates :=
  sustains_sharedState ⟨h.stored, h.queries⟩

theorem sustains_sendResponse (h : c.sharedState.Lasting known floor) {m : ResponseMessage}
    (hagent : known m.originalAgent) :
    Sustains known placed floor c (c.sendResponse m) := by
  refine ⟨h, rfl, _, queues_sendResponse c m, fun m' hm' => ?_⟩
  obtain rfl := List.mem_singleton.mp hm'
  exact hagent

theorem sustains_sendRollbacks (hrollbacks : CallsOnly rollbacks)
    (h : c.sharedState.Lasting known floor) {list : RollbackList}
    (hlist : ∀ call ∈ list.calls, known call.1) (tag : RollbackTag) (delay : Nat) :
    Sustains known placed floor c (c.sendRollbacks (rollbacks list) tag delay) := by
  refine ⟨h, rfl, _, ⟨rfl, rfl, rfl, rfl, rfl⟩, fun m hm => ?_⟩
  obtain ⟨e, he, rfl⟩ := List.mem_map.mp hm
  obtain ⟨t, ht⟩ := hrollbacks list e he
  exact hlist (e.1, t) ht

theorem exists_updateAccessCount (h : c.sharedState.Lasting known floor) {agent : LpId}
    (hagent : ∃ direction, c.routeTable.getDirectionFromRank agent.rank = some direction)
    (ssvId : SsvId) (numberOfHops : Nat) :
    ∃ c', c.updateAccessCount ssvId agent numberOfHops = .ok c' ∧
      Sustains known placed floor c c' := by
  obtain ⟨direction, hdirection⟩ := hagent
  exact ⟨_, bind_eq_ok.mpr ⟨direction, orExit_eq_ok.mpr hdirection, rfl⟩,
    sustains_sharedState ⟨h.stored, h.queries⟩⟩

section Process

variable {ssvId : SsvId} (numberOfHops : Nat) (h : c.sharedState.Lasting known floor)
  (hmem : c.sharedState.containsVariable ssvId = true)

include h hmem

theorem exists_processSingleRead {m : SharedStateMessage} (hagent : known m.originalAgent)
    (hroute : ∃ d, c.routeTable.getDirectionFromRank m.originalAgent.rank = some d)
    (hfloor : floor ≤ m.timestamp) (htime : m.timestamp < LONG_MAX) :
    ∃ c', c.processSingleRead ssvId m numberOfHops = .ok c' ∧
      Sustains known placed floor c c' := by
  simp only [processSingleRead]
  split
  · exact ⟨c, rfl, sustains_of_queues h rfl (.refl c)⟩
  · obtain ⟨r, hr, hlasting⟩ := h.read hmem hagent hfloor htime
    let response : ResponseMessage :=
      ⟨m.identifier, m.timestamp, m.originalAgent, .singleReadResponse r.1⟩
    obtain ⟨c', hc', hsustains⟩ := exists_updateAccessCount
      (c := { c with sharedState := r.2 }.sendResponse response) hlasting hroute ssvId numberOfHops
    exact ⟨c', bind_eq_ok.mpr ⟨(), require_of_contains hmem,
      bind_eq_ok.mpr ⟨r, orExit_eq_ok.mpr hr, hc'⟩⟩,
      ((sustains_sharedState hlasting).trans (sustains_sendResponse hlasting hagent)).trans
        hsustains⟩

theorem exists_processWrite (hrollbacks : CallsOnly rollbacks) {m : SharedStateMessage}
    (value : AbstractValue) (hagent : known m.originalAgent)
    (hroute : ∃ d, c.routeTable.getDirectionFromRank m.originalAgent.rank = some d)
    (hfloor : floor ≤ m.timestamp) (htime : m.timestamp < LONG_MAX) :
    ∃ c', c.processWrite rollbacks clock ssvId value m numberOfHops = .ok c' ∧
      Sustains known placed floor c c' := by
  have hclear : Sustains known placed floor c _ := sustains_clearRangeUpdates h
  obtain ⟨r, hr, hlasting, hcalls⟩ :=
    hclear.lasting.writeWithRollback hmem value hfloor htime
  let response : ResponseMessage :=
    ⟨m.identifier, m.timestamp, m.originalAgent, .writeResponse r.2.1⟩
  let tag : RollbackTag := ⟨ssvId, m.timestamp, ROLLBACK_BY_WRITE, clock ssvId⟩
  let c₁ : Clp := { c.clearRangeUpdates with sharedState := r.1 }
  let c₂ := (c₁.sendResponse response).sendRollbacks (rollbacks r.2.2) tag 0
  have hlasting₂ : c₂.sharedState.Lasting known floor := hlasting
  have hsent := (hclear.trans (sustains_sharedState hlasting)).trans
    ((sustains_sendResponse (c := c₁) (m := response) hlasting hagent).trans
      (sustains_sendRollbacks hrollbacks hlasting hcalls tag 0))
  have hcleared := hsent.trans (sustains_clearRangeUpdates hlasting₂)
  obtain ⟨c', hc', hsustains⟩ :=
    exists_updateAccessCount hcleared.lasting hroute ssvId numberOfHops
  exact ⟨c', bind_eq_ok.mpr ⟨(), require_of_contains hmem,
    bind_eq_ok.mpr ⟨r, orExit_eq_ok.mpr hr, hc'⟩⟩, hcleared.trans hsustains⟩

theorem exists_processSingleReadAnti {m : AntiMessage}
    (hroute : ∃ d, c.routeTable.getDirectionFromRank m.originalAgent.rank = some d)
    (hfloor : floor ≤ m.timestamp) (htime : m.timestamp < LONG_MAX) :
    ∃ c', c.processSingleReadAnti ssvId m numberOfHops = .ok c' ∧
      Sustains known placed floor c c' := by
  simp only [processSingleReadAnti]
  split
  · exact ⟨c, rfl, sustains_of_queues h rfl (.refl c)⟩
  · have hclear : Sustains known placed floor c _ := sustains_clearRangeUpdates h
    obtain ⟨s, hs, hlasting⟩ := hclear.lasting.rollbackRead hmem hfloor htime
    have hcleared := (hclear.trans (sustains_sharedState hlasting)).trans
      (sustains_clearRangeUpdates hlasting)
    obtain ⟨c', hc', hsustains⟩ :=
      exists_updateAccessCount hcleared.lasting hroute ssvId numberOfHops
    exact ⟨c', bind_eq_ok.mpr ⟨(), require_of_contains hmem,
      bind_eq_ok.mpr ⟨s, orExit_eq_ok.mpr hs, hc'⟩⟩, hcleared.trans hsustains⟩

theorem exists_processWriteAnti (hrollbacks : CallsOnly rollbacks) {m : AntiMessage}
    (hroute : ∃ d, c.routeTable.getDirectionFromRank m.originalAgent.rank = some d)
    (hfloor : floor < m.timestamp) (htime : m.timestamp < LONG_MAX) :
    ∃ c', c.processWriteAnti rollbacks ssvId m numberOfHops = .ok c' ∧
      Sustains known placed floor c c' := by
  simp only [processWriteAnti]
  split
  · exact ⟨c, rfl, sustains_of_queues h rfl (.refl c)⟩
  · have hclear : Sustains known placed floor c _ := sustains_clearRangeUpdates h
    obtain ⟨r, hr, hlasting, hcalls⟩ := hclear.lasting.rollbackWrite hmem hfloor htime
    let c₁ : Clp := { c.clearRangeUpdates with sharedState := r.1 }
    have hsent := (hclear.trans (sustains_sharedState hlasting)).trans
      (sustains_sendRollbacks (c := c₁) hrollbacks hlasting hcalls m.rollbackTag 0)
    have hcleared := hsent.trans (sustains_clearRangeUpdates hsent.lasting)
    obtain ⟨c', hc', hsustains⟩ :=
      exists_updateAccessCount hcleared.lasting hroute ssvId numberOfHops
    exact ⟨c', bind_eq_ok.mpr ⟨(), require_of_contains hmem,
      bind_eq_ok.mpr ⟨r, orExit_eq_ok.mpr hr, hc'⟩⟩, hcleared.trans hsustains⟩

/-- A message that comes in time for a variable the CLP holds is processed. -/
theorem exists_processMessage (hrollbacks : CallsOnly rollbacks) {m : AlpMessage}
    (hid : m.ssvId? = some ssvId) (hagent : known m.originalAgent)
    (hroute : ∃ d, c.routeTable.getDirectionFromRank m.originalAgent.rank = some d)
    (htimely : m.Timely floor) :
    ∃ c', c.processMessage rollbacks clock numberOfHops m = .ok c' ∧
      Sustains known placed floor c c' := by
  cases m with
  | request m =>
      obtain ⟨identifier, timestamp, agent, kind⟩ := m
      obtain ⟨hfloor, htime⟩ := htimely
      cases kind with
      | singleRead id =>
          obtain rfl := Option.some.inj hid
          exact exists_processSingleRead numberOfHops h hmem hagent hroute hfloor htime
      | write id value =>
          obtain rfl := Option.some.inj hid
          exact exists_processWrite numberOfHops h hmem hrollbacks value hagent hroute hfloor htime
      | rangeQuery => cases hid
  | anti m =>
      obtain ⟨timestamp, agent, tag, kind⟩ := m
      obtain ⟨htime, hfloor⟩ := htimely
      cases kind with
      | singleReadAnti id =>
          obtain rfl := Option.some.inj hid
          exact exists_processSingleReadAnti numberOfHops h hmem hroute hfloor htime
      | writeAnti id =>
          obtain rfl := Option.some.inj hid
          exact exists_processWriteAnti numberOfHops h hmem hrollbacks hroute hfloor htime
      | rangeQueryAnti => cases hid

end Process

section Queues

theorem exists_routeToAgent (h : c.sharedState.Lasting known floor)
    (hdirects : c.Directs known placed) {agent : LpId} (hagent : known agent) {content : Content}
    (hfits : content.Fits known placed floor) :
    ∃ r, c.routeToAgent agent content = .ok r ∧ Sustains known placed floor c r.1 := by
  obtain ⟨direction, hdirection, hleads⟩ := hdirects.agents agent hagent
  by_cases hhere : direction = .HERE
  · refine ⟨(c, .dropped), bind_eq_ok.mpr ⟨direction, orExit_eq_ok.mpr hdirection, ?_⟩,
      sustains_of_queues h rfl (.refl c)⟩
    rw [if_pos hhere]
  · obtain ⟨y, hy⟩ := hleads hhere
    refine ⟨(c.sendToLp ⟨c.rank, y, content⟩, .forwarded),
      bind_eq_ok.mpr ⟨direction, orExit_eq_ok.mpr hdirection, ?_⟩,
      h, rfl, [_], ⟨rfl, rfl, rfl, rfl, rfl⟩, fun m hm => ?_⟩
    · rw [if_neg hhere]
      exact bind_eq_ok.mpr ⟨y, orExit_eq_ok.mpr hy, rfl⟩
    · obtain rfl := List.mem_singleton.mp hm
      exact hfits

/-- A letter that fits is handled, forwarded or dropped. -/
theorem exists_receiveSimulation (hrollbacks : CallsOnly rollbacks)
    (h : c.sharedState.Lasting known floor) (hdirects : c.Directs known placed)
    {content : Content} (hfits : content.Fits known placed floor) :
    ∃ r, c.receiveSimulation rollbacks clock content = .ok r ∧
      Sustains known placed floor c r.1 := by
  cases content with
  | agent serial numberOfHops m =>
      obtain ⟨htimely, hagent, ssvId, hid, hplaced⟩ := hfits
      obtain ⟨direction, hroute, hleads, hhere⟩ := hdirects.ssvs ssvId hplaced
      obtain ⟨d, hd, _⟩ := hdirects.agents m.originalAgent hagent
      by_cases hdirection : direction = .HERE
      · obtain ⟨c', hc', hsustains⟩ := exists_processMessage (numberOfHops + 1) h
          (hhere hdirection) hrollbacks hid hagent ⟨d, hd⟩ htimely
        refine ⟨(c', .processed serial m), bind_eq_ok.mpr ⟨ssvId, orExit_eq_ok.mpr hid,
          bind_eq_ok.mpr ⟨direction, orExit_eq_ok.mpr hroute, ?_⟩⟩, hsustains⟩
        rw [if_pos hdirection]
        exact bind_eq_ok.mpr ⟨c', hc', rfl⟩
      · obtain ⟨y, hy⟩ := hleads hdirection
        refine ⟨(c.sendToLp ⟨c.rank, y, .agent serial (numberOfHops + 1) m⟩, .forwarded),
          bind_eq_ok.mpr ⟨ssvId, orExit_eq_ok.mpr hid,
            bind_eq_ok.mpr ⟨direction, orExit_eq_ok.mpr hroute, ?_⟩⟩,
          h, rfl, [_], ⟨rfl, rfl, rfl, rfl, rfl⟩, fun m' hm' => ?_⟩
        · rw [if_neg hdirection]
          exact bind_eq_ok.mpr ⟨y, orExit_eq_ok.mpr hy, rfl⟩
        · obtain rfl := List.mem_singleton.mp hm'
          exact ⟨htimely, hagent, ssvId, hid, hplaced⟩
  | response m => exact exists_routeToAgent h hdirects hfits hfits
  | rollback m => exact exists_routeToAgent h hdirects hfits hfits

/-- The variables that arrive are as good as those that are there. -/
theorem sustains_processStateMigration (hrollbacks : CallsOnly rollbacks)
    {list : List (SsvId × StateVariable AbstractValue)}
    (hlist : ∀ e ∈ list, e.2.Lasting known floor) (h : c.sharedState.Lasting known floor)
    (hrun : processStateMigration rollbacks clock list c = .ok c') :
    Sustains known placed floor c c' := by
  induction list generalizing c with
  | nil =>
      cases hrun
      exact sustains_of_queues h rfl (.refl _)
  | cons e list ih =>
      obtain ⟨ssvId, sv⟩ := e
      obtain ⟨r, hr, hrun⟩ := bind_eq_ok.mp hrun
      have hinsert := orExit_eq_ok.mp hr
      have habsent : c.sharedState.containsVariable ssvId = false := by
        by_contra hmem
        simp [SharedState.insert, hmem] at hinsert
      obtain ⟨r', hr', hlasting, hcalls⟩ := h.insert habsent (hlist (ssvId, sv) (by simp))
      obtain rfl := Option.some.inj (hr'.symm.trans hinsert)
      let c₁ : Clp :=
        { c with routeTable := c.routeTable.setSsvIdHost ssvId .HERE, sharedState := r'.1 }
      have henter : Sustains known placed floor c c₁ :=
        sustains_of_queues hlasting rfl (queues_nil rfl rfl rfl rfl rfl)
      have hsent := henter.trans (sustains_sendRollbacks hrollbacks henter.lasting hcalls
        ⟨ssvId, ULONG_MAX, ROLLBACK_BY_SM, clock ssvId⟩ 0)
      have hcleared := hsent.trans (sustains_clearRangeUpdates hsent.lasting)
      exact hcleared.trans
        (ih (fun e he => hlist e (List.mem_cons_of_mem _ he)) hcleared.lasting hrun)

/-- The variables that leave are as good as they were. -/
theorem sustains_takeOut (hrollbacks : CallsOnly rollbacks) {direction : Direction}
    {ssvIds : List SsvId} {m : StateVariableMap} {r : Clp × StateVariableMap}
    (hm : ∀ (id : SsvId) (sv : StateVariable AbstractValue), m[id]? = some sv →
      sv.Lasting known floor)
    (h : c.sharedState.Lasting known floor)
    (hrun : takeOut rollbacks clock direction ssvIds c m = .ok r) :
    Sustains known placed floor c r.1 ∧
      r.1.sendLoadBalancingMessageQueue = c.sendLoadBalancingMessageQueue ∧
      ∀ (id : SsvId) (sv : StateVariable AbstractValue), r.2[id]? = some sv →
        sv.Lasting known floor := by
  induction ssvIds generalizing c m with
  | nil =>
      cases hrun
      exact ⟨sustains_of_queues h rfl (.refl _), rfl, hm⟩
  | cons ssvId ssvIds ih =>
      obtain ⟨sv, hsv, hrun⟩ := bind_eq_ok.mp hrun
      obtain ⟨q, hq, hrun⟩ := bind_eq_ok.mp hrun
      obtain ⟨s, hs, hrun⟩ := bind_eq_ok.mp hrun
      obtain ⟨q', s', hq', hs', hlasting, hcalls⟩ := h.takeOut (orExit_eq_ok.mp hsv)
      obtain rfl := Option.some.inj (hq'.symm.trans (orExit_eq_ok.mp hq))
      obtain rfl := Option.some.inj (hs'.symm.trans (orExit_eq_ok.mp hs))
      let c₁ : Clp :=
        { c with routeTable := c.routeTable.setSsvIdHost ssvId direction, sharedState := s' }
      have hleave : Sustains known placed floor c c₁ :=
        sustains_of_queues hlasting rfl (queues_nil rfl rfl rfl rfl rfl)
      have hsent := hleave.trans (sustains_sendRollbacks hrollbacks hleave.lasting hcalls
        ⟨ssvId, ULONG_MAX, ROLLBACK_BY_SM, clock ssvId⟩ 1)
      have hcleared := hsent.trans (sustains_clearRangeUpdates hsent.lasting)
      obtain ⟨hrest, hqueue, hcarried⟩ := ih (fun id sv₁ hsv₁ => by
        rw [Std.TreeMap.getElem?_insertIfNew] at hsv₁
        split at hsv₁
        · obtain rfl := Option.some.inj hsv₁
          exact h.stored ssvId sv (orExit_eq_ok.mp hsv)
        · exact hm id sv₁ hsv₁) hcleared.lasting hrun
      exact ⟨hcleared.trans hrest, hqueue, hcarried⟩

theorem sustains_migrateStateVariables (hrollbacks : CallsOnly rollbacks)
    {migrationMap : List (Direction × List SsvId)} (h : c.sharedState.Lasting known floor)
    (hrun : migrateStateVariables rollbacks clock migrationMap c = .ok c') :
    Sustains known placed floor c c' ∧ ∃ ms,
      c'.sendLoadBalancingMessageQueue = c.sendLoadBalancingMessageQueue ++ ms ∧
        ∀ m ∈ ms, m.Lasting known floor := by
  induction migrationMap generalizing c with
  | nil =>
      cases hrun
      exact ⟨sustains_of_queues h rfl (.refl _), [], by simp, nofun⟩
  | cons e migrationMap ih =>
      obtain ⟨direction, ssvIds⟩ := e
      obtain ⟨destination, _, hrun⟩ := bind_eq_ok.mp hrun
      obtain ⟨r, htake, hrun⟩ := bind_eq_ok.mp hrun
      have hclear : Sustains known placed floor c _ := sustains_clearRangeUpdates h
      obtain ⟨htaken, hqueue, hcarried⟩ := sustains_takeOut (m := ∅) hrollbacks
        (fun id sv hsv => by simp at hsv) hclear.lasting htake
      have hleave := hclear.trans htaken
      let m : StateMigrationMessage := ⟨c.rank, destination, r.2⟩
      let c₁ : Clp :=
        { r.1 with
          sendLoadBalancingMessageQueue := r.1.sendLoadBalancingMessageQueue ++ [m] }
      have hqueued : Sustains known placed floor c c₁ :=
        hleave.trans (sustains_of_queues hleave.lasting rfl (queues_nil rfl rfl rfl rfl rfl))
      obtain ⟨hrest, ms, hms, hlasting⟩ := ih hqueued.lasting hrun
      refine ⟨hqueued.trans hrest, m :: ms, ?_, fun m' hm' => ?_⟩
      · rw [hms]
        simp only [c₁, hqueue, List.append_assoc, List.singleton_append]
        rfl
      · rcases List.mem_cons.mp hm' with rfl | hm'
        · exact hcarried
        · exact hlasting m' hm'

theorem exists_reroute (hdirects : c.Directs known placed) (m : SimulationMessage) {agent : LpId}
    (hagent : known agent) : ∃ m', c.reroute m agent = .ok m' := by
  obtain ⟨direction, hdirection, hleads⟩ := hdirects.agents agent hagent
  by_cases hhere : direction = .HERE
  · refine ⟨m, bind_eq_ok.mpr ⟨direction, orExit_eq_ok.mpr hdirection, ?_⟩⟩
    rw [if_pos hhere]
  · obtain ⟨y, hy⟩ := hleads hhere
    refine ⟨{ m with destination := y },
      bind_eq_ok.mpr ⟨direction, orExit_eq_ok.mpr hdirection, ?_⟩⟩
    rw [if_neg hhere]
    exact bind_eq_ok.mpr ⟨y, orExit_eq_ok.mpr hy, rfl⟩

/-- What is queued can be sent. -/
theorem exists_send (hdirects : c.Directs known placed)
    (hfits : ∀ m ∈ c.sendMessageQueue, m.content.Fits known placed floor) :
    ∃ r, c.send = .ok r := by
  simp only [send]
  split
  · exact ⟨_, rfl⟩
  · split
    · rename_i m rest hqueue
      have hm := hfits m (by simp [hqueue])
      split
      · exact ⟨_, rfl⟩
      · rename_i r hcontent
        rw [hcontent] at hm
        obtain ⟨m', hm'⟩ := exists_reroute hdirects m hm
        exact ⟨_, bind_eq_ok.mpr ⟨m', hm', rfl⟩⟩
      · rename_i r hcontent
        rw [hcontent] at hm
        obtain ⟨m', hm'⟩ := exists_reroute hdirects m hm
        exact ⟨_, bind_eq_ok.mpr ⟨m', hm', rfl⟩⟩
    · exact ⟨_, rfl⟩

end Queues

end Clp
end PdesMas
