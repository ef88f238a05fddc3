import PdesMas.Lp.ClpAnswers
import PdesMas.Lp.RangeQueryEffect
import PdesMas.Ssv.Accesses
import PdesMas.State.RangeRead

/-!
What a CLP counts. A message of an agent that it processes is one access, unless GVT
has passed it, and a range read is one to each variable whose point it gives. The
counters of a variable are kept as long as the CLP has it, and start anew when it arrives.
-/

namespace PdesMas

def AlpMessage.originalAgent : AlpMessage → LpId
  | .request m => m.originalAgent
  | .anti m => m.originalAgent

/-- A CLP whose GVT is `gvt` counts the message. -/
def AlpMessage.counted (gvt : Nat) : AlpMessage → Bool
  | .request m => m.due gvt
  | .anti m => decide (gvt ≤ m.timestamp)

/-- The accesses to one variable. -/
def accessesTo (ssvId : SsvId) (counted : List (SsvId × Access)) : List Access :=
  (counted.filter fun p => p.1 = ssvId).map Prod.snd

@[simp] theorem accessesTo_nil (ssvId : SsvId) : accessesTo ssvId [] = [] := rfl

theorem accessesTo_cons (ssvId : SsvId) (p : SsvId × Access) (counted : List (SsvId × Access)) :
    accessesTo ssvId (p :: counted) =
      (if p.1 = ssvId then [p.2] else []) ++ accessesTo ssvId counted := by
  by_cases hp : p.1 = ssvId
  · simp [accessesTo, hp]
  · simp [accessesTo, hp]

/-- Accesses to different variables are at most one to each. -/
theorem length_accessesTo_le {counted : List (SsvId × Access)}
    (h : (counted.map Prod.fst).Nodup) (ssvId : SsvId) :
    (accessesTo ssvId counted).length ≤ 1 := by
  rw [accessesTo, List.length_map, ← List.countP_eq_length_filter]
  have hcount : counted.countP (fun p => p.1 = ssvId) = (counted.map Prod.fst).count ssvId := by
    rw [List.count, List.countP_map]
    refine List.countP_congr fun p _ => ?_
    simp
  rw [hcount]
  exact List.nodup_iff_count_le_one.mp h ssvId

namespace SharedState

variable {s s' : SharedState} {ssvId id : SsvId}

section RangeReads

/-- The variables whose points a range read gives. -/
def readAt (s : SharedState) (range : Range) (time : Nat) : List SsvId :=
  (s.stateVariableMap.toList.filter fun sv =>
    (pointAt sv.2 time).any range.isValueOverlapping).map Prod.fst

/-- `UpdateAccessCount` of one variable after the other. -/
def updateAccessCounts (s : SharedState) (ids : List SsvId) (direction : Direction)
    (numberOfHops : Nat) : SharedState :=
  ids.foldl (fun s id => s.updateAccessCount id direction numberOfHops) s

theorem rangeRead_eq (s : SharedState) (range : Range) (direction : Direction)
    (numberOfHops time : Nat) :
    (s.rangeRead range direction numberOfHops time).2 =
      s.updateAccessCounts (s.readAt range time) direction numberOfHops := by
  have hids : ∀ l : List (SsvId × StateVariable AbstractValue),
      (l.filterMap fun sv => ((pointAt sv.2 time).filter range.isValueOverlapping).map
        fun point => (sv.1, point)).map Prod.fst =
      (l.filter fun sv => (pointAt sv.2 time).any range.isValueOverlapping).map Prod.fst := by
    intro l
    induction l with
    | nil => rfl
    | cons sv l ih =>
        rw [List.filterMap_cons, List.filter_cons]
        cases hpoint : pointAt sv.2 time with
        | none => simpa using ih
        | some point =>
            by_cases hin : range.isValueOverlapping point = true
            · simpa [Option.filter, hin] using ih
            · simpa [Option.filter, hin] using ih
  rw [updateAccessCounts, readAt, ← hids, List.foldl_map]
  rfl

theorem readAt_nodup (s : SharedState) (range : Range) (time : Nat) :
    (s.readAt range time).Nodup := by
  have hkeys : (s.stateVariableMap.toList.map Prod.fst).Nodup := by
    rw [Std.TreeMap.map_fst_toList_eq_keys]
    exact Std.TreeMap.nodup_keys
  exact hkeys.sublist (List.filter_sublist.map Prod.fst)

variable {direction : Direction} {numberOfHops : Nat}

theorem updateAccessCounts_sameVariables (s : SharedState) (ids : List SsvId)
    (direction : Direction) (numberOfHops : Nat) :
    SameVariables s (s.updateAccessCounts ids direction numberOfHops) := by
  induction ids generalizing s with
  | nil => exact .refl s
  | cons id ids ih =>
      exact (s.updateAccessCount_sameVariables id direction numberOfHops).trans (ih _)

/-- The counters depend on those before. -/
theorem updateAccessCounts_congr
    (h : s.accessCostCalculator = s'.accessCostCalculator) (ids : List SsvId)
    (direction : Direction) (numberOfHops : Nat) :
    (s.updateAccessCounts ids direction numberOfHops).accessCostCalculator =
      (s'.updateAccessCounts ids direction numberOfHops).accessCostCalculator := by
  induction ids generalizing s s' with
  | nil => exact h
  | cons id ids ih => exact ih (by simp only [updateAccessCount, h])

theorem updateAccessCounts_kept (s : SharedState) (ids : List SsvId) (direction : Direction)
    (agent : LpId) (numberOfHops : Nat) :
    (s.updateAccessCounts ids direction numberOfHops).accessCostCalculator.isParentCLP =
        s.accessCostCalculator.isParentCLP ∧
      (s.updateAccessCounts ids direction numberOfHops).accessCostCalculator.clpLoad =
        s.accessCostCalculator.clpLoad +
          hopsOf (ids.map fun _ => ⟨agent, numberOfHops⟩) := by
  induction ids generalizing s with
  | nil => exact ⟨rfl, rfl⟩
  | cons id ids ih =>
      obtain ⟨hparent, hload⟩ := ih (s.updateAccessCount id direction numberOfHops)
      refine ⟨hparent.trans (AccessCostCalculator.updateAccessCount_isParentCLP s id _ _), ?_⟩
      refine hload.trans ?_
      rw [AccessCostCalculator.updateAccessCount_clpLoad]
      simp [hopsOf, Nat.add_assoc]

/-- Each of the variables is counted once, in the direction of the agent. -/
theorem updateAccessCounts_tallies {directionOf : LpId → Option Direction} {x : Access}
    (hdirection : directionOf x.agent = some direction) {l : List Access} (ids : List SsvId)
    (hcounted : s.Counted) (hheld : s.containsVariable ssvId = true)
    (h : s.accessCostCalculator.Tallies directionOf ssvId l) :
    (s.updateAccessCounts ids direction x.numberOfHops).accessCostCalculator.Tallies directionOf
      ssvId (l ++ accessesTo ssvId (ids.map fun id => (id, x))) := by
  induction ids generalizing s l with
  | nil =>
      rw [List.map_nil, accessesTo_nil, List.append_nil]
      exact h
  | cons id ids ih =>
      have hsame := s.updateAccessCount_sameVariables id direction x.numberOfHops
      rw [List.map_cons, accessesTo_cons, ← List.append_assoc]
      refine ih (hcounted.same hsame) ((hsame.contains ssvId).trans hheld) ?_
      by_cases hid : id = ssvId
      · subst hid
        rw [if_pos rfl]
        exact h.updateAccessCount ((hcounted.mem_iff id).mpr hheld) hdirection
      · rw [if_neg hid, List.append_nil]
        exact h.same (AccessCostCalculator.updateAccessCount_of_ne s direction _ (Ne.symm hid))

end RangeReads

theorem read_accessCostCalculator {agentID : LpId} {time : Nat} {r : AbstractValue × SharedState}
    (h : s.read ssvId agentID time = some r) :
    r.2.accessCostCalculator = s.accessCostCalculator := by
  obtain ⟨sv, _, h⟩ := Option.bind_eq_some_iff.mp h
  obtain ⟨q, _, h⟩ := Option.bind_eq_some_iff.mp h
  cases h
  rfl

theorem writeWithRollback_accessCostCalculator {agentID : LpId} {value : AbstractValue}
    {time : Nat} {rollbackList : RollbackList} {r : SharedState × WriteStatus × RollbackList}
    (h : s.writeWithRollback ssvId agentID value time rollbackList = some r) :
    r.1.accessCostCalculator = s.accessCostCalculator := by
  obtain ⟨sv, _, h⟩ := Option.bind_eq_some_iff.mp h
  cases h
  exact updateRange_accessCostCalculator _ _ _ _ _ _

theorem rollbackRead_accessCostCalculator {agentID : LpId} {time : Nat}
    (h : s.rollbackRead ssvId agentID time = some s') :
    s'.accessCostCalculator = s.accessCostCalculator := by
  obtain ⟨sv, _, h⟩ := Option.bind_eq_some_iff.mp h
  obtain ⟨sv', _, h⟩ := Option.bind_eq_some_iff.mp h
  cases h
  rfl

theorem rollbackPeriod_accessCostCalculator (s : SharedState) (ssvId : SsvId)
    (sv : StateVariable AbstractValue) (agentID : LpId) (time endTime : Nat)
    (rollbackList : RollbackList) :
    (s.rollbackPeriod ssvId sv agentID time endTime rollbackList).2.1.accessCostCalculator =
      s.accessCostCalculator := updateRange_accessCostCalculator _ _ _ _ _ _

theorem rollbackWrite_accessCostCalculator {agentID : LpId} {time : Nat}
    {rollbackList : RollbackList} {r : SharedState × RollbackList}
    (h : s.rollbackWrite ssvId agentID time rollbackList = some r) :
    r.1.accessCostCalculator = s.accessCostCalculator := by
  obtain ⟨sv, _, h⟩ := Option.bind_eq_some_iff.mp h
  cases h
  exact s.rollbackPeriod_accessCostCalculator _ _ _ _ _ _

theorem rollbackPeriods_accessCostCalculator (l : List (WritePeriod AbstractValue))
    (s : SharedState) (ssvId : SsvId) (sv : StateVariable AbstractValue)
    (rollbackList : RollbackList) :
    (s.rollbackPeriods ssvId sv l rollbackList).1.accessCostCalculator =
      s.accessCostCalculator := by
  induction l generalizing s sv rollbackList with
  | nil => rfl
  | cons p l ih =>
      exact (ih _ _ _).trans (s.rollbackPeriod_accessCostCalculator _ _ _ _ _ _)

theorem replay_accessCostCalculator (l : List (WritePeriod AbstractValue)) (s : SharedState)
    (ssvId : SsvId) (sv : StateVariable AbstractValue) (rollbackList : RollbackList) :
    (s.replay ssvId sv l rollbackList).1.accessCostCalculator = s.accessCostCalculator := by
  induction l generalizing s sv rollbackList with
  | nil => rfl
  | cons p l ih => exact (ih _ _ _).trans (updateRange_accessCostCalculator _ _ _ _ _ _)

/-- What `Insert` does to the variables and the counters. -/
theorem inserted {sv : StateVariable AbstractValue} {rollbackList : RollbackList}
    {r : SharedState × List WriteStatus × RollbackList}
    (h : s.insert ssvId sv rollbackList = some r) :
    s.containsVariable ssvId = false ∧
      (∀ id, r.1.containsVariable id = (decide (id = ssvId) || s.containsVariable id)) ∧
      r.1.accessCostCalculator = s.accessCostCalculator.initialiseCounters ssvId := by
  have habsent : s.containsVariable ssvId = false := by
    rw [insert] at h
    split at h
    · cases h
    · rename_i hnot
      simpa using hnot
  obtain ⟨r', hr', hcontains, _⟩ := insert_of_absent habsent sv rollbackList
  obtain rfl := Option.some.inj (h.symm.trans hr')
  refine ⟨habsent, hcontains, ?_⟩
  rw [insert, if_neg (by simp [habsent])] at h
  obtain rfl := Option.some.inj h
  exact congrArg (AccessCostCalculator.initialiseCounters · ssvId)
    (replay_accessCostCalculator _ _ _ _ _)

/-- What taking a variable out does to the variables and the counters. -/
theorem taken {rollbackList : RollbackList} {r : SharedState × RollbackList}
    (hremove : s.removeWritePeriodList ssvId rollbackList = some r)
    (hdelete : r.1.delete ssvId = some s') :
    (∀ id, s'.containsVariable id = (decide (id ≠ ssvId) && s.containsVariable id)) ∧
      s'.accessCostCalculator = s.accessCostCalculator.removeSsv ssvId := by
  obtain ⟨sv, hsv, hremove⟩ := Option.bind_eq_some_iff.mp hremove
  have hmem := containsVariable_of_getElem? hsv
  cases hremove
  have hsame := s.rollbackPeriods_sameVariables sv.writePeriodList hmem sv rollbackList
  obtain ⟨s'', hs'', hcontains, _⟩ := delete_of_contains ((hsame.contains ssvId).trans hmem)
  obtain rfl := Option.some.inj (hdelete.symm.trans hs'')
  refine ⟨fun id => by rw [hcontains, hsame.contains], ?_⟩
  rw [delete, if_pos ((hsame.contains ssvId).trans hmem)] at hdelete
  obtain rfl := Option.some.inj hdelete
  exact congrArg (AccessCostCalculator.removeSsv · ssvId)
    (rollbackPeriods_accessCostCalculator _ _ _ _ _)

end SharedState

namespace Clp

/-- The access that `Receive` counts for the content of a message, with its variable. -/
def countsFor (c : Clp) : Content → Option (SsvId × Access)
  | .agent _ numberOfHops m => do
      let ssvId ← m.ssvId?
      if c.routeTable.getDirectionFromSsvId ssvId = some .HERE ∧ m.counted c.gvt = true then
        some (ssvId, ⟨m.originalAgent, numberOfHops + 1⟩)
      else none
  | .response _ | .rollback _ => none

/-- The access that `Receive` counts. -/
def counts (c : Clp) : Option (SsvId × Access) :=
  match c.receiveLoadBalancingMessageQueue, c.receiveMessageQueue with
  | [], m :: _ => c.countsFor m.content
  | _, _ => none

/-- The range read in `ProcessMessage(RangeQueryMessage)`. -/
def rangeRead (c : Clp) (agent : LpId) (range : Range) (numberOfTraverseHops time : Nat) :
    Except Exit Clp := do
  let direction ← orExit .other (c.routeTable.getDirectionFromRank agent.rank)
  pure { c with
    sharedState := (c.sharedState.rangeRead range direction numberOfTraverseHops time).2 }

/-- The accesses that a range read counts. -/
def countsInRange (c : Clp) (agent : LpId) (range : Range) (numberOfTraverseHops time : Nat) :
    List (SsvId × Access) :=
  (c.sharedState.readAt range time).map fun id => (id, ⟨agent, numberOfTraverseHops⟩)

def direction (c : Clp) (agent : LpId) : Option Direction :=
  c.routeTable.getDirectionFromRank agent.rank

/-- The counters of a variable are those of the accesses. -/
def Tallies (c : Clp) (ssvId : SsvId) (l : List Access) : Prop :=
  c.sharedState.accessCostCalculator.Tallies c.direction ssvId l

/-- What a step does to the counters of a CLP. It counts some accesses, goes on counting for
the variables it keeps, and starts anew for those that arrive. -/
structure Counting (c c' : Clp) (counted : List (SsvId × Access)) : Prop where
  ranks : c'.routeTable.rankToDirectionMap = c.routeTable.rankToDirectionMap
  isParent : c'.sharedState.accessCostCalculator.isParentCLP =
    c.sharedState.accessCostCalculator.isParentCLP
  load : c'.sharedState.accessCostCalculator.clpLoad =
    c.sharedState.accessCostCalculator.clpLoad + hopsOf (counted.map Prod.snd)
  kept : ∀ ssvId l, c.sharedState.containsVariable ssvId = true →
    c'.sharedState.containsVariable ssvId = true → c.Tallies ssvId l →
      c'.Tallies ssvId (l ++ accessesTo ssvId counted)
  arrived : ∀ ssvId, c.sharedState.containsVariable ssvId = false →
    c'.sharedState.containsVariable ssvId = true → c'.Tallies ssvId []
  known : ∀ p ∈ counted, ∃ d, c.direction p.2.agent = some d

variable {c c' c'' : Clp}

theorem direction_of_ranks
    (h : c'.routeTable.rankToDirectionMap = c.routeTable.rankToDirectionMap) :
    c'.direction = c.direction := by
  funext agent
  rw [direction, direction, RouteTable.getDirectionFromRank, RouteTable.getDirectionFromRank, h]

/-- Nothing is counted, and the CLP has the variables it had. -/
theorem counting_of_same
    (hranks : c'.routeTable.rankToDirectionMap = c.routeTable.rankToDirectionMap)
    (hheld : c.sharedState.SameVariables c'.sharedState)
    (hcounters : c'.sharedState.accessCostCalculator = c.sharedState.accessCostCalculator) :
    Counting c c' [] := by
  refine ⟨hranks, by rw [hcounters], by simp [hcounters, hopsOf], fun ssvId l _ _ h => ?_,
    fun ssvId hnot hholds => ?_, nofun⟩
  · rw [accessesTo_nil, List.append_nil, Tallies, hcounters, direction_of_ranks hranks]
    exact h
  · simp [hheld.contains, hnot] at hholds

theorem Counting.trans (h : Counting c c' []) (h' : Counting c' c'' [])
    (hbetween : ∀ ssvId, c.sharedState.containsVariable ssvId = true →
      c''.sharedState.containsVariable ssvId = true →
        c'.sharedState.containsVariable ssvId = true) : Counting c c'' [] := by
  refine ⟨h'.ranks.trans h.ranks, h'.isParent.trans h.isParent, ?_, fun ssvId l hc hc'' hl => ?_,
    fun ssvId hc hc'' => ?_, nofun⟩
  · rw [h'.load, h.load]
    rfl
  · have hc' := hbetween ssvId hc hc''
    have hl'' := h'.kept ssvId _ hc' hc'' (h.kept ssvId l hc hc' hl)
    rwa [List.append_assoc] at hl''
  · cases hc' : c'.sharedState.containsVariable ssvId with
    | false => exact h'.arrived ssvId hc' hc''
    | true => exact h'.kept ssvId [] hc' hc'' (h.arrived ssvId hc hc')

/-- The last thing that is done with a message is to count the access. -/
theorem counting_of_updateAccessCount {ssvId : SsvId} {agent : LpId} {numberOfHops : Nat}
    (hcounted : c.sharedState.Counted) (hquiet : Quiet c c')
    (hcounters : c'.sharedState.accessCostCalculator = c.sharedState.accessCostCalculator)
    (h : c'.updateAccessCount ssvId agent numberOfHops = .ok c'') :
    Counting c c'' [(ssvId, ⟨agent, numberOfHops⟩)] := by
  have hheld := (hquiet.trans (quiet_updateAccessCount h)).held
  obtain ⟨d, hd, h⟩ := bind_eq_ok.mp h
  cases h
  have hd := orExit_eq_ok.mp hd
  have hdirection : c'.direction = c.direction := direction_of_ranks (by rw [hquiet.routes])
  refine ⟨by rw [hquiet.routes], ?_, ?_, fun id l hheldBefore _ hl => ?_, fun id hnot hholds => ?_,
    fun p hp => ?_⟩
  · exact (AccessCostCalculator.updateAccessCount_isParentCLP _ _ _ _).trans
      (congrArg _ hcounters)
  · refine (AccessCostCalculator.updateAccessCount_clpLoad _ _ _ _).trans ?_
    rw [hcounters]
    rfl
  · have hl' : c'.sharedState.accessCostCalculator.Tallies c'.direction id l := by
      rw [hcounters, hdirection]
      exact hl
    by_cases hid : id = ssvId
    · subst hid
      have hmem : id ∈ c'.sharedState.accessCostCalculator.ssvList := by
        rw [hcounters]
        exact (hcounted.mem_iff id).mpr hheldBefore
      have haccesses : accessesTo id [(id, ⟨agent, numberOfHops⟩)] =
          [⟨agent, numberOfHops⟩] := by simp [accessesTo]
      rw [haccesses]
      exact hl'.updateAccessCount (x := ⟨agent, numberOfHops⟩) hmem hd
    · have haccesses : accessesTo id [(ssvId, ⟨agent, numberOfHops⟩)] = [] := by
        simp [accessesTo, Ne.symm hid]
      rw [haccesses, List.append_nil]
      exact hl'.same (AccessCostCalculator.updateAccessCount_of_ne _ _ _ hid)
  · rw [hheld.contains, hnot] at hholds
    cases hholds
  · obtain rfl := List.mem_singleton.mp hp
    exact ⟨d, hdirection ▸ hd⟩

section Process

variable {rollbacks : RollbackList → List (LpId × Nat)} {clock : SsvId → Nat}

theorem counting_of_processMessage {m : AlpMessage} {ssvId : SsvId} {numberOfHops : Nat}
    (hcounted : c.sharedState.Counted) (hid : m.ssvId? = some ssvId)
    (h : c.processMessage rollbacks clock numberOfHops m = .ok c') :
    Counting c c'
      (if m.counted c.gvt = true then [(ssvId, ⟨m.originalAgent, numberOfHops⟩)] else []) := by
  have hsame : Counting c c [] := counting_of_same rfl (.refl _) rfl
  cases m with
  | request m =>
      obtain ⟨identifier, timestamp, agent, kind⟩ := m
      cases kind with
      | singleRead id =>
          obtain rfl := Option.some.inj hid
          simp only [processMessage, processSingleRead] at h
          split at h
          · rename_i hlate
            cases h
            rwa [if_neg (by simpa [AlpMessage.counted, SharedStateMessage.due] using hlate)]
          · rename_i hdue
            rw [if_pos (by simpa [AlpMessage.counted, SharedStateMessage.due] using hdue)]
            obtain ⟨_, _, h⟩ := bind_eq_ok.mp h
            obtain ⟨r, hr, h⟩ := bind_eq_ok.mp h
            have hr := orExit_eq_ok.mp hr
            have hread := quiet_sharedState c (SharedState.read_sameVariables hr)
            exact counting_of_updateAccessCount hcounted
              (hread.trans (quiet_sendResponse _ _)) (SharedState.read_accessCostCalculator hr) h
      | write id value =>
          obtain rfl := Option.some.inj hid
          rw [if_pos (show AlpMessage.counted _ _ = true from rfl)]
          obtain ⟨_, _, h⟩ := bind_eq_ok.mp h
          obtain ⟨r, hr, h⟩ := bind_eq_ok.mp h
          have hr := orExit_eq_ok.mp hr
          have hwrite := (quiet_clearRangeUpdates c).trans
            (quiet_sharedState _ (SharedState.writeWithRollback_sameVariables hr))
          have hcounters := SharedState.writeWithRollback_accessCostCalculator hr
          exact counting_of_updateAccessCount hcounted
            (((hwrite.trans (quiet_sendResponse _ _)).trans (quiet_sendRollbacks _ _ _ _)).trans
              (quiet_clearRangeUpdates _)) hcounters h
      | rangeQuery range => cases hid
  | anti m =>
      obtain ⟨timestamp, agent, tag, kind⟩ := m
      cases kind with
      | singleReadAnti id =>
          obtain rfl := Option.some.inj hid
          simp only [processMessage, processSingleReadAnti] at h
          split at h
          · rename_i hlate
            cases h
            rwa [if_neg (by simpa [AlpMessage.counted] using hlate)]
          · rename_i hdue
            rw [if_pos (by simpa [AlpMessage.counted] using hdue)]
            obtain ⟨_, _, h⟩ := bind_eq_ok.mp h
            obtain ⟨s, hs, h⟩ := bind_eq_ok.mp h
            have hs := orExit_eq_ok.mp hs
            have hundo := (quiet_clearRangeUpdates c).trans
              (quiet_sharedState _ (SharedState.rollbackRead_sameVariables hs))
            have hcounters := SharedState.rollbackRead_accessCostCalculator hs
            exact counting_of_updateAccessCount hcounted
              (hundo.trans (quiet_clearRangeUpdates _)) hcounters h
      | writeAnti id =>
          obtain rfl := Option.some.inj hid
          simp only [processMessage, processWriteAnti] at h
          split at h
          · rename_i hlate
            cases h
            rwa [if_neg (by simpa [AlpMessage.counted] using hlate)]
          · rename_i hdue
            rw [if_pos (by simpa [AlpMessage.counted] using hdue)]
            obtain ⟨_, _, h⟩ := bind_eq_ok.mp h
            obtain ⟨r, hr, h⟩ := bind_eq_ok.mp h
            have hr := orExit_eq_ok.mp hr
            have hundo := (quiet_clearRangeUpdates c).trans
              (quiet_sharedState _ (SharedState.rollbackWrite_sameVariables hr))
            have hcounters := SharedState.rollbackWrite_accessCostCalculator hr
            exact counting_of_updateAccessCount hcounted
              ((hundo.trans (quiet_sendRollbacks _ _ _ _)).trans (quiet_clearRangeUpdates _))
              hcounters h
      | rangeQueryAnti range identifier => cases hid

/-- A variable that arrives is counted anew. -/
theorem counting_arrival {ssvId : SsvId} {r : SharedState × List WriteStatus × RollbackList}
    {sv : StateVariable AbstractValue} (h : c.sharedState.insert ssvId sv .empty = some r)
    (hranks : c'.routeTable.rankToDirectionMap = c.routeTable.rankToDirectionMap)
    (hheld : r.1.SameVariables c'.sharedState)
    (hcounters : c'.sharedState.accessCostCalculator = r.1.accessCostCalculator) :
    Counting c c' [] ∧ ∀ id, c.sharedState.containsVariable id = true →
      c'.sharedState.containsVariable id = true := by
  obtain ⟨habsent, hcontains, hinitial⟩ := SharedState.inserted h
  have hdirection : c'.direction = c.direction := direction_of_ranks hranks
  have hafter : ∀ id, c'.sharedState.containsVariable id =
      (decide (id = ssvId) || c.sharedState.containsVariable id) := fun id => by
    rw [hheld.contains, hcontains]
  refine ⟨⟨hranks, by rw [hcounters, hinitial]; rfl, by rw [hcounters, hinitial]; rfl,
    fun id l hbefore _ hl => ?_, fun id hnot hholds => ?_, nofun⟩, fun id hid => ?_⟩
  · have hne : id ≠ ssvId := by
      rintro rfl
      simp [habsent] at hbefore
    rw [accessesTo_nil, List.append_nil, Tallies, hcounters, hinitial, hdirection]
    exact AccessCostCalculator.Tallies.same hl
      (AccessCostCalculator.sameRecord_initialiseCounters _ hne)
  · rw [hafter, hnot, Bool.or_false, decide_eq_true_iff] at hholds
    rw [Tallies, hcounters, hinitial, hholds]
    exact AccessCostCalculator.tallies_initialiseCounters _ _
  · rw [hafter, hid, Bool.or_true]

theorem counting_of_processStateMigration {list : List (SsvId × StateVariable AbstractValue)}
    (h : processStateMigration rollbacks clock list c = .ok c') :
    Counting c c' [] ∧ ∀ id, c.sharedState.containsVariable id = true →
      c'.sharedState.containsVariable id = true := by
  induction list generalizing c with
  | nil =>
      cases h
      exact ⟨counting_of_same rfl (.refl _) rfl, fun _ h => h⟩
  | cons e list ih =>
      obtain ⟨ssvId, sv⟩ := e
      obtain ⟨r, hr, h⟩ := bind_eq_ok.mp h
      let c₁ : Clp :=
        { c with routeTable := c.routeTable.setSsvIdHost ssvId .HERE, sharedState := r.1 }
      let c₂ := (c₁.sendRollbacks (rollbacks r.2.2)
        ⟨ssvId, ULONG_MAX, ROLLBACK_BY_SM, clock ssvId⟩ 0).clearRangeUpdates
      have hranks : c₂.routeTable.rankToDirectionMap = c.routeTable.rankToDirectionMap := rfl
      obtain ⟨harrival, hstay⟩ : Counting c c₂ [] ∧ _ :=
        counting_arrival (orExit_eq_ok.mp hr) hranks ⟨fun _ => rfl, rfl⟩ rfl
      obtain ⟨hrest, hstay'⟩ := ih h
      exact ⟨harrival.trans hrest fun id hid _ => hstay id hid,
        fun id hid => hstay' id (hstay id hid)⟩

theorem counting_of_takeOut {direction : Direction} {ssvIds : List SsvId}
    {m : StateVariableMap} {r : Clp × StateVariableMap}
    (h : takeOut rollbacks clock direction ssvIds c m = .ok r) :
    Counting c r.1 [] ∧ ∀ id, r.1.sharedState.containsVariable id = true →
      c.sharedState.containsVariable id = true := by
  induction ssvIds generalizing c m with
  | nil =>
      cases h
      exact ⟨counting_of_same rfl (.refl _) rfl, fun _ h => h⟩
  | cons ssvId ssvIds ih =>
      obtain ⟨sv, _, h⟩ := bind_eq_ok.mp h
      obtain ⟨q, hq, h⟩ := bind_eq_ok.mp h
      obtain ⟨s, hs, h⟩ := bind_eq_ok.mp h
      obtain ⟨hcontains, hcounters⟩ := SharedState.taken (orExit_eq_ok.mp hq) (orExit_eq_ok.mp hs)
      let c₁ : Clp :=
        { c with routeTable := c.routeTable.setSsvIdHost ssvId direction, sharedState := s }
      let c₂ := (c₁.sendRollbacks (rollbacks q.2)
        ⟨ssvId, ULONG_MAX, ROLLBACK_BY_SM, clock ssvId⟩ 1).clearRangeUpdates
      have hcounters₂ : c₂.sharedState.accessCostCalculator =
          c.sharedState.accessCostCalculator.removeSsv ssvId := hcounters
      obtain ⟨hload, hparent⟩ :=
        AccessCostCalculator.removeSsv_kept c.sharedState.accessCostCalculator ssvId
      have hafter : ∀ id, c₂.sharedState.containsVariable id = true →
          id ≠ ssvId ∧ c.sharedState.containsVariable id = true := fun id hid => by
        have hid : s.containsVariable id = true := hid
        simpa [hcontains] using hid
      have hremoval : Counting c c₂ [] := by
        refine ⟨rfl, by rw [hcounters₂, hparent], by rw [hcounters₂, hload]; rfl,
          fun id l _ hid hl => ?_, fun id hnot hid => ?_, nofun⟩
        · rw [accessesTo_nil, List.append_nil, Tallies, hcounters₂]
          exact AccessCostCalculator.Tallies.same hl
            (AccessCostCalculator.removeSsv_of_ne _ _ (hafter id hid).1)
        · simp [(hafter id hid).2] at hnot
      obtain ⟨hrest, hstay⟩ := ih h
      exact ⟨hremoval.trans hrest fun id _ hid => hstay id hid,
        fun id hid => (hafter id (hstay id hid)).2⟩

theorem counting_of_migrateStateVariables {migrationMap : List (Direction × List SsvId)}
    (h : migrateStateVariables rollbacks clock migrationMap c = .ok c') :
    Counting c c' [] ∧ ∀ id, c'.sharedState.containsVariable id = true →
      c.sharedState.containsVariable id = true := by
  induction migrationMap generalizing c with
  | nil =>
      cases h
      exact ⟨counting_of_same rfl (.refl _) rfl, fun _ h => h⟩
  | cons e migrationMap ih =>
      obtain ⟨direction, ssvIds⟩ := e
      obtain ⟨destination, _, h⟩ := bind_eq_ok.mp h
      obtain ⟨r, htake, h⟩ := bind_eq_ok.mp h
      have hclear : Counting c c.clearRangeUpdates [] :=
        counting_of_same rfl ⟨fun _ => rfl, rfl⟩ rfl
      obtain ⟨hleave, hstay⟩ := counting_of_takeOut htake
      obtain ⟨hrest, hstay'⟩ := ih h
      have hqueue : Counting r.1 { r.1 with
          sendLoadBalancingMessageQueue :=
            r.1.sendLoadBalancingMessageQueue ++ [⟨c.rank, destination, r.2⟩] } [] :=
        counting_of_same rfl (.refl _) rfl
      have hleft := hclear.trans hleave fun id hid _ => hid
      have hqueued := hleft.trans hqueue fun id _ hid => hid
      exact ⟨hqueued.trans hrest fun id _ hid => hstay' id hid,
        fun id hid => hstay id (hstay' id hid)⟩

theorem counting_of_routeToAgent {agent : LpId} {content : Content} {r : Received}
    (h : c.routeToAgent agent content = .ok (c', r)) : Counting c c' [] := by
  obtain ⟨direction, _, h⟩ := bind_eq_ok.mp h
  split at h
  · cases h
    exact counting_of_same rfl (.refl _) rfl
  · obtain ⟨destination, _, h⟩ := bind_eq_ok.mp h
    cases h
    exact counting_of_same rfl (.refl _) rfl

theorem counting_of_receiveSimulation {content : Content} {r : Received}
    (hcounted : c.sharedState.Counted)
    (h : c.receiveSimulation rollbacks clock content = .ok (c', r)) :
    Counting c c' (c.countsFor content).toList := by
  cases content with
  | agent serial numberOfHops m =>
      obtain ⟨ssvId, hid, h⟩ := bind_eq_ok.mp h
      obtain ⟨direction, hroute, h⟩ := bind_eq_ok.mp h
      have hid := orExit_eq_ok.mp hid
      have hroute := orExit_eq_ok.mp hroute
      simp only [countsFor, hid, Option.bind_eq_bind, Option.bind_some, hroute]
      split at h
      · rename_i hhere
        obtain ⟨c₁, hprocess, h⟩ := bind_eq_ok.mp h
        cases h
        have hcounting := counting_of_processMessage hcounted hid hprocess
        rw [hhere]
        simp only [true_and]
        split
        · rename_i hdue
          rwa [if_pos hdue] at hcounting
        · rename_i hlate
          rwa [if_neg hlate] at hcounting
      · rename_i haway
        obtain ⟨destination, _, h⟩ := bind_eq_ok.mp h
        cases h
        rw [if_neg fun hhere => haway (Option.some.inj hhere.1)]
        exact counting_of_same rfl (.refl _) rfl
  | response m => exact counting_of_routeToAgent h
  | rollback m => exact counting_of_routeToAgent h

theorem counting_of_receive {r : Received} (hcounted : c.sharedState.Counted)
    (h : c.receive rollbacks clock = .ok (c', r)) : Counting c c' c.counts.toList := by
  simp only [receive] at h
  split at h
  · rename_i m rest hqueue
    rw [counts, hqueue]
    have htake : Counting c { c with receiveLoadBalancingMessageQueue := rest } [] :=
      counting_of_same rfl (.refl _) rfl
    split at h
    · obtain ⟨c₁, hprocess, h⟩ := bind_eq_ok.mp h
      cases h
      exact htake.trans (counting_of_processStateMigration hprocess).1 fun id hid _ => hid
    · cases h
      exact counting_of_same rfl (.refl _) rfl
  · rename_i hnone
    split at h
    · rename_i m rest hqueue
      rw [counts, hnone, hqueue]
      obtain ⟨hranks, hparent, hload, hkept, harrived, hknown⟩ :=
        counting_of_receiveSimulation (c := { c with receiveMessageQueue := rest }) hcounted h
      exact ⟨hranks, hparent, hload, hkept, harrived, hknown⟩
    · rename_i hempty
      cases h
      rw [counts, hnone, hempty]
      exact counting_of_same rfl (.refl _) rfl

theorem counting_of_send {r : Sent} (h : c.send = .ok (c', r)) : Counting c c' [] := by
  cases sending_of_send h with
  | nothing | simulation | migration => exact counting_of_same rfl (.refl _) rfl

theorem quiet_rangeRead {agent : LpId} {range : Range} {numberOfHops time : Nat}
    (h : c.rangeRead agent range numberOfHops time = .ok c') : Quiet c c' := by
  obtain ⟨d, _, h⟩ := bind_eq_ok.mp h
  cases h
  rw [SharedState.rangeRead_eq]
  exact quiet_sharedState c (SharedState.updateAccessCounts_sameVariables _ _ _ _)

/-- A range read counts one access to each variable whose point it gives. -/
theorem counting_of_rangeRead {agent : LpId} {range : Range} {numberOfHops time : Nat}
    (hcounted : c.sharedState.Counted)
    (h : c.rangeRead agent range numberOfHops time = .ok c') :
    Counting c c' (c.countsInRange agent range numberOfHops time) := by
  obtain ⟨d, hd, h⟩ := bind_eq_ok.mp h
  cases h
  have hd := orExit_eq_ok.mp hd
  simp only [SharedState.rangeRead_eq]
  have hsame := c.sharedState.updateAccessCounts_sameVariables (c.sharedState.readAt range time) d
    numberOfHops
  obtain ⟨hparent, hload⟩ := c.sharedState.updateAccessCounts_kept
    (c.sharedState.readAt range time) d agent numberOfHops
  refine ⟨rfl, hparent, ?_, fun ssvId l hheld _ hl => ?_, fun ssvId hnot hholds => ?_,
    fun p hp => ?_⟩
  · rw [countsInRange, List.map_map]
    exact hload
  · exact SharedState.updateAccessCounts_tallies (x := ⟨agent, numberOfHops⟩) hd _ hcounted hheld
      hl
  · rw [hsame.contains, hnot] at hholds
    cases hholds
  · obtain ⟨id, _, rfl⟩ := List.mem_map.mp hp
    exact ⟨d, hd⟩

theorem counting_setGvt (c : Clp) (gvt : Nat) : Counting c (c.setGvt gvt) [] :=
  counting_of_same rfl (c.sharedState.removeWritePeriods_sameVariables gvt) rfl

end Process

end Clp

namespace RangeClp
namespace Scan

variable {c : RangeClp} {m : RangeQueryMessage} {incomingPort port : Direction} {s s' : Scan}

/-- What the loop over the ports has counted, where `read` says that it has come to `HERE`. -/
structure CountsTo (c : RangeClp) (m : RangeQueryMessage) (incomingPort : Direction)
    (read : Bool) (s : Scan) : Prop where
  range : s.newRangeQueryMessage.range = m.range
  timestamp : s.newRangeQueryMessage.timestamp = m.timestamp
  traverseHops : s.newRangeQueryMessage.numberOfTraverseHops = m.numberOfTraverseHops
  stateVariableMap : s.clp.sharedState.stateVariableMap = c.sharedState.stateVariableMap
  counters : s.clp.sharedState.accessCostCalculator = c.sharedState.accessCostCalculator ∨
    read = true ∧ s.clp.sharedState.accessCostCalculator =
      (c.sharedState.rangeRead m.range incomingPort m.numberOfTraverseHops
        m.timestamp).2.accessCostCalculator

theorem CountsTo.portScanned {read : Bool} (h : CountsTo c m incomingPort read s)
    (port : Direction) : CountsTo c m incomingPort read (s.portScanned port) :=
  ⟨h.range, h.timestamp, h.traverseHops, h.stateVariableMap, h.counters⟩

theorem CountsTo.recordQuery {read : Bool} (h : CountsTo c m incomingPort read s)
    (port : Direction) (blockStatus : Bool) :
    CountsTo c m incomingPort read (s.recordQuery port blockStatus) := by
  have hcounters : (s.recordQuery port blockStatus).clp.sharedState.accessCostCalculator =
      s.clp.sharedState.accessCostCalculator := by
    simp only [Scan.recordQuery, addRangeQueryInfo, setRangeTable]
    split <;> rfl
  refine ⟨h.range, h.timestamp, h.traverseHops, ?_, ?_⟩
  · simpa [Scan.recordQuery, addRangeQueryInfo] using h.stateVariableMap
  · rw [hcounters]
    exact h.counters

/-- A range read looks at the variables and the counters. -/
theorem CountsTo.readHere (h : CountsTo c m incomingPort false s) :
    CountsTo c m incomingPort true (s.readHere incomingPort) := by
  have hcounters : s.clp.sharedState.accessCostCalculator =
      c.sharedState.accessCostCalculator := h.counters.resolve_right fun hread => by simp at hread
  have hreads : ∀ range time, s.clp.sharedState.readAt range time =
      c.sharedState.readAt range time := fun range time => by
    rw [SharedState.readAt, SharedState.readAt, h.stateVariableMap]
  refine ⟨h.range, h.timestamp, h.traverseHops, ?_, .inr ⟨rfl, ?_⟩⟩
  · exact (s.clp.sharedState.rangeRead_frame _ _ _ _).1.trans h.stateVariableMap
  · simp only [Scan.readHere, SharedState.rangeRead_eq, hreads, h.range, h.timestamp,
      h.traverseHops]
    exact SharedState.updateAccessCounts_congr hcounters _ _ _

theorem CountsTo.next {read : Bool} (h : CountsTo c m incomingPort read s)
    (hread : port = .HERE → read = false) (hs : s.scanPort incomingPort port = some s') :
    CountsTo c m incomingPort (read || port == .HERE) s' := by
  have hweaken : ∀ {t : Scan}, CountsTo c m incomingPort read t →
      CountsTo c m incomingPort (read || port == .HERE) t := fun ht =>
    ⟨ht.range, ht.timestamp, ht.traverseHops, ht.stateVariableMap,
      ht.counters.imp_right fun hr => ⟨by simp [hr.1], hr.2⟩⟩
  simp only [Scan.scanPort] at hs
  split at hs
  · split at hs
    · split at hs
      · split at hs
        · rename_i hhere
          cases hs
          have hfalse := hread hhere
          subst hfalse
          have hcounts := ((h.recordQuery port false).readHere).portScanned port
          simpa [hhere] using hcounts
        · obtain ⟨rank, _, hs⟩ := Option.bind_eq_some_iff.mp hs
          cases hs
          have hrecord := h.recordQuery port false
          exact hweaken ⟨hrecord.range, hrecord.timestamp, hrecord.traverseHops,
            hrecord.stateVariableMap, hrecord.counters⟩
      · cases hs
        exact hweaken ((h.recordQuery port true).portScanned port)
    · cases hs
      exact hweaken h
  · cases hs
    exact hweaken (h.portScanned port)

theorem CountsTo.foldl {read : Bool} {l : List Direction} (hnodup : l.Nodup)
    (hread : .HERE ∈ l → read = false) (h : CountsTo c m incomingPort read s)
    (hs : l.foldlM (Scan.scanPort incomingPort) s = some s') :
    ∃ read, CountsTo c m incomingPort read s' := by
  induction l generalizing read s with
  | nil =>
      cases hs
      exact ⟨read, h⟩
  | cons port l ih =>
      obtain ⟨s₁, hs₁, hrest⟩ := Option.bind_eq_some_iff.mp hs
      obtain ⟨hport, hnodup⟩ := List.nodup_cons.mp hnodup
      refine ih hnodup (fun hin => ?_) (h.next (fun heq => hread (by simp [heq])) hs₁) hrest
      have hne : port ≠ .HERE := fun heq => hport (heq ▸ hin)
      simp [hread (List.mem_cons_of_mem port hin), hne]

end Scan

/-- A query that is new to a CLP counts as one range read there, if at all. -/
theorem counters_of_scan {c : RangeClp} {m : RangeQueryMessage} {s : Scan}
    (h : c.scan m = some s) :
    s.clp.sharedState.accessCostCalculator = c.sharedState.accessCostCalculator ∨
      ∃ direction, c.routeTable.getDirectionFromRank m.originalAgent.rank = some direction ∧
        s.clp.sharedState.accessCostCalculator =
          (c.sharedState.rangeRead m.range direction m.numberOfTraverseHops
            m.timestamp).2.accessCostCalculator := by
  obtain ⟨incomingPort, hdirection, h⟩ := Option.bind_eq_some_iff.mp h
  have hstart : Scan.CountsTo c m incomingPort false (c.startScan m incomingPort) :=
    ⟨rfl, rfl, rfl, rfl, .inl rfl⟩
  obtain ⟨read, hcounts⟩ := hstart.foldl (RangeTracker.getOutstandingPorts_nodup _ _)
    (fun _ => rfl) h
  exact hcounts.counters.imp_right fun hread => ⟨incomingPort, hdirection, hread.2⟩

end RangeClp
end PdesMas
