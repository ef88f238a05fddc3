import PdesMas.Lp.RangeTableEffect
import PdesMas.Routing.Directions
import PdesMas.State.CoveredTable

/-!
What a changed range table says to the neighbours. With more than one CLP no port
meets the condition for a merge, so that every neighbour but the one a change came
from gets the new range as it is.
-/

namespace PdesMas

namespace RangeUpdateMessage

/-- The range in the message, as a CLP takes it. -/
def received (m : RangeUpdateMessage) : Option Range :=
  if m.range ≠ .sentinel then some m.range else none

theorem received_getD {origin destination timestamp : Nat} {range : Option Range}
    (h : range ≠ some .sentinel) :
    received ⟨origin, destination, timestamp, range.getD .sentinel⟩ = range := by
  cases range with
  | none => exact if_neg fun hne => hne rfl
  | some range => exact if_pos fun heq => h (congrArg some heq)

end RangeUpdateMessage

namespace RangeClp

open RangeRoutingTable

/-- The message about an update to a neighbour. -/
def messageTo (c : RangeClp) (rank : Nat) (u : RangeUpdates) : RangeUpdateMessage :=
  ⟨c.rank, rank, u.time, u.newRange.getD .sentinel⟩

/-- Nothing is ever merged. -/
theorem sentRange_eq {c : RangeClp} (hclps : 2 ≤ c.numberOfClps) (port sourcePort : Direction)
    (u : RangeUpdates) : c.sentRange port sourcePort u = u.newRange := by
  have hmerged : Direction.ports.filter (c.isMerged port sourcePort) = [] := by
    refine List.filter_eq_nil_iff.mpr fun remotePort _ hmerged => ?_
    simp only [isMerged, Bool.and_eq_true, decide_eq_true_eq, beq_iff_eq] at hmerged
    omega
  rw [sentRange, hmerged, List.foldl_nil]

section Announce

variable {numberOfClps d : Nat} {alpToClpMap : Std.TreeMap Nat Nat} {c : RangeClp}
  {sourcePort : Direction}

/-- The port to a neighbour is one that updates go to, unless they came from there. -/
theorem isUpdated_portOf (hd : d < c.numberOfClps) (hadj : HeapTree.Adj c.rank d) :
    c.isUpdated sourcePort (RouteTable.portOf c.rank d) =
      (RouteTable.portOf c.rank d != sourcePort) := by
  have hport : ¬ (c.rank ≥ c.numberOfClps / 2 ∧
      (RouteTable.portOf c.rank d = .LEFT ∨ RouteTable.portOf c.rank d = .RIGHT)) := by
    intro h
    have hchild : d = 2 * c.rank + 1 ∨ d = 2 * c.rank + 2 := by
      simp only [RouteTable.portOf] at h
      grind
    omega
  have hroot : ¬ (c.rank = 0 ∧ RouteTable.portOf c.rank d = .UP) := by
    intro h
    simp only [HeapTree.Adj, RouteTable.portOf] at hadj h
    grind
  simp only [isUpdated]
  grind

theorem sendRangeUpdate_eq (hclps : 2 ≤ c.numberOfClps) (u : RangeUpdates) (port : Direction) :
    c.sendRangeUpdate sourcePort u port =
      (c.routeTable.getRankFromDirection port).map fun rank => c.messageTo rank u := by
  simp only [sendRangeUpdate, sentRange_eq hclps]
  rfl

/-- What a neighbour gets of what is sent. -/
theorem filter_sent (hclps : 2 ≤ c.numberOfClps)
    (hroutes : RouteTable.Directs c.rank numberOfClps alpToClpMap c.routeTable)
    (hd : d < numberOfClps) (hadj : HeapTree.Adj c.rank d)
    {l : List (RangeUpdates × Direction)} {sent : List RangeUpdateMessage}
    (h : l.mapM (fun r => c.sendRangeUpdate sourcePort r.1 r.2) = some sent) :
    sent.filter (fun m => m.destination = d) =
      (l.filter fun r => r.2 = RouteTable.portOf c.rank d).map fun r => c.messageTo d r.1 := by
  induction l generalizing sent with
  | nil =>
      cases h
      rfl
  | cons r rest ih =>
      rw [List.mapM_cons] at h
      obtain ⟨first, hfirst, h⟩ := Option.bind_eq_some_iff.mp h
      obtain ⟨others, hothers, h⟩ := Option.bind_eq_some_iff.mp h
      cases h
      rw [sendRangeUpdate_eq hclps] at hfirst
      obtain ⟨rank, hrank, rfl⟩ := Option.map_eq_some_iff.mp hfirst
      have hto : rank = d ↔ r.2 = RouteTable.portOf c.rank d := by
        constructor
        · intro heq
          exact ((hroutes.port r.2 d hd).mp (heq ▸ hrank)).2
        · intro hport
          have hrank' : c.routeTable.getRankFromDirection r.2 = some d :=
            (hroutes.port r.2 d hd).mpr ⟨hadj, hport⟩
          exact Option.some.inj (hrank.symm.trans hrank')
      by_cases heq : rank = d
      · have hfirst : (c.messageTo rank r.1).destination = d := heq
        rw [List.filter_cons_of_pos (by simpa using hfirst),
          List.filter_cons_of_pos (by simpa using hto.mp heq), List.map_cons, ih hothers, heq]
      · have hfirst : ¬ (c.messageTo rank r.1).destination = d := heq
        rw [List.filter_cons_of_neg (by simpa using hfirst),
          List.filter_cons_of_neg (by simpa using fun hport => heq (hto.mpr hport)), ih hothers]

theorem filter_portOf (d : Nat) (u : RangeUpdates) :
    ((([.UP, .LEFT, .RIGHT].filter (c.isUpdated sourcePort)).map fun port => (u, port)).filter
      fun r => r.2 = RouteTable.portOf c.rank d) =
        if c.isUpdated sourcePort (RouteTable.portOf c.rank d) then
          [(u, RouteTable.portOf c.rank d)]
        else [] := by
  have hone : ([.UP, .LEFT, .RIGHT] : List Direction).filter
      (fun port => port = RouteTable.portOf c.rank d) = [RouteTable.portOf c.rank d] := by
    simp only [RouteTable.portOf]
    split
    · rfl
    · split <;> rfl
  have hports : ([.UP, .LEFT, .RIGHT].filter (c.isUpdated sourcePort)).filter
      (fun port => port = RouteTable.portOf c.rank d) =
        [RouteTable.portOf c.rank d].filter (c.isUpdated sourcePort) := by
    rw [List.filter_comm, hone]
  have hmap := congrArg (List.map fun port => (u, port)) hports
  rw [List.filter_map]
  refine hmap.trans ?_
  cases hupdated : c.isUpdated sourcePort (RouteTable.portOf c.rank d) <;> simp [hupdated]

/-- Every neighbour is told of the updates of a port, unless it is behind the port. -/
theorem sendRangeUpdates_filter (hclps : c.numberOfClps = numberOfClps)
    (hroutes : RouteTable.Directs c.rank numberOfClps alpToClpMap c.routeTable)
    (hc : c.rank < numberOfClps) (hd : d < numberOfClps) (hadj : HeapTree.Adj c.rank d)
    {updates : List RangeUpdates} {sent : List RangeUpdateMessage}
    (h : c.sendRangeUpdates updates sourcePort = some sent) :
    sent.filter (fun m => m.destination = d) =
      if RouteTable.portOf c.rank d = sourcePort then [] else updates.map (c.messageTo d) := by
  have htwo : 2 ≤ c.numberOfClps := by
    have := hadj.ne
    omega
  rw [filter_sent htwo hroutes hd hadj h, List.filter_flatMap]
  simp only [filter_portOf, isUpdated_portOf (hclps ▸ hd) hadj, bne_iff_ne, ne_eq]
  by_cases hport : RouteTable.portOf c.rank d = sourcePort
  · simp [hport]
  · simp only [hport, not_false_eq_true, if_true, if_false, List.map_flatMap, List.map_cons,
      List.map_nil]
    exact List.map_eq_flatMap.symm

/-- The periods of a port are `l` now, and the neighbours are told of the updates, but for
the one behind the port. -/
structure Told (numberOfClps : Nat) (c : RangeClp) (port : Direction) (l : List RangePeriod)
    (updates : List RangeUpdates) (r : RangeClp × List RangeUpdateMessage) : Prop where
  tables : ∀ p, (r.1.rangeTable p).rangePeriodList =
    if p = port then l else (c.rangeTable p).rangePeriodList
  sent : ∀ d, d < numberOfClps → HeapTree.Adj c.rank d →
    r.2.filter (fun m => m.destination = d) =
      if RouteTable.portOf c.rank d = port then [] else updates.map (c.messageTo d)

variable {c' : RangeClp} {r : RangeClp × List RangeUpdateMessage} {port : Direction}

theorem told_announce (hclps : c.numberOfClps = numberOfClps)
    (hroutes : RouteTable.Directs c.rank numberOfClps alpToClpMap c.routeTable)
    (hc : c.rank < numberOfClps) (hkept : Kept c c')
    (htables : ∀ p, p ≠ port →
      (c'.rangeTable p).rangePeriodList = (c.rangeTable p).rangePeriodList)
    (hr : c'.announce port = some r) :
    Told numberOfClps c port (c'.rangeTable port).rangePeriodList
      (c'.rangeTable port).rangeUpdateList r := by
  obtain ⟨sent, hsent, rfl⟩ := Option.map_eq_some_iff.mp hr
  refine ⟨fun p => ?_, fun d hd hadj => ?_⟩
  · rw [clearRangeUpdates, rangeTable_setRangeTable]
    split
    · rfl
    · rename_i hp
      exact htables p hp
  · have hmessage : c'.messageTo d = c.messageTo d := by
      funext u
      rw [messageTo, messageTo, hkept.rank]
    have hroutes' : RouteTable.Directs c'.rank numberOfClps alpToClpMap c'.routeTable := by
      rwa [hkept.rank, hkept.routeTable]
    have hfilter := sendRangeUpdates_filter (hkept.numberOfClps.trans hclps) hroutes'
      (hkept.rank.symm ▸ hc) hd (hkept.rank.symm ▸ hadj) hsent
    rwa [hkept.rank, hmessage] at hfilter

theorem told_processRangeUpdate {m : RangeUpdateMessage} (hclps : c.numberOfClps = numberOfClps)
    (hroutes : RouteTable.Directs c.rank numberOfClps alpToClpMap c.routeTable)
    (hc : c.rank < numberOfClps) (hr : c.processRangeUpdate m = some r) :
    ∃ port, c.routeTable.getDirectionFromRank m.origin = some port ∧
      Told numberOfClps c port
        (setRangeAt (c.rangeTable port).rangePeriodList m.timestamp m.received)
        (announced (c.rangeTable port).rangePeriodList m.timestamp m.received) r ∧
      r.1.sharedState.stateVariableMap = c.sharedState.stateVariableMap := by
  obtain ⟨port, hport, hr⟩ := Option.bind_eq_some_iff.mp hr
  have htable := processRangeUpdate_eq ((c.clearRangeUpdates port).rangeTable port) m.timestamp
    m.received .empty
  have hcleared : (c.clearRangeUpdates port).rangeTable port =
      (c.rangeTable port).clearRangeUpdates := by
    simp [clearRangeUpdates]
  have htold := told_announce hclps hroutes hc
    ((kept_setRangeTable _ _ _).trans (kept_setRangeTable _ _ _)) (fun p hp => ?_) hr
  · refine ⟨port, hport, ?_, ?_⟩
    · rw [rangeTable_setRangeTable, if_pos rfl] at htold
      change Told _ _ _ (RangeRoutingTable.processRangeUpdate _ _ m.received _).1.rangePeriodList
        (RangeRoutingTable.processRangeUpdate _ _ m.received _).1.rangeUpdateList _ at htold
      rw [htable, hcleared] at htold
      exact htold
    · rw [(announce_eq hr).1]
      simp [clearRangeUpdates]
  · simp [clearRangeUpdates, hp]

/-- A write, or its rollback, at the CLP of the variable. -/
def Performs (c : RangeClp) (ssvId : SsvId) (originalAgent : LpId) (timestamp : Nat)
    (write : ValueWrite) (r : RangeClp × List RangeUpdateMessage) : Prop :=
  ∃ s list, (c.clearRangeUpdates .HERE).sharedState.perform ssvId originalAgent timestamp write =
      some (s, list) ∧
    { c.clearRangeUpdates .HERE with sharedState := s }.announce .HERE = some r

variable {ssvId : SsvId} {originalAgent : LpId} {timestamp : Nat} {write : ValueWrite}

theorem processWrite_performs {value : AbstractValue}
    (hr : c.processWrite ssvId originalAgent value timestamp = some r) :
    Performs c ssvId originalAgent timestamp (.writeWithRollback value) r := by
  obtain ⟨q, hq, hr⟩ := Option.bind_eq_some_iff.mp hr
  exact ⟨q.1, q.2.2, Option.map_eq_some_iff.mpr ⟨q, hq, rfl⟩, hr⟩

theorem processWriteAnti_performs (hr : c.processWriteAnti ssvId originalAgent timestamp = some r) :
    timestamp < c.gvt ∧ r = (c, []) ∨
      ¬ timestamp < c.gvt ∧ Performs c ssvId originalAgent timestamp .rollbackWrite r := by
  simp only [processWriteAnti] at hr
  split at hr
  · rename_i hgvt
    cases hr
    exact .inl ⟨hgvt, rfl⟩
  · rename_i hgvt
    obtain ⟨q, hq, hr⟩ := Option.bind_eq_some_iff.mp hr
    exact .inr ⟨hgvt, q.1, q.2, hq, hr⟩

open SharedState

theorem Performs.exists_variable (h : Performs c ssvId originalAgent timestamp write r) :
    ∃ sv, c.sharedState.stateVariableMap[ssvId]? = some sv := by
  obtain ⟨s, list, hperform, _⟩ := h
  obtain ⟨sv, hsv⟩ := perform_exists_variable hperform
  exact ⟨sv, hsv⟩

theorem performs_sharedState {s : SharedState}
    (hr : { c.clearRangeUpdates .HERE with sharedState := s }.announce .HERE = some r) :
    r.1.sharedState = { s with rangeRoutingTable := s.rangeRoutingTable.clearRangeUpdates } := by
  rw [(announce_eq hr).1]
  rfl

/-- What a write does to its CLP, if the table of `HERE` gets one new range that fits. -/
theorem told_performs {sv : StateVariable AbstractValue} {gvt : Nat}
    (hclps : c.numberOfClps = numberOfClps)
    (hroutes : RouteTable.Directs c.rank numberOfClps alpToClpMap c.routeTable)
    (hc : c.rank < numberOfClps) (hs : Ordered c.sharedState)
    (hcovered : Covered gvt c.sharedState)
    (hsv : c.sharedState.stateVariableMap[ssvId]? = some sv)
    (hfits : MovesPoint sv originalAgent timestamp write →
      Fits gvt c.sharedState ssvId sv originalAgent timestamp write)
    (hnot : MovesPoint sv originalAgent timestamp write →
      ∀ p ∈ (c.rangeTable .HERE).rangePeriodList,
        ¬ Recalculated (c.rangeTable .HERE).rangePeriodList timestamp
          (sv.readWithoutRecord timestamp).1 p)
    (h : Performs c ssvId originalAgent timestamp write r) :
    (if MovesPoint sv originalAgent timestamp write then
      Told numberOfClps c .HERE
        (setRangeAt (c.rangeTable .HERE).rangePeriodList timestamp
          (recalculateRange (c.sharedState.writtenMap ssvId sv originalAgent timestamp write)
            timestamp))
        (announced (c.rangeTable .HERE).rangePeriodList timestamp
          (recalculateRange (c.sharedState.writtenMap ssvId sv originalAgent timestamp write)
            timestamp)) r
    else Told numberOfClps c .HERE (c.rangeTable .HERE).rangePeriodList [] r) ∧
      Ordered r.1.sharedState ∧ Covered gvt r.1.sharedState := by
  obtain ⟨s, list, hperform, hr⟩ := h
  let cleared : SharedState := (c.clearRangeUpdates .HERE).sharedState
  have hs' : Ordered cleared := hs.setTable hs.rangePeriods
  have hfits' : MovesPoint sv originalAgent timestamp write →
      Fits gvt cleared ssvId sv originalAgent timestamp write := fun hmoves =>
    ⟨(hfits hmoves).here, (hfits hmoves).before, (hfits hmoves).recalculated, (hfits hmoves).kept⟩
  have htable := perform_rangeRoutingTable hs' hsv hnot hperform
  have hordered := ordered_perform hperform hs'
  have hkept : Kept c { c.clearRangeUpdates .HERE with sharedState := s } := by
    obtain ⟨hrank, hnumber, hgvt, hroutes', hcontains⟩ :=
      kept_setRangeTable c .HERE (c.rangeTable .HERE).clearRangeUpdates
    exact ⟨hrank, hnumber, hgvt, hroutes',
      fun id => ((perform_sameVariables hperform).contains id).trans (hcontains id)⟩
  have htold := told_announce hclps hroutes hc hkept (fun p hp => ?_) hr
  · have hcovered' := (covered_perform_iff hs' hcovered hsv hperform).mpr hfits'
    refine ⟨?_, ?_, ?_⟩
    · have hhere : RangeClp.rangeTable { c.clearRangeUpdates .HERE with sharedState := s } .HERE =
          s.rangeRoutingTable := rfl
      rw [hhere, htable] at htold
      split
      · rename_i hmoves
        rw [if_pos hmoves] at htold
        exact htold
      · rename_i hmoves
        rw [if_neg hmoves] at htold
        exact htold
    · rw [performs_sharedState hr]
      exact hordered.setTable hordered.rangePeriods
    · rw [performs_sharedState hr]
      exact hcovered'
  · simp [rangeTable, hp, clearRangeUpdates, setRangeTable]

end Announce

end RangeClp
end PdesMas
