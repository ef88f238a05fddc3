import PdesMas.Parse.Preloading

/-!
The ranges of the ports of a CLP, made of the ranges of the CLPs behind them, and
what the tables of the ports say from the start time on.
-/

namespace PdesMas

namespace RangeClp

/-- `PortRange`, of the ranges of the CLPs behind each port. -/
def addClpRange (routeTable : RouteTable) (portRange : Direction → Option Range)
    (e : Nat × Range) : Option (Direction → Option Range) := do
  let clpDirection ← routeTable.getDirectionFromRank e.1
  if e.2 ≠ .sentinel then
    pure (Function.update portRange clpDirection (mergeRange (portRange clpDirection) (some e.2)))
  else pure portRange

def portRanges (routeTable : RouteTable) (clpToRangeMap : Std.TreeMap Nat Range) :
    Option (Direction → Option Range) :=
  clpToRangeMap.toList.foldlM (addClpRange routeTable) fun _ => none

def insertRange (startTime : Nat) (range : Option Range) (table : RangeRoutingTable) :
    RangeRoutingTable :=
  { table with
    rangePeriodList :=
      RangeRoutingTable.insertRangePeriod startTime (.create startTime range)
        table.rangePeriodList }

def deleteRangePeriod (time : Nat) (table : RangeRoutingTable) : RangeRoutingTable :=
  { table with rangePeriodList := table.rangePeriodList.eraseP fun p => p.time == time }

/-- `InitialisePortRanges`, with the ranges that are told where the recalculated range is
another one than the stored one. -/
def initialisePortRanges (c : RangeClp) (startTime : Nat)
    (clpToRangeMap : Std.TreeMap Nat Range) : Option (RangeClp × List RangeUpdateMessage) := do
  let portRange ← portRanges c.routeTable clpToRangeMap
  let c := Direction.ports.foldl
    (fun c port => c.setRangeTable port (insertRange startTime (portRange port) (c.rangeTable port)))
    c
  match SharedState.recalculateRange c.sharedState.stateVariableMap startTime,
      (c.rangeTable .HERE).getRangeCopy startTime with
  | some newRange, some storedRange =>
      if newRange ≠ storedRange then do
        let table := insertRange startTime (some newRange)
          (deleteRangePeriod startTime (c.rangeTable .HERE))
        let c := c.setRangeTable .HERE table
        let sent ← c.sendRangeUpdates [⟨startTime, some newRange, some storedRange⟩] .HERE
        pure (c.clearRangeUpdates .HERE, sent)
      else pure (c.clearRangeUpdates .HERE, [])
  | _, _ => pure (c.clearRangeUpdates .HERE, [])

/-- The ends of the range are not those of the sentinel. -/
def Occupied (range : Range) : Prop :=
  range.minRangeValue.x ≠ INT_MAX ∧ range.maxRangeValue.x ≠ INT_MAX

def AllOccupied (portRange : Direction → Option Range) : Prop :=
  ∀ port whole, portRange port = some whole → Occupied whole

/-- There is a range for the port, with this one in it. -/
def Covers (portRange : Direction → Option Range) (port : Direction) (range : Range) : Prop :=
  ∃ whole, portRange port = some whole ∧ range.Within whole

/-- No end is left out when neither range has one of the sentinel. -/
theorem minMaxOfTwoRanges_of_occupied {range other : Range} (hrange : Occupied range)
    (hother : Occupied other) :
    range.minMaxOfTwoRanges other =
      ⟨⟨min range.minRangeValue.x other.minRangeValue.x,
          min range.minRangeValue.y other.minRangeValue.y⟩,
        ⟨max range.maxRangeValue.x other.maxRangeValue.x,
          max range.maxRangeValue.y other.maxRangeValue.y⟩⟩ := by
  obtain ⟨hmin, hmax⟩ := hrange
  obtain ⟨hmin', hmax'⟩ := hother
  have hpoint : ∀ {q : Point}, q.x ≠ INT_MAX → q.isSentinel = false := by
    intro q hq
    simp [Point.isSentinel, hq]
  simp only [Range.minMaxOfTwoRanges, Point.min, Point.max, hpoint hmin, hpoint hmin', hpoint hmax,
    hpoint hmax', Bool.false_eq_true, if_false, Range.mk.injEq, Point.mk.injEq]
  omega

theorem within_minMaxOfTwoRanges {range other : Range} (hrange : Occupied range)
    (hother : Occupied other) :
    Occupied (range.minMaxOfTwoRanges other) ∧ range.Within (range.minMaxOfTwoRanges other) ∧
      other.Within (range.minMaxOfTwoRanges other) := by
  rw [minMaxOfTwoRanges_of_occupied hrange hother]
  refine ⟨?_, ⟨⟨min_le_left _ _, min_le_left _ _⟩, le_max_left _ _, le_max_left _ _⟩,
    ⟨min_le_right _ _, min_le_right _ _⟩, le_max_right _ _, le_max_right _ _⟩
  simp only [Occupied] at hrange hother ⊢
  omega

variable {routeTable : RouteTable} {portRange built : Direction → Option Range} {port : Direction}
  {e : Nat × Range} {range : Range}

/-- The range of one CLP is added to that of its port. -/
theorem covers_addClpRange (hall : AllOccupied portRange) (he : e.2 ≠ .sentinel → Occupied e.2)
    (hadd : addClpRange routeTable portRange e = some built) :
    AllOccupied built ∧
      (∀ port range, Covers portRange port range → Covers built port range) ∧
      (e.2 ≠ .sentinel → ∀ port, routeTable.getDirectionFromRank e.1 = some port →
        Covers built port e.2) := by
  obtain ⟨clpDirection, hdirection, hadd⟩ := Option.bind_eq_some_iff.mp hadd
  by_cases hsentinel : e.2 = .sentinel
  · rw [if_neg (not_not.mpr hsentinel)] at hadd
    cases hadd
    exact ⟨hall, fun _ _ h => h, fun hne => absurd hsentinel hne⟩
  · rw [if_pos hsentinel] at hadd
    obtain rfl := Option.some.inj hadd
    have hmerged : ∃ merged, mergeRange (portRange clpDirection) (some e.2) = some merged ∧
        Occupied merged ∧ e.2.Within merged ∧
          ∀ whole, portRange clpDirection = some whole → whole.Within merged := by
      cases hwhole : portRange clpDirection with
      | none => exact ⟨e.2, rfl, he hsentinel, Range.within_refl _, nofun⟩
      | some whole =>
          have hwithin := within_minMaxOfTwoRanges (hall _ _ hwhole) (he hsentinel)
          exact ⟨_, rfl, hwithin.1, hwithin.2.2, fun _ h => Option.some.inj h ▸ hwithin.2.1⟩
    obtain ⟨merged, hmerge, hoccupied, hnew, hold⟩ := hmerged
    rw [hmerge]
    refine ⟨?_, ?_, ?_⟩
    · intro port whole hwhole
      by_cases hport : port = clpDirection
      · subst hport
        rw [Function.update_self] at hwhole
        exact Option.some.inj hwhole ▸ hoccupied
      · rw [Function.update_of_ne hport] at hwhole
        exact hall port whole hwhole
    · intro port range hcovers
      obtain ⟨whole, hwhole, hwithin⟩ := hcovers
      by_cases hport : port = clpDirection
      · subst hport
        exact ⟨merged, Function.update_self .., hwithin.trans (hold whole hwhole)⟩
      · exact ⟨whole, by rw [Function.update_of_ne hport, hwhole], hwithin⟩
    · intro _ port hport
      obtain rfl := Option.some.inj (hdirection.symm.trans hport)
      exact ⟨merged, Function.update_self .., hnew⟩

theorem covers_foldlM {l : List (Nat × Range)} (hall : AllOccupied portRange)
    (hl : ∀ e ∈ l, e.2 ≠ .sentinel → Occupied e.2)
    (hadd : l.foldlM (addClpRange routeTable) portRange = some built) :
    (∀ port range, Covers portRange port range → Covers built port range) ∧
      ∀ e ∈ l, e.2 ≠ .sentinel → ∀ port, routeTable.getDirectionFromRank e.1 = some port →
        Covers built port e.2 := by
  induction l generalizing portRange with
  | nil =>
      cases hadd
      exact ⟨fun _ _ h => h, nofun⟩
  | cons e l ih =>
      obtain ⟨next, hfirst, hrest⟩ := Option.bind_eq_some_iff.mp hadd
      obtain ⟨hall, hkept, hnew⟩ := covers_addClpRange hall (hl e List.mem_cons_self) hfirst
      obtain ⟨hkepts, hnews⟩ := ih hall (fun e' he' => hl e' (List.mem_cons_of_mem e he')) hrest
      refine ⟨fun port range h => hkepts port range (hkept port range h), ?_⟩
      rw [List.forall_mem_cons]
      exact ⟨fun hne port hport => hkepts port e.2 (hnew hne port hport), hnews⟩

/-- The range of a CLP is in that of its port. -/
theorem covers_portRanges {clpToRangeMap : Std.TreeMap Nat Range}
    (hranges : ∀ (k : Nat) range, clpToRangeMap[k]? = some range → range ≠ .sentinel → Occupied range)
    (hbuilt : portRanges routeTable clpToRangeMap = some built) {k : Nat}
    (hk : clpToRangeMap[k]? = some range) (hne : range ≠ .sentinel)
    (hport : routeTable.getDirectionFromRank k = some port) : Covers built port range := by
  have hl : ∀ e ∈ clpToRangeMap.toList, e.2 ≠ .sentinel → Occupied e.2 := fun e he =>
    hranges e.1 e.2 (Std.TreeMap.mem_toList_iff_getElem?_eq_some.mp he)
  have hnone : AllOccupied fun _ => none := fun _ _ h => nomatch h
  exact (covers_foldlM hnone hl hbuilt).2 (k, range)
    (Std.TreeMap.mem_toList_iff_getElem?_eq_some.mpr hk) hne port hport

theorem minMaxOfTwoRanges_within {range other whole : Range} (hrange : Occupied range)
    (hother : Occupied other) (h : range.Within whole) (h' : other.Within whole) :
    (range.minMaxOfTwoRanges other).Within whole := by
  rw [minMaxOfTwoRanges_of_occupied hrange hother]
  exact ⟨⟨le_min h.1.1 h'.1.1, le_min h.1.2 h'.1.2⟩, max_le h.2.1 h'.2.1, max_le h.2.2 h'.2.2⟩

/-- What is built for a port is made of the ranges of the CLPs behind it. -/
theorem foldlM_induction {P : Range → Prop} {l : List (Nat × Range)}
    (hmerge : ∀ r r', Occupied r → Occupied r' → P r → P r' → P (r.minMaxOfTwoRanges r'))
    (hl : ∀ e ∈ l, e.2 ≠ .sentinel → Occupied e.2)
    (hbehind : ∀ e ∈ l, e.2 ≠ .sentinel → routeTable.getDirectionFromRank e.1 = some port → P e.2)
    (hall : AllOccupied portRange) (hstart : ∀ whole, portRange port = some whole → P whole)
    (hadd : l.foldlM (addClpRange routeTable) portRange = some built) :
    ∀ whole, built port = some whole → P whole := by
  induction l generalizing portRange with
  | nil =>
      cases hadd
      exact hstart
  | cons e l ih =>
      obtain ⟨next, hfirst, hrest⟩ := Option.bind_eq_some_iff.mp hadd
      have he := hl e List.mem_cons_self
      refine ih (fun e' he' => hl e' (List.mem_cons_of_mem e he'))
        (fun e' he' => hbehind e' (List.mem_cons_of_mem e he')) (covers_addClpRange hall he hfirst).1
        ?_ hrest
      obtain ⟨clpDirection, hdirection, hadd⟩ := Option.bind_eq_some_iff.mp hfirst
      by_cases hsentinel : e.2 = .sentinel
      · rw [if_neg (not_not.mpr hsentinel)] at hadd
        cases hadd
        exact hstart
      · rw [if_pos hsentinel] at hadd
        obtain rfl := Option.some.inj hadd
        intro whole hwhole
        by_cases hport : port = clpDirection
        · subst hport
          have hnew := hbehind e List.mem_cons_self hsentinel hdirection
          rw [Function.update_self] at hwhole
          cases hold : portRange port with
          | none =>
              rw [hold] at hwhole
              exact Option.some.inj hwhole ▸ hnew
          | some old =>
              rw [hold] at hwhole
              exact Option.some.inj hwhole ▸
                hmerge old e.2 (hall port old hold) (he hsentinel) (hstart old hold) hnew
        · rw [Function.update_of_ne hport] at hwhole
          exact hstart whole hwhole

/-- Where all that is behind one port is behind another port of another CLP, so is its range. -/
theorem inside_portRanges {clpToRangeMap : Std.TreeMap Nat Range} {routeTable' : RouteTable}
    {built' : Direction → Option Range} {port' : Direction}
    (hranges : ∀ (k : Nat) range, clpToRangeMap[k]? = some range → range ≠ .sentinel → Occupied range)
    (hbuilt : portRanges routeTable clpToRangeMap = some built)
    (hbuilt' : portRanges routeTable' clpToRangeMap = some built')
    (hbehind : ∀ (k : Nat) range, clpToRangeMap[k]? = some range →
      routeTable.getDirectionFromRank k = some port →
        routeTable'.getDirectionFromRank k = some port') :
    Range.Inside (built port) (built' port') := by
  have hget : ∀ e ∈ clpToRangeMap.toList, clpToRangeMap[e.1]? = some e.2 := fun e he =>
    Std.TreeMap.mem_toList_iff_getElem?_eq_some.mp he
  have hnone : AllOccupied fun _ => none := fun _ _ h => nomatch h
  refine foldlM_induction (P := fun r => ∃ w ∈ built' port', r.Within w) ?_
    (fun e he => hranges e.1 e.2 (hget e he)) ?_ hnone nofun hbuilt
  · intro r r' hr hr' h h'
    obtain ⟨w, hw, hwithin⟩ := h
    obtain ⟨w', hw', hwithin'⟩ := h'
    obtain rfl : w = w' := Option.some.inj (hw.symm.trans hw')
    exact ⟨w, hw, minMaxOfTwoRanges_within hr hr' hwithin hwithin'⟩
  · intro e he hne hport
    exact covers_portRanges hranges hbuilt' (hget e he) hne (hbehind e.1 e.2 (hget e he) hport)

section Tables

variable {c c' : RangeClp} {startTime : Nat} {sent : List RangeUpdateMessage}
  {clpToRangeMap : Std.TreeMap Nat Range}

theorem rangeTable_foldl_insertRange (c : RangeClp) (startTime : Nat)
    (portRange : Direction → Option Range) (port : Direction) (hport : port ∈ Direction.ports) :
    (Direction.ports.foldl
      (fun c port =>
        c.setRangeTable port (insertRange startTime (portRange port) (c.rangeTable port)))
      c).rangeTable port = insertRange startTime (portRange port) (c.rangeTable port) := by
  simp only [Direction.ports, List.mem_cons, List.not_mem_nil, or_false] at hport
  rcases hport with rfl | rfl | rfl | rfl
  · simp [Direction.ports]
  · simp [Direction.ports]
  · simp [Direction.ports]
  · simp [Direction.ports]

theorem insertRange_of_empty {table : RangeRoutingTable} (hempty : table.rangePeriodList = [])
    (range : Option Range) :
    (insertRange startTime range table).rangePeriodList = [.create startTime range] := by
  simp [insertRange, RangeRoutingTable.insertRangePeriod, hempty]

theorem getRangeCopy_of_single {table : RangeRoutingTable} {range : Option Range}
    (hsingle : table.rangePeriodList = [.create startTime range]) {time : Nat}
    (htime : startTime ≤ time) : table.getRangeCopy time = range := by
  simp [RangeRoutingTable.getRangeCopy, RangeRoutingTable.walkBack, hsingle, Cut.last?,
    RangePeriod.create, htime]

/-- The tables of the other ports get what has been built, and that of the port to the own
variables what is found in them, if anything is. -/
theorem rangePeriodList_initialisePortRanges
    (hempty : ∀ port ∈ Direction.ports, (c.rangeTable port).rangePeriodList = [])
    (h : c.initialisePortRanges startTime clpToRangeMap = some (c', sent)) :
    ∃ portRange, portRanges c.routeTable clpToRangeMap = some portRange ∧
      c'.routeTable = c.routeTable ∧
      (∀ port ∈ Direction.ports, port ≠ .HERE →
        (c'.rangeTable port).rangePeriodList = [.create startTime (portRange port)]) ∧
      (c'.rangeTable .HERE).rangePeriodList =
        [.create startTime ((portRange .HERE).map fun stored =>
          (SharedState.recalculateRange c.sharedState.stateVariableMap startTime).getD stored)] := by
  obtain ⟨portRange, hbuilt, h⟩ := Option.bind_eq_some_iff.mp h
  refine ⟨portRange, hbuilt, ?_⟩
  have htables := rangeTable_foldl_insertRange c startTime portRange
  have hkept : (Direction.ports.foldl
      (fun c port =>
        c.setRangeTable port (insertRange startTime (portRange port) (c.rangeTable port)))
      c).sharedState.stateVariableMap = c.sharedState.stateVariableMap ∧
      (Direction.ports.foldl
        (fun c port =>
          c.setRangeTable port (insertRange startTime (portRange port) (c.rangeTable port)))
        c).routeTable = c.routeTable := by
    simp [Direction.ports]
  dsimp only at h
  generalize Direction.ports.foldl _ c = inserted at h htables hkept
  obtain ⟨hvariables, hroutes⟩ := hkept
  have hperiods : ∀ port ∈ Direction.ports,
      (inserted.rangeTable port).rangePeriodList = [.create startTime (portRange port)] := by
    intro port hport
    rw [htables port hport]
    exact insertRange_of_empty (hempty port hport) _
  have hcleared : ∀ (d : RangeClp) port, ((d.clearRangeUpdates .HERE).rangeTable port).rangePeriodList
      = (d.rangeTable port).rangePeriodList := by
    intro d port
    rw [clearRangeUpdates, rangeTable_setRangeTable]
    split
    · next hport => rw [hport]; rfl
    · rfl
  have hroute : ∀ d : RangeClp, (d.clearRangeUpdates .HERE).routeTable = d.routeTable := fun d => by
    rw [clearRangeUpdates, setRangeTable_routeTable]
  have hhere := hperiods .HERE (by decide)
  have hstored : (inserted.rangeTable .HERE).getRangeCopy startTime = portRange .HERE :=
    getRangeCopy_of_single hhere (Nat.le_refl _)
  rw [hvariables, hstored] at h
  split at h
  · next newRange storedRange hnew hold =>
    rw [hnew, hold]
    split at h
    · -- the period of the port is another one
      obtain ⟨_, _, h⟩ := Option.bind_eq_some_iff.mp h
      cases h
      refine ⟨by rw [hroute, setRangeTable_routeTable, hroutes], fun port hport hne => ?_, ?_⟩
      · rw [hcleared, rangeTable_setRangeTable, if_neg hne, hperiods port hport]
      · rw [hcleared, rangeTable_setRangeTable, if_pos rfl]
        refine insertRange_of_empty ?_ _
        simp [deleteRangePeriod, hhere, RangePeriod.create]
    · next heq =>
      cases h
      refine ⟨by rw [hroute, hroutes], fun port hport _ => (hcleared _ _).trans (hperiods port hport),
        ?_⟩
      rw [hcleared, hhere, hold, not_not.mp heq]
      rfl
  · next hnone =>
    cases h
    refine ⟨by rw [hroute, hroutes], fun port hport _ => (hcleared _ _).trans (hperiods port hport),
      ?_⟩
    rw [hcleared, hhere]
    cases hrange : portRange .HERE with
    | none => rfl
    | some storedRange =>
        cases hnew : SharedState.recalculateRange c.sharedState.stateVariableMap startTime with
        | none => rfl
        | some newRange => exact absurd hrange (hnone newRange storedRange hnew)

/-- From the start time on, the tables of the other ports say what has been built, and that
of the port to the own variables says what is found in them, if anything is. -/
theorem getRangeCopy_initialisePortRanges
    (hempty : ∀ port ∈ Direction.ports, (c.rangeTable port).rangePeriodList = [])
    (h : c.initialisePortRanges startTime clpToRangeMap = some (c', sent)) {time : Nat}
    (htime : startTime ≤ time) :
    ∃ portRange, portRanges c.routeTable clpToRangeMap = some portRange ∧
      (∀ port ∈ Direction.ports, port ≠ .HERE →
        (c'.rangeTable port).getRangeCopy time = portRange port) ∧
      (c'.rangeTable .HERE).getRangeCopy time =
        (portRange .HERE).map fun stored =>
          (SharedState.recalculateRange c.sharedState.stateVariableMap startTime).getD stored := by
  obtain ⟨portRange, hbuilt, _, hports, hhere⟩ := rangePeriodList_initialisePortRanges hempty h
  refine ⟨portRange, hbuilt, fun port hport hne => ?_, getRangeCopy_of_single hhere htime⟩
  exact getRangeCopy_of_single (hports port hport hne) htime

/-- Each port has one period, with what is recorded for the CLPs behind it. -/
def Initialised (startTime : Nat) (clpToRangeMap : Std.TreeMap Nat Range) (c : RangeClp) : Prop :=
  ∃ portRange, portRanges c.routeTable clpToRangeMap = some portRange ∧
    ∀ port ∈ Direction.ports,
      (c.rangeTable port).rangePeriodList = [.create startTime (portRange port)]

/-- So `InitialisePortRanges` leaves the CLP, where the recorded range is the one it finds. -/
theorem initialised_of_initialisePortRanges
    (hempty : ∀ port ∈ Direction.ports, (c.rangeTable port).rangePeriodList = [])
    (h : c.initialisePortRanges startTime clpToRangeMap = some (c', sent))
    (hbox : ∀ portRange stored range, portRanges c.routeTable clpToRangeMap = some portRange →
      portRange .HERE = some stored →
        SharedState.recalculateRange c.sharedState.stateVariableMap startTime = some range →
          range = stored) : Initialised startTime clpToRangeMap c' := by
  obtain ⟨portRange, hbuilt, hroutes, hports, hhere⟩ :=
    rangePeriodList_initialisePortRanges hempty h
  refine ⟨portRange, hroutes.symm ▸ hbuilt, fun port hport => ?_⟩
  by_cases heq : port = .HERE
  · subst heq
    rw [hhere]
    cases hstored : portRange .HERE with
    | none => rfl
    | some stored =>
        cases hrange : SharedState.recalculateRange c.sharedState.stateVariableMap startTime with
        | none => rfl
        | some range => rw [hbox portRange stored range hbuilt hstored hrange]; rfl
  · exact hports port hport heq

end Tables
end RangeClp

section Boxes
open PreloadingInitialisor

variable {fmt : DoubleFormat} {init : PreloadingInitialisor} {calls : List Preload}

/-- The range recorded for each CLP is the box of the points preloaded on it. -/
def RecordsBoxes (fmt : DoubleFormat) (calls : List Preload) (numberOfClps : Nat)
    (clpToRangeMap : Std.TreeMap Nat Range) : Prop :=
  ∀ k < numberOfClps, ∃ range, clpToRangeMap[k]? = some range ∧
    RangeClp.SummaryOf ((preloaded fmt calls k).map Point.range) range

/-- Whatever CLP builds them, the ranges of its ports contain the points in their direction. -/
def PortRangesContain (fmt : DoubleFormat) (calls : List Preload) (numberOfClps : Nat)
    (clpToRangeMap : Std.TreeMap Nat Range) : Prop :=
  ∀ routeTable portRange, RangeClp.portRanges routeTable clpToRangeMap = some portRange →
    ∀ k < numberOfClps, ∀ port, routeTable.getDirectionFromRank k = some port →
      ∀ p ∈ preloaded fmt calls k, ∃ range, portRange port = some range ∧
        range.isValueOverlapping p = true

theorem isValueOverlapping_of_within {range : Range} {p : Point} (h : p.range.Within range) :
    range.isValueOverlapping p = true :=
  Range.isValueOverlapping_iff.mpr ⟨⟨h.1.1, h.2.1⟩, h.1.2, h.2.2⟩

/-- The ranges are boxes, and the ports' ranges then complete, exactly if on each CLP the
lowest points are among those looked at. -/
theorem preloaded_boxes_iff (fmt : DoubleFormat) (numberOfClps : Nat) (calls : List Preload)
    (init : PreloadingInitialisor)
    (hrun : calls.foldlM (preloadVariable fmt) (create numberOfClps) = some init)
    (hpoints : ∀ call ∈ calls, ∀ p, call.point? fmt = some p → p.x ≠ INT_MAX ∧ p.y ≠ INT_MAX) :
    RecordsBoxes fmt calls numberOfClps init.finalise.clpToRangeMap ∧
        PortRangesContain fmt calls numberOfClps init.finalise.clpToRangeMap ↔
      ∀ k < numberOfClps, LowestLookedAt (preloaded fmt calls k) := by
  have hmap := clpToRangeMap_finalise hrun
  have hpoints : ∀ k, ∀ p ∈ preloaded fmt calls k, p.x ≠ INT_MAX := by
    intro k p hp
    obtain ⟨call, hcall, _, hpoint⟩ := mem_preloaded.mp hp
    exact (hpoints call hcall p hpoint).1
  have hboxes : RecordsBoxes fmt calls numberOfClps init.finalise.clpToRangeMap ↔
      ∀ k < numberOfClps, LowestLookedAt (preloaded fmt calls k) := by
    refine forall₂_congr fun k hk => ?_
    rw [← summaryOf_record_iff, hmap, if_pos hk]
    simp
  have hoccupied : ∀ (k : Nat) range, init.finalise.clpToRangeMap[k]? = some range →
      range ≠ .sentinel → RangeClp.Occupied range := by
    intro k range hrange hne
    have hrecord : (preloaded fmt calls k).foldl Range.record none = some range := by
      rw [hmap] at hrange
      split at hrange
      · cases hr : (preloaded fmt calls k).foldl Range.record none with
        | none =>
            rw [hr] at hrange
            exact absurd (Option.some.inj hrange).symm hne
        | some r =>
            rw [hr] at hrange
            exact hrange
      · exact hrange
    obtain ⟨p, hp, q, hq, hmin, hmax⟩ := mem_of_record_eq_some hrecord
    exact ⟨hmin ▸ hpoints k p hp, hmax ▸ hpoints k q hq⟩
  refine (and_iff_left_of_imp fun hrecords => ?_).trans hboxes
  intro routeTable portRange hbuilt k hk port hport p hp
  obtain ⟨range, hrange, hsummary⟩ := hrecords k hk
  have hmem : p.range ∈ (preloaded fmt calls k).map Point.range := List.mem_map_of_mem hp
  have hbox := RangeClp.SummaryOf.isBox hsummary hmem
  have hwithin := hbox.within hmem
  have hne : range ≠ .sentinel := by
    rintro rfl
    obtain ⟨r, hr, hmin⟩ := hbox.minX.1
    obtain ⟨q, hq, rfl⟩ := List.mem_map.mp hr
    exact hpoints k q hq hmin
  obtain ⟨whole, hwhole, hin⟩ := RangeClp.covers_portRanges hoccupied hbuilt hrange hne hport
  exact ⟨whole, hwhole, isValueOverlapping_of_within (hwithin.trans hin)⟩

theorem preloaded_boxes_iff_rightwards :
    let calls : List Preload := [.ofPoint 10701 ⟨0, 0⟩ 0, .ofPoint 10702 ⟨1, 0⟩ 0]
    ∃ init, calls.foldlM (preloadVariable noDoubles) (create 1) = some init ∧
      (RecordsBoxes noDoubles calls 1 init.finalise.clpToRangeMap ∧
          PortRangesContain noDoubles calls 1 init.finalise.clpToRangeMap ↔
        ∀ k < 1, LowestLookedAt (preloaded noDoubles calls k)) := by
  intro calls
  have hrun : (calls.foldlM (preloadVariable noDoubles) (create 1)).isSome = true := by
    decide +kernel
  obtain ⟨init, hinit⟩ := Option.isSome_iff_exists.mp hrun
  have hpoints : ∀ call ∈ calls, ∀ p, call.point? noDoubles = some p →
      p.x ≠ INT_MAX ∧ p.y ≠ INT_MAX := by
    decide +kernel
  exact ⟨init, hinit, preloaded_boxes_iff noDoubles 1 calls init hinit hpoints⟩

/-- The second point is the lower one, and further to the right, so that it only moves the
maximum: the range of its CLP, and that of the port to it, stay above it. -/
theorem lower_point_left_out :
    let calls : List Preload := [.ofPoint 1 ⟨0, 5⟩ 1, .ofPoint 2 ⟨5, 0⟩ 1]
    ∃ init, calls.foldlM (preloadVariable noDoubles) (create 2) = some init ∧
      (∀ call ∈ calls, ∀ p, call.point? noDoubles = some p → p.x ≠ INT_MAX ∧ p.y ≠ INT_MAX) ∧
      init.finalise.clpToRangeMap[1]? = some ⟨⟨0, 5⟩, ⟨5, 5⟩⟩ ∧
      ¬ RecordsBoxes noDoubles calls 2 init.finalise.clpToRangeMap ∧
      ¬ PortRangesContain noDoubles calls 2 init.finalise.clpToRangeMap := by
  intro calls
  let range : Range := ⟨⟨0, 5⟩, ⟨5, 5⟩⟩
  have hrun : (do
      let init ← calls.foldlM (preloadVariable noDoubles) (create 2)
      let routeTable ← RouteTable.create 0 2 init.toInitialisor
      let portRange ← RangeClp.portRanges routeTable init.finalise.clpToRangeMap
      pure (init.finalise.clpToRangeMap[1]?, routeTable.getDirectionFromRank 1,
        portRange .LEFT)) = some (some range, some .LEFT, some range) := by
    decide +kernel
  obtain ⟨init, hinit, hrun⟩ := Option.bind_eq_some_iff.mp hrun
  obtain ⟨routeTable, _, hrun⟩ := Option.bind_eq_some_iff.mp hrun
  obtain ⟨portRange, hbuilt, hrun⟩ := Option.bind_eq_some_iff.mp hrun
  obtain ⟨hrange, hrun⟩ := Prod.mk.inj (Option.some.inj hrun)
  obtain ⟨hdirection, hport⟩ := Prod.mk.inj hrun
  have hmem : (⟨5, 0⟩ : Point) ∈ preloaded noDoubles calls 1 := by decide +kernel
  refine ⟨init, hinit, by decide +kernel, hrange, ?_, ?_⟩
  · intro hrecords
    obtain ⟨recorded, hrecorded, hsummary⟩ := hrecords 1 (by decide)
    obtain rfl := Option.some.inj (hrange.symm.trans hrecorded)
    have hpoint := List.mem_map_of_mem (f := Point.range) hmem
    exact absurd ((hsummary.isBox hpoint).within hpoint).1.2 (by decide)
  · intro hcontain
    obtain ⟨whole, hwhole, hin⟩ :=
      hcontain routeTable portRange hbuilt 1 (by decide) .LEFT hdirection _ hmem
    obtain rfl := Option.some.inj (hport.symm.trans hwhole)
    exact absurd hin (by decide)

end Boxes
end PdesMas
