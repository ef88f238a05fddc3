import PdesMas.Library.Cut
import PdesMas.Lp.LpId
import PdesMas.Types.Value

/-!
The range table of one port: the range of the points behind the port over
virtual time, and the range queries answered in each period. A pointer to a
range that may be `NULL` is an option.
-/

namespace PdesMas

structure RangePeriodListEntry where
  identifier : Nat
  time : Nat
  range : Range
  blockStatus : Bool
  originalAlp : LpId
deriving DecidableEq, Repr

structure RangePeriod where
  time : Nat
  range : Option Range
  rangeQueryInfoList : List RangePeriodListEntry
deriving DecidableEq, Repr

structure RangeUpdates where
  time : Nat
  newRange : Option Range
  oldRange : Option Range
deriving DecidableEq, Repr

namespace RangePeriod

def create (time : Nat) (range : Option Range) : RangePeriod := ⟨time, range, []⟩

def setTime (p : RangePeriod) (time : Nat) : RangePeriod := { p with time := time }

def setRange (p : RangePeriod) (range : Option Range) : RangePeriod := { p with range := range }

/-- The entry's range contained the old value, or contains the new one. -/
def touches (oldValue newValue : Option Point) (e : RangePeriodListEntry) : Bool :=
  oldValue.any e.range.isValueOverlapping || newValue.any e.range.isValueOverlapping

/-- The overload of `PopulateRollbackList` with two points and no time. -/
def populateRollbackList (p : RangePeriod) (oldValue newValue : Option Point)
    (rollbackList : RollbackList) : RollbackList :=
  rollbackList.addLps
    ((p.rangeQueryInfoList.filter (touches oldValue newValue)).map fun e =>
      (e.originalAlp, e.time))

/-- The overload with two points and a time. -/
def populateRollbackListAfter (p : RangePeriod) (oldValue newValue : Option Point)
    (rollbackList : RollbackList) (time : Nat) : RollbackList :=
  rollbackList.addLps
    ((p.rangeQueryInfoList.filter fun e =>
      decide (e.time > time) && touches oldValue newValue e).map fun e =>
        (e.originalAlp, e.time))

/-- The overload with a range and a time. -/
def populateRollbackListBlocked (p : RangePeriod) (rollbackList : RollbackList) (time : Nat)
    (range : Option Range) : RollbackList :=
  rollbackList.addLps
    ((p.rangeQueryInfoList.filter fun e =>
      decide (e.time > time) && e.blockStatus && range.any (·.isRangeOverlapping e.range)).map
        fun e => (e.originalAlp, e.time))

def addToRangeQueryInfoList (p : RangePeriod) (identifier time : Nat) (range : Range)
    (blockStatus : Bool) (originalAlp : LpId) : RangePeriod :=
  { p with
    rangeQueryInfoList := p.rangeQueryInfoList ++
      [⟨identifier, time, range, blockStatus, originalAlp⟩] }

/-- The status of the first entry that has any identifier but zero. -/
def getBlockStatus (p : RangePeriod) (_identifier : Nat) : Bool :=
  match p.rangeQueryInfoList.find? fun e => e.identifier != 0 with
  | some e => e.blockStatus
  | none => true

def deleteFromRangeQueryInfoListByIdentifier (p : RangePeriod) (identifier : Nat) :
    RangePeriod :=
  { p with rangeQueryInfoList := p.rangeQueryInfoList.filter fun e => e.identifier != identifier }

def deleteFromRangeQueryInfoListByTime (p : RangePeriod) (time : Nat) : RangePeriod :=
  { p with rangeQueryInfoList := p.rangeQueryInfoList.filter fun e => ¬ e.time < time }

/-- What stays in the period, and the new period with what went over to it. -/
def migrateRangeQueryInfo (p rangePeriod : RangePeriod) (time : Nat) :
    RangePeriod × RangePeriod :=
  ({ p with rangeQueryInfoList := p.rangeQueryInfoList.filter fun e => ¬ e.time > time },
    { rangePeriod with
      rangeQueryInfoList := rangePeriod.rangeQueryInfoList ++
        p.rangeQueryInfoList.filter fun e => e.time > time })

end RangePeriod

structure RangeRoutingTable where
  rangePeriodList : List RangePeriod
  rangeUpdateList : List RangeUpdates
deriving DecidableEq, Repr

namespace RangeRoutingTable

def empty : RangeRoutingTable := ⟨[], []⟩

def clearRangeUpdates (table : RangeRoutingTable) : RangeRoutingTable :=
  { table with rangeUpdateList := [] }

/-- The reverse walk to the last period at or before `time`. -/
def walkBack (table : RangeRoutingTable) (time : Nat) : Option (Cut RangePeriod) :=
  Cut.last? (fun p => decide (p.time ≤ time)) table.rangePeriodList

def hasRangePeriod (table : RangeRoutingTable) (time : Nat) : Bool := (table.walkBack time).isSome

def getRangeCopy (table : RangeRoutingTable) (time : Nat) : Option Range :=
  (table.walkBack time).bind fun c => c.focus.range

/-- Changes the period the reverse walk finds, if it finds one. -/
def modify (table : RangeRoutingTable) (time : Nat) (f : RangePeriod → RangePeriod) :
    RangeRoutingTable :=
  match table.walkBack time with
  | some c => { table with rangePeriodList := c.front ++ f c.focus :: c.back }
  | none => table

def addRangeQueryInfo (table : RangeRoutingTable) (time identifier : Nat) (range : Range)
    (blockStatus : Bool) (originalAlp : LpId) : RangeRoutingTable :=
  table.modify time
    (·.addToRangeQueryInfoList identifier time range blockStatus originalAlp)

def getBlockStatus (table : RangeRoutingTable) (time identifier : Nat) : Bool :=
  match table.walkBack time with
  | some c => c.focus.getBlockStatus identifier
  | none => true

def deleteRangeQueryInfo (table : RangeRoutingTable) (time identifier : Nat) :
    RangeRoutingTable :=
  table.modify time (·.deleteFromRangeQueryInfoListByIdentifier identifier)

def clearRangePeriods (table : RangeRoutingTable) (time : Nat) : RangeRoutingTable :=
  match table.walkBack time with
  | none => table
  | some c =>
      let kept :=
        if c.focus.time ≠ time then
          (c.focus.setTime time).deleteFromRangeQueryInfoListByTime time
        else c.focus
      { table with
        rangePeriodList := (c.front ++ kept :: c.back).dropWhile fun p => p.time != time }

def insertRangePeriod (time : Nat) (rangePeriod : RangePeriod) (l : List RangePeriod) :
    List RangePeriod :=
  l.takeWhile (fun p => decide (p.time ≤ time)) ++
    rangePeriod :: l.dropWhile fun p => decide (p.time ≤ time)

/-- The loop of `Update` over the periods behind the changed one. The two copies it
compares are never the same object, so the range is always set. -/
def updateLater (oldValue newValue : Option Point) (time endTime : Nat)
    (recalculateRange : Nat → Option Range) :
    List RangePeriod → RollbackList → List RangePeriod × List RangeUpdates × RollbackList
  | [], rollbackList => ([], [], rollbackList)
  | p :: rest, rollbackList =>
      if p.time < endTime then
        let newRange := recalculateRange p.time
        let r := updateLater oldValue newValue time endTime recalculateRange rest
          (p.populateRollbackList oldValue newValue rollbackList)
        (p.setRange newRange :: r.1, ⟨time, newRange, p.range⟩ :: r.2.1, r.2.2)
      else (p :: rest, [], rollbackList)

/-- The period at the change itself: split, overwritten or left as it is. -/
def updateAt (c : Cut RangePeriod) (time : Nat) (newRange : Option Range) :
    List RangePeriod × List RangeUpdates :=
  let overwritten := c.front ++ c.focus.setRange newRange :: c.back
  let changed : List RangeUpdates := [⟨time, newRange, c.focus.range⟩]
  match newRange, c.focus.range with
  | some new, some old =>
      if new ≠ old then
        if c.focus.time ≠ time then
          let r := c.focus.migrateRangeQueryInfo (.create time newRange) time
          (insertRangePeriod time r.2 (c.front ++ r.1 :: c.back), changed)
        else (overwritten, changed)
      else (c.toList, [])
  | _, _ => (overwritten, changed)

/-- `ProcessRangeUpdate`, with the text of `Update` but for its loop. -/
def processRangeUpdate (table : RangeRoutingTable) (time : Nat) (range : Option Range)
    (rollbackList : RollbackList) : RangeRoutingTable × RollbackList :=
  match table.walkBack time with
  | none =>
      ({ rangePeriodList := insertRangePeriod time (.create time range) table.rangePeriodList
         rangeUpdateList := table.rangeUpdateList ++ [⟨time, range, none⟩] },
        rollbackList)
  | some c =>
      let r := updateAt c time range
      ({ rangePeriodList := r.1, rangeUpdateList := table.rangeUpdateList ++ r.2 },
        c.focus.populateRollbackListBlocked rollbackList time range)

/-- `Update`. The shared state is only asked to recalculate ranges. -/
def update (table : RangeRoutingTable) (oldValue newValue : Option Point) (time : Nat)
    (newRange : Option Range) (recalculateRange : Nat → Option Range)
    (rollbackList : RollbackList) (endTime : Nat) : RangeRoutingTable × RollbackList :=
  match Cut.last? (fun p => decide (p.time ≤ time)) table.rangePeriodList with
  | none =>
      ({ rangePeriodList := insertRangePeriod time (.create time newRange) table.rangePeriodList
         rangeUpdateList := table.rangeUpdateList ++ [⟨time, newRange, none⟩] },
        rollbackList)
  | some c =>
      let calls := c.focus.populateRollbackListAfter oldValue newValue rollbackList time
      let r := updateAt c time newRange
      let upTo := r.1.takeWhile fun p => decide (p.time ≤ time)
      let behind := r.1.dropWhile fun p => decide (p.time ≤ time)
      if r.1.length > 1 ∧ r.1.getLast?.map RangePeriod.time ≠ some time then
        match behind with
        | [] => ({ rangePeriodList := r.1, rangeUpdateList := table.rangeUpdateList ++ r.2 }, calls)
        | next :: rest =>
            -- the loop starts one period behind the next one
            let l := updateLater oldValue newValue time endTime recalculateRange rest calls
            ({ rangePeriodList := upTo ++ next :: l.1
               rangeUpdateList := table.rangeUpdateList ++ r.2 ++ l.2.1 }, l.2.2)
      else ({ rangePeriodList := r.1, rangeUpdateList := table.rangeUpdateList ++ r.2 }, calls)

end RangeRoutingTable
end PdesMas
