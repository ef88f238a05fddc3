import PdesMas.RangeQuery.RangeOverTime

/-!
A range table through all the calls made on it. From the one period of the
initialisation on, the periods stay in order, and a collection forgets nothing of
what can still be asked.
-/

namespace PdesMas

namespace RangeRoutingTable

inductive Call where
  | processRangeUpdate (time : Nat) (range : Option Range) (rollbackList : RollbackList)
  | update (oldValue newValue : Option Point) (time : Nat) (newRange : Option Range)
      (recalculateRange : Nat → Option Range) (rollbackList : RollbackList) (endTime : Nat)
  | clearRangePeriods (time : Nat)
  | addRangeQueryInfo (time identifier : Nat) (range : Range) (blockStatus : Bool)
      (originalAlp : LpId)
  | deleteRangeQueryInfo (time identifier : Nat)
  | clearRangeUpdates

def exec (table : RangeRoutingTable) : Call → RangeRoutingTable
  | .processRangeUpdate time range rollbackList =>
      (table.processRangeUpdate time range rollbackList).1
  | .update oldValue newValue time newRange recalculateRange rollbackList endTime =>
      (table.update oldValue newValue time newRange recalculateRange rollbackList endTime).1
  | .clearRangePeriods time => table.clearRangePeriods time
  | .addRangeQueryInfo time identifier range blockStatus originalAlp =>
      table.addRangeQueryInfo time identifier range blockStatus originalAlp
  | .deleteRangeQueryInfo time identifier => table.deleteRangeQueryInfo time identifier
  | .clearRangeUpdates => table.clearRangeUpdates

/-- The calls one after the other, from what `InitialisePortRanges` leaves. -/
def runFrom (startTime : Nat) (range : Option Range) (calls : List Call) : RangeRoutingTable :=
  calls.foldl exec ⟨[.create startTime range], []⟩

variable {table : RangeRoutingTable} {call : Call} {time t : Nat}

theorem placed_exec (h : Placed table.rangePeriodList) :
    Placed (table.exec call).rangePeriodList := by
  cases call with
  | processRangeUpdate time range rollbackList => exact placed_processRangeUpdate _ h _ _ _
  | update oldValue newValue time newRange recalculateRange rollbackList endTime =>
      exact placed_update _ _ _ _ _ _ _ h
  | clearRangePeriods time => exact placed_clearRangePeriods _ h _
  | addRangeQueryInfo time identifier range blockStatus originalAlp =>
      exact placed_addRangeQueryInfo _ h _ _ _ _ _
  | deleteRangeQueryInfo time identifier => exact placed_deleteRangeQueryInfo _ h _ _
  | clearRangeUpdates => exact h

/-- Only a collection beyond `t` can take the periods for `t` away. -/
theorem hasRangePeriod_exec (hcall : ∀ g, call = .clearRangePeriods g → g ≤ t)
    (h : table.hasRangePeriod t = true) : (table.exec call).hasRangePeriod t = true := by
  cases call with
  | processRangeUpdate time range rollbackList =>
      exact (keepsTimes_processRangeUpdate _ _ _ _).hasRangePeriod h
  | update oldValue newValue time newRange recalculateRange rollbackList endTime =>
      exact (keepsTimes_update _ _ _ _ _ _ _ _).hasRangePeriod h
  | clearRangePeriods g => exact hasRangePeriod_clearRangePeriods _ (hcall g rfl) h
  | addRangeQueryInfo time identifier range blockStatus originalAlp =>
      have hkeeps : KeepsTimes table.rangePeriodList (table.addRangeQueryInfo time identifier range
          blockStatus originalAlp).rangePeriodList := keepsTimes_modify fun _ => rfl
      exact hkeeps.hasRangePeriod h
  | deleteRangeQueryInfo time identifier =>
      have hkeeps : KeepsTimes table.rangePeriodList
          (table.deleteRangeQueryInfo time identifier).rangePeriodList :=
        keepsTimes_modify fun _ => rfl
      exact hkeeps.hasRangePeriod h
  | clearRangeUpdates => exact h

theorem ne_nil_of_hasRangePeriod (h : table.hasRangePeriod t = true) :
    table.rangePeriodList ≠ [] := by
  obtain ⟨p, hp, _⟩ := (hasRangePeriod_iff table t).mp h
  exact List.ne_nil_of_mem hp

/-- A collection leaves what is asked of later times alone. -/
theorem getRangeCopy_clearRangePeriods {gvt : Nat} (hle : gvt ≤ t) :
    (table.clearRangePeriods gvt).getRangeCopy t = table.getRangeCopy t := by
  cases hc : table.walkBack gvt with
  | none => rw [clearRangePeriods_of_none hc]
  | some c =>
      obtain ⟨hafter, hbefore⟩ := periodAt_clearRangePeriods hle hc
      have hrange : (if c.focus.time ≠ gvt then
          (c.focus.setTime gvt).deleteFromRangeQueryInfoListByTime gvt else c.focus).range =
            c.focus.range := by
        split <;> rfl
      rw [getRangeCopy_eq, getRangeCopy_eq, rangeAt_eq, rangeAt_eq, hafter, hbefore]
      cases periodAt c.back t with
      | none => exact hrange
      | some q => rfl

theorem hasRangePeriod_clearRangePeriods_eq {gvt : Nat} (hle : gvt ≤ t) :
    (table.clearRangePeriods gvt).hasRangePeriod t = table.hasRangePeriod t := by
  cases hc : table.walkBack gvt with
  | none => rw [clearRangePeriods_of_none hc]
  | some c =>
      have hcover := covering_of_last? hc
      have hperiod : table.hasRangePeriod t = true := (hasRangePeriod_iff table t).mpr
        ⟨c.focus, Cut.focus_mem hcover.toList, Nat.le_trans hcover.focus hle⟩
      rw [hperiod, hasRangePeriod_clearRangePeriods _ hle hperiod]

section Run

variable {calls : List Call}

theorem placed_foldl (h : Placed table.rangePeriodList) :
    Placed (calls.foldl exec table).rangePeriodList := by
  induction calls generalizing table with
  | nil => exact h
  | cons call calls ih => exact ih (placed_exec h)

theorem hasRangePeriod_foldl (hcalls : ∀ g, .clearRangePeriods g ∈ calls → g ≤ t)
    (h : table.hasRangePeriod t = true) : (calls.foldl exec table).hasRangePeriod t = true := by
  induction calls generalizing table with
  | nil => exact h
  | cons call calls ih =>
      refine ih (fun g hg => hcalls g (List.mem_cons_of_mem _ hg)) (hasRangePeriod_exec ?_ h)
      exact fun g hg => hcalls g (hg ▸ List.mem_cons_self)

theorem hasRangePeriod_runFrom {startTime : Nat} {range : Option Range} (hstart : startTime ≤ t)
    (hcalls : ∀ g, .clearRangePeriods g ∈ calls → g ≤ t) :
    (runFrom startTime range calls).hasRangePeriod t = true := by
  refine hasRangePeriod_foldl hcalls ((hasRangePeriod_iff _ _).mpr ?_)
  exact ⟨.create startTime range, List.mem_singleton_self _, hstart⟩

/-- A time that no collection of the calls is beyond. -/
theorem exists_clearRangePeriods_le (calls : List Call) :
    ∃ t, ∀ g, .clearRangePeriods g ∈ calls → g ≤ t := by
  induction calls with
  | nil => exact ⟨0, nofun⟩
  | cons call calls ih =>
      obtain ⟨t, ht⟩ := ih
      cases call with
      | clearRangePeriods g =>
          refine ⟨Nat.max g t, fun g' hg' => ?_⟩
          cases List.mem_cons.mp hg' with
          | inl heq =>
              cases heq
              exact Nat.le_max_left g t
          | inr hin => exact Nat.le_trans (ht g' hin) (Nat.le_max_right g t)
      | _ => exact ⟨t, fun g hg => ht g (by simpa using hg)⟩

end Run

/-- The periods are in order after any calls, and collections keep what is asked of later
times; from the start and from the latest of them on there is a period. -/
theorem increasing_runFrom (startTime : Nat) (range : Option Range) (calls : List Call) :
    Increasing (runFrom startTime range calls).rangePeriodList ∧
      (runFrom startTime range calls).rangePeriodList ≠ [] ∧
      (∀ g t, g ≤ t →
        ((runFrom startTime range calls).clearRangePeriods g).getRangeCopy t =
            (runFrom startTime range calls).getRangeCopy t ∧
          ((runFrom startTime range calls).clearRangePeriods g).hasRangePeriod t =
            (runFrom startTime range calls).hasRangePeriod t) ∧
      ∀ t, startTime ≤ t → (∀ g, .clearRangePeriods g ∈ calls → g ≤ t) →
        (runFrom startTime range calls).hasRangePeriod t = true := by
  refine ⟨(placed_foldl (placed_single startTime range)).increasing, ?_, fun g t hle => ?_,
    fun t hstart hcalls => hasRangePeriod_runFrom hstart hcalls⟩
  · obtain ⟨t, ht⟩ := exists_clearRangePeriods_le calls
    have hperiod : (runFrom startTime range calls).hasRangePeriod (Nat.max startTime t) = true :=
      hasRangePeriod_runFrom (Nat.le_max_left _ _) fun g hg =>
        Nat.le_trans (ht g hg) (Nat.le_max_right _ _)
    exact ne_nil_of_hasRangePeriod hperiod
  · exact ⟨getRangeCopy_clearRangePeriods hle, hasRangePeriod_clearRangePeriods_eq hle⟩

/-- A collection for a time that an earlier one has passed brings nothing back. -/
theorem earlier_collection_restores_nothing :
    (runFrom 0 none [.clearRangePeriods 10, .clearRangePeriods 5]).hasRangePeriod 7 = false := by
  decide

end RangeRoutingTable
end PdesMas
