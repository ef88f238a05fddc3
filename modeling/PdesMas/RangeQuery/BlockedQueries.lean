import PdesMas.RangeQuery.TableRuns
import PdesMas.Types.RangeOverlap

/-!
Queries that did not go through a port since there was nothing behind it, when a
range update says that there is something now. The update looks for them in the
period it changes, behind its own time, and asks the corners of the ranges.
-/

namespace PdesMas

namespace RangeRoutingTable

/-- The query was blocked, at a time that the update speaks of, and by its range some point
behind the port may now be an answer. -/
def Unblocked (l : List RangePeriod) (time : Nat) (range : Range)
    (e : RangePeriodListEntry) : Prop :=
  e.blockStatus = true ∧ SamePeriod l time e.time ∧
    ∃ value, range.isValueOverlapping value = true ∧ e.range.isValueOverlapping value = true

/-- The update looks at the entry and sees that the ranges overlap. -/
def SeenOverlapping (time : Nat) (range : Range) (e : RangePeriodListEntry) : Prop :=
  e.blockStatus = true ∧ time < e.time ∧ range.isRangeOverlapping e.range = true

instance (time : Nat) (range : Range) (e : RangePeriodListEntry) :
    Decidable (SeenOverlapping time range e) := inferInstanceAs (Decidable (_ ∧ _ ∧ _))

variable {l : List RangePeriod} {time t : Nat} {c : Cut RangePeriod}
variable {e : RangePeriodListEntry} {table : RangeRoutingTable}

/-- An entry for a later time of the same period is in the period that a walk finds. -/
theorem Covering.mem_focus (h : Covering l time c) (hplaced : Placed l) (he : e ∈ recorded l)
    (hsame : SamePeriod l time e.time) (hlt : time < e.time) :
    e ∈ c.focus.rangeQueryInfoList := by
  obtain ⟨p, hp, hep⟩ := mem_recorded.mp he
  have hbegun : p.time ≤ time := hsame.2 p hp (hplaced.inside p hp e hep)
  rw [← h.toList, Cut.toList, List.mem_append, List.mem_cons] at hp
  rcases hp with hp | hp | hp
  · have hle := Nat.le_trans (h.mem_front hplaced hp hep) h.focus
    exact absurd hlt (Nat.not_lt_of_le hle)
  · exact hp ▸ hep
  · exact absurd hbegun (Nat.not_le_of_lt (h.back p hp))

/-- Where a query of the same period is recorded, some period has begun. -/
theorem SamePeriod.covering (hplaced : Placed l) (he : e ∈ recorded l)
    (hsame : SamePeriod l time e.time) :
    ∃ c, Cut.last? (fun p => decide (p.time ≤ time)) l = some c := by
  obtain ⟨p, hp, hep⟩ := mem_recorded.mp he
  have hbegun : p.time ≤ time := hsame.2 p hp (hplaced.inside p hp e hep)
  cases hc : Cut.last? (fun p => decide (p.time ≤ time)) l with
  | none => exact absurd hbegun (Nat.not_le_of_lt (later_of_last?_none hc p hp))
  | some c => exact ⟨c, rfl⟩

theorem processRangeUpdate_calls (hc : table.walkBack time = some c) (range : Range)
    (rollbackList : RollbackList) :
    (table.processRangeUpdate time (some range) rollbackList).2.calls =
      rollbackList.calls ++ callsFor (c.focus.rangeQueryInfoList.filter fun e =>
        decide (SeenOverlapping time range e)) := by
  have hseen : (fun e : RangePeriodListEntry => decide (e.time > time) && e.blockStatus &&
      (some range).any (·.isRangeOverlapping e.range)) =
        fun e => decide (SeenOverlapping time range e) := by
    funext e
    rw [Bool.eq_iff_iff]
    simp only [Option.any_some, Bool.and_eq_true, decide_eq_true_eq]
    exact and_assoc.trans and_left_comm
  simp only [processRangeUpdate, hc, RangePeriod.populateRollbackListBlocked,
    RollbackList.addLps_calls, hseen, callsFor]

/-- The call was made before, or is made for some entry that the update sees to overlap. -/
theorem mem_processRangeUpdate_calls (hplaced : Placed table.rangePeriodList)
    (he : e ∈ recorded table.rangePeriodList)
    (hsame : SamePeriod table.rangePeriodList time e.time) (range : Range)
    (rollbackList : RollbackList) :
    (e.originalAlp, e.time) ∈
        (table.processRangeUpdate time (some range) rollbackList).2.calls ↔
      (e.originalAlp, e.time) ∈ rollbackList.calls ∨
        ∃ e' ∈ recorded table.rangePeriodList, e'.originalAlp = e.originalAlp ∧
          e'.time = e.time ∧ SeenOverlapping time range e' := by
  obtain ⟨c, hc⟩ := hsame.covering hplaced he
  have hcover := covering_of_last? hc
  rw [processRangeUpdate_calls hc, List.mem_append, mem_callsFor]
  refine or_congr_right ⟨?_, ?_⟩
  · intro h
    obtain ⟨e', he', hcall⟩ := h
    obtain ⟨hmem, hseen⟩ := List.mem_filter.mp he'
    obtain ⟨halp, htime⟩ := Prod.mk.inj hcall
    exact ⟨e', mem_recorded.mpr ⟨c.focus, Cut.focus_mem hcover.toList, hmem⟩, halp, htime,
      of_decide_eq_true hseen⟩
  · intro h
    obtain ⟨e', he', halp, htime, hseen⟩ := h
    have hmem := hcover.mem_focus hplaced he' (htime ▸ hsame) hseen.2.1
    exact ⟨e', List.mem_filter.mpr ⟨hmem, decide_eq_true hseen⟩, Prod.ext halp htime⟩

/-- An update rolls back the queries it unblocks exactly if, for each of them, the call is
there before or some entry with the same agent and time is later than the update and has a
corner in common with its range. -/
theorem processRangeUpdate_unblocks_iff (startTime : Nat) (first : Option Range)
    (calls : List Call) (time : Nat) (range : Range) (rollbackList : RollbackList) :
    let table := runFrom startTime first calls
    (∀ e ∈ recorded table.rangePeriodList, Unblocked table.rangePeriodList time range e →
      (e.originalAlp, e.time) ∈
        (table.processRangeUpdate time (some range) rollbackList).2.calls) ↔
    ∀ e ∈ recorded table.rangePeriodList, Unblocked table.rangePeriodList time range e →
      (e.originalAlp, e.time) ∈ rollbackList.calls ∨
        ∃ e' ∈ recorded table.rangePeriodList, e'.originalAlp = e.originalAlp ∧
          e'.time = e.time ∧ SeenOverlapping time range e' := by
  intro table
  have hplaced : Placed table.rangePeriodList := placed_foldl (placed_single startTime first)
  refine forall_congr' fun e => forall_congr' fun he => forall_congr' fun hunblocked => ?_
  exact mem_processRangeUpdate_calls hplaced he hunblocked.2.1 range rollbackList

/-- A query blocked at 5 is not rolled back by an update at 5. -/
theorem query_at_update_stays :
    let table := runFrom 0 none [.addRangeQueryInfo 5 1 ⟨⟨0, 0⟩, ⟨9, 9⟩⟩ true ⟨2, 0⟩]
    let range : Range := ⟨⟨1, 1⟩, ⟨2, 2⟩⟩
    ∃ e ∈ recorded table.rangePeriodList, Unblocked table.rangePeriodList 5 range e ∧
      (e.originalAlp, e.time) ∉ (table.processRangeUpdate 5 (some range) .empty).2.calls := by
  refine ⟨⟨1, 5, ⟨⟨0, 0⟩, ⟨9, 9⟩⟩, true, ⟨2, 0⟩⟩, by decide, ⟨rfl, by decide, ⟨1, 1⟩, ?_⟩, ?_⟩
  · decide
  · decide

end RangeRoutingTable
end PdesMas
