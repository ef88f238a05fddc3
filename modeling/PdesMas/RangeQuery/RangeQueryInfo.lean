import PdesMas.RangeQuery.RangeRoutingTable

/-!
The range queries recorded in a table. An update of the table moves them between
periods and may call for rollbacks of their agents, but makes and loses none.
-/

namespace PdesMas

namespace RangeRoutingTable

/-- All entries of all periods. -/
def recorded (l : List RangePeriod) : List RangePeriodListEntry :=
  l.flatMap RangePeriod.rangeQueryInfoList

@[simp] theorem mem_recorded {l : List RangePeriod} {e : RangePeriodListEntry} :
    e ∈ recorded l ↔ ∃ p ∈ l, e ∈ p.rangeQueryInfoList := List.mem_flatMap

@[simp] theorem recorded_cons (p : RangePeriod) (l : List RangePeriod) :
    recorded (p :: l) = p.rangeQueryInfoList ++ recorded l := rfl

@[simp] theorem recorded_append (l l' : List RangePeriod) :
    recorded (l ++ l') = recorded l ++ recorded l' := by
  simp [recorded]

theorem recorded_insertRangePeriod (time : Nat) (p : RangePeriod) (l : List RangePeriod) :
    (recorded (insertRangePeriod time p l)).Perm (p.rangeQueryInfoList ++ recorded l) := by
  have hsplit : recorded l = recorded (l.takeWhile fun q => decide (q.time ≤ time)) ++
      recorded (l.dropWhile fun q => decide (q.time ≤ time)) := by
    rw [← recorded_append, List.takeWhile_append_dropWhile]
  rw [insertRangePeriod, recorded_append, recorded_cons, hsplit]
  exact List.perm_append_comm_assoc ..

theorem recorded_updateLater (oldValue newValue : Option Point) (time endTime : Nat)
    (recalculateRange : Nat → Option Range) (l : List RangePeriod)
    (rollbackList : RollbackList) :
    recorded (updateLater oldValue newValue time endTime recalculateRange l rollbackList).1 =
      recorded l := by
  induction l generalizing rollbackList with
  | nil => rfl
  | cons p rest ih =>
      simp only [updateLater]
      split
      · simp only [recorded_cons, ih]
        rfl
      · rfl

/-- What a period keeps and what goes over to a later one make up what it had. -/
theorem recorded_migrate (p : RangePeriod) (time : Nat) (range : Option Range) :
    ((p.migrateRangeQueryInfo (.create time range) time).2.rangeQueryInfoList ++
      (p.migrateRangeQueryInfo (.create time range) time).1.rangeQueryInfoList).Perm
        p.rangeQueryInfoList := by
  have hperm := List.filter_append_perm (fun e : RangePeriodListEntry => decide (e.time > time))
    p.rangeQueryInfoList
  have hnot : (p.rangeQueryInfoList.filter fun e => ¬ e.time > time) =
      p.rangeQueryInfoList.filter fun e => !decide (e.time > time) :=
    List.filter_congr fun e _ => by by_cases h : time < e.time <;> simp [h]
  simpa only [RangePeriod.migrateRangeQueryInfo, RangePeriod.create, hnot, List.nil_append]
    using hperm

theorem recorded_updateAt (c : Cut RangePeriod) (time : Nat) (newRange : Option Range) :
    (recorded (updateAt c time newRange).1).Perm (recorded c.toList) := by
  have hsame : recorded (c.front ++ c.focus.setRange newRange :: c.back) = recorded c.toList := by
    simp [Cut.toList, RangePeriod.setRange]
  simp only [updateAt]
  split
  · rename_i new old _ _
    split
    · split
      · refine (recorded_insertRangePeriod _ _ _).trans ?_
        simp only [recorded_append, recorded_cons, Cut.toList]
        refine (List.perm_append_comm_assoc _ _ _).trans (List.Perm.append_left _ ?_)
        rw [← List.append_assoc]
        exact (recorded_migrate c.focus time _).append_right _
      · rw [hsame]
    · rfl
  · rw [hsame]

/-- The calls for a set of entries. -/
def callsFor (entries : List RangePeriodListEntry) : List (LpId × Nat) :=
  entries.map fun e => (e.originalAlp, e.time)

theorem mem_callsFor {entries : List RangePeriodListEntry} {c : LpId × Nat} :
    c ∈ callsFor entries ↔ ∃ e ∈ entries, (e.originalAlp, e.time) = c := List.mem_map

theorem updateLater_calls (oldValue newValue : Option Point) (time endTime : Nat)
    (recalculateRange : Nat → Option Range) (l : List RangePeriod)
    (rollbackList : RollbackList) :
    (updateLater oldValue newValue time endTime recalculateRange l rollbackList).2.2.calls =
      rollbackList.calls ++ callsFor
        ((recorded (l.takeWhile fun p => decide (p.time < endTime))).filter
          (RangePeriod.touches oldValue newValue)) := by
  induction l generalizing rollbackList with
  | nil => simp [updateLater, recorded, callsFor]
  | cons p rest ih =>
      simp only [updateLater]
      split
      · rename_i hp
        rw [ih, List.takeWhile_cons_of_pos (by simpa using hp), recorded_cons,
          List.filter_append]
        simp [RangePeriod.populateRollbackList, callsFor]
      · rename_i hp
        rw [List.takeWhile_cons_of_neg (by simpa using hp)]
        simp [recorded, callsFor]

/-- The periods whose entries the loop of an update looks at. -/
def laterPeriods (l : List RangePeriod) (time endTime : Nat) : List RangePeriod :=
  if l.length > 1 ∧ l.getLast?.map RangePeriod.time ≠ some time then
    ((l.dropWhile fun p => decide (p.time ≤ time)).drop 1).takeWhile fun p =>
      decide (p.time < endTime)
  else []

/-- The entries an update calls for: those behind the change in its own period, and those
of the periods that its loop comes to. -/
def reached (c : Cut RangePeriod) (oldValue newValue : Option Point) (time : Nat)
    (newRange : Option Range) (endTime : Nat) : List RangePeriodListEntry :=
  (c.focus.rangeQueryInfoList.filter fun e =>
    decide (e.time > time) && RangePeriod.touches oldValue newValue e) ++
  (recorded (laterPeriods (updateAt c time newRange).1 time endTime)).filter
    (RangePeriod.touches oldValue newValue)

variable (table : RangeRoutingTable) (oldValue newValue : Option Point) (time : Nat)
variable (newRange : Option Range) (recalculateRange : Nat → Option Range)
variable (rollbackList : RollbackList) (endTime : Nat)

/-- An update loses no entry and makes none. -/
theorem recorded_update :
    (recorded (table.update oldValue newValue time newRange recalculateRange rollbackList
      endTime).1.rangePeriodList).Perm (recorded table.rangePeriodList) := by
  simp only [update]
  split
  · simpa [RangePeriod.create] using
      recorded_insertRangePeriod time (.create time newRange) table.rangePeriodList
  · rename_i c hc
    obtain ⟨hl, _, _⟩ := Cut.last?_eq_some.mp hc
    have hat := recorded_updateAt c time newRange
    rw [hl] at hat
    split
    · split
      · exact hat
      · rename_i next rest hbehind
        have hsplit : (updateAt c time newRange).1 =
            (updateAt c time newRange).1.takeWhile (fun p => decide (p.time ≤ time)) ++
              next :: rest := by
          rw [← hbehind, List.takeWhile_append_dropWhile]
        rw [hsplit] at hat
        simpa only [recorded_append, recorded_cons, recorded_updateLater] using hat
    · exact hat

theorem update_calls_of_cut {c : Cut RangePeriod}
    (hc : Cut.last? (fun p => decide (p.time ≤ time)) table.rangePeriodList = some c) :
    (table.update oldValue newValue time newRange recalculateRange rollbackList
      endTime).2.calls =
        rollbackList.calls ++ callsFor (reached c oldValue newValue time newRange endTime) := by
  simp only [update, hc, reached, laterPeriods]
  split
  · split
    · rename_i hbehind
      simp [hbehind, RangePeriod.populateRollbackListAfter, callsFor, recorded]
    · rename_i next rest hbehind
      rw [hbehind, updateLater_calls]
      simp [RangePeriod.populateRollbackListAfter, callsFor]
  · simp [RangePeriod.populateRollbackListAfter, callsFor, recorded]

theorem update_calls_of_none
    (hc : Cut.last? (fun p => decide (p.time ≤ time)) table.rangePeriodList = none) :
    (table.update oldValue newValue time newRange recalculateRange rollbackList
      endTime).2.calls = rollbackList.calls := by
  simp only [update, hc]

/-- Every call of an update is for a recorded query. -/
theorem exists_update_calls : ∃ entries,
    (table.update oldValue newValue time newRange recalculateRange rollbackList
      endTime).2.calls = rollbackList.calls ++ callsFor entries ∧
        ∀ e ∈ entries, e ∈ recorded table.rangePeriodList := by
  cases hc : Cut.last? (fun p => decide (p.time ≤ time)) table.rangePeriodList with
  | none =>
      refine ⟨[], ?_, nofun⟩
      rw [update_calls_of_none table _ _ _ _ _ _ _ hc]
      simp [callsFor]
  | some c =>
      refine ⟨reached c oldValue newValue time newRange endTime, ?_, ?_⟩
      · exact update_calls_of_cut table _ _ _ _ _ _ _ hc
      · obtain ⟨hl, _, _⟩ := Cut.last?_eq_some.mp hc
        intro e he
        cases List.mem_append.mp he with
        | inl he =>
            exact mem_recorded.mpr ⟨c.focus, Cut.focus_mem hl, (List.mem_filter.mp he).1⟩
        | inr he =>
            obtain ⟨p, hp, hep⟩ := mem_recorded.mp (List.mem_filter.mp he).1
            have hmem : p ∈ (updateAt c time newRange).1 := by
              simp only [laterPeriods] at hp
              split at hp
              · exact (List.dropWhile_sublist _).subset ((List.drop_sublist _ _).subset
                  ((List.takeWhile_sublist _).subset hp))
              · cases hp
            have hat := recorded_updateAt c time newRange
            rw [hl] at hat
            exact hat.subset (mem_recorded.mpr ⟨p, hmem, hep⟩)

end RangeRoutingTable
end PdesMas
