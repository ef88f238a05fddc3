import PdesMas.RangeQuery.Placement

/-!
What the operations on a table leave alone. A change of one period keeps the
times of all of them, and no operation but `clearRangePeriods` takes a period
away, so that a table which has a period for a time has one ever after.
-/

namespace PdesMas

namespace RangeRoutingTable

variable (table : RangeRoutingTable) (time : Nat)

theorem hasRangePeriod_iff :
    table.hasRangePeriod time = true ↔ ∃ p ∈ table.rangePeriodList, p.time ≤ time := by
  rw [hasRangePeriod, walkBack]
  cases hc : Cut.last? (fun p => decide (p.time ≤ time)) table.rangePeriodList with
  | none =>
      have hlater := later_of_last?_none hc
      simp only [Option.isSome_none, Bool.false_eq_true, false_iff, not_exists, not_and]
      exact fun p hp hle => Nat.lt_irrefl _ (Nat.lt_of_lt_of_le (hlater p hp) hle)
  | some c =>
      obtain ⟨hl, hfocus, _⟩ := covering_of_last? hc
      simp only [Option.isSome_some, true_iff]
      exact ⟨c.focus, Cut.focus_mem hl, hfocus⟩

theorem walkBack_of_hasRangePeriod (h : table.hasRangePeriod time = true) :
    ∃ c, table.walkBack time = some c := Option.isSome_iff_exists.mp h

/-- The periods of `l` are still there in `l'`, perhaps with other contents. -/
def KeepsTimes (l l' : List RangePeriod) : Prop := ∀ p ∈ l, ∃ q ∈ l', q.time = p.time

theorem KeepsTimes.refl (l : List RangePeriod) : KeepsTimes l l := fun p hp => ⟨p, hp, rfl⟩

theorem KeepsTimes.hasRangePeriod {table table' : RangeRoutingTable} {time : Nat}
    (h : KeepsTimes table.rangePeriodList table'.rangePeriodList)
    (hperiod : table.hasRangePeriod time = true) : table'.hasRangePeriod time = true := by
  rw [hasRangePeriod_iff] at *
  obtain ⟨p, hp, hle⟩ := hperiod
  obtain ⟨q, hq, heq⟩ := h p hp
  exact ⟨q, hq, heq ▸ hle⟩

theorem keepsTimes_setFocus {c : Cut RangePeriod} {p : RangePeriod}
    (htime : p.time = c.focus.time) : KeepsTimes c.toList (c.front ++ p :: c.back) := by
  intro q hq
  simp only [Cut.toList, List.mem_append, List.mem_cons] at hq
  cases hq with
  | inl hq => exact ⟨q, List.mem_append_left _ hq, rfl⟩
  | inr hq =>
      cases hq with
      | inl hq => exact ⟨p, by simp, hq ▸ htime⟩
      | inr hq => exact ⟨q, by simp [hq], rfl⟩

theorem keepsTimes_insertRangePeriod (l : List RangePeriod) (p : RangePeriod) :
    KeepsTimes l (insertRangePeriod time p l) := by
  intro q hq
  refine ⟨q, ?_, rfl⟩
  rw [← List.takeWhile_append_dropWhile (p := fun p => decide (p.time ≤ time)) (l := l),
    List.mem_append] at hq
  rw [insertRangePeriod, List.mem_append]
  exact hq.imp_right (List.mem_cons_of_mem _)

theorem KeepsTimes.trans {l l' l'' : List RangePeriod} (h : KeepsTimes l l')
    (h' : KeepsTimes l' l'') : KeepsTimes l l'' := by
  intro p hp
  obtain ⟨q, hq, hqp⟩ := h p hp
  obtain ⟨r, hr, hrq⟩ := h' q hq
  exact ⟨r, hr, hrq.trans hqp⟩

theorem keepsTimes_updateAt (c : Cut RangePeriod) (newRange : Option Range) :
    KeepsTimes c.toList (updateAt c time newRange).1 := by
  have hsame : ∀ range, KeepsTimes c.toList (c.front ++ c.focus.setRange range :: c.back) :=
    fun range => keepsTimes_setFocus rfl
  simp only [updateAt]
  split
  · split
    · split
      · refine KeepsTimes.trans ?_ (keepsTimes_insertRangePeriod _ _ _)
        exact keepsTimes_setFocus rfl
      · exact hsame _
    · exact .refl _
  · exact hsame _

theorem keepsTimes_updateLater (oldValue newValue : Option Point) (endTime : Nat)
    (recalculateRange : Nat → Option Range) (l : List RangePeriod)
    (rollbackList : RollbackList) :
    KeepsTimes l
      (updateLater oldValue newValue time endTime recalculateRange l rollbackList).1 := by
  have hmap := map_setRange_updateLater oldValue newValue time endTime recalculateRange l
    rollbackList
  intro p hp
  have hmem := List.mem_map_of_mem (f := (·.setRange none)) hp
  rw [← hmap] at hmem
  obtain ⟨q, hq, hqp⟩ := List.mem_map.mp hmem
  exact ⟨q, hq, (congrArg RangePeriod.time hqp : (q.setRange none).time = _)⟩

theorem keepsTimes_processRangeUpdate (range : Option Range) (rollbackList : RollbackList) :
    KeepsTimes table.rangePeriodList
      (table.processRangeUpdate time range rollbackList).1.rangePeriodList := by
  simp only [processRangeUpdate]
  split
  · exact keepsTimes_insertRangePeriod _ _ _
  · rename_i c hc
    obtain ⟨hl, _, _⟩ := covering_of_last? hc
    exact hl ▸ keepsTimes_updateAt time c range

theorem keepsTimes_update (oldValue newValue : Option Point) (newRange : Option Range)
    (recalculateRange : Nat → Option Range) (rollbackList : RollbackList) (endTime : Nat) :
    KeepsTimes table.rangePeriodList (table.update oldValue newValue time newRange
      recalculateRange rollbackList endTime).1.rangePeriodList := by
  simp only [update]
  split
  · exact keepsTimes_insertRangePeriod _ _ _
  · rename_i c hc
    obtain ⟨hl, _, _⟩ := covering_of_last? hc
    have hat := hl ▸ keepsTimes_updateAt time c newRange
    split
    · split
      · exact hat
      · rename_i next rest hbehind
        refine KeepsTimes.trans hat ?_
        have hsplit := List.takeWhile_append_dropWhile (p := fun p => decide (p.time ≤ time))
          (l := (updateAt c time newRange).1)
        rw [hbehind] at hsplit
        intro p hp
        rw [← hsplit, List.mem_append, List.mem_cons] at hp
        rcases hp with hp | hp | hp
        · exact ⟨p, List.mem_append_left _ hp, rfl⟩
        · exact ⟨p, List.mem_append_right _ (hp ▸ List.mem_cons_self), rfl⟩
        · obtain ⟨q, hq, heq⟩ := keepsTimes_updateLater time oldValue newValue endTime
            recalculateRange rest _ p hp
          exact ⟨q, List.mem_append_right _ (List.mem_cons_of_mem _ hq), heq⟩
    · exact hat

/-- A range update loses no entry and makes none. -/
theorem recorded_processRangeUpdate (range : Option Range) (rollbackList : RollbackList) :
    (recorded (table.processRangeUpdate time range rollbackList).1.rangePeriodList).Perm
      (recorded table.rangePeriodList) := by
  simp only [processRangeUpdate]
  split
  · simpa [RangePeriod.create] using
      recorded_insertRangePeriod time (.create time range) table.rangePeriodList
  · rename_i c hc
    obtain ⟨hl, _, _⟩ := covering_of_last? hc
    exact hl ▸ recorded_updateAt c time range

/-- A table of a port behind which there are no points. -/
def NoRange : Prop := ∀ p ∈ table.rangePeriodList, p.range = none

variable {table}

theorem NoRange.getRangeCopy (h : table.NoRange) (time : Nat) :
    table.getRangeCopy time = none := by
  rw [RangeRoutingTable.getRangeCopy, walkBack]
  cases hc : Cut.last? (fun p => decide (p.time ≤ time)) table.rangePeriodList with
  | none => rfl
  | some c => exact h c.focus (Cut.focus_mem (covering_of_last? hc).toList)

section Modify

variable {time : Nat} {f : RangePeriod → RangePeriod}

theorem keepsTimes_modify (htime : ∀ p, (f p).time = p.time) :
    KeepsTimes table.rangePeriodList (table.modify time f).rangePeriodList := by
  simp only [modify, walkBack]
  split
  · rename_i c hc
    obtain ⟨hl, _, _⟩ := covering_of_last? hc
    rw [← hl]
    exact keepsTimes_setFocus (htime _)
  · exact .refl _

theorem NoRange.modify (h : table.NoRange) (hrange : ∀ p, (f p).range = p.range) :
    (table.modify time f).NoRange := by
  simp only [RangeRoutingTable.modify, walkBack]
  split
  · rename_i c hc
    obtain ⟨hl, _, _⟩ := covering_of_last? hc
    intro p hp
    simp only [List.mem_append, List.mem_cons] at hp
    rcases hp with hp | hp | hp
    · exact h p (hl ▸ List.mem_append_left _ hp)
    · rw [hp, hrange]
      exact h c.focus (Cut.focus_mem hl)
    · exact h p (hl ▸ List.mem_append_right _ (List.mem_cons_of_mem _ hp))
  · exact h

end Modify

/-- An entry of the period that the walk for `time` finds. -/
def RecordedAt (table : RangeRoutingTable) (time : Nat) (e : RangePeriodListEntry) : Prop :=
  ∃ c, table.walkBack time = some c ∧ e ∈ c.focus.rangeQueryInfoList

/-- An entry of the period that the walk for `t` stops at. -/
def StoredAt (l : List RangePeriod) (t : Nat) (e : RangePeriodListEntry) : Prop :=
  ∃ p, periodAt l t = some p ∧ e ∈ p.rangeQueryInfoList

theorem recordedAt_iff {t : Nat} {e : RangePeriodListEntry} :
    table.RecordedAt t e ↔ StoredAt table.rangePeriodList t e := by
  simp only [RecordedAt, StoredAt, ← walkBack_focus, Option.map_eq_some_iff]
  constructor
  · intro h
    obtain ⟨c, hc, he⟩ := h
    exact ⟨c.focus, ⟨c, hc, rfl⟩, he⟩
  · intro h
    obtain ⟨p, ⟨c, hc, hcp⟩, he⟩ := h
    exact ⟨c, hc, hcp ▸ he⟩

instance (table : RangeRoutingTable) (t : Nat) (e : RangePeriodListEntry) :
    Decidable (table.RecordedAt t e) :=
  match h : table.walkBack t with
  | none => isFalse (by simp [RecordedAt, h])
  | some c => decidable_of_iff (e ∈ c.focus.rangeQueryInfoList) (by simp [RecordedAt, h])

theorem RecordedAt.recorded {e : RangePeriodListEntry} (h : table.RecordedAt time e) :
    e ∈ recorded table.rangePeriodList := by
  obtain ⟨c, hc, he⟩ := h
  exact mem_recorded.mpr ⟨c.focus, Cut.focus_mem (covering_of_last? hc).toList, he⟩

/-- What `ClearRangePeriods` leaves when the walk finds a period. -/
theorem exists_clearRangePeriods {gvt : Nat} {c : Cut RangePeriod}
    (hc : table.walkBack gvt = some c) :
    ∃ front, (table.clearRangePeriods gvt).rangePeriodList =
      front ++ (if c.focus.time ≠ gvt then
        (c.focus.setTime gvt).deleteFromRangeQueryInfoListByTime gvt else c.focus) :: c.back ∧
      front.Sublist c.front := by
  simp only [clearRangePeriods, hc]
  refine Cut.exists_dropWhile ?_
  split
  · simp [RangePeriod.deleteFromRangeQueryInfoListByTime, RangePeriod.setTime]
  · rename_i heq
    simpa using heq

theorem clearRangePeriods_of_none {gvt : Nat} (hc : table.walkBack gvt = none) :
    table.clearRangePeriods gvt = table := by
  simp only [clearRangePeriods, hc]

theorem hasRangePeriod_clearRangePeriods {gvt : Nat} (hle : gvt ≤ time)
    (h : table.hasRangePeriod time = true) :
    (table.clearRangePeriods gvt).hasRangePeriod time = true := by
  cases hc : table.walkBack gvt with
  | none =>
      rw [clearRangePeriods_of_none hc]
      exact h
  | some c =>
      obtain ⟨front, hlist, _⟩ := exists_clearRangePeriods hc
      rw [hasRangePeriod_iff, hlist]
      refine ⟨_, List.mem_append_right _ List.mem_cons_self, ?_⟩
      split
      · exact hle
      · exact Nat.le_trans (covering_of_last? hc).focus hle

theorem NoRange.clearRangePeriods (h : table.NoRange) (gvt : Nat) :
    (table.clearRangePeriods gvt).NoRange := by
  cases hc : table.walkBack gvt with
  | none =>
      rw [clearRangePeriods_of_none hc]
      exact h
  | some c =>
      obtain ⟨front, hlist, hfront⟩ := exists_clearRangePeriods hc
      obtain ⟨hl, _, _⟩ := covering_of_last? hc
      have hfocus := h c.focus (Cut.focus_mem hl)
      intro p hp
      rw [hlist, List.mem_append, List.mem_cons] at hp
      rcases hp with hp | hp | hp
      · exact h p (hl ▸ List.mem_append_left _ (hfront.subset hp))
      · rw [hp]
        split <;> exact hfocus
      · exact h p (hl ▸ List.mem_append_right _ (List.mem_cons_of_mem _ hp))

theorem mem_recorded_of_clearRangePeriods {gvt : Nat} {e : RangePeriodListEntry}
    (h : e ∈ recorded (table.clearRangePeriods gvt).rangePeriodList) :
    e ∈ recorded table.rangePeriodList := by
  cases hc : table.walkBack gvt with
  | none =>
      rw [clearRangePeriods_of_none hc] at h
      exact h
  | some c =>
      obtain ⟨front, hlist, hfront⟩ := exists_clearRangePeriods hc
      obtain ⟨hl, _, _⟩ := covering_of_last? hc
      rw [mem_recorded] at h
      obtain ⟨p, hp, he⟩ := h
      rw [hlist, List.mem_append, List.mem_cons] at hp
      rw [mem_recorded, ← hl]
      rcases hp with hp | hp | hp
      · exact ⟨p, List.mem_append_left _ (hfront.subset hp), he⟩
      · refine ⟨c.focus, by simp [Cut.toList], ?_⟩
        rw [hp] at he
        split at he
        · exact (List.mem_filter.mp he).1
        · exact he
      · exact ⟨p, List.mem_append_right _ (List.mem_cons_of_mem _ hp), he⟩

/-- What the walk for a later time finds before and after a collection. -/
theorem periodAt_clearRangePeriods {gvt t : Nat} {c : Cut RangePeriod} (hle : gvt ≤ t)
    (hc : table.walkBack gvt = some c) :
    periodAt (table.clearRangePeriods gvt).rangePeriodList t =
        (periodAt c.back t).or (some (if c.focus.time ≠ gvt then
          (c.focus.setTime gvt).deleteFromRangeQueryInfoListByTime gvt else c.focus)) ∧
      periodAt table.rangePeriodList t = (periodAt c.back t).or (some c.focus) := by
  obtain ⟨front, hlist, _⟩ := exists_clearRangePeriods hc
  obtain ⟨hl, hfocus, _⟩ := covering_of_last? hc
  have hbegun : c.focus.time ≤ t := Nat.le_trans hfocus hle
  rw [hlist, ← hl]
  refine ⟨periodAt_append_cons _ _ ?_, periodAt_append_cons _ _ hbegun⟩
  split
  · exact hle
  · exact hbegun

/-- The entries from the time of a collection on stay where they are. -/
theorem storedAt_clearRangePeriods {gvt : Nat} {e : RangePeriodListEntry} (hle : gvt ≤ e.time) :
    StoredAt (table.clearRangePeriods gvt).rangePeriodList e.time e ↔
      StoredAt table.rangePeriodList e.time e := by
  cases hc : table.walkBack gvt with
  | none => rw [clearRangePeriods_of_none hc]
  | some c =>
      obtain ⟨hafter, hbefore⟩ := periodAt_clearRangePeriods hle hc
      have hkept : e ∈ (if c.focus.time ≠ gvt then
          (c.focus.setTime gvt).deleteFromRangeQueryInfoListByTime gvt
          else c.focus).rangeQueryInfoList ↔ e ∈ c.focus.rangeQueryInfoList := by
        split
        · simp only [RangePeriod.deleteFromRangeQueryInfoListByTime, RangePeriod.setTime,
            List.mem_filter, decide_eq_true_eq, and_iff_left_iff_imp]
          exact fun _ => Nat.not_lt_of_le hle
        · exact Iff.rfl
      rw [StoredAt, StoredAt, hafter, hbefore]
      cases periodAt c.back e.time with
      | none => simpa using hkept
      | some q => simp

/-- An entry of the period that covers its time outlives the clearing of earlier times. -/
theorem RecordedAt.clearRangePeriods {gvt : Nat} {e : RangePeriodListEntry}
    (h : table.RecordedAt e.time e) (hle : gvt ≤ e.time) :
    e ∈ RangeRoutingTable.recorded (table.clearRangePeriods gvt).rangePeriodList := by
  have hstored := (storedAt_clearRangePeriods hle).mpr (recordedAt_iff.mp h)
  exact (recordedAt_iff.mpr hstored).recorded

theorem mem_recorded_addRangeQueryInfo (hperiod : table.hasRangePeriod time = true)
    (identifier : Nat) (range : Range) (blockStatus : Bool) (originalAlp : LpId)
    (e : RangePeriodListEntry) :
    e ∈ recorded (table.addRangeQueryInfo time identifier range blockStatus
        originalAlp).rangePeriodList ↔
      e ∈ recorded table.rangePeriodList ∨
        e = ⟨identifier, time, range, blockStatus, originalAlp⟩ := by
  obtain ⟨c, hc⟩ := table.walkBack_of_hasRangePeriod time hperiod
  obtain ⟨hl, _, _⟩ := covering_of_last? hc
  simp only [addRangeQueryInfo, modify, hc]
  rw [← hl, Cut.toList]
  simp only [recorded_append, recorded_cons, RangePeriod.addToRangeQueryInfoList,
    List.mem_append, List.mem_singleton]
  tauto

/-- Of the other queries nothing goes, and of this one what the walk finds. -/
theorem mem_recorded_deleteRangeQueryInfo (identifier : Nat) (e : RangePeriodListEntry) :
    e ∈ recorded (table.deleteRangeQueryInfo time identifier).rangePeriodList →
      e ∈ recorded table.rangePeriodList := by
  simp only [deleteRangeQueryInfo, modify]
  split
  · rename_i c hc
    obtain ⟨hl, _, _⟩ := covering_of_last? hc
    rw [← hl, Cut.toList]
    simp only [recorded_append, recorded_cons,
      RangePeriod.deleteFromRangeQueryInfoListByIdentifier, List.mem_append, List.mem_filter]
    tauto
  · exact id

theorem recorded_deleteRangeQueryInfo (identifier : Nat) :
    (recorded (table.deleteRangeQueryInfo time identifier).rangePeriodList).filter
        (fun e => e.identifier != identifier) =
      (recorded table.rangePeriodList).filter fun e => e.identifier != identifier := by
  simp only [deleteRangeQueryInfo, modify]
  split
  · rename_i c hc
    obtain ⟨hl, _, _⟩ := covering_of_last? hc
    rw [← hl, Cut.toList]
    simp [RangePeriod.deleteFromRangeQueryInfoListByIdentifier, List.filter_filter]
  · rfl

end RangeRoutingTable
end PdesMas
