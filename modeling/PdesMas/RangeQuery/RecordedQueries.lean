import PdesMas.Library.Machine
import PdesMas.RangeQuery.LaterPeriods
import PdesMas.RangeQuery.TableRuns

/-!
Exactly when the range queries recorded in a table stay where they are looked for.
A query is looked for in the last period at or before its time. A split moves only
the queries behind its time, so that one of that very time stays where it was, out
of reach of its anti-message and with the next collection lost.
-/

namespace PdesMas

namespace RangeRoutingTable

variable {l : List RangePeriod} {q : RangePeriod} {c : Cut RangePeriod} {time t : Nat}
  {range : Option Range} {e : RangePeriodListEntry} {table : RangeRoutingTable}

section Stored

/-- With another period in the place of the one that the walk has found. -/
theorem Covering.periodAt_replace (h : Covering l time c) (hincreasing : Increasing l)
    (htime : q.time = c.focus.time) (t : Nat) :
    RangeRoutingTable.periodAt (c.front ++ q :: c.back) t =
      if SamePeriod l c.focus.time t then some q else RangeRoutingTable.periodAt l t := by
  have hfocus : Covering l c.focus.time c :=
    ⟨h.toList, Nat.le_refl _, fun q hq => Nat.lt_of_le_of_lt h.focus (h.back q hq)⟩
  have hl : RangeRoutingTable.periodAt l t = ((RangeRoutingTable.periodAt c.back t).or
      (if c.focus.time ≤ t then some c.focus else none)).or
        (RangeRoutingTable.periodAt c.front t) := by
    rw [← periodAt_cons, ← periodAt_append]
    exact congrArg (RangeRoutingTable.periodAt · t) h.toList.symm
  rw [periodAt_append, periodAt_cons, htime, hl]
  simp only [hfocus.samePeriod_iff hincreasing, ← periodAt_eq_none_iff]
  cases RangeRoutingTable.periodAt c.back t with
  | none => by_cases hle : c.focus.time ≤ t <;> simp [hle]
  | some q => simp

theorem Covering.storedAt_replace (h : Covering l time c) (hincreasing : Increasing l)
    (htime : q.time = c.focus.time) :
    StoredAt (c.front ++ q :: c.back) t e ↔
      if SamePeriod l c.focus.time t then e ∈ q.rangeQueryInfoList else StoredAt l t e := by
  rw [StoredAt, h.periodAt_replace hincreasing htime]
  split
  · simp
  · exact Iff.rfl

theorem Covering.storedAt_focus (h : Covering l time c) (hincreasing : Increasing l)
    (hsame : SamePeriod l c.focus.time t) :
    StoredAt l t e ↔ e ∈ c.focus.rangeQueryInfoList := by
  have hreplace := h.storedAt_replace hincreasing (q := c.focus) (e := e) (t := t) rfl
  rwa [if_pos hsame, ← Cut.toList, h.toList] at hreplace

/-- One period goes on to both times. -/
def Together (l : List RangePeriod) (t t' : Nat) : Prop :=
  ∃ p ∈ l, SamePeriod l p.time t ∧ SamePeriod l p.time t'

instance (l : List RangePeriod) (t t' : Nat) : Decidable (Together l t t') :=
  inferInstanceAs (Decidable (∃ p ∈ l, _ ∧ _))

theorem Covering.together_iff (h : Covering l time c) (hincreasing : Increasing l) :
    Together l time t ↔ SamePeriod l c.focus.time t := by
  have hfocus : c.focus ∈ l := Cut.focus_mem h.toList
  constructor
  · intro htogether
    obtain ⟨p, hp, hsame, hsame'⟩ := htogether
    have htime : c.focus.time = p.time := Nat.le_antisymm (hsame.2 c.focus hfocus h.focus)
      ((h.samePeriod_focus hincreasing).2 p hp hsame.1)
    exact htime ▸ hsame'
  · exact fun hsame => ⟨c.focus, hfocus, h.samePeriod_focus hincreasing, hsame⟩

theorem not_together_of_later (hlater : ∀ p ∈ l, time < p.time) : ¬ Together l time t := by
  intro htogether
  obtain ⟨p, hp, hsame, _⟩ := htogether
  exact Nat.not_le_of_lt (hlater p hp) hsame.1

end Stored

section Modify

theorem storedAt_modify {f : RangePeriod → RangePeriod} (hincreasing : Increasing table.rangePeriodList)
    (htime : ∀ p, (f p).time = p.time) (hc : table.walkBack time = some c) :
    StoredAt (table.modify time f).rangePeriodList t e ↔
      if SamePeriod table.rangePeriodList c.focus.time t then e ∈ (f c.focus).rangeQueryInfoList
      else StoredAt table.rangePeriodList t e := by
  simp only [modify, hc]
  exact (covering_of_last? hc).storedAt_replace hincreasing (htime _)

/-- What is recorded is found at its time, if there is a period for it. -/
theorem storedAt_addRangeQueryInfo (hincreasing : Increasing table.rangePeriodList)
    (identifier : Nat) (range : Range) (blockStatus : Bool) (originalAlp : LpId) :
    StoredAt (table.addRangeQueryInfo time identifier range blockStatus
        originalAlp).rangePeriodList t e ↔
      StoredAt table.rangePeriodList t e ∨ Together table.rangePeriodList time t ∧
        e = ⟨identifier, time, range, blockStatus, originalAlp⟩ := by
  cases hc : table.walkBack time with
  | none =>
      have hnot : ¬ Together table.rangePeriodList time t :=
        not_together_of_later (later_of_last?_none hc)
      simp only [addRangeQueryInfo, modify, hc, hnot, false_and, or_false]
  | some c =>
      have hcover := covering_of_last? hc
      have hmodify := storedAt_modify (e := e) (t := t) (f := (·.addToRangeQueryInfoList identifier
        time range blockStatus originalAlp)) hincreasing (fun _ => rfl) hc
      rw [addRangeQueryInfo, hmodify, hcover.together_iff hincreasing]
      split
      · rename_i hsame
        rw [hcover.storedAt_focus hincreasing hsame, and_iff_right hsame]
        exact List.mem_append.trans (or_congr_right List.mem_singleton)
      · rename_i hnot
        simp only [hnot, false_and, or_false]

/-- An anti-message takes the queries of its identifier from the period of its time. -/
theorem storedAt_deleteRangeQueryInfo (hincreasing : Increasing table.rangePeriodList)
    (identifier : Nat) :
    StoredAt (table.deleteRangeQueryInfo time identifier).rangePeriodList t e ↔
      StoredAt table.rangePeriodList t e ∧
        ¬ (Together table.rangePeriodList time t ∧ e.identifier = identifier) := by
  cases hc : table.walkBack time with
  | none =>
      have hnot : ¬ Together table.rangePeriodList time t :=
        not_together_of_later (later_of_last?_none hc)
      simp only [deleteRangeQueryInfo, modify, hc, hnot, false_and, not_false_eq_true, and_true]
  | some c =>
      have hcover := covering_of_last? hc
      have hmodify := storedAt_modify (e := e) (t := t)
        (f := (·.deleteFromRangeQueryInfoListByIdentifier identifier)) hincreasing (fun _ => rfl) hc
      rw [deleteRangeQueryInfo, hmodify, hcover.together_iff hincreasing]
      split
      · rename_i hsame
        rw [hcover.storedAt_focus hincreasing hsame, and_iff_right hsame]
        simp [RangePeriod.deleteFromRangeQueryInfoListByIdentifier]
      · rename_i hnot
        simp only [hnot, false_and, not_false_eq_true, and_true]

/-- A query that is where its anti-message looks for it goes with it. -/
theorem count_recorded_deleteRangeQueryInfo (h : table.RecordedAt e.time e) :
    (recorded (table.deleteRangeQueryInfo e.time e.identifier).rangePeriodList).count e <
      (recorded table.rangePeriodList).count e := by
  obtain ⟨c, hc, he⟩ := h
  have hl : c.front ++ c.focus :: c.back = table.rangePeriodList := (covering_of_last? hc).toList
  have hgone : (c.focus.deleteFromRangeQueryInfoListByIdentifier
      e.identifier).rangeQueryInfoList.count e = 0 := by
    apply List.count_eq_zero.mpr
    simp [RangePeriod.deleteFromRangeQueryInfoListByIdentifier]
  have hthere : 0 < c.focus.rangeQueryInfoList.count e := List.count_pos_iff.mpr he
  simp only [deleteRangeQueryInfo, modify, hc, ← hl, recorded_append, recorded_cons,
    List.count_append, hgone]
  omega

end Modify

section Split

/-- A change at `time` splits a period, with another range before `time` than after it. -/
def Splits (l : List RangePeriod) (time : Nat) (range : Option Range) : Prop :=
  ¬ AtStart l time ∧ range.isSome ∧ (rangeAt l time).isSome ∧ range ≠ rangeAt l time

instance (l : List RangePeriod) (time : Nat) (range : Option Range) :
    Decidable (Splits l time range) := inferInstanceAs (Decidable (¬ _ ∧ _ ∧ _ ∧ _ ≠ _))

theorem Covering.atStart_iff (h : Covering l time c) (hincreasing : Increasing l) :
    AtStart l time ↔ c.focus.time = time := by
  have hfocus : c.focus ∈ l := Cut.focus_mem h.toList
  constructor
  · intro hstart
    by_contra hne
    exact hstart c.focus hfocus (Nat.lt_of_le_of_ne h.focus hne) (h.samePeriod_focus hincreasing)
  · exact fun heq => heq ▸ atStart_of_mem hfocus

/-- The change at the period of the walk, by whether it splits the period. -/
theorem Covering.updateAt_of_splits (h : Covering l time c) (hincreasing : Increasing l)
    (hsplits : Splits l time range) :
    (updateAt c time range).1 =
      c.front ++ (c.focus.migrateRangeQueryInfo (.create time range) time).1 ::
        (c.focus.migrateRangeQueryInfo (.create time range) time).2 :: c.back := by
  obtain ⟨hstart, hnew, hold, hne⟩ := hsplits
  rw [h.rangeAt] at hold hne
  rw [h.atStart_iff hincreasing] at hstart
  obtain ⟨new, rfl⟩ := Option.isSome_iff_exists.mp hnew
  obtain ⟨old, hold⟩ := Option.isSome_iff_exists.mp hold
  have hdiffer : new ≠ old := fun heq => hne (by rw [hold, heq])
  simp only [updateAt, hold, if_pos hdiffer, if_pos hstart, ne_eq]
  exact h.insertRangePeriod_migrate hincreasing _

theorem Covering.updateAt_of_not_splits (h : Covering l time c) (hincreasing : Increasing l)
    (hnot : ¬ Splits l time range) :
    ∃ range', (updateAt c time range).1 = c.front ++ c.focus.setRange range' :: c.back := by
  have hsame : c.toList = c.front ++ c.focus.setRange c.focus.range :: c.back := rfl
  simp only [updateAt]
  split
  · rename_i new old hold
    split
    · rename_i hdiffer
      split
      · rename_i hne
        refine absurd ⟨?_, rfl, ?_, ?_⟩ hnot
        · rwa [h.atStart_iff hincreasing]
        · rw [h.rangeAt, hold]
          rfl
        · rw [h.rangeAt, hold]
          exact fun heq => hdiffer (Option.some.inj heq)
      · exact ⟨_, rfl⟩
    · exact ⟨_, hsame⟩
  · exact ⟨_, rfl⟩

/-- A query whose period is split stays with the earlier part, if it is of the very time. -/
theorem Covering.storedAt_split (h : Covering l time c) (hstored : StoredAt l e.time e)
    (range : Option Range) :
    StoredAt (c.front ++ (c.focus.migrateRangeQueryInfo (.create time range) time).1 ::
      (c.focus.migrateRangeQueryInfo (.create time range) time).2 :: c.back) e.time e ↔
        e.time ≠ time := by
  obtain ⟨p, hp, he⟩ := hstored
  rw [← h.toList, Cut.toList, periodAt_append, periodAt_cons] at hp
  rw [StoredAt, periodAt_append, periodAt_cons, periodAt_cons]
  cases hback : RangeRoutingTable.periodAt c.back e.time with
  | some q =>
      rw [hback] at hp
      obtain rfl : q = p := Option.some.inj hp
      refine iff_of_true ⟨q, rfl, he⟩ fun htime => ?_
      rw [htime, periodAt_eq_none_iff.mpr h.back] at hback
      cases hback
  | none =>
      rw [hback] at hp
      by_cases hlater : time ≤ e.time
      · rw [if_pos (Nat.le_trans h.focus hlater)] at hp
        obtain rfl : c.focus = p := Option.some.inj hp
        have hmoved : e ∈ (c.focus.migrateRangeQueryInfo
            (.create time range) time).2.rangeQueryInfoList ↔ e.time ≠ time := by
          simp only [RangePeriod.migrateRangeQueryInfo, RangePeriod.create, List.nil_append,
            List.mem_filter, he, true_and, decide_eq_true_eq]
          omega
        simpa [RangePeriod.migrateRangeQueryInfo, RangePeriod.create, hlater] using hmoved
      · have hbefore : e.time < time := Nat.lt_of_not_le hlater
        have hnot : ¬ (c.focus.migrateRangeQueryInfo (.create time range) time).2.time ≤ e.time :=
          hlater
        rw [if_neg hnot]
        refine iff_of_true ?_ (Nat.ne_of_lt hbefore)
        by_cases hfocus : c.focus.time ≤ e.time
        · rw [if_pos hfocus] at hp
          obtain rfl : c.focus = p := Option.some.inj hp
          refine ⟨_, congrArg (Option.or · _) (if_pos hfocus), List.mem_filter.mpr ⟨he, ?_⟩⟩
          exact decide_eq_true (Nat.lt_asymm hbefore)
        · rw [if_neg hfocus] at hp
          exact ⟨p, (congrArg (Option.or · _) (if_neg hfocus)).trans hp, he⟩

/-- A change of a range moves the queries of the period that it splits, and no others. -/
theorem storedAt_setRangeAt (hincreasing : Increasing l) (hstored : StoredAt l e.time e)
    (time : Nat) (range : Option Range) :
    StoredAt (setRangeAt l time range) e.time e ↔ ¬ (Splits l time range ∧ e.time = time) := by
  cases hc : Cut.last? (fun p => decide (p.time ≤ time)) l with
  | none =>
      have hlater := later_of_last?_none hc
      have hnot : ¬ Splits l time range := fun hsplits => hsplits.1 fun p hp hbefore _ =>
        Nat.lt_asymm hbefore (hlater p hp)
      obtain ⟨p, hp, he⟩ := hstored
      simp only [setRangeAt, hc, insertRangePeriod_first hlater, hnot, false_and, not_false_eq_true, iff_true]
      refine ⟨p, ?_, he⟩
      rw [periodAt_cons, hp]
      rfl
  | some c =>
      have hcover := covering_of_last? hc
      simp only [setRangeAt, hc]
      by_cases hsplits : Splits l time range
      · rw [hcover.updateAt_of_splits hincreasing hsplits, hcover.storedAt_split hstored,
          and_iff_right hsplits]
      · obtain ⟨range', hset⟩ := hcover.updateAt_of_not_splits hincreasing hsplits
        have hreplace := hcover.storedAt_replace hincreasing (q := c.focus.setRange range')
          (t := e.time) (e := e) rfl
        rw [hset, hreplace]
        refine iff_of_true ?_ fun h => hsplits h.1
        split
        · rename_i hsame
          exact (hcover.storedAt_focus hincreasing hsame).mp hstored
        · exact hstored

/-- The loop of `Update` leaves the queries where they are. -/
theorem storedAt_map {f : RangePeriod → RangePeriod} (htime : ∀ p, (f p).time = p.time)
    (hentries : ∀ p, (f p).rangeQueryInfoList = p.rangeQueryInfoList) :
    StoredAt (l.map f) t e ↔ StoredAt l t e := by
  simp only [StoredAt, periodAt_map htime, Option.map_eq_some_iff]
  constructor
  · intro h
    obtain ⟨_, ⟨p, hp, rfl⟩, he⟩ := h
    exact ⟨p, hp, hentries p ▸ he⟩
  · intro h
    obtain ⟨p, hp, he⟩ := h
    exact ⟨f p, ⟨p, hp, rfl⟩, (hentries p).symm ▸ he⟩

end Split

/-- A table as calls leave it. -/
structure PlacedTable extends RangeRoutingTable where
  placed : Placed rangePeriodList

def PlacedTable.exec (table : PlacedTable) (call : Call) : PlacedTable :=
  ⟨table.toRangeRoutingTable.exec call, placed_exec table.placed⟩

/-- A table with the queries that have been recorded in it and have not been taken back,
and the time of the last collection. -/
structure Recording where
  table : PlacedTable
  recorded : List RangePeriodListEntry
  collected : Nat

namespace Recording

/-- Nothing has been recorded in the table yet. -/
def start (table : PlacedTable) : Recording := ⟨table, [], 0⟩

/-- The recorded queries after a call. -/
def recordedAfter (recorded : List RangePeriodListEntry) : Call → List RangePeriodListEntry
  | .addRangeQueryInfo time identifier range blockStatus originalAlp =>
      recorded ++ [⟨identifier, time, range, blockStatus, originalAlp⟩]
  | .deleteRangeQueryInfo time identifier =>
      recorded.filter fun e => ¬ (e.time = time ∧ e.identifier = identifier)
  | _ => recorded

/-- The time of the last collection after a call. -/
def collectedAfter (collected : Nat) : Call → Nat
  | .clearRangePeriods time => time
  | _ => collected

def exec (s : Recording) (call : Call) : Recording :=
  ⟨s.table.exec call, recordedAfter s.recorded call, collectedAfter s.collected call⟩

def machine : Machine Recording Call Unit := ⟨fun s call => some (s.exec call, ())⟩

/-- Every recorded query that no collection is beyond is in the period of its time, where
`DeleteRangeQueryInfo` finds it. -/
structure InPlace (s : Recording) : Prop where
  stored : ∀ e ∈ s.recorded, s.collected ≤ e.time → s.table.RecordedAt e.time e
  found : ∀ e ∈ s.recorded, s.collected ≤ e.time →
    (RangeRoutingTable.recorded
      (s.table.deleteRangeQueryInfo e.time e.identifier).rangePeriodList).count e <
        (RangeRoutingTable.recorded s.table.rangePeriodList).count e

theorem inPlace_iff {s : Recording} :
    InPlace s ↔ ∀ e ∈ s.recorded, s.collected ≤ e.time →
      StoredAt s.table.rangePeriodList e.time e := by
  constructor
  · exact fun h e he ht => recordedAt_iff.mp (h.stored e he ht)
  · intro h
    refine ⟨fun e he ht => recordedAt_iff.mpr (h e he ht), fun e he ht => ?_⟩
    exact count_recorded_deleteRangeQueryInfo (recordedAt_iff.mpr (h e he ht))

/-- The condition on a call: there is a period for what it records, it takes back no other
query, it does not split a period at the time of one, and a collection for an earlier time
than the last one finds in place what was recorded between. -/
def KeepsPlaces (s : Recording) : Call → Prop
  | .processRangeUpdate time range _ | .update _ _ time range _ _ _ =>
      Splits s.table.rangePeriodList time range →
        ∀ e ∈ s.recorded, s.collected ≤ e.time → e.time ≠ time
  | .clearRangePeriods time => ∀ e ∈ s.recorded, time ≤ e.time → e.time < s.collected →
      s.table.RecordedAt e.time e
  | .addRangeQueryInfo time _ _ _ _ =>
      s.collected ≤ time → s.table.hasRangePeriod time = true
  | .deleteRangeQueryInfo time identifier => ∀ e ∈ s.recorded, s.collected ≤ e.time →
      e.identifier = identifier → Together s.table.rangePeriodList time e.time → e.time = time
  | .clearRangeUpdates => True

instance (s : Recording) : ∀ call, Decidable (s.KeepsPlaces call)
  | .processRangeUpdate .. | .update .. => inferInstanceAs (Decidable (_ → ∀ e ∈ s.recorded, _ → _ ≠ _))
  | .clearRangePeriods _ => inferInstanceAs (Decidable (∀ e ∈ s.recorded, _ → _ → _))
  | .addRangeQueryInfo .. => inferInstanceAs (Decidable (_ → _ = true))
  | .deleteRangeQueryInfo .. => inferInstanceAs (Decidable (∀ e ∈ s.recorded, _ → _ → _ → _))
  | .clearRangeUpdates => isTrue trivial

section Step

variable {s : Recording}

/-- A change of a range keeps the queries in place that it does not split off. -/
theorem InPlace.setRangeAt_iff (h : InPlace s) (time : Nat) (range : Option Range) :
    (∀ e ∈ s.recorded, s.collected ≤ e.time →
      StoredAt (setRangeAt s.table.rangePeriodList time range) e.time e) ↔
        (Splits s.table.rangePeriodList time range →
          ∀ e ∈ s.recorded, s.collected ≤ e.time → e.time ≠ time) := by
  have hiff : ∀ e ∈ s.recorded, s.collected ≤ e.time →
      (StoredAt (setRangeAt s.table.rangePeriodList time range) e.time e ↔
        ¬ (Splits s.table.rangePeriodList time range ∧ e.time = time)) := fun e he ht =>
    storedAt_setRangeAt s.table.placed.increasing (inPlace_iff.mp h e he ht) time range
  constructor
  · exact fun hstored hsplits e he ht heq => (hiff e he ht).mp (hstored e he ht) ⟨hsplits, heq⟩
  · exact fun hkeeps e he ht => (hiff e he ht).mpr fun hsplit => hkeeps hsplit.1 e he ht hsplit.2

theorem InPlace.clearRangePeriods_iff (h : InPlace s) (time : Nat) :
    InPlace (s.exec (.clearRangePeriods time)) ↔ s.KeepsPlaces (.clearRangePeriods time) := by
  have hafter : InPlace (s.exec (.clearRangePeriods time)) ↔ ∀ e ∈ s.recorded, time ≤ e.time →
      s.table.RecordedAt e.time e :=
    inPlace_iff.trans (forall₃_congr fun e _ hle =>
      (storedAt_clearRangePeriods hle).trans recordedAt_iff.symm)
  rw [hafter]
  constructor
  · exact fun hrecorded e he hle _ => hrecorded e he hle
  · intro hkeeps e he hle
    by_cases hlt : e.time < s.collected
    · exact hkeeps e he hle hlt
    · exact h.stored e he (Nat.le_of_not_lt hlt)

theorem InPlace.addRangeQueryInfo_iff (h : InPlace s) (time identifier : Nat) (range : Range)
    (blockStatus : Bool) (originalAlp : LpId) :
    InPlace (s.exec (.addRangeQueryInfo time identifier range blockStatus originalAlp)) ↔
      s.KeepsPlaces (.addRangeQueryInfo time identifier range blockStatus originalAlp) := by
  have hadded : ∀ t e, StoredAt (s.table.addRangeQueryInfo time identifier range blockStatus
      originalAlp).rangePeriodList t e ↔
        StoredAt s.table.rangePeriodList t e ∨ Together s.table.rangePeriodList time t ∧
          e = ⟨identifier, time, range, blockStatus, originalAlp⟩ := fun _ _ =>
    storedAt_addRangeQueryInfo s.table.placed.increasing identifier range blockStatus originalAlp
  rw [inPlace_iff]
  constructor
  · intro hstored ht
    cases hc : s.table.walkBack time with
    | some c => exact congrArg Option.isSome hc
    | none =>
        have hlater := later_of_last?_none hc
        have hnew := hstored _ (List.mem_append_right _ (List.mem_singleton_self _)) ht
        cases (hadded time _).mp hnew with
        | inl hold =>
            obtain ⟨p, hp, _⟩ := hold
            rw [periodAt_eq_none_iff.mpr hlater] at hp
            cases hp
        | inr hwith => exact absurd hwith.1 (not_together_of_later hlater)
  · intro hkeeps e he ht
    cases List.mem_append.mp he with
    | inl he => exact (hadded e.time e).mpr (.inl (inPlace_iff.mp h e he ht))
    | inr he =>
        obtain rfl := List.mem_singleton.mp he
        obtain ⟨c, hc⟩ := s.table.walkBack_of_hasRangePeriod time (hkeeps ht)
        have hcover := covering_of_last? hc
        have hincreasing := s.table.placed.increasing
        have htogether := (hcover.together_iff hincreasing).mpr (hcover.samePeriod_focus hincreasing)
        exact (hadded time _).mpr (.inr ⟨htogether, rfl⟩)

theorem InPlace.deleteRangeQueryInfo_iff (h : InPlace s) (time identifier : Nat) :
    InPlace (s.exec (.deleteRangeQueryInfo time identifier)) ↔
      s.KeepsPlaces (.deleteRangeQueryInfo time identifier) := by
  have hdeleted : ∀ t e,
      StoredAt (s.table.deleteRangeQueryInfo time identifier).rangePeriodList t e ↔
        StoredAt s.table.rangePeriodList t e ∧
          ¬ (Together s.table.rangePeriodList time t ∧ e.identifier = identifier) := fun _ _ =>
    storedAt_deleteRangeQueryInfo s.table.placed.increasing identifier
  have hmem : ∀ e, e ∈ (s.exec (.deleteRangeQueryInfo time identifier)).recorded ↔
      e ∈ s.recorded ∧ ¬ (e.time = time ∧ e.identifier = identifier) := fun e =>
    List.mem_filter.trans (and_congr_right fun _ => decide_eq_true_iff)
  rw [inPlace_iff]
  constructor
  · intro hstored e he ht hidentifier htogether
    by_contra htime
    have hleft := hstored e ((hmem e).mpr ⟨he, fun hown => htime hown.1⟩) ht
    exact ((hdeleted e.time e).mp hleft).2 ⟨htogether, hidentifier⟩
  · intro hkeeps e he ht
    obtain ⟨he, hother⟩ := (hmem e).mp he
    refine (hdeleted e.time e).mpr ⟨inPlace_iff.mp h e he ht, fun hgone => hother ⟨?_, hgone.2⟩⟩
    exact hkeeps e he ht hgone.2 hgone.1

theorem InPlace.exec_iff (h : InPlace s) (call : Call) :
    InPlace (s.exec call) ↔ s.KeepsPlaces call := by
  cases call with
  | processRangeUpdate time range rollbackList =>
      have hlist : (s.exec (.processRangeUpdate time range rollbackList)).table.rangePeriodList =
          setRangeAt s.table.rangePeriodList time range :=
        congrArg rangePeriodList (processRangeUpdate_eq _ time range rollbackList)
      rw [inPlace_iff, hlist]
      exact h.setRangeAt_iff time range
  | update oldValue newValue time newRange recalculateRange rollbackList endTime =>
      have hlist : (s.exec (.update oldValue newValue time newRange recalculateRange rollbackList
          endTime)).table.rangePeriodList = (setRangeAt s.table.rangePeriodList time newRange).map
            (recalculated s.table.rangePeriodList time endTime recalculateRange) :=
        congrArg rangePeriodList
          (update_eq_recalculated _ s.table.placed oldValue newValue newRange rollbackList)
      have hentries : ∀ p, (recalculated s.table.rangePeriodList time endTime recalculateRange
          p).rangeQueryInfoList = p.rangeQueryInfoList := by
        intro p
        simp only [recalculated]
        split <;> rfl
      simp only [inPlace_iff, hlist, storedAt_map recalculated_time hentries]
      exact h.setRangeAt_iff time newRange
  | clearRangePeriods time => exact h.clearRangePeriods_iff time
  | addRangeQueryInfo time identifier range blockStatus originalAlp =>
      exact h.addRangeQueryInfo_iff time identifier range blockStatus originalAlp
  | deleteRangeQueryInfo time identifier => exact h.deleteRangeQueryInfo_iff time identifier
  | clearRangeUpdates =>
      have hstored := inPlace_iff.mp h
      exact iff_of_true (inPlace_iff.mpr hstored) trivial

end Step

/-- Through any calls, the recorded queries stay where they are looked for exactly if every
call keeps them there. -/
theorem in_place_throughout_iff (table : PlacedTable) (calls : List Call) :
    machine.Throughout InPlace (start table) calls ↔
      machine.Meets KeepsPlaces (start table) calls := by
  obtain ⟨s', os, hrun⟩ := machine.exists_run (fun s call => ⟨_, rfl⟩) (start table) calls
  have hstart : InPlace (start table) := ⟨nofun, nofun⟩
  rw [machine.throughout_iff (fun _ _ => True) KeepsPlaces (fun _ => True) InPlace
    (fun _ _ _ _ _ _ _ => trivial) ?_ calls (start table) s' os trivial
    (machine.meets_true _ _) hrun]
  · exact and_iff_right hstart
  · intro s call s₁ o _ h _ hstep
    cases hstep
    exact h.exec_iff call

/-- One range from the start on. -/
private def firstPeriod : PlacedTable :=
  ⟨⟨[.create 0 (some ⟨⟨1, 1⟩, ⟨2, 2⟩⟩)], []⟩, placed_single _ _⟩

private def atFive : RangePeriodListEntry := ⟨1, 5, ⟨⟨1, 1⟩, ⟨4, 4⟩⟩, false, ⟨1, 4⟩⟩

/-- A query of time 5, and the news of another range from 5 on. -/
private def splitAtFive : List Call :=
  [.addRangeQueryInfo 5 1 ⟨⟨1, 1⟩, ⟨4, 4⟩⟩ false ⟨1, 4⟩,
    .processRangeUpdate 5 (some ⟨⟨1, 1⟩, ⟨3, 3⟩⟩) .empty]

/-- The query stays in the period that ends at 5. Its anti-message does not find it, and the
collection at its own time takes it away. -/
theorem query_left_at_split :
    ¬ machine.Throughout InPlace (start firstPeriod) splitAtFive ∧
      (splitAtFive.foldl exec (start firstPeriod)).recorded = [atFive] ∧
      atFive ∈ RangeRoutingTable.recorded
        ((splitAtFive.foldl exec (start firstPeriod)).table.deleteRangeQueryInfo
          5 1).rangePeriodList ∧
      atFive ∉ RangeRoutingTable.recorded
        ((splitAtFive.foldl exec (start firstPeriod)).table.clearRangePeriods
          5).rangePeriodList := by
  refine ⟨fun h => ?_, by decide, by decide, by decide⟩
  have hlast : InPlace (splitAtFive.foldl exec (start firstPeriod)) := h.2.2
  have hfound := hlast.stored atFive (by decide) (by decide)
  exact absurd hfound (by decide)

end Recording

end RangeRoutingTable
end PdesMas
