import PdesMas.RangeQuery.RangeQueryInfo

/-!
Where a range query is recorded. Periods start at increasing times, and an entry
lies at or after the start of its period and at or before the start of every
later one. An entry at the very start of a period may thus stay in the period
before it, where neither an update nor an anti-message looks for it.
-/

namespace PdesMas

namespace RangeRoutingTable

def Before (p q : RangePeriod) : Prop :=
  p.time < q.time ∧ ∀ e ∈ p.rangeQueryInfoList, e.time ≤ q.time

structure Placed (l : List RangePeriod) : Prop where
  sorted : l.Pairwise Before
  inside : ∀ p ∈ l, ∀ e ∈ p.rangeQueryInfoList, p.time ≤ e.time

/-- Periods start at increasing times. -/
def Increasing (l : List RangePeriod) : Prop := l.Pairwise fun p q => p.time < q.time

instance (l : List RangePeriod) : Decidable (Increasing l) :=
  inferInstanceAs (Decidable (List.Pairwise _ l))

theorem Placed.increasing {l : List RangePeriod} (h : Placed l) : Increasing l :=
  h.sorted.imp fun hbefore => hbefore.1

theorem placed_single (time : Nat) (range : Option Range) : Placed [.create time range] :=
  ⟨List.pairwise_singleton _ _, by simp [RangePeriod.create]⟩

/-- The last period at or before `time`, with what its place says about the others. -/
structure Covering (l : List RangePeriod) (time : Nat) (c : Cut RangePeriod) : Prop where
  toList : c.toList = l
  focus : c.focus.time ≤ time
  back : ∀ p ∈ c.back, time < p.time

theorem covering_of_last? {l : List RangePeriod} {time : Nat} {c : Cut RangePeriod}
    (h : Cut.last? (fun p => decide (p.time ≤ time)) l = some c) : Covering l time c := by
  obtain ⟨hl, hfocus, hback⟩ := Cut.last?_eq_some.mp h
  exact ⟨hl, by simpa using hfocus, by simpa using hback⟩

theorem later_of_last?_none {l : List RangePeriod} {time : Nat}
    (h : Cut.last? (fun p => decide (p.time ≤ time)) l = none) : ∀ p ∈ l, time < p.time := by
  simpa using Cut.last?_eq_none.mp h

/-- The period that the reverse walk for `time` stops at. -/
def periodAt (l : List RangePeriod) (time : Nat) : Option RangePeriod :=
  l.reverse.find? fun p => decide (p.time ≤ time)

theorem walkBack_focus (table : RangeRoutingTable) (time : Nat) :
    (table.walkBack time).map Cut.focus = periodAt table.rangePeriodList time :=
  Cut.last?_map_focus

theorem periodAt_eq_none_iff {l : List RangePeriod} {time : Nat} :
    periodAt l time = none ↔ ∀ p ∈ l, time < p.time := by
  simp [periodAt]

theorem periodAt_append (A B : List RangePeriod) (time : Nat) :
    periodAt (A ++ B) time = (periodAt B time).or (periodAt A time) := by
  rw [periodAt, List.reverse_append, List.find?_append]
  rfl

theorem periodAt_cons (p : RangePeriod) (B : List RangePeriod) (time : Nat) :
    periodAt (p :: B) time = (periodAt B time).or (if p.time ≤ time then some p else none) := by
  have hone : periodAt [p] time = if p.time ≤ time then some p else none := by
    by_cases hp : p.time ≤ time <;> simp [periodAt, hp]
  rw [← hone]
  exact periodAt_append [p] B time

/-- A change that keeps the times of the periods changes none of the walks. -/
theorem periodAt_map {f : RangePeriod → RangePeriod} (htime : ∀ p, (f p).time = p.time)
    (l : List RangePeriod) (time : Nat) :
    periodAt (l.map f) time = (periodAt l time).map f := by
  simp only [periodAt, ← List.map_reverse, List.find?_map, Function.comp_def, htime]

variable {l : List RangePeriod} {time : Nat} {c : Cut RangePeriod}

theorem Covering.periodAt (h : Covering l time c) : periodAt l time = some c.focus := by
  have hback : RangeRoutingTable.periodAt c.back time = none := periodAt_eq_none_iff.mpr h.back
  rw [← h.toList, Cut.toList, periodAt_append, periodAt_cons, hback, if_pos h.focus]
  rfl

/-- From the period of the walk on, those before it are out of reach. -/
theorem periodAt_append_cons (A B : List RangePeriod) {p : RangePeriod} (hp : p.time ≤ time) :
    periodAt (A ++ p :: B) time = (periodAt B time).or (some p) := by
  rw [periodAt_append, periodAt_cons, if_pos hp, Option.or_assoc, Option.some_or]

theorem Covering.front_lt_of_increasing (h : Covering l time c) (hincreasing : Increasing l) :
    ∀ p ∈ c.front, p.time < c.focus.time := by
  rw [← h.toList] at hincreasing
  obtain ⟨_, _, _, hfront, _⟩ := Cut.pairwise_iff.mp hincreasing
  exact hfront

theorem Covering.front_lt (h : Covering l time c) (hplaced : Placed l) :
    ∀ p ∈ c.front, p.time < c.focus.time := h.front_lt_of_increasing hplaced.increasing

/-- Entries of earlier periods lie at or before the start of this one. -/
theorem Covering.mem_front (h : Covering l time c) (hplaced : Placed l) {p : RangePeriod}
    (hp : p ∈ c.front) {e : RangePeriodListEntry} (he : e ∈ p.rangeQueryInfoList) :
    e.time ≤ c.focus.time := by
  have hsorted := hplaced.sorted
  rw [← h.toList] at hsorted
  obtain ⟨_, _, _, hfront, _⟩ := Cut.pairwise_iff.mp hsorted
  exact (hfront p hp).2 e he

theorem Covering.mem_back (h : Covering l time c) (hplaced : Placed l) {p : RangePeriod}
    (hp : p ∈ c.back) {e : RangePeriodListEntry} (he : e ∈ p.rangeQueryInfoList) :
    time < e.time := by
  have hmem : p ∈ l := by
    rw [← h.toList]
    exact List.mem_append_right _ (List.mem_cons_of_mem _ hp)
  exact Nat.lt_of_lt_of_le (h.back p hp) (hplaced.inside p hmem e he)

/-- One period gets other entries, within its bounds. -/
theorem Placed.replace {A B : List RangePeriod} {p p' : RangePeriod}
    (h : Placed (A ++ p :: B)) (htime : p'.time = p.time)
    (hlower : ∀ e ∈ p'.rangeQueryInfoList, p.time ≤ e.time)
    (hupper : ∀ e ∈ p'.rangeQueryInfoList, ∀ b ∈ B, e.time ≤ b.time) :
    Placed (A ++ p' :: B) := by
  obtain ⟨hsorted, hinside⟩ := h
  obtain ⟨hA, hB, hpB, hAp, hAB⟩ := Cut.pairwise_iff.mp hsorted
  refine ⟨Cut.pairwise_iff.mpr ⟨hA, hB, ?_, ?_, hAB⟩, ?_⟩
  · intro b hb
    exact ⟨htime ▸ (hpB b hb).1, fun e he => hupper e he b hb⟩
  · intro a ha
    exact ⟨htime ▸ (hAp a ha).1, fun e he => htime ▸ (hAp a ha).2 e he⟩
  · intro q hq
    simp only [List.mem_append, List.mem_cons] at hq
    cases hq with
    | inl hq => exact hinside q (List.mem_append_left _ hq)
    | inr hq =>
        cases hq with
        | inl hq =>
            subst hq
            exact fun e he => htime ▸ hlower e he
        | inr hq =>
            exact hinside q (List.mem_append_right _ (List.mem_cons_of_mem _ hq))

theorem Placed.setRange {A B : List RangePeriod} {p : RangePeriod} (h : Placed (A ++ p :: B))
    (range : Option Range) : Placed (A ++ p.setRange range :: B) := by
  obtain ⟨_, _, hpB, _, _⟩ := Cut.pairwise_iff.mp h.sorted
  refine h.replace rfl ?_ ?_
  · exact fun e he => h.inside p (by simp) e he
  · exact fun e he b hb => (hpB b hb).2 e he

theorem Placed.insertAfter {A B : List RangePeriod} {p n : RangePeriod}
    (h : Placed (A ++ p :: B)) (hp : Before p n) (hB : ∀ b ∈ B, Before n b)
    (hinside : ∀ e ∈ n.rangeQueryInfoList, n.time ≤ e.time) : Placed (A ++ p :: n :: B) := by
  obtain ⟨hpA, hpB, hAp, hA, hAB⟩ := Cut.pairwise_iff.mp h.sorted
  refine ⟨Cut.pairwise_iff.mpr ⟨hpA, List.pairwise_cons.mpr ⟨hB, hpB⟩, ?_, hA, ?_⟩, ?_⟩
  · exact List.forall_mem_cons.mpr ⟨hp, hAp⟩
  · intro a ha
    refine List.forall_mem_cons.mpr ⟨⟨Nat.lt_trans (hA a ha).1 hp.1, ?_⟩, hAB a ha⟩
    exact fun e he => Nat.le_trans ((hA a ha).2 e he) (Nat.le_of_lt hp.1)
  · intro q hq
    have hcases : q = n ∨ q ∈ A ++ p :: B := by
      simp only [List.mem_append, List.mem_cons] at hq ⊢
      tauto
    cases hcases with
    | inl hq => exact hq ▸ hinside
    | inr hq => exact h.inside q hq

theorem insertRangePeriod_append {A B : List RangePeriod} (hA : ∀ p ∈ A, p.time ≤ time)
    (hB : ∀ p ∈ B, time < p.time) (n : RangePeriod) :
    insertRangePeriod time n (A ++ B) = A ++ n :: B := by
  have hA' : ∀ p ∈ A, decide (p.time ≤ time) = true := by simpa using hA
  have hB' : ∀ p ∈ B, decide (p.time ≤ time) = false := by simpa using hB
  rw [insertRangePeriod, Cut.takeWhile_append hA' hB', Cut.dropWhile_append hA' hB']

theorem insertRangePeriod_first (hl : ∀ p ∈ l, time < p.time) (n : RangePeriod) :
    insertRangePeriod time n l = n :: l :=
  insertRangePeriod_append (A := []) (fun _ hp => absurd hp List.not_mem_nil) hl n

/-- What is moved goes next to the period of the walk. -/
theorem Covering.insertRangePeriod_migrate (h : Covering l time c) (hincreasing : Increasing l)
    (range : Option Range) :
    insertRangePeriod time (c.focus.migrateRangeQueryInfo (.create time range) time).2
        (c.front ++ (c.focus.migrateRangeQueryInfo (.create time range) time).1 :: c.back) =
      c.front ++ (c.focus.migrateRangeQueryInfo (.create time range) time).1 ::
        (c.focus.migrateRangeQueryInfo (.create time range) time).2 :: c.back := by
  have hbegun : ∀ q ∈ c.front ++ [(c.focus.migrateRangeQueryInfo (.create time range) time).1],
      q.time ≤ time := by
    intro q hq
    cases List.mem_append.mp hq with
    | inl hq =>
        exact Nat.le_trans (Nat.le_of_lt (h.front_lt_of_increasing hincreasing q hq)) h.focus
    | inr hq => exact List.mem_singleton.mp hq ▸ h.focus
  rw [List.append_cons c.front _ c.back, insertRangePeriod_append hbegun h.back,
    List.append_assoc, List.singleton_append]

theorem placed_insertFirst (hplaced : Placed l) (hlater : ∀ p ∈ l, time < p.time)
    (range : Option Range) : Placed (insertRangePeriod time (.create time range) l) := by
  rw [insertRangePeriod_first hlater]
  refine ⟨List.pairwise_cons.mpr ⟨?_, hplaced.sorted⟩,
    List.forall_mem_cons.mpr ⟨?_, hplaced.inside⟩⟩
  · exact fun q hq => ⟨hlater q hq, by simp [RangePeriod.create]⟩
  · simp [RangePeriod.create]

/-- The period of the walk is split at `time`, with what `migrateRangeQueryInfo` moves. -/
theorem Covering.placed_split (h : Covering l time c) (hplaced : Placed l)
    (hlt : c.focus.time < time) (range : Option Range) :
    Placed (c.front ++ (c.focus.migrateRangeQueryInfo (.create time range) time).1 ::
      (c.focus.migrateRangeQueryInfo (.create time range) time).2 :: c.back) := by
  rw [← h.toList, Cut.toList] at hplaced
  obtain ⟨_, _, hfocus, _, _⟩ := Cut.pairwise_iff.mp hplaced.sorted
  have hinside := hplaced.inside c.focus (by simp)
  have hkept : Placed (c.front ++
      (c.focus.migrateRangeQueryInfo (.create time range) time).1 :: c.back) := by
    refine hplaced.replace rfl ?_ ?_
    · exact fun e he => hinside e (List.mem_filter.mp he).1
    · exact fun e he b hb => (hfocus b hb).2 e (List.mem_filter.mp he).1
  have hmoved :
      ∀ e ∈ (c.focus.migrateRangeQueryInfo (.create time range) time).2.rangeQueryInfoList,
      e ∈ c.focus.rangeQueryInfoList ∧ time < e.time := by
    simp [RangePeriod.migrateRangeQueryInfo, RangePeriod.create]
  refine hkept.insertAfter ⟨hlt, ?_⟩ ?_ ?_
  · intro e he
    have hle : ¬ time < e.time := by simpa using (List.mem_filter.mp he).2
    exact Nat.le_of_not_lt hle
  · exact fun b hb => ⟨h.back b hb, fun e he => (hfocus b hb).2 e (hmoved e he).1⟩
  · exact fun e he => Nat.le_of_lt (hmoved e he).2

/-- The change at the period of the walk: a new range, or a split. -/
theorem Covering.updateAt_cases (h : Covering l time c) (hplaced : Placed l)
    (newRange : Option Range) :
    (∃ range, (updateAt c time newRange).1 = c.front ++ c.focus.setRange range :: c.back) ∨
    (c.focus.time < time ∧ (updateAt c time newRange).1 =
      c.front ++ (c.focus.migrateRangeQueryInfo (.create time newRange) time).1 ::
        (c.focus.migrateRangeQueryInfo (.create time newRange) time).2 :: c.back) := by
  have hsame : c.toList = c.front ++ c.focus.setRange c.focus.range :: c.back := rfl
  simp only [updateAt]
  split
  · rename_i new old hold
    split
    · split
      · rename_i hne
        right
        have hlt : c.focus.time < time := Nat.lt_of_le_of_ne h.focus hne
        exact ⟨hlt, h.insertRangePeriod_migrate hplaced.increasing _⟩
      · exact .inl ⟨_, rfl⟩
    · exact .inl ⟨_, hsame⟩
  · exact .inl ⟨_, rfl⟩

theorem Covering.placed_updateAt (h : Covering l time c) (hplaced : Placed l)
    (newRange : Option Range) : Placed (updateAt c time newRange).1 := by
  cases h.updateAt_cases hplaced newRange with
  | inl hset =>
      obtain ⟨range, hset⟩ := hset
      rw [hset]
      rw [← h.toList] at hplaced
      exact hplaced.setRange range
  | inr hsplit =>
      rw [hsplit.2]
      exact h.placed_split hplaced hsplit.1 newRange

/-- The periods behind the change are the same as before. -/
theorem Covering.dropWhile_updateAt (h : Covering l time c) (hplaced : Placed l)
    (newRange : Option Range) :
    (updateAt c time newRange).1.dropWhile (fun p => decide (p.time ≤ time)) = c.back := by
  have hback : ∀ p ∈ c.back, decide (p.time ≤ time) = false := by
    simpa using h.back
  have hfront : ∀ p ∈ c.front, p.time ≤ time := by
    intro p hp
    exact Nat.le_trans (Nat.le_of_lt (h.front_lt hplaced p hp)) h.focus
  cases h.updateAt_cases hplaced newRange with
  | inl hset =>
      obtain ⟨range, hset⟩ := hset
      rw [hset, List.append_cons]
      refine Cut.dropWhile_append ?_ hback
      simp only [List.forall_mem_append, List.forall_mem_singleton, decide_eq_true_eq]
      exact ⟨hfront, h.focus⟩
  | inr hsplit =>
      rw [hsplit.2, List.append_cons, List.append_cons]
      refine Cut.dropWhile_append ?_ hback
      simp only [List.forall_mem_append, List.forall_mem_singleton, decide_eq_true_eq]
      exact ⟨⟨hfront, h.focus⟩, Nat.le_refl time⟩

/-- Placement is about the times and the entries of the periods alone. -/
theorem placed_map_setRange : Placed (l.map (·.setRange none)) ↔ Placed l := by
  constructor
  · intro h
    have hsorted := List.pairwise_map.mp h.sorted
    exact ⟨hsorted, fun p hp => h.inside (p.setRange none) (List.mem_map_of_mem hp)⟩
  · intro h
    refine ⟨List.pairwise_map.mpr h.sorted, ?_⟩
    intro q hq
    obtain ⟨p, hp, hpq⟩ := List.mem_map.mp hq
    exact hpq ▸ h.inside p hp

theorem map_setRange_updateLater (oldValue newValue : Option Point) (time endTime : Nat)
    (recalculateRange : Nat → Option Range) (l : List RangePeriod)
    (rollbackList : RollbackList) :
    (updateLater oldValue newValue time endTime recalculateRange l rollbackList).1.map
      (·.setRange none) = l.map (·.setRange none) := by
  induction l generalizing rollbackList with
  | nil => rfl
  | cons p rest ih =>
      simp only [updateLater]
      split
      · simp only [List.map_cons, ih]
        rfl
      · rfl

variable (table : RangeRoutingTable)

theorem placed_modify (hplaced : Placed table.rangePeriodList) (f : RangePeriod → RangePeriod)
    (htime : ∀ p, (f p).time = p.time)
    (hentries : ∀ p, ∀ e ∈ (f p).rangeQueryInfoList, e ∈ p.rangeQueryInfoList ∨ e.time = time) :
    Placed (table.modify time f).rangePeriodList := by
  simp only [modify, walkBack]
  split
  · rename_i c hc
    have hcover := covering_of_last? hc
    rw [← hcover.toList, Cut.toList] at hplaced
    obtain ⟨_, _, hfocus, _, _⟩ := Cut.pairwise_iff.mp hplaced.sorted
    refine hplaced.replace (htime _) ?_ ?_
    · intro e he
      cases hentries c.focus e he with
      | inl he => exact hplaced.inside c.focus (by simp) e he
      | inr he => exact he ▸ hcover.focus
    · intro e he b hb
      cases hentries c.focus e he with
      | inl he => exact (hfocus b hb).2 e he
      | inr he => exact he ▸ Nat.le_of_lt (hcover.back b hb)
  · exact hplaced

theorem placed_addRangeQueryInfo (hplaced : Placed table.rangePeriodList)
    (time identifier : Nat) (range : Range) (blockStatus : Bool) (originalAlp : LpId) :
    Placed (table.addRangeQueryInfo time identifier range blockStatus
      originalAlp).rangePeriodList := by
  refine table.placed_modify hplaced _ (fun _ => rfl) ?_
  intro p e he
  simp only [RangePeriod.addToRangeQueryInfoList, List.mem_append, List.mem_singleton] at he
  exact he.imp_right fun he => by rw [he]

theorem placed_deleteRangeQueryInfo (hplaced : Placed table.rangePeriodList)
    (time identifier : Nat) :
    Placed (table.deleteRangeQueryInfo time identifier).rangePeriodList :=
  table.placed_modify hplaced _ (fun _ => rfl) fun _ _ he => .inl (List.mem_filter.mp he).1

theorem placed_clearRangePeriods (hplaced : Placed table.rangePeriodList) (time : Nat) :
    Placed (table.clearRangePeriods time).rangePeriodList := by
  simp only [clearRangePeriods, walkBack]
  split
  · exact hplaced
  · rename_i c hc
    have hcover := covering_of_last? hc
    have hplaced' := hplaced
    rw [← hcover.toList, Cut.toList] at hplaced'
    split
    · rename_i hne
      have hfront : ∀ p ∈ c.front, (p.time != time) = true := by
        intro p hp
        have := hcover.front_lt hplaced p hp
        have := hcover.focus
        simp only [bne_iff_ne, ne_eq]
        omega
      obtain ⟨_, hback, hfocus, _, _⟩ := Cut.pairwise_iff.mp hplaced'.sorted
      have hdrop : (c.front ++ (c.focus.setTime time).deleteFromRangeQueryInfoListByTime time ::
          c.back).dropWhile (fun p => p.time != time) =
            (c.focus.setTime time).deleteFromRangeQueryInfoListByTime time :: c.back := by
        rw [List.dropWhile_append_of_pos hfront, List.dropWhile_cons_of_neg]
        simp [RangePeriod.deleteFromRangeQueryInfoListByTime, RangePeriod.setTime]
      rw [hdrop]
      refine ⟨List.pairwise_cons.mpr ⟨?_, hback⟩, List.forall_mem_cons.mpr ⟨?_, ?_⟩⟩
      · exact fun b hb => ⟨hcover.back b hb, fun e he =>
          (hfocus b hb).2 e (List.mem_filter.mp he).1⟩
      · intro e he
        have hle : time ≤ e.time := by simpa using (List.mem_filter.mp he).2
        exact hle
      · exact fun b hb => hplaced'.inside b (by simp [hb])
    · have hsub := List.dropWhile_sublist (fun p : RangePeriod => p.time != time)
        (l := c.front ++ c.focus :: c.back)
      exact ⟨hplaced'.sorted.sublist hsub, fun p hp => hplaced'.inside p (hsub.subset hp)⟩

theorem placed_processRangeUpdate (hplaced : Placed table.rangePeriodList) (time : Nat)
    (range : Option Range) (rollbackList : RollbackList) :
    Placed (table.processRangeUpdate time range rollbackList).1.rangePeriodList := by
  simp only [processRangeUpdate, walkBack]
  split
  · rename_i hc
    exact placed_insertFirst hplaced (later_of_last?_none hc) range
  · rename_i c hc
    exact (covering_of_last? hc).placed_updateAt hplaced range

variable (oldValue newValue : Option Point) (newRange : Option Range)
variable (recalculateRange : Nat → Option Range) (rollbackList : RollbackList) (endTime : Nat)

theorem placed_update (hplaced : Placed table.rangePeriodList) :
    Placed (table.update oldValue newValue time newRange recalculateRange rollbackList
      endTime).1.rangePeriodList := by
  simp only [update]
  split
  · rename_i hc
    exact placed_insertFirst hplaced (later_of_last?_none hc) newRange
  · rename_i c hc
    have hat := (covering_of_last? hc).placed_updateAt hplaced newRange
    split
    · split
      · exact hat
      · rename_i next rest hbehind
        rw [← List.takeWhile_append_dropWhile (p := fun p => decide (p.time ≤ time))
          (l := (updateAt c time newRange).1), hbehind] at hat
        rw [← placed_map_setRange] at hat ⊢
        simpa only [List.map_append, List.map_cons, map_setRange_updateLater] using hat
    · exact hat

/-- The entries an update looks at: those after `time` in the period it changes, and those
of the periods from the second later one on that start before the end time. -/
def searched (table : RangeRoutingTable) (time endTime : Nat) : List RangePeriodListEntry :=
  match table.walkBack time with
  | none => []
  | some c =>
      (c.focus.rangeQueryInfoList.filter fun e => decide (e.time > time)) ++
        recorded ((c.back.drop 1).takeWhile fun p => decide (p.time < endTime))

theorem Covering.laterPeriods_updateAt (h : Covering l time c) (hplaced : Placed l)
    (newRange : Option Range) (endTime : Nat) :
    laterPeriods (updateAt c time newRange).1 time endTime =
      (c.back.drop 1).takeWhile fun p => decide (p.time < endTime) := by
  have hdrop := h.dropWhile_updateAt hplaced newRange
  simp only [laterPeriods, hdrop]
  split
  · rfl
  · rename_i hshort
    -- with two later periods the source starts its loop
    cases hback : c.back with
    | nil => rfl
    | cons next later =>
        cases later with
        | nil => rfl
        | cons second rest =>
            exfalso
            obtain ⟨front, hfront⟩ := List.dropWhile_suffix (fun p => decide (p.time ≤ time))
              (l := (updateAt c time newRange).1)
            rw [hdrop, hback] at hfront
            apply hshort
            rw [← hfront]
            refine ⟨by simp only [List.length_append, List.length_cons]; omega, ?_⟩
            have hlast : (front ++ next :: second :: rest).getLast? =
                (next :: second :: rest).getLast? := by
              rw [List.getLast?_append_cons]
            rw [hlast]
            intro htime
            obtain ⟨p, hp, hpt⟩ := Option.map_eq_some_iff.mp htime
            have := h.back p (hback ▸ List.mem_of_getLast? hp)
            omega

/-- An update calls for the entries it looks at, if the change touches them. -/
theorem update_calls (hplaced : Placed table.rangePeriodList) :
    (table.update oldValue newValue time newRange recalculateRange rollbackList
      endTime).2.calls =
        rollbackList.calls ++ callsFor
          ((table.searched time endTime).filter (RangePeriod.touches oldValue newValue)) := by
  cases hc : Cut.last? (fun p => decide (p.time ≤ time)) table.rangePeriodList with
  | none =>
      rw [update_calls_of_none table _ _ _ _ _ _ _ hc]
      simp [searched, walkBack, hc, callsFor]
  | some c =>
      have hcover := covering_of_last? hc
      rw [update_calls_of_cut table _ _ _ _ _ _ _ hc]
      simp only [searched, walkBack, hc, reached, hcover.laterPeriods_updateAt hplaced,
        List.filter_append, List.filter_filter, Bool.and_comm]

/-- Where an update at `time` looks for an entry of the period `p`. The first period that
starts later is left out, and without a period at or before `time` nothing is looked at. -/
def Searched (l : List RangePeriod) (time endTime : Nat) (p : RangePeriod)
    (e : RangePeriodListEntry) : Prop :=
  time < e.time ∧ (∃ r ∈ l, r.time ≤ time) ∧
    (p.time ≤ time ∨ p.time < endTime ∧ ∃ r ∈ l, time < r.time ∧ r.time < p.time)

instance (l : List RangePeriod) (time endTime : Nat) (p : RangePeriod)
    (e : RangePeriodListEntry) : Decidable (Searched l time endTime p e) :=
  inferInstanceAs (Decidable (_ ∧ (∃ r ∈ l, r.time ≤ time) ∧ (_ ∨ _ ∧ ∃ r ∈ l, _ ∧ _)))

theorem mem_searched_iff (hplaced : Placed table.rangePeriodList) {e : RangePeriodListEntry} :
    e ∈ table.searched time endTime ↔
      ∃ p ∈ table.rangePeriodList, e ∈ p.rangeQueryInfoList ∧
        Searched table.rangePeriodList time endTime p e := by
  cases hc : table.walkBack time with
  | none =>
      have hlater := later_of_last?_none hc
      simp only [searched, hc, List.not_mem_nil, false_iff]
      intro h
      obtain ⟨_, _, _, _, ⟨r, hr, hle⟩, _⟩ := h
      exact absurd hle (Nat.not_le.mpr (hlater r hr))
  | some c =>
      have hcover := covering_of_last? hc
      have hsorted := hplaced.sorted
      rw [← hcover.toList] at hsorted
      obtain ⟨_, hback, _, _, _⟩ := Cut.pairwise_iff.mp hsorted
      have hfocus : c.focus ∈ table.rangePeriodList := Cut.focus_mem hcover.toList
      have hmem : ∀ p ∈ c.back, p ∈ table.rangePeriodList := by
        intro p hp
        rw [← hcover.toList]
        exact List.mem_append_right _ (List.mem_cons_of_mem _ hp)
      have htake : ∀ p, p ∈ (c.back.drop 1).takeWhile (fun p => decide (p.time < endTime)) ↔
          p ∈ c.back.drop 1 ∧ p.time < endTime := by
        intro p
        rw [Cut.mem_takeWhile (hback.sublist (List.drop_sublist 1 _))]
        · simp
        · intro x y hxy hy
          simp only [decide_eq_true_eq] at hy ⊢
          exact Nat.lt_trans hxy.1 hy
      simp only [searched, hc, List.mem_append, List.mem_filter, mem_recorded, htake,
        decide_eq_true_eq]
      constructor
      · intro h
        cases h with
        | inl h => exact ⟨c.focus, hfocus, h.1, h.2, ⟨c.focus, hfocus, hcover.focus⟩,
            .inl hcover.focus⟩
        | inr h =>
            obtain ⟨p, ⟨hp, hend⟩, he⟩ := h
            have hpback := (List.drop_sublist 1 _).subset hp
            refine ⟨p, hmem p hpback, he, hcover.mem_back hplaced hpback he,
              ⟨c.focus, hfocus, hcover.focus⟩, .inr ⟨hend, ?_⟩⟩
            cases hl : c.back with
            | nil => simp [hl] at hpback
            | cons next rest =>
                rw [hl] at hback hp
                refine ⟨next, hmem next (by simp [hl]), hcover.back next (by simp [hl]), ?_⟩
                exact ((List.pairwise_cons.mp hback).1 p hp).1
      · intro h
        obtain ⟨p, hp, he, hlt, _, hplace⟩ := h
        rw [← hcover.toList, Cut.toList, List.mem_append, List.mem_cons] at hp
        have hin : ∀ r ∈ table.rangePeriodList, time < r.time → r ∈ c.back := by
          intro r hr hlater
          rw [← hcover.toList, Cut.toList, List.mem_append, List.mem_cons] at hr
          have hle := hcover.focus
          cases hr with
          | inl hr =>
              have := hcover.front_lt hplaced r hr
              omega
          | inr hr => exact hr.resolve_left fun heq => by subst heq; omega
        cases hp with
        | inl hp =>
            have := hcover.mem_front hplaced hp he
            have := hcover.focus
            omega
        | inr hp =>
            cases hp with
            | inl hp => exact .inl (hp ▸ ⟨he, hlt⟩)
            | inr hp =>
                right
                have hlater := hcover.back p hp
                obtain ⟨hend, r, hr, hrlater, hrp⟩ := hplace.resolve_left (by omega)
                refine ⟨p, ⟨?_, hend⟩, he⟩
                have hrback := hin r hr hrlater
                cases hl : c.back with
                | nil => simp [hl] at hp
                | cons next rest =>
                    rw [hl] at hback hp hrback
                    refine (List.mem_cons.mp hp).resolve_left fun heq => ?_
                    subst heq
                    cases List.mem_cons.mp hrback with
                    | inl heq => exact absurd hrp (heq ▸ Nat.lt_irrefl _)
                    | inr hrrest =>
                        have := ((List.pairwise_cons.mp hback).1 r hrrest).1
                        omega

end RangeRoutingTable
end PdesMas
