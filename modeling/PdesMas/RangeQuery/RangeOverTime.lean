import PdesMas.RangeQuery.RangePeriods

/-!
What the periods of a range table say over time. A period goes on until the next
one begins, and a change at a time gives its range to the rest of the period it
falls in. Where there was no range before, or is none after, the whole period is
overwritten, so that such a change has to come at the start of a period.
-/

namespace PdesMas

namespace RangeRoutingTable

/-- The range that the periods give at `t`, as `GetRangeCopy` finds it. -/
def rangeAt (l : List RangePeriod) (t : Nat) : Option Range :=
  (Cut.last? (fun p => decide (p.time ≤ t)) l).bind fun c => c.focus.range

theorem getRangeCopy_eq (table : RangeRoutingTable) (t : Nat) :
    table.getRangeCopy t = rangeAt table.rangePeriodList t := rfl

/-- No period begins after `time` and by `t`. -/
def SamePeriod (l : List RangePeriod) (time t : Nat) : Prop :=
  time ≤ t ∧ ∀ p ∈ l, p.time ≤ t → p.time ≤ time

instance (l : List RangePeriod) (time t : Nat) : Decidable (SamePeriod l time t) :=
  inferInstanceAs (Decidable (_ ∧ _))

/-- No period that began before goes on at `time`. -/
def AtStart (l : List RangePeriod) (time : Nat) : Prop :=
  ∀ p ∈ l, p.time < time → ¬ SamePeriod l p.time time

instance (l : List RangePeriod) (time : Nat) : Decidable (AtStart l time) :=
  inferInstanceAs (Decidable (∀ p ∈ l, _ → ¬ _))

/-- A change to `range` at `time` says nothing about the times before. -/
def Confined (l : List RangePeriod) (time : Nat) (range : Option Range) : Prop :=
  range.isSome = (rangeAt l time).isSome ∨ AtStart l time

instance (l : List RangePeriod) (time : Nat) (range : Option Range) :
    Decidable (Confined l time range) := inferInstanceAs (Decidable (_ ∨ _))

variable {l A B : List RangePeriod} {p : RangePeriod} {c : Cut RangePeriod} {time t : Nat}

section Walk

theorem rangeAt_eq (l : List RangePeriod) (t : Nat) :
    rangeAt l t = (periodAt l t).bind fun p => p.range := by
  rw [← walkBack_focus ⟨l, []⟩ t, Option.bind_map]
  rfl

theorem Covering.rangeAt (h : Covering l t c) : rangeAt l t = c.focus.range := by
  rw [rangeAt_eq, h.periodAt]
  rfl

theorem rangeAt_of_later (hl : ∀ q ∈ l, t < q.time) : rangeAt l t = none := by
  rw [rangeAt_eq, periodAt_eq_none_iff.mpr hl]
  rfl

theorem rangeAt_focus (hp : p.time ≤ t) (hB : ∀ q ∈ B, t < q.time) :
    rangeAt (A ++ p :: B) t = p.range := by
  have hcover : Covering (A ++ p :: B) t ⟨A, p, B⟩ := ⟨rfl, hp, hB⟩
  exact hcover.rangeAt

/-- The periods that begin later say nothing. -/
theorem rangeAt_append_of_later (hB : ∀ q ∈ B, t < q.time) :
    rangeAt (A ++ B) t = rangeAt A t := by
  rw [rangeAt_eq, periodAt_append, periodAt_eq_none_iff.mpr hB, Option.none_or, ← rangeAt_eq]

/-- Where a period has begun in the back, the front says nothing. -/
theorem rangeAt_append_of_begun (hB : ¬ ∀ q ∈ B, t < q.time) :
    rangeAt (A ++ B) t = rangeAt B t := by
  cases hp : periodAt B t with
  | none => exact absurd (periodAt_eq_none_iff.mp hp) hB
  | some p => rw [rangeAt_eq, rangeAt_eq, periodAt_append, hp, Option.some_or]

theorem Covering.samePeriod_iff (h : Covering l time c) (hincreasing : Increasing l) :
    SamePeriod l time t ↔ time ≤ t ∧ ∀ q ∈ c.back, t < q.time := by
  have hmem : ∀ q ∈ c.back, q ∈ l := by
    intro q hq
    rw [← h.toList]
    exact List.mem_append_right _ (List.mem_cons_of_mem _ hq)
  constructor
  · intro hsame
    refine ⟨hsame.1, fun q hq => ?_⟩
    by_contra hle
    have htime := hsame.2 q (hmem q hq) (Nat.le_of_not_lt hle)
    exact Nat.not_lt_of_le htime (h.back q hq)
  · intro hlater
    refine ⟨hlater.1, fun q hq hle => ?_⟩
    rw [← h.toList] at hq
    simp only [Cut.toList, List.mem_append, List.mem_cons] at hq
    rcases hq with hq | hq | hq
    · exact Nat.le_trans (Nat.le_of_lt (h.front_lt_of_increasing hincreasing q hq)) h.focus
    · exact hq ▸ h.focus
    · exact absurd hle (Nat.not_le_of_lt (hlater.2 q hq))

/-- The period that covers a time goes on up to it. -/
theorem Covering.samePeriod_focus (h : Covering l time c) (hincreasing : Increasing l) :
    SamePeriod l c.focus.time time := by
  refine ⟨h.focus, fun q hq hle => ?_⟩
  rw [← h.toList, Cut.toList, List.mem_append, List.mem_cons] at hq
  rcases hq with hq | hq | hq
  · exact Nat.le_of_lt (h.front_lt_of_increasing hincreasing q hq)
  · exact Nat.le_of_eq (congrArg RangePeriod.time hq)
  · exact absurd hle (Nat.not_le_of_lt (h.back q hq))

theorem samePeriod_refl (l : List RangePeriod) (t : Nat) : SamePeriod l t t :=
  ⟨Nat.le_refl t, fun _ _ hle => hle⟩

theorem SamePeriod.trans {t' : Nat} (h : SamePeriod l time t) (h' : SamePeriod l t t') :
    SamePeriod l time t' :=
  ⟨Nat.le_trans h.1 h'.1, fun p hp hle => h.2 p hp (h'.2 p hp hle)⟩

theorem SamePeriod.mono {t' : Nat} (h : SamePeriod l time t) (hle : time ≤ t') (hle' : t' ≤ t) :
    SamePeriod l time t' := ⟨hle, fun p hp hpt => h.2 p hp (Nat.le_trans hpt hle')⟩

/-- Within a period the range stays the same. -/
theorem SamePeriod.rangeAt (h : SamePeriod l time t) : rangeAt l t = rangeAt l time := by
  have hiff : ∀ p ∈ l, decide (p.time ≤ t) = decide (p.time ≤ time) := by
    intro p hp
    simp only [decide_eq_decide]
    exact ⟨h.2 p hp, fun hle => Nat.le_trans hle h.1⟩
  have hlast : Cut.last? (fun p => decide (p.time ≤ t)) l =
      Cut.last? (fun p => decide (p.time ≤ time)) l := by
    clear h
    induction l with
    | nil => rfl
    | cons p rest ih =>
        simp only [Cut.last?, hiff p List.mem_cons_self,
          ih fun q hq => hiff q (List.mem_cons_of_mem _ hq)]
  rw [RangeRoutingTable.rangeAt, RangeRoutingTable.rangeAt, hlast]

/-- The period of the list that has gone on up to `t` gives the range. -/
theorem rangeAt_of_mem (hincreasing : Increasing l) (hp : p ∈ l) (hsame : SamePeriod l p.time t) :
    RangeRoutingTable.rangeAt l t = p.range := by
  cases hc : Cut.last? (fun p => decide (p.time ≤ t)) l with
  | none => exact absurd hsame.1 (Nat.not_le_of_lt (later_of_last?_none hc p hp))
  | some c =>
      have hcover := covering_of_last? hc
      have hfocus := hsame.2 c.focus (Cut.focus_mem hcover.toList) hcover.focus
      rw [hcover.rangeAt]
      rw [← hcover.toList, Cut.toList, List.mem_append, List.mem_cons] at hp
      rcases hp with hp | rfl | hp
      · exact absurd hfocus
          (Nat.not_le_of_lt (hcover.front_lt_of_increasing hincreasing p hp))
      · rfl
      · exact absurd hsame.1 (Nat.not_le_of_lt (hcover.back p hp))

/-- A time that another period has begun by is in a period that starts later. -/
theorem exists_later_of_not_samePeriod (hincreasing : Increasing l) (hle : time ≤ t)
    (hnot : ¬ SamePeriod l time t) : ∃ p ∈ l, time < p.time ∧ SamePeriod l p.time t := by
  obtain ⟨q, hq, hqt, hlt⟩ : ∃ q ∈ l, q.time ≤ t ∧ time < q.time := by
    by_contra hnone
    exact hnot ⟨hle, fun q hq hqt => Nat.le_of_not_lt fun hlt => hnone ⟨q, hq, hqt, hlt⟩⟩
  cases hc : Cut.last? (fun p => decide (p.time ≤ t)) l with
  | none => exact absurd hqt (Nat.not_le_of_lt (later_of_last?_none hc q hq))
  | some c =>
      have hcover := covering_of_last? hc
      have hsame := hcover.samePeriod_focus hincreasing
      exact ⟨c.focus, Cut.focus_mem hcover.toList, Nat.lt_of_lt_of_le hlt (hsame.2 q hq hqt), hsame⟩

end Walk

section Change

variable {range : Option Range}

/-- The periods after `ProcessRangeUpdate`. -/
def setRangeAt (l : List RangePeriod) (time : Nat) (range : Option Range) : List RangePeriod :=
  match Cut.last? (fun p => decide (p.time ≤ time)) l with
  | none => insertRangePeriod time (.create time range) l
  | some c => (updateAt c time range).1

/-- The updates that it leaves to be sent: none, where the range is there already. -/
def announced (l : List RangePeriod) (time : Nat) (range : Option Range) : List RangeUpdates :=
  if range.isSome ∧ range = rangeAt l time then [] else [⟨time, range, rangeAt l time⟩]

theorem Covering.updateAt_announced (h : Covering l time c) (range : Option Range) :
    (updateAt c time range).2 = announced l time range := by
  rw [announced, h.rangeAt]
  simp only [updateAt]
  split
  · rename_i new old hold
    by_cases heq : new = old
    · rw [if_neg (not_not_intro heq), if_pos ⟨rfl, by rw [hold, heq]⟩]
    · have hsent : ¬ ((some new).isSome ∧ some new = c.focus.range) := fun hsame =>
        heq (Option.some.inj (hsame.2.trans hold))
      rw [if_pos heq, if_neg hsent]
      split <;> rfl
  · rename_i hnone
    rw [if_neg]
    intro hsame
    obtain ⟨new, hnew⟩ := Option.isSome_iff_exists.mp hsame.1
    exact hnone new new hnew (hsame.2.symm.trans hnew)

theorem processRangeUpdate_eq (table : RangeRoutingTable) (time : Nat) (range : Option Range)
    (rollbackList : RollbackList) :
    (table.processRangeUpdate time range rollbackList).1 =
      ⟨setRangeAt table.rangePeriodList time range,
        table.rangeUpdateList ++ announced table.rangePeriodList time range⟩ := by
  cases hc : Cut.last? (fun p => decide (p.time ≤ time)) table.rangePeriodList with
  | none =>
      have hnone : rangeAt table.rangePeriodList time = none :=
        rangeAt_of_later (later_of_last?_none hc)
      have hsent : ¬ (range.isSome ∧ range = none) := by
        intro hsame
        rw [hsame.2] at hsame
        cases hsame.1
      simp only [processRangeUpdate, walkBack, setRangeAt, hc, announced, hnone, if_neg hsent]
  | some c =>
      simp only [processRangeUpdate, walkBack, setRangeAt, hc,
        (covering_of_last? hc).updateAt_announced]

theorem placed_setRangeAt (hplaced : Placed l) (time : Nat) (range : Option Range) :
    Placed (setRangeAt l time range) := by
  have hprocessed := placed_processRangeUpdate ⟨l, []⟩ hplaced time range .empty
  rwa [processRangeUpdate_eq] at hprocessed

/-- A change leaves the periods alone, overwrites the one it falls in or splits it. -/
inductive ChangeAt (l : List RangePeriod) (c : Cut RangePeriod) (time : Nat)
    (range : Option Range) : List RangePeriod → Prop
  | kept (hrange : c.focus.range = range) : ChangeAt l c time range l
  | overwritten (hstart : c.focus.time = time ∨ ¬ (range.isSome ∧ c.focus.range.isSome)) :
      ChangeAt l c time range (c.front ++ c.focus.setRange range :: c.back)
  | split (hlt : c.focus.time < time) (hsome : range.isSome = c.focus.range.isSome) :
      ChangeAt l c time range
        (c.front ++ (c.focus.migrateRangeQueryInfo (.create time range) time).1 ::
          (c.focus.migrateRangeQueryInfo (.create time range) time).2 :: c.back)

theorem Covering.changeAt (h : Covering l time c) (hincreasing : Increasing l)
    (range : Option Range) : ChangeAt l c time range (updateAt c time range).1 := by
  simp only [updateAt]
  split
  · rename_i new old hold
    split
    · split
      · rename_i htime
        have hlt : c.focus.time < time := Nat.lt_of_le_of_ne h.focus htime
        rw [h.insertRangePeriod_migrate hincreasing]
        exact .split hlt (by rw [hold]; rfl)
      · rename_i htime
        exact .overwritten (.inl (not_ne_iff.mp htime))
    · rename_i heq
      rw [h.toList]
      exact .kept (by rw [hold, not_ne_iff.mp heq])
  · rename_i hnone
    refine .overwritten (.inr fun hsome => ?_)
    obtain ⟨new, hnew⟩ := Option.isSome_iff_exists.mp hsome.1
    obtain ⟨old, hold⟩ := Option.isSome_iff_exists.mp hsome.2
    exact hnone new old hnew hold

/-- The rest of the period gets the range. -/
theorem ChangeAt.rangeAt_same {l' : List RangePeriod} (hchange : ChangeAt l c time range l')
    (h : Covering l time c) (hincreasing : Increasing l) (hsame : SamePeriod l time t) :
    rangeAt l' t = range := by
  obtain ⟨hle, hback⟩ := (h.samePeriod_iff hincreasing).mp hsame
  cases hchange with
  | kept hrange => rw [hsame.rangeAt, h.rangeAt, hrange]
  | overwritten => exact rangeAt_focus (Nat.le_trans h.focus hle) hback
  | split =>
      rw [List.append_cons]
      exact rangeAt_focus hle hback

/-- Other periods keep their ranges. -/
theorem ChangeAt.rangeAt_other {l' : List RangePeriod} (hchange : ChangeAt l c time range l')
    (h : Covering l time c) (hincreasing : Increasing l) (hconfined : Confined l time range)
    (hnot : ¬ SamePeriod l time t) : rangeAt l' t = rangeAt l t := by
  have hl : c.front ++ c.focus :: c.back = l := h.toList
  have hnot' : time ≤ t → ¬ ∀ q ∈ c.back, t < q.time := fun hle hback =>
    hnot ((h.samePeriod_iff hincreasing).mpr ⟨hle, hback⟩)
  cases hchange with
  | kept => rfl
  | overwritten hstart =>
      by_cases htime : c.focus.time = time
      · rw [← hl]
        by_cases hback : ∀ q ∈ c.back, t < q.time
        · have hlater (p : RangePeriod) (hp : p.time = time) : ∀ q ∈ p :: c.back, t < q.time :=
            List.forall_mem_cons.mpr
              ⟨hp ▸ Nat.lt_of_not_le fun hle => hnot' hle hback, hback⟩
          rw [rangeAt_append_of_later (hlater c.focus htime)]
          exact rangeAt_append_of_later (hlater (c.focus.setRange range) htime)
        · rw [List.append_cons, rangeAt_append_of_begun hback, List.append_cons c.front c.focus,
            rangeAt_append_of_begun hback]
      · -- the period began before, so that there is no range, neither before nor after
        have hfocus : c.focus ∈ l := Cut.focus_mem h.toList
        have hsame := h.samePeriod_focus hincreasing
        have heq : range = c.focus.range := by
          have hnone := hstart.resolve_left htime
          cases hconfined with
          | inr hatStart =>
              exact absurd hsame (hatStart c.focus hfocus (Nat.lt_of_le_of_ne h.focus htime))
          | inl hsome =>
              rw [h.rangeAt] at hsome
              cases hrange : range with
              | none =>
                  rw [hrange, Option.isSome_none, eq_comm, Option.isSome_eq_false_iff,
                    Option.isNone_iff_eq_none] at hsome
                  exact hsome.symm
              | some new =>
                  rw [hrange] at hsome hnone
                  exact absurd ⟨rfl, hsome.symm⟩ hnone
        rw [heq]
        exact congrArg (rangeAt · t) hl
  | split hlt hsome =>
      rw [← hl]
      by_cases hback : ∀ q ∈ c.back, t < q.time
      · have hbefore : t < time := Nat.lt_of_not_le fun hle => hnot' hle hback
        have hlater : ∀ q ∈ (c.focus.migrateRangeQueryInfo (.create time range) time).2 ::
            c.back, t < q.time := List.forall_mem_cons.mpr ⟨hbefore, hback⟩
        by_cases hfocus : c.focus.time ≤ t
        · rw [rangeAt_focus hfocus hback]
          exact rangeAt_focus hfocus hlater
        · have hlater' (p : RangePeriod) (hp : p.time = c.focus.time) (B : List RangePeriod)
              (hB : ∀ q ∈ B, t < q.time) : ∀ q ∈ p :: B, t < q.time :=
            List.forall_mem_cons.mpr ⟨hp ▸ Nat.lt_of_not_le hfocus, hB⟩
          rw [rangeAt_append_of_later (hlater' c.focus rfl _ hback)]
          exact rangeAt_append_of_later (hlater' (c.focus.migrateRangeQueryInfo
            (.create time range) time).1 rfl _ hlater)
      · rw [List.append_cons, List.append_cons, rangeAt_append_of_begun hback,
          List.append_cons c.front c.focus, rangeAt_append_of_begun hback]

/-- A change that is confined gives its range to the rest of the period and to no other time. -/
theorem rangeAt_setRangeAt (hincreasing : Increasing l) (hconfined : Confined l time range)
    (t : Nat) :
    rangeAt (setRangeAt l time range) t = if SamePeriod l time t then range else rangeAt l t := by
  simp only [setRangeAt]
  split
  · rename_i hc
    have hlater := later_of_last?_none hc
    rw [insertRangePeriod_first hlater]
    split
    · rename_i hsame
      refine rangeAt_focus (A := []) hsame.1 fun q hq => ?_
      exact Nat.lt_of_not_le fun hle => Nat.not_lt_of_le (hsame.2 q hq hle) (hlater q hq)
    · rename_i hnot
      by_cases hl : ∀ q ∈ l, t < q.time
      · have hbefore : t < time := Nat.lt_of_not_le fun hle =>
          hnot ⟨hle, fun q hq hqt => absurd (hl q hq) (Nat.not_lt_of_le hqt)⟩
        rw [rangeAt_of_later hl, rangeAt_of_later (List.forall_mem_cons.mpr ⟨hbefore, hl⟩)]
      · exact rangeAt_append_of_begun (A := [_]) hl
  · rename_i c hc
    have hcover := covering_of_last? hc
    have hchange := hcover.changeAt hincreasing range
    split
    · rename_i hsame
      exact hchange.rangeAt_same hcover hincreasing hsame
    · rename_i hnot
      exact hchange.rangeAt_other hcover hincreasing hconfined hnot

/-- A period starts where none goes on. -/
theorem atStart_of_mem (hp : p ∈ l) : AtStart l p.time := by
  intro q _ hlt hsame
  exact Nat.not_le_of_lt hlt (hsame.2 p hp (Nat.le_refl _))

/-- A change that is not confined is one at the start of the period. -/
theorem setRangeAt_of_mem (hp : p ∈ l) (hlt : p.time < time) (hsame : SamePeriod l p.time time)
    (hsome : range.isSome ≠ (rangeAt l time).isSome) :
    setRangeAt l time range = setRangeAt l p.time range := by
  cases hc : Cut.last? (fun p => decide (p.time ≤ time)) l with
  | none => exact absurd (later_of_last?_none hc p hp) (Nat.not_lt_of_lt hlt)
  | some c =>
      have hcover := covering_of_last? hc
      have hfocus : c.focus.time ≤ p.time :=
        hsame.2 c.focus (Cut.focus_mem hcover.toList) hcover.focus
      have hc' : Cut.last? (fun q => decide (q.time ≤ p.time)) l = some c := by
        refine Cut.last?_eq_some.mpr ⟨hcover.toList, decide_eq_true hfocus, fun q hq => ?_⟩
        exact decide_eq_false (Nat.not_le_of_lt (Nat.lt_trans hlt (hcover.back q hq)))
      rw [hcover.rangeAt] at hsome
      simp only [setRangeAt, hc, hc', updateAt]
      cases range with
      | none => rfl
      | some new =>
          cases hold : c.focus.range with
          | none => rfl
          | some old =>
              rw [hold] at hsome
              exact absurd rfl hsome

/-- An update acts on the rest of its period and on nothing else exactly if it is confined. -/
theorem processRangeUpdate_frame_iff (table : RangeRoutingTable) (time : Nat)
    (range : Option Range) (rollbackList : RollbackList)
    (hincreasing : Increasing table.rangePeriodList) :
    (∀ t, (table.processRangeUpdate time range rollbackList).1.getRangeCopy t =
      if SamePeriod table.rangePeriodList time t then range else table.getRangeCopy t) ↔
      Confined table.rangePeriodList time range := by
  simp only [getRangeCopy_eq, processRangeUpdate_eq]
  constructor
  · intro h
    by_contra hnot
    simp only [Confined, AtStart, not_or, not_forall, not_not] at hnot
    obtain ⟨hsome, p, hp, hlt, hsame⟩ := hnot
    have hstart := h p.time
    rw [setRangeAt_of_mem hp hlt hsame hsome,
      rangeAt_setRangeAt hincreasing (.inr (atStart_of_mem hp)), if_pos (samePeriod_refl _ _),
      if_neg fun hlater => Nat.not_le_of_lt hlt hlater.1, ← hsame.rangeAt] at hstart
    exact hsome (congrArg Option.isSome hstart)
  · exact fun hconfined t => rangeAt_setRangeAt hincreasing hconfined t

/-- One range from the start on. -/
private def oneRangeTable : RangeRoutingTable :=
  ⟨[.create 0 (some ⟨⟨1, 1⟩, ⟨2, 2⟩⟩)], []⟩

theorem processRangeUpdate_frame_iff_split :
    Confined oneRangeTable.rangePeriodList 5 (some ⟨⟨1, 1⟩, ⟨3, 3⟩⟩) ∧
      ((∀ t, (oneRangeTable.processRangeUpdate 5 (some ⟨⟨1, 1⟩, ⟨3, 3⟩⟩) .empty).1.getRangeCopy t =
        if SamePeriod oneRangeTable.rangePeriodList 5 t then some ⟨⟨1, 1⟩, ⟨3, 3⟩⟩
        else oneRangeTable.getRangeCopy t) ↔
        Confined oneRangeTable.rangePeriodList 5 (some ⟨⟨1, 1⟩, ⟨3, 3⟩⟩)) :=
  ⟨by decide, processRangeUpdate_frame_iff oneRangeTable 5 _ .empty (by decide)⟩

/-- With no range left at 5, there has been none since 0. -/
theorem null_range_reaches_back :
    Increasing oneRangeTable.rangePeriodList ∧ ¬ SamePeriod oneRangeTable.rangePeriodList 5 4 ∧
      oneRangeTable.getRangeCopy 4 = some ⟨⟨1, 1⟩, ⟨2, 2⟩⟩ ∧
      (oneRangeTable.processRangeUpdate 5 none .empty).1.getRangeCopy 4 = none := by
  decide

end Change

end RangeRoutingTable
end PdesMas
